import Atomicles.Daemon.StatusLine
import Atomicles.Interaction.Program

/-!
# `atomicles`

The script that runs `daemonize` for the services of a configuration.  The
configuration comes from a package and is given by what is read from it; a
shell command and a pause are calls.
-/

namespace Atomicles.Script

open Interaction CommandLine

/-- What the script does besides computing. -/
inductive Act where
  /-- `Popen(cmd, shell=True)` and `communicate`. -/
  | communicate (cmd : Text)
  | write (text : Text)
  /-- `sleep(1)`. -/
  | sleep

def signature : Signature where
  Call := Act
  Answer
    | .communicate _ => Text
    | .write _ => Unit
    | .sleep => Unit

abbrev Prog := Program signature

/-- `stdout.write`. -/
def write (text : Text) : Prog Unit :=
  .issue (.write text) fun _ => .done ()

def sleep : Prog Unit :=
  .issue .sleep fun _ => .done ()

/-- `getoutput`, which strips the output. -/
def getoutput (cmd : Text) : Prog Text :=
  .issue (.communicate cmd) fun (so : Text) => .done (Daemon.strip so)

/-- What `cFM` gives, where it does not raise an exception. -/
structure Config where
  sections : List Text
  service : Text → Option Text
  /-- The channel, after `int`. -/
  channel : Text → Option Int
  command : Text → Option Text

/-- The members of `ACTIONS`. -/
inductive Verb where
  | start | stop | restart | status
deriving DecidableEq, Repr

def ACTIONS : List (Text × Verb) :=
  [("start".toList, .start), ("stop".toList, .stop),
    ("restart".toList, .restart), ("status".toList, .status)]

section Commands

variable (daemonize : Text)

/-- `"%s --status %d"`. -/
def statusCommand (channel : Int) : Text :=
  daemonize ++ " --status ".toList ++ decimal channel

/-- `"%s --stop %d"`. -/
def stopCommand (channel : Int) : Text :=
  daemonize ++ " --stop ".toList ++ decimal channel

/-- `"%s --start %d -- %s"`. -/
def startCommand (channel : Int) (command : Text) : Text :=
  daemonize ++ " --start ".toList ++ decimal channel ++ " -- ".toList ++
    command

/-- The branches for an enabled service. -/
def control (verb : Verb) (channel : Int) (command : Text) : Prog Unit :=
  match verb with
  | .stop => do
      let output ← getoutput (stopCommand daemonize channel)
      write (output ++ ['\n'])
  | .start => do
      let output ← getoutput (startCommand daemonize channel command)
      write (output ++ ['\n'])
  | .restart => do
      let output ← getoutput (stopCommand daemonize channel)
      write output
      sleep
      let output ← getoutput (startCommand daemonize channel command)
      write (output ++ ['\n'])
  | .status => return ()

/-- The body of the loop over the services; `none` is an exception. -/
def serve (config : Config) (verb : Verb) (manual_eq_enabled : Bool)
    («section» : Text) : Prog (Option Unit) :=
  match config.service «section», config.channel «section» with
  | some service, some channel =>
      if verb = .status then do
        let output ← getoutput (statusCommand daemonize channel)
        match Daemon.format
            («section» :: service :: Daemon.split output) with
        | some line => do
            write line
            return some ()
        | none => return none
      else if service = "enabled".toList ∨
          service = "manual".toList ∧ manual_eq_enabled = true then
        match config.command «section» with
        | some command => do
            write (" * ".toList ++ «section» ++ ['@'] ++ decimal channel ++
              [':'])
            control daemonize verb channel command
            return some ()
        | none => return none
      else do
        write (" * ".toList ++ padRight 8 «section» ++ " @ ".toList ++
          padLeft 3 (decimal channel) ++ " is Disabled (Manual)\n".toList)
        return some ()
  | _, _ => return none

/-- The loop over the services. -/
def serveAll (config : Config) (verb : Verb) (manual_eq_enabled : Bool) :
    List Text → Prog (Option Unit)
  | [] => return some ()
  | «section» :: services => do
      match ← serve daemonize config verb manual_eq_enabled «section» with
      | some _ => serveAll config verb manual_eq_enabled services
      | none => return none

/-- The script, called `atomicles`, once it has its configuration, with the
arguments behind its name: the exit status. -/
def main (config : Config) (argv : List Text) : Prog (Option Int) :=
  match argv with
  | [] => do
      write "Usage: atomicles start|stop|restart|status\n".toList
      return some 0
  | action :: named =>
      match ACTIONS.lookup action with
      | some verb => do
          let services := if named = [] then config.sections else named
          let manual_eq_enabled := !named.isEmpty
          let served ←
            serveAll daemonize config verb manual_eq_enabled services
          match served with
          | some _ => return some 0
          | none => return none
      | none => do
          write "Usage: atomicles start|stop|restart|status\n".toList
          return some 0

end Commands

end Atomicles.Script
