import Atomicles.CommandLine.Getopt
import Atomicles.Source.Daemonize

/-!
# `main` of `daemonize.c`

The option loop and the choice of the action.  An argument vector is given
without the name of the program, so that `argc` is one more than its length.
-/

namespace Atomicles

open Interaction CommandLine

namespace Daemon

/-- The options of `shortopts` and `longopts`. -/
inductive OptionCode where
  | start | stop | status | help | command
deriving DecidableEq, Repr

def longopts : List (Spec OptionCode) :=
  [⟨.start, 'S', "start".toList, true⟩,
    ⟨.stop, 'K', "stop".toList, true⟩,
    ⟨.status, 's', "status".toList, true⟩,
    ⟨.help, 'h', "help".toList, false⟩,
    ⟨.command, '-', "command".toList, false⟩]

def DAEMON_HELP : UInt := 2 <<< 0
def DAEMON_STOP : UInt := 2 <<< 1
def DAEMON_START : UInt := 2 <<< 2
def DAEMON_STATUS : UInt := 2 <<< 3

/-- The locals of `main` that the option loop sets. -/
structure Parsed where
  e : Int := -1
  options : UInt := 0
  key : Int := 0

/-- One round of the option loop. -/
def Parsed.set (parsed : Parsed) : Found OptionCode → Parsed
  | .option .start optarg =>
      { options := parsed.options ||| DAEMON_START
        key := atoi optarg
        e := if atoi optarg > 0 then 0 else parsed.e }
  | .option .stop optarg =>
      { options := parsed.options ||| DAEMON_STOP
        key := atoi optarg
        e := if atoi optarg > 0 then 0 else parsed.e }
  | .option .status optarg =>
      { options := parsed.options ||| DAEMON_STATUS
        key := atoi optarg
        e := if atoi optarg > 0 then 0 else parsed.e }
  | .option .help _ =>
      { parsed with options := parsed.options ||| DAEMON_HELP }
  -- `stop_getopt = 1`.
  | .option .command _ => parsed
  | .invalid => { parsed with e := 1 }

/-- What `main` does after its options. -/
inductive Course where
  | usage (e : Int)
  | call (action : Action) (key : Int)
deriving DecidableEq

/-- The branches after the option loop. -/
def Parsed.choose (parsed : Parsed) (operands : List Text) : Course :=
  if parsed.e = 0 then
    if parsed.options &&& DAEMON_HELP ≠ 0 then .usage 0
    else if parsed.options &&& DAEMON_START = DAEMON_START ∧
        operands.length > 0 then .call .start parsed.key
    else if parsed.options &&& DAEMON_STOP = DAEMON_STOP ∧
        operands.length = 0 then .call .stop parsed.key
    else if parsed.options &&& DAEMON_STATUS = DAEMON_STATUS ∧
        operands.length = 0 then .call .status parsed.key
    else .usage (-1)
  else .usage (-1)

/-- The option loop: what it is told, and the operands. -/
def readOptions (args : List Text) : List (Found OptionCode) × List Text :=
  getopt_long_until longopts (fun code => code = .command) args

/-- The course of `main` for the arguments behind the name of the program. -/
def course (args : List Text) : Course :=
  if args.length + 1 > 2 then
    let (found, operands) := readOptions args
    (found.foldl Parsed.set {}).choose operands
  else .usage 0

/-- The lines of `usage`. -/
def usageLines (cmd : String) : List String :=
  ["Usage:\n",
    "    " ++ cmd ++ " -S|--start  <channel> -- <command> <arguments>\n",
    "    " ++ cmd ++ " -K|--stop   <channel>\n",
    "    " ++ cmd ++ " -s|--status <channel>\n",
    "\n",
    "Note:\n",
    "    Any signal sent to the daemon that can be caught is passed " ++
      "through to the\n",
    "    encapsulated process, so to kill the daemon itself, send it USR1, " ++
      "or USR2.\n",
    "\n",
    "    While SIGUSR1 does a complete die (killing the encapsulated " ++
      "processes, and then\n",
    "    the daemon wrapper, SIGUSR2 only kills the daemon process, and " ++
      "leaves the child\n",
    "    to be adopted by init.\n"]

/-- `usage`; `main` returns its argument `e`. -/
def usage (cmd : String) (e : Int) : Prog Label := do
  (usageLines cmd).forM fun line => printf line []
  return .ended e

/-- `main` with its arguments; `abs(key)` names the segment. -/
def mainArgs (paths : KeyPaths) (args : List Text) : Prog Label :=
  match course args with
  | .usage e => usage "daemonize" e
  | .call action key => main paths action (BitVec.ofInt 32 key.natAbs)

end Daemon

end Atomicles
