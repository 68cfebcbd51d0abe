import Atomicles.CommandLine.Getopt
import Atomicles.Source.Lock

/-!
# `main` of `lock.c`

The option loop and the choice of the action.  An argument vector is given
without the name of the program, so that `argc` is one more than its length.
-/

namespace Atomicles

open Interaction CommandLine

/-- The actions of the `lock` command that work on a key. -/
inductive Action where
  | on (timeout : Int)
  | off
  | status
  | summary
  | delete
  | create (semaphores : UInt) (expire : Time)
deriving DecidableEq

/-- What `main` calls for an action. -/
def Action.run (paths : KeyPaths) (statics : Lock.Statics) (key : Key) :
    Action → Prog Int
  | .on timeout => Lock.lock paths statics key timeout
  | .off => Lock.unlock paths statics key
  | .status => Lock.status paths statics key
  | .summary => Lock.summary paths statics key
  | .delete => Lock.delete paths key
  | .create semaphores expire => Lock.create paths key semaphores expire

namespace Lock

/-- The options of `shortopts` and `longopts`. -/
inductive OptionCode where
  | semaphores | timeout | verbose | expire
deriving DecidableEq, Repr

def longopts : List (Spec OptionCode) :=
  [⟨.semaphores, 's', "semaphores".toList, true⟩,
    ⟨.timeout, 't', "timeout".toList, true⟩,
    ⟨.verbose, 'v', "verbose".toList, false⟩,
    ⟨.expire, 'x', "expire".toList, true⟩]

/-- The locals of `main` and the statics that it sets. -/
structure Locals where
  /-- A `short`. -/
  timeout : BitVec 16 := 0
  semaphores : UShort := SHSEM_SIZE
  expire : Time := 0
  statics : Statics := .initial
  e : Int := 0

/-- One round of the option loop. -/
def Locals.set (locals : Locals) : Found OptionCode → Locals
  | .option .semaphores optarg =>
      { locals with semaphores := BitVec.ofInt 16 (atoi optarg) }
  | .option .timeout optarg =>
      { locals with timeout := BitVec.ofInt 16 (atoi optarg) }
  -- `g_verbose` is 1 already.
  | .option .verbose _ => locals
  | .option .expire optarg =>
      { locals with
        expire := atoi optarg
        statics := { locals.statics with expiry := true } }
  | .invalid => { locals with e := 1 }

/-- The words that `main` compares `action` with. -/
inductive Verb where
  | on | off | summary | status | delete | create | help
deriving DecidableEq, Repr

def Verb.read (action : Text) : Option Verb :=
  if strncmp action "on".toList 3 then some .on
  else if strncmp action "off".toList 4 then some .off
  else if strncmp action "summary".toList 8 then some .summary
  else if strncmp action "status".toList 7 then some .status
  else if strncmp action "delete".toList 7 then some .delete
  else if strncmp action "create".toList 7 then some .create
  else if strncmp action "help".toList 5 then some .help
  else none

/-- What `main` does after its options. -/
inductive Course where
  | usage (e : Int)
  | call (statics : Statics) (key : Key) (action : Action)
  | segv
deriving DecidableEq

/-- The branches for a key and an action. -/
def Locals.choose (locals : Locals) (key action : Text) : Course :=
  let key : Key := BitVec.ofInt 32 (atoi key)
  match Verb.read action with
  | some .on => .call locals.statics key (.on locals.timeout.toInt)
  | some .off => .call locals.statics key .off
  | some .summary => .call locals.statics key .summary
  | some .status => .call locals.statics key .status
  | some .delete => .call locals.statics key .delete
  | some .create =>
      .call locals.statics key
        (.create (locals.semaphores.setWidth 32) locals.expire)
  | some .help => .usage 0
  | none => .usage (-1)

/-- The course of `main` for the arguments behind the name of the program. -/
def course (args : List Text) : Course :=
  if args.length + 1 > 2 then
    let (found, operands) := getopt_long longopts args
    let locals := found.foldl Locals.set {}
    if locals.e = 0 then
      match operands with
      -- `atoi(argv[0])` of the `NULL` that ends `argv`.
      | [] => .segv
      -- `strncmp(argv[1], ..)` of that `NULL`.
      | [_] => .segv
      | key :: action :: _ => locals.choose key action
    else .usage (-2)
  else .usage 0

/-- The lines of `usage`. -/
def usageLines : List String :=
  ["Usage:\n",
    "  lock <key> <action> [-v|--verbose]\n",
    "    NOTE: <key> must be in the range 0..127\n",
    "\n",
    "  lock <key> create [-x|expire] [-s|--semaphores <semaphore-size>]\n",
    "    <semaphore-size> values:\n",
    "       1: Binary Semaphore (Mutext).\n",
    "      >1: Counting Semaphore.\n",
    "\n",
    "  lock <key> on [-t|--timeout <timeout>]\n",
    "    <timeout> values:\n",
    "      -1: Non-Blocking (Immediate return).\n",
    "       0: Blocking (Default).\n",
    "      +N: Block for at most `N' seconds.\n",
    "\n",
    "  lock <key> off\n",
    "\n",
    "  lock <key> delete\n",
    "\n",
    "  lock <key> status\n",
    "\n",
    "  lock <key> summary\n"]

/-- `usage`. -/
def usage : Prog Unit :=
  usageLines.forM fun line => printf line []

/-- `main`. -/
def main (paths : KeyPaths) (args : List Text) : Prog Int :=
  match course args with
  | .usage e => do
      usage
      return e
  | .call statics key action => do
      if statics.delta < 0 then
        let _ ← unlock paths statics key
      action.run paths statics key
  | .segv => die .segv

end Lock

end Atomicles
