import Atomicles.Heap.Chain
import Atomicles.Source.Syschk

/-!
# The report of `syschk.c`

The list of results that the probes add to, `Msg$dump`, and `main`.  What is
printed is kept as the values that `Msg$dump` computes its columns from; the
share that was reached and the colours are left out, and so are the settings
that are only lowered before the probes.
-/

namespace Atomicles.Syschk

/-- Where the blocks of the heap are. -/
abbrev Loc := Nat

/-- `struct timeb`. -/
structure Timeb where
  time : Time
  millitm : Nat
deriving DecidableEq, Repr

/-! ## `Msg` -/

/-- `Msg`. -/
structure Msg where
  next : Option Loc
  name : List Char
  limit : ULong
  reach : ULong
  reason : Option String
  stime : Timeb
  etime : Timeb

/-- What `calloc` makes of a `Msg`. -/
def Msg.zero : Msg where
  next := none
  name := []
  limit := 0
  reach := 0
  reason := none
  stime := ⟨0, 0⟩
  etime := ⟨0, 0⟩

/-- The allocated `Msg`s. -/
abbrev MsgHeap := Heap.Blocks Loc Msg

/-- The arguments of `Msg$addMessage`, and what `ftime` gives in it. -/
structure Result where
  name : List Char
  stime : Timeb
  limit : ULong
  reach : ULong
  reason : String
  etime : Timeb

/-- The assignments to a new `Msg`.  The size that `memcpy` is given is that
of the pointer, so only the first eight bytes of `*stime` are copied. -/
def Result.fill (result : Result) (msg : Msg) : Msg :=
  { msg with
    stime := { msg.stime with time := result.stime.time }
    etime := result.etime
    name := result.name.take 15
    limit := result.limit
    reach := result.reach
    reason := some result.reason }

/-- `Msg$addMessage`; `answer` is that of `calloc`, and a null pointer is
written to.  The loop goes round at most `rounds` times. -/
def addMessage (rounds : Nat) (result : Result) (answer : Option Loc)
    (heap : MsgHeap) (this : Option Loc) : Option (MsgHeap × Option Loc) :=
  match this with
  | none => do
      let msg ← answer
      return (Function.update heap msg (some (result.fill Msg.zero)), some msg)
  | some first => do
      let last ← Heap.last Msg.next heap rounds first
      let cell ← heap last
      let msg ← answer
      let heap :=
        Function.update heap last (some { cell with next := some msg })
      return (Function.update heap msg (some (result.fill Msg.zero)),
        some first)

/-- What a line of the report is printed from. -/
structure ReportLine where
  name : List Char
  reach : ULong
  limit : ULong
  stime : Timeb
  etime : Timeb
  reason : Option String
deriving DecidableEq

/-- The line of a `Msg`. -/
def Msg.line (msg : Msg) : ReportLine where
  name := msg.name
  reach := msg.reach
  limit := msg.limit
  stime := msg.stime
  etime := msg.etime
  reason := msg.reason

/-- `Msg$dump`: the lines, the `Msg`s that were freed, and the heap. -/
def dump (rounds : Nat) (heap : MsgHeap) (this : Option Loc) :
    Option (List ReportLine × List Loc × MsgHeap) := do
  let msgs ← Heap.visit Msg.next heap rounds this
  let (freed, heap) ← Heap.release Msg.next rounds heap this
  return (msgs.map Msg.line, freed, heap)

/-! ## The probes and `main` -/

def EXIT_SUCCESS : Int := 0
def EXIT_FAILURE : Int := 1

def MEGA : ULong := 0x100000
def CALLOC_SIZE : ULong := 32768
def CHK_OPEN_THRESHOLD : Int := 7000
def CHK_FORK_THRESHOLD : Int := 500
def CHK_CALLOC_THRESHOLD : Int := 100

/-- What each probe is told by the system besides its outcomes: the times, the
limit of `getrlimit`, and the block for its result. -/
structure Setting where
  stime : Timeb
  etime : Timeb
  rlim_cur : ULong
  answer : Option Loc

/-- The result of a probe. -/
def Setting.result (probe : Setting) (name : List Char) (limit reach : ULong)
    (reason : String) : Result where
  name := name
  stime := probe.stime
  limit := limit
  reach := reach
  reason := reason
  etime := probe.etime

/-- What `main` is told by the system.  `setpriority`, `sigaction` and the
children's segment either succeed or not. -/
structure Environment where
  setpriority : Bool
  opening : Setting
  opens : List OpenOutcome
  sigaction : Bool
  children : Bool
  forking : Setting
  forks : List ForkOutcome
  overcommit_memory : Int
  callocing : Setting
  allocs : List AllocOutcome

/-- The result of `chk_open`. -/
def openResult (environment : Environment) : Option Result := do
  let probe := environment.opening
  let opened ← chkOpen CHK_OPEN_THRESHOLD environment.opens .start
  return probe.result "OPEN".toList probe.rlim_cur
    (BitVec.ofNat 64 opened.opened_max) opened.reason

/-- The result of `chk_fork`, once it has the children's segment. -/
def forkResult (environment : Environment) : Option Result := do
  let probe := environment.forking
  let spawned ← doFork probe.rlim_cur.toNat CHK_FORK_THRESHOLD
    environment.forks .start
  return probe.result "PROC".toList probe.rlim_cur
    (BitVec.ofNat 64 spawned.forked) spawned.reason

/-- The result of `chk_calloc`. -/
def callocResult (environment : Environment) : Option Result := do
  let probe := environment.callocing
  let calloced ← chkCalloc CHK_CALLOC_THRESHOLD environment.allocs .start
  return probe.result "CALLOC".toList (probe.rlim_cur / MEGA)
    (CALLOC_SIZE * BitVec.ofNat 64 calloced.opened_max / MEGA)
    calloced.reason

/-- The heap and `msg`. -/
abbrev Messages := MsgHeap × Option Loc

/-- `chk_open`: it always returns `EXIT_FAILURE`. -/
def chkOpenMain (rounds : Nat) (environment : Environment)
    (messages : Messages) : Option (Int × Messages) := do
  let result ← openResult environment
  let messages ← addMessage rounds result environment.opening.answer
    messages.1 messages.2
  return (EXIT_FAILURE, messages)

/-- `chk_fork`. -/
def chkForkMain (rounds : Nat) (environment : Environment)
    (messages : Messages) : Option (Int × Messages) :=
  if environment.sigaction then
    if environment.children then do
      let result ← forkResult environment
      let messages ← addMessage rounds result environment.forking.answer
        messages.1 messages.2
      return (EXIT_SUCCESS, messages)
    else none
  else return (EXIT_FAILURE, messages)

/-- `chk_calloc`, after `chk_calloc_prepare`. -/
def chkCallocMain (rounds : Nat) (environment : Environment)
    (messages : Messages) : Option (Int × Messages) :=
  if environment.overcommit_memory = 2 then do
    let result ← callocResult environment
    let messages ← addMessage rounds result environment.callocing.answer
      messages.1 messages.2
    return (EXIT_SUCCESS, messages)
  else return (EXIT_FAILURE, messages)

/-- `main`: the exit status, the lines of the report, the `Msg`s that were
freed, and the heap.  A failed assertion and a null pointer end it before. -/
def main (rounds : Nat) (environment : Environment) (heap : MsgHeap) :
    Option (Int × List ReportLine × List Loc × MsgHeap) :=
  if environment.setpriority then do
    let (_, messages) ← chkOpenMain rounds environment (heap, none)
    let (_, messages) ← chkForkMain rounds environment messages
    let (e, messages) ← chkCallocMain rounds environment messages
    let (lines, freed, heap) ← dump rounds messages.1 messages.2
    return (e, lines, freed, heap)
  else none

end Atomicles.Syschk
