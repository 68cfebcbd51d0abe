import Atomicles.Source.SharedMemory

/-!
# `daemonize.c` and `daemonize.h`

A daemon runs labelled code: `setjmp` marks a place to which the signal
handler jumps, from wherever the process is, and the supervision loop comes
back to it after each round.  The label says what is left on the stack.
Messages, the system log and the calls that set up the session are left out.
-/

namespace Atomicles

open Interaction

/-! ## `daemonize.h` -/

def OFFSET_ACTIVE : UShort := 0
def OFFSET_PID : UShort := 1
def OFFSET_CPID : UShort := 2
def OFFSET_COUNT : UShort := 3
def SHMEM_SIZE : Nat := 4 * 4

namespace Daemon

/-- What a `SharedMemory *` points to; a null pointer is dereferenced. -/
def deref (shmem : Option SharedMemory) : Prog SharedMemory :=
  match shmem with
  | some this => .done this
  | none => Atomicles.die .segv

def activate (shmem : Option SharedMemory) : Prog Unit := do
  SharedMemory.writeUint (← deref shmem) OFFSET_ACTIVE 1

def deactivate (shmem : Option SharedMemory) : Prog Unit := do
  SharedMemory.writeUint (← deref shmem) OFFSET_ACTIVE 0

def active (shmem : Option SharedMemory) : Prog UInt := do
  SharedMemory.readUint (← deref shmem) OFFSET_ACTIVE

/-- `set_pid`; a `pid_t` is stored as an `unsigned int`. -/
def setPid (shmem : Option SharedMemory) (pid : Int) : Prog Unit := do
  SharedMemory.writeUint (← deref shmem) OFFSET_PID (BitVec.ofInt 32 pid)

/-- The common body of `get_pid`, `get_cpid` and `get_count`. -/
def getWord (shmem : Option SharedMemory) (offset : UShort) : Prog Int :=
  match shmem with
  | some this => do
      let word ← SharedMemory.readUint this offset
      return word.toInt
  | none => return 0

/-- `get_pid`. -/
def getPid (shmem : Option SharedMemory) : Prog Int :=
  getWord shmem OFFSET_PID

/-- `set_cpid`. -/
def setCpid (shmem : Option SharedMemory) (cpid : Int) : Prog Unit := do
  SharedMemory.writeUint (← deref shmem) OFFSET_CPID (BitVec.ofInt 32 cpid)

/-- `get_cpid`. -/
def getCpid (shmem : Option SharedMemory) : Prog Int :=
  getWord shmem OFFSET_CPID

/-- `get_count`. -/
def getCount (shmem : Option SharedMemory) : Prog Int :=
  getWord shmem OFFSET_COUNT

/-- `inc_count`. -/
def incCount (shmem : Option SharedMemory) : Prog Unit := do
  let count ← getCount shmem
  SharedMemory.writeUint (← deref shmem) OFFSET_COUNT
    (BitVec.ofInt 32 (count + 1))

/-! ## Labels -/

/-- The variables of `start` and `daemonize` that the supervision loop reads
from one round to the next. -/
structure Locals where
  shmem : SharedMemory
  count : Int
  timer : UInt
  failure_time : Time
  exec_time : Time

/-- What `main` was told to do with a channel. -/
inductive Action where
  | start
  | stop
  | status
deriving DecidableEq, Repr

/-- Where the code of a process goes on. -/
inductive Label where
  /-- `main`, after the options. -/
  | main (action : Action) (key : Key)
  /-- `setjmp` returns 0. -/
  | round (locals : Locals)
  /-- `setjmp` returns a signal. -/
  | caught (sig_rcvd : Signal) (locals : Locals)
  /-- The loop of `wait_for_signal` on a status that does not end it. -/
  | spinning (locals : Locals)
  /-- `daemonize` has returned to `start`. -/
  | returned (locals : Locals)
  /-- The encapsulated command runs in place of the code. -/
  | command
  /-- The process exits. -/
  | ended (status : Int)

/-! ## `daemonize.c` -/

variable (paths : KeyPaths)

/-- The signals that `handler` is installed for, in this order. -/
def signals : List Signal :=
  [.SIGTERM, .SIGUSR1, .SIGUSR2, .SIGINT, .SIGHUP, .SIGCHLD, .SIGALRM]

/-- `cleanup`. -/
def cleanup (shmem : Option SharedMemory) : Prog Unit := do
  setPid shmem 0
  setCpid shmem 0
  SharedMemory.delete (← deref shmem) true

/-- `die`. -/
def die {Value : Type} (shmem : Option SharedMemory) : Prog Value := do
  setPid shmem 0
  setCpid shmem 0
  match shmem with
  | some this =>
      deactivate shmem
      SharedMemory.delete this true
  | none => pure ()
  Atomicles.die (.exit EXIT_FAILURE)

/-- `daemonstr`; the text it makes is only printed. -/
def daemonstr (pid cpid : Int) : Prog Unit := do
  let _ ← kill pid none
  let _ ← kill cpid none
  return ()

/-- `close_file_descriptors`. -/
def closeFileDescriptors : Prog Unit := do
  let e ← getrlimit
  if e < 0 then die none else return ()

/-- Whether a status ends the loop of `wait_for_signal`. -/
def statusEnds : WaitStatus → Bool
  | .exited _ => true
  | .signaled => true
  | .stopped => false
  | .continued => false

/-- `wait_for_signal` up to its loop, and whether the loop ends: it never
changes `status`, which is what `stack` holds if `waitpid` fails. -/
def waitForSignal (stack : WaitStatus) (cpid : Int) : Prog Bool := do
  let status ← waitpid cpid
  return statusEnds (status.getD stack)

/-- The `sigaction` calls of `daemonize`. -/
def installHandlers (shmem : SharedMemory) : List Signal → Prog Unit
  | [] => return ()
  | signal :: rest => do
      let failed ← sigaction signal
      if failed ≠ 0 then die (some shmem) else installHandlers shmem rest

/-- `daemonize` up to its loop. -/
def daemonize (shmem : SharedMemory) (count : Int) : Prog Label := do
  let locals : Locals :=
    { shmem, count, timer := 0, failure_time := 0, exec_time := 0 }
  let pid ← fork -- fork I
  if 0 < pid then return .returned locals
  else
    let pid ← fork -- fork II
    if 0 < pid then
      setPid (some shmem) pid
      Atomicles.die (.exit EXIT_SUCCESS)
    else
      closeFileDescriptors
      return .round locals

/-- The end of a round.  The loop condition reads the handle that `cleanup`
has freed. -/
def endRound (decay : UInt → Nat) (locals : Locals) : Prog Label := do
  let shmem := some locals.shmem
  let _ ← active shmem
  if (← active shmem) = 0 then
    cleanup shmem
    Atomicles.die .freed
  else
    -- `sleep(exp(timer++) - 1)`
    sleep (decay locals.timer)
    let locals := { locals with timer := locals.timer + 1 }
    if (← active shmem) ≠ 0 then return .round locals
    else return .returned locals

/-- A child of the loop. -/
def child (shmem : SharedMemory) : Prog Label := do
  incCount (some shmem)
  let _ ← getCount (some shmem)
  execvp
  die (some shmem)

/-- A round of the loop in which `setjmp` returns 0. -/
def round (decay : UInt → Nat) (stack : WaitStatus) (locals : Locals) :
    Prog Label := do
  let shmem := locals.shmem
  let timer :=
    if locals.failure_time - locals.exec_time > 5 then 0 else locals.timer
  installHandlers shmem signals
  let exec_time ← time
  let cpid ← fork -- fork III
  if cpid = 0 then child shmem
  else
    setCpid (some shmem) cpid
    activate (some shmem)
    let locals := { locals with timer, exec_time }
    if ← waitForSignal stack cpid then
      let failure_time ← time
      endRound decay { locals with failure_time }
    else return .spinning locals

/-- A round of the loop in which `setjmp` returns a signal. -/
def caught (decay : UInt → Nat) (sig_rcvd : Signal) (locals : Locals) :
    Prog Label := do
  let shmem := some locals.shmem
  if sig_rcvd = .SIGUSR1 then
    let cpid ← getCpid shmem
    let _ ← kill cpid sig_rcvd
    die shmem
  else if sig_rcvd = .SIGUSR2 then die shmem
  else
    let cpid ← getCpid shmem
    let _ ← kill cpid sig_rcvd
    endRound decay locals

/-- `start`, up to the return of `daemonize`. -/
def start (shmem : SharedMemory) : Prog Label := do
  let pid ← getPid (some shmem)
  let cpid ← getCpid (some shmem)
  let count ← getCount (some shmem)
  if cpid ≠ 0 ∧ pid ≠ 0 then
    daemonstr pid cpid
    return .ended (-1)
  else daemonize shmem count

/-- The loop with which `start` waits for the supervisor: `pid` and `cpid`
after at most `c` rounds. -/
def poll (shmem : SharedMemory) : (c : Nat) → (pid cpid : Int) →
    Prog (Int × Int)
  | 0, pid, cpid => return (pid, cpid)
  | c + 1, _, _ => do
      let pid ← getPid (some shmem)
      let cpid ← getCpid (some shmem)
      if pid ≠ 0 ∧ cpid ≠ 0 then return (pid, cpid)
      else
        sleep 1
        poll shmem c pid cpid

/-- `start`, from the return of `daemonize` on. -/
def returned (locals : Locals) : Prog Label := do
  let (pid, cpid) ← poll locals.shmem 5 0 0
  daemonstr pid cpid
  return .ended 0

/-- `stop`. -/
def stop (shmem : SharedMemory) : Prog Label := do
  let pid ← getPid (some shmem)
  let cpid ← getCpid (some shmem)
  let _ ← getCount (some shmem)
  daemonstr pid cpid
  if pid ≠ 0 ∧ cpid ≠ 0 then
    if (← kill cpid (some .SIGUSR1)) ≠ 0 then return .ended 2
    else if (← kill pid (some .SIGUSR1)) ≠ 0 then return .ended 3
    else
      cleanup (some shmem)
      return .ended 0
  else return .ended 1

/-- `status`. -/
def status (shmem : Option SharedMemory) : Prog Label := do
  let pid ← getPid shmem
  let cpid ← getCpid shmem
  let _ ← getCount shmem
  daemonstr pid cpid
  if pid ≠ 0 ∧ cpid ≠ 0 then
    if (← kill pid none) = 0 then
      let _ ← kill cpid none
      return .ended 0
    else return .ended 0
  else return .ended 0

/-- The actions of `main`. -/
def main (action : Action) (key : Key) : Prog Label := do
  match action with
  | .start =>
      match ← SharedMemory.new paths key SHMEM_SIZE true with
      | some shmem => start shmem
      | none => return .ended (-1)
  | .stop =>
      match ← SharedMemory.attach paths key with
      | some shmem => stop shmem
      | none => return .ended (-1)
  | .status =>
      let shmem ← SharedMemory.attach paths key
      status shmem

/-- The code from a label on; the other labels are places to stay at. -/
def code (decay : UInt → Nat) (stack : WaitStatus) :
    Label → Option (Prog Label)
  | .main action key => some (main paths action key)
  | .round locals => some (round decay stack locals)
  | .caught sig_rcvd locals => some (caught decay sig_rcvd locals)
  | .returned locals => some (returned locals)
  | .spinning _ => none
  | .command => none
  | .ended _ => none

end Daemon

end Atomicles
