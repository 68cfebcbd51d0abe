import Atomicles.Interaction.Machine

/-!
# System calls

The calls the programs of this repository make, with the type of the answer
to each.  Key and word types have the width the C types have; identifiers of
kernel objects are opaque to the programs, and are modelled as the key an
object was made under together with a generation number.
-/

namespace Atomicles

open Interaction

/-- `pid_t` of a live process. -/
abbrev Pid := Nat

/-- `key_t`, `int` and `unsigned int` arguments that become keys. -/
abbrev Key := BitVec 32

/-- `unsigned short`. -/
abbrev UShort := BitVec 16

/-- `unsigned int`. -/
abbrev UInt := BitVec 32

/-- `time_t`, and the `signed long` that `lock.c` keeps time differences in. -/
abbrev Time := Int

def EXIT_SUCCESS : Int := 0
def EXIT_FAILURE : Int := 1

/-- The error numbers which the sources name or the modelled calls return. -/
inductive Errno where
  | EPERM | ENOENT | ESRCH | EINTR | ECHILD | ENOMEM | EACCES | EEXIST
  | EINVAL | ENFILE | EFBIG | ENOSPC | ERANGE | EAGAIN | EIDRM
deriving DecidableEq, Repr

/-- The number behind an error name. -/
def Errno.code : Errno → Int
  | .EPERM => 1
  | .ENOENT => 2
  | .ESRCH => 3
  | .EINTR => 4
  | .ECHILD => 10
  | .ENOMEM => 12
  | .EACCES => 13
  | .EEXIST => 17
  | .EINVAL => 22
  | .ENFILE => 23
  | .EFBIG => 27
  | .ENOSPC => 28
  | .ERANGE => 34
  | .EAGAIN => 11
  | .EIDRM => 43

/-- No error number is zero, so `errno` never reads as `EXIT_SUCCESS`. -/
theorem Errno.code_ne_success (errno : Errno) :
    errno.code ≠ EXIT_SUCCESS := by
  cases errno <;> decide

/-- The identifier of one semaphore set or one shared segment. -/
structure IpcId where
  key : Key
  generation : Nat
deriving DecidableEq, Repr

/-- The `int` by which the programs print an identifier. -/
def IpcId.number (id : IpcId) : Int :=
  id.generation * 0x100000000 + id.key.toNat

/-- What a pointer into shared memory can be: `NULL`, `(void *)-1`, or the
start of a mapping of a segment. -/
inductive Addr where
  | null
  | failed
  | mapped (id : IpcId)
deriving DecidableEq, Repr

/-- A struct member: what a read of it gives, and whether the program has
assigned it since the struct was allocated. -/
structure Member (Value : Type) where
  assigned : Bool
  value : Value
deriving DecidableEq, Repr

/-- The assignment `member = value`. -/
def Member.assign {Value : Type} (value : Value) : Member Value :=
  ⟨true, value⟩

/-- `struct _Semaphore`. -/
structure Semaphore where
  key : Key
  id : IpcId
  count : UShort
  size : UShort
deriving DecidableEq, Repr

/-- `struct _SharedMemory`; `shsem` owns what it points to. -/
structure SharedMemory where
  key : Key
  id : IpcId
  size : Member Nat
  addr : Addr
  shsem : Option Semaphore
deriving DecidableEq, Repr

/-- The members of `struct semid_ds` that are read. -/
structure SemidDs where
  sem_nsems : Nat
  sem_ctime : Time
deriving DecidableEq, Repr

/-- The signals `daemonize.c` installs its handler for. -/
inductive Signal where
  | SIGTERM | SIGUSR1 | SIGUSR2 | SIGINT | SIGHUP | SIGCHLD | SIGALRM
deriving DecidableEq, Repr

/-- What `waitpid` reports of a child. -/
inductive WaitStatus where
  | exited (status : Int)
  | signaled
  | stopped
  | continued
deriving DecidableEq, Repr

/-- Why a process ends inside a call of its own; the use of a freed block is
undefined, and ends it here. -/
inductive Death where
  | assertion (text : String)
  | segv
  | freed
  | exit (status : Int)
deriving DecidableEq, Repr

/-- The calls.  Those of the C library appear where their outcome is not a
function of their arguments. -/
inductive Call where
  | mallocSemaphore
  | mallocSharedMemory
  | semget (key : Key) (nsems : Nat) (creat excl : Bool)
  | semctlSetall (id : IpcId) (array : List UShort)
  | semctlGetval (id : IpcId) (semnum : Nat)
  | semctlStat (id : IpcId)
  | semctlRmid (id : IpcId)
  | semop (id : IpcId) (semNum : Nat) (semOp : Int) (undo nowait : Bool)
  | shmget (key : Key) (size : Nat) (creat excl : Bool)
  | shmat (id : IpcId)
  | shmdt (addr : Addr)
  | shmctlRmid (id : IpcId)
  | memset (addr : Addr) (n : Nat)
  | mlockall
  | mlock (addr : Addr) (size : Nat)
  | munlockall
  | load (addr : Addr) (offset : Nat)
  | store (addr : Addr) (offset : Nat) (value : UInt)
  | vsnprintf (addr : Addr) (offset n : Nat) (text : List (BitVec 8))
  | strncpy (addr : Addr) (offset n : Nat)
  | time
  | sleep (seconds : Nat)
  | printf (format : String) (args : List Int)
  | fork
  | kill (pid : Int) (signal : Option Signal)
  | waitpid (pid : Int)
  | sigaction (signal : Signal)
  | getrlimit
  | execvp
  | die (cause : Death)
  | interruptible (call : Call)
deriving DecidableEq

/-- The answer to each call.  `none` from a memory access is an access outside
the process's mappings; a call that ends the process has no answer. -/
@[reducible]
def Call.Answer : Call → Type
  | .mallocSemaphore => Option Unit
  | .mallocSharedMemory => Option SharedMemory
  | .semget .. => Except Errno IpcId
  | .semctlSetall .. => Except Errno Unit
  | .semctlGetval .. => Except Errno Nat
  | .semctlStat .. => SemidDs
  | .semctlRmid .. => Except Errno Unit
  | .semop .. => Except Errno Unit
  | .shmget .. => Except Errno IpcId
  | .shmat .. => Except Errno Addr
  | .shmdt .. => Except Errno Unit
  | .shmctlRmid .. => Except Errno Unit
  | .memset .. => Option Unit
  | .mlockall => Except Errno Unit
  | .mlock .. => Except Errno Unit
  | .munlockall => Except Errno Unit
  | .load .. => Option UInt
  | .store .. => Option Unit
  | .vsnprintf .. => Option Unit
  | .strncpy .. => Option (List (BitVec 8))
  | .time => Time
  | .sleep .. => Unit
  | .printf .. => Unit
  | .fork => Int
  | .kill .. => Except Errno Unit
  | .waitpid .. => Except Errno (Int × WaitStatus)
  | .sigaction .. => Except Errno Unit
  | .getrlimit => Except Errno Unit
  | .execvp => Errno
  | .die .. => Empty
  | .interruptible call => Signal ⊕ call.Answer

/-- The signature of all programs of the repository. -/
abbrev signature : Signature := ⟨Call, Call.Answer⟩

/-- A program of the repository. -/
abbrev Prog (Value : Type) := Program signature Value

end Atomicles
