import Atomicles.Kernel.Calls

/-!
# Calls as the sources write them

Each function makes one call.  A memory access outside the mappings of the
process ends it, and so does a failed assertion.  The keys of `common.h` are
computed here from the device and inode numbers of the two device files.
-/

namespace Atomicles

open Interaction

/-! ## Keys -/

/-- What `ftok` uses of a file: the low bits of its device and inode numbers.
They are not such that `ftok` yields `IPC_PRIVATE` for the identifier 0, or
its error value `-1` for the identifier 255. -/
structure FtokFile where
  dev : BitVec 8
  ino : BitVec 16
  proper : ¬ (dev = 0 ∧ ino = 0) ∧ ¬ (dev = 0xff ∧ ino = 0xffff)

/-- `ftok`: the low 8 bits of the identifier, then device, then inode. -/
def ftok (file : FtokFile) (projId : Key) : Key :=
  projId.setWidth 8 ++ file.dev ++ file.ino

theorem ftok_bit (file : FtokFile) (projId : Key) (index : Nat) :
    (ftok file projId).getLsbD index =
      if index < 16 then file.ino.getLsbD index
      else if index - 16 < 8 then file.dev.getLsbD (index - 16)
      else (projId.setWidth 8).getLsbD (index - 16 - 8) := by
  have whole : (ftok file projId).getLsbD index =
      ((projId.setWidth 8 ++ file.dev) ++ file.ino).getLsbD index := rfl
  rw [whole, BitVec.getLsbD_append, BitVec.getLsbD_append]

theorem ftok_low (file : FtokFile) (projId : Key) :
    (ftok file projId).setWidth 16 = file.ino := by
  ext index small
  simp [ftok_bit, small]

theorem ftok_middle (file : FtokFile) (projId : Key) :
    (ftok file projId).extractLsb' 16 8 = file.dev := by
  ext index small
  simp [ftok_bit, small]

/-- Only the low 8 bits of the identifier are left in a key. -/
theorem ftok_high (file : FtokFile) (projId : Key) :
    (ftok file projId).extractLsb' 24 8 = projId.setWidth 8 := by
  ext index small
  have notLow : ¬ 24 + index < 16 := by omega
  have notMiddle : ¬ 24 + index - 16 < 8 := by omega
  have high : 24 + index - 16 - 8 = index := by omega
  simp [ftok_bit, notLow, notMiddle, high, small]

/-- No key is the error value of `ftok`. -/
theorem ftok_ne_failure (file : FtokFile) (projId : Key) :
    ftok file projId ≠ -1 := by
  intro failure
  apply file.proper.2
  rw [← ftok_low file projId, ← ftok_middle file projId, failure]
  decide

/-- The files `SHMKEYPATH` and `SEMKEYPATH`. -/
structure KeyPaths where
  shm : FtokFile
  sem : FtokFile

/-- The device files of a Linux system, on a `devtmpfs` with device number 5. -/
def KeyPaths.devtmpfs : KeyPaths :=
  { shm := ⟨5, 6, by decide⟩, sem := ⟨5, 4, by decide⟩ }

/-- `SHMKEY`. -/
def KeyPaths.shmKey (paths : KeyPaths) (key : Key) : Key :=
  ftok paths.shm key

/-- `SEMKEY`. -/
def KeyPaths.semKey (paths : KeyPaths) (key : Key) : Key :=
  ftok paths.sem key

section Keys

variable {paths : KeyPaths} {first second : Key}

/-- Two identifiers give one key if their low bytes agree. -/
theorem ftok_eq_iff {file : FtokFile} :
    ftok file first = ftok file second ↔
      first.toNat % 256 = second.toNat % 256 := by
  constructor
  · intro same
    have high := congrArg (·.extractLsb' 24 8) same
    simp only [ftok_high] at high
    have low := congrArg BitVec.toNat high
    simpa only [BitVec.toNat_setWidth] using low
  · intro same
    have low : first.setWidth 8 = second.setWidth 8 := by
      apply BitVec.eq_of_toNat_eq
      simpa only [BitVec.toNat_setWidth] using same
    simp only [ftok, low]

theorem semKey_eq_iff :
    paths.semKey first = paths.semKey second ↔
      first.toNat % 256 = second.toNat % 256 :=
  ftok_eq_iff

theorem shmKey_eq_iff :
    paths.shmKey first = paths.shmKey second ↔
      first.toNat % 256 = second.toNat % 256 :=
  ftok_eq_iff

/-- The low byte of the key of a mutex. -/
theorem mutex_low (key : Key) :
    (key + 128).toNat % 256 = (key.toNat + 128) % 256 := by
  have constant : (128 : Key).toNat = 128 := rfl
  rw [BitVec.toNat_add, constant]
  omega

end Keys

/-! ## Ends of a process -/

/-- The process ends here. -/
def die {Value : Type} (cause : Death) : Prog Value :=
  .issue (.die cause) (fun impossible : Empty => impossible.elim)

/-- `assert`. -/
def assert (condition : Bool) (text : String) : Prog Unit :=
  if condition then .done () else die (.assertion text)

/-! ## Calls -/

def mallocSemaphore : Prog (Option Unit) :=
  .issue .mallocSemaphore (fun block : Option Unit => .done block)

def mallocSharedMemory : Prog (Option SharedMemory) :=
  .issue .mallocSharedMemory (fun block : Option SharedMemory => .done block)

def semget (key : Key) (nsems : Nat) (creat excl : Bool) :
    Prog (Except Errno IpcId) :=
  .issue (.semget key nsems creat excl)
    (fun result : Except Errno IpcId => .done result)

def semctlSetall (id : IpcId) (array : List UShort) :
    Prog (Except Errno Unit) :=
  .issue (.semctlSetall id array)
    (fun result : Except Errno Unit => .done result)

/-- `semctl(id, semnum, GETVAL)`, with -1 for a failure as in C. -/
def semctlGetval (id : IpcId) (semnum : Nat) : Prog Int :=
  .issue (.semctlGetval id semnum)
    (fun result : Except Errno Nat =>
      match result with
      | .ok value => .done value
      | .error _ => .done (-1))

/-- The content of the caller's `struct semid_ds` after `IPC_STAT`; no caller
looks at the return value of this call. -/
def semctlStat (id : IpcId) : Prog SemidDs :=
  .issue (.semctlStat id) (fun ds : SemidDs => .done ds)

/-- `IPC_RMID`; its callers only report a failure. -/
def semctlRmid (id : IpcId) : Prog Unit :=
  .issue (.semctlRmid id) (fun _ : Except Errno Unit => .done ())

def semop (id : IpcId) (semNum : Nat) (semOp : Int) (undo nowait : Bool) :
    Prog (Except Errno Unit) :=
  .issue (.semop id semNum semOp undo nowait)
    (fun result : Except Errno Unit => .done result)

def shmget (key : Key) (size : Nat) (creat excl : Bool) :
    Prog (Except Errno IpcId) :=
  .issue (.shmget key size creat excl)
    (fun result : Except Errno IpcId => .done result)

def shmat (id : IpcId) : Prog Addr :=
  .issue (.shmat id)
    (fun result : Except Errno Addr =>
      match result with
      | .ok addr => .done addr
      | .error _ => .done .failed)

/-- Its caller only reports a failure. -/
def shmdt (addr : Addr) : Prog Unit :=
  .issue (.shmdt addr) (fun _ : Except Errno Unit => .done ())

/-- Its caller only reports a failure. -/
def shmctlRmid (id : IpcId) : Prog Unit :=
  .issue (.shmctlRmid id) (fun _ : Except Errno Unit => .done ())

def memset (addr : Addr) (n : Nat) : Prog Unit :=
  .issue (.memset addr n)
    (fun result : Option Unit =>
      match result with
      | some () => .done ()
      | none => die .segv)

/-- `mlockall`, whose result is compared with `EXIT_SUCCESS`. -/
def mlockall : Prog Int :=
  .issue .mlockall
    (fun result : Except Errno Unit =>
      match result with
      | .ok () => .done EXIT_SUCCESS
      | .error _ => .done (-1))

def mlock (addr : Addr) (size : Nat) : Prog Int :=
  .issue (.mlock addr size)
    (fun result : Except Errno Unit =>
      match result with
      | .ok () => .done EXIT_SUCCESS
      | .error _ => .done (-1))

/-- Its caller only reports a failure. -/
def munlockall : Prog Unit :=
  .issue .munlockall (fun _ : Except Errno Unit => .done ())

/-- `((unsigned int *)addr)[offset]`. -/
def load (addr : Addr) (offset : Nat) : Prog UInt :=
  .issue (.load addr offset)
    (fun result : Option UInt =>
      match result with
      | some value => .done value
      | none => die .segv)

/-- `((unsigned int *)addr)[offset] = value`. -/
def store (addr : Addr) (offset : Nat) (value : UInt) : Prog Unit :=
  .issue (.store addr offset value)
    (fun result : Option Unit =>
      match result with
      | some () => .done ()
      | none => die .segv)

def vsnprintf (addr : Addr) (offset n : Nat) (text : List (BitVec 8)) :
    Prog Unit :=
  .issue (.vsnprintf addr offset n text)
    (fun result : Option Unit =>
      match result with
      | some () => .done ()
      | none => die .segv)

def strncpy (addr : Addr) (offset n : Nat) : Prog (List (BitVec 8)) :=
  .issue (.strncpy addr offset n)
    (fun result : Option (List (BitVec 8)) =>
      match result with
      | some text => .done text
      | none => die .segv)

def time : Prog Time :=
  .issue .time (fun now : Time => .done now)

def sleep (seconds : Nat) : Prog Unit :=
  .issue (.sleep seconds) (fun _ : Unit => .done ())

def printf (format : String) (args : List Int) : Prog Unit :=
  .issue (.printf format args) (fun _ : Unit => .done ())

/-! ## Processes and signals -/

/-- `fork`, with -1 for a failure as in C. -/
def fork : Prog Int :=
  .issue .fork (fun child : Int => .done child)

/-- `kill`, whose result is compared with 0; no signal is the probe. -/
def kill (pid : Int) (signal : Option Signal) : Prog Int :=
  .issue (.kill pid signal)
    (fun result : Except Errno Unit =>
      match result with
      | .ok () => .done 0
      | .error _ => .done (-1))

/-- `waitpid` with `WUNTRACED` and `WCONTINUED`: what it reports of a child,
unless it fails. -/
def waitpid (pid : Int) : Prog (Option WaitStatus) :=
  .issue (.waitpid pid)
    (fun result : Except Errno (Int × WaitStatus) =>
      match result with
      | .ok report => .done (some report.2)
      | .error _ => .done none)

/-- `sigaction` with `handler`. -/
def sigaction (signal : Signal) : Prog Int :=
  .issue (.sigaction signal)
    (fun result : Except Errno Unit =>
      match result with
      | .ok () => .done 0
      | .error _ => .done (-1))

def getrlimit : Prog Int :=
  .issue .getrlimit
    (fun result : Except Errno Unit =>
      match result with
      | .ok () => .done 0
      | .error _ => .done (-1))

/-- `execvp`, where it returns. -/
def execvp : Prog Unit :=
  .issue .execvp (fun _ : Errno => .done ())

end Atomicles
