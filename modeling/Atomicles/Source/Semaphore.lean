import Atomicles.Source.Libc

/-!
# `Semaphore.c`

The functions of `Semaphore.c`, one definition for each.  A function that
changes the struct behind its pointer returns the new struct.  The messages of
`perror` are left out.
-/

namespace Atomicles

open Interaction

/-- `LOCK_NONBLOCK`. -/
def LOCK_NONBLOCK : Int := -1

/-- `LOCK_BLOCKING`. -/
def LOCK_BLOCKING : Int := 0

/-- `NOP`. -/
def NOP : Nat := 0

namespace Semaphore

variable (paths : KeyPaths)

/-- `Semaphore$init`: every semaphore of the set gets the value `size`. -/
def init (this : Semaphore) (size : UShort) : Prog Int := do
  -- `short sarray[this->count]`; `SETALL` reads the same bits unsigned.
  let sarray := List.replicate this.count.toNat size
  match ← semctlSetall this.id sarray with
  | .error _ => return EXIT_FAILURE
  | .ok () => return EXIT_SUCCESS

/-- `Semaphore$delete`; the handle is freed in either case. -/
def delete (this : Semaphore) (remove_sem_too : Bool) : Prog Unit :=
  if remove_sem_too then semctlRmid this.id else return ()

/-- `Semaphore$new`. -/
def new (key : Key) (count size : UShort) (attach : Bool) :
    Prog (Option Semaphore) := do
  match ← mallocSemaphore with
  | none => return none
  | some () =>
      let k := paths.semKey key
      assert (k ≠ -1) "k != -1"
      match ← semget k count.toNat true true with
      | .ok id =>
          let this : Semaphore := { key, id, count, size }
          let success ← init this size
          if success ≠ EXIT_SUCCESS then
            delete this false
            return none
          else return some this
      | .error errno =>
          if attach then
            if errno = .EEXIST then
              match ← semget k NOP false true with
              | .ok id => return some { key, id, count, size }
              | .error _ => return none
            else return none
          else return none

/-- `Semaphore_exists`. -/
def «exists» (key : Key) : Prog Bool := do
  match ← semget (paths.semKey key) NOP false true with
  | .ok _ => return true
  | .error _ => return false

/-- `Semaphore$extract_count`. -/
def extractCount (id : IpcId) : Prog Nat := do
  let ds ← semctlStat id
  return ds.sem_nsems

/-- `Semaphore$attach`; the `size` of an attached handle is 1. -/
def attach (key : Key) : Prog (Option Semaphore) := do
  match ← semget (paths.semKey key) NOP false true with
  | .error _ => return none
  | .ok id =>
      match ← mallocSemaphore with
      | none => die .segv
      | some () =>
          let count ← extractCount id
          return some { key, id, count := BitVec.ofNat 16 count, size := 1 }

/-- `Semaphore$used`. -/
def used (this : Semaphore) (index : UShort) : Prog Int := do
  let value ← semctlGetval this.id index.toNat
  return this.size.toNat - value

/-- `Semaphore$ctime`. -/
def ctime (this : Semaphore) : Prog Time := do
  let ds ← semctlStat this.id
  return ds.sem_ctime

/-- `Semaphore$set_size`. -/
def setSize (this : Semaphore) (size : UShort) : Semaphore :=
  { this with size }

/-- `SFMT` of `Semaphore.c`. -/
def SFMT : String :=
  "Id:           %i\nKey:          %i\nResource:     %i of %i semaphores used\nSemaphore:    Semaphore %i of %i\nLast Changed: %s"

/-- `Semaphore$desc`. -/
def desc (this : Semaphore) (index : UShort) : Prog Unit := do
  let ds ← semctlStat this.id
  let used ← used this index
  printf SFMT [this.id.number, this.key.toInt, used, this.size.toNat,
    index.toNat + 1, this.count.toNat, ds.sem_ctime]

/-- The loop of `Semaphore$lock` that blocks for at most `timeout` seconds,
with `remaining` rounds to go. -/
def lockTimed (this : Semaphore) (index : UShort) (persist : Bool) :
    (remaining : Nat) → Prog Int
  | 0 => return 1
  | remaining + 1 => do
      match ← semop this.id index.toNat (-1) (!persist) true with
      | .ok () => return 0
      | .error .EAGAIN =>
          sleep 1
          lockTimed this index persist remaining
      -- The set was removed: neither branch of the source leaves the loop.
      | .error .EIDRM => lockTimed this index persist remaining
      | .error _ => return -1

/-- `Semaphore$lock`, in the branches the preprocessor leaves. -/
def lock (this : Semaphore) (index : UShort) (persist : Bool)
    (timeout : Time) : Prog Int := do
  if timeout = LOCK_BLOCKING then
    match ← semop this.id index.toNat (-1) (!persist) false with
    | .ok () => return 0
    | .error errno => return if errno ≠ .EIDRM then -1 else 0
  else if timeout = LOCK_NONBLOCK then
    match ← semop this.id index.toNat (-1) (!persist) true with
    | .ok () => return 0
    | .error errno =>
        return if errno = .EAGAIN then 1 else if errno ≠ .EIDRM then -1 else 0
  else lockTimed this index persist timeout.toNat

/-- `Semaphore$unlock`. -/
def unlock (this : Semaphore) (index : UShort) (persist : Bool) :
    Prog Int := do
  let used ← used this index
  if used > 0 then
    match ← semop this.id index.toNat 1 (!persist) false with
    | .error _ => return -1
    | .ok () => return 0
  else return -1

end Semaphore

end Atomicles
