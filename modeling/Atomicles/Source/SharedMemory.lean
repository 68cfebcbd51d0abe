import Atomicles.Source.Semaphore

/-!
# `SharedMemory.c`

The functions of `SharedMemory.c`.  A handle that is deleted is no longer
available to its caller, so the deleting functions return nothing.
-/

namespace Atomicles

open Interaction

/-- `size_t` arithmetic. -/
def sizeT (n : Int) : Nat :=
  (n % 0x10000000000000000).toNat

namespace SharedMemory

variable (paths : KeyPaths)

/-- `SharedMemory$delete`. -/
def delete (this : SharedMemory) (remove_shm_too : Bool) : Prog Unit := do
  if remove_shm_too then
    match this.shsem with
    | some shsem => Semaphore.delete shsem true
    | none => pure ()
    memset this.addr this.size.value
    munlockall
    shmdt this.addr
    shmctlRmid this.id
  else
    match this.shsem with
    | some shsem => Semaphore.delete shsem false
    | none => pure ()

/-- The `shmget` and `shmat` calls of `SharedMemory$new`: the handle they
leave and `success`. -/
def newSegment (this : SharedMemory) (size : Nat) (attach : Bool) :
    Prog (Int × SharedMemory) := do
  let k := paths.shmKey this.key
  match ← shmget k size true true with
  | .ok id =>
      let addr ← shmat id
      if addr ≠ .failed then
        return (EXIT_SUCCESS, { this with id, addr })
      else return (EXIT_FAILURE, { this with id, addr })
  | .error errno =>
      -- Every case of the switch but this one only reports the error.
      if errno = .EEXIST ∧ attach then
        match ← shmget k NOP false true with
        | .ok id =>
            let addr ← shmat id
            if addr ≠ .failed then
              return (EXIT_SUCCESS, { this with id, addr })
            else return (errno.code, { this with id, addr })
        | .error errno => return (errno.code, this)
      else return (errno.code, this)

/-- The locking of pages in `SharedMemory$new`. -/
def lockPages (this : SharedMemory) : Prog Int := do
  let success ← mlockall
  if success ≠ EXIT_SUCCESS then
    let locked ← mlock this.addr this.size.value
    return if locked ≠ EXIT_SUCCESS then 1 else 0
  else return success

/-- `SharedMemory$new`. -/
def new (key : Key) (size : Nat) (attach : Bool) :
    Prog (Option SharedMemory) := do
  match ← mallocSharedMemory with
  | none => return none
  | some block =>
      let this :=
        { block with
          addr := .null, shsem := none, key, size := Member.assign size }
      let (success, this) ← newSegment paths this size attach
      if success = EXIT_SUCCESS then
        -- A semaphore set of size 1, with its counter set to 1.
        let shsem ← Semaphore.new paths (key + 128) 1 1 attach
        let this := { this with shsem }
        match shsem with
        | none =>
            delete this false
            return none
        | some _ =>
            let success ← lockPages this
            if success ≠ EXIT_SUCCESS then
              delete this false
              return none
            else return some this
      else
        delete this false
        return none

/-- `SharedMemory$attach`; it leaves `size` as `malloc` returned it, and
`shsem` too where `shmat` fails. -/
def attach (key : Key) : Prog (Option SharedMemory) := do
  match ← shmget (paths.shmKey key) NOP false true with
  | .error _ => return none
  | .ok id =>
      match ← mallocSharedMemory with
      | none => die .segv
      | some block =>
          let addr ← shmat id
          let this := { block with key, id, addr }
          if addr ≠ .failed then
            let shsem ← Semaphore.attach paths (key + 128)
            return some { this with shsem }
          else return some this

/-! ## Access to the segment -/

/-- `Semaphore$lock(this->shsem, 0, 0, 0)` and its assertion. -/
def enter (this : SharedMemory) : Prog Unit := do
  match this.shsem with
  | none => die .segv
  | some shsem =>
      let e ← Semaphore.lock shsem 0 false 0
      assert (e = 0) "e == 0"

/-- `Semaphore$unlock(this->shsem, 0, 0)` and its assertion. -/
def exit (this : SharedMemory) : Prog Unit := do
  match this.shsem with
  | none => die .segv
  | some shsem =>
      let e ← Semaphore.unlock shsem 0 false
      assert (e = 0) "e == 0"

/-- `SharedMemory$write` of the text that `fmt` and its arguments give. -/
def write (this : SharedMemory) (offset : UShort) (text : List (BitVec 8)) :
    Prog Unit := do
  enter this
  vsnprintf this.addr offset.toNat
    (sizeT ((this.size.value : Int) - offset.toNat)) text
  exit this

/-- `SharedMemory$read`: the bytes put into the buffer. -/
def read (this : SharedMemory) (offset : UShort) :
    Prog (List (BitVec 8)) := do
  enter this
  let buffer ← strncpy this.addr offset.toNat
    (sizeT ((this.size.value : Int) - offset.toNat))
  exit this
  return buffer

/-- The common body of `SharedMemory$write_uint` and
`SharedMemory$write_uint32`: the store is made while the mutex is held. -/
def writeWord (this : SharedMemory) (offset : UShort) (n : UInt) :
    Prog Unit := do
  enter this
  store this.addr offset.toNat n
  exit this

/-- The common body of `SharedMemory$read_uint` and
`SharedMemory$read_uint32`: the load is made after the mutex is released. -/
def readWord (this : SharedMemory) (offset : UShort) : Prog UInt := do
  enter this
  exit this
  load this.addr offset.toNat

/-- `SharedMemory$write_uint`. -/
def writeUint (this : SharedMemory) (offset : UShort) (n : UInt) : Prog Unit :=
  writeWord this offset n

/-- `SharedMemory$read_uint`. -/
def readUint (this : SharedMemory) (offset : UShort) : Prog UInt :=
  readWord this offset

/-- `SharedMemory$write_uint32`. -/
def writeUint32 (this : SharedMemory) (offset : UShort) (n : UInt) :
    Prog Unit :=
  writeWord this offset n

/-- `SharedMemory$read_uint32`. -/
def readUint32 (this : SharedMemory) (offset : UShort) : Prog UInt :=
  readWord this offset

end SharedMemory

end Atomicles
