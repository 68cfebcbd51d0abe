import Atomicles.Source.SharedMemory

/-!
# `lock.c`

The actions of the `lock` command.  The file's statics `delta` and `expiry`
are passed along as `Statics`; messages on standard error are left out.
-/

namespace Atomicles

open Interaction

namespace Lock

def SHSEM_COUNT : UShort := 1
def SHSEM_SIZE : UShort := 1
def SHSEM_INDEX : UShort := 0

/-- The statics of `lock.c`. -/
structure Statics where
  delta : Time
  expiry : Bool
deriving DecidableEq, Repr

/-- The statics as `main` sets them before it reads its options. -/
def Statics.initial : Statics :=
  ⟨0, false⟩

/-- The conversion of a `long` to `int`. -/
def toInt (value : Int) : Int :=
  (BitVec.ofInt 32 value).toInt

variable (paths : KeyPaths)

/-- `init`: its return value, the statics and the handle it leaves. -/
def init (statics : Statics) (shsem : Semaphore) :
    Prog (Int × Statics × Semaphore) := do
  match ← SharedMemory.attach paths shsem.key with
  | none => return (-1, statics, shsem)
  | some shmem =>
      match shmem.shsem with
      | none => return (-1, statics, shsem)
      | some _ =>
          let size ← SharedMemory.readUint shmem 0
          let shsem := shsem.setSize (size.setWidth 16)
          let flag ← SharedMemory.readUint shmem 1
          let expiry := decide (flag ≠ 0)
          if expiry then
            let now ← time
            let ctime ← Semaphore.ctime shsem
            let expires ← SharedMemory.readUint shmem 2
            let delta := ctime + (expires.toNat : Int) - now
            SharedMemory.delete shmem false
            return (0, { delta, expiry }, shsem)
          else
            SharedMemory.delete shmem false
            return (0, { statics with expiry }, shsem)

/-- `create`. -/
def create (key : Key) (semaphores : UInt) (expire : Time) : Prog Int := do
  match ← Semaphore.new paths key SHSEM_COUNT (semaphores.setWidth 16) false with
  | none => return -1
  | some shsem =>
      match ← SharedMemory.new paths key 16 false with
      | some shmem =>
          SharedMemory.writeUint shmem 0 semaphores
          SharedMemory.writeUint shmem 1 (if expire ≠ 0 then 1 else 0)
          SharedMemory.writeUint shmem 2 (BitVec.ofInt 32 expire)
          SharedMemory.writeUint shmem 3 0
          SharedMemory.delete shmem false
          Semaphore.delete shsem false
          return 0
      | none =>
          Semaphore.delete shsem false
          return -1

/-- `delete`. -/
def delete (key : Key) : Prog Int := do
  let e ←
    match ← Semaphore.attach paths key with
    | some shsem =>
        Semaphore.delete shsem true
        pure (0 : Int)
    | none => pure 1
  match ← SharedMemory.attach paths key with
  | some shmem =>
      SharedMemory.delete shmem true
      return e
  | none => return e + 1

/-- What `status` knows once `init` is done: its return value and `d`. -/
def statusCode (statics : Statics) : Int × Int :=
  if statics.expiry then
    if statics.delta > 0 then (0, toInt statics.delta) else (-1, -1)
  else (0, -1)

/-- `status`; its handle is never deleted. -/
def status (statics : Statics) (key : Key) : Prog Int := do
  match ← Semaphore.attach paths key with
  | some shsem =>
      let (_, statics, shsem) ← init paths statics shsem
      let (e, d) := statusCode statics
      if e = 0 then
        let u ← Semaphore.used shsem SHSEM_INDEX
        printf "%d %d %d\n" [u, shsem.size.toNat, d]
        return e
      else
        printf "%d %d %d\n" [-1, -1, d]
        return e
  | none =>
      printf "%d %d %d\n" [-1, -1, -1]
      return -1

/-- `summary`. -/
def summary (statics : Statics) (key : Key) : Prog Int := do
  match ← Semaphore.attach paths key with
  | some shsem =>
      let (_, statics, shsem) ← init paths statics shsem
      Semaphore.desc shsem SHSEM_INDEX
      if statics.expiry then
        if statics.delta > 0 then
          printf "Expires In:   %lis\n" [statics.delta]
        else printf "Semaphore has expired.\n" []
      else printf "Never expires.\n" []
      Semaphore.delete shsem false
      return 0
  | none => return -1

/-- The timeout `lock` passes on for a lock with `delta` seconds to go. -/
def timeoutFor (delta : Time) (timeout : Int) : Int :=
  toInt (if timeout = 0 then delta
    else if delta < timeout then delta else timeout)

/-- What `lock` does once `init` is done. -/
def lockBody (key : Key) (timeout : Int) (statics : Statics)
    (shsem : Semaphore) : Prog Int := do
  let e ←
    if statics.expiry then
      if statics.delta > 0 then
        Semaphore.lock shsem SHSEM_INDEX true
          (timeoutFor statics.delta timeout)
      else do
        let _ ← delete paths key
        pure (-1)
    else Semaphore.lock shsem SHSEM_INDEX true timeout
  Semaphore.delete shsem false
  return e

/-- `lock`. -/
def lock (statics : Statics) (key : Key) (timeout : Int) : Prog Int := do
  if ← Semaphore.exists paths key then
    match ← Semaphore.attach paths key with
    | some shsem =>
        let (_, statics, shsem) ← init paths statics shsem
        lockBody paths key timeout statics shsem
    | none => return -1
  else return -1

/-- `unlock`. -/
def unlock (statics : Statics) (key : Key) : Prog Int := do
  match ← Semaphore.attach paths key with
  | some shsem =>
      let (_, _, shsem) ← init paths statics shsem
      let e ← Semaphore.unlock shsem SHSEM_INDEX true
      Semaphore.delete shsem false
      return e
  | none => return -1

end Lock

end Atomicles
