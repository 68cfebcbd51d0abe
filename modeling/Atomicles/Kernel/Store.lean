import Mathlib.Logic.Function.Basic
import Atomicles.Kernel.Calls

/-!
# The System V IPC store

The kernel's semaphore sets and shared segments and what the IPC calls do to
them.  A set is found under its key as long as it exists.  A segment is found
under its key until it is marked for destruction, and it exists until the last
mapping of it is gone.  An identifier is never used twice: each key counts the
objects made under it.

`IPC_PRIVATE` is no key of the store, since no path given to `ftok` yields it
(`FtokFile.proper`).
-/

namespace Atomicles

/-- Largest semaphore value. -/
def SEMVMX : Nat := 32767

/-- Largest absolute value of an undo adjustment. -/
def SEMAEM : Int := 32767

/-- Most semaphores in one set. -/
def SEMMSL : Nat := 32000

/-- Largest segment size: `ULONG_MAX - 2^24`. -/
def SHMMAX : Nat := 0xfffffffffeffffff

def PAGE_SIZE : Nat := 4096

/-- A semaphore set: its values, the adjustment each process has pending for
each of them, and the time of its creation or last `SETALL`. -/
structure SemSet where
  semvals : List Nat
  semadj : Pid → Nat → Int
  sem_ctime : Time

/-- A shared segment: its bytes, one entry for each mapping of it, and whether
it is marked for destruction. -/
structure Segment where
  size : Nat
  bytes : Nat → BitVec 8
  attached : List Pid
  dest : Bool

/-- The kernel objects, the last generation used under each key, and the
clock. -/
structure Store where
  sems : IpcId → Option SemSet
  semGen : Key → Nat
  shms : IpcId → Option Segment
  shmGen : Key → Nat
  now : Time

/-- The store without any object. -/
def Store.empty (now : Time) : Store :=
  { sems := fun _ => none, semGen := fun _ => 0
    shms := fun _ => none, shmGen := fun _ => 0, now }

namespace Segment

/-- A segment is mapped in whole pages. -/
def mappedSize (segment : Segment) : Nat :=
  (segment.size + (PAGE_SIZE - 1)) / PAGE_SIZE * PAGE_SIZE

/-- The `unsigned int` at a word offset, in little-endian byte order. -/
def word (segment : Segment) (offset : Nat) : UInt :=
  segment.bytes (4 * offset + 3) ++ segment.bytes (4 * offset + 2) ++
    segment.bytes (4 * offset + 1) ++ segment.bytes (4 * offset)

def setWord (segment : Segment) (offset : Nat) (value : UInt) : Segment :=
  { segment with
    bytes := fun index =>
      if index / 4 = offset then value.extractLsb' (8 * (index % 4)) 8
      else segment.bytes index }

/-- Write a run of bytes from `offset` on. -/
def setBytes (segment : Segment) (offset : Nat) (content : List (BitVec 8)) :
    Segment :=
  { segment with
    bytes := fun index =>
      if offset ≤ index then
        (content[index - offset]?).getD (segment.bytes index)
      else segment.bytes index }

end Segment

namespace Store

/-- Let `seconds` pass. -/
def advance (store : Store) (seconds : Nat) : Store :=
  { store with now := store.now + seconds }

/-! ## Semaphore sets -/

/-- The set found under a key. -/
def findSem (store : Store) (key : Key) : Option IpcId :=
  if (store.sems ⟨key, store.semGen key⟩).isSome then
    some ⟨key, store.semGen key⟩
  else none

/-- The identifier the next set made under a key gets. -/
def nextSem (store : Store) (key : Key) : IpcId :=
  ⟨key, store.semGen key + 1⟩

def setSem (store : Store) (id : IpcId) (set : Option SemSet) : Store :=
  { store with sems := Function.update store.sems id set }

def semget (store : Store) (key : Key) (nsems : Nat) (creat excl : Bool) :
    Except Errno IpcId × Store :=
  match store.findSem key with
  | some id =>
      if creat && excl then (.error .EEXIST, store)
      else if ((store.sems id).elim 0 (·.semvals.length)) < nsems then
        (.error .EINVAL, store)
      else (.ok id, store)
  | none =>
      if !creat then (.error .ENOENT, store)
      else if nsems = 0 ∨ SEMMSL < nsems then (.error .EINVAL, store)
      else
        (.ok (store.nextSem key),
          { store with
            sems := Function.update store.sems (store.nextSem key)
              (some
                { semvals := List.replicate nsems 0
                  semadj := fun _ _ => 0
                  sem_ctime := store.now })
            semGen := Function.update store.semGen key (store.semGen key + 1) })

def semctlSetall (store : Store) (id : IpcId) (array : List UShort) :
    Except Errno Unit × Store :=
  match store.sems id with
  | none => (.error .EINVAL, store)
  | some set =>
      if array.any (fun value => SEMVMX < value.toNat) then
        (.error .ERANGE, store)
      else
        (.ok (), store.setSem id
          (some
            { set with
              semvals := array.map (·.toNat)
              semadj := fun _ _ => 0
              sem_ctime := store.now }))

def semctlGetval (store : Store) (id : IpcId) (semnum : Nat) :
    Except Errno Nat :=
  match store.sems id with
  | none => .error .EINVAL
  | some set =>
      match set.semvals[semnum]? with
      | none => .error .EINVAL
      | some value => .ok value

def semctlRmid (store : Store) (id : IpcId) : Except Errno Unit × Store :=
  match store.sems id with
  | none => (.error .EINVAL, store)
  | some _ => (.ok (), store.setSem id none)

/--
One semaphore operation; `none` is an operation that has to wait.

A set that is gone is reported as `EINVAL` to a call made after its removal
and as `EIDRM` to a call that was under way, which `underWay` selects.
-/
def semop (store : Store) (process : Pid) (id : IpcId) (semNum : Nat)
    (semOp : Int) (undo nowait underWay : Bool) :
    Option (Except Errno Unit × Store) :=
  match store.sems id with
  | none => some (.error (if underWay then .EIDRM else .EINVAL), store)
  | some set =>
      match set.semvals[semNum]? with
      | none => some (.error .EFBIG, store)
      | some semval =>
          if (semval : Int) + semOp < 0 then
            if nowait then some (.error .EAGAIN, store) else none
          else if (SEMVMX : Int) < semval + semOp then
            some (.error .ERANGE, store)
          else if undo && (SEMAEM < set.semadj process semNum - semOp ||
              set.semadj process semNum - semOp < -SEMAEM - 1) then
            some (.error .ERANGE, store)
          else
            some (.ok (), store.setSem id
              (some
                { set with
                  semvals := set.semvals.set semNum
                    ((semval : Int) + semOp).toNat
                  semadj :=
                    if undo then
                      Function.update set.semadj process
                        (Function.update (set.semadj process) semNum
                          (set.semadj process semNum - semOp))
                    else set.semadj }))

/-! ## Shared segments -/

/-- The segment found under a key. -/
def findShm (store : Store) (key : Key) : Option IpcId :=
  match store.shms ⟨key, store.shmGen key⟩ with
  | some segment =>
      if segment.dest then none else some ⟨key, store.shmGen key⟩
  | none => none

/-- The identifier the next segment made under a key gets. -/
def nextShm (store : Store) (key : Key) : IpcId :=
  ⟨key, store.shmGen key + 1⟩

def setShm (store : Store) (id : IpcId) (segment : Option Segment) : Store :=
  { store with shms := Function.update store.shms id segment }

def shmget (store : Store) (key : Key) (size : Nat) (creat excl : Bool) :
    Except Errno IpcId × Store :=
  match store.findShm key with
  | some id =>
      if creat && excl then (.error .EEXIST, store)
      else if ((store.shms id).elim 0 (·.size)) < size then
        (.error .EINVAL, store)
      else (.ok id, store)
  | none =>
      if !creat then (.error .ENOENT, store)
      else if size = 0 ∨ SHMMAX < size then (.error .EINVAL, store)
      else
        (.ok (store.nextShm key),
          { store with
            shms := Function.update store.shms (store.nextShm key)
              (some
                { size
                  bytes := fun _ => 0
                  attached := []
                  dest := false })
            shmGen := Function.update store.shmGen key (store.shmGen key + 1) })

def shmat (store : Store) (process : Pid) (id : IpcId) :
    Except Errno Addr × Store :=
  match store.shms id with
  | none => (.error .EINVAL, store)
  | some segment =>
      (.ok (.mapped id),
        store.setShm id
          (some { segment with attached := process :: segment.attached }))

/-- A segment with these mappings left: it goes with its last mapping once it
is marked for destruction. -/
def keepMapped (segment : Segment) (attached : List Pid) : Option Segment :=
  if segment.dest ∧ attached = [] then none
  else some { segment with attached }

/-- The segment behind an address of a process. -/
def mapping (store : Store) (process : Pid) (addr : Addr) :
    Option (IpcId × Segment) :=
  match addr with
  | .mapped id =>
      match store.shms id with
      | some segment =>
          if process ∈ segment.attached then some (id, segment) else none
      | none => none
  | _ => none

def shmdt (store : Store) (process : Pid) (addr : Addr) :
    Except Errno Unit × Store :=
  match store.mapping process addr with
  | none => (.error .EINVAL, store)
  | some (id, segment) =>
      (.ok (), store.setShm id
        (keepMapped segment (segment.attached.erase process)))

def shmctlRmid (store : Store) (id : IpcId) : Except Errno Unit × Store :=
  match store.shms id with
  | none => (.error .EINVAL, store)
  | some segment =>
      (.ok (), store.setShm id
        (keepMapped { segment with dest := true } segment.attached))

/-! ## Memory -/

/-- Read `length` bytes from `offset` on, if they are mapped. -/
def access (store : Store) (process : Pid) (addr : Addr)
    (offset length : Nat) : Option (IpcId × Segment) :=
  match store.mapping process addr with
  | some (id, segment) =>
      if offset + length ≤ segment.mappedSize then some (id, segment) else none
  | none => none

def load (store : Store) (process : Pid) (addr : Addr) (offset : Nat) :
    Option UInt :=
  (store.access process addr (4 * offset) 4).map (·.2.word offset)

def storeWord (store : Store) (process : Pid) (addr : Addr) (offset : Nat)
    (value : UInt) : Option Unit × Store :=
  match store.access process addr (4 * offset) 4 with
  | some (id, segment) =>
      (some (), store.setShm id (some (segment.setWord offset value)))
  | none => (none, store)

/-- `memset(addr, 0, n)`. -/
def memset (store : Store) (process : Pid) (addr : Addr) (n : Nat) :
    Option Unit × Store :=
  if n = 0 then (some (), store)
  else
    match store.access process addr 0 n with
    | some (id, segment) =>
        (some (), store.setShm id
          (some (segment.setBytes 0 (List.replicate n 0))))
    | none => (none, store)

/-- `vsnprintf` of an already formatted text: at most `n` bytes are written,
the last of them a NUL. -/
def vsnprintf (store : Store) (process : Pid) (addr : Addr) (offset n : Nat)
    (text : List (BitVec 8)) : Option Unit × Store :=
  if n = 0 then (some (), store)
  else
    let content := text.take (n - 1) ++ [0]
    match store.access process addr offset content.length with
    | some (id, segment) =>
        (some (), store.setShm id (some (segment.setBytes offset content)))
    | none => (none, store)

/-- The bytes of a segment from `offset` up to the first NUL, at most `n`. -/
def stringAt (segment : Segment) (offset : Nat) : Nat → List (BitVec 8)
  | 0 => []
  | n + 1 =>
      if segment.bytes offset = 0 then []
      else segment.bytes offset :: stringAt segment (offset + 1) n

/-- `strncpy` out of a segment: the bytes it puts into the buffer, namely the
string and the NULs that fill up to `n`.  It stops reading at the first NUL,
or at the end of the mapping if there is none before. -/
def strncpy (store : Store) (process : Pid) (addr : Addr) (offset n : Nat) :
    Option (List (BitVec 8)) :=
  if n = 0 then some []
  else
    match store.access process addr offset 1 with
    | some (_, segment) =>
        let text := stringAt segment offset (min n (segment.mappedSize - offset))
        if text.length < n ∧ offset + text.length = segment.mappedSize then none
        else some (text ++ List.replicate (n - text.length) 0)
    | none => none

/-! ## The end of a process -/

/-- The value of a semaphore after the adjustment of an ended process. -/
def adjusted (semval : Nat) (adj : Int) : Nat :=
  min SEMVMX ((semval : Int) + adj).toNat

/-- When a process ends its pending adjustments are applied and dropped, and
its mappings go. -/
def leave (process : Pid) (store : Store) : Store :=
  { store with
    sems := fun id => (store.sems id).map fun set =>
      { set with
        semvals := set.semvals.mapIdx fun index semval =>
          adjusted semval (set.semadj process index)
        semadj := Function.update set.semadj process fun _ => 0 }
    shms := fun id => (store.shms id).bind fun segment =>
      keepMapped segment (segment.attached.filter (· ≠ process)) }

end Store

end Atomicles
