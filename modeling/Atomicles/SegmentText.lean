import Mathlib.Algebra.Group.Nat.Defs
import Atomicles.Kernel.Memory
import Atomicles.Source.Equations

/-!
# Strings in a segment

`SharedMemory$write` and `SharedMemory$read` on a segment that a process has
mapped.  The store is the phase of the protocol: it is what the process sees
of the segment while it holds the mutex.  The two calls on the memory are
allowed where they touch bytes of the segment only.
-/

namespace Atomicles

open Interaction

/-- A string of C: no byte of it is the terminator. -/
abbrev CString :=
  { bytes : List (BitVec 8) // (0 : BitVec 8) ∉ bytes }

namespace Segment

variable {segment : Segment} {content : List (BitVec 8)}
variable {offset index : Nat}

/-! ## Bytes that are written and read again -/

theorem setBytes_outside
    (outside : index < offset ∨ offset + content.length ≤ index) :
    (segment.setBytes offset content).bytes index = segment.bytes index := by
  simp only [setBytes]
  rcases outside with before | behind
  · rw [if_neg (by omega)]
  · rw [if_pos (by omega), List.getElem?_eq_none (by omega)]
    rfl

theorem setBytes_inside (inside : index < content.length) :
    (segment.setBytes offset content).bytes (offset + index) =
      content[index] := by
  simp only [setBytes]
  rw [if_pos (by omega), Nat.add_sub_cancel_left,
    List.getElem?_eq_getElem inside]
  rfl

/-- A string with its terminator is found where it was written. -/
theorem stringAt_eq {text : List (BitVec 8)} (clean : (0 : BitVec 8) ∉ text)
    {n : Nat} (room : text.length < n)
    (written : ∀ index, (inside : index < text.length) →
      segment.bytes (offset + index) = text[index])
    (ended : segment.bytes (offset + text.length) = 0) :
    Store.stringAt segment offset n = text := by
  induction text generalizing offset n with
  | nil =>
      cases n with
      | zero => exact absurd room (Nat.not_lt_zero _)
      | succ n =>
          have first : segment.bytes offset = 0 := ended
          simp only [Store.stringAt, first, if_true]
  | cons byte text ih =>
      cases n with
      | zero => exact absurd room (Nat.not_lt_zero _)
      | succ n =>
          have first : segment.bytes offset = byte :=
            written 0 (Nat.succ_pos _)
          have proper : byte ≠ 0 := by
            rintro rfl
            exact clean List.mem_cons_self
          have rest : Store.stringAt segment (offset + 1) n = text := by
            apply ih
            · intro member
              exact clean (List.mem_cons_of_mem byte member)
            · exact Nat.lt_of_succ_lt_succ room
            · intro index inside
              have later := written (index + 1) (Nat.succ_lt_succ inside)
              rw [← Nat.add_assoc, Nat.add_right_comm] at later
              exact later
            · have last := ended
              rw [List.length_cons, ← Nat.add_assoc, Nat.add_right_comm] at last
              exact last
          simp only [Store.stringAt, first, proper, if_false, rest]

theorem size_le_mappedSize : segment.size ≤ segment.mappedSize := by
  unfold mappedSize PAGE_SIZE
  omega

end Segment

namespace SegmentText

/-! ## The bytes that are touched -/

/-- How many bytes `vsnprintf` stores. -/
def stores (n : Nat) (text : List (BitVec 8)) : Nat :=
  if n = 0 then 0 else min text.length (n - 1) + 1

/-- How many bytes of the segment `strncpy` reads: it stops at a NUL. -/
def reads (segment : Segment) (offset n : Nat) : Nat :=
  min n ((Store.stringAt segment offset n).length + 1)

/-- A run of bytes from `offset` on ends before `limit`, if it has any. -/
def Inside (offset count limit : Nat) : Prop :=
  count = 0 ∨ offset + count ≤ limit

/-- The protocol of a process that uses strings of the first `size` bytes of a
segment: it touches bytes of the segment only, and is not killed for it. -/
def protocol (process : Pid) (size : Nat) : Protocol signature Store where
  allow store call :=
    match call with
    | .vsnprintf addr offset n text =>
        ∀ id segment, store.mapping process addr = some (id, segment) →
          Inside offset (stores n text) (min size segment.size)
    | .strncpy addr offset n =>
        ∀ id segment, store.mapping process addr = some (id, segment) →
          Inside offset (reads segment offset n) (min size segment.size)
    | .die cause => cause ≠ .segv
    | _ => True
  answer store call answer :=
    match call, answer with
    | .vsnprintf addr offset n text, (done : Option Unit) =>
        done = (store.vsnprintf process addr offset n text).1
    | .strncpy addr offset n, (copied : Option (List (BitVec 8))) =>
        copied = store.strncpy process addr offset n
    | _, _ => True
  next store call _ :=
    match call with
    | .vsnprintf addr offset n text =>
        (store.vsnprintf process addr offset n text).2
    | _ => store

/-- What `write` and `read` leave: the bytes before the offset and from the
size on are as they were, and the buffer starts with the part of the text that
fits with its terminator. -/
structure Yields (id : IpcId) (segment : Segment) (size offset : Nat)
    (text : CString) (after : Store) (buffer : List (BitVec 8)) : Prop where
  kept : ∃ later, after.shms id = some later ∧
    ∀ index, index < offset ∨ size ≤ index →
      later.bytes index = segment.bytes index
  fits : buffer.takeWhile (· ≠ 0) = text.1.take (size - offset - 1)

/-- There is room for the text: the offset is not beyond the size, and unless
it is the size the text that fits ends inside the segment. -/
def Room (size whole offset : Nat) (text : CString) : Prop :=
  offset ≤ size ∧
    (offset < size →
      offset + min text.1.length (size - offset - 1) < whole)

section Conformance

variable {process : Pid} {size : Nat} {store : Store} {this : SharedMemory}
variable {Value : Type} {post : Store → Value → Prop}

theorem conforms_enter {shsem : Semaphore} (owned : this.shsem = some shsem)
    {continuation : Unit → Prog Value} :
    (SharedMemory.enter this >>= continuation).Conforms
        (protocol process size) store post ↔
      (continuation ()).Conforms (protocol process size) store post := by
  rw [SharedMemory.enter_bind owned]
  constructor
  · rintro ⟨_, taken⟩
    exact taken (.ok () : Except Errno Unit) trivial
  · intro rest
    refine ⟨trivial, ?_⟩
    intro (outcome : Except Errno Unit) _
    cases outcome with
    | ok success => exact rest
    | error errno =>
        by_cases removed : errno = .EIDRM
        · simp only [removed, if_true]
          exact rest
        · simp only [removed, if_false]
          exact ⟨Death.noConfusion, fun impossible => impossible.elim⟩

theorem conforms_exit {shsem : Semaphore} (owned : this.shsem = some shsem)
    {continuation : Unit → Prog Value}
    (rest : (continuation ()).Conforms (protocol process size) store post) :
    (SharedMemory.exit this >>= continuation).Conforms
      (protocol process size) store post := by
  rw [SharedMemory.exit_bind owned]
  refine ⟨trivial, ?_⟩
  intro (value : Except Errno Nat) _
  dsimp only
  split
  · refine ⟨trivial, ?_⟩
    intro (outcome : Except Errno Unit) _
    cases outcome with
    | ok success => exact rest
    | error errno =>
        exact ⟨Death.noConfusion, fun impossible => impossible.elim⟩
  · exact ⟨Death.noConfusion, fun impossible => impossible.elim⟩

end Conformance

/-! ## The two calls where there is room -/

section Calls

variable {process : Pid} {store : Store} {addr : Addr} {id : IpcId}
variable {segment : Segment} {offset n : Nat}

theorem vsnprintf_eq {text : List (BitVec 8)}
    (mapped : store.mapping process addr = some (id, segment))
    (positive : n ≠ 0)
    (room : offset + min text.length (n - 1) < segment.size) :
    store.vsnprintf process addr offset n text =
      (some (), store.setShm id
        (some (segment.setBytes offset (text.take (n - 1) ++ [0])))) := by
  have whole := segment.size_le_mappedSize
  have accessed :
      store.access process addr offset (text.take (n - 1) ++ [0]).length =
        some (id, segment) := by
    simp only [Store.access, mapped, List.length_append, List.length_take,
      List.length_singleton]
    exact if_pos (by omega)
  simp only [Store.vsnprintf, positive, if_false, accessed]

theorem strncpy_eq {text : List (BitVec 8)}
    (mapped : store.mapping process addr = some (id, segment))
    (room : offset + text.length < segment.size) (short : text.length < n)
    (found : ∀ n, text.length < n →
      Store.stringAt segment offset n = text) :
    store.strncpy process addr offset n =
      some (text ++ List.replicate (n - text.length) 0) := by
  have whole := segment.size_le_mappedSize
  have accessed : store.access process addr offset 1 = some (id, segment) := by
    simp only [Store.access, mapped]
    exact if_pos (by omega)
  have positive : n ≠ 0 := by omega
  have read : Store.stringAt segment offset
      (min n (segment.mappedSize - offset)) = text :=
    found _ (by omega)
  have ended : ¬ (text.length < n ∧
      offset + text.length = segment.mappedSize) := by
    omega
  simp only [Store.strncpy, positive, if_false, accessed, read, ended]

end Calls

/-! ## Write, then read -/

section WriteRead

variable {process : Pid} {store : Store} {this : SharedMemory}
variable {shsem : Semaphore} {id : IpcId} {segment : Segment}
variable {offset : UShort} {text : CString}

theorem sizeT_of_le {size : Nat} (small : size < 2 ^ 64)
    (before : offset.toNat ≤ size) :
    sizeT ((size : Int) - offset.toNat) = size - offset.toNat := by
  unfold sizeT
  omega

/-- Beyond the size the room turns into nearly all of the address space. -/
theorem sizeT_of_lt {size : Nat} (beyond : size < offset.toNat) :
    sizeT ((size : Int) - offset.toNat) ≠ 0 := by
  have narrow := offset.isLt
  unfold sizeT
  omega

theorem room_of_conforms {post : Store → List (BitVec 8) → Prop}
    (owned : this.shsem = some shsem) (small : this.size.value < 2 ^ 64)
    (mapped : store.mapping process this.addr = some (id, segment))
    (conforms :
      (do
        SharedMemory.write this offset text.1
        SharedMemory.read this offset : Prog (List (BitVec 8))).Conforms
          (protocol process this.size.value) store post) :
    Room this.size.value segment.size offset.toNat text := by
  simp only [SharedMemory.write, bind_assoc] at conforms
  have written := (conforms_enter owned).mp conforms
  have inside := written.1 id segment mapped
  unfold Inside stores at inside
  by_cases beyond : this.size.value < offset.toNat
  · rw [if_neg (sizeT_of_lt beyond)] at inside
    omega
  · have before : offset.toNat ≤ this.size.value := Nat.le_of_not_lt beyond
    rw [sizeT_of_le small before] at inside
    refine ⟨before, ?_⟩
    intro within
    rw [if_neg (by omega)] at inside
    omega

/-- The two calls, where both succeed and touch bytes of the segment only. -/
theorem conforms_calls {size n : Nat} {after : Store}
    {buffer : List (BitVec 8)} {post : Store → List (BitVec 8) → Prop}
    (owned : this.shsem = some shsem)
    (isRoom : sizeT ((this.size.value : Int) - offset.toNat) = n)
    (stored : ∀ id segment,
      store.mapping process this.addr = some (id, segment) →
        Inside offset.toNat (stores n text.1) (min size segment.size))
    (written : store.vsnprintf process this.addr offset.toNat n text.1 =
      (some (), after))
    (read : ∀ id segment,
      after.mapping process this.addr = some (id, segment) →
        Inside offset.toNat (reads segment offset.toNat n)
          (min size segment.size))
    (copied : after.strncpy process this.addr offset.toNat n = some buffer)
    (yields : post after buffer) :
    (do
      SharedMemory.write this offset text.1
      SharedMemory.read this offset : Prog (List (BitVec 8))).Conforms
        (protocol process size) store post := by
  simp only [SharedMemory.write, SharedMemory.read, bind_assoc, isRoom]
  apply (conforms_enter owned).mpr
  refine ⟨stored, ?_⟩
  intro (done : Option Unit) isDone
  have succeeded : done = some () := by
    rw [show done = _ from isDone, written]
  have reached :
      (protocol process size).next store
        (.vsnprintf this.addr offset.toNat n text.1) done = after := by
    show (store.vsnprintf process this.addr offset.toNat n text.1).2 = after
    rw [written]
  rw [reached]
  subst succeeded
  apply conforms_exit owned
  apply (conforms_enter owned).mpr
  refine ⟨read, ?_⟩
  intro (result : Option (List (BitVec 8))) isResult
  have result_eq : result = some buffer :=
    Eq.trans isResult copied
  subst result_eq
  apply conforms_exit owned
  exact yields

/-- A string without room for its first byte is not touched. -/
theorem conforms_of_full (owned : this.shsem = some shsem)
    (small : this.size.value < 2 ^ 64)
    (mapped : store.mapping process this.addr = some (id, segment))
    (full : offset.toNat = this.size.value) :
    (do
      SharedMemory.write this offset text.1
      SharedMemory.read this offset : Prog (List (BitVec 8))).Conforms
        (protocol process this.size.value) store
        (Yields id segment this.size.value offset.toNat text) := by
  rcases Store.mapping_eq_some_iff.mp mapped with ⟨_, found, _⟩
  have none : sizeT ((this.size.value : Int) - offset.toNat) = 0 := by
    rw [sizeT_of_le small (Nat.le_of_eq full)]
    omega
  apply conforms_calls owned none
  · exact fun _ _ _ => Or.inl rfl
  · rfl
  · intro id segment _
    exact Or.inl (Nat.zero_min _)
  · rfl
  · exact
      { kept := ⟨segment, found, fun _ _ => rfl⟩
        fits := by simp [full] }

theorem conforms_of_room (owned : this.shsem = some shsem)
    (small : this.size.value < 2 ^ 64)
    (mapped : store.mapping process this.addr = some (id, segment))
    (before : offset.toNat < this.size.value)
    (room : offset.toNat +
      min text.1.length (this.size.value - offset.toNat - 1) < segment.size) :
    (do
      SharedMemory.write this offset text.1
      SharedMemory.read this offset : Prog (List (BitVec 8))).Conforms
        (protocol process this.size.value) store
        (Yields id segment this.size.value offset.toNat text) := by
  rcases Store.mapping_eq_some_iff.mp mapped with ⟨isAddr, found, attached⟩
  let n := this.size.value - offset.toNat
  let part := text.1.take (n - 1)
  let later := segment.setBytes offset.toNat (part ++ [0])
  have positive : n ≠ 0 := by omega
  have partLength : part.length = min text.1.length (n - 1) := by
    rw [List.length_take, Nat.min_comm]
  have short : part.length < n := by omega
  have clean : (0 : BitVec 8) ∉ part := fun member =>
    text.2 (List.mem_of_mem_take member)
  have mappedLater :
      (store.setShm id (some later)).mapping process this.addr =
        some (id, later) := by
    rw [Store.mapping_eq_some_iff]
    exact ⟨isAddr, by simp, attached⟩
  have readable : ∀ m, part.length < m →
      Store.stringAt later offset.toNat m = part := by
    intro m enough
    apply Segment.stringAt_eq clean enough
    · intro index inside
      have bounded : index < (part ++ [0]).length := by
        rw [List.length_append]
        omega
      show (segment.setBytes offset.toNat (part ++ [0])).bytes _ = _
      rw [Segment.setBytes_inside bounded, List.getElem_append_left inside]
    · have bounded : part.length < (part ++ [0]).length := by
        rw [List.length_append]
        exact Nat.lt_succ_self _
      show (segment.setBytes offset.toNat (part ++ [0])).bytes _ = _
      rw [Segment.setBytes_inside bounded, List.getElem_concat_length rfl]
  apply conforms_calls owned (sizeT_of_le small (Nat.le_of_lt before))
  · intro id' segment' same
    rw [mapped] at same
    cases same
    apply Or.inr
    unfold stores
    rw [if_neg positive]
    omega
  · exact vsnprintf_eq mapped positive room
  · intro id' segment' same
    rw [mappedLater] at same
    cases same
    apply Or.inr
    unfold reads
    rw [readable n short]
    have sameSize : later.size = segment.size := rfl
    omega
  · apply strncpy_eq mappedLater _ short readable
    show offset.toNat + part.length < segment.size
    omega
  · constructor
    · refine ⟨later, Function.update_self .., ?_⟩
      intro index outside
      apply Segment.setBytes_outside
      rw [List.length_append, List.length_singleton]
      omega
    · have proper : ∀ byte ∈ part, decide (byte ≠ 0) = true := by
        intro byte member
        apply decide_eq_true
        rintro rfl
        exact clean member
      rw [List.takeWhile_append_of_pos proper]
      simp [part, n]

end WriteRead

/-! ## The handle -/

section Handle

variable {paths : KeyPaths}

/-- `SharedMemory$new` leaves the size of its handle alone. -/
theorem newSegment_size (this : SharedMemory) (size : Nat) (attach : Bool) :
    (SharedMemory.newSegment paths this size attach).Returns
      fun made => made.2.size = this.size := by
  rw [← bind_pure (SharedMemory.newSegment paths this size attach),
    SharedMemory.newSegment_bind]
  intro (made : Except Errno IpcId)
  cases made with
  | ok id =>
      apply Program.Returns.bind_any
      intro addr
      split <;> rfl
  | error errno =>
      dsimp only
      split
      · intro (again : Except Errno IpcId)
        cases again with
        | ok id =>
            apply Program.Returns.bind_any
            intro addr
            split <;> rfl
        | error errno => rfl
      · rfl

/-- A handle that `SharedMemory$new` returns has the size that was asked for,
and a mutex. -/
theorem new_handle (key : Key) (size : Nat) (attach : Bool) :
    (SharedMemory.new paths key size attach).Returns fun made =>
      ∀ this, made = some this →
        this.size.value = size ∧ ∃ shsem, this.shsem = some shsem := by
  intro (block : Option SharedMemory)
  cases block with
  | none =>
      intro this impossible
      cases impossible
  | some block =>
      apply (newSegment_size _ size attach).bind
      rintro ⟨success, this⟩ sized
      dsimp only at sized ⊢
      split
      · apply Program.Returns.bind_any
        intro shsem
        cases shsem with
        | none =>
            apply Program.Returns.bind_any
            intro _ other impossible
            cases impossible
        | some shsem =>
            apply Program.Returns.bind_any
            intro success
            split
            · apply Program.Returns.bind_any
              intro _ other impossible
              cases impossible
            · intro other same
              cases same
              constructor
              · rw [sized]
                rfl
              · exact ⟨shsem, rfl⟩
      · apply Program.Returns.bind_any
        intro _ other impossible
        cases impossible

end Handle

/-! ## The results -/

/-- The claim to containment and to a round trip: what is touched lies in the
segment, and after `write` the text is read again, as far as it fits. -/
def Contained (process : Pid) (store : Store) (id : IpcId) (segment : Segment)
    (this : SharedMemory) (offset : UShort) (text : CString) : Prop :=
  (do
    SharedMemory.write this offset text.1
    SharedMemory.read this offset : Prog (List (BitVec 8))).Conforms
      (protocol process this.size.value) store
      (Yields id segment this.size.value offset.toNat text)

theorem contained_iff {process : Pid} {store : Store} {id : IpcId}
    {segment : Segment} {this : SharedMemory} {shsem : Semaphore}
    {offset : UShort} {text : CString} (owned : this.shsem = some shsem)
    (small : this.size.value < 2 ^ 64)
    (mapped : store.mapping process this.addr = some (id, segment)) :
    Contained process store id segment this offset text ↔
      Room this.size.value segment.size offset.toNat text := by
  constructor
  · intro contained
    exact room_of_conforms owned small mapped contained
  · rintro ⟨before, within⟩
    by_cases full : offset.toNat = this.size.value
    · exact conforms_of_full owned small mapped full
    · have inner : offset.toNat < this.size.value := by omega
      exact conforms_of_room owned small mapped inner (within inner)

/-- In a segment of the size that was asked for, only an offset beyond the
size lacks room. -/
theorem room_same_iff {size offset : Nat} {text : CString} :
    Room size size offset text ↔ offset ≤ size := by
  unfold Room
  omega

/-- **Strings in a segment.**  For a handle that `SharedMemory$new` returned,
on whatever segment the process has mapped through it. -/
theorem write_read_contained_iff (paths : KeyPaths) (key : Key)
    (size : BitVec 64) (attach : Bool) (offset : UShort) (text : CString)
    {opening : List (Event signature)} {this : SharedMemory}
    (opened :
      (SharedMemory.new paths key size.toNat attach).Ends opening (some this))
    {process : Pid} {store : Store} {id : IpcId} {segment : Segment}
    (mapped : store.mapping process this.addr = some (id, segment)) :
    Contained process store id segment this offset text ↔
      Room size.toNat segment.size offset.toNat text := by
  have handle := (new_handle key size.toNat attach).ends opened
  rcases handle this rfl with ⟨isSize, shsem, owned⟩
  have small : this.size.value < 2 ^ 64 := by
    rw [isSize]
    exact size.isLt
  rw [contained_iff owned small mapped, isSize]

/-- A segment of 16 bytes. -/
def segmentId : IpcId :=
  ⟨KeyPaths.devtmpfs.shmKey 5, 1⟩

def segment : Segment :=
  { size := 16, bytes := fun _ => 0, attached := [1], dest := false }

/-- The store of a process that has mapped it. -/
def store : Store :=
  (Store.empty 0).setShm segmentId (some segment)

/-- The handle that `SharedMemory$new` returned for it. -/
def handle : SharedMemory :=
  { key := 5
    id := segmentId
    size := .assign 16
    addr := .mapped segmentId
    shsem := some ⟨133, ⟨KeyPaths.devtmpfs.semKey 133, 1⟩, 1, 1⟩ }

/-- The calls of that `SharedMemory$new`. -/
def opening : List (Event signature) :=
  [⟨.mallocSharedMemory,
      (some ⟨0, segmentId, .assign 0, .null, none⟩ : Option SharedMemory)⟩,
    ⟨.shmget (KeyPaths.devtmpfs.shmKey 5) 16 true true,
      (.ok segmentId : Except Errno IpcId)⟩,
    ⟨.shmat segmentId, (.ok (.mapped segmentId) : Except Errno Addr)⟩,
    ⟨.mallocSemaphore, (some () : Option Unit)⟩,
    ⟨.semget (KeyPaths.devtmpfs.semKey 133) 1 true true,
      (.ok ⟨KeyPaths.devtmpfs.semKey 133, 1⟩ : Except Errno IpcId)⟩,
    ⟨.semctlSetall ⟨KeyPaths.devtmpfs.semKey 133, 1⟩ [1],
      (.ok () : Except Errno Unit)⟩,
    ⟨.mlockall, (.ok () : Except Errno Unit)⟩]

theorem opening_ends :
    (SharedMemory.new KeyPaths.devtmpfs 5 16 false).Ends opening
      (some handle) := by
  unfold opening
  iterate 7 apply Program.Ends.issue
  apply Program.Ends.done

theorem store_mapping :
    store.mapping 1 handle.addr = some (segmentId, segment) :=
  Store.mapping_eq_some_iff.mpr ⟨rfl, rfl, List.mem_singleton_self 1⟩

/-- A text of one byte. -/
def letter : CString :=
  ⟨[0x78], by decide⟩

/-- The last byte of the segment has room for the terminator. -/
theorem write_read_contained_iff_last :
    Contained 1 store segmentId segment handle 15 letter ↔
      Room 16 16 15 letter :=
  write_read_contained_iff KeyPaths.devtmpfs 5 16 false 15 letter opening_ends
    store_mapping

/-- A write at 20 changes the byte there, 4 behind the end. -/
theorem write_beyond_segment :
    (∃ later : Segment,
      (store.vsnprintf 1 handle.addr 20 (sizeT (16 - 20)) letter.1).2.shms
        segmentId = some later ∧
        later.size = 16 ∧ segment.bytes 20 = 0 ∧ later.bytes 20 = 0x78) ∧
      ¬ Contained 1 store segmentId segment handle 20 letter := by
  constructor
  · exact ⟨_, rfl, rfl, rfl, rfl⟩
  · intro contained
    have owned : handle.shsem = some _ := rfl
    have room := room_of_conforms owned (by decide) store_mapping contained
    exact absurd room.1 (by decide)

end SegmentText

end Atomicles
