import Atomicles.Source.Calls
import Atomicles.Lock.Reading

/-!
# Size and expiry through the segment

`create` narrows its arguments to the words of the segment and `init` widens
them again.  The words are followed through every way `create` can succeed,
and back through every way `init` can go on a segment that holds them.
-/

namespace Atomicles

open Interaction

namespace Expiry

open View (user mutex attaching reading)

/-! ## What `create` leaves -/

/-- The words that are stored, as a phase. -/
def recording : Protocol signature (Nat → Option UInt) where
  allow _ _ := True
  answer _ _ _ := True
  next words call _ :=
    match call with
    | .store _ offset value => Function.update words offset (some value)
    | _ => words

/-- The last word a run has stored at each offset. -/
def stored (events : List (Event signature)) : Nat → Option UInt :=
  recording.after (fun _ => none) events

theorem recording_relied {words : Nat → Option UInt}
    {events : List (Event signature)} : recording.Relied words events := by
  induction events generalizing words with
  | nil => trivial
  | cons event events ih => exact ⟨trivial, ih⟩

/-- A call that stores no word. -/
def Storeless (call : Call) : Prop :=
  ∀ addr offset value, call ≠ .store addr offset value

theorem storeless_opens (call : Call) (opens : call.opens = true) :
    Storeless call := by
  rintro addr offset value rfl
  cases opens

theorem storeless_enters (call : Call) (enters : call.enters = true) :
    Storeless call := by
  rintro addr offset value rfl
  cases enters

section Conformance

variable {words : Nat → Option UInt} {Value Result : Type}
variable {post : (Nat → Option UInt) → Result → Prop}

/-- A program that stores nothing may come before any other. -/
theorem conforms_storeless {program : Prog Value}
    {continuation : Value → Prog Result} (within : program.Within Storeless)
    (rest : ∀ value, (continuation value).Conforms recording words post) :
    (program >>= continuation).Conforms recording words post := by
  apply within.conforms_bind
  · intro call _
    trivial
  · intro call answer storeless
    cases call with
    | store addr offset value => exact absurd rfl (storeless addr offset value)
    | _ => rfl
  · exact rest

/-- `SharedMemory$write_uint`. -/
theorem conforms_writeUint {shmem : SharedMemory} {offset : UShort} {n : UInt}
    {continuation : Unit → Prog Result}
    (rest : (continuation ()).Conforms recording
      (Function.update words offset.toNat (some n)) post) :
    (SharedMemory.writeUint shmem offset n >>= continuation).Conforms recording
      words post := by
  simp only [SharedMemory.writeUint, SharedMemory.writeWord, bind_assoc]
  apply conforms_storeless (SharedMemory.within_enter storeless_enters shmem)
  intro _
  rw [SharedMemory.store_bind]
  refine ⟨trivial, ?_⟩
  intro (done : Option Unit) _
  cases done with
  | none => exact ⟨trivial, fun impossible => impossible.elim⟩
  | some success =>
      apply conforms_storeless (SharedMemory.within_exit storeless_enters shmem)
      intro _
      exact rest

end Conformance

/-- The words of a lock made by `create`. -/
def written (semaphores : UInt) (expire : Time) : Nat → Option UInt :=
  Function.update
    (Function.update
      (Function.update
        (Function.update (fun _ => none) 0 (some semaphores))
        1 (some (if expire ≠ 0 then 1 else 0)))
      2 (some (BitVec.ofInt 32 expire)))
    3 (some 0)

theorem conforms_create {paths : KeyPaths} {key : Key} {semaphores : UInt}
    {expire : Time} :
    (Lock.create paths key semaphores expire).Conforms recording
      (fun _ => none)
      fun words e => e = 0 → words = written semaphores expire := by
  unfold Lock.create
  apply conforms_storeless
  · exact Semaphore.within_new (opens_set storeless_opens) ..
  intro shsem
  cases shsem with
  | none =>
      intro impossible
      cases impossible
  | some shsem =>
      apply conforms_storeless
      · exact SharedMemory.within_new storeless_opens ..
      intro shmem
      cases shmem with
      | none =>
          intro impossible
          cases impossible
      | some shmem =>
          apply conforms_writeUint
          apply conforms_writeUint
          apply conforms_writeUint
          apply conforms_writeUint
          apply conforms_storeless (SharedMemory.within_free shmem)
          intro _ _
          rfl

/-- Wherever `create` succeeds, whatever the kernel answered. -/
theorem stored_create {paths : KeyPaths} {key : Key} {semaphores : UInt}
    {expire : Time} {made : List (Event signature)}
    (created : (Lock.create paths key semaphores expire).Ends made 0) :
    stored made = written semaphores expire :=
  conforms_create.ends recording_relied created rfl

/-! ## What `init` finds -/

/-- A lock with the words that a run of `create` has stored, as a process sees
it that works with none of its units. -/
def view (paths : KeyPaths) (key : Key) (made : List (Event signature))
    (ctime : Time) : View :=
  { paths, key, ctime
    words := stored made
    permits := fun _ => False }

/-- What `init` returns on a lock with these words. -/
structure Found (words : Nat → Option UInt) (ctime now : Time)
    (result : Int × Lock.Statics × Semaphore) : Prop where
  code : result.1 = 0
  size : ∀ word, words 0 = some word → result.2.2.size = word.setWidth 16
  expiry : ∀ flag, words 1 = some flag →
    (result.2.1.expiry = true ↔ flag ≠ 0)
  delta : ∀ word, words 2 = some word → result.2.1.expiry = true →
    result.2.1.delta = ctime + (word.toNat : Int) - now

theorem conforms_init_found {view : View} {own : Lock.Statics}
    {shsem : Semaphore} {now : Time} (isKey : shsem.key = view.key)
    (isUser : shsem.id.key = view.paths.semKey view.key) :
    (Lock.init view.paths own shsem).Conforms view.protocol now
      fun _ result => Found view.words view.ctime now result := by
  rw [← bind_pure (Lock.init view.paths own shsem)]
  apply View.conforms_init isKey isUser
  · intro size sized lasts
    constructor
    · rfl
    · intro word isWord
      rw [sized word isWord]
      rfl
    · intro flag isFlag
      have unset : (0 : UInt) = flag := lasts flag isFlag
      simp [← unset]
    · intro word _ impossible
      cases impossible
  · intro size flag expire sized flagged expires shown
    constructor
    · rfl
    · intro word isWord
      rw [sized word isWord]
      rfl
    · intro other isFlag
      have same : flag = other := flagged other isFlag
      rw [← same]
      exact iff_of_true rfl expires
    · intro word isWord _
      rw [shown word isWord]

/-! ## The results -/

/-- The unsigned word is the signed value exactly where that is not
negative. -/
theorem toNat_eq_toInt_iff (expire : BitVec 32) :
    (expire.toNat : Int) = expire.toInt ↔ 0 ≤ expire.toInt := by
  have small := expire.isLt
  rw [BitVec.toInt_eq_toNat_cond]
  split <;> omega

/-- The claim to a round trip of the size and of the expiry. -/
def RoundTrips (semaphores : UInt) (expire : BitVec 32) (ctime now : Time)
    (statics : Lock.Statics) (handle : Semaphore) : Prop :=
  handle.size.toNat = semaphores.toNat ∧
    (statics.expiry = true ↔ expire ≠ 0) ∧
    (expire ≠ 0 → statics.delta = ctime + expire.toInt - now)

/-- **Round trip.**  After a `create` that succeeded, `init` of an attached
handle on the words that it stored finds the size and the expiry again exactly
where the expiry is not negative. -/
theorem init_round_trips_iff (paths : KeyPaths) (key : Key) (semaphores : UInt)
    (expire : BitVec 32) (small : semaphores.toNat ≤ 32767)
    {made : List (Event signature)}
    (created :
      (Lock.create paths key semaphores expire.toInt).Ends made 0)
    {own statics : Lock.Statics} {shsem handle : Semaphore} {code : Int}
    {ctime now : Time} {reads : List (Event signature)}
    (isKey : shsem.key = key) (isUser : shsem.id.key = paths.semKey key)
    (inited : (Lock.init paths own shsem).Ends reads (code, statics, handle))
    (relied : (view paths key made ctime).protocol.Relied now reads) :
    RoundTrips semaphores expire ctime now statics handle ↔
      0 ≤ expire.toInt := by
  have found := (@conforms_init_found (view paths key made ctime) own shsem now
    isKey isUser).ends relied inited
  have words : (view paths key made ctime).words =
      written semaphores expire.toInt :=
    stored_create created
  rw [words] at found
  have sized : handle.size = semaphores.setWidth 16 :=
    found.size semaphores rfl
  have size : handle.size.toNat = semaphores.toNat := by
    rw [sized, BitVec.toNat_setWidth]
    exact Nat.mod_eq_of_lt (by omega)
  have flagged := found.expiry _ rfl
  have expires : statics.expiry = true ↔ expire ≠ 0 := by
    rw [flagged]
    by_cases none : expire = 0
    · simp [none]
    · have differs : expire.toInt ≠ 0 := by
        intro same
        exact none (BitVec.toInt_inj.mp same)
      rw [if_pos differs]
      exact iff_of_true (by decide) none
  have word : BitVec.ofInt 32 expire.toInt = expire := BitVec.ofInt_toInt
  have delta : statics.expiry = true →
      statics.delta = ctime + (expire.toNat : Int) - now := by
    have read := found.delta _ rfl
    rw [word] at read
    exact read
  constructor
  · rintro ⟨_, _, exact⟩
    by_cases none : expire = 0
    · simp [none]
    · have claimed := exact none
      rw [delta (expires.mpr none)] at claimed
      have same : (expire.toNat : Int) = expire.toInt := by grind
      exact (toNat_eq_toInt_iff expire).mp same
  · intro positive
    refine ⟨size, expires, ?_⟩
    intro some
    have same := (toNat_eq_toInt_iff expire).mpr positive
    rw [delta (expires.mpr some), same]

/-- The calls of `SharedMemory$write_uint`. -/
def writing (offset : Nat) (word : UInt) : List (Event signature) :=
  [⟨.semop mutex 0 (-1) true false, (.ok () : Except Errno Unit)⟩,
    ⟨.store (.mapped View.segment) offset word, (some () : Option Unit)⟩,
    ⟨.semctlGetval mutex 0, (.ok 0 : Except Errno Nat)⟩,
    ⟨.semop mutex 0 1 true false, (.ok () : Except Errno Unit)⟩]

/-- The calls of `lock 5 create -s 3 -x N`, for the word of `N`. -/
def making (expire : UInt) : List (Event signature) :=
  [⟨.mallocSemaphore, (some () : Option Unit)⟩,
    ⟨.semget (KeyPaths.devtmpfs.semKey 5) 1 true true,
      (.ok user : Except Errno IpcId)⟩,
    ⟨.semctlSetall user [3], (.ok () : Except Errno Unit)⟩,
    ⟨.mallocSharedMemory,
      (some ⟨0, View.segment, .assign 0, .null, none⟩ : Option SharedMemory)⟩,
    ⟨.shmget (KeyPaths.devtmpfs.shmKey 5) 16 true true,
      (.ok View.segment : Except Errno IpcId)⟩,
    ⟨.shmat View.segment, (.ok (.mapped View.segment) : Except Errno Addr)⟩,
    ⟨.mallocSemaphore, (some () : Option Unit)⟩,
    ⟨.semget (KeyPaths.devtmpfs.semKey 133) 1 true true,
      (.ok mutex : Except Errno IpcId)⟩,
    ⟨.semctlSetall mutex [1], (.ok () : Except Errno Unit)⟩,
    ⟨.mlockall, (.ok () : Except Errno Unit)⟩] ++
  writing 0 3 ++ writing 1 1 ++ writing 2 expire ++ writing 3 0

/-- The calls of `init` at 105, 5 seconds after that. -/
def finding (expire : UInt) : List (Event signature) :=
  attaching ++ reading 0 3 ++ reading 1 1 ++
  [⟨.time, (105 : Time)⟩,
    ⟨.semctlStat user, (⟨1, 100⟩ : SemidDs)⟩] ++
  reading 2 expire

/-- A handle of the set. -/
def handle : Semaphore :=
  ⟨5, user, 1, 1⟩

theorem making_ends {expire : BitVec 32} (expires : expire.toInt ≠ 0) :
    (Lock.create KeyPaths.devtmpfs 5 3 expire.toInt).Ends (making expire)
      0 := by
  have flag : (if expire.toInt ≠ 0 then 1 else 0 : UInt) = 1 :=
    if_pos expires
  simp only [Lock.create, flag, BitVec.ofInt_toInt]
  unfold making writing
  iterate 26 apply Program.Ends.issue
  apply Program.Ends.done

theorem finding_relied (expire : UInt) :
    (view KeyPaths.devtmpfs 5 (making expire) 100).protocol.Relied 105
      (finding expire) := by
  simp [finding, attaching, reading, making, writing, Protocol.Relied,
    View.protocol, View.Shows, view, stored, Protocol.after, recording, user,
    mutex, View.segment]

theorem finding_ends (expire : UInt) :
    (Lock.init KeyPaths.devtmpfs .initial handle).Ends (finding expire)
      (0, { delta := 100 + (expire.toNat : Int) - 105, expiry := true },
        { handle with size := 3 }) := by
  unfold finding attaching reading
  iterate 20 apply Program.Ends.issue
  apply Program.Ends.done

/-- An expiry of 10 seconds makes the round trip. -/
theorem init_round_trips_iff_ten :
    RoundTrips 3 10 100 105
        { delta := 100 + ((10 : UInt).toNat : Int) - 105, expiry := true }
        { handle with size := 3 } ↔
      0 ≤ BitVec.toInt (10 : BitVec 32) :=
  init_round_trips_iff KeyPaths.devtmpfs 5 3 10 (by decide)
    (making_ends (by decide)) rfl rfl (finding_ends 10) (finding_relied 10)

/-- `lock 5 create -s 3 -x -10` makes a lock that has 4294967281 seconds left
after 5. -/
theorem init_negative_expiry :
    ∃ made reads statics found,
      (Lock.create KeyPaths.devtmpfs 5 3
          (BitVec.toInt (-10 : BitVec 32))).Ends made 0 ∧
        (Lock.init KeyPaths.devtmpfs .initial handle).Ends reads
          (0, statics, found) ∧
        (view KeyPaths.devtmpfs 5 made 100).protocol.Relied 105 reads ∧
        statics.delta = 4294967281 ∧
        ¬ RoundTrips 3 (-10) 100 105 statics found := by
  refine ⟨_, _, _, _, making_ends (by decide), finding_ends (-10),
    finding_relied (-10), by decide, ?_⟩
  rintro ⟨_, _, expired⟩
  have claimed := expired (by decide)
  exact absurd claimed (by decide)

end Expiry

end Atomicles
