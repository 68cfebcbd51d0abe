import Atomicles.Lock.Deletion
import Atomicles.Lock.Operations

/-!
# The store reflects a registry

The objects of each listed key hold what the listing says, and nothing is
found under the names of the other keys.  What happens under one key leaves
the others alone, and neither time nor the end of a process changes a lock.
-/

namespace Atomicles.Refinement

open Interaction Deletion

/-- The commands in question. -/
def Legal : Action → Prop
  | .create semaphores expire =>
      semaphores.toNat ≤ 32767 ∧ 0 ≤ expire ∧ expire < 2 ^ 31
  | .on timeout => timeout = -1 ∨ 1 ≤ timeout ∧ timeout ≤ 32767
  | .off => True
  | .status => True
  | .summary => False
  | .delete => True

/-- The objects of a key hold what its listing says. -/
def Registered (paths : KeyPaths) (key : Key) (listing : Listing)
    (store : Store) : Prop :=
  ∃ channel contents, Stands paths key channel contents store store ∧
    listing.Held contents ∧ contents.user.sem_ctime ≤ store.now

/-- What the store says of one key. -/
def Shows (paths : KeyPaths) (key : Key) (store : Store) :
    Option Listing → Prop
  | none => Vacant paths key store
  | some listing => Registered paths key listing store

/-- What the store says of all keys. -/
def Reflects (paths : KeyPaths) (registry : Registry) (store : Store) : Prop :=
  ∀ key, key.toNat < 128 → Shows paths key store (registry key)

variable {paths : KeyPaths} {key other : Key} {store after : Store}
variable {registry : Registry} {listing : Listing}

/-! ## The other keys -/

section Other

variable (beside : Beside paths key store after)
variable (small : key.toNat < 128) (small' : other.toNat < 128)
variable (different : other ≠ key)
include beside small small' different

/-- The objects of another key are left alone. -/
theorem sems_beside {id : IpcId}
    (own : id.key = paths.semKey other ∨ id.key = mutexKey paths other) :
    after.sems id = store.sems id ∧
      after.semGen id.key = store.semGen id.key := by
  have apart : id.key ≠ paths.semKey key ∧
      id.key ≠ paths.semKey (key + 128) := by
    rcases own with isUser | isMutex
    · rw [isUser]
      constructor
      · intro same
        exact different (semKey_injective small' small same)
      · intro same
        exact mutexKey_ne_semKey small small' same.symm
    · rw [isMutex]
      constructor
      · exact mutexKey_ne_semKey small' small
      · intro same
        exact different (mutexKey_injective small' small same)
  exact ⟨beside.sems id apart.1 apart.2,
    beside.semGen id.key apart.1 apart.2⟩

theorem shms_beside {id : IpcId} (own : id.key = paths.shmKey other) :
    after.shms id = store.shms id ∧
      after.shmGen id.key = store.shmGen id.key := by
  have apart : id.key ≠ paths.shmKey key := by
    rw [own]
    intro same
    exact different (shmKey_injective small' small same)
  exact ⟨beside.shms id apart, beside.shmGen id.key apart⟩

theorem vacant_beside (vacant : Vacant paths other store) :
    Vacant paths other after := by
  have findSem : ∀ name, name = paths.semKey other ∨
      name = mutexKey paths other →
        after.findSem name = store.findSem name := by
    intro name own
    have own : (⟨name, store.semGen name⟩ : IpcId).key = paths.semKey other ∨
        (⟨name, store.semGen name⟩ : IpcId).key = mutexKey paths other := own
    have same := sems_beside beside small small' different own
    have last : after.semGen name = store.semGen name := same.2
    simp only [Store.findSem, last, same.1]
  constructor
  · rw [findSem _ (Or.inl rfl), vacant.user]
  · rw [findSem _ (Or.inr rfl), vacant.mutex]
  · have own : (⟨paths.shmKey other,
        store.shmGen (paths.shmKey other)⟩ : IpcId).key =
          paths.shmKey other := rfl
    have same := shms_beside beside small small' different own
    have last : after.shmGen (paths.shmKey other) =
        store.shmGen (paths.shmKey other) := same.2
    have before := vacant.segment
    simp only [Store.findShm, last, same.1] at before ⊢
    exact before

theorem registered_beside (registered : Registered paths other listing store) :
    Registered paths other listing after := by
  rcases registered with ⟨channel, contents, stands, held, made⟩
  have user := sems_beside beside small small' different
    (Or.inl stands.named.user)
  have mutex := sems_beside beside small small' different
    (Or.inr stands.named.mutex)
  have segment := shms_beside beside small small' different
    stands.named.segment
  refine ⟨channel, contents, ?_, held, Int.le_trans made beside.now⟩
  constructor
  · exact
      { user := stands.named.user
        mutex := stands.named.mutex
        segment := stands.named.segment
        userLast := user.2.trans stands.named.userLast
        mutexLast := mutex.2.trans stands.named.mutexLast
        segmentLast := segment.2.trans stands.named.segmentLast }
  · exact user.1.trans stands.user
  · exact stands.mutex.of_same mutex.1
  · exact stands.present
  · exact segment.1.trans stands.segment
  · exact stands.kept
  · exact .refl channel after

end Other

/-- A step of the registry on one key. -/
theorem Reflects.serve (reflects : Reflects paths registry store)
    (small : key.toNat < 128) {now : Time} {action : Action}
    (beside : Beside paths key store after)
    (shows : Shows paths key after ((registry.serve now key action).2 key)) :
    Reflects paths (registry.serve now key action).2 after := by
  intro other small'
  by_cases same : other = key
  · rw [same]
    exact shows
  · rw [Registry.serve_other same]
    have before := reflects other small'
    cases listed : registry other with
    | none =>
        rw [listed] at before
        exact vacant_beside beside small small' same before
    | some listing =>
        rw [listed] at before
        exact registered_beside beside small small' same before

/-! ## Time, and the ends of processes -/

theorem Registered.of_stands {channel : Channel} {contents : Contents}
    {base : Store} (stands : Stands paths key channel contents base store)
    (held : listing.Held contents)
    (made : contents.user.sem_ctime ≤ store.now) :
    Registered paths key listing store :=
  ⟨channel, contents, stands.rebase, held, made⟩

theorem Reflects.advance (reflects : Reflects paths registry store)
    (seconds : Nat) : Reflects paths registry (store.advance seconds) := by
  intro key small
  have before := reflects key small
  cases listed : registry key with
  | none =>
      rw [listed] at before
      exact ⟨before.user, before.mutex, before.segment⟩
  | some listing =>
      rw [listed] at before
      rcases before with ⟨channel, contents, stands, held, made⟩
      exact .of_stands (stands.advance seconds) held
        (Int.le_trans made (Store.now_le_advance seconds))

/-- What has happened since the commands of a lock looked at the clock. -/
theorem beside_of_stands {channel : Channel} {contents : Contents}
    {middle : Store} (apart : Apart channel store middle)
    (stands : Stands paths key channel contents middle after) :
    Beside paths key store after :=
  (Beside.of_apart apart stands.named).trans
    (.of_apart stands.apart stands.named)

/-- The end of a process changes no lock: nothing is to be undone. -/
theorem Registered.leave (registered : Registered paths key listing store)
    (process : Pid) : Registered paths key listing (store.leave process) := by
  rcases registered with ⟨channel, contents, stands, held, made⟩
  have legal : listing.size - listing.held ≤ SEMVMX :=
    Nat.le_trans (Nat.sub_le _ _) held.legal
  refine ⟨channel,
    { user :=
        { contents.user with
          semvals := contents.user.semvals.mapIdx fun index semval =>
            Store.adjusted semval (contents.user.semadj process index)
          semadj := Function.update contents.user.semadj process fun _ => 0 }
      mutex := .free
      segment :=
        { contents.segment with
          attached := contents.segment.attached.filter (· ≠ process) } },
    ?_, ?_, made⟩
  · constructor
    · exact
        { user := stands.named.user
          mutex := stands.named.mutex
          segment := stands.named.segment
          userLast := stands.named.userLast
          mutexLast := stands.named.mutexLast
          segmentLast := stands.named.segmentLast }
    · simp [Store.leave, stands.user]
    · have represents : Represents channel.mutex
          (contents.mutex.leave process) (store.leave process) :=
        stands.mutex.leave
      rw [held.mutex] at represents
      exact represents
    · exact MutexState.noConfusion
    · simp [Store.leave, stands.segment, Store.keepMapped, stands.kept]
    · exact stands.kept
    · exact .refl _ _
  · constructor
    · rfl
    · exact held.words
    · simp [held.values, held.steady, Store.adjusted, legal]
    · intro other index
      by_cases same : other = process
      · simp [same]
      · simp [Function.update_of_ne same, held.steady]
    · exact held.legal
    · exact held.size
    · exact held.lasts
    · exact held.expires

theorem Reflects.leave (reflects : Reflects paths registry store)
    (process : Pid) : Reflects paths registry (store.leave process) := by
  intro key small
  have before := reflects key small
  cases listed : registry key with
  | none =>
      rw [listed] at before
      exact vacant_leave before process
  | some listing =>
      rw [listed] at before
      exact Registered.leave before process

theorem reflects_empty (now : Time) :
    Reflects paths (fun _ => none) (.empty now) :=
  fun _ _ => ⟨rfl, rfl, rfl⟩

theorem toNat_ofInt_small {value : Int} (positive : 0 ≤ value)
    (short : value < 2 ^ 31) :
    ((BitVec.ofInt 32 value).toNat : Int) = value := by
  rw [BitVec.toNat_ofInt]
  omega

/-- The listing of a lock that was just made. -/
theorem held_created {process : Pid} {semaphores : UInt} {expire ctime : Time}
    (legal : Legal (.create semaphores expire)) :
    (Listing.fresh semaphores.toNat
      (if expire = 0 then none else some (ctime + expire))).Held
        (.created process ctime semaphores expire) := by
  rcases legal with ⟨few, positive, short⟩
  have narrow : (semaphores.setWidth 16).toNat = semaphores.toNat := by
    rw [BitVec.toNat_setWidth]
    omega
  have value := toNat_ofInt_small positive short
  have word : (Contents.created process ctime semaphores expire).segment.word
      2 = BitVec.ofInt 32 expire := by
    simp [Contents.created, Segment.word_setWord]
  constructor
  · rfl
  · rfl
  · simp [Contents.created, SemSet.fresh, Listing.fresh, narrow]
  · exact fun _ _ => rfl
  · exact few
  · simp [Contents.created, Segment.word_setWord, Listing.fresh]
  · intro lasts
    have never : expire = 0 := by
      by_contra expires
      simp [Listing.fresh, expires] at lasts
    simp [Contents.created, Segment.word_setWord, never]
  · intro deadline isDeadline
    have expires : expire ≠ 0 := by
      rintro rfl
      simp [Listing.fresh] at isDeadline
    simp only [Listing.fresh, expires, if_false, Option.some.injEq]
      at isDeadline
    refine ⟨?_, ?_, ?_⟩
    · simp [Contents.created, Segment.word_setWord, expires]
    · rw [word, value, ← isDeadline]
      rfl
    · rw [word]
      have bound : ((BitVec.ofInt 32 expire).toNat : Int) < 2 ^ 31 := by
        rw [value]
        exact short
      exact_mod_cast bound

end Atomicles.Refinement
