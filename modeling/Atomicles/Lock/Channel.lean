import Atomicles.Kernel.Memory
import Atomicles.Kernel.Mutex
import Atomicles.Source.Equations

/-!
# The kernel objects of a lock

A lock consists of the user's semaphore set, a shared segment with four words,
and the mutex of that segment.  `Stands` describes a store in which all three
exist under the names of one key, and what else of an earlier store is still
as it was.  The rules say what the functions of the sources do to a standing
lock when one process runs alone.
-/

namespace Atomicles

open Interaction

/-- The identifiers of the objects of one lock. -/
structure Channel where
  user : IpcId
  mutex : IpcId
  segment : IpcId

/-- What the objects of one lock contain. -/
structure Contents where
  user : SemSet
  mutex : MutexState
  segment : Segment

/-- The contents with one more mapping of the segment. -/
def Contents.attach (process : Pid) (contents : Contents) : Contents :=
  { contents with
    segment :=
      { contents.segment with
        attached := process :: contents.segment.attached } }

/-- The contents with a word of the segment changed. -/
def Contents.setWord (offset : Nat) (value : UInt) (contents : Contents) :
    Contents :=
  { contents with segment := contents.segment.setWord offset value }

/-- The objects are the ones found under the names of a key. -/
structure Channel.Named (paths : KeyPaths) (key : Key) (channel : Channel)
    (store : Store) : Prop where
  user : channel.user.key = paths.semKey key
  mutex : channel.mutex.key = paths.semKey (key + 128)
  segment : channel.segment.key = paths.shmKey key
  userLast : store.semGen channel.user.key = channel.user.generation
  mutexLast : store.semGen channel.mutex.key = channel.mutex.generation
  segmentLast : store.shmGen channel.segment.key = channel.segment.generation

/-- Nothing but the objects of the lock and the clock has changed. -/
structure Apart (channel : Channel) (before after : Store) : Prop where
  sems : ∀ id, id ≠ channel.user → id ≠ channel.mutex →
    after.sems id = before.sems id
  shms : ∀ id, id ≠ channel.segment → after.shms id = before.shms id
  semGen : after.semGen = before.semGen
  shmGen : after.shmGen = before.shmGen
  now : before.now ≤ after.now

theorem Apart.refl (channel : Channel) (store : Store) :
    Apart channel store store :=
  ⟨fun _ _ _ => rfl, fun _ _ => rfl, rfl, rfl, Int.le_refl _⟩

theorem Apart.trans {channel : Channel} {first second third : Store}
    (before : Apart channel first second)
    (after : Apart channel second third) : Apart channel first third where
  sems := fun id notUser notMutex =>
    (after.sems id notUser notMutex).trans (before.sems id notUser notMutex)
  shms := fun id notSegment =>
    (after.shms id notSegment).trans (before.shms id notSegment)
  semGen := after.semGen.trans before.semGen
  shmGen := after.shmGen.trans before.shmGen
  now := Int.le_trans before.now after.now

theorem Apart.advance (channel : Channel) (store : Store) (tick : Nat) :
    Apart channel store (store.advance tick) where
  sems := fun _ _ _ => rfl
  shms := fun _ _ => rfl
  semGen := rfl
  shmGen := rfl
  now := Int.le.intro tick rfl

/-- The lock exists with these contents, and apart from it the store is still
`base`. -/
structure Stands (paths : KeyPaths) (key : Key) (channel : Channel)
    (contents : Contents) (base store : Store) : Prop where
  named : channel.Named paths key store
  user : store.sems channel.user = some contents.user
  mutex : Represents channel.mutex contents.mutex store
  present : contents.mutex ≠ .absent
  segment : store.shms channel.segment = some contents.segment
  kept : contents.segment.dest = false
  apart : Apart channel base store

/-- The names of a lock are different. -/
theorem KeyPaths.semKey_mutex_ne (paths : KeyPaths) (key : Key) :
    paths.semKey (key + 128) ≠ paths.semKey key := by
  intro same
  have high := congrArg (·.extractLsb' 24 8) same
  simp only [KeyPaths.semKey, ftok_high] at high
  have low := congrArg BitVec.toNat high
  simp only [BitVec.toNat_setWidth, BitVec.toNat_add] at low
  have constant : (128 : Key).toNat = 128 := rfl
  rw [constant] at low
  omega

namespace Stands

variable {paths : KeyPaths} {key : Key} {channel : Channel}
variable {contents contents' : Contents} {base store after : Store}

/-- The two sets of a lock are different. -/
theorem user_ne_mutex (stands : Stands paths key channel contents base store) :
    channel.user ≠ channel.mutex := by
  intro same
  have sameKey := congrArg IpcId.key same
  rw [stands.named.user, stands.named.mutex] at sameKey
  exact paths.semKey_mutex_ne key sameKey.symm

/-- The lock stands after a step that changes nothing but its contents. -/
theorem change (stands : Stands paths key channel contents base store)
    (apart : Apart channel store after)
    (user : after.sems channel.user = some contents'.user)
    (mutex : Represents channel.mutex contents'.mutex after)
    (present : contents'.mutex ≠ .absent)
    (segment : after.shms channel.segment = some contents'.segment)
    (kept : contents'.segment.dest = false) :
    Stands paths key channel contents' base after where
  named :=
    { user := stands.named.user
      mutex := stands.named.mutex
      segment := stands.named.segment
      userLast := by
        rw [apart.semGen]
        exact stands.named.userLast
      mutexLast := by
        rw [apart.semGen]
        exact stands.named.mutexLast
      segmentLast := by
        rw [apart.shmGen]
        exact stands.named.segmentLast }
  user := user
  mutex := mutex
  present := present
  segment := segment
  kept := kept
  apart := stands.apart.trans apart

/-- Time passes. -/
theorem advance (stands : Stands paths key channel contents base store)
    (tick : Nat) :
    Stands paths key channel contents base (store.advance tick) :=
  stands.change (.advance channel store tick) stands.user
    (stands.mutex.of_same rfl) stands.present stands.segment stands.kept

/-- Another mutex state and the same user's set and segment. -/
theorem changeMutex (stands : Stands paths key channel contents base store)
    {mutex : MutexState} (represents : Represents channel.mutex mutex after)
    (present : mutex ≠ .absent) (semGen : after.semGen = store.semGen)
    (others : ∀ other, other ≠ channel.mutex →
      after.sems other = store.sems other)
    (shms : SameShms store after) (now : store.now ≤ after.now) :
    Stands paths key channel { contents with mutex } base after := by
  apply stands.change
  · exact
      { sems := fun id _ notMutex => others id notMutex
        shms := fun id _ => congrFun shms.1 id
        semGen := semGen
        shmGen := shms.2
        now := now }
  · rw [others _ stands.user_ne_mutex]
    exact stands.user
  · exact represents
  · exact present
  · rw [shms.1]
    exact stands.segment
  · exact stands.kept

/-- Another segment and the same sets. -/
theorem changeSegment (stands : Stands paths key channel contents base store)
    {segment : Segment} (kept : segment.dest = false) :
    Stands paths key channel { contents with segment } base
      (store.setShm channel.segment (some segment)) := by
  apply stands.change
  · exact
      { sems := fun _ _ _ => rfl
        shms := fun id notSegment => by
          simp [Function.update_of_ne notSegment]
        semGen := rfl
        shmGen := rfl
        now := Int.le_refl _ }
  · exact stands.user
  · exact stands.mutex.of_same rfl
  · exact stands.present
  · simp
  · exact kept

/-- Another user's set. -/
theorem changeUser (stands : Stands paths key channel contents base store)
    (user : SemSet) :
    Stands paths key channel { contents with user } base
      (store.setSem channel.user (some user)) := by
  apply stands.change
  · exact
      { sems := fun id notUser _ => by simp [Function.update_of_ne notUser]
        shms := fun _ _ => rfl
        semGen := rfl
        shmGen := rfl
        now := Int.le_refl _ }
  · simp
  · apply stands.mutex.of_same
    simp [Function.update_of_ne stands.user_ne_mutex.symm]
  · exact stands.present
  · exact stands.segment
  · exact stands.kept

/-! ## Looking the objects up -/

theorem findSem_user (stands : Stands paths key channel contents base store) :
    store.findSem (paths.semKey key) = some channel.user := by
  rw [← stands.named.user]
  simp [Store.findSem, stands.named.userLast, stands.user]

theorem findSem_mutex (stands : Stands paths key channel contents base store) :
    store.findSem (paths.semKey (key + 128)) = some channel.mutex := by
  rcases stands.mutex.present stands.present with ⟨set, found, _, _⟩
  rw [← stands.named.mutex]
  simp [Store.findSem, stands.named.mutexLast, found]

theorem findShm_segment
    (stands : Stands paths key channel contents base store) :
    store.findShm (paths.shmKey key) = some channel.segment := by
  rw [← stands.named.segment]
  simp [Store.findShm, stands.named.segmentLast, stands.segment, stands.kept]

theorem semget_user (stands : Stands paths key channel contents base store)
    (excl : Bool) :
    store.semget (paths.semKey key) NOP false excl =
      (.ok channel.user, store) := by
  unfold Store.semget
  rw [stands.findSem_user]
  simp [NOP]

theorem semget_mutex (stands : Stands paths key channel contents base store)
    (excl : Bool) :
    store.semget (paths.semKey (key + 128)) NOP false excl =
      (.ok channel.mutex, store) := by
  unfold Store.semget
  rw [stands.findSem_mutex]
  simp [NOP]

theorem shmget_segment
    (stands : Stands paths key channel contents base store) (excl : Bool) :
    store.shmget (paths.shmKey key) NOP false excl =
      (.ok channel.segment, store) := by
  unfold Store.shmget
  rw [stands.findShm_segment]
  simp [NOP]

/-! ## Rules for a process that runs alone -/

section Rules

variable {Value : Type} {process : Pid} {exempt : Call → Prop}
variable {post : Value → Store → Prop}

/-- One call of a process that runs alone, as a step from contents to
contents; `good` is what is known of its answer. -/
theorem step (stands : Stands paths key channel contents base store)
    {call : Call} {next : call.Answer → Prog Value}
    (good : call.Answer → Store → Prop)
    (granted : ∀ choice store, Grants choice →
      Stands paths key channel contents base store →
        ∃ answer after, grant process choice store call =
            some (answer, after) ∧
          good answer after ∧ Stands paths key channel contents' base after)
    (rest : ∀ answer after, good answer after →
      Stands paths key channel contents' base after →
        Program.Delivers granting process exempt (next answer) after post) :
    Program.Delivers granting process exempt (.issue call next) store post := by
  apply delivers_granted
  intro choice grants
  rcases granted choice _ grants (stands.advance choice.tick) with
    ⟨answer, after, served, isGood, later⟩
  exact ⟨answer, after, served, rest answer after isGood later⟩

/-- `Semaphore_exists` of the user's set. -/
theorem exists_user (stands : Stands paths key channel contents base store)
    {continuation : Bool → Prog Value}
    (rest : ∀ after, Stands paths key channel contents base after →
      Program.Delivers granting process exempt (continuation true) after
        post) :
    Program.Delivers granting process exempt
      (Semaphore.exists paths key >>= continuation) store post := by
  rw [Semaphore.exists_bind]
  apply stands.step fun (found : Except Errno IpcId) _ =>
    found = .ok channel.user
  · intro choice store _ stands
    exact ⟨.ok channel.user, store, by simp only [grant, stands.semget_user],
      rfl, stands⟩
  · rintro _ after rfl stands
    exact rest after stands

/-- `Semaphore$attach` of a set that is found. -/
theorem attach_found (stands : Stands paths key channel contents base store)
    {name : Key} {id : IpcId}
    (found : ∀ store, Stands paths key channel contents base store →
      store.semget (paths.semKey name) NOP false true = (.ok id, store))
    {continuation : Option Semaphore → Prog Value}
    (rest : ∀ shsem after, shsem.key = name → shsem.id = id →
      shsem.size = 1 → Stands paths key channel contents base after →
        Program.Delivers granting process exempt (continuation (some shsem))
          after post) :
    Program.Delivers granting process exempt
      (Semaphore.attach paths name >>= continuation) store post := by
  rw [Semaphore.attach_bind]
  apply stands.step fun (found : Except Errno IpcId) _ => found = .ok id
  · intro choice store _ stands
    exact ⟨.ok id, store, by simp only [grant, found store stands], rfl, stands⟩
  · rintro _ after rfl stands
    apply stands.step fun (block : Option Unit) _ => block = some ()
    · intro choice store grants stands
      exact ⟨some (), store, by simp only [grant, grants.2, if_true], rfl,
        stands⟩
    · rintro _ after rfl stands
      apply stands.step fun (_ : SemidDs) _ => True
      · intro choice store _ stands
        exact ⟨_, store, rfl, trivial, stands⟩
      · intro ds after _ stands
        exact rest _ after rfl rfl rfl stands

/-- `SharedMemory$attach`; the size of the handle is what `malloc` left. -/
theorem attach_segment (stands : Stands paths key channel contents base store)
    {continuation : Option SharedMemory → Prog Value}
    (rest : ∀ shmem after,
      shmem.Serves channel.mutex (.mapped channel.segment) →
        shmem.id = channel.segment →
        Stands paths key channel (contents.attach process) base after →
          Program.Delivers granting process exempt (continuation (some shmem))
            after post) :
    Program.Delivers granting process exempt
      (SharedMemory.attach paths key >>= continuation) store post := by
  rw [SharedMemory.attach_bind]
  apply stands.step fun (found : Except Errno IpcId) _ =>
    found = .ok channel.segment
  · intro choice store _ stands
    exact ⟨.ok channel.segment, store,
      by simp only [grant, stands.shmget_segment], rfl, stands⟩
  · rintro _ after rfl stands
    apply stands.step fun (block : Option SharedMemory) _ =>
      ∃ shmem, block = some shmem
    · intro choice store grants stands
      exact ⟨some { choice.block with
          size := { choice.block.size with assigned := false } }, store,
        by simp only [grant, grants.2, if_true], ⟨_, rfl⟩, stands⟩
    · rintro _ after ⟨block, rfl⟩ stands
      dsimp only
      rw [SharedMemory.shmat_bind]
      apply stands.step fun (mapped : Except Errno Addr) _ =>
        mapped = .ok (.mapped channel.segment)
      · intro choice store _ stands
        have mapped : Stands paths key channel (contents.attach process) base
            (store.setShm channel.segment
              (some (contents.attach process).segment)) :=
          stands.changeSegment stands.kept
        exact ⟨.ok (.mapped channel.segment), _,
          by simp only [grant, Store.shmat, stands.segment]; rfl, rfl, mapped⟩
      · rintro _ after rfl stands
        simp only [ne_eq, reduceCtorEq, not_false_eq_true, if_true]
        apply stands.attach_found fun store stands => stands.semget_mutex true
        intro shsem after _ isMutex size stands
        exact rest _ after ⟨rfl, shsem, rfl, isMutex, size⟩ rfl stands

/-- `SharedMemory`'s lock of its mutex. -/
theorem enter (stands : Stands paths key channel contents base store)
    {this : SharedMemory} {addr : Addr} (serves : this.Serves channel.mutex addr)
    (free : contents.mutex = .free) {continuation : Unit → Prog Value}
    (rest : ∀ after, Stands paths key channel
      { contents with mutex := .held process } base after →
        Program.Delivers granting process exempt (continuation ()) after
          post) :
    Program.Delivers granting process exempt
      (SharedMemory.enter this >>= continuation) store post := by
  rcases serves with ⟨_, shsem, owned, isMutex, _⟩
  rw [SharedMemory.enter_bind owned, isMutex]
  apply stands.step fun (outcome : Except Errno Unit) _ => outcome = .ok ()
  · intro choice store _ stands
    have represents := stands.mutex
    rw [free] at represents
    rcases represents.takes process choice.underWay with
      ⟨after, served⟩
    rcases represents.take (by simp) served with
      ⟨_, _, taken, semGen, others⟩
    refine ⟨.ok (), after, served, rfl, ?_⟩
    exact stands.changeMutex taken (by simp) semGen others
      (Store.semop_shms served) (Store.semop_now served)
  · rintro _ after rfl stands
    exact rest after stands

/-- `SharedMemory`'s release of its mutex by the holder. -/
theorem exit (stands : Stands paths key channel contents base store)
    {this : SharedMemory} {addr : Addr} (serves : this.Serves channel.mutex addr)
    (held : contents.mutex = .held process) {continuation : Unit → Prog Value}
    (rest : ∀ after, Stands paths key channel
      { contents with mutex := .free } base after →
        Program.Delivers granting process exempt (continuation ()) after
          post) :
    Program.Delivers granting process exempt
      (SharedMemory.exit this >>= continuation) store post := by
  rcases serves with ⟨_, shsem, owned, isMutex, size⟩
  rw [SharedMemory.exit_bind owned, isMutex]
  apply stands.step fun (value : Except Errno Nat) _ => value = .ok 0
  · intro choice store _ stands
    have empty := stands.mutex.getval stands.present
    rw [held] at empty
    exact ⟨.ok 0, store, by simp only [grant, empty, MutexState.units], rfl,
      stands⟩
  · rintro _ after rfl stands
    have used : ((shsem.size.toNat : Int) -
        Semaphore.readValue (.ok 0) > 0) := by
      simp [size, Semaphore.readValue]
    rw [if_pos used]
    apply stands.step fun (outcome : Except Errno Unit) _ => outcome = .ok ()
    · intro choice store _ stands
      have represents := stands.mutex
      rw [held] at represents
      rcases represents.gives choice.underWay with ⟨after, served⟩
      rcases represents.give served with ⟨_, given, semGen, others⟩
      refine ⟨.ok (), after, served, rfl, ?_⟩
      exact stands.changeMutex given (by simp) semGen others
        (Store.semop_shms served) (Store.semop_now served)
    · rintro _ after rfl stands
      exact rest after stands

/-- The process can access the first `length` bytes of the segment. -/
def Reachable (process : Pid) (length : Nat) (contents : Contents) : Prop :=
  process ∈ contents.segment.attached ∧ length ≤ contents.segment.mappedSize

/-- The page of a segment of four words. -/
theorem Reachable.of_words {length : Nat}
    (attached : process ∈ contents.segment.attached)
    (size : contents.segment.size = 16) (small : length ≤ PAGE_SIZE) :
    Reachable process length contents := by
  have whole : contents.segment.mappedSize = PAGE_SIZE := by
    simp [Segment.mappedSize, size, PAGE_SIZE]
  rw [← whole] at small
  exact ⟨attached, small⟩

theorem access (stands : Stands paths key channel contents base store)
    {offset length : Nat} (reachable : Reachable process (offset + length)
      contents) :
    store.access process (.mapped channel.segment) offset length =
      some (channel.segment, contents.segment) := by
  rw [Store.access_eq_some_iff, Store.mapping_eq_some_iff]
  exact ⟨⟨rfl, stands.segment, reachable.1⟩, reachable.2⟩

/-- `SharedMemory$read_uint` gives the word at its offset. -/
theorem readWord (stands : Stands paths key channel contents base store)
    {this : SharedMemory} {offset : UShort}
    (serves : this.Serves channel.mutex (.mapped channel.segment))
    (free : contents.mutex = .free)
    (reachable : Reachable process (4 * offset.toNat + 4) contents)
    {continuation : UInt → Prog Value}
    (rest : ∀ after, Stands paths key channel contents base after →
      Program.Delivers granting process exempt
        (continuation (contents.segment.word offset.toNat)) after post) :
    Program.Delivers granting process exempt
      (SharedMemory.readWord this offset >>= continuation) store post := by
  simp only [SharedMemory.readWord, bind_assoc]
  apply stands.enter serves free
  intro after stands
  apply stands.exit serves rfl
  intro after stands
  have restored : ({ contents with mutex := .free } : Contents) = contents := by
    rw [← free]
  simp only [restored] at stands
  rw [SharedMemory.load_bind, serves.1]
  apply stands.step fun (word : Option UInt) _ =>
    word = some (contents.segment.word offset.toNat)
  · intro choice store _ stands
    exact ⟨_, store,
      by simp only [grant, Store.load, stands.access reachable,
        Option.map_some], rfl, stands⟩
  · rintro _ after rfl stands
    exact rest after stands

/-- `SharedMemory$write_uint` changes the word at its offset. -/
theorem writeWord (stands : Stands paths key channel contents base store)
    {this : SharedMemory} {offset : UShort} {n : UInt}
    (serves : this.Serves channel.mutex (.mapped channel.segment))
    (free : contents.mutex = .free)
    (reachable : Reachable process (4 * offset.toNat + 4) contents)
    {continuation : Unit → Prog Value}
    (rest : ∀ after, Stands paths key channel
      (contents.setWord offset.toNat n) base after →
        Program.Delivers granting process exempt (continuation ()) after
          post) :
    Program.Delivers granting process exempt
      (SharedMemory.writeWord this offset n >>= continuation) store post := by
  simp only [SharedMemory.writeWord, bind_assoc]
  apply stands.enter serves free
  intro after stands
  rw [SharedMemory.store_bind, serves.1]
  apply stands.step fun (done : Option Unit) _ => done = some ()
  · intro choice store _ stands
    have written : Stands paths key channel
        (Contents.setWord offset.toNat n
          { contents with mutex := .held process }) base
        (store.setShm channel.segment
          (some (contents.segment.setWord offset.toNat n))) :=
      stands.changeSegment stands.kept
    exact ⟨some (), _,
      by simp only [grant, Store.storeWord, stands.access reachable], rfl,
      written⟩
  · rintro _ after rfl stands
    apply stands.exit serves rfl
    intro after stands
    have restored : ({ Contents.setWord offset.toNat n
          { contents with mutex := .held process } with mutex := .free } :
            Contents) = contents.setWord offset.toNat n := by
      simp only [Contents.setWord, ← free]
    rw [restored] at stands
    exact rest after stands

end Rules

end Stands

end Atomicles
