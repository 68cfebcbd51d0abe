import Atomicles.Lock.Channel

/-!
# Making a lock

`create` on a key without objects, as one process runs it alone: the objects
are made one after the other, and the lock stands with its four words.
-/

namespace Atomicles

open Interaction

/-- No object is found under the names of the key. -/
structure Vacant (paths : KeyPaths) (key : Key) (store : Store) : Prop where
  user : store.findSem (paths.semKey key) = none
  mutex : store.findSem (paths.semKey (key + 128)) = none
  segment : store.findShm (paths.shmKey key) = none

/-- Nothing under the names of other keys has changed. -/
structure Beside (paths : KeyPaths) (key : Key) (before after : Store) :
    Prop where
  sems : ∀ id, id.key ≠ paths.semKey key → id.key ≠ paths.semKey (key + 128) →
    after.sems id = before.sems id
  semGen : ∀ name, name ≠ paths.semKey key →
    name ≠ paths.semKey (key + 128) → after.semGen name = before.semGen name
  shms : ∀ id, id.key ≠ paths.shmKey key → after.shms id = before.shms id
  shmGen : ∀ name, name ≠ paths.shmKey key →
    after.shmGen name = before.shmGen name
  now : before.now ≤ after.now

namespace Beside

variable {paths : KeyPaths} {key : Key} {channel : Channel}
variable {first second third store after : Store}

theorem refl (store : Store) : Beside paths key store store :=
  ⟨fun _ _ _ => rfl, fun _ _ _ => rfl, fun _ _ => rfl, fun _ _ => rfl,
    Int.le_refl _⟩

theorem trans (before : Beside paths key first second)
    (after : Beside paths key second third) : Beside paths key first third where
  sems := fun id notUser notMutex =>
    (after.sems id notUser notMutex).trans (before.sems id notUser notMutex)
  semGen := fun name notUser notMutex =>
    (after.semGen name notUser notMutex).trans
      (before.semGen name notUser notMutex)
  shms := fun id notSegment =>
    (after.shms id notSegment).trans (before.shms id notSegment)
  shmGen := fun name notSegment =>
    (after.shmGen name notSegment).trans (before.shmGen name notSegment)
  now := Int.le_trans before.now after.now

/-- What is apart from the objects of a key is beside its names. -/
theorem of_apart (apart : Apart channel store after)
    (named : channel.Named paths key third) :
    Beside paths key store after where
  sems := by
    intro id notUser notMutex
    apply apart.sems
    · rintro rfl
      exact notUser named.user
    · rintro rfl
      exact notMutex named.mutex
  semGen := fun name _ _ => congrFun apart.semGen name
  shms := by
    intro id notSegment
    apply apart.shms
    rintro rfl
    exact notSegment named.segment
  shmGen := fun name _ => congrFun apart.shmGen name
  now := apart.now

theorem advance (seconds : Nat) :
    Beside paths key store (store.advance seconds) where
  sems := fun _ _ _ => rfl
  semGen := fun _ _ _ => rfl
  shms := fun _ _ => rfl
  shmGen := fun _ _ => rfl
  now := Store.now_le_advance seconds

theorem setShm {segment : Option Segment} {id : IpcId}
    (own : id.key = paths.shmKey key) :
    Beside paths key store (store.setShm id segment) where
  sems := fun _ _ _ => rfl
  semGen := fun _ _ _ => rfl
  shms := by
    intro other notSegment
    have different : other ≠ id := by
      rintro rfl
      exact notSegment own
    exact Function.update_of_ne different _ _
  shmGen := fun _ _ => rfl
  now := Int.le_refl _

theorem setSem {set : Option SemSet} {id : IpcId}
    (own : id.key = paths.semKey key ∨ id.key = paths.semKey (key + 128)) :
    Beside paths key store (store.setSem id set) where
  sems := by
    intro other notUser notMutex
    have different : other ≠ id := by
      rintro rfl
      rcases own with isUser | isMutex
      · exact notUser isUser
      · exact notMutex isMutex
    exact Function.update_of_ne different _ _
  semGen := fun _ _ _ => rfl
  shms := fun _ _ => rfl
  shmGen := fun _ _ => rfl
  now := Int.le_refl _

end Beside

namespace Store

/-- The store with one more set, and a later time. -/
def makeSem (store : Store) (name : Key) (set : SemSet) (now : Time) : Store :=
  { store with
    sems := Function.update store.sems (store.nextSem name) (some set)
    semGen := Function.update store.semGen name (store.semGen name + 1)
    now }

/-- The store with one more segment, and a later time. -/
def makeShm (store : Store) (name : Key) (segment : Segment) (now : Time) :
    Store :=
  { store with
    shms := Function.update store.shms (store.nextShm name) (some segment)
    shmGen := Function.update store.shmGen name (store.shmGen name + 1)
    now }

end Store

/-- The set that `Semaphore$new` makes. -/
def SemSet.fresh (size : Nat) (ctime : Time) : SemSet :=
  { semvals := [size], semadj := fun _ _ => 0, sem_ctime := ctime }

/-- The segment that `SharedMemory$new` makes and attaches to. -/
def Segment.fresh (size : Nat) (process : Pid) : Segment :=
  { size, bytes := fun _ => 0, attached := [process], dest := false }

namespace Store

variable {store : Store} {name other : Key} {set : SemSet} {now : Time}
variable {segment : Segment}

theorem semget_make (vacant : store.findSem name = none) :
    store.semget name 1 true true =
      (.ok (store.nextSem name),
        store.makeSem name (.fresh 0 store.now) store.now) := by
  have legal : ¬ (1 = 0 ∨ SEMMSL < 1) := by decide
  simp only [semget, vacant, Bool.not_true, Bool.false_eq_true, if_false,
    legal]
  rfl

theorem makeSem_setall {size : UShort} (legal : size.toNat ≤ SEMVMX) :
    (store.makeSem name set now).semctlSetall (store.nextSem name) [size] =
      (.ok (), store.makeSem name (.fresh size.toNat now) now) := by
  have found : (store.makeSem name set now).sems (store.nextSem name) =
      some set := Function.update_self ..
  have inRange : ([size] : List UShort).any
      (fun value => decide (SEMVMX < value.toNat)) = false := by
    simpa using legal
  simp only [semctlSetall, found, inRange, Bool.false_eq_true, if_false]
  simp [makeSem, setSem, SemSet.fresh]

theorem makeSem_oversized {size : UShort} (illegal : SEMVMX < size.toNat) :
    (store.makeSem name set now).semctlSetall (store.nextSem name) [size] =
      (.error .ERANGE, store.makeSem name set now) := by
  have found : (store.makeSem name set now).sems (store.nextSem name) =
      some set := Function.update_self ..
  have outOfRange : ([size] : List UShort).any
      (fun value => decide (SEMVMX < value.toNat)) = true := by
    simpa using illegal
  simp only [semctlSetall, found, outOfRange, if_true]

theorem shmget_make (vacant : store.findShm name = none) {size : Nat}
    (positive : size ≠ 0) (small : size ≤ SHMMAX) :
    store.shmget name size true true =
      (.ok (store.nextShm name),
        store.makeShm name
          { size, bytes := fun _ => 0, attached := [], dest := false }
          store.now) := by
  have legal : ¬ (size = 0 ∨ SHMMAX < size) := by omega
  simp only [shmget, vacant, Bool.not_true, Bool.false_eq_true, if_false,
    legal]
  rfl

theorem makeShm_shmat {process : Pid} {size : Nat} :
    (store.makeShm name
        { size, bytes := fun _ => 0, attached := [], dest := false }
        now).shmat process (store.nextShm name) =
      (.ok (.mapped (store.nextShm name)),
        store.makeShm name (.fresh size process) now) := by
  have found : (store.makeShm name
      { size, bytes := fun _ => 0, attached := [], dest := false } now).shms
        (store.nextShm name) =
          some { size, bytes := fun _ => 0, attached := [], dest := false } :=
    Function.update_self ..
  simp only [shmat, found]
  simp [makeShm, setShm, Segment.fresh]

/-- A set under one name is not found under another. -/
theorem makeSem_findSem (different : other ≠ name) :
    (store.makeSem name set now).findSem other = store.findSem other := by
  have notMade : (⟨other, store.semGen other⟩ : IpcId) ≠ store.nextSem name :=
    fun same => different (congrArg IpcId.key same)
  simp [findSem, makeSem, Function.update_of_ne different, notMade]

end Store

/-- The objects of a lock are made one after the other. -/
def Store.made (store : Store) (userName mutexName segmentName : Key)
    (user : SemSet) (segment : Segment) (mutex : SemSet) (now : Time) : Store :=
  ((store.makeSem userName user now).makeShm segmentName segment now).makeSem
    mutexName mutex now

namespace Store

variable {store : Store} {userName mutexName segmentName name : Key}
variable {user mutex : SemSet} {segment : Segment} {now : Time} {id : IpcId}

theorem makeSem_nextSem (different : mutexName ≠ userName) :
    (store.makeSem userName user now).nextSem mutexName =
      store.nextSem mutexName := by
  simp [nextSem, makeSem, Function.update_of_ne different]

section Made

variable (different : mutexName ≠ userName)
include different

theorem made_user :
    (store.made userName mutexName segmentName user segment mutex now).sems
      (store.nextSem userName) = some user := by
  simp [made, makeSem, makeShm, nextSem, different.symm]

theorem made_mutex :
    (store.made userName mutexName segmentName user segment mutex now).sems
      (store.nextSem mutexName) = some mutex := by
  simp [made, makeSem, makeShm, nextSem, Function.update_of_ne different]

theorem made_userLast :
    (store.made userName mutexName segmentName user segment mutex now).semGen
      userName = store.semGen userName + 1 := by
  simp [made, makeSem, makeShm, Function.update_of_ne different.symm]

theorem made_mutexLast :
    (store.made userName mutexName segmentName user segment mutex now).semGen
      mutexName = store.semGen mutexName + 1 := by
  simp [made, makeSem, makeShm, Function.update_of_ne different]

end Made

theorem made_segment :
    (store.made userName mutexName segmentName user segment mutex now).shms
      (store.nextShm segmentName) = some segment := by
  simp [made, makeSem, makeShm, nextShm]

theorem made_segmentLast :
    (store.made userName mutexName segmentName user segment mutex now).shmGen
      segmentName = store.shmGen segmentName + 1 := by
  simp [made, makeSem, makeShm]

theorem made_sems (notUser : id.key ≠ userName) (notMutex : id.key ≠ mutexName) :
    (store.made userName mutexName segmentName user segment mutex now).sems
      id = store.sems id := by
  have other : ∀ name generation, id.key ≠ name → id ≠ ⟨name, generation⟩ := by
    rintro name generation different rfl
    exact different rfl
  simp [made, makeSem, makeShm, nextSem, other _ _ notUser, other _ _ notMutex]

theorem made_semGen (notUser : name ≠ userName) (notMutex : name ≠ mutexName) :
    (store.made userName mutexName segmentName user segment mutex now).semGen
      name = store.semGen name := by
  simp [made, makeSem, makeShm, Function.update_of_ne notUser,
    Function.update_of_ne notMutex]

theorem made_shms (notSegment : id.key ≠ segmentName) :
    (store.made userName mutexName segmentName user segment mutex now).shms
      id = store.shms id := by
  have other : id ≠ store.nextShm segmentName := by
    rintro rfl
    exact notSegment rfl
  exact Function.update_of_ne other _ _

theorem made_shmGen (notSegment : name ≠ segmentName) :
    (store.made userName mutexName segmentName user segment mutex now).shmGen
      name = store.shmGen name :=
  Function.update_of_ne notSegment _ _

end Store

section Rules

variable {paths : KeyPaths} {key : Key} {store : Store} {Value : Type}
variable {process : Pid} {exempt : Call → Prop}
variable {post : Value → Store → Prop}

/-- `Semaphore$new` of one semaphore under a name without a set. -/
theorem new_semaphore {name : Key} {size : UShort} {attach : Bool}
    (vacant : store.findSem (paths.semKey name) = none)
    (legal : size.toNat ≤ SEMVMX)
    {continuation : Option Semaphore → Prog Value}
    (rest : ∀ now, store.now ≤ now →
      Program.Delivers granting process exempt
        (continuation (some
          { key := name, id := store.nextSem (paths.semKey name), count := 1,
            size }))
        (store.makeSem (paths.semKey name) (.fresh size.toNat now) now)
        post) :
    Program.Delivers granting process exempt
      (Semaphore.new paths name 1 size attach >>= continuation) store post := by
  rw [Semaphore.new_bind]
  apply delivers_granted
  intro first grants
  refine ⟨some (), store.advance first.tick,
    by simp only [grant, grants.2, if_true], ?_⟩
  apply delivers_granted
  intro second _
  have still : ((store.advance first.tick).advance second.tick).findSem
      (paths.semKey name) = none := vacant
  refine ⟨_, _, congrArg some (Store.semget_make still), ?_⟩
  apply delivers_granted
  intro third _
  refine ⟨_, _, congrArg some (Store.makeSem_setall legal), ?_⟩
  apply rest
  exact Int.le_trans (Store.now_le_advance first.tick)
    (Int.le_trans (Store.now_le_advance second.tick)
      (Int.le.intro third.tick rfl))

/-- The segment that `SharedMemory$new` makes under a name without one. -/
theorem new_segment {this : SharedMemory} {size : Nat} {attach : Bool}
    (vacant : store.findShm (paths.shmKey key) = none) (isKey : this.key = key)
    (positive : size ≠ 0) (small : size ≤ SHMMAX)
    {continuation : Int × SharedMemory → Prog Value}
    (rest : ∀ now, store.now ≤ now →
      Program.Delivers granting process exempt
        (continuation (EXIT_SUCCESS,
          { this with
            id := store.nextShm (paths.shmKey key)
            addr := .mapped (store.nextShm (paths.shmKey key)) }))
        (store.makeShm (paths.shmKey key) (.fresh size process) now) post) :
    Program.Delivers granting process exempt
      (SharedMemory.newSegment paths this size attach >>= continuation) store
        post := by
  subst isKey
  rw [SharedMemory.newSegment_bind]
  apply delivers_granted
  intro first _
  have still : (store.advance first.tick).findShm (paths.shmKey this.key) =
      none := vacant
  refine ⟨_, _, congrArg some (Store.shmget_make still positive small), ?_⟩
  dsimp only
  rw [SharedMemory.shmat_bind]
  apply delivers_granted
  intro second _
  refine ⟨_, _, congrArg some Store.makeShm_shmat, ?_⟩
  simp only [ne_eq, reduceCtorEq, not_false_eq_true, if_true]
  apply rest
  exact Int.le_trans (Store.now_le_advance first.tick)
    (Int.le.intro second.tick rfl)

/-- `SharedMemory$new` without a segment and without a mutex under its
names. -/
theorem new_sharedMemory {size : Nat} {attach : Bool}
    (vacant : store.findShm (paths.shmKey key) = none)
    (vacantMutex : store.findSem (paths.semKey (key + 128)) = none)
    (positive : size ≠ 0) (small : size ≤ SHMMAX)
    {continuation : Option SharedMemory → Prog Value}
    (rest : ∀ this middle ctime now,
      this.Serves (store.nextSem (paths.semKey (key + 128)))
          (.mapped (store.nextShm (paths.shmKey key))) →
        store.now ≤ now →
        Program.Delivers granting process exempt (continuation (some this))
          ((store.makeShm (paths.shmKey key) (.fresh size process)
            middle).makeSem (paths.semKey (key + 128)) (.fresh 1 ctime) now)
          post) :
    Program.Delivers granting process exempt
      (SharedMemory.new paths key size attach >>= continuation) store post := by
  simp only [SharedMemory.new, mallocSharedMemory, Program.issue_bind,
    Program.done_bind]
  apply delivers_granted
  intro first grants
  refine ⟨some { first.block with
      size := { first.block.size with assigned := false } },
    store.advance first.tick, by simp only [grant, grants.2, if_true], ?_⟩
  simp only [bind_assoc]
  have still : (store.advance first.tick).findShm (paths.shmKey key) = none :=
    vacant
  apply new_segment still _ positive small
  rotate_left
  · rfl
  intro middle later
  simp only [if_true, bind_assoc]
  have stillNoMutex : ((store.advance first.tick).makeShm (paths.shmKey key)
      (.fresh size process) middle).findSem (paths.semKey (key + 128)) =
        none := vacantMutex
  apply new_semaphore stillNoMutex (by decide)
  intro now afterwards
  simp only [bind_assoc]
  rw [SharedMemory.lockPages_bind]
  apply delivers_granted
  intro last _
  refine ⟨.ok (), _, rfl, ?_⟩
  simp only [ne_eq, not_true_eq_false, if_false, pure_bind]
  apply rest _ middle now (now + last.tick)
  · exact ⟨rfl, _, rfl, rfl, rfl⟩
  · exact Int.le_trans (Store.now_le_advance first.tick)
      (Int.le_trans later (Int.le_trans afterwards
        (Int.le.intro last.tick rfl)))

/-- The contents of a lock that was just made. -/
def Contents.created (process : Pid) (ctime : Time) (semaphores : UInt)
    (expire : Time) : Contents :=
  { user := .fresh (semaphores.setWidth 16).toNat ctime
    mutex := .free
    segment :=
      ((((Segment.fresh 16 process).setWord 0 semaphores).setWord 1
        (if expire ≠ 0 then 1 else 0)).setWord 2 (BitVec.ofInt 32 expire)).setWord
          3 0 }

/-- The objects that the next lock of a key gets. -/
def Channel.next (paths : KeyPaths) (key : Key) (store : Store) : Channel :=
  { user := store.nextSem (paths.semKey key)
    mutex := store.nextSem (paths.semKey (key + 128))
    segment := store.nextShm (paths.shmKey key) }

theorem Stands.made {contents : Contents} {ctime now : Time}
    (free : contents.mutex = .free) (kept : contents.segment.dest = false) :
    Stands paths key (.next paths key store) contents
      (store.made (paths.semKey key) (paths.semKey (key + 128))
        (paths.shmKey key) contents.user contents.segment (.fresh 1 ctime) now)
      (store.made (paths.semKey key) (paths.semKey (key + 128))
        (paths.shmKey key) contents.user contents.segment (.fresh 1 ctime)
        now) := by
  have different := paths.semKey_mutex_ne key
  constructor
  · exact
      { user := rfl
        mutex := rfl
        segment := rfl
        userLast := Store.made_userLast different
        mutexLast := Store.made_mutexLast different
        segmentLast := Store.made_segmentLast }
  · exact Store.made_user different
  · rw [free]
    constructor
    · simp
    · intro _
      exact ⟨_, Store.made_mutex different, rfl, fun _ => rfl⟩
  · simp [free]
  · exact Store.made_segment
  · exact kept
  · exact .refl _ _

/-- Making the objects of a key is beside the names of all others. -/
theorem Beside.made {user mutex : SemSet} {segment : Segment} {now : Time}
    (later : store.now ≤ now) :
    Beside paths key store
      (store.made (paths.semKey key) (paths.semKey (key + 128))
        (paths.shmKey key) user segment mutex now) where
  sems := fun _ notUser notMutex => Store.made_sems notUser notMutex
  semGen := fun _ notUser notMutex => Store.made_semGen notUser notMutex
  shms := fun _ notSegment => Store.made_shms notSegment
  shmGen := fun _ notSegment => Store.made_shmGen notSegment
  now := later

/-- `create` of a key without objects makes the lock. -/
theorem create_vacant {semaphores : UInt} {expire : Time}
    (vacant : Vacant paths key store)
    (legal : (semaphores.setWidth 16).toNat ≤ SEMVMX)
    {continuation : Int → Prog Value}
    (rest : ∀ base after ctime, Beside paths key store base →
      Stands paths key (.next paths key store)
          (.created process ctime semaphores expire) base after →
        store.now ≤ ctime → ctime ≤ after.now →
          Program.Delivers granting process exempt (continuation 0) after
            post) :
    Program.Delivers granting process exempt
      (Lock.create paths key semaphores expire >>= continuation) store
        post := by
  simp only [Lock.create, bind_assoc]
  apply new_semaphore vacant.user legal
  intro ctime later
  have noSegment : (store.makeSem (paths.semKey key)
      (.fresh (semaphores.setWidth 16).toNat ctime) ctime).findShm
        (paths.shmKey key) = none := vacant.segment
  have noMutex : (store.makeSem (paths.semKey key)
      (.fresh (semaphores.setWidth 16).toNat ctime) ctime).findSem
        (paths.semKey (key + 128)) = none := by
    rw [Store.makeSem_findSem (paths.semKey_mutex_ne key)]
    exact vacant.mutex
  simp only [bind_assoc]
  apply new_sharedMemory noSegment noMutex (by decide) (by decide)
  intro shmem middle ctime' now serves afterwards
  have stands : Stands paths key (.next paths key store)
      { user := .fresh (semaphores.setWidth 16).toNat ctime
        mutex := .free
        segment := .fresh 16 process }
      (store.made (paths.semKey key) (paths.semKey (key + 128))
        (paths.shmKey key) (.fresh (semaphores.setWidth 16).toNat ctime)
        (.fresh 16 process) (.fresh 1 ctime') now)
      (store.made (paths.semKey key) (paths.semKey (key + 128))
        (paths.shmKey key) (.fresh (semaphores.setWidth 16).toNat ctime)
        (.fresh 16 process) (.fresh 1 ctime') now) :=
    .made rfl rfl
  have beside : Beside paths key store
      (store.made (paths.semKey key) (paths.semKey (key + 128))
        (paths.shmKey key) (.fresh (semaphores.setWidth 16).toNat ctime)
        (.fresh 16 process) (.fresh 1 ctime') now) :=
    .made (Int.le_trans later afterwards)
  rw [Store.makeSem_nextSem (paths.semKey_mutex_ne key)] at serves
  simp only [SharedMemory.writeUint, bind_assoc]
  apply stands.writeWord serves rfl
    (.of_words (List.mem_singleton_self _) rfl (by decide))
  intro after stands
  apply stands.writeWord serves rfl
    (.of_words (List.mem_singleton_self _) rfl (by decide))
  intro after stands
  apply stands.writeWord serves rfl
    (.of_words (List.mem_singleton_self _) rfl (by decide))
  intro after stands
  apply stands.writeWord serves rfl
    (.of_words (List.mem_singleton_self _) rfl (by decide))
  intro after stands
  rcases serves with ⟨_, shsem, owned, _, _⟩
  simp only [SharedMemory.delete, owned, Bool.false_eq_true, if_false,
    Semaphore.delete_false, Program.done_bind, Program.pure_eq_done]
  exact rest _ after ctime beside stands later
    (Int.le_trans afterwards stands.apart.now)

/-- `create` gives up a size that is too large for a semaphore, and leaves the
set it has made. -/
theorem create_oversized {semaphores : UInt} {expire : Time}
    (vacant : store.findSem (paths.semKey key) = none)
    (illegal : SEMVMX < (semaphores.setWidth 16).toNat)
    {continuation : Int → Prog Value}
    (rest : ∀ ctime now, Program.Delivers granting process exempt
      (continuation (-1))
      (store.makeSem (paths.semKey key) (.fresh 0 ctime) now) post) :
    Program.Delivers granting process exempt
      (Lock.create paths key semaphores expire >>= continuation) store
        post := by
  simp only [Lock.create, bind_assoc]
  rw [Semaphore.new_bind]
  apply delivers_granted
  intro first grants
  refine ⟨some (), store.advance first.tick,
    by simp only [grant, grants.2, if_true], ?_⟩
  apply delivers_granted
  intro second _
  have still : ((store.advance first.tick).advance second.tick).findSem
      (paths.semKey key) = none := vacant
  refine ⟨_, _, congrArg some (Store.semget_make still), ?_⟩
  apply delivers_granted
  intro third _
  refine ⟨_, _, congrArg some (Store.makeSem_oversized illegal), ?_⟩
  exact rest _ _

end Rules

end Atomicles
