import Atomicles.Kernel.Names
import Atomicles.Lock.Creation

/-!
# A `delete` that runs alone

`delete` finds the mutex of a segment only beside the segment.  Where every
mutex is beside a segment it leaves nothing of its key, as long as the block
that `malloc` returns for its handle holds no size beyond the mapped page: the
handle keeps that size, and the segment is cleared by it.
-/

namespace Atomicles.Deletion

open Interaction

variable (paths : KeyPaths)

/-- The name of the mutex of a key. -/
abbrev mutexKey (key : Key) : Key :=
  paths.semKey (key + 128)

section Keys

variable {paths} {first second : Key}
variable (small : first.toNat < 128) (small' : second.toNat < 128)
include small small'

theorem shmKey_injective (same : paths.shmKey first = paths.shmKey second) :
    first = second := by
  rw [shmKey_eq_iff] at same
  apply BitVec.eq_of_toNat_eq
  omega

theorem semKey_injective (same : paths.semKey first = paths.semKey second) :
    first = second := by
  rw [semKey_eq_iff] at same
  apply BitVec.eq_of_toNat_eq
  omega

theorem mutexKey_injective
    (same : mutexKey paths first = mutexKey paths second) :
    first = second := by
  rw [semKey_eq_iff, mutex_low, mutex_low] at same
  apply BitVec.eq_of_toNat_eq
  omega

theorem mutexKey_ne_semKey :
    mutexKey paths first ≠ paths.semKey second := by
  intro same
  rw [semKey_eq_iff, mutex_low] at same
  omega

end Keys

theorem vacant_leave {paths : KeyPaths} {key : Key} {store : Store}
    (vacant : Vacant paths key store) (process : Pid) :
    Vacant paths key (store.leave process) where
  user := by rw [Store.leave_semNames, vacant.user]
  mutex := by rw [Store.leave_semNames, vacant.mutex]
  segment := by rw [Store.leave_shmNames.2, vacant.segment]

/-- What is granted to a `delete`: the block of its handle holds no size
beyond a page. -/
def Modest (choice : Choice) : Prop :=
  Grants choice ∧ choice.block.size.value ≤ PAGE_SIZE

/-- The program runs alone and delivers. -/
abbrev Alone {Value : Type} (process : Pid) (program : Prog Value)
    (store : Store) (post : Value → Store → Prop) : Prop :=
  Program.Delivers (kernel Modest) process (fun _ => False) program store post

/-- A kernel that grants everything, where no more than a page is cleared
unless that is exempt. -/
structure Clears (admits : Choice → Prop) (exempt : Call → Prop) : Prop where
  chosen : ∃ choice, admits choice
  grants : ∀ choice, admits choice → Grants choice
  modest : ∀ choice, admits choice → choice.block.size.value ≤ PAGE_SIZE ∨
    ∀ addr, exempt (.memset addr choice.block.size.value)

theorem clears_modest : Clears Modest fun _ => False where
  chosen := ⟨{}, ⟨rfl, rfl⟩, by decide⟩
  grants := fun _ modest => modest.1
  modest := fun _ modest => Or.inl modest.2

section Rules

variable {paths} {key : Key} {store : Store} {process : Pid} {Value : Type}
variable {post : Value → Store → Prop} {admits : Choice → Prop}
variable {exempt : Call → Prop}

theorem Clears.served (clears : Clears admits exempt) {call : Call}
    {next : call.Answer → Prog Value}
    (served : ∀ choice, admits choice → ∃ answer after,
      grant process choice (store.advance choice.tick) call =
        some (answer, after) ∧
      Program.Delivers (kernel admits) process exempt (next answer) after
        post) :
    Program.Delivers (kernel admits) process exempt (.issue call next) store
      post :=
  delivers_served clears.chosen clears.grants served

/-- `Semaphore$attach` finds the set under the name, if there is one. -/
theorem delivers_attach (clears : Clears admits exempt) {name : Key}
    {continuation : Option Semaphore → Prog Value}
    (absent : store.findSem (paths.semKey name) = none → ∀ seconds,
      Program.Delivers (kernel admits) process exempt (continuation none)
        (store.advance seconds) post)
    (present : ∀ shsem, store.findSem (paths.semKey name) = some shsem.id →
      ∀ seconds, Program.Delivers (kernel admits) process exempt
        (continuation (some shsem)) (store.advance seconds) post) :
    Program.Delivers (kernel admits) process exempt
      (Semaphore.attach paths name >>= continuation) store post := by
  rw [Semaphore.attach_bind]
  apply clears.served
  intro first _
  cases found : store.findSem (paths.semKey name) with
  | none =>
      have still : (store.advance first.tick).findSem (paths.semKey name) =
          none := found
      refine ⟨.error .ENOENT, store.advance first.tick, ?_,
        absent found first.tick⟩
      simp [grant, Store.semget, still]
  | some id =>
      have still : (store.advance first.tick).findSem (paths.semKey name) =
          some id := found
      refine ⟨.ok id, store.advance first.tick, ?_, ?_⟩
      · simp [grant, Store.semget, still, NOP]
      apply clears.served
      intro second admitted
      refine ⟨some (), (store.advance first.tick).advance second.tick,
        by simp only [grant, (clears.grants second admitted).2, if_true], ?_⟩
      apply clears.served
      intro third _
      refine ⟨_, _, rfl, ?_⟩
      rw [Store.advance_advance, Store.advance_advance]
      exact present _ found _

/-- `Semaphore$delete` of a set of the key. -/
theorem delivers_remove (clears : Clears admits exempt) {name : Key}
    {shsem : Semaphore}
    {continuation : Unit → Prog Value}
    (own : name = paths.semKey key ∨ name = mutexKey paths key)
    (found : store.findSem name = some shsem.id)
    (rest : ∀ after, after.findSem name = none →
      (∀ other, other ≠ name → after.findSem other = store.findSem other) →
        SameShms store after → Beside paths key store after →
          Program.Delivers (kernel admits) process exempt (continuation ())
            after post) :
    Program.Delivers (kernel admits) process exempt
      (Semaphore.delete shsem true >>= continuation) store post := by
  have isName := (Store.findSem_eq_some_iff.mp found).1
  simp only [Semaphore.delete, if_true, semctlRmid_bind]
  apply clears.served
  intro choice _
  have names : ∀ other,
      ((store.advance choice.tick).semctlRmid shsem.id).2.findSem other =
        if store.findSem other = some shsem.id then none
        else store.findSem other := fun _ => Store.semctlRmid_findSem
  refine ⟨((store.advance choice.tick).semctlRmid shsem.id).1,
    ((store.advance choice.tick).semctlRmid shsem.id).2, rfl, ?_⟩
  apply rest
  · rw [names, if_pos found]
  · intro other different
    rw [names, if_neg]
    intro same
    have isOther := (Store.findSem_eq_some_iff.mp same).1
    exact different (isOther.symm.trans isName)
  · unfold Store.semctlRmid
    split <;> exact ⟨rfl, rfl⟩
  · apply (Beside.advance choice.tick).trans
    rw [← isName] at own
    unfold Store.semctlRmid
    split
    · exact .refl _
    · exact .setSem own

/-- The segment under a name, with at least a page mapped. -/
structure Holds (process : Pid) (name : Key) (id : IpcId) (store : Store) :
    Prop where
  found : store.findShm name = some id
  mapped : ∃ segment, store.shms id = some segment ∧
    process ∈ segment.attached ∧ PAGE_SIZE ≤ segment.mappedSize

theorem Holds.of_same {name : Key} {id : IpcId} {after : Store}
    (holds : Holds process name id store) (same : SameShms store after) :
    Holds process name id after := by
  constructor
  · rw [← holds.found]
    simp only [Store.findShm, same.1, same.2]
  · rw [same.1]
    exact holds.mapped

/-- A segment that is not empty is mapped in at least one page. -/
theorem page_le_mappedSize {segment : Segment} (positive : 0 < segment.size) :
    PAGE_SIZE ≤ segment.mappedSize := by
  have isPage : 1 ≤ (segment.size + (PAGE_SIZE - 1)) / PAGE_SIZE := by
    unfold PAGE_SIZE
    omega
  calc PAGE_SIZE = 1 * PAGE_SIZE := (Nat.one_mul _).symm
    _ ≤ segment.mappedSize := Nat.mul_le_mul_right _ isPage

theorem shmat_holds {id : IpcId}
    (found : store.findShm (paths.shmKey key) = some id)
    (positive : ∀ segment, store.shms id = some segment → 0 < segment.size) :
    ∃ after, store.shmat process id = (.ok (.mapped id), after) ∧
      SameSems store after ∧ Holds process (paths.shmKey key) id after ∧
      Beside paths key store after := by
  rcases Store.findShm_eq_some_iff.mp found with
    ⟨own, _, segment, present, unmarked⟩
  have names : SameShmNames store (store.setShm id
      (some { segment with attached := process :: segment.attached })) := by
    apply Store.setShm_names present
    · exact fun _ => ⟨_, rfl, unmarked⟩
    · intro marked
      rw [unmarked] at marked
      cases marked
  refine ⟨store.setShm id
    (some { segment with attached := process :: segment.attached }),
    ?_, ⟨rfl, rfl⟩, ?_, .setShm own⟩
  · simp only [Store.shmat, present]
  · constructor
    · rw [names.2, found]
    · exact ⟨_, Function.update_self .., List.mem_cons_self ..,
        page_le_mappedSize (positive segment present)⟩

/-- What the calls at the end of `SharedMemory$delete` leave alone. -/
structure Spares (paths : KeyPaths) (key : Key) (before after : Store) :
    Prop where
  sems : SameSems before after
  shmGen : after.shmGen = before.shmGen
  beside : Beside paths key before after

namespace Spares

variable {first second third after : Store} {id : IpcId}

theorem refl (store : Store) : Spares paths key store store :=
  ⟨⟨rfl, rfl⟩, rfl, .refl store⟩

theorem trans (before : Spares paths key first second)
    (after : Spares paths key second third) : Spares paths key first third where
  sems := ⟨after.sems.1.trans before.sems.1,
    after.sems.2.trans before.sems.2⟩
  shmGen := after.shmGen.trans before.shmGen
  beside := before.beside.trans after.beside

theorem advance (seconds : Nat) :
    Spares paths key store (store.advance seconds) :=
  ⟨⟨rfl, rfl⟩, rfl, .advance seconds⟩

theorem setShm {segment : Option Segment} (own : id.key = paths.shmKey key) :
    Spares paths key store (store.setShm id segment) :=
  ⟨⟨rfl, rfl⟩, rfl, .setShm own⟩

theorem shmdt (own : id.key = paths.shmKey key) (process : Pid) :
    Spares paths key store (store.shmdt process (.mapped id)).2 := by
  unfold Store.shmdt
  split
  · exact .refl store
  · rename_i found segment mapping
    have same := (Store.mapping_eq_some_iff.mp mapping).1
    cases same
    exact .setShm own

theorem shmctlRmid (own : id.key = paths.shmKey key) :
    Spares paths key store (store.shmctlRmid id).2 := by
  unfold Store.shmctlRmid
  split
  · exact .refl store
  · exact .setShm own

end Spares

/-- A mapped segment is cleared, if no more than its pages. -/
theorem memset_mapped {id : IpcId} {n : Nat}
    (holds : Holds process (paths.shmKey key) id store)
    (fits : n ≤ PAGE_SIZE) :
    ∃ after, store.memset process (.mapped id) n = (some (), after) ∧
      Spares paths key store after := by
  have own := (Store.findShm_eq_some_iff.mp holds.found).1
  rcases holds.mapped with ⟨segment, present, attached, page⟩
  unfold Store.memset
  split
  · exact ⟨_, rfl, .refl store⟩
  · have access : store.access process (.mapped id) 0 n =
        some (id, segment) := by
      apply Store.access_eq_some_iff.mpr
      refine ⟨Store.mapping_eq_some_iff.mpr ⟨rfl, present, attached⟩, ?_⟩
      rw [Nat.zero_add]
      exact Nat.le_trans fits page
    rw [access]
    exact ⟨_, rfl, .setShm own⟩

/-- Nothing is found under a name once its last segment is marked. -/
theorem shmctlRmid_unnames {name : Key} {id : IpcId}
    (last : (⟨name, store.shmGen name⟩ : IpcId) = id) :
    (store.shmctlRmid id).2.findShm name = none := by
  rw [Store.shmctlRmid_findShm]
  split
  · rfl
  · rename_i elsewhere
    apply Option.eq_none_iff_forall_ne_some.mpr
    intro other isOther
    rw [← Store.findShm_last isOther, last] at isOther
    exact elsewhere isOther

/-- The segment of the key is cleared, unmapped and removed. -/
theorem delivers_clear (clears : Clears admits exempt) {id : IpcId} {n : Nat}
    {code : Value} (holds : Holds process (paths.shmKey key) id store)
    (modest : n ≤ PAGE_SIZE ∨ ∀ addr, exempt (.memset addr n))
    (gone : ∀ after, Spares paths key store after →
      after.findShm (paths.shmKey key) = none → post code after) :
    Program.Delivers (kernel admits) process exempt (do
      memset (.mapped id) n
      munlockall
      shmdt (.mapped id)
      shmctlRmid id
      return code) store post := by
  have own := (Store.findShm_eq_some_iff.mp holds.found).1
  rw [SharedMemory.memset_bind]
  rcases modest with fits | exempted
  rotate_left
  · exact Or.inl (exempted _)
  apply clears.served
  intro first _
  have still : Holds process (paths.shmKey key) id
      (store.advance first.tick) := holds.of_same ⟨rfl, rfl⟩
  rcases memset_mapped still fits with ⟨cleared, done, spares⟩
  refine ⟨_, _, congrArg some done, ?_⟩
  change Program.Delivers (kernel admits) process exempt
    (.issue .munlockall fun _ => .issue (.shmdt (.mapped id)) fun _ =>
      .issue (.shmctlRmid id) fun _ => .done code) cleared post
  apply clears.served
  intro second _
  refine ⟨_, _, rfl, ?_⟩
  apply clears.served
  intro third _
  refine ⟨(((cleared.advance second.tick).advance third.tick).shmdt process
      (.mapped id)).1,
    (((cleared.advance second.tick).advance third.tick).shmdt process
      (.mapped id)).2, rfl, ?_⟩
  have unmapped : Spares paths key store
      (((cleared.advance second.tick).advance third.tick).shmdt process
        (.mapped id)).2 :=
    ((Spares.advance first.tick).trans spares).trans
      (((Spares.advance second.tick).trans (Spares.advance third.tick)).trans
        (Spares.shmdt own process))
  generalize (((cleared.advance second.tick).advance third.tick).shmdt process
    (.mapped id)).2 = middle at unmapped
  apply clears.served
  intro fourth _
  refine ⟨((middle.advance fourth.tick).shmctlRmid id).1,
    ((middle.advance fourth.tick).shmctlRmid id).2, rfl, ?_⟩
  apply gone
  · exact (unmapped.trans (Spares.advance fourth.tick)).trans
      (Spares.shmctlRmid own)
  · apply shmctlRmid_unnames
    rw [Store.advance_shmGen, unmapped.shmGen]
    exact Store.findShm_last holds.found

theorem findSem_of_same {after : Store} {name : Key}
    (same : SameSems store after) : after.findSem name = store.findSem name :=
  Store.sameSemNames_of_same same name

/-- What `delete` counts as missing. -/
def missing (found : Option IpcId) : Int :=
  if found.isSome then 0 else 1

/-- The segment of the key is removed together with its mutex. -/
theorem delivers_delete_segment (clears : Clears admits exempt) {code : Int}
    {post : Int → Store → Prop}
    (owned : ∀ mutex, store.findSem (mutexKey paths key) = some mutex →
      ∃ segment, store.findShm (paths.shmKey key) = some segment)
    (positive : ∀ id segment, store.findShm (paths.shmKey key) = some id →
      store.shms id = some segment → 0 < segment.size)
    (rest : ∀ after, after.findSem (paths.semKey key) =
        store.findSem (paths.semKey key) →
      after.findSem (mutexKey paths key) = none →
        after.findShm (paths.shmKey key) = none →
          Beside paths key store after →
            post (code + missing (store.findShm (paths.shmKey key)))
              after) :
    Program.Delivers (kernel admits) process exempt (do
      match ← SharedMemory.attach paths key with
      | some shmem =>
          SharedMemory.delete shmem true
          return code
      | none => return code + 1) store post := by
  rw [SharedMemory.attach_bind]
  apply clears.served
  intro first _
  cases found : store.findShm (paths.shmKey key) with
  | none =>
      have still : (store.advance first.tick).findShm (paths.shmKey key) =
          none := found
      refine ⟨.error .ENOENT, store.advance first.tick, ?_, ?_⟩
      · simp [grant, Store.shmget, still]
      have left := rest (store.advance first.tick) rfl
      rw [found] at left
      apply left _ found (.advance first.tick)
      apply Option.eq_none_iff_forall_ne_some.mpr
      intro mutex isMutex
      rcases owned mutex isMutex with ⟨segment, isSegment⟩
      rw [found] at isSegment
      cases isSegment
  | some id =>
      have still : (store.advance first.tick).findShm (paths.shmKey key) =
          some id := found
      refine ⟨.ok id, store.advance first.tick, ?_, ?_⟩
      · simp [grant, Store.shmget, still, NOP]
      apply clears.served
      intro second admitted
      refine ⟨some { second.block with
          size := { second.block.size with assigned := false } },
        (store.advance first.tick).advance second.tick,
        by simp only [grant, (clears.grants second admitted).2, if_true], ?_⟩
      dsimp only
      rw [SharedMemory.shmat_bind]
      apply clears.served
      intro third _
      have found' : (((store.advance first.tick).advance
          second.tick).advance third.tick).findShm (paths.shmKey key) =
            some id := found
      rcases shmat_holds found' (fun segment => positive id segment found)
        with ⟨held, isHeld, sems, holds, beside⟩
      have toHeld : Beside paths key store held :=
        ((Beside.advance first.tick).trans
          ((Beside.advance second.tick).trans
            (Beside.advance third.tick))).trans beside
      refine ⟨_, _, congrArg some isHeld, ?_⟩
      simp only [ne_eq, reduceCtorEq, not_false_eq_true, if_true]
      have ends : ∀ after, after.findSem (paths.semKey key) =
          store.findSem (paths.semKey key) →
          after.findSem (mutexKey paths key) = none →
            after.findShm (paths.shmKey key) = none →
              Beside paths key store after → post code after := by
        intro after user mutex segment beside
        have left := rest after user mutex segment beside
        rwa [found, missing, Option.isSome_some, if_pos rfl,
          Int.add_zero] at left
      apply delivers_attach clears
      · intro absent seconds
        simp only [SharedMemory.delete, if_true, bind_assoc]
        have still' : Holds process (paths.shmKey key) id
            (held.advance seconds) := holds.of_same ⟨rfl, rfl⟩
        apply delivers_clear clears still' (clears.modest second admitted)
        intro after spares gone
        apply ends after _ _ gone
        · exact toHeld.trans ((Beside.advance seconds).trans spares.beside)
        · rw [findSem_of_same spares.sems]
          exact findSem_of_same sems
        · rw [findSem_of_same spares.sems]
          exact absent
      · intro shsem isMutex seconds
        simp only [SharedMemory.delete, if_true, bind_assoc]
        have isMutex' : (held.advance seconds).findSem (mutexKey paths key) =
            some shsem.id := isMutex
        apply delivers_remove clears (Or.inr rfl) isMutex'
        intro cleared removed others shms beside'
        apply delivers_clear clears (holds.of_same shms)
          (clears.modest second admitted)
        intro after spares gone
        apply ends after _ _ gone
        · exact toHeld.trans ((Beside.advance seconds).trans
            (beside'.trans spares.beside))
        · rw [findSem_of_same spares.sems,
            others _ (paths.semKey_mutex_ne key).symm]
          exact findSem_of_same sems
        · rw [findSem_of_same spares.sems]
          exact removed

/-- `delete` leaves nothing of a key whose mutex, if any, is beside a
segment. -/
theorem delivers_delete (clears : Clears admits exempt)
    {post : Int → Store → Prop}
    (owned : ∀ mutex, store.findSem (mutexKey paths key) = some mutex →
      ∃ segment, store.findShm (paths.shmKey key) = some segment)
    (positive : ∀ id segment, store.findShm (paths.shmKey key) = some id →
      store.shms id = some segment → 0 < segment.size)
    (rest : ∀ after, Vacant paths key after → Beside paths key store after →
      post (missing (store.findSem (paths.semKey key)) +
        missing (store.findShm (paths.shmKey key))) after) :
    Program.Delivers (kernel admits) process exempt (Lock.delete paths key)
      store post := by
  unfold Lock.delete
  apply delivers_attach clears
  · intro absent seconds
    have owned' : ∀ mutex,
        (store.advance seconds).findSem (mutexKey paths key) = some mutex →
          ∃ segment, (store.advance seconds).findShm (paths.shmKey key) =
            some segment := owned
    have positive' : ∀ id segment,
        (store.advance seconds).findShm (paths.shmKey key) = some id →
          (store.advance seconds).shms id = some segment →
            0 < segment.size := positive
    apply delivers_delete_segment clears owned' positive'
    intro after user mutex segment beside
    have left := rest after ⟨user.trans absent, mutex, segment⟩
      ((Beside.advance seconds).trans beside)
    rwa [absent] at left
  · intro shsem present seconds
    have present' : (store.advance seconds).findSem (paths.semKey key) =
        some shsem.id := present
    apply delivers_remove clears (Or.inl rfl) present'
    intro cleared removed others shms beside
    have same : ∀ name, cleared.findShm name = store.findShm name := by
      intro name
      simp only [Store.findShm, shms.1, shms.2]
      rfl
    apply delivers_delete_segment clears
    · intro mutex isMutex
      rw [others _ (paths.semKey_mutex_ne key)] at isMutex
      rw [same]
      exact owned mutex isMutex
    · intro id segment isSegment present
      rw [same] at isSegment
      rw [shms.1] at present
      exact positive id segment isSegment present
    · intro after user mutex segment beside'
      have left := rest after ⟨user.trans removed, mutex, segment⟩
        ((Beside.advance seconds).trans (beside.trans beside'))
      rw [same]
      rwa [present] at left

end Rules

end Atomicles.Deletion
