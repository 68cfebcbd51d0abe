import Atomicles.Kernel.Memory

/-!
# Which objects are found under the names

A set or a segment comes to be found under a name when it is made, and ceases
to be found there when it is removed.  No other call changes what a name
stands for, and no identifier is found under a name again.
-/

namespace Atomicles

open Interaction

/-- Calls that make no set and remove none. -/
def Call.keepsSems : Call → Bool
  | .semget _ _ creat _ => !creat
  | .semctlRmid _ => false
  | .interruptible _ => false
  | _ => true

/-- Calls that make no segment and mark none for destruction. -/
def Call.keepsShms : Call → Bool
  | .shmget _ _ creat _ => !creat
  | .shmctlRmid _ => false
  | .vsnprintf .. => false
  | .interruptible _ => false
  | _ => true

/-- The same sets are found under the names. -/
def SameSemNames (before after : Store) : Prop :=
  ∀ name, after.findSem name = before.findSem name

/-- The same segments are found under the names. -/
def SameShmNames (before after : Store) : Prop :=
  after.shmGen = before.shmGen ∧
    ∀ name, after.findShm name = before.findShm name

namespace Store

variable {store after : Store} {name other : Key} {id target : IpcId}

theorem sameSemNames_of_same (same : SameSems store after) :
    SameSemNames store after := by
  intro name
  rw [findSem, same.1, same.2]
  rfl

theorem sameShmNames_of_same (same : SameShms store after) :
    SameShmNames store after := by
  refine ⟨same.2, ?_⟩
  intro name
  rw [findShm, same.1, same.2]
  rfl

/-- Another content of an existing set changes no name. -/
theorem setSem_names {set changed : SemSet}
    (present : store.sems id = some set) :
    SameSemNames store (store.setSem id (some changed)) := by
  intro name
  unfold findSem
  by_cases here : (⟨name, store.semGen name⟩ : IpcId) = id
  · rw [← here] at present ⊢
    simp [present]
  · simp [Function.update_of_ne here]

/-- What is not found under a name is not found there with other segments
replaced by ones that are marked alike. -/
theorem setShm_names {segment : Segment} {changed : Option Segment}
    (present : store.shms id = some segment)
    (alike : segment.dest = false →
      ∃ kept, changed = some kept ∧ kept.dest = false)
    (gone : segment.dest = true →
      ∀ kept, changed = some kept → kept.dest = true) :
    SameShmNames store (store.setShm id changed) := by
  refine ⟨rfl, ?_⟩
  intro name
  unfold findShm
  by_cases here : (⟨name, store.shmGen name⟩ : IpcId) = id
  · rw [← here] at present ⊢
    simp only [setShm_shms, setShm_shmGen, Function.update_self, present]
    cases marked : segment.dest with
    | false =>
        rcases alike marked with ⟨kept, rfl, unmarked⟩
        simp [unmarked]
    | true =>
        cases isChanged : changed with
        | none => rfl
        | some kept => simp [gone marked kept isChanged]
  · simp [Function.update_of_ne here]

/-- The identifier that a name stands for. -/
theorem findSem_last (found : store.findSem name = some id) :
    (⟨name, store.semGen name⟩ : IpcId) = id := by
  rcases findSem_eq_some_iff.mp found with ⟨isKey, isLast, _⟩
  rw [isLast, ← isKey]

theorem findShm_last (found : store.findShm name = some id) :
    (⟨name, store.shmGen name⟩ : IpcId) = id := by
  rcases findShm_eq_some_iff.mp found with ⟨isKey, isLast, _⟩
  rw [isLast, ← isKey]

/-- A set that is removed is found nowhere, all others stay. -/
theorem semctlRmid_findSem :
    (store.semctlRmid id).2.findSem name =
      if store.findSem name = some id then none else store.findSem name := by
  unfold semctlRmid
  split
  · rename_i absent
    rw [if_neg]
    intro found
    have present := (findSem_eq_some_iff.mp found).2.2
    simp [absent] at present
  · by_cases here : (⟨name, store.semGen name⟩ : IpcId) = id
    · subst here
      simp [findSem]
    · have elsewhere : store.findSem name ≠ some id :=
        fun found => here (findSem_last found)
      rw [if_neg elsewhere]
      simp [findSem, Function.update_of_ne here]

/-- A segment that is marked is found nowhere, all others stay. -/
theorem shmctlRmid_findShm :
    (store.shmctlRmid id).2.findShm name =
      if store.findShm name = some id then none else store.findShm name := by
  unfold shmctlRmid
  split
  · rename_i absent
    rw [if_neg]
    intro found
    rcases (findShm_eq_some_iff.mp found).2.2 with ⟨segment, present, _⟩
    simp [absent] at present
  · rename_i segment present
    by_cases here : (⟨name, store.shmGen name⟩ : IpcId) = id
    · subst here
      have gone : (store.setShm ⟨name, store.shmGen name⟩
          (keepMapped { segment with dest := true }
            segment.attached)).findShm name = none := by
        by_cases mapped : segment.attached = []
        · simp [findShm, keepMapped, mapped]
        · simp [findShm, keepMapped, mapped]
      dsimp only
      rw [gone]
      split
      · rfl
      · rename_i elsewhere
        cases found : store.findShm name with
        | none => rfl
        | some last =>
            rw [← findShm_last found] at found
            exact absurd found elsewhere
    · have elsewhere : store.findShm name ≠ some id :=
        fun found => here (findShm_last found)
      rw [if_neg elsewhere]
      simp [findShm, Function.update_of_ne here]

/-- `semget` makes no set under another name. -/
theorem semget_findSem {nsems : Nat} {creat excl : Bool}
    (different : other ≠ name) :
    (store.semget name nsems creat excl).2.findSem other =
      store.findSem other := by
  have old : (⟨other, store.semGen other⟩ : IpcId) ≠ store.nextSem name :=
    fun same => different (congrArg IpcId.key same)
  unfold semget
  split
  · split
    · rfl
    · split <;> rfl
  · split
    · rfl
    · split
      · rfl
      · simp [findSem, Function.update_of_ne different,
          Function.update_of_ne old]

/-- A segment is made under a name that stands for none, with an identifier
that was not used before. -/
theorem shmget_made {size : Nat}
    (made : (store.shmget name size true true).1 = .ok id) :
    store.findShm name = none ∧ id = store.nextShm name ∧
      (store.shmget name size true true).2.findShm name = some id ∧
      (store.shmget name size true true).2.shmGen =
        Function.update store.shmGen name (store.shmGen name + 1) ∧
      ∀ other, other ≠ name →
        (store.shmget name size true true).2.findShm other =
          store.findShm other := by
  unfold shmget at made ⊢
  split at made
  · cases made
  · rename_i absent
    simp only [Bool.not_true, Bool.false_eq_true, if_false] at made ⊢
    split at made
    · cases made
    · rename_i legal
      cases made
      refine ⟨absent, rfl, ?_, ?_, ?_⟩
      · simp [legal, findShm, nextShm]
      · simp [legal]
      · intro other different
        have old : (⟨other, store.shmGen other⟩ : IpcId) ≠
            store.nextShm name := fun same => different (congrArg IpcId.key same)
        simp [legal, findShm, Function.update_of_ne different,
          Function.update_of_ne old]

theorem shmget_failed {size : Nat} {errno : Errno}
    (failed : (store.shmget name size true true).1 = .error errno) :
    (store.shmget name size true true).2 = store := by
  unfold shmget at failed ⊢
  split at failed
  · rfl
  · simp only [Bool.not_true, Bool.false_eq_true, if_false] at failed ⊢
    split at failed
    · rename_i illegal
      rw [if_pos illegal]
    · cases failed

theorem semget_semGen (store : Store) {key : Key} {nsems : Nat}
    {creat excl : Bool} :
    store.semGen name ≤ (store.semget key nsems creat excl).2.semGen name := by
  unfold semget
  repeat' split
  all_goals try exact Nat.le_refl _
  by_cases same : name = key
  · simp [same]
  · simp [Function.update_of_ne same]

theorem shmget_shmGen (store : Store) {key : Key} {size : Nat}
    {creat excl : Bool} :
    store.shmGen name ≤ (store.shmget key size creat excl).2.shmGen name := by
  unfold shmget
  repeat' split
  all_goals try exact Nat.le_refl _
  by_cases same : name = key
  · simp [same]
  · simp [Function.update_of_ne same]

/-- A set is made with an identifier that was not used before. -/
theorem semget_made {nsems : Nat} {id : IpcId}
    (made : (store.semget name nsems true true).1 = .ok id) :
    id = store.nextSem name ∧
      (store.semget name nsems true true).2.semGen name = id.generation := by
  unfold semget at made ⊢
  split at made
  · cases made
  · simp only [Bool.not_true, Bool.false_eq_true, if_false] at made ⊢
    split at made
    · cases made
    · rename_i legal
      cases made
      exact ⟨rfl, by simp [legal, nextSem]⟩

theorem semget_failed {nsems : Nat} {errno : Errno}
    (failed : (store.semget name nsems true true).1 = .error errno) :
    (store.semget name nsems true true).2 = store := by
  unfold semget at failed ⊢
  split at failed
  · rfl
  · simp only [Bool.not_true, Bool.false_eq_true, if_false] at failed ⊢
    split at failed
    · rename_i illegal
      rw [if_pos illegal]
    · cases failed

/-- The end of a process changes no name. -/
theorem leave_semNames {process : Pid} :
    SameSemNames store (store.leave process) := by
  intro name
  simp [findSem, leave]

theorem leave_shmNames {process : Pid} :
    SameShmNames store (store.leave process) := by
  refine ⟨rfl, ?_⟩
  intro name
  unfold findShm leave
  dsimp only
  cases store.shms ⟨name, store.shmGen name⟩ with
  | none => rfl
  | some segment =>
      rw [Option.bind_some]
      unfold keepMapped
      by_cases gone : segment.dest = true ∧
          segment.attached.filter (· ≠ process) = []
      · rw [if_pos gone]
        simp [gone.1]
      · rw [if_neg gone]

end Store

section Kernel

variable {admits : Choice → Prop} {process : Pid} {call : Call}
variable {answer : call.Answer} {store after : Store} {name : Key}

/-- A call that makes no set and removes none changes no name of a set. -/
theorem exec_semNames (keeps : call.keepsSems = true)
    (exec : (kernel admits).exec process call store answer after) :
    SameSemNames store after := by
  by_cases spares : call.sparesSems = true
  · exact Store.sameSemNames_of_same (exec_sameSems spares exec)
  rcases exec_cases exec with ⟨choice, _, ⟨errno, _, rfl⟩ | granted⟩
  · exact fun _ => rfl
  cases call with
  | semctlSetall id array =>
      have final : after = _ :=
        (congrArg Prod.snd (Option.some.inj granted)).symm
      rw [final]
      unfold Store.semctlSetall
      split
      · exact fun _ => rfl
      · rename_i present
        split
        · exact fun _ => rfl
        · exact Store.setSem_names present
  | semop id semNum semOp undo nowait =>
      simp only [grant, Store.semop] at granted
      repeat' split at granted
      all_goals cases granted
      all_goals first
        | exact fun _ => rfl
        | exact Store.setSem_names ‹_›
  | semget name nsems creat excl => exact absurd keeps spares
  | semctlRmid id => cases keeps
  | interruptible call => cases keeps
  | _ => exact absurd rfl spares

/-- A call that makes no segment and marks none changes no name of a
segment. -/
theorem exec_shmNames (keeps : call.keepsShms = true)
    (exec : (kernel admits).exec process call store answer after) :
    SameShmNames store after := by
  have words : call.writesBytes = false := by
    cases call <;> first | rfl | cases keeps
  rcases exec_segments words exec with
    same | ⟨key, size, excl, tick, rfl, _⟩ |
      ⟨target, segment, changed, tick, isSegment, rfl, changes⟩
  · exact Store.sameShmNames_of_same same
  · cases keeps
  · have same : SameShmNames (store.advance tick)
        ((store.advance tick).setShm target changed) := by
      apply Store.setShm_names isSegment
      · intro unmarked
        cases changes with
        | attach => exact ⟨_, rfl, unmarked⟩
        | detach => exact Store.keepMapped_unmarked unmarked
        | mark => cases keeps
        | clear => exact ⟨_, rfl, unmarked⟩
        | write => exact ⟨_, rfl, unmarked⟩
      · intro marked kept isKept
        cases changes with
        | attach =>
            cases isKept
            exact marked
        | detach =>
            unfold Store.keepMapped at isKept
            split at isKept
            · cases isKept
            · cases isKept
              exact marked
        | mark => cases keeps
        | clear =>
            cases isKept
            exact marked
        | write =>
            cases isKept
            exact marked
    exact same

/-- The generations of a name do not go back. -/
theorem exec_semGen_le (known : ∀ inner, call ≠ .interruptible inner)
    (exec : (kernel admits).exec process call store answer after)
    (name : Key) : store.semGen name ≤ after.semGen name := by
  by_cases spares : call.sparesSems = true
  · exact Nat.le_of_eq (congrFun (exec_sameSems spares exec).2 name).symm
  rcases exec_cases exec with ⟨choice, _, ⟨errno, _, rfl⟩ | granted⟩
  · exact Nat.le_refl _
  have final : ∀ result, some result = some (answer, after) →
      after = result.2 := by
    rintro result ⟨⟩
    rfl
  cases call with
  | semget key nsems creat excl =>
      rw [final _ granted]
      exact Store.semget_semGen (store.advance choice.tick)
  | semctlSetall id array =>
      rw [final _ granted]
      unfold Store.semctlSetall
      repeat' split
      all_goals exact Nat.le_refl _
  | semctlRmid id =>
      rw [final _ granted]
      unfold Store.semctlRmid
      split <;> exact Nat.le_refl _
  | semop id semNum semOp undo nowait =>
      rw [Store.semop_semGen granted]
      exact Nat.le_refl _
  | interruptible inner => exact absurd rfl (known inner)
  | _ => exact absurd rfl spares

theorem exec_shmGen_le (words : call.writesBytes = false)
    (exec : (kernel admits).exec process call store answer after)
    (name : Key) : store.shmGen name ≤ after.shmGen name := by
  rcases exec_segments words exec with
    same | ⟨key, size, excl, tick, _, rfl⟩ | ⟨id, _, changed, tick, _, rfl, _⟩
  · exact Nat.le_of_eq (congrFun same.2 name).symm
  · exact Store.shmget_shmGen (store.advance tick)
  · exact Nat.le_refl _

/-- The segments there are were there before, or one has been made. -/
theorem exec_segment {id : IpcId} {segment : Segment}
    (words : call.writesBytes = false)
    (makes : ∀ name size excl, call ≠ .shmget name size true excl)
    (exec : (kernel admits).exec process call store answer after)
    (found : after.shms id = some segment) :
    (store.shms id).isSome = true := by
  rcases exec_segments words exec with
    same | ⟨key, size, excl, _, isMaking, _⟩ |
      ⟨target, before, changed, tick, isBefore, rfl, _⟩
  · rw [same.1] at found
    simp [found]
  · exact absurd isMaking (makes key size excl)
  · by_cases here : id = target
    · simp [here, isBefore]
    · have old : store.shms id = some segment := by
        simpa [Function.update_of_ne here] using found
      simp [old]

end Kernel

section Calls

variable {admits : Choice → Prop} {process : Pid} {store after : Store}
variable {name : Key} {id : IpcId}

/-- `semget` makes no set under another name. -/
theorem exec_semget_findSem {nsems : Nat} {creat excl : Bool} {other : Key}
    {made : Except Errno IpcId}
    (exec : (kernel admits).exec process (.semget name nsems creat excl) store
      made after) (different : other ≠ name) :
    after.findSem other = store.findSem other := by
  rcases exec_cases exec with ⟨choice, _, ⟨errno, _, rfl⟩ | granted⟩
  · rfl
  · have final : after = _ := (congrArg Prod.snd (Option.some.inj granted)).symm
    rw [final]
    exact Store.semget_findSem different

/-- `shmget` makes a segment, or else nothing changes. -/
theorem exec_shmget_made {size : Nat} {made : Except Errno IpcId}
    (exec : (kernel admits).exec process (.shmget name size true true) store
      made after) :
    (∃ id, made = .ok id ∧ store.findShm name = none ∧
      id = store.nextShm name ∧ after.findShm name = some id ∧
      after.shmGen =
        Function.update store.shmGen name (store.shmGen name + 1) ∧
      ∀ other, other ≠ name → after.findShm other = store.findShm other) ∨
    (∃ errno, made = .error errno) ∧ SameShmNames store after := by
  rcases exec_cases exec with ⟨choice, _, ⟨errno, refused, rfl⟩ | granted⟩
  · cases refused
    exact Or.inr ⟨⟨errno, rfl⟩, rfl, fun _ => rfl⟩
  have served : (store.advance choice.tick).shmget name size true true =
      (made, after) := Option.some.inj granted
  have isAfter := congrArg Prod.snd served
  cases made with
  | ok id =>
      rcases Store.shmget_made (congrArg Prod.fst served) with
        ⟨absent, isNext, found, last, others⟩
      rw [isAfter] at found last others
      exact Or.inl ⟨id, rfl, absent, isNext, found, last, others⟩
  | error errno =>
      have same := Store.shmget_failed (congrArg Prod.fst served)
      rw [isAfter] at same
      have same : after = store.advance choice.tick := same
      rw [same]
      exact Or.inr ⟨⟨errno, rfl⟩, rfl, fun _ => rfl⟩

/-- What a lookup gives is found under the name. -/
theorem exec_semget_looked {nsems : Nat} {excl : Bool}
    (exec : (kernel admits).exec process (.semget name nsems false excl) store
      (.ok id : Except Errno IpcId) after) : store.findSem name = some id := by
  rcases exec_cases exec with ⟨choice, _, ⟨errno, refused, _⟩ | granted⟩
  · cases refused
  · have served : (store.advance choice.tick).semget name nsems false excl =
        (.ok id, after) := Option.some.inj granted
    unfold Store.semget at served
    split at served
    · rename_i found
      split at served
      · cases served
      · split at served
        · cases served
        · cases served
          exact found
    · cases served

/-- The removal of a set finds no name for another set, and none for this
one unless it fails. -/
theorem exec_semctlRmid {outcome : Except Errno Unit}
    (exec : (kernel admits).exec process (.semctlRmid id) store outcome
      after) :
    (∀ name mutex, after.findSem name = some mutex →
      store.findSem name = some mutex) ∧
    ((∀ errno, outcome = .error errno → store.sems id = none) →
      ∀ name, after.findSem name ≠ some id) := by
  rcases exec_cases exec with ⟨choice, _, ⟨errno, refused, rfl⟩ | granted⟩
  · refine ⟨fun _ _ found => found, ?_⟩
    intro unrefused name found
    have isOutcome : outcome = .error errno := (Option.some.inj refused).symm
    have present := (Store.findSem_eq_some_iff.mp found).2.2
    simp [unrefused errno isOutcome] at present
  · have final : after = _ := (congrArg Prod.snd (Option.some.inj granted)).symm
    rw [final]
    have names : ∀ name,
        ((store.advance choice.tick).semctlRmid id).2.findSem name =
          if store.findSem name = some id then none
          else store.findSem name := fun _ => Store.semctlRmid_findSem
    refine ⟨?_, ?_⟩
    · intro name mutex found
      rw [names] at found
      split at found
      · cases found
      · exact found
    · intro _ name found
      rw [names] at found
      split at found
      · cases found
      · rename_i elsewhere
        exact elsewhere found

/-- A segment that is marked is found nowhere any more. -/
theorem exec_shmctlRmid {outcome : Except Errno Unit}
    (exec : (kernel admits).exec process (.shmctlRmid id) store outcome
      after) :
    SameShmNames store after ∨
    after.shmGen = store.shmGen ∧ ∀ name, after.findShm name =
      if store.findShm name = some id then none else store.findShm name := by
  rcases exec_cases exec with ⟨choice, _, ⟨errno, _, rfl⟩ | granted⟩
  · exact Or.inl ⟨rfl, fun _ => rfl⟩
  · have final : after = _ := (congrArg Prod.snd (Option.some.inj granted)).symm
    rw [final]
    refine Or.inr ⟨?_, fun name => Store.shmctlRmid_findShm⟩
    unfold Store.shmctlRmid
    split <;> rfl

/-- `semget` makes a set with an identifier that was not used before, or else
nothing changes. -/
theorem exec_semget_made {made : Except Errno IpcId} {nsems : Nat}
    (exec : (kernel admits).exec process (.semget name nsems true true) store
      made after) :
    (∃ id, made = .ok id ∧ id = store.nextSem name ∧
      after.semGen name = id.generation) ∨
    (∃ errno, made = .error errno) ∧ SameSems store after := by
  rcases exec_cases exec with ⟨choice, _, ⟨errno, refused, rfl⟩ | granted⟩
  · cases refused
    exact Or.inr ⟨⟨errno, rfl⟩, rfl, rfl⟩
  have served : (store.advance choice.tick).semget name nsems true true =
      (made, after) := Option.some.inj granted
  have isAfter := congrArg Prod.snd served
  cases made with
  | ok id =>
      rcases Store.semget_made (congrArg Prod.fst served) with ⟨isNext, last⟩
      rw [isAfter] at last
      exact Or.inl ⟨id, rfl, isNext, last⟩
  | error errno =>
      have same := Store.semget_failed (congrArg Prod.fst served)
      rw [isAfter] at same
      have same : after = store.advance choice.tick := same
      rw [same]
      exact Or.inr ⟨⟨errno, rfl⟩, rfl, rfl⟩

/-- The segments there are after `shmget` are old ones, or it has made one,
which is full of zeros. -/
theorem exec_shmget_segment {made : Except Errno IpcId} {size : Nat}
    {creat excl : Bool} {segment : Segment}
    (exec : (kernel admits).exec process (.shmget name size creat excl) store
      made after) (found : after.shms id = some segment) :
    store.shms id = some segment ∨
      made = .ok id ∧ ∀ offset, segment.word offset = 0 := by
  rcases exec_cases exec with ⟨choice, _, ⟨errno, _, rfl⟩ | granted⟩
  · exact Or.inl found
  simp only [grant, Store.shmget, Option.some.injEq] at granted
  repeat' split at granted
  all_goals cases granted
  all_goals try exact Or.inl found
  dsimp only at found
  by_cases fresh : id = (store.advance choice.tick).nextShm name
  · rw [fresh, Function.update_self] at found
    cases found
    refine Or.inr ⟨by rw [fresh], fun offset => ?_⟩
    show (0#8 ++ 0#8 ++ 0#8 ++ 0#8 : BitVec 32) = 0
    rfl
  · rw [Function.update_of_ne fresh] at found
    exact Or.inl found

/-- A refused or failed `shmget` changes no segment. -/
theorem exec_shmget_failed {size : Nat} {errno : Errno}
    (exec : (kernel admits).exec process (.shmget name size true true) store
      (.error errno : Except Errno IpcId) after) : SameShms store after := by
  rcases exec_cases exec with ⟨choice, _, ⟨errno, _, rfl⟩ | granted⟩
  · exact ⟨rfl, rfl⟩
  have served : (store.advance choice.tick).shmget name size true true =
      (.error errno, after) := Option.some.inj granted
  have same := Store.shmget_failed (congrArg Prod.fst served)
  rw [congrArg Prod.snd served] at same
  have same : after = store.advance choice.tick := same
  rw [same]
  exact ⟨rfl, rfl⟩

/-- A set that is filled is there. -/
theorem exec_semctlSetall_filled {array : List UShort}
    (exec : (kernel admits).exec process (.semctlSetall id array) store
      (.ok () : Except Errno Unit) after) :
    ∃ set, after.sems id = some set := by
  rcases exec_cases exec with ⟨choice, _, ⟨errno, refused, _⟩ | granted⟩
  · cases refused
  simp only [grant, Store.semctlSetall, Option.some.injEq] at granted
  repeat' split at granted
  all_goals cases granted
  exact ⟨_, Function.update_self ..⟩

end Calls

end Atomicles
