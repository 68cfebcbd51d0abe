import Atomicles.Kernel.Serve

/-!
# What a call leaves alone

The parts of the store that a served call does not change, by the kind of
call.  A refused call changes nothing but the clock.
-/

namespace Atomicles

open Interaction

/-! ## Parts of the store -/

namespace Store

variable {store : Store} {seconds : Nat} {key : Key} {id : IpcId}

@[simp]
theorem advance_sems : (store.advance seconds).sems = store.sems :=
  rfl

@[simp]
theorem advance_semGen : (store.advance seconds).semGen = store.semGen :=
  rfl

@[simp]
theorem advance_shms : (store.advance seconds).shms = store.shms :=
  rfl

@[simp]
theorem advance_shmGen : (store.advance seconds).shmGen = store.shmGen :=
  rfl

@[simp]
theorem advance_now :
    (store.advance seconds).now = store.now + (seconds : Int) :=
  rfl

theorem advance_advance (first second : Nat) :
    (store.advance first).advance second = store.advance (first + second) := by
  simp [advance, Int.add_assoc]

/-- Time does not go back. -/
theorem now_le_advance (seconds : Nat) :
    store.now ≤ (store.advance seconds).now :=
  Int.le.intro seconds rfl

@[simp]
theorem setSem_sems {set : Option SemSet} :
    (store.setSem id set).sems = Function.update store.sems id set :=
  rfl

@[simp]
theorem setSem_semGen {set : Option SemSet} :
    (store.setSem id set).semGen = store.semGen :=
  rfl

@[simp]
theorem setSem_shms {set : Option SemSet} :
    (store.setSem id set).shms = store.shms :=
  rfl

@[simp]
theorem setSem_shmGen {set : Option SemSet} :
    (store.setSem id set).shmGen = store.shmGen :=
  rfl

@[simp]
theorem setShm_sems {segment : Option Segment} :
    (store.setShm id segment).sems = store.sems :=
  rfl

@[simp]
theorem setShm_semGen {segment : Option Segment} :
    (store.setShm id segment).semGen = store.semGen :=
  rfl

@[simp]
theorem setShm_shms {segment : Option Segment} :
    (store.setShm id segment).shms = Function.update store.shms id segment :=
  rfl

@[simp]
theorem setShm_shmGen {segment : Option Segment} :
    (store.setShm id segment).shmGen = store.shmGen :=
  rfl

end Store

/-! ## Calls on one kind of object -/

/-- The semaphore sets and their names stay as they are. -/
def SameSems (before after : Store) : Prop :=
  after.sems = before.sems ∧ after.semGen = before.semGen

/-- The shared segments and their names stay as they are. -/
def SameShms (before after : Store) : Prop :=
  after.shms = before.shms ∧ after.shmGen = before.shmGen

/-- Calls that never change a semaphore set. -/
def Call.sparesSems : Call → Bool
  | .semget _ _ creat _ => !creat
  | .semctlSetall .. => false
  | .semctlRmid .. => false
  | .semop .. => false
  | .interruptible call => call.sparesSems
  | _ => true

/-- Calls that never change a shared segment. -/
def Call.sparesShms : Call → Bool
  | .shmget _ _ creat _ => !creat
  | .shmat .. => false
  | .shmdt .. => false
  | .shmctlRmid .. => false
  | .memset .. => false
  | .store .. => false
  | .vsnprintf .. => false
  | .interruptible call => call.sparesShms
  | _ => true

section Store

variable {store : Store} {process : Pid}

theorem Store.semget_lookup (key : Key) (nsems : Nat) (excl : Bool) :
    (store.semget key nsems false excl).2 = store := by
  unfold Store.semget
  cases store.findSem key with
  | none => rfl
  | some id =>
      simp only [Bool.false_and, Bool.false_eq_true, if_false]
      split <;> rfl

theorem Store.shmget_lookup (key : Key) (size : Nat) (excl : Bool) :
    (store.shmget key size false excl).2 = store := by
  unfold Store.shmget
  cases store.findShm key with
  | none => rfl
  | some id =>
      simp only [Bool.false_and, Bool.false_eq_true, if_false]
      split <;> rfl

theorem Store.findSem_eq_some_iff {key : Key} {id : IpcId} :
    store.findSem key = some id ↔
      id.key = key ∧ store.semGen key = id.generation ∧
        (store.sems id).isSome = true := by
  unfold Store.findSem
  constructor
  · intro found
    split at found
    · rename_i present
      cases found
      exact ⟨rfl, rfl, present⟩
    · cases found
  · rintro ⟨rfl, generation, present⟩
    rw [generation, if_pos present]

theorem Store.findShm_eq_some_iff {key : Key} {id : IpcId} :
    store.findShm key = some id ↔
      id.key = key ∧ store.shmGen key = id.generation ∧
        ∃ segment, store.shms id = some segment ∧ segment.dest = false := by
  unfold Store.findShm
  constructor
  · intro found
    split at found
    · rename_i segment present
      split at found
      · cases found
      · rename_i kept
        cases found
        exact ⟨rfl, rfl, segment, present, by simpa using kept⟩
    · cases found
  · rintro ⟨rfl, generation, segment, present, kept⟩
    rw [generation]
    simp [present, kept]

/-- The answer to a lookup by name. -/
def lookup : Option IpcId → Except Errno IpcId
  | some id => .ok id
  | none => .error .ENOENT

theorem Store.semget_found {key : Key} {excl : Bool} :
    (store.semget key 0 false excl).1 = lookup (store.findSem key) := by
  unfold Store.semget
  cases store.findSem key <;> simp [lookup]

theorem Store.shmget_found {key : Key} {excl : Bool} :
    (store.shmget key 0 false excl).1 = lookup (store.findShm key) := by
  unfold Store.shmget
  cases store.findShm key <;> simp [lookup]

theorem Store.semget_shms (key : Key) (nsems : Nat) (creat excl : Bool) :
    SameShms store (store.semget key nsems creat excl).2 := by
  unfold Store.semget
  repeat' split
  all_goals exact ⟨rfl, rfl⟩

theorem Store.shmget_sems (key : Key) (size : Nat) (creat excl : Bool) :
    SameSems store (store.shmget key size creat excl).2 := by
  unfold Store.shmget
  repeat' split
  all_goals exact ⟨rfl, rfl⟩

theorem Store.semctlSetall_shms (id : IpcId) (array : List UShort) :
    SameShms store (store.semctlSetall id array).2 := by
  unfold Store.semctlSetall
  repeat' split
  all_goals exact ⟨rfl, rfl⟩

theorem Store.semctlRmid_shms (id : IpcId) :
    SameShms store (store.semctlRmid id).2 := by
  unfold Store.semctlRmid
  split <;> exact ⟨rfl, rfl⟩

/-- The sets there are after `semget` are old ones, or nobody has used
them. -/
theorem Store.semget_sets {key : Key} {nsems : Nat} {creat excl : Bool}
    {id : IpcId} {set : SemSet}
    (found : (store.semget key nsems creat excl).2.sems id = some set) :
    store.sems id = some set ∨
      ∀ process semnum, set.semadj process semnum = 0 := by
  unfold Store.semget at found
  repeat' split at found
  all_goals try exact Or.inl found
  dsimp only at found
  by_cases fresh : id = store.nextSem key
  · rw [fresh, Function.update_self] at found
    cases found
    exact Or.inr fun _ _ => rfl
  · rw [Function.update_of_ne fresh] at found
    exact Or.inl found

/-- The same after `SETALL`. -/
theorem Store.semctlSetall_sets {target id : IpcId} {array : List UShort}
    {set : SemSet}
    (found : (store.semctlSetall target array).2.sems id = some set) :
    store.sems id = some set ∨
      ∀ process semnum, set.semadj process semnum = 0 := by
  unfold Store.semctlSetall at found
  repeat' split at found
  all_goals try exact Or.inl found
  dsimp only at found
  by_cases here : id = target
  · rw [here, setSem_sems, Function.update_self] at found
    cases found
    exact Or.inr fun _ _ => rfl
  · rw [setSem_sems, Function.update_of_ne here] at found
    exact Or.inl found

/-- After `IPC_RMID` all sets are old ones. -/
theorem Store.semctlRmid_sets {target id : IpcId} {set : SemSet}
    (found : (store.semctlRmid target).2.sems id = some set) :
    store.sems id = some set := by
  unfold Store.semctlRmid at found
  split at found
  · exact found
  · by_cases here : id = target
    · rw [here, setSem_sems, Function.update_self] at found
      cases found
    · rw [setSem_sems, Function.update_of_ne here] at found
      exact found

/-- Another content of a set with the same creation time. -/
theorem Store.setSem_ctime {target id : IpcId} {changed set : SemSet}
    (old : SemSet) (present : store.sems target = some old)
    (same : changed.sem_ctime = old.sem_ctime)
    (found : (store.setSem target (some changed)).sems id = some set) :
    ∃ before, store.sems id = some before ∧
      set.sem_ctime = before.sem_ctime := by
  by_cases here : id = target
  · rw [here, setSem_sems, Function.update_self] at found
    cases found
    exact ⟨old, by rw [here, present], same⟩
  · rw [setSem_sems, Function.update_of_ne here] at found
    exact ⟨set, found, rfl⟩

theorem Store.semop_ctime {after : Store} {outcome : Except Errno Unit}
    {target id : IpcId} {semNum : Nat} {semOp : Int}
    {undo nowait underWay : Bool} {set : SemSet}
    (served : store.semop process target semNum semOp undo nowait underWay =
      some (outcome, after)) (found : after.sems id = some set) :
    ∃ before, store.sems id = some before ∧
      set.sem_ctime = before.sem_ctime := by
  unfold semop at served
  repeat' split at served
  all_goals cases served
  all_goals first
    | exact ⟨set, found, rfl⟩
    | refine setSem_ctime ?old ?present ?same found
      case present => assumption
      case same => rfl

theorem Store.semop_shms {after : Store} {outcome : Except Errno Unit}
    {id : IpcId} {semNum : Nat} {semOp : Int} {undo nowait underWay : Bool}
    (served : store.semop process id semNum semOp undo nowait underWay =
      some (outcome, after)) :
    SameShms store after := by
  unfold Store.semop at served
  repeat' split at served
  all_goals cases served
  all_goals exact ⟨rfl, rfl⟩

theorem Store.semop_now {after : Store} {outcome : Except Errno Unit}
    {id : IpcId} {semNum : Nat} {semOp : Int} {undo nowait underWay : Bool}
    (served : store.semop process id semNum semOp undo nowait underWay =
      some (outcome, after)) :
    store.now ≤ after.now := by
  unfold Store.semop at served
  repeat' split at served
  all_goals cases served
  all_goals exact Int.le_refl _

theorem Store.semop_semGen {after : Store} {id : IpcId} {semNum : Nat} {semOp : Int}
    {undo nowait underWay : Bool} {outcome : Except Errno Unit}
    (served : store.semop process id semNum semOp undo nowait underWay =
      some (outcome, after)) : after.semGen = store.semGen := by
  unfold semop at served
  repeat' split at served
  all_goals cases served
  all_goals rfl

end Store

/-- A granted call that is no operation on semaphore sets spares them. -/
theorem grant_sameSems {process : Pid} {choice : Choice} {store after : Store}
    {call : Call} {answer : call.Answer} (spares : call.sparesSems = true)
    (granted : grant process choice store call = some (answer, after)) :
    SameSems store after := by
  induction call with
  | semget key nsems creat excl =>
      simp only [Call.sparesSems, Bool.not_eq_true'] at spares
      subst spares
      simp only [grant, Option.some.injEq] at granted
      have final : after = _ := (congrArg Prod.snd granted).symm
      rw [final, Store.semget_lookup]
      exact ⟨rfl, rfl⟩
  | semctlSetall id array => cases spares
  | semctlRmid id => cases spares
  | semop id semNum semOp undo nowait => cases spares
  | shmget key size creat excl =>
      simp only [grant, Option.some.injEq] at granted
      have final : after = _ := (congrArg Prod.snd granted).symm
      rw [final]
      exact Store.shmget_sems key size creat excl
  | shmat id =>
      simp only [grant, Option.some.injEq] at granted
      have final : after = _ := (congrArg Prod.snd granted).symm
      rw [final]
      unfold Store.shmat
      split <;> exact ⟨rfl, rfl⟩
  | shmdt addr =>
      simp only [grant, Option.some.injEq] at granted
      have final : after = _ := (congrArg Prod.snd granted).symm
      rw [final]
      unfold Store.shmdt
      split <;> exact ⟨rfl, rfl⟩
  | shmctlRmid id =>
      simp only [grant, Option.some.injEq] at granted
      have final : after = _ := (congrArg Prod.snd granted).symm
      rw [final]
      unfold Store.shmctlRmid
      split <;> exact ⟨rfl, rfl⟩
  | memset addr n =>
      simp only [grant, Option.some.injEq] at granted
      have final : after = _ := (congrArg Prod.snd granted).symm
      rw [final]
      unfold Store.memset
      repeat' split
      all_goals exact ⟨rfl, rfl⟩
  | store addr offset value =>
      simp only [grant, Option.some.injEq] at granted
      have final : after = _ := (congrArg Prod.snd granted).symm
      rw [final]
      unfold Store.storeWord
      split <;> exact ⟨rfl, rfl⟩
  | vsnprintf addr offset n text =>
      simp only [grant, Option.some.injEq] at granted
      have final : after = _ := (congrArg Prod.snd granted).symm
      rw [final]
      unfold Store.vsnprintf
      dsimp only
      repeat' split
      all_goals exact ⟨rfl, rfl⟩
  | die cause => cases granted
  | interruptible call ih =>
      simp only [grant] at granted
      split at granted
      · have final : after = _ := (congrArg Prod.snd (Option.some.inj granted)).symm
        rw [final]
        exact ⟨rfl, rfl⟩
      · rcases Option.map_eq_some_iff.mp granted with ⟨⟨_, _⟩, inner, same⟩
        cases same
        exact ih spares inner
  | sleep seconds =>
      have final : after = _ := (congrArg Prod.snd (Option.some.inj granted)).symm
      rw [final]
      exact ⟨rfl, rfl⟩
  | _ =>
      have final : after = _ := (congrArg Prod.snd (Option.some.inj granted)).symm
      rw [final]
      exact ⟨rfl, rfl⟩

/-- A granted call that is no operation on segments spares them. -/
theorem grant_sameShms {process : Pid} {choice : Choice} {store after : Store}
    {call : Call} {answer : call.Answer} (spares : call.sparesShms = true)
    (granted : grant process choice store call = some (answer, after)) :
    SameShms store after := by
  induction call with
  | semget key nsems creat excl =>
      simp only [grant, Option.some.injEq] at granted
      have final : after = _ := (congrArg Prod.snd granted).symm
      rw [final]
      exact Store.semget_shms key nsems creat excl
  | semctlSetall id array =>
      simp only [grant, Option.some.injEq] at granted
      have final : after = _ := (congrArg Prod.snd granted).symm
      rw [final]
      exact Store.semctlSetall_shms id array
  | semctlRmid id =>
      simp only [grant, Option.some.injEq] at granted
      have final : after = _ := (congrArg Prod.snd granted).symm
      rw [final]
      exact Store.semctlRmid_shms id
  | semop id semNum semOp undo nowait => exact Store.semop_shms granted
  | shmget key size creat excl =>
      simp only [Call.sparesShms, Bool.not_eq_true'] at spares
      subst spares
      simp only [grant, Option.some.injEq] at granted
      have final : after = _ := (congrArg Prod.snd granted).symm
      rw [final, Store.shmget_lookup]
      exact ⟨rfl, rfl⟩
  | shmat id => cases spares
  | shmdt addr => cases spares
  | shmctlRmid id => cases spares
  | memset addr n => cases spares
  | store addr offset value => cases spares
  | vsnprintf addr offset n text => cases spares
  | die cause => cases granted
  | interruptible call ih =>
      simp only [grant] at granted
      split at granted
      · have final : after = _ := (congrArg Prod.snd (Option.some.inj granted)).symm
        rw [final]
        exact ⟨rfl, rfl⟩
      · rcases Option.map_eq_some_iff.mp granted with ⟨⟨_, _⟩, inner, same⟩
        cases same
        exact ih spares inner
  | _ =>
      have final : after = _ := (congrArg Prod.snd (Option.some.inj granted)).symm
      rw [final]
      exact ⟨rfl, rfl⟩

section Kernel

variable {admits : Choice → Prop} {process : Pid} {call : Call}
variable {answer : call.Answer} {store after : Store}

/-- Time passes, and the call is refused or granted. -/
theorem exec_cases
    (exec : (kernel admits).exec process call store answer after) :
    ∃ choice, admits choice ∧
      ((∃ errno, call.refused errno = some answer ∧
          after = store.advance choice.tick) ∨
        grant process choice (store.advance choice.tick) call =
          some (answer, after)) := by
  rcases exec with ⟨choice, admitted, served⟩
  refine ⟨choice, admitted, ?_⟩
  unfold serve at served
  split at served
  · rename_i refusal refused
    cases served
    rcases Option.bind_eq_some_iff.mp refused with ⟨errno, _, isRefusal⟩
    exact Or.inl ⟨errno, isRefusal, rfl⟩
  · exact Or.inr served

/-- Whatever is refused, a call that is no operation on semaphore sets spares
them. -/
theorem exec_sameSems (spares : call.sparesSems = true)
    (exec : (kernel admits).exec process call store answer after) :
    SameSems store after := by
  rcases exec with ⟨choice, _, served⟩
  unfold serve at served
  split at served
  · have final : after = _ := (congrArg Prod.snd (Option.some.inj served)).symm
    rw [final]
    exact ⟨rfl, rfl⟩
  · have same := grant_sameSems spares served
    exact same

/-- Whatever is refused, a call that is no operation on segments spares
them. -/
theorem exec_sameShms (spares : call.sparesShms = true)
    (exec : (kernel admits).exec process call store answer after) :
    SameShms store after := by
  rcases exec with ⟨choice, _, served⟩
  unfold serve at served
  split at served
  · have final : after = _ := (congrArg Prod.snd (Option.some.inj served)).symm
    rw [final]
    exact ⟨rfl, rfl⟩
  · have same := grant_sameShms spares served
    exact same

/-- Calls that set no creation time. -/
def Call.keepsTimes : Call → Bool
  | .semget _ _ creat _ => !creat
  | .semctlSetall .. => false
  | .interruptible _ => false
  | _ => true

/-- Such a call makes no set, and the sets keep their creation times. -/
theorem exec_ctime {id : IpcId} {set : SemSet}
    (keeps : call.keepsTimes = true)
    (exec : (kernel admits).exec process call store answer after)
    (found : after.sems id = some set) :
    ∃ before, store.sems id = some before ∧
      set.sem_ctime = before.sem_ctime := by
  by_cases spares : call.sparesSems = true
  · rw [(exec_sameSems spares exec).1] at found
    exact ⟨set, found, rfl⟩
  rcases exec_cases exec with ⟨choice, _, ⟨errno, _, rfl⟩ | granted⟩
  · exact ⟨set, found, rfl⟩
  cases call with
  | semctlRmid target =>
      have final : after = _ :=
        (congrArg Prod.snd (Option.some.inj granted)).symm
      rw [final] at found
      have old : (store.advance choice.tick).sems id = some set :=
        Store.semctlRmid_sets found
      exact ⟨set, old, rfl⟩
  | semop target semNum semOp undo nowait =>
      rcases Store.semop_ctime granted found with ⟨before, isBefore, same⟩
      exact ⟨before, isBefore, same⟩
  | semget name nsems creat excl => exact absurd keeps spares
  | semctlSetall target array => cases keeps
  | interruptible call => cases keeps
  | _ => exact absurd rfl spares

/-- The sets there are after `semget` are old ones, or it has made one. -/
theorem exec_semget_set {name : Key} {nsems : Nat} {creat excl : Bool}
    {made : Except Errno IpcId} {id : IpcId} {set : SemSet}
    (exec : (kernel admits).exec process (.semget name nsems creat excl) store
      made after) (found : after.sems id = some set) :
    store.sems id = some set ∨ made = .ok id ∧ id.key = name := by
  rcases exec_cases exec with ⟨choice, _, ⟨errno, _, rfl⟩ | granted⟩
  · exact Or.inl found
  simp only [grant, Store.semget, Option.some.injEq] at granted
  repeat' split at granted
  all_goals cases granted
  all_goals try exact Or.inl found
  dsimp only at found
  by_cases fresh : id = (store.advance choice.tick).nextSem name
  · exact Or.inr ⟨by rw [fresh], by rw [fresh]; rfl⟩
  · rw [Function.update_of_ne fresh] at found
    exact Or.inl found

/-- The sets there are after `SETALL` are old ones, but for the one it has
filled. -/
theorem exec_semctlSetall_set {target : IpcId} {array : List UShort}
    {filled : Except Errno Unit} {id : IpcId} {set : SemSet}
    (exec : (kernel admits).exec process (.semctlSetall target array) store
      filled after) (found : after.sems id = some set) :
    store.sems id = some set ∨
      id = target ∧ filled = .ok () ∧ (store.sems id).isSome = true := by
  rcases exec_cases exec with ⟨choice, _, ⟨errno, _, rfl⟩ | granted⟩
  · exact Or.inl found
  simp only [grant, Store.semctlSetall, Option.some.injEq] at granted
  repeat' split at granted
  all_goals cases granted
  all_goals try exact Or.inl found
  rename_i old present _
  by_cases here : id = target
  · refine Or.inr ⟨here, rfl, ?_⟩
    rw [here]
    exact Option.isSome_iff_exists.mpr ⟨old, present⟩
  · rw [Store.setSem_sems, Function.update_of_ne here] at found
    exact Or.inl found

/-- `IPC_STAT` on a set that exists gives its creation time. -/
theorem exec_semctlStat {id : IpcId} {set : SemSet} {ds : SemidDs}
    (exec : (kernel admits).exec process (.semctlStat id) store ds after)
    (found : store.sems id = some set) : ds.sem_ctime = set.sem_ctime := by
  rcases exec_cases exec with ⟨choice, _, ⟨errno, refused, _⟩ | granted⟩
  · cases refused
  · have present : (store.advance choice.tick).sems id = some set := found
    simp only [grant, present, Option.elim_some, Option.some.injEq] at granted
    cases granted
    rfl

/-- The end of a process keeps the creation times. -/
theorem Store.leave_ctime {id : IpcId} {set : SemSet}
    (found : (store.leave process).sems id = some set) :
    ∃ before, store.sems id = some before ∧
      set.sem_ctime = before.sem_ctime := by
  rcases Option.map_eq_some_iff.mp found with ⟨before, isBefore, rfl⟩
  exact ⟨before, isBefore, rfl⟩

end Kernel

/-! ## The clock -/

/-- Time does not go back while a call is served. -/
theorem grant_now {process : Pid} {choice : Choice} {store after : Store}
    {call : Call} {answer : call.Answer}
    (granted : grant process choice store call = some (answer, after)) :
    store.now ≤ after.now := by
  have final : ∀ {result : call.Answer × Store},
      some result = some (answer, after) → result.2.now = store.now →
        store.now ≤ after.now := by
    rintro result ⟨⟩ same
    exact Int.le_of_eq same.symm
  induction call with
  | semget key nsems creat excl =>
      refine final granted ?_
      unfold Store.semget
      repeat' split
      all_goals rfl
  | semctlSetall id array =>
      refine final granted ?_
      unfold Store.semctlSetall
      repeat' split
      all_goals rfl
  | semctlRmid id =>
      refine final granted ?_
      unfold Store.semctlRmid
      split <;> rfl
  | semop id semNum semOp undo nowait => exact Store.semop_now granted
  | shmget key size creat excl =>
      refine final granted ?_
      unfold Store.shmget
      repeat' split
      all_goals rfl
  | shmat id =>
      refine final granted ?_
      unfold Store.shmat
      split <;> rfl
  | shmdt addr =>
      refine final granted ?_
      unfold Store.shmdt
      split <;> rfl
  | shmctlRmid id =>
      refine final granted ?_
      unfold Store.shmctlRmid
      split <;> rfl
  | memset addr n =>
      refine final granted ?_
      unfold Store.memset
      repeat' split
      all_goals rfl
  | store addr offset value =>
      refine final granted ?_
      unfold Store.storeWord
      split <;> rfl
  | vsnprintf addr offset n text =>
      refine final granted ?_
      unfold Store.vsnprintf
      dsimp only
      repeat' split
      all_goals rfl
  | sleep seconds =>
      have isAfter : after = store.advance seconds :=
        (congrArg Prod.snd (Option.some.inj granted)).symm
      rw [isAfter]
      exact Store.now_le_advance seconds
  | die cause => cases granted
  | interruptible call ih =>
      simp only [grant] at granted
      split at granted
      · exact final granted rfl
      · rcases Option.map_eq_some_iff.mp granted with ⟨⟨_, _⟩, inner, same⟩
        cases same
        refine ih inner ?_
        rintro result ⟨⟩ same
        exact Int.le_of_eq same.symm
  | _ => exact final granted rfl

theorem exec_now {admits : Choice → Prop} {process : Pid} {call : Call}
    {answer : call.Answer} {store after : Store}
    (exec : (kernel admits).exec process call store answer after) :
    store.now ≤ after.now := by
  rcases exec_cases exec with ⟨choice, _, ⟨errno, _, rfl⟩ | granted⟩
  · exact Store.now_le_advance choice.tick
  · exact Int.le_trans (Store.now_le_advance choice.tick) (grant_now granted)

/-- `time` gives the clock. -/
theorem exec_time {admits : Choice → Prop} {process : Pid} {now : Time}
    {store after : Store}
    (exec : (kernel admits).exec process .time store now after) :
    now = after.now := by
  rcases exec_cases exec with ⟨choice, _, ⟨errno, refused, _⟩ | granted⟩
  · cases refused
  · cases granted
    rfl

section Granting

variable {process : Pid} {store after : Store} {name : Key} {excl : Bool}

theorem granting_semget {found : Except Errno IpcId}
    (exec : granting.exec process (.semget name 0 false excl) store found
      after) : found = lookup (store.findSem name) := by
  rcases granting_exec_iff.mp exec with ⟨choice, _, _, granted⟩
  have answered := congrArg Prod.fst (Option.some.inj granted)
  rw [← show _ = found from answered]
  exact Store.semget_found

theorem granting_shmget {found : Except Errno IpcId}
    (exec : granting.exec process (.shmget name 0 false excl) store found
      after) : found = lookup (store.findShm name) := by
  rcases granting_exec_iff.mp exec with ⟨choice, _, _, granted⟩
  have answered := congrArg Prod.fst (Option.some.inj granted)
  rw [← show _ = found from answered]
  exact Store.shmget_found

theorem granting_getval {id : IpcId} {semnum : Nat}
    {value : Except Errno Nat}
    (exec : granting.exec process (.semctlGetval id semnum) store value
      after) : value = store.semctlGetval id semnum := by
  rcases granting_exec_iff.mp exec with ⟨choice, _, _, granted⟩
  have answered := congrArg Prod.fst (Option.some.inj granted)
  exact answered.symm

theorem granting_load {addr : Addr} {offset : Nat} {word : Option UInt}
    (exec : granting.exec process (.load addr offset) store word after) :
    word = store.load process addr offset := by
  rcases granting_exec_iff.mp exec with ⟨choice, _, _, granted⟩
  have answered := congrArg Prod.fst (Option.some.inj granted)
  exact answered.symm

end Granting

end Atomicles
