import Atomicles.Kernel.Memory
import Atomicles.Kernel.Mutex

/-!
# Processes that have left no trace in the store

A process without pending adjustments and without mappings ends without a
trace.  The calls of other processes keep it so, and a call that is served now
is served as well when time has passed.
-/

namespace Atomicles

open Interaction

/-- The end of a process would leave the set as it is. -/
structure SemSet.Idle (process : Pid) (set : SemSet) : Prop where
  steady : ∀ index, set.semadj process index = 0
  legal : ∀ semval ∈ set.semvals, semval ≤ SEMVMX

/-- The end of a process would leave the segment as it is. -/
structure Segment.Idle (process : Pid) (segment : Segment) : Prop where
  unmapped : process ∉ segment.attached
  wanted : segment.dest = true → segment.attached ≠ []

/-- The end of a process would leave the store as it is. -/
structure Idle (process : Pid) (store : Store) : Prop where
  sems : ∀ id set, store.sems id = some set → set.Idle process
  shms : ∀ id segment, store.shms id = some segment → segment.Idle process

section Leave

variable {store : Store} {process : Pid}

theorem idle_empty {now : Time} : Idle process (.empty now) :=
  ⟨nofun, nofun⟩

theorem Idle.advance (idle : Idle process store) (seconds : Nat) :
    Idle process (store.advance seconds) :=
  ⟨idle.sems, idle.shms⟩

theorem SemSet.Idle.leave {set : SemSet} (idle : set.Idle process) :
    { set with
      semvals := set.semvals.mapIdx fun index semval =>
        Store.adjusted semval (set.semadj process index)
      semadj := Function.update set.semadj process fun _ => 0 } = set := by
  have values : (set.semvals.mapIdx fun index semval =>
      Store.adjusted semval (set.semadj process index)) = set.semvals := by
    apply List.ext_getElem (List.length_mapIdx ..)
    intro index _ inside
    have legal := idle.legal _ (List.getElem_mem inside)
    simp [idle.steady, Store.adjusted, legal]
  have adjustments : (Function.update set.semadj process fun _ => 0) =
      set.semadj := by
    rw [Function.update_eq_self_iff]
    exact (funext idle.steady).symm
  rw [values, adjustments]

theorem Segment.Idle.leave {segment : Segment} (idle : segment.Idle process) :
    Store.keepMapped segment (segment.attached.filter (· ≠ process)) =
      some segment := by
  have others : segment.attached.filter (· ≠ process) = segment.attached := by
    rw [List.filter_eq_self]
    intro other mapped
    rw [decide_eq_true_iff]
    rintro rfl
    exact idle.unmapped mapped
  have stays : ¬ (segment.dest = true ∧ segment.attached = []) :=
    fun unwanted => idle.wanted unwanted.1 unwanted.2
  rw [others, Store.keepMapped, if_neg stays]

theorem Idle.leave (idle : Idle process store) :
    store.leave process = store := by
  have sems : (store.leave process).sems = store.sems := by
    funext id
    cases found : store.sems id with
    | none => simp [Store.leave, found]
    | some set =>
        have same := (idle.sems id set found).leave
        simp only [Store.leave, found, Option.map_some]
        rw [same]
  have shms : (store.leave process).shms = store.shms := by
    funext id
    cases found : store.shms id with
    | none => simp [Store.leave, found]
    | some segment =>
        have same := (idle.shms id segment found).leave
        simp only [Store.leave, found, Option.bind_some]
        rw [same]
  calc store.leave process
      = { store with
          sems := (store.leave process).sems
          shms := (store.leave process).shms } := rfl
    _ = store := by rw [sems, shms]

end Leave

/-! ## The calls of other processes -/

section Calls

variable {store after : Store} {process other : Pid} {id : IpcId}

theorem idle_replicate {nsems : Nat} {now : Time} :
    SemSet.Idle other ⟨List.replicate nsems 0, fun _ _ => 0, now⟩ where
  steady := fun _ => rfl
  legal := by
    intro semval member
    rw [List.eq_of_mem_replicate member]
    exact Nat.zero_le _

theorem setSem_idle {target : IpcId} {changed : SemSet}
    (idle : ∀ id set, store.sems id = some set → set.Idle other)
    (still : changed.Idle other) :
    ∀ id set, (store.setSem target (some changed)).sems id = some set →
      set.Idle other := by
  intro id set found
  rw [Store.setSem_sems] at found
  by_cases same : id = target
  · rw [same, Function.update_self] at found
    cases found
    exact still
  · rw [Function.update_of_ne same] at found
    exact idle id set found

theorem SemSet.Idle.operate {set : SemSet} (idle : set.Idle other)
    (different : other ≠ process) {semNum semval : Nat} {semOp : Int}
    {undo : Bool} (small : (semval : Int) + semOp ≤ SEMVMX) :
    (set.operate process semNum semOp undo semval).Idle other where
  steady := by
    intro index
    cases undo with
    | false => exact idle.steady index
    | true =>
        simp only [SemSet.operate, if_true, Function.update_of_ne different]
        exact idle.steady index
  legal := by
    intro value member
    rcases List.mem_or_eq_of_mem_set member with old | rfl
    · exact idle.legal value old
    · omega

/-- The end of one process leaves no trace of another one. -/
theorem Idle.after_leave (idle : Idle other store) :
    Idle other (store.leave process) where
  sems := by
    intro id set found
    rcases Option.map_eq_some_iff.mp found with ⟨before, isBefore, rfl⟩
    have still := idle.sems id before isBefore
    constructor
    · intro index
      by_cases same : other = process
      · simp [same]
      · simp only [Function.update_of_ne same]
        exact still.steady index
    · intro semval member
      rcases List.mem_mapIdx.mp member with ⟨index, inside, rfl⟩
      exact Nat.min_le_left _ _
  shms := by
    intro id segment found
    rcases Option.bind_eq_some_iff.mp found with ⟨before, isBefore, kept⟩
    have still := idle.shms id before isBefore
    unfold Store.keepMapped at kept
    split at kept
    · cases kept
    · rename_i stays
      cases kept
      exact ⟨fun mapped => still.unmapped ((List.mem_filter.mp mapped).1),
        fun marked none => stays ⟨marked, none⟩⟩

/-- A call of one process leaves no trace of another one in the sets. -/
theorem exec_idle_sems {admits : Choice → Prop} {call : Call}
    {answer : call.Answer} (different : other ≠ process)
    (known : ∀ inner, call ≠ .interruptible inner)
    (exec : (kernel admits).exec process call store answer after)
    (idle : ∀ id set, store.sems id = some set → set.Idle other) :
    ∀ id set, after.sems id = some set → set.Idle other := by
  by_cases spares : call.sparesSems = true
  · rw [(exec_sameSems spares exec).1]
    exact idle
  rcases exec_cases exec with ⟨choice, _, ⟨errno, _, rfl⟩ | granted⟩
  · exact idle
  cases call with
  | semget name nsems creat excl =>
      simp only [grant, Store.semget, Option.some.injEq] at granted
      repeat' split at granted
      all_goals cases granted
      all_goals try exact idle
      exact setSem_idle idle idle_replicate
  | semctlSetall target array =>
      simp only [grant, Store.semctlSetall, Option.some.injEq] at granted
      repeat' split at granted
      all_goals cases granted
      all_goals try exact idle
      rename_i legal
      apply setSem_idle idle
      constructor
      · exact fun _ => rfl
      · intro semval member
        rcases List.mem_map.mp member with ⟨value, among, rfl⟩
        simp only [List.any_eq_true, not_exists, not_and, decide_eq_true_eq,
          Nat.not_lt] at legal
        exact legal value among
  | semctlRmid target =>
      have final : after = _ :=
        (congrArg Prod.snd (Option.some.inj granted)).symm
      rw [final]
      intro id set found
      have old : (store.advance choice.tick).sems id = some set :=
        Store.semctlRmid_sets found
      exact idle id set old
  | semop target semNum semOp undo nowait =>
      have served : (store.advance choice.tick).semop process target semNum
        semOp undo nowait choice.underWay = some (answer, after) := granted
      unfold Store.semop at served
      split at served
      · cases served
        exact idle
      · rename_i set found
        split at served
        · cases served
          exact idle
        · split at served
          · split at served
            · cases served
              exact idle
            · cases served
          · split at served
            · cases served
              exact idle
            · rename_i small
              split at served
              · cases served
                exact idle
              · cases served
                exact setSem_idle idle ((idle _ _ found).operate different
                  (Int.not_lt.mp small))
  | interruptible call => exact absurd rfl (known call)
  | _ => exact absurd rfl spares

theorem Segment.Idle.changes {segment changed : Segment} {call : Call}
    (idle : segment.Idle other) (different : other ≠ process)
    (changes : call.Changes process id segment (some changed)) :
    changed.Idle other := by
  generalize isChanged : some changed = result at changes
  cases changes with
  | attach =>
      cases isChanged
      exact ⟨by simp [different, idle.unmapped], fun _ => by simp⟩
  | detach =>
      unfold Store.keepMapped at isChanged
      split at isChanged
      · cases isChanged
      · rename_i kept
        cases isChanged
        exact ⟨fun mapped => idle.unmapped (List.mem_of_mem_erase mapped),
          fun marked none => kept ⟨marked, none⟩⟩
  | mark =>
      unfold Store.keepMapped at isChanged
      split at isChanged
      · cases isChanged
      · rename_i kept
        cases isChanged
        exact ⟨idle.unmapped, fun marked none => kept ⟨marked, none⟩⟩
  | clear =>
      cases isChanged
      exact ⟨idle.unmapped, idle.wanted⟩
  | write =>
      cases isChanged
      exact ⟨idle.unmapped, idle.wanted⟩

/-- A call of one process leaves no trace of another one. -/
theorem exec_idle {admits : Choice → Prop} {call : Call}
    {answer : call.Answer} (different : other ≠ process)
    (words : call.writesBytes = false)
    (exec : (kernel admits).exec process call store answer after)
    (idle : Idle other store) : Idle other after := by
  have known : ∀ inner, call ≠ .interruptible inner := by
    rintro inner rfl
    cases words
  refine ⟨exec_idle_sems different known exec idle.sems, ?_⟩
  rcases exec_segments words exec with
    same | ⟨key, size, excl, tick, _, rfl⟩ |
      ⟨target, before, changed, tick, found, rfl, changes⟩
  · rw [same.1]
    exact idle.shms
  · intro id segment found
    unfold Store.shmget at found
    repeat' split at found
    all_goals try exact idle.shms id segment found
    dsimp only at found
    by_cases fresh : id = (store.advance tick).nextShm key
    · rw [fresh, Function.update_self] at found
      cases found
      exact ⟨by simp, nofun⟩
    · rw [Function.update_of_ne fresh] at found
      exact idle.shms id segment found
  · intro id segment present
    rw [Store.setShm_shms] at present
    by_cases same : id = target
    · rw [same, Function.update_self] at present
      subst present
      exact (idle.shms target before found).changes different changes
    · rw [Function.update_of_ne same] at present
      exact idle.shms id segment present

/-! ## Calls at a later time -/

theorem grant_tick {choice : Choice} {call : Call} {tick : Nat} :
    grant process { choice with tick } store call =
      grant process choice store call := by
  induction call with
  | interruptible call ih => simp only [grant, ih]
  | _ => rfl

theorem grant_isSome_advance {choice : Choice} {call : Call}
    {seconds : Nat} :
    (grant process choice (store.advance seconds) call).isSome =
      (grant process choice store call).isSome := by
  induction call with
  | semop target semNum semOp undo nowait =>
      simp only [grant, Store.semop, Store.advance_sems]
      repeat' split
      all_goals rfl
  | interruptible call ih =>
      simp only [grant]
      split
      · rfl
      · rw [Option.isSome_map, Option.isSome_map, ih]
  | _ => rfl

/-- What a call does later it can do now, by waiting for that time. -/
theorem granting_absorb {call : Call} {answer : call.Answer} {seconds : Nat}
    (exec : granting.exec process call (store.advance seconds) answer after) :
    granting.exec process call store answer after := by
  rcases granting_exec_iff.mp exec with ⟨choice, memory, unrefused, granted⟩
  refine granting_exec_iff.mpr
    ⟨{ choice with tick := seconds + choice.tick }, memory, unrefused, ?_⟩
  rw [Store.advance_advance] at granted
  rw [grant_tick]
  exact granted

/-- A call that is served now is served later. -/
theorem granting_later {call : Call} (seconds : Nat)
    (served : ∃ answer after, granting.exec process call store answer after) :
    ∃ answer after,
      granting.exec process call (store.advance seconds) answer after := by
  rcases served with ⟨answer, after, exec⟩
  rcases granting_exec_iff.mp exec with ⟨choice, memory, unrefused, granted⟩
  have now := congrArg Option.isSome granted
  rw [grant_isSome_advance] at now
  have isSome : (grant process choice ((store.advance seconds).advance
      choice.tick) call).isSome = true := by
    rw [grant_isSome_advance, grant_isSome_advance]
    exact now
  rcases Option.isSome_iff_exists.mp isSome with ⟨⟨answer, after⟩, granted⟩
  exact ⟨answer, after,
    granting_exec_iff.mpr ⟨choice, memory, unrefused, granted⟩⟩

end Calls

/-! ## Calls that are answered at any time -/

/-- The calls that may wait, or have no answer. -/
def Call.Waits : Call → Prop
  | .semop .. => True
  | .die _ => True
  | .interruptible _ => True
  | _ => False

theorem exec_of_not_waits (process : Pid) (call : Call) (store : Store)
    (prompt : ¬ Call.Waits call) :
    ∃ answer after, granting.exec process call store answer after := by
  have granted : ∃ answer after,
      grant process {} (store.advance 0) call = some (answer, after) := by
    cases call with
    | semop _ _ _ _ _ => exact absurd trivial prompt
    | die _ => exact absurd trivial prompt
    | interruptible _ => exact absurd trivial prompt
    | _ => exact ⟨_, _, rfl⟩
  rcases granted with ⟨answer, after, served⟩
  exact ⟨answer, after, granting_exec_iff.mpr ⟨{}, rfl, rfl, served⟩⟩

end Atomicles
