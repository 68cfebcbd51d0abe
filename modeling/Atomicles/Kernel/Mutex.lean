import Atomicles.Kernel.Frame

/-!
# A set of one semaphore as a mutex

The abstract mutex that a set of one semaphore stands for, and what the calls
on such a set do to it.  Between `semget` and `SETALL` the set exists with the
value 0, so it is a mutex that nobody can take yet.  The unit of a mutex is
either in the semaphore or pending as the undo adjustment of its holder.
-/

namespace Atomicles

open Interaction

section Semop

variable {store : Store} {process : Pid} {id : IpcId} {semNum : Nat}
variable {semOp : Int} {undo nowait underWay : Bool} {set : SemSet}
variable (semval : Nat)

/-- The set after an operation that went ahead. -/
def SemSet.operate (set : SemSet) (process : Pid) (semNum : Nat) (semOp : Int)
    (undo : Bool) (semval : Nat) : SemSet :=
  { set with
    semvals := set.semvals.set semNum ((semval : Int) + semOp).toNat
    semadj :=
      if undo then
        Function.update set.semadj process
          (Function.update (set.semadj process) semNum
            (set.semadj process semNum - semOp))
      else set.semadj }

/-- An operation goes ahead if the value and the adjustment stay in range. -/
theorem Store.semop_proceeds (found : store.sems id = some set)
    (value : set.semvals[semNum]? = some semval)
    (enough : 0 ≤ (semval : Int) + semOp)
    (small : (semval : Int) + semOp ≤ SEMVMX)
    (adjustable : undo = true → set.semadj process semNum - semOp ≤ SEMAEM ∧
      -SEMAEM - 1 ≤ set.semadj process semNum - semOp) :
    store.semop process id semNum semOp undo nowait underWay =
      some (.ok (), store.setSem id
        (some (set.operate process semNum semOp undo semval))) := by
  have inRange : (undo && (decide (SEMAEM < set.semadj process semNum - semOp) ||
      decide (set.semadj process semNum - semOp < -SEMAEM - 1))) = false := by
    cases undo with
    | false => rfl
    | true =>
        have bounds := adjustable rfl
        simp only [Bool.true_and, Bool.or_eq_false_iff,
          decide_eq_false_iff_not]
        omega
  simp only [Store.semop, found, value, Int.not_lt.mpr enough, Int.not_lt.mpr small,
    inRange, Bool.false_eq_true, if_false]
  rfl

/-- An operation that would make the value negative waits, or is told so. -/
theorem Store.semop_short (found : store.sems id = some set)
    (value : set.semvals[semNum]? = some semval)
    (short : (semval : Int) + semOp < 0) :
    store.semop process id semNum semOp undo nowait underWay =
      if nowait then some (.error .EAGAIN, store) else none := by
  simp only [Store.semop, found, value, short, if_true]

/-- An operation that is answered fails without a trace or goes ahead. -/
theorem Store.semop_cases {after : Store} {outcome : Except Errno Unit}
    (served : store.semop process id semNum semOp undo nowait underWay =
      some (outcome, after)) :
    (∃ errno, outcome = .error errno ∧ after = store) ∨
      (outcome = .ok () ∧ ∃ set semval, store.sems id = some set ∧
        set.semvals[semNum]? = some semval ∧
        after = store.setSem id
          (some (set.operate process semNum semOp undo semval))) := by
  unfold Store.semop at served
  split at served
  · cases served
    exact Or.inl ⟨_, rfl, rfl⟩
  · rename_i set found
    split at served
    · cases served
      exact Or.inl ⟨_, rfl, rfl⟩
    · rename_i semval value
      split at served
      · split at served
        · cases served
          exact Or.inl ⟨_, rfl, rfl⟩
        · cases served
      · split at served
        · cases served
          exact Or.inl ⟨_, rfl, rfl⟩
        · split at served
          · cases served
            exact Or.inl ⟨_, rfl, rfl⟩
          · cases served
            exact Or.inr ⟨rfl, set, semval, found, value, rfl⟩

end Semop

/-- The life of a mutex: no set, a set whose value was never set, a unit to
take, and a unit some process holds. -/
inductive MutexState where
  | absent
  | raw (maker : Pid)
  | free
  | held (holder : Pid)
deriving DecidableEq

namespace MutexState

/-- The value of the semaphore. -/
def units : MutexState → Nat
  | .free => 1
  | _ => 0

/-- The undo adjustment of a process. -/
def adjustment (mutex : MutexState) (process : Pid) : Int :=
  if mutex = .held process then 1 else 0

/-- What the end of a process does to a mutex. -/
def leave (process : Pid) (mutex : MutexState) : MutexState :=
  if mutex = .held process then .free else mutex

@[simp]
theorem leave_absent {process : Pid} : leave process .absent = .absent :=
  rfl

@[simp]
theorem leave_eq_absent_iff {process : Pid} {mutex : MutexState} :
    leave process mutex = .absent ↔ mutex = .absent := by
  cases mutex with
  | held holder =>
      by_cases same : holder = process <;> simp [leave, same]
  | _ => simp [leave]

@[simp]
theorem leave_eq_held_iff {process holder : Pid} {mutex : MutexState} :
    leave process mutex = .held holder ↔
      mutex = .held holder ∧ holder ≠ process := by
  by_cases same : mutex = .held process
  · subst same
    simp only [leave, if_true, reduceCtorEq, held.injEq, ne_eq, false_iff,
      not_and, not_not]
    exact Eq.symm
  · simp only [leave, same, if_false, ne_eq, iff_self_and]
    rintro rfl rfl
    exact same rfl

/-- What a call of `process` can do to a mutex. -/
inductive Moves (process : Pid) : MutexState → MutexState → Prop where
  | stay (mutex : MutexState) : Moves process mutex mutex
  | make : Moves process .absent (.raw process)
  | arm : Moves process (.raw process) .free
  | take : Moves process .free (.held process)
  | give : Moves process (.held process) .free

/-- The mutex has been given its unit. -/
def Armed (mutex : MutexState) : Prop :=
  mutex = .free ∨ ∃ holder, mutex = .held holder

namespace Moves

variable {process other : Pid} {before after : MutexState}

/-- Nobody takes or releases the unit for another process. -/
theorem held_other (moves : Moves process before after)
    (different : other ≠ process) :
    after = .held other ↔ before = .held other := by
  cases moves <;> simp [Ne.symm different]

theorem raw_other (moves : Moves process before after)
    (different : other ≠ process) (isRaw : before = .raw other) :
    after = .raw other := by
  cases moves with
  | arm => simp [Ne.symm different] at isRaw
  | stay => exact isRaw
  | _ => cases isRaw

theorem present (moves : Moves process before after)
    (isPresent : before ≠ .absent) : after ≠ .absent := by
  cases moves with
  | stay => exact isPresent
  | make => exact absurd rfl isPresent
  | _ => simp

theorem armed (moves : Moves process before after) (armed : before.Armed) :
    after.Armed := by
  cases moves with
  | stay => exact armed
  | make => simp [Armed] at armed
  | _ => simp [Armed]

end Moves

theorem Armed.leave {process : Pid} {mutex : MutexState}
    (armed : mutex.Armed) : (mutex.leave process).Armed := by
  rcases armed with rfl | ⟨holder, rfl⟩
  · exact Or.inl rfl
  · by_cases same : holder = process <;> simp [MutexState.leave, Armed, same]

end MutexState

/-- The semaphore set `id` is in the state of `mutex`. -/
structure Represents (id : IpcId) (mutex : MutexState) (store : Store) :
    Prop where
  absent : mutex = .absent → store.sems id = none
  present : mutex ≠ .absent → ∃ set, store.sems id = some set ∧
    set.semvals = [mutex.units] ∧
      ∀ process, set.semadj process 0 = mutex.adjustment process

namespace Represents

variable {id : IpcId} {mutex : MutexState} {store after : Store}
variable {process : Pid} {underWay : Bool}

theorem of_same (represents : Represents id mutex store)
    (same : after.sems id = store.sems id) : Represents id mutex after where
  absent := fun isAbsent => same.trans (represents.absent isAbsent)
  present := fun isPresent => by
    rw [same]
    exact represents.present isPresent

theorem of_set {set : SemSet} (isPresent : mutex ≠ .absent)
    (values : set.semvals = [mutex.units])
    (adjustments : ∀ process,
      set.semadj process 0 = mutex.adjustment process) :
    Represents id mutex (store.setSem id (some set)) where
  absent := fun isAbsent => absurd isAbsent isPresent
  present := fun _ => ⟨set, by simp, values, adjustments⟩

/-- `semop(-1)` with `SEM_UNDO` waits until the unit is free, and takes it. -/
theorem take {outcome : Except Errno Unit}
    (represents : Represents id mutex store) (isPresent : mutex ≠ .absent)
    (served : store.semop process id 0 (-1) true false underWay =
      some (outcome, after)) :
    mutex = .free ∧ outcome = .ok () ∧ Represents id (.held process) after ∧
      after.semGen = store.semGen ∧
        ∀ other, other ≠ id → after.sems other = store.sems other := by
  rcases represents.present isPresent with ⟨set, found, values, adjustments⟩
  have isFree : mutex = .free := by
    cases mutex with
    | free => rfl
    | absent => exact absurd rfl isPresent
    | _ =>
        rw [Store.semop_short 0 found (by simp [values, MutexState.units])
          (by decide)] at served
        simp at served
  subst isFree
  have unused : ∀ other, set.semadj other 0 = 0 := by
    simpa [MutexState.adjustment] using adjustments
  rw [Store.semop_proceeds 1 found
    (by simp [values, MutexState.units]) (by decide) (by decide)
    (by simp [unused, SEMAEM])] at served
  cases served
  refine ⟨rfl, rfl, of_set (by simp)
    (by simp [SemSet.operate, values, MutexState.units]) ?_, rfl, ?_⟩
  · intro other
    by_cases same : other = process
    · subst same
      simp [SemSet.operate, MutexState.adjustment, unused]
    · simp [SemSet.operate, MutexState.adjustment, Function.update_of_ne same,
        unused, Ne.symm same]
  · intro other different
    simp [Function.update_of_ne different]

/-- A unit that is free can be taken. -/
theorem takes (represents : Represents id .free store) (process : Pid)
    (underWay : Bool) :
    ∃ after, store.semop process id 0 (-1) true false underWay =
      some (.ok (), after) := by
  rcases represents.present (by simp) with ⟨set, found, values, adjustments⟩
  have unused : ∀ other, set.semadj other 0 = 0 := by
    simpa [MutexState.adjustment] using adjustments
  exact ⟨_, Store.semop_proceeds 1 found (by simp [values, MutexState.units])
    (by decide) (by decide) (by simp [unused, SEMAEM])⟩

/-- The holder can always give the unit back. -/
theorem gives (represents : Represents id (.held process) store)
    (underWay : Bool) :
    ∃ after, store.semop process id 0 1 true false underWay =
      some (.ok (), after) := by
  rcases represents.present (by simp) with ⟨set, found, values, adjustments⟩
  have own : set.semadj process 0 = 1 := by
    simpa [MutexState.adjustment] using adjustments process
  exact ⟨_, Store.semop_proceeds 0 found (by simp [values, MutexState.units])
    (by decide) (by decide) (by simp [own, SEMAEM])⟩

/-- `semop(+1)` with `SEM_UNDO` by the holder gives the unit back. -/
theorem give {outcome : Except Errno Unit}
    (represents : Represents id (.held process) store)
    (served : store.semop process id 0 1 true false underWay =
      some (outcome, after)) :
    outcome = .ok () ∧ Represents id .free after ∧
      after.semGen = store.semGen ∧
        ∀ other, other ≠ id → after.sems other = store.sems other := by
  rcases represents.present (by simp) with ⟨set, found, values, adjustments⟩
  have own : set.semadj process 0 = 1 := by
    simpa [MutexState.adjustment] using adjustments process
  rw [Store.semop_proceeds 0 found
    (by simp [values, MutexState.units]) (by decide) (by decide)
    (by simp [own, SEMAEM])] at served
  cases served
  refine ⟨rfl, of_set (by simp)
    (by simp [SemSet.operate, values, MutexState.units]) ?_, rfl, ?_⟩
  · intro other
    by_cases same : other = process
    · subst same
      simp [SemSet.operate, MutexState.adjustment, own]
    · simpa [SemSet.operate, MutexState.adjustment, Function.update_of_ne same,
        Ne.symm same] using adjustments other
  · intro other different
    simp [Function.update_of_ne different]

/-- Under its name an existing set is found, and no second one is made. -/
theorem semget_present (represents : Represents id mutex store)
    (isPresent : mutex ≠ .absent)
    (named : store.semGen id.key = id.generation) (nsems : Nat)
    (creat excl : Bool) :
    store.semget id.key nsems creat excl =
      (if creat && excl then .error .EEXIST
        else if 1 < nsems then .error .EINVAL
        else .ok id, store) := by
  rcases represents.present isPresent with ⟨set, found, values, _⟩
  have isFound : store.findSem id.key = some id := by
    simp [Store.findSem, named, found]
  simp only [Store.semget, isFound, found, values, Option.elim_some,
    List.length_cons, List.length_nil]
  split
  · rfl
  · split <;> rfl

/-- Under a name without a set the next set is made. -/
theorem semget_absent {name : Key}
    (isAbsent : store.sems ⟨name, store.semGen name⟩ = none) (excl : Bool)
    (process : Pid) :
    (store.semget name 1 true excl).1 = .ok (store.nextSem name) ∧
      Represents (store.nextSem name) (.raw process)
        (store.semget name 1 true excl).2 ∧
      (store.semget name 1 true excl).2.semGen =
        Function.update store.semGen name (store.semGen name + 1) ∧
      ∀ other, other ≠ store.nextSem name →
        (store.semget name 1 true excl).2.sems other = store.sems other := by
  have notFound : store.findSem name = none := by
    simp [Store.findSem, isAbsent]
  have legal : ¬ (1 = 0 ∨ SEMMSL < 1) := by decide
  simp only [Store.semget, notFound, Bool.not_true, Bool.false_eq_true,
    if_false, legal]
  refine ⟨trivial, ⟨by simp, fun _ => ⟨_, Function.update_self .., rfl, ?_⟩⟩,
    trivial, ?_⟩
  · intro other
    simp [MutexState.adjustment]
  · intro other different
    simp [Function.update_of_ne different]

/-- Under a name without a set nothing is found. -/
theorem semget_lookup_absent {name : Key}
    (isAbsent : store.sems ⟨name, store.semGen name⟩ = none) (nsems : Nat)
    (excl : Bool) :
    store.semget name nsems false excl = (.error .ENOENT, store) := by
  simp [Store.semget, Store.findSem, isAbsent]

/-- `GETVAL` gives the number of free units. -/
theorem getval (represents : Represents id mutex store)
    (isPresent : mutex ≠ .absent) :
    store.semctlGetval id 0 = .ok mutex.units := by
  rcases represents.present isPresent with ⟨set, found, values, _⟩
  simp [Store.semctlGetval, found, values]

/-- `SETALL` of 1 makes the unit available and drops all adjustments. -/
theorem setall (represents : Represents id mutex store)
    (isPresent : mutex ≠ .absent) :
    (store.semctlSetall id [1]).1 = .ok () ∧
      Represents id .free (store.semctlSetall id [1]).2 ∧
      (store.semctlSetall id [1]).2.semGen = store.semGen ∧
        ∀ other, other ≠ id →
          (store.semctlSetall id [1]).2.sems other = store.sems other := by
  rcases represents.present isPresent with ⟨set, found, _, _⟩
  have legal : ([1] : List UShort).any
      (fun value => decide (SEMVMX < value.toNat)) = false := by
    decide
  simp only [Store.semctlSetall, found, legal, Bool.false_eq_true, if_false]
  refine ⟨trivial, of_set (by simp) (by simp [MutexState.units]) ?_, rfl, ?_⟩
  · intro other
    simp [MutexState.adjustment]
  · intro other different
    simp [Function.update_of_ne different]

/-- The end of a process returns the unit it holds. -/
theorem leave (represents : Represents id mutex store) :
    Represents id (mutex.leave process) (store.leave process) := by
  constructor
  · intro isAbsent
    rw [MutexState.leave_eq_absent_iff] at isAbsent
    simp [Store.leave, represents.absent isAbsent]
  · intro isPresent
    rw [ne_eq, MutexState.leave_eq_absent_iff] at isPresent
    rcases represents.present isPresent with ⟨set, found, values, adjustments⟩
    refine ⟨_, congrArg (Option.map _) found, ?_, ?_⟩
    · simp only [values, List.mapIdx_cons, List.mapIdx_nil, adjustments]
      by_cases holds : mutex = .held process
      · simp [holds, MutexState.leave, MutexState.units,
          MutexState.adjustment, Store.adjusted, SEMVMX]
      · cases mutex <;>
          simp_all [MutexState.leave, MutexState.units,
            MutexState.adjustment, Store.adjusted, SEMVMX]
    · intro other
      by_cases same : other = process
      · subst same
        simp [MutexState.adjustment]
      · have sameHolder : (mutex.leave process = .held other) ↔
            mutex = .held other := by
          rw [MutexState.leave_eq_held_iff]
          simp [same]
        simp [Function.update_of_ne same, adjustments,
          MutexState.adjustment, sameHolder]

end Represents

/-- The set exists, and its unit is with the process that is `inside` its
section if there is one. -/
structure Guards (id : IpcId) (mutex : MutexState) (store : Store)
    (inside : Pid → Prop) : Prop where
  represents : Represents id mutex store
  present : mutex ≠ .absent
  holder : ∀ process, inside process ↔ mutex = .held process

namespace Guards

variable {id : IpcId} {mutex mutex' : MutexState} {store after : Store}
variable {inside inside' : Pid → Prop} {process other : Pid}

/-- A process moves the mutex, and nobody else is concerned. -/
theorem move (guards : Guards id mutex store inside)
    (moves : MutexState.Moves process mutex mutex')
    (represents : Represents id mutex' after)
    (own : inside' process ↔ mutex' = .held process)
    (elsewhere : ∀ other, other ≠ process → (inside' other ↔ inside other)) :
    Guards id mutex' after inside' where
  represents := represents
  present := moves.present guards.present
  holder := by
    intro other
    by_cases same : other = process
    · subst same
      exact own
    · rw [elsewhere other same, guards.holder other, moves.held_other same]

/-- A step that is none on the mutex. -/
theorem stay (guards : Guards id mutex store inside)
    (same : after.sems id = store.sems id)
    (unchanged : ∀ other, inside' other ↔ inside other) :
    Guards id mutex after inside' where
  represents := guards.represents.of_same same
  present := guards.present
  holder := fun other => (unchanged other).trans (guards.holder other)

/-- Two processes are not inside at once. -/
theorem exclusive (guards : Guards id mutex store inside)
    (here : inside process) (there : inside other) : other = process := by
  have holdsHere := (guards.holder process).mp here
  have holdsThere := (guards.holder other).mp there
  rw [holdsHere] at holdsThere
  exact (MutexState.held.inj holdsThere).symm

/-- What `GETVAL` answers to the process inside. -/
theorem getval (guards : Guards id mutex store inside)
    (here : inside process) : store.semctlGetval id 0 = .ok 0 := by
  rw [guards.represents.getval guards.present,
    (guards.holder process).mp here]
  rfl

/-- A process that takes the unit succeeds, and finds nobody inside. -/
theorem take (guards : Guards id mutex store inside)
    {outcome : Except Errno Unit} {underWay : Bool}
    (served : store.semop process id 0 (-1) true false underWay =
      some (outcome, after))
    (own : inside' process)
    (elsewhere : ∀ other, other ≠ process → (inside' other ↔ inside other)) :
    outcome = .ok () ∧ (∀ other, ¬ inside other) ∧
      Guards id (.held process) after inside' := by
  rcases guards.represents.take guards.present served with
    ⟨rfl, rfl, taken, _, _⟩
  refine ⟨rfl, ?_, ?_⟩
  · intro other here
    have held := (guards.holder other).mp here
    cases held
  · exact guards.move .take taken (by simp [own]) elsewhere

/-- The process inside gives the unit back. -/
theorem give (guards : Guards id mutex store inside)
    (here : inside process) {outcome : Except Errno Unit} {underWay : Bool}
    (served : store.semop process id 0 1 true false underWay =
      some (outcome, after))
    (own : ¬ inside' process)
    (elsewhere : ∀ other, other ≠ process → (inside' other ↔ inside other)) :
    outcome = .ok () ∧ Guards id .free after inside' := by
  have held := (guards.holder process).mp here
  subst held
  rcases guards.represents.give served with ⟨rfl, given, _, _⟩
  exact ⟨rfl, guards.move .give given (by simp [own]) elsewhere⟩

/-- The end of a process. -/
theorem leave (guards : Guards id mutex store inside)
    (own : ¬ inside' process)
    (elsewhere : ∀ other, other ≠ process → (inside' other ↔ inside other)) :
    Guards id (mutex.leave process) (store.leave process) inside' where
  represents := guards.represents.leave
  present := by
    simpa using guards.present
  holder := by
    intro other
    rw [MutexState.leave_eq_held_iff]
    by_cases same : other = process
    · subst same
      simp [own]
    · rw [elsewhere other same, guards.holder other]
      simp [same]

end Guards

/-! ## Critical sections in a log -/

/-- Whether a call of a process enters (`true`) or ends (`false`) a critical
section of the mutex `id`. -/
def passes (id : IpcId) : Event signature → Option Bool
  | ⟨.semop target _ semOp _ _, outcome⟩ =>
      match (outcome : Except Errno Unit) with
      | .ok () => if target = id then some (decide (semOp < 0)) else none
      | .error _ => none
  | _ => none

/-- A process is between its last successful `semop(-1)` on the mutex `id` and
the `semop(+1)` that follows; the end of the process ends its section. -/
def inSection (id : IpcId) (process : Pid) :
    List (Entry signature Pid Store) → Bool
  | [] => false
  | ⟨.call actor event, _⟩ :: earlier =>
      if actor = process then
        (passes id event).getD (inSection id process earlier)
      else inSection id process earlier
  | ⟨.fork .., _⟩ :: earlier => inSection id process earlier
  | ⟨.leave actor, _⟩ :: earlier =>
      if actor = process then false else inSection id process earlier
  | ⟨.kill actor, _⟩ :: earlier =>
      if actor = process then false else inSection id process earlier

/-- Some process has set the values of the set `id`. -/
def Initialised (id : IpcId) (log : List (Entry signature Pid Store)) : Prop :=
  ∃ entry ∈ log, ∃ process array, entry.label = .call process
    ⟨.semctlSetall id array, (.ok () : Except Errno Unit)⟩

end Atomicles
