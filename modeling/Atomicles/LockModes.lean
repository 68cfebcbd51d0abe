import Atomicles.Source.Calls

/-!
# The outcome of `Semaphore$lock` in its three modes

`Semaphore$lock` maps the outcomes of its `semop` calls to a return code in
three separately written branches.  The events of a way through it are those
calls and their outcomes, whatever the kernel did.

A removal of the set is what the branches disagree on.  The blocking and the
non-blocking branch return 0 for it although no unit was taken, and the timed
branch goes on as if the call had not been made.
-/

namespace Atomicles.LockModes

open Interaction

/-- A `semop(-1)` that succeeded. -/
def decrements : Event signature → Bool
  | ⟨.semop _ _ semOp _ _, outcome⟩ =>
      match (outcome : Except Errno Unit) with
      | .ok () => semOp = -1
      | .error _ => false
  | _ => false

/-- A `semop` that reports the removal of the set. -/
def reportsRemoval : Event signature → Bool
  | ⟨.semop .., outcome⟩ =>
      match (outcome : Except Errno Unit) with
      | .ok () => false
      | .error errno => errno = .EIDRM
  | _ => false

/-- The number of units taken along a list of calls. -/
def taken (events : List (Event signature)) : Nat :=
  events.countP decrements

/-- Some call reports the removal of the set. -/
def Removed (events : List (Event signature)) : Prop :=
  ∃ event ∈ events, reportsRemoval event = true

/--
What a caller of `Semaphore$lock` relies on: 0 is a unit taken, 1 and -1 are
no unit taken, and a removal that this run met is told by the code every other
run tells a removal by, in whatever mode.
-/
def Contract (this : Semaphore) (index : UShort) (persist : Bool)
    (events : List (Event signature)) (e : Int) : Prop :=
  (e = 0 ↔ taken events = 1) ∧
    (e = 1 ∨ e = -1 → taken events = 0) ∧
    (Removed events → ∀ timeout events' e',
      (Semaphore.lock this index persist timeout).Ends events' e' →
        Removed events' → e' = e)

variable {this : Semaphore} {index : UShort} {persist : Bool}

section Events

variable {id : IpcId} {semNum : Nat} {undo nowait : Bool}
variable {events : List (Event signature)}

@[simp]
theorem taken_nil : taken [] = 0 :=
  rfl

@[simp]
theorem taken_success (success : Unit) :
    taken (⟨.semop id semNum (-1) undo nowait,
      (.ok success : Except Errno Unit)⟩ :: events) = taken events + 1 := by
  simp [taken, decrements]

@[simp]
theorem taken_failure (errno : Errno) :
    taken (⟨.semop id semNum (-1) undo nowait,
      (.error errno : Except Errno Unit)⟩ :: events) = taken events := by
  simp [taken, decrements]

@[simp]
theorem taken_sleep (seconds : Nat) :
    taken (⟨.sleep seconds, ()⟩ :: events) = taken events := by
  simp [taken, decrements]

@[simp]
theorem not_removed_nil : ¬ Removed [] := by
  simp [Removed]

@[simp]
theorem removed_success (success : Unit) :
    Removed (⟨.semop id semNum (-1) undo nowait,
      (.ok success : Except Errno Unit)⟩ :: events) ↔ Removed events := by
  simp [Removed, reportsRemoval]

@[simp]
theorem removed_failure (errno : Errno) :
    Removed (⟨.semop id semNum (-1) undo nowait,
      (.error errno : Except Errno Unit)⟩ :: events) ↔
      errno = .EIDRM ∨ Removed events := by
  simp [Removed, reportsRemoval]

@[simp]
theorem removed_sleep (seconds : Nat) :
    Removed (⟨.sleep seconds, ()⟩ :: events) ↔ Removed events := by
  simp [Removed, reportsRemoval]

end Events

/-! ## The three branches -/

/-- The two branches with a single `semop` return the success of that call,
with a removal counted as a success. -/
theorem single_outcome {timeout : Time} {events : List (Event signature)}
    {e : Int} (single : timeout = LOCK_BLOCKING ∨ timeout = LOCK_NONBLOCK)
    (ends : (Semaphore.lock this index persist timeout).Ends events e) :
    (taken events = 1 ∧ e = 0 ∧ ¬ Removed events) ∨
      (taken events = 0 ∧ e = 0 ∧ Removed events) ∨
      (taken events = 0 ∧ (e = 1 ∨ e = -1) ∧ ¬ Removed events) := by
  rcases single with rfl | rfl
  · simp only [Semaphore.lock, semop, if_true, Program.issue_bind,
      Program.done_bind, Program.ends_issue_iff] at ends
    obtain ⟨outcome, rest, rfl, ends⟩ := ends
    cases outcome with
    | ok success =>
        simp only [Program.pure_eq_done, Program.ends_done_iff] at ends
        simp [ends]
    | error errno =>
        simp only [Program.pure_eq_done, Program.ends_done_iff] at ends
        rcases ends with ⟨rfl, rfl⟩
        by_cases removed : errno = .EIDRM <;> simp [removed]
  · simp only [Semaphore.lock, semop, LOCK_NONBLOCK, LOCK_BLOCKING,
      Program.issue_bind, Program.done_bind, if_true,
      show ¬ (-1 : Int) = 0 by decide, if_false,
      Program.ends_issue_iff] at ends
    obtain ⟨outcome, rest, rfl, ends⟩ := ends
    cases outcome with
    | ok success =>
        simp only [Program.pure_eq_done, Program.ends_done_iff] at ends
        simp [ends]
    | error errno =>
        simp only [Program.pure_eq_done, Program.ends_done_iff] at ends
        rcases ends with ⟨rfl, rfl⟩
        cases errno <;> simp

/-- The timed branch returns 0 exactly with a unit taken, however many
removals it met; one that it returns 1 or -1 after took none. -/
theorem timed_outcome {remaining : Nat} {events : List (Event signature)}
    {e : Int}
    (ends : (Semaphore.lockTimed this index persist remaining).Ends events e) :
    (taken events = 1 ∧ e = 0) ∨ (taken events = 0 ∧ (e = 1 ∨ e = -1)) := by
  induction remaining generalizing events with
  | zero =>
      simp only [Semaphore.lockTimed, Program.pure_eq_done,
        Program.ends_done_iff] at ends
      simp [ends]
  | succ remaining ih =>
      simp only [Semaphore.lockTimed, semop, Program.issue_bind,
        Program.done_bind, Program.ends_issue_iff] at ends
      obtain ⟨outcome, rest, rfl, ends⟩ := ends
      cases outcome with
      | ok success =>
          simp only [Program.pure_eq_done, Program.ends_done_iff] at ends
          simp [ends]
      | error errno =>
          cases errno
          case EAGAIN =>
            simp only [sleep, Program.issue_bind, Program.done_bind,
              Program.ends_issue_iff] at ends
            obtain ⟨⟨⟩, later, rfl, ends⟩ := ends
            simpa using ih ends
          case EIDRM => simpa using ih ends
          all_goals
            simp only [Program.pure_eq_done, Program.ends_done_iff] at ends
            simp [ends]

/-- Without a removal every mode keeps the count. -/
theorem lock_outcome {timeout : Time} {events : List (Event signature)}
    {e : Int} (unremoved : ¬ Removed events)
    (ends : (Semaphore.lock this index persist timeout).Ends events e) :
    (taken events = 1 ∧ e = 0) ∨ (taken events = 0 ∧ (e = 1 ∨ e = -1)) := by
  by_cases single : timeout = LOCK_BLOCKING ∨ timeout = LOCK_NONBLOCK
  · rcases single_outcome single ends with taking | removed | refused
    · exact Or.inl ⟨taking.1, taking.2.1⟩
    · exact absurd removed.2.2 unremoved
    · exact Or.inr ⟨refused.1, refused.2.1⟩
  · rw [not_or] at single
    rw [Semaphore.lock, if_neg single.1, if_neg single.2] at ends
    exact timed_outcome ends

/-! ## A removal is told in two ways -/

/-- The only call of a mode, or its first, reports the removal. -/
def removal (this : Semaphore) (index : UShort) (persist nowait : Bool) :
    List (Event signature) :=
  [⟨.semop this.id index.toNat (-1) (!persist) nowait,
    (.error .EIDRM : Except Errno Unit)⟩]

theorem blocking_removal :
    (Semaphore.lock this index persist LOCK_BLOCKING).Ends
      (removal this index persist false) 0 :=
  Program.ends_issue_iff.mpr ⟨_, _, rfl, .done 0⟩

theorem timed_removal :
    (Semaphore.lock this index persist 1).Ends
      (removal this index persist true) 1 :=
  Program.ends_issue_iff.mpr ⟨_, _, rfl, .done 1⟩

theorem removed_removal (nowait : Bool) :
    Removed (removal this index persist nowait) := by
  simp [removal]

/-- Along every way through `Semaphore$lock` its contract is kept exactly if
no call reports the removal of the set. -/
theorem contract_iff {timeout : Time} {events : List (Event signature)}
    {e : Int}
    (ends : (Semaphore.lock this index persist timeout).Ends events e) :
    Contract this index persist events e ↔ ¬ Removed events := by
  constructor
  · rintro ⟨_, _, same⟩ removed
    have zero := same removed _ _ _ blocking_removal (removed_removal false)
    have one := same removed _ _ _ timed_removal (removed_removal true)
    omega
  · intro unremoved
    rcases lock_outcome unremoved ends with taking | refused
    · refine ⟨?_, ?_, fun removed => absurd removed unremoved⟩ <;> omega
    · refine ⟨?_, ?_, fun removed => absurd removed unremoved⟩ <;> omega

/-! ## `lock on` -/

/-- A call that takes no unit for good: a `semop` is made with `SEM_UNDO`. -/
def Undoable : Call → Prop
  | .semop _ _ _ undo _ => undo = true
  | _ => True

/-- A unit taken for good, as `lock` takes those of the user's semaphore. -/
def takesUnit : Event signature → Bool
  | ⟨.semop id semNum semOp undo nowait, outcome⟩ =>
      !undo && decrements ⟨.semop id semNum semOp undo nowait, outcome⟩
  | _ => false

/-- A `semop` without `SEM_UNDO` that reports the removal of its set. -/
def losesUnit : Event signature → Bool
  | ⟨.semop id semNum semOp undo nowait, outcome⟩ =>
      !undo && reportsRemoval ⟨.semop id semNum semOp undo nowait, outcome⟩
  | _ => false

/-- The number of units a command holds after these calls. -/
def unitsHeld (events : List (Event signature)) : Nat :=
  events.countP takesUnit

theorem takesUnit_of_undoable {event : Event signature}
    (undoable : Undoable event.call) : takesUnit event = false := by
  obtain ⟨call, answer⟩ := event
  cases call <;> simp_all [Undoable, takesUnit]

theorem unitsHeld_of_undoable {events : List (Event signature)}
    (undoable : ∀ event ∈ events, Undoable event.call) :
    unitsHeld events = 0 :=
  List.countP_eq_zero.mpr fun event member =>
    Bool.not_eq_true _ ▸ takesUnit_of_undoable (undoable event member)

/-- The calls of `Semaphore$lock` made with `persist`. -/
def Persistent : Call → Prop
  | .semop _ _ _ undo _ => undo = false
  | .sleep _ => True
  | _ => False

theorem takesUnit_of_persistent {event : Event signature}
    (persistent : Persistent event.call) :
    takesUnit event = decrements event := by
  obtain ⟨call, answer⟩ := event
  cases call <;> simp_all [Persistent, takesUnit, decrements]

theorem losesUnit_of_persistent {event : Event signature}
    (persistent : Persistent event.call) :
    losesUnit event = reportsRemoval event := by
  obtain ⟨call, answer⟩ := event
  cases call <;> simp_all [Persistent, losesUnit, reportsRemoval]

theorem within_lock {timeout : Time} :
    Program.Within Persistent (Semaphore.lock this index true timeout) :=
  Semaphore.within_lock (fun _ => rfl) trivial

section Preamble

variable {paths : KeyPaths}

theorem undoable_finds (call : Call) (finds : call.finds = true) :
    Undoable call := by
  cases call <;> trivial

theorem undoable_removes (call : Call) (removes : call.removes = true) :
    Undoable call := by
  cases call <;> trivial

theorem within_enter (this : SharedMemory) :
    Program.Within Undoable (SharedMemory.enter this) := by
  rw [← bind_pure (SharedMemory.enter this)]
  cases owned : this.shsem with
  | none =>
      rw [SharedMemory.enter_bind_none owned]
      exact within_die _ trivial
  | some shsem =>
      rw [SharedMemory.enter_bind owned]
      refine ⟨rfl, fun (outcome : Except Errno Unit) => ?_⟩
      cases outcome with
      | ok success => trivial
      | error errno =>
          dsimp only
          split
          · trivial
          · exact within_die _ trivial

theorem within_exit (this : SharedMemory) :
    Program.Within Undoable (SharedMemory.exit this) := by
  rw [← bind_pure (SharedMemory.exit this)]
  cases owned : this.shsem with
  | none =>
      simp only [SharedMemory.exit, owned]
      exact (within_die _ trivial).bind fun _ => trivial
  | some shsem =>
      rw [SharedMemory.exit_bind owned]
      refine ⟨trivial, fun (value : Except Errno Nat) => ?_⟩
      dsimp only
      split
      · refine ⟨rfl, fun (outcome : Except Errno Unit) => ?_⟩
        cases outcome with
        | ok success => trivial
        | error errno => exact within_die _ trivial
      · exact within_die _ trivial

theorem within_readUint (this : SharedMemory) (offset : UShort) :
    Program.Within Undoable (SharedMemory.readUint this offset) := by
  apply (within_enter this).bind
  intro _
  apply (within_exit this).bind
  intro _
  refine ⟨trivial, fun (word : Option UInt) => ?_⟩
  cases word with
  | none => exact within_die _ trivial
  | some value => trivial

theorem within_init (statics : Lock.Statics) (shsem : Semaphore) :
    Program.Within Undoable (Lock.init paths statics shsem) :=
  Lock.within_init undoable_finds trivial within_readUint statics shsem

end Preamble

theorem unitsHeld_append (first second : List (Event signature)) :
    unitsHeld (first ++ second) = unitsHeld first + unitsHeld second :=
  List.countP_append

/-- Calls made with `SEM_UNDO` only, in front of others, hold no unit. -/
theorem unitsHeld_after {first second : List (Event signature)}
    (undoable : ∀ event ∈ first, Undoable event.call) :
    unitsHeld (first ++ second) = unitsHeld second := by
  rw [unitsHeld_append, unitsHeld_of_undoable undoable, Nat.zero_add]

/-- The calls of `Semaphore$lock` on the user's semaphore, seen as calls of
the command. -/
theorem lock_outcome_units {timeout : Time} {events : List (Event signature)}
    {e : Int} (kept : ∀ event ∈ events, losesUnit event = false)
    (ends : (Semaphore.lock this index true timeout).Ends events e) :
    e = 0 ↔ unitsHeld events = 1 := by
  have persistent := Program.Within.ends within_lock ends
  have same : unitsHeld events = taken events :=
    List.countP_congr fun event member => by
      rw [takesUnit_of_persistent (persistent event member)]
  have unremoved : ¬ Removed events := by
    rintro ⟨event, member, reports⟩
    have lost := kept event member
    rw [losesUnit_of_persistent (persistent event member), reports] at lost
    cases lost
  rw [same]
  rcases lock_outcome unremoved ends with taking | refused <;> omega

/-- What `lock` does after `init` holds one unit exactly where it returns 0. -/
theorem lockBody_outcome {paths : KeyPaths} {key : Key} {timeout : Int}
    {statics : Lock.Statics} {shsem : Semaphore}
    {events : List (Event signature)} {e : Int}
    (kept : ∀ event ∈ events, losesUnit event = false)
    (ends :
      (Lock.lockBody paths key timeout statics shsem).Ends events e) :
    e = 0 ↔ unitsHeld events = 1 := by
  simp only [Lock.lockBody, Semaphore.delete_false, Program.done_bind,
    Program.pure_eq_done, Program.bind_done] at ends
  split at ends
  · split at ends
    · exact lock_outcome_units kept ends
    · obtain ⟨first, second, code, rfl, deleted, rest⟩ :=
        Program.ends_bind_iff.mp ends
      simp only [Program.ends_done_iff] at rest
      obtain ⟨rfl, rfl⟩ := rest
      have none : unitsHeld (first ++ []) = 0 := by
        rw [List.append_nil]
        exact unitsHeld_of_undoable (Program.Within.ends
          (Lock.within_delete undoable_finds undoable_removes key) deleted)
      omega
  · exact lock_outcome_units kept ends

/-- `lock <k> on` returns 0 exactly with one unit held, unless a call on the
user's semaphore reports its removal. -/
theorem lock_exit {paths : KeyPaths} {statics : Lock.Statics} {key : Key}
    {timeout : Int} {events : List (Event signature)} {e : Int}
    (kept : ∀ event ∈ events, losesUnit event = false)
    (ends : (Lock.lock paths statics key timeout).Ends events e) :
    e = 0 ↔ unitsHeld events = 1 := by
  obtain ⟨asked, events₁, found, rfl, asking, ends⟩ :=
    Program.ends_bind_iff.mp ends
  have quietAsked : ∀ event ∈ asked, Undoable event.call := by
    refine Program.Within.ends ?_ asking
    refine ⟨trivial, fun found => ?_⟩
    cases found <;> trivial
  rw [unitsHeld_after quietAsked]
  cases found with
  | false =>
      simp only [Bool.false_eq_true, if_false, Program.pure_eq_done,
        Program.ends_done_iff] at ends
      obtain ⟨rfl, rfl⟩ := ends
      simp [unitsHeld]
  | true =>
      obtain ⟨attaching, events₂, shsem, rfl, attached, ends⟩ :=
        Program.ends_bind_iff.mp ends
      have quietAttaching : ∀ event ∈ attaching, Undoable event.call :=
        (Semaphore.within_attach (finds_set undoable_finds) key).ends attached
      rw [unitsHeld_after quietAttaching]
      cases shsem with
      | none =>
          simp only [Program.pure_eq_done, Program.ends_done_iff] at ends
          obtain ⟨rfl, rfl⟩ := ends
          simp [unitsHeld]
      | some shsem =>
          obtain ⟨reading, events₃, value, rfl, read, ends⟩ :=
            Program.ends_bind_iff.mp ends
          have quietReading : ∀ event ∈ reading, Undoable event.call :=
            (within_init statics shsem).ends read
          rw [unitsHeld_after quietReading]
          exact lockBody_outcome
            (fun event member => kept event (by simp [member])) ends

/-! ## The result -/

/--
`Semaphore$lock` keeps its contract along exactly those ways on which no call
reports the removal of the set, and `lock <k> on` returns 0 with exactly one
unit held if no call on the user's semaphore reports it.
-/
theorem lock_takes_unit_iff (paths : KeyPaths) :
    (∀ this index persist timeout events e,
      (Semaphore.lock this index persist timeout).Ends events e →
        (Contract this index persist events e ↔ ¬ Removed events)) ∧
    (∀ statics key timeout events e,
      (Lock.lock paths statics key timeout).Ends events e →
        (∀ event ∈ events, losesUnit event = false) →
          (e = 0 ↔ unitsHeld events = 1)) :=
  ⟨fun _ _ _ _ _ _ ends => contract_iff ends,
    fun _ _ _ _ _ ends kept => lock_exit kept ends⟩

/-- A handle of the set under key 5. -/
def handle : Semaphore :=
  ⟨5, ⟨KeyPaths.devtmpfs.semKey 5, 1⟩, 1, 1⟩

/-- The calls of `lock 5 on` up to its `semop` on the user's semaphore, where
the segment is already gone. -/
def preamble : List (Event signature) :=
  [⟨.semget (KeyPaths.devtmpfs.semKey 5) NOP false true,
      (.ok handle.id : Except Errno IpcId)⟩,
    ⟨.semget (KeyPaths.devtmpfs.semKey 5) NOP false true,
      (.ok handle.id : Except Errno IpcId)⟩,
    ⟨.mallocSemaphore, (some () : Option Unit)⟩,
    ⟨.semctlStat handle.id, (⟨1, 0⟩ : SemidDs)⟩,
    ⟨.shmget (KeyPaths.devtmpfs.shmKey 5) NOP false true,
      (.error .ENOENT : Except Errno IpcId)⟩]

theorem lock_ends_of_semop {outcome : Except Errno Unit} {e : Int}
    (ends : (Semaphore.lock handle 0 true 0).Ends
      [⟨.semop handle.id 0 (-1) false false, outcome⟩] e) :
    (Lock.lock KeyPaths.devtmpfs Lock.Statics.initial 5 0).Ends
      (preamble ++ [⟨.semop handle.id 0 (-1) false false, outcome⟩]) e := by
  have body : (Lock.lockBody KeyPaths.devtmpfs 5 0 Lock.Statics.initial
      handle).Ends [⟨.semop handle.id 0 (-1) false false, outcome⟩] e :=
    Program.ends_bind_iff.mpr ⟨_, [], e, by simp, ends, .done e⟩
  refine Program.ends_issue_iff.mpr ⟨_, _, rfl, ?_⟩
  refine Program.ends_issue_iff.mpr ⟨_, _, rfl, ?_⟩
  refine Program.ends_issue_iff.mpr ⟨_, _, rfl, ?_⟩
  refine Program.ends_issue_iff.mpr ⟨_, _, rfl, ?_⟩
  refine Program.ends_issue_iff.mpr ⟨_, _, rfl, ?_⟩
  exact body

/-- A unit that is free is taken, and the command says so. -/
theorem lock_takes_unit_free :
    Contract handle 0 true
        [⟨.semop handle.id 0 (-1) false false,
          (.ok () : Except Errno Unit)⟩] 0 ∧
      ((0 : Int) = 0 ↔
        unitsHeld (preamble ++ [⟨.semop handle.id 0 (-1) false false,
          (.ok () : Except Errno Unit)⟩]) = 1) := by
  have taking : (Semaphore.lock handle 0 true 0).Ends
      [⟨.semop handle.id 0 (-1) false false, (.ok () : Except Errno Unit)⟩]
      0 :=
    Program.ends_issue_iff.mpr ⟨_, _, rfl, .done 0⟩
  exact
    ⟨((lock_takes_unit_iff KeyPaths.devtmpfs).1 _ _ _ _ _ _ taking).mpr
        (by simp),
      (lock_takes_unit_iff KeyPaths.devtmpfs).2 _ _ _ _ _
        (lock_ends_of_semop taking) (by simp [preamble, losesUnit,
          reportsRemoval])⟩

/-- A blocking `lock 5 on` whose set is removed while it waits returns 0 and
holds nothing. -/
theorem lock_returns_zero_removed :
    (Lock.lock KeyPaths.devtmpfs Lock.Statics.initial 5 0).Ends
        (preamble ++ removal handle 0 true false) 0 ∧
      unitsHeld (preamble ++ removal handle 0 true false) = 0 ∧
      ¬ ∀ this index persist timeout events e,
        (Semaphore.lock this index persist timeout).Ends events e →
          Contract this index persist events e := by
  refine ⟨lock_ends_of_semop blocking_removal, by decide, fun claimed => ?_⟩
  exact (contract_iff blocking_removal).mp
    (claimed handle 0 true _ _ _ blocking_removal) (removed_removal false)

end Atomicles.LockModes
