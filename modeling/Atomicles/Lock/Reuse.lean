import Atomicles.Source.Calls
import Atomicles.Lock.Deletion
import Atomicles.Source.LockMain

/-!
# What `delete` leaves of a key

`create` makes the segment of a lock before the mutex of the segment, and
`delete` finds the mutex only beside a segment.  A `delete` that finds the
segment and looks for the mutex before it is made goes on to remove the
segment, and the mutex that is made then stays behind.  In all other runs of
`create` and `delete` a mutex is found only where a segment is, and one more
`delete` leaves nothing of the key.
-/

namespace Atomicles.Reuse

open Interaction Deletion

/-- The commands `create` and `delete`. -/
def MakesOrDeletes : Action → Prop
  | .create _ _ => True
  | .delete => True
  | _ => False

/-- Commands on any keys are about to start, and no object exists. -/
def opening (paths : KeyPaths) (now : Time)
    (commands : Pid → Option (Key × Action)) :
    Pool signature Pid Store Int where
  state := .empty now
  procs process := (commands process).map fun command =>
    command.2.run paths .initial command.1
  log := []

/-- The segment that a process has made without having asked for the mutex
yet. -/
def making (process : Pid) :
    List (Entry signature Pid Store) → Option IpcId
  | [] => none
  | ⟨.call actor ⟨.shmget _ _ true _, (made : Except Errno IpcId)⟩, _⟩ ::
      earlier =>
      if actor = process then made.toOption else making process earlier
  | ⟨.call actor ⟨.semget .., _⟩, _⟩ :: earlier =>
      if actor = process then none else making process earlier
  | ⟨.leave actor, _⟩ :: earlier =>
      if actor = process then none else making process earlier
  | ⟨.kill actor, _⟩ :: earlier =>
      if actor = process then none else making process earlier
  | _ :: earlier => making process earlier

/-- The segment that a process has last looked for and found. -/
def sought (process : Pid) : List (Entry signature Pid Store) → Option IpcId
  | [] => none
  | ⟨.call actor ⟨.shmget _ _ false _, (found : Except Errno IpcId)⟩, _⟩ ::
      earlier =>
      if actor = process then found.toOption else sought process earlier
  | _ :: earlier => sought process earlier

/--
The run condition: whoever has found a segment looks for the mutex of it only
once the maker of the segment has asked for the mutex.  What looks for the
mutex, attaches the segment or removes the mutex then fails only where there
is none.
-/
def Patient (pool : Pool signature Pid Store Int) :
    Label signature Pid → Prop
  | .call process ⟨.semget name _ false _, (looked : Except Errno IpcId)⟩ =>
      ∀ segment, sought process pool.log = some segment →
        (∀ maker, making maker pool.log ≠ some segment) ∧
          ∀ errno, looked = .error errno → pool.state.findSem name = none
  | .call process ⟨.shmat segment, (mapped : Except Errno Addr)⟩ =>
      sought process pool.log = some segment →
        ∀ errno, mapped = .error errno → pool.state.shms segment = none
  | .call process ⟨.semctlRmid mutex, (removed : Except Errno Unit)⟩ =>
      ∀ segment, sought process pool.log = some segment →
        ∀ errno, removed = .error errno → pool.state.sems mutex = none
  | _ => True

/-! ## The protocol of a command -/

/-- Where a command is. -/
inductive Stage where
  | plain
  | made (segment : IpcId)
  | found (segment : IpcId)
  | looked (segment : IpcId) (mutex : Option IpcId)
  | lost (segment : IpcId)

/-- The segment a command has made or found. -/
def Stage.Knows (segment : IpcId) : Stage → Prop
  | .plain => False
  | .made known => known = segment
  | .found known => known = segment
  | .looked known _ => known = segment
  | .lost known => known = segment

/-- The segment a command has looked for and found. -/
def Stage.Sought (segment : IpcId) : Stage → Prop
  | .plain => False
  | .made _ => False
  | .found known => known = segment
  | .looked known _ => known = segment
  | .lost known => known = segment

/-- The key of a command, and where it is. -/
structure Phase where
  key : Key
  stage : Stage

variable (paths : KeyPaths)

/-- The calls of `create` and `delete`. -/
def protocol : Protocol signature Phase where
  allow phase call :=
    match call with
    | .mallocSemaphore => True
    | .mallocSharedMemory => True
    | .semget name _ creat excl => excl = true ∧
        match creat with
        | true => phase.stage = .plain ∧ name = paths.semKey phase.key ∨
            ∃ segment, phase.stage = .made segment ∧
              name = mutexKey paths phase.key
        | false => phase.stage = .plain ∨
            ∃ segment, phase.stage = .found segment ∧
              name = mutexKey paths phase.key
    | .semctlSetall .. => True
    | .semctlGetval .. => True
    | .semctlStat _ => True
    | .semctlRmid id => ∀ segment mutex,
        phase.stage = .looked segment (some mutex) → id = mutex
    | .semop .. => True
    | .shmget name _ _ excl => excl = true ∧ phase.stage = .plain ∧
        name = paths.shmKey phase.key
    | .shmat id => phase.stage = .made id ∨ phase.stage = .found id
    | .shmdt _ => True
    | .shmctlRmid id =>
        phase.stage = .looked id none ∨ phase.stage = .lost id
    | .memset .. => True
    | .mlockall => True
    | .mlock .. => True
    | .munlockall => True
    | .load .. => True
    | .store .. => True
    | .die _ => True
    | _ => False
  answer _ call answer :=
    match call, answer with
    | .shmat id, (mapped : Except Errno Addr) =>
        ∀ addr, mapped = .ok addr → addr = .mapped id
    | _, _ => True
  next phase call answer :=
    match call, answer with
    | .semget .., (found : Except Errno IpcId) =>
        match phase.stage with
        | .made _ => { phase with stage := .plain }
        | .found segment =>
            { phase with stage := .looked segment found.toOption }
        | _ => phase
    | .semctlRmid _, _ =>
        match phase.stage with
        | .looked segment (some _) =>
            { phase with stage := .looked segment none }
        | _ => phase
    | .shmget _ _ creat _, (id : Except Errno IpcId) =>
        match id with
        | .ok id =>
            { phase with stage := if creat then .made id else .found id }
        | .error _ => phase
    | .shmat _, (mapped : Except Errno Addr) =>
        match mapped with
        | .ok _ => phase
        | .error _ =>
            match phase.stage with
            | .found segment => { phase with stage := .lost segment }
            | _ => { phase with stage := .plain }
    | _, _ => phase

/-- The end of a command does not matter. -/
def Anywhere (_ : Phase) (_ : Int) : Prop :=
  True

section Conformance

variable {paths} {phase : Phase} {key : Key}

theorem conforms_die (cause : Death) :
    (die cause : Prog Int).Conforms (protocol paths) phase Anywhere :=
  ⟨trivial, fun impossible => impossible.elim⟩

/-- Calls that need no stage. -/
def Plain : Call → Prop
  | .mallocSemaphore => True
  | .mallocSharedMemory => True
  | .semctlSetall .. => True
  | .semctlGetval .. => True
  | .semctlStat _ => True
  | .semop .. => True
  | .shmdt _ => True
  | .memset .. => True
  | .mlockall => True
  | .mlock .. => True
  | .munlockall => True
  | .load .. => True
  | .store .. => True
  | .die _ => True
  | _ => False

theorem plain_accesses (call : Call) (accesses : call.accesses = true) :
    Plain call := by
  cases call <;> trivial

theorem plain_allowed (phase : Phase) (call : Call) (plain : Plain call) :
    (protocol paths).allow phase call := by
  cases call <;> first | exact plain.elim | trivial

theorem plain_stays (phase : Phase) (call : Call) (answer : call.Answer)
    (plain : Plain call) : (protocol paths).next phase call answer = phase := by
  cases call <;> first | exact plain.elim | rfl

/-- `Semaphore$new` of the user's set, or of the mutex of a new segment. -/
theorem conforms_new {name : Key} {count size : UShort}
    {continuation : Option Semaphore → Prog Int}
    (named : phase.stage = .plain ∧ name = phase.key ∨
      ∃ segment, phase.stage = .made segment ∧ name = phase.key + 128)
    (rest : ∀ stage, ∀ shsem, (stage = phase.stage ∧ shsem = none ∨
      stage = .plain) → (continuation shsem).Conforms (protocol paths)
        { phase with stage } Anywhere) :
    (Semaphore.new paths name count size false >>= continuation).Conforms
      (protocol paths) phase Anywhere := by
  have after : ∀ made : Except Errno IpcId, (protocol paths).next phase
      (.semget (paths.semKey name) count.toNat true true) made =
        { phase with stage := .plain } := by
    intro made
    rcases named with ⟨stage, _⟩ | ⟨segment, stage, _⟩
    · cases phase
      cases stage
      rfl
    · cases phase
      cases stage
      rfl
  rw [Semaphore.new_bind]
  refine ⟨trivial, ?_⟩
  intro (block : Option Unit) _
  cases block with
  | none => exact rest phase.stage none (Or.inl ⟨rfl, rfl⟩)
  | some success =>
      refine ⟨⟨rfl, ?_⟩, ?_⟩
      · rcases named with ⟨stage, same⟩ | ⟨segment, stage, same⟩
        · exact Or.inl ⟨stage, by rw [same]; rfl⟩
        · exact Or.inr ⟨segment, stage, by rw [same]; rfl⟩
      intro (made : Except Errno IpcId) _
      have asked : (protocol paths).next
          ((protocol paths).next phase .mallocSemaphore (some success))
          (.semget (paths.semKey name) count.toNat true true) made =
            { phase with stage := .plain } := after made
      rw [asked]
      cases made with
      | error errno => simpa using rest .plain none (Or.inr rfl)
      | ok id =>
          refine ⟨trivial, ?_⟩
          intro (outcome : Except Errno Unit) _
          cases outcome with
          | error errno => exact rest .plain none (Or.inr rfl)
          | ok success => exact rest .plain _ (Or.inr rfl)

/-- Once the mutex is asked for, the rest of `create` may run in any stage. -/
theorem plain_finish {shsem : Semaphore} {shmem : SharedMemory}
    {semaphores flag expire : UInt} :
    (do
      SharedMemory.writeUint shmem 0 semaphores
      SharedMemory.writeUint shmem 1 flag
      SharedMemory.writeUint shmem 2 expire
      SharedMemory.writeUint shmem 3 0
      SharedMemory.delete shmem false
      Semaphore.delete shsem false
      return (0 : Int)).Within Plain := by
  have writes : ∀ offset n,
      (SharedMemory.writeUint shmem offset n).Within Plain :=
    SharedMemory.within_writeUint plain_accesses shmem
  apply (writes 0 semaphores).bind
  intro _
  apply (writes 1 flag).bind
  intro _
  apply (writes 2 expire).bind
  intro _
  apply (writes 3 0).bind
  intro _
  apply (SharedMemory.within_free shmem).bind
  intro _
  trivial

theorem conforms_plain {program : Prog Int} (plain : program.Within Plain) :
    program.Conforms (protocol paths) phase Anywhere :=
  plain.conforms_any plain_allowed fun _ _ => trivial

theorem conforms_create {semaphores : UInt} {expire : Time} :
    (Lock.create paths key semaphores expire).Conforms (protocol paths)
      ⟨key, .plain⟩ Anywhere := by
  unfold Lock.create
  apply conforms_new (Or.inl ⟨rfl, rfl⟩)
  intro stage shsem plain
  have isPlain : stage = .plain := by
    rcases plain with ⟨isPlain, _⟩ | isPlain
    · exact isPlain
    · exact isPlain
  rw [isPlain]
  cases shsem with
  | none => trivial
  | some shsem =>
      dsimp only
      simp only [SharedMemory.new, mallocSharedMemory, Program.issue_bind,
        Program.done_bind]
      refine ⟨trivial, ?_⟩
      intro (block : Option SharedMemory) _
      cases block with
      | none => trivial
      | some block =>
          simp only [bind_assoc]
          rw [SharedMemory.newSegment_bind]
          refine ⟨⟨rfl, rfl, rfl⟩, ?_⟩
          intro (made : Except Errno IpcId) _
          cases made with
          | error errno =>
              simp [errno.code_ne_success, SharedMemory.delete, Anywhere]
          | ok id =>
              dsimp only
              rw [SharedMemory.shmat_bind]
              refine ⟨Or.inl rfl, ?_⟩
              intro (mapped : Except Errno Addr) isMapped
              cases mapped with
              | error errno =>
                  simp [EXIT_FAILURE, EXIT_SUCCESS, SharedMemory.delete,
                    Anywhere]
              | ok addr =>
                  have isAddr : addr = .mapped id := isMapped addr rfl
                  rw [isAddr]
                  simp only [ne_eq, reduceCtorEq, not_false_eq_true, if_true,
                    bind_assoc]
                  apply conforms_new (Or.inr ⟨id, rfl, rfl⟩)
                  intro stage shsem' _
                  cases shsem' with
                  | none => simp [SharedMemory.delete, Anywhere]
                  | some mutex =>
                      simp only [bind_assoc]
                      apply conforms_plain
                      apply (SharedMemory.within_lockPages trivial
                        (fun _ _ => trivial) _).bind
                      intro locked
                      split
                      · simp [SharedMemory.delete]
                      · exact plain_finish

/-- The segment is cleared, unmapped and marked. -/
theorem conforms_remove {segment : IpcId} {addr : Addr} {n : Nat}
    {code : Int} {stage : Stage}
    (ready : stage = .looked segment none ∨ stage = .lost segment) :
    (do
      memset addr n
      munlockall
      shmdt addr
      shmctlRmid segment
      return code).Conforms (protocol paths) ⟨key, stage⟩ Anywhere := by
  rw [SharedMemory.memset_bind]
  refine ⟨trivial, ?_⟩
  intro (done : Option Unit) _
  cases done with
  | none => exact conforms_die _
  | some success =>
      exact ⟨trivial, fun _ _ => ⟨trivial, fun _ _ => ⟨ready,
        fun _ _ => trivial⟩⟩⟩

theorem conforms_delete_segment {code : Int} :
    (do
      match ← SharedMemory.attach paths key with
      | some shmem =>
          SharedMemory.delete shmem true
          return code
      | none => return code + 1).Conforms (protocol paths) ⟨key, .plain⟩
        Anywhere := by
  rw [SharedMemory.attach_bind]
  refine ⟨⟨rfl, rfl, rfl⟩, ?_⟩
  intro (found : Except Errno IpcId) _
  cases found with
  | error errno => trivial
  | ok segment =>
      refine ⟨trivial, ?_⟩
      intro (block : Option SharedMemory) _
      cases block with
      | none => exact conforms_die _
      | some block =>
          dsimp only
          rw [SharedMemory.shmat_bind]
          refine ⟨Or.inr rfl, ?_⟩
          intro (mapped : Except Errno Addr) isMapped
          cases mapped with
          | error errno =>
              cases owned : block.shsem with
              | none =>
                  simp only [ne_eq, not_true_eq_false, if_false,
                    SharedMemory.delete, if_true, bind_assoc]
                  exact conforms_remove (Or.inr rfl)
              | some shsem =>
                  simp only [ne_eq, not_true_eq_false, if_false,
                    SharedMemory.delete, if_true, bind_assoc]
                  refine ⟨?_, ?_⟩
                  · intro _ _ impossible
                    cases impossible
                  · intro _ _
                    exact conforms_remove (Or.inr rfl)
          | ok addr =>
              have isAddr : addr = .mapped segment := isMapped addr rfl
              rw [isAddr]
              simp only [ne_eq, reduceCtorEq, not_false_eq_true, if_true]
              rw [Semaphore.attach_bind]
              refine ⟨⟨rfl, Or.inr ⟨segment, rfl, rfl⟩⟩, ?_⟩
              intro (looked : Except Errno IpcId) _
              cases looked with
              | error errno =>
                  simp only [SharedMemory.delete, if_true, bind_assoc]
                  exact conforms_remove (Or.inl rfl)
              | ok mutex =>
                  refine ⟨trivial, ?_⟩
                  intro (block : Option Unit) _
                  cases block with
                  | none => exact conforms_die _
                  | some success =>
                      refine ⟨trivial, ?_⟩
                      intro ds _
                      simp only [SharedMemory.delete, if_true, bind_assoc]
                      refine ⟨?_, ?_⟩
                      · intro _ _ same
                        cases same
                        rfl
                      · intro _ _
                        exact conforms_remove (Or.inl rfl)

theorem conforms_delete :
    (Lock.delete paths key).Conforms (protocol paths) ⟨key, .plain⟩
      Anywhere := by
  unfold Lock.delete
  rw [Semaphore.attach_bind]
  refine ⟨⟨rfl, Or.inl rfl⟩, ?_⟩
  intro (found : Except Errno IpcId) _
  cases found with
  | error errno => exact conforms_delete_segment
  | ok id =>
      refine ⟨trivial, ?_⟩
      intro (block : Option Unit) _
      cases block with
      | none => exact conforms_die _
      | some success =>
          refine ⟨trivial, ?_⟩
          intro ds _
          refine ⟨?_, ?_⟩
          · intro _ _ impossible
            cases impossible
          · intro _ _
            exact conforms_delete_segment

end Conformance

/-! ## The invariant -/

/-- A mutex is found only where a segment is, and nobody is about to change
that. -/
structure Tidy (store : Store) (phases : Pid → Phase) : Prop where
  small : ∀ process, (phases process).key.toNat < 128
  owned : ∀ key, key.toNat < 128 → ∀ mutex,
    store.findSem (mutexKey paths key) = some mutex →
      ∃ segment, store.findShm (paths.shmKey key) = some segment
  making : ∀ process segment, (phases process).stage = .made segment →
    store.findShm (paths.shmKey (phases process).key) = some segment ∧
      store.findSem (mutexKey paths (phases process).key) = none
  single : ∀ process other segment, (phases process).stage = .made segment →
    (phases other).stage = .made segment → process = other
  looked : ∀ process segment mutex,
    (phases process).stage = .looked segment mutex →
      store.findShm (paths.shmKey (phases process).key) = some segment →
        (∀ maker, (phases maker).stage ≠ .made segment) ∧
          ∀ last, store.findSem (mutexKey paths (phases process).key) =
            some last → mutex = some last
  past : ∀ process segment, (phases process).stage.Knows segment →
    segment.key = paths.shmKey (phases process).key ∧
      segment.generation ≤ store.shmGen segment.key
  lost : ∀ process segment, (phases process).stage = .lost segment →
    store.findShm (paths.shmKey (phases process).key) ≠ some segment

section Update

variable {phases : Pid → Phase} {process other : Pid} {stage : Stage}

/-- A command keeps its key. -/
theorem key_update :
    (Function.update phases process { phases process with stage }
      other).key = (phases other).key := by
  by_cases same : other = process
  · rw [same, Function.update_self]
  · rw [Function.update_of_ne same]

theorem stage_update :
    (Function.update phases process { phases process with stage }
      other).stage = if other = process then stage else (phases other).stage := by
  by_cases same : other = process
  · rw [same, Function.update_self, if_pos rfl]
  · rw [Function.update_of_ne same, if_neg same]

end Update

namespace Tidy

variable {paths} {store after : Store} {phases : Pid → Phase}
variable {process : Pid}

/-- The same segments are found, and no new mutex. -/
theorem fewer (tidy : Tidy paths store phases)
    (sems : ∀ key, key.toNat < 128 → ∀ mutex,
      after.findSem (mutexKey paths key) = some mutex →
        store.findSem (mutexKey paths key) = some mutex)
    (shms : SameShmNames store after) : Tidy paths after phases where
  small := tidy.small
  owned := by
    intro key small mutex isMutex
    rw [shms.2]
    exact tidy.owned key small mutex (sems key small mutex isMutex)
  making := by
    intro process segment isMaking
    have before := tidy.making process segment isMaking
    rw [shms.2]
    refine ⟨before.1, ?_⟩
    apply Option.eq_none_iff_forall_ne_some.mpr
    intro mutex isMutex
    have already := sems _ (tidy.small process) mutex isMutex
    rw [before.2] at already
    cases already
  single := tidy.single
  looked := by
    intro process segment mutex hasLooked isSegment
    rw [shms.2] at isSegment
    have before := tidy.looked process segment mutex hasLooked isSegment
    refine ⟨before.1, ?_⟩
    intro last isLast
    exact before.2 last (sems _ (tidy.small process) last isLast)
  past := by
    intro process segment knows
    rw [shms.1]
    exact tidy.past process segment knows
  lost := by
    intro process segment isLost
    rw [shms.2]
    exact tidy.lost process segment isLost

theorem same (tidy : Tidy paths store phases)
    (sems : SameSemNames store after) (shms : SameShmNames store after) :
    Tidy paths after phases := by
  apply tidy.fewer _ shms
  intro key _ mutex isMutex
  rwa [sems] at isMutex

/-- A command comes to another stage. -/
theorem rephase (tidy : Tidy paths store phases) {stage : Stage}
    (making : ∀ segment, stage = .made segment →
      (store.findShm (paths.shmKey (phases process).key) = some segment ∧
        store.findSem (mutexKey paths (phases process).key) = none) ∧
      ∀ other, other ≠ process → (phases other).stage ≠ .made segment ∧
        ∀ mutex, (phases other).stage ≠ .looked segment mutex)
    (looked : ∀ segment mutex, stage = .looked segment mutex →
      store.findShm (paths.shmKey (phases process).key) = some segment →
        (∀ maker, maker ≠ process → (phases maker).stage ≠ .made segment) ∧
          ∀ last, store.findSem (mutexKey paths (phases process).key) =
            some last → mutex = some last)
    (past : ∀ segment, stage.Knows segment →
      segment.key = paths.shmKey (phases process).key ∧
        segment.generation ≤ store.shmGen segment.key)
    (lost : ∀ segment, stage = .lost segment →
      store.findShm (paths.shmKey (phases process).key) ≠ some segment) :
    Tidy paths store
      (Function.update phases process { phases process with stage }) where
  small := by
    intro other
    rw [key_update]
    exact tidy.small other
  owned := tidy.owned
  making := by
    intro other segment isMaking
    rw [stage_update] at isMaking
    rw [key_update]
    split at isMaking
    · rename_i same
      rw [same]
      exact (making segment isMaking).1
    · exact tidy.making other segment isMaking
  single := by
    intro first second segment isFirst isSecond
    rw [stage_update] at isFirst isSecond
    split at isFirst
    · rename_i same
      split at isSecond
      · rename_i same'
        rw [same, same']
      · rename_i different
        exact absurd isSecond ((making segment isFirst).2 second different).1
    · rename_i different
      split at isSecond
      · exact absurd isFirst ((making segment isSecond).2 first different).1
      · exact tidy.single first second segment isFirst isSecond
  looked := by
    intro other segment mutex hasLooked isSegment
    rw [stage_update] at hasLooked
    rw [key_update] at isSegment ⊢
    split at hasLooked
    · rename_i same
      rw [same] at isSegment ⊢
      have known := looked segment mutex hasLooked isSegment
      refine ⟨?_, known.2⟩
      intro maker isMaking
      rw [stage_update] at isMaking
      split at isMaking
      · rw [hasLooked] at isMaking
        cases isMaking
      · rename_i different
        exact known.1 maker different isMaking
    · rename_i different
      have known := tidy.looked other segment mutex hasLooked isSegment
      refine ⟨?_, known.2⟩
      intro maker isMaking
      rw [stage_update] at isMaking
      split at isMaking
      · exact ((making segment isMaking).2 other different).2 mutex hasLooked
      · exact known.1 maker isMaking
  past := by
    intro other segment knows
    rw [stage_update] at knows
    rw [key_update]
    split at knows
    · rename_i same
      rw [same]
      exact past segment knows
    · exact tidy.past other segment knows
  lost := by
    intro other segment isLost
    rw [stage_update] at isLost
    rw [key_update]
    split at isLost
    · rename_i same
      rw [same]
      exact lost segment isLost
    · exact tidy.lost other segment isLost

/-- A command goes on without anything made or found. -/
theorem plain (tidy : Tidy paths store phases) :
    Tidy paths store (Function.update phases process
      { phases process with stage := .plain }) :=
  tidy.rephase (fun _ impossible => nomatch impossible)
    (fun _ _ impossible => nomatch impossible)
    (fun _ impossible => impossible.elim)
    (fun _ impossible => nomatch impossible)

/-- The mutex of a segment is made while nobody is about to make it or to
remove the segment. -/
theorem addMutex (tidy : Tidy paths store phases) {key : Key}
    {segment : IpcId} (small : key.toNat < 128)
    (isSegment : store.findShm (paths.shmKey key) = some segment)
    (unmade : ∀ other, (phases other).key = key →
      (phases other).stage ≠ .made segment)
    (kept : ∀ other, (phases other).key = key → ∀ mutex,
      (phases other).stage ≠ .looked segment mutex)
    (sems : ∀ other, other ≠ mutexKey paths key →
      after.findSem other = store.findSem other)
    (shms : SameShmNames store after) : Tidy paths after phases where
  small := tidy.small
  owned := by
    intro other small' mutex isMutex
    rw [shms.2]
    by_cases same : mutexKey paths other = mutexKey paths key
    · rw [mutexKey_injective small' small same]
      exact ⟨segment, isSegment⟩
    · rw [sems _ same] at isMutex
      exact tidy.owned other small' mutex isMutex
  making := by
    intro other segment' isMaking
    have before := tidy.making other segment' isMaking
    have different : mutexKey paths (phases other).key ≠
        mutexKey paths key := by
      intro same
      have isKey := mutexKey_injective (tidy.small other) small same
      have found := before.1
      rw [isKey, isSegment] at found
      cases found
      exact unmade other isKey isMaking
    rw [sems _ different, shms.2]
    exact before
  single := tidy.single
  looked := by
    intro other segment' mutex hasLooked found
    rw [shms.2] at found
    have before := tidy.looked other segment' mutex hasLooked found
    have different : mutexKey paths (phases other).key ≠
        mutexKey paths key := by
      intro same
      have isKey := mutexKey_injective (tidy.small other) small same
      rw [isKey, isSegment] at found
      cases found
      exact kept other isKey mutex hasLooked
    rw [sems _ different]
    exact before
  past := by
    intro other segment' knows
    rw [shms.1]
    exact tidy.past other segment' knows
  lost := by
    intro other segment' isLost
    rw [shms.2]
    exact tidy.lost other segment' isLost

/-- The maker of a segment makes the mutex of it. -/
theorem makeMutex (tidy : Tidy paths store phases) {segment : IpcId}
    (isMaking : (phases process).stage = .made segment)
    (sems : ∀ other, other ≠ mutexKey paths (phases process).key →
      after.findSem other = store.findSem other)
    (shms : SameShmNames store after) :
    Tidy paths after (Function.update phases process
      { phases process with stage := .plain }) := by
  have stands := tidy.making process segment isMaking
  have rest : Tidy paths store (Function.update phases process
      { phases process with stage := .plain }) := tidy.plain
  apply rest.addMutex (tidy.small process) stands.1 _ _ sems shms
  · intro other _ made
    rw [stage_update] at made
    split at made
    · cases made
    · rename_i different
      exact different (tidy.single other process segment made isMaking)
  · intro other isKey mutex hasLooked
    rw [key_update] at isKey
    rw [stage_update] at hasLooked
    split at hasLooked
    · cases hasLooked
    · have found := stands.1
      rw [← isKey] at found
      exact (tidy.looked other segment mutex hasLooked found).1 process
        isMaking

/-- A segment is made where none is found. -/
theorem addSegment (tidy : Tidy paths store phases) {name : Key}
    (absent : store.findShm name = none)
    (found : after.findShm name = some (store.nextShm name))
    (last : after.shmGen =
      Function.update store.shmGen name (store.shmGen name + 1))
    (shms : ∀ other, other ≠ name → after.findShm other = store.findShm other)
    (sems : SameSemNames store after) : Tidy paths after phases := by
  -- Nobody has known the new segment before.
  have unknown : ∀ process segment, (phases process).stage.Knows segment →
      segment ≠ store.nextShm name := by
    rintro process segment knows rfl
    have old := (tidy.past process _ knows).2
    simp only [Store.nextShm] at old
    omega
  have unchanged : ∀ process segment, (phases process).stage.Knows segment →
      (after.findShm (paths.shmKey (phases process).key) = some segment ↔
        store.findShm (paths.shmKey (phases process).key) = some segment) := by
    intro process segment knows
    by_cases same : paths.shmKey (phases process).key = name
    · rw [same, found, absent]
      constructor
      · intro isNew
        exact absurd (Option.some.inj isNew).symm
          (unknown process segment knows)
      · intro impossible
        cases impossible
    · rw [shms _ same]
  constructor
  · exact tidy.small
  · intro key small mutex isMutex
    rw [sems] at isMutex
    rcases tidy.owned key small mutex isMutex with ⟨segment, isSegment⟩
    have different : paths.shmKey key ≠ name := by
      rintro rfl
      rw [absent] at isSegment
      cases isSegment
    exact ⟨segment, by rw [shms _ different, isSegment]⟩
  · intro process segment isMaking
    have knows : (phases process).stage.Knows segment := by
      rw [isMaking]
      rfl
    rw [sems, unchanged process segment knows]
    exact tidy.making process segment isMaking
  · exact tidy.single
  · intro process segment mutex hasLooked
    have knows : (phases process).stage.Knows segment := by
      rw [hasLooked]
      rfl
    rw [sems, unchanged process segment knows]
    exact tidy.looked process segment mutex hasLooked
  · intro process segment knows
    have before := tidy.past process segment knows
    refine ⟨before.1, ?_⟩
    rw [last]
    by_cases same : segment.key = name
    · rw [same, Function.update_self]
      rw [same] at before
      omega
    · rw [Function.update_of_ne same]
      exact before.2
  · intro process segment isLost
    have knows : (phases process).stage.Knows segment := by
      rw [isLost]
      rfl
    rw [ne_eq, unchanged process segment knows]
    exact tidy.lost process segment isLost

/-- A command makes a segment. -/
theorem makeSegment (tidy : Tidy paths store phases) {segment : IpcId}
    (absent : store.findShm (paths.shmKey (phases process).key) = none)
    (isNext : segment = store.nextShm (paths.shmKey (phases process).key))
    (found : after.findShm (paths.shmKey (phases process).key) = some segment)
    (last : after.shmGen = Function.update store.shmGen
      (paths.shmKey (phases process).key)
      (store.shmGen (paths.shmKey (phases process).key) + 1))
    (shms : ∀ other, other ≠ paths.shmKey (phases process).key →
      after.findShm other = store.findShm other)
    (sems : SameSemNames store after) :
    Tidy paths after (Function.update phases process
      { phases process with stage := .made segment }) := by
  have unowned : store.findSem (mutexKey paths (phases process).key) =
      none := by
    apply Option.eq_none_iff_forall_ne_some.mpr
    intro mutex isMutex
    rcases tidy.owned _ (tidy.small process) mutex isMutex with
      ⟨segment, isSegment⟩
    rw [absent] at isSegment
    cases isSegment
  have unknown : ∀ other, ¬ (phases other).stage.Knows segment := by
    intro other knows
    have old := (tidy.past other segment knows).2
    rw [isNext] at old
    simp only [Store.nextShm] at old
    omega
  have now : Tidy paths after phases :=
    tidy.addSegment absent (by rw [found, isNext]) last shms sems
  apply now.rephase
  · intro segment' isMade
    cases isMade
    refine ⟨⟨found, by rw [sems, unowned]⟩, ?_⟩
    intro other _
    refine ⟨?_, ?_⟩
    · intro isMade
      apply unknown other
      rw [isMade]
      rfl
    · intro mutex hasLooked
      apply unknown other
      rw [hasLooked]
      rfl
  · intro _ _ impossible
    cases impossible
  · intro segment' knows
    have same : segment = segment' := knows
    rw [← same, isNext, last]
    exact ⟨rfl, by simp [Store.nextShm]⟩
  · intro _ impossible
    cases impossible

/-- A command removes the segment whose mutex it has removed, or one that is
not found any more. -/
theorem removeSegment (tidy : Tidy paths store phases) {segment : IpcId}
    (ready : (phases process).stage = .looked segment none ∨
      (phases process).stage = .lost segment)
    (shms : after.shmGen = store.shmGen ∧ ∀ name, after.findShm name =
      if store.findShm name = some segment then none else store.findShm name)
    (sems : SameSemNames store after) : Tidy paths after phases := by
  have isKey : segment.key = paths.shmKey (phases process).key := by
    rcases ready with isStage | isStage
    · exact (tidy.past process segment (by rw [isStage]; rfl)).1
    · exact (tidy.past process segment (by rw [isStage]; rfl)).1
  -- Where the segment is found, there is no mutex and no maker.
  have alone : ∀ name, store.findShm name = some segment →
      name = paths.shmKey (phases process).key ∧
        (∀ maker, (phases maker).stage ≠ .made segment) ∧
          store.findSem (mutexKey paths (phases process).key) = none := by
    intro name found
    have isName : name = paths.shmKey (phases process).key := by
      rw [← isKey]
      exact (Store.findShm_eq_some_iff.mp found).1.symm
    rw [isName] at found
    rcases ready with isStage | isStage
    · have known := tidy.looked process segment none isStage found
      refine ⟨isName, known.1, ?_⟩
      apply Option.eq_none_iff_forall_ne_some.mpr
      intro mutex isMutex
      cases known.2 mutex isMutex
    · exact absurd found (tidy.lost process segment isStage)
  have fewer : ∀ name other, after.findShm name = some other →
      store.findShm name = some other := by
    intro name other found
    rw [shms.2] at found
    split at found
    · cases found
    · exact found
  constructor
  · exact tidy.small
  · intro key small mutex isMutex
    rw [sems] at isMutex
    rcases tidy.owned key small mutex isMutex with ⟨other, isOther⟩
    refine ⟨other, ?_⟩
    rw [shms.2, if_neg, isOther]
    intro same
    have known := alone _ same
    have isSmall := shmKey_injective small (tidy.small process) known.1
    rw [isSmall, known.2.2] at isMutex
    cases isMutex
  · intro maker other isMaking
    have before := tidy.making maker other isMaking
    rw [sems, shms.2, if_neg]
    · exact before
    · intro same
      have known := alone _ same
      rw [before.1] at same
      cases same
      exact known.2.1 maker isMaking
  · exact tidy.single
  · intro other segment' mutex hasLooked found
    rw [sems]
    exact tidy.looked other segment' mutex hasLooked (fewer _ _ found)
  · intro other segment' knows
    rw [shms.1]
    exact tidy.past other segment' knows
  · intro other segment' isLost found
    exact tidy.lost other segment' isLost (fewer _ _ found)

end Tidy

/-! ## Steps -/

/-- No segment is empty. -/
def Sized (store : Store) : Prop :=
  ∀ id segment, store.shms id = some segment → 0 < segment.size

theorem Sized.setShm {store : Store} {target : IpcId}
    {changed : Option Segment} (sized : Sized store)
    (still : ∀ kept, changed = some kept → 0 < kept.size) :
    Sized (store.setShm target changed) := by
  intro id segment found
  by_cases here : id = target
  · rw [here, Store.setShm_shms, Function.update_self] at found
    exact still segment found
  · rw [Store.setShm_shms, Function.update_of_ne here] at found
    exact sized id segment found

theorem Sized.shmget {store : Store} {name : Key} {size : Nat}
    {creat excl : Bool} (sized : Sized store) :
    Sized (store.shmget name size creat excl).2 := by
  unfold Store.shmget
  split
  · split
    · exact sized
    · split
      · exact sized
      · exact sized
  · split
    · exact sized
    · split
      · exact sized
      · rename_i legal
        rw [not_or] at legal
        intro id segment found
        by_cases here : id = store.nextShm name
        · rw [here] at found
          simp only [Function.update_self, Option.some.injEq] at found
          rw [← found]
          exact Nat.pos_of_ne_zero legal.1
        · simp only [Function.update_of_ne here] at found
          exact sized id segment found

theorem keepMapped_size {segment kept : Segment} {attached : List Pid}
    (isKept : Store.keepMapped segment attached = some kept) :
    kept.size = segment.size := by
  unfold Store.keepMapped at isKept
  split at isKept
  · cases isKept
  · cases isKept
    rfl

theorem Sized.leave {store : Store} {process : Pid} (sized : Sized store) :
    Sized (store.leave process) := by
  intro id segment found
  simp only [Store.leave] at found
  rcases Option.bind_eq_some_iff.mp found with ⟨before, isBefore, isKept⟩
  rw [keepMapped_size isKept]
  exact sized id before isBefore

theorem Sized.exec {admits : Choice → Prop} {process : Pid} {call : Call}
    {answer : call.Answer} {store after : Store} (sized : Sized store)
    (words : call.writesBytes = false)
    (exec : (kernel admits).exec process call store answer after) :
    Sized after := by
  rcases exec_segments words exec with
    same | ⟨key, size, excl, tick, _, rfl⟩ |
      ⟨target, segment, changed, tick, isSegment, rfl, changes⟩
  · intro id segment found
    rw [same.1] at found
    exact sized id segment found
  · have advanced : Sized (store.advance tick) := sized
    exact advanced.shmget
  · have advanced : Sized (store.advance tick) := sized
    have positive := sized target segment isSegment
    apply advanced.setShm
    intro kept isKept
    cases changes with
    | attach =>
        cases isKept
        exact positive
    | detach =>
        rw [keepMapped_size isKept]
        exact positive
    | mark =>
        rw [keepMapped_size isKept]
        exact positive
    | clear =>
        cases isKept
        exact positive
    | write =>
        cases isKept
        exact positive

/-- The stages agree with the store and the log. -/
structure Sound (pool : Pool signature Pid Store Int)
    (phases : Pid → Phase) : Prop where
  tidy : Tidy paths pool.state phases
  sized : Sized pool.state
  made : ∀ process segment, (phases process).stage = .made segment →
    making process pool.log = some segment
  found : ∀ process segment, (phases process).stage.Sought segment →
    sought process pool.log = some segment

section Steps

variable {paths} {pool : Pool signature Pid Store Int}
variable {phases : Pid → Phase} {process : Pid} {phase : Phase}

/-- A step of one process. -/
theorem Sound.moved (sound : Sound paths pool phases)
    {label : Label signature Pid} {state : Store}
    {procs : Pid → Option (Prog Int)}
    (tidy : Tidy paths state (Function.update phases process phase))
    (sized : Sized state)
    (made : ∀ segment, phase.stage = .made segment →
      making process (⟨label, state⟩ :: pool.log) = some segment)
    (isFound : ∀ segment, phase.stage.Sought segment →
      sought process (⟨label, state⟩ :: pool.log) = some segment)
    (others : ∀ other, other ≠ process →
      making other (⟨label, state⟩ :: pool.log) = making other pool.log ∧
        sought other (⟨label, state⟩ :: pool.log) = sought other pool.log) :
    Sound paths (pool.record label state procs)
      (Function.update phases process phase) where
  tidy := tidy
  sized := sized
  made := by
    intro other segment isMade
    by_cases same : other = process
    · rw [same, Function.update_self] at isMade
      rw [same]
      exact made segment isMade
    · rw [Function.update_of_ne same] at isMade
      rw [Pool.record_log, (others other same).1]
      exact sound.made other segment isMade
  found := by
    intro other segment hasFound
    by_cases same : other = process
    · rw [same, Function.update_self] at hasFound
      rw [same]
      exact isFound segment hasFound
    · rw [Function.update_of_ne same] at hasFound
      rw [Pool.record_log, (others other same).2]
      exact sound.found other segment hasFound

/-- Calls that the log speaks of. -/
def Tells : Call → Prop
  | .semget .. => True
  | .shmget .. => True
  | _ => False

theorem quiet_log {call : Call} {answer : call.Answer} {state : Store}
    {log : List (Entry signature Pid Store)} {actor other : Pid}
    (quiet : ¬ Tells call) :
    making other (⟨.call actor ⟨call, answer⟩, state⟩ :: log) =
        making other log ∧
      sought other (⟨.call actor ⟨call, answer⟩, state⟩ :: log) =
        sought other log := by
  cases call <;> first | exact absurd trivial quiet | exact ⟨rfl, rfl⟩

theorem others_log {call : Call} {answer : call.Answer} {state : Store}
    {log : List (Entry signature Pid Store)} {actor other : Pid}
    (different : other ≠ actor) :
    making other (⟨.call actor ⟨call, answer⟩, state⟩ :: log) =
        making other log ∧
      sought other (⟨.call actor ⟨call, answer⟩, state⟩ :: log) =
        sought other log := by
  by_cases tells : Tells call
  · cases call with
    | semget name nsems creat excl =>
        simp [making, sought, Ne.symm different]
    | shmget name size creat excl =>
        cases creat <;> simp [making, sought, Ne.symm different]
    | _ => exact tells.elim
  · exact quiet_log tells

section Calls

variable (sound : Sound paths pool phases)
include sound

/-- A call that the log does not speak of. -/
theorem Sound.unlogged {call : Call} {answer : call.Answer} {state : Store}
    {procs : Pid → Option (Prog Int)} (quiet : ¬ Tells call)
    (tidy : Tidy paths state (Function.update phases process phase))
    (sized : Sized state)
    (made : ∀ segment, phase.stage = .made segment →
      (phases process).stage = .made segment)
    (isFound : ∀ segment, phase.stage.Sought segment →
      (phases process).stage.Sought segment) :
    Sound paths (pool.record (.call process ⟨call, answer⟩) state procs)
      (Function.update phases process phase) := by
  apply sound.moved tidy sized
  · intro segment isMade
    rw [(quiet_log quiet).1]
    exact sound.made process segment (made segment isMade)
  · intro segment hasFound
    rw [(quiet_log quiet).2]
    exact sound.found process segment (isFound segment hasFound)
  · intro other _
    exact quiet_log quiet

/-- A call that makes and removes nothing and finds nothing. -/
theorem Sound.quiet {call : Call} {next : call.Answer → Prog Int}
    {answer : call.Answer} {state : Store}
    (plain : Plain call)
    (exec : refusing.exec process call pool.state answer state) :
    Pool.Keeps (protocol paths) (Sound paths) pool phases process call next
      answer state := by
  have relied : (protocol paths).answer (phases process) call answer := by
    cases call <;> first | exact plain.elim | trivial
  have keeps : call.keepsSems = true ∧ call.keepsShms = true ∧
      call.writesBytes = false ∧ ¬ Tells call := by
    cases call <;> first | exact plain.elim | exact ⟨rfl, rfl, rfl, not_false⟩
  refine ⟨relied, ?_⟩
  rw [plain_stays _ _ _ plain]
  have tidy : Tidy paths state phases :=
    sound.tidy.same (exec_semNames keeps.1 exec) (exec_shmNames keeps.2.1 exec)
  apply sound.unlogged keeps.2.2.2 _ (sound.sized.exec keeps.2.2.1 exec)
  · exact fun _ isMade => isMade
  · exact fun _ hasFound => hasFound
  · rwa [Function.update_eq_self]

/-- The user's set is made, or the mutex of the segment just made. -/
theorem Sound.semget_made {name : Key} {nsems : Nat}
    {made : Except Errno IpcId}
    {next : Except Errno IpcId → Prog Int} {state : Store}
    (ready : (phases process).stage = .plain ∧
        name = paths.semKey (phases process).key ∨
      ∃ segment, (phases process).stage = .made segment ∧
        name = mutexKey paths (phases process).key)
    (exec : refusing.exec process (.semget name nsems true true) pool.state
      made state) :
    Pool.Keeps (protocol paths) (Sound paths) pool phases process
      (.semget name nsems true true) next made state := by
  refine ⟨trivial, ?_⟩
  have after : (protocol paths).next (phases process)
      (.semget name nsems true true) made =
        { phases process with stage := .plain } := by
    rcases ready with ⟨stage, _⟩ | ⟨segment, stage, _⟩
    · cases isPhase : phases process
      rw [isPhase] at stage
      cases stage
      rfl
    · cases isPhase : phases process
      rw [isPhase] at stage
      cases stage
      rfl
  rw [after]
  have shms : SameShmNames pool.state state := exec_shmNames rfl exec
  have sems : ∀ other, other ≠ name →
      state.findSem other = pool.state.findSem other :=
    fun _ different => exec_semget_findSem exec different
  apply sound.moved _ (sound.sized.exec rfl exec)
  · exact fun _ impossible => nomatch impossible
  · exact fun _ impossible => impossible.elim
  · intro other different
    exact others_log different
  · rcases ready with ⟨_, rfl⟩ | ⟨segment, isMaking, rfl⟩
    · apply Tidy.plain
      apply sound.tidy.fewer _ shms
      intro key small mutex isMutex
      rwa [sems _ (mutexKey_ne_semKey small (sound.tidy.small process))]
        at isMutex
    · exact sound.tidy.makeMutex isMaking sems shms

/-- The mutex of a segment is looked for once it is asked for. -/
theorem Sound.semget_looked {name : Key} {nsems : Nat} {excl : Bool}
    {looked : Except Errno IpcId}
    {next : Except Errno IpcId → Prog Int} {state : Store}
    (ready : (phases process).stage = .plain ∨
      ∃ segment, (phases process).stage = .found segment ∧
        name = mutexKey paths (phases process).key)
    (patient : Patient pool
      (.call process ⟨.semget name nsems false excl, looked⟩))
    (exec : refusing.exec process (.semget name nsems false excl) pool.state
      looked state) :
    Pool.Keeps (protocol paths) (Sound paths) pool phases process
      (.semget name nsems false excl) next looked state := by
  refine ⟨trivial, ?_⟩
  have sems : SameSemNames pool.state state := exec_semNames rfl exec
  have tidy : Tidy paths state phases :=
    sound.tidy.same sems (exec_shmNames rfl exec)
  have sized : Sized state := sound.sized.exec rfl exec
  rcases ready with isPlain | ⟨segment, isFound, rfl⟩
  · have after : (protocol paths).next (phases process)
        (.semget name nsems false excl) looked = phases process := by
      cases isPhase : phases process
      rw [isPhase] at isPlain
      cases isPlain
      rfl
    rw [after]
    apply sound.moved _ sized
    · intro segment isMade
      rw [isPlain] at isMade
      cases isMade
    · intro segment isFound
      rw [isPlain] at isFound
      exact isFound.elim
    · intro other different
      exact others_log different
    · rwa [Function.update_eq_self]
  · have after : (protocol paths).next (phases process)
        (.semget (mutexKey paths (phases process).key) nsems false excl)
          looked =
        { phases process with
          stage := .looked segment looked.toOption } := by
      cases isPhase : phases process
      rw [isPhase] at isFound
      cases isFound
      rfl
    have isSought : sought process pool.log = some segment := by
      apply sound.found
      rw [isFound]
      rfl
    have waited := patient segment isSought
    rw [after]
    apply sound.moved _ sized
    · exact fun _ impossible => nomatch impossible
    · intro other same
      have same : segment = other := same
      rw [← same]
      exact isSought
    · intro other different
      exact others_log different
    apply tidy.rephase
    · exact fun _ impossible => nomatch impossible
    · intro other mutex same found
      cases same
      refine ⟨?_, ?_⟩
      · intro maker _ isMade
        exact waited.1 maker (sound.made maker segment isMade)
      · intro last isLast
        rw [sems] at isLast
        cases looked with
        | ok id =>
            rw [exec_semget_looked exec] at isLast
            exact isLast
        | error errno =>
            rw [waited.2 errno rfl] at isLast
            cases isLast
    · intro other same
      have same : segment = other := same
      rw [← same]
      apply tidy.past process segment
      rw [isFound]
      rfl
    · exact fun _ impossible => nomatch impossible

/-- The mutex of a segment is removed, or another set. -/
theorem Sound.semctlRmid {id : IpcId} {removed : Except Errno Unit}
    {next : Except Errno Unit → Prog Int} {state : Store}
    (owned : ∀ segment mutex,
      (phases process).stage = .looked segment (some mutex) → id = mutex)
    (patient : Patient pool (.call process ⟨.semctlRmid id, removed⟩))
    (exec : refusing.exec process (.semctlRmid id) pool.state removed state) :
    Pool.Keeps (protocol paths) (Sound paths) pool phases process
      (.semctlRmid id) next removed state := by
  refine ⟨trivial, ?_⟩
  have untold : ¬ Tells (.semctlRmid id) := not_false
  have changed := exec_semctlRmid exec
  have tidy : Tidy paths state phases :=
    sound.tidy.fewer (fun _ _ mutex isMutex => changed.1 _ mutex isMutex)
      (exec_shmNames rfl exec)
  have sized : Sized state := sound.sized.exec rfl exec
  by_cases isLooked : ∃ segment mutex,
      (phases process).stage = .looked segment (some mutex)
  · rcases isLooked with ⟨segment, mutex, isLooked⟩
    have after : (protocol paths).next (phases process) (.semctlRmid id)
        removed = { phases process with stage := .looked segment none } := by
      cases isPhase : phases process
      rw [isPhase] at isLooked
      cases isLooked
      rfl
    have knows : (phases process).stage.Knows segment := by
      rw [isLooked]
      rfl
    rw [after]
    apply sound.unlogged untold _ sized
    · exact fun _ impossible => nomatch impossible
    · intro other same
      rw [isLooked]
      exact same
    apply tidy.rephase
    · exact fun _ impossible => nomatch impossible
    · intro other last same found
      cases same
      have before := tidy.looked process segment (some mutex) isLooked found
      refine ⟨fun maker _ => before.1 maker, ?_⟩
      intro last isLast
      have isMutex : mutex = last := Option.some.inj (before.2 last isLast)
      rw [← isMutex, ← owned segment mutex isLooked] at isLast
      have isSought : sought process pool.log = some segment := by
        apply sound.found
        rw [isLooked]
        rfl
      exact absurd isLast (changed.2 (patient segment isSought) _)
    · intro other same
      have same : segment = other := same
      rw [← same]
      exact tidy.past process segment knows
    · exact fun _ impossible => nomatch impossible
  · have after : (protocol paths).next (phases process) (.semctlRmid id)
        removed = phases process := by
      simp only [protocol]
      split
      · rename_i segment mutex same
        exact absurd ⟨segment, mutex, same⟩ isLooked
      · rfl
    rw [after]
    apply sound.unlogged untold _ sized
    · exact fun _ isMade => isMade
    · exact fun _ hasFound => hasFound
    · rwa [Function.update_eq_self]

/-- The segment of the key is made. -/
theorem Sound.shmget_made {size : Nat} {made : Except Errno IpcId}
    {next : Except Errno IpcId → Prog Int} {state : Store}
    (isPlain : (phases process).stage = .plain)
    (exec : refusing.exec process
      (.shmget (paths.shmKey (phases process).key) size true true) pool.state
        made state) :
    Pool.Keeps (protocol paths) (Sound paths) pool phases process
      (.shmget (paths.shmKey (phases process).key) size true true) next made
        state := by
  refine ⟨trivial, ?_⟩
  have sems : SameSemNames pool.state state := exec_semNames rfl exec
  have sized : Sized state := sound.sized.exec rfl exec
  rcases exec_shmget_made exec with
    ⟨id, rfl, absent, isNext, found, last, others⟩ | ⟨⟨errno, rfl⟩, shms⟩
  · apply sound.moved _ sized
    · intro segment isMade
      cases isMade
      simp [making, Except.toOption]
    · exact fun _ impossible => impossible.elim
    · intro other different
      exact others_log different
    · exact sound.tidy.makeSegment absent isNext found last others sems
  · apply sound.moved _ sized
    · intro segment isMade
      have isMade : (phases process).stage = .made segment := isMade
      rw [isPlain] at isMade
      cases isMade
    · intro segment hasFound
      have hasFound : (phases process).stage.Sought segment := hasFound
      rw [isPlain] at hasFound
      exact hasFound.elim
    · intro other different
      exact others_log different
    · have tidy := sound.tidy.same sems shms
      rwa [← Function.update_eq_self process phases] at tidy

/-- The segment of the key is looked for. -/
theorem Sound.shmget_found {size : Nat} {found : Except Errno IpcId}
    {next : Except Errno IpcId → Prog Int} {state : Store}
    (isPlain : (phases process).stage = .plain)
    (exec : refusing.exec process
      (.shmget (paths.shmKey (phases process).key) size false true) pool.state
        found state) :
    Pool.Keeps (protocol paths) (Sound paths) pool phases process
      (.shmget (paths.shmKey (phases process).key) size false true) next found
        state := by
  refine ⟨trivial, ?_⟩
  have tidy : Tidy paths state phases :=
    sound.tidy.same (exec_semNames rfl exec) (exec_shmNames rfl exec)
  have sized : Sized state := sound.sized.exec rfl exec
  cases found with
  | ok id =>
      apply sound.moved _ sized
      · exact fun _ impossible => nomatch impossible
      · intro segment same
        have same : id = segment := same
        simp [sought, Except.toOption, same]
      · intro other different
        exact others_log different
      apply tidy.rephase
      · exact fun _ impossible => nomatch impossible
      · exact fun _ _ impossible => nomatch impossible
      · intro segment same
        have same : id = segment := same
        rcases Store.findShm_eq_some_iff.mp (exec_shmget exec) with
          ⟨isKey, isLast, _⟩
        rw [← same]
        refine ⟨isKey, Nat.le_of_eq ?_⟩
        rw [isKey, isLast]
      · exact fun _ impossible => nomatch impossible
  | error errno =>
      apply sound.moved _ sized
      · intro segment isMade
        have isMade : (phases process).stage = .made segment := isMade
        rw [isPlain] at isMade
        cases isMade
      · intro segment hasFound
        have hasFound : (phases process).stage.Sought segment := hasFound
        rw [isPlain] at hasFound
        exact hasFound.elim
      · intro other different
        exact others_log different
      · rwa [← Function.update_eq_self process phases] at tidy

/-- A segment that cannot be attached is given up by its maker, and is gone
for one that has found it. -/
theorem Sound.shmat {id : IpcId} {mapped : Except Errno Addr}
    {next : Except Errno Addr → Prog Int} {state : Store}
    (ready : (phases process).stage = .made id ∨
      (phases process).stage = .found id)
    (patient : Patient pool (.call process ⟨.shmat id, mapped⟩))
    (exec : refusing.exec process (.shmat id) pool.state mapped state) :
    Pool.Keeps (protocol paths) (Sound paths) pool phases process
      (.shmat id) next mapped state := by
  have untold : ¬ Tells (.shmat id) := not_false
  have shms : SameShmNames pool.state state := exec_shmNames rfl exec
  have tidy : Tidy paths state phases :=
    sound.tidy.same (exec_semNames rfl exec) shms
  have sized : Sized state := sound.sized.exec rfl exec
  cases mapped with
  | ok addr =>
      refine ⟨?_, ?_⟩
      · intro other same
        cases same
        exact exec_shmat exec
      apply sound.unlogged untold _ sized
      · exact fun _ isMade => isMade
      · exact fun _ hasFound => hasFound
      · rwa [← Function.update_eq_self process phases] at tidy
  | error errno =>
      refine ⟨?_, ?_⟩
      · intro _ impossible
        cases impossible
      rcases ready with isMaking | isFound
      · have after : (protocol paths).next (phases process) (.shmat id)
            (.error errno : Except Errno Addr) =
              { phases process with stage := .plain } := by
          cases isPhase : phases process
          rw [isPhase] at isMaking
          cases isMaking
          rfl
        rw [after]
        apply sound.unlogged untold tidy.plain sized
        · exact fun _ impossible => nomatch impossible
        · exact fun _ impossible => impossible.elim
      · have after : (protocol paths).next (phases process) (.shmat id)
            (.error errno : Except Errno Addr) =
              { phases process with stage := .lost id } := by
          cases isPhase : phases process
          rw [isPhase] at isFound
          cases isFound
          rfl
        have isSought : sought process pool.log = some id := by
          apply sound.found
          rw [isFound]
          rfl
        have gone : pool.state.shms id = none := patient isSought errno rfl
        rw [after]
        apply sound.unlogged untold _ sized
        · exact fun _ impossible => nomatch impossible
        · intro segment same
          rw [isFound]
          exact same
        apply tidy.rephase
        · exact fun _ impossible => nomatch impossible
        · exact fun _ _ impossible => nomatch impossible
        · intro segment same
          apply tidy.past process segment
          rw [isFound]
          exact same
        · intro segment same found
          cases same
          rw [shms.2] at found
          rcases (Store.findShm_eq_some_iff.mp found).2.2 with
            ⟨content, present, _⟩
          rw [gone] at present
          cases present

/-- The segment whose mutex is removed is removed. -/
theorem Sound.shmctlRmid {id : IpcId} {removed : Except Errno Unit}
    {next : Except Errno Unit → Prog Int} {state : Store}
    (ready : (phases process).stage = .looked id none ∨
      (phases process).stage = .lost id)
    (exec : refusing.exec process (.shmctlRmid id) pool.state removed state) :
    Pool.Keeps (protocol paths) (Sound paths) pool phases process
      (.shmctlRmid id) next removed state := by
  refine ⟨trivial, ?_⟩
  have untold : ¬ Tells (.shmctlRmid id) := not_false
  have sems : SameSemNames pool.state state := exec_semNames rfl exec
  have tidy : Tidy paths state phases := by
    rcases exec_shmctlRmid exec with shms | shms
    · exact sound.tidy.same sems shms
    · exact sound.tidy.removeSegment ready shms sems
  apply sound.unlogged untold _ (sound.sized.exec rfl exec)
  · exact fun _ isMade => isMade
  · exact fun _ hasFound => hasFound
  · rwa [← Function.update_eq_self process phases] at tidy

/-- A process ends or is killed. -/
theorem Sound.left {label : Label signature Pid}
    {procs : Pid → Option (Prog Int)}
    (isLeave : label = .leave process ∨ label = .kill process) :
    Sound paths (pool.record label (pool.state.leave process) procs)
      (Function.update phases process
        { phases process with stage := .plain }) := by
  have tidy : Tidy paths (pool.state.leave process) phases :=
    sound.tidy.same Store.leave_semNames Store.leave_shmNames
  apply sound.moved tidy.plain sound.sized.leave
  · exact fun _ impossible => nomatch impossible
  · exact fun _ impossible => impossible.elim
  · intro other different
    rcases isLeave with rfl | rfl
    · simp [making, sought, Ne.symm different]
    · simp [making, sought, Ne.symm different]

end Calls

theorem preserves :
    Pool.Preserves refusing Patient (protocol paths) (Sound paths) where
  call := by
    intro pool phases process call next answer state sound _ allowed exec fine
    cases call with
    | semget name nsems creat excl =>
        rcases allowed with ⟨rfl, allowed⟩
        cases creat with
        | true => exact sound.semget_made allowed exec
        | false => exact sound.semget_looked allowed fine exec
    | semctlRmid id => exact sound.semctlRmid allowed fine exec
    | shmget name size creat excl =>
        rcases allowed with ⟨rfl, isPlain, rfl⟩
        cases creat with
        | true => exact sound.shmget_made isPlain exec
        | false => exact sound.shmget_found isPlain exec
    | shmat id => exact sound.shmat allowed fine exec
    | shmctlRmid id => exact sound.shmctlRmid allowed exec
    | _ => first | exact sound.quiet trivial exec | exact allowed.elim
  fork := by
    intro pool phases parent child call next here there _ _ _ allowed forks _
    cases call <;> first | exact allowed.elim | cases forks
  leave := by
    intro pool phases process label sound isLeave _
    exact ⟨_, sound.left isLeave⟩

end Steps

/-! ## One more `delete` -/

/-- One more `delete` leaves nothing of the key, and a `create` after it
succeeds. -/
def Reusable (key : Key) (store : Store) : Prop :=
  ∀ process, Alone process (Lock.delete paths key) store fun _ after =>
    Vacant paths key after ∧
      ∀ creator semaphores expire,
        1 ≤ semaphores.toNat → semaphores.toNat ≤ SEMVMX →
          Program.Delivers granting creator (fun _ => False)
            (Lock.create paths key semaphores expire) (after.leave process)
            fun code _ => code = 0

theorem Tidy.reusable {paths : KeyPaths} {key : Key} {store : Store}
    {phases : Pid → Phase} (tidy : Tidy paths store phases)
    (sized : Sized store) (small : key.toNat < 128) :
    Reusable paths key store := by
  intro process
  apply delivers_delete clears_modest (tidy.owned key small)
    (fun id segment _ present => sized id segment present)
  intro after vacant _
  refine ⟨vacant, ?_⟩
  intro creator semaphores expire _ legal
  rw [← bind_pure (Lock.create paths key semaphores expire)]
  have fits : (semaphores.setWidth 16).toNat ≤ SEMVMX := by
    rw [BitVec.toNat_setWidth]
    exact Nat.le_trans (Nat.mod_le _ _) legal
  apply create_vacant (vacant_leave vacant process) fits
  intro _ _ _ _ _ _ _
  rfl

/-- The commands that are started. -/
structure Started (commands : Pid → Option (Key × Action)) : Prop where
  small : ∀ process command, commands process = some command →
    command.1.toNat < 128
  kind : ∀ process command, commands process = some command →
    MakesOrDeletes command.2

/-- The phases before the first step. -/
def starting (commands : Pid → Option (Key × Action)) (process : Pid) : Phase :=
  ⟨(commands process).elim 0 Prod.fst, .plain⟩

theorem sound_opening {commands : Pid → Option (Key × Action)} {now : Time}
    (started : Started commands) :
    Pool.Simulated (protocol paths) (Sound paths)
      (opening paths now commands) (starting commands) := by
  have noSem : ∀ name, (Store.empty now).findSem name = none := fun _ => rfl
  refine ⟨?_, ?_⟩
  · constructor
    · constructor
      · intro process
        cases isCommand : commands process with
        | none => simp [starting, isCommand]
        | some command =>
            simp only [starting, isCommand, Option.elim_some]
            exact started.small process command isCommand
      · intro key _ mutex isMutex
        have absent := noSem (mutexKey paths key)
        cases absent.symm.trans isMutex
      · exact fun _ _ impossible => nomatch impossible
      · exact fun _ _ _ impossible => nomatch impossible
      · exact fun _ _ _ impossible => nomatch impossible
      · exact fun _ _ impossible => impossible.elim
      · exact fun _ _ impossible => nomatch impossible
    · exact fun _ _ impossible => nomatch impossible
    · exact fun _ _ impossible => nomatch impossible
    · exact fun _ _ impossible => impossible.elim
  · intro process program running
    cases isCommand : commands process with
    | none => simp [opening, isCommand] at running
    | some command =>
        simp only [opening, isCommand, Option.map_some,
          Option.some.injEq] at running
        have kind := started.kind process command isCommand
        rcases command with ⟨key, action⟩
        have isPhase : starting commands process = ⟨key, .plain⟩ := by
          simp [starting, isCommand]
        rw [← running, isPhase]
        cases action with
        | create semaphores expire => exact conforms_create
        | delete => exact conforms_delete
        | _ => exact kind.elim

/-- In every run in which whoever has found a segment waits for its mutex to
be asked for, one more `delete` makes a key reusable. -/
theorem reusable_of_patient {commands : Pid → Option (Key × Action)}
    {now : Time} {pool : Pool signature Pid Store Int} {key : Key}
    (started : Started commands)
    (reach : Pool.Reach refusing Patient (opening paths now commands) pool)
    (small : key.toNat < 128) : Reusable paths key pool.state := by
  rcases reach.simulated preserves (sound_opening paths started) with
    ⟨phases, sound, _⟩
  exact sound.tidy.reusable sound.sized small

/-- A `create` and a `delete` of one key. -/
def createAndDelete : Pid → Option (Key × Action)
  | 1 => some (5, .create 1 0)
  | 2 => some (5, .delete)
  | _ => none

theorem createAndDelete_started : Started createAndDelete := by
  constructor
  · intro process command isCommand
    unfold createAndDelete at isCommand
    split at isCommand <;> cases isCommand <;> decide
  · intro process command isCommand
    unfold createAndDelete at isCommand
    split at isCommand <;> cases isCommand <;> trivial

theorem createAndDelete_confined (process : Pid)
    (outsider : process ∉ ([1, 2] : List Pid)) :
    (opening KeyPaths.devtmpfs 0 createAndDelete).procs process = none := by
  have missing : createAndDelete process = none := by
    unfold createAndDelete
    split
    · exact absurd (by simp) outsider
    · exact absurd (by simp) outsider
    · rfl
  simp [opening, missing]

/-- Nobody has made a segment and not asked for its mutex. -/
def noneMakes (log : List (Entry signature Pid Store)) : Bool :=
  log.all fun entry =>
    match entry.label with
    | .call maker _ => (making maker log).isNone
    | _ => true

theorem making_called {maker : Pid} {segment : IpcId}
    {log : List (Entry signature Pid Store)}
    (isMaking : making maker log = some segment) :
    ∃ entry ∈ log, ∃ event, entry.label = .call maker event := by
  fun_induction making maker log with
  | case1 => cases isMaking
  | case2 => exact ⟨_, List.mem_cons_self .., _, rfl⟩
  | case4 => cases isMaking
  | case6 => cases isMaking
  | case8 => cases isMaking
  | case3 | case5 | case7 | case9 | case10 =>
      rename_i ih
      rcases ih isMaking with ⟨entry, member, called⟩
      exact ⟨entry, List.mem_cons_of_mem _ member, called⟩

/-- The check of the run condition. -/
def patient (pool : Pool signature Pid Store Int) :
    Label signature Pid → Bool
  | .call process ⟨.semget _ _ false _, (looked : Except Errno IpcId)⟩ =>
      (sought process pool.log).isNone || noneMakes pool.log && looked.isOk
  | .call process ⟨.shmat _, (mapped : Except Errno Addr)⟩ =>
      (sought process pool.log).isNone || mapped.isOk
  | .call process ⟨.semctlRmid _, (removed : Except Errno Unit)⟩ =>
      (sought process pool.log).isNone || removed.isOk
  | _ => true

theorem noneMakes_sound {log : List (Entry signature Pid Store)}
    (passed : noneMakes log = true) (maker : Pid) (segment : IpcId) :
    making maker log ≠ some segment := by
  intro isMaking
  rcases making_called isMaking with ⟨entry, member, event, called⟩
  have quiet := List.all_eq_true.mp passed entry member
  simp [called, isMaking] at quiet

theorem patient_sound {members : List Pid}
    (pool : Pool signature Pid Store Int) (label : Label signature Pid)
    (_ : ∀ process, process ∉ members → pool.procs process = none)
    (passed : patient pool label = true) : Patient pool label := by
  cases label with
  | call process event =>
      rcases event with ⟨call, answer⟩
      cases call with
      | semget name nsems creat excl =>
          cases creat with
          | true => trivial
          | false =>
              intro segment isSought
              simp only [patient, isSought, Option.isNone_some, Bool.false_or,
                Bool.and_eq_true] at passed
              refine ⟨fun maker => noneMakes_sound passed.1 maker segment, ?_⟩
              rintro errno rfl
              cases passed.2
      | shmat segment =>
          intro isSought
          simp only [patient, isSought, Option.isNone_some,
            Bool.false_or] at passed
          rintro errno rfl
          cases passed
      | semctlRmid mutex =>
          intro segment isSought
          simp only [patient, isSought, Option.isNone_some,
            Bool.false_or] at passed
          rintro errno rfl
          cases passed
      | _ => trivial
  | _ => trivial

/-- A `delete` after the `create` leaves a key that is reusable. -/
theorem reusable_of_patient_deleted :
    ∃ pool, Pool.Reach refusing Patient
        (opening .devtmpfs 0 createAndDelete) pool ∧
      ((pool.procs 1).isNone && (pool.procs 2).isNone) = true ∧
      Reusable .devtmpfs 5 pool.state := by
  have computed : (follow patient (turns [(1, 27), (2, 16)])
      (opening .devtmpfs 0 createAndDelete)).any (fun pool =>
        (pool.procs 1).isNone && (pool.procs 2).isNone) = true := by
    decide
  have reached : ∃ pool,
      Pool.Reach refusing Patient (opening .devtmpfs 0 createAndDelete) pool ∧
        ((pool.procs 1).isNone && (pool.procs 2).isNone) = true :=
    follow_reaches patient_sound createAndDelete_confined turns_any computed
  rcases reached with ⟨pool, reach, finished⟩
  exact ⟨pool, reach, finished,
    reusable_of_patient .devtmpfs createAndDelete_started reach (by decide)⟩

/-- The mutex is made after `delete` has looked for it and before it removes
the segment: no further `delete` finds the mutex. -/
theorem not_reusable :
    ¬ ∀ (commands : Pid → Option (Key × Action)) (now : Time)
      (pool : Pool signature Pid Store Int) (key : Key),
      Started commands →
      Pool.Reach granting Pool.Unkilled (opening .devtmpfs now commands) pool →
      (∀ process, pool.procs process = none) → key.toNat < 128 →
        Reusable .devtmpfs key pool.state := by
  intro claimed
  have computed : (follow unkilled (turns [(1, 5), (2, 8), (1, 22), (2, 5)])
      (opening .devtmpfs 0 createAndDelete)).any (fun pool =>
        ((pool.procs 1).isNone && (pool.procs 2).isNone) &&
          (alone 3 {} (Lock.delete .devtmpfs 5) pool.state).any fun run =>
            (run.2.2.findSem (mutexKey .devtmpfs 5)).isSome) = true := by
    decide
  cases followed : follow unkilled (turns [(1, 5), (2, 8), (1, 22), (2, 5)])
      (opening .devtmpfs 0 createAndDelete) with
  | none =>
      rw [followed] at computed
      cases computed
  | some pool =>
      rw [followed, Option.any_some, Bool.and_eq_true, Bool.and_eq_true,
        Option.isNone_iff_eq_none, Option.isNone_iff_eq_none] at computed
      rcases computed with ⟨⟨first, second⟩, computed⟩
      have reach : Pool.Reach granting Pool.Unkilled
          (opening .devtmpfs 0 createAndDelete) pool :=
        follow_reach unkilled_sound createAndDelete_confined turns_grants
          followed
      have finished : ∀ process, pool.procs process = none := by
        intro process
        by_cases outsider : process ∈ ([1, 2] : List Pid)
        · simp only [List.mem_cons, List.not_mem_nil, or_false] at outsider
          rcases outsider with rfl | rfl
          · exact first
          · exact second
        · exact follow_confined followed
            (createAndDelete_confined process outsider)
      have modest : Modest {} := ⟨⟨rfl, rfl⟩, by decide⟩
      rcases alone_run modest computed with
        ⟨events, code, after, runs, stays⟩
      have reusable := claimed createAndDelete 0 pool 5 createAndDelete_started
        reach finished (by decide)
      have vacant := ((reusable 3).runs runs fun _ _ => not_false).1
      have gone : after.findSem (mutexKey .devtmpfs 5) = none := vacant.mutex
      rw [gone] at stays
      cases stays

end Atomicles.Reuse
