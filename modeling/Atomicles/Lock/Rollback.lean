import Atomicles.Kernel.Frame
import Atomicles.Source.Equations

/-!
# What a failed creation leaves

`create` makes the user's set, the segment and the mutex of the segment one
after the other.  When a later step fails it frees its handles only: each
`Semaphore$delete` and `SharedMemory$delete` on these paths is called without
the removal of the object.  So a failure leaves the store as it was exactly if
it comes before the first object is made.
-/

namespace Atomicles.Rollback

open Interaction

/-! ## Calls that fail -/

/-- A call of the creation that failed.  A failure of `mlockall` is none,
because `mlock` is tried next. -/
def fails : Event signature → Bool
  | ⟨.mallocSemaphore, (block : Option Unit)⟩ => block.isNone
  | ⟨.mallocSharedMemory, (block : Option SharedMemory)⟩ => block.isNone
  | ⟨.semget .., (made : Except Errno IpcId)⟩ => !made.isOk
  | ⟨.semctlSetall .., (outcome : Except Errno Unit)⟩ => !outcome.isOk
  | ⟨.shmget .., (made : Except Errno IpcId)⟩ => !made.isOk
  | ⟨.shmat .., (mapped : Except Errno Addr)⟩ =>
      match mapped with
      | .ok addr => decide (addr = .failed)
      | .error _ => true
  | ⟨.mlock .., (locked : Except Errno Unit)⟩ => !locked.isOk
  | _ => false

/-- A set was made. -/
def makes : Event signature → Bool
  | ⟨.semget _ _ creat _, (made : Except Errno IpcId)⟩ => creat && made.isOk
  | _ => false

/-- No call failed after a set was made. -/
def Smooth (events : List (Event signature)) : Prop :=
  (∀ event ∈ events, makes event = false) ∨
    ∀ event ∈ events, fails event = false

/-- Calls that remove no set. -/
def Keeps : Call → Prop
  | .semctlRmid _ => False
  | .interruptible _ => False
  | _ => True

/-- The program removes no set, gives up at the first call that fails, and
returns 0 if none does. -/
def Settles : Prog Int → Prop
  | .done code => code = 0
  | .issue call next => Keeps call ∧ ∀ answer : call.Answer,
      if fails ⟨call, answer⟩ then next answer = .done (-1)
      else Settles (next answer)

theorem settles_die (cause : Death) : Settles (die cause) :=
  ⟨trivial, fun impossible => impossible.elim⟩

/-- Such a program returns 0 exactly if no call failed. -/
theorem Settles.code_iff {program : Prog Int}
    {events : List (Event signature)} {code : Int}
    (settles : Settles program) (ends : program.Ends events code) :
    code = 0 ↔ ∀ event ∈ events, fails event = false := by
  induction ends with
  | done value => simpa [Settles] using settles
  | @issue call next answer events value rest ih =>
      have here := settles.2 answer
      cases failed : fails ⟨call, answer⟩ with
      | true =>
          rw [failed, if_pos rfl] at here
          rw [here, Program.ends_done_iff] at rest
          simp [rest.2, failed]
      | false =>
          rw [failed] at here
          simpa [failed] using ih here

theorem Settles.within {program : Prog Int} (settles : Settles program) :
    program.Within Keeps := by
  induction program with
  | done value => trivial
  | issue call next ih =>
      refine ⟨settles.1, ?_⟩
      intro answer
      have here := settles.2 answer
      split at here
      · rw [here]
        trivial
      · exact ih answer here

variable {paths : KeyPaths} {key : Key}

/-- `Semaphore$new` where no set may be attached. -/
theorem settles_new_semaphore {name : Key} {count size : UShort}
    {continuation : Option Semaphore → Prog Int}
    (made : ∀ shsem, Settles (continuation (some shsem)))
    (failed : continuation none = .done (-1)) :
    Settles (Semaphore.new paths name count size false >>= continuation) := by
  rw [Semaphore.new_bind]
  refine ⟨trivial, ?_⟩
  intro (block : Option Unit)
  cases block with
  | none => exact failed
  | some success =>
      refine ⟨trivial, ?_⟩
      intro (answer : Except Errno IpcId)
      cases answer with
      | error errno => simpa [fails, Except.isOk, Except.toBool] using failed
      | ok id =>
          refine ⟨trivial, ?_⟩
          intro (outcome : Except Errno Unit)
          cases outcome with
          | error errno => exact failed
          | ok success => exact made _

/-- The locking of pages. -/
theorem settles_lockPages {shmem : SharedMemory}
    {continuation : Int → Prog Int}
    (locked : Settles (continuation 0))
    (failed : continuation 1 = .done (-1)) :
    Settles (SharedMemory.lockPages shmem >>= continuation) := by
  rw [SharedMemory.lockPages_bind]
  refine ⟨trivial, ?_⟩
  intro (all : Except Errno Unit)
  cases all with
  | ok success => exact locked
  | error errno =>
      refine ⟨trivial, ?_⟩
      intro (outcome : Except Errno Unit)
      cases outcome with
      | ok success => exact locked
      | error errno => exact failed

/-- `SharedMemory$new` where nothing may be attached. -/
theorem settles_new_segment {size : Nat}
    {continuation : Option SharedMemory → Prog Int}
    (made : ∀ shmem, Settles (continuation (some shmem)))
    (failed : continuation none = .done (-1)) :
    Settles (SharedMemory.new paths key size false >>= continuation) := by
  simp only [SharedMemory.new, mallocSharedMemory, Program.issue_bind,
    Program.done_bind]
  refine ⟨trivial, ?_⟩
  intro (block : Option SharedMemory)
  cases block with
  | none => exact failed
  | some block =>
      simp only [bind_assoc]
      rw [SharedMemory.newSegment_bind]
      refine ⟨trivial, ?_⟩
      intro (answer : Except Errno IpcId)
      cases answer with
      | error errno =>
          simpa [fails, Except.isOk, Except.toBool, errno.code_ne_success,
            SharedMemory.delete] using failed
      | ok id =>
          dsimp only
          rw [SharedMemory.shmat_bind]
          refine ⟨trivial, ?_⟩
          intro (mapped : Except Errno Addr)
          cases mapped with
          | error errno =>
              simpa [fails, EXIT_FAILURE, EXIT_SUCCESS, SharedMemory.delete]
                using failed
          | ok addr =>
              by_cases unmapped : addr = .failed
              · simpa [fails, unmapped, EXIT_FAILURE, EXIT_SUCCESS,
                  SharedMemory.delete] using failed
              · simp only [fails, unmapped, ne_eq, not_false_eq_true,
                  decide_false, Bool.false_eq_true, if_true, if_false,
                  bind_assoc]
                apply settles_new_semaphore
                · intro shsem
                  simp only [bind_assoc]
                  apply settles_lockPages
                  · exact made _
                  · simpa [EXIT_SUCCESS, SharedMemory.delete] using failed
                · simpa [SharedMemory.delete] using failed

/-- The words are written without a call that counts as a failure: a process
that cannot write ends inside the call. -/
theorem settles_writeWord {shmem : SharedMemory} {offset : UShort} {n : UInt}
    {continuation : Unit → Prog Int} (rest : Settles (continuation ())) :
    Settles (SharedMemory.writeWord shmem offset n >>= continuation) := by
  simp only [SharedMemory.writeWord, bind_assoc]
  cases owned : shmem.shsem with
  | none =>
      rw [SharedMemory.enter_bind_none owned]
      exact settles_die _
  | some shsem =>
      have stored : Settles (do
          store shmem.addr offset.toNat n
          SharedMemory.exit shmem
          continuation ()) := by
        rw [SharedMemory.store_bind]
        refine ⟨trivial, ?_⟩
        intro (done : Option Unit)
        cases done with
        | none => exact settles_die _
        | some success =>
            rw [SharedMemory.exit_bind owned]
            refine ⟨trivial, ?_⟩
            intro (value : Except Errno Nat)
            simp only [fails, Bool.false_eq_true, if_false]
            split
            · refine ⟨trivial, ?_⟩
              intro (outcome : Except Errno Unit)
              cases outcome with
              | ok success => exact rest
              | error errno => exact settles_die _
            · exact settles_die _
      rw [SharedMemory.enter_bind owned]
      refine ⟨trivial, ?_⟩
      intro (outcome : Except Errno Unit)
      cases outcome with
      | ok success => exact stored
      | error errno =>
          by_cases removed : errno = .EIDRM
          · simp only [fails, removed, if_true, Bool.false_eq_true, if_false]
            exact stored
          · simp only [fails, removed, Bool.false_eq_true, if_false]
            exact settles_die _

/-- `create` returns 0 exactly if no call fails. -/
theorem settles_create (semaphores : UInt) (expire : Time) :
    Settles (Lock.create paths key semaphores expire) := by
  unfold Lock.create
  apply settles_new_semaphore
  · intro shsem
    apply settles_new_segment
    · intro shmem
      apply settles_writeWord
      apply settles_writeWord
      apply settles_writeWord
      apply settles_writeWord
      cases owned : shmem.shsem <;>
        simp [SharedMemory.delete, owned, Settles]
    · rfl
  · rfl

/-! ## The store -/

/-- The same objects with the same contents, found under the same names. -/
structure SameObjects (before after : Store) : Prop where
  sems : after.sems = before.sems
  shms : after.shms = before.shms
  semNames : ∀ name, after.findSem name = before.findSem name
  shmNames : ∀ name, after.findShm name = before.findShm name

theorem SameObjects.of_same {before after : Store}
    (sems : SameSems before after) (shms : SameShms before after) :
    SameObjects before after where
  sems := sems.1
  shms := shms.1
  semNames := by
    intro name
    rw [Store.findSem, sems.1, sems.2]
    rfl
  shmNames := by
    intro name
    rw [Store.findShm, shms.1, shms.2]
    rfl

theorem SameObjects.trans {first second third : Store}
    (before : SameObjects first second) (after : SameObjects second third) :
    SameObjects first third where
  sems := after.sems.trans before.sems
  shms := after.shms.trans before.shms
  semNames := fun name => (after.semNames name).trans (before.semNames name)
  shmNames := fun name => (after.shmNames name).trans (before.shmNames name)

variable {admits : Choice → Prop} {process : Pid} {store after : Store}

/-- Another content of an existing set changes no name. -/
theorem findSem_setSem {name : Key} {id other : IpcId} {set : SemSet}
    (found : store.findSem name = some id) :
    (store.setSem other (some set)).findSem name = some id := by
  rcases Store.findSem_eq_some_iff.mp found with ⟨named, last, present⟩
  refine Store.findSem_eq_some_iff.mpr ⟨named, last, ?_⟩
  by_cases same : id = other
  · subst same
    simp
  · simpa [Function.update_of_ne same] using present

/-- A set found under a name is found there after a granted call that removes
no set. -/
theorem grant_findSem {call : Call} {answer : call.Answer} {choice : Choice}
    {name : Key} {id : IpcId} (keeps : Keeps call)
    (found : store.findSem name = some id)
    (granted : grant process choice store call = some (answer, after)) :
    after.findSem name = some id := by
  by_cases spares : call.sparesSems = true
  · have same := grant_sameSems spares granted
    rw [Store.findSem, same.1, same.2]
    exact found
  · cases call with
    | semget other nsems creat excl =>
        have final := congrArg Prod.snd (Option.some.inj granted)
        rw [← show _ = after from final]
        rcases Store.findSem_eq_some_iff.mp found with ⟨rfl, last, present⟩
        unfold Store.semget
        split
        · split
          · exact found
          · split <;> exact found
        · rename_i absent
          split
          · exact found
          · split
            · exact found
            · have different : id.key ≠ other := by
                rintro rfl
                rw [absent] at found
                cases found
              refine Store.findSem_eq_some_iff.mpr ⟨rfl, ?_, ?_⟩
              · simpa [Function.update_of_ne different] using last
              · have old : id ≠ store.nextSem other := by
                  rintro rfl
                  exact different rfl
                simpa [Function.update_of_ne old] using present
    | semctlSetall other array =>
        have final := congrArg Prod.snd (Option.some.inj granted)
        rw [← show _ = after from final]
        unfold Store.semctlSetall
        split
        · exact found
        · split
          · exact found
          · exact findSem_setSem found
    | semop other semNum semOp undo nowait =>
        simp only [grant, Store.semop] at granted
        repeat' split at granted
        all_goals cases granted
        all_goals first
          | exact found
          | exact findSem_setSem found
    | semctlRmid other => exact keeps.elim
    | interruptible call => exact keeps.elim
    | _ => exact absurd rfl spares

/-- A set found under a name is found there after a call that removes no
set. -/
theorem exec_findSem {call : Call} {answer : call.Answer} {name : Key}
    {id : IpcId} (keeps : Keeps call) (found : store.findSem name = some id)
    (exec : (kernel admits).exec process call store answer after) :
    after.findSem name = some id := by
  rcases exec with ⟨choice, _, served⟩
  unfold serve at served
  split at served
  · have final : after = _ := (congrArg Prod.snd (Option.some.inj served)).symm
    rw [final]
    exact found
  · have advanced : (store.advance choice.tick).findSem name = some id := found
    exact grant_findSem keeps advanced served

/-- The exclusive `semget` makes a set where there was none, or does nothing. -/
theorem exec_semget {name : Key} {nsems : Nat} {made : Except Errno IpcId}
    (exec : (kernel admits).exec process (.semget name nsems true true) store
      made after) :
    (∃ id, made = .ok id ∧ store.findSem name = none ∧
      after.findSem name = some id) ∨
    (∃ errno, made = .error errno) ∧ SameSems store after := by
  rcases exec with ⟨choice, _, served⟩
  unfold serve at served
  split at served
  · rename_i refused
    rcases Option.bind_eq_some_iff.mp refused with ⟨errno, _, answer⟩
    cases served
    cases answer
    exact Or.inr ⟨⟨errno, rfl⟩, rfl, rfl⟩
  · simp only [grant, Store.semget, Bool.and_self, Bool.not_true,
      Bool.false_eq_true, if_true, if_false, Option.some.injEq] at served
    split at served
    · cases served
      exact Or.inr ⟨⟨_, rfl⟩, rfl, rfl⟩
    · rename_i absent
      split at served
      · cases served
        exact Or.inr ⟨⟨_, rfl⟩, rfl, rfl⟩
      · cases served
        refine Or.inl ⟨_, rfl, absent, ?_⟩
        apply Store.findSem_eq_some_iff.mpr
        simp [Store.nextSem]

theorem runs_findSem {Value : Type} {program : Prog Value} {name : Key}
    {id : IpcId} {events : List (Event signature)} {value : Value}
    (keeps : program.Within Keeps) (found : store.findSem name = some id)
    (runs : program.Runs (kernel admits) process store events value after) :
    after.findSem name = some id := by
  induction runs with
  | done value store => exact found
  | issue head rest ih =>
      exact ih (keeps.2 _) (exec_findSem keeps.1 found head)

/-! ## The result -/

/--
A failed `create` leaves the store as it was exactly if no call failed after
the first object was made.
-/
theorem create_atomic_iff (paths : KeyPaths) (key : Key) (semaphores : UInt)
    (expire : Time) (process : Pid) (store after : Store)
    (events : List (Event signature)) (code : Int)
    (runs : (Lock.create paths key semaphores expire).Runs refusing process
      store events code after) :
    (code ≠ 0 → SameObjects store after) ↔ Smooth events := by
  have settles : Settles (Lock.create paths key semaphores expire) :=
    settles_create semaphores expire
  have codes := settles.code_iff runs.ends
  have keeps := settles.within
  unfold Lock.create at runs keeps
  rw [Semaphore.new_bind] at runs keeps
  rcases Program.runs_issue_iff.mp runs with
    ⟨(block : Option Unit), middle, rest, rfl, allocates, runs⟩
  have spared := SameObjects.of_same (exec_sameSems rfl allocates)
    (exec_sameShms rfl allocates)
  have keeps := keeps.2 block
  cases block with
  | none =>
      rcases Program.runs_done_iff.mp runs with ⟨rfl, rfl, rfl⟩
      exact iff_of_true (fun _ => spared) (Or.inl (by simp [makes]))
  | some success =>
      rcases Program.runs_issue_iff.mp runs with
        ⟨(made : Except Errno IpcId), made', rest, rfl, exec, runs⟩
      have keeps := keeps.2 made
      rcases exec_semget exec with
        ⟨id, rfl, absent, found⟩ | ⟨⟨errno, rfl⟩, sems⟩
      · -- The set is there, and nothing that follows removes it.
        have stays : after.findSem (paths.semKey key) = some id :=
          runs_findSem keeps found runs
        have absent : store.findSem (paths.semKey key) = none := by
          rw [← spared.semNames]
          exact absent
        have changed : ¬ SameObjects store after := by
          intro same
          have names := same.semNames (paths.semKey key)
          rw [stays, absent] at names
          cases names
        constructor
        · intro unchanged
          apply Or.inr
          apply codes.mp
          by_cases failed : code = 0
          · exact failed
          · exact absurd (unchanged failed) changed
        · rintro (unmade | smooth) failed
          · have made := unmade
              ⟨.semget (paths.semKey key) (Lock.SHSEM_COUNT).toNat true true,
                (.ok id : Except Errno IpcId)⟩ (by simp)
            cases made
          · exact absurd (codes.mpr smooth) failed
      · have shms := exec_sameShms rfl exec
        have ends : ¬ (false = true ∧ errno = .EEXIST) := by simp
        simp only [ends, if_false] at runs
        rcases Program.runs_done_iff.mp runs with ⟨rfl, rfl, rfl⟩
        have same : SameObjects store after :=
          spared.trans (.of_same sems shms)
        exact iff_of_true (fun _ => same) (Or.inl (by simp [makes, Except.isOk,
          Except.toBool]))

/-- A lock of size 5 is made in an empty store, without a failure. -/
theorem create_atomic_iff_made :
    ∃ events after,
      (Lock.create KeyPaths.devtmpfs 5 5 0).Runs refusing 1 (.empty 0) events
        0 after ∧ Smooth events := by
  have computed : (alone 1 {} (Lock.create KeyPaths.devtmpfs 5 5 0)
      (.empty 0)).any (fun run => decide (run.2.1 = 0)) = true := by
    decide
  have ran : ∃ events code after,
      (Lock.create KeyPaths.devtmpfs 5 5 0).Runs refusing 1 (.empty 0) events
        code after ∧ decide (code = 0) = true :=
    alone_run trivial computed
  rcases ran with ⟨events, code, after, runs, isZero⟩
  have isZero := of_decide_eq_true isZero
  subst isZero
  refine ⟨events, after, runs, ?_⟩
  exact (create_atomic_iff KeyPaths.devtmpfs 5 5 0 1 (.empty 0) after events 0
    runs).mp (fun failed => absurd rfl failed)

/-- `SETALL` refuses the size 40000, and the set that was made for it
stays. -/
theorem oversized_set_stays :
    ∃ events after,
      (Lock.create KeyPaths.devtmpfs 5 40000 0).Runs refusing 1 (.empty 0)
        events (-1) after ∧
      (Store.empty 0).findSem (KeyPaths.devtmpfs.semKey 5) = none ∧
      after.findSem (KeyPaths.devtmpfs.semKey 5) =
        some ⟨KeyPaths.devtmpfs.semKey 5, 1⟩ ∧
      ¬ SameObjects (.empty 0) after := by
  have computed : (alone 1 {} (Lock.create KeyPaths.devtmpfs 5 40000 0)
      (.empty 0)).any (fun run => decide (run.2.1 = -1 ∧
        run.2.2.findSem (KeyPaths.devtmpfs.semKey 5) =
          some ⟨KeyPaths.devtmpfs.semKey 5, 1⟩)) = true := by
    decide
  have ran : ∃ events code after,
      (Lock.create KeyPaths.devtmpfs 5 40000 0).Runs refusing 1 (.empty 0)
        events code after ∧ decide (code = -1 ∧
          after.findSem (KeyPaths.devtmpfs.semKey 5) =
            some ⟨KeyPaths.devtmpfs.semKey 5, 1⟩) = true :=
    alone_run trivial computed
  rcases ran with ⟨events, code, after, runs, found⟩
  rcases of_decide_eq_true found with ⟨rfl, stays⟩
  refine ⟨events, after, runs, rfl, stays, ?_⟩
  intro same
  have names := same.semNames (KeyPaths.devtmpfs.semKey 5)
  rw [stays] at names
  cases names

end Atomicles.Rollback
