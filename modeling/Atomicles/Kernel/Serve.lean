import Atomicles.Interaction.Pool
import Atomicles.Kernel.Store

/-!
# The kernel as a machine

`serve` computes the answer to a call.  What the store does not determine is
collected in a `Choice`: how much time passes before the call, whether the
kernel refuses it, what memory that was never written contains, and the
answers of calls that do not concern the IPC store.  A kernel is a machine
whose answers come from the choices it admits, so the same program is run
against a kernel that grants every legal request (`granting`) and against one
that may refuse any call (`refusing`).
-/

namespace Atomicles

open Interaction

/-- What decides the answer to a call besides the store. -/
structure Choice where
  /-- Seconds that pass before the call is served. -/
  tick : Nat := 0
  /-- The error a refused call gets. -/
  refuse : Option Errno := none
  /-- Whether `malloc` has memory. -/
  memory : Bool := true
  /-- Whether a `semop` on a removed set was under way at its removal. -/
  underWay : Bool := false
  /-- The former content of a block that `malloc` returns. -/
  block : SharedMemory :=
    ⟨0, ⟨0, 0⟩, ⟨false, 0⟩, .null, none⟩
  /-- The former content of a `struct semid_ds` on the stack. -/
  stack : SemidDs := ⟨0, 0⟩
  /-- The answer of `fork`. -/
  child : Int := 0
  /-- The status that `waitpid` reports. -/
  status : Int × WaitStatus := (0, .exited 0)
  /-- A signal delivered in place of the call, where the caller can take it. -/
  signal : Option Signal := none

/-- How a call says that it was refused; some calls cannot. -/
def Call.refused : (call : Call) → Errno → Option call.Answer
  | .semget .., errno => some (Except.error errno : Except Errno IpcId)
  | .semctlSetall .., errno => some (Except.error errno : Except Errno Unit)
  | .semctlGetval .., errno => some (Except.error errno : Except Errno Nat)
  | .semctlRmid .., errno => some (Except.error errno : Except Errno Unit)
  | .semop .., errno => some (Except.error errno : Except Errno Unit)
  | .shmget .., errno => some (Except.error errno : Except Errno IpcId)
  | .shmat .., errno => some (Except.error errno : Except Errno Addr)
  | .shmdt .., errno => some (Except.error errno : Except Errno Unit)
  | .shmctlRmid .., errno => some (Except.error errno : Except Errno Unit)
  | .mlockall, errno => some (Except.error errno : Except Errno Unit)
  | .mlock .., errno => some (Except.error errno : Except Errno Unit)
  | .munlockall, errno => some (Except.error errno : Except Errno Unit)
  | .kill .., errno => some (Except.error errno : Except Errno Unit)
  | .waitpid .., errno =>
      some (Except.error errno : Except Errno (Int × WaitStatus))
  | .sigaction .., errno => some (Except.error errno : Except Errno Unit)
  | .getrlimit, errno => some (Except.error errno : Except Errno Unit)
  | _, _ => none

/-- The answer to a call that is not refused; `none` if the call has to wait
or has no answer. -/
def grant (process : Pid) (choice : Choice) (store : Store) :
    (call : Call) → Option (call.Answer × Store)
  | .mallocSemaphore => some (if choice.memory then some () else none, store)
  | .mallocSharedMemory =>
      some
        (if choice.memory then
          some { choice.block with
            size := { choice.block.size with assigned := false } }
        else none, store)
  | .semget key nsems creat excl => some (store.semget key nsems creat excl)
  | .semctlSetall id array => some (store.semctlSetall id array)
  | .semctlGetval id semnum => some (store.semctlGetval id semnum, store)
  | .semctlStat id =>
      some
        ((store.sems id).elim choice.stack
          fun set => ⟨set.semvals.length, set.sem_ctime⟩, store)
  | .semctlRmid id => some (store.semctlRmid id)
  | .semop id semNum semOp undo nowait =>
      store.semop process id semNum semOp undo nowait choice.underWay
  | .shmget key size creat excl => some (store.shmget key size creat excl)
  | .shmat id => some (store.shmat process id)
  | .shmdt addr => some (store.shmdt process addr)
  | .shmctlRmid id => some (store.shmctlRmid id)
  | .memset addr n => some (store.memset process addr n)
  | .mlockall => some (.ok (), store)
  | .mlock .. => some (.ok (), store)
  | .munlockall => some (.ok (), store)
  | .load addr offset => some (store.load process addr offset, store)
  | .store addr offset value => some (store.storeWord process addr offset value)
  | .vsnprintf addr offset n text =>
      some (store.vsnprintf process addr offset n text)
  | .strncpy addr offset n => some (store.strncpy process addr offset n, store)
  | .time => some (store.now, store)
  | .sleep seconds => some ((), store.advance seconds)
  | .printf .. => some ((), store)
  | .fork => some (choice.child, store)
  | .kill .. => some (.ok (), store)
  | .waitpid .. => some (.ok choice.status, store)
  | .sigaction .. => some (.ok (), store)
  | .getrlimit => some (.ok (), store)
  | .execvp => some (choice.refuse.getD .ENOENT, store)
  | .die .. => none
  | .interruptible call =>
      match choice.signal with
      | some signal => some (.inl signal, store)
      | none =>
          (grant process choice store call).map fun result =>
            (.inr result.1, result.2)

/-- Serve one call: time passes, then the call is refused or granted. -/
def serve (process : Pid) (choice : Choice) (call : Call) (store : Store) :
    Option (call.Answer × Store) :=
  match choice.refuse.bind call.refused with
  | some answer => some (answer, store.advance choice.tick)
  | none => grant process choice (store.advance choice.tick) call

/-- The calls by which a process ends. -/
def Call.ends : Call → Bool
  | .die _ => true
  | _ => false

/-- The end of a process has no answer. -/
theorem serve_ends {process : Pid} {choice : Choice} {call : Call}
    {store : Store} (ends : call.ends = true) :
    serve process choice call store = none := by
  cases call with
  | die cause =>
      cases refuse : choice.refuse <;> simp [serve, refuse, grant, Call.refused]
  | _ => cases ends

/-- The kernel that answers according to the choices it admits. -/
def kernel (admits : Choice → Prop) : Machine signature Pid Store where
  exec process call store answer after :=
    ∃ choice, admits choice ∧ serve process choice call store =
      some (answer, after)
  leave := Store.leave
  fork call child :=
    match call with
    | .fork => some ((child : Int), (0 : Int))
    | _ => none
  clone parent child store :=
    { store with
      shms := fun id => (store.shms id).map fun segment =>
        { segment with
          attached := List.replicate (segment.attached.count parent) child ++
            segment.attached } }

/-- Every request that is legal in the current store is granted. -/
def Grants (choice : Choice) : Prop :=
  choice.refuse = none ∧ choice.memory = true

/-- The kernel that grants every legal request. -/
abbrev granting : Machine signature Pid Store :=
  kernel Grants

/-- The kernel that may refuse any call. -/
abbrev refusing : Machine signature Pid Store :=
  kernel fun _ => True

theorem granting_exec_iff {process : Pid} {call : Call} {store after : Store}
    {answer : call.Answer} :
    granting.exec process call store answer after ↔
      ∃ choice : Choice, choice.memory = true ∧
        choice.refuse = none ∧
        grant process choice (store.advance choice.tick) call =
          some (answer, after) := by
  constructor
  · rintro ⟨choice, ⟨unrefused, memory⟩, served⟩
    refine ⟨choice, memory, unrefused, ?_⟩
    simpa [serve, unrefused] using served
  · rintro ⟨choice, memory, unrefused, granted⟩
    refine ⟨choice, ⟨unrefused, memory⟩, ?_⟩
    simpa [serve, unrefused] using granted

/-- A call that is granted whatever the kernel chooses is no obstacle. -/
theorem delivers_served {Value : Type} {process : Pid}
    {exempt : Call → Prop} {admits : Choice → Prop} {call : Call}
    {next : call.Answer → Prog Value} {store : Store}
    {post : Value → Store → Prop} (chosen : ∃ choice, admits choice)
    (grants : ∀ choice, admits choice → Grants choice)
    (served : ∀ choice, admits choice → ∃ answer after,
      grant process choice (store.advance choice.tick) call =
        some (answer, after) ∧
      Program.Delivers (kernel admits) process exempt (next answer) after
        post) :
    Program.Delivers (kernel admits) process exempt (.issue call next) store
      post := by
  have unrefused : ∀ choice, admits choice →
      serve process choice call store =
        grant process choice (store.advance choice.tick) call := by
    intro choice admitted
    simp [serve, (grants choice admitted).1]
  refine Or.inr ⟨?_, ?_⟩
  · rcases chosen with ⟨choice, admitted⟩
    rcases served choice admitted with ⟨answer, after, granted, _⟩
    exact ⟨answer, after, choice, admitted,
      (unrefused choice admitted).trans granted⟩
  · rintro answer after ⟨choice, admitted, granted⟩
    rw [unrefused choice admitted] at granted
    rcases served choice admitted with ⟨answer', after', granted', delivers⟩
    rw [granted'] at granted
    cases granted
    exact delivers

theorem delivers_granted {Value : Type} {process : Pid}
    {exempt : Call → Prop} {call : Call}
    {next : call.Answer → Prog Value} {store : Store}
    {post : Value → Store → Prop}
    (served : ∀ choice, Grants choice → ∃ answer after,
      grant process choice (store.advance choice.tick) call =
        some (answer, after) ∧
      Program.Delivers granting process exempt (next answer) after post) :
    Program.Delivers granting process exempt (.issue call next) store post :=
  delivers_served ⟨{}, rfl, rfl⟩ (fun _ grants => grants) served

/-! ## Computed runs -/

/-- Run one program with no other process in between, with the same choice at
every call. -/
def alone {Value : Type} (process : Pid) (choice : Choice) :
    Prog Value → Store → Option (List (Event signature) × Value × Store)
  | .done value, store => some ([], value, store)
  | .issue call next, store =>
      match serve process choice call store with
      | none => none
      | some (answer, after) =>
          (alone process choice (next answer) after).map fun run =>
            (⟨call, answer⟩ :: run.1, run.2)

theorem alone_runs {Value : Type} {admits : Choice → Prop} {process : Pid}
    {choice : Choice} {program : Prog Value} {store after : Store}
    {events : List (Event signature)} {value : Value}
    (admitted : admits choice)
    (ran : alone process choice program store = some (events, value, after)) :
    program.Runs (kernel admits) process store events value after := by
  induction program generalizing store events with
  | done result =>
      cases ran
      exact .done _ _
  | issue call next ih =>
      unfold alone at ran
      split at ran
      · cases ran
      · rename_i answer middle served
        rcases Option.map_eq_some_iff.mp ran with
          ⟨⟨rest, value, after⟩, later, same⟩
        cases same
        exact .issue ⟨choice, admitted, served⟩ (ih answer later)

/-- A program whose computed run has a property has a run with it. -/
theorem alone_run {Value : Type} {admits : Choice → Prop} {process : Pid}
    {choice : Choice} {program : Prog Value} {store : Store}
    {property : List (Event signature) × Value × Store → Bool}
    (admitted : admits choice)
    (computed : (alone process choice program store).any property = true) :
    ∃ events value after,
      program.Runs (kernel admits) process store events value after ∧
        property (events, value, after) = true := by
  cases ran : alone process choice program store with
  | none =>
      rw [ran] at computed
      cases computed
  | some run =>
      rw [ran] at computed
      exact ⟨run.1, run.2.1, run.2.2, alone_runs admitted ran, computed⟩

/-- Whether a program that runs alone, with the same choice at every call, comes
to its death. -/
def dies {Value : Type} (process : Pid) (choice : Choice) :
    Prog Value → Store → Bool
  | .done _, _ => false
  | .issue call next, store =>
      call.ends ||
        match serve process choice call store with
        | none => false
        | some (answer, after) => dies process choice (next answer) after

/-- A program that may come to its death need not return. -/
theorem not_delivers_of_dies {Value : Type} {admits : Choice → Prop}
    {process : Pid} {choice : Choice} {program : Prog Value} {store : Store}
    {post : Value → Store → Prop} (admitted : admits choice)
    (death : dies process choice program store = true) :
    ¬ program.Delivers (kernel admits) process (fun _ => False) store post := by
  induction program generalizing store with
  | done value => cases death
  | issue call next ih =>
      rintro (impossible | ⟨⟨answer, after, other, _, served⟩, delivers⟩)
      · exact impossible
      unfold dies at death
      rcases Bool.or_eq_true_iff.mp death with isEnd | later
      · rw [serve_ends isEnd] at served
        cases served
      · split at later
        · cases later
        · rename_i answer after served
          exact ih answer later
            (delivers answer after ⟨choice, admitted, served⟩)

/-- Let one process of a pool make its next call, or leave if it has ended. -/
def turn {Value : Type} (process : Pid) (choice : Choice)
    (pool : Pool signature Pid Store Value) :
    Option (Label signature Pid × Pool signature Pid Store Value) :=
  match pool.procs process with
  | none => none
  | some (.done _) =>
      some (.leave process, pool.record (.leave process)
        (pool.state.leave process) (Function.update pool.procs process none))
  | some (.issue call next) =>
      match serve process choice call pool.state with
      | none => none
      | some (answer, state) =>
          some (.call process ⟨call, answer⟩,
            pool.record (.call process ⟨call, answer⟩) state
              (Function.update pool.procs process (some (next answer))))

/-- Let the processes of a pool take turns as scheduled, as long as the steps
pass a check. -/
def follow {Value : Type}
    (check : Pool signature Pid Store Value → Label signature Pid → Bool)
    (schedule : List (Pid × Choice))
    (pool : Pool signature Pid Store Value) :
    Option (Pool signature Pid Store Value) :=
  match schedule with
  | [] => some pool
  | entry :: rest =>
      match turn entry.1 entry.2 pool with
      | none => none
      | some (label, after) =>
          if check pool label then follow check rest after else none

/-- The schedule of runs of turns, in which the kernel grants everything and
no time passes. -/
def turns (runs : List (Pid × Nat)) : List (Pid × Choice) :=
  runs.flatMap fun run => List.replicate run.2 (run.1, {})

theorem turns_grants {runs : List (Pid × Nat)} :
    ∀ entry ∈ turns runs, Grants entry.2 := by
  intro entry member
  rcases List.mem_flatMap.mp member with ⟨run, _, repeated⟩
  rw [List.eq_of_mem_replicate repeated]
  exact ⟨rfl, rfl⟩

/-- A kernel that may refuse anything admits all turns. -/
theorem turns_any {runs : List (Pid × Nat)} :
    ∀ entry ∈ turns runs, (fun _ : Choice => True) entry.2 :=
  fun _ _ => trivial

/-- The check that nothing is killed. -/
def unkilled {Value : Type} (_ : Pool signature Pid Store Value) :
    Label signature Pid → Bool
  | .kill _ => false
  | _ => true

/-- A turn is a step of the pool, and no process appears in it. -/
theorem turn_step {Value : Type} {admits : Choice → Prop} {process : Pid}
    {choice : Choice} {pool after : Pool signature Pid Store Value}
    {label : Label signature Pid} (admitted : admits choice)
    (turned : turn process choice pool = some (label, after)) :
    Pool.Step (kernel admits) pool label after ∧
      ∀ other, pool.procs other = none → after.procs other = none := by
  unfold turn at turned
  split at turned
  · cases turned
  · rename_i value ended
    cases turned
    refine ⟨.leave ended, ?_⟩
    intro other gone
    by_cases same : other = process <;> simp [same, gone]
  · rename_i call next running
    split at turned
    · cases turned
    · rename_i answer state served
      cases turned
      refine ⟨.call running ⟨choice, admitted, served⟩, ?_⟩
      intro other gone
      have different : other ≠ process := by
        rintro rfl
        rw [running] at gone
        cases gone
      simpa [different] using gone

/-- No process appears as a schedule is followed. -/
theorem follow_confined {Value : Type}
    {check : Pool signature Pid Store Value → Label signature Pid → Bool}
    {schedule : List (Pid × Choice)}
    {initial pool : Pool signature Pid Store Value} {process : Pid}
    (followed : follow check schedule initial = some pool)
    (outsider : initial.procs process = none) : pool.procs process = none := by
  induction schedule generalizing initial with
  | nil =>
      cases followed
      exact outsider
  | cons entry rest ih =>
      unfold follow at followed
      split at followed
      · cases followed
      · rename_i label after turned
        split at followed
        · have step : Pool.Step refusing initial label after ∧
              ∀ other, initial.procs other = none → after.procs other = none :=
            turn_step trivial turned
          exact ih followed (step.2 process outsider)
        · cases followed

/--
What a schedule leads to is reached by a run, whose steps are admitted if the
check is sound for pools of the given members.
-/
theorem follow_reach {Value : Type} {admits : Choice → Prop}
    {admitted : Pool signature Pid Store Value → Label signature Pid → Prop}
    {check : Pool signature Pid Store Value → Label signature Pid → Bool}
    {members : List Pid} {schedule : List (Pid × Choice)}
    {initial pool : Pool signature Pid Store Value}
    (sound : ∀ pool label, (∀ process, process ∉ members →
      pool.procs process = none) → check pool label = true →
        admitted pool label)
    (confined : ∀ process, process ∉ members → initial.procs process = none)
    (choices : ∀ entry ∈ schedule, admits entry.2)
    (followed : follow check schedule initial = some pool) :
    Pool.Reach (kernel admits) admitted initial pool := by
  suffices extend : ∀ before,
      Pool.Reach (kernel admits) admitted initial before →
        (∀ process, process ∉ members → before.procs process = none) →
          follow check schedule before = some pool →
            Pool.Reach (kernel admits) admitted initial pool from
    extend initial .start confined followed
  clear followed
  induction schedule with
  | nil =>
      intro before reach _ followed
      cases followed
      exact reach
  | cons entry rest ih =>
      intro before reach inside followed
      unfold follow at followed
      split at followed
      · cases followed
      · rename_i label after turned
        split at followed
        · rename_i passed
          have step := turn_step (choices entry (by simp)) turned
          apply ih (fun entry member => choices entry (by simp [member])) after
          · exact reach.step step.1 (sound before label inside passed)
          · intro process outsider
            exact step.2 process (inside process outsider)
          · exact followed
        · cases followed

/-- A schedule whose outcome has a computable property leads to such a pool. -/
theorem follow_reaches {Value : Type} {admits : Choice → Prop}
    {admitted : Pool signature Pid Store Value → Label signature Pid → Prop}
    {check : Pool signature Pid Store Value → Label signature Pid → Bool}
    {members : List Pid} {schedule : List (Pid × Choice)}
    {initial : Pool signature Pid Store Value}
    {property : Pool signature Pid Store Value → Bool}
    (sound : ∀ pool label, (∀ process, process ∉ members →
      pool.procs process = none) → check pool label = true →
        admitted pool label)
    (confined : ∀ process, process ∉ members → initial.procs process = none)
    (choices : ∀ entry ∈ schedule, admits entry.2)
    (computed : (follow check schedule initial).any property = true) :
    ∃ pool, Pool.Reach (kernel admits) admitted initial pool ∧
      property pool = true := by
  cases followed : follow check schedule initial with
  | none =>
      rw [followed] at computed
      cases computed
  | some pool =>
      rw [followed] at computed
      exact ⟨pool, follow_reach sound confined choices followed, computed⟩

theorem unkilled_sound {Value : Type} {members : List Pid}
    (pool : Pool signature Pid Store Value) (label : Label signature Pid)
    (_ : ∀ process, process ∉ members → pool.procs process = none)
    (passed : unkilled pool label = true) : Pool.Unkilled pool label := by
  cases label with
  | kill process => cases passed
  | _ => trivial

end Atomicles
