import Atomicles.SegmentMutex.Exclusion
import Atomicles.Source.Calls
import Atomicles.Kernel.Idle
import Atomicles.Interaction.Completion

/-!
# The clients of a segment come to their ends

Whoever holds the mutex can give it back, and a mutex whose set has been
filled is free where nobody holds it.  Only the creator of the set can fill
it, with its very next call; so the clients can always come to their ends
unless the creator is killed right there.
-/

namespace Atomicles.SegmentMutex

open Interaction

variable {paths : KeyPaths} {key : Key}

/-! ## Programs that fill the sets they make -/

section Prompt

variable {Value Result : Type}

/-- Whoever makes a set fills it with its next call. -/
def Fills : (call : Call) → (call.Answer → Prog Value) → Prop
  | .semget _ _ true _, next => ∀ id : IpcId, ∃ after,
      next (Except.ok id) = .issue (.semctlSetall id [1]) after
  | _, _ => True

/-- A program fills every set it makes right after making it. -/
def Prompt : Prog Value → Prop
  | .done _ => True
  | .issue call next => Fills call next ∧ ∀ answer, Prompt (next answer)

theorem Fills.bind {call : Call} {next : call.Answer → Prog Value}
    (fills : Fills call next) (continuation : Value → Prog Result) :
    Fills call fun answer => next answer >>= continuation := by
  unfold Fills
  split
  · intro id
    rcases fills id with ⟨after, same⟩
    exact ⟨fun answer => after answer >>= continuation,
      congrArg (· >>= continuation) same⟩
  · trivial

theorem Prompt.bind {program : Prog Value}
    {continuation : Value → Prog Result} (first : Prompt program)
    (second : ∀ value, Prompt (continuation value)) :
    Prompt (program >>= continuation) := by
  induction program with
  | done value => exact second value
  | issue call next ih =>
      exact ⟨first.1.bind continuation,
        fun answer => ih answer (first.2 answer)⟩

/-- Calls that make no set. -/
def Mild (call : Call) : Prop :=
  ∀ name nsems excl, call ≠ .semget name nsems true excl

theorem mild_fills (call : Call) (next : call.Answer → Prog Value)
    (mild : Mild call) : Fills call next := by
  unfold Fills
  split
  · exact absurd rfl (mild _ _ _)
  · trivial

theorem prompt_mild {program : Prog Value}
    (mild : Program.Within Mild program) : Prompt program := by
  induction program with
  | done value => trivial
  | issue call next ih =>
      exact ⟨mild_fills call next mild.1,
        fun answer => ih answer (mild.2 answer)⟩

theorem quiet_mild (call : Call) (quiet : Quiet call) : Mild call := by
  rintro name nsems excl rfl
  exact quiet

theorem accesses_mild (call : Call) (accesses : call.accesses = true) :
    Mild call := by
  rintro name nsems excl rfl
  cases accesses

theorem enters_mild (call : Call) (enters : call.enters = true) :
    Mild call := by
  rintro name nsems excl rfl
  cases enters

theorem prompt_quiet {program : Prog Value}
    (quiet : Program.Within Quiet program) : Prompt program :=
  prompt_mild (quiet.mono quiet_mild)

theorem prompt_semaphoreNew {setKey : Key} {size : UShort} {attach : Bool}
    (isMutex : size = 1) :
    Prompt (Semaphore.new paths setKey 1 size attach) := by
  subst isMutex
  rw [← bind_pure (Semaphore.new paths setKey 1 1 attach),
    Semaphore.new_bind]
  refine ⟨trivial, ?_⟩
  intro (block : Option Unit)
  cases block with
  | none => trivial
  | some success =>
      refine ⟨fun id => ⟨_, rfl⟩, ?_⟩
      intro (made : Except Errno IpcId)
      cases made with
      | ok id =>
          refine ⟨trivial, ?_⟩
          intro (outcome : Except Errno Unit)
          cases outcome <;> trivial
      | error errno =>
          dsimp only
          split
          · refine ⟨trivial, ?_⟩
            intro (found : Except Errno IpcId)
            cases found <;> trivial
          · trivial

theorem prompt_free {this : SharedMemory} :
    Prompt (SharedMemory.delete this false) := by
  cases owned : this.shsem <;> simp [SharedMemory.delete, owned, Prompt]

theorem prompt_new {size : Nat} {attach : Bool} :
    Prompt (SharedMemory.new paths key size attach) := by
  simp only [SharedMemory.new, mallocSharedMemory, Program.issue_bind,
    Program.done_bind]
  refine ⟨trivial, ?_⟩
  intro (block : Option SharedMemory)
  cases block with
  | none => trivial
  | some block =>
      apply (prompt_quiet quiet_newSegment).bind
      rintro ⟨success, this⟩
      dsimp only
      split
      · apply (prompt_semaphoreNew rfl).bind
        intro shsem
        cases shsem with
        | none => exact prompt_free.bind fun _ => trivial
        | some shsem =>
            apply (prompt_quiet quiet_lockPages).bind
            intro locked
            split
            · exact prompt_free.bind fun _ => trivial
            · trivial
      · exact prompt_free.bind fun _ => trivial

theorem mild_access {this : SharedMemory} (access : Access) :
    Program.Within Mild (access.run this) := by
  have enter := SharedMemory.within_enter enters_mild this
  have exit := SharedMemory.within_exit enters_mild this
  cases access with
  | write offset text =>
      apply enter.bind
      intro _
      exact (quiet_vsnprintf.mono quiet_mild).bind fun _ => exit
  | read offset =>
      have body : Program.Within Mild (SharedMemory.read this offset) := by
        apply enter.bind
        intro _
        apply (quiet_strncpy.mono quiet_mild).bind
        intro _
        exact exit.bind fun _ => trivial
      exact body.bind fun _ => trivial
  | writeUint offset n | writeUint32 offset n =>
      exact SharedMemory.within_writeUint accesses_mild this offset n
  | readUint offset | readUint32 offset =>
      exact (SharedMemory.within_readUint (accesses_reads accesses_mild) this
        offset).bind fun _ => trivial

theorem prompt_client {size : Nat} {accesses : List Access} :
    Prompt (client paths key size accesses) := by
  unfold client
  apply prompt_new.bind
  intro this
  cases this with
  | none => trivial
  | some this =>
      apply prompt_mild
      dsimp only
      induction accesses with
      | nil => trivial
      | cons access rest ih => exact (mild_access access).bind fun _ => ih

end Prompt

/-! ## The set is filled, or about to be -/

/-- Nobody is killed who is about to fill a set. -/
def Careful (pool : Pool signature Pid Store Unit) :
    Label signature Pid → Prop
  | .kill process => ∀ id array next,
      pool.procs process ≠ some (.issue (.semctlSetall id array) next)
  | _ => True

/-- A mutex that exists has been filled, or its maker is about to fill it. -/
structure Tended (paths : KeyPaths) (key : Key)
    (pool : Pool signature Pid Store Unit) : Prop where
  prompt : ∀ process program, pool.procs process = some program →
    Prompt program
  tended : ∀ set, pool.state.sems (mutexId paths key) = some set →
    Initialised (mutexId paths key) pool.log ∨ ∃ maker next,
      pool.procs maker =
        some (.issue (.semctlSetall (mutexId paths key) [1]) next)

theorem initialised_later {id : IpcId} {entry : Entry signature Pid Store}
    {log : List (Entry signature Pid Store)} (initialised : Initialised id log) :
    Initialised id (entry :: log) := by
  rcases initialised with ⟨old, member, set⟩
  exact ⟨old, List.mem_cons_of_mem _ member, set⟩

section Steps

variable {members : Finset Pid} {mutex : MutexState}
variable {pool after : Pool signature Pid Store Unit} {phases : Pid → Phase}
variable {label : Label signature Pid} {process : Pid}

/-- The end of a process that is not about to fill the mutex. -/
theorem Tended.leave (tended : Tended paths key pool)
    (idle : ∀ next, pool.procs process ≠
      some (.issue (.semctlSetall (mutexId paths key) [1]) next)) :
    Tended paths key (pool.record label (pool.state.leave process)
      (Function.update pool.procs process none)) where
  prompt := by
    intro other program running
    by_cases same : other = process
    · subst same
      simp at running
    · rw [Pool.record_procs, Function.update_of_ne same] at running
      exact tended.prompt other program running
  tended := by
    intro set found
    rcases Store.leave_ctime found with ⟨before, isBefore, _⟩
    rcases tended.tended before isBefore with initialised |
      ⟨maker, next, running⟩
    · exact Or.inl (initialised_later initialised)
    · have different : maker ≠ process := by
        rintro rfl
        exact idle next running
      refine Or.inr ⟨maker, next, ?_⟩
      rw [Pool.record_procs, Function.update_of_ne different]
      exact running

/-- A call of a process that follows the protocol. -/
theorem Tended.call {call : Call} {next : call.Answer → Prog Unit}
    {answer : call.Answer} {state : Store} {phase : Phase}
    (tended : Tended paths key pool)
    (running : pool.procs process = some (.issue call next))
    (allowed : (protocol paths key).allow phase call)
    (relied : (protocol paths key).answer phase call answer)
    (exec : granting.exec process call pool.state answer state) :
    Tended paths key (pool.record (.call process ⟨call, answer⟩) state
      (Function.update pool.procs process (some (next answer)))) where
  prompt := by
    intro other program runningOther
    by_cases same : other = process
    · subst same
      rw [Pool.record_procs, Function.update_self,
        Option.some.injEq] at runningOther
      subst runningOther
      exact (tended.prompt _ _ running).2 answer
    · rw [Pool.record_procs, Function.update_of_ne same] at runningOther
      exact tended.prompt other program runningOther
  tended := by
    intro set found
    -- A set that was there is tended as before, unless its maker calls now.
    have old : ∀ before,
        pool.state.sems (mutexId paths key) = some before →
        Initialised (mutexId paths key)
            (⟨.call process ⟨call, answer⟩, state⟩ :: pool.log) ∨
          ∃ maker later,
            Function.update pool.procs process (some (next answer)) maker =
              some (.issue (.semctlSetall (mutexId paths key) [1]) later) := by
      intro before isBefore
      rcases tended.tended before isBefore with initialised |
        ⟨maker, later, filling⟩
      · exact Or.inl (initialised_later initialised)
      · by_cases same : maker = process
        · subst same
          rw [running] at filling
          cases filling
          have succeeded : answer = Except.ok () := relied
          subst succeeded
          exact Or.inl ⟨_, List.mem_cons_self .., maker, [1], rfl⟩
        · refine Or.inr ⟨maker, later, ?_⟩
          rw [Function.update_of_ne same]
          exact filling
    cases call with
    | semget name nsems creat excl =>
        rcases exec_semget_set exec found with isOld | ⟨rfl, _⟩
        · exact old set isOld
        · cases creat with
          | true =>
              rcases (tended.prompt _ _ running).1 (mutexId paths key) with
                ⟨later, filling⟩
              refine Or.inr ⟨process, later, ?_⟩
              rw [Pool.record_procs, Function.update_self, filling]
          | false =>
              rcases exec_ctime rfl exec found with ⟨before, isBefore, _⟩
              exact old before isBefore
    | semctlSetall id array =>
        rcases exec_semctlSetall_set exec found with isOld | ⟨_, _, isOld⟩
        · exact old set isOld
        · rcases Option.isSome_iff_exists.mp isOld with ⟨before, isBefore⟩
          exact old before isBefore
    | interruptible call => exact allowed.elim
    | _ =>
        rcases exec_ctime rfl exec found with ⟨before, isBefore, _⟩
        exact old before isBefore

/-! ## Somebody can always go on -/

/-- Nobody is killed but by the fault it has committed. -/
def Natural (pool : Pool signature Pid Store Unit) :
    Label signature Pid → Prop
  | .kill process => ∃ cause next,
      pool.procs process = some (.issue (.die cause) next)
  | _ => True

theorem natural_careful (pool : Pool signature Pid Store Unit)
    (label : Label signature Pid) (natural : Natural pool label) :
    Careful pool label := by
  cases label with
  | kill process =>
      rcases natural with ⟨cause, next, running⟩
      intro id array next'
      rw [running]
      simp
  | _ => trivial

/-- A process can go on unless it waits for a mutex that is not free. -/
theorem Agrees.goes (agrees : Agrees paths key members mutex pool phases)
    {program : Prog Unit} (running : pool.procs process = some program)
    (conforms : Program.Conforms (protocol paths key) (phases process) program
      fun _ _ => True)
    (free : phases process = .ready → mutex = .free) :
    ∃ label after, Pool.Step granting pool label after ∧ ¬ label.Forks ∧
      Natural pool label := by
  cases program with
  | done value => exact ⟨_, _, .leave running, not_false, trivial⟩
  | issue call next =>
      have served : (∃ answer state,
          granting.exec process call pool.state answer state) →
          ∃ label after, Pool.Step granting pool label after ∧
            ¬ label.Forks ∧ Natural pool label := by
        rintro ⟨answer, state, exec⟩
        exact ⟨_, _, .call running exec, not_false, trivial⟩
      have represents : Represents (mutexId paths key) mutex
          (pool.state.advance 0) := agrees.keeps.represents.of_same rfl
      cases call with
      | die cause =>
          exact ⟨_, _, .kill running, not_false, cause, next, running⟩
      | semop id semNum semOp undo nowait =>
          rcases conforms.1 with ⟨rfl, rfl, rfl, rfl, turn⟩
          apply served
          rcases turn with ⟨isReady, rfl⟩ | ⟨isInside, rfl⟩
          · have isFree := free isReady
            subst isFree
            rcases represents.takes process false with ⟨state, taken⟩
            exact ⟨_, state, granting_exec_iff.mpr ⟨{}, rfl, rfl, taken⟩⟩
          · have isHeld := (agrees.located process).inside.mp isInside
            subst isHeld
            rcases represents.gives false with ⟨state, given⟩
            exact ⟨_, state, granting_exec_iff.mpr ⟨{}, rfl, rfl, given⟩⟩
      | interruptible call => exact conforms.1.elim
      | _ => exact served (exec_of_not_waits _ _ _ not_false)

end Steps

/-! ## The result -/

variable {now : Time} {members : Finset Pid} {size : Pid → Nat}
variable {accesses : Pid → List Access}
variable {pool : Pool signature Pid Store Unit}

theorem tended_reach
    (reach : Pool.Reach granting Careful
      (start paths key now members size accesses) pool) :
    Tended paths key pool := by
  induction reach with
  | start =>
      constructor
      · intro process program running
        simp only [start] at running
        split at running
        · cases running
          exact prompt_client
        · cases running
      · intro set found
        cases found
  | @step pool after label before step fine ih =>
      have kept : Pool.Reach granting Pool.Unrestricted _ pool :=
        before.mono fun _ _ _ => trivial
      rcases kept.simulated (preserves members) start_simulated with
        ⟨phases, agrees, conforms⟩
      cases step with
      | @call process call next answer state running exec =>
          have allowed := (conforms _ _ running).1
          have relied := ((preserves members).call pool phases process call
            next answer state agrees running allowed exec trivial).1
          exact ih.call running allowed relied exec
      | fork running fresh forks =>
          have allowed := (conforms _ _ running).1
          rename_i call _ _ _
          cases call with
          | fork => exact allowed.elim
          | _ => cases forks
      | leave ended =>
          apply ih.leave
          rw [ended]
          simp
      | kill running => exact ih.leave (fine _ _)

/-- As long as a process lives, one of them can go on. -/
theorem goes
    (reach : Pool.Reach granting Careful
      (start paths key now members size accesses) pool)
    (unfinished : ¬ pool.Ended) :
    ∃ label after, Pool.Step granting pool label after ∧ ¬ label.Forks ∧
      Natural pool label := by
  have tended := tended_reach reach
  have kept : Pool.Reach granting Pool.Unrestricted _ pool :=
    reach.mono fun _ _ _ => trivial
  rcases kept.simulated (preserves members) start_simulated with
    ⟨phases, ⟨mutex, agrees⟩, conforms⟩
  have live : ∀ process, phases process ≠ .fresh →
      ∃ program, pool.procs process = some program := by
    intro process started
    rw [← Option.ne_none_iff_exists']
    exact fun gone => started (agrees.live process gone)
  cases mutex with
  | held holder =>
      have isInside := (agrees.located holder).inside.mpr rfl
      rcases live holder (by simp [isInside]) with ⟨program, running⟩
      exact agrees.goes running (conforms _ _ running) (by simp [isInside])
  | raw maker =>
      rcases agrees.keeps.represents.present (by simp) with ⟨set, found, _⟩
      rcases tended.tended set found with initialised |
        ⟨filler, next, running⟩
      · have armed := (agrees.initialised _ initialised).2
        simp [MutexState.Armed] at armed
      · have isCreator := (conforms _ _ running).1.1
        exact agrees.goes running (conforms _ _ running) (by simp [isCreator])
  | free =>
      simp only [Pool.Ended, not_forall] at unfinished
      rcases unfinished with ⟨process, alive⟩
      rcases Option.ne_none_iff_exists'.mp alive with ⟨program, running⟩
      exact agrees.goes running (conforms _ _ running) fun _ => rfl
  | absent =>
      simp only [Pool.Ended, not_forall] at unfinished
      rcases unfinished with ⟨process, alive⟩
      rcases Option.ne_none_iff_exists'.mp alive with ⟨program, running⟩
      exact agrees.goes running (conforms _ _ running)
        fun isReady => absurd rfl ((agrees.located process).ready isReady)

/--
However the processes are interleaved and killed, as long as nobody is killed
who is about to fill the set of the mutex: there is always a way on by which
every process comes to its end, and then the mutex is free if there is one.
-/
theorem completes (paths : KeyPaths) (key : Key) (now : Time)
    (members : Finset Pid) (size : Pid → Nat) (accesses : Pid → List Access)
    (pool : Pool signature Pid Store Unit)
    (reach : Pool.Reach granting Careful
      (start paths key now members size accesses) pool) :
    ∃ final, Pool.Reach granting Natural pool final ∧ final.Ended ∧
      ∀ set, final.state.sems (mutexId paths key) = some set →
        set.semvals = [1] := by
  have unrestricted : ∀ {pool : Pool signature Pid Store Unit},
      Pool.Reach granting Careful
        (start paths key now members size accesses) pool →
      Pool.Reach granting Pool.Unrestricted
        (start paths key now members size accesses) pool :=
    fun reach => reach.mono fun _ _ _ => trivial
  have confined : Pool.Confined members pool := by
    rcases (unrestricted reach).simulated (preserves members)
      start_simulated with ⟨phases, ⟨mutex, agrees⟩, _⟩
    exact agrees.member
  have onwards : ∀ before, Pool.Reach granting Careful
      (start paths key now members size accesses) before →
      ¬ before.Ended → ∃ label after, Pool.Step granting before label after ∧
        ¬ label.Forks ∧ Natural before label ∧ Pool.Reach granting Careful
          (start paths key now members size accesses) after := by
    intro before reach unfinished
    rcases goes reach unfinished with ⟨label, after, step, forkless, natural⟩
    exact ⟨label, after, step, forkless, natural,
      reach.step step (natural_careful before label natural)⟩
  rcases Pool.comes_to_end onwards reach confined with ⟨final, last, ended⟩
  refine ⟨final, last, ended, ?_⟩
  have whole := reach.trans (last.mono natural_careful)
  intro set found
  rcases (tended_reach whole).tended set found with initialised |
    ⟨maker, next, running⟩
  · rcases (unrestricted whole).simulated (preserves members)
      start_simulated with ⟨phases, ⟨mutex, agrees⟩, _⟩
    rcases agrees.unit_sum initialised with ⟨same, value, isSame, values, sum⟩
    rw [found] at isSame
    cases isSame
    have nobody : liveMembers members final = ∅ := by
      simp [liveMembers, ended _]
    rw [nobody, Finset.sum_empty] at sum
    rw [values]
    congr 1
    omega
  · rw [ended maker] at running
    cases running

/-- One process has made the segment and is about to write, and the other one
waits for it. -/
theorem completes_waiting :
    ∃ pool : Pool signature Pid Store Unit,
      inSection (mutexId KeyPaths.devtmpfs 5) 1 pool.log = true ∧
      ∃ final, Pool.Reach granting Natural pool final ∧ final.Ended ∧
        ∀ set, final.state.sems (mutexId KeyPaths.devtmpfs 5) = some set →
          set.semvals = [1] := by
  have computed : (follow unkilled (turns [(1, 8), (2, 8)])
      (start KeyPaths.devtmpfs 5 0 {1, 2} (fun _ => 16)
        fun _ => [.writeUint 0 7])).any
        (fun pool => inSection (mutexId KeyPaths.devtmpfs 5) 1 pool.log) =
          true := by
    decide
  have confined : ∀ process, process ∉ [1, 2] →
      (start KeyPaths.devtmpfs 5 0 {1, 2} (fun _ => 16)
        fun _ => [.writeUint 0 7]).procs process = none := by
    intro process outsider
    simpa [start] using outsider
  rcases follow_reaches unkilled_sound confined turns_grants computed with
    ⟨pool, reach, inside⟩
  refine ⟨pool, inside, completes _ _ _ _ _ _ pool (reach.mono ?_)⟩
  intro pool label unkilled
  cases label with
  | kill process => exact unkilled.elim
  | _ => trivial

end Atomicles.SegmentMutex
