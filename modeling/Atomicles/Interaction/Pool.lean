import Mathlib.Logic.Function.Basic
import Atomicles.Interaction.Machine

/-!
# Interleavings of a pool of programs

A configuration is the state of the machine, the rest of each live process
and the log of all steps taken so far, newest first.  A log entry keeps the
state after its step, so a statement about a run can speak about its past.

`Pool.Reach` closes an initial configuration under the steps that a run
condition admits.  `Pool.Reach.simulated` is the rule by which the safety
results are proved: every process follows a protocol, and one invariant ties
the phases of all processes to the state and the log.
-/

namespace Interaction

/-- What a step of the pool was. -/
inductive Label (signature : Signature) (Process : Type) where
  | call (process : Process) (event : Event signature)
  | fork (parent child : Process) (call : signature.Call)
  | leave (process : Process)
  | kill (process : Process)

/-- The steps by which a process duplicates itself. -/
def Label.Forks {signature : Signature} {Process : Type} :
    Label signature Process → Prop
  | .fork .. => True
  | _ => False

/-- A step that was taken and the state it led to. -/
structure Entry (signature : Signature) (Process State : Type) where
  label : Label signature Process
  state : State

/-- The state, the rest of each live process and the log, newest first. -/
structure Pool (signature : Signature) (Process State Value : Type) where
  state : State
  procs : Process → Option (Program signature Value)
  log : List (Entry signature Process State)

namespace Pool

variable {signature : Signature} {Process State Value Phase : Type}
variable {machine : Machine signature Process State}

/-- The pool after a step: the step goes into the log. -/
def record (pool : Pool signature Process State Value)
    (label : Label signature Process) (state : State)
    (procs : Process → Option (Program signature Value)) :
    Pool signature Process State Value :=
  { state, procs, log := ⟨label, state⟩ :: pool.log }

section Record

variable {pool : Pool signature Process State Value}
variable {label : Label signature Process} {state : State}
variable {procs : Process → Option (Program signature Value)}

@[simp]
theorem record_state : (pool.record label state procs).state = state :=
  rfl

@[simp]
theorem record_procs : (pool.record label state procs).procs = procs :=
  rfl

@[simp]
theorem record_log :
    (pool.record label state procs).log = ⟨label, state⟩ :: pool.log :=
  rfl

end Record

variable [DecidableEq Process]

/-- The steps of a pool: one process makes a call, duplicates itself, leaves
after its last call, or is killed between two calls. -/
inductive Step (machine : Machine signature Process State) :
    Pool signature Process State Value → Label signature Process →
      Pool signature Process State Value → Prop where
  | call {pool : Pool signature Process State Value} {process : Process}
      {call : signature.Call}
      {next : signature.Answer call → Program signature Value}
      {answer : signature.Answer call} {state : State}
      (running : pool.procs process = some (.issue call next))
      (exec : machine.exec process call pool.state answer state) :
      Step machine pool (.call process ⟨call, answer⟩)
        (pool.record (.call process ⟨call, answer⟩) state
          (Function.update pool.procs process (some (next answer))))
  | fork {pool : Pool signature Process State Value} {parent child : Process}
      {call : signature.Call}
      {next : signature.Answer call → Program signature Value}
      {here there : signature.Answer call}
      (running : pool.procs parent = some (.issue call next))
      (fresh : pool.procs child = none)
      (forks : machine.fork call child = some (here, there)) :
      Step machine pool (.fork parent child call)
        (pool.record (.fork parent child call)
          (machine.clone parent child pool.state)
          (Function.update
            (Function.update pool.procs parent (some (next here)))
            child (some (next there))))
  | leave {pool : Pool signature Process State Value} {process : Process}
      {value : Value}
      (ended : pool.procs process = some (.done value)) :
      Step machine pool (.leave process)
        (pool.record (.leave process) (machine.leave process pool.state)
          (Function.update pool.procs process none))
  | kill {pool : Pool signature Process State Value} {process : Process}
      {program : Program signature Value}
      (running : pool.procs process = some program) :
      Step machine pool (.kill process)
        (pool.record (.kill process) (machine.leave process pool.state)
          (Function.update pool.procs process none))

/-- The configurations reached by runs whose every step is `admitted` in the
configuration it is taken from. -/
inductive Reach (machine : Machine signature Process State)
    (admitted : Pool signature Process State Value →
      Label signature Process → Prop)
    (initial : Pool signature Process State Value) :
    Pool signature Process State Value → Prop where
  | start : Reach machine admitted initial initial
  | step {pool after : Pool signature Process State Value}
      {label : Label signature Process}
      (before : Reach machine admitted initial pool)
      (step : Step machine pool label after)
      (fine : admitted pool label) :
      Reach machine admitted initial after

theorem Reach.mono
    {first second : Pool signature Process State Value →
      Label signature Process → Prop}
    {initial pool : Pool signature Process State Value}
    (reach : Reach machine first initial pool)
    (weaken : ∀ pool label, first pool label → second pool label) :
    Reach machine second initial pool := by
  induction reach with
  | start => exact .start
  | step before step fine ih => exact .step ih step (weaken _ _ fine)

/-- A process that leaves has ended. -/
theorem Reach.ended
    {admitted : Pool signature Process State Value →
      Label signature Process → Prop}
    {initial pool : Pool signature Process State Value}
    (reach : Reach machine admitted initial pool) :
    Reach machine
      (fun pool label => admitted pool label ∧ ∀ process,
        label = .leave process → ∃ value,
          pool.procs process = some (.done value)) initial pool := by
  induction reach with
  | start => exact .start
  | step before step fine ih =>
      refine .step ih step ⟨fine, ?_⟩
      rintro process rfl
      cases step with
      | leave ended => exact ⟨_, ended⟩

/-- The run condition of runs in which no process is killed. -/
def Unkilled (_ : Pool signature Process State Value) :
    Label signature Process → Prop
  | .kill _ => False
  | _ => True

/-- The run condition of all runs. -/
def Unrestricted (_ : Pool signature Process State Value)
    (_ : Label signature Process) : Prop :=
  True

/-! ## The share of one process in the log -/

/-- The calls of one process in a log, oldest first. -/
def eventsOf (process : Process) :
    List (Entry signature Process State) → List (Event signature)
  | [] => []
  | ⟨.call actor event, _⟩ :: earlier =>
      if actor = process then eventsOf process earlier ++ [event]
      else eventsOf process earlier
  | _ :: earlier => eventsOf process earlier

/--
In a pool without forks, what is left of a live process is what its program
becomes along the calls the log has of it.
-/
theorem Reach.reaches
    {admitted : Pool signature Process State Value →
      Label signature Process → Prop}
    {initial pool : Pool signature Process State Value}
    (forkless : ∀ pool label, admitted pool label → ¬ label.Forks)
    (fresh : initial.log = [])
    (reach : Reach machine admitted initial pool) :
    ∀ process rest, pool.procs process = some rest →
      ∃ program, initial.procs process = some program ∧
        program.Reaches (eventsOf process pool.log) rest := by
  induction reach with
  | start =>
      intro process rest running
      refine ⟨rest, running, ?_⟩
      rw [fresh]
      exact .here rest
  | @step pool after label before step fine ih =>
      intro process rest running
      cases step with
      | @call actor call next answer state runningActor exec =>
          by_cases same : actor = process
          · subst same
            rcases ih _ _ runningActor with ⟨program, started, reaches⟩
            simp only [record_procs, Function.update_self,
              Option.some.injEq] at running
            subst running
            refine ⟨program, started, ?_⟩
            simpa [eventsOf] using reaches.snoc answer
          · simp only [record_procs,
              Function.update_of_ne (Ne.symm same)] at running
            simpa [eventsOf, same] using ih _ _ running
      | fork runningParent freshChild forks =>
          exact absurd trivial (forkless _ _ fine)
      | @leave actor value ended =>
          by_cases same : process = actor
          · subst same
            simp at running
          · simp only [record_procs, Function.update_of_ne same] at running
            simpa [eventsOf] using ih _ _ running
      | @kill actor program runningActor =>
          by_cases same : process = actor
          · subst same
            simp at running
          · simp only [record_procs, Function.update_of_ne same] at running
            simpa [eventsOf] using ih _ _ running

/-- What the machine says of every answer holds of every call in the log. -/
theorem Reach.answered {property : Event signature → Prop}
    {admitted : Pool signature Process State Value →
      Label signature Process → Prop}
    {initial pool : Pool signature Process State Value}
    (answers : ∀ process call state answer after,
      machine.exec process call state answer after → property ⟨call, answer⟩)
    (fresh : initial.log = [])
    (reach : Reach machine admitted initial pool) :
    ∀ process, ∀ event ∈ eventsOf process pool.log, property event := by
  induction reach with
  | start =>
      intro process event member
      rw [fresh] at member
      cases member
  | @step pool after label before step fine ih =>
      intro process event member
      cases step with
      | @call actor call next answer state running exec =>
          by_cases same : actor = process
          · subst same
            simp only [record_log, eventsOf, if_true, List.mem_append,
              List.mem_singleton] at member
            rcases member with earlier | rfl
            · exact ih _ _ earlier
            · exact answers _ _ _ _ _ exec
          · simp only [record_log, eventsOf, if_neg same] at member
            exact ih _ _ member
      | _ => exact ih _ _ member

/-! ## Invariants by protocols -/

/-- The answer to a call is one the protocol relies on, and `invariant` holds
of the pool once the call is made. -/
def Keeps (protocol : Protocol signature Phase)
    (invariant : Pool signature Process State Value →
      (Process → Phase) → Prop)
    (pool : Pool signature Process State Value) (phases : Process → Phase)
    (process : Process) (call : signature.Call)
    (next : signature.Answer call → Program signature Value)
    (answer : signature.Answer call) (state : State) : Prop :=
  protocol.answer (phases process) call answer ∧
    invariant
      (pool.record (.call process ⟨call, answer⟩) state
        (Function.update pool.procs process (some (next answer))))
      (Function.update phases process
        (protocol.next (phases process) call answer))

/--
The four kinds of step preserve `invariant`, which relates a pool to the phase
of every process.  A call may assume that the protocol allows it, and has to
show that the answer is one the protocol relies on.
-/
structure Preserves (machine : Machine signature Process State)
    (admitted : Pool signature Process State Value →
      Label signature Process → Prop)
    (protocol : Protocol signature Phase)
    (invariant : Pool signature Process State Value →
      (Process → Phase) → Prop) : Prop where
  call : ∀ pool phases process call next answer state,
    invariant pool phases →
    pool.procs process = some (.issue call next) →
    protocol.allow (phases process) call →
    machine.exec process call pool.state answer state →
    admitted pool (.call process ⟨call, answer⟩) →
    protocol.answer (phases process) call answer ∧
      invariant
        (pool.record (.call process ⟨call, answer⟩) state
          (Function.update pool.procs process (some (next answer))))
        (Function.update phases process
          (protocol.next (phases process) call answer))
  fork : ∀ pool phases parent child call next here there,
    invariant pool phases →
    pool.procs parent = some (.issue call next) →
    pool.procs child = none →
    protocol.allow (phases parent) call →
    machine.fork call child = some (here, there) →
    admitted pool (.fork parent child call) →
    protocol.answer (phases parent) call here ∧
      protocol.answer (phases parent) call there ∧
      invariant
        (pool.record (.fork parent child call)
          (machine.clone parent child pool.state)
          (Function.update
            (Function.update pool.procs parent (some (next here)))
            child (some (next there))))
        (Function.update
          (Function.update phases parent
            (protocol.next (phases parent) call here))
          child (protocol.next (phases parent) call there))
  leave : ∀ pool phases process label,
    invariant pool phases →
    label = .leave process ∨ label = .kill process →
    admitted pool label →
    ∃ phase, invariant
      (pool.record label (machine.leave process pool.state)
        (Function.update pool.procs process none))
      (Function.update phases process phase)

/-- The invariant holds of the pool for some phases which the rests of all
live processes conform to. -/
def Simulated (protocol : Protocol signature Phase)
    (invariant : Pool signature Process State Value →
      (Process → Phase) → Prop)
    (pool : Pool signature Process State Value)
    (phases : Process → Phase) : Prop :=
  invariant pool phases ∧
    ∀ process program, pool.procs process = some program →
      program.Conforms protocol (phases process) fun _ _ => True

variable {admitted : Pool signature Process State Value →
  Label signature Process → Prop}
variable {protocol : Protocol signature Phase}
variable {invariant : Pool signature Process State Value →
  (Process → Phase) → Prop}

theorem Simulated.step {pool after : Pool signature Process State Value}
    {label : Label signature Process} {phases : Process → Phase}
    (preserves : Preserves machine admitted protocol invariant)
    (simulated : Simulated protocol invariant pool phases)
    (step : Step machine pool label after) (fine : admitted pool label) :
    ∃ phases', Simulated protocol invariant after phases' := by
  rcases simulated with ⟨holds, conforms⟩
  cases step with
  | @call process call next answer state running exec =>
      have allowed := conforms _ _ running
      have kept :=
        preserves.call pool phases process call next answer state holds
          running allowed.1 exec fine
      refine ⟨_, kept.2, ?_⟩
      intro other program runningOther
      by_cases same : other = process
      · subst same
        simp only [record_procs, Function.update_self,
          Option.some.injEq] at runningOther ⊢
        subst runningOther
        exact allowed.2 answer kept.1
      · simp only [record_procs, Function.update_of_ne same] at runningOther ⊢
        exact conforms _ _ runningOther
  | @fork parent child call next here there running fresh forks =>
      have allowed := conforms _ _ running
      rcases preserves.fork pool phases parent child call next here there
        holds running fresh allowed.1 forks fine with
        ⟨reliedHere, reliedThere, kept⟩
      refine ⟨_, kept, ?_⟩
      intro other program runningOther
      by_cases isChild : other = child
      · subst isChild
        simp only [record_procs, Function.update_self,
          Option.some.injEq] at runningOther ⊢
        subst runningOther
        exact allowed.2 there reliedThere
      · simp only [record_procs, Function.update_of_ne isChild]
          at runningOther ⊢
        by_cases isParent : other = parent
        · subst isParent
          simp only [Function.update_self, Option.some.injEq] at runningOther ⊢
          subst runningOther
          exact allowed.2 here reliedHere
        · simp only [Function.update_of_ne isParent] at runningOther ⊢
          exact conforms _ _ runningOther
  | @leave process value ended =>
      rcases preserves.leave pool phases process _ holds (Or.inl rfl) fine with
        ⟨phase, kept⟩
      refine ⟨_, kept, ?_⟩
      intro other program runningOther
      by_cases same : other = process
      · subst same
        simp at runningOther
      · simp only [record_procs, Function.update_of_ne same] at runningOther ⊢
        exact conforms _ _ runningOther
  | @kill process program running =>
      rcases preserves.leave pool phases process _ holds (Or.inr rfl) fine with
        ⟨phase, kept⟩
      refine ⟨_, kept, ?_⟩
      intro other program runningOther
      by_cases same : other = process
      · subst same
        simp at runningOther
      · simp only [record_procs, Function.update_of_ne same] at runningOther ⊢
        exact conforms _ _ runningOther

/-- The invariant rule: what holds initially and is preserved by every kind
of admitted step holds in every configuration reached. -/
theorem Reach.simulated {initial pool : Pool signature Process State Value}
    {phases : Process → Phase}
    (preserves : Preserves machine admitted protocol invariant)
    (initially : Simulated protocol invariant initial phases)
    (reach : Reach machine admitted initial pool) :
    ∃ phases', Simulated protocol invariant pool phases' := by
  induction reach with
  | start => exact ⟨phases, initially⟩
  | step before step fine ih =>
      rcases ih with ⟨phases', simulated⟩
      exact simulated.step preserves step fine

/-- Where the protocol allows no call by which a process duplicates itself, no
process does. -/
theorem Reach.unforked {initial pool : Pool signature Process State Value}
    {phases : Process → Phase}
    (preserves : Preserves machine admitted protocol invariant)
    (initially : Simulated protocol invariant initial phases)
    (never : ∀ phase call child, protocol.allow phase call →
      machine.fork call child = none)
    (reach : Reach machine admitted initial pool) :
    Reach machine (fun pool label => admitted pool label ∧ ¬ label.Forks)
      initial pool := by
  induction reach with
  | start => exact .start
  | step before step fine ih =>
      refine .step ih step ⟨fine, ?_⟩
      rcases before.simulated preserves initially with ⟨_, _, conforms⟩
      cases step with
      | fork running fresh forks =>
          have allowed := (conforms _ _ running).1
          rw [never _ _ _ allowed] at forks
          cases forks
      | _ => exact not_false

end Pool

end Interaction
