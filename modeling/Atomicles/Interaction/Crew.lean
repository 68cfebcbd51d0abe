import Mathlib.Logic.Function.Basic
import Atomicles.Interaction.Machine

/-!
# Processes with labels and jumps

A program that does not come to an end is cut at labels: its pieces are
programs that end in a label, from which the process goes on with another
piece.  A process can also be made to jump to a label from anywhere in its
code, as a signal handler does that does not return, and the state can be
disturbed from outside.

`Crew.Reach.simulated` is the invariant rule: every process follows a script,
which is a protocol that also says at which labels a process may be in which
phase.
-/

namespace Interaction

/-- A machine whose processes run pieces of code. -/
structure Platform (signature : Signature)
    (Process State Label Outside : Type)
    extends Machine signature Process State where
  /-- The pieces of code a process may go on with from a label. -/
  code : Label → Program signature Label → Prop
  /-- What going on from a label does to the state. -/
  enter : Process → Label → State → State
  /-- The jumps a process can be made to take from a place in its code. -/
  jump : Process → Program signature Label → State → Label → State → Prop
  /-- The places in its code where a process may leave. -/
  exits : Program signature Label → Prop
  /-- What an event outside the processes does to the state. -/
  disturb : Outside → State → State

/-- One step of a crew. -/
inductive Move (signature : Signature) (Process Label Outside : Type) where
  | call (process : Process) (event : Event signature)
  | fork (parent child : Process) (call : signature.Call)
  | enter (process : Process) (label : Label)
  | jump (process : Process) (label : Label)
  | leave (process : Process)
  | kill (process : Process)
  | outside (event : Outside)

/-- The state, the rest of the piece each live process is in, and the moves
so far, newest first. -/
structure Crew (signature : Signature) (Process State Label Outside : Type)
    where
  state : State
  procs : Process → Option (Program signature Label)
  log : List (Move signature Process Label Outside)

namespace Crew

variable {signature : Signature} {Process State Label Outside Phase : Type}
variable {platform : Platform signature Process State Label Outside}

/-- The crew after a move. -/
def record (crew : Crew signature Process State Label Outside)
    (move : Move signature Process Label Outside) (state : State)
    (procs : Process → Option (Program signature Label)) :
    Crew signature Process State Label Outside :=
  { state, procs, log := move :: crew.log }

section Record

variable {crew : Crew signature Process State Label Outside}
variable {move : Move signature Process Label Outside} {state : State}
variable {procs : Process → Option (Program signature Label)}

@[simp]
theorem record_state : (crew.record move state procs).state = state :=
  rfl

@[simp]
theorem record_procs : (crew.record move state procs).procs = procs :=
  rfl

@[simp]
theorem record_log : (crew.record move state procs).log = move :: crew.log :=
  rfl

end Record

variable [DecidableEq Process]

/-- The steps of a crew. -/
inductive Step (platform : Platform signature Process State Label Outside) :
    Crew signature Process State Label Outside →
      Move signature Process Label Outside →
        Crew signature Process State Label Outside → Prop where
  | call {crew : Crew signature Process State Label Outside}
      {process : Process} {call : signature.Call}
      {next : signature.Answer call → Program signature Label}
      {answer : signature.Answer call} {state : State}
      (running : crew.procs process = some (.issue call next))
      (exec : platform.exec process call crew.state answer state) :
      Step platform crew (.call process ⟨call, answer⟩)
        (crew.record (.call process ⟨call, answer⟩) state
          (Function.update crew.procs process (some (next answer))))
  | fork {crew : Crew signature Process State Label Outside}
      {parent child : Process} {call : signature.Call}
      {next : signature.Answer call → Program signature Label}
      {here there : signature.Answer call}
      (running : crew.procs parent = some (.issue call next))
      (fresh : crew.procs child = none)
      (forks : platform.fork call child = some (here, there)) :
      Step platform crew (.fork parent child call)
        (crew.record (.fork parent child call)
          (platform.clone parent child crew.state)
          (Function.update
            (Function.update crew.procs parent (some (next here)))
            child (some (next there))))
  | enter {crew : Crew signature Process State Label Outside}
      {process : Process} {label : Label} {program : Program signature Label}
      (running : crew.procs process = some (.done label))
      (code : platform.code label program) :
      Step platform crew (.enter process label)
        (crew.record (.enter process label)
          (platform.enter process label crew.state)
          (Function.update crew.procs process (some program)))
  | jump {crew : Crew signature Process State Label Outside}
      {process : Process} {program : Program signature Label} {label : Label}
      {state : State}
      (running : crew.procs process = some program)
      (jumps : platform.jump process program crew.state label state) :
      Step platform crew (.jump process label)
        (crew.record (.jump process label) state
          (Function.update crew.procs process (some (.done label))))
  | leave {crew : Crew signature Process State Label Outside}
      {process : Process} {program : Program signature Label}
      (running : crew.procs process = some program)
      (exits : platform.exits program) :
      Step platform crew (.leave process)
        (crew.record (.leave process) (platform.leave process crew.state)
          (Function.update crew.procs process none))
  | kill {crew : Crew signature Process State Label Outside}
      {process : Process} {program : Program signature Label}
      (running : crew.procs process = some program) :
      Step platform crew (.kill process)
        (crew.record (.kill process) (platform.leave process crew.state)
          (Function.update crew.procs process none))
  | outside {crew : Crew signature Process State Label Outside}
      (event : Outside) :
      Step platform crew (.outside event)
        (crew.record (.outside event) (platform.disturb event crew.state)
          crew.procs)

/-- The crews reached by runs whose every move is `admitted` in the crew it is
made from. -/
inductive Reach (platform : Platform signature Process State Label Outside)
    (admitted : Crew signature Process State Label Outside →
      Move signature Process Label Outside → Prop)
    (initial : Crew signature Process State Label Outside) :
    Crew signature Process State Label Outside → Prop where
  | start : Reach platform admitted initial initial
  | step {crew after : Crew signature Process State Label Outside}
      {move : Move signature Process Label Outside}
      (before : Reach platform admitted initial crew)
      (step : Step platform crew move after)
      (fine : admitted crew move) :
      Reach platform admitted initial after

theorem Reach.mono
    {first second : Crew signature Process State Label Outside →
      Move signature Process Label Outside → Prop}
    {initial crew : Crew signature Process State Label Outside}
    (reach : Reach platform first initial crew)
    (weaken : ∀ crew move, first crew move → second crew move) :
    Reach platform second initial crew := by
  induction reach with
  | start => exact .start
  | step before step fine ih => exact .step ih step (weaken _ _ fine)

/-- The run condition of all runs. -/
def Unrestricted (_ : Crew signature Process State Label Outside)
    (_ : Move signature Process Label Outside) : Prop :=
  True

end Crew

/-! ## Scripts -/

/-- A protocol for processes that come and go at labels: at which labels a
process may be in a phase, and in which phase it goes on from there. -/
structure Script (signature : Signature) (Phase Label : Type)
    extends Protocol signature Phase where
  stops : Phase → Label → Prop
  resume : Phase → Label → Phase

/-- A program that follows a script up to the next label. -/
abbrev Script.Follows {signature : Signature} {Phase Label : Type}
    (script : Script signature Phase Label) (phase : Phase)
    (program : Program signature Label) : Prop :=
  program.Conforms script.toProtocol phase script.stops

namespace Crew

variable {signature : Signature} {Process State Label Outside Phase : Type}
variable [DecidableEq Process]

/--
The steps preserve `invariant`, which relates a crew to the phase of every
process.  A step may assume that the process follows the script, and where it
goes on from a label the code has to follow it again.
-/
structure Preserves
    (platform : Platform signature Process State Label Outside)
    (admitted : Crew signature Process State Label Outside →
      Move signature Process Label Outside → Prop)
    (script : Script signature Phase Label)
    (invariant : Crew signature Process State Label Outside →
      (Process → Phase) → Prop) : Prop where
  call : ∀ crew phases process call next answer state,
    invariant crew phases →
    crew.procs process = some (.issue call next) →
    script.allow (phases process) call →
    platform.exec process call crew.state answer state →
    admitted crew (.call process ⟨call, answer⟩) →
    script.answer (phases process) call answer ∧
      invariant
        (crew.record (.call process ⟨call, answer⟩) state
          (Function.update crew.procs process (some (next answer))))
        (Function.update phases process
          (script.next (phases process) call answer))
  fork : ∀ crew phases parent child call next here there,
    invariant crew phases →
    crew.procs parent = some (.issue call next) →
    crew.procs child = none →
    script.allow (phases parent) call →
    platform.fork call child = some (here, there) →
    admitted crew (.fork parent child call) →
    script.answer (phases parent) call here ∧
      script.answer (phases parent) call there ∧
      invariant
        (crew.record (.fork parent child call)
          (platform.clone parent child crew.state)
          (Function.update
            (Function.update crew.procs parent (some (next here)))
            child (some (next there))))
        (Function.update
          (Function.update phases parent
            (script.next (phases parent) call here))
          child (script.next (phases parent) call there))
  enter : ∀ crew phases process label program,
    invariant crew phases →
    crew.procs process = some (.done label) →
    script.stops (phases process) label →
    platform.code label program →
    admitted crew (.enter process label) →
    script.Follows (script.resume (phases process) label) program ∧
      invariant
        (crew.record (.enter process label)
          (platform.enter process label crew.state)
          (Function.update crew.procs process (some program)))
        (Function.update phases process
          (script.resume (phases process) label))
  jump : ∀ crew phases process program label state,
    invariant crew phases →
    crew.procs process = some program →
    script.Follows (phases process) program →
    platform.jump process program crew.state label state →
    admitted crew (.jump process label) →
    ∃ phase, script.stops phase label ∧
      invariant
        (crew.record (.jump process label) state
          (Function.update crew.procs process (some (.done label))))
        (Function.update phases process phase)
  leave : ∀ crew phases process program move,
    invariant crew phases →
    crew.procs process = some program →
    script.Follows (phases process) program →
    move = .leave process ∧ platform.exits program ∨ move = .kill process →
    admitted crew move →
    ∃ phase, invariant
      (crew.record move (platform.leave process crew.state)
        (Function.update crew.procs process none))
      (Function.update phases process phase)
  outside : ∀ crew phases event,
    invariant crew phases →
    admitted crew (.outside event) →
    invariant
      (crew.record (.outside event) (platform.disturb event crew.state)
        crew.procs) phases

/-- The invariant holds of the crew for some phases in which all live
processes follow the script. -/
def Simulated (script : Script signature Phase Label)
    (invariant : Crew signature Process State Label Outside →
      (Process → Phase) → Prop)
    (crew : Crew signature Process State Label Outside)
    (phases : Process → Phase) : Prop :=
  invariant crew phases ∧
    ∀ process program, crew.procs process = some program →
      script.Follows (phases process) program

variable {platform : Platform signature Process State Label Outside}
variable {admitted : Crew signature Process State Label Outside →
  Move signature Process Label Outside → Prop}
variable {script : Script signature Phase Label}
variable {invariant : Crew signature Process State Label Outside →
  (Process → Phase) → Prop}

/-- The other processes follow the script as before. -/
theorem follows_update {procs : Process → Option (Program signature Label)}
    {phases : Process → Phase} {process : Process}
    {next : Option (Program signature Label)} {phase : Phase}
    (others : ∀ other program, procs other = some program →
      script.Follows (phases other) program)
    (own : ∀ program, next = some program → script.Follows phase program) :
    ∀ other program,
      Function.update procs process next other = some program →
        script.Follows (Function.update phases process phase other)
          program := by
  intro other program running
  by_cases same : other = process
  · subst same
    rw [Function.update_self] at running ⊢
    exact own program running
  · rw [Function.update_of_ne same] at running ⊢
    exact others other program running

theorem Simulated.step
    {crew after : Crew signature Process State Label Outside}
    {move : Move signature Process Label Outside} {phases : Process → Phase}
    (preserves : Preserves platform admitted script invariant)
    (simulated : Simulated script invariant crew phases)
    (step : Step platform crew move after) (fine : admitted crew move) :
    ∃ phases', Simulated script invariant after phases' := by
  rcases simulated with ⟨holds, follows⟩
  cases step with
  | @call process call next answer state running exec =>
      have allowed := follows _ _ running
      have kept := preserves.call crew phases process call next answer state
        holds running allowed.1 exec fine
      refine ⟨_, kept.2, follows_update follows ?_⟩
      rintro program ⟨⟩
      exact allowed.2 answer kept.1
  | @fork parent child call next here there running fresh forks =>
      have allowed := follows _ _ running
      rcases preserves.fork crew phases parent child call next here there
        holds running fresh allowed.1 forks fine with
        ⟨reliedHere, reliedThere, kept⟩
      refine ⟨_, kept, follows_update (follows_update follows ?_) ?_⟩
      · rintro program ⟨⟩
        exact allowed.2 here reliedHere
      · rintro program ⟨⟩
        exact allowed.2 there reliedThere
  | @enter process label program running code =>
      have stops := follows _ _ running
      have kept := preserves.enter crew phases process label program holds
        running stops code fine
      refine ⟨_, kept.2, follows_update follows ?_⟩
      rintro program ⟨⟩
      exact kept.1
  | @jump process program label state running jumps =>
      rcases preserves.jump crew phases process program label state holds
        running (follows _ _ running) jumps fine with ⟨phase, stops, kept⟩
      refine ⟨_, kept, follows_update follows ?_⟩
      rintro program ⟨⟩
      exact stops
  | @leave process program running exits =>
      rcases preserves.leave crew phases process program _ holds running
        (follows _ _ running) (Or.inl ⟨rfl, exits⟩) fine with ⟨phase, kept⟩
      refine ⟨_, kept, follows_update follows ?_⟩
      rintro program ⟨⟩
  | @kill process program running =>
      rcases preserves.leave crew phases process program _ holds running
        (follows _ _ running) (Or.inr rfl) fine with ⟨phase, kept⟩
      refine ⟨_, kept, follows_update follows ?_⟩
      rintro program ⟨⟩
  | outside event =>
      exact ⟨phases, preserves.outside crew phases event holds fine, follows⟩

/-- The invariant rule for crews. -/
theorem Reach.simulated
    {initial crew : Crew signature Process State Label Outside}
    {phases : Process → Phase}
    (preserves : Preserves platform admitted script invariant)
    (initially : Simulated script invariant initial phases)
    (reach : Reach platform admitted initial crew) :
    ∃ phases', Simulated script invariant crew phases' := by
  induction reach with
  | start => exact ⟨phases, initially⟩
  | step before step fine ih =>
      rcases ih with ⟨phases', simulated⟩
      exact simulated.step preserves step fine

end Crew

end Interaction
