import Atomicles.Interaction.Program

/-!
# Machines and programs run alone

A machine answers the calls of its processes and changes its state as it does
so.  The answer is a relation: a machine may have several answers, and a call
without any answer blocks.  This file runs one program alone; its two Hoare
style judgements differ only in whether the program has to come to an end.
-/

namespace Interaction

/--
The state shared by all processes and what a call does to it.

`fork` tells the calls that duplicate the caller from all others: for such a
call and the name of the new process it gives the answers seen by the caller
and by the new process, and `clone` is the effect on the state.
-/
structure Machine (signature : Signature) (Process State : Type) where
  exec : Process → (call : signature.Call) → State →
    signature.Answer call → State → Prop
  leave : Process → State → State
  fork : (call : signature.Call) → Process →
    Option (signature.Answer call × signature.Answer call)
  clone : Process → Process → State → State

namespace Program

variable {signature : Signature} {Process State Value Result : Type}
variable {machine : Machine signature Process State} {process : Process}

/-- A complete run of one program with no other process in between. -/
inductive Runs (machine : Machine signature Process State)
    (process : Process) :
    Program signature Value → State → List (Event signature) →
      Value → State → Prop where
  | done (value : Value) (state : State) :
      Runs machine process (.done value) state [] value state
  | issue {call : signature.Call}
      {next : signature.Answer call → Program signature Value}
      {state middle final : State} {answer : signature.Answer call}
      {events : List (Event signature)} {value : Value}
      (head : machine.exec process call state answer middle)
      (rest : Runs machine process (next answer) middle events value final) :
      Runs machine process (.issue call next) state
        (⟨call, answer⟩ :: events) value final

@[simp]
theorem runs_done_iff {value result : Value} {state final : State}
    {events : List (Event signature)} :
    Runs machine process (.done value) state events result final ↔
      events = [] ∧ result = value ∧ final = state := by
  constructor
  · intro runs
    cases runs
    exact ⟨rfl, rfl, rfl⟩
  · rintro ⟨rfl, rfl, rfl⟩
    exact .done _ _

theorem runs_issue_iff {call : signature.Call}
    {next : signature.Answer call → Program signature Value}
    {state final : State} {events : List (Event signature)} {value : Value} :
    Runs machine process (.issue call next) state events value final ↔
      ∃ answer middle rest, events = ⟨call, answer⟩ :: rest ∧
        machine.exec process call state answer middle ∧
        Runs machine process (next answer) middle rest value final := by
  constructor
  · intro runs
    cases runs with
    | issue head rest => exact ⟨_, _, _, rfl, head, rest⟩
  · rintro ⟨answer, middle, rest, rfl, head, tail⟩
    exact .issue head tail

/-- A run forgets to a way through the program. -/
theorem Runs.ends {program : Program signature Value} {state final : State}
    {events : List (Event signature)} {value : Value}
    (runs : Runs machine process program state events value final) :
    Ends program events value := by
  induction runs with
  | done value state => exact .done value
  | issue head rest ih => exact .issue _ ih

/-- A run of a sequence is a run of its first part, then one of the part
chosen by the first value. -/
theorem runs_bind_iff {program : Program signature Value}
    {continuation : Value → Program signature Result}
    {state final : State} {events : List (Event signature)} {result : Result} :
    Runs machine process (program >>= continuation) state events result
        final ↔
      ∃ first second value middle, events = first ++ second ∧
        Runs machine process program state first value middle ∧
        Runs machine process (continuation value) middle second result
          final := by
  induction program generalizing state events with
  | done value =>
      simp only [done_bind, runs_done_iff]
      constructor
      · intro runs
        exact ⟨[], events, value, state, rfl, ⟨rfl, rfl, rfl⟩, runs⟩
      · rintro ⟨_, second, _, _, rfl, ⟨rfl, rfl, rfl⟩, runs⟩
        exact runs
  | issue call next ih =>
      simp only [issue_bind, runs_issue_iff]
      constructor
      · rintro ⟨answer, middle, rest, rfl, head, tail⟩
        obtain ⟨first, second, value, later, rfl, before, after⟩ :=
          (ih answer).mp tail
        exact ⟨_, second, value, later, rfl,
          ⟨answer, middle, first, rfl, head, before⟩, after⟩
      · rintro ⟨_, second, value, later, rfl,
          ⟨answer, middle, first, rfl, head, before⟩, after⟩
        exact ⟨answer, middle, first ++ second, rfl, head,
          (ih answer).mpr ⟨first, second, value, later, rfl, before, after⟩⟩

/-! ## Partial and total correctness -/

/-- Wherever the program ends, its value and the state satisfy `post`. -/
def Ensures (machine : Machine signature Process State) (process : Process) :
    Program signature Value → State → (Value → State → Prop) → Prop
  | .done value, state, post => post value state
  | .issue call next, state, post =>
      ∀ answer middle, machine.exec process call state answer middle →
        Ensures machine process (next answer) middle post

/--
The program neither blocks nor dies, and where it ends its value and the state
satisfy `post`, unless it comes to a call that is exempt.
-/
def Delivers (machine : Machine signature Process State) (process : Process)
    (exempt : signature.Call → Prop) :
    Program signature Value → State → (Value → State → Prop) → Prop
  | .done value, state, post => post value state
  | .issue call next, state, post =>
      exempt call ∨
        (∃ answer middle, machine.exec process call state answer middle) ∧
          ∀ answer middle, machine.exec process call state answer middle →
            Delivers machine process exempt (next answer) middle post

variable {exempt : signature.Call → Prop}

@[simp]
theorem ensures_done {value : Value} {state : State}
    {post : Value → State → Prop} :
    Ensures machine process (.done value) state post ↔ post value state :=
  Iff.rfl

@[simp]
theorem delivers_done {value : Value} {state : State}
    {post : Value → State → Prop} :
    Delivers machine process exempt (.done value) state post ↔
      post value state :=
  Iff.rfl

theorem ensures_iff_runs {program : Program signature Value} {state : State}
    {post : Value → State → Prop} :
    Ensures machine process program state post ↔
      ∀ events value final,
        Runs machine process program state events value final →
          post value final := by
  induction program generalizing state with
  | done value =>
      simp only [ensures_done, runs_done_iff]
      constructor
      · rintro holds _ _ _ ⟨rfl, rfl, rfl⟩
        exact holds
      · intro holds
        exact holds _ _ _ ⟨rfl, rfl, rfl⟩
  | issue call next ih =>
      simp only [Ensures, ih, runs_issue_iff]
      constructor
      · rintro holds _ _ _ ⟨answer, middle, rest, rfl, head, tail⟩
        exact holds answer middle head rest _ _ tail
      · intro holds answer middle head rest value final tail
        exact holds _ _ _ ⟨answer, middle, rest, rfl, head, tail⟩

/-- What a program delivers holds after every run without exempt calls. -/
theorem Delivers.runs {program : Program signature Value} {state : State}
    {post : Value → State → Prop} {events : List (Event signature)}
    {value : Value} {final : State}
    (delivers : Delivers machine process exempt program state post)
    (runs : Runs machine process program state events value final)
    (none : ∀ event ∈ events, ¬ exempt event.call) : post value final := by
  induction runs with
  | done value state => exact delivers
  | @issue call next state middle final answer events value head rest ih =>
      rcases delivers with exempted | ⟨_, tail⟩
      · exact absurd exempted (none ⟨call, answer⟩ (by simp))
      · apply ih (tail _ _ head)
        intro event member
        exact none event (by simp [member])

theorem Ensures.mono {program : Program signature Value} {state : State}
    {first second : Value → State → Prop}
    (ensures : Ensures machine process program state first)
    (weaken : ∀ value final, first value final → second value final) :
    Ensures machine process program state second := by
  rw [ensures_iff_runs] at ensures ⊢
  intro events value final runs
  exact weaken _ _ (ensures events value final runs)

theorem Delivers.mono {program : Program signature Value} {state : State}
    {first second : Value → State → Prop}
    (delivers : Delivers machine process exempt program state first)
    (weaken : ∀ value final, first value final → second value final) :
    Delivers machine process exempt program state second := by
  induction program generalizing state with
  | done value => exact weaken _ _ delivers
  | issue call next ih =>
      rcases delivers with exempted | ⟨progress, tail⟩
      · exact Or.inl exempted
      · refine Or.inr ⟨progress, ?_⟩
        intro answer middle head
        exact ih answer (tail answer middle head)

/-- What a program delivers without exempt calls it delivers to all. -/
theorem Delivers.unexempt {program : Program signature Value} {state : State}
    {post : Value → State → Prop}
    (delivers : Delivers machine process exempt program state post)
    (within : Within (fun call => ¬ exempt call) program) :
    Delivers machine process (fun _ => False) program state post := by
  induction program generalizing state with
  | done value => exact delivers
  | issue call next ih =>
      rcases delivers with exempted | ⟨progress, tail⟩
      · exact absurd exempted within.1
      · refine Or.inr ⟨progress, ?_⟩
        intro answer middle head
        exact ih answer (tail answer middle head) (within.2 answer)

/-- A program delivers later on what it delivers now, if its calls do not find
out about the difference. -/
theorem Delivers.later {program : Program signature Value}
    {post : Value → State → Prop} (passes : State → State → Prop)
    (absorbs : ∀ call state later answer after, passes state later →
      machine.exec process call later answer after →
        machine.exec process call state answer after)
    (serves : ∀ call state later, passes state later →
      (∃ answer after, machine.exec process call state answer after) →
        ∃ answer after, machine.exec process call later answer after)
    (stable : ∀ value state later, passes state later → post value state →
      post value later) {state later : State}
    (delivers : Delivers machine process exempt program state post)
    (passed : passes state later) :
    Delivers machine process exempt program later post := by
  cases program with
  | done value => exact stable value state later passed delivers
  | issue call next =>
      rcases delivers with exempted | ⟨progress, tail⟩
      · exact Or.inl exempted
      · refine Or.inr ⟨serves call state later passed progress, ?_⟩
        intro answer middle head
        exact tail answer middle
          (absorbs call state later answer middle passed head)

theorem delivers_bind {program : Program signature Value}
    {continuation : Value → Program signature Result} {state : State}
    {post : Result → State → Prop} :
    Delivers machine process exempt (program >>= continuation) state post ↔
      Delivers machine process exempt program state fun value middle =>
        Delivers machine process exempt (continuation value) middle post := by
  induction program generalizing state with
  | done value => exact Iff.rfl
  | issue call next ih =>
      simp only [issue_bind, Delivers, ih]

end Program

end Interaction
