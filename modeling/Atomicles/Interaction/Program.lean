import Mathlib.Logic.Basic

/-!
# Programs over a signature of calls

A program is a tree: it has ended with a value, or it issues one call and
continues with the answer.  Nothing is said here about what a call does; a
machine gives the calls their meaning, and the same tree is then run alone or
interleaved with other trees.

Three notions are attached to a tree alone.  A list of answered calls can be
one complete way through it (`Program.Ends`) or an initial part of one
(`Program.Reaches`), and a protocol can restrict the calls it issues along all
ways through it (`Program.Conforms`).
-/

namespace Interaction

/-- The calls a program may issue and the type of the answer to each. -/
structure Signature where
  Call : Type
  Answer : Call → Type

/-- A finite tree of calls which ends in a value. -/
inductive Program (signature : Signature) (Value : Type) : Type where
  | done (value : Value)
  | issue (call : signature.Call)
      (next : signature.Answer call → Program signature Value)

/-- One call together with its answer. -/
structure Event (signature : Signature) where
  call : signature.Call
  answer : signature.Answer call

namespace Program

variable {signature : Signature} {Value Result Phase : Type}

/-- Continue at every leaf of a tree with a program for its value. -/
def bind (program : Program signature Value)
    (continuation : Value → Program signature Result) :
    Program signature Result :=
  match program with
  | .done value => continuation value
  | .issue call next => .issue call fun answer => (next answer).bind continuation

instance : Monad (Program signature) where
  pure := .done
  bind := bind

@[simp]
theorem pure_eq_done (value : Value) :
    (pure value : Program signature Value) = .done value :=
  rfl

@[simp]
theorem done_bind (value : Value)
    (continuation : Value → Program signature Result) :
    (Program.done value >>= continuation) = continuation value :=
  rfl

@[simp]
theorem issue_bind (call : signature.Call)
    (next : signature.Answer call → Program signature Value)
    (continuation : Value → Program signature Result) :
    (Program.issue call next >>= continuation) =
      .issue call fun answer => next answer >>= continuation :=
  rfl

/-- The program that issues one call and returns its answer. -/
def perform (call : signature.Call) :
    Program signature (signature.Answer call) :=
  .issue call .done

@[simp]
theorem perform_bind (call : signature.Call)
    (continuation : signature.Answer call → Program signature Result) :
    (perform call >>= continuation) = .issue call continuation :=
  rfl

theorem bind_done (program : Program signature Value) :
    (program >>= fun value => .done value) = program := by
  induction program with
  | done value => rfl
  | issue call next ih =>
      simp only [issue_bind]
      exact congrArg (issue call) (funext ih)

theorem bind_bind {Final : Type} (program : Program signature Value)
    (first : Value → Program signature Result)
    (second : Result → Program signature Final) :
    (program >>= first >>= second) =
      (program >>= fun value => first value >>= second) := by
  induction program with
  | done value => rfl
  | issue call next ih =>
      simp only [issue_bind]
      exact congrArg (issue call) (funext ih)

instance : LawfulMonad (Program signature) :=
  LawfulMonad.mk' (Program signature) bind_done (fun _ _ => rfl) bind_bind

/-! ## Ways through a program -/

/-- `events` is a complete way through the program, and it ends in `value`. -/
inductive Ends :
    Program signature Value → List (Event signature) → Value → Prop where
  | done (value : Value) : Ends (.done value) [] value
  | issue {call : signature.Call}
      {next : signature.Answer call → Program signature Value}
      (answer : signature.Answer call)
      {events : List (Event signature)} {value : Value}
      (rest : Ends (next answer) events value) :
      Ends (.issue call next) (⟨call, answer⟩ :: events) value

@[simp]
theorem ends_done_iff {value result : Value}
    {events : List (Event signature)} :
    Ends (.done value) events result ↔ events = [] ∧ result = value := by
  constructor
  · intro ends
    cases ends
    exact ⟨rfl, rfl⟩
  · rintro ⟨rfl, rfl⟩
    exact .done _

theorem ends_issue_iff {call : signature.Call}
    {next : signature.Answer call → Program signature Value}
    {events : List (Event signature)} {value : Value} :
    Ends (.issue call next) events value ↔
      ∃ answer rest, events = ⟨call, answer⟩ :: rest ∧
        Ends (next answer) rest value := by
  constructor
  · intro ends
    cases ends with
    | issue answer rest => exact ⟨answer, _, rfl, rest⟩
  · rintro ⟨answer, rest, rfl, ends⟩
    exact .issue answer ends

/-- A way through a sequence is a way through its first part, then one
through the part chosen by the first value. -/
theorem ends_bind_iff {program : Program signature Value}
    {continuation : Value → Program signature Result}
    {events : List (Event signature)} {result : Result} :
    Ends (program >>= continuation) events result ↔
      ∃ first second value, events = first ++ second ∧
        Ends program first value ∧ Ends (continuation value) second result := by
  induction program generalizing events with
  | done value =>
      simp only [done_bind, ends_done_iff]
      constructor
      · intro ends
        exact ⟨[], events, value, rfl, ⟨rfl, rfl⟩, ends⟩
      · rintro ⟨_, second, _, rfl, ⟨rfl, rfl⟩, ends⟩
        exact ends
  | issue call next ih =>
      simp only [issue_bind, ends_issue_iff]
      constructor
      · rintro ⟨answer, rest, rfl, ends⟩
        obtain ⟨first, second, value, rfl, head, tail⟩ := (ih answer).mp ends
        exact ⟨_, second, value, rfl, ⟨answer, first, rfl, head⟩, tail⟩
      · rintro ⟨_, second, value, rfl, ⟨answer, first, rfl, head⟩, tail⟩
        exact ⟨answer, first ++ second, rfl,
          (ih answer).mpr ⟨first, second, value, rfl, head, tail⟩⟩

/-- After the answered calls `events` the rest of the program is `target`. -/
inductive Reaches : Program signature Value → List (Event signature) →
    Program signature Value → Prop where
  | here (program : Program signature Value) : Reaches program [] program
  | issue {call : signature.Call}
      {next : signature.Answer call → Program signature Value}
      (answer : signature.Answer call)
      {events : List (Event signature)} {target : Program signature Value}
      (rest : Reaches (next answer) events target) :
      Reaches (.issue call next) (⟨call, answer⟩ :: events) target

theorem Reaches.snoc {program : Program signature Value}
    {events : List (Event signature)} {call : signature.Call}
    {next : signature.Answer call → Program signature Value}
    (reaches : Reaches program events (.issue call next))
    (answer : signature.Answer call) :
    Reaches program (events ++ [⟨call, answer⟩]) (next answer) := by
  generalize shape : Program.issue call next = target at reaches
  induction reaches with
  | here program =>
      subst shape
      exact .issue answer (.here _)
  | issue first rest ih => exact .issue first (ih shape)

/-- Every call on the way to a call is issued where the calls before it
lead. -/
theorem Reaches.before {program target : Program signature Value}
    {before after : List (Event signature)} {event : Event signature}
    (reaches : Reaches program (before ++ event :: after) target) :
    ∃ next, Reaches program before (.issue event.call next) := by
  induction before generalizing program with
  | nil =>
      cases reaches with
      | issue answer rest => exact ⟨_, .here _⟩
  | cons first before ih =>
      cases reaches with
      | issue answer rest =>
          rcases ih rest with ⟨next, reaches⟩
          exact ⟨next, .issue answer reaches⟩

/-- Where a program ends is reached. -/
theorem Ends.reached {program : Program signature Value}
    {events : List (Event signature)} {value : Value}
    (ends : Ends program events value) :
    Reaches program events (.done value) := by
  induction ends with
  | done value => exact .here _
  | issue answer rest ih => exact .issue answer ih

/-- Where the end of a program is reached it ends. -/
theorem Reaches.ends {program : Program signature Value}
    {events : List (Event signature)} {value : Value}
    (reaches : Reaches program events (.done value)) :
    Ends program events value := by
  generalize shape : Program.done value = target at reaches
  induction reaches with
  | here program =>
      subst shape
      exact .done value
  | issue answer rest ih => exact .issue answer (ih shape)

/-- Where the calls are those of a whole way through the program, nothing is
left of it. -/
theorem Reaches.ended {program target : Program signature Value}
    {events : List (Event signature)} {value : Value}
    (reaches : Reaches program events target)
    (ends : Ends program events value) : target = .done value := by
  induction reaches with
  | here program =>
      cases ends
      rfl
  | issue answer rest ih =>
      cases ends with
      | issue _ ends => exact ih ends

/-- A call of a sequence is one of its first part, or one of the part chosen by
the first value. -/
theorem Reaches.bind {program : Program signature Value}
    {continuation : Value → Program signature Result}
    {events : List (Event signature)} {call : signature.Call}
    {next : signature.Answer call → Program signature Result}
    (reaches : Reaches (program >>= continuation) events (.issue call next)) :
    (∃ next, Reaches program events (.issue call next)) ∨
      ∃ first second value, events = first ++ second ∧
        Ends program first value ∧
          Reaches (continuation value) second (.issue call next) := by
  induction program generalizing events with
  | done value => exact Or.inr ⟨[], events, value, rfl, .done value, reaches⟩
  | issue first rest ih =>
      rw [issue_bind] at reaches
      generalize shape : Program.issue call next = target at reaches
      cases reaches with
      | here =>
          cases shape
          exact Or.inl ⟨_, .here _⟩
      | @issue _ _ answer events _ later =>
          subst shape
          rcases ih answer later with ⟨next, inside⟩ |
            ⟨before, after, value, rfl, ends, behind⟩
          · exact Or.inl ⟨next, .issue answer inside⟩
          · exact Or.inr ⟨_, after, value, rfl, .issue answer ends, behind⟩

/-- A program that has ended makes no call. -/
theorem not_reaches_done {value : Value} {events : List (Event signature)}
    {call : signature.Call}
    {next : signature.Answer call → Program signature Value} :
    ¬ Reaches (.done value) events (.issue call next) := nofun

/-- Take the answers of a program from a list of answered calls: its value and
the calls that are left. -/
def replay [DecidableEq signature.Call] :
    Program signature Value → List (Event signature) →
      Option (Value × List (Event signature))
  | .done value, events => some (value, events)
  | .issue _ _, [] => none
  | .issue call next, event :: events =>
      if same : event.call = call then
        replay (next (same ▸ event.answer)) events
      else none

theorem replay_ends [DecidableEq signature.Call]
    {program : Program signature Value} {events rest : List (Event signature)}
    {value : Value} (replayed : replay program events = some (value, rest)) :
    ∃ used, events = used ++ rest ∧ Ends program used value := by
  induction program generalizing events with
  | done result =>
      cases replayed
      exact ⟨[], rfl, .done _⟩
  | issue call next ih =>
      cases events with
      | nil => cases replayed
      | cons event events =>
          unfold replay at replayed
          split at replayed
          · rename_i same
            subst same
            rcases ih _ replayed with ⟨used, rfl, ends⟩
            exact ⟨event :: used, rfl, .issue _ ends⟩
          · cases replayed

/-- The answers that lead a program to its end are replayed. -/
theorem Ends.replay [DecidableEq signature.Call]
    {program : Program signature Value} {events : List (Event signature)}
    {value : Value} (ends : Ends program events value)
    (rest : List (Event signature)) :
    program.replay (events ++ rest) = some (value, rest) := by
  induction ends with
  | done value => rfl
  | issue answer later ih => simpa [Program.replay] using ih

/-! ## Calls of one kind -/

/-- Whatever the answers, every call of the program is one of `allow`. -/
def Within (allow : signature.Call → Prop) : Program signature Value → Prop
  | .done _ => True
  | .issue call next => allow call ∧ ∀ answer, Within allow (next answer)

@[simp]
theorem within_done {allow : signature.Call → Prop} {value : Value} :
    Within allow (.done value : Program signature Value) :=
  trivial

@[simp]
theorem within_issue {allow : signature.Call → Prop} {call : signature.Call}
    {next : signature.Answer call → Program signature Value} :
    Within allow (.issue call next) ↔
      allow call ∧ ∀ answer, Within allow (next answer) :=
  Iff.rfl

theorem Within.bind {allow : signature.Call → Prop}
    {program : Program signature Value}
    {continuation : Value → Program signature Result}
    (first : Within allow program)
    (second : ∀ value, Within allow (continuation value)) :
    Within allow (program >>= continuation) := by
  induction program with
  | done value => exact second value
  | issue call next ih => exact ⟨first.1, fun answer => ih answer (first.2 answer)⟩

theorem Within.mono {first second : signature.Call → Prop}
    {program : Program signature Value} (within : Within first program)
    (weaken : ∀ call, first call → second call) : Within second program := by
  induction program with
  | done value => trivial
  | issue call next ih =>
      exact ⟨weaken call within.1, fun answer => ih answer (within.2 answer)⟩

theorem Within.ends {allow : signature.Call → Prop}
    {program : Program signature Value} {events : List (Event signature)}
    {value : Value} (within : Within allow program)
    (ends : Ends program events value) :
    ∀ event ∈ events, allow event.call := by
  induction ends with
  | done value => simp
  | issue answer rest ih =>
      intro event member
      rcases List.mem_cons.mp member with rfl | later
      · exact within.1
      · exact ih (within.2 answer) event later

theorem Within.reaches {allow : signature.Call → Prop}
    {program : Program signature Value} {events : List (Event signature)}
    {call : signature.Call}
    {next : signature.Answer call → Program signature Value}
    (within : Within allow program)
    (reaches : Reaches program events (.issue call next)) : allow call := by
  generalize shape : Program.issue call next = target at reaches
  induction reaches with
  | here program =>
      subst shape
      exact within.1
  | issue answer rest ih => exact ih (within.2 answer) shape

/-! ## The values of a program -/

/-- Whatever the answers, a value that the program returns satisfies `post`. -/
def Returns (post : Value → Prop) : Program signature Value → Prop
  | .done value => post value
  | .issue _ next => ∀ answer, Returns post (next answer)

theorem Returns.bind {middle : Value → Prop} {post : Result → Prop}
    {program : Program signature Value}
    {continuation : Value → Program signature Result}
    (first : Returns middle program)
    (second : ∀ value, middle value → Returns post (continuation value)) :
    Returns post (program >>= continuation) := by
  induction program with
  | done value => exact second value first
  | issue call next ih => exact fun answer => ih answer (first answer)

/-- A value of which nothing has to be known. -/
theorem Returns.bind_any {post : Result → Prop}
    {program : Program signature Value}
    {continuation : Value → Program signature Result}
    (second : ∀ value, Returns post (continuation value)) :
    Returns post (program >>= continuation) := by
  induction program with
  | done value => exact second value
  | issue call next ih => exact ih

theorem Returns.ends {post : Value → Prop}
    {program : Program signature Value} {events : List (Event signature)}
    {value : Value} (returns : Returns post program)
    (ends : Ends program events value) : post value := by
  induction ends with
  | done value => exact returns
  | issue answer rest ih => exact ih (returns answer)

end Program

/-! ## Protocols -/

/--
The view one party has of an exchange: which calls it may issue in a phase,
which answers it relies on, and the phase it is in afterwards.
-/
structure Protocol (signature : Signature) (Phase : Type) where
  allow : Phase → signature.Call → Prop
  answer : Phase → (call : signature.Call) → signature.Answer call → Prop
  next : Phase → (call : signature.Call) → signature.Answer call → Phase

namespace Program

variable {signature : Signature} {Value Result Phase : Type}

/--
From `phase` on the program issues allowed calls only, whatever relied-upon
answers it gets, and where it ends the phase and the value satisfy `post`.
-/
def Conforms (protocol : Protocol signature Phase) :
    Phase → Program signature Value → (Phase → Value → Prop) → Prop
  | phase, .done value, post => post phase value
  | phase, .issue call next, post =>
      protocol.allow phase call ∧
        ∀ answer, protocol.answer phase call answer →
          Conforms protocol (protocol.next phase call answer) (next answer) post

variable {protocol : Protocol signature Phase} {phase : Phase}

@[simp]
theorem conforms_done {value : Value} {post : Phase → Value → Prop} :
    Conforms protocol phase (.done value) post ↔ post phase value :=
  Iff.rfl

@[simp]
theorem conforms_issue {call : signature.Call}
    {next : signature.Answer call → Program signature Value}
    {post : Phase → Value → Prop} :
    Conforms protocol phase (.issue call next) post ↔
      protocol.allow phase call ∧
        ∀ answer, protocol.answer phase call answer →
          Conforms protocol (protocol.next phase call answer)
            (next answer) post :=
  Iff.rfl

theorem Conforms.mono {program : Program signature Value}
    {first second : Phase → Value → Prop}
    (conforms : Conforms protocol phase program first)
    (weaken : ∀ phase value, first phase value → second phase value) :
    Conforms protocol phase program second := by
  induction program generalizing phase with
  | done value => exact weaken _ _ conforms
  | issue call next ih =>
      exact ⟨conforms.1, fun answer relied => ih answer (conforms.2 answer relied)⟩

/-- Conformance of a sequence from conformance of its parts. -/
theorem Conforms.bind {program : Program signature Value}
    {continuation : Value → Program signature Result}
    {middle : Phase → Value → Prop} {post : Phase → Result → Prop}
    (first : Conforms protocol phase program middle)
    (second : ∀ phase value, middle phase value →
      Conforms protocol phase (continuation value) post) :
    Conforms protocol phase (program >>= continuation) post := by
  induction program generalizing phase with
  | done value => exact second _ _ first
  | issue call next ih =>
      exact ⟨first.1, fun answer relied => ih answer (first.2 answer relied)⟩

/-- What conforms to one protocol conforms to another one whose phases keep up
with those of the first. -/
theorem Conforms.through {Phase' : Type} {other : Protocol signature Phase'}
    {program : Program signature Value} {phase' : Phase'}
    {post : Phase → Value → Prop} (related : Phase → Phase' → Prop)
    (conforms : Conforms protocol phase program post)
    (allowed : ∀ phase phase' call, related phase phase' →
      protocol.allow phase call → other.allow phase' call)
    (keeps : ∀ phase phase' call answer, related phase phase' →
      protocol.allow phase call → other.answer phase' call answer →
        protocol.answer phase call answer ∧
          related (protocol.next phase call answer)
            (other.next phase' call answer))
    (relates : related phase phase') :
    Conforms other phase' program fun phase' value =>
      ∃ phase, related phase phase' ∧ post phase value := by
  induction program generalizing phase phase' with
  | done value => exact ⟨phase, relates, conforms⟩
  | issue call next ih =>
      refine ⟨allowed phase phase' call relates conforms.1, ?_⟩
      intro answer relied
      have kept := keeps phase phase' call answer relates conforms.1 relied
      exact ih answer (conforms.2 answer kept.1) kept.2

/-- A program whose calls are all allowed in a phase that they do not leave
ends in that phase. -/
theorem Within.conforms {allow : signature.Call → Prop}
    {program : Program signature Value} (within : Within allow program)
    (allowed : ∀ call, allow call → protocol.allow phase call)
    (stays : ∀ call answer, allow call →
      protocol.next phase call answer = phase) :
    Conforms protocol phase program fun reached _ => reached = phase := by
  induction program with
  | done value => rfl
  | issue call next ih =>
      refine ⟨allowed call within.1, ?_⟩
      intro answer _
      rw [stays call answer within.1]
      exact ih answer (within.2 answer)

/-- The same with what is known of the values. -/
theorem Within.conforms_returns {allow : signature.Call → Prop}
    {program : Program signature Value} {values : Value → Prop}
    (within : Within allow program) (returns : Returns values program)
    (allowed : ∀ call, allow call → protocol.allow phase call)
    (stays : ∀ call answer, allow call →
      protocol.next phase call answer = phase) :
    Conforms protocol phase program fun reached value =>
      reached = phase ∧ values value := by
  induction program with
  | done value => exact ⟨rfl, returns⟩
  | issue call next ih =>
      refine ⟨allowed call within.1, ?_⟩
      intro answer _
      rw [stays call answer within.1]
      exact ih answer (within.2 answer) (returns answer)

/-- A program whose calls are allowed in every phase conforms wherever its
end is of no matter. -/
theorem Within.conforms_any {allow : signature.Call → Prop}
    {program : Program signature Value} {post : Phase → Value → Prop}
    (within : Within allow program)
    (allowed : ∀ phase call, allow call → protocol.allow phase call)
    (ends : ∀ phase value, post phase value) :
    Conforms protocol phase program post := by
  induction program generalizing phase with
  | done value => exact ends phase value
  | issue call next ih =>
      exact ⟨allowed phase call within.1,
        fun answer _ => ih answer (within.2 answer)⟩

/-- Such a program may come before any other. -/
theorem Within.conforms_bind {allow : signature.Call → Prop}
    {program : Program signature Value}
    {continuation : Value → Program signature Result}
    {post : Phase → Result → Prop} (within : Within allow program)
    (allowed : ∀ call, allow call → protocol.allow phase call)
    (stays : ∀ call answer, allow call →
      protocol.next phase call answer = phase)
    (rest : ∀ value, Conforms protocol phase (continuation value) post) :
    Conforms protocol phase (program >>= continuation) post := by
  apply (within.conforms allowed stays).bind
  rintro _ value rfl
  exact rest value

end Program

/-! ## Runs under a protocol -/

namespace Protocol

variable {signature : Signature} {Phase : Type}

/-- The phase after a list of answered calls. -/
def after (protocol : Protocol signature Phase) :
    Phase → List (Event signature) → Phase
  | phase, [] => phase
  | phase, event :: events =>
      after protocol (protocol.next phase event.call event.answer) events

/-- Each call got an answer that is relied on. -/
def Relied (protocol : Protocol signature Phase) :
    Phase → List (Event signature) → Prop
  | _, [] => True
  | phase, event :: events =>
      protocol.answer phase event.call event.answer ∧
        Relied protocol (protocol.next phase event.call event.answer) events

/-- Answers that are relied on in every phase. -/
theorem relied_of_forall {protocol : Protocol signature Phase}
    {events : List (Event signature)}
    (answers : ∀ event ∈ events, ∀ phase,
      protocol.answer phase event.call event.answer) (phase : Phase) :
    protocol.Relied phase events := by
  induction events generalizing phase with
  | nil => trivial
  | cons event events ih =>
      refine ⟨answers event (by simp) phase, ih ?_ _⟩
      intro later member
      exact answers later (List.mem_cons_of_mem _ member)

end Protocol

/-- Wherever relied-upon answers lead a conforming program, the call it issues
there is allowed in the phase it is in. -/
theorem Program.Conforms.allows {signature : Signature} {Value Phase : Type}
    {protocol : Protocol signature Phase} {phase : Phase}
    {program : Program signature Value} {post : Phase → Value → Prop}
    {events : List (Event signature)} {call : signature.Call}
    {next : signature.Answer call → Program signature Value}
    (conforms : program.Conforms protocol phase post)
    (relied : protocol.Relied phase events)
    (reaches : program.Reaches events (.issue call next)) :
    protocol.allow (protocol.after phase events) call := by
  generalize shape : Program.issue call next = target at reaches
  induction reaches generalizing phase with
  | here program =>
      subst shape
      exact conforms.1
  | issue answer rest ih =>
      have followed := conforms.2 answer relied.1
      exact ih followed relied.2 shape

/-- Relied-upon answers lead a conforming program to an end as promised. -/
theorem Program.Conforms.ends {signature : Signature} {Value Phase : Type}
    {protocol : Protocol signature Phase} {phase : Phase}
    {program : Program signature Value} {post : Phase → Value → Prop}
    {events : List (Event signature)} {value : Value}
    (conforms : program.Conforms protocol phase post)
    (relied : protocol.Relied phase events)
    (ends : program.Ends events value) :
    post (protocol.after phase events) value := by
  induction ends generalizing phase with
  | done value => exact conforms
  | issue answer rest ih =>
      have followed := conforms.2 answer relied.1
      exact ih followed relied.2

/-- The protocols of several roles as one: the phase says which role it is. -/
def Protocol.family {signature : Signature} {Role Phase : Type}
    (protocols : Role → Protocol signature Phase) :
    Protocol signature (Role × Phase) where
  allow phase call := (protocols phase.1).allow phase.2 call
  answer phase call answer := (protocols phase.1).answer phase.2 call answer
  next phase call answer :=
    (phase.1, (protocols phase.1).next phase.2 call answer)

theorem Program.Conforms.family {signature : Signature}
    {Value Role Phase : Type} {protocols : Role → Protocol signature Phase}
    {role : Role} {phase : Phase} {program : Program signature Value}
    {post : Phase → Value → Prop}
    (conforms : program.Conforms (protocols role) phase post) :
    program.Conforms (.family protocols) (role, phase)
      fun reached value => post reached.2 value := by
  induction program generalizing phase with
  | done value => exact conforms
  | issue call next ih =>
      exact ⟨conforms.1,
        fun answer relied => ih answer (conforms.2 answer relied)⟩

end Interaction
