import Mathlib.Logic.Hydra
import Mathlib.Algebra.BigOperators.Group.Finset.Basic
import Mathlib.Algebra.Order.Group.Multiset
import Atomicles.Interaction.Pool

/-!
# Pools that come to an end

A call is answered by what is left of its program, and what is left is smaller
than the program.  So a pool of finitely many processes cannot go on for ever,
and if it can always go on until it is at some goal, it gets there.
-/

namespace Interaction

variable {signature : Signature} {Value : Type}

/-- What is left of a program behind its first call. -/
inductive Program.Behind :
    Program signature Value → Program signature Value → Prop where
  | answer {call : signature.Call}
      {next : signature.Answer call → Program signature Value}
      (answer : signature.Answer call) :
      Behind (next answer) (.issue call next)

theorem Program.behind_wellFounded :
    WellFounded (@Behind signature Value) := by
  constructor
  intro program
  induction program with
  | done value => exact ⟨_, fun _ behind => nomatch behind⟩
  | issue call next ih =>
      constructor
      rintro _ ⟨answer⟩
      exact ih answer

namespace Pool

variable {Process State : Type} [DecidableEq Process]
variable {machine : Machine signature Process State}
variable {admitted : Pool signature Process State Value →
  Label signature Process → Prop}
variable {pool after final : Pool signature Process State Value}
variable {label : Label signature Process} {members : Finset Process}

theorem Reach.trans (first : Reach machine admitted pool after)
    (second : Reach machine admitted after final) :
    Reach machine admitted pool final := by
  induction second with
  | start => exact first
  | step _ step fine ih => exact .step ih step fine

/-- No process lives. -/
def Ended (pool : Pool signature Process State Value) : Prop :=
  ∀ process, pool.procs process = none

/-- No process lives besides the members. -/
def Confined (members : Finset Process)
    (pool : Pool signature Process State Value) : Prop :=
  ∀ process, process ∉ members → pool.procs process = none

/-- What is left of a process, if it lives. -/
def rest (program : Option (Program signature Value)) :
    Multiset (Program signature Value) :=
  program.elim 0 fun program => {program}

/-- What is left of the members. -/
def rests (members : Finset Process)
    (pool : Pool signature Process State Value) :
    Multiset (Program signature Value) :=
  ∑ process ∈ members, rest (pool.procs process)

/-- What is left of all members, taken apart at one of them. -/
theorem sum_update {process : Process} (member : process ∈ members)
    (procs : Process → Option (Program signature Value))
    (program : Option (Program signature Value)) :
    ∑ other ∈ members, rest (Function.update procs process program other) =
      rest program + ∑ other ∈ members.erase process, rest (procs other) := by
  rw [← Finset.add_sum_erase _ _ member, Function.update_self]
  congr 1
  apply Finset.sum_congr rfl
  intro other isOther
  rw [Function.update_of_ne (Finset.ne_of_mem_erase isOther)]

/-- Where the process of a step goes on with something smaller, or ends, less
is left of the members. -/
theorem rests_shrink {process : Process} {program : Program signature Value}
    {next : Option (Program signature Value)}
    (confined : Confined members pool)
    (running : pool.procs process = some program)
    (smaller : ∀ rest, next = some rest → Program.Behind rest program) :
    Relation.CutExpand Program.Behind
      (∑ other ∈ members, rest (Function.update pool.procs process next other))
      (rests members pool) := by
  have member : process ∈ members := by
    by_contra outsider
    rw [confined process outsider] at running
    cases running
  refine ⟨rest next, program, ?_, ?_⟩
  · intro smaller' isNext
    cases next with
    | none => cases isNext
    | some next =>
        rw [Multiset.mem_singleton.mp isNext]
        exact smaller next rfl
  · rw [sum_update member, rests, ← Finset.add_sum_erase _ _ member, running]
    simp only [rest, Option.elim_some]
    ac_rfl

/-- A step that duplicates no process leaves less of the members. -/
theorem Step.shrinks (step : Step machine pool label after)
    (forkless : ¬ label.Forks) (confined : Confined members pool) :
    Relation.CutExpand Program.Behind (rests members after)
        (rests members pool) ∧ Confined members after := by
  have stays : ∀ {process : Process} {program : Program signature Value}
      (next : Option (Program signature Value)),
      pool.procs process = some program → ∀ other, other ∉ members →
        Function.update pool.procs process next other = none := by
    intro process program next running other outsider
    rw [Function.update_of_ne, confined other outsider]
    rintro rfl
    rw [confined _ outsider] at running
    cases running
  cases step with
  | @call process call next answer state running exec =>
      refine ⟨rests_shrink confined running ?_, stays _ running⟩
      rintro _ ⟨⟩
      exact .answer answer
  | fork => exact absurd trivial forkless
  | leave ended =>
      exact ⟨rests_shrink confined ended nofun, stays _ ended⟩
  | kill running =>
      exact ⟨rests_shrink confined running nofun, stays _ running⟩

/-- A pool of finitely many processes that can go on as long as it is not at
its goal gets there. -/
theorem comes_to_end
    {good goal : Pool signature Process State Value → Prop}
    (goes : ∀ pool, good pool → ¬ goal pool → ∃ label after,
      Step machine pool label after ∧ ¬ label.Forks ∧ admitted pool label ∧
        good after)
    (isGood : good pool) (confined : Confined members pool) :
    ∃ final, Reach machine admitted pool final ∧ goal final := by
  have wellFounded :=
    (@Program.behind_wellFounded signature Value).cutExpand
  generalize left : rests members pool = size
  induction size using wellFounded.induction generalizing pool with
  | _ size ih =>
      by_cases ended : goal pool
      · exact ⟨pool, .start, ended⟩
      · rcases goes pool isGood ended with
          ⟨label, after, step, forkless, fine, isGood⟩
        rcases step.shrinks forkless confined with ⟨shrinks, confined⟩
        rw [left] at shrinks
        rcases ih _ shrinks isGood confined rfl with ⟨final, reach, ended⟩
        exact ⟨final, (Reach.step .start step fine).trans reach, ended⟩

end Pool

end Interaction
