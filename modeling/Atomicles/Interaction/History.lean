import Mathlib.Logic.Function.Basic

/-!
# Accesses in the order of critical sections

Processes enter critical sections one after the other, and each access to a
place is attributed to the section its process entered last.  A history is
serial if every value read is the one written last before the reader's own
section, in the order of the sections.
-/

namespace Interaction

/-- An access to a place, with the section it belongs to. -/
structure Access (Place Value : Type) where
  place : Place
  «section» : Nat
  value : Value
deriving DecidableEq

/-- How many sections have been entered, the last one of each process, and
the accesses so far, newest first. -/
structure History (Process Place Value : Type) where
  sections : Nat
  latest : Process → Nat
  writes : List (Access Place Value)
  reads : List (Access Place Value)

/--
`value` is what was written to `place` in the last of the sections before
`bound` that wrote to it, or the initial value if there is none.
-/
def Recent {Place Value : Type} (initial : Place → Value)
    (writes : List (Access Place Value)) (bound : Nat) (place : Place)
    (value : Value) : Prop :=
  (∃ write ∈ writes, write.place = place ∧ write.section < bound ∧
      write.value = value ∧
      ∀ other ∈ writes, other.place = place → other.section < bound →
        other.section ≤ write.section) ∨
    (∀ other ∈ writes, other.place = place → ¬ other.section < bound) ∧
      value = initial place

section Recent

variable {Place Value : Type} {initial : Place → Value}
variable {writes : List (Access Place Value)} {bound : Nat} {place : Place}
variable {value : Value} {write : Access Place Value}

/-- A write that is elsewhere or not before the bound makes no difference. -/
theorem Recent.ignore (recent : Recent initial writes bound place value)
    (late : write.place = place → bound ≤ write.section) :
    Recent initial (write :: writes) bound place value := by
  rcases recent with ⟨last, member, samePlace, before, sameValue, latest⟩ |
    ⟨noWrite, isInitial⟩
  · refine Or.inl ⟨last, List.mem_cons_of_mem _ member, samePlace, before,
      sameValue, ?_⟩
    intro other present atPlace early
    rcases List.mem_cons.mp present with rfl | present
    · exact absurd early (Nat.not_lt.mpr (late atPlace))
    · exact latest other present atPlace early
  · refine Or.inr ⟨?_, isInitial⟩
    intro other present atPlace
    rcases List.mem_cons.mp present with rfl | present
    · exact Nat.not_lt.mpr (late atPlace)
    · exact noWrite other present atPlace

/-- A write of the last section is the most recent one. -/
theorem Recent.last (current : write.section < bound)
    (ordered : ∀ other ∈ writes, other.section ≤ write.section) :
    Recent initial (write :: writes) bound write.place write.value := by
  refine Or.inl ⟨write, List.mem_cons_self, rfl, current, rfl, ?_⟩
  intro other present _ _
  rcases List.mem_cons.mp present with rfl | present
  · exact Nat.le_refl _
  · exact ordered other present

/-- Above all writes the bound does not matter. -/
theorem Recent.rebound {bound' : Nat}
    (recent : Recent initial writes bound place value)
    (below : ∀ other ∈ writes, other.section < bound)
    (below' : ∀ other ∈ writes, other.section < bound') :
    Recent initial writes bound' place value := by
  rcases recent with ⟨last, member, samePlace, _, sameValue, latest⟩ |
    ⟨noWrite, isInitial⟩
  · refine Or.inl ⟨last, member, samePlace, below' last member, sameValue, ?_⟩
    intro other present atPlace _
    exact latest other present atPlace (below other present)
  · refine Or.inr ⟨?_, isInitial⟩
    intro other present atPlace
    exact absurd (below other present) (noWrite other present atPlace)

end Recent

namespace History

variable {Process Place Value : Type}

/-- The history before anything happened. -/
def empty : History Process Place Value :=
  { sections := 0, latest := fun _ => 0, writes := [], reads := [] }

/-- Every value read is the most recent one before the reader's section. -/
def Serial (initial : Place → Value) (history : History Process Place Value) :
    Prop :=
  ∀ read ∈ history.reads,
    Recent initial history.writes read.section read.place read.value

/-- A process writes. -/
def write (process : Process) (place : Place) (value : Value)
    (history : History Process Place Value) : History Process Place Value :=
  { history with
    writes := ⟨place, history.latest process, value⟩ :: history.writes }

/-- A process reads. -/
def read (process : Process) (place : Place) (value : Value)
    (history : History Process Place Value) : History Process Place Value :=
  { history with
    reads := ⟨place, history.latest process, value⟩ :: history.reads }

/-- Sections are numbered in the order in which they are entered. -/
structure Ordered (history : History Process Place Value) : Prop where
  latest : ∀ process, history.latest process ≤ history.sections
  writes : ∀ write ∈ history.writes, write.section ≤ history.sections
  reads : ∀ read ∈ history.reads, read.section ≤ history.sections

variable [DecidableEq Process]

/-- A process enters a new section. -/
def enter (process : Process) (history : History Process Place Value) :
    History Process Place Value :=
  { history with
    sections := history.sections + 1
    latest := Function.update history.latest process (history.sections + 1) }

namespace Ordered

variable {history : History Process Place Value} {process : Process}
variable {place : Place} {value : Value}

omit [DecidableEq Process] in
theorem empty :
    (History.empty : History Process Place Value).Ordered where
  latest := fun _ => Nat.le_refl _
  writes := by simp [History.empty]
  reads := by simp [History.empty]

theorem enter (ordered : history.Ordered) :
    (history.enter process).Ordered where
  latest := by
    intro other
    by_cases same : other = process
    · simp [History.enter, same]
    · have before := ordered.latest other
      simp only [History.enter, Function.update_of_ne same]
      omega
  writes := by
    intro write member
    exact Nat.le_succ_of_le (ordered.writes write member)
  reads := by
    intro read member
    exact Nat.le_succ_of_le (ordered.reads read member)

omit [DecidableEq Process] in
theorem write (ordered : history.Ordered) :
    (history.write process place value).Ordered where
  latest := ordered.latest
  writes := by
    intro write member
    rcases List.mem_cons.mp member with rfl | earlier
    · exact ordered.latest process
    · exact ordered.writes write earlier
  reads := ordered.reads

omit [DecidableEq Process] in
theorem read (ordered : history.Ordered) :
    (history.read process place value).Ordered where
  latest := ordered.latest
  writes := ordered.writes
  reads := by
    intro read member
    rcases List.mem_cons.mp member with rfl | earlier
    · exact ordered.latest process
    · exact ordered.reads read earlier

end Ordered

end History

end Interaction
