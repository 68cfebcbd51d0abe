import Mathlib.Data.List.Nodup
import Mathlib.Logic.Function.Basic

/-!
# Linked lists on a heap

Blocks that point from one to the next, whatever else they hold.  The loops of
a program over such a list take a bound on their rounds; they fault at a
pointer to no block.
-/

namespace Heap

variable {Loc Cell : Type}

/-- The blocks that are allocated. -/
abbrev Blocks (Loc Cell : Type) := Loc → Option Cell

section Loops

variable (next : Cell → Option Loc)

/-- `while(p->next != NULL) p = p->next;`. -/
def last (blocks : Blocks Loc Cell) : (rounds : Nat) → Loc → Option Loc
  | 0, _ => none
  | rounds + 1, loc => do
      let cell ← blocks loc
      match next cell with
      | none => return loc
      | some following => last blocks rounds following

/-- `while(p) { .. p = p->next; }`: the blocks it comes to. -/
def visit (blocks : Blocks Loc Cell) :
    (rounds : Nat) → Option Loc → Option (List Cell)
  | _, none => some []
  | 0, some _ => none
  | rounds + 1, some loc => do
      let cell ← blocks loc
      let rest ← visit blocks rounds (next cell)
      return cell :: rest

variable [DecidableEq Loc]

/-- `while(p) { q = p->next; free(p); p = q; }`: the places that were freed,
and the blocks after it. -/
def release : (rounds : Nat) → Blocks Loc Cell → Option Loc →
    Option (List Loc × Blocks Loc Cell)
  | _, blocks, none => some ([], blocks)
  | 0, _, some _ => none
  | rounds + 1, blocks, some loc => do
      let cell ← blocks loc
      let (freed, after) ←
        release rounds (Function.update blocks loc none) (next cell)
      return (loc :: freed, after)

end Loops

/-- The cells at these places are linked in this order, from the first pointer
on to the null pointer. -/
def Chain (next : Cell → Option Loc) (blocks : Blocks Loc Cell) :
    Option Loc → List (Loc × Cell) → Prop
  | first, [] => first = none
  | first, (loc, cell) :: rest =>
      first = some loc ∧ blocks loc = some cell ∧
        Chain next blocks (next cell) rest

/-- The places of a list. -/
abbrev places (cells : List (Loc × Cell)) : List Loc :=
  cells.map Prod.fst

namespace Chain

variable {next : Cell → Option Loc} {blocks : Blocks Loc Cell}
variable {first : Option Loc} {cells : List (Loc × Cell)} {loc : Loc}
variable {cell : Cell}

/-- Only the blocks of the list matter. -/
theorem congr {other : Blocks Loc Cell} (chain : Chain next blocks first cells)
    (same : ∀ loc ∈ places cells, other loc = blocks loc) :
    Chain next other first cells := by
  induction cells generalizing first with
  | nil => exact chain
  | cons head rest ih =>
      rcases chain with ⟨isFirst, found, linked⟩
      refine ⟨isFirst, (same head.1 (by simp)).trans found, ih linked ?_⟩
      intro loc member
      exact same loc (List.mem_cons_of_mem _ member)

theorem visits (chain : Chain next blocks first cells) {rounds : Nat}
    (enough : cells.length ≤ rounds) :
    visit next blocks rounds first = some (cells.map Prod.snd) := by
  induction cells generalizing first rounds with
  | nil =>
      rw [show first = none from chain]
      cases rounds <;> rfl
  | cons head rest ih =>
      rcases chain with ⟨rfl, found, linked⟩
      cases rounds with
      | zero => simp at enough
      | succ rounds =>
          have later := ih linked (Nat.le_of_succ_le_succ enough)
          simp [visit, found, later]

/-- The place of the last cell. -/
theorem lasts {start : Loc}
    (chain : Chain next blocks (some start) (cells ++ [(loc, cell)]))
    {rounds : Nat} (enough : cells.length < rounds) :
    last next blocks rounds start = some loc := by
  induction cells generalizing start rounds with
  | nil =>
      rcases chain with ⟨isStart, found, ends⟩
      cases isStart
      cases rounds with
      | zero => cases enough
      | succ rounds =>
          have ending : next cell = none := ends
          simp [last, found, ending]
  | cons head rest ih =>
      rcases chain with ⟨isStart, found, linked⟩
      cases isStart
      cases rounds with
      | zero => cases enough
      | succ rounds =>
          have more : ∃ following, next head.2 = some following := by
            cases rest with
            | nil => exact ⟨loc, linked.1⟩
            | cons second others => exact ⟨second.1, linked.1⟩
          rcases more with ⟨following, isFollowing⟩
          have later : last next blocks rounds following = some loc := by
            apply ih
            · rw [← isFollowing]
              exact linked
            · exact Nat.lt_of_succ_lt_succ enough
          simp [last, found, isFollowing, later]

/-- A list with a last cell has a first one. -/
theorem starts (chain : Chain next blocks first (cells ++ [(loc, cell)])) :
    ∃ start, first = some start := by
  cases cells with
  | nil => exact ⟨loc, chain.1⟩
  | cons head rest => exact ⟨head.1, chain.1⟩

/-- The last cell of a list. -/
theorem found_last (chain : Chain next blocks first (cells ++ [(loc, cell)])) :
    blocks loc = some cell := by
  induction cells generalizing first with
  | nil => exact chain.2.1
  | cons head rest ih => exact ih chain.2.2

variable [DecidableEq Loc]

/-- A new block is linked behind the last one. -/
theorem append (chain : Chain next blocks first (cells ++ [(loc, cell)]))
    (apart : (places (cells ++ [(loc, cell)])).Nodup) {fresh : Loc}
    (isFresh : fresh ∉ places (cells ++ [(loc, cell)])) {linked added : Cell}
    (links : next linked = some fresh) (ends : next added = none) :
    Chain next
      (Function.update (Function.update blocks loc (some linked)) fresh
        (some added)) first
      (cells ++ [(loc, linked), (fresh, added)]) := by
  induction cells generalizing first with
  | nil =>
      have different : loc ≠ fresh := by
        rintro rfl
        simp at isFresh
      refine ⟨chain.1, ?_, ?_, ?_, ends⟩
      · simp [Function.update_of_ne different]
      · rw [links]
      · simp
  | cons head rest ih =>
      rcases chain with ⟨isFirst, found, chain⟩
      simp only [places, List.cons_append, List.map_cons, List.nodup_cons]
        at apart
      simp only [places, List.cons_append, List.map_cons, List.mem_cons,
        not_or] at isFresh
      refine ⟨isFirst, ?_, ih chain apart.2 isFresh.2⟩
      have notLast : head.1 ≠ loc := by
        rintro rfl
        simp at apart
      rw [Function.update_of_ne (Ne.symm isFresh.1),
        Function.update_of_ne notLast]
      exact found

/-- Every block of the list is freed, once, and no other. -/
theorem releases (chain : Chain next blocks first cells)
    (apart : (places cells).Nodup) {rounds : Nat}
    (enough : cells.length ≤ rounds) :
    release next rounds blocks first = some (places cells,
      fun loc => if loc ∈ places cells then none else blocks loc) := by
  induction cells generalizing first blocks rounds with
  | nil =>
      rw [show first = none from chain]
      cases rounds <;> simp [release]
  | cons head rest ih =>
      rcases chain with ⟨rfl, found, linked⟩
      simp only [places, List.map_cons, List.nodup_cons] at apart
      cases rounds with
      | zero => simp at enough
      | succ rounds =>
          have remains : Chain next (Function.update blocks head.1 none)
              (next head.2) rest := by
            apply linked.congr
            intro loc member
            apply Function.update_of_ne
            rintro rfl
            exact apart.1 member
          have later := ih remains apart.2 (Nat.le_of_succ_le_succ enough)
          simp only [release, found, Option.bind_eq_bind, Option.bind_some,
            later]
          refine congrArg some (Prod.ext rfl (funext fun loc => ?_))
          dsimp only
          have member : loc ∈ places (head :: rest) ↔
              loc = head.1 ∨ loc ∈ places rest :=
            List.mem_cons
          by_cases isHead : loc = head.1
          · rw [if_pos (member.mpr (Or.inl isHead)), isHead]
            simp
          · rw [Function.update_of_ne isHead]
            simp only [member, isHead, false_or]

end Chain

end Heap
