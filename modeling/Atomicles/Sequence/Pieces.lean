/-!
# The pieces between separators

A list is cut at its separators, and empty pieces are left out.
-/

namespace Atomicles.Sequence

universe u

variable {α : Type u}

/-- The pieces of a list that are not empty. -/
def pieces (isSeparator : α → Bool) (list : List α) : List (List α) :=
  (list.splitOnP isSeparator).filter fun piece => !piece.isEmpty

variable {isSeparator : α → Bool}

@[simp]
theorem pieces_nil : pieces isSeparator [] = [] := by
  simp [pieces]

/-- The pieces on both sides of a separator. -/
theorem pieces_append_cons (front back : List α) {separator : α}
    (separates : isSeparator separator = true) :
    pieces isSeparator (front ++ separator :: back) =
      pieces isSeparator front ++ pieces isSeparator back := by
  unfold pieces
  rw [List.splitOnP_append_cons front back separates, List.filter_append]

theorem pieces_separator {separator : α}
    (separates : isSeparator separator = true) (rest : List α) :
    pieces isSeparator (separator :: rest) = pieces isSeparator rest := by
  have split := pieces_append_cons [] rest separates
  rwa [pieces_nil, List.nil_append, List.nil_append] at split

/-- A list without separators is one piece. -/
theorem pieces_single {piece : List α} (inhabited : piece ≠ [])
    (inside : ∀ element ∈ piece, isSeparator element = false) :
    pieces isSeparator piece = [piece] := by
  unfold pieces
  rw [List.splitOnP_eq_singleton inside]
  simp [inhabited]

/-- A piece, a separator and the pieces after it. -/
theorem pieces_piece {piece : List α} (inhabited : piece ≠ [])
    (inside : ∀ element ∈ piece, isSeparator element = false)
    {separator : α} (separates : isSeparator separator = true)
    (rest : List α) :
    pieces isSeparator (piece ++ separator :: rest) =
      piece :: pieces isSeparator rest := by
  rw [pieces_append_cons piece rest separates, pieces_single inhabited inside]
  rfl

/-- Separators in front make no pieces. -/
theorem pieces_prepend {separators : List α}
    (separate : ∀ element ∈ separators, isSeparator element = true)
    (rest : List α) :
    pieces isSeparator (separators ++ rest) = pieces isSeparator rest := by
  induction separators with
  | nil => rfl
  | cons separator separators ih =>
      rw [List.cons_append,
        pieces_separator (separate separator List.mem_cons_self)]
      exact ih fun element member =>
        separate element (List.mem_cons_of_mem separator member)

/-- Nor do they at the end. -/
theorem pieces_append {separators : List α}
    (separate : ∀ element ∈ separators, isSeparator element = true)
    (front : List α) :
    pieces isSeparator (front ++ separators) = pieces isSeparator front := by
  cases separators with
  | nil => rw [List.append_nil]
  | cons separator separators =>
      have rest := pieces_prepend
        (fun element member =>
          separate element (List.mem_cons_of_mem separator member)) []
      rw [pieces_append_cons front separators
        (separate separator List.mem_cons_self)]
      rw [List.append_nil, pieces_nil] at rest
      rw [rest, List.append_nil]

/-- The pieces consist of what is no separator. -/
theorem flatten_pieces (list : List α) :
    (pieces isSeparator list).flatten =
      list.filter fun element => !isSeparator element := by
  unfold pieces
  rw [List.flatten_filter_not_isEmpty]
  induction list with
  | nil => rfl
  | cons element list ih =>
      rw [List.splitOnP_cons_eq_if_modifyHead, List.filter_cons]
      cases separates : isSeparator element with
      | true => simpa using ih
      | false =>
          cases cut : list.splitOnP isSeparator with
          | nil => exact absurd cut (List.splitOnP_ne_nil _ _)
          | cons first rest =>
              rw [cut] at ih
              simpa using ih

/-- What follows a list leaves its pieces as they are exactly if it consists
of separators. -/
theorem pieces_append_iff (front back : List α) :
    pieces isSeparator (front ++ back) = pieces isSeparator front ↔
      ∀ element ∈ back, isSeparator element = true := by
  constructor
  · intro same
    have flat := congrArg List.flatten same
    rw [flatten_pieces, flatten_pieces, List.filter_append,
      List.append_right_eq_self, List.filter_eq_nil_iff] at flat
    intro element member
    simpa using flat element member
  · intro separate
    exact pieces_append separate front

end Atomicles.Sequence
