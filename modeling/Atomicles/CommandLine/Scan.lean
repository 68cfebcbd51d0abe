import Mathlib.Algebra.Group.Nat.Defs
import Atomicles.CommandLine.Printf

/-!
# Numbers as `sscanf` reads them

A number ends at the first character that is no digit of its base, and `%i`
takes the base from how it begins.  A decimal number that white space ends is
read as it was written.
-/

namespace CommandLine

/-- The value of a digit of a base. -/
def digitOf (base : Nat) (c : Char) : Option Nat :=
  let value :=
    if c.isDigit then some (c.toNat - '0'.toNat)
    else if 'a' ≤ c ∧ c ≤ 'f' then some (c.toNat - 'a'.toNat + 10)
    else if 'A' ≤ c ∧ c ≤ 'F' then some (c.toNat - 'A'.toNat + 10)
    else none
  value.filter (· < base)

/-- The value of the digits a text begins with. -/
def digitsIn (base value : Nat) : Text → Nat
  | [] => value
  | digit :: rest =>
      match digitOf base digit with
      | some amount => digitsIn base (base * value + amount) rest
      | none => value

/-- A number of at least one digit. -/
def number (base : Nat) (text : Text) : Option Nat :=
  if (text.head?.bind (digitOf base)).isSome then some (digitsIn base 0 text)
  else none

/-- A number in the base that it shows. -/
def basedNumber : Text → Option Nat
  | '0' :: 'x' :: rest => number 16 rest
  | '0' :: 'X' :: rest => number 16 rest
  | '0' :: rest => number 8 ('0' :: rest)
  | text => number 10 text

/-- The sign in front of a number, and the text behind it. -/
def signed : Text → Bool × Text
  | '-' :: rest => (true, rest)
  | '+' :: rest => (false, rest)
  | text => (false, text)

/-- `%i`; `none` is a text without a number. -/
def scanInt (text : Text) : Option Int :=
  let (negative, rest) := signed (text.dropWhile isspace)
  (basedNumber rest).map fun (value : Nat) =>
    kept (if negative then -(value : Int) else value)

/-- `%llu`. -/
def scanULong (text : Text) : Option (BitVec 64) :=
  let (negative, rest) := signed (text.dropWhile isspace)
  (number 10 rest).map fun value =>
    if 2 ^ 64 ≤ value then BitVec.allOnes 64
    else if negative then -(BitVec.ofNat 64 value) else BitVec.ofNat 64 value

/-! ## Decimal numbers -/

theorem digitOf_ten (c : Char) :
    digitOf 10 c = if c.isDigit then some (c.toNat - '0'.toNat) else none := by
  by_cases isDigit : c.isDigit = true
  · have bounds := isDigit
    simp only [Char.isDigit, Bool.and_eq_true, decide_eq_true_eq] at bounds
    have small : c.toNat - '0'.toNat < 10 := by
      have upper : c.toNat ≤ 57 := bounds.2
      have zero : '0'.toNat = 48 := rfl
      omega
    simp only [digitOf, if_pos isDigit]
    exact Option.filter_some_pos (decide_eq_true small)
  · unfold digitOf
    simp only [if_neg isDigit]
    split_ifs <;> simp [Option.filter]

theorem digitsIn_ten (value : Nat) (text : Text) :
    digitsIn 10 value text = digits value text := by
  induction text generalizing value with
  | nil => rfl
  | cons digit rest ih =>
      rw [digitsIn, digits, digitOf_ten]
      split_ifs
      · exact ih _
      · rfl

/-- The digits end in front of another character. -/
theorem digits_append {front : Text}
    (all : ∀ digit ∈ front, digit.isDigit = true) {stop : Char}
    (stops : stop.isDigit = false) (rest : Text) (value : Nat) :
    digits value (front ++ stop :: rest) = digits value front := by
  induction front generalizing value with
  | nil => simp [digits, stops]
  | cons digit front ih =>
      have isDigit := all digit List.mem_cons_self
      rw [List.cons_append, digits, digits, if_pos isDigit, if_pos isDigit]
      exact ih (fun other member => all other (List.mem_cons_of_mem _ member)) _

/-- A positive number does not begin with a zero. -/
theorem toDigits_head {n : Nat} (positive : n ≠ 0) (rest : Text) :
    Nat.toDigits 10 n ≠ '0' :: rest := by
  induction n using Nat.strongRecOn generalizing rest with
  | ind n ih =>
      rw [Nat.toDigits_eq_if (by decide)]
      split
      · rename_i single
        intro same
        have zero := (List.cons.inj same).1
        rw [Nat.digitChar_eq_zero] at zero
        exact positive zero
      · rename_i several
        have smaller := ih (n / 10) (by omega) (by omega)
        cases front : Nat.toDigits 10 (n / 10) with
        | nil => exact absurd front Nat.toDigits_ne_nil
        | cons digit digits =>
            intro same
            have zero := (List.cons.inj same).1
            exact smaller digits (by rw [front, zero])

/-- The sign of a decimal number. -/
theorem signed_decimal (value : Int) (rest : Text) :
    signed (decimal value ++ rest) =
      (decide (value < 0), Nat.toDigits 10 value.natAbs ++ rest) := by
  unfold decimal
  by_cases negative : value < 0
  · rw [if_pos negative, decide_eq_true negative]
    rfl
  · rw [if_neg negative, decide_eq_false negative]
    rcases toDigits_cons value.natAbs with ⟨digit, digits, front, isDigit⟩
    rw [front, List.cons_append, signed.eq_def]
    split
    · rename_i same
      rw [(List.cons.inj same).1] at isDigit
      exact absurd isDigit (by decide)
    · rename_i same
      rw [(List.cons.inj same).1] at isDigit
      exact absurd isDigit (by decide)
    · rfl

/-- White space in front of a decimal number is skipped. -/
theorem dropWhile_decimal (blanks : Nat) (value : Int) (rest : Text) :
    (List.replicate blanks ' ' ++ (decimal value ++ rest)).dropWhile isspace =
      decimal value ++ rest := by
  rw [List.dropWhile_append_of_pos]
  · cases front : decimal value with
    | nil => exact absurd front (decimal_ne_nil value)
    | cons character characters =>
        rw [List.cons_append, List.dropWhile_cons_of_neg]
        rw [solid_decimal value character (by rw [front]; simp)]
        exact Bool.false_ne_true
  · intro character member
    rw [List.eq_of_mem_replicate member]
    rfl

section Stops

variable {stop : Char} (stops : isspace stop = true) (rest : Text)

include stops

theorem isDigit_space : stop.isDigit = false := by
  simp only [isspace, List.mem_cons, List.not_mem_nil, or_false,
    decide_eq_true_eq] at stops
  rcases stops with rfl | rfl | rfl | rfl | rfl | rfl <;> rfl

theorem number_digits (n : Nat) :
    number 10 (Nat.toDigits 10 n ++ stop :: rest) = some n := by
  rcases toDigits_cons n with ⟨digit, digits, front, isDigit⟩
  have starts : ((Nat.toDigits 10 n ++ stop :: rest).head?.bind
      (digitOf 10)).isSome = true := by
    rw [front, List.cons_append, List.head?_cons, Option.bind_some,
      digitOf_ten, if_pos isDigit]
    rfl
  rw [number, if_pos starts, digitsIn_ten,
    digits_append (fun _ => Nat.isDigit_of_mem_toDigits (by decide)
      (by decide)) (isDigit_space stops), digits_toDigits]

theorem basedNumber_digits (n : Nat) :
    basedNumber (Nat.toDigits 10 n ++ stop :: rest) = some n := by
  by_cases zero : n = 0
  · subst zero
    have ended : digitOf 8 stop = none ∧ stop ≠ 'x' ∧ stop ≠ 'X' := by
      simp only [isspace, List.mem_cons, List.not_mem_nil, or_false,
        decide_eq_true_eq] at stops
      rcases stops with rfl | rfl | rfl | rfl | rfl | rfl <;> decide
    have octal : number 8 ('0' :: stop :: rest) = some 0 := by
      have first : digitOf 8 '0' = some 0 := by decide
      simp [number, digitsIn, first, ended.1]
    rw [Nat.toDigits_zero, List.singleton_append, basedNumber.eq_def]
    split
    · rename_i same
      exact absurd (List.cons.inj (List.cons.inj same).2).1 ended.2.1
    · rename_i same
      exact absurd (List.cons.inj (List.cons.inj same).2).1 ended.2.2
    · rename_i same
      rw [← (List.cons.inj same).2]
      exact octal
    · rename_i other
      exact absurd rfl (other _)
  · have plain := number_digits stops rest n
    rcases toDigits_cons n with ⟨digit, digits, front, isDigit⟩
    have notZero : digit ≠ '0' := by
      rintro rfl
      exact toDigits_head zero digits front
    rw [front, List.cons_append] at plain ⊢
    rw [basedNumber.eq_def]
    split
    · rename_i same
      exact absurd (List.cons.inj same).1 notZero
    · rename_i same
      exact absurd (List.cons.inj same).1 notZero
    · rename_i same
      exact absurd (List.cons.inj same).1 notZero
    · exact plain

/-- `%i` reads a decimal number that white space ends. -/
theorem scanInt_decimal (blanks : Nat) (value : Int) :
    scanInt (List.replicate blanks ' ' ++ (decimal value ++ stop :: rest)) =
      some (kept value) := by
  have sign : (if decide (value < 0) = true then -(value.natAbs : Int)
      else value.natAbs) = value := by
    simp only [decide_eq_true_eq]
    omega
  rw [scanInt, dropWhile_decimal, signed_decimal]
  simp only [basedNumber_digits stops]
  rw [Option.map_some, sign]

/-- `%llu` reads a decimal number that fits. -/
theorem scanULong_decimal (blanks : Nat) {value : Nat}
    (fits : value < 2 ^ 64) :
    scanULong (List.replicate blanks ' ' ++
      (decimal value ++ stop :: rest)) = some (BitVec.ofNat 64 value) := by
  have positive : ¬ (value : Int) < 0 := by omega
  rw [scanULong, dropWhile_decimal, signed_decimal]
  simp only [number_digits stops, Option.map_some, Int.natAbs_natCast,
    if_neg (Nat.not_le.mpr fits), decide_eq_false positive]
  rfl

end Stops

end CommandLine
