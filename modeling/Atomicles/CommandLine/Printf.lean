import Atomicles.CommandLine.Getopt

/-!
# Fields of printed lines

Decimal numbers and padded fields as `printf` writes them, and the number that
is read back.  A number contains no white space, whatever its width.
-/

namespace CommandLine

/-- `%d`. -/
def decimal (value : Int) : Text :=
  if value < 0 then '-' :: Nat.toDigits 10 value.natAbs
  else Nat.toDigits 10 value.natAbs

/-- A field at the right end of its width, as with `%8d`. -/
def padLeft (width : Nat) (text : Text) : Text :=
  List.replicate (width - text.length) ' ' ++ text

/-- A field at the left end of its width, as with `%-8d`. -/
def padRight (width : Nat) (text : Text) : Text :=
  text ++ List.replicate (width - text.length) ' '

/-- The number that a decimal text stands for. -/
def readDecimal : Text → Int
  | '-' :: digits => -(Nat.ofDigitChars 10 digits 0 : Int)
  | digits => Nat.ofDigitChars 10 digits 0

/-- A text without white space. -/
def Solid (text : Text) : Prop :=
  ∀ character ∈ text, isspace character = false

theorem solid_toDigits (n : Nat) : Solid (Nat.toDigits 10 n) := by
  intro character member
  have digit := Nat.isDigit_of_mem_toDigits (by decide) (by decide) member
  by_contra blank
  have isBlank : isspace character = true := by simpa using blank
  simp only [isspace, decide_eq_true_eq, List.mem_cons, List.not_mem_nil,
    or_false] at isBlank
  rcases isBlank with rfl | rfl | rfl | rfl | rfl | rfl <;> cases digit

theorem solid_decimal (value : Int) : Solid (decimal value) := by
  intro character member
  unfold decimal at member
  split at member
  · rcases List.mem_cons.mp member with rfl | member
    · decide
    · exact solid_toDigits _ character member
  · exact solid_toDigits _ character member

theorem decimal_ne_nil (value : Int) : decimal value ≠ [] := by
  unfold decimal
  split
  · exact List.cons_ne_nil _ _
  · exact Nat.toDigits_ne_nil

/-- A number is read back from its text. -/
theorem readDecimal_decimal (value : Int) :
    readDecimal (decimal value) = value := by
  unfold decimal
  split
  · rename_i negative
    rw [readDecimal, Nat.ofDigitChars_ten_toDigits]
    omega
  · rename_i notNegative
    have plain : readDecimal (Nat.toDigits 10 value.natAbs) =
        Nat.ofDigitChars 10 (Nat.toDigits 10 value.natAbs) 0 := by
      unfold readDecimal
      split
      · rename_i digits front
        have digit : '-'.isDigit = true := by
          apply Nat.isDigit_of_mem_toDigits (b := 10) (n := value.natAbs)
            (by decide) (by decide)
          rw [front]
          exact List.mem_cons_self ..
        cases digit
      · rfl
    rw [plain, Nat.ofDigitChars_ten_toDigits]
    omega

/-! ## Numbers as arguments -/

/-- `atoi` goes through digits to their end. -/
theorem digits_all {text : Text} (all : ∀ digit ∈ text, digit.isDigit = true)
    (value : Nat) : digits value text = Nat.ofDigitChars 10 text value := by
  induction text generalizing value with
  | nil => rfl
  | cons digit rest ih =>
      rw [digits, if_pos (all digit (List.mem_cons_self ..)),
        Nat.ofDigitChars_cons]
      exact ih (fun digit member => all digit (List.mem_cons_of_mem _ member)) _

theorem digits_toDigits (n : Nat) : digits 0 (Nat.toDigits 10 n) = n := by
  rw [digits_all fun _ => Nat.isDigit_of_mem_toDigits (by decide) (by decide),
    Nat.ofDigitChars_ten_toDigits]

theorem dropWhile_solid {text : Text} (solid : Solid text) :
    text.dropWhile isspace = text := by
  cases text with
  | nil => rfl
  | cons character rest =>
      rw [List.dropWhile_cons_of_neg]
      rw [solid character (List.mem_cons_self ..)]
      exact Bool.false_ne_true

/-- The digits of a number begin with a digit. -/
theorem toDigits_cons (n : Nat) : ∃ digit rest,
    Nat.toDigits 10 n = digit :: rest ∧ digit.isDigit = true := by
  cases front : Nat.toDigits 10 n with
  | nil => exact absurd front Nat.toDigits_ne_nil
  | cons digit rest =>
      refine ⟨digit, rest, rfl, ?_⟩
      apply @Nat.isDigit_of_mem_toDigits 10 n digit (by decide) (by decide)
      rw [front]
      exact List.mem_cons_self ..

/-- A number that is read as a `long`, at its bounds where it is beyond them,
and kept as an `int`. -/
def kept (value : Int) : Int :=
  (BitVec.ofInt 32 (max (-2 ^ 63) (min (2 ^ 63 - 1) value))).toInt

theorem kept_int {value : Int} (lower : -2 ^ 31 ≤ value)
    (upper : value < 2 ^ 31) : kept value = value := by
  have inside : max (-2 ^ 63) (min (2 ^ 63 - 1) value) = value := by omega
  rw [kept, inside, BitVec.toInt_ofInt, Int.bmod_def]
  omega

/-- What `atoi` makes of what `%d` has written. -/
theorem atoi_decimal_kept (value : Int) :
    atoi (decimal value) = kept value := by
  unfold atoi
  rw [dropWhile_solid (solid_decimal value)]
  unfold decimal
  by_cases negative : value < 0
  · rw [if_pos negative]
    have read : (-(digits 0 (Nat.toDigits 10 value.natAbs) : Nat) : Int) =
        value := by
      rw [digits_toDigits]
      omega
    simp only [read, kept]
  · rw [if_neg negative]
    have read : ((digits 0 (Nat.toDigits 10 value.natAbs) : Nat) : Int) =
        value := by
      rw [digits_toDigits]
      omega
    rcases toDigits_cons value.natAbs with ⟨digit, rest, front, isDigit⟩
    rw [front] at read ⊢
    split
    · rename_i same
      cases same
      exact absurd isDigit (by decide)
    · rename_i same
      cases same
      exact absurd isDigit (by decide)
    · simp only [read, kept]

/-- `atoi` reads what `%d` has written, if it is an `int`. -/
theorem atoi_decimal {value : Int} (lower : -2 ^ 31 ≤ value)
    (upper : value < 2 ^ 31) : atoi (decimal value) = value := by
  rw [atoi_decimal_kept, kept_int lower upper]

end CommandLine
