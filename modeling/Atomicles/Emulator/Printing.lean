import Mathlib.Data.Nat.Digits.Defs
import Mathlib.Tactic.Ring
import Atomicles.Emulator.Values

/-!
# Hex digits in and out

The loop of `-v` evaluates hex digits in base 16, modulo the width of a word.
`registers$print` writes every register with eight hex digits behind `0x`,
which `-v` reads back through `strtoul`.
-/

namespace Atomicles.Emulator

/-! ## `registers$print` -/

/-- `%08x`. -/
def format08x (value : Dword) : List Char :=
  let digits := Nat.toDigits 16 value.toNat
  List.replicate (8 - digits.length) '0' ++ digits

/-- `%08X`. -/
def format08X (value : Dword) : List Char :=
  (format08x value).map Char.toUpper

/-- The letter of `__registers$printGPR`. -/
def operandMark (operands : Operand → Option Cell) (cell : Cell) : Char :=
  if operands .DST = some cell ∧ operands .SRC = some cell then '*'
  else if operands .SRC = some cell then 'S'
  else if operands .DST = some cell then 'D'
  else ' '

/-- `__registers$printGPR`. -/
def printGPR (operands : Operand → Option Cell) (memory : Memory) (gpr : Gpr) :
    List Char :=
  (RegisterName.dword gpr).text.toList ++ " [".toList ++
    [operandMark operands gpr.cell] ++ "]   : 0x".toList ++
      format08X (memory.cells gpr.cell) ++ "\n".toList

/-- The letter of a status flag. -/
def flagLetter (memory : Memory) (field : Nat) (set clear : Char) : Char :=
  if (memory.cells .eflags).getLsbD field then set else clear

/-- The line of `eflags`. -/
def printEflags (memory : Memory) : List Char :=
  RegisterName.eflags.text.toList ++ "    : 0x".toList ++
    format08X (memory.cells .eflags) ++ " [status:".toList ++
    [flagLetter memory CF 'C' 'c', flagLetter memory PF 'P' 'p',
      flagLetter memory AF 'A' 'a', flagLetter memory ZF 'Z' 'z',
      flagLetter memory SF 'S' 's', flagLetter memory OF 'O' 'o'] ++
    "] [control:".toList ++ [flagLetter memory DF 'D' 'd'] ++ "]\n".toList

/-- `registers$print`. -/
def print (operands : Operand → Option Cell) (immediate : Dword)
    (memory : Memory) : List (List Char) :=
  [printEflags memory,
    "immediate : 0x".toList ++ format08x immediate ++ "\n".toList,
    printGPR operands memory .eax,
    printGPR operands memory .ebx,
    printGPR operands memory .ecx,
    printGPR operands memory .edx]

/-- What a line shows: the text behind the colon up to the next white
space. -/
def shown (line : List Char) : List Char :=
  ((line.dropWhile (· ≠ ':')).drop 2).takeWhile fun c => !isSpace c

/-! ## The value of hex digits -/

/-- A hex digit, in either case. -/
def IsHexDigit (c : Char) : Prop :=
  c ∈ "0123456789abcdefABCDEF".toList

instance (c : Char) : Decidable (IsHexDigit c) :=
  inferInstanceAs (Decidable (c ∈ "0123456789abcdefABCDEF".toList))

/-- The value of a text in base 16. -/
def hexValue (text : List Char) : Nat :=
  Nat.ofDigits 16 (text.reverse.map fun c => (digitOf 16 c).getD 0)

theorem digitOf_of_isHexDigit {c : Char} (isHex : IsHexDigit c) :
    ∃ digit, digitOf 16 c = some digit := by
  have each : ("0123456789abcdefABCDEF".toList.all fun c =>
      (digitOf 16 c).isSome) = true := by
    decide
  exact Option.isSome_iff_exists.mp (List.all_eq_true.mp each c isHex)

theorem hexValue_append (text rest : List Char) :
    hexValue (text ++ rest) =
      hexValue text * 16 ^ rest.length + hexValue rest := by
  unfold hexValue
  rw [List.reverse_append, List.map_append, Nat.ofDigits_append]
  simp [Nat.mul_comm, Nat.add_comm]

theorem hexValue_singleton (c : Char) :
    hexValue [c] = (digitOf 16 c).getD 0 := by
  simp [hexValue]

theorem hexValue_cons (c : Char) (rest : List Char) :
    hexValue (c :: rest) =
      (digitOf 16 c).getD 0 * 16 ^ rest.length + hexValue rest := by
  rw [← hexValue_singleton, ← hexValue_append]
  rfl

/-- `strtoul` and the loop agree on what hex digits are worth. -/
theorem readDigits_hex {text : List Char} (hex : ∀ c ∈ text, IsHexDigit c)
    (total : Nat) :
    readDigits 16 text total =
      (total * 16 ^ text.length + hexValue text, []) := by
  induction text generalizing total with
  | nil => simp [readDigits, hexValue]
  | cons c rest ih =>
      rcases digitOf_of_isHexDigit (hex c (List.mem_cons_self ..)) with
        ⟨digit, isDigit⟩
      have later := ih (fun d member => hex d (List.mem_cons_of_mem _ member))
        (total * 16 + digit)
      have worth : (total * 16 + digit) * 16 ^ rest.length + hexValue rest =
          total * 16 ^ (c :: rest).length + hexValue (c :: rest) := by
        rw [hexValue_cons, isDigit, List.length_cons, Nat.pow_succ]
        simp only [Option.getD_some]
        ring
      unfold readDigits
      rw [isDigit]
      simp only
      rw [later, worth]

/-- The value of digits is below the power of their number. -/
theorem hexValue_lt (text : List Char) : hexValue text < 16 ^ text.length := by
  have small : ∀ digit ∈ text.reverse.map fun c => (digitOf 16 c).getD 0,
      digit < 16 := by
    intro digit member
    rcases List.mem_map.mp member with ⟨c, _, rfl⟩
    cases isDigit : digitOf 16 c with
    | none => exact (by decide : 0 < 16)
    | some digit => exact (hctoc_of_digit isDigit).2
  have bound := Nat.ofDigits_lt_base_pow_length (by decide) small
  simpa [hexValue] using bound

/-- Zeros in front do not count. -/
theorem hexValue_significant (text : List Char) :
    hexValue text = hexValue (text.dropWhile (· = '0')) := by
  induction text with
  | nil => rfl
  | cons c rest ih =>
      by_cases zero : c = '0'
      · have nothing : (digitOf 16 '0').getD 0 = 0 := by decide
        rw [zero, hexValue_cons, nothing, Nat.zero_mul, Nat.zero_add, ih]
        simp
      · simp [zero]

/-! ## What is printed -/

/-- A digit in upper case. -/
theorem toUpper_digitChar {digit : Nat} (small : digit < 16) :
    IsHexDigit (Nat.digitChar digit).toUpper ∧
      digitOf 16 (Nat.digitChar digit).toUpper = some digit := by
  have each : ∀ digit : Fin 16, IsHexDigit (Nat.digitChar digit).toUpper ∧
      digitOf 16 (Nat.digitChar digit).toUpper = some digit.val := by
    unfold IsHexDigit
    decide
  exact each ⟨digit, small⟩

/-- The digits of a number in base 16, in upper case, read back. -/
theorem toDigits_reads_back (n : Nat) :
    (∀ c ∈ (Nat.toDigits 16 n).map Char.toUpper, IsHexDigit c) ∧
      hexValue ((Nat.toDigits 16 n).map Char.toUpper) = n := by
  induction n using Nat.strongRecOn with
  | ind n ih =>
      by_cases single : n < 16
      · have last := toUpper_digitChar single
        rw [Nat.toDigits_of_lt_base single, List.map_singleton,
          hexValue_singleton, last.2]
        exact ⟨fun c member => List.mem_singleton.mp member ▸ last.1, rfl⟩
      · have last := toUpper_digitChar (Nat.mod_lt n (by decide : 0 < 16))
        have front := ih (n / 16) (by omega)
        rw [Nat.toDigits_of_base_le (by decide) (by omega), List.map_append,
          List.map_singleton, hexValue_append, hexValue_singleton, front.2,
          last.2]
        constructor
        · intro c member
          rcases List.mem_append.mp member with early | late
          · exact front.1 c early
          · exact List.mem_singleton.mp late ▸ last.1
        · simp only [List.length_singleton, Nat.pow_one, Option.getD_some]
          omega

/-- A word is printed with eight digits that read back. -/
theorem format08X_reads_back (value : Dword) :
    (∀ c ∈ format08X value, IsHexDigit c) ∧
      (format08X value).length = 8 ∧
      hexValue (format08X value) = value.toNat := by
  rcases toDigits_reads_back value.toNat with ⟨hex, reads⟩
  have few : (Nat.toDigits 16 value.toNat).length ≤ 8 :=
    (Nat.length_toDigits_le_iff (by decide) (by decide)).mpr value.isLt
  have padded : format08X value =
      List.replicate (8 - (Nat.toDigits 16 value.toNat).length) '0' ++
        (Nat.toDigits 16 value.toNat).map Char.toUpper := by
    rw [format08X, format08x, List.map_append, List.map_replicate]
    rfl
  refine ⟨?_, ?_, ?_⟩
  · intro c member
    rw [padded] at member
    rcases List.mem_append.mp member with zero | digit
    · rw [List.eq_of_mem_replicate zero]
      unfold IsHexDigit
      decide
    · exact hex c digit
  · rw [padded, List.length_append, List.length_replicate, List.length_map]
    omega
  · rw [padded, hexValue_significant]
    have front : ∀ c ∈ List.replicate
        (8 - (Nat.toDigits 16 value.toNat).length) '0',
          decide (c = '0') = true := by
      intro c member
      rw [List.eq_of_mem_replicate member]
      rfl
    rw [List.dropWhile_append_of_pos front, ← hexValue_significant, reads]

/-- `strtoul` reads a printed word. -/
theorem strtoul_printed (value : Dword) :
    strtoul ('0' :: 'x' :: format08X value) = (value.toNat, []) := by
  rcases format08X_reads_back value with ⟨hex, length, reads⟩
  cases digits : format08X value with
  | nil =>
      rw [digits] at length
      cases length
  | cons c rest =>
      rw [digits] at hex reads
      rcases digitOf_of_isHexDigit (hex c (List.mem_cons_self ..)) with
        ⟨digit, isDigit⟩
      have number := readDigits_hex hex 0
      rw [Nat.zero_mul, Nat.zero_add, reads] at number
      have room : ¬ ULONG_MAX < value.toNat := by
        have bound := value.isLt
        simp only [ULONG_MAX]
        omega
      have blank : isSpace '0' = false := by decide
      simp [strtoul, blank, isDigit, number, room]

theorem shown_between {front text rest : List Char} {blank : Char}
    (unmarked : ':' ∉ front) (solid : ∀ c ∈ text, isSpace c = false)
    (isBlank : isSpace blank = true) :
    shown (front ++ ':' :: ' ' :: (text ++ blank :: rest)) = text := by
  have skipped : ∀ c ∈ front, decide (c ≠ ':') = true := by
    intro c member
    apply decide_eq_true
    rintro rfl
    exact unmarked member
  have taken : ∀ c ∈ text, (!isSpace c) = true :=
    fun c member => by rw [solid c member]; rfl
  rw [shown, List.dropWhile_append_of_pos skipped]
  simp [List.takeWhile_append_of_pos taken, isBlank]

theorem solid_of_isHexDigit {c : Char} (isHex : IsHexDigit c) :
    isSpace c = false := by
  have each : ("0123456789abcdefABCDEF".toList.all fun c =>
      !isSpace c) = true := by
    decide
  simpa using List.all_eq_true.mp each c isHex

theorem solid_printed (value : Dword) :
    ∀ c ∈ '0' :: 'x' :: format08X value, isSpace c = false := by
  intro c member
  rcases List.mem_cons.mp member with rfl | member
  · decide
  · rcases List.mem_cons.mp member with rfl | member
    · decide
    · exact solid_of_isHexDigit ((format08X_reads_back value).1 c member)

theorem shown_printEflags (memory : Memory) :
    shown (printEflags memory) =
      '0' :: 'x' :: format08X (memory.cells .eflags) := by
  have shape : ∃ rest, printEflags memory =
      "eflags    ".toList ++ ':' :: ' ' ::
        ('0' :: 'x' :: format08X (memory.cells .eflags) ++ ' ' :: rest) := by
    simp only [printEflags, List.append_assoc]
    exact ⟨_, rfl⟩
  rcases shape with ⟨rest, shape⟩
  rw [shape]
  exact shown_between (by decide) (solid_printed _) (by decide)

theorem operandMark_ne_colon (operands : Operand → Option Cell) (cell : Cell) :
    operandMark operands cell ≠ ':' := by
  unfold operandMark
  split
  · decide
  · split
    · decide
    · split <;> decide

theorem shown_printGPR (operands : Operand → Option Cell) (memory : Memory)
    (gpr : Gpr) :
    shown (printGPR operands memory gpr) =
      '0' :: 'x' :: format08X (memory.cells gpr.cell) := by
  have shape : printGPR operands memory gpr =
      ((RegisterName.dword gpr).text.toList ++
        [' ', '[', operandMark operands gpr.cell, ']', ' ', ' ', ' ']) ++
          ':' :: ' ' ::
            ('0' :: 'x' :: format08X (memory.cells gpr.cell) ++ ['\n']) := by
    simp only [printGPR, List.append_assoc]
    rfl
  rw [shape]
  refine shown_between ?_ (solid_printed _) (by decide)
  have letters : ':' ∉ (RegisterName.dword gpr).text.toList := by
    cases gpr <;> decide
  have mark := (operandMark_ne_colon operands gpr.cell).symm
  simp [letters, mark]

/-- Which line a register has. -/
theorem line_of_name {operands : Operand → Option Cell} {immediate : Dword}
    {memory : Memory} {line : List Char} {name : RegisterName}
    (printed : line ∈ print operands immediate memory)
    (named : name.text.toList <+: line) (whole : name.width = 32) :
    (name = .eflags ∧ line = printEflags memory) ∨
      ∃ gpr, name = .dword gpr ∧ line = printGPR operands memory gpr := by
  simp only [print, List.mem_cons, List.not_mem_nil, or_false] at printed
  cases name with
  | eflags =>
      left
      refine ⟨rfl, ?_⟩
      rcases printed with rfl | rfl | rfl | rfl | rfl | rfl
      · rfl
      all_goals simp [RegisterName.text, printGPR] at named
  | dword gpr =>
      right
      refine ⟨gpr, rfl, ?_⟩
      rcases printed with rfl | rfl | rfl | rfl | rfl | rfl
      all_goals
        cases gpr <;>
          simp [RegisterName.text, printGPR, printEflags] at named ⊢
  | _ => cases whole

/-- The line of a register shows its word. -/
theorem shown_print {operands : Operand → Option Cell} {immediate : Dword}
    {memory : Memory} {line : List Char} {name : RegisterName}
    (printed : line ∈ print operands immediate memory)
    (named : name.text.toList <+: line) (whole : name.width = 32) :
    shown line = '0' :: 'x' :: format08X (memory.cells name.cell) := by
  rcases line_of_name printed named whole with ⟨rfl, rfl⟩ | ⟨gpr, rfl, rfl⟩
  · exact shown_printEflags memory
  · exact shown_printGPR operands memory gpr

/-- A text that `strtoul` reads to its end is stored, whatever the size of
the register. -/
theorem valueOption_read {state : State} {operand : Operand}
    {name : RegisterName} {id value : Dword} {text : String}
    (selects : Selects state operand name id) (notReset : text ≠ "RST")
    (read : strtoul text.toList = (value.toNat, [])) (stack : Dword) :
    ∃ after, valueOption stack text state = some after ∧
      after.memory.cells name.cell = value ∧
      (idSize id = 32 → after.e = state.e) := by
  have word : BitVec.ofNat 32 (strtoul text.toList).1 = value := by
    rw [read, BitVec.ofNat_toNat, BitVec.setWidth_eq]
  have stored : storedWord text (idSize id) = value := by
    unfold storedWord
    simp [read]
  refine ⟨_, valueOption_selects selects stack text, ?_, ?_⟩
  · simp [valueStored, notReset, stored, Memory.set]
  · intro whole
    have passes : Passes text (idSize id) := by
      unfold Passes
      rw [word, whole]
      exact Nat.le_of_lt value.isLt
    simp [valueStored, notReset, passes]

/-- **Hex digits.**  The loop of `-v` evaluates any hex digits in base 16
modulo `2 ^ 32`, so that eight significant digits give their value; and what
`registers$print` shows of a register is stored as the same word. -/
theorem hex_digits_read :
    (∀ (c : Char) (rest : List Char), (∀ d ∈ c :: rest, IsHexDigit d) →
      (readHex (c :: rest) 0).toNat = hexValue (c :: rest) % 2 ^ 32 ∧
        (((c :: rest).dropWhile (· = '0')).length ≤ 8 →
          (readHex (c :: rest) 0).toNat = hexValue (c :: rest))) ∧
    ∀ (stack : Dword) (state : State) (operand : Operand)
      (name : RegisterName) (id : Dword), Selects state operand name id →
      ∀ (operands : Operand → Option Cell) (immediate : Dword)
        (memory : Memory) (line : List Char) (register : RegisterName),
        line ∈ print operands immediate memory →
        register.width = 32 → register.text.toList <+: line →
        ∃ after,
          valueOption stack (String.ofList (shown line)) state = some after ∧
            after.memory.cells name.cell = memory.cells register.cell ∧
            (idSize id = 32 → after.e = state.e) := by
  constructor
  · intro c rest hex
    have spelt := readDigits_hex hex 0
    rw [Nat.zero_mul, Nat.zero_add] at spelt
    have read := readHex_spelt rest c 0 _ spelt
    rw [Nat.zero_mul] at read
    have value : (readHex (c :: rest) 0).toNat =
        hexValue (c :: rest) % 2 ^ 32 := by
      rw [← BitVec.toNat_ofNat, ← read]
      rfl
    refine ⟨value, ?_⟩
    intro significant
    rw [value]
    apply Nat.mod_eq_of_lt
    rw [hexValue_significant]
    calc hexValue ((c :: rest).dropWhile (· = '0'))
        < 16 ^ ((c :: rest).dropWhile (· = '0')).length := hexValue_lt _
      _ ≤ 16 ^ 8 := Nat.pow_le_pow_right (by decide) significant
      _ = 2 ^ 32 := by decide
  · intro stack state operand name id selects operands immediate memory line
      register printed whole named
    have isShown := shown_print printed named whole
    apply valueOption_read selects
    · rw [isShown]
      intro same
      have letters := congrArg String.toList same
      rw [String.toList_ofList] at letters
      cases letters
    · rw [isShown, String.toList_ofList]
      exact strtoul_printed _

/-- `BAADBEEF`, and the line of `ebx` for `eax`. -/
theorem hex_digits_read_baadbeef :
    (readHex "BAADBEEF".toList 0).toNat = hexValue "BAADBEEF".toList ∧
      ∃ after,
        valueOption 0
            (String.ofList (shown (printGPR (fun _ => none)
              (initRegisters fun _ => 0xBAADBEEF) .ebx)))
            (selecting (.dword .eax) REG32_GPR_EAX 0) = some after ∧
          after.memory.cells .eax = 0xBAADBEEF ∧ after.e = 0 := by
  constructor
  · have each : ("BAADBEEF".toList.all fun d =>
        IsHexDigit d) = true := by
      decide
    refine (hex_digits_read.1 'B' "AADBEEF".toList ?_).2 (by decide)
    intro d member
    have isHex := List.all_eq_true.mp each d member
    exact of_decide_eq_true isHex
  · rcases hex_digits_read.2 0 _ _ _ _
      (selects_selecting (.dword .eax) REG32_GPR_EAX 0)
      (fun _ => none) 0 (initRegisters fun _ => 0xBAADBEEF)
      (printGPR (fun _ => none) (initRegisters fun _ => 0xBAADBEEF) .ebx)
      (.dword .ebx) (by simp [print]) rfl (by decide) with
      ⟨after, stored, word, noError⟩
    exact ⟨after, stored, word, noError (by decide)⟩

end Atomicles.Emulator
