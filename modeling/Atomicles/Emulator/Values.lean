import Atomicles.Emulator.Course

/-!
# The values of `-v`

A text denotes the number that `strtoul` reads, or else the one that its hex
digits spell.  `-v` stores a word whether it accepts the text or not, so it
meets what is expected of it on the accepted texts only.
-/

namespace Atomicles.Emulator

/-! ## Hex digits -/

theorem hctoc_of_digit {c : Char} {digit : Nat}
    (isDigit : digitOf 16 c = some digit) : hctoc c = digit ∧ digit < 16 := by
  rcases Option.filter_eq_some_iff.mp isDigit with ⟨valued, small⟩
  have bounded : digit < 16 := of_decide_eq_true small
  refine ⟨?_, bounded⟩
  have codes : '0'.toNat = 48 ∧ '9'.toNat = 57 ∧ 'a'.toNat = 97 ∧
      'f'.toNat = 102 ∧ 'z'.toNat = 122 ∧ 'A'.toNat = 65 ∧ 'F'.toNat = 70 ∧
      'Z'.toNat = 90 := by
    decide
  have order : ∀ first last : Char, first ≤ last ↔ first.toNat ≤ last.toNat :=
    fun first last => by rw [Char.le_def, UInt32.le_iff_toNat_le]; rfl
  unfold digitValue at valued
  simp only [order, codes] at valued
  unfold hctoc
  simp only [codes]
  split at valued
  · rename_i decimal
    rw [if_pos decimal]
    exact Option.some.inj valued
  · rename_i decimal
    rw [if_neg decimal]
    split at valued
    · have value := Option.some.inj valued
      rw [if_pos (by omega)]
      omega
    · rename_i lower
      split at valued
      · have value := Option.some.inj valued
        rw [if_neg (by omega), if_pos (by omega)]
        omega
      · cases valued

/-- A digit goes into the four bits that the shift has freed. -/
theorem or_digit (total : Nat) {digit : Nat} (small : digit < 16) :
    BitVec.ofNat 32 (total * 16) ||| BitVec.ofNat 32 digit =
      BitVec.ofNat 32 (total * 16 + digit) := by
  have joined := Nat.shiftLeft_add_eq_or_of_lt (i := 4) small total
  rw [Nat.shiftLeft_eq] at joined
  rw [← BitVec.ofNat_or, ← joined]

theorem shift_digit (total : Nat) :
    BitVec.ofNat 32 total <<< 4 = BitVec.ofNat 32 (total * 16) := by
  apply BitVec.eq_of_toNat_eq
  simp [Nat.shiftLeft_eq]

theorem readDigits_cons {c : Char} {rest : List Char} {total number : Nat}
    (spelt : readDigits 16 (c :: rest) total = (number, [])) :
    ∃ digit, digitOf 16 c = some digit ∧
      readDigits 16 rest (total * 16 + digit) = (number, []) := by
  unfold readDigits at spelt
  cases isDigit : digitOf 16 c with
  | none =>
      rw [isDigit] at spelt
      cases spelt
  | some digit =>
      rw [isDigit] at spelt
      exact ⟨digit, rfl, spelt⟩

/-- The loop for hex digits reads the number that they spell. -/
theorem readHex_spelt (rest : List Char) :
    ∀ (c : Char) (total number : Nat),
      readDigits 16 (c :: rest) total = (number, []) →
        readHex (c :: rest) (BitVec.ofNat 32 (total * 16)) =
          BitVec.ofNat 32 number := by
  induction rest with
  | nil =>
      intro c total number spelt
      rcases readDigits_cons spelt with ⟨digit, isDigit, ended⟩
      rcases hctoc_of_digit isDigit with ⟨value, small⟩
      have total_eq : total * 16 + digit = number := congrArg Prod.fst ended
      rw [readHex, value, or_digit total small, total_eq]
  | cons next rest ih =>
      intro c total number spelt
      rcases readDigits_cons spelt with ⟨digit, isDigit, later⟩
      rcases hctoc_of_digit isDigit with ⟨value, small⟩
      rw [readHex, value, or_digit total small, shift_digit]
      · exact ih next (total * 16 + digit) number later
      · exact List.cons_ne_nil next rest

/-! ## What a text denotes -/

/-- The number that a text consists of, if it consists of hex digits. -/
def spelt (text : String) : Option Nat :=
  if (readDigits 16 text.toList 0).2 = [] then
    some (readDigits 16 text.toList 0).1
  else none

/-- The number that a text denotes for a register. -/
def denotes (name : RegisterName) (text : String) : Option Nat :=
  if text = "RST" then
    if name = .eflags then some EFLAGS_RESET.toNat else none
  else if (strtoul text.toList).2 = [] then some (strtoul text.toList).1
  else spelt text

/-- The number that a text denotes, if the register has room for it. -/
def fitting (name : RegisterName) (text : String) : Option Nat :=
  (denotes name text).filter fun number => number < 2 ^ name.width

theorem fitting_some {name : RegisterName} {text : String} {number : Nat} :
    fitting name text = some number ↔
      denotes name text = some number ∧ number < 2 ^ name.width := by
  unfold fitting
  rw [Option.filter_eq_some_iff, decide_eq_true_iff]

theorem RegisterName.width_le (name : RegisterName) : name.width ≤ 32 := by
  cases name with
  | eflags => exact Nat.le_refl 32
  | dword gpr => exact Nat.le_refl 32
  | word gpr => exact (by decide : 16 ≤ 32)
  | low gpr => exact (by decide : 8 ≤ 32)
  | high gpr => exact (by decide : 8 ≤ 32)

/-- What the word of such a number is under the name. -/
theorem RegisterName.field_ofNat {name : RegisterName} {number : Nat}
    (small : number < 2 ^ name.width) :
    name.field (BitVec.ofNat 32 number) =
      if name.isHigh then 0 else number := by
  have room : number < 2 ^ 32 :=
    Nat.lt_of_lt_of_le small (Nat.pow_le_pow_right (by decide) name.width_le)
  have word : (BitVec.ofNat 32 number).toNat = number := by
    rw [BitVec.toNat_ofNat, Nat.mod_eq_of_lt room]
  unfold field
  rw [word]
  cases name with
  | high gpr =>
      have none_left : number / 2 ^ (high gpr).offset = 0 :=
        Nat.div_eq_of_lt small
      rw [none_left]
      rfl
  | _ =>
      simp only [offset, Nat.pow_zero, Nat.div_one]
      exact Nat.mod_eq_of_lt small

/-! ## What `-v` does -/

/-- The selected operand points to a register of this name, which has been
looked up under some id last. -/
structure Selects (state : State) (operand : Operand) (name : RegisterName)
    (id : Dword) : Prop where
  operandPtr : state.operandPtr = some operand
  target : state.target = operand
  pointed : state.operands operand = some name.cell
  register : state.registers operand = some name.cell
  id : state.memory.ids name.cell = id

/-- The bits that an id says. -/
def idSize (id : Dword) : Nat :=
  ((id &&& FILTER_SIZE).toNat * 8) % 0x100

/-- The options lead to such states. -/
theorem Follows.selects {options : List Given} {state : State}
    (follows : Follows (Course.of options) state) {operand : Operand}
    {name : RegisterName}
    (selected : (Course.of options).selected = some operand)
    (pointed : (Course.of options).pointed operand = some (.register name))
    (named : (Course.of options).named operand = some name) :
    Selects state operand name (state.memory.ids name.cell) where
  operandPtr := follows.operandPtr.trans selected
  target := by
    rw [follows.target, selected]
    rfl
  pointed := by
    rw [follows.operands, pointed]
    rfl
  register := by
    rw [follows.registers, named]
    rfl
  id := rfl

/-- The text passes the comparison of `-v`. -/
def Passes (text : String) (size : Nat) : Prop :=
  (BitVec.ofNat 32 (strtoul text.toList).1).toNat ≤ 2 ^ size

instance (text : String) (size : Nat) : Decidable (Passes text size) := by
  unfold Passes
  infer_instance

/-- The word and the error code of `-v`. -/
def valueStored (stack : Dword) (text : String) (name : RegisterName)
    (id : Dword) (e : Int) : Dword × Int :=
  if text = "RST" then (if name = .eflags then EFLAGS_RESET else stack, e)
  else (storedWord text (idSize id), if Passes text (idSize id) then e else 1)

theorem RegisterName.cell_eflags {name : RegisterName} :
    name.cell = .eflags ↔ name = .eflags := by
  cases name with
  | eflags => simp [cell]
  | dword gpr => cases gpr <;> simp [cell, Gpr.cell]
  | word gpr => cases gpr <;> simp [cell, Gpr.cell]
  | low gpr => cases gpr <;> simp [cell, Gpr.cell]
  | high gpr => cases gpr <;> simp [cell, Gpr.cell]

theorem valueOption_selects {state : State} {operand : Operand}
    {name : RegisterName} {id : Dword}
    (selects : Selects state operand name id) (stack : Dword)
    (text : String) :
    valueOption stack text state =
      some
        { state with
          memory := state.memory.set name.cell
            (valueStored stack text name id state.e).1
          e := (valueStored stack text name id state.e).2 } := by
  have size : registerSize state.memory name.cell = idSize id := by
    rw [← selects.id]
    rfl
  have register : state.registers state.target = some name.cell := by
    rw [selects.target]
    exact selects.register
  unfold valueOption valueStored
  rw [selects.operandPtr]
  simp only [Option.bind_eq_bind, Option.bind_some, selects.pointed]
  by_cases reset : text = "RST"
  · simp only [reset, ne_eq, not_true_eq_false, if_false, if_true,
      RegisterName.cell_eflags]
    split <;> rfl
  · simp only [ne_eq, reset, not_false_eq_true, if_true, register,
      Option.bind_some, size, if_false]
    by_cases passes : Passes text (idSize id)
    · have fits : (BitVec.ofNat 32 (strtoul text.toList).1).toNat ≤
          2 ^ idSize id := passes
      have stored : storedWord text (idSize id) =
          if (strtoul text.toList).2 ≠ [] then readHex text.toList 0
          else BitVec.ofNat 32 (strtoul text.toList).1 := by
        unfold storedWord
        simp only [fits, true_and]
      rw [stored, if_pos fits, if_pos passes]
      rfl
    · have exceeds : ¬ (BitVec.ofNat 32 (strtoul text.toList).1).toNat ≤
          2 ^ idSize id := passes
      have stored : storedWord text (idSize id) =
          BitVec.ofNat 32 (strtoul text.toList).1 :=
        if_neg fun both => exceeds both.1
      rw [stored, if_neg exceeds, if_neg passes]
      rfl

/-- What is expected of `-v`: a number that fits is stored under the name and
no error reported; anything else is an error, and the register keeps its
word. -/
def Stores (stack : Dword) (text : String) (name : RegisterName)
    (state : State) : Prop :=
  ∃ after, valueOption stack text state = some after ∧
    match fitting name text with
    | some number =>
        name.field (after.memory.cells name.cell) = number ∧
          after.e = state.e
    | none =>
        after.e ≠ 0 ∧
          after.memory.cells name.cell = state.memory.cells name.cell

theorem stores_some {stack : Dword} {text : String} {name : RegisterName}
    {state : State} {operand : Operand} {id : Dword} {number : Nat}
    (selects : Selects state operand name id)
    (fits : fitting name text = some number) :
    Stores stack text name state ↔
      name.field (valueStored stack text name id state.e).1 = number ∧
        (valueStored stack text name id state.e).2 = state.e := by
  unfold Stores
  rw [valueOption_selects selects, fits]
  simp [Memory.set]

theorem stores_none {stack : Dword} {text : String} {name : RegisterName}
    {state : State} {operand : Operand} {id : Dword}
    (selects : Selects state operand name id)
    (misfits : fitting name text = none) :
    Stores stack text name state ↔
      (valueStored stack text name id state.e).2 ≠ 0 ∧
        (valueStored stack text name id state.e).1 =
          state.memory.cells name.cell := by
  unfold Stores
  rw [valueOption_selects selects, misfits]
  simp [Memory.set]

/-- What is stored for a number that fits. -/
theorem valueStored_fitting {text : String} {name : RegisterName}
    {id : Dword} {number : Nat} (fits : fitting name text = some number)
    (passes : text ≠ "RST" → Passes text (idSize id)) (stack : Dword)
    (e : Int) :
    valueStored stack text name id e = (BitVec.ofNat 32 number, e) := by
  rcases fitting_some.mp fits with ⟨denoted, small⟩
  unfold valueStored
  unfold denotes at denoted
  by_cases reset : text = "RST"
  · rw [if_pos reset] at denoted ⊢
    by_cases flags : name = .eflags
    · rw [if_pos flags] at denoted ⊢
      rw [← Option.some.inj denoted]
      rfl
    · rw [if_neg flags] at denoted
      cases denoted
  · rw [if_neg reset] at denoted ⊢
    rw [if_pos (passes reset)]
    have fitted := passes reset
    unfold Passes at fitted
    unfold storedWord
    by_cases ended : (strtoul text.toList).2 = []
    · rw [if_pos ended] at denoted
      simp only [fitted, ended, ne_eq, not_true_eq_false, and_false, if_false]
      rw [Option.some.inj denoted]
    · rw [if_neg ended] at denoted
      simp only [fitted, ended, ne_eq, not_false_eq_true, and_true, if_true]
      unfold spelt at denoted
      by_cases hex : (readDigits 16 text.toList 0).2 = []
      · rw [if_pos hex] at denoted
        have spelt : readDigits 16 text.toList 0 = (number, []) := by
          rw [← Option.some.inj denoted, ← hex]
        cases chars : text.toList with
        | nil =>
            rw [chars] at ended
            exact absurd rfl ended
        | cons c rest =>
            rw [chars] at spelt
            have read := readHex_spelt rest c 0 number spelt
            rw [Nat.zero_mul] at read
            exact congrArg (fun word => (word, e)) read
      · rw [if_neg hex] at denoted
        cases denoted

/-- A state in which a register of this name and id is selected. -/
def selecting (name : RegisterName) (id word : Dword) : State where
  memory := ((initRegisters fun _ => 0).setId name.cell id).set name.cell word
  operands _ := some name.cell
  registers _ := some name.cell
  target := .DST
  operandPtr := some .DST
  help := false
  e := 0
  jump := false

theorem selects_selecting (name : RegisterName) (id word : Dword) :
    Selects (selecting name id word) .DST name id := by
  constructor <;> simp [selecting, Memory.set, Memory.setId]

/-- **Values.**  For a text, a register name and the id under which its
register was looked up last: `-v` does what is expected in every state exactly
if the text denotes a number that fits, the number passes the comparison with
the size of the id, and it is zero for the name of a high byte. -/
theorem stores_iff (text : String) (name : RegisterName) (id : Dword) :
    (∀ stack state operand, Selects state operand name id →
      Stores stack text name state) ↔
      ∃ number, fitting name text = some number ∧
        (text ≠ "RST" → Passes text (idSize id)) ∧
        (name.isHigh = true → number = 0) := by
  constructor
  · intro stores
    cases fits : fitting name text with
    | none =>
        -- The register holds another word than the one that is stored.
        have selects := selects_selecting name id
          ((valueStored 0 text name id 0).1 + 1)
        have kept := ((stores_none selects fits).mp
          (stores 0 _ _ selects)).2
        simp only [selecting, Memory.set, Function.update_self] at kept
        exact absurd kept (by bv_omega)
    | some number =>
        have selects := selects_selecting name id 0
        rcases (stores_some selects fits).mp (stores 0 _ _ selects) with
          ⟨stored, noError⟩
        have passes : text ≠ "RST" → Passes text (idSize id) := by
          intro value
          by_contra exceeds
          unfold valueStored at noError
          rw [if_neg value, if_neg exceeds] at noError
          cases noError
        refine ⟨number, rfl, passes, ?_⟩
        intro high
        rw [valueStored_fitting fits passes,
          RegisterName.field_ofNat (fitting_some.mp fits).2, if_pos high]
          at stored
        exact stored.symm
  · rintro ⟨number, fits, passes, high⟩ stack state operand selects
    rw [stores_some selects fits, valueStored_fitting fits passes,
      RegisterName.field_ofNat (fitting_some.mp fits).2]
    refine ⟨?_, rfl⟩
    split
    · rename_i isHigh
      exact (high isHigh).symm
    · rfl

/-- `-v 256` for `al`: the word is stored and no error reported. -/
theorem not_stores :
    ¬ Stores 0 "256" (.low .eax)
      (selecting (.low .eax) REG16_GPR_AL 0) := by
  rw [stores_none (selects_selecting ..) (by decide)]
  decide

end Atomicles.Emulator
