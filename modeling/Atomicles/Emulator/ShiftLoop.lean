import Mathlib.Algebra.Group.Int.Defs
import Mathlib.Algebra.Group.Nat.Defs
import Atomicles.Emulator.Shifts

/-!
# The closed form of `shift`

The loop moves the bits by one place in each round and overwrites `CF` with
the bit that drops out.  Its rounds add up to one shift by the whole count,
and what is left in `CF` is the bit that dropped out last.
-/

namespace Atomicles.Emulator

/-! ## One round and all rounds -/

/-- Of two assignments to a field the second one counts. -/
theorem setField_setField {field : Nat} (within : field < 32) (dword : Dword)
    (first second : Bool) :
    setField (setField dword field first) field second =
      setField dword field second := by
  apply BitVec.eq_of_getLsbD_eq
  intro index _
  simp only [getLsbD_setField _ within]
  by_cases here : index = field <;> simp [here]

namespace Shift

/-- A round shifts by one. -/
theorem shiftOnce_eq (shift : Shift) (dst eflags : Dword) :
    shiftOnce shift.opcode dst eflags =
      (shift.result dst 1, setField eflags CF (shift.lastOut dst 1)) := by
  have left : (dst <<< 1, setField eflags CF ((MSB dst).getLsbD 0)) =
      (dst <<< 1, setField eflags CF (dst.getLsbD 31)) := by
    rw [MSB_bit, BitVec.msb_eq_getLsbD_last]
  have right : (dst >>> 1, setField eflags CF ((LSB dst).getLsbD 0)) =
      (dst >>> 1, setField eflags CF (dst.getLsbD 0)) := by
    rw [LSB_bit]
  cases shift with
  | SAL => exact left
  | SHL => exact left
  | SHR => exact right
  | SAR => exact shiftOnce_SAR dst eflags

theorem result_zero (shift : Shift) (dst : Dword) : shift.result dst 0 = dst := by
  cases shift <;> simp [result]

/-- Shifts by counts add up. -/
theorem result_succ (shift : Shift) (dst : Dword) (count : Nat) :
    shift.result (shift.result dst 1) count = shift.result dst (count + 1) := by
  have places : count + 1 = 1 + count := Nat.add_comm count 1
  rw [places]
  cases shift with
  | SAL => exact (BitVec.shiftLeft_add dst 1 count).symm
  | SHL => exact (BitVec.shiftLeft_add dst 1 count).symm
  | SHR => exact (BitVec.shiftRight_add dst 1 count).symm
  | SAR => exact BitVec.sshiftRight_add.symm

/-- The bit that drops out last in the rounds after the first one. -/
theorem lastOut_succ (shift : Shift) (dst : Dword) {count : Nat}
    (rounds : count ≠ 0) (within : count < 32) :
    shift.lastOut (shift.result dst 1) count =
      shift.lastOut dst (count + 1) := by
  have left : (dst <<< 1).getLsbD (32 - count) =
      dst.getLsbD (32 - (count + 1)) := by
    rw [BitVec.getLsbD_shiftLeft]
    have inside : 32 - count < 32 := by omega
    have beyond : ¬ 32 - count < 1 := by omega
    simp only [inside, beyond, decide_true, decide_false, Bool.not_false,
      Bool.true_and]
    congr 1
  have place : 1 + (count - 1) = count + 1 - 1 := by omega
  cases shift with
  | SAL => exact left
  | SHL => exact left
  | SHR =>
      show (dst >>> 1).getLsbD (count - 1) = dst.getLsbD (count + 1 - 1)
      rw [BitVec.getLsbD_ushiftRight, place]
  | SAR =>
      show (dst.sshiftRight 1).getLsbD (count - 1) =
        dst.getLsbD (count + 1 - 1)
      have inside : ¬ 32 ≤ count - 1 := by omega
      have below : count + 1 - 1 < 32 := by omega
      rw [BitVec.getLsbD_sshiftRight, place, if_pos below]
      simp [inside]

/-- The loop is one shift by the whole count. -/
theorem shiftLoop_eq (shift : Shift) {count : Nat} (within : count ≤ 32)
    (dst eflags : Dword) :
    shiftLoop shift.opcode count dst eflags =
      (shift.result dst count,
        if count = 0 then eflags
        else setField eflags CF (shift.lastOut dst count)) := by
  induction count generalizing dst eflags with
  | zero => rw [shiftLoop, result_zero, if_pos rfl]
  | succ count ih =>
      rw [shiftLoop, shiftOnce_eq, ih (by omega), result_succ,
        if_neg (Nat.succ_ne_zero count)]
      by_cases last : count = 0
      · rw [if_pos last, last]
      · rw [if_neg last, setField_setField (by decide),
          lastOut_succ shift dst last (by omega)]

end Shift

/-! ## The result -/

namespace Shift

/-- The number that a shift of a 32-bit word by `n` places makes. -/
def Denotes (dst : Dword) (n : Nat) (value : Dword) : Shift → Prop
  | .SAL => value.toNat = dst.toNat * 2 ^ n % 2 ^ 32
  | .SHL => value.toNat = dst.toNat * 2 ^ n % 2 ^ 32
  | .SHR => value.toNat = dst.toNat / 2 ^ n
  | .SAR => value.toInt = dst.toInt / 2 ^ n

/-- The place of the bit of the operand that ends in `CF`. -/
def carryBit (n : Nat) : Shift → Nat
  | .SAL => 32 - n
  | .SHL => 32 - n
  | .SHR => n - 1
  | .SAR => n - 1

/-- The closed form: the value, `CF`, and that nothing else changes but `OF`
after a shift by one. -/
structure ClosedForm (shift : Shift) (n : Nat)
    (dst eflags value eflags' : Dword) : Prop where
  value : shift.Denotes dst n value
  carry : 0 < n → eflags'.getLsbD CF = dst.getLsbD (shift.carryBit n)
  unshifted : n = 0 → eflags' = eflags
  overflow : n ≠ 1 → eflags'.getLsbD OF = eflags.getLsbD OF
  others : ∀ bit, bit ≠ CF → bit ≠ OF →
    eflags'.getLsbD bit = eflags.getLsbD bit

theorem result_denotes (shift : Shift) (dst : Dword) (n : Nat) :
    shift.Denotes dst n (shift.result dst n) := by
  have left : (dst <<< n).toNat = dst.toNat * 2 ^ n % 2 ^ 32 := by
    rw [BitVec.toNat_shiftLeft, Nat.shiftLeft_eq]
  cases shift with
  | SAL => exact left
  | SHL => exact left
  | SHR =>
      show (dst >>> n).toNat = dst.toNat / 2 ^ n
      rw [BitVec.toNat_ushiftRight, Nat.shiftRight_eq_div_pow]
  | SAR =>
      show (dst.sshiftRight n).toInt = dst.toInt / 2 ^ n
      rw [BitVec.toInt_sshiftRight, Int.shiftRight_eq_div_pow]
      norm_cast

theorem lastOut_eq (shift : Shift) (dst : Dword) (n : Nat) :
    shift.lastOut dst n = dst.getLsbD (shift.carryBit n) := by
  cases shift <;> rfl

/-- After the loop nothing happens to the value, and to the flags an
assignment to `OF` where the count is one. -/
theorem shift_eq (shift : Shift) (dst cnt eflags : Dword) :
    ∃ overflow,
      Emulator.shift shift.opcode dst cnt eflags =
        ((shiftLoop shift.opcode (cnt &&& 0x1F).toNat dst eflags).1,
          if cnt &&& 0x1F = 1 then
            setField
              (shiftLoop shift.opcode (cnt &&& 0x1F).toNat dst eflags).2 OF
              overflow
          else (shiftLoop shift.opcode (cnt &&& 0x1F).toNat dst eflags).2) := by
  unfold Emulator.shift
  by_cases once : cnt &&& 0x1F = 1
  · simp only [once, if_true]
    split
    · exact ⟨_, rfl⟩
    · split
      · exact ⟨_, rfl⟩
      · exact ⟨_, rfl⟩
  · simp only [once, if_false]
    exact ⟨false, trivial⟩

end Shift

/-- **The shift loop.**  For every instruction, operand, count and earlier
flags the loop computes the closed form. -/
theorem shift_closed_form (instruction : Shift) (dst cnt eflags : Dword) :
    instruction.ClosedForm (cnt.toNat % 32) dst eflags
      (shift instruction.opcode dst cnt eflags).1
      (shift instruction.opcode dst cnt eflags).2 := by
  have masked := masked_toNat cnt
  have once : cnt &&& 0x1F = 1 ↔ cnt.toNat % 32 = 1 := by
    rw [← BitVec.toNat_inj, masked]
    rfl
  have below : cnt.toNat % 32 ≤ 32 := Nat.le_of_lt (Nat.mod_lt _ (by decide))
  rcases instruction.shift_eq dst cnt eflags with ⟨overflow, shifted⟩
  rw [shifted, masked, instruction.shiftLoop_eq below]
  generalize cnt.toNat % 32 = n at once
  constructor
  · exact instruction.result_denotes dst n
  · intro rounds
    have some_rounds : n ≠ 0 := Nat.ne_of_gt rounds
    have apart : CF ≠ OF := by decide
    by_cases one : n = 1
    · rw [if_pos (once.mpr one), if_neg some_rounds,
        getLsbD_setField _ (by decide), if_neg apart,
        getLsbD_setField _ (by decide), if_pos rfl, instruction.lastOut_eq]
    · rw [if_neg (mt once.mp one), if_neg some_rounds,
        getLsbD_setField _ (by decide), if_pos rfl, instruction.lastOut_eq]
  · intro none
    have not_one : n ≠ 1 := by omega
    rw [if_neg (mt once.mp not_one), if_pos none]
  · intro not_one
    rw [if_neg (mt once.mp not_one)]
    split
    · rfl
    · rw [getLsbD_setField _ (by decide), if_neg (by decide)]
  · intro bit notCF notOF
    have flags : (if n = 0 then eflags
        else setField eflags CF (instruction.lastOut dst n)).getLsbD bit =
          eflags.getLsbD bit := by
      split
      · rfl
      · rw [getLsbD_setField _ (by decide), if_neg notCF]
    by_cases one : cnt &&& 0x1F = 1
    · rw [if_pos one, getLsbD_setField _ (by decide), if_neg notOF]
      exact flags
    · rw [if_neg one]
      exact flags

end Atomicles.Emulator
