import Atomicles.Emulator.Bits

/-!
# What the macros of `bits.h` mean

The table of reversed bytes, combined byte by byte, reverses a word; `LSB` and
`MSB` are its lowest and highest bit, and `BitwiseXNOR32` its parity.
-/

namespace Atomicles.Emulator

/-! ## Reversal -/

/-- A reversed word has every bit in the mirrored place. -/
theorem getLsbD_reverse_rev {w : Nat} (x : BitVec w) (i : Fin w) :
    x.reverse.getLsbD i.rev = x.getLsbD i := by
  have inside : i.rev.val < w := i.rev.isLt
  have back : w - 1 - i.rev.val = i.val := by
    rw [Fin.val_rev]
    omega
  rw [BitVec.getLsbD_reverse, BitVec.getMsbD_eq_getLsbD, back,
    decide_eq_true inside, Bool.true_and]

/-- The table holds the bytes with their bits reversed, in order. -/
theorem BitReverseTable256_eq :
    BitReverseTable256 =
      (List.range 256).map fun n => (BitVec.ofNat 8 n).reverse.toNat := by
  decide +kernel

theorem length_BitReverseTable256 : BitReverseTable256.length = 256 := by
  rw [BitReverseTable256_eq, List.length_map, List.length_range]

theorem BitReverseTable256_getD (byte : Fin 256) :
    BitReverseTable256.getD byte 0 = (BitVec.ofNat 8 byte).reverse.toNat := by
  rw [BitReverseTable256_eq]
  simp

theorem reversedByte_eq (byte : Dword) :
    reversedByte byte = ((byte.setWidth 8).reverse).setWidth 32 := by
  have low : (byte &&& 0xff).toNat = byte.toNat % 256 := by
    rw [BitVec.toNat_and]
    exact Nat.and_two_pow_sub_one_eq_mod byte.toNat 8
  have inside : byte.toNat % 256 < 256 := Nat.mod_lt _ (by decide)
  have same : BitVec.ofNat 8 (byte.toNat % 256) = byte.setWidth 8 := by
    apply BitVec.eq_of_toNat_eq
    simp
  rw [reversedByte, BitReverseTable256_eq, low]
  simp [inside, same, BitVec.ofNat_toNat]

theorem reversedByte_bit (byte : Dword) (index : Nat) :
    (reversedByte byte).getLsbD index =
      (decide (index < 8) && byte.getLsbD (7 - index)) := by
  rw [reversedByte_eq, BitVec.getLsbD_setWidth, BitVec.getLsbD_reverse,
    BitVec.getMsbD_eq_getLsbD, BitVec.getLsbD_setWidth]
  by_cases inside : index < 8
  · have within : index < 32 := by omega
    have mirrored : 7 - index < 8 := by omega
    simp [inside, within, mirrored]
  · simp [inside]

/-- `BitwiseReverse` puts every bit in the mirrored place. -/
theorem BitwiseReverse_eq (v : Dword) : BitwiseReverse v = v.reverse := by
  apply BitVec.eq_of_getLsbD_eq
  intro index inside
  rw [BitVec.getLsbD_reverse, BitVec.getMsbD_eq_getLsbD, BitwiseReverse]
  simp only [BitVec.getLsbD_or, BitVec.getLsbD_shiftLeft, reversedByte_bit,
    BitVec.getLsbD_ushiftRight, inside, decide_true, Bool.true_and]
  -- Which of the four bytes has the bit.
  have position : index < 8 ∨ 8 ≤ index ∧ index < 16 ∨
      16 ≤ index ∧ index < 24 ∨ 24 ≤ index := by omega
  rcases position with first | second | third | fourth
  · grind
  · grind
  · grind
  · grind

/-! ## The ends of a word -/

/-- `LSB` is the lowest bit of a word. -/
theorem LSB_eq (data : Dword) : LSB data = if data.getLsbD 0 then 1 else 0 := by
  apply BitVec.eq_of_getLsbD_eq
  intro index inside
  simp only [LSB, BitVec.getLsbD_xor, BitVec.getLsbD_shiftLeft,
    BitVec.getLsbD_ushiftRight, inside, decide_true, Bool.true_and]
  by_cases lowest : index = 0
  · subst lowest
    cases data.getLsbD 0 <;> simp
  · have later : ¬ index < 1 := by omega
    have back : 1 + (index - 1) = index := by omega
    have high : (1#32).getLsbD index = false := by
      simp [BitVec.getLsbD_one, lowest]
    cases data.getLsbD 0 <;> simp [later, back, high]

/-- `MSB` is the highest bit of a word. -/
theorem MSB_eq (data : Dword) : MSB data = if data.msb then 1 else 0 := by
  have mirrored : data.reverse.getLsbD 0 = data.msb := by
    rw [BitVec.getLsbD_reverse]
    rfl
  rw [MSB, LSB_eq, BitwiseReverse_eq, mirrored]

theorem LSB_bit (dword : Dword) : (LSB dword).getLsbD 0 = dword.getLsbD 0 := by
  rw [LSB_eq]
  cases dword.getLsbD 0 <;> rfl

theorem MSB_bit (dword : Dword) : (MSB dword).getLsbD 0 = dword.msb := by
  rw [MSB_eq]
  cases dword.msb <;> rfl

/-! ## Parity -/

/-- A chain of exclusive ors tells whether an odd number of bits is one. -/
theorem foldl_xor_countP {α : Type} (bit : α → Bool) (indices : List α)
    (odd : Bool) :
    indices.foldl (fun odd index => odd ^^ bit index) odd =
      (odd ^^ decide (indices.countP bit % 2 = 1)) := by
  induction indices generalizing odd with
  | nil => simp
  | cons index indices ih =>
      rw [List.foldl_cons, ih]
      cases one : bit index with
      | false => simp [one]
      | true =>
          rw [List.countP_cons_of_pos one, Bool.xor_assoc]
          congr 1
          rw [Bool.true_xor, ← decide_not]
          apply decide_eq_decide.mpr
          omega

theorem BitwiseXNOR32_eq (dword : Dword) :
    BitwiseXNOR32 dword =
      decide ((List.range 32).countP dword.getLsbD % 2 = 0) := by
  rw [BitwiseXNOR32, foldl_xor_countP, Bool.false_xor, ← decide_not]
  apply decide_eq_decide.mpr
  omega

/-! ## All of them -/

/-- **Macros.**  For every word: the reversal mirrors its bits, so that two of
them restore it, and the table holds the mirrored bytes; `LSB` and `MSB` are
its ends, and `BitwiseXNOR32` is one for an even number of ones. -/
theorem bitwise_macros (v : Dword) :
    (∀ i : Fin 32, (BitwiseReverse v).getLsb i.rev = v.getLsb i) ∧
      BitwiseReverse (BitwiseReverse v) = v ∧
      BitReverseTable256.length = 256 ∧
      (∀ (byte : Fin 256) (i : Fin 8),
        (BitReverseTable256.getD byte 0).testBit i.rev =
          byte.val.testBit i) ∧
      (∀ byte : Fin 256, BitReverseTable256.getD byte 0 < 256) ∧
      LSB v = (if v.getLsb 0 then 1 else 0) ∧
      MSB v = (if v.getLsb 31 then 1 else 0) ∧
      (BitwiseXNOR32 v = true ↔
        (List.finRange 32).countP v.getLsb % 2 = 0) := by
  refine ⟨?_, ?_, length_BitReverseTable256, ?_, ?_, LSB_eq v, ?_, ?_⟩
  · intro i
    rw [BitwiseReverse_eq]
    exact getLsbD_reverse_rev v i
  · rw [BitwiseReverse_eq, BitwiseReverse_eq, BitVec.reverse_reverse_eq]
  · intro byte i
    rw [BitReverseTable256_getD, BitVec.testBit_toNat, getLsbD_reverse_rev,
      BitVec.getLsbD_ofNat, decide_eq_true i.isLt, Bool.true_and]
  · intro byte
    rw [BitReverseTable256_getD]
    exact BitVec.isLt _
  · rw [MSB_eq, BitVec.msb_eq_getLsbD_last]
    rfl
  · have positions : List.range 32 = (List.finRange 32).map Fin.val := by
      decide
    have counted : (List.finRange 32).countP v.getLsb =
        (List.range 32).countP v.getLsbD := by
      rw [positions, List.countP_map]
      rfl
    rw [BitwiseXNOR32_eq, decide_eq_true_iff, counted]

end Atomicles.Emulator
