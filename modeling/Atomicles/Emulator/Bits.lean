import Mathlib.Logic.Basic

/-!
# `bits.h` and `bits.c`

The table that reverses the bits of a byte, the macros built on it, and the
conversion of hex digits.  The temporaries `__tmp$lsb` and `__tmp$msb` are
written before they are read in every macro, so they are left out.
-/

namespace Atomicles.Emulator

/-- `uint32_t`. -/
abbrev Dword := BitVec 32

/-! ## `bits.h` -/

/-- `R2(n)`. -/
def R2 (n : Nat) : List Nat :=
  [n, n + 2 * 64, n + 1 * 64, n + 3 * 64]

/-- `R4(n)`. -/
def R4 (n : Nat) : List Nat :=
  R2 n ++ R2 (n + 2 * 16) ++ R2 (n + 1 * 16) ++ R2 (n + 3 * 16)

/-- `R6(n)`. -/
def R6 (n : Nat) : List Nat :=
  R4 n ++ R4 (n + 2 * 4) ++ R4 (n + 1 * 4) ++ R4 (n + 3 * 4)

/-- `BitReverseTable256`. -/
def BitReverseTable256 : List Nat :=
  R6 0 ++ R6 2 ++ R6 1 ++ R6 3

/-- The entry of the table for the low byte of a word. -/
def reversedByte (v : Dword) : Dword :=
  BitVec.ofNat 32 (BitReverseTable256.getD (v &&& 0xff).toNat 0)

/-- `BitwiseReverse`. -/
def BitwiseReverse (v : Dword) : Dword :=
  reversedByte v <<< 24 ||| reversedByte (v >>> 8) <<< 16 |||
    reversedByte (v >>> 16) <<< 8 ||| reversedByte (v >>> 24)

/-- `LSB`. -/
def LSB (data : Dword) : Dword :=
  data >>> 1 <<< 1 ^^^ data

/-- `MSB`. -/
def MSB (data : Dword) : Dword :=
  LSB (BitwiseReverse data)

/-- `BitwiseXNOR32`: the complement of the exclusive or of all 32 bits. -/
def BitwiseXNOR32 (dword : Dword) : Bool :=
  !((List.range 32).foldl (fun odd bit => odd ^^ dword.getLsbD bit) false)

/-! ## `bits.c` -/

/-- `hctoc`; what is no hex digit is returned as it is. -/
def hctoc (hc : Char) : Nat :=
  let c := hc.toNat
  if '0'.toNat ≤ c ∧ c ≤ '9'.toNat then c - '0'.toNat
  else if 'a'.toNat ≤ c ∧ c ≤ 'f'.toNat then c - ('a'.toNat - 10)
  else if 'A'.toNat ≤ c ∧ c ≤ 'F'.toNat then c - ('A'.toNat - 10)
  else c

end Atomicles.Emulator
