import Mathlib.Logic.Function.Basic
import Atomicles.Emulator.Flags

/-!
# The shift instructions

All four of them run the loop of `shift` as `SAR`.  The loop is an arithmetic
right shift whose last round leaves the bit shifted out in `CF`; `setEFLAGS`
then sets `ZF` alone.
-/

namespace Atomicles.Emulator

/-- The shift instructions. -/
inductive Shift where
  | SAL | SHL | SHR | SAR
deriving DecidableEq, Repr

namespace Shift

def opcode : Shift → Opcode
  | .SAL => .SAL
  | .SHL => .SHL
  | .SHR => .SHR
  | .SAR => .SAR

def text : Shift → String
  | .SAL => "SAL"
  | .SHL => "SHL"
  | .SHR => "SHR"
  | .SAR => "SAR"

/-- The result that IA-32 prescribes for a masked count. -/
def result : Shift → (dst : Dword) → (count : Nat) → Dword
  | .SAL, dst, count => dst <<< count
  | .SHL, dst, count => dst <<< count
  | .SHR, dst, count => dst >>> count
  | .SAR, dst, count => dst.sshiftRight count

/-- The last bit that is shifted out. -/
def lastOut : Shift → (dst : Dword) → (count : Nat) → Bool
  | .SAL, dst, count => dst.getLsbD (32 - count)
  | .SHL, dst, count => dst.getLsbD (32 - count)
  | .SHR, dst, count => dst.getLsbD (count - 1)
  | .SAR, dst, count => dst.getLsbD (count - 1)

/-- `OF` after a shift by one. -/
def overflow : Shift → (dst : Dword) → Bool
  | .SAL, dst => (dst <<< 1).msb ^^ dst.getLsbD 31
  | .SHL, dst => (dst <<< 1).msb ^^ dst.getLsbD 31
  | .SHR, dst => dst.msb
  | .SAR, _ => false

/-- What IA-32 prescribes: the destination, the flags, and that nothing
changes in `eflags` for a masked count of zero. -/
structure Prescribed (shift : Shift) (count : Nat) (dst eflags : Dword)
    (dst' eflags' : Dword) : Prop where
  result : dst' = shift.result dst count
  unchanged : count = 0 → eflags' = eflags
  CF : count ≠ 0 → (statusOf eflags').CF = shift.lastOut dst count
  ZF : count ≠ 0 → (statusOf eflags').ZF = decide (shift.result dst count = 0)
  SF : count ≠ 0 → (statusOf eflags').SF = (shift.result dst count).msb
  OF : count = 1 → (statusOf eflags').OF = shift.overflow dst

/-- The operands and earlier flags for which the emulator does so: only `SAR`
shifts its operand as it should, and `SF` is never written. -/
def Right (shift : Shift) (count : Nat) (dst : Dword) (before : Status) :
    Prop :=
  if count = 0 then before.ZF = decide (dst = 0)
  else
    match shift with
    | .SAR => before.SF = dst.msb
    | .SHR => dst.msb = false ∧ before.SF = false
    | .SAL | .SHL =>
        dst <<< count = dst.sshiftRight count ∧
          dst.getLsbD (32 - count) = dst.getLsbD (count - 1) ∧
          before.SF = dst.msb

end Shift

/-! ## The loop -/

/-- A round of the loop is an arithmetic shift by one. -/
theorem shiftOnce_SAR (dst eflags : Dword) :
    shiftOnce .SAR dst eflags =
      (dst.sshiftRight 1, setField eflags CF (dst.getLsbD 0)) := by
  have value : dst >>> 1 ||| (dst &&& 0x80000000) = dst.sshiftRight 1 := by
    apply BitVec.eq_of_getLsbD_eq
    intro index within
    have sign : (0x80000000 : Dword).getLsbD index = decide (index = 31) := by
      rw [show (0x80000000 : Dword) = BitVec.twoPow 32 31 from by decide,
        BitVec.getLsbD_twoPow]
      grind
    rw [BitVec.getLsbD_or, BitVec.getLsbD_and, sign, BitVec.getLsbD_sshiftRight,
      BitVec.getLsbD_ushiftRight, BitVec.msb_eq_getLsbD_last]
    grind
  show
    (dst >>> 1 ||| (dst &&& 0x80000000),
      setField eflags CF ((LSB dst).getLsbD 0)) = _
  rw [value, LSB_bit]

/-- The whole loop: the bits move by as many places as it has rounds, and the
lowest bit of the last round is in `CF`. -/
theorem shiftLoop_SAR (count : Nat) (dst eflags : Dword) :
    (shiftLoop .SAR count dst eflags).1 = dst.sshiftRight count ∧
      statusOf (shiftLoop .SAR count dst eflags).2 =
        { statusOf eflags with
          CF :=
            if count = 0 then (statusOf eflags).CF
            else (dst.sshiftRight (count - 1)).getLsbD 0 } := by
  induction count generalizing dst eflags with
  | zero => simp [shiftLoop]
  | succ count ih =>
      rcases ih (dst.sshiftRight 1) (setField eflags CF (dst.getLsbD 0)) with
        ⟨value, status⟩
      rw [shiftLoop, shiftOnce_SAR]
      constructor
      · rw [value, ← BitVec.sshiftRight_add, Nat.add_comm]
      · rw [status, statusOf_setField_CF]
        cases count with
        | zero => simp
        | succ count =>
            simp [← BitVec.sshiftRight_add, Nat.add_comm]

/-- The low five bits of a count. -/
theorem masked_toNat (cnt : Dword) : (cnt &&& 0x1F).toNat = cnt.toNat % 32 := by
  rw [BitVec.toNat_and, show (0x1F : Dword).toNat = 2 ^ 5 - 1 from rfl,
    Nat.and_two_pow_sub_one_eq_mod]

/-- Those of one that has gone through an 8-bit variable. -/
theorem masked_count (value : Nat) :
    (BitVec.ofNat 32 (value % 0x100) &&& 0x1F).toNat = value % 32 := by
  rw [masked_toNat, BitVec.toNat_ofNat]
  omega

/-- `shift(SAR, ..)`: the loop, and `OF` after a shift by one. -/
theorem shift_SAR_eq (dst cnt eflags : Dword) :
    shift .SAR dst cnt eflags =
      if cnt &&& 0x1F = 1 then
        ((shiftLoop .SAR (cnt &&& 0x1F).toNat dst eflags).1,
          setField (shiftLoop .SAR (cnt &&& 0x1F).toNat dst eflags).2 OF false)
      else shiftLoop .SAR (cnt &&& 0x1F).toNat dst eflags :=
  rfl

/-- `shift(SAR, ..)` for a masked count. -/
theorem shift_SAR {cnt : Dword} {count : Nat}
    (masked : (cnt &&& 0x1F).toNat = count) (dst eflags : Dword) :
    (shift .SAR dst cnt eflags).1 = dst.sshiftRight count ∧
      statusOf (shift .SAR dst cnt eflags).2 =
        { statusOf eflags with
          CF :=
            if count = 0 then (statusOf eflags).CF
            else (dst.sshiftRight (count - 1)).getLsbD 0
          OF := if count = 1 then false else (statusOf eflags).OF } ∧
      (count = 0 → (shift .SAR dst cnt eflags).2 = eflags) := by
  rcases shiftLoop_SAR count dst eflags with ⟨value, status⟩
  have one : cnt &&& 0x1F = 1 ↔ count = 1 := by
    rw [← BitVec.toNat_inj, masked]
    rfl
  rw [shift_SAR_eq, masked]
  by_cases once : count = 1
  · rw [if_pos (one.mpr once), value, statusOf_setField_OF, status]
    simp [once]
  · rw [if_neg (mt one.mp once), value, status]
    refine ⟨rfl, by simp [once], ?_⟩
    intro none
    rw [none, shiftLoop]

/-! ## The switch -/

/-- What the emulator makes of the destination and of `eflags`. -/
theorem shiftCase_leaves {before : State} {dst : Gpr}
    (pointed : before.operands .DST = some dst.cell) (shift : Shift)
    (cnt : Dword) {count : Nat} (masked : (cnt &&& 0x1F).toNat = count) :
    ∃ after,
      execute shift.opcode cnt before = some after ∧
        after.gprs =
          Function.update before.gprs dst
            ((before.gprs dst).sshiftRight count) ∧
        after.status =
          { before.status with
            CF :=
              if count = 0 then before.status.CF
              else ((before.gprs dst).sshiftRight (count - 1)).getLsbD 0
            ZF := decide ((before.gprs dst).sshiftRight count = 0)
            OF := if count = 1 then false else before.status.OF } ∧
        (count = 0 →
          after.memory.cells .eflags =
            setField (before.memory.cells .eflags) ZF
              (decide (before.gprs dst = 0))) := by
  rcases shift_SAR masked (before.gprs dst) (before.memory.cells .eflags) with
    ⟨value, status, unchanged⟩
  have dst_ne : Cell.eflags ≠ dst.cell := (dst.cell_ne_eflags).symm
  let shifted := Atomicles.Emulator.shift .SAR (before.gprs dst) cnt
    (before.memory.cells .eflags)
  let memory := (before.memory.set .eflags shifted.2).set .buffer shifted.1
  let after : State :=
    { before with
      memory := commit dst.cell (setEFLAGS shift.opcode dst.cell dst.cell memory) }
  have ran : execute shift.opcode cnt before = some after := by
    cases shift <;>
      simp [execute, Shift.opcode, shiftCase, checkOperands, pointed, after,
        memory, shifted, State.gprs]
  have eflags :
      after.memory.cells .eflags =
        setField shifted.2 ZF (decide (shifted.1 = 0)) := by
    cases shift <;>
      simp [after, memory, setEFLAGS, commit, Memory.set, flagsAfter,
        Shift.opcode, dst_ne]
  refine ⟨after, ran, ?_, ?_, ?_⟩
  · funext gpr
    by_cases same : gpr = dst
    · subst same
      simp [State.gprs, after, memory, setEFLAGS, commit, Memory.set, shifted]
      exact value
    · simp [State.gprs, after, memory, setEFLAGS, commit, Memory.set, same]
  · rw [State.status, eflags, statusOf_setField_ZF, status, value]
    rfl
  · intro none
    rw [eflags, unchanged none, value, none, BitVec.sshiftRight_zero]

/-! ## Where the shifts are right -/

/-- A field that already has its new value. -/
theorem setField_eq_self_iff {dword : Dword} {field : Nat} (bit : Bool)
    (within : field < 32) :
    setField dword field bit = dword ↔ dword.getLsbD field = bit := by
  constructor
  · intro same
    rw [← same, getLsbD_setField bit within, if_pos rfl]
  · intro same
    apply BitVec.eq_of_getLsbD_eq
    intro index _
    rw [getLsbD_setField bit within]
    by_cases here : index = field
    · rw [if_pos here, here, same]
    · rw [if_neg here]

/-- An arithmetic shift is a logical one for operands that are not
negative. -/
theorem sshiftRight_eq_ushiftRight_iff {dst : Dword} {count : Nat}
    (some_bits : count ≠ 0) :
    dst.sshiftRight count = dst >>> count ↔ dst.msb = false := by
  constructor
  · intro same
    have sign := congrArg BitVec.msb same
    rw [BitVec.msb_sshiftRight, BitVec.msb_ushiftRight] at sign
    simpa [Nat.pos_of_ne_zero some_bits] using sign
  · exact fun sign => BitVec.sshiftRight_eq_of_msb_false sign

/-- From what the emulator leaves to where that is what IA-32 prescribes. -/
theorem Shift.prescribed_iff (shift : Shift) {count : Nat} (masked : count < 32)
    {dst eflags dst' eflags' : Dword}
    (value : dst' = dst.sshiftRight count)
    (status :
      statusOf eflags' =
        { statusOf eflags with
          CF :=
            if count = 0 then (statusOf eflags).CF
            else (dst.sshiftRight (count - 1)).getLsbD 0
          ZF := decide (dst.sshiftRight count = 0)
          OF := if count = 1 then false else (statusOf eflags).OF })
    (unchanged : count = 0 →
      eflags' = setField eflags ZF (decide (dst = 0))) :
    shift.Prescribed count dst eflags dst' eflags' ↔
      shift.Right count dst (statusOf eflags) := by
  by_cases none : count = 0
  · subst none
    have kept : eflags' = eflags ↔ (statusOf eflags).ZF = decide (dst = 0) := by
      rw [unchanged rfl]
      exact setField_eq_self_iff _ (by decide)
    have right : shift.Right 0 dst (statusOf eflags) ↔ eflags' = eflags := by
      rw [kept]
      exact Iff.of_eq (if_pos rfl)
    rw [right]
    constructor
    · exact fun prescribed => prescribed.unchanged rfl
    · intro same
      refine ⟨?_, fun _ => same, ?_, ?_, ?_, ?_⟩
      · cases shift <;> simp [value, Shift.result]
      all_goals intro absurd_count; simp at absurd_count
  have carry :
      (dst.sshiftRight (count - 1)).getLsbD 0 = dst.getLsbD (count - 1) := by
    have inside : count - 1 < 32 := by omega
    rw [BitVec.getLsbD_sshiftRight]
    simp [inside]
  have sign : (dst.sshiftRight count).msb = dst.msb := BitVec.msb_sshiftRight
  rw [if_neg none, carry] at status
  have flags :
      shift.Prescribed count dst eflags dst' eflags' ↔
        dst.sshiftRight count = shift.result dst count ∧
          dst.getLsbD (count - 1) = shift.lastOut dst count ∧
          (statusOf eflags).SF = dst.msb ∧
          (count = 1 → false = shift.overflow dst) := by
    constructor
    · intro prescribed
      have result := value.symm.trans prescribed.result
      have carry := prescribed.CF none
      have negative := prescribed.SF none
      rw [status] at carry negative
      refine ⟨result, carry, negative.trans (result ▸ sign), ?_⟩
      intro once
      have overflow := prescribed.OF once
      rw [status] at overflow
      simpa [once] using overflow
    · rintro ⟨result, carry, negative, overflow⟩
      constructor
      case result => exact value.trans result
      case unchanged => exact fun zero => absurd zero none
      case CF =>
        intro _
        rw [status]
        exact carry
      case ZF =>
        intro _
        rw [status, result]
      case SF =>
        intro _
        rw [status, ← result, sign]
        exact negative
      case OF =>
        intro once
        rw [status, ← overflow once]
        exact if_pos once
  have left :
      (dst.sshiftRight count = dst <<< count ∧
          dst.getLsbD (count - 1) = dst.getLsbD (32 - count) ∧
          (statusOf eflags).SF = dst.msb ∧
          (count = 1 → false = ((dst <<< 1).msb ^^ dst.getLsbD 31))) ↔
        dst <<< count = dst.sshiftRight count ∧
          dst.getLsbD (32 - count) = dst.getLsbD (count - 1) ∧
          (statusOf eflags).SF = dst.msb := by
    constructor
    · rintro ⟨result, carry, negative, -⟩
      exact ⟨result.symm, carry.symm, negative⟩
    · rintro ⟨result, carry, negative⟩
      refine ⟨result.symm, carry.symm, negative, ?_⟩
      intro once
      rw [once] at result
      rw [result, BitVec.msb_sshiftRight, BitVec.msb_eq_getLsbD_last]
      exact (Bool.xor_self _).symm
  rw [flags]
  cases shift with
  | SAL =>
      simp only [Shift.Right, none, if_false]
      exact left
  | SHL =>
      simp only [Shift.Right, none, if_false]
      exact left
  | SHR =>
      simp only [Shift.Right, none, if_false, Shift.result, Shift.lastOut,
        Shift.overflow, sshiftRight_eq_ushiftRight_iff none, true_and]
      constructor
      · rintro ⟨sign, negative, -⟩
        exact ⟨sign, negative.trans sign⟩
      · rintro ⟨sign, negative⟩
        exact ⟨sign, negative.trans sign.symm, fun _ => sign.symm⟩
  | SAR =>
      simp [Shift.Right, none, Shift.result, Shift.lastOut, Shift.overflow]

/-! ## The results -/

/-- The instruction and its count. -/
theorem readInstruction_shift {state : State} (e : state.e = 0) (shift : Shift)
    {text : String} (accepted : (strtoul text.toList).2 = []) :
    readInstruction [shift.text, text] state =
      (state, shift.opcode,
        BitVec.ofNat 32 ((strtoul text.toList).1 % 0x100)) := by
  cases shift <;>
    simp [readInstruction, Shift.text, e, setInstruction, Shift.opcode,
      accepted]

/-- **Shifts.**  For every command line that names a general register as its
destination and every count that `strtoul` reads to its end, whatever the
register holds and whatever the flags were: the destination and the flags are
those of IA-32 exactly where `Right` says so. -/
theorem main_shift_iff {stack : Dword} {words : Cell → Dword}
    {options : List EmulatorOption} {before : State} {dst : Gpr}
    (loop : options.foldlM (optionStep stack) (.start words) = some before)
    (e : before.e = 0) (help : before.help = false)
    (pointed : before.operands .DST = some dst.cell) (shift : Shift)
    {text : String} (accepted : (strtoul text.toList).2 = []) :
    ∃ after,
      main stack options [shift.text, text] words = some after ∧
        (∀ gpr, gpr ≠ dst → after.gprs gpr = before.gprs gpr) ∧
        (shift.Prescribed ((strtoul text.toList).1 % 32) (before.gprs dst)
            (before.memory.cells .eflags) (after.gprs dst)
            (after.memory.cells .eflags) ↔
          shift.Right ((strtoul text.toList).1 % 32) (before.gprs dst)
            before.status) := by
  have read := readInstruction_shift e shift accepted
  rcases shiftCase_leaves pointed shift _ (masked_count (strtoul text.toList).1)
    with ⟨after, ran, gprs, status, unchanged⟩
  refine ⟨after, (main_executes loop e help read).trans ran, ?_, ?_⟩
  · intro gpr other
    rw [gprs, Function.update_of_ne other]
  · have masked : (strtoul text.toList).1 % 32 < 32 :=
      Nat.mod_lt _ (by decide)
    have value :
        after.gprs dst =
          (before.gprs dst).sshiftRight ((strtoul text.toList).1 % 32) := by
      rw [gprs, Function.update_self]
    exact shift.prescribed_iff masked value status unchanged

/-- `ia32emu -d -r eax SHR 4`. -/
theorem main_shift_iff_shr :
    ∃ before after : State,
      main 0 [.dst, .register "eax"] ["SHR", "4"] (fun _ => 7) = some after ∧
        (Shift.SHR.Prescribed 4 (before.gprs .eax)
            (before.memory.cells .eflags) (after.gprs .eax)
            (after.memory.cells .eflags) ↔
          Shift.SHR.Right 4 (before.gprs .eax) before.status) := by
  have loop :
      [EmulatorOption.dst, .register "eax"].foldlM (optionStep 0)
          (.start fun _ => 7) =
        some _ :=
    rfl
  have count : strtoul "4".toList = (4, []) := by decide
  have shifts :=
    @main_shift_iff 0 (fun _ => 7) _ _ .eax loop rfl rfl rfl .SHR "4"
      (congrArg Prod.snd count)
  rw [congrArg Prod.fst count] at shifts
  rcases shifts with ⟨after, ran, -, right⟩
  exact ⟨_, after, ran, right⟩

/-- `SHL` of 3 by one leaves 1. -/
theorem main_shl_shifts_right :
    ∃ before after : State,
      [EmulatorOption.dst, .register "eax"].foldlM (optionStep 0)
          (.start fun _ => 3) = some before ∧
        main 0 [.dst, .register "eax"] ["SHL", "1"] (fun _ => 3) =
          some after ∧
        before.gprs .eax = 3 ∧ after.gprs .eax = 1 ∧
          ¬Shift.SHL.Prescribed 1 (before.gprs .eax)
            (before.memory.cells .eflags) (after.gprs .eax)
            (after.memory.cells .eflags) := by
  refine ⟨_, _, rfl, rfl, by decide, by decide, ?_⟩
  intro prescribed
  have result := prescribed.result
  revert result
  decide

end Atomicles.Emulator
