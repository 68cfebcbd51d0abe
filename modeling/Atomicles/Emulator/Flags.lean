import Mathlib.Data.Bool.Basic
import Atomicles.Emulator.Macros
import Atomicles.Emulator.Operands

/-!
# The status flags after an instruction

The flags that IA-32 prescribes, the flags that the emulator leaves, and on
which operands and earlier flags the two agree.
-/

namespace Atomicles.Emulator

/-! ## Bits of a word -/

theorem getLsbD_setField {dword : Dword} {field : Nat} (bit : Bool)
    (within : field < 32) (index : Nat) :
    (setField dword field bit).getLsbD index =
      if index = field then bit else dword.getLsbD index := by
  have single :
      ((1 : Dword) <<< field).getLsbD index = decide (index = field) := by
    rw [BitVec.getLsbD_shiftLeft, show (1 : Dword) = 1#32 from rfl,
      BitVec.getLsbD_one]
    by_cases same : index = field
    · simp [same, within]
    · grind
  cases bit with
  | true =>
      rw [setField, if_pos rfl, BitVec.getLsbD_or, single]
      by_cases same : index = field <;> simp [same]
  | false =>
      rw [setField, if_neg Bool.false_ne_true, BitVec.getLsbD_and,
        BitVec.getLsbD_not, single]
      by_cases same : index = field
      · simp [same]
      · by_cases inside : index < 32
        · simp [same, inside]
        · have outside := BitVec.getLsbD_of_ge dword index (by omega)
          simp [same, outside]

/-! ## Parity -/

/-- Whether the low byte of a word has an even number of ones. -/
def evenParity (dword : Dword) : Bool :=
  decide ((List.range 8).countP dword.getLsbD % 2 = 0)

/-- The macro counts all bits; it gives the parity of the low byte where the
other three bytes have an even number of ones. -/
theorem BitwiseXNOR32_eq_evenParity_iff (dword : Dword) :
    BitwiseXNOR32 dword = evenParity dword ↔
      BitwiseXNOR32 (dword >>> 8) = true := by
  have low_first :
      List.range 32 = List.range 8 ++ (List.range 24).map (8 + ·) := by decide
  have high_last :
      List.range 32 = List.range 24 ++ (List.range 8).map (24 + ·) := by decide
  have whole :
      (List.range 32).countP dword.getLsbD =
        (List.range 8).countP dword.getLsbD +
          (List.range 24).countP fun index => dword.getLsbD (8 + index) := by
    rw [low_first, List.countP_append, List.countP_map]
    rfl
  have beyond :
      (List.range 8).countP (fun index => dword.getLsbD (8 + (24 + index))) =
        0 := by
    rw [List.countP_eq_zero]
    intro index _
    rw [BitVec.getLsbD_of_ge dword _ (by omega)]
    exact Bool.false_ne_true
  have shifted :
      (List.range 32).countP (dword >>> 8).getLsbD =
        (List.range 24).countP fun index => dword.getLsbD (8 + index) := by
    have bits : (dword >>> 8).getLsbD = fun index => dword.getLsbD (8 + index) :=
      funext fun index => BitVec.getLsbD_ushiftRight dword 8 index
    rw [bits, high_last, List.countP_append, List.countP_map]
    exact beyond ▸ Nat.add_zero _
  rw [BitwiseXNOR32_eq, BitwiseXNOR32_eq, evenParity, whole, shifted,
    decide_eq_decide, decide_eq_true_iff]
  omega

/-! ## The flags -/

/-- The status flags, without the one that no instruction here defines. -/
structure Status where
  CF : Bool
  PF : Bool
  ZF : Bool
  SF : Bool
  OF : Bool
deriving DecidableEq, Repr

/-- The status flags of a value of `eflags`. -/
def statusOf (eflags : Dword) : Status where
  CF := eflags.getLsbD CF
  PF := eflags.getLsbD PF
  ZF := eflags.getLsbD ZF
  SF := eflags.getLsbD SF
  OF := eflags.getLsbD OF

/-- The status flags of a state. -/
def State.status (state : State) : Status :=
  statusOf (state.memory.cells .eflags)

section Fields

variable (eflags : Dword) (bit : Bool)

theorem statusOf_setField {field : Nat} (within : field < 32) :
    statusOf (setField eflags field bit) =
      { CF := if CF = field then bit else (statusOf eflags).CF
        PF := if PF = field then bit else (statusOf eflags).PF
        ZF := if ZF = field then bit else (statusOf eflags).ZF
        SF := if SF = field then bit else (statusOf eflags).SF
        OF := if OF = field then bit else (statusOf eflags).OF } := by
  simp only [statusOf, getLsbD_setField bit within]

@[simp]
theorem statusOf_setField_CF :
    statusOf (setField eflags CF bit) = { statusOf eflags with CF := bit } :=
  statusOf_setField eflags bit (by decide)

@[simp]
theorem statusOf_setField_PF :
    statusOf (setField eflags PF bit) = { statusOf eflags with PF := bit } :=
  statusOf_setField eflags bit (by decide)

@[simp]
theorem statusOf_setField_ZF :
    statusOf (setField eflags ZF bit) = { statusOf eflags with ZF := bit } :=
  statusOf_setField eflags bit (by decide)

@[simp]
theorem statusOf_setField_SF :
    statusOf (setField eflags SF bit) = { statusOf eflags with SF := bit } :=
  statusOf_setField eflags bit (by decide)

@[simp]
theorem statusOf_setField_OF :
    statusOf (setField eflags OF bit) = { statusOf eflags with OF := bit } :=
  statusOf_setField eflags bit (by decide)

end Fields

/-- The flags that IA-32 derives from a result, given carry and overflow. -/
def resultStatus (carry overflow : Bool) (result : Dword) : Status where
  CF := carry
  PF := evenParity result
  ZF := decide (result = 0)
  SF := result.msb
  OF := overflow

/-- The flags that the cases of `setEFLAGS` from `TEST` on leave. -/
def testStatus (buffer : Dword) : Status where
  CF := false
  PF := BitwiseXNOR32 buffer
  ZF := decide (buffer = 0)
  SF := buffer.msb
  OF := false

theorem statusOf_setTestFlags (buffer eflags : Dword) :
    statusOf (setTestFlags buffer eflags) = testStatus buffer := by
  simp only [setTestFlags, testStatus, MSB_bit, statusOf_setField_CF,
    statusOf_setField_PF, statusOf_setField_ZF, statusOf_setField_SF,
    statusOf_setField_OF]

namespace Instruction

/-- The flags that IA-32 prescribes after an instruction. -/
def status : Instruction → Status → (dst src : Dword) → Status
  | .MOV, before, _, _ => before
  | .ADD, _, dst, src =>
      resultStatus (BitVec.uaddOverflow dst src) (BitVec.saddOverflow dst src)
        (dst + src)
  | .SUB, _, dst, src =>
      resultStatus (BitVec.usubOverflow dst src) (BitVec.ssubOverflow dst src)
        (dst - src)
  | .CMP, _, dst, src =>
      resultStatus (BitVec.usubOverflow dst src) (BitVec.ssubOverflow dst src)
        (dst - src)
  | .AND, _, dst, src => resultStatus false false (dst &&& src)
  | .TEST, _, dst, src => resultStatus false false (dst &&& src)
  | .OR, _, dst, src => resultStatus false false (dst ||| src)
  | .XOR, _, dst, src => resultStatus false false (dst ^^^ src)

/-- The flags that the emulator leaves. -/
def leaves : Instruction → Status → (dst src : Dword) → Status
  | .MOV, before, _, src => { before with ZF := decide (src = 0) }
  | .ADD, _, _, src => testStatus src
  | .SUB, before, dst, src =>
      { before with
        CF := before.CF || decide (dst < src)
        ZF := decide (src = 0) }
  -- The command line knows no `CMP`.
  | .CMP, before, _, _ => before
  | .AND, before, dst, src => { before with ZF := decide (dst &&& src = 0) }
  | .TEST, _, dst, src => testStatus (dst &&& src)
  | .OR, before, _, src => { before with ZF := decide (src = 0) }
  | .XOR, before, _, src => { before with ZF := decide (src = 0) }

/-- The flags from before already are those of the result, apart from `ZF`. -/
def Stale (before : Status) (carry overflow : Bool) (result : Dword) : Prop :=
  before.CF = carry ∧ before.OF = overflow ∧ before.SF = result.msb ∧
    before.PF = evenParity result

/-- The earlier flags and the operands after which the flags are right. -/
def FlagsRight : Instruction → Status → (dst src : Dword) → Prop
  | .MOV, before, _, src => before.ZF = decide (src = 0)
  | .ADD, _, dst, src =>
      dst.toNat + src.toNat % 0x80000000 < 0x80000000 ∧
        (src = 0 → dst = 0) ∧ BitwiseXNOR32 src = evenParity (dst + src)
  | .SUB, before, dst, src =>
      (src = 0 ↔ dst = src) ∧ (src ≤ dst → before.CF = false) ∧
        before.OF = BitVec.ssubOverflow dst src ∧
        before.SF = (dst - src).msb ∧ before.PF = evenParity (dst - src)
  | .CMP, before, dst, src =>
      before.ZF = decide (dst = src) ∧
        Stale before (decide (dst < src)) (BitVec.ssubOverflow dst src)
          (dst - src)
  | .AND, before, dst, src => Stale before false false (dst &&& src)
  | .TEST, _, dst, src => BitwiseXNOR32 ((dst &&& src) >>> 8) = true
  | .OR, before, dst, src =>
      (src = 0 → dst = 0) ∧ Stale before false false (dst ||| src)
  | .XOR, before, dst, src =>
      (src = 0 ↔ dst = src) ∧ Stale before false false (dst ^^^ src)

/-- What the scratch operand holds when the flags are set: four instructions
compute with its old value, which is zero. -/
def scratch : Instruction → (dst src : Dword) → Dword
  | .MOV, _, src => src
  | .ADD, _, src => 0 + src
  | .SUB, _, src => 0 - src
  | .CMP, _, src => 0 - src
  | .AND, dst, src => dst &&& src
  | .TEST, dst, src => dst &&& src
  | .OR, _, src => 0 ||| src
  | .XOR, _, src => 0 ^^^ src

/-- `setEFLAGS` on what an instruction has computed. -/
theorem statusOf_flagsAfter {instruction : Instruction}
    (known : instruction ≠ .CMP) (dst src eflags : Dword) :
    statusOf
        (flagsAfter instruction.opcode dst src (instruction.scratch dst src)
          eflags) =
      instruction.leaves (statusOf eflags) dst src := by
  cases instruction with
  | CMP => exact absurd rfl known
  | MOV => exact statusOf_setField_ZF eflags _
  | AND => exact statusOf_setField_ZF eflags _
  | OR =>
      have buffer : 0 ||| src = src := BitVec.zero_or
      rw [scratch, buffer]
      exact statusOf_setField_ZF eflags _
  | XOR =>
      have buffer : 0 ^^^ src = src := BitVec.zero_xor
      rw [scratch, buffer]
      exact statusOf_setField_ZF eflags _
  | TEST =>
      have test :
          flagsAfter .TEST dst src (dst &&& src) eflags =
            setField (setTestFlags (dst &&& src) eflags) ZF
              (decide (dst &&& src = 0)) :=
        rfl
      rw [opcode, scratch, test, statusOf_setField_ZF, statusOf_setTestFlags]
      rfl
  | ADD =>
      have buffer : 0 + src = src := BitVec.zero_add src
      have fallen :
          flagsAfter .ADD dst src src eflags =
            setField
              (setTestFlags src
                (if src < dst then setField eflags CF true else eflags))
              ZF (decide (src = 0)) :=
        rfl
      rw [opcode, scratch, buffer, fallen, statusOf_setField_ZF,
        statusOf_setTestFlags]
      rfl
  | SUB =>
      have zero : decide (0 - src = 0) = decide (src = 0) := by
        apply decide_eq_decide.mpr
        simp
      have borrow :
          flagsAfter .SUB dst src (0 - src) eflags =
            setField (if dst < src then setField eflags CF true else eflags)
              ZF (decide (0 - src = 0)) :=
        rfl
      rw [opcode, scratch, borrow, zero, statusOf_setField_ZF]
      by_cases below : dst < src
      · rw [if_pos below, statusOf_setField_CF]
        simp [leaves, below]
      · rw [if_neg below]
        simp [leaves, below]

/-! ## Where the flags are right -/

/-- Flags of which only `ZF` is new. -/
theorem stale_iff (before : Status) (zero carry overflow : Bool)
    (result : Dword) :
    { before with ZF := zero } = resultStatus carry overflow result ↔
      zero = decide (result = 0) ∧ Stale before carry overflow result := by
  simp only [resultStatus, Stale, Status.mk.injEq]
  constructor
  · rintro ⟨carry, parity, zero, sign, overflow⟩
    exact ⟨zero, carry, overflow, sign, parity⟩
  · rintro ⟨zero, carry, overflow, sign, parity⟩
    exact ⟨carry, parity, zero, sign, overflow⟩

theorem sub_eq_zero_iff (dst src : Dword) : dst - src = 0 ↔ dst = src := by
  rw [BitVec.sub_eq_iff_eq_add]
  simp

/-- No carry, no overflow and the sign of the source: the destination and
the source without its sign add up to less than the sign. -/
theorem add_small_iff (dst src : Dword) :
    BitVec.uaddOverflow dst src = false ∧ BitVec.saddOverflow dst src = false ∧
        src.msb = (dst + src).msb ↔
      dst.toNat + src.toNat % 0x80000000 < 0x80000000 := by
  have dst_bound := dst.isLt
  have src_bound := src.isLt
  rw [BitVec.saddOverflow_eq, BitVec.uaddOverflow]
  simp only [BitVec.msb_eq_decide, BitVec.toNat_add]
  grind

/-- On which operands and after which flags the emulator's flags are those
of IA-32. -/
theorem leaves_eq_status_iff (instruction : Instruction) (before : Status)
    (dst src : Dword) :
    instruction.leaves before dst src = instruction.status before dst src ↔
      instruction.FlagsRight before dst src := by
  cases instruction with
  | MOV =>
      rcases before with ⟨carry, parity, zero, sign, overflow⟩
      simp only [leaves, status, FlagsRight, Status.mk.injEq, true_and,
        and_true]
      exact eq_comm
  | TEST =>
      simp only [leaves, status, FlagsRight, testStatus, resultStatus,
        Status.mk.injEq, true_and, and_true]
      exact BitwiseXNOR32_eq_evenParity_iff _
  | ADD =>
      have small := add_small_iff dst src
      have zeros :
          dst.toNat + src.toNat % 0x80000000 < 0x80000000 →
            ((src = 0 ↔ dst + src = 0) ↔ (src = 0 → dst = 0)) := by
        intro bound
        simp only [← BitVec.toNat_inj, BitVec.toNat_add]
        have src_bound := src.isLt
        grind
      simp only [leaves, status, FlagsRight, testStatus, resultStatus,
        Status.mk.injEq, decide_eq_decide]
      constructor
      · rintro ⟨carry, parity, zero, sign, overflow⟩
        have bound := small.mp ⟨carry.symm, overflow.symm, sign⟩
        exact ⟨bound, (zeros bound).mp zero, parity⟩
      · rintro ⟨bound, zero, parity⟩
        rcases small.mpr bound with ⟨carry, overflow, sign⟩
        exact ⟨carry.symm, parity, (zeros bound).mpr zero, sign, overflow.symm⟩
  | SUB =>
      have borrow :
          (before.CF || decide (dst < src)) = decide (dst < src) ↔
            (src ≤ dst → before.CF = false) := by
        rw [← BitVec.not_lt]
        cases before.CF <;> simp
      have stale :=
        stale_iff { before with CF := before.CF || decide (dst < src) }
          (decide (src = 0)) (BitVec.usubOverflow dst src)
          (BitVec.ssubOverflow dst src) (dst - src)
      refine stale.trans ?_
      simp only [Stale, FlagsRight, decide_eq_decide, sub_eq_zero_iff,
        BitVec.usubOverflow_eq, borrow]
  | CMP =>
      have stale :=
        stale_iff before before.ZF (BitVec.usubOverflow dst src)
          (BitVec.ssubOverflow dst src) (dst - src)
      refine stale.trans ?_
      simp only [FlagsRight, sub_eq_zero_iff, BitVec.usubOverflow_eq]
  | AND =>
      refine (stale_iff before _ false false (dst &&& src)).trans ?_
      simp [FlagsRight]
  | OR =>
      have zero :
          decide (src = 0) = decide (dst ||| src = 0) ↔ (src = 0 → dst = 0) := by
        rw [decide_eq_decide,
          show dst ||| src = 0 ↔ dst = 0 ∧ src = 0 from BitVec.or_eq_zero_iff]
        grind
      refine (stale_iff before _ false false (dst ||| src)).trans ?_
      rw [zero, FlagsRight]
  | XOR =>
      have zero :
          decide (src = 0) = decide (dst ^^^ src = 0) ↔
            (src = 0 ↔ dst = src) := by
        rw [decide_eq_decide,
          show dst ^^^ src = 0 ↔ dst = src from BitVec.xor_eq_zero_iff]
      refine (stale_iff before _ false false (dst ^^^ src)).trans ?_
      rw [zero, FlagsRight]

end Instruction

/-! ## The emulator -/

/-- The cases of the switch that compute with the scratch operand. -/
theorem arithmetic_status {before : State} {dst : Gpr} {src : Cell}
    (loaded : Loaded before) (prepared : Prepared before dst src)
    (instruction : Instruction) (commits : Bool)
    (compute : (buffer dst src : Dword) → Dword) :
    ∃ after,
      arithmetic instruction.opcode commits compute before = some after ∧
        after.status =
          statusOf
            (flagsAfter instruction.opcode (before.gprs dst)
              (before.memory.cells src)
              (compute 0 (before.gprs dst) (before.memory.cells src))
              (before.memory.cells .eflags)) := by
  have src_ne : src ≠ .buffer := by
    intro same
    exact loaded.operands .SRC (by rw [prepared.src, same])
  have allowed := prepared.checked instruction
  refine ⟨_, by simp only [arithmetic, allowed, prepared.dst, prepared.src]; rfl,
    ?_⟩
  have dst_ne : Cell.eflags ≠ dst.cell := (dst.cell_ne_eflags).symm
  cases commits <;>
    simp [State.status, State.gprs, Memory.set, setEFLAGS, commit,
      loaded.buffer, src_ne, dst_ne]

/-- The switch on an instruction of the command line. -/
theorem execute_status {before : State} {dst : Gpr} {src : Cell}
    (loaded : Loaded before) (prepared : Prepared before dst src)
    {instruction : Instruction} (known : instruction ≠ .CMP) (count : Dword) :
    ∃ after,
      execute instruction.opcode count before = some after ∧
        after.status =
          instruction.leaves before.status (before.gprs dst)
            (before.memory.cells src) := by
  have flags :=
    Instruction.statusOf_flagsAfter known (before.gprs dst)
      (before.memory.cells src) (before.memory.cells .eflags)
  have computes := arithmetic_status loaded prepared instruction
  rw [State.status, ← flags]
  cases instruction with
  | CMP => exact absurd rfl known
  | MOV => exact computes true fun _ _ src => src
  | ADD => exact computes true fun buffer _ src => buffer + src
  | SUB => exact computes true fun buffer _ src => buffer - src
  | AND => exact computes true fun _ dst src => dst &&& src
  | OR => exact computes true fun buffer _ src => buffer ||| src
  | XOR => exact computes true fun buffer _ src => buffer ^^^ src
  | TEST => exact computes false fun _ dst src => dst &&& src

/-- A whole invocation, from the state in which its option loop ends. -/
theorem main_status {stack : Dword} {words : Cell → Dword}
    {options : List EmulatorOption} {before : State} {dst : Gpr} {src : Cell}
    (loop : options.foldlM (optionStep stack) (.start words) = some before)
    (prepared : Prepared before dst src) (instruction : Instruction) :
    ∃ after,
      main stack options [instruction.text] words = some after ∧
        after.status =
          instruction.leaves before.status (before.gprs dst)
            (before.memory.cells src) := by
  have read := readInstruction_text prepared.e instruction
  by_cases compare : instruction = .CMP
  · subst compare
    rw [if_pos rfl] at read
    exact ⟨{ before with help := true, e := 1 }, by simp [main, loop, read], rfl⟩
  · rw [if_neg compare] at read
    rw [main_executes loop prepared.e prepared.help read]
    exact execute_status (loaded_options loop) prepared compare 1

/-! ## The results -/

/-- **Status flags.**  For every command line that ends in two operands of 32
bits, whatever they hold and whatever the flags were: the flags that an
instruction leaves are those of IA-32 exactly where `FlagsRight` says so. -/
theorem main_flags_iff {stack : Dword} {words : Cell → Dword}
    {options : List EmulatorOption} {before : State} {dst : Gpr} {src : Cell}
    (loop : options.foldlM (optionStep stack) (.start words) = some before)
    (prepared : Prepared before dst src) (instruction : Instruction) :
    ∃ after,
      main stack options [instruction.text] words = some after ∧
        (after.status =
            instruction.status before.status (before.gprs dst)
              (before.memory.cells src) ↔
          instruction.FlagsRight before.status (before.gprs dst)
            (before.memory.cells src)) := by
  rcases main_status loop prepared instruction with ⟨after, ran, status⟩
  refine ⟨after, ran, ?_⟩
  rw [status]
  exact instruction.leaves_eq_status_iff _ _ _

/-- `ia32emu -d -r eax -s -r ebx AND`. -/
theorem main_flags_iff_and :
    ∃ before after : State,
      main 0 [.dst, .register "eax", .src, .register "ebx"] ["AND"]
          (fun _ => 7) = some after ∧
        (after.status =
            Instruction.AND.status before.status (before.gprs .eax)
              (before.memory.cells .ebx) ↔
          Instruction.AND.FlagsRight before.status (before.gprs .eax)
            (before.memory.cells .ebx)) := by
  have loop :
      [EmulatorOption.dst, .register "eax", .src, .register "ebx"].foldlM
          (optionStep 0) (.start fun _ => 7) =
        some _ :=
    rfl
  have flags :=
    @main_flags_iff 0 (fun _ => 7) _ _ .eax .ebx loop
      ⟨rfl, rfl, rfl, rfl, ⟨.eax, rfl, by decide⟩, ⟨.ebx, rfl, by decide⟩⟩ .AND
  rcases flags with ⟨after, ran, flags⟩
  exact ⟨_, after, ran, flags⟩

/-- `ADD` of 0xffffffff and 1 clears `CF` and leaves `ZF` clear. -/
theorem main_add_loses_carry :
    ∃ before after,
      [.dst, .register "eax", .src, .register "ebx"].foldlM (optionStep 0)
          (.start fun cell => if cell = .eax then 0xffffffff else 1) =
        some before ∧
        main 0 [.dst, .register "eax", .src, .register "ebx"] ["ADD"]
            (fun cell => if cell = .eax then 0xffffffff else 1) =
          some after ∧
        before.gprs .eax = 0xffffffff ∧ before.memory.cells .ebx = 1 ∧
          after.status.CF = false ∧ after.status.ZF = false ∧
          after.status ≠
            Instruction.ADD.status before.status (before.gprs .eax)
              (before.memory.cells .ebx) := by
  exact ⟨_, _, rfl, rfl, by decide, by decide, by decide, by decide, by decide⟩

end Atomicles.Emulator
