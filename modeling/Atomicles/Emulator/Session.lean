import Mathlib.Data.List.Chain
import Atomicles.Emulator.Shifts

/-!
# Invocations one after the other

`registers$delete` writes the registers back and the next invocation starts
from what it has written.  `registers$init` makes the reserved bits of
`eflags` canonical, `registers$delete` stores the word as it is; so the
registers come back unchanged where the last word that was stored in `eflags`
as a whole was canonical.
-/

namespace Atomicles.Emulator

/-! ## The segment -/

/-- `registers$delete`: the words of the segment after it. -/
def deleteRegisters (memory : Memory) (words : Cell → Dword) : Cell → Dword
  | .eflags => memory.cells .eflags
  | .eax => memory.cells .eax
  | .ebx => memory.cells .ebx
  | .ecx => memory.cells .ecx
  | .edx => memory.cells .edx
  | cell => words cell

/-- The registers of the register file. -/
def registerFile : List Cell := [.eflags, .eax, .ebx, .ecx, .edx]

/-- `r$0x01`, `r$0x03`, `r$0x05` and `r$0x0F`. -/
def reservedFields : List Nat := [1, 3, 5, 0x0F]

/-- The reserved bits are as `registers$init` sets them. -/
def Canonical (eflags : Dword) : Prop :=
  ∀ field ∈ reservedFields, eflags.getLsbD field = decide (field = 1)

instance (eflags : Dword) : Decidable (Canonical eflags) :=
  inferInstanceAs (Decidable (∀ field ∈ reservedFields, _))

/-- Two words with the same reserved bits. -/
def SameReserved (first second : Dword) : Prop :=
  ∀ field ∈ reservedFields, first.getLsbD field = second.getLsbD field

theorem SameReserved.canonical_iff {first second : Dword}
    (same : SameReserved first second) : Canonical first ↔ Canonical second := by
  constructor
  · intro canonical field member
    rw [← same field member]
    exact canonical field member
  · intro canonical field member
    rw [same field member]
    exact canonical field member

theorem SameReserved.trans {first second third : Dword}
    (front : SameReserved first second) (back : SameReserved second third) :
    SameReserved first third :=
  fun field member => (front field member).trans (back field member)

/-- A field that is not reserved. -/
theorem sameReserved_setField (eflags : Dword) (bit : Bool) {field : Nat}
    (within : field < 32) (free : field ∉ reservedFields) :
    SameReserved (setField eflags field bit) eflags := by
  intro other member
  have distinct : other ≠ field := by
    intro same
    exact free (same ▸ member)
  rw [getLsbD_setField bit within, if_neg distinct]

/-- What `registers$init` makes of `eflags`. -/
theorem initRegisters_eflags (words : Cell → Dword) (index : Nat) :
    ((initRegisters words).cells .eflags).getLsbD index =
      if index ∈ reservedFields then decide (index = 1)
      else (words .eflags).getLsbD index := by
  show
    (setField (setField (setField (setField (words .eflags) 1 true) 3 false)
      5 false) 0x0F false).getLsbD index = _
  simp only [getLsbD_setField _ (by decide : (1 : Nat) < 32),
    getLsbD_setField _ (by decide : (3 : Nat) < 32),
    getLsbD_setField _ (by decide : (5 : Nat) < 32),
    getLsbD_setField _ (by decide : (0x0F : Nat) < 32), reservedFields]
  grind

theorem canonical_initRegisters (words : Cell → Dword) :
    Canonical ((initRegisters words).cells .eflags) := by
  intro field member
  rw [initRegisters_eflags, if_pos member]

/-- `registers$init` keeps canonical flags. -/
theorem initRegisters_eflags_iff (words : Cell → Dword) :
    (initRegisters words).cells .eflags = words .eflags ↔
      Canonical (words .eflags) := by
  constructor
  · intro same
    rw [← same]
    exact canonical_initRegisters words
  · intro canonical
    apply BitVec.eq_of_getLsbD_eq
    intro index _
    rw [initRegisters_eflags]
    by_cases reserved : index ∈ reservedFields
    · rw [if_pos reserved, canonical index reserved]
    · rw [if_neg reserved]

/-- The other registers come back as they are. -/
theorem initRegisters_deleteRegisters (memory : Memory) (words : Cell → Dword)
    (gpr : Gpr) :
    (initRegisters (deleteRegisters memory words)).cells gpr.cell =
      memory.cells gpr.cell := by
  cases gpr <;> rfl

/-! ## The words stored in `eflags` -/

/-- The word that an option stores in `eflags`, if it stores one. -/
def given (state : State) : EmulatorOption → Option Dword
  | .value text =>
      if state.operandPtr.bind state.operands = some .eflags then
        some (if text = "RST" then EFLAGS_RESET else storedWord text 0)
      else none
  | _ => none

/-- The words that options store in `eflags`, in order. -/
def givenWords (stack : Dword) (state : State) :
    List EmulatorOption → List Dword
  | [] => []
  | option :: options =>
      (given state option).toList ++
        (match optionStep stack state option with
        | some next => givenWords stack next options
        | none => [])

/-- The word that an instruction stores in `eflags`, if that is its
destination. -/
def committed (opcode : Opcode) (count : Dword) (state : State) :
    Option Dword :=
  if state.operands .DST = some .eflags ∧
      checkOperands opcode state = some true then
    let eflags := state.memory.cells .eflags
    let src := (state.operands .SRC).elim 0 state.memory.cells
    match opcode with
    | .SAL | .SHL | .SHR | .SAR =>
        some (eflags.sshiftRight (count &&& 0x1F).toNat)
    | .MOV => some src
    | .ADD => some src
    | .OR => some src
    | .XOR => some src
    | .SUB => some (0 - src)
    | .AND => some (eflags &&& src)
    | _ => none
  else none

/-- One call of the emulator. -/
structure Invocation where
  stack : Dword
  options : List EmulatorOption
  arguments : List String

namespace Invocation

/-- The invocation on the words of the segment. -/
def run (invocation : Invocation) (words : Cell → Dword) : Option State :=
  main invocation.stack invocation.options invocation.arguments words

/-- The words that an invocation stores in `eflags`, in order. -/
def eflagsWords (invocation : Invocation) (words : Cell → Dword) :
    List Dword :=
  givenWords invocation.stack (.start words) invocation.options ++
    (match invocation.options.foldlM (optionStep invocation.stack)
        (.start words) with
    | some before =>
        let (state, opcode, count) :=
          readInstruction invocation.arguments before
        if state.help = false ∧ state.e = 0 then
          (committed opcode count state).toList
        else []
    | none => [])

/-- The last word that an invocation stores in `eflags` is canonical. -/
def Careful (invocation : Invocation) (words : Cell → Dword) : Prop :=
  ∀ word, (invocation.eflagsWords words).getLast? = some word → Canonical word

end Invocation

/-! ## The options -/

/-- `-v` is the only option that changes `eflags`. -/
theorem eflags_of_optionStep {stack : Dword} {state next : State}
    {option : EmulatorOption} (loaded : Loaded state)
    (step : optionStep stack state option = some next) :
    next.memory.cells .eflags =
      (given state option).getD (state.memory.cells .eflags) := by
  cases option with
  | value text =>
      rcases valueOption_cases step with ⟨operand, pointer, kinds⟩
      rcases kinds with ⟨nowhere, rfl⟩ | ⟨cell, pointed, kinds⟩
      · simp [given, pointer, nowhere]
      by_cases flags : cell = .eflags
      · subst flags
        rcases kinds with ⟨reset, rfl⟩ | ⟨other, register, e, found, rfl⟩
        · simp [given, pointer, pointed, reset, Memory.set]
        · -- The size that `registers$size` gives for `eflags` is zero.
          have named := loaded.registers operand .eflags pointed
          rw [loaded.target operand pointer] at found
          have same : register = .eflags := by
            simpa [found] using named
          have size : registerSize state.memory register = 0 := by
            rw [same, registerSize, loaded.ids]
            decide
          simp [given, pointer, pointed, other, Memory.set, size]
      · have kept : Cell.eflags ≠ cell := fun same => flags same.symm
        rcases kinds with ⟨-, rfl⟩ | ⟨-, register, e, -, rfl⟩ <;>
          simp [given, pointer, pointed, flags, Memory.set, kept]
  | immediate =>
      simp only [optionStep] at step
      by_cases source : state.target = .SRC
      · rw [if_pos source] at step
        rcases Option.map_eq_some_iff.mp step with ⟨operand, -, rfl⟩
        rfl
      · rw [if_neg source] at step
        cases step
        rfl
  | register name =>
      simp only [optionStep] at step
      cases pointer : state.operandPtr with
      | none =>
          rw [pointer] at step
          cases step
          rfl
      | some operand =>
          rw [pointer] at step
          rcases Option.map_eq_some_iff.mp step with ⟨found, named, rfl⟩
          rcases registerByName_slot named with ⟨id, -, memory⟩
          simp [given, memory, Memory.setId]
  | help =>
      cases step
      rfl
  | dst =>
      cases step
      rfl
  | src =>
      cases step
      rfl
  | unknown =>
      cases step
      rfl

/-- After all the options `eflags` is the last word that was stored in it. -/
theorem eflags_of_options {stack : Dword} (options : List EmulatorOption)
    {state before : State} (loaded : Loaded state)
    (loop : options.foldlM (optionStep stack) state = some before) :
    before.memory.cells .eflags =
      (givenWords stack state options).getLast?.getD
        (state.memory.cells .eflags) := by
  induction options generalizing state with
  | nil =>
      cases loop
      rfl
  | cons option options ih =>
      rcases Option.bind_eq_some_iff.mp loop with ⟨next, step, rest⟩
      have later := ih (loaded.change (change_of_optionStep step)) rest
      rw [later, eflags_of_optionStep loaded step]
      simp only [givenWords, step, List.getLast?_append]
      cases (givenWords stack next options).getLast? with
      | some word => rfl
      | none => cases given state option <;> rfl

/-! ## The instruction -/

/-- The status fields are not reserved. -/
theorem sameReserved_status (word : Dword) (bit : Bool) {field : Nat}
    (member : field ∈ [CF, PF, ZF, SF, OF]) :
    SameReserved (setField word field bit) word := by
  apply sameReserved_setField word bit
  · revert field
    decide
  · revert field
    decide

/-- `setEFLAGS` writes no reserved bit. -/
theorem sameReserved_flagsAfter (opcode : Opcode)
    (dst src buffer eflags : Dword) :
    SameReserved (flagsAfter opcode dst src buffer eflags) eflags := by
  have test : ∀ word : Dword,
      SameReserved (setTestFlags buffer word) word := by
    intro word
    have parity := sameReserved_status
      (setField (setField (setField (setField word CF false) OF false) SF
        ((MSB buffer).getLsbD 0)) ZF (decide (buffer = 0)))
      (BitwiseXNOR32 buffer) (by decide : PF ∈ _)
    refine parity.trans ?_
    refine (sameReserved_status _ _ (by decide : ZF ∈ _)).trans ?_
    refine (sameReserved_status _ _ (by decide : SF ∈ _)).trans ?_
    refine (sameReserved_status _ _ (by decide : OF ∈ _)).trans ?_
    exact sameReserved_status _ _ (by decide : CF ∈ _)
  have carried : ∀ above : Prop, [Decidable above] →
      SameReserved (if above then setField eflags CF true else eflags)
        eflags := by
    intro above _
    by_cases carry : above
    · rw [if_pos carry]
      exact sameReserved_status _ _ (by decide : CF ∈ _)
    · rw [if_neg carry]
      exact fun _ _ => rfl
  refine (sameReserved_status _ _ (by decide : ZF ∈ _)).trans ?_
  cases opcode with
  | SUB => exact carried _
  | CMP => exact carried _
  | ADD => exact (test _).trans (carried _)
  | TEST => exact test _
  | _ => exact fun _ _ => rfl

/-- `shift` writes no reserved bit. -/
theorem sameReserved_shift (dst cnt eflags : Dword) :
    SameReserved (shift .SAR dst cnt eflags).2 eflags := by
  have loop : ∀ (count : Nat) (dst eflags : Dword),
      SameReserved (shiftLoop .SAR count dst eflags).2 eflags := by
    intro count
    induction count with
    | zero => exact fun _ _ _ _ => rfl
    | succ count ih =>
        intro dst eflags
        rw [shiftLoop, shiftOnce_SAR]
        exact (ih _ _).trans (sameReserved_status _ _ (by decide : CF ∈ _))
  rw [shift_SAR_eq]
  by_cases once : cnt &&& 0x1F = 1
  · rw [if_pos once]
    exact
      (sameReserved_status _ _ (by decide : OF ∈ _)).trans (loop _ _ _)
  · rw [if_neg once]
    exact loop _ _ _

/-- The cases of the switch that compute with the scratch operand. -/
theorem arithmetic_cases {opcode : Opcode} {commits : Bool}
    {compute : Dword → Dword → Dword → Dword} {state after : State}
    (ran : arithmetic opcode commits compute state = some after) :
    (checkOperands opcode state = some false ∧ after = { state with e := 1 }) ∨
      (checkOperands opcode state = some true ∧
        ∃ dst src, state.operands .DST = some dst ∧
          state.operands .SRC = some src ∧
          after =
            { state with
              memory :=
                let memory := setEFLAGS opcode dst src
                  (state.memory.set .buffer
                    (compute (state.memory.cells .buffer)
                      (state.memory.cells dst) (state.memory.cells src)))
                if commits then commit dst memory else memory }) := by
  rcases Option.bind_eq_some_iff.mp ran with ⟨allowed, checked, ran⟩
  cases allowed with
  | false =>
      left
      exact ⟨checked, (Option.some.inj ran).symm⟩
  | true =>
      right
      rw [if_pos rfl] at ran
      rcases Option.bind_eq_some_iff.mp ran with ⟨dst, dst_cell, ran⟩
      rcases Option.bind_eq_some_iff.mp ran with ⟨src, src_cell, ran⟩
      exact ⟨checked, dst, src, dst_cell, src_cell, (Option.some.inj ran).symm⟩

/-- The reserved bits after the flags are set and the result is committed. -/
theorem sameReserved_commit (opcode : Opcode) (dst src : Cell)
    (memory : Memory) :
    SameReserved ((commit dst (setEFLAGS opcode dst src memory)).cells .eflags)
      (if dst = .eflags then memory.cells .buffer
      else memory.cells .eflags) := by
  by_cases flags : dst = .eflags
  · subst flags
    intro field _
    simp [commit, setEFLAGS, Memory.set]
  · have other : Cell.eflags ≠ dst := fun same => flags same.symm
    have eflags :
        (commit dst (setEFLAGS opcode dst src memory)).cells .eflags =
          flagsAfter opcode (memory.cells dst) (memory.cells src)
            (memory.cells .buffer) (memory.cells .eflags) := by
      simp [commit, setEFLAGS, Memory.set, other]
    rw [eflags, if_neg flags]
    exact sameReserved_flagsAfter opcode _ _ _ _

/-- An instruction that is not allowed, or has another destination. -/
theorem committed_eq_none {opcode : Opcode} {count : Dword} {state : State}
    (elsewhere : state.operands .DST ≠ some .eflags ∨
      checkOperands opcode state ≠ some true) :
    committed opcode count state = none := by
  apply if_neg
  rintro ⟨dst, allowed⟩
  rcases elsewhere with other | refused
  · exact other dst
  · exact refused allowed

/-- A shift stores a word in `eflags` only as its destination. -/
theorem sameReserved_shiftCase (shift : Shift) {count : Dword}
    {state after : State}
    (ran : shiftCase shift.opcode count state = some after) :
    SameReserved (after.memory.cells .eflags)
      ((committed shift.opcode count state).getD
        (state.memory.cells .eflags)) := by
  rcases Option.bind_eq_some_iff.mp ran with ⟨allowed, checked, ran⟩
  cases allowed with
  | false =>
      rw [committed_eq_none (.inr (by simp [checked])),
        ← Option.some.inj ran]
      exact fun _ _ => rfl
  | true =>
      rw [if_pos rfl] at ran
      rcases Option.bind_eq_some_iff.mp ran with ⟨dst, dst_cell, ran⟩
      rw [← Option.some.inj ran]
      refine (sameReserved_commit shift.opcode dst dst _).trans ?_
      by_cases flags : dst = .eflags
      · subst flags
        have word :
            committed shift.opcode count state =
              some
                ((state.memory.cells .eflags).sshiftRight
                  (count &&& 0x1F).toNat) := by
          cases shift <;>
            simp only [committed, Shift.opcode, dst_cell, true_and] <;>
            exact if_pos checked
        have value :=
          (shift_SAR (rfl : (count &&& 0x1F).toNat = _)
            (state.memory.cells .eflags) (state.memory.cells .eflags)).1
        rw [word, if_pos rfl, Option.getD_some, ← value]
        intro field _
        rfl
      · have other : state.operands .DST ≠ some .eflags := by
          simp [dst_cell, flags]
        rw [committed_eq_none (.inl other), if_neg flags]
        exact sameReserved_shift (state.memory.cells dst) count
          (state.memory.cells .eflags)

/-- An instruction that computes with the scratch operand does so too. -/
theorem sameReserved_arithmetic (instruction : Instruction)
    (compute : (buffer dst src : Dword) → Dword)
    (scratch : compute 0 = instruction.scratch) {count : Dword}
    {state after : State} (loaded : Loaded state)
    (ran : arithmetic instruction.opcode instruction.computed.isSome compute
      state = some after) :
    SameReserved (after.memory.cells .eflags)
      ((committed instruction.opcode count state).getD
        (state.memory.cells .eflags)) := by
  rcases arithmetic_cases ran with ⟨refused, rfl⟩ | ⟨allowed, dst, src, dst_cell,
    src_cell, rfl⟩
  · rw [committed_eq_none (.inr (by simp [refused]))]
    exact fun _ _ => rfl
  have computes :
      compute (state.memory.cells .buffer) (state.memory.cells dst)
          (state.memory.cells src) =
        instruction.scratch (state.memory.cells dst)
          (state.memory.cells src) := by
    rw [loaded.buffer, scratch]
  cases commits : instruction.computed.isSome with
  | false =>
      have none_given : committed instruction.opcode count state = none := by
        cases instruction <;>
          first
          | exact absurd commits (by decide)
          | exact ite_self _
      rw [none_given, Option.getD_none]
      exact sameReserved_flagsAfter instruction.opcode _ _ _ _
  | true =>
      refine (sameReserved_commit instruction.opcode dst src _).trans ?_
      by_cases flags : dst = .eflags
      · subst flags
        have word :
            committed instruction.opcode count state =
              some
                (instruction.scratch (state.memory.cells .eflags)
                  (state.memory.cells src)) := by
          cases instruction <;>
            first
            | exact absurd commits (by decide)
            | simpa [committed, Instruction.opcode, Instruction.scratch,
                dst_cell, src_cell] using allowed
        rw [word, if_pos rfl, Option.getD_some, ← computes]
        intro field _
        rfl
      · have other : state.operands .DST ≠ some .eflags := by
          simp [dst_cell, flags]
        rw [committed_eq_none (.inl other), if_neg flags]
        exact fun _ _ => rfl

/-- The switch stores a word in `eflags` only where the instruction commits
its result there; the reserved bits keep their values otherwise. -/
theorem sameReserved_execute {opcode : Opcode} {count : Dword}
    {state after : State} (loaded : Loaded state)
    (ran : execute opcode count state = some after) :
    SameReserved (after.memory.cells .eflags)
      ((committed opcode count state).getD (state.memory.cells .eflags)) := by
  have jumps : committed opcode count state = none →
      after.memory.cells .eflags = state.memory.cells .eflags →
        SameReserved (after.memory.cells .eflags)
          ((committed opcode count state).getD
            (state.memory.cells .eflags)) := by
    intro none_given same
    rw [none_given, same]
    exact fun _ _ => rfl
  cases opcode with
  | SAL => exact sameReserved_shiftCase .SAL ran
  | SAR => exact sameReserved_shiftCase .SAR ran
  | SHL => exact sameReserved_shiftCase .SHL ran
  | SHR => exact sameReserved_shiftCase .SHR ran
  | MOV =>
      exact sameReserved_arithmetic .MOV (fun _ _ src => src) rfl loaded ran
  | ADD =>
      exact sameReserved_arithmetic .ADD (fun buffer _ src => buffer + src) rfl loaded ran
  | SUB =>
      exact sameReserved_arithmetic .SUB (fun buffer _ src => buffer - src) rfl loaded ran
  | OR =>
      exact sameReserved_arithmetic .OR (fun buffer _ src => buffer ||| src) rfl loaded ran
  | AND =>
      exact sameReserved_arithmetic .AND (fun _ dst src => dst &&& src) rfl loaded ran
  | XOR =>
      exact sameReserved_arithmetic .XOR (fun buffer _ src => buffer ^^^ src) rfl loaded ran
  | TEST =>
      exact sameReserved_arithmetic .TEST (fun _ dst src => dst &&& src) rfl loaded ran
  | CMP =>
      exact sameReserved_arithmetic .CMP (fun buffer _ src => buffer - src) rfl loaded ran
  | JCXZ => cases ran
  | JECXZ =>
      simp only [execute, register] at ran
      rcases Option.map_eq_some_iff.mp ran with ⟨found, slot, rfl⟩
      rcases Option.map_eq_some_iff.mp slot with ⟨cell, -, rfl⟩
      exact jumps (ite_self _) rfl
  | _ =>
      cases ran
      exact jumps (ite_self _) rfl

/-! ## Whole invocations -/

/-- The reading of the instruction leaves the state, but for an error. -/
theorem readInstruction_cases (arguments : List String) (state : State) :
    (readInstruction arguments state).1 = state ∨
      ∃ help, (readInstruction arguments state).1 =
        { state with help, e := 1 } := by
  cases arguments with
  | nil => exact .inr ⟨state.help, rfl⟩
  | cons text rest =>
      by_cases e : state.e = 0
      · cases known : setInstruction text with
        | none =>
            right
            exact ⟨true, by simp [readInstruction, e, known]⟩
        | some opcode =>
            rcases rest with _ | ⟨count, _ | ⟨other, rest⟩⟩
            · left
              cases opcode <;> simp [readInstruction, e, known]
            · by_cases ended : (strtoul count.toList).2 = []
              · cases opcode <;> simp [readInstruction, e, known, ended]
              · cases opcode <;> simp [readInstruction, e, known, ended]
            · right
              exact ⟨state.help, by
                cases opcode <;> simp [readInstruction, e, known]⟩
      · right
        exact ⟨state.help, by simp [readInstruction, e]⟩

/-- An invocation leaves the reserved bits of the last word that it stored in
`eflags`, or of the word it started with. -/
theorem sameReserved_run {invocation : Invocation} {words : Cell → Dword}
    {after : State} (ran : invocation.run words = some after) :
    SameReserved (after.memory.cells .eflags)
      ((invocation.eflagsWords words).getLast?.getD
        ((initRegisters words).cells .eflags)) := by
  rcases Option.bind_eq_some_iff.mp ran with ⟨before, loop, ran⟩
  have options := eflags_of_options invocation.options (loaded_start words) loop
  have reading := readInstruction_cases invocation.arguments before
  rcases read : readInstruction invocation.arguments before with
    ⟨state, opcode, count⟩
  rw [read] at ran reading
  dsimp only at ran reading
  have stored :
      invocation.eflagsWords words =
        givenWords invocation.stack (.start words) invocation.options ++
          if state.help = false ∧ state.e = 0 then
            (committed opcode count state).toList
          else [] := by
    simp only [Invocation.eflagsWords, loop, read]
  by_cases runs : state.help = false ∧ state.e = 0
  · -- Only a state without an error gets here, which is the one from before.
    have same : state = before := by
      rcases reading with same | ⟨help, same⟩
      · exact same
      · have e := runs.2
        rw [same] at e
        cases e
    subst same
    simp only [runs.1, runs.2, Bool.false_eq_true, if_false, if_true] at ran
    have executed := sameReserved_execute (loaded_options loop) ran
    rw [stored, if_pos runs, List.getLast?_append]
    rw [options] at executed
    cases stores : committed opcode count state with
    | none =>
        rw [stores] at executed
        exact executed
    | some word =>
        rw [stores] at executed
        exact executed
  · have kept : state.memory = before.memory := by
      rcases reading with same | ⟨help, same⟩
      · rw [same]
      · rw [same]
    have ended : after = state := by
      by_cases help : state.help = true
      · simp only [help, if_true] at ran
        exact (Option.some.inj ran).symm
      · have e : state.e ≠ 0 :=
          fun e => runs ⟨Bool.eq_false_iff.mpr help, e⟩
        simp only [help, e, if_false] at ran
        exact (Option.some.inj ran).symm
    rw [ended, kept, stored, if_neg runs, List.append_nil, options]
    exact fun _ _ => rfl

/-- One invocation that ran to its end. -/
structure Completed where
  invocation : Invocation
  words : Cell → Dword
  /-- The registers when it called `registers$delete`. -/
  held : Memory

namespace Completed

/-- The registers that `registers$init` built. -/
def started (completed : Completed) : Memory :=
  initRegisters completed.words

/-- The words that `registers$delete` left. -/
def left (completed : Completed) : Cell → Dword :=
  deleteRegisters completed.held completed.words

end Completed

/-- Invocations one after the other, each on the words that the one before it
left. -/
inductive Session : (Cell → Dword) → List Completed → Prop where
  | nil (words : Cell → Dword) : Session words []
  | cons {words : Cell → Dword} {invocation : Invocation} {after : State}
      {rest : List Completed} :
      invocation.run words = some after →
        Session (Completed.left ⟨invocation, words, after.memory⟩) rest →
          Session words (⟨invocation, words, after.memory⟩ :: rest)

/-- The registers that one invocation held are those that another started
with, and their reserved bits are canonical. -/
structure Persists (held started : Memory) : Prop where
  eflags : started.cells .eflags = held.cells .eflags
  gprs : ∀ gpr : Gpr, started.cells gpr.cell = held.cells gpr.cell
  held_canonical : Canonical (held.cells .eflags)
  started_canonical : Canonical (started.cells .eflags)

/-- An invocation holds canonical flags at its end exactly where the last
word that it stored in `eflags` is canonical. -/
theorem canonical_run_iff {invocation : Invocation} {words : Cell → Dword}
    {after : State} (ran : invocation.run words = some after) :
    Canonical (after.memory.cells .eflags) ↔ invocation.Careful words := by
  rw [(sameReserved_run ran).canonical_iff, Invocation.Careful]
  cases (invocation.eflagsWords words).getLast? with
  | none => simp [canonical_initRegisters]
  | some word => simp

/-- What an invocation starts with after another. -/
theorem persists_iff {held : Memory} (words : Cell → Dword) :
    Persists held (initRegisters (deleteRegisters held words)) ↔
      Canonical (held.cells .eflags) := by
  constructor
  · exact fun persists => persists.held_canonical
  · intro canonical
    have eflags :
        (initRegisters (deleteRegisters held words)).cells .eflags =
          held.cells .eflags :=
      (initRegisters_eflags_iff (deleteRegisters held words)).mpr canonical
    constructor
    case eflags => exact eflags
    case gprs => exact initRegisters_deleteRegisters held words
    case held_canonical => exact canonical
    case started_canonical => exact canonical_initRegisters _

/-- **Persistence of the registers.**  In every sequence of invocations, each
one starts with the registers that the one before it held exactly when, in
every invocation but the last, the last word stored in `eflags` as a whole is
canonical. -/
theorem session_persists_iff {words : Cell → Dword} {trace : List Completed}
    (session : Session words trace) :
    trace.IsChain
        (fun previous next => Persists previous.held next.started) ↔
      ∀ completed ∈ trace.dropLast,
        completed.invocation.Careful completed.words := by
  induction session with
  | nil words => simp
  | @cons words invocation after rest ran session ih =>
      cases session with
      | nil => simp
      | @cons _ following following_after rest following_ran session =>
          have first :=
            (persists_iff words).trans (canonical_run_iff ran)
          rw [List.isChain_cons_cons, ih, List.dropLast_cons_cons,
            List.forall_mem_cons]
          exact and_congr first Iff.rfl

/-- `ia32emu -d -r ecx`, twice. -/
theorem session_persists_iff_twice :
    ∃ trace : List Completed,
      trace.length = 2 ∧ Session (fun _ => 7) trace ∧
        (trace.IsChain
            (fun previous next => Persists previous.held next.started) ↔
          ∀ completed ∈ trace.dropLast,
            completed.invocation.Careful completed.words) := by
  let select : Invocation := ⟨0, [.dst, .register "ecx"], []⟩
  have session : Session (fun _ => 7) [⟨select, _, _⟩, ⟨select, _, _⟩] :=
    .cons rfl (.cons rfl (.nil _))
  exact ⟨_, rfl, session, session_persists_iff session⟩

/-- After `ia32emu -d -r eflags -v RST` the next invocation starts with other
flags than the ones stored. -/
theorem session_loses_reset :
    ∃ first second : Completed,
      first.invocation = ⟨0, [.dst, .register "eflags", .value "RST"], []⟩ ∧
        Session (fun _ => 0) [first, second] ∧
        first.held.cells .eflags = 0x20 ∧
        second.started.cells .eflags = 0x02 ∧
        ¬[first, second].IsChain
          (fun previous next => Persists previous.held next.started) := by
  let reset : Invocation :=
    ⟨0, [.dst, .register "eflags", .value "RST"], []⟩
  have session : Session (fun _ => 0) [⟨reset, _, _⟩, ⟨⟨0, [], []⟩, _, _⟩] :=
    .cons rfl (.cons rfl (.nil _))
  refine ⟨_, _, rfl, session, by decide, by decide, ?_⟩
  intro chain
  have canonical := (List.isChain_cons_cons.mp chain).1.held_canonical
  revert canonical
  decide

end Atomicles.Emulator
