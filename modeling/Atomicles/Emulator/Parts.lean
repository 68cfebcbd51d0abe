import Atomicles.Emulator.Incomplete
import Atomicles.Emulator.Values

/-!
# Partial registers

An operand points to the whole register whatever part of it was named.  A
write through the name of a part therefore leaves the rest of the register
alone only where the new word happens to agree with it, and a part is read
as such only where the rest of its register is zero.
-/

namespace Atomicles.Emulator

namespace RegisterName

/-- The bits of its register that a name stands for. -/
def Covers (name : RegisterName) (bit : Nat) : Prop :=
  name.offset ≤ bit ∧ bit < name.offset + name.width

/-- The words agree in the other bits of the register. -/
def Agree (name : RegisterName) (before after : Dword) : Prop :=
  ∀ bit, ¬ name.Covers bit → after.getLsbD bit = before.getLsbD bit

/-- The register holds nothing but what the name stands for, and this where
the word begins. -/
def Alone (name : RegisterName) (word : Dword) : Prop :=
  word.toNat < 2 ^ name.width ∧ (name.isHigh = true → word = 0)

theorem alone_iff (name : RegisterName) (word : Dword) :
    name.Alone word ↔ word.toNat = name.field word := by
  have begins : ∀ width, (word.toNat < 2 ^ width ∧ (false = true → word = 0)) ↔
      word.toNat = word.toNat / 2 ^ 0 % 2 ^ width := by
    intro width
    rw [Nat.pow_zero, Nat.div_one]
    constructor
    · intro small
      exact (Nat.mod_eq_of_lt small.1).symm
    · intro same
      rw [same]
      exact ⟨Nat.mod_lt _ (Nat.two_pow_pos width), by simp⟩
  unfold Alone field
  cases name with
  | high gpr =>
      simp only [offset, width, isHigh, true_implies]
      constructor
      · rintro ⟨_, rfl⟩
        rfl
      · intro same
        have zero : word.toNat = 0 := by omega
        have isZero : word = 0 := BitVec.eq_of_toNat_eq zero
        exact ⟨by omega, isZero⟩
  | eflags => exact begins 32
  | dword gpr => exact begins 32
  | word gpr => exact begins 16
  | low gpr => exact begins 8

/-- A part is one of a general register. -/
theorem exists_gpr {name : RegisterName} (isPart : name.width < 32) :
    ∃ gpr : Gpr, name.cell = gpr.cell := by
  cases name with
  | eflags => exact absurd isPart (by decide)
  | dword gpr => exact ⟨gpr, rfl⟩
  | word gpr => exact ⟨gpr, rfl⟩
  | low gpr => exact ⟨gpr, rfl⟩
  | high gpr => exact ⟨gpr, rfl⟩

end RegisterName

/-- The register of the name among the general registers. -/
theorem cells_eq_gprs {name : RegisterName} {gpr : Gpr}
    (isCell : name.cell = gpr.cell) (state : State) :
    state.memory.cells name.cell = state.gprs gpr := by
  rw [isCell]
  rfl

theorem Follows.pointed_gpr {course : Course} {state : State}
    (follows : Follows course state) {operand : Operand}
    {name : RegisterName}
    (pointed : course.pointed operand = some (.register name)) {gpr : Gpr}
    (isCell : name.cell = gpr.cell) :
    state.operands operand = some gpr.cell := by
  rw [follows.operands, pointed, ← isCell]
  rfl

/-! ## What is written -/

/-- Only the bits of the name have changed in the general registers. -/
def Within (name : RegisterName) (before after : State) : Prop :=
  ∀ (gpr : Gpr) (bit : Nat), ¬ (gpr.cell = name.cell ∧ name.Covers bit) →
    (after.gprs gpr).getLsbD bit = (before.gprs gpr).getLsbD bit

theorem within_self {name : RegisterName} {before after : State}
    (same : after.gprs = before.gprs) : Within name before after := by
  intro gpr bit _
  rw [same]

/-- Where a word is written to the register of the name, these are its other
bits. -/
theorem within_update_iff {name : RegisterName} {gpr : Gpr}
    (isCell : name.cell = gpr.cell) {before after : State} {word : Dword}
    (written : after.gprs = Function.update before.gprs gpr word) :
    Within name before after ↔ name.Agree (before.gprs gpr) word := by
  unfold Within
  rw [written]
  constructor
  · intro within bit outside
    have kept := within gpr bit fun both => outside both.2
    rwa [Function.update_self] at kept
  · intro agree other bit outside
    by_cases same : other = gpr
    · subst same
      rw [Function.update_self]
      exact agree bit fun covers => outside ⟨isCell.symm, covers⟩
    · rw [Function.update_of_ne same]

/-- A `-v` for the selected operand, or an instruction for the destination. -/
inductive Assignment where
  | value (text : String)
  | instruction (opcode : Opcode) (count : Dword)
deriving DecidableEq, Repr

namespace Assignment

def run (stack : Dword) (state : State) : Assignment → Option State
  | .value text => valueOption stack text state
  | .instruction opcode count => execute opcode count state

/-- What it writes to. -/
def destination (course : Course) : Assignment → Option Pointer
  | .value _ => course.selected.bind course.pointed
  | .instruction _ _ => course.pointed .DST

/-- The word that it reads as its source: an instruction on two operands that
are accepted reads one. -/
def source (state : State) : Assignment → Option Dword
  | .value _ => none
  | .instruction opcode _ =>
      if opcode.needs .SRC ∧ checkOperands opcode state = some true then
        (state.operands .SRC).map state.memory.cells
      else none

end Assignment

/-- What is expected of parts: only the bits of the destination change, and
what is read is the part that the source was named as. -/
structure Partial (stack : Dword) (course : Course) (state : State)
    (name : RegisterName) (assignment : Assignment) : Prop where
  others : ∀ after, assignment.run stack state = some after →
    Within name state after
  source : ∀ word src, assignment.source state = some word →
    course.pointed .SRC = some (.register src) → src.width < 32 →
      word.toNat = src.field (state.memory.cells src.cell)

/-! ## Where this is so -/

/-- The words of two operands with which an instruction on two operands
leaves the rest of the destination alone. -/
def Instruction.Harmless (name : RegisterName) (dst src : Dword) :
    Instruction → Prop
  | .MOV => name.Agree dst src
  | .ADD => name.Agree dst src
  | .SUB => name.Agree dst (-src)
  | .AND => name.Agree dst (dst &&& src)
  | .OR => name.Agree dst src
  | .XOR => name.Agree dst src
  | .TEST => True
  | .CMP => True

theorem Instruction.harmless_iff (instruction : Instruction)
    (name : RegisterName) (dst src : Dword) :
    instruction.Harmless name dst src ↔
      name.Agree dst (instruction.left dst src) := by
  have trivially : name.Agree dst dst := fun _ _ => rfl
  cases instruction with
  | MOV => exact Iff.rfl
  | ADD => simp [Harmless, left, computed]
  | SUB => simp [Harmless, left, computed]
  | AND => exact Iff.rfl
  | OR => simp [Harmless, left, computed]
  | XOR => simp [Harmless, left, computed]
  | TEST => exact iff_of_true trivial trivially
  | CMP => exact iff_of_true trivial trivially

/-- When an assignment leaves the rest of the destination alone and reads no
more than the part of the source. -/
def Assignment.Harmless (stack : Dword) (course : Course) (state : State)
    (name : RegisterName) : Assignment → Prop
  | .value text =>
      name.Agree (state.memory.cells name.cell)
        (if text = "RST" then stack
        else if Passes text (course.size name.cell) ∧
            (strtoul text.toList).2 ≠ [] then readHex text.toList 0
        else BitVec.ofNat 32 (strtoul text.toList).1)
  | .instruction opcode count =>
      (∀ shift : Shift, shift.opcode = opcode →
        name.Agree (state.memory.cells name.cell)
          ((state.memory.cells name.cell).sshiftRight (count.toNat % 32))) ∧
      ∀ (instruction : Instruction) cell, instruction.opcode = opcode →
        checkOperands opcode state = some true →
          state.operands .SRC = some cell →
            instruction.Harmless name (state.memory.cells name.cell)
              (state.memory.cells cell) ∧
            ∀ src, course.pointed .SRC = some (.register src) →
              src.width < 32 → src.Alone (state.memory.cells cell)

section Cases

variable {stack : Dword} {options : List Given} {state : State}
variable {name : RegisterName}

/-- The case of `-v`. -/
theorem partial_value_iff (follows : Follows (Course.of options) state)
    {operand : Operand}
    (selected : (Course.of options).selected = some operand)
    (pointed : (Course.of options).pointed operand = some (.register name))
    (isPart : name.width < 32) (text : String) :
    Partial stack (Course.of options) state name (.value text) ↔
      (Assignment.value text).Harmless stack (Course.of options) state name := by
  have named := (Course.coherent_of options).named operand name pointed
  have selects := follows.selects selected pointed named
  have size : idSize (state.memory.ids name.cell) =
      (Course.of options).size name.cell :=
    follows.size named
  have notFlags : name ≠ .eflags := by
    rintro rfl
    exact absurd isPart (by decide)
  rcases RegisterName.exists_gpr isPart with ⟨gpr, isCell⟩
  have ran := valueOption_selects selects stack text
  have stored : (valueStored stack text name (state.memory.ids name.cell)
      state.e).1 =
        if text = "RST" then stack
        else if Passes text ((Course.of options).size name.cell) ∧
            (strtoul text.toList).2 ≠ [] then readHex text.toList 0
        else BitVec.ofNat 32 (strtoul text.toList).1 := by
    unfold valueStored
    rw [if_neg notFlags, size]
    split
    · rfl
    · rfl
  have written : ∀ after, valueOption stack text state = some after →
      after.gprs = Function.update state.gprs gpr
        (valueStored stack text name (state.memory.ids name.cell)
          state.e).1 := by
    intro after done
    rw [ran] at done
    cases done
    funext other
    by_cases same : other = gpr
    · subst same
      simp [State.gprs, Memory.set, isCell]
    · simp [State.gprs, Memory.set, isCell, same]
  have old := cells_eq_gprs isCell state
  have harmless :
      (Assignment.value text).Harmless stack (Course.of options) state name ↔
        name.Agree (state.gprs gpr)
          (valueStored stack text name (state.memory.ids name.cell)
            state.e).1 := by
    rw [stored, ← old]
    exact Iff.rfl
  rw [harmless]
  constructor
  · intro isPartial
    exact (within_update_iff isCell (written _ ran)).mp
      (isPartial.others _ ran)
  · intro agree
    constructor
    · intro after done
      exact (within_update_iff isCell (written after done)).mpr agree
    · intro word src impossible
      cases impossible

/-- The case of the shifts. -/
theorem partial_shift_iff (follows : Follows (Course.of options) state)
    (pointed : (Course.of options).pointed .DST = some (.register name))
    (isPart : name.width < 32) (shift : Shift) (count : Dword) :
    Partial stack (Course.of options) state name
        (.instruction shift.opcode count) ↔
      (Assignment.instruction shift.opcode count).Harmless stack
        (Course.of options) state name := by
  rcases RegisterName.exists_gpr isPart with ⟨gpr, isCell⟩
  have operand := follows.pointed_gpr pointed isCell
  have old := cells_eq_gprs isCell state
  rcases shiftCase_leaves operand shift count (masked_toNat count) with
    ⟨after, ran, written, _⟩
  have notInstruction : ∀ instruction : Instruction,
      instruction.opcode ≠ shift.opcode := by
    intro instruction
    cases instruction <;> cases shift <;> decide
  have noSource : shift.opcode.needs .SRC = false := by
    cases shift <;> rfl
  have harmless :
      (Assignment.instruction shift.opcode count).Harmless stack
          (Course.of options) state name ↔
        name.Agree (state.gprs gpr)
          ((state.gprs gpr).sshiftRight (count.toNat % 32)) := by
    rw [← old]
    constructor
    · intro both
      exact both.1 shift rfl
    · intro agree
      refine ⟨fun _ _ => agree, ?_⟩
      intro instruction _ same
      exact absurd same (notInstruction instruction)
  rw [harmless]
  constructor
  · intro isPartial
    exact (within_update_iff isCell written).mp (isPartial.others after ran)
  · intro agree
    constructor
    · intro other done
      have same : some after = some other := ran.symm.trans done
      cases same
      exact (within_update_iff isCell written).mpr agree
    · intro word src read
      simp [Assignment.source, noSource] at read

/-- The case of the instructions on two operands. -/
theorem partial_instruction_iff (follows : Follows (Course.of options) state)
    (buffer : state.memory.cells .buffer = 0)
    (pointed : (Course.of options).pointed .DST = some (.register name))
    (isPart : name.width < 32) (instruction : Instruction) (count : Dword) :
    Partial stack (Course.of options) state name
        (.instruction instruction.opcode count) ↔
      (Assignment.instruction instruction.opcode count).Harmless stack
        (Course.of options) state name := by
  have notShift : ∀ shift : Shift, shift.opcode ≠ instruction.opcode := by
    intro shift
    cases shift <;> cases instruction <;> decide
  by_cases accepted : checkOperands instruction.opcode state = some true
  · rcases RegisterName.exists_gpr isPart with ⟨gpr, isCell⟩
    have operand := follows.pointed_gpr pointed isCell
    have old := cells_eq_gprs isCell state
    rcases accepted_pointed follows accepted .SRC with ⟨pointer, src_pointed⟩
    have source : state.operands .SRC = some pointer.cell := by
      rw [follows.operands, src_pointed]
      rfl
    rcases execute_left accepted operand source buffer count with
      ⟨after, ran, written⟩
    have needed : instruction.opcode.needs .SRC = true := by
      cases instruction <;> rfl
    have reads :
        (Assignment.instruction instruction.opcode count).source state =
          some (state.memory.cells pointer.cell) := by
      unfold Assignment.source
      dsimp only
      rw [if_pos ⟨needed, accepted⟩, source]
      rfl
    have others := (within_update_iff isCell written).trans
      (instruction.harmless_iff name _ _).symm
    rw [← old] at others
    constructor
    · intro isPartial
      refine ⟨fun shift same => absurd same (notShift shift), ?_⟩
      intro other cell same _ isCell
      have same : other = instruction := by
        cases other <;> cases instruction <;> first | rfl | cases same
      subst same
      rw [source] at isCell
      cases isCell
      refine ⟨others.mp (isPartial.others after ran), ?_⟩
      intro src isSrc narrow
      rw [src.alone_iff]
      have isPointer : pointer = .register src :=
        Option.some.inj (src_pointed.symm.trans isSrc)
      have field := isPartial.source _ src reads isSrc narrow
      rw [isPointer] at field ⊢
      exact field
    · intro harmless
      rcases harmless.2 instruction _ rfl accepted source with
        ⟨agree, alone⟩
      constructor
      · intro other done
        have same : some after = some other := ran.symm.trans done
        cases same
        exact others.mpr agree
      · intro word src read isSrc narrow
        rw [reads] at read
        cases read
        have isPointer : pointer = .register src :=
          Option.some.inj (src_pointed.symm.trans isSrc)
        have isAlone := alone src isSrc narrow
        rw [isPointer] at isAlone ⊢
        exact (src.alone_iff _).mp isAlone
  · apply iff_of_true
    · constructor
      · intro after ran
        cases checked : checkOperands instruction.opcode state with
        | none =>
            have fault : execute instruction.opcode count state = none :=
              execute_fault checked
            have same : none = some after := fault.symm.trans ran
            cases same
        | some found =>
            cases found with
            | true => exact absurd checked accepted
            | false =>
                have refused : execute instruction.opcode count state =
                    some { state with e := 1 } :=
                  execute_refused checked
                have same : some _ = some after := refused.symm.trans ran
                cases same
                exact within_self rfl
      · intro word src read
        simp [Assignment.source, accepted] at read
    · constructor
      · intro shift same
        exact absurd same (notShift shift)
      · intro other cell _ isAccepted
        exact absurd isAccepted accepted

/-- The case of the jumps, which write to no register. -/
theorem execute_other_gprs {opcode : Opcode} {count : Dword} {after : State}
    (jump : ∀ operand, opcode.needs operand = false)
    (ran : execute opcode count state = some after) :
    after.gprs = state.gprs := by
  have ecx : REGISTERS.lookup REG32_GPR_ECX = some .ecx := by decide
  cases opcode
  case JCXZ => cases ran
  case JECXZ =>
    simp only [execute, register, ecx, Option.map_some] at ran
    cases ran
    rfl
  all_goals
    first
    | exact absurd (jump .DST) (by decide)
    | (cases ran; rfl)

theorem partial_other (stack : Dword) (course : Course) (state : State)
    (name : RegisterName) {opcode : Opcode}
    (jump : ∀ operand, opcode.needs operand = false) (count : Dword) :
    Partial stack course state name (.instruction opcode count) ∧
      (Assignment.instruction opcode count).Harmless stack course state
        name := by
  constructor
  · constructor
    · intro after ran
      exact within_self (execute_other_gprs jump ran)
    · intro word src read
      simp [Assignment.source, jump .SRC] at read
  · constructor
    · rintro shift rfl
      have needed : shift.opcode.needs .DST = true := by
        cases shift <;> rfl
      exact absurd needed (by rw [jump .DST]; decide)
    · rintro instruction cell rfl
      have needed : instruction.opcode.needs .DST = true := by
        cases instruction <;> rfl
      exact absurd needed (by rw [jump .DST]; decide)

end Cases

/-! ## The result -/

/-- **Partial registers.**  After any options that reach no null pointer: an
assignment to a part leaves the rest of the registers alone and reads no more
than the part of its source exactly on the harmless words. -/
theorem partial_iff_harmless (stack : Dword) (words : Cell → Dword)
    (options : List Given) (allowed : Course.start.AllowsAll options)
    (assignment : Assignment) (name : RegisterName)
    (destination : assignment.destination (Course.of options) =
      some (.register name)) (isPart : name.width < 32) :
    ∃ state,
      (options.map Given.option).foldlM (optionStep stack) (.start words) =
        some state ∧
      (Partial stack (Course.of options) state name assignment ↔
        assignment.Harmless stack (Course.of options) state name) := by
  rcases (follows_start words).run stack allowed with ⟨state, ran, follows⟩
  refine ⟨state, ran, ?_⟩
  cases assignment with
  | value text =>
      rcases Option.bind_eq_some_iff.mp destination with
        ⟨operand, selected, pointed⟩
      exact partial_value_iff follows selected pointed isPart text
  | instruction opcode count =>
      rcases opcode_cases opcode with
        ⟨shift, rfl⟩ | ⟨instruction, rfl⟩ | jump
      · exact partial_shift_iff follows destination isPart shift count
      · exact partial_instruction_iff follows (loaded_options ran).buffer
          destination isPart instruction count
      · rcases partial_other stack (Course.of options) state name jump count
          with ⟨isPartial, harmless⟩
        exact iff_of_true isPartial harmless

/-- `ia32emu -d -r ax -s -r bx MOV`. -/
theorem partial_iff_harmless_mov :
    ∃ state,
      [EmulatorOption.dst, .register "ax", .src, .register "bx"].foldlM
          (optionStep 0) (.start fun _ => 0) = some state ∧
      (Partial 0
          (Course.of [.dst, .register (.word .eax), .src,
            .register (.word .ebx)]) state (.word .eax)
          (.instruction .MOV 1) ↔
        (Assignment.instruction .MOV 1).Harmless 0
          (Course.of [.dst, .register (.word .eax), .src,
            .register (.word .ebx)]) state (.word .eax)) :=
  partial_iff_harmless 0 (fun _ => 0)
    [.dst, .register (.word .eax), .src, .register (.word .ebx)]
    ⟨trivial, trivial, trivial, trivial, trivial⟩
    (.instruction .MOV 1) (.word .eax) rfl (by decide)

/-- With 0x10000 in `eax` it clears the high half of `eax`. -/
theorem not_partial :
    ∃ state,
      [EmulatorOption.dst, .register "ax", .src, .register "bx"].foldlM
          (optionStep 0)
          (.start fun cell => if cell = .eax then 0x10000 else 0) =
        some state ∧
      ¬ Partial 0
          (Course.of [.dst, .register (.word .eax), .src,
            .register (.word .ebx)]) state (.word .eax)
          (.instruction .MOV 1) := by
  refine ⟨_, rfl, ?_⟩
  intro isPartial
  have kept := isPartial.others _ rfl .eax 16
    (by rintro ⟨_, _, high⟩; exact absurd high (by decide))
  revert kept
  decide

end Atomicles.Emulator
