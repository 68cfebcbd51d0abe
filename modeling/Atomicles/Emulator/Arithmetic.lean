import Mathlib.Control.Basic
import Atomicles.Emulator.Ia32emu

/-!
# What the arithmetic instructions leave in the registers

A command line names a destination and a source among the general registers
and gives one instruction.  The scratch operand is zero when the instruction
starts, which decides what the emulator computes.
-/

namespace Atomicles.Emulator

/-! ## Command lines -/

/-- The 32-bit general registers of the emulator. -/
inductive Gpr where
  | eax | ebx | ecx | edx
deriving DecidableEq, Repr

namespace Gpr

def cell : Gpr → Cell
  | .eax => .eax
  | .ebx => .ebx
  | .ecx => .ecx
  | .edx => .edx

def name : Gpr → String
  | .eax => "eax"
  | .ebx => "ebx"
  | .ecx => "ecx"
  | .edx => "edx"

def id : Gpr → Dword
  | .eax => REG32_GPR_EAX
  | .ebx => REG32_GPR_EBX
  | .ecx => REG32_GPR_ECX
  | .edx => REG32_GPR_EDX

theorem cell_injective : Function.Injective cell := by
  intro first second same
  cases first <;> cases second <;> cases same <;> rfl

@[simp]
theorem cell_eq_iff {first second : Gpr} :
    first.cell = second.cell ↔ first = second :=
  cell_injective.eq_iff

@[simp]
theorem cell_ne_buffer (gpr : Gpr) : gpr.cell ≠ .buffer := by
  cases gpr <;> decide

@[simp]
theorem cell_ne_eflags (gpr : Gpr) : gpr.cell ≠ .eflags := by
  cases gpr <;> decide

/-- `registers$register_by_name` finds every general register. -/
theorem registerByName_name (gpr : Gpr) (memory : Memory) :
    registerByName gpr.name memory =
      some (gpr.cell, memory.setId gpr.cell gpr.id) := by
  have found : idOfName gpr.name = some gpr.id := by
    cases gpr <;> decide
  have slot : REGISTERS.lookup gpr.id = some gpr.cell := by
    cases gpr <;> decide
  simp [registerByName, register, found, slot]

end Gpr

/-- One part of a command line: `-d` or `-s`, `-r` with a register, and any
number of `-v` for it. -/
structure Naming where
  operand : Operand
  gpr : Gpr
  values : List String

namespace Naming

/-- The option that selects the operand. -/
def selection (naming : Naming) : EmulatorOption :=
  match naming.operand with
  | .DST => .dst
  | .SRC => .src

/-- The options of one part. -/
def options (naming : Naming) : List EmulatorOption :=
  naming.selection ::
    .register naming.gpr.name :: naming.values.map .value

/-- The register that is chosen for each operand after one part. -/
def choose (chosen : Operand → Option Gpr) (naming : Naming) :
    Operand → Option Gpr :=
  Function.update chosen naming.operand (some naming.gpr)

end Naming

/-- The register that is named for each operand at last. -/
def named (namings : List Naming) : Operand → Option Gpr :=
  namings.foldl Naming.choose fun _ => none

/-- The general registers of a state. -/
def State.gprs (state : State) (gpr : Gpr) : Dword :=
  state.memory.cells gpr.cell

/-! ## The option loop -/

/-- What the option loop keeps: no error, the operands point to the registers
named for them, and the scratch operand is still zero. -/
structure Ready (chosen : Operand → Option Gpr) (state : State) : Prop where
  e : state.e = 0
  help : state.help = false
  operands : ∀ operand, state.operands operand = (chosen operand).map Gpr.cell
  registers : ∀ operand, state.registers operand = (chosen operand).map Gpr.cell
  ids : ∀ gpr : Gpr, state.memory.ids gpr.cell = gpr.id
  buffer : state.memory.cells .buffer = 0

/-- The options that follow are for one operand. -/
structure Selected (operand : Operand) (state : State) : Prop where
  target : state.target = operand
  operandPtr : state.operandPtr = some operand

theorem ready_start (words : Cell → Dword) :
    Ready (fun _ => none) (State.start words) := by
  constructor
  case ids =>
    intro gpr
    cases gpr <;> rfl
  all_goals simp [State.start, initRegisters]

/-- Every general register is one of 32 bits. -/
theorem Ready.size {chosen : Operand → Option Gpr} {state : State}
    (ready : Ready chosen state) (gpr : Gpr) :
    registerSize state.memory gpr.cell = 32 := by
  simp only [registerSize, ready.ids]
  cases gpr <;> decide

/-- `-d` or `-s`, and the register after it. -/
theorem Ready.select {chosen : Operand → Option Gpr} {state : State}
    (ready : Ready chosen state) (stack : Dword) (naming : Naming) :
    ∃ next,
      (do
        let selected ← optionStep stack state naming.selection
        optionStep stack selected (.register naming.gpr.name)) = some next ∧
      Ready
        (Function.update chosen naming.operand (some naming.gpr)) next ∧
      Selected naming.operand next := by
  rcases naming with ⟨operand, gpr, values⟩
  let next : State :=
    { state with
      target := operand
      operandPtr := some operand
      memory := state.memory.setId gpr.cell gpr.id
      operands := Function.update state.operands operand (some gpr.cell)
      registers := Function.update state.registers operand (some gpr.cell) }
  have reached :
      (do
        let selected ← optionStep stack state (Naming.mk operand gpr values).selection
        optionStep stack selected (.register gpr.name)) = some next := by
    cases operand <;>
      simp [Naming.selection, optionStep, Gpr.registerByName_name, next]
  have follows :
      ∀ (pointers : Operand → Option Cell),
        (∀ other, pointers other = (chosen other).map Gpr.cell) →
          ∀ other,
            Function.update pointers operand (some gpr.cell) other =
              (Function.update chosen operand (some gpr) other).map
                Gpr.cell := by
    intro pointers before other
    by_cases same : other = operand
    · subst same
      simp
    · simp only [Function.update_of_ne same, before]
  refine ⟨next, reached, ?_, ⟨rfl, rfl⟩⟩
  constructor
  case e => exact ready.e
  case help => exact ready.help
  case operands => exact follows _ ready.operands
  case registers => exact follows _ ready.registers
  case buffer => exact ready.buffer
  case ids =>
    intro other
    by_cases same : other = gpr
    · subst same
      simp [next, Memory.setId]
    · simp [next, Memory.setId, same, ready.ids]

/-- The value of `-v` goes to the selected register, whatever the text is. -/
theorem Ready.value {chosen : Operand → Option Gpr} {state : State}
    (ready : Ready chosen state) (stack : Dword) {operand : Operand}
    {gpr : Gpr} (selected : Selected operand state)
    (chosen_operand : chosen operand = some gpr) (text : String) :
    ∃ next,
      optionStep stack state (.value text) = some next ∧
        Ready chosen next ∧ Selected operand next := by
  have pointer : state.operands operand = some gpr.cell := by
    simp [ready.operands, chosen_operand]
  have register : state.registers operand = some gpr.cell := by
    simp [ready.registers, chosen_operand]
  have kept : ∀ word,
      Ready chosen
        { state with memory := state.memory.set gpr.cell word } := by
    intro word
    constructor
    case e => exact ready.e
    case help => exact ready.help
    case operands => exact ready.operands
    case registers => exact ready.registers
    case ids => exact ready.ids
    case buffer =>
      have other : Cell.buffer ≠ gpr.cell := (gpr.cell_ne_buffer).symm
      simp [Memory.set, other, ready.buffer]
  have stored : ∃ word,
      optionStep stack state (.value text) =
        some { state with memory := state.memory.set gpr.cell word } := by
    simp only [optionStep, valueOption, selected.operandPtr, selected.target,
      Option.bind_eq_bind, Option.bind_some, pointer, register, ready.size]
    by_cases reset : text = "RST"
    · exact ⟨stack, by simp [reset]⟩
    · -- No word is larger than the `pow(2, size)` of a 32-bit register.
      have fits : ∀ word : Dword, word.toNat ≤ 2 ^ 32 :=
        fun word => Nat.le_of_lt word.isLt
      exact ⟨_, by simp only [ne_eq, reset, not_false_eq_true, if_true, fits]; rfl⟩
  rcases stored with ⟨word, stored⟩
  exact ⟨_, stored, kept word, ⟨selected.target, selected.operandPtr⟩⟩

/-- Any number of `-v`. -/
theorem Ready.values {chosen : Operand → Option Gpr} {state : State}
    (ready : Ready chosen state) (stack : Dword) {operand : Operand}
    {gpr : Gpr} (selected : Selected operand state)
    (chosen_operand : chosen operand = some gpr) (texts : List String) :
    ∃ next,
      (texts.map EmulatorOption.value).foldlM (optionStep stack) state =
          some next ∧
        Ready chosen next := by
  induction texts generalizing state with
  | nil => exact ⟨state, rfl, ready⟩
  | cons text texts ih =>
      rcases ready.value stack selected chosen_operand text with
        ⟨middle, step, ready, selected⟩
      rcases ih ready selected with ⟨next, rest, ready⟩
      exact ⟨next, by simp [step, rest], ready⟩

/-- One part of the command line. -/
theorem Ready.naming {chosen : Operand → Option Gpr} {state : State}
    (ready : Ready chosen state) (stack : Dword) (naming : Naming) :
    ∃ next,
      naming.options.foldlM (optionStep stack) state = some next ∧
        Ready
          (Function.update chosen naming.operand (some naming.gpr)) next := by
  rcases ready.select stack naming with ⟨middle, selection, ready, selected⟩
  have is_chosen :
      Function.update chosen naming.operand (some naming.gpr) naming.operand =
        some naming.gpr :=
    Function.update_self ..
  rcases ready.values stack selected is_chosen naming.values with
    ⟨next, values, ready⟩
  refine ⟨next, ?_, ready⟩
  rw [← values]
  simp only [Naming.options, List.foldlM_cons]
  rw [← bind_assoc, selection]
  rfl

/-- The option loop on a command line. -/
theorem Ready.namings {chosen : Operand → Option Gpr} {state : State}
    (ready : Ready chosen state) (stack : Dword) (namings : List Naming) :
    ∃ next,
      (namings.flatMap Naming.options).foldlM (optionStep stack) state =
          some next ∧
        Ready (namings.foldl Naming.choose chosen) next := by
  induction namings generalizing chosen state with
  | nil => exact ⟨state, rfl, ready⟩
  | cons naming namings ih =>
      rcases ready.naming stack naming with ⟨middle, first, ready⟩
      rcases ih ready with ⟨next, rest, ready⟩
      refine ⟨next, ?_, ready⟩
      simp [first, rest]

/-! ## The instructions -/

/-- The instructions that compute on two operands. -/
inductive Instruction where
  | MOV | ADD | SUB | AND | OR | XOR | TEST | CMP
deriving DecidableEq, Repr

namespace Instruction

def opcode : Instruction → Opcode
  | .MOV => .MOV
  | .ADD => .ADD
  | .SUB => .SUB
  | .AND => .AND
  | .OR => .OR
  | .XOR => .XOR
  | .TEST => .TEST
  | .CMP => .CMP

def text : Instruction → String
  | .MOV => "MOV"
  | .ADD => "ADD"
  | .SUB => "SUB"
  | .AND => "AND"
  | .OR => "OR"
  | .XOR => "XOR"
  | .TEST => "TEST"
  | .CMP => "CMP"

/-- The result that IA-32 gives the destination, from the values of the
destination and the source; `TEST` and `CMP` give it none. -/
def result : Instruction → Option (Dword → Dword → Dword)
  | .MOV => some fun _ src => src
  | .ADD => some fun dst src => dst + src
  | .SUB => some fun dst src => dst - src
  | .AND => some fun dst src => dst &&& src
  | .OR => some fun dst src => dst ||| src
  | .XOR => some fun dst src => dst ^^^ src
  | .TEST => none
  | .CMP => none

/-- What the emulator gives the destination: four instructions compute with
the scratch operand, which is zero, in place of the destination. -/
def computed : Instruction → Option (Dword → Dword → Dword)
  | .MOV => some fun _ src => src
  | .ADD => some fun _ src => 0 + src
  | .SUB => some fun _ src => 0 - src
  | .AND => some fun dst src => dst &&& src
  | .OR => some fun _ src => 0 ||| src
  | .XOR => some fun _ src => 0 ^^^ src
  | .TEST => none
  | .CMP => none

/-- The general registers after an instruction that gives its destination
such a result. -/
def applied (result : Option (Dword → Dword → Dword)) (dst src : Gpr)
    (gprs : Gpr → Dword) : Gpr → Dword :=
  match result with
  | some result => Function.update gprs dst (result (gprs dst) (gprs src))
  | none => gprs

/-- The word that the emulator leaves in the destination. -/
def left (instruction : Instruction) (dst src : Dword) : Dword :=
  match instruction.computed with
  | some compute => compute dst src
  | none => dst

theorem applied_computed (instruction : Instruction) (dst src : Gpr)
    (gprs : Gpr → Dword) :
    applied instruction.computed dst src gprs =
      Function.update gprs dst (instruction.left (gprs dst) (gprs src)) := by
  unfold applied left
  cases instruction.computed with
  | none => exact (Function.update_eq_self dst gprs).symm
  | some compute => rfl

/-- The operands on which an instruction gives the result of IA-32. -/
def Right : Instruction → (dst src : Dword) → Prop
  | .ADD, dst, _ => dst = 0
  | .SUB, dst, _ => dst = 0
  | .XOR, dst, _ => dst = 0
  | .OR, dst, src => dst ||| src = src
  | _, _, _ => True

/-- On which operands the emulator's result is that of IA-32. -/
theorem applied_computed_iff (instruction : Instruction) (dst src : Gpr)
    (gprs : Gpr → Dword) :
    applied instruction.computed dst src gprs =
        applied instruction.result dst src gprs ↔
      instruction.Right (gprs dst) (gprs src) := by
  have updated : ∀ first second : Dword,
      Function.update gprs dst first = Function.update gprs dst second ↔
        first = second :=
    fun first second => (Function.update_injective gprs dst).eq_iff
  cases instruction
  case ADD =>
    simp only [applied, computed, result, updated, Right]
    rw [BitVec.add_left_inj, eq_comm]
  case SUB =>
    simp only [applied, computed, result, updated, Right]
    rw [BitVec.sub_left_inj, eq_comm]
  case XOR =>
    simp only [applied, computed, result, updated, Right]
    rw [BitVec.xor_left_inj, eq_comm]
  case OR =>
    simp only [applied, computed, result, updated, Right]
    rw [eq_comm, BitVec.or_comm 0, show gprs src ||| 0 = gprs src from BitVec.or_zero]
  all_goals simp [applied, computed, result, Right]

end Instruction

/-- The cases of the switch that compute with the scratch operand, from a
state in which it is zero. -/
theorem arithmetic_gprs {state : State} {instruction : Instruction}
    (accepted : checkOperands instruction.opcode state = some true)
    {dst : Gpr} {src : Cell} (dst_cell : state.operands .DST = some dst.cell)
    (src_cell : state.operands .SRC = some src)
    (buffer : state.memory.cells .buffer = 0) (commits : Bool)
    (compute : (buffer dst src : Dword) → Dword) :
    ∃ after,
      arithmetic instruction.opcode commits compute state = some after ∧
        after.gprs =
          Function.update state.gprs dst
            (if commits then
              compute 0 (state.gprs dst) (state.memory.cells src)
            else state.gprs dst) := by
  refine ⟨_, by simp only [arithmetic, accepted, dst_cell, src_cell]; rfl, ?_⟩
  funext gpr
  cases commits with
  | false =>
      by_cases same : gpr = dst
      · subst same
        simp [State.gprs, Memory.set, setEFLAGS]
      · simp [State.gprs, Memory.set, setEFLAGS, same]
  | true =>
      by_cases same : gpr = dst
      · subst same
        simp [State.gprs, Memory.set, setEFLAGS, commit, buffer]
      · simp [State.gprs, Memory.set, setEFLAGS, commit, same]

/-- The switch on the instructions that compute on two operands, where these
are accepted. -/
theorem execute_left {state : State} {instruction : Instruction}
    (accepted : checkOperands instruction.opcode state = some true)
    {dst : Gpr} {src : Cell} (dst_cell : state.operands .DST = some dst.cell)
    (src_cell : state.operands .SRC = some src)
    (buffer : state.memory.cells .buffer = 0) (count : Dword) :
    ∃ after,
      execute instruction.opcode count state = some after ∧
        after.gprs =
          Function.update state.gprs dst
            (instruction.left (state.gprs dst) (state.memory.cells src)) := by
  have computes := arithmetic_gprs accepted dst_cell src_cell buffer
  cases instruction with
  | MOV => exact computes true fun _ _ src => src
  | ADD => exact computes true fun buffer _ src => buffer + src
  | SUB => exact computes true fun buffer _ src => buffer - src
  | AND => exact computes true fun _ dst src => dst &&& src
  | OR => exact computes true fun buffer _ src => buffer ||| src
  | XOR => exact computes true fun buffer _ src => buffer ^^^ src
  | TEST => exact computes false fun _ dst src => dst &&& src
  | CMP => exact computes false fun buffer _ src => buffer - src

/-- On general registers of 32 bits they are. -/
theorem execute_gprs {chosen : Operand → Option Gpr} {state : State}
    (ready : Ready chosen state) {dst src : Gpr}
    (dst_chosen : chosen .DST = some dst) (src_chosen : chosen .SRC = some src)
    (instruction : Instruction) (count : Dword) :
    ∃ after,
      execute instruction.opcode count state = some after ∧
        after.gprs =
          Instruction.applied instruction.computed dst src state.gprs := by
  have dst_cell : state.operands .DST = some dst.cell := by
    simp [ready.operands, dst_chosen]
  have src_cell : state.operands .SRC = some src.cell := by
    simp [ready.operands, src_chosen]
  have accepted : checkOperands instruction.opcode state = some true := by
    cases instruction <;>
      simp [checkOperands, Instruction.opcode, dst_cell, src_cell,
        ready.registers, dst_chosen, src_chosen, ready.size]
  rw [instruction.applied_computed]
  exact execute_left accepted dst_cell src_cell ready.buffer count

/-- The instruction of the command line; `CMP` is not recognised. -/
theorem readInstruction_text {state : State} (e : state.e = 0)
    (instruction : Instruction) :
    readInstruction [instruction.text] state =
      if instruction = .CMP then ({ state with help := true, e := 1 }, .SAL, 1)
      else (state, instruction.opcode, 1) := by
  cases instruction <;>
    simp [readInstruction, Instruction.text, e, setInstruction,
      Instruction.opcode]

/-- A whole invocation: the option loop ends in a state `before`, and the
instruction then changes the general registers as `computed` says. -/
theorem main_gprs (stack : Dword) (words : Cell → Dword)
    (namings : List Naming) {dst src : Gpr}
    (dst_named : named namings .DST = some dst)
    (src_named : named namings .SRC = some src) (instruction : Instruction) :
    ∃ before after,
      (namings.flatMap Naming.options).foldlM (optionStep stack)
          (.start words) = some before ∧
        main stack (namings.flatMap Naming.options) [instruction.text] words =
          some after ∧
        after.gprs =
          Instruction.applied instruction.computed dst src before.gprs := by
  rcases (ready_start words).namings stack namings with
    ⟨before, options, ready⟩
  have entered :
      main stack (namings.flatMap Naming.options) [instruction.text] words =
        if instruction = .CMP then some { before with help := true, e := 1 }
        else execute instruction.opcode 1 before := by
    simp only [main, options, Option.bind_eq_bind, Option.bind_some,
      readInstruction_text ready.e]
    by_cases compare : instruction = .CMP
    · simp [compare]
    · simp [compare, ready.e, ready.help]
  by_cases compare : instruction = .CMP
  · subst compare
    rw [if_pos rfl] at entered
    exact ⟨before, _, options, entered, rfl⟩
  · rw [if_neg compare] at entered
    rcases execute_gprs ready dst_named src_named instruction 1 with
      ⟨after, ran, gprs⟩
    exact ⟨before, after, options, entered.trans ran, gprs⟩

/-! ## The results -/

/-- **ALU results.**  For every command line that names two general registers
and one of the eight instructions, whatever the registers hold: the emulator
leaves in the general registers what IA-32 prescribes exactly when the
destination's old value is indifferent to the result. -/
theorem main_computes_iff (stack : Dword) (words : Cell → Dword)
    (namings : List Naming) {dst src : Gpr}
    (dst_named : named namings .DST = some dst)
    (src_named : named namings .SRC = some src) (instruction : Instruction) :
    ∃ before after,
      (namings.flatMap Naming.options).foldlM (optionStep stack)
          (.start words) = some before ∧
        main stack (namings.flatMap Naming.options) [instruction.text] words =
          some after ∧
        (after.gprs =
            Instruction.applied instruction.result dst src before.gprs ↔
          instruction.Right (before.gprs dst) (before.gprs src)) := by
  rcases main_gprs stack words namings dst_named src_named instruction with
    ⟨before, after, options, ran, gprs⟩
  refine ⟨before, after, options, ran, ?_⟩
  rw [gprs]
  exact instruction.applied_computed_iff dst src before.gprs

/-- `ia32emu -d -r eax -v 0 -s -r eax -r ebx ADD`. -/
theorem main_computes_iff_add :
    ∃ before after,
      main 0
          [.dst, .register "eax", .value "0", .src, .register "eax",
            .src, .register "ebx"] ["ADD"] (fun _ => 7) = some after ∧
        (after.gprs =
            Instruction.applied Instruction.ADD.result .eax .ebx before ↔
          Instruction.ADD.Right (before .eax) (before .ebx)) := by
  have right := main_computes_iff 0 (fun _ => 7)
    [⟨.DST, .eax, ["0"]⟩, ⟨.SRC, .eax, []⟩, ⟨.SRC, .ebx, []⟩]
    (rfl : _ = some Gpr.eax) (rfl : _ = some Gpr.ebx) .ADD
  rcases right with ⟨before, after, -, ran, right⟩
  exact ⟨before.gprs, after, ran, right⟩

/-- `ADD` of 5 and 7 leaves 7. -/
theorem main_add_loses_destination :
    ∃ before after,
      [.dst, .register "eax", .src, .register "ebx"].foldlM (optionStep 0)
          (.start fun cell => if cell = .eax then 5 else 7) = some before ∧
        main 0 [.dst, .register "eax", .src, .register "ebx"] ["ADD"]
            (fun cell => if cell = .eax then 5 else 7) = some after ∧
          before.gprs .eax = 5 ∧ before.gprs .ebx = 7 ∧
          after.gprs .eax = 7 ∧
          after.gprs ≠
            Instruction.applied Instruction.ADD.result .eax .ebx
              before.gprs := by
  refine ⟨_, _, rfl, rfl, by decide, by decide, by decide, ?_⟩
  intro same
  have differs := congrFun same .eax
  revert differs
  decide

end Atomicles.Emulator
