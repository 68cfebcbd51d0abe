import Atomicles.Emulator.Branches

/-!
# Programs that are typed line by line

Each line runs the emulator once, on the registers that the line before it has
left: it puts a value into a register, computes, shifts or jumps.  A program
is executed as by IA-32 exactly where every line is right in the registers it
meets.
-/

namespace Atomicles.Emulator

/-! ## Lines -/

/-- A text that `strtoul` reads to its end. -/
structure Numeral where
  text : String
  ended : (strtoul text.toList).2 = []

/-- The number that a text denotes. -/
def Numeral.value (numeral : Numeral) : Nat :=
  (strtoul numeral.text.toList).1

theorem Numeral.text_ne (numeral : Numeral) : numeral.text ≠ "RST" := by
  intro reset
  have ended := numeral.ended
  rw [reset] at ended
  revert ended
  decide

/-- One command line of a program. -/
inductive Line where
  /-- `-d -r dst -v value`. -/
  | assign (dst : Gpr) (value : Numeral)
  /-- `-d -r dst -s -r src INSTRUCTION`. -/
  | compute (instruction : Instruction) (dst src : Gpr)
  /-- `-d -r dst SHIFT count`. -/
  | shift (operation : Shift) (dst : Gpr) (count : Numeral)
  /-- The jump alone. -/
  | jump (branch : Jump)
  /-- `JECXZ`. -/
  | jecxz

namespace Line

def options : Line → List EmulatorOption
  | .assign dst value => [.dst, .register dst.name, .value value.text]
  | .compute _ dst src =>
      [.dst, .register dst.name, .src, .register src.name]
  | .shift _ dst _ => [.dst, .register dst.name]
  | .jump _ => []
  | .jecxz => []

def arguments : Line → List String
  | .assign _ _ => []
  | .compute instruction _ _ => [instruction.text]
  | .shift operation _ count => [operation.text, count.text]
  | .jump branch => [branch.text]
  | .jecxz => ["JECXZ"]

/-- The call of the emulator, and what its stack holds. -/
def invocation (stack : Dword) (line : Line) : Invocation :=
  ⟨stack, line.options, line.arguments⟩

end Line

/-! ## What IA-32 does -/

/-- The registers that instructions work on. -/
structure Machine where
  gprs : Gpr → Dword
  eflags : Dword

/-- The registers of the emulator. -/
def State.machine (state : State) : Machine :=
  ⟨state.gprs, state.memory.cells .eflags⟩

namespace Line

/-- What IA-32 prescribes for a line: the registers after it, and whether it
jumps. -/
def Prescribes (line : Line) (before after : Machine) (taken : Bool) : Prop :=
  match line with
  | .assign dst value =>
      after.gprs =
          Function.update before.gprs dst (BitVec.ofNat 32 value.value) ∧
        after.eflags = before.eflags ∧ taken = false
  | .compute instruction dst src =>
      after.gprs =
          Instruction.applied instruction.result dst src before.gprs ∧
        statusOf after.eflags =
          instruction.status (statusOf before.eflags) (before.gprs dst)
            (before.gprs src) ∧
        taken = false
  | .shift operation dst count =>
      (∀ gpr, gpr ≠ dst → after.gprs gpr = before.gprs gpr) ∧
        operation.Prescribed (count.value % 32) (before.gprs dst) before.eflags
          (after.gprs dst) after.eflags ∧
        taken = false
  | .jump branch =>
      after = before ∧
        taken =
          (branch.condition.shows (statusOf before.eflags) ^^ branch.negated)
  | .jecxz => after = before ∧ taken = decide (before.gprs .ecx = 0)

/-- The registers in which the emulator does what IA-32 prescribes. -/
def Right (line : Line) (before : Machine) : Prop :=
  match line with
  | .assign _ _ => True
  | .compute instruction dst src =>
      instruction.Right (before.gprs dst) (before.gprs src) ∧
        instruction.FlagsRight (statusOf before.eflags) (before.gprs dst)
          (before.gprs src)
  | .shift operation dst count =>
      operation.Right (count.value % 32) (before.gprs dst)
        (statusOf before.eflags)
  | .jump _ => True
  | .jecxz => True

end Line

/-! ## The option loop -/

/-- The state after `-d` or `-s` and `-r` with a general register. -/
def State.pointed (state : State) (operand : Operand) (gpr : Gpr) : State :=
  { state with
    target := operand
    operandPtr := some operand
    memory := state.memory.setId gpr.cell gpr.id
    operands := Function.update state.operands operand (some gpr.cell)
    registers := Function.update state.registers operand (some gpr.cell) }

section Options

variable {stack : Dword} {state : State} {gpr : Gpr}

theorem dst_options (rest : List EmulatorOption) :
    (.dst :: .register gpr.name :: rest).foldlM (optionStep stack) state =
      rest.foldlM (optionStep stack) (state.pointed .DST gpr) := by
  simp [optionStep, Gpr.registerByName_name, State.pointed]

theorem src_options (rest : List EmulatorOption) :
    (.src :: .register gpr.name :: rest).foldlM (optionStep stack) state =
      rest.foldlM (optionStep stack) (state.pointed .SRC gpr) := by
  simp [optionStep, Gpr.registerByName_name, State.pointed]

/-- A register that is named for an operand. -/
theorem Ready.pointed {chosen : Operand → Option Gpr}
    (ready : Ready chosen state) (operand : Operand) :
    Ready (Function.update chosen operand (some gpr))
      (state.pointed operand gpr) := by
  rcases ready.select 0 ⟨operand, gpr, []⟩ with ⟨next, selected, ready, _⟩
  have same : some (state.pointed operand gpr) = some next := by
    rw [← selected]
    cases operand <;>
      simp [Naming.selection, optionStep, Gpr.registerByName_name,
        State.pointed]
  rwa [Option.some.inj same]

end Options

/-! ## No jump -/

theorem arithmetic_still {opcode : Opcode} (commits : Bool)
    (compute : (buffer dst src : Dword) → Dword) {state after : State}
    (ran : arithmetic opcode commits compute state = some after) :
    after.jump = state.jump := by
  rcases arithmetic_cases ran with ⟨_, rfl⟩ | ⟨_, dst, src, _, _, rfl⟩
  · rfl
  · rfl

theorem Instruction.still {instruction : Instruction} {count : Dword}
    {state after : State}
    (ran : execute instruction.opcode count state = some after) :
    after.jump = state.jump := by
  cases instruction with
  | MOV => exact arithmetic_still true (fun _ _ src => src) ran
  | ADD => exact arithmetic_still true (fun buffer _ src => buffer + src) ran
  | SUB => exact arithmetic_still true (fun buffer _ src => buffer - src) ran
  | AND => exact arithmetic_still true (fun _ dst src => dst &&& src) ran
  | OR => exact arithmetic_still true (fun buffer _ src => buffer ||| src) ran
  | XOR => exact arithmetic_still true (fun buffer _ src => buffer ^^^ src) ran
  | TEST => exact arithmetic_still false (fun _ dst src => dst &&& src) ran
  | CMP => exact arithmetic_still false (fun buffer _ src => buffer - src) ran

theorem Shift.still {shift : Shift} {count : Dword} {state after : State}
    (ran : execute shift.opcode count state = some after) :
    after.jump = state.jump := by
  have fromCase : shiftCase shift.opcode count state = some after := by
    cases shift <;> exact ran
  rcases Option.bind_eq_some_iff.mp fromCase with ⟨allowed, _, rest⟩
  cases allowed with
  | false =>
      cases rest
      rfl
  | true =>
      rw [if_pos rfl] at rest
      rcases Option.bind_eq_some_iff.mp rest with ⟨dst, _, rest⟩
      cases rest
      rfl

/-! ## One line -/

/-- A line runs to its end, leaves the reserved bits as they were, and does
what IA-32 prescribes exactly where it is right. -/
def Line.Works (line : Line) (stack : Dword) (words : Cell → Dword) : Prop :=
  ∃ after, (line.invocation stack).run words = some after ∧
    Canonical (after.memory.cells .eflags) ∧
    (line.Prescribes (State.start words).machine after.machine after.jump ↔
      line.Right (State.start words).machine)

/-- An instruction whose destination is not `eflags` keeps the reserved
bits. -/
theorem canonical_execute {opcode : Opcode} {count : Dword}
    {state after : State} (loaded : Loaded state)
    (canonical : Canonical (state.memory.cells .eflags))
    (elsewhere : state.operands .DST ≠ some .eflags)
    (ran : execute opcode count state = some after) :
    Canonical (after.memory.cells .eflags) := by
  have same := sameReserved_execute loaded ran
  rw [committed_eq_none (Or.inl elsewhere), Option.getD_none] at same
  exact same.canonical_iff.mpr canonical

theorem cell_elsewhere {state : State} {dst : Gpr}
    (pointed : state.operands .DST = some dst.cell) :
    state.operands .DST ≠ some .eflags := by
  rw [pointed]
  intro same
  exact dst.cell_ne_eflags (Option.some.inj same)

section Lines

variable (stack : Dword) (words : Cell → Dword)

/-- A line with two operands. -/
theorem compute_works (instruction : Instruction) (dst src : Gpr) :
    (Line.compute instruction dst src).Works stack words := by
  let before := ((State.start words).pointed .DST dst).pointed .SRC src
  have loop : (Line.compute instruction dst src).options.foldlM
      (optionStep stack) (.start words) = some before := by
    rw [Line.options, dst_options, src_options]
    rfl
  let chosen : Operand → Option Gpr :=
    Function.update (Function.update (fun _ => none) .DST (some dst)) .SRC
      (some src)
  have dst_chosen : chosen .DST = some dst := rfl
  have src_chosen : chosen .SRC = some src := rfl
  have ready : Ready chosen before :=
    ((ready_start words).pointed .DST).pointed .SRC
  have prepared : Prepared before dst src.cell := by
    refine ⟨ready.e, ready.help, ?_, ?_, ⟨dst.cell, ?_, ready.size dst⟩,
      ⟨src.cell, ?_, ready.size src⟩⟩
    · rw [ready.operands, dst_chosen, Option.map_some]
    · rw [ready.operands, src_chosen, Option.map_some]
    · rw [ready.registers, dst_chosen, Option.map_some]
    · rw [ready.registers, src_chosen, Option.map_some]
  rcases main_status loop prepared instruction with ⟨after, ran, status⟩
  have computed : after.gprs =
      Instruction.applied instruction.computed dst src before.gprs ∧
        after.jump = false ∧ Canonical (after.memory.cells .eflags) := by
    have read := readInstruction_text prepared.e instruction
    by_cases compare : instruction = .CMP
    · subst compare
      rw [if_pos rfl] at read
      have quits : main stack (Line.compute .CMP dst src).options
          [Instruction.CMP.text] words =
            some { before with help := true, e := 1 } := by
        simp [main, loop, read]
      rw [ran] at quits
      cases quits
      exact ⟨rfl, rfl, canonical_initRegisters words⟩
    · rw [if_neg compare] at read
      rw [main_executes loop prepared.e prepared.help read] at ran
      rcases execute_gprs ready dst_chosen src_chosen instruction 1 with
        ⟨other, executed, gprs⟩
      rw [ran] at executed
      cases executed
      exact ⟨gprs, Instruction.still ran, canonical_execute
        (loaded_options loop) (canonical_initRegisters words)
        (cell_elsewhere prepared.dst) ran⟩
  rcases computed with ⟨gprs, still, canonical⟩
  refine ⟨after, ran, canonical, ?_⟩
  have flags := instruction.leaves_eq_status_iff before.status
    (before.gprs dst) (before.memory.cells src.cell)
  rw [← status] at flags
  simp only [Line.Prescribes, Line.Right, State.machine, gprs, still, and_true]
  exact and_congr (instruction.applied_computed_iff dst src before.gprs) flags

/-- A shift. -/
theorem shift_works (operation : Shift) (dst : Gpr) (count : Numeral) :
    (Line.shift operation dst count).Works stack words := by
  let before := (State.start words).pointed .DST dst
  have loop : (Line.shift operation dst count).options.foldlM
      (optionStep stack) (.start words) = some before := by
    rw [Line.options, dst_options]
    rfl
  have ready : Ready (Function.update (fun _ => none) .DST (some dst))
      before :=
    (ready_start words).pointed .DST
  have pointed : before.operands .DST = some dst.cell := rfl
  have read := readInstruction_shift ready.e operation count.ended
  rcases shiftCase_leaves pointed operation _ (masked_count count.value) with
    ⟨after, executed, gprs, status, unchanged⟩
  have ran := (main_executes loop ready.e ready.help read).trans executed
  refine ⟨after, ran, canonical_execute (loaded_options loop)
    (canonical_initRegisters words) (cell_elsewhere pointed) executed, ?_⟩
  have masked : count.value % 32 < 32 := Nat.mod_lt _ (by decide)
  have value : after.gprs dst =
      (before.gprs dst).sshiftRight (count.value % 32) := by
    rw [gprs, Function.update_self]
  have others : ∀ gpr, gpr ≠ dst → after.gprs gpr = before.gprs gpr := by
    intro gpr other
    rw [gprs, Function.update_of_ne other]
  have right := operation.prescribed_iff masked value status unchanged
  constructor
  · rintro ⟨_, prescribed, _⟩
    exact right.mp prescribed
  · intro isRight
    exact ⟨others, right.mpr isRight, Shift.still executed⟩

/-- A line that gives a register a value. -/
theorem assign_works (dst : Gpr) (value : Numeral) :
    (Line.assign dst value).Works stack words := by
  let before := (State.start words).pointed .DST dst
  have ready : Ready (Function.update (fun _ => none) .DST (some dst))
      before :=
    (ready_start words).pointed .DST
  let word := BitVec.ofNat 32 value.value
  let stored : State :=
    { before with memory := before.memory.set dst.cell word }
  have fits : word.toNat ≤ 2 ^ 32 := Nat.le_of_lt word.isLt
  have step : optionStep stack before (.value value.text) = some stored := by
    have target : before.target = .DST := rfl
    have operandPtr : before.operandPtr = some .DST := rfl
    have pointed : before.operands .DST = some dst.cell := rfl
    have register : before.registers .DST = some dst.cell := rfl
    simp only [optionStep, valueOption, operandPtr, target, pointed, register,
      Option.bind_eq_bind, Option.bind_some, ready.size, ne_eq,
      value.text_ne, not_false_eq_true, if_true, value.ended]
    exact if_pos fits
  have loop : (Line.assign dst value).options.foldlM (optionStep stack)
      (.start words) = some stored := by
    rw [Line.options, dst_options, List.foldlM_cons]
    change (optionStep stack before (.value value.text)).bind _ = _
    rw [step]
    rfl
  have ran : ((Line.assign dst value).invocation stack).run words =
      some { stored with e := 1 } := by
    change main stack (Line.assign dst value).options [] words = _
    simp only [main, loop, Option.bind_eq_bind, Option.bind_some,
      readInstruction]
    rfl
  have eflags : stored.memory.cells .eflags =
      (State.start words).memory.cells .eflags := by
    have other : Cell.eflags ≠ dst.cell := dst.cell_ne_eflags.symm
    simp only [stored, Memory.set, Function.update_of_ne other]
    rfl
  refine ⟨_, ran, ?_, ?_⟩
  · change Canonical (stored.memory.cells .eflags)
    rw [eflags]
    exact canonical_initRegisters words
  · refine iff_of_true ⟨?_, eflags, rfl⟩ trivial
    funext gpr
    by_cases same : gpr = dst
    · subst same
      simp [State.machine, State.gprs, stored, Memory.set, word]
    · have other : gpr.cell ≠ dst.cell := by
        rwa [ne_eq, Gpr.cell_eq_iff]
      simp [State.machine, State.gprs, stored, Memory.set, same, before,
        State.pointed, Memory.setId]

/-- A jump. -/
theorem jump_works (branch : Jump) : (Line.jump branch).Works stack words := by
  refine ⟨_, main_jump stack words branch, canonical_initRegisters words, ?_⟩
  simp only [Line.Prescribes, Line.Right, iff_true]
  exact ⟨rfl, rfl⟩

theorem jecxz_works : Line.jecxz.Works stack words := by
  refine ⟨_, rfl, canonical_initRegisters words, ?_⟩
  simp only [Line.Prescribes, Line.Right, iff_true]
  exact ⟨rfl, rfl⟩

theorem Line.works (line : Line) : line.Works stack words := by
  cases line with
  | assign dst value => exact assign_works stack words dst value
  | compute instruction dst src =>
      exact compute_works stack words instruction dst src
  | shift operation dst count =>
      exact shift_works stack words operation dst count
  | jump branch => exact jump_works stack words branch
  | jecxz => exact jecxz_works stack words

end Lines

/-! ## Whole programs -/

/-- The states in which invocations end that follow one another. -/
def session : (Cell → Dword) → List Invocation → Option (List State)
  | _, [] => some []
  | words, invocation :: rest => do
      let after ← invocation.run words
      let later ← session (deleteRegisters after.memory words) rest
      return after :: later

/-- The registers and the jumps are those that IA-32 prescribes, line by
line. -/
def Executes : List Line → Machine → List State → Prop
  | [], _, [] => True
  | line :: lines, before, after :: states =>
      line.Prescribes before after.machine after.jump ∧
        Executes lines after.machine states
  | _, _, _ => False

/-- Every line is right in the registers that it meets. -/
def AllRight : List Line → Machine → List State → Prop
  | line :: lines, before, after :: states =>
      line.Right before ∧ AllRight lines after.machine states
  | _, _, _ => True

/-- The next invocation works on the registers that were left. -/
theorem machine_started {memory : Memory} (words : Cell → Dword)
    (canonical : Canonical (memory.cells .eflags)) :
    (State.start (deleteRegisters memory words)).machine =
      ⟨fun gpr => memory.cells gpr.cell, memory.cells .eflags⟩ := by
  have persists := (persists_iff words).mpr canonical
  rw [State.machine, Machine.mk.injEq]
  exact ⟨funext persists.gprs, persists.eflags⟩

/--
A program of any length, from any registers: all its lines run to their ends,
and what they do is what IA-32 prescribes exactly where every line is right in
the registers that the lines before it have left.
-/
theorem executes_iff (program : List (Dword × Line)) (words : Cell → Dword) :
    ∃ states,
      session words
          (program.map fun entry => entry.2.invocation entry.1) =
        some states ∧
      (Executes (program.map Prod.snd) (State.start words).machine states ↔
        AllRight (program.map Prod.snd) (State.start words).machine
          states) := by
  induction program generalizing words with
  | nil => exact ⟨[], rfl, Iff.rfl⟩
  | cons entry program ih =>
      rcases entry.2.works entry.1 words with ⟨after, ran, canonical, right⟩
      rcases ih (deleteRegisters after.memory words) with
        ⟨states, later, rest⟩
      rw [machine_started words canonical] at rest
      refine ⟨after :: states, ?_, and_congr right rest⟩
      simp only [List.map_cons, session, ran, Option.bind_eq_bind,
        Option.bind_some, later]
      rfl

end Atomicles.Emulator
