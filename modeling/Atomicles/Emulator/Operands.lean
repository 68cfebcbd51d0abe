import Mathlib.Control.Basic
import Atomicles.Emulator.Arithmetic

/-!
# What the option loop does, whatever the options are

An option reports something, selects an operand, makes it the immediate
value, makes it a register, or stores a value in it.  Whatever the order of
the options, no operand points to the scratch cell, which is therefore still
zero when the instruction starts.
-/

namespace Atomicles.Emulator

/-! ## One option -/

/-- What one option makes of a state. -/
inductive Change (state : State) : State → Prop where
  | reported (help : Bool) (e : Int) : Change state { state with help, e }
  | selected (operand : Operand) :
      Change state
        { state with target := operand, operandPtr := some operand }
  | immediate (operand : Operand) :
      state.target = .SRC → state.operandPtr = some operand →
        Change state
          { state with
            operands :=
              Function.update state.operands operand (some .immediate) }
  | register (operand : Operand) (cell : Cell) (id : Dword) :
      state.operandPtr = some operand → REGISTERS.lookup id = some cell →
        Change state
          { state with
            memory := state.memory.setId cell id
            operands := Function.update state.operands operand (some cell)
            registers :=
              Function.update state.registers state.target (some cell) }
  | value (operand : Operand) (cell : Cell) (word : Dword) (e : Int) :
      state.operandPtr = some operand →
        state.operands operand = some cell →
          Change state { state with memory := state.memory.set cell word, e }

/-- `registers$register_by_name` finds a slot of the table. -/
theorem registerByName_slot {name : String} {memory : Memory}
    {found : Cell × Memory} (named : registerByName name memory = some found) :
    ∃ id, REGISTERS.lookup id = some found.1 ∧
      found.2 = memory.setId found.1 id := by
  unfold registerByName at named
  rcases Option.bind_eq_some_iff.mp named with ⟨id, -, registered⟩
  unfold register at registered
  rcases Option.map_eq_some_iff.mp registered with ⟨cell, slot, rfl⟩
  exact ⟨id, slot, rfl⟩

/-- The word that `-v` stores under the name of a register. -/
def storedWord (text : String) (size : Nat) : Dword :=
  let (value, rest) := strtoul text.toList
  if (BitVec.ofNat 32 value).toNat ≤ 2 ^ size ∧ rest ≠ [] then
    readHex text.toList 0
  else BitVec.ofNat 32 value

/-- `-v` stores a word in the selected operand. -/
theorem valueOption_cases {stack : Dword} {text : String} {state next : State}
    (step : valueOption stack text state = some next) :
    ∃ operand, state.operandPtr = some operand ∧
      ((state.operands operand = none ∧ next = { state with e := 1 }) ∨
        ∃ cell, state.operands operand = some cell ∧
          ((text = "RST" ∧
              next =
                { state with
                  memory := state.memory.set cell
                    (if cell = .eflags then EFLAGS_RESET else stack) }) ∨
            (text ≠ "RST" ∧ ∃ register e,
              state.registers state.target = some register ∧
              next =
                { state with
                  e
                  memory := state.memory.set cell
                    (storedWord text
                      (registerSize state.memory register)) }))) := by
  unfold valueOption at step
  rcases Option.bind_eq_some_iff.mp step with ⟨operand, pointer, step⟩
  refine ⟨operand, pointer, ?_⟩
  cases pointed : state.operands operand with
  | none =>
      rw [pointed] at step
      exact .inl ⟨rfl, (Option.some.inj step).symm⟩
  | some cell =>
      rw [pointed] at step
      refine .inr ⟨cell, rfl, ?_⟩
      by_cases reset : text = "RST"
      · left
        refine ⟨reset, ?_⟩
        by_cases flags : cell = .eflags
        · simp only [reset, ne_eq, not_true_eq_false, if_false, flags,
            if_true] at step
          simpa [flags] using step.symm
        · simp only [reset, ne_eq, not_true_eq_false, if_false, flags] at step
          simpa [flags] using step.symm
      · right
        refine ⟨reset, ?_⟩
        simp only [ne_eq, reset, not_false_eq_true, if_true] at step
        rcases Option.bind_eq_some_iff.mp step with ⟨register, found, step⟩
        by_cases fits :
            (BitVec.ofNat 32 (strtoul text.toList).1).toNat ≤
              2 ^ registerSize state.memory register
        · refine ⟨register, state.e, found, ?_⟩
          simp only [fits, if_true] at step
          by_cases ended : (strtoul text.toList).2 = []
          · have stored :
                storedWord text (registerSize state.memory register) =
                  BitVec.ofNat 32 (strtoul text.toList).1 :=
              if_neg fun both => both.2 ended
            simpa [stored, ended] using step.symm
          · have stored :
                storedWord text (registerSize state.memory register) =
                  readHex text.toList 0 :=
              if_pos ⟨fits, ended⟩
            simpa [stored, ended] using step.symm
        · refine ⟨register, 1, found, ?_⟩
          simp only [fits, if_false] at step
          have stored :
              storedWord text (registerSize state.memory register) =
                BitVec.ofNat 32 (strtoul text.toList).1 :=
            if_neg fun both => fits both.1
          simpa [stored] using step.symm

/-- Every option makes one of the changes. -/
theorem change_of_optionStep {stack : Dword} {state next : State}
    {option : EmulatorOption}
    (step : optionStep stack state option = some next) : Change state next := by
  cases option with
  | help =>
      cases step
      exact .reported true state.e
  | unknown =>
      cases step
      exact .reported state.help 1
  | dst =>
      cases step
      exact .selected .DST
  | src =>
      cases step
      exact .selected .SRC
  | immediate =>
      simp only [optionStep] at step
      by_cases source : state.target = .SRC
      · rw [if_pos source] at step
        rcases Option.map_eq_some_iff.mp step with ⟨operand, pointer, rfl⟩
        exact .immediate operand source pointer
      · rw [if_neg source] at step
        cases step
        exact .reported state.help 1
  | register name =>
      simp only [optionStep] at step
      cases pointer : state.operandPtr with
      | none =>
          rw [pointer] at step
          cases step
          have reported := @Change.reported state state.help 1
          rw [pointer] at reported
          exact reported
      | some operand =>
          rw [pointer] at step
          rcases Option.map_eq_some_iff.mp step with ⟨found, named, rfl⟩
          rcases registerByName_slot named with ⟨id, slot, memory⟩
          have changed := @Change.register state operand found.1 id pointer slot
          rw [memory]
          rw [pointer] at changed
          exact changed
  | value text =>
      rcases valueOption_cases step with ⟨operand, pointer, kinds⟩
      rcases kinds with ⟨-, rfl⟩ | ⟨cell, pointed, kinds⟩
      · exact .reported state.help 1
      rcases kinds with ⟨-, rfl⟩ | ⟨-, register, e, -, rfl⟩
      · exact .value operand cell _ state.e pointer pointed
      · exact .value operand cell _ e pointer pointed

/-! ## All options -/

/-- What every option keeps. -/
structure Loaded (state : State) : Prop where
  buffer : state.memory.cells .buffer = 0
  operands : ∀ operand, state.operands operand ≠ some .buffer
  registers : ∀ operand cell, state.operands operand = some cell →
    cell = .immediate ∨ state.registers operand = some cell
  target : ∀ operand, state.operandPtr = some operand → state.target = operand
  ids : state.memory.ids .eflags = REG32_EFLAGS

theorem loaded_start (words : Cell → Dword) : Loaded (State.start words) := by
  constructor <;> simp [State.start, initRegisters]

/-- No slot of the table leads to the scratch cell. -/
theorem slot_ne_buffer {id : Dword} {cell : Cell}
    (slot : REGISTERS.lookup id = some cell) : cell ≠ .buffer := by
  have names : ∀ entry ∈ REGISTERS, entry.2 ≠ .buffer := by decide
  rcases List.lookup_eq_some_iff.mp slot with ⟨front, back, split, -⟩
  exact names (id, cell) (by simp [split])

/-- Only one name leads to `eflags`. -/
theorem slot_eflags {id : Dword}
    (slot : REGISTERS.lookup id = some .eflags) : id = REG32_EFLAGS := by
  have names : ∀ entry ∈ REGISTERS, entry.2 = .eflags →
      entry.1 = REG32_EFLAGS := by decide
  rcases List.lookup_eq_some_iff.mp slot with ⟨front, back, split, -⟩
  exact names (id, .eflags) (by simp [split]) rfl

theorem Loaded.change {state next : State} (loaded : Loaded state)
    (change : Change state next) : Loaded next := by
  cases change with
  | reported help e =>
      exact ⟨loaded.buffer, loaded.operands, loaded.registers, loaded.target,
        loaded.ids⟩
  | selected operand =>
      have target : ∀ other, some operand = some other → operand = other := by
        intro other same
        cases same
        rfl
      exact ⟨loaded.buffer, loaded.operands, loaded.registers, target,
        loaded.ids⟩
  | immediate operand source pointer =>
      refine ⟨loaded.buffer, ?_, ?_, loaded.target, loaded.ids⟩
      · intro other
        by_cases same : other = operand
        · simp [same]
        · simp [same, loaded.operands]
      · intro other cell pointed
        by_cases same : other = operand
        · have cell_eq : some Cell.immediate = some cell := by
            simpa [same] using pointed
          exact .inl (Option.some.inj cell_eq).symm
        · exact loaded.registers other cell (by simpa [same] using pointed)
  | register operand cell id pointer slot =>
      have target := loaded.target operand pointer
      refine ⟨loaded.buffer, ?_, ?_, loaded.target, ?_⟩
      · intro other
        by_cases same : other = operand
        · simp [same, slot_ne_buffer slot]
        · simp [same, loaded.operands]
      · intro other found pointed
        by_cases same : other = operand
        · right
          have found_eq : some cell = some found := by
            simpa [same] using pointed
          simp [same, target, found_eq]
        · simp only [target, Function.update_of_ne same] at pointed ⊢
          exact loaded.registers other found pointed
      · by_cases flags : cell = .eflags
        · subst flags
          simp [Memory.setId, slot_eflags slot]
        · have other : Cell.eflags ≠ cell := fun same => flags same.symm
          simp [Memory.setId, other, loaded.ids]
  | value operand cell word e pointer pointed =>
      refine ⟨?_, loaded.operands, loaded.registers, loaded.target, loaded.ids⟩
      have other : Cell.buffer ≠ cell := by
        intro same
        exact loaded.operands operand (by rw [pointed, same])
      simp [Memory.set, other, loaded.buffer]

/-- What every change keeps holds after all the options. -/
theorem options_induction {Kept : State → Prop} (stack : Dword)
    (keeps : ∀ state next, Kept state → Change state next → Kept next)
    (options : List EmulatorOption) {state before : State} (kept : Kept state)
    (loop : options.foldlM (optionStep stack) state = some before) :
    Kept before := by
  induction options generalizing state with
  | nil =>
      cases loop
      exact kept
  | cons option options ih =>
      rcases Option.bind_eq_some_iff.mp loop with ⟨next, step, rest⟩
      exact ih (keeps state next kept (change_of_optionStep step)) rest

theorem loaded_options {stack : Dword} {words : Cell → Dword}
    {options : List EmulatorOption} {before : State}
    (loop : options.foldlM (optionStep stack) (.start words) = some before) :
    Loaded before :=
  options_induction stack (fun _ _ loaded change => loaded.change change)
    options (loaded_start words) loop

/-! ## Operands of 32 bits -/

/-- The option loop has ended without an error, and its operands are a
general register and any second operand, both of 32 bits. -/
structure Prepared (before : State) (dst : Gpr) (src : Cell) : Prop where
  e : before.e = 0
  help : before.help = false
  dst : before.operands .DST = some dst.cell
  src : before.operands .SRC = some src
  dst_size : ∃ register, before.registers .DST = some register ∧
    registerSize before.memory register = 32
  src_size : ∃ register, before.registers .SRC = some register ∧
    registerSize before.memory register = 32

/-- Both operands are there and of one size. -/
theorem Prepared.checked {before : State} {dst : Gpr} {src : Cell}
    (prepared : Prepared before dst src) (instruction : Instruction) :
    checkOperands instruction.opcode before = some true := by
  rcases prepared.dst_size with ⟨dst_register, dst_found, dst_size⟩
  rcases prepared.src_size with ⟨src_register, src_found, src_size⟩
  cases instruction <;>
    simp [checkOperands, Instruction.opcode, prepared.dst, prepared.src,
      dst_found, src_found, dst_size, src_size]

/-- An invocation whose option loop ends without an error carries out its
instruction. -/
theorem main_executes {stack : Dword} {words : Cell → Dword}
    {options : List EmulatorOption} {arguments : List String}
    {before : State} {opcode : Opcode} {count : Dword}
    (loop : options.foldlM (optionStep stack) (.start words) = some before)
    (e : before.e = 0) (help : before.help = false)
    (read : readInstruction arguments before = (before, opcode, count)) :
    main stack options arguments words = execute opcode count before := by
  simp [main, loop, read, e, help]

end Atomicles.Emulator
