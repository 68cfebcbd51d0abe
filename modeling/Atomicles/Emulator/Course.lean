import Atomicles.Emulator.Names

/-!
# What the options leave behind

The course of the option loop without the values: which operand is selected,
what each operand points to, which name it was given last, the last name under
which each register was looked up, and whether an error was reported.  The
loop follows this course as long as no option reads through a null pointer.
-/

namespace Atomicles.Emulator

/-! ## The options and their course -/

/-- The options that concern operands. -/
inductive Given where
  | dst
  | src
  | immediate
  | register (name : RegisterName)
  | value (text : String)
deriving DecidableEq, Repr

def Given.option : Given → EmulatorOption
  | .dst => .dst
  | .src => .src
  | .immediate => .immediate
  | .register name => .register name.text
  | .value text => .value text

/-- What an operand points to. -/
inductive Pointer where
  | immediate
  | register (name : RegisterName)
deriving DecidableEq, Repr

def Pointer.cell : Pointer → Cell
  | .immediate => .immediate
  | .register name => name.cell

/-- What is known after some options. -/
structure Course where
  selected : Option Operand
  pointed : Operand → Option Pointer
  /-- The name that an operand was given last. -/
  named : Operand → Option RegisterName
  /-- The last name under which a register was looked up. -/
  latest : Cell → Option RegisterName
  /-- A value was stored in the immediate source. -/
  valued : Bool
  reported : Bool

namespace Course

def start : Course where
  selected := none
  pointed _ := none
  named _ := none
  latest _ := none
  valued := false
  reported := false

/-- What `registers$size` gives for a register that has been looked up. -/
def size (course : Course) (cell : Cell) : Nat :=
  ((course.latest cell).map RegisterName.size).getD 0

/-- `-r` with a name. -/
def addRegister (course : Course) (name : RegisterName) : Course :=
  match course.selected with
  | none => { course with reported := true }
  | some operand =>
      { course with
        pointed :=
          Function.update course.pointed operand (some (.register name))
        named := Function.update course.named operand (some name)
        latest := Function.update course.latest name.cell (some name) }

theorem addRegister_selected {course : Course} {operand : Operand}
    (selected : course.selected = some operand) (name : RegisterName) :
    course.addRegister name =
      { course with
        pointed :=
          Function.update course.pointed operand (some (.register name))
        named := Function.update course.named operand (some name)
        latest := Function.update course.latest name.cell (some name) } := by
  unfold addRegister
  rw [selected]

/-- `-v` with a text, where it reads through no null pointer. -/
def addValue (course : Course) (text : String) : Course :=
  match course.selected with
  | none => course
  | some operand =>
      match course.pointed operand with
      | none => { course with reported := true }
      | some pointer =>
          { course with
            valued := course.valued || decide (pointer = .immediate)
            reported := course.reported ||
              (decide (text ≠ "RST") &&
                (course.named operand).any fun name =>
                  decide (2 ^ course.size name.cell <
                    (BitVec.ofNat 32 (strtoul text.toList).1).toNat)) }

/-- One option more. -/
def add (course : Course) : Given → Course
  | .dst => { course with selected := some .DST }
  | .src => { course with selected := some .SRC }
  | .immediate =>
      if course.selected = some .SRC then
        { course with
          pointed := Function.update course.pointed .SRC (some .immediate)
          valued := false }
      else { course with reported := true }
  | .register name => course.addRegister name
  | .value text => course.addValue text

/-- The course of all options. -/
def of (options : List Given) : Course :=
  options.foldl add start

/-- The option reads through no null pointer: `-v` needs a selected operand,
and if this points to something a value needs the register of a name. -/
def Allows (course : Course) : Given → Prop
  | .value text =>
      ∃ operand, course.selected = some operand ∧
        (course.pointed operand ≠ none →
          text = "RST" ∨ (course.named operand).isSome = true)
  | _ => True

/-- No option does. -/
def AllowsAll : Course → List Given → Prop
  | _, [] => True
  | course, given :: rest =>
      course.Allows given ∧ AllowsAll (course.add given) rest

end Course

/-! ## The loop follows the course -/

/-- A state of the loop is where the course says. -/
structure Follows (course : Course) (state : State) : Prop where
  operandPtr : state.operandPtr = course.selected
  target : state.target = course.selected.getD .DST
  operands : ∀ operand,
    state.operands operand = (course.pointed operand).map Pointer.cell
  registers : ∀ operand,
    state.registers operand = (course.named operand).map RegisterName.cell
  ids : ∀ cell name, course.latest cell = some name →
    state.memory.ids cell = name.computedId
  known : ∀ operand name, course.named operand = some name →
    (course.latest name.cell).isSome = true
  e : state.e = if course.reported then 1 else 0
  help : state.help = false

theorem follows_start (words : Cell → Dword) :
    Follows .start (State.start words) := by
  constructor <;> simp [Course.start, State.start]

namespace Follows

variable {course : Course} {state : State}

/-- The size of a register that an operand was named after. -/
theorem size (follows : Follows course state) {operand : Operand}
    {name : RegisterName} (named : course.named operand = some name) :
    registerSize state.memory name.cell = course.size name.cell := by
  have known := follows.known operand name named
  rcases Option.isSome_iff_exists.mp known with ⟨last, isLast⟩
  unfold registerSize Course.size
  rw [follows.ids _ last isLast, isLast]
  exact last.size_computedId

theorem reported (follows : Follows course state) :
    Follows { course with reported := true } { state with e := 1 } where
  operandPtr := follows.operandPtr
  target := follows.target
  operands := follows.operands
  registers := follows.registers
  ids := follows.ids
  known := follows.known
  e := rfl
  help := follows.help

theorem select (follows : Follows course state) (operand : Operand) :
    Follows { course with selected := some operand }
      { state with target := operand, operandPtr := some operand } where
  operandPtr := rfl
  target := rfl
  operands := follows.operands
  registers := follows.registers
  ids := follows.ids
  known := follows.known
  e := follows.e
  help := follows.help

theorem immediate (follows : Follows course state)
    (selected : course.selected = some .SRC) :
    Follows
      { course with
        selected := some .SRC
        pointed := Function.update course.pointed .SRC (some .immediate)
        valued := false }
      { state with
        operandPtr := some .SRC
        operands :=
          Function.update state.operands .SRC (some .immediate) } where
  operandPtr := rfl
  target := by
    rw [← selected]
    exact follows.target
  operands operand := by
    by_cases here : operand = .SRC
    · subst here
      rfl
    · simp only [Function.update_of_ne here]
      exact follows.operands operand
  registers := follows.registers
  ids := follows.ids
  known := follows.known
  e := follows.e
  help := follows.help

theorem register (follows : Follows course state) {operand : Operand}
    (selected : course.selected = some operand) (name : RegisterName) :
    Follows (course.addRegister name)
      { state with
        memory := state.memory.setId name.cell name.computedId
        operandPtr := some operand
        operands := Function.update state.operands operand (some name.cell)
        registers :=
          Function.update state.registers state.target (some name.cell) } := by
  have target : state.target = operand := by
    rw [follows.target, selected]
    rfl
  rw [Course.addRegister_selected selected, target]
  constructor
  · exact selected.symm
  · rw [selected]
    rfl
  · intro other
    by_cases here : other = operand
    · subst here
      simp [Pointer.cell]
    · simp only [Function.update_of_ne here]
      exact follows.operands other
  · intro other
    by_cases here : other = operand
    · subst here
      simp
    · simp only [Function.update_of_ne here]
      exact follows.registers other
  · intro cell last isLast
    by_cases here : cell = name.cell
    · subst here
      simp only [Function.update_self, Option.some.injEq] at isLast
      subst isLast
      exact Function.update_self ..
    · simp only [Function.update_of_ne here] at isLast
      rw [← follows.ids cell last isLast]
      exact Function.update_of_ne here ..
  · intro other last isLast
    by_cases same : last.cell = name.cell
    · simp [same]
    · dsimp only
      rw [Function.update_of_ne same]
      by_cases here : other = operand
      · subst here
        simp only [Function.update_self, Option.some.injEq] at isLast
        subst isLast
        exact absurd rfl same
      · simp only [Function.update_of_ne here] at isLast
        exact follows.known other last isLast
  · exact follows.e
  · exact follows.help

/-- A stored word is no part of the course. -/
theorem store (follows : Follows course state) {operand : Operand}
    (selected : course.selected = some operand) (cell : Cell) (word : Dword)
    {e : Int} (valued : Bool) {reported : Bool}
    (isE : e = if reported then 1 else 0) :
    Follows { course with selected := some operand, valued, reported }
      { state with
        memory := state.memory.set cell word
        operandPtr := some operand
        e } where
  operandPtr := rfl
  target := by
    rw [← selected]
    exact follows.target
  operands := follows.operands
  registers := follows.registers
  ids := follows.ids
  known := follows.known
  e := isE
  help := follows.help

/-- The course of `-v` where the selected operand points to something. -/
theorem addValue_pointed {operand : Operand} {pointer : Pointer}
    (selected : course.selected = some operand)
    (pointed : course.pointed operand = some pointer) (text : String) :
    course.addValue text =
      { course with
        valued := course.valued || decide (pointer = .immediate)
        reported := course.reported ||
          (decide (text ≠ "RST") &&
            (course.named operand).any fun name =>
              decide (2 ^ course.size name.cell <
                (BitVec.ofNat 32 (strtoul text.toList).1).toNat)) } := by
  unfold Course.addValue
  rw [selected]
  dsimp only
  rw [pointed]

/-- `-v` stores its word. -/
theorem value (follows : Follows course state) (stack : Dword)
    {operand : Operand} {pointer : Pointer}
    (selected : course.selected = some operand)
    (pointed : course.pointed operand = some pointer) (text : String)
    (able : text = "RST" ∨ (course.named operand).isSome = true) :
    ∃ next, valueOption stack text state = some next ∧
      Follows (course.addValue text) next := by
  have isCell : state.operands operand = some pointer.cell := by
    rw [follows.operands, pointed]
    rfl
  have target : state.target = operand := by
    rw [follows.target, selected]
    rfl
  rw [addValue_pointed selected pointed]
  unfold valueOption
  rw [follows.operandPtr, selected]
  simp only [Option.bind_eq_bind, Option.bind_some, isCell]
  by_cases reset : text = "RST"
  · simp only [reset, ne_eq, not_true_eq_false, if_false, decide_false,
      Bool.false_and, Bool.or_false]
    split
    · exact ⟨_, rfl, follows.store selected _ _ _ follows.e⟩
    · exact ⟨_, rfl, follows.store selected _ _ _ follows.e⟩
  · rcases able with isReset | isNamed
    · exact absurd isReset reset
    rcases Option.isSome_iff_exists.mp isNamed with ⟨name, named⟩
    have registered : state.registers state.target = some name.cell := by
      rw [follows.registers, target, named]
      rfl
    simp only [ne_eq, reset, not_false_eq_true, if_true, registered,
      Option.bind_some, follows.size named, decide_true, Bool.true_and, named,
      Option.any_some]
    by_cases fits : (BitVec.ofNat 32 (strtoul text.toList).1).toNat ≤
        2 ^ course.size name.cell
    · rw [if_pos fits]
      refine ⟨_, rfl, follows.store selected _ _ _ ?_⟩
      rw [decide_eq_false (Nat.not_lt.mpr fits), Bool.or_false]
      exact follows.e
    · rw [if_neg fits]
      refine ⟨_, rfl, follows.store selected _ _ _ ?_⟩
      rw [decide_eq_true (Nat.lt_of_not_le fits), Bool.or_true, if_pos rfl]

/-- An option that is allowed leads on along the course. -/
theorem step (follows : Follows course state) (stack : Dword) {given : Given}
    (allowed : course.Allows given) :
    ∃ next, optionStep stack state given.option = some next ∧
      Follows (course.add given) next := by
  cases given with
  | dst => exact ⟨_, rfl, follows.select .DST⟩
  | src => exact ⟨_, rfl, follows.select .SRC⟩
  | immediate =>
      have selected : state.target = .SRC ↔ course.selected = some .SRC := by
        rw [follows.target]
        cases course.selected with
        | none => simp
        | some operand => simp
      unfold Course.add
      simp only [Given.option, optionStep]
      by_cases source : course.selected = some .SRC
      · rw [if_pos (selected.mpr source), if_pos source, follows.operandPtr,
          source]
        exact ⟨_, rfl, follows.immediate source⟩
      · rw [if_neg (mt selected.mp source), if_neg source]
        exact ⟨_, rfl, follows.reported⟩
  | register name =>
      simp only [Given.option, optionStep, follows.operandPtr]
      cases selected : course.selected with
      | none =>
          refine ⟨_, rfl, ?_⟩
          have pointer : state.operandPtr = none :=
            follows.operandPtr.trans selected
          have kept := follows.reported
          rw [selected, pointer] at kept
          simpa [Course.add, Course.addRegister, selected] using kept
      | some operand =>
          rw [name.registerByName_text]
          exact ⟨_, rfl, follows.register selected name⟩
  | value text =>
      rcases allowed with ⟨operand, selected, able⟩
      cases pointed : course.pointed operand with
      | none =>
          have null : state.operands operand = none := by
            rw [follows.operands, pointed]
            rfl
          refine ⟨{ state with e := 1 }, ?_, ?_⟩
          · simp [Given.option, optionStep, valueOption, follows.operandPtr,
              selected, null]
          · simpa [Course.add, Course.addValue, selected, pointed]
              using follows.reported
      | some pointer =>
          exact follows.value stack selected pointed text
            (able (by simp [pointed]))

/-- One that is not reads through a null pointer. -/
theorem fault (follows : Follows course state) (stack : Dword) {given : Given}
    (refused : ¬ course.Allows given) :
    optionStep stack state given.option = none := by
  cases given with
  | value text =>
      simp only [Given.option, optionStep]
      cases stepped : valueOption stack text state with
      | none => rfl
      | some next =>
          exfalso
          apply refused
          rcases valueOption_cases stepped with ⟨operand, pointer, kinds⟩
          have selected := follows.operandPtr.symm.trans pointer
          have target : state.target = operand := by
            rw [follows.target, selected]
            rfl
          refine ⟨operand, selected, ?_⟩
          intro pointed
          rcases kinds with ⟨null, _⟩ | ⟨cell, _, ⟨reset, _⟩ | kinds⟩
          · rw [follows.operands, Option.map_eq_none_iff] at null
            exact absurd null pointed
          · exact Or.inl reset
          · rcases kinds with ⟨_, register, e, registered, _⟩
            right
            rw [follows.registers, target] at registered
            rcases Option.map_eq_some_iff.mp registered with ⟨name, named, _⟩
            exact Option.isSome_iff_exists.mpr ⟨name, named⟩
  | _ => exact absurd trivial refused

/-- Options that are all allowed lead to a state that the course describes. -/
theorem run (follows : Follows course state) (stack : Dword)
    {options : List Given} (allowed : course.AllowsAll options) :
    ∃ next, (options.map Given.option).foldlM (optionStep stack) state =
        some next ∧
      Follows (options.foldl Course.add course) next := by
  induction options generalizing course state with
  | nil => exact ⟨state, rfl, follows⟩
  | cons given rest ih =>
      rcases follows.step stack allowed.1 with ⟨middle, stepped, follows⟩
      rcases ih follows allowed.2 with ⟨next, ran, follows⟩
      refine ⟨next, ?_, follows⟩
      simp [stepped, ran]

/-- The loop reads through a null pointer unless all options are allowed. -/
theorem run_fault (follows : Follows course state) (stack : Dword)
    {options : List Given} (refused : ¬ course.AllowsAll options) :
    (options.map Given.option).foldlM (optionStep stack) state = none := by
  induction options generalizing course state with
  | nil => exact absurd trivial refused
  | cons given rest ih =>
      by_cases allowed : course.Allows given
      · rcases follows.step stack allowed with ⟨middle, stepped, follows⟩
        have later : ¬ (course.add given).AllowsAll rest :=
          fun all => refused ⟨allowed, all⟩
        simp [stepped, ih follows later]
      · simp [follows.fault stack allowed]

/-- `check_operands` on two operands: both point to something, and the sizes
of the registers they were named after are equal. -/
theorem check (follows : Follows course state) (instruction : Instruction) :
    checkOperands instruction.opcode state =
      if course.pointed .DST = none ∨ course.pointed .SRC = none then some false
      else
        (course.named .SRC).bind fun src =>
          (course.named .DST).bind fun dst =>
            some (decide (course.size src.cell = course.size dst.cell)) := by
  have null : ∀ operand, (state.operands operand).isNone = true ↔
      course.pointed operand = none := by
    intro operand
    rw [follows.operands, Option.isNone_map, Option.isNone_iff_eq_none]
  have unfolded : checkOperands instruction.opcode state =
      if (state.operands .DST).isNone ∨ (state.operands .SRC).isNone then
        some false
      else do
        let src ← state.registers .SRC
        let dst ← state.registers .DST
        return registerSize state.memory src =
          registerSize state.memory dst := by
    cases instruction <;> rfl
  rw [unfolded]
  simp only [null]
  split
  · rfl
  · rw [follows.registers, follows.registers]
    cases src : course.named .SRC with
    | none => rfl
    | some src_name =>
        cases dst : course.named .DST with
        | none => rfl
        | some dst_name =>
            simp [follows.size src, follows.size dst]

end Follows

/-! ## Names alone -/

/-- The options that select and name operands. -/
def Given.isNaming : Given → Bool
  | .dst => true
  | .src => true
  | .register _ => true
  | _ => false

/-- Operands that point to what they are named after. -/
def Course.Named (course : Course) : Prop :=
  ∀ operand, course.pointed operand = (course.named operand).map .register

theorem Course.Named.add {course : Course} (isNamed : course.Named)
    {given : Given} (naming : given.isNaming = true) :
    (course.add given).Named := by
  cases given with
  | dst => exact isNamed
  | src => exact isNamed
  | immediate => cases naming
  | value text => cases naming
  | register name =>
      simp only [Course.add]
      cases selected : course.selected with
      | none =>
          simp only [Course.addRegister, selected]
          exact isNamed
      | some operand =>
          rw [Course.addRegister_selected selected]
          intro other
          by_cases here : other = operand
          · subst here
            simp
          · simp only [Function.update_of_ne here]
            exact isNamed other

theorem Course.Named.foldl {course : Course} (isNamed : course.Named)
    {options : List Given}
    (namings : ∀ given ∈ options, given.isNaming = true) :
    (options.foldl Course.add course).Named ∧ course.AllowsAll options := by
  induction options generalizing course with
  | nil => exact ⟨isNamed, trivial⟩
  | cons given rest ih =>
      have naming := namings given (by simp)
      have later := ih (isNamed.add naming)
        fun other member => namings other (by simp [member])
      refine ⟨later.1, ?_, later.2⟩
      cases given with
      | value text => cases naming
      | _ => trivial

/-- **Operand widths.**  For all sequences of `-d`, `-s` and `-r` after which
the operands were named last: `check_operands` goes by the names under which
the two registers were looked up last, and by the sizes in their ids. -/
theorem check_widths_iff (stack : Dword) (words : Cell → Dword)
    (instruction : Instruction) (options : List Given)
    (namings : ∀ given ∈ options, given.isNaming = true)
    {dst src : RegisterName}
    (dst_named : (Course.of options).named .DST = some dst)
    (src_named : (Course.of options).named .SRC = some src) :
    ∃ state,
      (options.map Given.option).foldlM (optionStep stack) (.start words) =
        some state ∧
      (checkOperands instruction.opcode state =
          some (decide (dst.width = src.width)) ↔
        ((Course.of options).size dst.cell = (Course.of options).size src.cell ↔
          dst.width = src.width)) := by
  have isNamed : Course.start.Named := fun _ => rfl
  rcases isNamed.foldl namings with ⟨points, allowed⟩
  rcases (follows_start words).run stack allowed with ⟨state, ran, follows⟩
  refine ⟨state, ran, ?_⟩
  have present : ¬ ((Course.of options).pointed .DST = none ∨
      (Course.of options).pointed .SRC = none) := by
    have dst_points : (Course.of options).pointed .DST =
        ((Course.of options).named .DST).map .register := points .DST
    have src_points : (Course.of options).pointed .SRC =
        ((Course.of options).named .SRC).map .register := points .SRC
    rw [dst_points, src_points, dst_named, src_named]
    simp
  have checked : checkOperands instruction.opcode state =
      some (decide ((Course.of options).size src.cell =
        (Course.of options).size dst.cell)) := by
    have check : checkOperands instruction.opcode state = _ :=
      follows.check instruction
    rw [check]
    exact (if_neg present).trans (by
      have src_last : (options.foldl Course.add .start).named .SRC =
          some src := src_named
      have dst_last : (options.foldl Course.add .start).named .DST =
          some dst := dst_named
      rw [src_last, dst_last]
      rfl)
  rw [checked, Option.some.injEq, decide_eq_decide, eq_comm]

/-- `ia32emu -d -r eax -s -r bx`. -/
theorem check_widths_iff_differing :
    ∃ state,
      [EmulatorOption.dst, .register "eax", .src, .register "bx"].foldlM
          (optionStep 0) (.start fun _ => 0) = some state ∧
      (checkOperands .MOV state = some false ↔
        ((32 : Nat) = 16 ↔ (32 : Nat) = 16)) :=
  check_widths_iff 0 (fun _ => 0) .MOV
    [.dst, .register (.dword .eax), .src, .register (.word .ebx)]
    (by decide) (rfl : _ = some (RegisterName.dword .eax))
    (rfl : _ = some (RegisterName.word .ebx))

/-- `ia32emu -d -r eax -s -r ax`: both operands are taken to have 16 bits. -/
theorem check_accepts_widths :
    ∃ state,
      [EmulatorOption.dst, .register "eax", .src, .register "ax"].foldlM
          (optionStep 0) (.start fun _ => 0) = some state ∧
      checkOperands .MOV state = some true ∧
      (RegisterName.dword .eax).width ≠ (RegisterName.word .eax).width := by
  refine ⟨_, rfl, ?_, by decide⟩
  decide

end Atomicles.Emulator
