import Atomicles.Emulator.Course
import Atomicles.Emulator.Shifts

/-!
# Incomplete command lines

Whether the emulator follows a null pointer is decided by the course of its
options.  The loop does for a `-v` that comes too early; `check_operands` does
for an immediate source, which has no register of its own and is taken for the
register that the source was named after before.
-/

namespace Atomicles.Emulator

/-! ## The instruction -/

/-- The count of a shift, if it is a number. -/
def countOf (text : String) : Option Dword :=
  if (strtoul text.toList).2 ≠ [] then none
  else some (BitVec.ofNat 32 ((strtoul text.toList).1 % 0x100))

/-- The instruction that the arguments give, and its count. -/
def instructionOf : List String → Option (Opcode × Dword)
  | [] => none
  | text :: rest =>
      (setInstruction text).bind fun opcode =>
        match opcode, rest with
        | .SAR, [count] | .SHR, [count] | .SAL, [count] | .SHL, [count] =>
            (countOf count).map fun value => (opcode, value)
        | _, [] => some (opcode, 1)
        | _, _ => none

theorem readCount_some {text : String} {count : Dword} {state : State}
    {opcode : Opcode} (given : countOf text = some count) :
    ((if (strtoul text.toList).2 ≠ [] then { state with e := 1 } else state,
        opcode, BitVec.ofNat 32 ((strtoul text.toList).1 % 0x100)) :
      State × Opcode × Dword) = (state, opcode, count) := by
  unfold countOf at given
  by_cases refused : (strtoul text.toList).2 ≠ []
  · rw [if_pos refused] at given
    exact (Option.some_ne_none _ given.symm).elim
  · rw [if_neg refused, Option.some.injEq] at given
    rw [if_neg refused, given]

theorem readCount_error {text : String} {state : State} {opcode : Opcode}
    (missing : countOf text = none) :
    ((if (strtoul text.toList).2 ≠ [] then { state with e := 1 } else state,
        opcode, BitVec.ofNat 32 ((strtoul text.toList).1 % 0x100)) :
      State × Opcode × Dword).1.e = 1 := by
  unfold countOf at missing
  by_cases refused : (strtoul text.toList).2 ≠ []
  · rw [if_pos refused]
  · rw [if_neg refused] at missing
    exact (Option.some_ne_none _ missing).elim

/-- Arguments that give an instruction are read without an error. -/
theorem readInstruction_some {arguments : List String} {state : State}
    {opcode : Opcode} {count : Dword} (e : state.e = 0)
    (given : instructionOf arguments = some (opcode, count)) :
    readInstruction arguments state = (state, opcode, count) := by
  cases arguments with
  | nil => cases given
  | cons text rest =>
      unfold instructionOf at given
      rcases Option.bind_eq_some_iff.mp given with ⟨found, isFound, given⟩
      unfold readInstruction
      simp only [e, if_true, isFound]
      have shifts : ∀ (shift : Opcode) (number : String),
          (countOf number).map (fun value => (shift, value)) =
              some (opcode, count) →
            ((if (strtoul number.toList).2 ≠ [] then { state with e := 1 }
                else state, shift,
              BitVec.ofNat 32 ((strtoul number.toList).1 % 0x100)) :
              State × Opcode × Dword) = (state, opcode, count) := by
        intro shift number counted
        rcases Option.map_eq_some_iff.mp counted with ⟨value, isValue, same⟩
        rw [Prod.mk.injEq] at same
        rw [← same.1, ← same.2]
        exact readCount_some isValue
      cases rest with
      | nil => cases found <;> cases given <;> rfl
      | cons number rest =>
          cases rest with
          | nil =>
              cases found <;> first | exact shifts _ number given | cases given
          | cons _ _ => cases found <;> cases given

/-- Other arguments, or an error before them, end in an error. -/
theorem readInstruction_error {arguments : List String} {state : State}
    (failed : state.e ≠ 0 ∨ instructionOf arguments = none) :
    (readInstruction arguments state).1.e = 1 := by
  cases arguments with
  | nil => rfl
  | cons text rest =>
      unfold readInstruction
      by_cases e : state.e = 0
      · rcases failed with impossible | missing
        · exact absurd e impossible
        · simp only [e, if_true]
          unfold instructionOf at missing
          cases isFound : setInstruction text with
          | none => rfl
          | some found =>
              simp only [isFound, Option.bind_some] at missing
              cases rest with
              | nil => cases found <;> cases missing
              | cons number rest =>
                  cases rest with
                  | nil =>
                      cases found <;>
                        first
                        | rfl
                        | exact readCount_error
                            (Option.map_eq_none_iff.mp missing)
                  | cons _ _ => cases found <;> rfl
      · simp [e]

/-! ## The execution -/

/-- The operands that an instruction needs. -/
def Opcode.needs : Opcode → Operand → Bool
  | .SAR, operand => operand = .DST
  | .SHR, operand => operand = .DST
  | .SAL, operand => operand = .DST
  | .SHL, operand => operand = .DST
  | .MOV, _ => true
  | .ADD, _ => true
  | .SUB, _ => true
  | .AND, _ => true
  | .OR, _ => true
  | .XOR, _ => true
  | .TEST, _ => true
  | .CMP, _ => true
  | _, _ => false

section Execution

variable {course : Course} {state : State}

/-- A shift runs if its destination points to something. -/
theorem execute_shift (follows : Follows course state) (shift : Shift)
    (count : Dword) :
    ∃ after, execute shift.opcode count state = some after ∧
      (course.pointed .DST = none → after.e ≠ 0) := by
  have same : execute shift.opcode count state =
      shiftCase shift.opcode count state := by
    cases shift <;> rfl
  have checked : checkOperands shift.opcode state =
      some (state.operands .DST).isSome := by
    cases shift <;> rfl
  have operand := follows.operands .DST
  rw [same]
  cases pointed : course.pointed .DST with
  | none =>
      rw [pointed, Option.map_none] at operand
      refine ⟨{ state with e := 1 }, ?_, by simp⟩
      simp [shiftCase, checked, operand]
  | some pointer =>
      rw [pointed, Option.map_some] at operand
      have ran : ∃ after, shiftCase shift.opcode count state = some after :=
        ⟨_, by simp only [shiftCase, checked, operand]; rfl⟩
      rcases ran with ⟨after, ran⟩
      refine ⟨after, ran, ?_⟩
      intro impossible
      cases impossible

/-- An instruction on two operands is one of the arithmetic cases. -/
theorem execute_instruction (instruction : Instruction) (count : Dword)
    (state : State) :
    ∃ commits compute, execute instruction.opcode count state =
      arithmetic instruction.opcode commits compute state := by
  cases instruction with
  | MOV => exact ⟨true, fun _ _ src => src, rfl⟩
  | ADD => exact ⟨true, fun buffer _ src => buffer + src, rfl⟩
  | SUB => exact ⟨true, fun buffer _ src => buffer - src, rfl⟩
  | AND => exact ⟨true, fun _ dst src => dst &&& src, rfl⟩
  | OR => exact ⟨true, fun buffer _ src => buffer ||| src, rfl⟩
  | XOR => exact ⟨true, fun buffer _ src => buffer ^^^ src, rfl⟩
  | TEST => exact ⟨false, fun _ dst src => dst &&& src, rfl⟩
  | CMP => exact ⟨false, fun buffer _ src => buffer - src, rfl⟩

/-- Operands that are refused are reported. -/
theorem execute_refused {instruction : Instruction} {count : Dword}
    (refused : checkOperands instruction.opcode state = some false) :
    execute instruction.opcode count state = some { state with e := 1 } := by
  rcases execute_instruction instruction count state with
    ⟨commits, compute, isCase⟩
  rw [isCase]
  simp [arithmetic, refused]

/-- Operands that are accepted point to something. -/
theorem accepted_pointed (follows : Follows course state)
    {instruction : Instruction}
    (accepted : checkOperands instruction.opcode state = some true)
    (operand : Operand) : ∃ pointer, course.pointed operand = some pointer := by
  rw [follows.check] at accepted
  split at accepted
  · cases accepted
  · rename_i both
    rw [not_or] at both
    apply Option.ne_none_iff_exists'.mp
    cases operand with
    | DST => exact both.1
    | SRC => exact both.2

/-- They are used. -/
theorem execute_accepted (follows : Follows course state)
    {instruction : Instruction}
    (accepted : checkOperands instruction.opcode state = some true)
    (count : Dword) :
    ∃ after, execute instruction.opcode count state = some after ∧
      after.e = state.e := by
  rcases execute_instruction instruction count state with
    ⟨commits, compute, isCase⟩
  have present : ∀ operand, ∃ cell, state.operands operand = some cell := by
    intro operand
    rcases accepted_pointed follows accepted operand with
      ⟨pointer, isPointer⟩
    exact ⟨pointer.cell, by rw [follows.operands, isPointer]; rfl⟩
  rcases present .DST with ⟨dst, isDst⟩
  rcases present .SRC with ⟨src, isSrc⟩
  have ran : ∃ memory,
      arithmetic instruction.opcode commits compute state =
        some { state with memory } :=
    ⟨_, by simp only [arithmetic, accepted, isDst, isSrc]; rfl⟩
  rcases ran with ⟨memory, ran⟩
  exact ⟨_, isCase.trans ran, rfl⟩

/-- Operands that cannot be compared are followed through a null pointer. -/
theorem execute_fault {instruction : Instruction} {count : Dword}
    (fault : checkOperands instruction.opcode state = none) :
    execute instruction.opcode count state = none := by
  rcases execute_instruction instruction count state with
    ⟨commits, compute, isCase⟩
  rw [isCase]
  simp [arithmetic, fault]

/-- The instructions are the shifts, those on two operands, and the jumps. -/
theorem opcode_cases (opcode : Opcode) :
    (∃ shift : Shift, shift.opcode = opcode) ∨
      (∃ instruction : Instruction, instruction.opcode = opcode) ∨
      ∀ operand, opcode.needs operand = false := by
  cases opcode
  case SAL => exact .inl ⟨.SAL, rfl⟩
  case SAR => exact .inl ⟨.SAR, rfl⟩
  case SHL => exact .inl ⟨.SHL, rfl⟩
  case SHR => exact .inl ⟨.SHR, rfl⟩
  case MOV => exact .inr (.inl ⟨.MOV, rfl⟩)
  case ADD => exact .inr (.inl ⟨.ADD, rfl⟩)
  case SUB => exact .inr (.inl ⟨.SUB, rfl⟩)
  case AND => exact .inr (.inl ⟨.AND, rfl⟩)
  case OR => exact .inr (.inl ⟨.OR, rfl⟩)
  case XOR => exact .inr (.inl ⟨.XOR, rfl⟩)
  case TEST => exact .inr (.inl ⟨.TEST, rfl⟩)
  case CMP => exact .inr (.inl ⟨.CMP, rfl⟩)
  all_goals exact .inr (.inr fun _ => rfl)

/-- Of the jumps only `JCXZ` goes wrong. -/
theorem execute_other {opcode : Opcode} (count : Dword) (state : State)
    (jump : ∀ operand, opcode.needs operand = false) :
    execute opcode count state = none → opcode = .JCXZ := by
  have ecx : REGISTERS.lookup REG32_GPR_ECX = some .ecx := by decide
  intro fault
  cases opcode
  case JCXZ => rfl
  case JECXZ =>
    simp only [execute, register, ecx, Option.map_some] at fault
    cases fault
  all_goals
    first
    | exact absurd (jump .DST) (by decide)
    | cases fault

end Execution

/-! ## `main` along the course -/

variable {stack : Dword} {words : Cell → Dword} {options : List Given}
variable {arguments : List String}

/-- The emulator on options that concern operands. -/
abbrev run (stack : Dword) (options : List Given) (arguments : List String)
    (words : Cell → Dword) : Option State :=
  main stack (options.map Given.option) arguments words

theorem run_fault (refused : ¬ Course.start.AllowsAll options) :
    run stack options arguments words = none := by
  unfold run main
  rw [(follows_start words).run_fault stack refused]
  rfl

/-- After options that are allowed and report nothing the instruction is
carried out. -/
theorem run_executes (allowed : Course.start.AllowsAll options)
    (unreported : (Course.of options).reported = false)
    {opcode : Opcode} {count : Dword}
    (given : instructionOf arguments = some (opcode, count)) :
    ∃ state, Follows (Course.of options) state ∧ state.e = 0 ∧
      run stack options arguments words = execute opcode count state := by
  rcases (follows_start words).run stack allowed with ⟨state, ran, follows⟩
  have noError : state.e = 0 := by
    rw [follows.e]
    exact if_neg (by rw [show (options.foldl Course.add .start).reported =
      false from unreported]; exact Bool.false_ne_true)
  refine ⟨state, follows, noError, ?_⟩
  exact main_executes ran noError follows.help
    (readInstruction_some noError given)

/-- In all other cases an error is reported. -/
theorem run_reports (allowed : Course.start.AllowsAll options)
    (failed : (Course.of options).reported = true ∨
      instructionOf arguments = none) :
    ∃ after, run stack options arguments words = some after ∧ after.e ≠ 0 := by
  rcases (follows_start words).run stack allowed with ⟨state, ran, follows⟩
  have isError : state.e ≠ 0 ∨ instructionOf arguments = none := by
    rcases failed with reported | missing
    · left
      rw [follows.e, show (options.foldl Course.add .start).reported = true
        from reported]
      decide
    · exact Or.inr missing
  have read := readInstruction_error isError
  refine ⟨(readInstruction arguments state).1, ?_, by rw [read]; decide⟩
  unfold run main
  rw [ran]
  simp [read]

/-! ## What the options have in common -/

namespace Course

/-- What an operand points to and how it was named agree: only the source is
ever an immediate. -/
structure Coherent (course : Course) : Prop where
  named : ∀ operand name,
    course.pointed operand = some (.register name) →
      course.named operand = some name
  dst : course.pointed .DST ≠ some .immediate

theorem coherent_start : start.Coherent where
  named := by
    intro _ _ pointed
    cases pointed
  dst := by
    intro pointed
    cases pointed

theorem Coherent.add {course : Course} (coherent : course.Coherent)
    (given : Given) : (course.add given).Coherent := by
  cases given with
  | dst => exact ⟨coherent.named, coherent.dst⟩
  | src => exact ⟨coherent.named, coherent.dst⟩
  | immediate =>
      unfold Course.add
      dsimp only
      split
      · constructor
        · intro operand name pointed
          cases operand with
          | DST => exact coherent.named .DST name pointed
          | SRC => cases pointed
        · exact coherent.dst
      · exact ⟨coherent.named, coherent.dst⟩
  | register name =>
      unfold Course.add
      cases selected : course.selected with
      | none =>
          simp only [addRegister, selected]
          exact ⟨coherent.named, coherent.dst⟩
      | some operand =>
          simp only [addRegister_selected selected]
          constructor
          · intro other given pointed
            by_cases here : other = operand
            · subst here
              simpa using pointed
            · simp only [Function.update_of_ne here] at pointed ⊢
              exact coherent.named other given pointed
          · intro pointed
            by_cases here : Operand.DST = operand
            · subst here
              simp at pointed
            · simp only [Function.update_of_ne here] at pointed
              exact coherent.dst pointed
  | value text =>
      unfold Course.add addValue
      dsimp only
      split
      · exact coherent
      · split
        · exact ⟨coherent.named, coherent.dst⟩
        · exact ⟨coherent.named, coherent.dst⟩

theorem coherent_of (options : List Given) : (of options).Coherent := by
  have every : ∀ course : Course, course.Coherent →
      (options.foldl Course.add course).Coherent := by
    induction options with
    | nil => exact fun _ coherent => coherent
    | cons given rest ih =>
        intro course coherent
        exact ih _ (coherent.add given)
  exact every start coherent_start

/-- An option without what it needs: `-i` the selected source, `-r` a selected
operand, and `-v` one that points to something. -/
def Lacks (course : Course) : Given → Prop
  | .dst => False
  | .src => False
  | .immediate => course.selected ≠ some .SRC
  | .register _ => course.selected = none
  | .value _ =>
      ∀ operand, course.selected = some operand → course.pointed operand = none

theorem add_of_reported {course : Course} (reported : course.reported = true)
    (given : Given) : (course.add given).reported = true := by
  cases given with
  | dst => exact reported
  | src => exact reported
  | immediate =>
      unfold Course.add
      dsimp only
      split
      · exact reported
      · rfl
  | register name =>
      unfold Course.add addRegister
      dsimp only
      split
      · rfl
      · exact reported
  | value text =>
      unfold Course.add addValue
      dsimp only
      split
      · exact reported
      · split
        · rfl
        · rw [reported, Bool.true_or]

theorem foldl_of_reported {course : Course}
    (reported : course.reported = true) (options : List Given) :
    (options.foldl Course.add course).reported = true := by
  induction options generalizing course with
  | nil => exact reported
  | cons given rest ih => exact ih (add_of_reported reported given)

theorem add_of_lacks {course : Course} {given : Given}
    (allowed : course.Allows given) (lacks : course.Lacks given) :
    (course.add given).reported = true := by
  cases given with
  | dst => cases lacks
  | src => cases lacks
  | immediate =>
      have refused : ¬ course.selected = some .SRC := lacks
      unfold Course.add
      dsimp only
      rw [if_neg refused]
  | register name =>
      have missing : course.selected = none := lacks
      simp [Course.add, addRegister, missing]
  | value text =>
      rcases allowed with ⟨operand, selected, _⟩
      have null := lacks operand selected
      simp [Course.add, addValue, selected, null]

theorem allows_of_append {course : Course} {front back : List Given}
    {given : Given} (allowed : course.AllowsAll (front ++ given :: back)) :
    (front.foldl Course.add course).Allows given := by
  induction front generalizing course with
  | nil => exact allowed.1
  | cons first rest ih => exact ih allowed.2

/-- Among allowed options one that lacks something is reported. -/
theorem reported_of_lacks {front back : List Given} {given : Given}
    (allowed : start.AllowsAll (front ++ given :: back))
    (lacks : (of front).Lacks given) :
    (of (front ++ given :: back)).reported = true := by
  unfold of
  rw [List.foldl_append, List.foldl_cons]
  exact foldl_of_reported (add_of_lacks (allows_of_append allowed) lacks) back

end Course

/-! ## The result -/

/-- What a command line must not do, and must do, with what is missing. -/
structure Complete (stack : Dword) (words : Cell → Dword)
    (options : List Given) (arguments : List String) : Prop where
  /-- The option loop reads through no null pointer. -/
  loop :
    (options.map Given.option).foldlM (optionStep stack) (.start words) ≠ none
  /-- The switch reads through no null pointer either; that of `JCXZ` is none
  of the operands. -/
  switch : run stack options arguments words = none →
    ∃ count, instructionOf arguments = some (.JCXZ, count)
  option : ∀ front given back, options = front ++ given :: back →
    (Course.of front).Lacks given →
      ∃ after, run stack options arguments words = some after ∧ after.e ≠ 0
  operand : ∀ opcode count operand,
    instructionOf arguments = some (opcode, count) →
      opcode.needs operand = true →
        (Course.of options).pointed operand = none →
          ∃ after, run stack options arguments words = some after ∧ after.e ≠ 0
  /-- An immediate source with a value can be used. -/
  immediate : ∀ (instruction : Instruction) count dst,
    instructionOf arguments = some (instruction.opcode, count) →
      (Course.of options).reported = false →
        (Course.of options).pointed .SRC = some .immediate →
          (Course.of options).valued = true →
            (Course.of options).pointed .DST = some (.register dst) →
              dst.width = 32 →
                ∃ after, run stack options arguments words = some after ∧
                  after.e = 0

/-- No `-v` comes too early, and an immediate source of an instruction that is
carried out was named before as a register: where it has a value and the
destination has 32 bits, as one of the size of the destination. -/
structure Furnished (options : List Given) (arguments : List String) :
    Prop where
  loop : Course.start.AllowsAll options
  immediate : ∀ (instruction : Instruction) count dst,
    instructionOf arguments = some (instruction.opcode, count) →
      (Course.of options).reported = false →
        (Course.of options).pointed .SRC = some .immediate →
          (Course.of options).pointed .DST = some (.register dst) →
            ∃ src, (Course.of options).named .SRC = some src ∧
              ((Course.of options).valued = true → dst.width = 32 →
                (Course.of options).size src.cell =
                  (Course.of options).size dst.cell)

section Checked

variable {state : State} {instruction : Instruction}

/-- What `check_operands` says where both operands point to something. -/
theorem check_pointed (follows : Follows (Course.of options) state)
    (instruction : Instruction) {dst : RegisterName} {pointer : Pointer}
    (dst_pointed : (Course.of options).pointed .DST = some (.register dst))
    (src_pointed : (Course.of options).pointed .SRC = some pointer) :
    checkOperands instruction.opcode state =
      ((Course.of options).named .SRC).map fun src =>
        decide ((Course.of options).size src.cell =
          (Course.of options).size dst.cell) := by
  have dst_named := (Course.coherent_of options).named .DST dst dst_pointed
  rw [follows.check, dst_pointed, src_pointed, dst_named, if_neg (by simp)]
  cases (Course.of options).named .SRC with
  | none => rfl
  | some src => rfl

/-- What it says where one of them does not. -/
theorem check_missing (follows : Follows (Course.of options) state)
    (instruction : Instruction) {operand : Operand}
    (missing : (Course.of options).pointed operand = none) :
    checkOperands instruction.opcode state = some false := by
  rw [follows.check]
  apply if_pos
  cases operand with
  | DST => exact Or.inl missing
  | SRC => exact Or.inr missing

/-- On a furnished command line it says something. -/
theorem check_furnished (furnished : Furnished options arguments)
    (follows : Follows (Course.of options) state)
    (unreported : (Course.of options).reported = false) {count : Dword}
    (given : instructionOf arguments = some (instruction.opcode, count)) :
    checkOperands instruction.opcode state ≠ none := by
  have coherent := Course.coherent_of options
  cases src_pointed : (Course.of options).pointed .SRC with
  | none =>
      rw [check_missing follows instruction src_pointed]
      exact Option.some_ne_none _
  | some pointer =>
      cases dst_pointed : (Course.of options).pointed .DST with
      | none =>
          rw [check_missing follows instruction dst_pointed]
          exact Option.some_ne_none _
      | some target =>
          cases target with
          | immediate => exact absurd dst_pointed coherent.dst
          | register dst =>
              have named : ∃ src,
                  (Course.of options).named .SRC = some src := by
                cases pointer with
                | register src =>
                    exact ⟨src, coherent.named .SRC src src_pointed⟩
                | immediate =>
                    rcases furnished.immediate instruction count dst given
                      unreported src_pointed dst_pointed with ⟨src, named, _⟩
                    exact ⟨src, named⟩
              rcases named with ⟨src, named⟩
              rw [check_pointed follows instruction dst_pointed src_pointed,
                named]
              exact Option.some_ne_none _

end Checked

section Furnished

variable (stack words) (furnished : Furnished options arguments)
include furnished

/-- Only `JCXZ` reads through a null pointer. -/
theorem fault_is_jump (fault : run stack options arguments words = none) :
    ∃ count, instructionOf arguments = some (.JCXZ, count) := by
  have allowed := furnished.loop
  have unreported : (Course.of options).reported = false := by
    rw [← Bool.not_eq_true]
    intro reported
    have reports : ∃ after,
        run stack options arguments words = some after ∧ after.e ≠ 0 :=
      run_reports allowed (Or.inl reported)
    rcases reports with ⟨after, ran, _⟩
    rw [fault] at ran
    cases ran
  cases given : instructionOf arguments with
  | none =>
      rcases run_reports allowed (Or.inr given) with ⟨after, ran, _⟩
      rw [fault] at ran
      cases ran
  | some found =>
      rcases found with ⟨opcode, count⟩
      rcases run_executes allowed unreported given with
        ⟨state, follows, _, ran⟩
      rw [fault] at ran
      rcases opcode_cases opcode with
        ⟨shift, rfl⟩ | ⟨instruction, rfl⟩ | jump
      · rcases execute_shift follows shift count with ⟨after, done, _⟩
        rw [done] at ran
        cases ran
      · have checked := check_furnished furnished follows unreported given
        rcases Option.ne_none_iff_exists'.mp checked with
          ⟨accepted, isChecked⟩
        cases accepted with
        | false =>
            rw [execute_refused isChecked] at ran
            cases ran
        | true =>
            rcases execute_accepted follows isChecked count with
              ⟨after, done, _⟩
            rw [done] at ran
            cases ran
      · exact ⟨count, by rw [execute_other count state jump ran.symm]⟩

/-- An operand that is needed and points to nothing is reported. -/
theorem missing_reported {opcode : Opcode} {count : Dword} {operand : Operand}
    (given : instructionOf arguments = some (opcode, count))
    (needs : opcode.needs operand = true)
    (missing : (Course.of options).pointed operand = none) :
    ∃ after, run stack options arguments words = some after ∧
      after.e ≠ 0 := by
  have allowed := furnished.loop
  cases unreported : (Course.of options).reported with
  | true => exact run_reports allowed (Or.inl unreported)
  | false =>
      rcases run_executes allowed unreported given with
        ⟨state, follows, _, ran⟩
      rw [ran]
      rcases opcode_cases opcode with
        ⟨shift, rfl⟩ | ⟨instruction, rfl⟩ | jump
      · have isDst : operand = .DST := by
          cases shift <;> exact of_decide_eq_true needs
        subst isDst
        rcases execute_shift follows shift count with ⟨after, done, reports⟩
        exact ⟨after, done, reports missing⟩
      · refine ⟨{ state with e := 1 }, ?_, by simp⟩
        exact execute_refused (check_missing follows instruction missing)
      · rw [jump operand] at needs
        cases needs

/-- An immediate source with a value is used. -/
theorem immediate_used {instruction : Instruction} {count : Dword}
    {dst : RegisterName}
    (given : instructionOf arguments = some (instruction.opcode, count))
    (unreported : (Course.of options).reported = false)
    (src_pointed : (Course.of options).pointed .SRC = some .immediate)
    (valued : (Course.of options).valued = true)
    (dst_pointed : (Course.of options).pointed .DST = some (.register dst))
    (wide : dst.width = 32) :
    ∃ after, run stack options arguments words = some after ∧
      after.e = 0 := by
  rcases furnished.immediate instruction count dst given unreported
    src_pointed dst_pointed with ⟨src, named, sizes⟩
  rcases run_executes furnished.loop unreported given with
    ⟨state, follows, noError, ran⟩
  have accepted : checkOperands instruction.opcode state = some true := by
    rw [check_pointed follows instruction dst_pointed src_pointed, named,
      Option.map_some, decide_eq_true (sizes valued wide)]
  rcases execute_accepted follows accepted count with ⟨after, done, same⟩
  exact ⟨after, ran.trans done, same.trans noError⟩

theorem complete_of_furnished : Complete stack words options arguments where
  loop := by
    rcases (follows_start words).run stack furnished.loop with
      ⟨state, ran, _⟩
    rw [ran]
    exact Option.some_ne_none _
  switch := fault_is_jump stack words furnished
  option := by
    rintro front given back rfl lacks
    exact run_reports furnished.loop
      (Or.inl (Course.reported_of_lacks furnished.loop lacks))
  operand _ _ _ := missing_reported stack words furnished
  immediate _ _ _ := immediate_used stack words furnished

end Furnished

theorem furnished_of_complete {stack : Dword} {words : Cell → Dword}
    (complete : Complete stack words options arguments) :
    Furnished options arguments := by
  have allowed : Course.start.AllowsAll options := by
    by_contra refused
    exact complete.loop ((follows_start words).run_fault stack refused)
  refine ⟨allowed, ?_⟩
  intro instruction count dst given unreported src_pointed dst_pointed
  have executed : ∃ state, Follows (Course.of options) state ∧ state.e = 0 ∧
      run stack options arguments words =
        execute instruction.opcode count state :=
    run_executes allowed unreported given
  rcases executed with ⟨state, follows, _, ran⟩
  have checked :=
    check_pointed follows instruction dst_pointed src_pointed
  cases named : (Course.of options).named .SRC with
  | none =>
      rw [named, Option.map_none] at checked
      rw [execute_fault checked] at ran
      rcases complete.switch ran with ⟨other, jumps⟩
      rw [given] at jumps
      cases instruction <;> cases jumps
  | some src =>
      refine ⟨src, rfl, ?_⟩
      intro valued wide
      by_contra differ
      rw [named, Option.map_some, decide_eq_false differ] at checked
      rw [execute_refused checked] at ran
      rcases complete.immediate instruction count dst given unreported
        src_pointed valued dst_pointed wide with ⟨after, done, noError⟩
      rw [ran] at done
      cases done
      cases noError

/-- **Missing operands.**  No null pointer is followed, what is missing is
reported, and an immediate source with a value can be used, on the furnished
command lines only. -/
theorem complete_iff_furnished (stack : Dword) (words : Cell → Dword)
    (options : List Given) (arguments : List String) :
    Complete stack words options arguments ↔ Furnished options arguments :=
  ⟨furnished_of_complete, complete_of_furnished stack words⟩

/-- `ia32emu -d -r eax -s -i -v 5 MOV`. -/
theorem not_complete :
    ¬ Complete 0 (fun _ => 0)
      [.dst, .register (.dword .eax), .src, .immediate, .value "5"]
      ["MOV"] := by
  intro complete
  exact complete.loop (by decide)

end Atomicles.Emulator
