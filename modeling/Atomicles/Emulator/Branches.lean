import Mathlib.Logic.Basic
import Atomicles.Emulator.Session

/-!
# Compare, then branch

A subtraction or a comparison in one invocation and a conditional jump in the
next one.  Every jump tests one condition on the flags or its negation; the
flags that reach it are those that the first invocation left.
-/

namespace Atomicles.Emulator

/-! ## Jumps and their conditions -/

/-- `SUB` and `CMP`. -/
inductive Comparison where
  | SUB | CMP
deriving DecidableEq, Repr

def Comparison.instruction : Comparison → Instruction
  | .SUB => .SUB
  | .CMP => .CMP

/-- The jumps that follow a comparison. -/
inductive Jump where
  | JA | JNBE | JAE | JNB | JNC | JB | JNAE | JC | JBE | JNA | JE | JZ | JNE
  | JNZ | JG | JNLE | JGE | JNL | JL | JNGE | JLE | JNG | JS | JNS | JO | JNO
deriving DecidableEq, Repr

/-- What a jump can test. -/
inductive Condition where
  | above | below | equal | greater | less | sign | overflow
deriving DecidableEq, Repr

namespace Condition

/-- The relation between the compared values. -/
def Holds : Condition → (dst src : Dword) → Prop
  | .above, dst, src => src < dst
  | .below, dst, src => dst < src
  | .equal, dst, src => dst = src
  | .greater, dst, src => src.toInt < dst.toInt
  | .less, dst, src => dst.toInt < src.toInt
  | .sign, dst, src => (dst - src).msb = true
  | .overflow, dst, src => BitVec.ssubOverflow dst src = true

/-- The test of the flags. -/
def shows : Condition → Status → Bool
  | .above, flags => !flags.CF && !flags.ZF
  | .below, flags => flags.CF
  | .equal, flags => flags.ZF
  | .greater, flags => !flags.ZF && flags.SF == flags.OF
  | .less, flags => flags.SF != flags.OF
  | .sign, flags => flags.SF
  | .overflow, flags => flags.OF

end Condition

namespace Jump

def text : Jump → String
  | .JA => "JA"
  | .JNBE => "JNBE"
  | .JAE => "JAE"
  | .JNB => "JNB"
  | .JNC => "JNC"
  | .JB => "JB"
  | .JNAE => "JNAE"
  | .JC => "JC"
  | .JBE => "JBE"
  | .JNA => "JNA"
  | .JE => "JE"
  | .JZ => "JZ"
  | .JNE => "JNE"
  | .JNZ => "JNZ"
  | .JG => "JG"
  | .JNLE => "JNLE"
  | .JGE => "JGE"
  | .JNL => "JNL"
  | .JL => "JL"
  | .JNGE => "JNGE"
  | .JLE => "JLE"
  | .JNG => "JNG"
  | .JS => "JS"
  | .JNS => "JNS"
  | .JO => "JO"
  | .JNO => "JNO"

def opcode : Jump → Opcode
  | .JA => .JA
  | .JNBE => .JNBE
  | .JAE => .JAE
  | .JNB => .JNB
  | .JNC => .JNC
  | .JB => .JB
  | .JNAE => .JNAE
  | .JC => .JC
  | .JBE => .JBE
  | .JNA => .JNA
  | .JE => .JE
  | .JZ => .JZ
  | .JNE => .JNE
  | .JNZ => .JNZ
  | .JG => .JG
  | .JNLE => .JNLE
  | .JGE => .JGE
  | .JNL => .JNL
  | .JL => .JL
  | .JNGE => .JNGE
  | .JLE => .JLE
  | .JNG => .JNG
  | .JS => .JS
  | .JNS => .JNS
  | .JO => .JO
  | .JNO => .JNO

/-- The relation that a jump names, between the value of the destination and
the value of the source. -/
def Names : Jump → (dst src : Dword) → Prop
  | .JA, dst, src => src < dst
  | .JNBE, dst, src => src < dst
  | .JAE, dst, src => src ≤ dst
  | .JNB, dst, src => src ≤ dst
  | .JNC, dst, src => src ≤ dst
  | .JB, dst, src => dst < src
  | .JNAE, dst, src => dst < src
  | .JC, dst, src => dst < src
  | .JBE, dst, src => dst ≤ src
  | .JNA, dst, src => dst ≤ src
  | .JE, dst, src => dst = src
  | .JZ, dst, src => dst = src
  | .JNE, dst, src => dst ≠ src
  | .JNZ, dst, src => dst ≠ src
  | .JG, dst, src => src.toInt < dst.toInt
  | .JNLE, dst, src => src.toInt < dst.toInt
  | .JGE, dst, src => src.toInt ≤ dst.toInt
  | .JNL, dst, src => src.toInt ≤ dst.toInt
  | .JL, dst, src => dst.toInt < src.toInt
  | .JNGE, dst, src => dst.toInt < src.toInt
  | .JLE, dst, src => dst.toInt ≤ src.toInt
  | .JNG, dst, src => dst.toInt ≤ src.toInt
  | .JS, dst, src => (dst - src).msb = true
  | .JNS, dst, src => (dst - src).msb = false
  | .JO, dst, src => BitVec.ssubOverflow dst src = true
  | .JNO, dst, src => BitVec.ssubOverflow dst src = false

/-- The condition that a jump tests, or whose negation it tests. -/
def condition : Jump → Condition
  | .JA | .JNBE | .JBE | .JNA => .above
  | .JAE | .JNB | .JNC | .JB | .JNAE | .JC => .below
  | .JE | .JZ | .JNE | .JNZ => .equal
  | .JG | .JNLE | .JLE | .JNG => .greater
  | .JGE | .JNL | .JL | .JNGE => .less
  | .JS | .JNS => .sign
  | .JO | .JNO => .overflow

/-- Whether a jump tests the negation. -/
def negated : Jump → Bool
  | .JBE | .JNA | .JAE | .JNB | .JNC | .JNE | .JNZ | .JLE | .JNG | .JGE
  | .JNL | .JNS | .JNO => true
  | _ => false

theorem names_iff (jump : Jump) (dst src : Dword) :
    jump.Names dst src ↔
      (jump.condition.Holds dst src ↔ jump.negated = false) := by
  cases jump <;>
    simp [Names, condition, Condition.Holds, negated, BitVec.not_lt]

/-- The switch on a jump. -/
theorem execute_jump (jump : Jump) (count : Dword) (state : State) :
    execute jump.opcode count state =
      some
        { state with
          jump := jump.condition.shows state.status ^^ jump.negated } := by
  cases jump <;>
    simp [execute, opcode, condition, Condition.shows, negated, State.status,
      statusOf, State.flag, bne]

end Jump

/-! ## Where the branches are right -/

/-- The flags from before and the values after which a jump on a condition is
right.  `SUB` sets `CF` and never clears it, takes `ZF` from the source alone
and leaves `SF` and `OF`; `CMP` sets no flag at all. -/
def Comparison.Right :
    Comparison → Condition → Status → (dst src : Dword) → Prop
  | .SUB, .above, before, dst, src =>
      (src < dst → before.CF = false ∧ src ≠ 0) ∧
        (dst = src → before.CF = true ∨ src = 0)
  | .SUB, .below, before, dst, src => src ≤ dst → before.CF = false
  | .SUB, .equal, _, dst, src => src = 0 ↔ dst = src
  | .SUB, .greater, before, dst, src =>
      src ≠ 0 ∧ before.SF = before.OF ↔ src.toInt < dst.toInt
  | .CMP, .above, before, dst, src =>
      before.CF = false ∧ before.ZF = false ↔ src < dst
  | .CMP, .below, before, dst, src => before.CF = true ↔ dst < src
  | .CMP, .equal, before, dst, src => before.ZF = true ↔ dst = src
  | .CMP, .greater, before, dst, src =>
      before.ZF = false ∧ before.SF = before.OF ↔ src.toInt < dst.toInt
  | _, .less, before, dst, src => before.SF ≠ before.OF ↔ dst.toInt < src.toInt
  | _, .sign, before, dst, src => before.SF = (dst - src).msb
  | _, .overflow, before, dst, src =>
      before.OF = BitVec.ssubOverflow dst src

/-- The flags that a comparison leaves show a condition where `Right` says
so. -/
theorem Comparison.shows_iff (comparison : Comparison) (condition : Condition)
    (before : Status) (dst src : Dword) :
    ((condition.shows (comparison.instruction.leaves before dst src) = true) ↔
        condition.Holds dst src) ↔
      comparison.Right condition before dst src := by
  rcases before with ⟨carry, parity, zero, sign, overflow⟩
  cases comparison with
  | SUB =>
      cases condition with
      | above =>
          simp only [Condition.shows, instruction, Instruction.leaves,
            Condition.Holds, Right, BitVec.lt_def, ne_eq, ← BitVec.toNat_inj]
          cases carry
          · simp only [Bool.false_or, Bool.and_eq_true, Bool.not_eq_true',
              decide_eq_false_iff_not, Nat.not_lt, true_and, reduceCtorEq,
              false_or]
            grind
          · simp
      | below =>
          simp only [Condition.shows, instruction, Instruction.leaves,
            Condition.Holds, Right, BitVec.lt_def, BitVec.le_def]
          cases carry
          · simp
          · simp
      | equal =>
          simp [Condition.shows, instruction, Instruction.leaves,
            Condition.Holds, Right]
      | greater =>
          simp [Condition.shows, instruction, Instruction.leaves,
            Condition.Holds, Right]
      | less =>
          simp [Condition.shows, instruction, Instruction.leaves,
            Condition.Holds, Right]
      | sign =>
          simp only [Condition.shows, instruction, Instruction.leaves,
            Condition.Holds, Right]
          exact Bool.eq_iff_iff.symm
      | overflow =>
          simp only [Condition.shows, instruction, Instruction.leaves,
            Condition.Holds, Right]
          exact Bool.eq_iff_iff.symm
  | CMP =>
      cases condition with
      | sign => exact Bool.eq_iff_iff.symm
      | overflow => exact Bool.eq_iff_iff.symm
      | _ =>
          simp [Condition.shows, instruction, Instruction.leaves,
            Condition.Holds, Right]

/-! ## Two invocations -/

/-- The next invocation sees the status flags that were stored. -/
theorem statusOf_started (memory : Memory) (words : Cell → Dword) :
    statusOf
        ((initRegisters (deleteRegisters memory words)).cells .eflags) =
      statusOf (memory.cells .eflags) := by
  simp only [statusOf, initRegisters_eflags]
  rfl

/-- An invocation with a jump alone. -/
theorem main_jump (stack : Dword) (words : Cell → Dword) (jump : Jump) :
    main stack [] [jump.text] words =
      some
        { State.start words with
          jump :=
            jump.condition.shows (State.start words).status ^^
              jump.negated } := by
  have read :
      readInstruction [jump.text] (State.start words) =
        (State.start words, jump.opcode, 1) := by
    cases jump <;>
      simp [readInstruction, State.start, Jump.text, Jump.opcode,
        setInstruction]
  have loop :
      [].foldlM (optionStep stack) (State.start words) =
        some (State.start words) :=
    rfl
  rw [main_executes loop rfl rfl read, jump.execute_jump]

/-- `JECXZ` alone, and `JCXZ`, which reads through a pointer that is still
`NULL`. -/
theorem main_JECXZ (stack : Dword) (words : Cell → Dword) :
    ∃ after,
      main stack [] ["JECXZ"] words = some after ∧
        (after.jump = true ↔ words .ecx = 0) := by
  refine ⟨_, rfl, ?_⟩
  exact decide_eq_true_iff

theorem main_JCXZ (stack : Dword) (words : Cell → Dword) :
    main stack [] ["JCXZ"] words = none :=
  rfl

/-! ## The results -/

/-- **Compare, then branch.**  For every command line that ends in two
operands of 32 bits, whatever they hold and whatever the flags were: after
`SUB` or `CMP` a jump in the next invocation is taken in accordance with its
relation exactly where `Right` says so.  `JECXZ` is right for every `ecx`;
`JCXZ` never gets to its end. -/
theorem branch_iff (stack : Dword) (words : Cell → Dword) :
    (∀ (later : Dword) (options : List EmulatorOption) (before : State)
        (dst : Gpr) (src : Cell) (comparison : Comparison) (jump : Jump),
      options.foldlM (optionStep stack) (.start words) = some before →
        Prepared before dst src →
          ∃ compared branched,
            main stack options [comparison.instruction.text] words =
                some compared ∧
              main later [] [jump.text]
                  (deleteRegisters compared.memory words) = some branched ∧
              ((branched.jump = true ↔
                  jump.Names (before.gprs dst) (before.memory.cells src)) ↔
                comparison.Right jump.condition before.status
                  (before.gprs dst) (before.memory.cells src))) ∧
      (∃ after,
        main stack [] ["JECXZ"] words = some after ∧
          (after.jump = true ↔ words .ecx = 0)) ∧
      main stack [] ["JCXZ"] words = none := by
  refine ⟨?_, main_JECXZ stack words, main_JCXZ stack words⟩
  intro later options before dst src comparison jump loop prepared
  rcases main_status loop prepared comparison.instruction with
    ⟨compared, ran, status⟩
  refine ⟨compared, _, ran, main_jump later _ jump, ?_⟩
  have flags :
      (State.start (deleteRegisters compared.memory words)).status =
        comparison.instruction.leaves before.status (before.gprs dst)
          (before.memory.cells src) :=
    (statusOf_started compared.memory words).trans status
  have shown :=
    comparison.shows_iff jump.condition before.status (before.gprs dst)
      (before.memory.cells src)
  rw [← shown, flags, jump.names_iff]
  cases jump.negated with
  | false => simp
  | true =>
      -- Both sides of the inner equivalence are negated.
      have negation : ∀ (shows : Bool) (holds : Prop),
          ((shows ^^ true) = true ↔ (holds ↔ true = false)) ↔
            (shows = true ↔ holds) := by
        intro shows holds
        cases shows <;> simp
      exact negation _ _

/-- `ia32emu -d -r eax -s -r ebx SUB`, and then `ia32emu JE`. -/
theorem branch_iff_je :
    ∃ before compared branched : State,
      main 0 [.dst, .register "eax", .src, .register "ebx"] ["SUB"]
          (fun _ => 7) = some compared ∧
        main 0 [] ["JE"] (deleteRegisters compared.memory fun _ => 7) =
          some branched ∧
        ((branched.jump = true ↔
            Jump.JE.Names (before.gprs .eax) (before.memory.cells .ebx)) ↔
          Comparison.SUB.Right .equal before.status (before.gprs .eax)
            (before.memory.cells .ebx)) := by
  have loop :
      [EmulatorOption.dst, .register "eax", .src, .register "ebx"].foldlM
          (optionStep 0) (.start fun _ => 7) =
        some _ :=
    rfl
  have right :=
    (branch_iff 0 fun _ => 7).1 0 _ _ .eax .ebx .SUB .JE loop
      ⟨rfl, rfl, rfl, rfl, ⟨.eax, rfl, by decide⟩, ⟨.ebx, rfl, by decide⟩⟩
  rcases right with ⟨compared, branched, right⟩
  exact ⟨_, compared, branched, right⟩

/-- After `SUB` of 5 from 3, `JL` is not taken. -/
theorem branch_misses_less :
    ∃ before compared branched : State,
      [EmulatorOption.dst, .register "eax", .src, .register "ebx"].foldlM
          (optionStep 0) (.start fun cell => if cell = .eax then 3 else 5) =
        some before ∧
        main 0 [.dst, .register "eax", .src, .register "ebx"] ["SUB"]
            (fun cell => if cell = .eax then 3 else 5) = some compared ∧
        main 0 [] ["JL"]
            (deleteRegisters compared.memory
              fun cell => if cell = .eax then 3 else 5) = some branched ∧
        before.gprs .eax = 3 ∧ before.memory.cells .ebx = 5 ∧
          branched.jump = false ∧
          Jump.JL.Names (before.gprs .eax) (before.memory.cells .ebx) := by
  refine ⟨_, _, _, rfl, rfl, rfl, by decide, by decide, by decide, ?_⟩
  show (BitVec.ofNat 32 3).toInt < (BitVec.ofNat 32 5).toInt
  decide

end Atomicles.Emulator
