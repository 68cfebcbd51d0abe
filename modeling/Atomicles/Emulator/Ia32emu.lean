import Mathlib.Algebra.Group.Nat.Defs
import Atomicles.Emulator.Registers

/-!
# `ia32emu.c`

The emulator from its command line to its registers.  `getopt_long` has
already split the command line into options and arguments.  `none` is a
dereferenced null pointer or an access outside a table; messages are left out.
-/

namespace Atomicles.Emulator

/-- `OPCODE`. -/
inductive Opcode where
  | SAL | SAR | SHL | SHR
  | MOV
  | ADD | SUB
  | OR | AND | XOR
  | JA | JAE | JB | JBE | JC | JCXZ | JECXZ | JE | JG | JGE | JL | JLE | JNA
  | JNAE | JNB | JNBE | JNC | JNE | JNG | JNGE | JNL | JNLE | JNO | JNP | JNS
  | JNZ | JO | JP | JPE | JPO | JS | JZ
  | TEST | CMP
deriving DecidableEq, Repr

/-- `set_instruction`; there is no text for `CMP`. -/
def setInstruction : String → Option Opcode
  | "SAL" => some .SAL
  | "SAR" => some .SAR
  | "SHL" => some .SHL
  | "SHR" => some .SHR
  | "JA" => some .JA
  | "JAE" => some .JAE
  | "JB" => some .JB
  | "JBE" => some .JBE
  | "JC" => some .JC
  | "JCXZ" => some .JCXZ
  | "JECXZ" => some .JECXZ
  | "JE" => some .JE
  | "JG" => some .JG
  | "JGE" => some .JGE
  | "JL" => some .JL
  | "JLE" => some .JLE
  | "JNA" => some .JNA
  | "JNAE" => some .JNAE
  | "JNB" => some .JNB
  | "JNBE" => some .JNBE
  | "JNC" => some .JNC
  | "JNE" => some .JNE
  | "JNG" => some .JNG
  | "JNGE" => some .JNGE
  | "JNL" => some .JNL
  | "JNLE" => some .JNLE
  | "JNO" => some .JNO
  | "JNP" => some .JNP
  | "JNS" => some .JNS
  | "JNZ" => some .JNZ
  | "JO" => some .JO
  | "JP" => some .JP
  | "JPE" => some .JPE
  | "JPO" => some .JPO
  | "JS" => some .JS
  | "JZ" => some .JZ
  | "MOV" => some .MOV
  | "AND" => some .AND
  | "XOR" => some .XOR
  | "OR" => some .OR
  | "ADD" => some .ADD
  | "SUB" => some .SUB
  | "TEST" => some .TEST
  | _ => none

/-- `OPERAND_DST` and `OPERAND_SRC`. -/
inductive Operand where
  | DST | SRC
deriving DecidableEq, Repr

/-- An option, as `getopt_long` reports it. -/
inductive EmulatorOption where
  | help
  | dst
  | src
  | immediate
  | register (name : String)
  | value (text : String)
  | unknown
deriving DecidableEq, Repr

/-- The globals of `ia32emu.c` and the locals of `main` that the option loop
sets. -/
structure State where
  memory : Memory
  /-- `operands[OPERAND_DST]` and `operands[OPERAND_SRC]`;
  `operands[OPERAND_BUF]` always points to `buffer`. -/
  operands : Operand → Option Cell
  registers : Operand → Option Cell
  target : Operand
  /-- Which of the operands `operand_ptr` points to. -/
  operandPtr : Option Operand
  help : Bool
  e : Int
  jump : Bool

/-- The emulator after `registers$init`. -/
def State.start (words : Cell → Dword) : State where
  memory := initRegisters words
  operands _ := none
  registers _ := none
  target := .DST
  operandPtr := none
  help := false
  e := 0
  jump := false

/-! ## Shifts and flags -/

/-- One round of the loop of `shift`: the value and `eflags`. -/
def shiftOnce (ins : Opcode) (dst eflags : Dword) : Dword × Dword :=
  if ins = .SAL ∨ ins = .SHL then
    (dst <<< 1, setField eflags CF ((MSB dst).getLsbD 0))
  else
    let eflags := setField eflags CF ((LSB dst).getLsbD 0)
    if ins = .SAR then (dst >>> 1 ||| (dst &&& 0x80000000), eflags)
    else (dst >>> 1, eflags)

/-- The loop of `shift`. -/
def shiftLoop (ins : Opcode) : Nat → Dword → Dword → Dword × Dword
  | 0, dst, eflags => (dst, eflags)
  | cnt + 1, dst, eflags =>
      let round := shiftOnce ins dst eflags
      shiftLoop ins cnt round.1 round.2

/-- `shift`: the value it returns and `eflags` after it. -/
def shift (ins : Opcode) (dst cnt eflags : Dword) : Dword × Dword :=
  let (dst, eflags) := shiftLoop ins (cnt &&& 0x1F).toNat dst eflags
  if cnt &&& 0x1F = 1 then
    if ins = .SAL ∨ ins = .SHL then
      (dst, setField eflags OF ((MSB dst).getLsbD 0 ^^ eflags.getLsbD CF))
    else if ins = .SAR then (dst, setField eflags OF false)
    else (dst, setField eflags OF ((MSB dst).getLsbD 0))
  else (dst, eflags)

/-- The cases of `setEFLAGS` from `TEST` on. -/
def setTestFlags (buffer eflags : Dword) : Dword :=
  let eflags := setField eflags CF false
  let eflags := setField eflags OF false
  let eflags := setField eflags SF ((MSB buffer).getLsbD 0)
  let eflags := setField eflags ZF (decide (buffer = 0))
  setField eflags PF (BitwiseXNOR32 buffer)

/-- What `setEFLAGS` makes of `eflags`, from the values of the operands. -/
def flagsAfter (opcode : Opcode) (dst src buffer eflags : Dword) : Dword :=
  let eflags :=
    match opcode with
    | .SUB | .CMP => if dst < src then setField eflags CF true else eflags
    -- `ADD` falls through to the flags of `TEST`.
    | .ADD =>
        setTestFlags buffer
          (if buffer < dst then setField eflags CF true else eflags)
    | .TEST => setTestFlags buffer eflags
    | _ => eflags
  setField eflags ZF (decide (buffer = 0))

/-- `setEFLAGS`. -/
def setEFLAGS (opcode : Opcode) (dst src : Cell) (memory : Memory) : Memory :=
  memory.set .eflags
    (flagsAfter opcode (memory.cells dst) (memory.cells src)
      (memory.cells .buffer) (memory.cells .eflags))

/-- `commit`. -/
def commit (dst : Cell) (memory : Memory) : Memory :=
  (memory.set dst (memory.cells .buffer)).set .buffer 0xFFFFFFFF

/-! ## `strtoul` -/

/-- The value of a digit in any base up to 36. -/
def digitValue (c : Char) : Option Nat :=
  if '0' ≤ c ∧ c ≤ '9' then some (c.toNat - '0'.toNat)
  else if 'a' ≤ c ∧ c ≤ 'z' then some (c.toNat - 'a'.toNat + 10)
  else if 'A' ≤ c ∧ c ≤ 'Z' then some (c.toNat - 'A'.toNat + 10)
  else none

/-- A digit of a base. -/
def digitOf (base : Nat) (c : Char) : Option Nat :=
  (digitValue c).filter (· < base)

/-- The number at the start of a text and the text after it. -/
def readDigits (base : Nat) : List Char → Nat → Nat × List Char
  | [], total => (total, [])
  | c :: rest, total =>
      match digitOf base c with
      | some digit => readDigits base rest (total * base + digit)
      | none => (total, c :: rest)

/-- `isspace`. -/
def isSpace (c : Char) : Bool :=
  c == ' ' || ('\t' ≤ c && c ≤ '\r')

def ULONG_MAX : Nat := 0xffffffffffffffff

/-- `strtoul(text, &ptr, 0)`: the value and what `ptr` points to. -/
def strtoul (text : List Char) : Nat × List Char :=
  let body := text.dropWhile isSpace
  let negative := body.head? = some '-'
  let body :=
    if body.head? = some '-' ∨ body.head? = some '+' then body.tail else body
  let hex := body.head? = some '0' ∧
    (body[1]? = some 'x' ∨ body[1]? = some 'X') ∧
      (body[2]?.bind (digitOf 16)).isSome
  let base := if hex then 16 else if body.head? = some '0' then 8 else 10
  let number := if hex then body.drop 2 else body
  if (number.head?.bind (digitOf base)).isNone then (0, text)
  else
    let (total, rest) := readDigits base number 0
    (if ULONG_MAX < total then ULONG_MAX
      else if negative then (ULONG_MAX + 1 - total) % (ULONG_MAX + 1)
      else total, rest)

/-! ## The options -/

/-- The loop for a text with other characters than `strtoul` reads. -/
def readHex : List Char → Dword → Dword
  | [], value => value
  | [c], value => value ||| BitVec.ofNat 32 (hctoc c)
  | c :: rest, value => readHex rest ((value ||| BitVec.ofNat 32 (hctoc c)) <<< 4)

def EFLAGS_RESET : Dword := 0x00000020

/-- The case of `-v`; `stack` is what `operand_val` holds before it is
assigned. -/
def valueOption (stack : Dword) (text : String) (state : State) :
    Option State := do
  let operand ← state.operandPtr
  match state.operands operand with
  | none => return { state with e := 1 }
  | some cell =>
      if text ≠ "RST" then
        let (value, rest) := strtoul text.toList
        let operandVal := BitVec.ofNat 32 value
        let register ← state.registers state.target
        if operandVal.toNat ≤ 2 ^ registerSize state.memory register then
          let operandVal := if rest ≠ [] then readHex text.toList 0 else operandVal
          return { state with memory := state.memory.set cell operandVal }
        else
          -- The value is stored all the same.
          return { state with e := 1, memory := state.memory.set cell operandVal }
      else if cell = .eflags then
        return { state with memory := state.memory.set cell EFLAGS_RESET }
      else return { state with memory := state.memory.set cell stack }

/-- One round of the option loop of `main`. -/
def optionStep (stack : Dword) (state : State) :
    EmulatorOption → Option State
  | .help => some { state with help := true }
  | .dst => some { state with target := .DST, operandPtr := some .DST }
  | .src => some { state with target := .SRC, operandPtr := some .SRC }
  | .immediate =>
      if state.target = .SRC then
        state.operandPtr.map fun operand =>
          { state with
            operands := Function.update state.operands operand (some .immediate) }
      else some { state with e := 1 }
  | .register name =>
      match state.operandPtr with
      | none => some { state with e := 1 }
      | some operand =>
          (registerByName name state.memory).map fun found =>
            { state with
              memory := found.2
              operands := Function.update state.operands operand (some found.1)
              registers :=
                Function.update state.registers state.target (some found.1) }
  | .value text => valueOption stack text state
  | .unknown => some { state with e := 1 }

/-! ## The execution -/

/-- The instruction and its count, and the error code if there is none. -/
def readInstruction (arguments : List String) (state : State) :
    State × Opcode × Dword :=
  match arguments with
  | [] => ({ state with e := 1 }, .SAL, 1)
  | text :: rest =>
      if state.e = 0 then
        match setInstruction text with
        | none => ({ state with help := true, e := 1 }, .SAL, 1)
        | some opcode =>
            match opcode, rest with
            | .SAR, [count] | .SHR, [count] | .SAL, [count] | .SHL, [count] =>
                let (value, ptr) := strtoul count.toList
                (if ptr ≠ [] then { state with e := 1 } else state, opcode,
                  BitVec.ofNat 32 (value % 0x100))
            | _, [] => (state, opcode, 1)
            | _, _ => ({ state with e := 1 }, opcode, 1)
      else ({ state with e := 1 }, .SAL, 1)

/-- `check_operands`. -/
def checkOperands (opcode : Opcode) (state : State) : Option Bool :=
  match opcode with
  | .SAR | .SHR | .SAL | .SHL => some (state.operands .DST).isSome
  | _ =>
      if (state.operands .DST).isNone ∨ (state.operands .SRC).isNone then
        some false
      else do
        let src ← state.registers .SRC
        let dst ← state.registers .DST
        return registerSize state.memory src = registerSize state.memory dst

/-- The pattern of the arithmetic cases: the scratch operand is computed, the
flags are set, and unless the instruction only compares the result goes to
the destination. -/
def arithmetic (opcode : Opcode) (commits : Bool)
    (compute : (buffer dst src : Dword) → Dword) (state : State) :
    Option State := do
  if ← checkOperands opcode state then
    let dst ← state.operands .DST
    let src ← state.operands .SRC
    let memory := state.memory.set .buffer
      (compute (state.memory.cells .buffer) (state.memory.cells dst)
        (state.memory.cells src))
    let memory := setEFLAGS opcode dst src memory
    return { state with memory := if commits then commit dst memory else memory }
  else return { state with e := 1 }

/-- The cases of the shifts, which all call `shift(SAR, ..)`. -/
def shiftCase (opcode : Opcode) (count : Dword) (state : State) :
    Option State := do
  if ← checkOperands opcode state then
    let dst ← state.operands .DST
    let (value, eflags) := shift .SAR (state.memory.cells dst) count
      (state.memory.cells .eflags)
    let memory := (state.memory.set .eflags eflags).set .buffer value
    -- `setEFLAGS` looks at no operand but the scratch one in these cases.
    let memory := setEFLAGS opcode dst dst memory
    return { state with memory := commit dst memory }
  else return { state with e := 1 }

/-- A field of `eflags`. -/
def State.flag (state : State) (field : Nat) : Bool :=
  (state.memory.cells .eflags).getLsbD field

/-- The execution switch. -/
def execute (opcode : Opcode) (count : Dword) (state : State) :
    Option State :=
  let jump (taken : Bool) : Option State := some { state with jump := taken }
  match opcode with
  | .SAR | .SHR | .SAL | .SHL => shiftCase opcode count state
  | .MOV => arithmetic .MOV true (fun _ _ src => src) state
  | .SUB => arithmetic .SUB true (fun buffer _ src => buffer - src) state
  | .CMP => arithmetic .CMP false (fun buffer _ src => buffer - src) state
  | .AND => arithmetic .AND true (fun _ dst src => dst &&& src) state
  | .TEST => arithmetic .TEST false (fun _ dst src => dst &&& src) state
  | .ADD => arithmetic .ADD true (fun buffer _ src => buffer + src) state
  | .OR => arithmetic .OR true (fun buffer _ src => buffer ||| src) state
  | .XOR => arithmetic .XOR true (fun buffer _ src => buffer ^^^ src) state
  -- `r32` is still `NULL` when `JCXZ` reads its value.
  | .JCXZ => none
  | .JECXZ =>
      (register REG32_GPR_ECX state.memory).map fun found =>
        { state with
          memory := found.2, jump := decide (found.2.cells found.1 = (0 : Dword)) }
  | .JNB | .JNC | .JAE => jump (!state.flag CF)
  | .JNO => jump (!state.flag OF)
  | .JPO | .JNP => jump (!state.flag PF)
  | .JNS => jump (!state.flag SF)
  | .JNE | .JNZ => jump (!state.flag ZF)
  | .JC | .JNAE | .JB => jump (state.flag CF)
  | .JO => jump (state.flag OF)
  | .JPE | .JP => jump (state.flag PF)
  | .JS => jump (state.flag SF)
  | .JE | .JZ => jump (state.flag ZF)
  | .JNBE | .JA => jump (!state.flag CF && !state.flag ZF)
  | .JBE | .JNA => jump (state.flag CF || state.flag ZF)
  | .JNLE | .JG => jump (!state.flag ZF && state.flag SF == state.flag OF)
  | .JNG | .JLE => jump (state.flag ZF || state.flag SF != state.flag OF)
  | .JNL | .JGE => jump (state.flag SF == state.flag OF)
  | .JNGE | .JL => jump (state.flag SF != state.flag OF)

/-- `main`, from the words that `registers$init` reads to the state in which
`registers$delete` writes them back. -/
def main (stack : Dword) (options : List EmulatorOption)
    (arguments : List String) (words : Cell → Dword) : Option State := do
  let state ← options.foldlM (optionStep stack) (.start words)
  let (state, opcode, count) := readInstruction arguments state
  if state.help then return state
  else if state.e = 0 then execute opcode count state
  else return state

end Atomicles.Emulator
