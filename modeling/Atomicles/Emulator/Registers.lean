import Mathlib.Logic.Function.Basic
import Atomicles.Emulator.Bits

/-!
# `registers.c` and `registers.h`

The five registers and the table that names them.  A register is one memory
cell with an `id`; the 16-bit and 8-bit names of a general register lead to
the same cell and write their own `id` into it.
-/

namespace Atomicles.Emulator

/-- What an operand pointer of the emulator can point to: the `dword` of one
of the registers, `immediate`, or `buffer`. -/
inductive Cell where
  | eflags | eax | ebx | ecx | edx | immediate | buffer
deriving DecidableEq, Repr

def REG32_EFLAGS : Dword := 0x010
def REG32_GPR_EAX : Dword := 0x104
def REG32_GPR_EBX : Dword := 0x114
def REG32_GPR_ECX : Dword := 0x124
def REG32_GPR_EDX : Dword := 0x134
def REG16_GPR_AX : Dword := 0x102
def REG16_GPR_BX : Dword := 0x112
def REG16_GPR_CX : Dword := 0x122
def REG16_GPR_DX : Dword := 0x132
def REG16_GPR_AL : Dword := 0x101
def REG16_GPR_BL : Dword := 0x111
def REG16_GPR_CL : Dword := 0x121
def REG16_GPR_DL : Dword := 0x131
def REG16_GPR_AH : Dword := 0x141
def REG16_GPR_BH : Dword := 0x151
def REG16_GPR_CH : Dword := 0x161
def REG16_GPR_DH : Dword := 0x171
def FILTER_SIZE : Dword := 0x00F

/-- `__registers$REGISTERS`; all other slots are `NULL`. -/
def REGISTERS : List (Dword × Cell) :=
  [(REG32_EFLAGS, .eflags),
    (REG32_GPR_EAX, .eax), (REG16_GPR_AX, .eax),
    (REG16_GPR_AL, .eax), (REG16_GPR_AH, .eax),
    (REG32_GPR_EBX, .ebx), (REG16_GPR_BX, .ebx),
    (REG16_GPR_BL, .ebx), (REG16_GPR_BH, .ebx),
    (REG32_GPR_ECX, .ecx), (REG16_GPR_CX, .ecx),
    (REG16_GPR_CL, .ecx), (REG16_GPR_CH, .ecx),
    (REG32_GPR_EDX, .edx), (REG16_GPR_DX, .edx),
    (REG16_GPR_DL, .edx), (REG16_GPR_DH, .edx)]

/-- The emulator's memory: the cells, and the `id` of each register. -/
structure Memory where
  cells : Cell → Dword
  ids : Cell → Dword

namespace Memory

def set (memory : Memory) (cell : Cell) (value : Dword) : Memory :=
  { memory with cells := Function.update memory.cells cell value }

def setId (memory : Memory) (cell : Cell) (id : Dword) : Memory :=
  { memory with ids := Function.update memory.ids cell id }

end Memory

/-! ## The fields of `eflags32_t` -/

def CF : Nat := 0
def PF : Nat := 2
def AF : Nat := 4
def ZF : Nat := 6
def SF : Nat := 7
def DF : Nat := 10
def OF : Nat := 11

/-- The assignment to a field of one bit. -/
def setField (dword : Dword) (field : Nat) (bit : Bool) : Dword :=
  if bit then dword ||| (1 : Dword) <<< field
  else dword &&& ~~~((1 : Dword) <<< field)

/-! ## The functions -/

/-- The registers that `registers$init` builds from the words of the segment,
in the order eflags, eax, ebx, ecx, edx. -/
def initRegisters (words : Cell → Dword) : Memory where
  cells
    | .eflags =>
        setField (setField (setField (setField (words .eflags) 1 true) 3 false)
          5 false) 0x0F false
    | .immediate => 0
    | .buffer => 0
    | cell => words cell
  ids
    | .eflags => REG32_EFLAGS
    | .eax => REG32_GPR_EAX
    | .ebx => REG32_GPR_EBX
    | .ecx => REG32_GPR_ECX
    | .edx => REG32_GPR_EDX
    | _ => 0

/-- `registers$register`; an empty slot of the table is dereferenced. -/
def register (id : Dword) (memory : Memory) : Option (Cell × Memory) :=
  (REGISTERS.lookup id).map fun cell => (cell, memory.setId cell id)

/-- The value of a `char`, which is signed. -/
def charValue (c : Char) : Int :=
  if c.toNat < 0x80 then c.toNat else (c.toNat : Int) - 0x100

/-- The `id` that `registers$register_by_name` computes; a name of less than
two characters makes it read in front of the string. -/
def idOfName (operand : String) : Option Dword :=
  if operand = "eflags" then some REG32_EFLAGS
  else
    let chars := operand.toList
    if chars.length < 2 then none
    else
      let c := chars.getD (chars.length - 2) '\x00'
      let id : Dword :=
        0x100 ||| BitVec.ofInt 32 ((charValue c - charValue 'a') * 16)
      some
        (match chars.getD 1 '\x00' with
        | 'l' => id ||| 1
        | 'h' => id ||| 1
        | 'x' => id ||| 2
        | _ => id ||| 4)

/-- `registers$register_by_name`. -/
def registerByName (operand : String) (memory : Memory) :
    Option (Cell × Memory) :=
  (idOfName operand).bind fun id => register id memory

/-- `registers$size`, as a `uint8_t`. -/
def registerSize (memory : Memory) (cell : Cell) : Nat :=
  ((memory.ids cell &&& FILTER_SIZE).toNat * 8) % 0x100

end Atomicles.Emulator
