import Atomicles.Emulator.Operands

/-!
# The names of the registers

`registers.h` has one id for each of seventeen names.  The id that
`registers$register_by_name` computes is the one of the name for thirteen of
them; the names of the high bytes give the ids of the low ones.  No string
makes the function return a null pointer.
-/

namespace Atomicles.Emulator

/-- What a register can be named as. -/
inductive RegisterName where
  | eflags
  | dword (gpr : Gpr)
  | word (gpr : Gpr)
  | low (gpr : Gpr)
  | high (gpr : Gpr)
deriving DecidableEq, Repr

namespace RegisterName

def text : RegisterName → String
  | .eflags => "eflags"
  | .dword .eax => "eax"
  | .dword .ebx => "ebx"
  | .dword .ecx => "ecx"
  | .dword .edx => "edx"
  | .word .eax => "ax"
  | .word .ebx => "bx"
  | .word .ecx => "cx"
  | .word .edx => "dx"
  | .low .eax => "al"
  | .low .ebx => "bl"
  | .low .ecx => "cl"
  | .low .edx => "dl"
  | .high .eax => "ah"
  | .high .ebx => "bh"
  | .high .ecx => "ch"
  | .high .edx => "dh"

/-- The id of a name in `registers.h`. -/
def id : RegisterName → Dword
  | .eflags => REG32_EFLAGS
  | .dword gpr => gpr.id
  | .word .eax => REG16_GPR_AX
  | .word .ebx => REG16_GPR_BX
  | .word .ecx => REG16_GPR_CX
  | .word .edx => REG16_GPR_DX
  | .low .eax => REG16_GPR_AL
  | .low .ebx => REG16_GPR_BL
  | .low .ecx => REG16_GPR_CL
  | .low .edx => REG16_GPR_DL
  | .high .eax => REG16_GPR_AH
  | .high .ebx => REG16_GPR_BH
  | .high .ecx => REG16_GPR_CH
  | .high .edx => REG16_GPR_DH

/-- The register that a name is about. -/
def cell : RegisterName → Cell
  | .eflags => .eflags
  | .dword gpr => gpr.cell
  | .word gpr => gpr.cell
  | .low gpr => gpr.cell
  | .high gpr => gpr.cell

/-- The bits that a name stands for. -/
def width : RegisterName → Nat
  | .eflags => 32
  | .dword _ => 32
  | .word _ => 16
  | .low _ => 8
  | .high _ => 8

/-- The lowest of these bits in the register. -/
def offset : RegisterName → Nat
  | .high _ => 8
  | _ => 0

/-- The value that a name has in the word of its register. -/
def field (name : RegisterName) (word : Dword) : Nat :=
  word.toNat / 2 ^ name.offset % 2 ^ name.width

/-- The bits that `registers$size` reads off the id of a name: the id of
`eflags` has no size in it. -/
def size : RegisterName → Nat
  | .eflags => 0
  | name => name.width

def isHigh : RegisterName → Bool
  | .high _ => true
  | _ => false

/-- The id that is computed from a name. -/
def computedId : RegisterName → Dword
  | .high gpr => (low gpr).id
  | name => name.id

def all : List RegisterName :=
  .eflags :: [Gpr.eax, .ebx, .ecx, .edx].flatMap fun gpr =>
    [.dword gpr, .word gpr, .low gpr, .high gpr]

theorem mem_all (name : RegisterName) : name ∈ all := by
  cases name with
  | eflags => decide
  | dword gpr => cases gpr <;> decide
  | word gpr => cases gpr <;> decide
  | low gpr => cases gpr <;> decide
  | high gpr => cases gpr <;> decide

/-- The name that a string is. -/
def ofText (operand : String) : Option RegisterName :=
  all.find? fun name => name.text = operand

theorem ofText_text (name : RegisterName) : ofText name.text = some name := by
  have each : ∀ name ∈ all, ofText name.text = some name := by
    decide
  exact each name (mem_all name)

theorem text_of_ofText {operand : String} {name : RegisterName}
    (named : ofText operand = some name) : name.text = operand := by
  have found := List.find?_some named
  simpa using found

theorem idOfName_text (name : RegisterName) :
    idOfName name.text = some name.computedId := by
  have each : ∀ name ∈ all, idOfName name.text = some name.computedId := by
    decide
  exact each name (mem_all name)

theorem lookup_computedId (name : RegisterName) :
    REGISTERS.lookup name.computedId = some name.cell := by
  have each : ∀ name ∈ all,
      REGISTERS.lookup name.computedId = some name.cell := by
    decide
  exact each name (mem_all name)

/-- `registers$register_by_name` finds the register of every name. -/
theorem registerByName_text (name : RegisterName) (memory : Memory) :
    registerByName name.text memory =
      some (name.cell, memory.setId name.cell name.computedId) := by
  simp [registerByName, register, idOfName_text, lookup_computedId]

theorem computedId_eq_iff (name : RegisterName) :
    name.computedId = name.id ↔ name.isHigh = false := by
  have each : ∀ name ∈ all, name.computedId = name.id ↔ name.isHigh = false := by
    decide
  exact each name (mem_all name)

/-- What `registers$size` gives after a name has been looked up. -/
theorem size_computedId (name : RegisterName) :
    ((name.computedId &&& FILTER_SIZE).toNat * 8) % 0x100 = name.size := by
  have each : ∀ name ∈ all,
      ((name.computedId &&& FILTER_SIZE).toNat * 8) % 0x100 = name.size := by
    decide
  exact each name (mem_all name)

end RegisterName

/-! ## The result -/

/-- What a call of `registers$register_by_name` returns, if it returns: a
register, and never a null pointer. -/
def returned (operand : String) (memory : Memory) :
    Option (Option (Cell × Memory)) :=
  (registerByName operand memory).map some

/-- The call returns the register of that name, with its id, and a null
pointer for a string that is no name. -/
def ParsedExactly (operand : String) (memory : Memory) : Prop :=
  returned operand memory =
    some ((RegisterName.ofText operand).map fun name =>
      (name.cell, memory.setId name.cell name.id))

/-- **Register names.**  Of all strings, the names that are not those of high
bytes are parsed exactly. -/
theorem parsed_exactly_iff (operand : String) (memory : Memory) :
    ParsedExactly operand memory ↔
      ∃ name : RegisterName, operand = name.text ∧ name.isHigh = false := by
  constructor
  · intro exactly
    unfold ParsedExactly returned at exactly
    rcases Option.map_eq_some_iff.mp exactly with ⟨found, called, isFound⟩
    rcases Option.map_eq_some_iff.mp isFound.symm with ⟨name, named, same⟩
    have isName := RegisterName.text_of_ofText named
    refine ⟨name, isName.symm, ?_⟩
    rw [← isName, RegisterName.registerByName_text] at called
    cases called
    have ids := congrArg (fun entry => entry.2.ids name.cell) same
    simp only [Memory.setId, Function.update_self] at ids
    exact name.computedId_eq_iff.mp ids.symm
  · rintro ⟨name, rfl, notHigh⟩
    unfold ParsedExactly returned
    rw [name.registerByName_text, name.ofText_text,
      name.computedId_eq_iff.mpr notHigh]
    rfl

/-- `ah` is looked up as `al`. -/
theorem not_parsed_exactly :
    ¬ ∀ (operand : String) (memory : Memory), ParsedExactly operand memory := by
  intro exactly
  have parsed := exactly (RegisterName.high .eax).text
    (initRegisters fun _ => 0)
  unfold ParsedExactly returned at parsed
  rw [RegisterName.registerByName_text, RegisterName.ofText_text] at parsed
  have ids := congrArg
    (fun result => result.map fun found => found.map fun entry =>
      entry.2.ids .eax) parsed
  revert ids
  decide

end Atomicles.Emulator
