import Mathlib.Algebra.Group.Int.Defs
import Mathlib.Data.List.Basic

/-!
# Command lines

`getopt_long` over a table of options.  The arguments are gone through from
the left; an option that takes an argument and does not have it attached takes
the next one, whatever that looks like.  Arguments that are no options are
operands, wherever they stand.
-/

namespace CommandLine

/-- A string of C, without its terminator. -/
abbrev Text := List Char

/-- One option, with its short and its long name. -/
structure Spec (Code : Type) where
  code : Code
  short : Char
  long : Text
  takesArgument : Bool

/-- What one call of `getopt_long` reports: an option with `optarg`, which is
empty where the option takes none, or `?`. -/
inductive Found (Code : Type) where
  | option (code : Code) (optarg : Text)
  | invalid
deriving DecidableEq

variable {Code : Type}

/-- The options of a cluster of short names, and the one at its end that still
lacks its argument. -/
def cluster (table : List (Spec Code)) :
    Text → List (Found Code) × Option Code
  | [] => ([], none)
  | letter :: rest =>
      match table.find? fun spec => spec.short = letter with
      | none =>
          let (found, pending) := cluster table rest
          (.invalid :: found, pending)
      | some spec =>
          if spec.takesArgument then
            if rest = [] then ([], some spec.code)
            else ([.option spec.code rest], none)
          else
            let (found, pending) := cluster table rest
            (.option spec.code [] :: found, pending)

/-- The option with a long name, or the only one whose name begins so. -/
def lookup (table : List (Spec Code)) (name : Text) : Option (Spec Code) :=
  match table.find? fun spec => spec.long = name with
  | some spec => some spec
  | none =>
      match table.filter fun spec => name.isPrefixOf spec.long with
      | [spec] => some spec
      | _ => none

/-- The option of a long name, with its argument behind `=`. -/
def long (table : List (Spec Code)) (text : Text) :
    List (Found Code) × Option Code :=
  match lookup table (text.takeWhile (· ≠ '=')) with
  | none => ([.invalid], none)
  | some spec =>
      match text.dropWhile (· ≠ '='), spec.takesArgument with
      | [], true => ([], some spec.code)
      | [], false => ([.option spec.code []], none)
      | _ :: optarg, true => ([.option spec.code optarg], none)
      | _ :: _, false => ([.invalid], none)

/-- The calls of `getopt_long` up to the one that returns -1: what they report
and the operands that are left.  `pending` lacks its argument. -/
def scan (table : List (Spec Code)) :
    (pending : Option Code) → List Text → List (Found Code) × List Text
  | none, [] => ([], [])
  | some _, [] => ([.invalid], [])
  | some code, optarg :: args =>
      let (found, operands) := scan table none args
      (.option code optarg :: found, operands)
  | none, ['-', '-'] :: args => ([], args)
  | none, ('-' :: '-' :: text) :: args =>
      let (first, pending) := long table text
      let (found, operands) := scan table pending args
      (first ++ found, operands)
  | none, ('-' :: letter :: text) :: args =>
      let (first, pending) := cluster table (letter :: text)
      let (found, operands) := scan table pending args
      (first ++ found, operands)
  | none, operand :: args =>
      let (found, operands) := scan table none args
      (found, operand :: operands)

/-- `getopt_long` until the options are used up. -/
def getopt_long (table : List (Spec Code)) (args : List Text) :
    List (Found Code) × List Text :=
  scan table none args

/-- No argument becomes two operands. -/
theorem scan_length (table : List (Spec Code)) (pending : Option Code)
    (args : List Text) : (scan table pending args).2.length ≤ args.length := by
  fun_induction scan table pending args <;> simp_all <;> omega

/-- What does not begin with a dash is an operand. -/
theorem scan_operand (table : List (Spec Code)) {operand : Text}
    {args : List Text} (plain : operand.head? ≠ some '-') :
    scan table none (operand :: args) =
      ((scan table none args).1, operand :: (scan table none args).2) := by
  rw [scan.eq_def]
  split <;> simp_all

/-! ## Loops that stop -/

/-- How the processing of a cluster ends: with its letters, with an option
that lacks its argument, or with an option that stops the loop, in front of
some letters. -/
inductive ClusterEnd (Code : Type) where
  | finished
  | pending (code : Code)
  | stopped (rest : Text)

/-- `cluster` up to an option that stops the loop. -/
def clusterUntil (table : List (Spec Code)) (stops : Code → Bool) :
    Text → List (Found Code) × ClusterEnd Code
  | [] => ([], .finished)
  | letter :: rest =>
      match table.find? fun spec => spec.short = letter with
      | none =>
          let (found, ends) := clusterUntil table stops rest
          (.invalid :: found, ends)
      | some spec =>
          if spec.takesArgument then
            if rest = [] then ([], .pending spec.code)
            else ([.option spec.code rest], .finished)
          else if stops spec.code then
            ([.option spec.code []], .stopped rest)
          else
            let (found, ends) := clusterUntil table stops rest
            (.option spec.code [] :: found, ends)

/-- Whether a report stops the loop. -/
def Found.stops (stops : Code → Bool) : Found Code → Bool
  | .option code _ => stops code
  | .invalid => false

/-- `scan` up to an option without argument that stops the loop, and whether
there was one.  The arguments in front of it that were taken for operands are
not exchanged with it, so the operands are what stands behind it; a cluster of
which letters are left is behind it as a whole. -/
def scanUntil (table : List (Spec Code)) (stops : Code → Bool) :
    (pending : Option Code) → List Text →
      List (Found Code) × Bool × List Text
  | none, [] => ([], false, [])
  | some _, [] => ([.invalid], false, [])
  | some code, optarg :: args =>
      let (found, stopped, operands) := scanUntil table stops none args
      (.option code optarg :: found, stopped, operands)
  | none, ['-', '-'] :: args => ([], false, args)
  | none, ('-' :: '-' :: text) :: args =>
      let (first, pending) := long table text
      if first.any (·.stops stops) then (first, true, args)
      else
        let (found, stopped, operands) := scanUntil table stops pending args
        (first ++ found, stopped, operands)
  | none, ('-' :: letter :: text) :: args =>
      match clusterUntil table stops (letter :: text) with
      | (first, .finished) =>
          let (found, stopped, operands) := scanUntil table stops none args
          (first ++ found, stopped, operands)
      | (first, .pending code) =>
          let (found, stopped, operands) :=
            scanUntil table stops (some code) args
          (first ++ found, stopped, operands)
      | (first, .stopped []) => (first, true, args)
      | (first, .stopped _) => (first, true, ('-' :: letter :: text) :: args)
  | none, operand :: args =>
      let (found, stopped, operands) := scanUntil table stops none args
      (found, stopped, if stopped then operands else operand :: operands)

/-- A loop over `getopt_long` that also ends at some options. -/
def getopt_long_until (table : List (Spec Code)) (stops : Code → Bool)
    (args : List Text) : List (Found Code) × List Text :=
  let (found, _, operands) := scanUntil table stops none args
  (found, operands)

/-! ## Numbers and comparisons -/

/-- The value of the digits a text begins with. -/
def digits (value : Nat) : Text → Nat
  | [] => value
  | digit :: rest =>
      if digit.isDigit then digits (10 * value + (digit.toNat - '0'.toNat)) rest
      else value

/-- The white space of the C locale. -/
def isspace (character : Char) : Bool :=
  character ∈ [' ', '\t', '\n', '\x0b', '\x0c', '\r']

/-- `atoi`: what `strtol` reads, which stops at the bounds of a `long`, as an
`int`. -/
def atoi (text : Text) : Int :=
  let value : Int :=
    match text.dropWhile isspace with
    | '-' :: rest => -digits 0 rest
    | '+' :: rest => digits 0 rest
    | rest => digits 0 rest
  (BitVec.ofInt 32 (max (-2 ^ 63) (min (2 ^ 63 - 1) value))).toInt

theorem atoi_range (text : Text) : -2 ^ 31 ≤ atoi text ∧ atoi text < 2 ^ 31 :=
  ⟨BitVec.le_toInt _, BitVec.toInt_lt⟩

/-- `strncmp(text, literal, n) == 0`: the terminators are compared too. -/
def strncmp (text literal : Text) (n : Nat) : Bool :=
  (text ++ ['\x00']).take n == (literal ++ ['\x00']).take n

/-! ## Options that overwrite one another -/

/-- A field that an option may set holds what the last of them set, in the
type of the field. -/
theorem foldl_field {Item State Source Value : Type}
    {step : State → Item → State} {field : State → Value}
    {sets : Item → Option Source} {convert : Source → Value}
    (each : ∀ state item,
      field (step state item) = ((sets item).map convert).getD (field state))
    (items : List Item) {state : State} {default : Source}
    (start : field state = convert default) :
    field (items.foldl step state) =
      convert ((items.filterMap sets).getLastD default) := by
  induction items generalizing state default with
  | nil => exact start
  | cons item items ih =>
      have stepped := each state item
      cases written : sets item with
      | none =>
          rw [written] at stepped
          have same : field (step state item) = convert default :=
            stepped.trans start
          rw [List.filterMap_cons_none written]
          exact ih same
      | some value =>
          rw [written] at stepped
          rw [List.filterMap_cons_some written, List.getLastD_cons]
          exact ih stepped

end CommandLine
