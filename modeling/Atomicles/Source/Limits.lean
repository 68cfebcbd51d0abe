import Mathlib.Data.List.Infix
import Atomicles.CommandLine.Scan
import Atomicles.Source.Report

/-!
# The limits of `syschk.c`

What comes before the probes: the limits of the system are read from `/proc`,
and those of the process are lowered to them.  The files can be opened, and
what is only printed is left out.
-/

namespace Atomicles.Syschk

open CommandLine

/-! ## Limits -/

/-- The resources of `setrlim`. -/
inductive Resource where
  | NOFILE | NPROC | SIGPENDING | AS
deriving DecidableEq, Repr

/-- `struct rlimit`, as the kernel keeps it. -/
structure Rlimit where
  rlim_cur : ULong
  rlim_max : ULong
  ordered : rlim_cur ≤ rlim_max

/-- The limits of the process. -/
abbrev Limits := Resource → Rlimit

/-- `setrlimit` in a process without privileges. -/
def setrlimit (rlim_cur rlim_max : ULong) (limit : Rlimit) : Rlimit :=
  if allowed : rlim_cur ≤ rlim_max ∧ rlim_max ≤ limit.rlim_max then
    ⟨rlim_cur, rlim_max, allowed.1⟩
  else limit

/-- `setrlim`. -/
def setrlim (resource : Resource) (syslim : ULong) (limits : Limits) :
    Limits :=
  let rlp := limits resource
  if 0 < syslim ∧ syslim < rlp.rlim_cur then
    -- `system` is the function of the library, so it is above zero.
    let rlim_cur := if syslim < rlp.rlim_cur then syslim else rlp.rlim_cur
    let rlim_max := if syslim < rlp.rlim_max then syslim else rlp.rlim_max
    Function.update limits resource (setrlimit rlim_cur rlim_max rlp)
  else limits

/-! ## Readings -/

/-- The characters of some bytes. -/
def text (bytes : List Byte) : Text :=
  bytes.map fun byte => Char.ofNat byte.toNat

/-- A file of `/proc` that holds a number, and the string at `buf` before the
file is read into it. -/
structure Reading where
  content : List Byte
  buf : List Byte
deriving DecidableEq, Repr

/-- `get_proc_reading` with `%i`; `l` stays where there is no number. -/
def Reading.get (reading : Reading) (l : Int) : Int :=
  (scanInt (text (read 32 reading.content reading.buf))).getD l

def KILO : ULong := 0x400

/-- `mem_total` and `swap_total`. -/
@[ext]
structure Totals where
  mem_total : ULong := -1
  swap_total : ULong := -1
deriving DecidableEq, Repr

/-- `strstr`. -/
def names (label : Text) (line : List Byte) : Bool :=
  decide (label <:+: text line)

/-- The body of the loop over `/proc/meminfo`. -/
def Totals.line (totals : Totals) (meminfo : List Byte) : Totals :=
  if names "MemTotal:".toList meminfo then
    { totals with
      mem_total :=
        (scanULong (text (meminfo.drop 9))).getD totals.mem_total * KILO }
  else if names "SwapTotal:".toList meminfo then
    { totals with
      swap_total :=
        (scanULong (text (meminfo.drop 10))).getD totals.swap_total * KILO }
  else totals

/-- The loop over `/proc/meminfo`, of at most `rounds` rounds; `saved` is as
for `readFileLines`. -/
def readMeminfo (file : File) (heap : List Byte) :
    (rounds : Nat) → (saved : Option (List Byte)) → Totals → Option Totals
  | 0, _, _ => none
  | rounds + 1, saved, totals => do
      let (meminfo, saved) ← readFileLines file heap saved
      match meminfo with
      | none => return totals
      | some meminfo => readMeminfo file heap rounds saved (totals.line meminfo)

/-! ## Preparations -/

/-- The files that are read, what can be read at the buffer for
`/proc/meminfo`, and `overcommit_memory` while it is not initialised. -/
structure Proc where
  file_max : Reading
  pid_max : Reading
  overcommit_memory : Reading
  overcommit_ratio : Reading
  meminfo : File
  heap : List Byte
  unset : Int

/-- `chk_open_prepare`, once the priority has been set. -/
def chkOpenPrepare (proc : Proc) (limits : Limits) : Limits :=
  let fh_max := proc.file_max.get (-1)
  setrlim .NOFILE (BitVec.ofInt 64 fh_max) limits

/-- `chk_fork_prepare`. -/
def chkForkPrepare (proc : Proc) (limits : Limits) : Limits :=
  let pid_max := proc.pid_max.get (-1)
  let limits := setrlim .NPROC (BitVec.ofInt 64 pid_max) limits
  setrlim .SIGPENDING (BitVec.ofInt 64 pid_max) limits

/-- `chk_calloc_prepare`. -/
def chkCallocPrepare (rounds : Nat) (proc : Proc) (limits : Limits) :
    Option (Int × Limits) :=
  let overcommit_memory := proc.overcommit_memory.get proc.unset
  if overcommit_memory = 2 then do
    let totals ← readMeminfo proc.meminfo proc.heap rounds none {}
    let overcommit_ratio := proc.overcommit_ratio.get 0
    let memsyslim := totals.swap_total +
      totals.mem_total * BitVec.ofInt 64 overcommit_ratio / 100
    return (EXIT_SUCCESS, setrlim .AS memsyslim limits)
  else return (EXIT_FAILURE, limits)

/-- What the preparations in `main` leave: the limits, and an environment
with the ones that `getrlimit` gives to each probe. -/
def prepare (rounds : Nat) (proc : Proc) (limits : Limits)
    (environment : Environment) : Option (Environment × Limits) := do
  let limits := chkOpenPrepare proc limits
  let opening :=
    { environment.opening with rlim_cur := (limits .NOFILE).rlim_cur }
  let limits := chkForkPrepare proc limits
  let forking :=
    { environment.forking with rlim_cur := (limits .NPROC).rlim_cur }
  let (_, limits) ← chkCallocPrepare rounds proc limits
  let callocing :=
    { environment.callocing with rlim_cur := (limits .AS).rlim_cur }
  let overcommit_memory := proc.overcommit_memory.get proc.unset
  return ({ environment with opening, forking, callocing, overcommit_memory },
    limits)

end Atomicles.Syschk
