import Atomicles.Kernel.Calls

/-!
# `syschk.c`

The probes of `syschk.c` and what they are built on.  The answers of the
kernel, of the allocator and of `performance` come as a list of outcomes, one
for each round of a loop; memory for the lines of a file is always granted.
Progress and messages are left out.
-/

namespace Atomicles.Syschk

/-- `unsigned long`. -/
abbrev ULong := BitVec 64

abbrev Byte := BitVec 8

def EAGAIN : Int := 11
def ENOMEM : Int := 12
def ENFILE : Int := 23
def EMFILE : Int := 24

def STR_ENOMEM : String := "Kernel memory exhausted"
def STR_EAGAIN : String := "NPROC resource limit exhausted"
def STR_EMFILE : String := "Process open files limit exhausted"
def STR_ENFILE : String := "System open files limit exhausted"
def STR_THRSHD : String := "System performance impact risk"
def STR_UNKNWN : String := "Failure due to unknown reason"

/-! ## `read_file_lines` -/

def newline : Byte := 10

def BUFSIZ : Nat := 8192

/-- `strtok_r(s, "\n", &saveptr)`, from the bytes that can be read at `s`: the
token and the bytes at `saveptr`.  `none` is a read beyond these bytes. -/
def strtok (text : List Byte) : Option (Option (List Byte) × List Byte) :=
  let start := text.dropWhile fun byte => byte = newline
  match start with
  | [] => none
  | first :: _ =>
      if first = 0 then some (none, start)
      else
        let token := start.takeWhile fun byte => byte ≠ newline ∧ byte ≠ 0
        match start.drop token.length with
        | [] => none
        | stop :: rest =>
            some (some token, if stop = 0 then stop :: rest else rest)

/-- A file that can be opened, and the size that `stat` reports. -/
structure File where
  content : List Byte
  st_size : Nat
deriving DecidableEq, Repr

/-- `read`: up to `count` bytes of the content go over the start of the
memory. -/
def read (count : Nat) (content memory : List Byte) : List Byte :=
  content.take count ++ memory.drop (content.take count).length

/-- The reads of a file of size zero; `realloc` to the size that the block has
leaves it where it is, and every read goes to its start. -/
def readBlocks (content memory : List Byte) : List Byte :=
  if (content.take BUFSIZ).length = BUFSIZ then
    readBlocks (content.drop BUFSIZ) (read BUFSIZ content memory)
  else read BUFSIZ content memory
termination_by content.length
decreasing_by
  rename_i full
  rw [List.length_take] at full
  have positive : 0 < BUFSIZ := by decide
  rw [List.length_drop]
  omega

/-- What can be read at `buffer` after it has been filled; `heap` is what can
be read there when `malloc` returns. -/
def load (file : File) (heap : List Byte) : List Byte :=
  if 0 < file.st_size then read file.st_size file.content heap
  else readBlocks file.content heap

/-- `read_file_lines`: the line and the statics.  `saved` is what can be read
at `saveptr`, if `buffer` is not null. -/
def readFileLines (file : File) (heap : List Byte)
    (saved : Option (List Byte)) :
    Option (Option (List Byte) × Option (List Byte)) := do
  let (token, saveptr) ← strtok (saved.getD (load file heap))
  match token with
  | none => return (none, none)
  | some line => return (some line, some saveptr)

/-! ## `performance` -/

/-- The statics of `performance`. -/
structure Statics where
  t_last : Time
  counter_last : ULong
deriving DecidableEq, Repr

/-- `performance`; `now` and `again` are what the two calls of `time` give.
`none` is a division by zero. -/
def performance (counter divider : ULong) (now again : Time)
    (statics : Statics) : Option (Int × Statics) :=
  let t_last := if counter = 0 then 0 else statics.t_last
  if 0 < t_last then
    if 5 < now - t_last then
      if divider = 0 then none
      else
        let rate := (counter - statics.counter_last).toNat /
          (now - t_last).toNat / divider.toNat
        some ((rate : Int).bmod 0x100000000,
          { t_last := now, counter_last := counter })
    else some (-1, { statics with t_last })
  else some (-1, { statics with t_last := again })

/-! ## `do_fork` -/

/-- The answer to `fork` in the parent, and to `performance` after it. -/
inductive ForkOutcome where
  | error (errno : Int)
  | child (pid : UInt) (performed : Int)
deriving DecidableEq, Repr

/-- Where the loop of `do_fork` is: `forked`, the writes to the segment
(the offset before it becomes an `unsigned short`, and the word), the reason,
and the children there are. -/
structure Spawning where
  forked : Nat
  writes : List (Nat × UInt)
  reason : String
  pids : List UInt
deriving DecidableEq, Repr

def Spawning.start : Spawning where
  forked := 0
  writes := []
  reason := STR_UNKNWN
  pids := []

/-- `SharedMemory$write_uint(children, forked, pid)`. -/
def Spawning.writeUint (state : Spawning) (pid : UInt) : Spawning :=
  { state with writes := state.writes ++ [(state.forked, pid)] }

/-- The word of the segment at an index, if one has been written there. -/
def Spawning.word (state : Spawning) (index : Nat) : Option UInt :=
  (state.writes.reverse.find? fun write =>
    decide (write.1 % 0x10000 = index)).map Prod.snd

/-- `do_fork` up to its call of `chk_fork_cleanup`, whose `forked_max` is
`forked` at every place; it is not reached by outcomes that do not end the
loop. -/
def doFork (lim : Nat) (threshold : Int) :
    List ForkOutcome → Spawning → Option Spawning
  | [], _ => none
  | .error errno :: _, state =>
      some
        { state with
          reason :=
            if errno = EAGAIN then STR_EAGAIN
            else if errno = ENOMEM then STR_ENOMEM
            else state.reason }
  | .child pid performed :: rest, state =>
      let state := { state with pids := state.pids ++ [pid] }
      if state.forked < lim then
        let state := state.writeUint pid
        if performed = -1 then
          doFork lim threshold rest { state with forked := state.forked + 1 }
        else if threshold ≤ performed then doFork lim threshold rest state
        else some { state with reason := STR_THRSHD }
      else some state

/-! ## `chk_calloc` -/

def CALLOC_MAX_COUNT : Nat := 1048576

/-- The answer to `malloc` or `calloc`, and to `performance` after it. -/
inductive AllocOutcome where
  | null (errno : Int)
  | chunk (address : Nat) (performed : Int)
deriving DecidableEq, Repr

/-- Where the loop of `chk_calloc` is: `i`, the table from its start, the
indices into it, the reason, and the chunks there are. -/
structure Callocing where
  i : Nat
  heaps : List Nat
  indices : List Nat
  reason : String
  chunks : List Nat
deriving DecidableEq, Repr

def Callocing.start : Callocing where
  i := 0
  heaps := []
  indices := []
  reason := STR_UNKNWN
  chunks := []

/-- What `chk_calloc` has done when it returns. -/
structure Calloced where
  opened_max : Nat
  freed : List Nat
  indices : List Nat
  reason : String
  chunks : List Nat
deriving DecidableEq, Repr

/-- The end of `chk_calloc`: the entries below `i` are freed from the last to
the first. -/
def Callocing.finish (state : Callocing) : Calloced where
  opened_max := state.i
  freed := (state.heaps.take state.i).reverse
  indices := state.indices ++ (List.range state.i).reverse
  reason := state.reason
  chunks := state.chunks

/-- The assignment to `heaps[i]`, of null or a chunk. -/
def Callocing.assign (state : Callocing) (chunk : Nat) : Callocing :=
  { state with
    heaps := state.heaps.take state.i ++ [chunk]
    indices := state.indices ++ [state.i] }

/-- The loop of `chk_calloc`, whose table has been allocated. -/
def chkCalloc (threshold : Int) :
    List AllocOutcome → Callocing → Option Calloced
  | [], _ => none
  | .null errno :: _, state =>
      let state := state.assign 0
      some
        { state with
          reason := if errno = ENOMEM then STR_ENOMEM else state.reason }.finish
  | .chunk address performed :: rest, state =>
      let state := { state with chunks := state.chunks ++ [address] }
      let state := state.assign address
      if performed = -1 then
        chkCalloc threshold rest { state with i := state.i + 1 }
      else if threshold ≤ performed then
        chkCalloc threshold rest { state with i := state.i + 1 }
      else some { state with reason := STR_THRSHD }.finish

/-! ## `chk_open` -/

/-- The answer to `open`, and to `performance` after it. -/
inductive OpenOutcome where
  | error (errno : Int)
  | descriptor (fh : Int) (performed : Int)
deriving DecidableEq, Repr

/-- Where the loop of `chk_open` is: `i`, the entries of `opened` that have
been assigned, the reason, and the descriptors there are. -/
structure Opening where
  i : Nat
  opened : List Int
  reason : String
  descriptors : List Int
deriving DecidableEq, Repr

def Opening.start : Opening where
  i := 0
  opened := []
  reason := STR_UNKNWN
  descriptors := []

/-- What `chk_open` has done when it returns. -/
structure Opened where
  opened_max : Nat
  closed : List Int
  reason : String
  descriptors : List Int
deriving DecidableEq, Repr

/-- `chk_open_cleanup`. -/
def Opening.cleanup (state : Opening) : Opened where
  opened_max := state.i + 1
  closed := (state.opened.take state.i).reverse
  reason := state.reason
  descriptors := state.descriptors

/-- The loop of `chk_open`. -/
def chkOpen (threshold : Int) :
    List OpenOutcome → Opening → Option Opened
  | [], _ => none
  | .error errno :: _, state =>
      some
        { state with
          reason :=
            if errno = ENFILE then STR_ENFILE
            else if errno = EMFILE then STR_EMFILE
            else if errno = ENOMEM then STR_ENOMEM
            else state.reason }.cleanup
  | .descriptor fh performed :: rest, state =>
      let state := { state with descriptors := state.descriptors ++ [fh] }
      if performed = -1 then
        chkOpen threshold rest
          { state with
            opened := state.opened.take state.i ++ [fh]
            i := state.i + 1 }
      else if threshold ≤ performed then chkOpen threshold rest state
      else some { state with reason := STR_THRSHD }.cleanup

end Atomicles.Syschk
