import Atomicles.CommandLine.Printf
import Atomicles.Sequence.Pieces
import Atomicles.Source.Daemonize

/-!
# The line of `status`

`status` prints the channel, the supervisor, the child, the count and a word
for the state.  The `atomicles` script strips and splits what it gets from the
command, and puts the tokens into a format of seven fields.
-/

namespace Atomicles

open Interaction CommandLine

namespace Daemon

/-! ## What is printed -/

/-- The words of `status`. -/
inductive Standing where
  | dead
  | recovering
  | alive
  | missing
deriving DecidableEq, Repr

def Standing.word : Standing → Text
  | .dead => "Dead".toList
  | .recovering => "Recovering".toList
  | .alive => "Alive".toList
  | .missing => "Missing".toList

/-- The text that `daemonstr` makes of the outcomes of its two `kill`:
`SFMT` is `"%8i %c:%-8d %c:%-8d %d"`. -/
def daemonText (key pid cpid : Int) (count : UInt) (pidFails cpidFails : Bool) :
    Text :=
  let ch_pid := if pidFails then 'p' else 'P'
  let ch_cpid := if cpidFails then 'c' else 'C'
  padLeft 8 (decimal key) ++ ' ' :: ch_pid :: ':' :: padRight 8 (decimal pid) ++
    ' ' :: ch_cpid :: ':' :: padRight 8 (decimal cpid) ++
    ' ' :: decimal count.toInt

/-- `daemonstr` together with the text. -/
def daemonstrText (key pid cpid : Int) (count : UInt) : Prog Text := do
  let pidFails ← kill pid none
  let cpidFails ← kill cpid none
  return daemonText key pid cpid count (pidFails ≠ 0) (cpidFails ≠ 0)

/-- The line of `status`. -/
def statusLine (buffer : Text) (standing : Standing) : Text :=
  buffer ++ ' ' :: standing.word ++ ['\n']

/-- `status` together with what it prints. -/
def statusText (shmem : Option SharedMemory) (key : Int) :
    Prog (Text × Label) := do
  let pid ← getPid shmem
  let cpid ← getCpid shmem
  let count ← getCount shmem
  let buffer ← daemonstrText key pid cpid (BitVec.ofInt 32 count)
  if pid ≠ 0 ∧ cpid ≠ 0 then
    if (← kill pid none) ≠ 0 then
      return (statusLine buffer .dead, .ended 0)
    else if (← kill cpid none) ≠ 0 then
      return (statusLine buffer .recovering, .ended 0)
    else return (statusLine buffer .alive, .ended 0)
  else return (statusLine buffer .missing, .ended 0)

/-- Without the line it is `status`. -/
theorem statusText_status (shmem : Option SharedMemory) (key : Int) :
    (statusText shmem key >>= fun printed => pure printed.2) = status shmem := by
  simp only [statusText, status, daemonstrText, daemonstr, bind_assoc,
    pure_bind]
  refine bind_congr fun pid => bind_congr fun cpid => bind_congr fun count =>
    bind_congr fun pidFails => bind_congr fun cpidFails => ?_
  split
  · rw [bind_assoc]
    refine bind_congr fun outcome => ?_
    by_cases lives : outcome = 0
    · simp only [lives, ne_eq, not_true_eq_false, if_false, if_true,
        bind_assoc]
      refine bind_congr fun outcome => ?_
      split <;> rfl
    · simp [lives]
  · rfl

/-! ## What a line says -/

/-- The contents of a line of `status`. -/
structure Report where
  channel : Int
  pid : Int
  cpid : Int
  count : UInt
  pidAlive : Bool
  cpidAlive : Bool
  standing : Standing
deriving DecidableEq

namespace Report

/-- The line with these contents. -/
def line (report : Report) : Text :=
  statusLine
    (daemonText report.channel report.pid report.cpid report.count
      (!report.pidAlive) (!report.cpidAlive))
    report.standing

/-- A process with its letter. -/
def process (alive dead : Char) (lives : Bool) (pid : Int) : Text :=
  (if lives then alive else dead) :: ':' :: decimal pid

/-- The tokens of the line. -/
def tokens (report : Report) : List Text :=
  [decimal report.channel,
    process 'P' 'p' report.pidAlive report.pid,
    process 'C' 'c' report.cpidAlive report.cpid,
    decimal report.count.toInt,
    report.standing.word]

/-- Whether a letter says that a process is alive. -/
def readLetter (alive dead letter : Char) : Option Bool :=
  if letter = alive then some true
  else if letter = dead then some false
  else none

def readStanding (word : Text) : Option Standing :=
  [Standing.dead, .recovering, .alive, .missing].find? fun standing =>
    standing.word = word

/-- The contents that five tokens stand for. -/
def read : List Text → Option Report
  | [channel, letter :: ':' :: pid, letter' :: ':' :: cpid, count, word] => do
      let pidAlive ← readLetter 'P' 'p' letter
      let cpidAlive ← readLetter 'C' 'c' letter'
      let standing ← readStanding word
      return {
        channel := readDecimal channel
        pid := readDecimal pid
        cpid := readDecimal cpid
        count := BitVec.ofInt 32 (readDecimal count)
        pidAlive, cpidAlive, standing }
  | _ => none

theorem read_tokens (report : Report) :
    read report.tokens = some report := by
  rcases report with ⟨channel, pid, cpid, count, pidAlive, cpidAlive, standing⟩
  have standingRead : readStanding standing.word = some standing := by
    cases standing <;> decide
  have pidRead : readLetter 'P' 'p' (if pidAlive then 'P' else 'p') =
      some pidAlive := by
    cases pidAlive <;> decide
  have cpidRead : readLetter 'C' 'c' (if cpidAlive then 'C' else 'c') =
      some cpidAlive := by
    cases cpidAlive <;> decide
  simp [read, tokens, process, standingRead, pidRead, cpidRead,
    readDecimal_decimal]

end Report

/-- `str.strip`. -/
def strip (text : Text) : Text :=
  ((text.dropWhile isspace).reverse.dropWhile isspace).reverse

/-- `str.split` without a separator. -/
def split (text : Text) : List Text :=
  Sequence.pieces isspace text

/-- The format of the script's status branch: an argument that a field names
and that is not there is an error. -/
def format (arguments : List Text) : Option Text := do
  let «section» ← arguments[0]?
  let service ← arguments[1]?
  let channel ← arguments[2]?
  let pid ← arguments[3]?
  let cpid ← arguments[4]?
  let count ← arguments[5]?
  let standing ← arguments[6]?
  return padRight 12 «section» ++ ' ' :: padRight 8 service ++
    ' ' :: padRight 8 channel ++ ' ' :: padRight 8 pid ++
    ' ' :: padRight 8 cpid ++ ' ' :: padRight 6 count ++
    ' ' :: standing ++ ['\n']

/-- Stripping takes away no token. -/
theorem split_strip (text : Text) : split (strip text) = split text := by
  have blanks : ∀ text : Text, ∀ character ∈ text.takeWhile isspace,
      isspace character = true :=
    fun _ => List.all_eq_true.mp List.all_takeWhile
  let front := text.dropWhile isspace
  have cut : strip text ++ (front.reverse.takeWhile isspace).reverse =
      front := by
    rw [strip, ← List.reverse_append, List.takeWhile_append_dropWhile,
      List.reverse_reverse]
  calc split (strip text)
      = split (strip text ++ (front.reverse.takeWhile isspace).reverse) := by
        refine (Sequence.pieces_append ?_ _).symm
        intro character member
        exact blanks _ character (List.mem_reverse.mp member)
    _ = split front := by rw [cut]
    _ = split (text.takeWhile isspace ++ front) :=
        (Sequence.pieces_prepend (blanks text) _).symm
    _ = split text := by rw [List.takeWhile_append_dropWhile]

/-- A field is one token, however it is padded. -/
theorem split_field {word : Text} (inhabited : word ≠ []) (solid : Solid word)
    (padding : Nat) (rest : Text) :
    split (word ++ List.replicate padding ' ' ++ ' ' :: rest) =
      word :: split rest := by
  have blank : isspace ' ' = true := by decide
  have shifted : List.replicate padding ' ' ++ [' '] =
      ' ' :: List.replicate padding ' ' := by
    rw [← List.replicate_succ', List.replicate_succ]
  have gap : word ++ List.replicate padding ' ' ++ ' ' :: rest =
      word ++ ' ' :: (List.replicate padding ' ' ++ rest) := by
    calc word ++ List.replicate padding ' ' ++ ' ' :: rest
        = word ++ (List.replicate padding ' ' ++ [' ']) ++ rest := by simp
      _ = word ++ (' ' :: List.replicate padding ' ') ++ rest := by
        rw [shifted]
      _ = word ++ ' ' :: (List.replicate padding ' ' ++ rest) := by simp
  rw [gap, split, Sequence.pieces_piece inhabited solid blank,
    Sequence.pieces_prepend]
  · rfl
  · intro character member
    rw [List.eq_of_mem_replicate member]
    exact blank

theorem Report.process_ne_nil {alive dead : Char} {lives : Bool} {pid : Int} :
    process alive dead lives pid ≠ [] :=
  List.cons_ne_nil _ _

theorem Report.solid_process {alive dead : Char}
    (letters : isspace alive = false ∧ isspace dead = false) {lives : Bool}
    {pid : Int} : Solid (process alive dead lives pid) := by
  intro character member
  rcases List.mem_cons.mp member with rfl | member
  · cases lives
    · exact letters.2
    · exact letters.1
  · rcases List.mem_cons.mp member with rfl | member
    · decide
    · exact solid_decimal pid character member

theorem Standing.solid_word (standing : Standing) : Solid standing.word := by
  have each : (standing.word.all fun character =>
      !isspace character) = true := by
    cases standing <;> decide
  intro character member
  simpa using List.all_eq_true.mp each character member

/-- The line splits into its tokens. -/
theorem split_line (report : Report) : split report.line = report.tokens := by
  rcases report with ⟨channel, pid, cpid, count, pidAlive, cpidAlive, standing⟩
  have line : (Report.mk channel pid cpid count pidAlive cpidAlive
      standing).line =
        List.replicate (8 - (decimal channel).length) ' ' ++
          (decimal channel ++ List.replicate 0 ' ' ++ ' ' ::
            (Report.process 'P' 'p' pidAlive pid ++
              List.replicate (8 - (decimal pid).length) ' ' ++ ' ' ::
              (Report.process 'C' 'c' cpidAlive cpid ++
                List.replicate (8 - (decimal cpid).length) ' ' ++ ' ' ::
                (decimal count.toInt ++ List.replicate 0 ' ' ++ ' ' ::
                  (standing.word ++ ['\n']))))) := by
    cases pidAlive <;> cases cpidAlive <;>
      simp [Report.line, statusLine, daemonText, padLeft, padRight,
        Report.process]
  have last : split (standing.word ++ ['\n']) = [standing.word] := by
    rw [split, Sequence.pieces_append, Sequence.pieces_single]
    · cases standing <;> decide
    · exact standing.solid_word
    · intro character member
      rw [List.mem_singleton.mp member]
      decide
  rw [line, split, Sequence.pieces_prepend]
  · change split _ = _
    rw [split_field (decimal_ne_nil _) (solid_decimal _),
      split_field Report.process_ne_nil (Report.solid_process ⟨rfl, rfl⟩),
      split_field Report.process_ne_nil (Report.solid_process ⟨rfl, rfl⟩),
      split_field (decimal_ne_nil _) (solid_decimal _), last]
    rfl
  · intro character member
    rw [List.eq_of_mem_replicate member]
    decide

end Daemon

end Atomicles
