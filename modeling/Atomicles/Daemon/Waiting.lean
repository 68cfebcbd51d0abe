import Atomicles.Source.Daemonize

/-!
# Waiting for the child

`wait_for_signal`, step by step.  `waitpid` is called once, before the loop,
and the loop tests the same status over and over.  The status words are those
of `sys/wait.h`, and each round of the loop writes one message.
-/

namespace Atomicles.Waiting

/-! ## Status words -/

/-- A status word. -/
abbrev Status := BitVec 32

def WTERMSIG (status : Status) : Status :=
  status &&& 0x7f

def WEXITSTATUS (status : Status) : Status :=
  (status &&& 0xff00) >>> 8

def WSTOPSIG (status : Status) : Status :=
  WEXITSTATUS status

def WIFEXITED (status : Status) : Bool :=
  WTERMSIG status == 0

/-- `((signed char) ((status & 0x7f) + 1) >> 1) > 0`. -/
def WIFSIGNALED (status : Status) : Bool :=
  decide (0 < (((WTERMSIG status + 1).setWidth 8).sshiftRight 1).toInt)

def WIFSTOPPED (status : Status) : Bool :=
  status &&& 0xff == 0x7f

def WIFCONTINUED (status : Status) : Bool :=
  status == 0xffff

/-- A change of a child, as `waitpid` may report it. -/
inductive Change where
  | exited (status : BitVec 8)
  /-- By a signal other than 0 and 127, and with or without a core dump. -/
  | killed (signal : BitVec 7) (proper : signal ≠ 0 ∧ signal ≠ 127)
      (core : Bool)
  | stopped (signal : BitVec 8)
  | continued

namespace Change

/-- The status word of a change. -/
def word : Change → Status
  | .exited status => status.setWidth 32 <<< 8
  | .killed signal _ core =>
      signal.setWidth 32 ||| (if core then 0x80 else 0)
  | .stopped signal => signal.setWidth 32 <<< 8 ||| 0x7f
  | .continued => 0xffff

/-- The change in the classes the supervisor tells apart. -/
def status : Change → WaitStatus
  | .exited status => .exited status.toNat
  | .killed .. => .signaled
  | .stopped _ => .stopped
  | .continued => .continued

/-- The child is gone. -/
def Ends (change : Change) : Prop :=
  Daemon.statusEnds change.status = true

end Change

/-- The test of the loop. -/
def loops (status : Status) : Bool :=
  !WIFEXITED status && !WIFSIGNALED status

theorem exited_word :
    ∀ status : BitVec 8, WIFEXITED (status.setWidth 32 <<< 8) = true := by
  decide

theorem killed_word : ∀ signal : BitVec 7, signal ≠ 0 ∧ signal ≠ 127 →
    ∀ core : Bool,
      WIFSIGNALED (signal.setWidth 32 ||| (if core then 0x80 else 0)) =
        true := by
  decide

theorem stopped_word : ∀ signal : BitVec 8,
    loops (signal.setWidth 32 <<< 8 ||| 0x7f) = true := by
  decide

/-- The loop goes on with a change exactly where the child is not gone. -/
theorem loops_word (change : Change) :
    loops change.word = !Daemon.statusEnds change.status := by
  cases change with
  | exited status =>
      have exits := exited_word status
      simp [loops, Change.word, exits, Change.status, Daemon.statusEnds]
  | killed signal proper core =>
      have dies := killed_word signal proper core
      simp only [loops, Change.word, dies, Bool.not_true, Bool.and_false]
      rfl
  | stopped signal => exact stopped_word signal
  | continued => decide

/-! ## The function, step by step -/

/-- What is written to the system log. -/
inductive Message where
  | failed
  | exited (status : Status)
  | killed (signal : Status)
  | stopped (signal : Status)
  | continued
  | unexpected (status : Status)
deriving DecidableEq

/-- The body of the loop: the message about a status. -/
def message (status : Status) : Message :=
  if WIFEXITED status then .exited (WEXITSTATUS status)
  else if WIFSIGNALED status then .killed (WTERMSIG status)
  else if WIFSTOPPED status then .stopped (WSTOPSIG status)
  else if WIFCONTINUED status then .continued
  else .unexpected status

/-- Where the function is. -/
inductive Place where
  | waiting
  | looping (status : Status)
  | returned
deriving DecidableEq

/-- The function, the changes that `waitpid` has not reported yet, and the
log. -/
structure State where
  place : Place
  unreported : List Change
  log : List Message

/-- What the function finds: whether `waitpid` fails, and what the memory of
`status` holds before it is written. -/
structure Setting where
  fails : Bool
  stack : Status

namespace Setting

/-- One step; without a change to report `waitpid` waits. -/
def step (setting : Setting) (state : State) : State :=
  match state.place with
  | .waiting =>
      if setting.fails then
        { state with
          place := .looping setting.stack, log := state.log ++ [.failed] }
      else
        match state.unreported with
        | [] => state
        | change :: later =>
            { state with place := .looping change.word, unreported := later }
  | .looping status =>
      { state with
        place := if loops status then .looping status else .returned
        log := state.log ++ [message status] }
  | .returned => state

/-- A number of steps. -/
def run (setting : Setting) : Nat → State → State
  | 0, state => state
  | steps + 1, state => run setting steps (setting.step state)

end Setting

/-- The function is called. -/
def start (changes : List Change) : State :=
  { place := .waiting, unreported := changes, log := [] }

variable {setting : Setting} {state : State} {steps : Nat}

theorem run_returned (returned : state.place = .returned) :
    setting.run steps state = state := by
  induction steps with
  | zero => rfl
  | succ steps ih =>
      have stays : setting.step state = state := by
        simp only [Setting.step, returned]
      show setting.run steps (setting.step state) = state
      rw [stays, ih]

/-- The loop never leaves a status that does not end it. -/
theorem run_looping {status : Status} (loop : loops status = true)
    (place : state.place = .looping status) :
    (setting.run steps state).place = .looping status := by
  induction steps generalizing state with
  | zero => exact place
  | succ steps ih =>
      apply ih
      simp only [Setting.step, place, loop, if_true]

/-! ## The results -/

/-- The claim to the end of the wait: the function returns, and it does so
only after all changes have been reported, or if `waitpid` fails without
having interpreted a status. -/
structure Waits (setting : Setting) (changes : List Change) : Prop where
  returns : ∃ steps, (setting.run steps (start changes)).place = .returned
  reported : ∀ steps,
    (setting.run steps (start changes)).place = .returned →
      if setting.fails then
        (setting.run steps (start changes)).log = [.failed]
      else (setting.run steps (start changes)).unreported = []

/-- Where the first reported change is not the end of the child, the function
does not return. -/
theorem pause_never_returns {pause : Change} {later : List Change}
    (reports : setting.fails = false) (pauses : ¬ pause.Ends) :
    (setting.run steps (start (pause :: later))).place ≠ .returned := by
  have loop : loops pause.word = true := by
    rw [loops_word]
    simpa [Change.Ends] using pauses
  cases steps with
  | zero => exact Place.noConfusion
  | succ steps =>
      have first :
          (setting.step (start (pause :: later))).place =
            .looping pause.word := by
        simp [Setting.step, start, reports]
      have stays := @run_looping setting _ steps _ loop first
      intro returned
      have same : Place.returned = .looping pause.word :=
        returned.symm.trans stays
      cases same

/-- Where the first reported change is the end of the child, the function
returns after two steps. -/
theorem end_returns {last : Change} (reports : setting.fails = false)
    (ends : last.Ends) :
    setting.run (steps + 2) (start [last]) =
      { place := .returned, unreported := [], log := [message last.word] } := by
  have leaves : loops last.word = false := by
    rw [loops_word, ends]
    rfl
  have first :
      setting.step (setting.step (start [last])) =
        { place := .returned, unreported := [],
          log := [message last.word] } := by
    simp [Setting.step, start, reports, leaves]
  show setting.run steps (setting.step (setting.step (start [last]))) = _
  rw [first]
  exact run_returned rfl

/-- After a `waitpid` that failed, what the memory of `status` held before is
interpreted. -/
theorem failure_interprets {changes : List Change}
    (fails : setting.fails = true)
    (returned : (setting.run steps (start changes)).place = .returned) :
    (setting.run steps (start changes)).log =
      [.failed, message setting.stack] := by
  have first :
      setting.step (start changes) =
        { place := .looping setting.stack, unreported := changes,
          log := [.failed] } := by
    simp [Setting.step, start, fails]
  cases loop : loops setting.stack with
  | true =>
      cases steps with
      | zero => cases returned
      | succ steps =>
          have place :
              (setting.step (start changes)).place =
                .looping setting.stack := by
            rw [first]
          have stays := @run_looping setting _ steps _ loop place
          have same : Place.returned = .looping setting.stack :=
            returned.symm.trans stays
          cases same
  | false =>
      have second :
          setting.step (setting.step (start changes)) =
            { place := .returned, unreported := changes,
              log := [.failed, message setting.stack] } := by
        rw [first]
        simp [Setting.step, loop]
      rcases steps with _ | _ | steps
      · cases returned
      · have place : (setting.step (start changes)).place = .returned :=
          returned
        rw [first] at place
        cases place
      · show (setting.run steps
            (setting.step (setting.step (start changes)))).log = _
        rw [second, run_returned rfl]

/-- **Waiting for the child.**  After any number of stops and continues and
then the end of the child, the function does what is claimed exactly where
`waitpid` does not fail and there was no stop and no continue. -/
theorem wait_for_signal_iff (setting : Setting) (pauses : List Change)
    (last : Change) (paused : ∀ change ∈ pauses, ¬ change.Ends)
    (ends : last.Ends) :
    Waits setting (pauses ++ [last]) ↔
      setting.fails = false ∧ pauses = [] := by
  constructor
  · rintro ⟨⟨steps, returned⟩, reported⟩
    cases fails : setting.fails with
    | true =>
        have silent := reported steps returned
        rw [fails, if_pos rfl, failure_interprets fails returned] at silent
        cases silent
    | false =>
        refine ⟨rfl, ?_⟩
        cases pauses with
        | nil => rfl
        | cons pause later =>
            have pauses : ¬ pause.Ends := paused pause List.mem_cons_self
            exact absurd returned (pause_never_returns fails pauses)
  · rintro ⟨reports, rfl⟩
    constructor
    · refine ⟨2, ?_⟩
      have done := @end_returns setting 0 last reports ends
      show (setting.run (0 + 2) (start [last])).place = .returned
      rw [done]
    · intro steps returned
      rw [reports, if_neg Bool.false_ne_true]
      rcases steps with _ | _ | steps
      · cases returned
      · have place :
            (setting.step (start [last])).place = .looping last.word := by
          simp [Setting.step, start, reports]
        have same : Place.returned = .looping last.word :=
          returned.symm.trans place
        cases same
      · have done := @end_returns setting steps last reports ends
        show (setting.run (steps + 2) (start [last])).unreported = []
        rw [done]

/-- A child that exits with 0, and nothing else. -/
theorem wait_for_signal_iff_exit :
    Waits ⟨false, 0⟩ ([] ++ [.exited 0]) ↔
      (false : Bool) = false ∧ ([] : List Change) = [] :=
  wait_for_signal_iff ⟨false, 0⟩ [] (.exited 0) (by simp) rfl

/-- A child that is stopped, continued and then exits: the function never
returns. -/
theorem wait_for_signal_stop :
    (∀ steps,
      ((⟨false, 0⟩ : Setting).run steps
        (start [.stopped 19, .continued, .exited 0])).place ≠ .returned) ∧
      ¬ Waits ⟨false, 0⟩ ([.stopped 19, .continued] ++ [.exited 0]) := by
  have pauses : ¬ (Change.stopped 19).Ends := Bool.false_ne_true
  constructor
  · intro steps
    exact pause_never_returns rfl pauses
  · rintro ⟨⟨steps, returned⟩, _⟩
    exact pause_never_returns rfl pauses returned

end Atomicles.Waiting
