import Atomicles.CommandLine.Printf
import Atomicles.Lock.CommandLine
import Atomicles.Lock.Sessions

/-!
# Sessions at the shell

A session of typed command lines.  A line that states a legal request is
answered as the registry serves the request, and every other line that is
understood at all prints the usage text and leaves the locks alone.
-/

namespace Atomicles.Typed

open Interaction CommandLine Refinement Lock

/-! ## What a command line asks for -/

/-- The line states this action for this key, all its options being known. -/
def Requests (args : List Text) (key : Key) (action : Action) : Prop :=
  ∃ found number word rest verb,
    getopt_long longopts args = (found, number :: word :: rest) ∧
      .invalid ∉ found ∧ (key.toNat : Int) = atoi number ∧
        Verb.read word = some verb ∧ Stated found verb action

/-- The line is too short, has an unknown option, or states no action. -/
def Refuses (args : List Text) : Prop :=
  args.length + 1 ≤ 2 ∨ .invalid ∈ (getopt_long longopts args).1 ∨
    ∃ found number word rest,
      getopt_long longopts args = (found, number :: word :: rest) ∧
        (Verb.read word = none ∨ Verb.read word = some .help)

variable {paths : KeyPaths} {args : List Text} {key : Key} {action : Action}
variable {found : List (Found OptionCode)} {verb : Verb}

/-- A word and the numbers state one action only. -/
theorem stated_unique {other : Action} (meant : Stated found verb action)
    (meant' : Stated found verb other) : action = other := by
  cases action with
  | create semaphores expire =>
      rcases meant with ⟨rfl, size, rfl⟩
      cases other with
      | create semaphores' expire' =>
          rcases meant' with ⟨_, size', rfl⟩
          have same : semaphores = semaphores' := by
            apply BitVec.eq_of_toNat_eq
            omega
          rw [same]
      | _ => simp [Stated] at meant'
  | on timeout =>
      rcases meant with ⟨rfl, rfl⟩
      cases other with
      | on timeout' => rw [meant'.2]
      | _ => simp [Stated] at meant'
  | _ =>
      cases meant
      cases other <;> simp_all [Stated]

/-- The numbers of a legal action fit. -/
theorem fits_of_legal (legal : Legal action)
    (meant : Stated found verb action) {number : Text}
    (isKey : (key.toNat : Int) = atoi number) : Fits found number verb := by
  have positive : 0 ≤ atoi number := by omega
  cases action with
  | create semaphores expire =>
      rcases meant with ⟨rfl, size, _⟩
      have few := legal.1
      exact ⟨positive, by omega, by omega⟩
  | on timeout =>
      rcases meant with ⟨rfl, isWritten⟩
      rcases legal with forever | ⟨one, short⟩
      · exact ⟨positive, by omega, by omega⟩
      · exact ⟨positive, by omega, by omega⟩
  | summary => exact legal.elim
  | _ =>
      cases meant
      exact positive

/-- No option sets `delta`. -/
theorem settled_delta : (settled found).statics.delta = 0 := by
  have kept : ∀ locals : Locals,
      (found.foldl Locals.set locals).statics.delta = locals.statics.delta := by
    induction found with
    | nil => exact fun _ => rfl
    | cons item found ih =>
        intro locals
        rw [List.foldl_cons, ih]
        cases item with
        | option code optarg => cases code <;> rfl
        | invalid => rfl
  exact kept {}

theorem choose_statics {number word : Text} {statics : Statics}
    {chosen : Key} {done : Action}
    (chose : (settled found).choose number word =
      .call statics chosen done) : statics = (settled found).statics := by
  unfold Locals.choose at chose
  split at chose <;> cases chose <;> rfl

/-- `main` performs what a legal line states. -/
theorem main_scanned {number word : Text} {rest : List Text}
    (scanned : getopt_long longopts args = (found, number :: word :: rest))
    (understood : .invalid ∉ found) (isKey : (key.toNat : Int) = atoi number)
    (read : Verb.read word = some verb) (meant : Stated found verb action)
    (legal : Legal action) :
    Lock.main paths args =
      action.run paths (settled found).statics key := by
  have acts : verb ≠ .help := by
    rintro rfl
    cases action <;> simp [Stated] at meant
  have enough : args.length + 1 > 2 := by
    have room := scan_length longopts none args
    have operands : (scan longopts none args).2 = number :: word :: rest :=
      congrArg Prod.snd scanned
    rw [operands] at room
    simp only [List.length_cons] at room
    omega
  rcases (choose_stated_iff read acts).mpr (fits_of_legal legal meant isKey)
    with ⟨statics, chosen, done, chose, isChosen, meant'⟩
  have sameKey : chosen = key := by
    apply BitVec.eq_of_toNat_eq
    omega
  subst sameKey
  have sameAction := stated_unique meant meant'
  subst sameAction
  have sameStatics := choose_statics chose
  subst sameStatics
  have taken := course_operands enough scanned understood
  dsimp only at taken
  rw [chose] at taken
  simp only [Lock.main, taken, settled_delta, Int.lt_irrefl, if_false]

theorem main_requests (requests : Requests args key action)
    (legal : Legal action) :
    ∃ statics, Lock.main paths args = action.run paths statics key := by
  rcases requests with
    ⟨found, number, word, rest, verb, scanned, understood, isKey, read, meant⟩
  exact ⟨_, main_scanned scanned understood isKey read meant legal⟩

/-! ## Lines that print the usage text -/

theorem main_refuses (refuses : Refuses args) :
    ∃ e, Lock.main paths args = (do usage; return e) := by
  have used : ∃ e, course args = .usage e := by
    by_cases short : args.length + 1 ≤ 2
    · exact ⟨0, if_neg (by omega)⟩
    · have enough : args.length + 1 > 2 := by omega
      by_cases invalid : .invalid ∈ (getopt_long longopts args).1
      · exact ⟨-2, course_invalid enough rfl invalid⟩
      · rcases refuses with isShort | isInvalid |
          ⟨found, number, word, rest, scanned, noAction⟩
        · exact absurd isShort short
        · exact absurd isInvalid invalid
        · rw [scanned] at invalid
          have taken := course_operands enough scanned invalid
          dsimp only at taken
          rcases noAction with none | helps
          · exact ⟨-1, by simp only [taken, Locals.choose, none]⟩
          · exact ⟨0, by simp only [taken, Locals.choose, helps]⟩
  rcases used with ⟨e, isUsage⟩
  exact ⟨e, by simp only [Lock.main, isUsage]⟩

/-- Printing takes time and nothing else. -/
theorem prints_runs {lines : List String} {process : Pid}
    {store after : Store} {events : List (Event signature)} {value : PUnit}
    (runs : (lines.forM fun line => printf line []).Runs granting process store
      events value after) : ∃ seconds, after = store.advance seconds := by
  induction lines generalizing store events with
  | nil =>
      rcases Program.runs_done_iff.mp runs with ⟨_, _, rfl⟩
      exact ⟨0, by simp [Store.advance]⟩
  | cons line lines ih =>
      rcases Program.runs_bind_iff.mp runs with
        ⟨_, later, _, middle, _, prints, runs⟩
      rcases Program.runs_issue_iff.mp prints with
        ⟨_, _, _, _, exec, ends⟩
      rcases Program.runs_done_iff.mp ends with ⟨_, _, rfl⟩
      rcases granting_exec_iff.mp exec with ⟨choice, _, _, granted⟩
      cases granted
      rcases ih runs with ⟨seconds, rfl⟩
      exact ⟨choice.tick + seconds, Store.advance_advance _ _⟩

theorem usage_runs {e : Int} {process : Pid} {store after : Store}
    {events : List (Event signature)} {code : Int}
    (runs : (do usage; return e : Prog Int).Runs granting process store events
      code after) : ∃ seconds, after = store.advance seconds := by
  rcases Program.runs_bind_iff.mp runs with
    ⟨_, _, _, middle, _, prints, ends⟩
  rcases Program.runs_done_iff.mp ends with ⟨_, _, rfl⟩
  exact prints_runs prints

theorem prints_delivers {lines : List String} {process : Pid} {store : Store}
    {exempt : Call → Prop} :
    Program.Delivers granting process exempt
      (lines.forM fun line => printf line []) store fun _ _ => True := by
  induction lines generalizing store with
  | nil => trivial
  | cons line lines ih =>
      apply Program.delivers_bind.mpr
      apply delivers_granted
      intro choice _
      exact ⟨(), _, rfl, ih⟩

/-! ## Sessions of lines -/

/-- Command lines that are run one after the other, with any time between them
and any processes ending: each states a legal request, or is refused; none of
them makes a call that is exempt. -/
inductive Session (paths : KeyPaths) (exempt : Call → Prop) :
    Store → List Served → Store → Prop where
  | nil (store : Store) : Session paths exempt store [] store
  | wait {store final : Store} {commands : List Served} (seconds : Nat)
      (rest : Session paths exempt (store.advance seconds) commands final) :
      Session paths exempt store commands final
  | leave {store final : Store} {commands : List Served} (process : Pid)
      (rest : Session paths exempt (store.leave process) commands final) :
      Session paths exempt store commands final
  | request {store after final : Store} {commands : List Served}
      {process : Pid} {args : List Text} {key : Key} {action : Action}
      {events : List (Event signature)} {code : Int}
      (requests : Requests args key action) (small : key.toNat < 128)
      (legal : Legal action)
      (runs : (Lock.main paths args).Runs granting process store events code
        after)
      (allowed : ∀ event ∈ events, ¬ exempt event.call)
      (rest : Session paths exempt after commands final) :
      Session paths exempt store
        (⟨key, action, store.now, after.now, ⟨code, printed events⟩⟩ ::
          commands) final
  | refuse {store after final : Store} {commands : List Served}
      {process : Pid} {args : List Text} {events : List (Event signature)}
      {code : Int} (refuses : Refuses args)
      (runs : (Lock.main paths args).Runs granting process store events code
        after)
      (rest : Session paths exempt after commands final) :
      Session paths exempt store commands final

/-- A session of lines is a session of what they state. -/
theorem Session.stated {exempt : Call → Prop} {store final : Store}
    {commands : List Served}
    (session : Session paths exempt store commands final) :
    Refinement.Session paths exempt store commands final := by
  induction session with
  | nil store => exact .nil store
  | wait seconds rest ih => exact .wait seconds ih
  | leave process rest ih => exact .leave process ih
  | request requests small legal runs allowed rest ih =>
      rcases main_requests requests legal with ⟨statics, isAction⟩
      rw [isAction] at runs
      exact .run small legal runs allowed ih
  | refuse refuses runs rest ih =>
      rcases main_refuses refuses with ⟨e, isUsage⟩
      rw [isUsage] at runs
      rcases usage_runs runs with ⟨seconds, rfl⟩
      exact .wait seconds ih

/-! ## Lines for requests -/

/-- The verb of an action. -/
def verbOf : Action → Verb
  | .on _ => .on
  | .off => .off
  | .status => .status
  | .summary => .summary
  | .delete => .delete
  | .create _ _ => .create

/-- The word for a verb. -/
def word : Verb → Text
  | .on => "on".toList
  | .off => "off".toList
  | .summary => "summary".toList
  | .status => "status".toList
  | .delete => "delete".toList
  | .create => "create".toList
  | .help => "help".toList

/-- The options of an action. -/
def options : Action → List Text
  | .on timeout => ["-t".toList, decimal timeout]
  | .create semaphores expire =>
      ["-s".toList, decimal semaphores.toNat, "-x".toList, decimal expire]
  | _ => []

/-- A line that states a request. -/
def commandLine (key : Key) (action : Action) : List Text :=
  decimal key.toNat :: word (verbOf action) :: options action

/-- What `getopt_long` reports of the options of an action. -/
def reported : Action → List (Found OptionCode)
  | .on timeout => [.option .timeout (decimal timeout)]
  | .create semaphores expire =>
      [.option .semaphores (decimal semaphores.toNat),
        .option .expire (decimal expire)]
  | _ => []

theorem decimal_plain (n : Nat) : (decimal n).head? ≠ some '-' := by
  have notNegative : ¬ ((n : Int) < 0) := by omega
  rcases toDigits_cons n with ⟨digit, rest, front, isDigit⟩
  simp only [decimal, if_neg notNegative, Int.natAbs_natCast, front,
    List.head?_cons, ne_eq, Option.some.injEq]
  rintro rfl
  exact absurd isDigit (by decide)

theorem word_plain (verb : Verb) : (word verb).head? ≠ some '-' := by
  cases verb <;> decide

theorem scan_options (action : Action) :
    scan longopts none (options action) = (reported action, []) := by
  cases action <;> rfl

theorem scan_commandLine (key : Key) (action : Action) :
    getopt_long longopts (commandLine key action) =
      (reported action, [decimal key.toNat, word (verbOf action)]) := by
  unfold getopt_long commandLine
  rw [scan_operand longopts (decimal_plain _),
    scan_operand longopts (word_plain _), scan_options]

theorem read_word (verb : Verb) : Verb.read (word verb) = some verb := by
  cases verb <;> decide

theorem reported_understood (action : Action) : .invalid ∉ reported action := by
  cases action <;> simp [reported]

theorem stated_reported (legal : Legal action) :
    Stated (reported action) (verbOf action) action := by
  cases action with
  | on timeout =>
      have read : atoi (decimal timeout) = timeout := by
        rcases legal with forever | ⟨one, short⟩ <;>
          exact atoi_decimal (by omega) (by omega)
      simp [Stated, verbOf, reported, written, argument, read]
  | create semaphores expire =>
      rcases legal with ⟨few, positive, short⟩
      have size : atoi (decimal semaphores.toNat) = semaphores.toNat :=
        atoi_decimal (by omega) (by omega)
      have time : atoi (decimal expire) = expire :=
        atoi_decimal (Int.le_trans (by decide) positive) short
      simp [Stated, verbOf, reported, written, argument, size, time]
  | _ => rfl

/-- Every legal request can be typed. -/
theorem commandLine_requests (small : key.toNat < 128)
    (legal : Legal action) : Requests (commandLine key action) key action :=
  ⟨_, _, _, _, _, scan_commandLine key action, reported_understood action,
    (atoi_decimal (by omega) (by omega)).symm, read_word _,
    stated_reported legal⟩

theorem main_line (small : key.toNat < 128) (legal : Legal action) :
    Lock.main paths (commandLine key action) =
      action.run paths .initial key := by
  have isKey : (key.toNat : Int) = atoi (decimal key.toNat) :=
    (atoi_decimal (by omega) (by omega)).symm
  have performed : Lock.main paths (commandLine key action) =
      action.run paths (settled (reported action)).statics key :=
    main_scanned (scan_commandLine key action) (reported_understood action)
      isKey (read_word _) (stated_reported legal) legal
  -- Only `create` gets an option that sets the statics, and does not use them.
  cases action <;> exact performed

/--
Every legal request can be typed: the line that is written for it states it,
and `main` performs it, with the very numbers of the request.
-/
theorem main_commandLine (paths : KeyPaths) (key : Key) (action : Action)
    (small : key.toNat < 128) (legal : Legal action) :
    Requests (commandLine key action) key action ∧
      Lock.main paths (commandLine key action) =
        action.run paths .initial key :=
  ⟨commandLine_requests small legal, main_line small legal⟩

/-- `lock 5 create -s 3 -x 60`. -/
theorem main_commandLine_create :
    commandLine 5 (.create 3 60) =
        ["5", "create", "-s", "3", "-x", "60"].map String.toList ∧
      Requests (commandLine 5 (.create 3 60)) 5 (.create 3 60) ∧
      Lock.main .devtmpfs (commandLine 5 (.create 3 60)) =
        Lock.create .devtmpfs 5 3 60 :=
  ⟨by decide,
    main_commandLine .devtmpfs 5 (.create 3 60) (by decide) (by simp [Legal])⟩

/-! ## The result -/

/--
Whatever command lines are typed one after the other into an empty system, each
of them legal or refused: the exit codes and the printed numbers are those of
the registry that serves the stated requests in their order, and a next line
returns, unless it clears more than a page.
-/
theorem lines_refine {start : Time} {commands : List Served} {final : Store}
    (session : Session paths Oversized (.empty start) commands final) :
    (∃ registry, Registry.Serves (fun _ => none) commands registry) ∧
      ∀ (process : Pid) (args : List Text),
        Refuses args ∨ (∃ key action, Requests args key action ∧
          key.toNat < 128 ∧ Legal action) →
        Program.Delivers granting process Oversized (Lock.main paths args)
          final fun _ _ => True := by
  rcases session.stated.serves (reflects_empty start) with
    ⟨registry, serves, reflects⟩
  refine ⟨⟨registry, serves⟩, ?_⟩
  rintro process args (refuses | ⟨key, action, requests, small, legal⟩)
  · rcases main_refuses refuses with ⟨e, isUsage⟩
    rw [isUsage]
    exact Program.delivers_bind.mpr (prints_delivers.mono
      fun _ _ _ => trivial)
  · rcases main_requests requests legal with ⟨statics, isAction⟩
    rw [isAction]
    exact run_returns reflects small legal

/-- The session of the lines for requests that are performed. -/
theorem session_performed {exempt : Call → Prop}
    (sound : ∀ call, exempt call → Oversized call)
    {entries : List (Pid × Key × Action)} {store final : Store}
    {commands : List Served}
    (lawful : ∀ entry ∈ entries, entry.2.1.toNat < 128 ∧ Legal entry.2.2)
    (ran : performed paths entries store = some (commands, final)) :
    Session paths exempt store commands final := by
  induction entries generalizing store commands with
  | nil =>
      cases ran
      exact .nil _
  | cons entry rest ih =>
      rcases entry with ⟨process, key, action⟩
      rcases lawful _ (List.mem_cons_self ..) with ⟨small, legal⟩
      unfold performed at ran
      split at ran
      · cases ran
      · rename_i events code after runs
        split at ran
        · rename_i passed
          rcases Option.map_eq_some_iff.mp ran with
            ⟨⟨later, last⟩, goesOn, same⟩
          cases same
          have typed : (Lock.main paths (commandLine key action)).Runs granting
              process store events code after := by
            rw [main_line small legal]
            exact alone_runs ⟨rfl, rfl⟩ runs
          apply Session.request (commandLine_requests small legal) small legal
            typed
          · intro event member exempted
            exact modest_sound passed event member (sound _ exempted)
          · refine ih (fun entry member => ?_) goesOn
            exact lawful entry (List.mem_cons_of_mem _ member)
        · cases ran

/-- A lock for two is made, taken once and looked at. -/
theorem lines_refine_taken :
    ∃ commands final,
      Session .devtmpfs Oversized (.empty 0) commands final ∧
        (commands.map fun command =>
          (command.reply.code, command.reply.printed)) =
            [(0, []), (0, []), (0, [[1, 2, -1]])] ∧
        (∃ registry, Registry.Serves (fun _ => none) commands registry) ∧
        ∀ (process : Pid) (args : List Text),
          Refuses args ∨ (∃ key action, Requests args key action ∧
            key.toNat < 128 ∧ Legal action) →
          Program.Delivers granting process Oversized
            (Lock.main .devtmpfs args) final fun _ _ => True := by
  have computed : (performed .devtmpfs
      [(1, 5, .create 2 0), (2, 5, .on (-1)), (3, 5, .status)]
      (.empty 0)).any (fun run => decide ((run.1.map fun command =>
        (command.reply.code, command.reply.printed)) =
          [(0, []), (0, []), (0, [[1, 2, -1]])])) = true := by
    decide
  have lawful : ∀ entry ∈ [((1 : Pid), (5 : Key), Action.create 2 0),
      (2, 5, .on (-1)), (3, 5, .status)],
        entry.2.1.toNat < 128 ∧ Legal entry.2.2 := by
    simp [Legal]
  cases ran : performed .devtmpfs
      [(1, 5, .create 2 0), (2, 5, .on (-1)), (3, 5, .status)] (.empty 0) with
  | none =>
      rw [ran] at computed
      cases computed
  | some run =>
      rw [ran] at computed
      have session : Session .devtmpfs Oversized (.empty 0) run.1 run.2 :=
        session_performed (fun _ exempted => exempted) lawful ran
      exact ⟨run.1, run.2, session, of_decide_eq_true computed,
        lines_refine session⟩

end Atomicles.Typed
