import Atomicles.Daemon.CommandLine
import Atomicles.Source.Script

/-!
# What the script asks of `daemonize`

The script writes command lines, the shell splits them, and `main` reads them
with `getopt_long` and `atoi`.  What is left of a request on the other side is
the action and the channel that the script meant.
-/

namespace Atomicles.Script

open Interaction CommandLine

/-! ## Requests -/

/-- What `daemonize` is meant to do, and for `start` the command. -/
structure Request where
  action : Daemon.Action
  channel : Int
  command : Text

/-- The shell command of a request. -/
def Request.text (daemonize : Text) (request : Request) : Text :=
  match request.action with
  | .start => startCommand daemonize request.channel request.command
  | .stop => stopCommand daemonize request.channel
  | .status => statusCommand daemonize request.channel

/-- The requests of a verb, for a service that it acts on. -/
def verbRequests (verb : Verb) (channel : Int) (command : Text) :
    List Request :=
  match verb with
  | .start => [⟨.start, channel, command⟩]
  | .stop => [⟨.stop, channel, []⟩]
  | .restart => [⟨.stop, channel, []⟩, ⟨.start, channel, command⟩]
  | .status => [⟨.status, channel, []⟩]

/-- A service that is enabled, or manual and called by its name. -/
abbrev Enabled (service : Text) (manual_eq_enabled : Bool) : Prop :=
  service = "enabled".toList ∨
    service = "manual".toList ∧ manual_eq_enabled = true

/-- The requests for a service; `none` if the configuration lacks something
that has to be read. -/
def requests (config : Config) (verb : Verb) (manual_eq_enabled : Bool)
    («section» : Text) : Option (List Request) := do
  let service ← config.service «section»
  let channel ← config.channel «section»
  if verb = .status then return verbRequests verb channel []
  else if Enabled service manual_eq_enabled then
    return verbRequests verb channel (← config.command «section»)
  else return []

/-- The requests for some services, up to one that cannot be read. -/
def planned (config : Config) (verb : Verb) (manual_eq_enabled : Bool) :
    List Text → List Request
  | [] => []
  | «section» :: services =>
      match requests config verb manual_eq_enabled «section» with
      | some list =>
          list ++ planned config verb manual_eq_enabled services
      | none => []

/-- The requests for the arguments behind the name of the script. -/
def plan (config : Config) : List Text → List Request
  | [] => []
  | action :: named =>
      match ACTIONS.lookup action with
      | some verb =>
          planned config verb (!named.isEmpty)
            (if named = [] then config.sections else named)
      | none => []

/-! ## What a run asks -/

/-- The shell commands of a run. -/
def commands (events : List (Event signature)) : List Text :=
  events.filterMap fun event =>
    match event.call with
    | .communicate cmd => some cmd
    | _ => none

@[simp]
theorem commands_append (front back : List (Event signature)) :
    commands (front ++ back) = commands front ++ commands back :=
  List.filterMap_append

section Runs

variable {daemonize : Text} {config : Config} {verb : Verb}
variable {manual_eq_enabled : Bool} {events : List (Event signature)}

theorem ends_write {text : Text} {value : Unit}
    (ends : Program.Ends (write text) events value) : commands events = [] := by
  rcases Program.ends_issue_iff.mp ends with ⟨answer, rest, rfl, ended⟩
  rcases Program.ends_done_iff.mp ended with ⟨rfl, _⟩
  rfl

theorem ends_sleep {value : Unit} (ends : Program.Ends sleep events value) :
    commands events = [] := by
  rcases Program.ends_issue_iff.mp ends with ⟨answer, rest, rfl, ended⟩
  rcases Program.ends_done_iff.mp ended with ⟨rfl, _⟩
  rfl

theorem ends_getoutput {cmd output : Text}
    (ends : Program.Ends (getoutput cmd) events output) :
    commands events = [cmd] := by
  rcases Program.ends_issue_iff.mp ends with ⟨answer, rest, rfl, ended⟩
  rcases Program.ends_done_iff.mp ended with ⟨rfl, _⟩
  rfl

/-- The branches for an enabled service. -/
theorem ends_control {channel : Int} {command : Text} {value : Unit}
    (controls : verb ≠ .status)
    (ends : Program.Ends (control daemonize verb channel command) events
      value) :
    commands events =
      (verbRequests verb channel command).map (Request.text daemonize) := by
  cases verb with
  | status => exact absurd rfl controls
  | start =>
      rcases Program.ends_bind_iff.mp ends with
        ⟨first, second, output, rfl, asked, written⟩
      rw [commands_append, ends_getoutput asked, ends_write written]
      rfl
  | stop =>
      rcases Program.ends_bind_iff.mp ends with
        ⟨first, second, output, rfl, asked, written⟩
      rw [commands_append, ends_getoutput asked, ends_write written]
      rfl
  | restart =>
      rcases Program.ends_bind_iff.mp ends with
        ⟨first, second, output, rfl, asked, ends⟩
      rcases Program.ends_bind_iff.mp ends with
        ⟨third, fourth, _, rfl, written, ends⟩
      rcases Program.ends_bind_iff.mp ends with
        ⟨fifth, sixth, _, rfl, slept, ends⟩
      rcases Program.ends_bind_iff.mp ends with
        ⟨seventh, eighth, output, rfl, again, ended⟩
      rw [commands_append, commands_append, commands_append, commands_append,
        ends_getoutput asked, ends_write written, ends_sleep slept,
        ends_getoutput again, ends_write ended]
      rfl

/-- One service: its requests, whether or not the answer to the last one can
be read. -/
theorem ends_serve {«section» : Text} {outcome : Option Unit}
    (ends : Program.Ends
      (serve daemonize config verb manual_eq_enabled «section») events
        outcome) :
    match requests config verb manual_eq_enabled «section» with
    | some list => commands events = list.map (Request.text daemonize)
    | none => commands events = [] ∧ outcome = none := by
  unfold serve at ends
  unfold requests
  cases hasService : config.service «section» with
  | none =>
      rw [hasService] at ends
      rcases Program.ends_done_iff.mp ends with ⟨rfl, rfl⟩
      exact ⟨rfl, rfl⟩
  | some service =>
  cases hasChannel : config.channel «section» with
  | none =>
      rw [hasService, hasChannel] at ends
      rcases Program.ends_done_iff.mp ends with ⟨rfl, rfl⟩
      exact ⟨rfl, rfl⟩
  | some channel =>
  rw [hasService, hasChannel] at ends
  dsimp only at ends
  by_cases asksStatus : verb = .status
  · subst asksStatus
    rw [if_pos rfl] at ends
    rcases Program.ends_bind_iff.mp ends with
      ⟨first, second, output, rfl, asked, ended⟩
    have quiet : commands second = [] := by
      split at ended
      · rcases Program.ends_bind_iff.mp ended with
          ⟨third, fourth, _, rfl, written, returned⟩
        rcases Program.ends_done_iff.mp returned with ⟨rfl, _⟩
        rw [commands_append, ends_write written]
        rfl
      · rcases Program.ends_done_iff.mp ended with ⟨rfl, _⟩
        rfl
    rw [commands_append, ends_getoutput asked, quiet]
    rfl
  by_cases enabled : Enabled service manual_eq_enabled
  · rw [if_neg asksStatus, if_pos enabled] at ends
    simp only [Option.bind_eq_bind, Option.bind_some, if_neg asksStatus,
      if_pos enabled]
    cases hasCommand : config.command «section» with
    | none =>
        rw [hasCommand] at ends
        rcases Program.ends_done_iff.mp ends with ⟨rfl, rfl⟩
        exact ⟨rfl, rfl⟩
    | some command =>
        rw [hasCommand] at ends
        rcases Program.ends_bind_iff.mp ends with
          ⟨first, second, _, rfl, written, ended⟩
        rcases Program.ends_bind_iff.mp ended with
          ⟨third, fourth, _, rfl, controlled, returned⟩
        rcases Program.ends_done_iff.mp returned with ⟨rfl, _⟩
        rw [commands_append, ends_write written, commands_append,
          ends_control asksStatus controlled]
        exact List.append_nil _
  · rw [if_neg asksStatus, if_neg enabled] at ends
    simp only [Option.bind_eq_bind, Option.bind_some, if_neg asksStatus,
      if_neg enabled]
    rcases Program.ends_bind_iff.mp ends with
      ⟨first, second, _, rfl, written, returned⟩
    rcases Program.ends_done_iff.mp returned with ⟨rfl, _⟩
    rw [commands_append, ends_write written]
    rfl

/-- The services: their requests in this order, up to the one at which an
exception ends the loop. -/
theorem ends_serveAll {services : List Text} {outcome : Option Unit}
    (ends : Program.Ends
      (serveAll daemonize config verb manual_eq_enabled services) events
        outcome) :
    commands events <+:
        (planned config verb manual_eq_enabled services).map
          (Request.text daemonize) ∧
      (outcome.isSome = true → commands events =
        (planned config verb manual_eq_enabled services).map
          (Request.text daemonize)) := by
  induction services generalizing events with
  | nil =>
      rcases Program.ends_done_iff.mp ends with ⟨rfl, rfl⟩
      exact ⟨List.nil_prefix, fun _ => rfl⟩
  | cons «section» services ih =>
      rcases Program.ends_bind_iff.mp ends with
        ⟨first, second, served, rfl, serves, ended⟩
      have own := ends_serve serves
      unfold planned
      cases given : requests config verb manual_eq_enabled «section» with
      | none =>
          rw [given] at own
          rcases own with ⟨silent, rfl⟩
          rcases Program.ends_done_iff.mp ended with ⟨rfl, rfl⟩
          rw [commands_append, silent]
          exact ⟨List.nil_prefix,
            fun finished => absurd finished (by decide)⟩
      | some list =>
          rw [given] at own
          rw [commands_append, own, List.map_append]
          cases served with
          | none =>
              rcases Program.ends_done_iff.mp ended with ⟨rfl, rfl⟩
              exact ⟨(List.prefix_append_right_inj _).mpr List.nil_prefix,
                fun finished => absurd finished (by decide)⟩
          | some _ =>
              rcases ih ended with ⟨early, complete⟩
              exact ⟨(List.prefix_append_right_inj _).mpr early,
                fun finished => congrArg _ (complete finished)⟩

/-- A run of the script. -/
theorem ends_main {argv : List Text} {outcome : Option Int}
    (ends : Program.Ends (main daemonize config argv) events outcome) :
    commands events <+: (plan config argv).map (Request.text daemonize) ∧
      (outcome.isSome = true → commands events =
        (plan config argv).map (Request.text daemonize)) := by
  unfold main at ends
  unfold plan
  have usage {events : List (Event signature)} {outcome : Option Int}
      (ends : Program.Ends (do
        write "Usage: atomicles start|stop|restart|status\n".toList
        return some 0) events outcome) : commands events = [] := by
    rcases Program.ends_bind_iff.mp ends with
      ⟨first, second, _, rfl, written, returned⟩
    rcases Program.ends_done_iff.mp returned with ⟨rfl, _⟩
    rw [commands_append, ends_write written]
    rfl
  cases argv with
  | nil =>
      rw [usage ends]
      exact ⟨List.nil_prefix, fun _ => rfl⟩
  | cons action named =>
      cases found : ACTIONS.lookup action with
      | none =>
          simp only [found] at ends ⊢
          rw [usage ends]
          exact ⟨List.nil_prefix, fun _ => rfl⟩
      | some verb =>
          simp only [found] at ends ⊢
          rcases Program.ends_bind_iff.mp ends with
            ⟨first, second, served, rfl, serves, ended⟩
          rcases ends_serveAll serves with ⟨early, complete⟩
          have quiet : second = [] ∧ outcome.isSome = served.isSome := by
            cases served <;> exact Program.ends_done_iff.mp ended |>.imp_right
              fun same => by rw [same]; rfl
          rw [quiet.1, List.append_nil, quiet.2]
          exact ⟨early, complete⟩

end Runs

/-! ## What arrives -/

/-- The characters that mean themselves to a shell. -/
def plain (character : Char) : Bool :=
  character.isAlphanum || "-_./:,+@".toList.contains character

/-- Whether a character is a blank. -/
def blank (character : Char) : Bool := character = ' '

/-- A text of plain characters. -/
def Plain (text : Text) : Prop :=
  text.all plain = true

/-- A text of plain characters and blanks. -/
def Bare (text : Text) : Prop :=
  (text.all fun character => plain character || blank character) = true

/-- How a shell splits a line into the words of a command: a bare one with the
path of a program in front, at its blanks. -/
def Splits (words : Text → List Text) : Prop :=
  ∀ line program rest, Bare line →
    Sequence.pieces blank line = program :: rest → '/' ∈ program →
      words line = program :: rest

/-- The command and its arguments. -/
def Request.operands (request : Request) : List Text :=
  match request.action with
  | .start => Sequence.pieces blank request.command
  | .stop | .status => []

/-- The arguments behind the name of the program. -/
def Request.arguments (request : Request) : List Text :=
  match request.action with
  | .start => "--start".toList :: decimal request.channel :: "--".toList ::
      request.operands
  | .stop => ["--stop".toList, decimal request.channel]
  | .status => ["--status".toList, decimal request.channel]

/-- The branch of `daemonize` that a request takes: its action with its
channel, or the usage text where the channel is not positive or a `start` has
no command. -/
def Request.course (request : Request) : Daemon.Course :=
  if 0 < kept request.channel ∧
      (request.action = .start → request.operands ≠ []) then
    .call request.action (kept request.channel)
  else .usage (-1)

theorem readOptions_arguments (request : Request) :
    Daemon.readOptions request.arguments =
      ([.option request.action.option (decimal request.channel)],
        request.operands) := by
  rcases request with ⟨action, channel, command⟩
  cases action <;> rfl

theorem course_arguments (request : Request) :
    Daemon.course request.arguments = request.course := by
  have several : request.arguments.length + 1 > 2 := by
    rcases request with ⟨action, channel, command⟩
    cases action <;> simp [Request.arguments]
  unfold Daemon.course Request.course
  rw [if_pos several, readOptions_arguments, ← atoi_decimal_kept]
  rcases request with ⟨action, channel, command⟩
  by_cases positive : 0 < atoi (decimal channel)
  · cases action with
    | start =>
        cases operands : Request.operands ⟨.start, channel, command⟩ <;>
          simp [Daemon.Action.option, Daemon.Parsed.set, Daemon.Parsed.choose,
            positive, Daemon.DAEMON_START, Daemon.DAEMON_STOP,
            Daemon.DAEMON_STATUS, Daemon.DAEMON_HELP]
    | stop =>
        simp [Daemon.Action.option, Daemon.Parsed.set, Daemon.Parsed.choose,
          positive, Request.operands, Daemon.DAEMON_START, Daemon.DAEMON_STOP,
          Daemon.DAEMON_HELP]
    | status =>
        simp [Daemon.Action.option, Daemon.Parsed.set, Daemon.Parsed.choose,
          positive, Request.operands, Daemon.DAEMON_START, Daemon.DAEMON_STOP,
          Daemon.DAEMON_STATUS, Daemon.DAEMON_HELP]
  · rw [if_neg fun both => positive both.1]
    cases action <;>
      simp [Daemon.Action.option, Daemon.Parsed.set, Daemon.Parsed.choose,
        positive]

/-! ## From the line to the words -/

theorem plain_decimal (value : Int) : Plain (decimal value) := by
  have digits {number : Nat} : Plain (Nat.toDigits 10 number) := by
    refine List.all_eq_true.mpr fun character member => ?_
    have digit := Nat.isDigit_of_mem_toDigits (by decide) (by decide) member
    rw [plain, Char.isAlphanum, digit, Bool.or_true, Bool.true_or]
  unfold decimal
  split
  · exact (Bool.and_eq_true _ _).mpr ⟨by decide, digits⟩
  · exact digits

/-- There is no blank in a plain text. -/
theorem Plain.solid {text : Text} (isPlain : Plain text) :
    ∀ character ∈ text, blank character = false := by
  intro character member
  have other : character ≠ ' ' := by
    rintro rfl
    exact absurd (List.all_eq_true.mp isPlain _ member) (by decide)
  exact decide_eq_false other

theorem Plain.bare {text : Text} (isPlain : Plain text) : Bare text :=
  List.all_eq_true.mpr fun character member => by
    rw [List.all_eq_true.mp isPlain character member, Bool.true_or]

theorem Bare.append {front back : Text} (first : Bare front)
    (second : Bare back) : Bare (front ++ back) := by
  unfold Bare
  rw [List.all_append, first, second, Bool.and_self]

/-- The line of a request in words. -/
theorem pieces_text {daemonize : Text} (inhabited : daemonize ≠ [])
    (isPlain : Plain daemonize) (request : Request) :
    Sequence.pieces blank (request.text daemonize) =
      daemonize :: request.arguments := by
  have solid := isPlain.solid
  have number := (plain_decimal request.channel).solid
  have last : Sequence.pieces blank (decimal request.channel) =
      [decimal request.channel] :=
    Sequence.pieces_single (decimal_ne_nil _) number
  have word (option : Text) (inside : option ≠ [])
      (optionPlain : Plain option) (rest : Text) :
      Sequence.pieces blank (option ++ ' ' :: rest) =
        option :: Sequence.pieces blank rest :=
    Sequence.pieces_piece inside optionPlain.solid rfl rest
  rcases request with ⟨action, channel, command⟩
  cases action with
  | stop =>
      have shape : Request.text daemonize ⟨.stop, channel, command⟩ =
          daemonize ++ ' ' :: ("--stop".toList ++ ' ' :: decimal channel) := by
        simp [Request.text, stopCommand]
      rw [shape, Sequence.pieces_piece inhabited solid rfl,
        word "--stop".toList (by decide) rfl, last]
      rfl
  | status =>
      have shape : Request.text daemonize ⟨.status, channel, command⟩ =
          daemonize ++
            ' ' :: ("--status".toList ++ ' ' :: decimal channel) := by
        simp [Request.text, statusCommand]
      rw [shape, Sequence.pieces_piece inhabited solid rfl,
        word "--status".toList (by decide) rfl, last]
      rfl
  | start =>
      have shape : Request.text daemonize ⟨.start, channel, command⟩ =
          daemonize ++ ' ' :: ("--start".toList ++ ' ' ::
            (decimal channel ++ ' ' :: ("--".toList ++ ' ' :: command))) := by
        simp [Request.text, startCommand]
      rw [shape, Sequence.pieces_piece inhabited solid rfl,
        word "--start".toList (by decide) rfl,
        Sequence.pieces_piece (decimal_ne_nil _) number rfl,
        word "--".toList (by decide) rfl]
      rfl

/-- The line of a request with a bare command is bare. -/
theorem bare_text {daemonize : Text} (isPlain : Plain daemonize)
    {request : Request} (bare : Bare request.command) :
    Bare (request.text daemonize) := by
  have front := isPlain.bare
  have number := (plain_decimal request.channel).bare
  rcases request with ⟨action, channel, command⟩
  cases action with
  | stop => exact (front.append (by rfl)).append number
  | status => exact (front.append (by rfl)).append number
  | start =>
      exact (((front.append (by rfl)).append number).append (by rfl)).append
        bare

/-- The commands of a plan are those of the configuration. -/
theorem bare_plan {config : Config} {argv : List Text}
    (bare : ∀ «section» command,
      config.command «section» = some command → Bare command) :
    ∀ request ∈ plan config argv, Bare request.command := by
  have none : Bare [] := rfl
  have ofVerb {verb : Verb} {channel : Int} {command : Text}
      (own : Bare command) :
      ∀ request ∈ verbRequests verb channel command,
        Bare request.command := by
    intro request member
    cases verb <;>
      simp only [verbRequests, List.mem_cons, List.not_mem_nil,
        or_false] at member
    · exact member ▸ own
    · exact member ▸ none
    · rcases member with rfl | rfl
      · exact none
      · exact own
    · exact member ▸ none
  have ofSection {verb : Verb} {manual_eq_enabled : Bool}
      {«section» : Text} {list : List Request}
      (given : requests config verb manual_eq_enabled «section» = some list) :
      ∀ request ∈ list, Bare request.command := by
    unfold requests at given
    cases hasService : config.service «section» with
    | none => simp [hasService] at given
    | some service =>
    cases hasChannel : config.channel «section» with
    | none => simp [hasService, hasChannel] at given
    | some channel =>
    simp only [hasService, hasChannel, Option.bind_eq_bind,
      Option.bind_some] at given
    split at given
    · cases given
      exact ofVerb none
    · split at given
      · cases hasCommand : config.command «section» with
        | none => simp [hasCommand] at given
        | some command =>
            simp only [hasCommand, Option.bind_some] at given
            cases given
            exact ofVerb (bare _ _ hasCommand)
      · cases given
        exact List.forall_mem_nil _
  have ofServices {verb : Verb} {manual_eq_enabled : Bool}
      (services : List Text) :
      ∀ request ∈ planned config verb manual_eq_enabled services,
        Bare request.command := by
    induction services with
    | nil => exact List.forall_mem_nil _
    | cons «section» services ih =>
        unfold planned
        split
        · rename_i list given
          exact List.forall_mem_append.mpr ⟨ofSection given, ih⟩
        · exact List.forall_mem_nil _
  unfold plan
  split
  · exact List.forall_mem_nil _
  · split
    · exact ofServices _
    · exact List.forall_mem_nil _

/-! ## The main result -/

/-- What a process finds in its `argv`: its name, the branch of `daemonize`
and the operands. -/
def received (argv : List Text) :
    Option Text × Daemon.Course × List Text :=
  (argv.head?, Daemon.course argv.tail, (Daemon.readOptions argv.tail).2)

/-- **The script's requests arrive.**  The commands that the script runs are,
in this order, the requests of the plan, all of them unless an exception ends
the script; and each of them comes out of the shell and of the option loop as
a run of `daemonize` with the action, the channel and the command of the
request. -/
theorem asks_daemonize {words : Text → List Text} (splits : Splits words)
    {daemonize : Text} (path : '/' ∈ daemonize)
    (isPlain : Plain daemonize) {config : Config}
    (bare : ∀ «section» command,
      config.command «section» = some command → Bare command)
    {argv : List Text} {events : List (Event signature)}
    {outcome : Option Int}
    (ends : Program.Ends (main daemonize config argv) events outcome) :
    let arrived := (commands events).map fun cmd => received (words cmd)
    let meant := (plan config argv).map fun request =>
      (some daemonize, request.course, request.operands)
    arrived <+: meant ∧ (outcome.isSome = true → arrived = meant) := by
  intro arrived meant
  have each : ((plan config argv).map (Request.text daemonize)).map
      (fun cmd => received (words cmd)) = meant := by
    rw [List.map_map]
    refine List.map_congr_left fun request member => ?_
    have split := splits _ _ _ (bare_text isPlain (bare_plan bare _ member))
      (pieces_text (List.ne_nil_of_mem path) isPlain request) path
    simp only [Function.comp, split, received, List.head?_cons,
      List.tail_cons, course_arguments, readOptions_arguments]
  rcases ends_main ends with ⟨early, complete⟩
  rw [← each]
  exact ⟨early.map _, fun finished =>
    congrArg (List.map fun cmd => received (words cmd)) (complete finished)⟩

theorem asks_daemonize_restart :
    ∃ config : Config, ∃ events,
      Program.Ends
          (main "/usr/bin/daemonize".toList config ["restart".toList]) events
          (some 0) ∧
        (commands events).map
            (fun cmd => received (Sequence.pieces blank cmd)) =
          [(some "/usr/bin/daemonize".toList, .call .stop 5, []),
            (some "/usr/bin/daemonize".toList, .call .start 5,
              ["/bin/web".toList, "-p".toList, "80".toList])] := by
  let config : Config :=
    { sections := ["web".toList]
      service := fun _ => some "enabled".toList
      channel := fun _ => some 5
      command := fun _ => some "/bin/web -p 80".toList }
  have ends : Program.Ends
      (main "/usr/bin/daemonize".toList config ["restart".toList])
      [⟨.write " * web@5:".toList, ()⟩,
        ⟨.communicate "/usr/bin/daemonize --stop 5".toList, "\n".toList⟩,
        ⟨.write [], ()⟩, ⟨.sleep, ()⟩,
        ⟨.communicate
          "/usr/bin/daemonize --start 5 -- /bin/web -p 80".toList, []⟩,
        ⟨.write "\n".toList, ()⟩] (some 0) :=
    .issue _ (.issue _ (.issue _ (.issue _ (.issue _ (.issue _ (.done _))))))
  refine ⟨config, _, ends, ?_⟩
  have arrive := @asks_daemonize (Sequence.pieces blank)
    (fun _ _ _ _ split _ => split) _ (by decide) (by rfl) config
    (by
      intro _ command given
      cases given
      rfl) _ _ _ ends
  exact arrive.2 rfl

end Atomicles.Script
