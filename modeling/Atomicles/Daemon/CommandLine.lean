import Atomicles.Source.DaemonizeMain
import Atomicles.Source.Equations

/-!
# The command line of `daemonize`

Every option of the loop writes the same three locals, so that a later one may
clear the error of an earlier one or replace its channel.  The courses that
`main` takes are compared with what the options say.
-/

namespace Atomicles

open Interaction CommandLine

namespace Daemon

/-! ## What the option loop leaves -/

/-- The action and the channel of an option. -/
def channelOf : Found OptionCode → Option (Action × Int)
  | .option .start optarg => some (.start, atoi optarg)
  | .option .stop optarg => some (.stop, atoi optarg)
  | .option .status optarg => some (.status, atoi optarg)
  | .option .help _ => none
  | .option .command _ => none
  | .invalid => none

/-- The actions and channels on a command line, in their order. -/
def channels (found : List (Found OptionCode)) : List (Action × Int) :=
  found.filterMap channelOf

/-- The channel that is given last, if there is one. -/
def lastChannel (found : List (Found OptionCode)) : Int :=
  ((channels found).map Prod.snd).getLastD 0

/-- The action is asked for. -/
abbrev Asks (found : List (Found OptionCode)) (action : Action) : Prop :=
  action ∈ (channels found).map Prod.fst

/-- Whether an option has a code. -/
def isOption (code : OptionCode) : Found OptionCode → Bool
  | .option other _ => other = code
  | .invalid => false

/-- Help is asked for. -/
abbrev AsksHelp (found : List (Found OptionCode)) : Prop :=
  found.any (isOption .help) = true

/-- The action that the options ask for with these operands. -/
def wanted (found : List (Found OptionCode)) (operands : List Text) :
    Option Action :=
  if Asks found .start ∧ operands ≠ [] then some .start
  else if Asks found .stop ∧ operands = [] then some .stop
  else if Asks found .status ∧ operands = [] then some .status
  else none

/-- A positive channel comes after every option that is not understood. -/
def Cleared (found : List (Found OptionCode)) : Prop :=
  ∃ front option back entry, found = front ++ option :: back ∧
    channelOf option = some entry ∧ 0 < entry.2 ∧ .invalid ∉ back

/-- The locals after the loop. -/
def parsed (found : List (Found OptionCode)) : Parsed :=
  found.foldl Parsed.set {}

variable {found : List (Found OptionCode)}

theorem parsed_key : (parsed found).key = lastChannel found := by
  have last : (parsed found).key =
      (found.filterMap fun option => (channelOf option).map Prod.snd).getLastD
        0 := by
    apply @foldl_field _ _ _ _ Parsed.set Parsed.key
      (fun option => (channelOf option).map Prod.snd) id
    · intro parsed option
      cases option with
      | option code optarg => cases code <;> rfl
      | invalid => rfl
    · rfl
  rw [last, lastChannel, channels, List.map_filterMap]

theorem cleared_cons {option : Found OptionCode} :
    Cleared (option :: found) ↔
      Cleared found ∨
        (∃ entry, channelOf option = some entry ∧ 0 < entry.2) ∧
          .invalid ∉ found := by
  constructor
  · rintro ⟨front, last, back, entry, shape, isChannel, positive, known⟩
    cases front with
    | nil =>
        cases shape
        exact Or.inr ⟨⟨entry, isChannel, positive⟩, known⟩
    | cons first front =>
        cases shape
        exact Or.inl ⟨front, last, back, entry, rfl, isChannel, positive,
          known⟩
  · rintro (⟨front, last, back, entry, rfl, cleared⟩ |
      ⟨⟨entry, isChannel, positive⟩, known⟩)
    · exact ⟨option :: front, last, back, entry, rfl, cleared⟩
    · exact ⟨[], option, found, entry, rfl, isChannel, positive, known⟩

/-- The error is gone after a positive channel. -/
theorem foldl_e {start : Parsed} :
    (found.foldl Parsed.set start).e = 0 ↔
      Cleared found ∨ start.e = 0 ∧ .invalid ∉ found := by
  induction found generalizing start with
  | nil => simp [Cleared]
  | cons option found ih =>
      rw [List.foldl_cons, ih, cleared_cons]
      have written : (start.set option).e = 0 ↔
          (∃ entry, channelOf option = some entry ∧ 0 < entry.2) ∨
            start.e = 0 ∧ option ≠ .invalid := by
        cases option with
        | invalid => simp [Parsed.set, channelOf]
        | option code optarg =>
            cases code <;> simp [Parsed.set, channelOf] <;> grind
      rw [written]
      grind

theorem parsed_e : (parsed found).e = 0 ↔ Cleared found := by
  unfold parsed
  rw [foldl_e]
  simp

/-! ## The mask -/

/-- The bit of an option in the mask. -/
def bit : OptionCode → Option Nat
  | .help => some 1
  | .stop => some 2
  | .start => some 3
  | .status => some 4
  | .command => none

theorem set_bit {code : OptionCode} {position : Nat}
    (isBit : bit code = some position) (start : Parsed)
    (option : Found OptionCode) :
    (start.set option).options.getLsbD position =
      (start.options.getLsbD position || isOption code option) := by
  cases option with
  | invalid => simp [Parsed.set, isOption]
  | option other optarg =>
      cases code <;> cases isBit <;> cases other <;>
        simp [Parsed.set, isOption, DAEMON_HELP, DAEMON_STOP, DAEMON_START,
          DAEMON_STATUS]

theorem parsed_bit {code : OptionCode} {position : Nat}
    (isBit : bit code = some position) :
    (parsed found).options.getLsbD position = found.any (isOption code) := by
  have folded : ∀ start : Parsed,
      (found.foldl Parsed.set start).options.getLsbD position =
        (start.options.getLsbD position || found.any (isOption code)) := by
    induction found with
    | nil => simp
    | cons option found ih =>
        intro start
        rw [List.foldl_cons, ih, set_bit isBit, List.any_cons, Bool.or_assoc]
  unfold parsed
  rw [folded]
  simp

/-- A flag is one bit of the mask. -/
theorem and_flag_iff {options : UInt} {position : Nat}
    (within : position < 32) :
    options &&& BitVec.twoPow 32 position = BitVec.twoPow 32 position ↔
      options.getLsbD position = true := by
  rw [BitVec.and_twoPow]
  cases set : options.getLsbD position with
  | true => simp
  | false =>
      have positive : BitVec.twoPow 32 position ≠ 0 := by
        intro zero
        have bits := congrArg (fun word => word.getLsbD position) zero
        simp [within] at bits
      simpa using positive.symm

/-- The option of an action. -/
def Action.option : Action → OptionCode
  | .start => .start
  | .stop => .stop
  | .status => .status

theorem asks_iff {action : Action} :
    Asks found action ↔ found.any (isOption action.option) = true := by
  induction found with
  | nil => simp [channels]
  | cons option found ih =>
      unfold Asks channels at ih ⊢
      cases option with
      | invalid => simpa [channelOf, isOption] using ih
      | option code optarg =>
          cases code <;> cases action <;>
            simp_all [channelOf, isOption, Action.option]

/-- The mask has the flag of an action that is asked for. -/
theorem flag_iff {action : Action} {position : Nat} {flag : UInt}
    (isBit : bit action.option = some position)
    (isFlag : flag = BitVec.twoPow 32 position) :
    (parsed found).options &&& flag = flag ↔ Asks found action := by
  have within : position < 32 := by
    cases action <;> cases isBit <;> decide
  rw [isFlag, and_flag_iff within, parsed_bit isBit, asks_iff]

theorem help_iff :
    (parsed found).options &&& DAEMON_HELP ≠ 0 ↔ AsksHelp found := by
  have isBit : bit .help = some 1 := rfl
  have isFlag : DAEMON_HELP = BitVec.twoPow 32 1 := by decide
  rw [isFlag, BitVec.and_twoPow, parsed_bit isBit]
  by_cases helps : AsksHelp found
  · rw [if_pos helps]
    exact iff_of_true (by decide) helps
  · rw [if_neg helps]
    exact iff_of_false (not_not_intro rfl) helps

/-! ## The courses -/

/-- When an action is performed, and with which channel. -/
theorem choose_call_iff {operands : List Text} {action : Action} {key : Int} :
    (parsed found).choose operands = .call action key ↔
      Cleared found ∧ ¬ AsksHelp found ∧
        wanted found operands = some action ∧ key = lastChannel found := by
  have start := @flag_iff found .start 3 DAEMON_START rfl (by decide)
  have stop := @flag_iff found .stop 2 DAEMON_STOP rfl (by decide)
  have status := @flag_iff found .status 4 DAEMON_STATUS rfl (by decide)
  unfold Parsed.choose
  by_cases cleared : Cleared found
  · rw [if_pos (parsed_e.mpr cleared)]
    by_cases helps : AsksHelp found
    · rw [if_pos (help_iff.mpr helps)]
      exact iff_of_false (fun impossible => nomatch impossible)
        fun both => both.2.1 helps
    · rw [if_neg (mt help_iff.mp helps)]
      simp only [start, stop, status, parsed_key, wanted,
        List.length_eq_zero_iff, gt_iff_lt, List.length_pos_iff, cleared,
        helps, not_false_eq_true, true_and]
      split
      · grind
      · split
        · grind
        · split <;> grind
  · rw [if_neg (mt parsed_e.mp cleared)]
    exact iff_of_false (fun impossible => nomatch impossible)
      fun both => cleared both.1

theorem course_call_iff {args : List Text} {action : Action} {key : Int} :
    course args = .call action key ↔
      2 ≤ args.length ∧ Cleared (readOptions args).1 ∧
        ¬ AsksHelp (readOptions args).1 ∧
        wanted (readOptions args).1 (readOptions args).2 = some action ∧
        key = lastChannel (readOptions args).1 := by
  unfold course
  by_cases enough : args.length + 1 > 2
  · have many : 2 ≤ args.length := by omega
    rw [if_pos enough]
    exact choose_call_iff.trans (and_iff_right many).symm
  · have few : ¬ 2 ≤ args.length := by omega
    rw [if_neg enough]
    exact iff_of_false (fun impossible => nomatch impossible)
      fun all => few all.1

/-- The options are all understood, and the channel is a positive number that
is given with the option of the action. -/
structure Requested (found : List (Found OptionCode)) (action : Action)
    (key : Int) : Prop where
  understood : .invalid ∉ found
  given : (action, key) ∈ channels found
  positive : 0 < key

/-- What is printed. -/
def Prints : Call → Prop
  | .printf .. => True
  | _ => False

/-- A proper course: an action that is requested so, or the usage text and
nothing else. -/
def Proper (paths : KeyPaths) (args : List Text) : Prop :=
  (∃ action key, Requested (readOptions args).1 action key ∧
    course args = .call action key) ∨
  ∃ e, mainArgs paths args = usage "daemonize" e ∧
    (mainArgs paths args).Within Prints

/-- The condition on the command line. -/
def Clear (args : List Text) : Prop :=
  args.length < 2 ∨ AsksHelp (readOptions args).1 ∨
    ¬ Cleared (readOptions args).1 ∨
    wanted (readOptions args).1 (readOptions args).2 = none ∨
    .invalid ∉ (readOptions args).1 ∧ 0 < lastChannel (readOptions args).1 ∧
      ∃ action,
        wanted (readOptions args).1 (readOptions args).2 = some action ∧
        (action, lastChannel (readOptions args).1) ∈
          channels (readOptions args).1

theorem within_printf (lines : List String) :
    (lines.forM fun line => printf line [] : Prog Unit).Within Prints := by
  induction lines with
  | nil => trivial
  | cons line lines ih => exact ⟨trivial, fun _ => ih⟩

theorem within_usage (cmd : String) (e : Int) :
    (usage cmd e).Within Prints :=
  (within_printf (usageLines cmd)).bind fun _ => trivial

/-- An action starts with another call than one that prints. -/
theorem not_within_main (paths : KeyPaths) (action : Action) (key : Key) :
    ¬ (main paths action key).Within Prints := by
  cases action with
  | start => exact fun within => within.1
  | stop =>
      simp only [main, SharedMemory.attach_bind]
      exact fun within => within.1
  | status =>
      simp only [main, SharedMemory.attach_bind]
      exact fun within => within.1

/-- An action that is not requested is not a proper course. -/
theorem proper_call_iff {paths : KeyPaths} {args : List Text}
    {action : Action} {key : Int} (called : course args = .call action key) :
    Proper paths args ↔ Requested (readOptions args).1 action key := by
  have performed : mainArgs paths args =
      main paths action (BitVec.ofInt 32 key.natAbs) := by
    simp only [mainArgs, called]
  constructor
  · rintro (⟨action', key', requested, same⟩ | ⟨e, _, within⟩)
    · rw [called] at same
      cases same
      exact requested
    · rw [performed] at within
      exact absurd within (not_within_main _ _ _)
  · intro requested
    exact Or.inl ⟨action, key, requested, called⟩

/-- **The command line of `daemonize`.**  `main` takes a proper course exactly
if help is asked for, no positive channel follows the last unknown option, no
action is wanted with these operands, or all options are known and the last
channel is positive and given with the option of the wanted action. -/
theorem main_proper_iff (paths : KeyPaths) (args : List Text) :
    Proper paths args ↔ Clear args := by
  cases taken : course args with
  | usage e =>
      have printed : mainArgs paths args = usage "daemonize" e := by
        simp only [mainArgs, taken]
      refine iff_of_true
        (Or.inr ⟨e, printed, printed ▸ within_usage _ e⟩) ?_
      by_contra unclear
      simp only [Clear, not_or, not_not] at unclear
      rcases unclear with ⟨enough, noHelp, cleared, wants, _⟩
      rcases Option.ne_none_iff_exists'.mp wants with ⟨action, wants⟩
      have called := course_call_iff.mpr
        ⟨Nat.le_of_not_lt enough, cleared, noHelp, wants, rfl⟩
      rw [taken] at called
      cases called
  | call action key =>
      rcases course_call_iff.mp taken with
        ⟨enough, cleared, noHelp, wants, rfl⟩
      have few : ¬ args.length < 2 := Nat.not_lt.mpr enough
      rw [proper_call_iff taken]
      simp only [Clear, few, noHelp, cleared, not_true_eq_false, wants,
        reduceCtorEq, false_or, Option.some.injEq]
      constructor
      · rintro ⟨understood, given, positive⟩
        exact ⟨understood, positive, _, rfl, given⟩
      · rintro ⟨understood, positive, _, rfl, given⟩
        exact ⟨understood, given, positive⟩

/-- `daemonize -z -s 5` goes on in spite of `-z`, `daemonize -S 5 -K -3` stops
what is on a channel that is not positive, and `daemonize -S 5 -s 7 -- ls`
starts on the channel of `-s`. -/
theorem not_proper :
    ¬ Proper .devtmpfs ["-z".toList, "-s".toList, "5".toList] ∧
      ¬ Proper .devtmpfs ["-S".toList, "5".toList, "-K".toList,
        "-3".toList] ∧
      ¬ Proper .devtmpfs ["-S".toList, "5".toList, "-s".toList, "7".toList,
        "--".toList, "ls".toList] := by
  have unknown : course ["-z".toList, "-s".toList, "5".toList] =
      .call .status 5 := by
    decide
  have negative : course ["-S".toList, "5".toList, "-K".toList,
      "-3".toList] = .call .stop (-3) := by
    decide
  have other : course ["-S".toList, "5".toList, "-s".toList, "7".toList,
      "--".toList, "ls".toList] = .call .start 7 := by
    decide
  refine ⟨?_, ?_, ?_⟩
  · rw [proper_call_iff unknown]
    intro requested
    exact requested.understood (by decide)
  · rw [proper_call_iff negative]
    intro requested
    exact absurd requested.positive (by decide)
  · rw [proper_call_iff other]
    intro requested
    have given : (Action.start, (7 : Int)) ∈ channels (readOptions
        ["-S".toList, "5".toList, "-s".toList, "7".toList, "--".toList,
          "ls".toList]).1 := requested.given
    revert given
    decide

end Daemon

end Atomicles
