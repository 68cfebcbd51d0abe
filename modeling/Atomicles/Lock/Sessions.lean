import Atomicles.Lock.Refinement
import Atomicles.LockModes

/-!
# Sessions of the lock command

Commands run one after the other from an empty store.  The registry serves
them as they are answered, with what they return and what they print, as long
as none of them clears more than a page.
-/

namespace Atomicles.Refinement

open Interaction

variable {paths : KeyPaths} {key : Key} {store after : Store}
variable {registry : Registry}

/-! ## What a command prints -/

/-- The numbers that a call prints. -/
def line : Call → Option (List Int)
  | .printf _ args => some args
  | _ => none

/-- The lines of numbers that are printed along a list of calls. -/
def printed (events : List (Event signature)) : List (List Int) :=
  events.filterMap fun event => line event.call

/-- A call that prints nothing. -/
def Silent (call : Call) : Prop :=
  line call = none

theorem printed_of_silent {events : List (Event signature)}
    (silent : ∀ event ∈ events, Silent event.call) : printed events = [] :=
  List.filterMap_eq_nil_iff.mpr silent

theorem silent_opens (call : Call) (opens : call.opens = true) :
    Silent call := by
  cases call <;> first | rfl | cases opens

theorem silent_accesses (call : Call) (accesses : call.accesses = true) :
    Silent call := by
  cases call <;> first | rfl | cases accesses

theorem silent_works (call : Call) (works : call.works = true) :
    Silent call := by
  cases call <;> first | rfl | cases works

section Silence

variable {statics : Lock.Statics}

theorem silent_create {semaphores : UInt} {expire : Time} :
    Program.Within Silent (Lock.create paths key semaphores expire) := by
  apply (Semaphore.within_new (opens_set silent_opens) _ _ _ _).bind
  intro shsem
  cases shsem with
  | none => trivial
  | some shsem =>
      apply (SharedMemory.within_new silent_opens _ _ _).bind
      intro shmem
      cases shmem with
      | none => trivial
      | some shmem =>
          have writes := SharedMemory.within_writeUint silent_accesses shmem
          apply (writes 0 _).bind
          intro _
          apply (writes 1 _).bind
          intro _
          apply (writes 2 _).bind
          intro _
          apply (writes 3 _).bind
          intro _
          exact (SharedMemory.within_free shmem).bind fun _ => trivial

theorem silent_report :
    Program.Within Silent (report paths statics key) := by
  apply (Semaphore.within_attach
    (finds_set (works_finds silent_works)) key).bind
  intro shsem
  cases shsem with
  | none => trivial
  | some shsem =>
      apply (Lock.within_init_works silent_works statics shsem).bind
      rintro ⟨_, known, handle⟩
      dsimp only
      split
      · rw [Semaphore.used_bind]
        exact ⟨rfl, fun _ => trivial⟩
      · trivial

end Silence

/-! ## Sessions -/

theorem Answered.advance {action : Action} {reply : Reply}
    (isAnswered : Answered paths registry key action store reply after)
    (seconds : Nat) :
    Answered paths registry key action store reply
      (after.advance seconds) := by
  rcases isAnswered with ⟨now, begun, ended, replies, reflects⟩
  exact ⟨now, begun, Int.le_trans ended (Store.now_le_advance seconds),
    replies, reflects.advance seconds⟩

/-- A run that comes to no end with more than a page cleared prints what its
program delivers. -/
theorem answered_runs {Value : Type} {action : Action} {process : Pid}
    {program : Prog Value} {events : List (Event signature)} {value : Value}
    {reply : Value → List (List Int) → Reply}
    (delivers : Program.Delivers granting process Oversized program store
      fun value after =>
        Answered paths registry key action store (reply value []) after)
    (silent : program.Within Silent)
    (runs : program.Runs granting process store events value after)
    (modest : ∀ event ∈ events, ¬ Oversized event.call) :
    Answered paths registry key action store (reply value (printed events))
      after := by
  rw [printed_of_silent (silent.ends runs.ends)]
  exact delivers.runs runs modest

section Runs

variable (reflects : Reflects paths registry store)
variable (small : key.toNat < 128) {process : Pid} {statics : Lock.Statics}
include reflects small

theorem create_replies {semaphores : UInt} {expire : Time}
    (legal : Legal (.create semaphores expire)) :
    Program.Delivers granting process Oversized
      (Lock.create paths key semaphores expire) store fun code after =>
        Answered paths registry key (.create semaphores expire) store
          ⟨code, []⟩ after := by
  cases listed : registry key with
  | none => exact create_unlisted reflects small listed legal
  | some listing => exact create_listed reflects small listed

theorem lock_replies {timeout : Int} (legal : Legal (.on timeout)) :
    Program.Delivers granting process Oversized
      (Lock.lock paths statics key timeout) store fun code after =>
        Answered paths registry key (.on timeout) store ⟨code, []⟩ after := by
  cases listed : registry key with
  | none => exact lock_unlisted reflects small listed
  | some listing => exact lock_listed reflects small listed legal

theorem unlock_replies :
    Program.Delivers granting process Oversized
      (Lock.unlock paths statics key) store fun code after =>
        Answered paths registry key .off store ⟨code, []⟩ after := by
  cases listed : registry key with
  | none => exact unlock_unlisted reflects small listed
  | some listing => exact unlock_listed reflects small listed

theorem report_replies :
    Program.Delivers granting process Oversized (report paths statics key)
      store fun said after =>
        Answered paths registry key .status store ⟨said.1, [said.2]⟩
          after := by
  cases listed : registry key with
  | none => exact report_unlisted reflects small listed
  | some listing => exact report_listed reflects small listed

/-- A command returns, unless it clears more than a page. -/
theorem run_returns {action : Action} (legal : Legal action) :
    Program.Delivers granting process Oversized
      (action.run paths statics key) store fun _ _ => True := by
  cases action with
  | on timeout =>
      exact (lock_replies reflects small legal).mono fun _ _ _ => trivial
  | off => exact (unlock_replies reflects small).mono fun _ _ _ => trivial
  | status =>
      change Program.Delivers granting process Oversized
        (Lock.status paths statics key) store _
      rw [status_eq, Program.delivers_bind]
      apply (report_replies reflects small).mono
      intro said after _
      apply delivers_granted
      intro choice _
      exact ⟨(), _, rfl, trivial⟩
  | summary => exact legal.elim
  | delete => exact (delete_replies reflects small).mono fun _ _ _ => trivial
  | create semaphores expire =>
      exact (create_replies reflects small legal).mono fun _ _ _ => trivial

/-- A command that returns replies what the registry replies. -/
theorem run_answered {action : Action} {events : List (Event signature)}
    {code : Int} (legal : Legal action)
    (runs : (action.run paths statics key).Runs granting process store events
      code after)
    (modest : ∀ event ∈ events, ¬ Oversized event.call) :
    Answered paths registry key action store ⟨code, printed events⟩ after := by
  cases action with
  | on timeout =>
      exact answered_runs (lock_replies reflects small legal)
        (Lock.within_lock silent_works statics key timeout) runs modest
  | off =>
      exact answered_runs (unlock_replies reflects small)
        (Lock.within_unlock silent_works statics key) runs modest
  | status =>
      change (Lock.status paths statics key).Runs granting process store events
        code after at runs
      rw [status_eq] at runs
      rcases Program.runs_bind_iff.mp runs with
        ⟨found, said, value, middle, rfl, finds, tells⟩
      rcases Program.runs_issue_iff.mp tells with
        ⟨_, later, rest, rfl, prints, ends⟩
      rcases Program.runs_done_iff.mp ends with ⟨rfl, rfl, rfl⟩
      rcases granting_exec_iff.mp prints with ⟨choice, _, _, granted⟩
      cases granted
      have isSilent := printed_of_silent (silent_report.ends finds.ends)
      have isPrinted : printed (found ++
          [⟨.printf "%d %d %d\n" value.2, ()⟩]) = [value.2] := by
        unfold printed at isSilent ⊢
        rw [List.filterMap_append, isSilent]
        rfl
      rw [isPrinted]
      apply Answered.advance
      apply (report_replies reflects small).runs finds
      intro event member
      exact modest event (List.mem_append_left _ member)
  | summary => exact legal.elim
  | delete =>
      have silent : Program.Within Silent (Lock.delete paths key) :=
        Lock.within_delete (works_finds silent_works)
          (works_removes silent_works) key
      exact answered_runs (delete_replies reflects small) silent runs modest
  | create semaphores expire =>
      exact answered_runs (create_replies reflects small legal) silent_create
        runs modest

end Runs

/-- Commands that are run one after the other, with any time between them and
any processes ending: none of them makes a call that is exempt. -/
inductive Session (paths : KeyPaths) (exempt : Call → Prop) :
    Store → List Served → Store → Prop where
  | nil (store : Store) : Session paths exempt store [] store
  | wait {store final : Store} {commands : List Served} (seconds : Nat)
      (rest : Session paths exempt (store.advance seconds) commands final) :
      Session paths exempt store commands final
  | leave {store final : Store} {commands : List Served} (process : Pid)
      (rest : Session paths exempt (store.leave process) commands final) :
      Session paths exempt store commands final
  | run {store after final : Store} {commands : List Served} {process : Pid}
      {statics : Lock.Statics} {key : Key} {action : Action}
      {events : List (Event signature)} {code : Int}
      (small : key.toNat < 128) (legal : Legal action)
      (runs : (action.run paths statics key).Runs granting process store
        events code after)
      (allowed : ∀ event ∈ events, ¬ exempt event.call)
      (rest : Session paths exempt after commands final) :
      Session paths exempt store
        (⟨key, action, store.now, after.now, ⟨code, printed events⟩⟩ ::
          commands) final

/-- What is claimed of a session: the registry serves its commands as they are
answered, and a next command returns unless it makes a call that is exempt. -/
def Refined (paths : KeyPaths) (exempt : Call → Prop)
    (commands : List Served) (final : Store) : Prop :=
  (∃ registry, Registry.Serves (fun _ => none) commands registry) ∧
    ∀ (process : Pid) (statics : Lock.Statics) (key : Key) (action : Action),
      key.toNat < 128 → Legal action →
        Program.Delivers granting process exempt
          (action.run paths statics key) final fun _ _ => True

/-- The store keeps reflecting the registry that serves the commands. -/
theorem Session.serves {final : Store} {commands : List Served}
    (session : Session paths Oversized store commands final)
    (reflects : Reflects paths registry store) :
    ∃ registry', Registry.Serves registry commands registry' ∧
      Reflects paths registry' final := by
  induction session generalizing registry with
  | nil store => exact ⟨registry, .nil registry, reflects⟩
  | wait seconds rest ih => exact ih (reflects.advance seconds)
  | leave process rest ih => exact ih (reflects.leave process)
  | run small legal runs modest rest ih =>
      rcases run_answered reflects small legal runs modest with
        ⟨now, begun, ended, replies, reflects⟩
      rcases ih reflects with ⟨registry', serves, reflects⟩
      exact ⟨registry', .cons now begun ended replies serves, reflects⟩

/-- As long as no command clears more than a page, the commands of a session
reply what the registry replies, and a next command returns. -/
theorem session_refines {start : Time} {commands : List Served}
    {final : Store}
    (session : Session paths Oversized (.empty start) commands final) :
    Refined paths Oversized commands final := by
  rcases session.serves (reflects_empty start) with ⟨registry, serves, reflects⟩
  exact ⟨⟨registry, serves⟩,
    fun _ _ _ _ small legal => run_returns reflects small legal⟩

/-! ## Two sessions -/

/-- The check that no more than a page is cleared. -/
def modest (events : List (Event signature)) : Bool :=
  events.all fun event =>
    match event.call with
    | .memset _ n => decide (n ≤ PAGE_SIZE)
    | _ => true

theorem modest_sound {events : List (Event signature)}
    (passed : modest events = true) :
    ∀ event ∈ events, ¬ Oversized event.call := by
  intro event member beyond
  have fits := List.all_eq_true.mp passed event member
  rcases event with ⟨call, answer⟩
  cases call with
  | memset addr n =>
      exact absurd beyond (Nat.not_lt.mpr (of_decide_eq_true fits))
  | _ => exact beyond

/-- Run commands one after the other, each in a process of its own that stays,
where they clear no more than a page. -/
def performed (paths : KeyPaths) :
    List (Pid × Key × Action) → Store → Option (List Served × Store)
  | [], store => some ([], store)
  | (process, key, action) :: rest, store =>
      match alone process {} (action.run paths .initial key) store with
      | none => none
      | some (events, code, after) =>
          if modest events then
            (performed paths rest after).map fun run =>
              (⟨key, action, store.now, after.now, ⟨code, printed events⟩⟩ ::
                run.1, run.2)
          else none

theorem performed_session {exempt : Call → Prop}
    (sound : ∀ call, exempt call → Oversized call)
    {entries : List (Pid × Key × Action)} {commands : List Served}
    {final : Store}
    (lawful : ∀ entry ∈ entries, entry.2.1.toNat < 128 ∧ Legal entry.2.2)
    (ran : performed paths entries store = some (commands, final)) :
    Session paths exempt store commands final := by
  induction entries generalizing store commands with
  | nil =>
      cases ran
      exact .nil _
  | cons entry rest ih =>
      rcases entry with ⟨process, key, action⟩
      rcases lawful _ (List.mem_cons_self ..) with ⟨small, legal⟩
      unfold performed at ran
      split at ran
      · cases ran
      · rename_i events code after runs
        split at ran
        · rename_i passed
          rcases Option.map_eq_some_iff.mp ran with
            ⟨⟨later, last⟩, goesOn, same⟩
          cases same
          apply Session.run small legal (alone_runs ⟨rfl, rfl⟩ runs)
          · intro event member exempted
            exact modest_sound passed event member (sound _ exempted)
          · refine ih (fun entry member => ?_) goesOn
            exact lawful entry (List.mem_cons_of_mem _ member)
        · cases ran

/-- A session that has a property and that is computed. -/
theorem performed_any {exempt : Call → Prop}
    (sound : ∀ call, exempt call → Oversized call)
    {entries : List (Pid × Key × Action)}
    {property : List Served × Store → Bool}
    (lawful : ∀ entry ∈ entries, entry.2.1.toNat < 128 ∧ Legal entry.2.2)
    (computed : (performed paths entries store).any property = true) :
    ∃ commands final, Session paths exempt store commands final ∧
      property (commands, final) = true := by
  cases ran : performed paths entries store with
  | none =>
      rw [ran] at computed
      cases computed
  | some run =>
      rw [ran] at computed
      exact ⟨run.1, run.2, performed_session sound lawful ran, computed⟩

/-- A lock for two is made, taken once and looked at. -/
theorem session_refines_taken :
    ∃ commands final,
      Session .devtmpfs Oversized (.empty 0) commands final ∧
        (commands.map fun command =>
          (command.reply.code, command.reply.printed)) =
            [(0, []), (0, []), (0, [[1, 2, -1]])] ∧
        Refined .devtmpfs Oversized commands final := by
  have computed : (performed .devtmpfs
      [(1, 5, .create 2 0), (2, 5, .on (-1)), (3, 5, .status)]
      (.empty 0)).any (fun run => decide ((run.1.map fun command =>
        (command.reply.code, command.reply.printed)) =
          [(0, []), (0, []), (0, [[1, 2, -1]])])) = true := by
    decide
  have lawful : ∀ entry ∈ [((1 : Pid), (5 : Key), Action.create 2 0),
      (2, 5, .on (-1)), (3, 5, .status)],
        entry.2.1.toNat < 128 ∧ Legal entry.2.2 := by
    simp [Legal]
  rcases performed_any (fun _ exempted => exempted) lawful computed with
    ⟨commands, final, session, replies⟩
  exact ⟨commands, final, session, of_decide_eq_true replies,
    session_refines session⟩

/-- The handle of `delete` has the size that `malloc` left in it: two pages. -/
theorem not_refined :
    ¬ ∀ (start : Time) (commands : List Served) (final : Store),
      Session .devtmpfs (fun _ => False) (.empty start) commands final →
        Refined .devtmpfs (fun _ => False) commands final := by
  intro claimed
  let left : Choice :=
    { block := ⟨0, ⟨0, 0⟩, ⟨false, 2 * PAGE_SIZE⟩, .null, none⟩ }
  have computed : (performed .devtmpfs [(1, 5, .create 1 0)] (.empty 0)).any
      (fun run => dies 2 left (Lock.delete .devtmpfs 5) run.2) = true := by
    decide +kernel
  have lawful : ∀ entry ∈ [((1 : Pid), (5 : Key), Action.create 1 0)],
      entry.2.1.toNat < 128 ∧ Legal entry.2.2 := by
    simp [Legal]
  rcases performed_any (fun _ => False.elim) lawful computed with
    ⟨commands, final, session, death⟩
  have returns := (claimed 0 commands final session).2 2 .initial 5 .delete
    (by decide) trivial
  have left_grants : Grants left := ⟨rfl, rfl⟩
  exact not_delivers_of_dies left_grants death returns

end Atomicles.Refinement
