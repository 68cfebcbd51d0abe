import Atomicles.Daemon.Targets

/-!
# What becomes of a signal that is sent to a daemon

The handler runs with everything blocked and never returns, so a process
catches one signal in its life.  The branch for that signal passes it on
before it comes back to the loop, and nothing else the daemon does sends a
signal.
-/

namespace Atomicles.Relay

open Interaction Daemon

variable (paths : KeyPaths) (decay : UInt → Nat)

/-! ## What a run says about signals -/

/-- The signals that a process has caught since it was forked. -/
def caught (process : Pid) : List Moves → List Signal
  | [] => []
  | .jump actor (.caught signal _) :: earlier =>
      if actor = process then signal :: caught process earlier
      else caught process earlier
  | .fork _ child _ :: earlier =>
      if child = process then [] else caught process earlier
  | _ :: earlier => caught process earlier

/-- The signals that a process has sent since it was forked, whether or not
they came to anyone. -/
def sent (process : Pid) : List Moves → List Signal
  | [] => []
  | .call actor ⟨.kill _ (some signal), _⟩ :: earlier =>
      if actor = process then signal :: sent process earlier
      else sent process earlier
  | .fork _ child _ :: earlier =>
      if child = process then [] else sent process earlier
  | _ :: earlier => sent process earlier

/-- Who has forked a process. -/
def parent (process : Pid) : List Moves → Option Pid
  | [] => none
  | .fork actor child _ :: earlier =>
      if child = process then some actor else parent process earlier
  | _ :: earlier => parent process earlier

/-- A signal has come to a process since it was forked: from outside, by a
`kill` that has succeeded, or because a child has ended. -/
def Raised (process : Pid) (signal : Signal) : List Moves → Prop
  | [] => False
  | .outside event :: earlier =>
      event = ⟨process, signal⟩ ∨ Raised process signal earlier
  | .call _ ⟨.kill pid (some posted), (answer : Except Errno Unit)⟩ ::
      earlier =>
      pid = process ∧ posted = signal ∧ answer = .ok () ∨
        Raised process signal earlier
  | .leave child :: earlier =>
      signal = .SIGCHLD ∧ parent child earlier = some process ∨
        Raised process signal earlier
  | .kill child :: earlier =>
      signal = .SIGCHLD ∧ parent child earlier = some process ∨
        Raised process signal earlier
  | .fork _ child _ :: earlier =>
      child ≠ process ∧ Raised process signal earlier
  | _ :: earlier => Raised process signal earlier

/-- A call that sends a signal. -/
def Sends : Call → Prop
  | .kill _ (some _) => True
  | _ => False

section Lemmas

variable {process actor child : Pid} {signal : Signal} {label : Label}
variable {call : Call} {log : List Moves}

@[simp]
theorem caught_call {event : Event signature} :
    caught process (.call actor event :: log) = caught process log :=
  rfl

@[simp]
theorem caught_fork :
    caught process (.fork actor child call :: log) =
      if child = process then [] else caught process log :=
  rfl

@[simp]
theorem caught_enter :
    caught process (.enter actor label :: log) = caught process log :=
  rfl

@[simp]
theorem caught_leave :
    caught process (.leave actor :: log) = caught process log :=
  rfl

@[simp]
theorem caught_kill :
    caught process (.kill actor :: log) = caught process log :=
  rfl

@[simp]
theorem caught_outside {event : Raise} :
    caught process (.outside event :: log) = caught process log :=
  rfl

theorem caught_other (different : actor ≠ process) :
    caught process (.jump actor label :: log) = caught process log := by
  cases label with
  | caught => simp [caught, different]
  | _ => rfl

theorem sent_quiet {answer : call.Answer} (quiet : ¬ Sends call) :
    sent process (.call actor ⟨call, answer⟩ :: log) = sent process log := by
  cases call with
  | kill pid signal =>
      cases signal with
      | none => rfl
      | some signal => exact absurd trivial quiet
  | _ => rfl

theorem sent_other {event : Event signature} (different : actor ≠ process) :
    sent process (.call actor event :: log) = sent process log := by
  rcases event with ⟨call, answer⟩
  cases call with
  | kill pid signal =>
      cases signal with
      | none => rfl
      | some signal => simp [sent, different]
  | _ => rfl

@[simp]
theorem sent_fork :
    sent process (.fork actor child call :: log) =
      if child = process then [] else sent process log :=
  rfl

@[simp]
theorem sent_enter :
    sent process (.enter actor label :: log) = sent process log :=
  rfl

@[simp]
theorem sent_jump :
    sent process (.jump actor label :: log) = sent process log :=
  rfl

@[simp]
theorem sent_leave : sent process (.leave actor :: log) = sent process log :=
  rfl

@[simp]
theorem sent_kill : sent process (.kill actor :: log) = sent process log :=
  rfl

@[simp]
theorem sent_outside {event : Raise} :
    sent process (.outside event :: log) = sent process log :=
  rfl

@[simp]
theorem parent_fork :
    parent process (.fork actor child call :: log) =
      if child = process then some actor else parent process log :=
  rfl

/-- What has come to a process has come, until it is forked again. -/
theorem Raised.later {move : Moves} (raised : Raised process signal log)
    (stays : ∀ actor call, move ≠ .fork actor process call) :
    Raised process signal (move :: log) := by
  cases move with
  | call actor event =>
      rcases event with ⟨call, answer⟩
      cases call with
      | kill pid posted =>
          cases posted with
          | none => exact raised
          | some posted => exact Or.inr raised
      | _ => exact raised
  | fork actor child call =>
      refine ⟨?_, raised⟩
      rintro rfl
      exact stays actor call rfl
  | enter actor label => exact raised
  | jump actor label => exact raised
  | leave actor => exact Or.inr raised
  | kill actor => exact Or.inr raised
  | outside event => exact Or.inr raised

end Lemmas

/-! ## The script of a process -/

/-- A call after which there is another process or another program. -/
def Spawns : Call → Prop
  | .fork => True
  | .execvp => True
  | _ => False

/-- A label that the code goes on from by itself. -/
def Ordinary : Label → Prop
  | .main .. => False
  | .caught .. => False
  | _ => True

/-- What a process has to do with signals. -/
inductive Phase where
  /-- Its `main` has not begun. -/
  | fresh
  /-- It stops a daemon. -/
  | stopping
  /-- It has no signal to pass on. -/
  | settled
  /-- It has just caught a signal. -/
  | jumped (signal : Signal)
  /-- It is in the branch for a signal and has not passed it on. -/
  | relaying (signal : Signal)

/-- A signal is sent by `stop`, or once in the branch for it, which is not
left before. -/
def script : Script signature Phase Label where
  allow phase call :=
    match phase with
    | .fresh => False
    | .stopping => ¬ Spawns call
    | .settled => ¬ Sends call
    | .jumped _ => False
    | .relaying signal => ¬ Spawns call ∧
        (Sends call → signal ≠ .SIGUSR2 ∧
          ∃ pid, call = .kill pid (some signal))
  answer _ _ _ := True
  next phase call _ :=
    match phase, call with
    | .relaying _, .kill _ (some _) => .settled
    | _, _ => phase
  stops phase label :=
    match phase with
    | .fresh => ∃ action key, label = .main action key
    | .stopping => ∃ status, label = .ended status
    | .settled => Ordinary label
    | .jumped signal => ∃ locals, label = .caught signal locals
    | .relaying _ => False
  resume phase label :=
    match phase, label with
    | .fresh, .main .stop _ => .stopping
    | .fresh, _ => .settled
    | .jumped signal, _ => .relaying signal
    | _, _ => phase

section Follows

variable {quiet : Call → Prop} {shmem : SharedMemory}

theorem compositional (calm : ∀ call, Calm call → quiet call)
    (accesses : ∀ call : Call, call.accesses = true → quiet call) :
    Compositional quiet (fun _ _ => True) fun _ program =>
      program.Within quiet where
  calm := calm
  value _ := trivial
  bind first second := first.bind second
  issue allowed rest := ⟨allowed, rest⟩
  read this offset :=
    SharedMemory.within_readUint (accesses_reads accesses) this offset
  write this offset n _ := this.within_writeUint accesses offset n

theorem accesses_silent (call : Call) (accesses : call.accesses = true) :
    ¬ Sends call := by
  intro sends
  cases call <;> trivial

theorem accesses_spawnless (call : Call) (accesses : call.accesses = true) :
    ¬ Spawns call := by
  intro spawns
  cases call <;> trivial

theorem silent : Compositional (fun call => ¬ Sends call) (fun _ _ => True)
    fun _ program => program.Within fun call => ¬ Sends call := by
  apply compositional
  · intro call calm sends
    cases call with
    | kill pid signal => cases signal <;> trivial
    | _ => exact sends
  · exact accesses_silent

theorem spawnless : Compositional (fun call => ¬ Spawns call)
    (fun _ _ => True)
    fun _ program => program.Within fun call => ¬ Spawns call := by
  apply compositional
  · intro call calm spawns
    cases call <;> trivial
  · exact accesses_spawnless

theorem plain : Compositional (fun call => ¬ Sends call ∧ ¬ Spawns call)
    (fun _ _ => True)
    fun _ program => program.Within
      fun call => ¬ Sends call ∧ ¬ Spawns call := by
  apply compositional
  · intro call calm
    exact ⟨Compositional.calm silent call calm,
      Compositional.calm spawnless call calm⟩
  · intro call accesses
    exact ⟨accesses_silent call accesses, accesses_spawnless call accesses⟩

/-! ### The labels that programs end at -/

theorem die_returns {Value : Type} {post : Value → Prop}
    {handle : Option SharedMemory} :
    (Daemon.die handle : Prog Value).Returns post := by
  apply Program.Returns.bind_any
  intro _
  apply Program.Returns.bind_any
  intro _
  cases handle with
  | none => exact nofun
  | some this =>
      apply Program.Returns.bind_any
      intro _
      apply Program.Returns.bind_any
      intro _
      exact nofun

theorem endRound_returns (locals : Locals) :
    (endRound decay locals).Returns Ordinary := by
  apply Program.Returns.bind_any
  intro _
  apply Program.Returns.bind_any
  intro isActive
  split
  · apply Program.Returns.bind_any
    intro _
    exact nofun
  · apply Program.Returns.bind_any
    intro _
    apply Program.Returns.bind_any
    intro stillActive
    split
    · trivial
    · trivial

theorem child_returns : (child shmem).Returns Ordinary := by
  apply Program.Returns.bind_any
  intro _
  apply Program.Returns.bind_any
  intro _
  rw [execvp_bind]
  exact fun _ => die_returns

theorem round_returns (stack : WaitStatus) (locals : Locals) :
    (round decay stack locals).Returns Ordinary := by
  rw [round_eq]
  apply Program.Returns.bind_any
  intro _ _ (cpid : Int)
  dsimp only
  split
  · exact child_returns
  · apply Program.Returns.bind_any
    intro _
    apply Program.Returns.bind_any
    intro _ (outcome : Except Errno (Int × WaitStatus))
    dsimp only
    split
    · exact fun _ => endRound_returns decay _
    · trivial

theorem daemonize_returns (count : Int) :
    (daemonize shmem count).Returns Ordinary := by
  unfold daemonize
  dsimp only
  rw [fork_bind]
  intro (pid : Int)
  dsimp only
  split
  · trivial
  · rw [fork_bind]
    intro (pid : Int)
    dsimp only
    split
    · apply Program.Returns.bind_any
      intro _
      exact nofun
    · apply Program.Returns.bind_any
      intro _
      trivial

theorem start_returns : (start shmem).Returns Ordinary := by
  apply Program.Returns.bind_any
  intro pid
  apply Program.Returns.bind_any
  intro cpid
  apply Program.Returns.bind_any
  intro count
  split
  · apply Program.Returns.bind_any
    intro _
    trivial
  · exact daemonize_returns count

theorem status_returns (handle : Option SharedMemory) :
    (status handle).Returns Ordinary := by
  apply Program.Returns.bind_any
  intro pid
  apply Program.Returns.bind_any
  intro cpid
  apply Program.Returns.bind_any
  intro _
  apply Program.Returns.bind_any
  intro _
  split
  · apply Program.Returns.bind_any
    intro failed
    split
    · apply Program.Returns.bind_any
      intro _
      trivial
    · trivial
  · trivial

theorem stop_returns :
    (stop shmem).Returns fun label => ∃ status, label = .ended status := by
  apply Program.Returns.bind_any
  intro pid
  apply Program.Returns.bind_any
  intro cpid
  apply Program.Returns.bind_any
  intro _
  apply Program.Returns.bind_any
  intro _
  split
  · apply Program.Returns.bind_any
    intro failed
    split
    · exact ⟨2, rfl⟩
    · apply Program.Returns.bind_any
      intro failed
      split
      · exact ⟨3, rfl⟩
      · apply Program.Returns.bind_any
        intro _
        exact ⟨0, rfl⟩
  · exact ⟨1, rfl⟩

theorem returned_returns (locals : Locals) :
    (returned locals).Returns Ordinary := by
  apply Program.Returns.bind_any
  intro _
  apply Program.Returns.bind_any
  intro _
  trivial

/-! ### The code from a label on -/

/-- A program that sends no signal, and ends at an ordinary label. -/
theorem follows_settled {program : Prog Label}
    (within : program.Within fun call => ¬ Sends call)
    (returns : program.Returns Ordinary) :
    script.Follows .settled program := by
  apply (within.conforms_returns returns _ _).mono
  · rintro phase label ⟨rfl, ordinary⟩
    exact ordinary
  · intro call quiet
    exact quiet
  · intro call answer _
    rfl

theorem silent_removes (call : Call) (removes : call.removes = true) :
    ¬ Sends call := by
  intro sends
  cases call <;> trivial

theorem silent_opens (call : Call) (opens : call.opens = true) :
    ¬ Sends call := by
  intro sends
  cases call <;> trivial

theorem spawnless_removes (call : Call) (removes : call.removes = true) :
    ¬ Spawns call := by
  intro spawns
  cases call <;> trivial

theorem spawnless_opens (call : Call) (opens : call.opens = true) :
    ¬ Spawns call := by
  intro spawns
  cases call <;> trivial

theorem silent_round (stack : WaitStatus) (locals : Locals) :
    (round decay stack locals).Within fun call => ¬ Sends call := by
  rw [round_eq]
  apply Compositional.bind silent
  · exact Compositional.installHandlers silent (fun _ => trivial)
      silent_removes _ _ fun _ => id
  · intro _
    refine ⟨id, fun _ => ⟨id, ?_⟩⟩
    intro (cpid : Int)
    dsimp only
    split
    · exact Compositional.child silent _ (fun _ => trivial) (fun _ => trivial)
        silent_removes id
    · apply Compositional.bind silent (Compositional.writeWord silent _ trivial)
      intro _
      apply Compositional.bind silent (Compositional.writeWord silent _ trivial)
      intro _
      refine ⟨id, ?_⟩
      intro (outcome : Except Errno (Int × WaitStatus))
      dsimp only
      split
      · exact ⟨id, fun _ =>
          Compositional.endRound silent (fun _ => trivial) silent_removes
            decay _⟩
      · trivial

/-- `main` without `stop`. -/
theorem follows_main {action : Action} (keeps : action ≠ .stop) (key : Key) :
    script.Follows .settled (main paths action key) := by
  cases action with
  | start =>
      apply follows_settled
      · apply Compositional.bind silent (Compositional.within silent
          (SharedMemory.within_new silent_opens key SHMEM_SIZE true))
        intro shmem
        cases shmem with
        | none => trivial
        | some shmem =>
            exact Compositional.start silent (fun _ _ => trivial)
              silent_removes id shmem
      · apply Program.Returns.bind_any
        intro shmem
        cases shmem with
        | none => trivial
        | some shmem => exact start_returns
  | stop => exact absurd rfl keeps
  | status =>
      apply follows_settled
      · apply Compositional.bind silent (Compositional.within silent
          (SharedMemory.within_attach (opens_finds silent_opens) key))
        intro shmem
        exact Compositional.status silent shmem
      · apply Program.Returns.bind_any
        intro shmem
        exact status_returns shmem

theorem follows_stop (key : Key) :
    script.Follows .stopping (main paths .stop key) := by
  have within : (main paths .stop key).Within fun call => ¬ Spawns call := by
    apply Compositional.bind spawnless (Compositional.within spawnless
      (SharedMemory.within_attach (opens_finds spawnless_opens) key))
    intro shmem
    cases shmem with
    | none => trivial
    | some shmem =>
        exact Compositional.stop spawnless (fun _ => trivial) spawnless_removes
          (fun _ _ => id) shmem
  have returns : (main paths .stop key).Returns
      fun label => ∃ status, label = .ended status := by
    apply Program.Returns.bind_any
    intro shmem
    cases shmem with
    | none => exact ⟨-1, rfl⟩
    | some shmem => exact stop_returns
  apply (within.conforms_returns returns _ _).mono
  · rintro phase label ⟨rfl, ended⟩
    exact ended
  · intro call quiet
    exact quiet
  · intro call answer _
    rfl

theorem relaying_allowed {signal : Signal} (call : Call)
    (quiet : ¬ Sends call ∧ ¬ Spawns call) :
    script.allow (.relaying signal) call :=
  ⟨quiet.2, fun sends => absurd sends quiet.1⟩

theorem relaying_stays {signal : Signal} (call : Call) (answer : call.Answer)
    (quiet : ¬ Sends call) :
    script.next (.relaying signal) call answer = .relaying signal := by
  cases call with
  | kill pid posted =>
      cases posted with
      | none => rfl
      | some posted => exact absurd trivial quiet
  | _ => rfl

/-- Only who has nothing to pass on forks or runs the command. -/
theorem settled_of_spawns {phase : Phase} {call : Call}
    (allowed : script.allow phase call) (spawns : Spawns call) :
    phase = .settled := by
  cases phase with
  | fresh => exact allowed.elim
  | stopping => exact absurd spawns allowed
  | settled => rfl
  | jumped signal => exact allowed.elim
  | relaying signal => exact absurd spawns allowed.1

/-- Up to the signal that the branch sends on. -/
theorem follows_relay {signal : Signal} {locals : Locals}
    {rest : Int → Prog Label} (other : signal ≠ .SIGUSR2)
    (within : ∀ failed, (rest failed).Within fun call => ¬ Sends call)
    (returns : ∀ failed, (rest failed).Returns Ordinary) :
    script.Follows (.relaying signal) (do
      let cpid ← getCpid (some locals.shmem)
      let failed ← kill cpid signal
      rest failed) := by
  apply (Compositional.getWord plain (some locals.shmem)
    OFFSET_CPID).conforms_bind relaying_allowed fun call answer quiet =>
      relaying_stays call answer quiet.1
  intro cpid
  rw [kill_bind]
  refine ⟨⟨id, fun _ => ⟨other, cpid, rfl⟩⟩, ?_⟩
  intro (outcome : Except Errno Unit) _
  exact follows_settled (within _) (returns _)

theorem follows_caught (signal : Signal) (locals : Locals) :
    script.Follows (.relaying signal) (Daemon.caught decay signal locals) := by
  unfold Daemon.caught
  dsimp only
  split
  · rename_i isUsr1
    apply follows_relay
    · rw [isUsr1]
      decide
    · intro _
      exact Compositional.die silent _ (fun _ => trivial) silent_removes
    · intro _
      exact die_returns
  · split
    · have within : (Daemon.die (some locals.shmem) : Prog Label).Within
          fun call => ¬ Sends call ∧ ¬ Spawns call :=
        Compositional.die plain _ (fun _ => trivial) fun call removes =>
          ⟨silent_removes call removes, spawnless_removes call removes⟩
      have returns : (Daemon.die (some locals.shmem) : Prog Label).Returns
          fun _ => False :=
        die_returns
      apply (within.conforms_returns returns relaying_allowed
        fun call answer quiet => relaying_stays call answer quiet.1).mono
      rintro phase label ⟨rfl, impossible⟩
      exact impossible
    · rename_i other
      apply follows_relay other
      · intro _
        exact Compositional.endRound silent (fun _ => trivial) silent_removes
          decay locals
      · intro _
        exact endRound_returns decay locals

theorem follows_code {phase : Phase} {stack : WaitStatus} {label : Label}
    {program : Prog Label} (stops : script.stops phase label)
    (piece : code paths decay stack label = some program) :
    script.Follows (script.resume phase label) program := by
  cases phase with
  | fresh =>
      rcases stops with ⟨action, key, rfl⟩
      cases piece
      cases action with
      | start =>
          exact follows_main paths (by decide : Action.start ≠ .stop) key
      | stop => exact follows_stop paths key
      | status =>
          exact follows_main paths (by decide : Action.status ≠ .stop) key
  | stopping =>
      rcases stops with ⟨status, rfl⟩
      cases piece
  | settled =>
      cases label with
      | main action key => exact stops.elim
      | caught signal locals => exact stops.elim
      | round locals =>
          cases piece
          exact follows_settled (silent_round decay stack locals)
            (round_returns decay stack locals)
      | returned locals =>
          cases piece
          exact follows_settled (Compositional.returned silent locals)
            (returned_returns locals)
      | _ => cases piece
  | jumped signal =>
      rcases stops with ⟨locals, rfl⟩
      cases piece
      exact follows_caught decay signal locals
  | relaying signal => exact stops.elim

end Follows

/-! ## The invariant -/

/-- What a process has caught is what it has sent, and it was raised to it. -/
def Relayed (process : Pid) (log : List Moves) : Prop :=
  caught process log = [] ∧ sent process log = [] ∨
    ∃ signal, signal ≠ .SIGUSR2 ∧ caught process log = [signal] ∧
      sent process log = [signal] ∧ Raised process signal log

/-- A process has caught a signal and has not sent any. -/
def Holds (process : Pid) (signal : Signal) (log : List Moves) : Prop :=
  caught process log = [signal] ∧ sent process log = [] ∧
    Raised process signal log

/-- What the log has of a process in a phase.  Before the loop there is no
place to jump to. -/
def Standing (process : Pid) (world : World) (log : List Moves) :
    Phase → Prop
  | .fresh => caught process log = [] ∧ sent process log = [] ∧
      role process log = .other ∧ world.buffer process = none
  | .stopping => caught process log = [] ∧ role process log = .other ∧
      world.buffer process = none
  | .settled => Relayed process log
  | .jumped signal => Holds process signal log
  | .relaying signal => Holds process signal log

/-- Who has caught a signal blocks all others, what is pending was raised,
and the living children of a process were forked by it. -/
structure Sound (crew : Processes) (phases : Pid → Phase) : Prop where
  standing : ∀ process,
    Standing process crew.state crew.log (phases process)
  blocked : ∀ process, caught process crew.log ≠ [] →
    ∀ signal, crew.state.mask process signal = true
  raised : ∀ process signal, crew.state.pending process signal = true →
    Raised process signal crew.log
  kin : ∀ process child, child ∈ crew.state.children process →
    parent child crew.log = some process ∧ crew.procs child ≠ none

/-- A move after which a process has caught and sent what it had before. -/
structure Spares (process : Pid) (world after : World) (log : List Moves)
    (move : Moves) : Prop where
  caught : caught process (move :: log) = caught process log
  sent : sent process (move :: log) = sent process log
  role : role process log = .other → role process (move :: log) = .other
  raised : ∀ signal, Raised process signal log →
    Raised process signal (move :: log)
  buffer : world.buffer process = none → after.buffer process = none

section Kept

variable {process : Pid} {world after : World} {log : List Moves}
variable {move : Moves} {phase : Phase}

theorem Spares.relayed (spares : Spares process world after log move)
    (relayed : Relayed process log) : Relayed process (move :: log) := by
  rcases relayed with ⟨none, quiet⟩ | ⟨signal, other, got, passed, raised⟩
  · exact Or.inl ⟨spares.caught.trans none, spares.sent.trans quiet⟩
  · exact Or.inr ⟨signal, other, spares.caught.trans got,
      spares.sent.trans passed, spares.raised signal raised⟩

theorem Spares.holds {signal : Signal}
    (spares : Spares process world after log move)
    (holds : Holds process signal log) : Holds process signal (move :: log) :=
  ⟨spares.caught.trans holds.1, spares.sent.trans holds.2.1,
    spares.raised signal holds.2.2⟩

theorem Spares.standing (spares : Spares process world after log move)
    (standing : Standing process world log phase) :
    Standing process after (move :: log) phase := by
  cases phase with
  | fresh =>
      exact ⟨spares.caught.trans standing.1, spares.sent.trans standing.2.1,
        spares.role standing.2.2.1, spares.buffer standing.2.2.2⟩
  | stopping =>
      exact ⟨spares.caught.trans standing.1, spares.role standing.2.1,
        spares.buffer standing.2.2⟩
  | settled => exact spares.relayed standing
  | jumped signal => exact spares.holds standing
  | relaying signal => exact spares.holds standing

end Kept

/-! ### What the steps do to the pending signals -/

section Pending

variable {world after : World} {process target : Pid} {signal posted : Signal}

theorem post_pending
    (pending : (world.post target posted).pending process signal = true) :
    world.pending process signal = true ∨
      target = process ∧ posted = signal := by
  unfold World.post at pending
  split at pending
  · by_cases own : process = target
    · subst own
      simp only [Function.update_self] at pending
      by_cases same : signal = posted
      · exact Or.inr ⟨rfl, same.symm⟩
      · rw [Function.update_of_ne same] at pending
        exact Or.inl pending
    · simp only [Function.update_of_ne own] at pending
      exact Or.inl pending
  · exact Or.inl pending

/-- A call makes no signal pending but the one it sends. -/
theorem call_raised {admits : Choice → Prop} {call : Call}
    {answer : call.Answer} {actor : Pid} {log : List Moves}
    (exec : (system paths decay admits).exec actor call world answer after)
    (before : world.pending process signal = true →
      Raised process signal log)
    (pending : after.pending process signal = true) :
    Raised process signal (.call actor ⟨call, answer⟩ :: log) := by
  have kept : world.pending process signal = true →
      Raised process signal (.call actor ⟨call, answer⟩ :: log) :=
    fun already => (before already).later nofun
  rcases exec with ⟨choice, _, served⟩
  cases call with
  | fork =>
      cases served
      exact kept pending
  | execvp =>
      cases served
      exact kept pending
  | sigaction installed =>
      simp only [World.serve] at served
      split at served
      · cases served
        exact kept pending
      · cases served
        exact kept pending
  | kill pid posted =>
      simp only [World.serve] at served
      split at served
      · cases served
        exact kept pending
      · split at served
        · cases served
          exact kept pending
        · split at served
          · cases posted with
            | none =>
                cases served
                exact kept pending
            | some posted =>
                cases served
                rename_i positive _
                rcases post_pending pending with already | ⟨isTarget, same⟩
                · exact kept already
                · refine Or.inl ⟨?_, same, rfl⟩
                  rw [← isTarget, Int.toNat_of_nonneg]
                  omega
          · cases served
            exact kept pending
  | waitpid pid =>
      simp only [World.serve] at served
      split at served
      · split at served
        · cases served
        · cases served
          exact kept pending
      · split at served
        · cases served
          exact kept pending
        · cases served
  | _ =>
      rcases Option.map_eq_some_iff.mp served with ⟨⟨_, store⟩, _, same⟩
      cases same
      exact kept pending

/-- A child is the one that is forked or was there before. -/
theorem clone_children {actor child other grown : Pid}
    (member : grown ∈ (world.clone actor child).children other) :
    grown = child ∧ other = actor ∨ grown ∈ world.children other := by
  by_cases isActor : other = actor
  · subst isActor
    simpa [World.clone] using member
  · right
    by_cases isChild : other = child
    · subst isChild
      simp [World.clone, Function.update_of_ne isActor] at member
    · simpa [World.clone, Function.update_of_ne isActor,
        Function.update_of_ne isChild] using member

theorem enter_pending {label : Label} :
    (enter process label world).pending = world.pending := by
  cases label <;> rfl

theorem enter_children {label : Label} :
    (enter process label world).children = world.children := by
  cases label <;> rfl

theorem enter_buffer {other : Pid} {label : Label}
    (different : other ≠ process) :
    (enter process label world).buffer other = world.buffer other := by
  cases label with
  | round locals => exact Function.update_of_ne different _ _
  | returned locals => exact Function.update_of_ne different _ _
  | _ => rfl

end Pending

/-! ### The steps -/

section Steps

variable {admits : Choice → Prop} {crew : Processes} {phases : Pid → Phase}
variable {process : Pid}

/-- The others are spared by what a process does. -/
theorem standing_update {world : World} {move : Moves} {phase : Phase}
    (sound : Sound crew phases)
    (others : ∀ other, other ≠ process →
      Spares other crew.state world crew.log move)
    (own : Standing process world (move :: crew.log) phase) (other : Pid) :
    Standing other world (move :: crew.log)
      (Function.update phases process phase other) := by
  by_cases same : other = process
  · subst same
    rwa [Function.update_self]
  · rw [Function.update_of_ne same]
    exact (others other same).standing (sound.standing other)

/-- Who is there is there after a step of a process. -/
theorem there_kept {program : Prog Label} {child : Pid}
    (there : crew.procs child ≠ none) :
    Function.update crew.procs process (some program) child ≠ none := by
  by_cases same : child = process
  · rw [same, Function.update_self]
    exact Option.some_ne_none _
  · rwa [Function.update_of_ne same]

theorem Sound.call {call : Call} {next : call.Answer → Prog Label}
    {answer : call.Answer} {world : World} (sound : Sound crew phases)
    (allowed : script.allow (phases process) call)
    (exec : (system paths decay admits).exec process call crew.state answer
      world) :
    Sound
      (crew.record (.call process ⟨call, answer⟩) world
        (Function.update crew.procs process (some (next answer))))
      (Function.update phases process
        (script.next (phases process) call answer)) := by
  have buffer := call_buffer paths decay exec
  have raised : ∀ other signal, Raised other signal crew.log →
      Raised other signal (.call process ⟨call, answer⟩ :: crew.log) :=
    fun _ _ before => before.later nofun
  refine ⟨?_, ?_, ?_, ?_⟩
  · apply standing_update sound
    · intro other different
      refine ⟨rfl, sent_other different.symm, ?_, raised other, ?_⟩
      · intro isOther
        rwa [role_call, if_neg different.symm]
      · rw [Crew.record_state, buffer]
        exact id
    · have standing := sound.standing process
      have spares : ¬ Sends call → Spares process crew.state world crew.log
          (.call process ⟨call, answer⟩) := by
        intro quiet
        refine ⟨rfl, sent_quiet quiet, ?_, raised process, ?_⟩
        · intro isOther
          rw [role_call, if_pos rfl, isOther]
          cases call <;> rfl
        · rw [buffer]
          exact id
      cases isPhase : phases process with
      | fresh =>
          rw [isPhase] at allowed
          exact allowed.elim
      | stopping =>
          rw [isPhase] at standing
          rcases standing with ⟨none, isOther, unset⟩
          refine ⟨none, ?_, ?_⟩
          · rw [role_call, if_pos rfl, isOther]
            cases call <;> rfl
          · rw [Crew.record_state, buffer]
            exact unset
      | settled =>
          rw [isPhase] at allowed standing
          exact (spares allowed).relayed standing
      | jumped signal =>
          rw [isPhase] at allowed
          exact allowed.elim
      | relaying signal =>
          rw [isPhase] at allowed standing
          by_cases sends : Sends call
          · rcases allowed.2 sends with ⟨other, pid, rfl⟩
            refine Or.inr ⟨signal, other, standing.1, ?_,
              raised process signal standing.2.2⟩
            simp [sent, standing.2.1]
          · rw [relaying_stays call answer sends]
            exact (spares sends).holds standing
  · intro other got signal
    rw [Crew.record_state, exec_mask paths decay exec]
    exact sound.blocked other got signal
  · intro other signal pending
    exact call_raised paths decay exec (sound.raised other signal) pending
  · intro other child member
    rw [Crew.record_state, call_children paths decay exec] at member
    rcases sound.kin other child member with ⟨isParent, there⟩
    exact ⟨isParent, there_kept there⟩

theorem Sound.fork {actor child : Pid} {call : Call}
    {next : call.Answer → Prog Label} {here there : call.Answer}
    (sound : Sound crew phases)
    (running : crew.procs actor = some (.issue call next))
    (fresh : crew.procs child = none)
    (allowed : script.allow (phases actor) call)
    (forks : (system paths decay admits).fork call child =
      some (here, there)) :
    Sound
      (crew.record (.fork actor child call)
        ((system paths decay admits).clone actor child crew.state)
        (Function.update
          (Function.update crew.procs actor (some (next here)))
          child (some (next there))))
      (Function.update
        (Function.update phases actor (script.next (phases actor) call here))
        child (script.next (phases actor) call there)) := by
  cases call with
  | fork =>
      have different : actor ≠ child := by
        rintro rfl
        rw [running] at fresh
        cases fresh
      have settled : phases actor = .settled :=
        settled_of_spawns allowed trivial
      have phasesAfter : Function.update
          (Function.update phases actor
            (script.next (phases actor) .fork here))
          child (script.next (phases actor) .fork there) =
            Function.update phases child .settled := by
        rw [settled]
        change Function.update (Function.update phases actor .settled) child
          .settled = _
        rw [← settled, Function.update_eq_self]
      rw [phasesAfter]
      refine ⟨?_, ?_, ?_, ?_⟩
      · apply standing_update sound
        · intro other apart
          refine ⟨?_, ?_, ?_, ?_, ?_⟩
          · rw [caught_fork, if_neg apart.symm]
          · rw [sent_fork, if_neg apart.symm]
          · intro isOther
            rwa [role_fork, if_neg apart.symm]
          · exact fun signal before => ⟨apart.symm, before⟩
          · intro unset
            simpa [system, World.clone, Function.update_of_ne apart] using
              unset
        · left
          constructor
          · rw [caught_fork, if_pos rfl]
          · rw [sent_fork, if_pos rfl]
      · intro other got signal
        rw [Crew.record_log, caught_fork] at got
        split at got
        · exact absurd rfl got
        · rename_i apart
          simpa [system, World.clone, Function.update_of_ne (Ne.symm apart)]
            using sound.blocked other got signal
      · intro other signal pending
        by_cases isChild : other = child
        · subst isChild
          simp [system, World.clone] at pending
        · refine ⟨Ne.symm isChild, sound.raised other signal ?_⟩
          simpa [system, World.clone, Function.update_of_ne isChild] using
            pending
      · intro other grown member
        rcases clone_children member with ⟨rfl, rfl⟩ | before
        · refine ⟨?_, ?_⟩
          · rw [Crew.record_log, parent_fork, if_pos rfl]
          · rw [Crew.record_procs, Function.update_self]
            exact Option.some_ne_none _
        · rcases sound.kin other grown before with ⟨isParent, there⟩
          have isOld : child ≠ grown := by
            rintro rfl
            exact there fresh
          refine ⟨?_, ?_⟩
          · rw [Crew.record_log, parent_fork, if_neg isOld]
            exact isParent
          · rw [Crew.record_procs, Function.update_of_ne isOld.symm]
            exact there_kept there
  | _ => simp [system] at forks

theorem Sound.enter {label : Label} {program : Prog Label}
    (sound : Sound crew phases)
    (stops : script.stops (phases process) label)
    (piece : (system paths decay admits).code label program) :
    Sound
      (crew.record (.enter process label)
        ((system paths decay admits).enter process label crew.state)
        (Function.update crew.procs process (some program)))
      (Function.update phases process
        (script.resume (phases process) label)) := by
  rcases piece with ⟨stack, piece⟩
  refine ⟨?_, ?_, ?_, ?_⟩
  · apply standing_update sound
    · intro other different
      refine ⟨rfl, rfl, ?_, fun _ before => before, ?_⟩
      · intro isOther
        rwa [role_enter, if_neg different.symm]
      · intro unset
        exact (enter_buffer different).trans unset
    · have standing := sound.standing process
      cases isPhase : phases process with
      | fresh =>
          rw [isPhase] at stops standing
          rcases stops with ⟨action, key, rfl⟩
          rcases standing with ⟨none, quiet, isOther, unset⟩
          cases action with
          | stop =>
              refine ⟨none, ?_, unset⟩
              rw [role_enter, if_pos rfl, isOther]
              rfl
          | start => exact Or.inl ⟨none, quiet⟩
          | status => exact Or.inl ⟨none, quiet⟩
      | stopping =>
          rw [isPhase] at stops
          rcases stops with ⟨status, rfl⟩
          cases piece
      | settled =>
          rw [isPhase] at standing
          exact standing
      | jumped signal =>
          rw [isPhase] at standing
          exact standing
      | relaying signal =>
          rw [isPhase] at stops
          exact stops.elim
  · intro other got signal
    rw [Crew.record_state, system, enter_mask]
    exact sound.blocked other got signal
  · intro other signal pending
    rw [Crew.record_state, system, enter_pending] at pending
    exact sound.raised other signal pending
  · intro other child member
    rw [Crew.record_state, system, enter_children] at member
    rcases sound.kin other child member with ⟨isParent, there⟩
    exact ⟨isParent, there_kept there⟩

/-- A signal that can be caught is the first one. -/
theorem Sound.uncaught {signal : Signal} {saved : Locals}
    (sound : Sound crew phases)
    (deliverable : crew.state.deliverable process signal = true)
    (jmpbuf : crew.state.buffer process = some saved) :
    caught process crew.log = [] ∧ sent process crew.log = [] ∧
      Raised process signal crew.log := by
  simp only [World.deliverable, Bool.and_eq_true, Bool.not_eq_true']
    at deliverable
  have none : caught process crew.log = [] := by
    by_contra got
    have masked := sound.blocked process got signal
    rw [deliverable.1.2] at masked
    cases masked
  refine ⟨none, ?_, sound.raised process signal deliverable.1.1⟩
  have standing := sound.standing process
  cases isPhase : phases process with
  | fresh =>
      rw [isPhase] at standing
      exact standing.2.1
  | stopping =>
      rw [isPhase] at standing
      rw [standing.2.2] at jmpbuf
      cases jmpbuf
  | settled =>
      rw [isPhase] at standing
      rcases standing with ⟨_, quiet⟩ | ⟨other, _, got, _⟩
      · exact quiet
      · rw [none] at got
        cases got
  | jumped other =>
      rw [isPhase] at standing
      exact standing.2.1
  | relaying other =>
      rw [isPhase] at standing
      exact standing.2.1

theorem Sound.jump {program : Prog Label} {label : Label} {world : World}
    (sound : Sound crew phases)
    (follows : script.Follows (phases process) program)
    (jumps : (system paths decay admits).jump process program crew.state label
      world) :
    ∃ phase, script.stops phase label ∧
      Sound
        (crew.record (.jump process label) world
          (Function.update crew.procs process (some (.done label))))
        (Function.update phases process phase) := by
  cases jumps with
  | @caught _ _ signal saved locals deliverable jmpbuf shmem count =>
      rcases sound.uncaught deliverable jmpbuf with ⟨none, quiet, raised⟩
      refine ⟨.jumped signal, ⟨locals, rfl⟩, ?_, ?_, ?_, ?_⟩
      · apply standing_update sound
        · intro other different
          exact ⟨caught_other different.symm, rfl, id, fun _ => id, id⟩
        · refine ⟨?_, quiet, raised⟩
          simp [caught, none]
      · intro other got masked
        by_cases own : other = process
        · subst own
          simp [World.catch]
        · rw [Crew.record_log, caught_other (Ne.symm own)] at got
          simpa [World.catch, Function.update_of_ne own] using
            sound.blocked other got masked
      · intro other posted pending
        apply sound.raised other posted
        by_cases own : other = process
        · subst own
          by_cases same : posted = signal
          · subst same
            simp [World.catch] at pending
          · simpa [World.catch, Function.update_of_ne same] using pending
        · simpa [World.catch, Function.update_of_ne own] using pending
      · intro other child member
        rcases sound.kin other child member with ⟨isParent, there⟩
        exact ⟨isParent, there_kept there⟩
  | @exec next _ =>
      have settled : phases process = .settled :=
        settled_of_spawns follows.1 trivial
      have relayed := sound.standing process
      rw [settled] at relayed
      refine ⟨.settled, trivial, ?_, sound.blocked, sound.raised, ?_⟩
      · apply standing_update sound
        · intro other different
          refine ⟨rfl, rfl, id, fun _ => id, ?_⟩
          intro unset
          simpa [World.exec, Function.update_of_ne different] using unset
        · exact relayed
      · intro other child member
        rcases sound.kin other child member with ⟨isParent, there⟩
        exact ⟨isParent, there_kept there⟩

theorem Sound.leave {move : Moves} (sound : Sound crew phases)
    (goes : move = .leave process ∨ move = .kill process) :
    Sound
      (crew.record move
        ((system paths decay admits).leave process crew.state)
        (Function.update crew.procs process none)) phases := by
  have spares : ∀ other, Spares other crew.state
      ((system paths decay admits).leave process crew.state) crew.log
        move := by
    intro other
    have raised : ∀ signal, Raised other signal crew.log →
        Raised other signal (move :: crew.log) := by
      intro signal before
      rcases goes with rfl | rfl
      · exact Or.inr before
      · exact Or.inr before
    have buffer : crew.state.buffer other = none →
        (crew.state.leave process).buffer other = none := by
      intro unset
      by_cases same : other = process
      · simp [World.leave, same]
      · simpa [World.leave, Function.update_of_ne same] using unset
    rcases goes with rfl | rfl
    · exact ⟨rfl, rfl, id, raised, buffer⟩
    · exact ⟨rfl, rfl, id, raised, buffer⟩
  refine ⟨fun other => (spares other).standing (sound.standing other), ?_, ?_,
    ?_⟩
  · intro other got
    rw [Crew.record_log, (spares other).caught] at got
    exact sound.blocked other got
  · intro other signal pending
    simp only [Crew.record_state, system, World.leave, Bool.or_eq_true,
      Bool.and_eq_true, decide_eq_true_eq] at pending
    rcases pending with before | ⟨⟨isChild, member⟩, _⟩
    · exact (spares other).raised signal (sound.raised other signal before)
    · have isParent := (sound.kin other process member).1
      rcases goes with rfl | rfl
      · exact Or.inl ⟨isChild, isParent⟩
      · exact Or.inl ⟨isChild, isParent⟩
  · intro other child member
    have before : child ∈ crew.state.children other ∧ child ≠ process := by
      by_cases same : other = process
      · simp [system, World.leave, same] at member
      · simpa [system, World.leave, Function.update_of_ne same] using member
    rcases sound.kin other child before.1 with ⟨isParent, there⟩
    refine ⟨?_, ?_⟩
    · rcases goes with rfl | rfl
      · exact isParent
      · exact isParent
    · rw [Crew.record_procs, Function.update_of_ne before.2]
      exact there

theorem Sound.outside {event : Raise} (sound : Sound crew phases) :
    Sound
      (crew.record (.outside event)
        ((system paths decay admits).disturb event crew.state) crew.procs)
      phases := by
  refine ⟨?_, ?_, ?_, ?_⟩
  · intro other
    have spares : Spares other crew.state
        (crew.state.post event.process event.signal) crew.log
          (.outside event) := by
      refine ⟨rfl, rfl, id, fun _ before => Or.inr before, ?_⟩
      rw [World.post_buffer]
      exact id
    exact spares.standing (sound.standing other)
  · intro other got signal
    rw [Crew.record_state, system, World.post_mask]
    exact sound.blocked other got signal
  · intro other signal pending
    rcases post_pending pending with before | ⟨isTarget, same⟩
    · exact Or.inr (sound.raised other signal before)
    · left
      rw [← isTarget, ← same]
  · intro other child member
    rw [Crew.record_state, system, World.post_children] at member
    exact sound.kin other child member

theorem preserves :
    Crew.Preserves (system paths decay admits) Crew.Unrestricted script
      Sound where
  call := by
    intro crew phases process call next answer world sound _ allowed exec _
    exact ⟨trivial, sound.call paths decay allowed exec⟩
  fork := by
    intro crew phases actor child call next here there sound running fresh
      allowed forks _
    exact ⟨trivial, trivial,
      sound.fork paths decay running fresh allowed forks⟩
  enter := by
    intro crew phases process label program sound _ stops piece _
    rcases piece with ⟨stack, found⟩
    exact ⟨follows_code paths decay stops found,
      sound.enter paths decay stops ⟨stack, found⟩⟩
  jump := by
    intro crew phases process program label world sound _ follows jumps _
    exact sound.jump paths decay follows jumps
  leave := by
    intro crew phases process program move sound _ _ cause _
    refine ⟨phases process, ?_⟩
    rw [Function.update_eq_self]
    apply sound.leave
    rcases cause with ⟨left, _⟩ | killed
    · exact Or.inl left
    · exact Or.inr killed
  outside := by
    intro crew phases event sound _
    exact sound.outside paths decay

end Steps

/-! ## Runs of starts, stops and status requests -/

/-- What each of the first processes is asked to do, and with which
channel. -/
def asked (requests : Pid → Option (Action × Key)) (process : Pid) :
    Option Label :=
  (requests process).map fun request => .main request.1 request.2

section Runs

variable {admits : Choice → Prop} {crew : Processes} {store : Store}
variable {inherited : Signal → Bool}

theorem begin_simulated (requests : Pid → Option (Action × Key)) :
    Crew.Simulated script Sound (begin store inherited (asked requests))
      fun _ => .fresh := by
  refine ⟨⟨?_, ?_, ?_, ?_⟩, ?_⟩
  · intro process
    exact ⟨rfl, rfl, rfl, rfl⟩
  · intro process got
    exact absurd rfl got
  · intro process signal pending
    cases pending
  · intro process child member
    cases member
  · intro process program running
    rcases begin_procs running with ⟨label, isLabel, rfl⟩
    rcases Option.map_eq_some_iff.mp isLabel with ⟨⟨action, key⟩, _, rfl⟩
    exact ⟨action, key, rfl⟩

/--
Any number of starts, stops and status requests: a process of a daemon has
caught and sent nothing since it was forked, or it has caught one signal,
which was raised to it, and has sent nothing but that signal, once and never
`SIGUSR2`.  At each label it goes on from after the jump, it has sent it.
-/
theorem relays_once (requests : Pid → Option (Action × Key)) {process : Pid}
    (reach : Crew.Reach (system paths decay admits) Crew.Unrestricted
      (begin store inherited (asked requests)) crew)
    (own : role process crew.log ≠ .other) :
    (caught process crew.log = [] ∧ sent process crew.log = []) ∨
      ∃ signal, caught process crew.log = [signal] ∧
        Raised process signal crew.log ∧
        (sent process crew.log = [] ∨
          signal ≠ .SIGUSR2 ∧ sent process crew.log = [signal]) ∧
        ∀ label, crew.procs process = some (.done label) →
          label.isCaught = false → sent process crew.log = [signal] := by
  rcases reach.simulated (preserves paths decay) (begin_simulated requests)
    with ⟨phases, sound, follows⟩
  have standing := sound.standing process
  have stops : ∀ label, crew.procs process = some (.done label) →
      script.stops (phases process) label :=
    fun label atLabel => follows process _ atLabel
  cases isPhase : phases process with
  | fresh =>
      rw [isPhase] at standing
      exact absurd standing.2.2.1 own
  | stopping =>
      rw [isPhase] at standing
      exact absurd standing.2.1 own
  | settled =>
      rw [isPhase] at standing
      rcases standing with nothing | ⟨signal, other, got, passed, raised⟩
      · exact Or.inl nothing
      · exact Or.inr ⟨signal, got, raised, Or.inr ⟨other, passed⟩,
          fun _ _ _ => passed⟩
  | jumped signal =>
      rw [isPhase] at standing stops
      refine Or.inr ⟨signal, standing.1, standing.2.2,
        Or.inl standing.2.1, ?_⟩
      intro label atLabel ordinary
      rcases stops label atLabel with ⟨locals, rfl⟩
      cases ordinary
  | relaying signal =>
      rw [isPhase] at standing stops
      refine Or.inr ⟨signal, standing.1, standing.2.2,
        Or.inl standing.2.1, ?_⟩
      intro label atLabel
      exact (stops label atLabel).elim

/-- The first process starts a daemon. -/
def startAlone (process : Pid) : Option (Action × Key) :=
  if process = 1 then some (.start, 5) else none

/-- The supervisor has a child and catches a `SIGHUP`, of which it comes back
to its loop. -/
def hangup : List Turn :=
  Targets.launch ++ .fork 3 4 :: calls 3 8 ++
    [.raise 3 .SIGHUP, .caught 3 .SIGHUP, .enter 3 .stopped] ++ calls 3 18

/-- A supervisor that has passed on a `SIGHUP`. -/
def hasRelayed (crew : Processes) : Bool :=
  decide (role 3 crew.log = .supervisor) &&
    decide (sent 3 crew.log = [.SIGHUP])

/-- A `SIGHUP` that comes to a daemon. -/
theorem relays_once_hangup :
    ∃ crew : Processes, sent 3 crew.log = [.SIGHUP] ∧
      ∃ signal, caught 3 crew.log = [signal] ∧
        Raised 3 signal crew.log := by
  have computed : (Daemon.follow .devtmpfs (fun _ => 0) anything hangup
      (begin (Store.empty 0) (fun _ => false) (asked startAlone))).any
        hasRelayed = true := by
    decide
  rcases follow_reaches_any .devtmpfs (fun _ => 0) computed with
    ⟨crew, reach, final⟩
  simp only [hasRelayed, Bool.and_eq_true, decide_eq_true_eq] at final
  have own : role 3 crew.log ≠ .other := by
    rw [final.1]
    decide
  refine ⟨crew, final.2, ?_⟩
  rcases relays_once .devtmpfs (fun _ => 0) startAlone reach own with
    ⟨_, nothing⟩ | ⟨signal, got, raised, _⟩
  · rw [final.2] at nothing
    cases nothing
  · exact ⟨signal, got, raised⟩

end Runs

end Atomicles.Relay
