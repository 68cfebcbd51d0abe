import Atomicles.Daemon.Calls

/-!
# The backoff of the supervision loop

A round starts a child, waits for its end and sleeps the longer the more
rounds have gone by.  The counter goes back to 0 when the times of the last
round are far enough apart, but only a wait that is not left by the handler
of `SIGCHLD` writes both of them.
-/

namespace Atomicles.Backoff

open Interaction Daemon

/-! ## The variables of a round -/

/-- How far a round has got. -/
inductive Stage where
  | installing | timed | forked | waited | ended
deriving DecidableEq

/-- A round, and the variables of the loop as they stand there. -/
structure Watch where
  stage : Stage
  locals : Locals

/-- The counter once the two times have been compared. -/
def restartTimer (locals : Locals) : UInt :=
  if locals.failure_time - locals.exec_time > 5 then 0 else locals.timer

/-- The beginning of a round. -/
def begins (locals : Locals) : Watch :=
  { stage := .installing
    locals := { locals with timer := restartTimer locals } }

/-- A supervisor in a round, up to the sleep: its calls tell when the
variables are assigned.  The time since the Epoch is not negative. -/
def watching : Protocol signature Watch where
  allow watch call :=
    match call with
    | .time => watch.stage = .installing ∨ watch.stage = .waited
    | .fork => watch.stage = .timed
    | .waitpid _ => watch.stage = .forked
    | _ => True
  answer _ call answer :=
    match call, answer with
    | .time, (now : Time) => 0 ≤ now
    | _, _ => True
  next watch call answer :=
    match call, answer with
    | .time, (now : Time) =>
        if watch.stage = .installing then
          { stage := .timed, locals := { watch.locals with exec_time := now } }
        else if watch.stage = .waited then
          { stage := .ended
            locals := { watch.locals with failure_time := now } }
        else watch
    | .fork, (child : Int) =>
        if watch.stage = .timed ∧ child ≠ 0 then
          { watch with stage := .forked }
        else watch
    | .waitpid _, _ =>
        if watch.stage = .forked then { watch with stage := .waited }
        else watch
    | _, _ => watch

/-! ## The calls in between -/

/-- A call that assigns none of the variables. -/
def Quiet : Call → Prop
  | .time => False
  | .fork => False
  | .waitpid _ => False
  | _ => True

theorem quiet_allowed {watch : Watch} (call : Call) (quiet : Quiet call) :
    watching.allow watch call := by
  cases call with
  | time => exact quiet.elim
  | fork => exact quiet.elim
  | waitpid pid => exact quiet.elim
  | _ => trivial

theorem quiet_stays {watch : Watch} (call : Call) (answer : call.Answer)
    (quiet : Quiet call) : watching.next watch call answer = watch := by
  cases call with
  | time => exact quiet.elim
  | fork => exact quiet.elim
  | waitpid pid => exact quiet.elim
  | _ => rfl

theorem quiet_accesses (call : Call) (accesses : call.accesses = true) :
    Quiet call := by
  cases call <;> trivial

theorem quiet_removes (call : Call) (removes : call.removes = true) :
    Quiet call := by
  cases call <;> trivial

theorem quiets :
    Compositional Quiet (fun _ _ => True) fun _ program =>
      program.Within Quiet where
  calm call calm := by
    cases call <;> trivial
  value _ := trivial
  bind first second := first.bind second
  issue quiet rest := ⟨quiet, rest⟩
  read this offset :=
    SharedMemory.within_readUint (accesses_reads quiet_accesses) this offset
  write this offset n _ := this.within_writeUint quiet_accesses offset n

/-! ## Where a round leads -/

variable {decay : UInt → Nat}

/-- A next round begins with the variables as they are, but for the counter,
which is one more. -/
def Continues (locals : Locals) (label : Label) : Prop :=
  ∀ later, label = .round later →
    later = { locals with timer := locals.timer + 1 }

theorem endRound_returns (locals : Locals) :
    (endRound decay locals).Returns (Continues locals) := by
  unfold endRound
  apply Program.Returns.bind_any
  intro _
  apply Program.Returns.bind_any
  intro isActive
  split
  · apply Program.Returns.bind_any
    intro _ impossible
    exact impossible.elim
  · apply Program.Returns.bind_any
    intro _
    apply Program.Returns.bind_any
    intro stillActive
    split
    · intro later same
      cases same
      rfl
    · intro later same
      cases same

theorem caught_returns (locals : Locals) :
    (caught decay .SIGCHLD locals).Returns (Continues locals) := by
  unfold caught
  simp only [reduceCtorEq, if_false]
  apply Program.Returns.bind_any
  intro cpid
  apply Program.Returns.bind_any
  intro _
  exact endRound_returns locals

/-! ## A round is watched -/

theorem follows_quiet {Value : Type} {watch : Watch} {program : Prog Value}
    {continuation : Value → Prog Label} {post : Watch → Label → Prop}
    (quiet : program.Within Quiet)
    (rest : ∀ value, (continuation value).Conforms watching watch post) :
    (program >>= continuation).Conforms watching watch post :=
  quiet.conforms_bind quiet_allowed quiet_stays rest

/-- Where a round that ends has got, and how it goes on. -/
def Concludes (watch : Watch) (label : Label) : Prop :=
  ∀ later, label = .round later →
    watch.stage = .ended ∧
      later = { watch.locals with timer := watch.locals.timer + 1 }

theorem follows_endRound {watch : Watch} (ending : watch.stage = .ended) :
    (endRound decay watch.locals).Conforms watching watch Concludes := by
  have quiet : (endRound decay watch.locals).Within Quiet :=
    Compositional.endRound quiets (fun _ => trivial) quiet_removes decay
      watch.locals
  apply (quiet.conforms_returns (endRound_returns watch.locals) quiet_allowed
    quiet_stays).mono
  rintro reached label ⟨rfl, continues⟩ later isRound
  exact ⟨ending, continues later isRound⟩

theorem follows_child {watch : Watch} (shmem : SharedMemory) :
    (child shmem).Conforms watching watch Concludes := by
  have quiet : (child shmem).Within Quiet :=
    Compositional.child quiets shmem (fun _ => trivial) (fun _ => trivial)
      quiet_removes trivial
  have returns : (child shmem).Returns fun label =>
      ∀ later, label ≠ .round later := by
    unfold child
    apply Program.Returns.bind_any
    intro _
    apply Program.Returns.bind_any
    intro _
    apply Program.Returns.bind_any
    intro _
    rw [die_eq _ .command]
    apply Program.Returns.bind_any
    intro _ later
    exact Label.noConfusion
  apply (quiet.conforms_returns returns quiet_allowed quiet_stays).mono
  rintro reached label ⟨_, others⟩ later isRound
  exact absurd isRound (others later)

/-- A round assigns its variables as it is watched. -/
theorem follows_round (stack : WaitStatus) (locals : Locals) :
    (Daemon.round decay stack locals).Conforms watching (begins locals)
      Concludes := by
  rw [round_eq]
  apply follows_quiet
  · exact Compositional.installHandlers quiets (fun _ => trivial)
      quiet_removes _ _ fun _ => trivial
  intro _
  refine ⟨Or.inl rfl, ?_⟩
  intro (exec_time : Time) _
  refine ⟨rfl, ?_⟩
  intro (cpid : Int) _
  dsimp only
  by_cases isChild : cpid = 0
  · rw [if_pos isChild]
    exact follows_child locals.shmem
  · rw [if_neg isChild]
    have forked :
        watching.next
            (watching.next (begins locals) .time (exec_time : Time))
            .fork (cpid : Int) =
          { stage := .forked
            locals := { (begins locals).locals with exec_time } } :=
      if_pos ⟨rfl, isChild⟩
    rw [forked]
    apply follows_quiet (Compositional.writeWord quiets _ trivial)
    intro _
    apply follows_quiet (Compositional.writeWord quiets _ trivial)
    intro _
    refine ⟨rfl, ?_⟩
    intro (outcome : Except Errno (Int × WaitStatus)) _
    dsimp only
    split
    · refine ⟨Or.inr rfl, ?_⟩
      intro (failure_time : Time) _
      exact @follows_endRound decay
        { stage := .ended
          locals := { (begins locals).locals with exec_time, failure_time } }
        rfl
    · exact fun _ => Label.noConfusion

/-! ## What is known of the variables -/

/-- What a round has made of the variables it began with. -/
structure Tracks (first : Locals) (watch : Watch) : Prop where
  timer : watch.locals.timer = restartTimer first
  failure : watch.stage ≠ .ended →
    watch.locals.failure_time = first.failure_time
  started : watch.stage ≠ .installing → 0 ≤ watch.locals.exec_time

theorem Tracks.begins (first : Locals) : Tracks first (begins first) where
  timer := rfl
  failure := fun _ => rfl
  started := fun impossible => absurd rfl impossible

theorem Tracks.next {first : Locals} {watch : Watch} {call : Call}
    {answer : call.Answer} (tracks : Tracks first watch)
    (relied : watching.answer watch call answer) :
    Tracks first (watching.next watch call answer) := by
  cases call with
  | time =>
      simp only [watching]
      split
      · rename_i installs
        exact
          { timer := tracks.timer
            failure := fun _ => tracks.failure (by simp [installs])
            started := fun _ => relied }
      · rename_i installed
        split
        · exact
            { timer := tracks.timer
              failure := fun impossible => absurd rfl impossible
              started := fun _ => tracks.started installed }
        · exact tracks
  | fork =>
      simp only [watching]
      split
      · rename_i forks
        exact
          { timer := tracks.timer
            failure := fun _ => tracks.failure (by simp [forks.1])
            started := fun _ => tracks.started (by simp [forks.1]) }
      · exact tracks
  | waitpid pid =>
      simp only [watching]
      split
      · rename_i waits
        exact
          { timer := tracks.timer
            failure := fun _ => tracks.failure (by simp [waits])
            started := fun _ => tracks.started (by simp [waits]) }
      · exact tracks
  | _ => exact tracks

theorem Tracks.after {first : Locals} {watch : Watch}
    {events : List (Event signature)} (tracks : Tracks first watch)
    (relied : watching.Relied watch events) :
    Tracks first (watching.after watch events) := by
  induction events generalizing watch with
  | nil => exact tracks
  | cons event events ih => exact ih (tracks.next relied.1) relied.2

/-! ## Rounds after one another -/

/-- The supervisor between two rounds, and whether `SIGCHLD` is blocked. -/
structure State where
  locals : Locals
  blocked : Bool

/-- The loop is entered. -/
def entered (shmem : SharedMemory) (count : Int) (blocked : Bool) : State :=
  { locals := { shmem, count, timer := 0, failure_time := 0, exec_time := 0 }
    blocked }

/-- The life of a child: how long it ran, and whether its end came to the
supervisor as a signal. -/
structure Lifetime where
  ran : Time
  caught : Bool

/--
One round.  Where `SIGCHLD` is blocked, the end of the child ends the wait.
Where it is not, the handler leaves the round from wherever it is after the
fork and before `waitpid` returns; the variables keep their values, and with
the handler's mask everything is blocked from then on.
-/
inductive Step (decay : UInt → Nat) : State → Lifetime → State → Prop where
  | waited {locals later : Locals} {stack : WaitStatus}
      {events : List (Event signature)} {watch : Watch}
      (isWatch : watch = watching.after (begins locals) events)
      (relied : watching.Relied (begins locals) events)
      (ending : (Daemon.round decay stack locals).Ends events (.round later)) :
      Step decay ⟨locals, true⟩
        ⟨watch.locals.failure_time - watch.locals.exec_time, false⟩
        ⟨later, true⟩
  | caught {locals later : Locals} {stack : WaitStatus}
      {events handling : List (Event signature)} {watch : Watch}
      {rest : Prog Label} {ended : Time}
      (isWatch : watch = watching.after (begins locals) events)
      (relied : watching.Relied (begins locals) events)
      (running : (Daemon.round decay stack locals).Reaches events rest)
      (forked : watch.stage = .forked)
      (resumed : (caught decay .SIGCHLD watch.locals).Ends handling
        (.round later)) :
      Step decay ⟨locals, false⟩ ⟨ended - watch.locals.exec_time, true⟩
        ⟨later, true⟩

/-- A restart: the counter at the restart before it or at the first start, the
life of the child started there, and the counter now. -/
structure Restart where
  before : UInt
  lifetime : Lifetime
  timer : UInt

/-- The restarts of a run, the last one first. -/
inductive Run (decay : UInt → Nat) (first : State) :
    List Restart → State → Prop where
  | start : Run decay first [] first
  | step {restarts : List Restart} {state later : State} {lifetime : Lifetime}
      (run : Run decay first restarts state)
      (step : Step decay state lifetime later) :
      Run decay first
        (⟨restartTimer state.locals, lifetime, restartTimer later.locals⟩ ::
          restarts) later

/-- The claim to the counter at a restart. -/
def Restart.Resets (restart : Restart) : Prop :=
  restart.timer =
    if restart.lifetime.ran > 5 then 0 else restart.before + 1

/-- A child whose end came as a signal did not run for long. -/
def Restart.Prompt (restart : Restart) : Prop :=
  restart.lifetime.caught = true → restart.lifetime.ran ≤ 5

/-- After a wait that was not left both times are there. -/
theorem waited_timer {locals later : Locals} {stack : WaitStatus}
    {events : List (Event signature)}
    (relied : watching.Relied (begins locals) events)
    (ending : (Daemon.round decay stack locals).Ends events (.round later)) :
    restartTimer later =
      if (watching.after (begins locals) events).locals.failure_time -
          (watching.after (begins locals) events).locals.exec_time > 5
      then 0 else restartTimer locals + 1 := by
  have concluded := (follows_round stack locals).ends relied ending
  rcases concluded later rfl with ⟨_, continues⟩
  have tracks := (Tracks.begins locals).after relied
  rw [continues, ← tracks.timer]
  rfl

/-- After a wait that the handler left the time of the failure is an old
one. -/
theorem caught_timer {locals later : Locals} {watch : Watch}
    {handling : List (Event signature)} (tracks : Tracks locals watch)
    (forked : watch.stage = .forked)
    (resumed : (caught decay .SIGCHLD watch.locals).Ends handling
      (.round later)) :
    restartTimer later =
      if locals.failure_time - watch.locals.exec_time > 5 then 0
      else restartTimer locals + 1 := by
  have continues := (caught_returns watch.locals).ends resumed later rfl
  have old : watch.locals.failure_time = locals.failure_time :=
    tracks.failure (by simp [forked])
  rw [continues, ← tracks.timer, ← old]
  rfl

/-- Once the handler has run, or where `SIGCHLD` was blocked from the start,
it stays blocked. -/
theorem Run.unblocked {first state : State} {restarts : List Restart}
    (run : Run decay first restarts state) (open' : state.blocked = false) :
    state = first := by
  cases run with
  | start => rfl
  | step run step => cases step <;> cases open'

/-- One restart of a run. -/
theorem step_resets_iff {shmem : SharedMemory} {count : Int} {blocked : Bool}
    {restarts : List Restart} {state later : State} {lifetime : Lifetime}
    (run : Run decay (entered shmem count blocked) restarts state)
    (step : Step decay state lifetime later) :
    Restart.Resets
        ⟨restartTimer state.locals, lifetime, restartTimer later.locals⟩ ↔
      Restart.Prompt
        ⟨restartTimer state.locals, lifetime, restartTimer later.locals⟩ := by
  cases step with
  | waited isWatch relied ending =>
      subst isWatch
      exact iff_of_true (waited_timer relied ending) Bool.noConfusion
  | @caught locals later stack events handling watch rest ended isWatch relied
      running forked resumed =>
      -- The handler has not run before: this is the first child.
      have isFirst := run.unblocked rfl
      have isLocals : locals = (entered shmem count blocked).locals :=
        congrArg State.locals isFirst
      subst isLocals
      have tracks : Tracks (entered shmem count blocked).locals watch := by
        rw [isWatch]
        exact (Tracks.begins _).after relied
      have started : 0 ≤ watch.locals.exec_time :=
        tracks.started (by simp [forked])
      have none : restartTimer (entered shmem count blocked).locals = 0 := by
        have even : ¬ (0 : Time) - 0 > 5 := by decide
        exact if_neg even
      have timer := caught_timer tracks forked resumed
      have early :
          ¬ (entered shmem count blocked).locals.failure_time -
            watch.locals.exec_time > 5 := by
        show ¬ 0 - watch.locals.exec_time > 5
        grind
      rw [if_neg early, none] at timer
      unfold Restart.Resets Restart.Prompt
      simp only [timer, none, forall_true_left]
      by_cases long : ended - watch.locals.exec_time > 5
      · rw [if_pos long]
        apply iff_of_false
        · decide
        · exact Int.not_le.mpr long
      · rw [if_neg long]
        exact iff_of_true rfl (Int.not_lt.mp long)

/-- **The backoff.**  In every run of the loop, all restarts have the counter
that is claimed exactly where no child that ran for more than 5 seconds ended
by a signal to the supervisor. -/
theorem backoff_resets_iff (decay : UInt → Nat) (shmem : SharedMemory)
    (count : Int) (blocked : Bool) {restarts : List Restart} {state : State}
    (run : Run decay (entered shmem count blocked) restarts state) :
    (∀ restart ∈ restarts, restart.Resets) ↔
      ∀ restart ∈ restarts, restart.Prompt := by
  induction run with
  | start => simp
  | step run step ih =>
      rw [List.forall_mem_cons, List.forall_mem_cons, ih,
        step_resets_iff run step]

/-- A control segment with its mutex. -/
def shmem : SharedMemory :=
  { key := 5
    id := ⟨KeyPaths.devtmpfs.shmKey 5, 1⟩
    size := .assign SHMEM_SIZE
    addr := .mapped ⟨KeyPaths.devtmpfs.shmKey 5, 1⟩
    shsem := some ⟨133, ⟨KeyPaths.devtmpfs.semKey 133, 1⟩, 1, 1⟩ }

def mutex : IpcId :=
  ⟨KeyPaths.devtmpfs.semKey 133, 1⟩

/-- The calls of an accessor that writes. -/
def writing (offset : Nat) (word : UInt) : List (Event signature) :=
  [⟨.semop mutex 0 (-1) true false, (.ok () : Except Errno Unit)⟩,
    ⟨.store shmem.addr offset word, (some () : Option Unit)⟩,
    ⟨.semctlGetval mutex 0, (.ok 0 : Except Errno Nat)⟩,
    ⟨.semop mutex 0 1 true false, (.ok () : Except Errno Unit)⟩]

/-- The calls of an accessor that reads. -/
def reading (offset : Nat) (word : UInt) : List (Event signature) :=
  [⟨.semop mutex 0 (-1) true false, (.ok () : Except Errno Unit)⟩,
    ⟨.semctlGetval mutex 0, (.ok 0 : Except Errno Nat)⟩,
    ⟨.semop mutex 0 1 true false, (.ok () : Except Errno Unit)⟩,
    ⟨.load shmem.addr offset, (some word : Option UInt)⟩]

/-- The calls of a round up to `waitpid`, with a child 7 started at 1000. -/
def rounding : List (Event signature) :=
  [⟨.sigaction .SIGTERM, (.ok () : Except Errno Unit)⟩,
    ⟨.sigaction .SIGUSR1, (.ok () : Except Errno Unit)⟩,
    ⟨.sigaction .SIGUSR2, (.ok () : Except Errno Unit)⟩,
    ⟨.sigaction .SIGINT, (.ok () : Except Errno Unit)⟩,
    ⟨.sigaction .SIGHUP, (.ok () : Except Errno Unit)⟩,
    ⟨.sigaction .SIGCHLD, (.ok () : Except Errno Unit)⟩,
    ⟨.sigaction .SIGALRM, (.ok () : Except Errno Unit)⟩,
    ⟨.time, (1000 : Time)⟩, ⟨.fork, (7 : Int)⟩] ++
  writing 2 7 ++ writing 0 1

/-- The calls after the jump of the handler. -/
def handling : List (Event signature) :=
  reading 2 7 ++
  [⟨.kill 7 (some .SIGCHLD), (.error .ESRCH : Except Errno Unit)⟩] ++
  reading 0 1 ++ reading 0 1 ++ [⟨.sleep 0, ()⟩] ++ reading 0 1

theorem rounding_reaches :
    ∃ rest, (Daemon.round (fun _ => 0) (.exited 0)
      (entered shmem 0 false).locals).Reaches rounding rest := by
  apply Exists.intro
  unfold rounding writing
  iterate 17 apply Program.Reaches.issue
  exact .here _

/-- The variables when the handler leaves that round. -/
def interrupted : Locals :=
  { shmem, count := 0, timer := 0, failure_time := 0, exec_time := 1000 }

theorem rounding_watch :
    watching.after (begins (entered shmem 0 false).locals) rounding =
      ⟨.forked, interrupted⟩ := by
  rfl

theorem handling_ends :
    (caught (fun _ => 0) .SIGCHLD interrupted).Ends handling
      (.round { interrupted with timer := 1 }) := by
  unfold handling reading
  iterate 18 apply Program.Ends.issue
  apply Program.Ends.done

/-- The first child ends while `SIGCHLD` is not blocked. -/
theorem first_restart (ended : Time) :
    Run (fun _ => 0) (entered shmem 0 false)
      [⟨0, ⟨ended - 1000, true⟩, 1⟩]
      ⟨{ interrupted with timer := 1 }, true⟩ := by
  rcases rounding_reaches with ⟨rest, running⟩
  have relied :
      watching.Relied (begins (entered shmem 0 false).locals) rounding := by
    simp [rounding, writing, Protocol.Relied, watching]
  exact .step .start
    (.caught rounding_watch.symm relied running rfl handling_ends)

/-- The first child ran for 2 seconds. -/
theorem backoff_resets_iff_short :
    (∀ restart ∈ [(⟨0, ⟨1002 - 1000, true⟩, 1⟩ : Restart)],
      restart.Resets) ↔
      ∀ restart ∈ [(⟨0, ⟨1002 - 1000, true⟩, 1⟩ : Restart)],
        restart.Prompt :=
  backoff_resets_iff (fun _ => 0) shmem 0 false (first_restart 1002)

/-- The first child ran for 100 seconds, and the counter is 1 all the same. -/
theorem backoff_grows_after_long_run :
    ∃ restarts state,
      Run (fun _ => 0) (entered shmem 0 false) restarts state ∧
        restarts = [⟨0, ⟨100, true⟩, 1⟩] ∧
        ¬ ∀ restart ∈ restarts, restart.Resets := by
  refine ⟨_, _, first_restart 1100, rfl, ?_⟩
  intro claimed
  have reset := claimed _ (List.mem_singleton_self _)
  exact absurd reset (by unfold Restart.Resets; decide)

end Atomicles.Backoff
