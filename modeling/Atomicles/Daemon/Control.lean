import Atomicles.Daemon.Calls
import Atomicles.Daemon.Runs

/-!
# Whether a waiting supervisor can be controlled

Each round installs the handlers again before the supervisor waits.  The mask
is another matter: the handler runs with all signals blocked and does not
return, and no call takes the mask back.
-/

namespace Atomicles.Control

open Interaction Daemon

variable (paths : KeyPaths) (decay : UInt → Nat)

/-- The handler has run in a process, or in the process it was forked from
before the fork. -/
def hasCaught (process : Pid) : List Moves → Bool
  | [] => false
  | .jump actor (.caught ..) :: earlier =>
      if actor = process then true else hasCaught process earlier
  | .fork parent child _ :: earlier =>
      if child = process then hasCaught parent earlier
      else hasCaught process earlier
  | _ :: earlier => hasCaught process earlier

/-! ## The script of a process -/

/-- The handlers that a process has installed since its last label.  It waits
only with those of `SIGUSR1` and `SIGUSR2`. -/
def script : Script signature (Signal → Bool) Label where
  allow installed call :=
    match call with
    | .waitpid _ => installed .SIGUSR1 = true ∧ installed .SIGUSR2 = true
    | _ => True
  answer _ _ _ := True
  next installed call answer :=
    match call, answer with
    | .sigaction signal, (outcome : Except Errno Unit) =>
        match outcome with
        | .ok () => Function.update installed signal true
        | .error _ => installed
    | _, _ => installed
  stops _ _ := True
  resume _ _ := fun _ => false

/-- All calls but two kinds. -/
def Plain : Call → Prop
  | .waitpid _ => False
  | .sigaction _ => False
  | _ => True

theorem plain_accesses (call : Call) (accesses : call.accesses = true) :
    Plain call := by
  cases call <;> trivial

theorem plain_opens (call : Call) (opens : call.opens = true) :
    Plain call := by
  cases call <;> trivial

theorem plain_removes (call : Call) (removes : call.removes = true) :
    Plain call := by
  cases call <;> trivial

/-- All functions but the round make plain calls only. -/
theorem plain :
    Compositional Plain (fun _ _ => True) fun _ program =>
      program.Within Plain where
  calm call calm := by
    cases call <;> trivial
  value _ := trivial
  bind first second := first.bind second
  issue quiet rest := ⟨quiet, rest⟩
  read this offset :=
    SharedMemory.within_readUint (accesses_reads plain_accesses) this offset
  write this offset n _ := this.within_writeUint plain_accesses offset n

theorem plain_allowed {installed : Signal → Bool} (call : Call)
    (isPlain : Plain call) : script.allow installed call := by
  cases call with
  | waitpid pid => exact isPlain.elim
  | _ => trivial

theorem plain_stays {installed : Signal → Bool} (call : Call)
    (answer : call.Answer) (isPlain : Plain call) :
    script.next installed call answer = installed := by
  cases call with
  | sigaction signal => exact isPlain.elim
  | _ => rfl

/-! ## The round follows the script -/

section Round

variable {installed : Signal → Bool}

theorem follows_plain {program : Prog Label}
    (within : Program.Within Plain program) :
    script.Follows installed program :=
  within.conforms_any (fun _ => plain_allowed) fun _ _ => trivial

theorem follows_plain_bind {Value : Type} {program : Prog Value}
    {continuation : Value → Prog Label} (within : Program.Within Plain program)
    (rest : ∀ value, script.Follows installed (continuation value)) :
    script.Follows installed (program >>= continuation) :=
  within.conforms_bind plain_allowed plain_stays rest

/-- After the `sigaction` calls the handlers are installed. -/
theorem follows_installHandlers {shmem : SharedMemory}
    {continuation : Unit → Prog Label} (list : List Signal)
    (rest : ∀ after : Signal → Bool,
      (∀ signal, installed signal = true ∨ signal ∈ list →
        after signal = true) → script.Follows after (continuation ())) :
    script.Follows installed
      (installHandlers shmem list >>= continuation) := by
  induction list generalizing installed with
  | nil => exact rest installed (by simp)
  | cons signal list ih =>
      rw [installHandlers, bind_assoc, sigaction_bind]
      refine ⟨trivial, ?_⟩
      intro (outcome : Except Errno Unit) _
      cases outcome with
      | error errno =>
          have dies : (Daemon.die (some shmem) >>= continuation) =
              (Daemon.die (some shmem) : Prog Label) := by
            simp [Daemon.die]
          simpa [outcomeValue, dies] using follows_plain
            (Compositional.die plain _ (fun _ => trivial) plain_removes)
      | ok success =>
          apply ih
          intro after kept
          have installs : script.next installed (.sigaction signal)
              (.ok success : Except Errno Unit) =
                Function.update installed signal true := rfl
          rw [installs] at kept
          apply rest
          rintro other (before | listed)
          · apply kept
            left
            by_cases same : other = signal
            · rw [same, Function.update_self]
            · rwa [Function.update_of_ne same]
          · rcases List.mem_cons.mp listed with same | later
            · apply kept
              left
              rw [same, Function.update_self]
            · exact kept other (Or.inr later)

theorem follows_round (stack : WaitStatus) (locals : Locals) :
    script.Follows installed (round decay stack locals) := by
  rw [round_eq]
  apply follows_installHandlers
  intro after kept
  have usr1 : after .SIGUSR1 = true := kept _ (Or.inr (by decide))
  have usr2 : after .SIGUSR2 = true := kept _ (Or.inr (by decide))
  refine ⟨trivial, fun _ _ => ⟨trivial, ?_⟩⟩
  intro (cpid : Int) _
  dsimp only
  split
  · exact follows_plain (Compositional.child plain _ (fun _ => trivial)
      (fun _ => trivial) plain_removes trivial)
  · apply follows_plain_bind (Compositional.writeWord plain _ trivial)
    intro _
    apply follows_plain_bind (Compositional.writeWord plain _ trivial)
    intro _
    refine ⟨⟨usr1, usr2⟩, ?_⟩
    intro (outcome : Except Errno (Int × WaitStatus)) _
    apply follows_plain
    dsimp only
    split
    · exact ⟨trivial, fun _ =>
        Compositional.endRound plain (fun _ => trivial) plain_removes decay _⟩
    · trivial

theorem follows_code {stack : WaitStatus} {label : Label}
    {program : Prog Label}
    (piece : code paths decay stack label = some program) :
    script.Follows installed program := by
  cases label with
  | main action key =>
      cases piece
      exact follows_plain (Compositional.main plain (fun _ _ => trivial)
        plain_removes trivial (fun _ _ => trivial) plain_opens paths action key)
  | round locals =>
      cases piece
      exact follows_round decay stack locals
  | caught signal locals =>
      cases piece
      exact follows_plain (Compositional.caught plain (fun _ => trivial)
        plain_removes (fun _ _ => trivial) decay signal locals)
  | returned locals =>
      cases piece
      exact follows_plain (Compositional.returned plain locals)
  | _ => cases piece

end Round

/-! ## The invariant -/

@[simp]
theorem hasCaught_call {process actor : Pid} {event : Event signature}
    {log : List Moves} :
    hasCaught process (.call actor event :: log) = hasCaught process log :=
  rfl

@[simp]
theorem hasCaught_fork {process parent child : Pid} {call : Call}
    {log : List Moves} :
    hasCaught process (.fork parent child call :: log) =
      if child = process then hasCaught parent log
      else hasCaught process log :=
  rfl

@[simp]
theorem hasCaught_enter {process actor : Pid} {label : Label}
    {log : List Moves} :
    hasCaught process (.enter actor label :: log) = hasCaught process log :=
  rfl

/-- An installed handler is in place, and a process blocks what it began with
until it catches a signal. -/
structure Consistent (inherited : Signal → Bool) (crew : Processes)
    (installed : Pid → Signal → Bool) : Prop where
  handler : ∀ process signal, installed process signal = true →
    crew.state.disposition process signal = .handler
  mask : ∀ process signal, crew.state.mask process signal =
    (inherited signal || hasCaught process crew.log)

variable {admits : Choice → Prop}

section Kept

variable {world after : World} {process : Pid} {call : Call}
variable {answer : call.Answer}

/-- No call takes a handler away. -/
theorem handler_kept
    (exec : (system paths decay admits).exec process call world answer after)
    {other : Pid} {signal : Signal}
    (before : world.disposition other signal = .handler) :
    after.disposition other signal = .handler := by
  rcases exec with ⟨choice, _, served⟩
  rcases World.serve_frame served with
    ⟨installed, _, rfl⟩ | ⟨target, posted, rfl⟩ | ⟨store, rfl⟩
  · by_cases own : other = process
    · subst own
      by_cases same : signal = installed
      · simp [World.install, same]
      · simpa [World.install, Function.update_of_ne same] using before
    · simpa [World.install, Function.update_of_ne own] using before
  · rw [World.post_disposition]
    exact before
  · exact before

/-- A `sigaction` that succeeds installs the handler. -/
theorem handler_installed {signal : Signal}
    (exec : (system paths decay admits).exec process (.sigaction signal) world
      (.ok () : Except Errno Unit) after) :
    after.disposition process signal = .handler := by
  rcases exec with ⟨choice, _, served⟩
  simp only [World.serve] at served
  split at served
  · simp at served
  · cases served
    simp [World.install]

/-- What the script says is installed is in place after a call. -/
theorem handler_next {installed : Signal → Bool}
    (exec : (system paths decay admits).exec process call world answer after)
    (before : ∀ signal, installed signal = true →
      world.disposition process signal = .handler) (signal : Signal)
    (now : script.next installed call answer signal = true) :
    after.disposition process signal = .handler := by
  have kept : installed signal = true →
      after.disposition process signal = .handler := fun already =>
    handler_kept paths decay exec (before signal already)
  cases call with
  | sigaction other =>
      cases answer with
      | error errno => exact kept now
      | ok success =>
          have installs : script.next installed (.sigaction other)
              (.ok success : Except Errno Unit) =
                Function.update installed other true := rfl
          rw [installs] at now
          by_cases same : signal = other
          · subst same
            exact handler_installed paths decay exec
          · rw [Function.update_of_ne same] at now
            exact kept now
  | _ => exact kept now

end Kept

variable {inherited : Signal → Bool}

theorem preserves :
    Crew.Preserves (system paths decay admits) Crew.Unrestricted script
      (Consistent inherited) where
  call := by
    intro crew installed process call next answer world consistent _ _ exec _
    refine ⟨trivial, ?_, ?_⟩
    · intro other signal now
      by_cases own : other = process
      · subst own
        rw [Function.update_self] at now
        exact handler_next paths decay exec (consistent.handler other) signal now
      · rw [Function.update_of_ne own] at now
        exact handler_kept paths decay exec (consistent.handler other signal now)
    · intro other signal
      rw [Crew.record_state, exec_mask paths decay exec]
      exact consistent.mask other signal
  fork := by
    intro crew installed parent child call next here there consistent running
      fresh _ forks _
    cases call with
    | fork =>
        refine ⟨trivial, trivial, ?_, ?_⟩
        · intro other signal now
          by_cases isChild : other = child
          · subst isChild
            rw [Function.update_self] at now
            simpa [system, World.clone] using consistent.handler parent signal now
          · have before : installed other signal = true := by
              rw [Function.update_of_ne isChild] at now
              by_cases isParent : other = parent
              · subst isParent
                rwa [Function.update_self] at now
              · rwa [Function.update_of_ne isParent] at now
            simpa [system, World.clone, Function.update_of_ne isChild] using
              consistent.handler other signal before
        · intro other signal
          by_cases isChild : other = child
          · subst isChild
            simpa [system, World.clone] using consistent.mask parent signal
          · simpa [system, World.clone, Function.update_of_ne isChild,
              Ne.symm isChild] using consistent.mask other signal
    | _ => simp [system] at forks
  enter := by
    intro crew installed process label program consistent _ _ piece _
    rcases piece with ⟨stack, piece⟩
    refine ⟨follows_code paths decay piece, ?_, ?_⟩
    · intro other signal now
      rw [Crew.record_state, system, enter_disposition]
      by_cases own : other = process
      · subst own
        rw [Function.update_self] at now
        cases now
      · rw [Function.update_of_ne own] at now
        exact consistent.handler other signal now
    · intro other signal
      rw [Crew.record_state, system, enter_mask]
      exact consistent.mask other signal
  jump := by
    intro crew installed process program label world consistent _ _ jumps _
    refine ⟨fun _ => false, trivial, ?_, ?_⟩
    · intro other signal now
      by_cases own : other = process
      · subst own
        rw [Function.update_self] at now
        cases now
      · rw [Function.update_of_ne own] at now
        have before := consistent.handler other signal now
        cases jumps with
        | caught _ _ _ _ =>
            simpa [World.catch, Function.update_of_ne own] using before
        | exec => simpa [World.exec, Function.update_of_ne own] using before
    · intro other signal
      have before := consistent.mask other signal
      cases jumps with
      | caught _ _ _ _ =>
          by_cases own : other = process
          · subst own
            simp [World.catch, hasCaught]
          · simpa [World.catch, hasCaught, Function.update_of_ne own,
              Ne.symm own] using before
      | exec => exact before
  leave := by
    intro crew installed process program move consistent _ _ cause _
    refine ⟨fun _ => false, ?_, ?_⟩
    · intro other signal now
      by_cases own : other = process
      · subst own
        rw [Function.update_self] at now
        cases now
      · rw [Function.update_of_ne own] at now
        exact consistent.handler other signal now
    · intro other signal
      have before := consistent.mask other signal
      rcases cause with ⟨rfl, _⟩ | rfl
      · exact before
      · exact before
  outside := by
    intro crew installed event consistent _
    refine ⟨?_, ?_⟩
    · intro other signal now
      rw [Crew.record_state, system, World.post_disposition]
      exact consistent.handler other signal now
    · intro other signal
      rw [Crew.record_state, system, World.post_mask]
      exact consistent.mask other signal

variable {store : Store} {labels : Pid → Option Label} {crew : Processes}

theorem begin_simulated :
    Crew.Simulated script (Consistent inherited)
      (begin store inherited labels) fun _ _ => false := by
  refine ⟨⟨?_, ?_⟩, ?_⟩
  · intro process signal impossible
    cases impossible
  · intro process signal
    simp [begin, World.initial, hasCaught]
  · intro process program running
    rcases begin_procs running with ⟨label, _, rfl⟩
    trivial

/-! ## The supervisor that waits -/

/-- `SIGUSR1` and `SIGUSR2` reach the handler of a process. -/
def Controllable (process : Pid) (world : World) : Prop :=
  ∀ signal ∈ ([.SIGUSR1, .SIGUSR2] : List Signal),
    world.mask process signal = false ∧
      world.disposition process signal = .handler

/--
A supervisor that waits for its child can be controlled exactly as long as it
was not started with one of the two signals blocked and has not caught any
signal.
-/
theorem controllable_iff {process : Pid} {pid : Int}
    {next : Except Errno (Int × WaitStatus) → Prog Label}
    (reach : Crew.Reach (system paths decay admits) Crew.Unrestricted
      (begin store inherited labels) crew)
    (waiting : crew.procs process = some (.issue (.waitpid pid) next)) :
    Controllable process crew.state ↔
      hasCaught process crew.log = false ∧
        inherited .SIGUSR1 = false ∧ inherited .SIGUSR2 = false := by
  rcases reach.simulated (preserves paths decay) begin_simulated with
    ⟨installed, consistent, follows⟩
  have allowed := (follows process _ waiting).1
  have usr1 := consistent.handler process .SIGUSR1 allowed.1
  have usr2 := consistent.handler process .SIGUSR2 allowed.2
  simp only [Controllable, List.forall_mem_cons, List.not_mem_nil,
    false_implies, implies_true, and_true, consistent.mask, usr1, usr2,
    Bool.or_eq_false_iff]
  constructor
  · rintro ⟨⟨unblocked, unseen⟩, unblocked', _⟩
    exact ⟨unseen, unblocked, unblocked'⟩
  · rintro ⟨unseen, unblocked, unblocked'⟩
    exact ⟨⟨unblocked, unseen⟩, unblocked', unseen⟩

/-- The first round up to `waitpid`. -/
def firstRound : List Turn :=
  .enter 1 .stopped :: calls 1 8 ++ .fork 1 2 :: calls 1 8

/-- A round after a `SIGHUP` that came to the waiting supervisor. -/
def nextRound : List Turn :=
  .raise 1 .SIGHUP :: .caught 1 .SIGHUP :: .enter 1 .stopped :: calls 1 18 ++
    .enter 1 .stopped :: calls 1 8 ++ .fork 1 3 :: calls 1 8

/-- The first process waits for a child. -/
def atWaitpid (crew : Processes) : Bool :=
  match crew.procs 1 with
  | some (.issue (.waitpid _) _) => true
  | _ => false

theorem waiting_of_atWaitpid (waits : atWaitpid crew = true) :
    ∃ (pid : Int) (next : Except Errno (Int × WaitStatus) → Prog Label),
      crew.procs 1 = some (.issue (.waitpid pid) next) := by
  unfold atWaitpid at waits
  split at waits
  · rename_i pid next running
    exact ⟨pid, next, running⟩
  · cases waits

/-- In the first round the supervisor can be controlled. -/
theorem controllable_iff_first_round :
    ∃ crew : Processes, hasCaught 1 crew.log = false ∧
      Controllable 1 crew.state := by
  have computed : (Daemon.follow .devtmpfs (fun _ => 0) anything firstRound
      supervised).any
        (fun crew => atWaitpid crew && !hasCaught 1 crew.log) = true := by
    decide
  rcases follow_reaches_any .devtmpfs (fun _ => 0) computed with
    ⟨crew, reach, final⟩
  rw [Bool.and_eq_true, Bool.not_eq_true'] at final
  rcases waiting_of_atWaitpid final.1 with ⟨pid, next, waiting⟩
  exact ⟨crew, final.2,
    (controllable_iff .devtmpfs (fun _ => 0) reach waiting).mpr
      ⟨final.2, rfl, rfl⟩⟩

/-- After a `SIGHUP` the supervisor waits for its second child with both
signals blocked. -/
theorem supervisor_blocks_signals :
    ∃ crew : Processes,
      Crew.Reach (system .devtmpfs (fun _ => 0) fun _ => True)
          Crew.Unrestricted supervised crew ∧
        (∃ (pid : Int) (next : Except Errno (Int × WaitStatus) → Prog Label),
          crew.procs 1 = some (.issue (.waitpid pid) next)) ∧
        ¬ Controllable 1 crew.state ∧
        crew.state.mask 1 .SIGUSR1 = true ∧
        crew.state.mask 1 .SIGUSR2 = true := by
  have computed : (Daemon.follow .devtmpfs (fun _ => 0) anything
      (firstRound ++ nextRound) supervised).any
        (fun crew => atWaitpid crew && crew.state.mask 1 .SIGUSR1 &&
          crew.state.mask 1 .SIGUSR2) = true := by
    decide
  rcases follow_reaches_any .devtmpfs (fun _ => 0) computed with
    ⟨crew, reach, final⟩
  rw [Bool.and_eq_true, Bool.and_eq_true] at final
  refine ⟨crew, reach, waiting_of_atWaitpid final.1.1, ?_, final.1.2, final.2⟩
  intro controllable
  have unblocked := (controllable .SIGUSR1 (by simp)).1
  rw [final.1.2] at unblocked
  cases unblocked

end Atomicles.Control
