import Atomicles.Daemon.Calls
import Atomicles.Daemon.Control
import Atomicles.Daemon.Runs

/-!
# The children of one supervisor

A supervisor whose `waitpid` tells that there is no child forks the next one.
One that has caught a signal may do so while its child lives on.
-/

namespace Atomicles.Children

open Interaction Daemon

variable (paths : KeyPaths) (decay : UInt → Nat)

/-- The child that a process has forked last. -/
def lastChild (process : Pid) : List Moves → Option Pid
  | [] => none
  | .fork parent child _ :: earlier =>
      if parent = process then some child else lastChild process earlier
  | _ :: earlier => lastChild process earlier

/-- The supervisor's `fork` succeeds, and where it has caught a signal its
child has ended by then; a child comes to its command without a signal. -/
def Proper (supervisor : Pid) (crew : Processes) : Moves → Prop
  | .call _ ⟨.fork, _⟩ => False
  | .call _ ⟨.execvp, _⟩ => False
  | .fork parent _ _ =>
      Control.hasCaught parent crew.log = true →
        crew.state.children parent = []
  | .jump process (.caught ..) => process = supervisor
  | _ => True

/-! ## The script of a process -/

/-- Where a process is. -/
inductive Stage where
  /-- Before the `fork` of a round. -/
  | arming
  /-- Between `fork` and the write of the child. -/
  | bearing (cpid : Int)
  /-- From there to the answer of `waitpid`. -/
  | watching (cpid : Int)
  /-- `waitpid` has told of a child that lives. -/
  | stuck (cpid : Int)
  /-- `waitpid` has told that there is no child. -/
  | gone (cpid : Int)
  /-- After that, or after a signal. -/
  | ending
  /-- A child. -/
  | born
deriving DecidableEq

namespace Stage

/-- The supervisor has nothing to look after. -/
def Settled (stage : Stage) : Prop :=
  stage = .arming ∨ stage = .ending

/-- The child that the supervisor has to look after. -/
def cpid : Stage → Option Int
  | .bearing cpid => some cpid
  | .watching cpid => some cpid
  | .stuck cpid => some cpid
  | .gone cpid => some cpid
  | _ => none

/-- The word for the child has been written. -/
def Named (stage : Stage) (cpid : Int) : Prop :=
  stage = .watching cpid ∨ stage = .stuck cpid ∨ stage = .gone cpid

/-- The supervisor has no child, unless it has caught a signal. -/
def Alone (stage : Stage) : Prop :=
  stage.Settled ∨ ∃ cpid, stage = .gone cpid

/-- A stage after a store. -/
def stored : Stage → Stage
  | .bearing cpid => .watching cpid
  | stage => stage

/-- A stage after `waitpid`. -/
def told (lives : Bool) : Stage → Stage
  | .watching cpid => if lives then .stuck cpid else .gone cpid
  | stage => stage

/-- A stage after `time`. -/
def passed : Stage → Stage
  | .gone _ => .ending
  | stage => stage

end Stage

/-- A process stores the child it has forked, and then waits for it; a child
touches nothing but the count. -/
def script (addr : Addr) : Script signature Stage Label where
  allow stage call :=
    match call with
    | .fork => stage = .arming
    | .waitpid pid => stage = .watching pid
    | .execvp => stage = .born
    | .store target offset value =>
        stage.Settled ∨
          (∃ cpid, stage = .bearing cpid ∧ target = addr ∧
            offset = OFFSET_CPID.toNat ∧ value = BitVec.ofInt 32 cpid) ∨
          ((∃ cpid, stage = .watching cpid) ∨ stage = .born) ∧
            offset ≠ OFFSET_CPID.toNat
    | .memset .. => stage.Settled
    | .shmdt _ => stage.Settled
    | .shmget .. => False
    | .vsnprintf .. => False
    | .interruptible _ => False
    | _ => True
  answer _ call answer :=
    match call, answer with
    | .fork, (pid : Int) => 0 ≤ pid
    | .execvp, _ => False
    | .waitpid _, (outcome : Except Errno (Int × WaitStatus)) =>
        ∀ status, outcome = .ok status → statusEnds status.2 = false
    | _, _ => True
  next stage call answer :=
    match call, answer with
    | .fork, (pid : Int) => if pid = 0 then .born else .bearing pid
    | .store .., (done : Option Unit) =>
        match done with
        | some () => stage.stored
        | none => stage
    | .waitpid _, (outcome : Except Errno (Int × WaitStatus)) =>
        match outcome with
        | .ok _ => stage.told true
        | .error _ => stage.told false
    | .time, _ => stage.passed
    | _, _ => stage
  stops stage label :=
    match label with
    | .round locals => stage = .ending ∧ locals.shmem.addr = addr
    | .caught _ locals => stage = .ending ∧ locals.shmem.addr = addr
    | .returned _ => stage = .ending
    | .spinning _ => ∃ cpid, stage = .stuck cpid ∨ stage = .gone cpid
    | .command => stage = .born
    | .main .. => False
    | .ended _ => stage = .ending
  resume stage label :=
    match label with
    | .round _ => .arming
    | _ => stage

section Code

variable {addr : Addr}

theorem transparent : Transparent (script addr).toProtocol where
  allow _ call locks := by
    cases call <;> trivial
  next _ call _ locks := by
    cases call <;> first | rfl | exact locks.elim

/-- A program that a settled supervisor may run at any place. -/
def Calms (addr : Addr) (Value : Type) (program : Prog Value) : Prop :=
  ∀ stage : Stage, stage.Settled →
    program.Conforms (script addr).toProtocol stage fun after _ =>
      after = stage

/-- The calls that need no preparation. -/
def Free : Call → Prop
  | .fork => False
  | .waitpid _ => False
  | .execvp => False
  | .shmget .. => False
  | .vsnprintf .. => False
  | .interruptible _ => False
  | _ => True

theorem free_removes (call : Call) (removes : call.removes = true) :
    Free call := by
  cases call <;> trivial

theorem calms : Compositional Free (fun _ _ => True) (Calms addr) where
  calm call calm := by
    cases call <;> trivial
  value _ _ _ := rfl
  bind := by
    intro Value Result program continuation first second stage settled
    apply (first stage settled).bind
    rintro _ value rfl
    exact second value _ settled
  issue := by
    intro Value call next free rest stage settled
    have stays : ∀ answer, (script addr).next stage call answer = stage := by
      intro answer
      cases call with
      | store target offset value =>
          rcases settled with rfl | rfl
          · cases answer <;> rfl
          · cases answer <;> rfl
      | time =>
          rcases settled with rfl | rfl
          · rfl
          · rfl
      | fork => exact free.elim
      | waitpid => exact free.elim
      | _ => rfl
    have allowed : (script addr).allow stage call := by
      cases call with
      | store => exact Or.inl settled
      | memset => exact settled
      | shmdt => exact settled
      | fork => exact free.elim
      | waitpid => exact free.elim
      | execvp => exact free.elim
      | _ => trivial
    refine ⟨allowed, ?_⟩
    intro answer _
    rw [stays]
    exact rest answer stage settled
  read := by
    intro this offset stage settled
    rw [← bind_pure (this.readUint offset)]
    exact Transparent.read transparent trivial fun word _ => rfl
  write := by
    intro this offset n _ stage settled
    rw [← bind_pure (this.writeUint offset n)]
    apply Transparent.write transparent (Or.inl settled)
    intro _
    rcases settled with rfl | rfl
    · rfl
    · rfl

theorem Calms.follows_bind {Value : Type} {program : Prog Value}
    {continuation : Value → Prog Label} {stage : Stage}
    (calms : Calms addr Value program) (settled : stage.Settled)
    (rest : ∀ value, (script addr).Follows stage (continuation value)) :
    (script addr).Follows stage (program >>= continuation) := by
  apply (calms stage settled).bind
  rintro _ value rfl
  exact rest value

/-- `endRound` comes back to the loop with the handle it has. -/
theorem follows_endRound (locals : Locals)
    (isAddr : locals.shmem.addr = addr) :
    (script addr).Follows .ending (endRound decay locals) := by
  apply (Compositional.active calms _).follows_bind (Or.inr rfl)
  intro _
  apply (Compositional.active calms _).follows_bind (Or.inr rfl)
  intro isActive
  split
  · apply (Compositional.cleanup calms _ (fun _ => trivial)
      free_removes).follows_bind (Or.inr rfl)
    intro _
    exact Transparent.dies transparent
  · rw [sleep_bind]
    refine ⟨trivial, fun _ _ => ?_⟩
    apply (Compositional.active calms _).follows_bind (Or.inr rfl)
    intro stillActive
    split
    · exact ⟨rfl, isAddr⟩
    · exact rfl

/-- Nothing comes after `die`. -/
theorem follows_die (shmem : SharedMemory) :
    (script addr).Follows .ending (Daemon.die (some shmem)) := by
  rw [die_eq (some shmem) (.ended 0)]
  apply (Compositional.die calms _ (fun _ => trivial)
    free_removes).follows_bind
    (Or.inr rfl)
  intro _
  exact rfl

theorem follows_caught (signal : Signal) (locals : Locals)
    (isAddr : locals.shmem.addr = addr) :
    (script addr).Follows .ending (caught decay signal locals) := by
  unfold caught
  dsimp only
  split
  · apply (Compositional.getWord calms _ _).follows_bind (Or.inr rfl)
    intro cpid
    apply (Compositional.kill calms trivial).follows_bind (Or.inr rfl)
    intro _
    exact follows_die locals.shmem
  · split
    · exact follows_die locals.shmem
    · apply (Compositional.getWord calms _ _).follows_bind (Or.inr rfl)
      intro cpid
      apply (Compositional.kill calms trivial).follows_bind (Or.inr rfl)
      intro _
      exact follows_endRound decay locals isAddr

/-- A child comes to `execvp`, which does not return. -/
theorem follows_child (shmem : SharedMemory) :
    (script addr).Follows .born (child shmem) := by
  unfold child
  simp only [incCount, getCount, bind_assoc, getWord_bind]
  apply Transparent.read transparent trivial
  intro count _
  apply Transparent.write transparent
  · exact Or.inr (Or.inr ⟨Or.inr rfl, by decide⟩)
  · intro _
    apply Transparent.read transparent trivial
    intro counted _
    rw [execvp_bind]
    exact ⟨rfl, fun _ impossible => impossible.elim⟩

/-- A round brings up one child, and names it before the supervisor waits. -/
theorem follows_round (stack : WaitStatus) (locals : Locals)
    (isAddr : locals.shmem.addr = addr) :
    (script addr).Follows .arming (round decay stack locals) := by
  rw [round_eq]
  have installs : Calms addr Unit (installHandlers locals.shmem signals) :=
    Compositional.installHandlers calms (fun _ => trivial) free_removes _ _
      fun _ => trivial
  apply installs.follows_bind (Or.inl rfl)
  intro _
  refine ⟨trivial, fun _ _ => ⟨rfl, ?_⟩⟩
  intro (cpid : Int) natural
  show (script addr).Follows (if cpid = 0 then .born else .bearing cpid) _
  dsimp only
  by_cases isChild : cpid = 0
  · rw [if_pos isChild, if_pos isChild]
    exact follows_child locals.shmem
  · rw [if_neg isChild, if_neg isChild]
    apply Transparent.write transparent
    · exact Or.inr (Or.inl ⟨cpid, rfl, isAddr, rfl, rfl⟩)
    · intro _
      apply Transparent.write transparent
      · exact Or.inr (Or.inr ⟨Or.inl ⟨cpid, rfl⟩, by decide⟩)
      · intro _
        refine ⟨rfl, ?_⟩
        intro (outcome : Except Errno (Int × WaitStatus)) relied
        dsimp only
        cases outcome with
        | ok status =>
            have lives : statusEnds status.2 = false := relied status rfl
            have goesOn : statusEnds
                (((.ok status : Except Errno (Int × WaitStatus)).toOption.map
                  Prod.snd).getD stack) = false := lives
            rw [goesOn]
            exact ⟨cpid, Or.inl rfl⟩
        | error errno =>
            split
            · refine ⟨trivial, fun _ _ => ?_⟩
              exact follows_endRound decay _ isAddr
            · exact ⟨cpid, Or.inr rfl⟩

theorem follows_code {stage : Stage} {stack : WaitStatus} {label : Label}
    {program : Prog Label} (stops : (script addr).stops stage label)
    (piece : code paths decay stack label = some program) :
    (script addr).Follows ((script addr).resume stage label) program := by
  cases label with
  | main action key => exact stops.elim
  | round locals =>
      cases piece
      exact follows_round decay stack locals stops.2
  | caught signal locals =>
      cases piece
      rcases stops with ⟨rfl, isAddr⟩
      exact follows_caught decay signal locals isAddr
  | returned locals =>
      cases piece
      cases stops
      apply (Compositional.poll calms _ _ _ _).follows_bind (Or.inr rfl)
      rintro ⟨pid, cpid⟩
      apply (Compositional.daemonstr calms _ _).follows_bind (Or.inr rfl)
      intro _
      exact rfl
  | _ => cases piece

end Code

/-! ## The invariant -/

section Stages

variable {stage : Stage} {cpid : Int}

theorem Stage.stored_cpid : stage.stored.cpid = stage.cpid := by
  cases stage <;> rfl

theorem Stage.passed_cpid (names : stage.passed.cpid = some cpid) :
    stage.cpid = some cpid := by
  cases stage with
  | gone pid => cases names
  | _ => exact names

theorem Stage.stored_alone (alone : stage.stored.Alone) : stage.Alone := by
  cases stage with
  | bearing pid => simp [stored, Alone, Settled] at alone
  | _ => exact alone

theorem Stage.passed_alone (alone : stage.passed.Alone) : stage.Alone := by
  cases stage with
  | gone pid => exact Or.inr ⟨pid, rfl⟩
  | _ => exact alone

theorem Stage.stored_named (named : stage.stored.Named cpid) :
    stage = .bearing cpid ∨ stage.Named cpid := by
  cases stage with
  | bearing pid =>
      left
      simpa [stored, Named] using named
  | _ => exact Or.inr named

theorem Stage.passed_named (named : stage.passed.Named cpid) :
    stage.Named cpid := by
  cases stage with
  | gone pid => simp [passed, Named] at named
  | _ => exact named

theorem Stage.stored_born (born : stage.stored = .born) : stage = .born := by
  cases stage with
  | bearing pid => cases born
  | _ => exact born

theorem Stage.passed_born (born : stage.passed = .born) : stage = .born := by
  cases stage with
  | gone pid => cases born
  | _ => exact born

theorem Stage.not_settled_of_named (named : stage.Named cpid) :
    ¬ stage.Settled := by
  rintro (rfl | rfl) <;> simp [Named] at named

end Stages

variable {supervisor : Pid} {addr : Addr}

/-- What the supervisor knows about the other processes and the word. -/
structure Sound (supervisor : Pid) (addr : Addr) (crew : Processes)
    (stages : Pid → Stage) : Prop where
  parent : crew.procs supervisor ≠ none → stages supervisor ≠ .born
  others : ∀ process, process ≠ supervisor → crew.procs process ≠ none →
    stages process = .born
  single : ∀ first second, first ≠ supervisor → second ≠ supervisor →
    crew.procs first ≠ none → crew.procs second ≠ none → first = second
  children : crew.procs supervisor ≠ none → ∀ process,
    process ≠ supervisor → crew.procs process ≠ none →
      process ∈ crew.state.children supervisor
  last : ∀ cpid, (stages supervisor).cpid = some cpid →
    ∃ child, lastChild supervisor crew.log = some child ∧ cpid = child ∧
      ∀ process, process ≠ supervisor → crew.procs process ≠ none →
        process = child
  named : ∀ cpid, (stages supervisor).Named cpid →
    Maps crew.state.store supervisor addr ∧
      wordAt crew.state.store addr OFFSET_CPID.toNat =
        some (BitVec.ofInt 32 cpid)
  alone : (stages supervisor).Alone →
    Control.hasCaught supervisor crew.log = false → ∀ process,
      process ≠ supervisor → crew.procs process = none
  buffer : ∀ saved, crew.state.buffer supervisor = some saved →
    saved.shmem.addr = addr

variable {admits : Choice → Prop}

section Call

variable {crew : Processes} {stages : Pid → Stage} {process : Pid}
variable {call : Call} {answer : call.Answer} {world : World}

/-- A call after which the supervisor still knows the word. -/
theorem named_kept {stage : Stage} {cpid : Int}
    (allowed : (script addr).allow stage call)
    (quiet : stage.Named cpid ∨ stage = .born)
    (exec : (system paths decay admits).exec process call crew.state answer
      world)
    (known : Maps crew.state.store supervisor addr ∧
      wordAt crew.state.store addr OFFSET_CPID.toNat =
        some (BitVec.ofInt 32 cpid)) :
    Maps world.store supervisor addr ∧
      wordAt world.store addr OFFSET_CPID.toNat =
        some (BitVec.ofInt 32 cpid) := by
  have unsettled : ¬ stage.Settled := by
    rcases quiet with named | rfl
    · exact Stage.not_settled_of_named named
    · simp [Stage.Settled]
  have borne : ∀ pid, stage ≠ .bearing pid := by
    rintro pid rfl
    simp [Stage.Named] at quiet
  have words : call.writesBytes = false := by
    cases call <;> first | rfl | exact allowed.elim
  have maps : Maps world.store supervisor addr := by
    apply call_maps paths decay words _ _ exec known.1
    · rintro key size excl rfl
      exact allowed
    · rintro target rfl
      exact absurd allowed unsettled
  refine ⟨maps, ?_⟩
  rcases maps.word OFFSET_CPID.toNat with ⟨word, found⟩
  rcases call_word paths decay words exec found with
    before | ⟨key, size, excl, rfl, _⟩ | rfl | ⟨n, rfl, _⟩
  · rw [found, ← before, known.2]
  · exact allowed.elim
  · rcases allowed with settled | ⟨pid, bears, _⟩ | ⟨_, elsewhere⟩
    · exact absurd settled unsettled
    · exact absurd bears (borne pid)
    · exact absurd rfl elsewhere
  · exact absurd allowed unsettled

end Call

/-- A move of one process, after which that process is at a certain stage. -/
theorem Sound.moved {crew : Processes} {stages : Pid → Stage} {process : Pid}
    {world : World} {move : Moves} {next : Option (Prog Label)} {stage : Stage}
    (sound : Sound supervisor addr crew stages)
    (running : crew.procs process ≠ none)
    (last : lastChild supervisor (move :: crew.log) =
      lastChild supervisor crew.log)
    (seen : Control.hasCaught supervisor (move :: crew.log) = false →
      Control.hasCaught supervisor crew.log = false)
    (children : (process = supervisor → next ≠ none) → ∀ other,
      (other = process → next ≠ none) →
        other ∈ crew.state.children supervisor →
          other ∈ world.children supervisor)
    (buffer : ∀ saved, world.buffer supervisor = some saved →
      saved.shmem.addr = addr)
    (own : process = supervisor → (next ≠ none → stage ≠ .born) ∧
      (∀ cpid, stage.cpid = some cpid →
        (stages supervisor).cpid = some cpid) ∧
      (stage.Alone →
        Control.hasCaught supervisor (move :: crew.log) = false →
          ∀ other, other ≠ supervisor → crew.procs other = none))
    (other : process ≠ supervisor → next ≠ none → stage = .born)
    (named : ∀ cpid,
      (Function.update stages process stage supervisor).Named cpid →
        Maps world.store supervisor addr ∧
          wordAt world.store addr OFFSET_CPID.toNat =
            some (BitVec.ofInt 32 cpid)) :
    Sound supervisor addr
      (crew.record move world (Function.update crew.procs process next))
      (Function.update stages process stage) := by
  have live : ∀ actor, Function.update crew.procs process next actor ≠ none →
      crew.procs actor ≠ none ∧ (actor = process → next ≠ none) := by
    intro actor lives
    by_cases same : actor = process
    · rw [same, Function.update_self] at lives
      exact ⟨same ▸ running, fun _ => lives⟩
    · rw [Function.update_of_ne same] at lives
      exact ⟨lives, fun impossible => absurd impossible same⟩
  constructor
  · intro lives
    by_cases same : process = supervisor
    · rw [← same, Function.update_self]
      exact (own same).1 ((live _ lives).2 same.symm)
    · rw [Function.update_of_ne (Ne.symm same)]
      exact sound.parent (live _ lives).1
  · intro actor different lives
    by_cases same : actor = process
    · rw [same, Function.update_self]
      exact other (same ▸ different) ((live _ lives).2 same)
    · rw [Function.update_of_ne same]
      exact sound.others actor different (live _ lives).1
  · intro first second different different' lives lives'
    exact sound.single first second different different' (live _ lives).1
      (live _ lives').1
  · intro lives actor different lives'
    apply children (fun same => (live _ lives).2 same.symm) actor
      (live _ lives').2
    exact sound.children (live _ lives).1 actor different (live _ lives').1
  · intro cpid names
    have before : (stages supervisor).cpid = some cpid := by
      by_cases same : process = supervisor
      · rw [← same, Function.update_self] at names
        exact (own same).2.1 cpid names
      · rwa [Function.update_of_ne (Ne.symm same)] at names
    rcases sound.last cpid before with ⟨child, isLast, isChild, only⟩
    exact ⟨child, last.trans isLast, isChild, fun actor different lives =>
      only actor different (live _ lives).1⟩
  · exact named
  · intro alone unseen actor different
    by_contra lives
    apply (live _ lives).1
    by_cases same : process = supervisor
    · rw [← same, Function.update_self] at alone
      exact (own same).2.2 alone unseen actor different
    · rw [Function.update_of_ne (Ne.symm same)] at alone
      exact sound.alone alone (seen unseen) actor different
  · exact buffer

/-- A child stays one. -/
theorem next_born {call : Call} {answer : call.Answer}
    (allowed : (script addr).allow .born call) :
    (script addr).next .born call answer = .born := by
  cases call with
  | fork => cases allowed
  | waitpid pid => cases allowed
  | store target offset value => cases answer <;> rfl
  | _ => rfl

/-- The supervisor after a call of its own other than `fork`. -/
theorem own_next {crew : Processes} {stages : Pid → Stage} {call : Call}
    {answer : call.Answer} {world : World}
    (sound : Sound supervisor addr crew stages)
    (alive : crew.procs supervisor ≠ none) (known : call ≠ .fork)
    (allowed : (script addr).allow (stages supervisor) call)
    (exec : (system paths decay admits).exec supervisor call crew.state answer
      world) :
    (script addr).next (stages supervisor) call answer ≠ .born ∧
      (∀ cpid,
        ((script addr).next (stages supervisor) call answer).cpid =
          some cpid → (stages supervisor).cpid = some cpid) ∧
      (((script addr).next (stages supervisor) call answer).Alone →
        Control.hasCaught supervisor crew.log = false →
          ∀ other, other ≠ supervisor → crew.procs other = none) ∧
      ∀ cpid,
        ((script addr).next (stages supervisor) call answer).Named cpid →
          Maps world.store supervisor addr ∧
            wordAt world.store addr OFFSET_CPID.toNat =
              some (BitVec.ofInt 32 cpid) := by
  have parent := sound.parent alive
  have kept : ∀ cpid, (stages supervisor).Named cpid →
      Maps world.store supervisor addr ∧
        wordAt world.store addr OFFSET_CPID.toNat =
          some (BitVec.ofInt 32 cpid) := by
    intro cpid named
    exact named_kept paths decay allowed (Or.inl named) exec
      (sound.named cpid named)
  generalize isStage : stages supervisor = stage at *
  cases call with
  | fork => exact absurd rfl known
  | time =>
      exact ⟨fun born => parent (Stage.passed_born born),
        fun _ => Stage.passed_cpid,
        fun alone => sound.alone (isStage ▸ Stage.passed_alone alone),
        fun cpid named => kept cpid (Stage.passed_named named)⟩
  | store target offset value =>
      cases (answer : Option Unit) with
      | none =>
          exact ⟨parent, fun _ names => names,
            fun alone => sound.alone (isStage ▸ alone), kept⟩
      | some success =>
          refine ⟨fun born => parent (Stage.stored_born born), ?_,
            fun alone => sound.alone (isStage ▸ Stage.stored_alone alone), ?_⟩
          · intro cpid names
            rwa [← Stage.stored_cpid]
          · intro cpid named
            rcases Stage.stored_named named with rfl | before
            · rcases allowed with settled | ⟨pid, bears, rfl, rfl, rfl⟩ |
                ⟨⟨pid, impossible⟩ | impossible, _⟩
              · simp [Stage.Settled] at settled
              · cases bears
                exact call_stored paths decay exec
              · cases impossible
              · cases impossible
            · exact kept cpid before
  | waitpid pid =>
      have waits : stage = .watching pid := allowed
      subst waits
      have told := call_waitpid paths decay exec
      rcases sound.last pid (by rw [isStage]; rfl) with
        ⟨child, _, isChild, only⟩
      have named : ∀ cpid, some pid = some cpid →
          Maps world.store supervisor addr ∧
            wordAt world.store addr OFFSET_CPID.toNat =
              some (BitVec.ofInt 32 cpid) := by
        rintro cpid ⟨⟩
        exact kept pid (Or.inl rfl)
      rcases told.2 with ⟨rfl, nobody⟩ | ⟨status, rfl, _⟩
      · have isNext : (script addr).next (.watching pid) (.waitpid pid)
            (.error .ECHILD : Except Errno (Int × WaitStatus)) =
              .gone pid := rfl
        rw [isNext]
        refine ⟨by simp, fun _ names => names, ?_, ?_⟩
        · intro _ _ other different
          by_contra lives
          have isOther : other = child := only other different lives
          have listed := sound.children alive other different lives
          rw [isOther] at listed
          have waited : child ∈ crew.state.awaited supervisor pid := by
            simp [World.awaited, listed, isChild]
          rw [nobody] at waited
          cases waited
        · rintro cpid (impossible | impossible | same)
          · cases impossible
          · cases impossible
          · cases same
            exact named pid rfl
      · have isNext : (script addr).next (.watching pid) (.waitpid pid)
            (.ok status : Except Errno (Int × WaitStatus)) =
              .stuck pid := rfl
        rw [isNext]
        refine ⟨by simp, fun _ names => names, ?_, ?_⟩
        · rintro ((impossible | impossible) | ⟨_, impossible⟩)
          · cases impossible
          · cases impossible
          · cases impossible
        · rintro cpid (impossible | same | impossible)
          · cases impossible
          · cases same
            exact named pid rfl
          · cases impossible
  | _ =>
      exact ⟨parent, fun _ names => names,
        fun alone => sound.alone (isStage ▸ alone), kept⟩

/-- After a `fork` the supervisor has one child. -/
theorem sound_fork {crew : Processes} {stages : Pid → Stage} {child : Pid}
    {call : Call} {here there : Option (Prog Label)}
    (sound : Sound supervisor addr crew stages)
    (alive : crew.procs supervisor ≠ none) (fresh : crew.procs child = none)
    (nobody : ∀ other, other ≠ supervisor → crew.procs other = none) :
    Sound supervisor addr
      (crew.record (.fork supervisor child call)
        (crew.state.clone supervisor child)
        (Function.update (Function.update crew.procs supervisor here) child
          there))
      (Function.update
        (Function.update stages supervisor (.bearing (child : Int))) child
          .born) := by
  have different : supervisor ≠ child := by
    rintro rfl
    exact alive fresh
  have only : ∀ other, other ≠ supervisor →
      Function.update (Function.update crew.procs supervisor here) child there
        other ≠ none → other = child := by
    intro other isOther lives
    by_contra isNot
    apply lives
    rw [Function.update_of_ne isNot, Function.update_of_ne isOther]
    exact nobody other isOther
  have stage : Function.update
      (Function.update stages supervisor (.bearing (child : Int))) child
        .born supervisor = .bearing (child : Int) := by
    rw [Function.update_of_ne different, Function.update_self]
  constructor
  · intro _
    rw [stage]
    simp
  · intro other isOther lives
    rw [only other isOther lives, Function.update_self]
  · intro first second isFirst isSecond lives lives'
    rw [only first isFirst lives, only second isSecond lives']
  · intro _ other isOther lives
    rw [only other isOther lives]
    simp [World.clone]
  · intro cpid names
    rw [stage] at names
    cases names
    exact ⟨child, by simp [lastChild], rfl, only⟩
  · intro cpid named
    rw [stage] at named
    simp [Stage.Named] at named
  · intro alone
    rw [stage] at alone
    simp [Stage.Alone, Stage.Settled] at alone
  · intro saved isSaved
    apply sound.buffer saved
    simpa [World.clone, Function.update_of_ne different] using isSaved

/-! ## The other moves -/

section Moves

variable {crew : Processes} {stages : Pid → Stage} {process : Pid}
variable (sound : Sound supervisor addr crew stages)
variable (alive : crew.procs process ≠ none)

include sound alive

/-- A call that is no `fork`. -/
theorem Sound.called {call : Call} {answer : call.Answer} {world : World}
    {next : Prog Label} (known : call ≠ .fork)
    (allowed : (script addr).allow (stages process) call)
    (exec : (system paths decay admits).exec process call crew.state answer
      world) :
    Sound supervisor addr
      (crew.record (.call process ⟨call, answer⟩) world
        (Function.update crew.procs process (some next)))
      (Function.update stages process
        ((script addr).next (stages process) call answer)) := by
  apply sound.moved alive rfl id
  · intro _ other _ listed
    rwa [call_children paths decay exec]
  · rw [call_buffer paths decay exec]
    exact sound.buffer
  · rintro rfl
    have own := own_next paths decay sound alive known allowed exec
    exact ⟨fun _ => own.1, own.2.1, own.2.2.1⟩
  · intro different _
    rw [sound.others process different alive] at allowed ⊢
    exact next_born allowed
  · intro cpid named
    by_cases same : process = supervisor
    · subst same
      rw [Function.update_self] at named
      exact (own_next paths decay sound alive known allowed
        exec).2.2.2 cpid named
    · rw [Function.update_of_ne (Ne.symm same)] at named
      rw [sound.others process same alive] at allowed
      exact named_kept paths decay allowed (Or.inr rfl) exec
        (sound.named cpid named)

/-- Only the supervisor goes on from a label. -/
theorem Sound.enters {stack : WaitStatus} {label : Label}
    {program : Prog Label}
    (stops : (script addr).stops (stages process) label)
    (piece : Daemon.code paths decay stack label = some program) :
    process = supervisor := by
  by_contra different
  rw [sound.others process different alive] at stops
  cases label with
  | round locals => cases stops.1
  | caught signal locals => cases stops.1
  | main action key => exact stops
  | returned locals => cases stops
  | _ => cases piece

/-- The supervisor goes on from a label. -/
theorem Sound.entered {label : Label} {program : Prog Label}
    (same : process = supervisor)
    (stops : (script addr).stops (stages process) label) :
    Sound supervisor addr
      (crew.record (.enter process label)
        ((system paths decay admits).enter process label crew.state)
        (Function.update crew.procs process (some program)))
      (Function.update stages process
        ((script addr).resume (stages process) label)) := by
  subst same
  apply sound.moved alive rfl id
  · intro _ other _ listed
    cases label <;> exact listed
  · cases label with
    | round locals =>
        intro saved isSaved
        have same : locals = saved := by
          simpa [system, Daemon.enter] using isSaved
        rw [← same]
        exact stops.2
    | returned locals =>
        intro saved isSaved
        simp [system, Daemon.enter] at isSaved
    | _ => exact sound.buffer
  · intro _
    cases label with
    | round locals =>
        have alone : (stages process).Alone := Or.inl (Or.inr stops.1)
        exact ⟨by simp [script], by simp [script, Stage.cpid],
          fun _ => sound.alone alone⟩
    | _ =>
        exact ⟨fun _ => sound.parent alive, fun _ names => names,
          sound.alone⟩
  · intro different
    exact absurd rfl different
  · intro cpid named
    rw [Function.update_self] at named
    have before : (stages process).Named cpid := by
      cases label with
      | round locals => rcases named with named | named | named <;> cases named
      | _ => exact named
    rw [system, enter_store]
    exact sound.named cpid before

/-- The supervisor catches a signal, and ends its round. -/
theorem Sound.caught {signal : Signal} {locals : Locals}
    (same : process = supervisor) :
    Sound supervisor addr
      (crew.record (.jump process (.caught signal locals))
        (crew.state.catch process signal)
        (Function.update crew.procs process
          (some (.done (.caught signal locals)))))
      (Function.update stages process .ending) := by
  subst same
  apply sound.moved alive rfl
  · simp [Control.hasCaught]
  · intro _ other _ listed
    exact listed
  · exact sound.buffer
  · intro _
    refine ⟨by simp, by simp [Stage.cpid], ?_⟩
    simp [Control.hasCaught]
  · intro different
    exact absurd rfl different
  · intro cpid named
    rw [Function.update_self] at named
    rcases named with named | named | named <;> cases named

/-- A child runs its command. -/
theorem Sound.execed (isBorn : stages process = .born) :
    Sound supervisor addr
      (crew.record (.jump process .command) (crew.state.exec process)
        (Function.update crew.procs process (some (.done .command))))
      (Function.update stages process .born) := by
  have different : process ≠ supervisor := by
    rintro rfl
    exact sound.parent alive isBorn
  apply sound.moved alive rfl id
  · intro _ other _ listed
    exact listed
  · intro saved isSaved
    apply sound.buffer saved
    simpa [World.exec, Function.update_of_ne (Ne.symm different)] using
      isSaved
  · intro same
    exact absurd same different
  · intro _ _
    rfl
  · intro cpid named
    rw [Function.update_of_ne (Ne.symm different)] at named
    have known := sound.named cpid named
    have maps : Maps (crew.state.exec process).store supervisor addr :=
      filter_maps (Ne.symm different) known.1 rfl
    refine ⟨maps, ?_⟩
    rcases maps.word OFFSET_CPID.toNat with ⟨word, found⟩
    rw [found, ← Daemon.exec_word found, known.2]

/-- A process goes, and is nobody's child any more. -/
theorem Sound.left {move : Moves}
    (cause : move = .leave process ∨ move = .kill process) :
    Sound supervisor addr
      (crew.record move (crew.state.leave process)
        (Function.update crew.procs process none))
      (Function.update stages process .born) := by
  have silent : lastChild supervisor (move :: crew.log) =
      lastChild supervisor crew.log ∧
        Control.hasCaught supervisor (move :: crew.log) =
          Control.hasCaught supervisor crew.log := by
    rcases cause with rfl | rfl
    · exact ⟨rfl, rfl⟩
    · exact ⟨rfl, rfl⟩
  apply sound.moved alive silent.1
  · rw [silent.2]
    exact id
  · intro parent other child listed
    have different : process ≠ supervisor := by
      intro same
      exact parent same rfl
    have remains : other ≠ process := by
      intro same
      exact child same rfl
    simp [World.leave, Function.update_of_ne (Ne.symm different),
      listed, remains]
  · intro saved isSaved
    by_cases same : process = supervisor
    · rw [same] at isSaved
      simp [World.leave] at isSaved
    · apply sound.buffer saved
      simpa [World.leave, Function.update_of_ne (Ne.symm same)] using isSaved
  · intro _
    refine ⟨fun impossible => absurd rfl impossible,
      by simp [Stage.cpid], ?_⟩
    intro alone
    rcases alone with (impossible | impossible) | ⟨_, impossible⟩
    · cases impossible
    · cases impossible
    · cases impossible
  · intro _ impossible
    exact absurd rfl impossible
  · intro cpid named
    by_cases same : process = supervisor
    · rw [same, Function.update_self] at named
      rcases named with named | named | named <;> cases named
    · rw [Function.update_of_ne (Ne.symm same)] at named
      have known := sound.named cpid named
      have maps : Maps (crew.state.leave process).store supervisor addr :=
        leave_maps (Ne.symm same) known.1
      refine ⟨maps, ?_⟩
      rcases maps.word OFFSET_CPID.toNat with ⟨word, found⟩
      have before := Store.leave_word found
      show wordAt (crew.state.leave process).store addr _ = _
      rw [found, ← before, known.2]

omit alive in
/-- What happens outside moves neither words nor children. -/
theorem Sound.disturbed {event : Raise} :
    Sound supervisor addr
      (crew.record (.outside event)
        ((system paths decay admits).disturb event crew.state) crew.procs)
      stages := by
  have state : ((system paths decay admits).disturb event
      crew.state).store = crew.state.store := World.post_store
  refine ⟨sound.parent, sound.others, sound.single, ?_, sound.last, ?_,
    sound.alone, ?_⟩
  · intro lives process different lives'
    rw [Crew.record_state, system, World.post_children]
    exact sound.children lives process different lives'
  · intro cpid named
    rw [Crew.record_state, state]
    exact sound.named cpid named
  · rw [Crew.record_state, system, World.post_buffer]
    exact sound.buffer

omit alive in
/-- The supervisor forks when it is alone. -/
theorem Sound.forks_alone (arming : stages supervisor = .arming)
    (reaped : Control.hasCaught supervisor crew.log = true →
      crew.state.children supervisor = [])
    (alive : crew.procs supervisor ≠ none) (other : Pid)
    (isOther : other ≠ supervisor) : crew.procs other = none := by
  cases seen : Control.hasCaught supervisor crew.log with
  | false =>
      apply sound.alone _ seen other isOther
      exact Or.inl (Or.inl arming)
  | true =>
      by_contra lives
      have listed := sound.children alive other isOther lives
      rw [reaped seen] at listed
      cases listed

end Moves

theorem preserves :
    Crew.Preserves (system paths decay admits) (Proper supervisor)
      (script addr) (Sound supervisor addr) where
  call := by
    intro crew stages process call next answer world sound running allowed exec
      proper
    have known : call ≠ .fork := by
      rintro rfl
      exact proper
    have alive : crew.procs process ≠ none := by simp [running]
    refine ⟨?_, sound.called paths decay alive known allowed exec⟩
    cases call with
    | fork => exact absurd rfl known
    | execvp => exact proper
    | waitpid pid =>
        rintro status rfl
        rcases (call_waitpid paths decay exec).2 with
          ⟨impossible, _⟩ | ⟨told, same, lives⟩
        · cases impossible
        · cases same
          exact lives
    | _ => trivial
  fork := by
    intro crew stages parent child call next here there sound running fresh
      allowed forks proper
    cases call with
    | fork =>
        simp only [system] at forks
        split at forks
        · rename_i range
          cases forks
          have alive : crew.procs parent ≠ none := by simp [running]
          have arming : stages parent = .arming := allowed
          have same : parent = supervisor := by
            by_contra different
            rw [sound.others parent different alive] at arming
            cases arming
          subst same
          have nobody := sound.forks_alone arming proper alive
          have bears : (script addr).next (stages parent) .fork (child : Int) =
              .bearing (child : Int) := by
            apply if_neg
            exact_mod_cast Nat.pos_iff_ne_zero.mp range.1
          have isBorn : (script addr).next (stages parent) .fork (0 : Int) =
              .born := rfl
          refine ⟨Int.natCast_nonneg child, Int.le_refl 0, ?_⟩
          rw [bears, isBorn]
          exact sound_fork sound alive fresh nobody
        · cases forks
    | _ => simp [system] at forks
  enter := by
    intro crew stages process label program sound running stops piece _
    rcases piece with ⟨stack, piece⟩
    have alive : crew.procs process ≠ none := by simp [running]
    have same := sound.enters paths decay alive stops piece
    exact ⟨follows_code paths decay stops piece,
      sound.entered paths decay alive same stops⟩
  jump := by
    intro crew stages process program label world sound running follows jumps
      proper
    have alive : crew.procs process ≠ none := by simp [running]
    cases jumps with
    | @caught _ _ signal saved locals deliverable jmpbuf shmem count =>
        have same : process = supervisor := proper
        refine ⟨.ending, ⟨rfl, ?_⟩, sound.caught alive same⟩
        rw [same] at jmpbuf
        rw [shmem]
        exact sound.buffer saved jmpbuf
    | exec =>
        have isBorn : stages process = .born := follows.1
        exact ⟨.born, rfl, sound.execed alive isBorn⟩
  leave := by
    intro crew stages process program move sound running _ cause _
    have alive : crew.procs process ≠ none := by simp [running]
    exact ⟨.born, sound.left alive (cause.imp_left And.left)⟩
  outside := by
    intro crew stages event sound _
    exact sound.disturbed paths decay

/-! ## The loop -/

/-- A supervisor that is about to enter its loop. -/
def loop (supervisor : Pid) (locals : Locals) (process : Pid) :
    Option Label :=
  if process = supervisor then some (.round locals) else none

/-- A process is in `wait_for_signal`. -/
def Waits : Prog Label → Prop
  | .issue (.waitpid _) _ => True
  | .done (.spinning _) => True
  | _ => False

/-- At most one process runs the command, and the word is right while the
supervisor waits. -/
structure OneChild (supervisor : Pid) (addr : Addr) (crew : Processes) :
    Prop where
  single : ∀ first second,
    crew.procs first = some (.done .command) →
      crew.procs second = some (.done .command) → first = second
  named : ∀ program, crew.procs supervisor = some program →
    Waits program → ∃ child, lastChild supervisor crew.log = some child ∧
      wordAt crew.state.store addr OFFSET_CPID.toNat =
        some (BitVec.ofInt 32 child)

variable {store : Store} {inherited : Signal → Bool} {crew : Processes}

theorem begin_simulated {locals : Locals} :
    Crew.Simulated (script locals.shmem.addr)
      (Sound supervisor locals.shmem.addr)
      (begin store inherited (loop supervisor locals)) fun _ => .ending := by
  have only : ∀ process, process ≠ supervisor →
      (begin store inherited (loop supervisor locals)).procs process =
        none := by
    intro process different
    simp [begin, loop, different]
  refine ⟨⟨by simp, ?_, ?_, ?_, by simp [Stage.cpid], ?_, fun _ _ => only,
    by simp [begin, World.initial]⟩, ?_⟩
  · intro process different lives
    exact absurd (only process different) lives
  · intro first _ different _ lives
    exact absurd (only first different) lives
  · intro _ process different lives
    exact absurd (only process different) lives
  · rintro cpid (named | named | named) <;> cases named
  · intro process program running
    rcases begin_procs running with ⟨label, isLabel, rfl⟩
    unfold loop at isLabel
    split at isLabel
    · cases isLabel
      exact ⟨rfl, rfl⟩
    · cases isLabel

/--
A supervisor whose `fork` and whose children's `execvp` succeed, and which
after a signal finds its child gone whenever it forks, runs one child, as long
as no child catches a signal.
-/
theorem one_child {locals : Locals}
    (reach : Crew.Reach (system paths decay admits) (Proper supervisor)
      (begin store inherited (loop supervisor locals)) crew) :
    OneChild supervisor locals.shmem.addr crew := by
  rcases reach.simulated (preserves paths decay) begin_simulated with
    ⟨stages, sound, follows⟩
  constructor
  · intro first second running running'
    have isChild : ∀ process,
        crew.procs process = some (.done .command) →
          process ≠ supervisor := by
      rintro process commands rfl
      have isBorn : stages process = .born := follows process _ commands
      exact sound.parent (by simp [commands]) isBorn
    exact sound.single first second (isChild first running)
      (isChild second running') (by simp [running]) (by simp [running'])
  · intro program running waits
    have stage : ∃ cpid, (stages supervisor).Named cpid := by
      have follows := follows supervisor program running
      unfold Waits at waits
      split at waits
      · exact ⟨_, Or.inl follows.1⟩
      · rcases follows with ⟨cpid, isStage⟩
        exact ⟨cpid, Or.inr isStage⟩
      · exact waits.elim
    rcases stage with ⟨cpid, named⟩
    have names : (stages supervisor).cpid = some cpid := by
      rcases named with isStage | isStage | isStage <;> rw [isStage] <;> rfl
    rcases sound.last cpid names with ⟨child, isLast, isChild, _⟩
    refine ⟨child, isLast, ?_⟩
    rw [← isChild]
    exact (sound.named cpid named).2

/-- A child from its `fork` to its command. -/
def comeUp (child : Pid) : List Turn :=
  calls child 12 ++ [.exec child]

/-- The check that a move is proper. -/
def proper (supervisor : Pid) (crew : Processes) : Moves → Bool
  | .call _ ⟨.fork, _⟩ => false
  | .call _ ⟨.execvp, _⟩ => false
  | .fork parent _ _ =>
      !Control.hasCaught parent crew.log ||
        (crew.state.children parent).isEmpty
  | .jump process (.caught ..) => process == supervisor
  | _ => true

theorem proper_sound {move : Moves}
    (passed : proper supervisor crew move = true) :
    Proper supervisor crew move := by
  unfold proper at passed
  unfold Proper
  split at passed
  · cases passed
  · cases passed
  · intro seen
    simpa [seen] using passed
  · simpa using passed
  · trivial

/-- A process runs the command. -/
def runs (process : Pid) (crew : Processes) : Bool :=
  match crew.procs process with
  | some (.done .command) => true
  | _ => false

theorem command_of_runs {process : Pid} (isRunning : runs process crew = true) :
    crew.procs process = some (.done .command) := by
  unfold runs at isRunning
  split at isRunning
  · assumption
  · cases isRunning

/-- The supervisor waits for a child that has come to its command. -/
theorem one_child_first_round :
    ∃ crew : Processes, crew.procs 2 = some (.done .command) ∧
      (∃ (pid : Int) (next : Except Errno (Int × WaitStatus) → Prog Label),
        crew.procs 1 = some (.issue (.waitpid pid) next)) ∧
      OneChild 1 handle.addr crew := by
  have computed : (Daemon.follow .devtmpfs (fun _ => 0) (proper 1)
      (Control.firstRound ++ comeUp 2) supervised).any
        (fun crew => runs 2 crew && Control.atWaitpid crew) = true := by
    decide
  rcases Daemon.follow_reaches .devtmpfs (fun _ => 0)
    (fun crew move _ => proper_sound) Turn.admitted_any computed with
    ⟨crew, reach, final⟩
  rw [Bool.and_eq_true] at final
  exact ⟨crew, command_of_runs final.1,
    Control.waiting_of_atWaitpid final.2,
    one_child .devtmpfs (fun _ => 0) reach⟩

/-- After a `SIGHUP` that its child survives the supervisor runs another
one. -/
theorem supervisor_runs_two :
    ∃ crew : Processes,
      Crew.Reach (system .devtmpfs (fun _ => 0) fun _ => True)
          Crew.Unrestricted supervised crew ∧
        crew.procs 2 = some (.done .command) ∧
        crew.procs 3 = some (.done .command) ∧
        ¬ OneChild 1 handle.addr crew := by
  have computed : (Daemon.follow .devtmpfs (fun _ => 0) anything
      (Control.firstRound ++ comeUp 2 ++ Control.nextRound ++ comeUp 3)
      supervised).any (fun crew => runs 2 crew && runs 3 crew) = true := by
    decide
  rcases follow_reaches_any .devtmpfs (fun _ => 0) computed with
    ⟨crew, reach, final⟩
  rw [Bool.and_eq_true] at final
  have first := command_of_runs final.1
  have second := command_of_runs final.2
  refine ⟨crew, reach, first, second, ?_⟩
  intro one
  have same := one.single 2 3 first second
  revert same
  decide

end Atomicles.Children
