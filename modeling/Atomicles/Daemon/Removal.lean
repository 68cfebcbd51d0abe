import Atomicles.Daemon.Children
import Atomicles.Daemon.Supervisors
import Atomicles.Kernel.Mutex

/-!
# After the removal of the control segment

A supervisor that is told to end removes the segment, and so does one that
finds it inactive, and a child whose `execvp` fails.  The last two leave other
processes behind that go on to use it.
-/

namespace Atomicles.Removal

open Interaction Daemon

variable (paths : KeyPaths) (key : Key) (decay : UInt → Nat)

/-- The name of the mutex. -/
abbrev mutexKey : Key :=
  paths.semKey (key + 128)

/-- The calls of accesses to the segment and of its removal. -/
def Touches : Call → Prop
  | .semop .. => True
  | .semctlGetval .. => True
  | .semctlRmid _ => True
  | .load .. => True
  | .store .. => True
  | .memset .. => True
  | .shmdt _ => True
  | .shmctlRmid _ => True
  | _ => False

/-- The calls of a process that is done with the segment. -/
def Apart : Call → Prop
  | .kill .. => True
  | .sleep _ => True
  | .time => True
  | .die _ => True
  | _ => False

/-- From here on the process only comes to its end, or runs the command. -/
def Idle : Prog Label → Prop
  | .done label => label = .command ∨ ∃ status, label = .ended status
  | .issue call next => Apart call ∧ ∀ answer, Idle (next answer)

/-- A process that lives is done with the segment, and no signal brings it
back to its loop. -/
def Finished (crew : Processes) (process : Pid) : Prop :=
  ∀ program, crew.procs process = some program →
    Idle program ∧ crew.state.buffer process = none

/-- The signals that end a supervisor. -/
def Ends (signal : Signal) : Prop :=
  signal = .SIGUSR1 ∨ signal = .SIGUSR2

/-- `execvp` succeeds.  Signals that end a supervisor are caught once the
other processes are done with the segment, and any other one only while the
segment is active. -/
def Proper (crew : Processes) : Moves → Prop
  | .call _ ⟨.execvp, _⟩ => False
  | .jump process (.caught signal locals) =>
      (Ends signal → ∀ other, other ≠ process → Finished crew other) ∧
        (¬ Ends signal → wordAt crew.state.store locals.shmem.addr
          OFFSET_ACTIVE.toNat ≠ some 0)
  | _ => True

/-! ## The script of a process -/

/-- What a process knows of the word for the activity. -/
inductive Mood where
  | plain
  /-- It is not zero at this address. -/
  | lit (addr : Addr)
  /-- It no longer matters, since the process is to remove the segment. -/
  | doomed
deriving DecidableEq

/-- Where a process is. -/
inductive Stage where
  /-- Before it has a mutex. -/
  | fresh
  /-- Between the creation of the mutex and its initialisation. -/
  | maker
  | outside (mood : Mood)
  /-- In a critical section. -/
  | inside (mood : Mood)
  /-- A signal was caught in a critical section. -/
  | stuck
  /-- The mutex is removed. -/
  | removing
  /-- The segment is removed too. -/
  | removed
  /-- The process has gone. -/
  | vanished
deriving DecidableEq

namespace Stage

/-- The process is to have a mutex. -/
def Making (stage : Stage) : Prop :=
  stage = .fresh ∨ stage = .maker

/-- The process has the unit of the mutex. -/
def Inside : Stage → Prop
  | .inside _ => True
  | .stuck => True
  | _ => False

/-- The process needs the mutex. -/
def Uses : Stage → Prop
  | .outside _ => True
  | .inside _ => True
  | .stuck => True
  | _ => False

/-- The removal has begun. -/
def Removes (stage : Stage) : Prop :=
  stage = .removing ∨ stage = .removed

/-- The process is to remove the segment, or has done so. -/
def Ends (stage : Stage) : Prop :=
  stage = .outside .doomed ∨ stage = .inside .doomed ∨ stage.Removes

/-- The process has seen activity at an address. -/
def Lit (stage : Stage) (addr : Addr) : Prop :=
  stage = .outside (.lit addr) ∨ stage = .inside (.lit addr)

/-- A stage after an operation on the mutex. -/
def turns (stage : Stage) (semOp : Int) : Stage :=
  match stage with
  | .outside mood => if semOp < 0 then .inside mood else stage
  | .inside mood => if semOp < 0 then stage else .outside mood
  | _ => stage

/-- A stage after a write to the word for the activity. -/
def lights (stage : Stage) (addr : Addr) : Stage :=
  match stage with
  | .inside .doomed => stage
  | .inside _ => .inside (.lit addr)
  | _ => stage

end Stage

/-- A handle with the mutex. -/
def Owns (mutex : IpcId) (this : SharedMemory) : Prop :=
  ∃ shsem, this.shsem = some shsem ∧ shsem.id = mutex ∧ shsem.size = 1

/-- A process uses the segment under the mutex, until it removes both. -/
def script (mutex : IpcId) : Script signature Stage Label where
  allow stage call :=
    match call with
    | .semget name nsems creat excl =>
        stage = .fresh ∧ name = mutexKey paths key ∧
          (creat = true → nsems = 1 ∧ excl = true)
    | .semctlSetall id array => stage = .maker ∧ id = mutex ∧ array = [1]
    | .semctlGetval id semnum =>
        (∃ mood, stage = .inside mood) ∧ id = mutex ∧ semnum = 0
    | .semop id semNum semOp undo nowait =>
        id = mutex ∧ semNum = 0 ∧ undo = true ∧ nowait = false ∧
          (semOp = -1 ∧ (stage = .stuck ∨ ∃ mood, stage = .outside mood) ∨
            semOp = 1 ∧ ∃ mood, stage = .inside mood)
    | .semctlRmid id => stage = .outside .doomed ∧ id = mutex
    | .shmget .. => stage = .fresh
    | .shmat _ => stage = .fresh
    | .load .. => ∃ mood, stage = .outside mood
    | .store _ offset value =>
        ∃ mood, stage = .inside mood ∧
          (mood ≠ .doomed → offset = OFFSET_ACTIVE.toNat → value ≠ 0)
    | .memset .. => stage = .removing
    | .shmdt _ => stage = .removing
    | .shmctlRmid _ => stage = .removing
    | .fork => ∃ mood, stage = .outside mood ∧ mood ≠ .doomed
    | .execvp => ∃ mood, stage = .outside mood ∧ mood ≠ .doomed
    | .die cause => cause ≠ .freed ∧ ∀ text, cause ≠ .assertion text
    | .vsnprintf .. => False
    | .strncpy .. => False
    | .interruptible _ => False
    | _ => True
  answer stage call answer :=
    match call, answer with
    | .semget .., (found : Except Errno IpcId) =>
        ∀ id, found = .ok id → id = mutex
    | .semctlSetall .., (outcome : Except Errno Unit) => outcome = .ok ()
    | .semctlGetval .., (value : Except Errno Nat) => value = .ok 0
    | .semop .., (outcome : Except Errno Unit) =>
        outcome = .ok () ∧ stage ≠ .stuck
    | .load target offset, (word : Option UInt) =>
        stage = .outside (.lit target) → offset = OFFSET_ACTIVE.toNat →
          word ≠ some 0
    | .sigaction _, (outcome : Except Errno Unit) => outcome = .ok ()
    | .execvp, _ => False
    | _, _ => True
  next stage call answer :=
    match call, answer with
    | .semget _ _ creat _, (found : Except Errno IpcId) =>
        match found with
        | .ok _ => if creat then .maker else .outside .plain
        | .error _ => stage
    | .semctlSetall .., _ => .outside .plain
    | .semop _ _ semOp _ _, _ => stage.turns semOp
    | .store target offset _, (done : Option Unit) =>
        match done with
        | some () =>
            if offset = OFFSET_ACTIVE.toNat then stage.lights target else stage
        | none => stage
    | .semctlRmid _, _ => .removing
    | .shmctlRmid _, _ => .removed
    | _, _ => stage
  stops stage label :=
    match label with
    | .main action channel =>
        stage = .fresh ∧ action = .start ∧ channel = key
    | .round locals =>
        Owns mutex locals.shmem ∧
          ∃ mood, stage = .outside mood ∧ mood ≠ .doomed
    | .caught signal locals =>
        Owns mutex locals.shmem ∧
          (stage = .stuck ∨ Ends signal ∧ stage = .outside .doomed ∨
            ¬ Ends signal ∧ stage = .outside (.lit locals.shmem.addr))
    | .returned locals =>
        Owns mutex locals.shmem ∧
          ∃ mood, stage = .outside mood ∧ mood ≠ .doomed
    | _ => True
  resume stage _ := stage

section Code

variable {paths key} {mutex : IpcId} {mood : Mood}

/-! ### Accesses -/

section Access

variable {this : SharedMemory} {Value : Type} {post : Stage → Value → Prop}
variable {continuation : Unit → Prog Value}

theorem conforms_segv {stage : Stage} :
    (die .segv : Prog Value).Conforms (script paths key mutex).toProtocol
      stage post :=
  ⟨⟨by simp, by simp⟩, fun impossible => impossible.elim⟩

theorem conforms_enter (owns : Owns mutex this)
    (rest : (continuation ()).Conforms (script paths key mutex).toProtocol
      (.inside mood) post) :
    (SharedMemory.enter this >>= continuation).Conforms
      (script paths key mutex).toProtocol (.outside mood) post := by
  rcases owns with ⟨shsem, owned, isMutex, _⟩
  rw [SharedMemory.enter_bind owned]
  refine ⟨⟨isMutex, rfl, rfl, rfl, Or.inl ⟨rfl, Or.inr ⟨mood, rfl⟩⟩⟩, ?_⟩
  intro outcome relied
  have succeeded : outcome = .ok () := relied.1
  subst succeeded
  exact rest

/-- A process that holds the mutex waits for itself. -/
theorem conforms_stuck (owns : Owns mutex this) :
    (SharedMemory.enter this).Conforms (script paths key mutex).toProtocol
      .stuck fun _ _ => False := by
  rcases owns with ⟨shsem, owned, isMutex, _⟩
  rw [← bind_pure (SharedMemory.enter this), SharedMemory.enter_bind owned]
  refine ⟨⟨isMutex, rfl, rfl, rfl, Or.inl ⟨rfl, Or.inl rfl⟩⟩, ?_⟩
  intro outcome relied
  exact absurd rfl relied.2

theorem conforms_stuckRead {offset : UShort} {read : UInt → Prog Value}
    (owns : Owns mutex this) :
    (this.readUint offset >>= read).Conforms
      (script paths key mutex).toProtocol .stuck post := by
  apply Program.Conforms.bind ((conforms_stuck owns).bind _)
  · exact fun _ _ impossible => False.elim impossible
  · exact fun _ _ impossible => impossible.elim

theorem conforms_stuckWrite {offset : UShort} {n : UInt}
    (owns : Owns mutex this) :
    (this.writeUint offset n >>= continuation).Conforms
      (script paths key mutex).toProtocol .stuck post := by
  apply Program.Conforms.bind ((conforms_stuck owns).bind _)
  · exact fun _ _ impossible => False.elim impossible
  · exact fun _ _ impossible => impossible.elim

theorem conforms_exit (owns : Owns mutex this)
    (rest : (continuation ()).Conforms (script paths key mutex).toProtocol
      (.outside mood) post) :
    (SharedMemory.exit this >>= continuation).Conforms
      (script paths key mutex).toProtocol (.inside mood) post := by
  rcases owns with ⟨shsem, owned, isMutex, size⟩
  rw [SharedMemory.exit_bind owned]
  refine ⟨⟨⟨mood, rfl⟩, isMutex, rfl⟩, ?_⟩
  intro value isZero
  have empty : value = .ok 0 := isZero
  subst empty
  have used : ((shsem.size.toNat : Int) -
      Semaphore.readValue (.ok 0) > 0) := by
    simp [size, Semaphore.readValue]
  dsimp only
  rw [if_pos used]
  refine ⟨⟨isMutex, rfl, rfl, rfl, Or.inr ⟨rfl, mood, rfl⟩⟩, ?_⟩
  intro outcome relied
  have succeeded : outcome = .ok () := relied.1
  subst succeeded
  exact rest

end Access

section Words

variable {this : SharedMemory} {offset : UShort} {Value : Type}
variable {post : Stage → Value → Prop}

theorem conforms_read {continuation : UInt → Prog Value}
    (owns : Owns mutex this)
    (rest : ∀ word : UInt,
      (mood = .lit this.addr → offset = OFFSET_ACTIVE → word ≠ 0) →
        (continuation word).Conforms (script paths key mutex).toProtocol
          (.outside mood) post) :
    (this.readUint offset >>= continuation).Conforms
      (script paths key mutex).toProtocol (.outside mood) post := by
  have shape : this.readUint offset >>= continuation =
      SharedMemory.enter this >>= fun _ => SharedMemory.exit this >>= fun _ =>
        load this.addr offset.toNat >>= continuation := by
    simp only [SharedMemory.readUint, SharedMemory.readWord, bind_assoc]
  rw [shape]
  apply conforms_enter owns
  apply conforms_exit owns
  rw [SharedMemory.load_bind]
  refine ⟨⟨mood, rfl⟩, ?_⟩
  intro (word : Option UInt) relied
  cases word with
  | none => exact conforms_segv
  | some word =>
      apply rest word
      rintro rfl rfl isZero
      exact relied rfl rfl (congrArg some isZero)

theorem conforms_write {continuation : Unit → Prog Value} {n : UInt}
    {after : Mood} (owns : Owns mutex this)
    (stores : mood ≠ .doomed → offset = OFFSET_ACTIVE → n ≠ 0)
    (lights : (if offset = OFFSET_ACTIVE then
      (Stage.inside mood).lights this.addr else .inside mood) = .inside after)
    (rest : (continuation ()).Conforms (script paths key mutex).toProtocol
      (.outside after) post) :
    (this.writeUint offset n >>= continuation).Conforms
      (script paths key mutex).toProtocol (.outside mood) post := by
  have shape : this.writeUint offset n >>= continuation =
      SharedMemory.enter this >>= fun _ =>
        store this.addr offset.toNat n >>= fun _ =>
          SharedMemory.exit this >>= continuation := by
    simp only [SharedMemory.writeUint, SharedMemory.writeWord, bind_assoc]
  rw [shape]
  apply conforms_enter owns
  rw [SharedMemory.store_bind]
  refine ⟨⟨mood, rfl, fun plain isActive =>
    stores plain (BitVec.eq_of_toNat_eq isActive)⟩, ?_⟩
  intro (done : Option Unit) _
  cases done with
  | none => exact conforms_segv
  | some success =>
      have same : (script paths key mutex).next (.inside mood)
          (.store this.addr offset.toNat n) (some () : Option Unit) =
            .inside after := by
        rw [← lights]
        show (if offset.toNat = OFFSET_ACTIVE.toNat then _ else _) = _
        by_cases isActive : offset = OFFSET_ACTIVE
        · rw [if_pos (congrArg BitVec.toNat isActive), if_pos isActive]
        · rw [if_neg fun same => isActive (BitVec.eq_of_toNat_eq same),
            if_neg isActive]
      rw [same]
      exact conforms_exit owns rest

/-- A write to another word. -/
theorem conforms_writeOther {continuation : Unit → Prog Value} {n : UInt}
    (owns : Owns mutex this) (other : offset ≠ OFFSET_ACTIVE)
    (rest : (continuation ()).Conforms (script paths key mutex).toProtocol
      (.outside mood) post) :
    (this.writeUint offset n >>= continuation).Conforms
      (script paths key mutex).toProtocol (.outside mood) post := by
  apply conforms_write owns
  · intro _ isActive
    exact absurd isActive other
  · exact if_neg other
  · exact rest

/-- A write of one that is to remove the segment. -/
theorem conforms_writeDoomed {continuation : Unit → Prog Value} {n : UInt}
    (owns : Owns mutex this)
    (rest : (continuation ()).Conforms (script paths key mutex).toProtocol
      (.outside .doomed) post) :
    (this.writeUint offset n >>= continuation).Conforms
      (script paths key mutex).toProtocol (.outside .doomed) post := by
  apply conforms_write owns
  · intro impossible
    exact absurd rfl impossible
  · split <;> rfl
  · exact rest

end Words

/-! ### Programs -/

section Programs

variable {shmem : SharedMemory} {Value : Type} {post : Stage → Value → Prop}

/-- `SharedMemory$delete` of one that is to remove the segment. -/
theorem conforms_remove {continuation : Unit → Prog Value}
    (owns : Owns mutex shmem)
    (rest : (continuation ()).Conforms (script paths key mutex).toProtocol
      .removed post) :
    (SharedMemory.delete shmem true >>= continuation).Conforms
      (script paths key mutex).toProtocol (.outside .doomed) post := by
  rcases owns with ⟨shsem, owned, isMutex, _⟩
  have shape : SharedMemory.delete shmem true >>= continuation =
      semctlRmid shsem.id >>= fun _ =>
        memset shmem.addr shmem.size.value >>= fun _ =>
          (do
            munlockall
            shmdt shmem.addr
            shmctlRmid shmem.id
            continuation ()) := by
    simp only [SharedMemory.delete, owned, Semaphore.delete, if_true,
      bind_assoc]
  rw [shape, semctlRmid_bind]
  refine ⟨⟨rfl, isMutex⟩, fun _ _ => ?_⟩
  rw [SharedMemory.memset_bind]
  refine ⟨rfl, ?_⟩
  intro (done : Option Unit) _
  cases done with
  | none => exact conforms_segv
  | some success =>
      rw [SharedMemory.unmap_bind]
      exact ⟨trivial, fun _ _ => ⟨rfl, fun _ _ => ⟨rfl, fun _ _ => rest⟩⟩⟩

theorem conforms_die (owns : Owns mutex shmem) :
    (Daemon.die (some shmem) : Prog Value).Conforms
      (script paths key mutex).toProtocol (.outside .doomed) post := by
  apply conforms_writeDoomed owns
  apply conforms_writeDoomed owns
  apply conforms_writeDoomed owns
  apply conforms_remove owns
  exact ⟨⟨by simp, by simp⟩, fun impossible => impossible.elim⟩

theorem conforms_kill {stage : Stage} {pid : Int} {signal : Option Signal}
    {continuation : Int → Prog Value}
    (rest : ∀ failed, (continuation failed).Conforms
      (script paths key mutex).toProtocol stage post) :
    (kill pid signal >>= continuation).Conforms
      (script paths key mutex).toProtocol stage post := by
  rw [kill_bind]
  exact ⟨trivial, fun _ _ => rest _⟩

/-- Any accessor that reads. -/
theorem conforms_getWord {offset : UShort} {continuation : Int → Prog Value}
    (owns : Owns mutex shmem)
    (rest : ∀ word, (continuation word).Conforms
      (script paths key mutex).toProtocol (.outside mood) post) :
    (getWord (some shmem) offset >>= continuation).Conforms
      (script paths key mutex).toProtocol (.outside mood) post := by
  rw [getWord_bind]
  apply conforms_read owns
  intro word _
  exact rest word.toInt

theorem conforms_daemonstr {stage : Stage} {pid cpid : Int}
    {continuation : Unit → Prog Value}
    (rest : (continuation ()).Conforms (script paths key mutex).toProtocol
      stage post) :
    (daemonstr pid cpid >>= continuation).Conforms
      (script paths key mutex).toProtocol stage post := by
  unfold daemonstr
  simp only [bind_assoc]
  apply conforms_kill
  intro _
  apply conforms_kill
  intro _
  exact rest

theorem conforms_poll {continuation : Int × Int → Prog Value}
    (owns : Owns mutex shmem)
    (rest : ∀ found, (continuation found).Conforms
      (script paths key mutex).toProtocol (.outside mood) post) :
    ∀ c pid cpid, (poll shmem c pid cpid >>= continuation).Conforms
      (script paths key mutex).toProtocol (.outside mood) post
  | 0, pid, cpid => rest (pid, cpid)
  | c + 1, _, _ => by
      unfold poll
      simp only [bind_assoc]
      apply conforms_getWord owns
      intro pid
      apply conforms_getWord owns
      intro cpid
      split
      · exact rest (pid, cpid)
      · rw [bind_assoc, sleep_bind]
        exact ⟨trivial, fun _ _ => conforms_poll owns rest c pid cpid⟩

end Programs

section Loop

/-- A supervisor that sees activity goes on with its loop. -/
theorem follows_endRound {addr : Addr} (locals : Locals)
    (owns : Owns mutex locals.shmem) (isAddr : locals.shmem.addr = addr) :
    (script paths key mutex).Follows (.outside (.lit addr))
      (endRound decay locals) := by
  subst isAddr
  unfold endRound
  apply conforms_read owns
  intro _ _
  apply conforms_read owns
  intro isActive nonzero
  rw [if_neg (nonzero rfl rfl), sleep_bind]
  refine ⟨trivial, fun _ _ => ?_⟩
  apply conforms_read owns
  intro stillActive nonzero
  rw [if_pos (nonzero rfl rfl)]
  exact ⟨owns, _, rfl, by simp⟩

theorem follows_caught {signal : Signal} {stage : Stage} (locals : Locals)
    (owns : Owns mutex locals.shmem)
    (aware : stage = .stuck ∨ Ends signal ∧ stage = .outside .doomed ∨
      ¬ Ends signal ∧ stage = .outside (.lit locals.shmem.addr)) :
    (script paths key mutex).Follows stage (caught decay signal locals) := by
  unfold caught
  dsimp only
  rcases aware with rfl | ⟨ends, rfl⟩ | ⟨goesOn, rfl⟩
  · split
    · rw [getCpid, getWord_bind]
      exact conforms_stuckRead owns
    · split
      · exact conforms_stuckWrite owns
      · rw [getCpid, getWord_bind]
        exact conforms_stuckRead owns
  · split
    · apply conforms_getWord owns
      intro cpid
      apply conforms_kill
      intro _
      exact conforms_die owns
    · rename_i notFirst
      rw [if_pos (ends.resolve_left notFirst)]
      exact conforms_die owns
  · rw [if_neg fun first => goesOn (Or.inl first),
      if_neg fun second => goesOn (Or.inr second)]
    apply conforms_getWord owns
    intro cpid
    apply conforms_kill
    intro _
    exact follows_endRound decay locals owns rfl

theorem follows_child {shmem : SharedMemory} (owns : Owns mutex shmem)
    (plain : mood ≠ .doomed) :
    (script paths key mutex).Follows (.outside mood) (child shmem) := by
  unfold child
  simp only [incCount, getCount, bind_assoc]
  apply conforms_getWord owns
  intro count
  apply conforms_writeOther owns (by decide)
  apply conforms_getWord owns
  intro counted
  rw [execvp_bind]
  exact ⟨⟨mood, rfl, plain⟩, fun _ impossible => impossible.elim⟩

theorem conforms_installHandlers {shmem : SharedMemory} {stage : Stage}
    {continuation : Unit → Prog Label}
    (rest : (script paths key mutex).Follows stage (continuation ())) :
    ∀ list, (script paths key mutex).Follows stage
      (installHandlers shmem list >>= continuation)
  | [] => rest
  | signal :: list => by
      have shape : installHandlers shmem (signal :: list) >>= continuation =
          .issue (.sigaction signal) fun outcome =>
            (if outcomeValue outcome ≠ 0 then Daemon.die (some shmem)
              else installHandlers shmem list) >>= continuation := by
        simp only [installHandlers, bind_assoc]
        exact sigaction_bind signal _
      rw [shape]
      refine ⟨trivial, ?_⟩
      intro outcome relied
      have succeeded : outcome = .ok () := relied
      subst succeeded
      have isZero : ¬ outcomeValue (.ok ()) ≠ 0 := fun failed => failed rfl
      dsimp only
      rw [if_neg isZero]
      exact conforms_installHandlers rest list

theorem follows_round (stack : WaitStatus) (locals : Locals)
    (owns : Owns mutex locals.shmem) (plain : mood ≠ .doomed) :
    (script paths key mutex).Follows (.outside mood)
      (round decay stack locals) := by
  rw [round_eq]
  apply conforms_installHandlers
  refine ⟨trivial, fun _ _ => ⟨⟨mood, rfl, plain⟩, ?_⟩⟩
  intro (cpid : Int) _
  show (script paths key mutex).Follows (.outside mood) _
  dsimp only
  split
  · exact follows_child owns plain
  · have lights : (if OFFSET_ACTIVE = OFFSET_ACTIVE then
        (Stage.inside mood).lights locals.shmem.addr else .inside mood) =
          .inside (.lit locals.shmem.addr) := by
      rw [if_pos rfl]
      cases mood with
      | doomed => exact absurd rfl plain
      | _ => rfl
    apply conforms_writeOther owns (by decide)
    apply conforms_write owns _ lights
    · refine ⟨trivial, ?_⟩
      intro (outcome : Except Errno (Int × WaitStatus)) _
      dsimp only
      split
      · refine ⟨trivial, fun _ _ => ?_⟩
        exact follows_endRound decay _ owns rfl
      · trivial
    · intro _ _
      decide

end Loop

/-! ### A start -/

section Start

variable {shmem : SharedMemory}

theorem follows_daemonize {count : Int} (owns : Owns mutex shmem)
    (plain : mood ≠ .doomed) :
    (script paths key mutex).Follows (.outside mood)
      (daemonize shmem count) := by
  unfold daemonize
  dsimp only
  rw [fork_bind]
  refine ⟨⟨mood, rfl, plain⟩, ?_⟩
  intro (pid : Int) _
  show (script paths key mutex).Follows (.outside mood) _
  dsimp only
  split
  · exact ⟨owns, mood, rfl, plain⟩
  · rw [fork_bind]
    refine ⟨⟨mood, rfl, plain⟩, ?_⟩
    intro (pid' : Int) _
    show (script paths key mutex).Follows (.outside mood) _
    dsimp only
    split
    · apply conforms_writeOther owns (by decide)
      exact ⟨⟨by simp, by simp⟩, fun impossible => impossible.elim⟩
    · unfold closeFileDescriptors
      rw [bind_assoc, getrlimit_bind]
      refine ⟨trivial, ?_⟩
      intro (limit : Except Errno Unit) _
      have segv : (Daemon.die none : Prog Unit) = Atomicles.die .segv := by
        simp [Daemon.die, setPid, deref]
      dsimp only
      split
      · rw [segv, die_bind]
        exact conforms_segv
      · exact ⟨owns, mood, rfl, plain⟩

theorem follows_start (owns : Owns mutex shmem) (plain : mood ≠ .doomed) :
    (script paths key mutex).Follows (.outside mood) (start shmem) := by
  unfold start
  apply conforms_getWord owns
  intro pid
  apply conforms_getWord owns
  intro cpid
  apply conforms_getWord owns
  intro count
  split
  · apply conforms_daemonstr
    trivial
  · exact follows_daemonize owns plain

/-- Getting the segment, which needs no mutex. -/
theorem opens_fresh {Value : Type} {program : Prog Value}
    {continuation : Value → Prog Label}
    (opens : program.Within fun call : Call =>
      call.opensSegment = true)
    (rest : ∀ value, (script paths key mutex).Follows .fresh
      (continuation value)) :
    (script paths key mutex).Follows .fresh (program >>= continuation) := by
  apply opens.conforms_bind _ _ rest
  · intro call isOpening
    cases call with
    | shmget => rfl
    | shmat => rfl
    | mlockall => trivial
    | mlock => trivial
    | _ => cases isOpening
  · intro call answer isOpening
    cases call <;> first | rfl | cases isOpening

/-- The locking of its pages. -/
theorem conforms_lockPages {Value : Type} {stage : Stage} {this : SharedMemory}
    {continuation : Int → Prog Value} {post : Stage → Value → Prop}
    (rest : ∀ locked, (continuation locked).Conforms
      (script paths key mutex).toProtocol stage post) :
    (SharedMemory.lockPages this >>= continuation).Conforms
      (script paths key mutex).toProtocol stage post := by
  rw [SharedMemory.lockPages_bind]
  refine ⟨trivial, ?_⟩
  intro (all : Except Errno Unit) _
  cases all with
  | ok success => exact rest _
  | error errno =>
      refine ⟨trivial, ?_⟩
      intro (locked : Except Errno Unit) _
      cases locked <;> exact rest _

/-- `Semaphore$new` of the mutex. -/
theorem follows_semaphoreNew {continuation : Option Semaphore → Prog Label}
    (failed : ∀ stage,
      (script paths key mutex).Follows stage (continuation none))
    (obtained : ∀ shsem : Semaphore, shsem.id = mutex → shsem.size = 1 →
      (script paths key mutex).Follows (.outside .plain)
        (continuation (some shsem))) :
    (script paths key mutex).Follows .fresh
      (Semaphore.new paths (key + 128) 1 1 true >>= continuation) := by
  rw [Semaphore.new_bind]
  refine ⟨trivial, ?_⟩
  intro (block : Option Unit) _
  cases block with
  | none => exact failed _
  | some success =>
      refine ⟨⟨rfl, rfl, fun _ => ⟨rfl, rfl⟩⟩, ?_⟩
      intro (made : Except Errno IpcId) relied
      cases made with
      | ok id =>
          have isMutex : id = mutex := relied id rfl
          refine ⟨⟨rfl, isMutex, rfl⟩, ?_⟩
          intro (outcome : Except Errno Unit) succeeded
          have isOk : outcome = .ok () := succeeded
          subst isOk
          exact obtained _ isMutex rfl
      | error errno =>
          by_cases taken : errno = .EEXIST
          · simp only [taken, and_self, if_true]
            refine ⟨⟨rfl, rfl, by simp⟩, ?_⟩
            intro (found : Except Errno IpcId) relied
            cases found with
            | ok id => exact obtained _ (relied id rfl) rfl
            | error errno => exact failed _
          · simp only [taken, and_false, if_false]
            exact failed _

theorem follows_main :
    (script paths key mutex).Follows .fresh (main paths .start key) := by
  have freed : ∀ (this : SharedMemory) (stage : Stage),
      (script paths key mutex).Follows stage
        ((SharedMemory.delete this false >>= fun _ => pure none) >>=
          fun shmem : Option SharedMemory =>
            shmem.elim (.done (.ended (-1))) start) := by
    intro this stage
    cases owned : this.shsem <;>
      simp [SharedMemory.delete, owned, script]
  have shape : main paths .start key =
      SharedMemory.new paths key SHMEM_SIZE true >>= fun shmem =>
        shmem.elim (.done (.ended (-1))) start := by
    refine congrArg (SharedMemory.new paths key SHMEM_SIZE true >>= ·)
      (funext fun shmem => ?_)
    cases shmem <;> rfl
  rw [shape]
  simp only [SharedMemory.new, mallocSharedMemory, Program.issue_bind,
    Program.done_bind]
  refine ⟨trivial, ?_⟩
  intro (block : Option SharedMemory) _
  cases block with
  | none => trivial
  | some block =>
      show (script paths key mutex).Follows .fresh _
      simp only [bind_assoc]
      apply opens_fresh (SharedMemory.within_newSegment (fun _ => id) _ _ _)
      rintro ⟨success, this⟩
      dsimp only
      split
      · rw [bind_assoc]
        apply follows_semaphoreNew
        · exact freed _
        · intro shsem isMutex size
          rw [bind_assoc]
          apply conforms_lockPages
          intro locked
          split
          · exact freed _ _
          · apply follows_start ⟨shsem, rfl, isMutex, size⟩
            simp
      · exact freed _ _

theorem follows_code {stage : Stage} {stack : WaitStatus} {label : Label}
    {program : Prog Label}
    (stops : (script paths key mutex).stops stage label)
    (piece : code paths decay stack label = some program) :
    (script paths key mutex).Follows stage program := by
  cases label with
  | main action channel =>
      cases piece
      rcases stops with ⟨rfl, rfl, rfl⟩
      exact follows_main
  | round locals =>
      cases piece
      rcases stops with ⟨owns, mood, rfl, plain⟩
      exact follows_round decay stack locals owns plain
  | caught signal locals =>
      cases piece
      exact follows_caught decay locals stops.1 stops.2
  | returned locals =>
      cases piece
      rcases stops with ⟨owns, mood, rfl, plain⟩
      apply conforms_poll owns
      rintro ⟨pid, cpid⟩
      apply conforms_daemonstr
      trivial
  | _ => cases piece

end Start

end Code

/-! ## The invariant -/

theorem Idle.not_touches {call : Call} {next : call.Answer → Prog Label}
    (idle : Idle (.issue call next)) : ¬ Touches call := by
  intro touches
  cases call <;> first | exact touches | exact idle.1

/-- No mutex, or one that is free. -/
def Unmade (name : Key) (mutex : IpcId) (store : Store) : Prop :=
  mutex.key = name ∧
    (store.sems ⟨name, store.semGen name⟩ = none ∧
        mutex = store.nextSem name ∨
      store.semGen name = mutex.generation ∧ Represents mutex .free store)

/-- What a process that is to have a mutex knows of it. -/
def Kept (name : Key) (mutex : IpcId) (store : Store) (process : Pid) :
    Stage → Prop
  | .fresh => Unmade name mutex store
  | .maker => Represents mutex (.raw process) store
  | _ => True

section Making

variable {name : Key} {mutex : IpcId} {store after : Store}

theorem Unmade.of_same (unmade : Unmade name mutex store)
    (same : SameSems store after) : Unmade name mutex after := by
  rcases unmade with ⟨named, ⟨absent, isNext⟩ | ⟨isLast, free⟩⟩
  · refine ⟨named, Or.inl ⟨?_, ?_⟩⟩
    · rw [same.1, same.2]
      exact absent
    · rw [Store.nextSem, same.2]
      exact isNext
  · refine ⟨named, Or.inr ⟨?_, free.of_same (congrFun same.1 mutex)⟩⟩
    rw [same.2]
    exact isLast

theorem Kept.of_same {process : Pid} {stage : Stage}
    (kept : Kept name mutex store process stage)
    (same : SameSems store after) : Kept name mutex after process stage := by
  cases stage with
  | fresh => exact Unmade.of_same kept same
  | maker => exact Represents.of_same kept (congrFun same.1 mutex)
  | _ => trivial

/-- The mutex is made, or it is found free. -/
theorem Unmade.semget {nsems : Nat} {creat excl : Bool}
    {found : Except Errno IpcId} (unmade : Unmade name mutex store)
    (exclusive : creat = true → nsems = 1 ∧ excl = true)
    (served : store.semget name nsems creat excl = (found, after))
    (process : Pid) :
    (∀ id, found = .ok id → id = mutex ∧
      Represents mutex (if creat then .raw process else .free) after) ∧
      ∀ errno, found = .error errno → after = store := by
  rcases unmade with ⟨named, ⟨absent, isNext⟩ | ⟨isLast, free⟩⟩
  · cases creat with
    | false =>
        rw [Represents.semget_lookup_absent absent] at served
        cases served
        refine ⟨?_, fun _ _ => rfl⟩
        intro id impossible
        cases impossible
    | true =>
        rcases exclusive rfl with ⟨rfl, rfl⟩
        rcases Represents.semget_absent absent true process with
          ⟨answer, represents, _, _⟩
        rw [served] at answer represents
        have made : found = .ok (store.nextSem name) := answer
        subst made
        rw [isNext]
        refine ⟨?_, fun errno impossible => by cases impossible⟩
        intro id same
        cases same
        exact ⟨rfl, represents⟩
  · have isPresent : MutexState.free ≠ .absent := by simp
    subst named
    rw [free.semget_present isPresent isLast] at served
    cases served
    refine ⟨?_, fun _ _ => rfl⟩
    intro id same
    cases creat with
    | true =>
        rw [(exclusive rfl).2] at same
        cases same
    | false =>
        simp only [Bool.false_and, Bool.false_eq_true, if_false] at same
        split at same
        · cases same
        · cases same
          exact ⟨rfl, free⟩

end Making

/-- What holds of the processes, the mutex and the word for the activity. -/
structure Sound (mutex : IpcId) (crew : Processes) (stages : Pid → Stage) :
    Prop where
  gone : ∀ process, crew.procs process = none →
    stages process = .vanished ∨ (stages process).Removes
  live : ∀ process, crew.procs process ≠ none → stages process ≠ .vanished
  alone : ∀ process, (stages process).Making →
    ∀ other, other ≠ process → crew.procs other = none
  kept : ∀ process,
    Kept (mutexKey paths key) mutex crew.state.store process (stages process)
  guarded : ∀ process, (stages process).Uses →
    (∀ other, ¬ (stages other).Removes) →
      ∃ state, Guards mutex state crew.state.store
        fun other => (stages other).Inside
  lit : ∀ process addr, (stages process).Lit addr →
    (∀ other, ¬ (stages other).Ends) →
      wordAt crew.state.store addr OFFSET_ACTIVE.toNat ≠ some 0
  ends : ∀ process, (stages process).Ends →
    ∀ other, other ≠ process → Finished crew other
  masked : ∀ process, crew.procs process ≠ none → (stages process).Ends →
    ∀ signal, crew.state.mask process signal = true
  buffer : ∀ process saved, crew.procs process ≠ none →
    crew.state.buffer process = some saved →
      Owns mutex saved.shmem ∧ ¬ (stages process).Making
  begun : ∀ process id answer,
    .call process ⟨.semctlRmid id, answer⟩ ∈ crew.log →
      (stages process).Removes
  done : ∀ process id answer,
    .call process ⟨.shmctlRmid id, answer⟩ ∈ crew.log →
      stages process = .removed

section Stages

variable {stage : Stage} {addr : Addr}

theorem Stage.Uses.making (uses : stage.Uses) : ¬ stage.Making := by
  rintro (rfl | rfl) <;> exact uses

theorem Stage.Inside.uses (inside : stage.Inside) : stage.Uses := by
  cases stage with
  | inside mood => trivial
  | stuck => trivial
  | _ => exact inside.elim

theorem Stage.Lit.uses (lit : stage.Lit addr) : stage.Uses := by
  rcases lit with rfl | rfl <;> trivial

theorem Stage.Removes.uses (removes : stage.Removes) : ¬ stage.Uses := by
  rcases removes with rfl | rfl <;> exact not_false

theorem Stage.Removes.ends (removes : stage.Removes) : stage.Ends :=
  Or.inr (Or.inr removes)

theorem Stage.Ends.making (ends : stage.Ends) : ¬ stage.Making := by
  rcases ends with rfl | rfl | rfl | rfl <;> simp [Making]

theorem Stage.lights_inside : (stage.lights addr).Inside ↔ stage.Inside := by
  cases stage with
  | inside mood => cases mood <;> simp [lights, Inside]
  | _ => rfl

theorem Stage.lights_lit {target : Addr} {mood : Mood}
    (plain : mood ≠ .doomed) (inside : stage = .inside mood)
    (lit : (stage.lights target).Lit addr) : target = addr := by
  subst inside
  cases mood with
  | doomed => exact absurd rfl plain
  | _ => simpa [lights, Lit] using lit

theorem Stage.turns_lit {semOp : Int} (lit : (stage.turns semOp).Lit addr) :
    stage.Lit addr := by
  cases stage with
  | outside mood =>
      simp only [turns] at lit
      split at lit
      · simpa [Lit] using lit
      · exact lit
  | inside mood =>
      simp only [turns] at lit
      split at lit
      · exact lit
      · simpa [Lit] using lit
  | _ => exact lit

theorem Stage.Lit.ends (lit : stage.Lit addr) : ¬ stage.Ends := by
  rcases lit with rfl | rfl <;> simp [Ends, Removes]

theorem kept_elsewhere {name : Key} {mutex : IpcId} {store : Store}
    {process : Pid} (made : ¬ stage.Making) :
    Kept name mutex store process stage := by
  cases stage with
  | fresh => exact absurd (Or.inl rfl) made
  | maker => exact absurd (Or.inr rfl) made
  | _ => trivial

end Stages

variable {paths key} {mutex : IpcId} {crew : Processes} {stages : Pid → Stage}
variable {process : Pid}

/-- A move of one process, after which that process is at a certain stage. -/
theorem Sound.moved {world : World} {move : Moves} {next : Option (Prog Label)}
    {stage : Stage} (sound : Sound paths key mutex crew stages)
    (running : crew.procs process ≠ none)
    (making : stage.Making → (stages process).Making)
    (leaves : next = none → stage = .vanished ∨ stage.Removes)
    (lives : next ≠ none → stage ≠ .vanished)
    (kept : Kept (mutexKey paths key) mutex world.store process stage)
    (guarded : ∀ user, (Function.update stages process stage user).Uses →
      (∀ other, ¬ (Function.update stages process stage other).Removes) →
        ∃ state, Guards mutex state world.store
          fun other => (Function.update stages process stage other).Inside)
    (lit : ∀ user addr,
      (Function.update stages process stage user).Lit addr →
        (∀ other, ¬ (Function.update stages process stage other).Ends) →
          wordAt world.store addr OFFSET_ACTIVE.toNat ≠ some 0)
    (ends : stage.Ends → (stages process).Ends ∨
      ∀ other, other ≠ process → Finished crew other)
    (idle : (∀ program, next = some program →
      Idle program ∧ world.buffer process = none) ∨
        ∀ other, other ≠ process → ¬ (stages other).Ends)
    (masked : next ≠ none → stage.Ends →
      ∀ signal, world.mask process signal = true)
    (buffer : next ≠ none → ∀ saved, world.buffer process = some saved →
      Owns mutex saved.shmem ∧ ¬ stage.Making)
    (frame : ∀ other, other ≠ process →
      world.buffer other = crew.state.buffer other ∧
        world.mask other = crew.state.mask other)
    (removes : (stages process).Removes → stage.Removes)
    (removed : stages process = .removed → stage = .removed)
    (begun : ∀ actor id answer, move = .call actor ⟨.semctlRmid id, answer⟩ →
      actor = process ∧ stage.Removes)
    (done : ∀ actor id answer, move = .call actor ⟨.shmctlRmid id, answer⟩ →
      actor = process ∧ stage = .removed) :
    Sound paths key mutex
      (crew.record move world (Function.update crew.procs process next))
      (Function.update stages process stage) := by
  have finished : ∀ other, other ≠ process → Finished crew other →
      Finished (crew.record move world
        (Function.update crew.procs process next)) other := by
    intro other different finished program lives
    rw [Crew.record_procs, Function.update_of_ne different] at lives
    have before := finished program lives
    exact ⟨before.1, (frame other different).1.trans before.2⟩
  constructor
  · intro actor dead
    by_cases same : actor = process
    · rw [same, Crew.record_procs, Function.update_self] at dead
      rw [same, Function.update_self]
      exact leaves dead
    · rw [Crew.record_procs, Function.update_of_ne same] at dead
      rw [Function.update_of_ne same]
      exact sound.gone actor dead
  · intro actor alive
    by_cases same : actor = process
    · rw [same, Crew.record_procs, Function.update_self] at alive
      rw [same, Function.update_self]
      exact lives alive
    · rw [Crew.record_procs, Function.update_of_ne same] at alive
      rw [Function.update_of_ne same]
      exact sound.live actor alive
  · intro actor makes other different
    by_cases same : actor = process
    · rw [same, Function.update_self] at makes
      rw [same] at different
      rw [Crew.record_procs, Function.update_of_ne different]
      exact sound.alone process (making makes) other different
    · rw [Function.update_of_ne same] at makes
      have dead := sound.alone actor makes process (Ne.symm same)
      exact absurd dead running
  · intro actor
    by_cases same : actor = process
    · rw [same, Function.update_self]
      exact kept
    · rw [Function.update_of_ne same]
      apply kept_elsewhere
      intro makes
      exact running (sound.alone actor makes process (Ne.symm same))
  · exact guarded
  · exact lit
  · intro actor ended other different
    by_cases same : actor = process
    · rw [same, Function.update_self] at ended
      rw [same] at different
      apply finished other different
      rcases ends ended with before | finished
      · exact sound.ends process before other different
      · exact finished other different
    · rw [Function.update_of_ne same] at ended
      by_cases own : other = process
      · intro program lives
        rw [own, Crew.record_procs, Function.update_self] at lives
        rw [own]
        rcases idle with idle | nobody
        · exact idle program lives
        · exact absurd ended (nobody actor same)
      · exact finished other own (sound.ends actor ended other different)
  · intro actor lives ended
    by_cases same : actor = process
    · rw [same, Crew.record_procs, Function.update_self] at lives
      rw [same, Function.update_self] at ended
      rw [same]
      exact masked lives ended
    · rw [Crew.record_procs, Function.update_of_ne same] at lives
      rw [Function.update_of_ne same] at ended
      intro signal
      rw [Crew.record_state, (frame actor same).2]
      exact sound.masked actor lives ended signal
  · intro actor saved lives isSaved
    by_cases same : actor = process
    · rw [same, Crew.record_procs, Function.update_self] at lives
      rw [same] at isSaved
      rw [same, Function.update_self]
      exact buffer lives saved isSaved
    · rw [Crew.record_procs, Function.update_of_ne same] at lives
      rw [Crew.record_state, (frame actor same).1] at isSaved
      rw [Function.update_of_ne same]
      exact sound.buffer actor saved lives isSaved
  · intro actor id answer member
    rcases List.mem_cons.mp member with now | earlier
    · rcases begun actor id answer now.symm with ⟨rfl, stage⟩
      rw [Function.update_self]
      exact stage
    · have before := sound.begun actor id answer earlier
      by_cases same : actor = process
      · rw [same] at before
        rw [same, Function.update_self]
        exact removes before
      · rw [Function.update_of_ne same]
        exact before
  · intro actor id answer member
    rcases List.mem_cons.mp member with now | earlier
    · rcases done actor id answer now.symm with ⟨rfl, stage⟩
      rw [Function.update_self]
      exact stage
    · have before := sound.done actor id answer earlier
      by_cases same : actor = process
      · rw [same] at before
        rw [same, Function.update_self]
        exact removed before
      · rw [Function.update_of_ne same]
        exact before

/-! ## Calls -/

/-- What a call can do to the stage of its process. -/
inductive Stage.Step : Stage → Stage → Prop where
  | stay (stage : Stage) : Step stage stage
  | make : Step .fresh .maker
  | find : Step .fresh (.outside .plain)
  | arm : Step .maker (.outside .plain)
  | enter (mood : Mood) : Step (.outside mood) (.inside mood)
  | leave (mood : Mood) : Step (.inside mood) (.outside mood)
  | light (mood : Mood) (addr : Addr) (plain : mood ≠ .doomed) :
      Step (.inside mood) (.inside (.lit addr))
  | begin : Step (.outside .doomed) .removing
  | finish : Step .removing .removed

namespace Stage.Step

variable {before after : Stage}

theorem making (step : Step before after) (makes : after.Making) :
    before.Making := by
  cases step with
  | stay => exact makes
  | make => exact Or.inl rfl
  | arm => exact Or.inr rfl
  | find => exact Or.inl rfl
  | _ => rcases makes with makes | makes <;> cases makes

theorem ends (step : Step before after) (ends : after.Ends) :
    before.Ends := by
  cases step with
  | stay => exact ends
  | begin => exact Or.inl rfl
  | finish => exact Or.inr (Or.inr (Or.inl rfl))
  | enter mood =>
      rcases ends with impossible | isDoomed | impossible | impossible
      · cases impossible
      · cases isDoomed
        exact Or.inl rfl
      · cases impossible
      · cases impossible
  | leave mood =>
      rcases ends with isDoomed | impossible | impossible | impossible
      · cases isDoomed
        exact Or.inr (Or.inl rfl)
      · cases impossible
      · cases impossible
      · cases impossible
  | _ =>
      rcases ends with impossible | impossible | impossible | impossible <;>
        cases impossible

theorem ended (step : Step before after) (ends : before.Ends) :
    after.Ends := by
  cases step with
  | stay => exact ends
  | begin => exact Or.inr (Or.inr (Or.inl rfl))
  | finish => exact Or.inr (Or.inr (Or.inr rfl))
  | enter mood =>
      rcases ends with isDoomed | impossible | impossible | impossible
      · cases isDoomed
        exact Or.inr (Or.inl rfl)
      · cases impossible
      · cases impossible
      · cases impossible
  | leave mood =>
      rcases ends with impossible | isDoomed | impossible | impossible
      · cases impossible
      · cases isDoomed
        exact Or.inl rfl
      · cases impossible
      · cases impossible
  | light mood addr plain =>
      rcases ends with impossible | isDoomed | impossible | impossible
      · cases impossible
      · cases isDoomed
        exact absurd rfl plain
      · cases impossible
      · cases impossible
  | _ =>
      rcases ends with impossible | impossible | impossible | impossible <;>
        cases impossible

theorem vanished (step : Step before after) (isVanished : after = .vanished) :
    before = .vanished := by
  cases step with
  | stay => exact isVanished
  | _ => cases isVanished

theorem removes (step : Step before after) (removes : before.Removes) :
    after.Removes := by
  cases step with
  | stay => exact removes
  | finish => exact Or.inr rfl
  | _ => rcases removes with impossible | impossible <;> cases impossible

theorem removed (step : Step before after) (removed : before = .removed) :
    after = .removed := by
  cases step with
  | stay => exact removed
  | _ => cases removed

end Stage.Step

section Call

variable {call : Call} {next : call.Answer → Prog Label}
variable {answer : call.Answer} {world : World} {stage : Stage}

theorem next_step (answer : call.Answer)
    (allowed : (script paths key mutex).allow stage call) :
    stage.Step ((script paths key mutex).next stage call answer) := by
  cases call with
  | semget name nsems creat excl =>
      have isFresh : stage = .fresh := allowed.1
      subst isFresh
      cases (answer : Except Errno IpcId) with
      | ok id =>
          cases creat with
          | true => exact .make
          | false => exact .find
      | error errno => exact .stay _
  | semctlSetall =>
      have isMaker : stage = .maker := allowed.1
      subst isMaker
      exact .arm
  | semop id semNum semOp undo nowait =>
      rcases allowed.2.2.2.2 with ⟨rfl, rfl | ⟨mood, rfl⟩⟩ | ⟨rfl, mood, rfl⟩
      · exact .stay _
      · exact .enter mood
      · exact .leave mood
  | store target offset value =>
      rcases allowed with ⟨mood, rfl, _⟩
      cases (answer : Option Unit) with
      | none => exact .stay _
      | some success =>
          show Stage.Step _ (if offset = OFFSET_ACTIVE.toNat then
            (Stage.inside mood).lights target else .inside mood)
          split
          · cases mood with
            | doomed => exact .stay _
            | plain => exact .light .plain target (by simp)
            | lit addr => exact .light (.lit addr) target (by simp)
          · exact .stay _
  | semctlRmid id =>
      have isDoomed : stage = .outside .doomed := allowed.1
      subst isDoomed
      exact .begin
  | shmctlRmid id =>
      have isRemoving : stage = .removing := allowed
      subst isRemoving
      exact .finish
  | _ => exact .stay _

variable {decay}

/-- A call on the store that is not refused. -/
theorem exec_granted (ipc : ofProcess call = false)
    (exec : (system paths decay Grants).exec process call crew.state answer
      world) :
    ∃ choice, grant process choice (crew.state.store.advance choice.tick)
      call = some (answer, world.store) := by
  rcases exec_store paths decay exec with ⟨impossible, _⟩ | exec
  · rw [ipc] at impossible
    cases impossible
  · rcases granting_exec_iff.mp exec with ⟨choice, _, _, granted⟩
    exact ⟨choice, granted⟩

/-- While a process still needs the segment nobody else is to remove it. -/
theorem Sound.nobody (sound : Sound paths key mutex crew stages)
    (running : crew.procs process = some (.issue call next))
    (needs : ¬ Apart call) :
    ∀ other, other ≠ process → ¬ (stages other).Ends := by
  intro other different ends
  have finished := sound.ends other ends process (Ne.symm different)
  exact needs (finished _ running).1.1

theorem Sound.guards (sound : Sound paths key mutex crew stages)
    (running : crew.procs process = some (.issue call next))
    (needs : ¬ Apart call) (uses : (stages process).Uses) :
    ∃ state, Guards mutex state crew.state.store
      fun other => (stages other).Inside := by
  apply sound.guarded process uses
  intro other removes
  by_cases same : other = process
  · rw [same] at removes
    exact removes.uses uses
  · exact sound.nobody running needs other same removes.ends

/-- An operation on the mutex succeeds, unless a process waits for
itself. -/
theorem Sound.semop (sound : Sound paths key mutex crew stages)
    {id : IpcId} {semNum : Nat} {semOp : Int} {undo nowait : Bool}
    {next : Except Errno Unit → Prog Label} {outcome : Except Errno Unit}
    (running : crew.procs process =
      some (.issue (.semop id semNum semOp undo nowait) next))
    (allowed : (script paths key mutex).allow (stages process)
      (.semop id semNum semOp undo nowait))
    (exec : (system paths decay Grants).exec process
      (.semop id semNum semOp undo nowait) crew.state outcome world) :
    outcome = .ok () ∧ stages process ≠ .stuck ∧
      ∃ state, Guards mutex state world.store fun other =>
        (Function.update stages process ((stages process).turns semOp)
          other).Inside := by
  rcases allowed with ⟨rfl, rfl, rfl, rfl, turn⟩
  rcases exec_granted rfl exec with ⟨choice, granted⟩
  have needs : ¬ Apart (.semop id 0 semOp true false) := not_false
  have elsewhere : ∀ other, other ≠ process →
      ((Function.update stages process ((stages process).turns semOp)
        other).Inside ↔ (stages other).Inside) := by
    intro other different
    rw [Function.update_of_ne different]
  have uses : (stages process).Uses := by
    rcases turn with ⟨_, isStuck | ⟨mood, isOutside⟩⟩ | ⟨_, mood, isInside⟩
    · rw [isStuck]
      trivial
    · rw [isOutside]
      trivial
    · rw [isInside]
      trivial
  rcases sound.guards running needs uses with ⟨state, guards⟩
  have later : Guards id state (crew.state.store.advance choice.tick)
      fun other => (stages other).Inside := guards.stay rfl fun _ => Iff.rfl
  rcases turn with ⟨rfl, isStuck | ⟨mood, isOutside⟩⟩ | ⟨rfl, mood, isInside⟩
  · have here : (stages process).Inside := by
      rw [isStuck]
      trivial
    have held := (later.holder process).mp here
    have free := (later.represents.take later.present granted).1
    rw [held] at free
    cases free
  · have own : (Function.update stages process
        ((stages process).turns (-1)) process).Inside := by
      rw [Function.update_self, isOutside]
      trivial
    rcases later.take granted own elsewhere with ⟨succeeded, _, taken⟩
    exact ⟨succeeded, by simp [isOutside], _, taken⟩
  · have here : (stages process).Inside := by
      rw [isInside]
      trivial
    have own : ¬ (Function.update stages process
        ((stages process).turns 1) process).Inside := by
      rw [Function.update_self, isInside]
      exact not_false
    rcases later.give here granted own elsewhere with ⟨succeeded, given⟩
    exact ⟨succeeded, by simp [isInside], _, given⟩

/-- What a process relies on. -/
theorem Sound.relied (sound : Sound paths key mutex crew stages)
    (running : crew.procs process = some (.issue call next))
    (allowed : (script paths key mutex).allow (stages process) call)
    (exec : (system paths decay Grants).exec process call crew.state answer
      world) (known : call ≠ .execvp) :
    (script paths key mutex).answer (stages process) call answer := by
  cases call with
  | semget name nsems creat excl =>
      rcases allowed with ⟨isFresh, rfl, exclusive⟩
      have unmade := sound.kept process
      rw [isFresh] at unmade
      rcases exec_granted rfl exec with ⟨choice, granted⟩
      have later : Unmade (mutexKey paths key) mutex
          (crew.state.store.advance choice.tick) := unmade.of_same ⟨rfl, rfl⟩
      intro id same
      exact ((later.semget exclusive (Option.some.inj granted) process).1 id
        same).1
  | semctlSetall id array =>
      rcases allowed with ⟨isMaker, rfl, rfl⟩
      have raw := sound.kept process
      rw [isMaker] at raw
      rcases exec_granted rfl exec with ⟨choice, granted⟩
      have later : Represents id (.raw process)
          (crew.state.store.advance choice.tick) := Represents.of_same raw rfl
      have armed := later.setall (by simp)
      rw [Option.some.inj granted] at armed
      exact armed.1
  | semctlGetval id semnum =>
      rcases allowed with ⟨⟨mood, isInside⟩, rfl, rfl⟩
      have here : (stages process).Inside := by
        rw [isInside]
        trivial
      have needs : ¬ Apart (.semctlGetval id 0) := not_false
      rcases sound.guards running needs here.uses with ⟨state, guards⟩
      rcases exec_granted rfl exec with ⟨choice, granted⟩
      have value := guards.getval here
      have read : (crew.state.store.advance choice.tick).semctlGetval id 0 =
          answer := congrArg Prod.fst (Option.some.inj granted)
      exact read.symm.trans value
  | semop id semNum semOp undo nowait =>
      have done := sound.semop running allowed exec
      exact ⟨done.1, done.2.1⟩
  | load target offset =>
      rintro isLit rfl isZero
      have needs : ¬ Apart (.load target OFFSET_ACTIVE.toNat) := not_false
      have lit : (stages process).Lit target := Or.inl isLit
      have nobody : ∀ other, ¬ (stages other).Ends := by
        intro other
        by_cases same : other = process
        · rw [same]
          exact lit.ends
        · exact sound.nobody running needs other same
      apply sound.lit process target lit nobody
      rw [isZero] at exec
      exact call_load paths decay exec
  | sigaction signal =>
      rcases exec with ⟨choice, grants, served⟩
      simp only [World.serve, grants.1] at served
      cases served
      rfl
  | execvp => exact absurd rfl known
  | _ => trivial

theorem Sound.kept_called (sound : Sound paths key mutex crew stages)
    (allowed : (script paths key mutex).allow (stages process) call)
    (exec : (system paths decay Grants).exec process call crew.state answer
      world) :
    Kept (mutexKey paths key) mutex world.store process
      ((script paths key mutex).next (stages process) call answer) := by
  by_cases makes : ((script paths key mutex).next (stages process) call
    answer).Making
  · have before := (next_step answer allowed).making makes
    have kept := sound.kept process
    cases call with
    | semget name nsems creat excl =>
        rcases allowed with ⟨isFresh, rfl, exclusive⟩
        rw [isFresh] at kept ⊢
        rcases exec_granted rfl exec with ⟨choice, granted⟩
        have later : Unmade (mutexKey paths key) mutex
            (crew.state.store.advance choice.tick) := kept.of_same ⟨rfl, rfl⟩
        have made := later.semget exclusive (Option.some.inj granted) process
        cases (answer : Except Errno IpcId) with
        | ok id =>
            have represents := (made.1 id rfl).2
            cases creat with
            | true => exact represents
            | false => trivial
        | error errno =>
            have same := made.2 errno rfl
            show Unmade _ _ _
            rw [same]
            exact later
    | semctlSetall => rcases makes with makes | makes <;> cases makes
    | semctlRmid => rcases makes with makes | makes <;> cases makes
    | shmctlRmid => rcases makes with makes | makes <;> cases makes
    | semop =>
        rcases allowed.2.2.2.2 with ⟨_, stage | ⟨mood, stage⟩⟩ |
          ⟨_, mood, stage⟩ <;> rw [stage] at before <;>
            rcases before with before | before <;> cases before
    | store =>
        rcases allowed with ⟨mood, stage, _⟩
        rw [stage] at before
        rcases before with before | before <;> cases before
    | interruptible => exact allowed.elim
    | _ => exact kept.of_same (exec_sems paths decay rfl exec)
  · exact kept_elsewhere makes

/-- The mutex is there, and nobody else is. -/
theorem Sound.guards_new (sound : Sound paths key mutex crew stages)
    (makes : (stages process).Making) (outside : ¬ stage.Inside)
    (free : Represents mutex .free world.store) :
    Guards mutex .free world.store
      fun other => (Function.update stages process stage other).Inside where
  represents := free
  present := by simp
  holder := by
    intro other
    refine iff_of_false ?_ (by simp)
    intro inside
    by_cases same : other = process
    · rw [same, Function.update_self] at inside
      exact outside inside
    · rw [Function.update_of_ne same] at inside
      rcases sound.gone other (sound.alone process makes other same) with
        isVanished | removes
      · rw [isVanished] at inside
        exact inside
      · exact removes.uses inside.uses

/-- Beside a process that is to have a mutex nobody needs it. -/
theorem Sound.uses_alone (sound : Sound paths key mutex crew stages)
    (makes : (stages process).Making) {user : Pid}
    (uses : (Function.update stages process stage user).Uses) :
    stage.Uses := by
  by_cases same : user = process
  · rwa [same, Function.update_self] at uses
  · rw [Function.update_of_ne same] at uses
    rcases sound.gone user (sound.alone process makes user same) with
      isVanished | removes
    · rw [isVanished] at uses
      exact uses.elim
    · exact absurd uses removes.uses

theorem Sound.guards_called (sound : Sound paths key mutex crew stages)
    (running : crew.procs process = some (.issue call next))
    (allowed : (script paths key mutex).allow (stages process) call)
    (exec : (system paths decay Grants).exec process call crew.state answer
      world) {user : Pid}
    (uses : (Function.update stages process
      ((script paths key mutex).next (stages process) call answer)
        user).Uses)
    (nobody : ∀ other, ¬ (Function.update stages process
      ((script paths key mutex).next (stages process) call answer)
        other).Removes) :
    ∃ state, Guards mutex state world.store fun other =>
      (Function.update stages process
        ((script paths key mutex).next (stages process) call answer)
          other).Inside := by
  have step := next_step answer allowed
  -- A call that is none on the mutex.
  have quiet : SameSems crew.state.store world.store →
      (((script paths key mutex).next (stages process) call answer).Inside ↔
        (stages process).Inside) →
      (((script paths key mutex).next (stages process) call answer).Uses →
        (stages process).Uses) →
      ∃ state, Guards mutex state world.store fun other =>
        (Function.update stages process
          ((script paths key mutex).next (stages process) call answer)
            other).Inside := by
    intro same inside used
    have user' : (stages user).Uses := by
      by_cases isSame : user = process
      · rw [isSame, Function.update_self] at uses
        rw [isSame]
        exact used uses
      · rwa [Function.update_of_ne isSame] at uses
    have nobody' : ∀ other, ¬ (stages other).Removes := by
      intro other removes
      apply nobody other
      by_cases isSame : other = process
      · rw [isSame] at removes
        rw [isSame, Function.update_self]
        exact step.removes removes
      · rwa [Function.update_of_ne isSame]
    rcases sound.guarded user user' nobody' with ⟨state, guards⟩
    refine ⟨state, guards.stay (congrFun same.1 mutex) ?_⟩
    intro other
    by_cases isSame : other = process
    · rw [isSame, Function.update_self]
      exact inside
    · rw [Function.update_of_ne isSame]
  cases call with
  | semget name nsems creat excl =>
      rcases allowed with ⟨isFresh, rfl, exclusive⟩
      have makes : (stages process).Making := Or.inl isFresh
      have own := sound.uses_alone makes uses
      have unmade := sound.kept process
      rw [isFresh] at unmade own
      rcases exec_granted rfl exec with ⟨choice, granted⟩
      have later : Unmade (mutexKey paths key) mutex
          (crew.state.store.advance choice.tick) := unmade.of_same ⟨rfl, rfl⟩
      have made := later.semget exclusive (Option.some.inj granted) process
      cases (answer : Except Errno IpcId) with
      | ok id =>
          have represents := (made.1 id rfl).2
          cases creat with
          | true => exact own.elim
          | false => exact ⟨_, sound.guards_new makes not_false represents⟩
      | error errno => exact own.elim
  | semctlSetall id array =>
      rcases allowed with ⟨isMaker, rfl, rfl⟩
      have raw := sound.kept process
      rw [isMaker] at raw
      rcases exec_granted rfl exec with ⟨choice, granted⟩
      have later : Represents id (.raw process)
          (crew.state.store.advance choice.tick) := Represents.of_same raw rfl
      have armed := later.setall (by simp)
      rw [Option.some.inj granted] at armed
      exact ⟨_, sound.guards_new (Or.inr isMaker) not_false armed.2.1⟩
  | semop id semNum semOp undo nowait =>
      exact (sound.semop running allowed exec).2.2
  | semctlRmid id =>
      exact absurd (by rw [Function.update_self]; exact Or.inl rfl)
        (nobody process)
  | store target offset value =>
      apply quiet (exec_sems paths decay rfl exec)
      · cases (answer : Option Unit) with
        | none => rfl
        | some success =>
            show Stage.Inside (if offset = OFFSET_ACTIVE.toNat then
              (stages process).lights target else stages process) ↔ _
            split
            · exact Stage.lights_inside
            · rfl
      · intro _
        rcases allowed with ⟨mood, isInside, _⟩
        rw [isInside]
        trivial
  | shmctlRmid id =>
      exact absurd (by rw [Function.update_self]; exact Or.inr rfl)
        (nobody process)
  | interruptible => exact allowed.elim
  | _ => exact quiet (exec_sems paths decay rfl exec) Iff.rfl id

/-- No call of a process that follows the script takes the activity away. -/
theorem Sound.word_kept (sound : Sound paths key mutex crew stages)
    (allowed : (script paths key mutex).allow (stages process) call)
    (exec : (system paths decay Grants).exec process call crew.state answer
      world) {user : Pid} {addr : Addr} (lit : (stages user).Lit addr)
    (nobody : ∀ other, ¬ (stages other).Ends) :
    wordAt world.store addr OFFSET_ACTIVE.toNat ≠ some 0 := by
  intro found
  have words : call.writesBytes = false := by
    cases call <;> first | rfl | exact allowed.elim
  rcases call_word paths decay words exec found with
    before | ⟨name, size, excl, rfl, _⟩ | rfl | ⟨n, rfl, _⟩
  · exact sound.lit user addr lit nobody before
  · have isFresh : stages process = .fresh := allowed
    by_cases same : user = process
    · rw [same, isFresh] at lit
      rcases lit with impossible | impossible <;> cases impossible
    · have uses := lit.uses
      rcases sound.gone user
        (sound.alone process (Or.inl isFresh) user same) with isVanished | removes
      · rw [isVanished] at uses
        exact uses
      · exact removes.uses uses
  · rcases allowed with ⟨mood, isInside, nonzero⟩
    apply nonzero _ rfl rfl
    rintro rfl
    exact nobody process (Or.inr (Or.inl isInside))
  · have isRemoving : stages process = .removing := allowed
    exact nobody process (Or.inr (Or.inr (Or.inl isRemoving)))

theorem Sound.lit_called (sound : Sound paths key mutex crew stages)
    (allowed : (script paths key mutex).allow (stages process) call)
    (exec : (system paths decay Grants).exec process call crew.state answer
      world) {user : Pid} {addr : Addr}
    (lit : (Function.update stages process
      ((script paths key mutex).next (stages process) call answer)
        user).Lit addr)
    (nobody : ∀ other, ¬ (Function.update stages process
      ((script paths key mutex).next (stages process) call answer)
        other).Ends) :
    wordAt world.store addr OFFSET_ACTIVE.toNat ≠ some 0 := by
  have step := next_step answer allowed
  have nobody' : ∀ other, ¬ (stages other).Ends := by
    intro other ends
    apply nobody other
    by_cases same : other = process
    · rw [same] at ends
      rw [same, Function.update_self]
      exact step.ended ends
    · rwa [Function.update_of_ne same]
  by_cases same : user = process
  · rw [same, Function.update_self] at lit
    cases call with
    | store target offset value =>
        cases (answer : Option Unit) with
        | none => exact sound.word_kept allowed exec lit nobody'
        | some success =>
            have written : (if offset = OFFSET_ACTIVE.toNat then
                (stages process).lights target else stages process).Lit addr :=
              lit
            by_cases isActive : offset = OFFSET_ACTIVE.toNat
            · rw [if_pos isActive] at written
              rcases allowed with ⟨mood, isInside, nonzero⟩
              have plain : mood ≠ .doomed := by
                rintro rfl
                exact nobody' process (Or.inr (Or.inl isInside))
              have isTarget : target = addr :=
                Stage.lights_lit plain isInside written
              have stored := (call_stored paths decay exec).2
              rw [isActive, isTarget] at stored
              rw [stored]
              intro isZero
              exact nonzero plain isActive (Option.some.inj isZero)
            · rw [if_neg isActive] at written
              exact sound.word_kept allowed exec written nobody'
    | semop =>
        exact sound.word_kept allowed exec (Stage.turns_lit lit) nobody'
    | semget name nsems creat excl =>
        rcases allowed with ⟨isFresh, _⟩
        cases (answer : Except Errno IpcId) with
        | ok id =>
            cases creat with
            | true => rcases lit with lit | lit <;> cases lit
            | false => rcases lit with lit | lit <;> cases lit
        | error errno =>
            rcases lit with lit | lit <;> rw [isFresh] at lit <;> cases lit
    | semctlSetall => rcases lit with lit | lit <;> cases lit
    | semctlRmid => rcases lit with lit | lit <;> cases lit
    | shmctlRmid => rcases lit with lit | lit <;> cases lit
    | _ => exact sound.word_kept allowed exec lit nobody'
  · rw [Function.update_of_ne same] at lit
    exact sound.word_kept allowed exec lit nobody'

theorem Sound.called (sound : Sound paths key mutex crew stages)
    (running : crew.procs process = some (.issue call next))
    (allowed : (script paths key mutex).allow (stages process) call)
    (exec : (system paths decay Grants).exec process call crew.state answer
      world) :
    Sound paths key mutex
      (crew.record (.call process ⟨call, answer⟩) world
        (Function.update crew.procs process (some (next answer))))
      (Function.update stages process
        ((script paths key mutex).next (stages process) call answer)) := by
  have alive : crew.procs process ≠ none := by simp [running]
  have step := next_step answer allowed
  have buffers := call_buffer paths decay exec
  have masks := exec_mask paths decay exec
  apply sound.moved alive step.making
  · intro impossible
    cases impossible
  · intro _ isVanished
    exact sound.live process alive (step.vanished isVanished)
  · exact sound.kept_called allowed exec
  · intro user uses nobody
    exact sound.guards_called running allowed exec uses nobody
  · intro user addr lit nobody
    exact sound.lit_called allowed exec lit nobody
  · intro ends
    exact Or.inl (step.ends ends)
  · by_cases ended : ∃ other, other ≠ process ∧ (stages other).Ends
    · left
      rcases ended with ⟨other, different, ends⟩
      have finished := sound.ends other ends process (Ne.symm different) _
        running
      rintro program ⟨⟩
      exact ⟨finished.1.2 answer, by rw [buffers]; exact finished.2⟩
    · right
      intro other different ends
      exact ended ⟨other, different, ends⟩
  · intro _ ends
    rw [masks]
    exact sound.masked process alive (step.ends ends)
  · intro _ saved isSaved
    rw [buffers] at isSaved
    have known := sound.buffer process saved alive isSaved
    exact ⟨known.1, fun makes => known.2 (step.making makes)⟩
  · intro other _
    rw [buffers, masks]
    exact ⟨rfl, rfl⟩
  · exact step.removes
  · exact step.removed
  · intro actor id outcome same
    cases same
    exact ⟨rfl, Or.inl rfl⟩
  · intro actor id outcome same
    cases same
    exact ⟨rfl, rfl⟩

end Call

/-! ## The other moves -/

section Moves

variable {world : World} {parent child : Pid}

/-- A `fork` is made while nobody is to remove the segment. -/
theorem Sound.forked (sound : Sound paths key mutex crew stages)
    {call : Call} {here there : Prog Label} {mood : Mood}
    (alive : crew.procs parent ≠ none) (fresh : crew.procs child = none)
    (isOutside : stages parent = .outside mood) (plain : mood ≠ .doomed)
    (nobody : ∀ other, ¬ (stages other).Ends) :
    Sound paths key mutex
      (crew.record (.fork parent child call)
        (crew.state.clone parent child)
        (Function.update (Function.update crew.procs parent (some here)) child
          (some there)))
      (Function.update stages child (.outside mood)) := by
  have different : parent ≠ child := by
    rintro rfl
    exact alive fresh
  have quiet : ¬ (Stage.outside mood).Ends := by
    rintro (isDoomed | impossible | impossible | impossible)
    · cases isDoomed
      exact plain rfl
    · cases impossible
    · cases impossible
    · cases impossible
  have nobody' : ∀ other,
      ¬ (Function.update stages child (.outside mood) other).Ends := by
    intro other ends
    by_cases same : other = child
    · rw [same, Function.update_self] at ends
      exact quiet ends
    · rw [Function.update_of_ne same] at ends
      exact nobody other ends
  constructor
  · intro actor dead
    by_cases same : actor = child
    · simp [same] at dead
    · rw [Function.update_of_ne same]
      apply sound.gone actor
      by_cases isParent : actor = parent
      · simp [isParent, different] at dead
      · simpa [same, isParent] using dead
  · intro actor lives
    by_cases same : actor = child
    · rw [same, Function.update_self]
      simp
    · rw [Function.update_of_ne same]
      apply sound.live actor
      by_cases isParent : actor = parent
      · rwa [isParent]
      · simpa [same, isParent] using lives
  · intro actor makes
    by_cases same : actor = child
    · rw [same, Function.update_self] at makes
      rcases makes with makes | makes <;> cases makes
    · rw [Function.update_of_ne same] at makes
      by_cases isParent : actor = parent
      · rw [isParent, isOutside] at makes
        rcases makes with makes | makes <;> cases makes
      · exact absurd (sound.alone actor makes parent (Ne.symm isParent)) alive
  · intro actor
    by_cases same : actor = child
    · rw [same, Function.update_self]
      trivial
    · rw [Function.update_of_ne same]
      exact (sound.kept actor).of_same ⟨rfl, rfl⟩
  · intro _ _ _
    have uses : (stages parent).Uses := by
      rw [isOutside]
      trivial
    rcases sound.guarded parent uses
      (fun other removes => nobody other removes.ends) with ⟨state, guards⟩
    refine ⟨state, guards.stay rfl ?_⟩
    intro other
    by_cases same : other = child
    · rw [same, Function.update_self]
      refine iff_of_false not_false ?_
      intro inside
      rcases sound.gone child fresh with isVanished | removes
      · rw [isVanished] at inside
        exact inside
      · exact removes.uses inside.uses
    · rw [Function.update_of_ne same]
  · intro user addr lit _
    rw [Crew.record_state, clone_word]
    by_cases same : user = child
    · rw [same, Function.update_self, ← isOutside] at lit
      exact sound.lit parent addr lit nobody
    · rw [Function.update_of_ne same] at lit
      exact sound.lit user addr lit nobody
  · intro actor ends
    exact absurd ends (nobody' actor)
  · intro actor _ ends
    exact absurd ends (nobody' actor)
  · intro actor saved lives isSaved
    have made : ¬ (Stage.outside mood).Making := by
      rintro (impossible | impossible) <;> cases impossible
    by_cases same : actor = child
    · rw [same, Function.update_self]
      rw [same, Crew.record_state] at isSaved
      have inherited : crew.state.buffer parent = some saved := by
        simpa [World.clone] using isSaved
      exact ⟨(sound.buffer parent saved alive inherited).1, made⟩
    · rw [Function.update_of_ne same]
      have kept : crew.state.buffer actor = some saved := by
        simpa [World.clone, same] using isSaved
      apply sound.buffer actor saved _ kept
      by_cases isParent : actor = parent
      · rwa [isParent]
      · simpa [same, isParent] using lives
  · intro actor id answer member
    rcases List.mem_cons.mp member with impossible | earlier
    · cases impossible
    · exact absurd (sound.begun actor id answer earlier).ends (nobody actor)
  · intro actor id answer member
    rcases List.mem_cons.mp member with impossible | earlier
    · cases impossible
    · have removed := sound.done actor id answer earlier
      exact absurd (Or.inr (Or.inr (Or.inr removed))) (nobody actor)

/-- A signal is caught in the loop. -/
theorem Sound.caught (sound : Sound paths key mutex crew stages)
    {program : Prog Label} {signal : Signal} {saved locals : Locals}
    (running : crew.procs process = some program)
    (deliverable : crew.state.deliverable process signal = true)
    (jmpbuf : crew.state.buffer process = some saved)
    (shmem : locals.shmem = saved.shmem)
    (proper : Proper crew (.jump process (.caught signal locals))) :
    ∃ stage, (script paths key mutex).stops stage (.caught signal locals) ∧
      Sound paths key mutex
        (crew.record (.jump process (.caught signal locals))
          (crew.state.catch process signal)
          (Function.update crew.procs process
            (some (.done (.caught signal locals)))))
        (Function.update stages process stage) := by
  have alive : crew.procs process ≠ none := by simp [running]
  have known := sound.buffer process saved alive jmpbuf
  have owns : Owns mutex locals.shmem := by
    rw [shmem]
    exact known.1
  have unended : ¬ (stages process).Ends := by
    intro ends
    have blocked := sound.masked process alive ends signal
    simp [World.deliverable, blocked] at deliverable
  have nobody : ∀ other, ¬ (stages other).Ends := by
    intro other ends
    by_cases same : other = process
    · exact unended (same ▸ ends)
    · have finished := sound.ends other ends process (Ne.symm same) _ running
      rw [finished.2] at jmpbuf
      cases jmpbuf
  have move : ∀ stage : Stage, ¬ stage.Making → stage ≠ .vanished →
      stage.Uses → (stages process).Uses →
      (stage.Inside ↔ (stages process).Inside) →
      (∀ addr, stage.Lit addr →
        wordAt crew.state.store addr OFFSET_ACTIVE.toNat ≠ some 0) →
      (stage.Ends → ∀ other, other ≠ process → Finished crew other) →
      Sound paths key mutex
        (crew.record (.jump process (.caught signal locals))
          (crew.state.catch process signal)
          (Function.update crew.procs process
            (some (.done (.caught signal locals)))))
        (Function.update stages process stage) := by
    intro stage made lives uses used inside lit ends
    apply sound.moved alive
    · exact fun makes => absurd makes made
    · intro impossible
      cases impossible
    · exact fun _ => lives
    · exact kept_elsewhere made
    · intro _ _ _
      rcases sound.guarded process used
        (fun other removes => nobody other removes.ends) with ⟨state, guards⟩
      refine ⟨state, guards.stay rfl ?_⟩
      intro other
      by_cases same : other = process
      · rw [same, Function.update_self]
        exact inside
      · rw [Function.update_of_ne same]
    · intro user addr isLit _
      by_cases same : user = process
      · rw [same, Function.update_self] at isLit
        exact lit addr isLit
      · rw [Function.update_of_ne same] at isLit
        exact sound.lit user addr isLit nobody
    · exact fun ended => Or.inr (ends ended)
    · exact Or.inr fun other _ => nobody other
    · intro _ _ other
      simp [World.catch]
    · intro _ saved' isSaved
      exact ⟨(sound.buffer process saved' alive isSaved).1, made⟩
    · intro other different
      simp [World.catch, different]
    · exact fun removes => absurd removes.ends (nobody process)
    · intro removed
      exact absurd (Or.inr (Or.inr (Or.inr removed))) (nobody process)
    · intro _ _ _ impossible
      cases impossible
    · intro _ _ _ impossible
      cases impossible
  have stuck : (stages process).Inside →
      Sound paths key mutex
        (crew.record (.jump process (.caught signal locals))
          (crew.state.catch process signal)
          (Function.update crew.procs process
            (some (.done (.caught signal locals)))))
        (Function.update stages process .stuck) := by
    intro inside
    apply move .stuck
    · rintro (impossible | impossible) <;> cases impossible
    · simp
    · trivial
    · exact inside.uses
    · exact iff_of_true trivial inside
    · rintro addr (impossible | impossible) <;> cases impossible
    · rintro (impossible | impossible | impossible | impossible) <;>
        cases impossible
  cases isStage : stages process with
  | fresh => exact absurd (Or.inl isStage) known.2
  | maker => exact absurd (Or.inr isStage) known.2
  | removing => exact absurd (Or.inr (Or.inr (Or.inl isStage))) unended
  | removed => exact absurd (Or.inr (Or.inr (Or.inr isStage))) unended
  | vanished => exact absurd isStage (sound.live process alive)
  | inside mood =>
      refine ⟨.stuck, ⟨owns, Or.inl rfl⟩, stuck ?_⟩
      rw [isStage]
      trivial
  | stuck =>
      refine ⟨.stuck, ⟨owns, Or.inl rfl⟩, stuck ?_⟩
      rw [isStage]
      trivial
  | outside mood =>
      by_cases ends : Ends signal
      · refine ⟨.outside .doomed, ⟨owns, Or.inr (Or.inl ⟨ends, rfl⟩)⟩, ?_⟩
        apply move
        · rintro (impossible | impossible) <;> cases impossible
        · simp
        · trivial
        · rw [isStage]
          trivial
        · rw [isStage]
          rfl
        · rintro addr (impossible | impossible) <;> cases impossible
        · exact fun _ => proper.1 ends
      · refine ⟨.outside (.lit locals.shmem.addr),
          ⟨owns, Or.inr (Or.inr ⟨ends, rfl⟩)⟩, ?_⟩
        apply move
        · rintro (impossible | impossible) <;> cases impossible
        · simp
        · trivial
        · rw [isStage]
          trivial
        · rw [isStage]
          rfl
        · rintro addr (same | impossible)
          · cases same
            exact proper.2 ends
          · cases impossible
        · rintro (impossible | impossible | impossible | impossible) <;>
            cases impossible

/-- The end of a process; one that was to remove the segment leaves it to
nobody. -/
theorem Sound.left (sound : Sound paths key mutex crew stages)
    {move : Moves} {stage : Stage} (alive : crew.procs process ≠ none)
    (silent : ∀ actor event, move ≠ .call actor event)
    (after : (stages process).Ends ∧ stage = .removed ∨
      ¬ (stages process).Ends ∧ stage = .vanished) :
    Sound paths key mutex
      (crew.record move (crew.state.leave process)
        (Function.update crew.procs process none))
      (Function.update stages process stage) := by
  have ended : stage.Ends → (stages process).Ends := by
    rcases after with ⟨ends, _⟩ | ⟨_, rfl⟩
    · exact fun _ => ends
    · rintro (impossible | impossible | impossible | impossible) <;>
        cases impossible
  have ends : (stages process).Ends → stage = .removed := by
    intro ends
    rcases after with ⟨_, removed⟩ | ⟨impossible, _⟩
    · exact removed
    · exact absurd ends impossible
  have unused : ¬ stage.Uses := by
    rcases after with ⟨_, rfl⟩ | ⟨_, rfl⟩ <;> exact not_false
  have gone : stage = .vanished ∨ stage.Removes := by
    rcases after with ⟨_, rfl⟩ | ⟨_, rfl⟩
    · exact Or.inr (Or.inr rfl)
    · exact Or.inl rfl
  have elsewhere : ∀ user,
      (Function.update stages process stage user).Uses → user ≠ process := by
    rintro user uses rfl
    rw [Function.update_self] at uses
    exact unused uses
  apply sound.moved alive
  · intro makes
    rcases gone with rfl | removes
    · rcases makes with makes | makes <;> cases makes
    · exact absurd makes removes.ends.making
  · exact fun _ => gone
  · intro impossible
    exact absurd rfl impossible
  · apply kept_elsewhere
    rcases gone with rfl | removes
    · rintro (impossible | impossible) <;> cases impossible
    · exact removes.ends.making
  · intro user uses nobody
    have different := elsewhere user uses
    rw [Function.update_of_ne different] at uses
    have nobody' : ∀ other, ¬ (stages other).Removes := by
      intro other removes
      apply nobody other
      by_cases same : other = process
      · rw [same, Function.update_self, ends (same ▸ removes.ends)]
        exact Or.inr rfl
      · rwa [Function.update_of_ne same]
    rcases sound.guarded user uses nobody' with ⟨state, guards⟩
    refine ⟨_, guards.leave ?_ ?_⟩
    · rw [Function.update_self]
      exact fun inside => unused inside.uses
    · intro other different
      rw [Function.update_of_ne different]
  · intro user addr lit nobody
    have different := elsewhere user lit.uses
    rw [Function.update_of_ne different] at lit
    have nobody' : ∀ other, ¬ (stages other).Ends := by
      intro other ends'
      apply nobody other
      by_cases same : other = process
      · rw [same, Function.update_self, ends (same ▸ ends')]
        exact Or.inr (Or.inr (Or.inr rfl))
      · rwa [Function.update_of_ne same]
    intro found
    exact sound.lit user addr lit nobody' (Store.leave_word found)
  · exact fun ends => Or.inl (ended ends)
  · left
    intro program impossible
    cases impossible
  · intro impossible
    exact absurd rfl impossible
  · intro impossible
    exact absurd rfl impossible
  · intro other different
    simp [World.leave, different]
  · intro removes
    rw [ends removes.ends]
    exact Or.inr rfl
  · rintro removed
    exact ends (Or.inr (Or.inr (Or.inr removed)))
  · intro actor id answer same
    exact absurd same (silent actor _)
  · intro actor id answer same
    exact absurd same (silent actor _)

/-- Nobody is to remove the segment while a process forks. -/
theorem Sound.nobody_forking (sound : Sound paths key mutex crew stages)
    {next : Int → Prog Label} {mood : Mood}
    (running : crew.procs parent = some (.issue .fork next))
    (isOutside : stages parent = .outside mood) (plain : mood ≠ .doomed)
    (other : Pid) : ¬ (stages other).Ends := by
  have needs : ¬ Apart .fork := not_false
  intro ends
  by_cases same : other = parent
  · rw [same, isOutside] at ends
    rcases ends with isDoomed | impossible | impossible | impossible
    · cases isDoomed
      exact plain rfl
    · cases impossible
    · cases impossible
    · cases impossible
  · exact sound.nobody running needs other same ends

/-- Going on from a label. -/
theorem Sound.entered (sound : Sound paths key mutex crew stages)
    {label : Label} {program : Prog Label}
    (running : crew.procs process = some (.done label))
    (busy : ¬ Idle (.done label))
    (stops : (script paths key mutex).stops (stages process) label) :
    Sound paths key mutex
      (crew.record (.enter process label)
        ((system paths decay Grants).enter process label crew.state)
        (Function.update crew.procs process (some program)))
      (Function.update stages process (stages process)) := by
  have alive : crew.procs process ≠ none := by simp [running]
  apply sound.moved alive id
  · intro impossible
    cases impossible
  · intro _
    exact sound.live process alive
  · rw [system, enter_store]
    exact sound.kept process
  · rw [Function.update_eq_self, system, enter_store]
    exact sound.guarded
  · rw [Function.update_eq_self, system, enter_store]
    exact sound.lit
  · exact Or.inl
  · right
    intro other different ends
    exact busy (sound.ends other ends process (Ne.symm different) _
      running).1
  · intro _
    rw [system, enter_mask]
    exact sound.masked process alive
  · intro _ saved isSaved
    cases label with
    | round locals =>
        have same : locals = saved := by
          simpa [system, Daemon.enter] using isSaved
        rcases stops with ⟨owns, mood, isOutside, _⟩
        rw [← same]
        refine ⟨owns, ?_⟩
        rw [isOutside]
        rintro (impossible | impossible) <;> cases impossible
    | returned locals => simp [system, Daemon.enter] at isSaved
    | _ => exact sound.buffer process saved alive isSaved
  · intro other different
    rw [system, enter_mask]
    cases label <;> simp [Daemon.enter, different]
  · exact id
  · exact id
  · intro _ _ _ impossible
    cases impossible
  · intro _ _ _ impossible
    cases impossible

/-- A child runs its command. -/
theorem Sound.execed (sound : Sound paths key mutex crew stages)
    {next : Errno → Prog Label}
    (running : crew.procs process = some (.issue .execvp next)) :
    Sound paths key mutex
      (crew.record (.jump process .command) (crew.state.exec process)
        (Function.update crew.procs process (some (.done .command))))
      (Function.update stages process (stages process)) := by
  have alive : crew.procs process ≠ none := by simp [running]
  have needs : ¬ Apart .execvp := not_false
  apply sound.moved alive id
  · intro impossible
    cases impossible
  · intro _
    exact sound.live process alive
  · exact (sound.kept process).of_same ⟨rfl, rfl⟩
  · rw [Function.update_eq_self]
    intro user uses nobody
    rcases sound.guarded user uses nobody with ⟨state, guards⟩
    exact ⟨state, guards.stay rfl fun _ => Iff.rfl⟩
  · rw [Function.update_eq_self]
    intro user addr lit nobody found
    exact sound.lit user addr lit nobody (Daemon.exec_word found)
  · exact Or.inl
  · exact Or.inr (sound.nobody running needs)
  · intro _
    exact sound.masked process alive
  · intro _ saved isSaved
    simp [World.exec] at isSaved
  · intro other different
    simp [World.exec, different]
  · exact id
  · exact id
  · intro _ _ _ impossible
    cases impossible
  · intro _ _ _ impossible
    cases impossible

/-- What happens outside leaves the segments, the masks and the contexts
alone. -/
theorem Sound.disturbed (sound : Sound paths key mutex crew stages)
    {event : Raise} :
    Sound paths key mutex
      (crew.record (.outside event)
        ((system paths decay Grants).disturb event crew.state) crew.procs)
      stages := by
  have same : ((system paths decay Grants).disturb event
      crew.state).store = crew.state.store := World.post_store
  refine ⟨sound.gone, sound.live, sound.alone, ?_, ?_, ?_, ?_, ?_, ?_, ?_,
    ?_⟩
  · intro process
    rw [Crew.record_state, same]
    exact sound.kept process
  · rw [Crew.record_state, same]
    exact sound.guarded
  · rw [Crew.record_state, same]
    exact sound.lit
  · intro process ends other different program running
    have finished := sound.ends process ends other different program running
    refine ⟨finished.1, ?_⟩
    rw [Crew.record_state, system, World.post_buffer]
    exact finished.2
  · rw [Crew.record_state, system, World.post_mask]
    exact sound.masked
  · rw [Crew.record_state, system, World.post_buffer]
    exact sound.buffer
  · intro process id answer member
    rcases List.mem_cons.mp member with impossible | earlier
    · cases impossible
    · exact sound.begun process id answer earlier
  · intro process id answer member
    rcases List.mem_cons.mp member with impossible | earlier
    · cases impossible
    · exact sound.done process id answer earlier

theorem preserves :
    Crew.Preserves (system paths decay Grants) Proper
      (script paths key mutex) (Sound paths key mutex) where
  call := by
    intro crew stages process call next answer world sound running allowed exec
      proper
    have known : call ≠ .execvp := by
      rintro rfl
      exact proper
    exact ⟨sound.relied running allowed exec known,
      sound.called running allowed exec⟩
  fork := by
    intro crew stages parent child call next here there sound running fresh
      allowed forks proper
    cases call with
    | fork =>
        simp only [system] at forks
        split at forks
        · cases forks
          rcases allowed with ⟨mood, isOutside, plain⟩
          have alive : crew.procs parent ≠ none := by simp [running]
          have stay : ∀ pid : Int, (script paths key mutex).next
              (stages parent) .fork pid = stages parent := fun _ => rfl
          refine ⟨trivial, trivial, ?_⟩
          rw [stay, stay, Function.update_eq_self, isOutside]
          exact sound.forked alive fresh isOutside plain
            (sound.nobody_forking running isOutside plain)
        · cases forks
    | _ => simp [system] at forks
  enter := by
    intro crew stages process label program sound running stops piece _
    rcases piece with ⟨stack, piece⟩
    have busy : ¬ Idle (.done label) := by
      rintro (rfl | ⟨status, rfl⟩) <;> cases piece
    exact ⟨follows_code decay stops piece,
      sound.entered decay running busy stops⟩
  jump := by
    intro crew stages process program label world sound running follows jumps
      proper
    cases jumps with
    | @caught _ _ signal saved locals deliverable jmpbuf shmem count =>
        exact sound.caught running deliverable jmpbuf shmem proper
    | @exec next =>
        exact ⟨stages process, trivial, sound.execed running⟩
  leave := by
    intro crew stages process program move sound running _ cause _
    have alive : crew.procs process ≠ none := by simp [running]
    have silent : ∀ actor event, move ≠ .call actor event := by
      rintro actor event rfl
      rcases cause with ⟨impossible, _⟩ | impossible <;> cases impossible
    by_cases ended : (stages process).Ends
    · exact ⟨.removed, sound.left alive silent
        (Or.inl ⟨ended, rfl⟩)⟩
    · exact ⟨.vanished, sound.left alive silent (Or.inr ⟨ended, rfl⟩)⟩
  outside := by
    intro crew stages event sound _
    exact sound.disturbed decay

end Moves

/-! ## A start and what comes of it -/

variable (paths key)

/-- The mutex of the channel does not exist, or it is free. -/
def Ready (store : Store) : Prop :=
  ∀ id, store.findSem (mutexKey paths key) = some id →
    Represents id .free store

/-- The mutex that a start finds or makes. -/
def mutexOf (store : Store) : IpcId :=
  (store.findSem (mutexKey paths key)).getD
    (store.nextSem (mutexKey paths key))

variable {paths key}

/-- The segment is used no more once it is removed, and by nobody else while
it is being removed, and no process comes to grief. -/
structure Unused (crew : Processes) : Prop where
  begun : ∀ remover id answer,
    .call remover ⟨.semctlRmid id, answer⟩ ∈ crew.log →
      ∀ process call next, process ≠ remover →
        crew.procs process = some (.issue call next) → ¬ Touches call
  done : ∀ remover id answer,
    .call remover ⟨.shmctlRmid id, answer⟩ ∈ crew.log →
      ∀ process call next,
        crew.procs process = some (.issue call next) → ¬ Touches call
  unharmed : ∀ process cause next,
    crew.procs process = some (.issue (.die cause) next) →
      cause ≠ .freed ∧ ∀ text, cause ≠ .assertion text

section Runs

variable {store : Store} {inherited : Signal → Bool} {starter : Pid}

theorem Ready.unmade (ready : Ready paths key store) :
    Unmade (mutexKey paths key) (mutexOf paths key store) store := by
  unfold mutexOf
  cases found : store.findSem (mutexKey paths key) with
  | none =>
      refine ⟨rfl, Or.inl ⟨?_, rfl⟩⟩
      by_contra present
      have isSome := Option.isSome_iff_ne_none.mpr present
      simp [Store.findSem, isSome] at found
  | some id =>
      rcases Store.findSem_eq_some_iff.mp found with ⟨isKey, isLast, _⟩
      exact ⟨isKey, Or.inr ⟨isLast, ready id found⟩⟩

theorem begin_simulated (ready : Ready paths key store) :
    Crew.Simulated (script paths key (mutexOf paths key store))
      (Sound paths key (mutexOf paths key store))
      (begin store inherited
        (Supervisors.starting key fun process => process = starter))
      fun process => if process = starter then .fresh else .vanished := by
  have label : ∀ process, Supervisors.starting key
      (fun process => decide (process = starter)) process =
        if process = starter then some (.main .start key) else none := by
    intro process
    simp [Supervisors.starting]
  have dead : ∀ process, process ≠ starter → (begin store inherited
      (Supervisors.starting key fun process =>
        decide (process = starter))).procs process = none := by
    intro process different
    simp [begin, label, different]
  have stage : ∀ process (property : Stage → Prop),
      property (if process = starter then .fresh else .vanished) →
        ¬ property .vanished → property .fresh ∧ process = starter := by
    intro process property holds fails
    by_cases same : process = starter
    · rw [if_pos same] at holds
      exact ⟨holds, same⟩
    · rw [if_neg same] at holds
      exact absurd holds fails
  refine ⟨⟨?_, ?_, ?_, ?_, ?_, ?_, ?_, ?_, ?_, ?_, ?_⟩, ?_⟩
  · intro process gone
    by_cases same : process = starter
    · simp [begin, label, same] at gone
    · exact Or.inl (if_neg same)
  · intro process lives
    by_cases same : process = starter
    · simp [same]
    · exact absurd (dead process same) lives
  · intro process makes other different
    apply dead
    have same := (stage process Stage.Making makes
      (by simp [Stage.Making])).2
    rwa [← same]
  · intro process
    by_cases same : process = starter
    · rw [if_pos same]
      exact ready.unmade
    · rw [if_neg same]
      trivial
  · intro process uses
    exact (stage process Stage.Uses uses not_false).1.elim
  · intro process addr lit
    have impossible := (stage process (Stage.Lit · addr) lit
      (by simp [Stage.Lit])).1
    simp [Stage.Lit] at impossible
  · intro process ends
    have impossible := (stage process Stage.Ends ends
      (by simp [Stage.Ends, Stage.Removes])).1
    simp [Stage.Ends, Stage.Removes] at impossible
  · intro process _ ends
    have impossible := (stage process Stage.Ends ends
      (by simp [Stage.Ends, Stage.Removes])).1
    simp [Stage.Ends, Stage.Removes] at impossible
  · intro process saved _ impossible
    cases impossible
  · intro process id answer member
    cases member
  · intro process id answer member
    cases member
  · intro process program running
    rcases begin_procs running with ⟨isLabel, found, rfl⟩
    rw [label] at found
    split at found
    · rename_i same
      cases found
      dsimp only
      rw [if_pos same]
      exact ⟨rfl, rfl, rfl⟩
    · cases found

/-- The script allows no use of a segment that is removed. -/
theorem not_allowed_touches {mutex : IpcId} {call : Call}
    (allowed : (script paths key mutex).allow .removed call) :
    ¬ Touches call := by
  intro touches
  cases call with
  | semctlGetval =>
      rcases allowed with ⟨⟨_, impossible⟩, _⟩
      cases impossible
  | semctlRmid => cases allowed.1
  | semop =>
      rcases allowed.2.2.2.2 with ⟨_, impossible | ⟨_, impossible⟩⟩ |
        ⟨_, _, impossible⟩ <;> cases impossible
  | load =>
      rcases allowed with ⟨_, impossible⟩
      cases impossible
  | store =>
      rcases allowed with ⟨_, impossible, _⟩
      cases impossible
  | memset => cases allowed
  | shmdt => cases allowed
  | shmctlRmid => cases allowed
  | _ => exact touches

/--
After one start no process uses the segment once it is removed, as long as no
call fails for want of a resource, `execvp` succeeds, the supervisor catches
signals only while the segment is active, and a signal that ends it only once
the other processes are done with the segment.
-/
theorem unused_after_removal (ready : Ready paths key store)
    (reach : Crew.Reach (system paths decay Grants) Proper
      (begin store inherited
        (Supervisors.starting key fun process => process = starter)) crew) :
    Unused crew := by
  rcases reach.simulated (preserves decay) (begin_simulated ready) with
    ⟨stages, sound, follows⟩
  constructor
  · intro remover id answer member process call next different running
    have removes := sound.begun remover id answer member
    have finished := sound.ends remover removes.ends process different _
      running
    exact finished.1.not_touches
  · intro remover id answer member process call next running touches
    have removed := sound.done remover id answer member
    by_cases same : process = remover
    · have allowed := (follows process _ running).1
      rw [same, removed] at allowed
      exact not_allowed_touches allowed touches
    · have ends : (stages remover).Ends := Or.inr (Or.inr (Or.inr removed))
      have finished := sound.ends remover ends process same _ running
      exact finished.1.not_touches touches
  · intro process cause next running
    exact (follows process _ running).1

end Runs

/-! ## Two runs -/

/-- The calls of `die`. -/
def dying (process : Pid) : List Turn :=
  calls process 17

/-- The check that a process is done with the segment. -/
def isFinished (crew : Processes) (process : Pid) : Bool :=
  match crew.procs process with
  | none => true
  | some (.done .command) => (crew.state.buffer process).isNone
  | some (.done (.ended _)) => (crew.state.buffer process).isNone
  | _ => false

theorem finished_of_isFinished {process : Pid}
    (finished : isFinished crew process = true) : Finished crew process := by
  intro program running
  unfold isFinished at finished
  rw [running] at finished
  cases program with
  | issue call next => cases finished
  | done label =>
      cases label with
      | command =>
          exact ⟨Or.inl rfl, Option.isNone_iff_eq_none.mp finished⟩
      | ended status =>
          exact ⟨Or.inr ⟨status, rfl⟩, Option.isNone_iff_eq_none.mp finished⟩
      | _ => cases finished

/-- The check that a move is proper; the signal is `SIGUSR1`. -/
def proper (crew : Processes) : Moves → Bool
  | .call _ ⟨.execvp, _⟩ => false
  | .jump process (.caught signal _) =>
      signal == .SIGUSR1 && (1 :: forked crew.log).all fun other =>
        other == process || isFinished crew other
  | _ => true

/-- The first process. -/
def one (process : Pid) : Bool :=
  process = 1

theorem proper_sound {move : Moves}
    (reach : Crew.Reach (system paths decay Grants) Crew.Unrestricted
      (begin (Store.empty 0) (fun _ => false) (Supervisors.starting key one))
        crew)
    (passed : proper crew move = true) : Proper crew move := by
  cases move with
  | call process event =>
      rcases event with ⟨call, answer⟩
      cases call with
      | execvp => cases passed
      | _ => trivial
  | jump process label =>
      cases label with
      | caught signal locals =>
          rcases Bool.and_eq_true_iff.mp passed with ⟨isFirst, finished⟩
          have isEnd : Ends signal := Or.inl (eq_of_beq isFirst)
          refine ⟨?_, fun impossible => absurd isEnd impossible⟩
          intro _ other different
          by_cases lives : crew.procs other = none
          · intro program running
            rw [lives] at running
            cases running
          · have isMember : other ∈ 1 :: forked crew.log := by
              rcases alive_or_forked reach lives with starts | isForked
              · have isOne : one other = true := by
                  by_contra impossible
                  apply starts
                  simp [begin, Supervisors.starting, impossible]
                simp [of_decide_eq_true isOne]
              · simp [isForked]
            have passes := List.all_eq_true.mp finished other isMember
            rcases Bool.or_eq_true_iff.mp passes with same | finished
            · exact absurd (eq_of_beq same) different
            · exact finished_of_isFinished finished
      | _ => trivial
  | _ => trivial

/-- A process has removed the segment. -/
def removedBy (process : Pid) (log : List Moves) : Bool :=
  log.any fun move =>
    match move with
    | .call actor ⟨.shmctlRmid _, _⟩ => actor == process
    | _ => false

/-- A supervisor is told to end while its child runs the command, and removes
the segment. -/
def ending : List Turn :=
  Supervisors.opening 1 19 ++ Supervisors.launch 1 ++
    Supervisors.firstRound 3 ++ Children.comeUp 4 ++ [.leave 2] ++
    .enter 1 .stopped :: calls 1 10 ++ [.raise 3 .SIGUSR1,
    .caught 3 .SIGUSR1, .enter 3 .stopped] ++ calls 3 5 ++ dying 3

/-- A child whose command cannot be run removes the segment. -/
def failing : List Turn :=
  Supervisors.opening 1 19 ++ Supervisors.launch 1 ++
    Supervisors.firstRound 3 ++ calls 4 13 ++ dying 4 ++ [.leave 4,
    .caught 3 .SIGCHLD, .enter 3 .stopped]

/-- The segment is removed by the one process that still uses it. -/
theorem unused_after_removal_ending :
    ∃ crew : Processes, removedBy 3 crew.log = true ∧ Unused crew := by
  have ready : Ready .devtmpfs 5 (Store.empty 0) := by
    intro id found
    cases found
  have computed : (Daemon.follow .devtmpfs (fun _ => 0) proper ending
      (begin (Store.empty 0) (fun _ => false)
        (Supervisors.starting 5 one))).any
          (fun crew => removedBy 3 crew.log) = true := by
    decide
  have choices : ∀ entry ∈ ending, entry.Admitted Grants :=
    Turn.admitted_grants (by decide)
  rcases Daemon.follow_reaches .devtmpfs (fun _ => 0)
    (fun crew move reach => proper_sound (fun _ => 0) reach) choices computed
    with ⟨crew, reach, final⟩
  exact ⟨crew, final, unused_after_removal (fun _ => 0) ready reach⟩

/-- A process is about to use the mutex. -/
def atMutex (process : Pid) (crew : Processes) : Bool :=
  match crew.procs process with
  | some (.issue (.semop ..) _) => true
  | _ => false

theorem mem_of_removedBy {process : Pid} {log : List Moves}
    (removed : removedBy process log = true) :
    ∃ id answer, .call process ⟨.shmctlRmid id, answer⟩ ∈ log := by
  rcases List.any_eq_true.mp removed with ⟨move, member, removes⟩
  cases move with
  | call actor event =>
      rcases event with ⟨call, answer⟩
      cases call with
      | shmctlRmid id =>
          have same : actor = process := eq_of_beq removes
          rw [same] at member
          exact ⟨id, answer, member⟩
      | _ => cases removes
  | _ => cases removes

theorem touches_of_atMutex {process : Pid} {crew : Processes}
    (uses : atMutex process crew = true) :
    ∃ call next, crew.procs process = some (.issue call next) ∧
      Touches call := by
  unfold atMutex at uses
  split at uses
  · rename_i running
    exact ⟨_, _, running, trivial⟩
  · cases uses

/-- A supervisor goes on to use the segment that its child has removed because
there is no such command. -/
theorem used_after_removal :
    ∃ crew : Processes,
      Crew.Reach (system .devtmpfs (fun _ => 0) Grants) Crew.Unrestricted
          (begin (Store.empty 0) (fun _ => false)
            (Supervisors.starting 5 one)) crew ∧
        ¬ Unused crew := by
  have computed : (Daemon.follow .devtmpfs (fun _ => 0) anything failing
      (begin (Store.empty 0) (fun _ => false)
        (Supervisors.starting 5 one))).any
          (fun crew => removedBy 4 crew.log && atMutex 3 crew) = true := by
    decide
  have choices : ∀ entry ∈ failing, entry.Admitted Grants :=
    Turn.admitted_grants (by decide)
  have admitted : ∀ (crew : Processes) (move : Moves),
      Crew.Reach (system .devtmpfs (fun _ => 0) Grants) Crew.Unrestricted
        (begin (Store.empty 0) (fun _ => false)
          (Supervisors.starting 5 one)) crew →
        anything crew move = true → Crew.Unrestricted crew move :=
    fun _ _ _ _ => trivial
  rcases Daemon.follow_reaches .devtmpfs (fun _ => 0) admitted choices
    computed with ⟨crew, reach, final⟩
  refine ⟨crew, reach, ?_⟩
  intro unused
  rcases Bool.and_eq_true_iff.mp final with ⟨removed, uses⟩
  rcases mem_of_removedBy removed with ⟨id, answer, member⟩
  rcases touches_of_atMutex uses with ⟨call, next, running, touches⟩
  exact unused.done 4 id answer member 3 call next running touches

end Atomicles.Removal
