import Atomicles.Daemon.Calls
import Atomicles.Daemon.Roles
import Atomicles.Daemon.Runs

/-!
# Whom the programs of a channel signal

The targets of `kill` are read from the words for the supervisor and its
child.  They are right as long as these words name processes of the channel,
which a `fork` that fails, a word that was cleared too early and a `memset`
of the wrong size each can change.
-/

namespace Atomicles.Targets

open Interaction Daemon

variable (paths : KeyPaths) (decay : UInt → Nat)

/-- The loop's `fork` does not fail, a supervisor that has caught a signal
finds a child, and no segment is cleared up to the middle of a word. -/
def Proper (crew : Processes) : Moves → Prop
  | .call process ⟨.fork, _⟩ => role process crew.log ≠ .supervisor
  | .call process ⟨.load addr offset, _⟩ =>
      handling process crew.log = true → offset = OFFSET_CPID.toNat →
        wordAt crew.state.store addr offset ≠ some 0
  | .call _ ⟨.memset _ n, _⟩ => n ≤ 4 ∨ n = 8 ∨ 12 ≤ n
  | _ => True

/-! ## The script of a process -/

/-- What a process knows: its role, the last process it has forked since its
last label or failed `fork`, the words it has loaded since its last label, and
whether it is in the branch for a signal. -/
structure Knowledge where
  role : Role
  forked : Int
  loaded : List Int
  handling : Bool

/-- The knowledge of a process that goes on from a label. -/
def Knowledge.entered (knowledge : Knowledge) (label : Label) : Knowledge where
  role := knowledge.role.entered label
  forked := 0
  loaded := []
  handling := label.isCaught

/-- The knowledge of a process after its `fork`. -/
def Knowledge.forks (knowledge : Knowledge) (pid : Int) : Knowledge :=
  if 0 < pid then { knowledge with forked := pid }
  else if pid = 0 then
    { knowledge with role := knowledge.role.forked, forked := 0 }
  else { knowledge with role := knowledge.role.alone, forked := 0 }

/-- A word of the segment that names a process. -/
def Knowledge.stores (knowledge : Knowledge) (namer : Role) (value : UInt) :
    Prop :=
  value = 0 ∨ knowledge.role = namer ∧ 0 < knowledge.forked ∧
    value = BitVec.ofInt 32 knowledge.forked

/-- Words are stored and signals are sent as far as the process knows whom
they concern. -/
def script : Script signature Knowledge Label where
  allow knowledge call :=
    match call with
    | .store _ offset value =>
        (offset = OFFSET_PID.toNat →
            knowledge.stores .intermediate value) ∧
          (offset = OFFSET_CPID.toNat → knowledge.stores .supervisor value)
    | .kill pid (some _) => pid ∈ knowledge.loaded ∧ pid ≠ 0
    | .vsnprintf .. => False
    | .interruptible _ => False
    | _ => True
  answer knowledge call answer :=
    match call, answer with
    | .fork, (pid : Int) => knowledge.role = .supervisor → 0 ≤ pid
    | .load _ offset, (word : Option UInt) =>
        knowledge.handling = true → offset = OFFSET_CPID.toNat →
          word ≠ some 0
    | _, _ => True
  next knowledge call answer :=
    match call, answer with
    | .fork, (pid : Int) => knowledge.forks pid
    | .load _ offset, (word : Option UInt) =>
        match word with
        | some word =>
            if offset = OFFSET_PID.toNat ∨ offset = OFFSET_CPID.toNat then
              { knowledge with loaded := word.toInt :: knowledge.loaded }
            else knowledge
        | none => knowledge
    | _, _ => knowledge
  stops _ _ := True
  resume knowledge label := knowledge.entered label

theorem transparent : Transparent script.toProtocol where
  allow _ call locks := by
    cases call <;> trivial
  next _ call _ locks := by
    cases call <;> first | rfl | exact locks.elim

/-- The loaded words are the only thing that may have changed. -/
structure Knowledge.Grows (before after : Knowledge) : Prop where
  role : after.role = before.role
  forked : after.forked = before.forked
  handling : after.handling = before.handling
  loaded : ∀ pid ∈ before.loaded, pid ∈ after.loaded

theorem Knowledge.Grows.refl (knowledge : Knowledge) :
    knowledge.Grows knowledge :=
  ⟨rfl, rfl, rfl, fun _ member => member⟩

theorem Knowledge.Grows.trans {first second third : Knowledge}
    (early : first.Grows second) (late : second.Grows third) :
    first.Grows third where
  role := late.role.trans early.role
  forked := late.forked.trans early.forked
  handling := late.handling.trans early.handling
  loaded pid member := late.loaded pid (early.loaded pid member)

/-- A program that only learns. -/
def Learns (Value : Type) (program : Prog Value) : Prop :=
  ∀ knowledge : Knowledge, program.Conforms script.toProtocol knowledge
    fun after _ => knowledge.Grows after

/-- The calls that a program may make without any knowledge. -/
def Free : Call → Prop
  | .fork => False
  | .load .. => False
  | .store .. => False
  | .kill _ (some _) => False
  | .vsnprintf .. => False
  | .interruptible _ => False
  | _ => True

/-- The writes that are no names. -/
def Anonymous (offset : UShort) (n : UInt) : Prop :=
  n = 0 ∨ offset = OFFSET_ACTIVE ∨ offset = OFFSET_COUNT

theorem free_opens (call : Call) (opens : call.opens = true) : Free call := by
  cases call <;> trivial

theorem free_removes (call : Call) (removes : call.removes = true) :
    Free call := by
  cases call <;> trivial

theorem anonymous_zero (offset : UShort) : Anonymous offset 0 :=
  Or.inl rfl

/-- What is known after a load of a word. -/
def Knowledge.learns (knowledge : Knowledge) (offset : UShort) (word : UInt) :
    Knowledge :=
  if offset.toNat = OFFSET_PID.toNat ∨ offset.toNat = OFFSET_CPID.toNat then
    { knowledge with loaded := word.toInt :: knowledge.loaded }
  else knowledge

theorem Knowledge.grows_learns (knowledge : Knowledge) (offset : UShort)
    (word : UInt) : knowledge.Grows (knowledge.learns offset word) := by
  unfold Knowledge.learns
  split
  · exact ⟨rfl, rfl, rfl, fun pid member => List.mem_cons_of_mem _ member⟩
  · exact .refl knowledge

section Rules

variable {knowledge : Knowledge} {Value : Type}
variable {post : Knowledge → Value → Prop}

theorem conforms_read {this : SharedMemory} {offset : UShort}
    {continuation : UInt → Prog Value}
    (rest : ∀ word, (knowledge.handling = true →
        offset.toNat = OFFSET_CPID.toNat → word ≠ 0) →
      (continuation word).Conforms script.toProtocol
        (knowledge.learns offset word) post) :
    (this.readUint offset >>= continuation).Conforms script.toProtocol
      knowledge post := by
  apply Transparent.read transparent trivial
  intro word relied
  apply rest word
  intro handled isCpid zero
  exact relied handled isCpid (by rw [zero])

theorem conforms_write {this : SharedMemory} {offset : UShort} {n : UInt}
    {continuation : Unit → Prog Value}
    (stores : script.allow knowledge (.store this.addr offset.toNat n))
    (rest : (continuation ()).Conforms script.toProtocol knowledge post) :
    (this.writeUint offset n >>= continuation).Conforms script.toProtocol
      knowledge post :=
  Transparent.write transparent stores fun _ => rest

theorem allow_anonymous {addr : Addr} {offset : UShort} {n : UInt}
    (anonymous : Anonymous offset n) :
    script.allow knowledge (.store addr offset.toNat n) := by
  rcases anonymous with rfl | rfl | rfl
  · exact ⟨fun _ => Or.inl rfl, fun _ => Or.inl rfl⟩
  · exact ⟨fun impossible => absurd impossible (by decide),
      fun impossible => absurd impossible (by decide)⟩
  · exact ⟨fun impossible => absurd impossible (by decide),
      fun impossible => absurd impossible (by decide)⟩

end Rules

/-- Most functions only learn. -/
theorem learns : Compositional Free Anonymous Learns where
  calm call calm := by
    cases call with
    | kill pid signal => cases signal <;> trivial
    | _ => trivial
  value _ knowledge := .refl knowledge
  bind := by
    intro Value Result program continuation first second knowledge
    apply (first knowledge).bind
    intro middle value grows
    exact (second value middle).mono fun _ _ late => grows.trans late
  issue := by
    intro Value call next free rest knowledge
    have stays : ∀ answer, script.next knowledge call answer = knowledge := by
      intro answer
      cases call <;> first | rfl | exact free.elim
    have allowed : script.allow knowledge call := by
      cases call with
      | kill pid signal =>
          cases signal with
          | none => trivial
          | some signal => exact free.elim
      | store => exact free.elim
      | _ => trivial
    refine ⟨allowed, ?_⟩
    intro answer _
    rw [stays]
    exact rest answer knowledge
  read := by
    intro this offset knowledge
    rw [← bind_pure (this.readUint offset)]
    apply conforms_read
    intro word _
    exact knowledge.grows_learns offset word
  write := by
    intro this offset n anonymous knowledge
    rw [← bind_pure (this.writeUint offset n)]
    exact conforms_write (allow_anonymous anonymous) (.refl knowledge)

/-! ## The code follows the script -/

section Code

variable {knowledge : Knowledge}

theorem Learns.follows {program : Prog Label} (learns : Learns Label program) :
    script.Follows knowledge program :=
  (learns knowledge).mono fun _ _ _ => trivial

theorem Learns.follows_bind {Value : Type} {program : Prog Value}
    {continuation : Value → Prog Label} (learns : Learns Value program)
    (rest : ∀ after value, knowledge.Grows after →
      script.Follows after (continuation value)) :
    script.Follows knowledge (program >>= continuation) :=
  (learns knowledge).bind rest

/-- The accessors of the words that are names. -/
theorem follows_name {this : SharedMemory} {offset : UShort}
    {continuation : Int → Prog Label}
    (isName : offset = OFFSET_PID ∨ offset = OFFSET_CPID)
    (rest : ∀ word : UInt, (knowledge.handling = true →
        offset = OFFSET_CPID → word ≠ 0) →
      script.Follows
        { knowledge with loaded := word.toInt :: knowledge.loaded }
        (continuation word.toInt)) :
    script.Follows knowledge
      (getWord (some this) offset >>= continuation) := by
  rw [getWord_bind]
  apply conforms_read
  intro word relied
  have named : knowledge.learns offset word =
      { knowledge with loaded := word.toInt :: knowledge.loaded } := by
    rcases isName with rfl | rfl <;> rfl
  rw [named]
  apply rest word
  intro handled isCpid
  exact relied handled (by rw [isCpid])

/-- A signal to a process that is known and not 0. -/
theorem follows_kill {pid : Int} {signal : Signal}
    {continuation : Int → Prog Label} (known : pid ∈ knowledge.loaded)
    (nonzero : pid ≠ 0)
    (rest : ∀ failed, script.Follows knowledge (continuation failed)) :
    script.Follows knowledge (kill pid (some signal) >>= continuation) := by
  rw [kill_bind]
  exact ⟨⟨known, nonzero⟩, fun _ _ => rest _⟩

theorem follows_stop (shmem : SharedMemory) :
    script.Follows knowledge (stop shmem) := by
  apply follows_name (Or.inl rfl)
  intro pid _
  apply follows_name (Or.inr rfl)
  intro cpid _
  apply (Compositional.getWord learns (some shmem) OFFSET_COUNT).follows_bind
  intro counted count grows
  apply (Compositional.daemonstr learns pid.toInt cpid.toInt).follows_bind
  intro told _ grows'
  have all := grows.trans grows'
  have knowsCpid : cpid.toInt ∈ told.loaded := all.loaded _ (by simp)
  have knowsPid : pid.toInt ∈ told.loaded := all.loaded _ (by simp)
  split
  · rename_i both
    apply follows_kill knowsCpid both.2
    intro failed
    split
    · trivial
    · apply follows_kill knowsPid both.1
      intro failed
      split
      · trivial
      · apply (Compositional.cleanup learns (some shmem) anonymous_zero
          free_removes).follows_bind
        intro _ _ _
        trivial
  · trivial

theorem follows_caught (signal : Signal) (locals : Locals)
    (handles : knowledge.handling = true) :
    script.Follows knowledge (caught decay signal locals) := by
  unfold caught
  dsimp only
  split
  · apply follows_name (Or.inr rfl)
    intro cpid relied
    apply follows_kill (by simp) (toInt_ne_zero (relied handles rfl))
    intro failed
    exact (Compositional.die learns _ anonymous_zero free_removes).follows
  · split
    · exact (Compositional.die learns _ anonymous_zero free_removes).follows
    · apply follows_name (Or.inr rfl)
      intro cpid relied
      apply follows_kill (by simp) (toInt_ne_zero (relied handles rfl))
      intro failed
      exact (Compositional.endRound learns anonymous_zero free_removes decay
        locals).follows

/-- A write of the identifier of the process that was forked last. -/
theorem follows_names {this : SharedMemory} {offset : UShort} {pid : Int}
    {continuation : Unit → Prog Label} (forked : knowledge.forked = pid)
    (positive : 0 < pid)
    (role : offset = OFFSET_PID ∧ knowledge.role = .intermediate ∨
      offset = OFFSET_CPID ∧ knowledge.role = .supervisor)
    (rest : script.Follows knowledge (continuation ())) :
    script.Follows knowledge
      ((deref (some this) >>= fun target =>
        target.writeUint offset (BitVec.ofInt 32 pid)) >>= continuation) := by
  subst forked
  apply conforms_write _ rest
  rcases role with ⟨rfl, isRole⟩ | ⟨rfl, isRole⟩
  · exact ⟨fun _ => Or.inr ⟨isRole, positive, rfl⟩,
      fun impossible => absurd impossible (by decide)⟩
  · exact ⟨fun impossible => absurd impossible (by decide),
      fun _ => Or.inr ⟨isRole, positive, rfl⟩⟩

theorem anonymous_count (n : UInt) : Anonymous OFFSET_COUNT n :=
  Or.inr (Or.inr rfl)

theorem follows_round (stack : WaitStatus) (locals : Locals)
    (supervises : knowledge.role = .supervisor) :
    script.Follows knowledge (round decay stack locals) := by
  rw [round_eq]
  have installs : Learns Unit (installHandlers locals.shmem signals) :=
    Compositional.installHandlers learns anonymous_zero free_removes _ _
      fun _ => trivial
  apply installs.follows_bind
  intro installed _ grows
  have isSupervisor : installed.role = .supervisor :=
    grows.role.trans supervises
  refine ⟨trivial, fun _ _ => ⟨trivial, ?_⟩⟩
  intro (cpid : Int) relied
  have natural : 0 ≤ cpid := relied isSupervisor
  show script.Follows (installed.forks cpid) _
  dsimp only
  by_cases isChild : cpid = 0
  · rw [if_pos isChild]
    exact (Compositional.child learns _ anonymous_count anonymous_zero
      free_removes trivial).follows
  · rw [if_neg isChild]
    have positive : 0 < cpid := by omega
    have forked : installed.forks cpid =
        { installed with forked := cpid } := if_pos positive
    rw [forked]
    refine follows_names ?_ positive (Or.inr ⟨rfl, isSupervisor⟩) ?_
    · rfl
    apply (Compositional.writeWord learns (some locals.shmem)
      (Or.inr (Or.inl rfl) : Anonymous OFFSET_ACTIVE 1)).follows_bind
    intro after _ _
    refine ⟨trivial, ?_⟩
    intro (outcome : Except Errno (Int × WaitStatus)) _
    dsimp only
    split
    · exact ⟨trivial, fun _ _ =>
        (Compositional.endRound learns anonymous_zero free_removes decay
          _).follows⟩
    · trivial

theorem follows_daemonize (shmem : SharedMemory) (count : Int)
    (starts : knowledge.role = .starter) :
    script.Follows knowledge (daemonize shmem count) := by
  unfold daemonize
  dsimp only
  rw [fork_bind]
  refine ⟨trivial, ?_⟩
  intro (pid : Int) _
  show script.Follows (knowledge.forks pid) _
  dsimp only
  split
  · trivial
  · rename_i inChild
    have isIntermediate : (knowledge.forks pid).role = .intermediate := by
      unfold Knowledge.forks
      rw [if_neg inChild]
      split <;> simp [starts, Role.forked, Role.alone]
    rw [fork_bind]
    refine ⟨trivial, ?_⟩
    intro (pid' : Int) _
    show script.Follows ((knowledge.forks pid).forks pid') _
    dsimp only
    split
    · rename_i positive
      have forked : (knowledge.forks pid).forks pid' =
          { knowledge.forks pid with forked := pid' } := if_pos positive
      rw [forked]
      refine follows_names ?_ positive (Or.inl ⟨rfl, isIntermediate⟩) ?_
      · rfl
      · exact Transparent.dies transparent
    · apply (Compositional.closeFileDescriptors learns anonymous_zero
        free_removes).follows_bind
      intro _ _ _
      trivial

theorem follows_start (shmem : SharedMemory)
    (starts : knowledge.role = .starter) :
    script.Follows knowledge (start shmem) := by
  apply (Compositional.getWord learns (some shmem) OFFSET_PID).follows_bind
  intro first pid grows
  apply (Compositional.getWord learns (some shmem) OFFSET_CPID).follows_bind
  intro second cpid grows'
  apply (Compositional.getWord learns (some shmem) OFFSET_COUNT).follows_bind
  intro third count grows''
  split
  · apply (Compositional.daemonstr learns pid cpid).follows_bind
    intro _ _ _
    trivial
  · apply follows_daemonize
    rw [grows''.role, grows'.role, grows.role]
    exact starts

theorem follows_main (action : Action) (key : Key)
    (starts : action = .start → knowledge.role = .starter) :
    script.Follows knowledge (main paths action key) := by
  cases action with
  | start =>
      apply (Compositional.within learns
        (SharedMemory.within_new free_opens key SHMEM_SIZE true)).follows_bind
      intro after shmem grows
      cases shmem with
      | none => trivial
      | some shmem =>
          exact follows_start shmem (grows.role.trans (starts rfl))
  | stop =>
      apply (Compositional.within learns
        (SharedMemory.within_attach (opens_finds free_opens) key)).follows_bind
      intro after shmem grows
      cases shmem with
      | none => trivial
      | some shmem => exact follows_stop shmem
  | status =>
      apply (Compositional.within learns
        (SharedMemory.within_attach (opens_finds free_opens) key)).follows_bind
      intro after shmem grows
      exact (Compositional.status learns shmem).follows

theorem follows_code {stack : WaitStatus} {label : Label}
    {program : Prog Label}
    (piece : code paths decay stack label = some program) :
    script.Follows (knowledge.entered label) program := by
  cases label with
  | main action key =>
      cases piece
      apply follows_main
      rintro rfl
      rfl
  | round locals =>
      cases piece
      exact follows_round decay stack locals rfl
  | caught signal locals =>
      cases piece
      exact follows_caught decay signal locals rfl
  | returned locals =>
      cases piece
      exact (Compositional.returned learns locals).follows
  | _ => cases piece

end Code

/-! ## The invariant -/

/-- What a process knows holds. -/
structure Grounded (process : Pid) (log : List Moves)
    (knowledge : Knowledge) : Prop where
  plays : knowledge.role = role process log
  handles : knowledge.handling = handling process log
  supervisor : knowledge.role = .intermediate → 0 < knowledge.forked →
    Names .supervisor knowledge.forked log
  child : knowledge.role = .supervisor → 0 < knowledge.forked →
    Names .child knowledge.forked log
  loaded : ∀ pid ∈ knowledge.loaded,
    pid = 0 ∨ Names .supervisor pid log ∨ Names .child pid log

/-- A word names a process in a role if it is not 0. -/
def Named (offset : UShort) (played : Role) (store : Store)
    (log : List Moves) : Prop :=
  ∀ addr word, wordAt store addr offset.toNat = some word →
    word = 0 ∨ Names played word.toInt log

/-- All words and all processes are right. -/
structure Sound (crew : Processes) (known : Pid → Knowledge) : Prop where
  pids : Named OFFSET_PID .supervisor crew.state.store crew.log
  cpids : Named OFFSET_CPID .child crew.state.store crew.log
  grounded : ∀ process program, crew.procs process = some program →
    Grounded process crew.log (known process)

section Later

variable {process : Pid} {log : List Moves} {knowledge : Knowledge}
variable {offset : UShort} {played : Role} {store after : Store}

/-- A move that does not concern a process. -/
theorem Grounded.later (grounded : Grounded process log knowledge)
    (move : Moves) (sameRole : role process (move :: log) = role process log)
    (sameHandling : handling process (move :: log) = handling process log) :
    Grounded process (move :: log) knowledge where
  plays := grounded.plays.trans sameRole.symm
  handles := grounded.handles.trans sameHandling.symm
  supervisor isRole positive :=
    (grounded.supervisor isRole positive).later move
  child isRole positive := (grounded.child isRole positive).later move
  loaded pid member :=
    (grounded.loaded pid member).imp_right fun names =>
      names.imp (Names.later · move) (Names.later · move)

/-- A step that changes no word. -/
theorem Named.later (named : Named offset played store log) (move : Moves)
    (words : ∀ addr word, wordAt after addr offset.toNat = some word →
      wordAt store addr offset.toNat = some word) :
    Named offset played after (move :: log) := by
  intro addr word found
  exact (named addr word (words addr word found)).imp_right (Names.later · move)

/-- A process that goes on from a label knows nothing but its role. -/
theorem Grounded.enters (grounded : Grounded process log knowledge)
    (label : Label) :
    Grounded process (.enter process label :: log)
      (knowledge.entered label) where
  plays := by
    simp [Knowledge.entered, grounded.plays]
  handles := by
    simp [Knowledge.entered]
  supervisor _ positive := absurd positive (by simp [Knowledge.entered])
  child _ positive := absurd positive (by simp [Knowledge.entered])
  loaded pid member := absurd member (by simp [Knowledge.entered])

end Later

variable {admits : Choice → Prop}

section Call

variable {crew : Processes} {process : Pid} {call : Call}
variable {answer : call.Answer} {world : World} {knowledge : Knowledge}

/-- A call keeps the words right. -/
theorem named_call {offset : UShort} {namer played : Role}
    (isName : offset = OFFSET_PID ∧ namer = .intermediate ∧
        played = .supervisor ∨
      offset = OFFSET_CPID ∧ namer = .supervisor ∧ played = .child)
    (grounded : Grounded process crew.log knowledge)
    (allowed : script.allow knowledge call)
    (proper : Proper crew (.call process ⟨call, answer⟩))
    (exec : (system paths decay admits).exec process call crew.state answer
      world)
    (before : Named offset played crew.state.store crew.log) :
    Named offset played world.store
      (.call process ⟨call, answer⟩ :: crew.log) := by
  intro addr word found
  have words : call.writesBytes = false := by
    cases call <;> first | rfl | exact allowed.elim
  rcases call_word paths decay words exec found with
    old | ⟨_, _, _, _, zero⟩ | stored | ⟨n, cleared, inside, zero⟩
  · exact (before addr word old).imp_right (Names.later · _)
  · exact Or.inl zero
  · subst stored
    have names : ∀ value, knowledge.stores namer value → value = 0 ∨
        Names played value.toInt crew.log := by
      rintro value (rfl | ⟨isNamer, positive, rfl⟩)
      · exact Or.inl rfl
      · right
        have named : Names played knowledge.forked crew.log := by
          rcases isName with ⟨_, rfl, rfl⟩ | ⟨_, rfl, rfl⟩
          · exact grounded.supervisor isNamer positive
          · exact grounded.child isNamer positive
        rw [toInt_ofInt_pid positive named.2.1]
        exact named
    have stores : knowledge.stores namer word := by
      rcases isName with ⟨rfl, rfl, _⟩ | ⟨rfl, rfl, _⟩
      · exact allowed.1 rfl
      · exact allowed.2 rfl
    exact (names word stores).imp_right (Names.later · _)
  · subst cleared
    left
    apply zero
    have size : n ≤ 4 ∨ n = 8 ∨ 12 ≤ n := proper
    have place : offset.toNat = 1 ∨ offset.toNat = 2 := by
      rcases isName with ⟨rfl, _⟩ | ⟨rfl, _⟩
      · exact Or.inl rfl
      · exact Or.inr rfl
    omega

/-- What a process knows after a call holds. -/
theorem grounded_call (named : Named OFFSET_PID .supervisor
      crew.state.store crew.log ∧
        Named OFFSET_CPID .child crew.state.store crew.log)
    (grounded : Grounded process crew.log knowledge)
    (exec : (system paths decay admits).exec process call crew.state answer
      world) :
    Grounded process (.call process ⟨call, answer⟩ :: crew.log)
      (script.next knowledge call answer) := by
  cases call with
  | fork =>
      rcases call_fork paths decay exec with ⟨rfl, _⟩
      have alone : script.next knowledge .fork (-1 : Int) =
          { knowledge with role := knowledge.role.alone, forked := 0 } := rfl
      rw [alone]
      have after := grounded.plays
      constructor
      · simp [Role.called, after]
      · exact grounded.handles
      · intro _ positive
        cases positive
      · intro _ positive
        cases positive
      · intro pid member
        exact (grounded.loaded pid member).imp_right fun names =>
          names.imp (Names.later · _) (Names.later · _)
  | load addr offset =>
      have kept : Grounded process
          (.call process ⟨.load addr offset, answer⟩ :: crew.log)
          knowledge := by
        apply grounded.later
        · simp [Role.called]
        · rfl
      cases answer with
      | none => exact kept
      | some word =>
          have found := call_load paths decay exec
          show Grounded process _ (if offset = OFFSET_PID.toNat ∨
            offset = OFFSET_CPID.toNat then
              { knowledge with loaded := word.toInt :: knowledge.loaded }
            else knowledge)
          split
          · rename_i isName
            refine ⟨kept.plays, kept.handles, kept.supervisor, kept.child, ?_⟩
            intro pid member
            rcases List.mem_cons.mp member with rfl | earlier
            · rcases isName with rfl | rfl
              · rcases named.1 addr word found with rfl | names
                · exact Or.inl rfl
                · exact Or.inr (Or.inl (names.later _))
              · rcases named.2 addr word found with rfl | names
                · exact Or.inl rfl
                · exact Or.inr (Or.inr (names.later _))
            · exact kept.loaded pid earlier
          · exact kept
  | _ =>
      apply grounded.later
      · simp [Role.called]
      · rfl

end Call

/-- The processes a step is not about keep what they know. -/
theorem grounded_update {procs : Pid → Option (Prog Label)}
    {known : Pid → Knowledge} {process : Pid} {next : Option (Prog Label)}
    {knowledge : Knowledge} {log : List Moves} {move : Moves}
    (grounded : ∀ other program, procs other = some program →
      Grounded other log (known other))
    (elsewhere : ∀ other, other ≠ process →
      role other (move :: log) = role other log ∧
        handling other (move :: log) = handling other log)
    (own : next ≠ none → Grounded process (move :: log) knowledge) :
    ∀ other program,
      Function.update procs process next other = some program →
        Grounded other (move :: log)
          (Function.update known process knowledge other) := by
  intro other program running
  by_cases same : other = process
  · subst same
    rw [Function.update_self] at running ⊢
    apply own
    simp [running]
  · rw [Function.update_of_ne same] at running ⊢
    have kept := elsewhere other same
    exact (grounded other program running).later move kept.1 kept.2

/-- What both sides of a `fork` know. -/
theorem grounded_fork {parent child : Pid} {log : List Moves}
    {knowledge : Knowledge} (grounded : Grounded parent log knowledge)
    (positive : 0 < child) (small : child < PID_MAX_LIMIT)
    (different : child ≠ parent) :
    Grounded parent (.fork parent child .fork :: log)
        (knowledge.forks (child : Int)) ∧
      Grounded child (.fork parent child .fork :: log)
        (knowledge.forks 0) := by
  have named : ∀ played, (role parent log).forked = played →
      Names played (child : Int) (.fork parent child .fork :: log) := by
    intro played isRole
    refine ⟨by exact_mod_cast positive, by exact_mod_cast small, was_now ?_⟩
    simpa using isRole
  have loaded : ∀ pid ∈ knowledge.loaded, pid = 0 ∨
      Names .supervisor pid (.fork parent child .fork :: log) ∨
        Names .child pid (.fork parent child .fork :: log) := by
    intro pid member
    exact (grounded.loaded pid member).imp_right fun names =>
      names.imp (Names.later · _) (Names.later · _)
  have here : knowledge.forks (child : Int) =
      { knowledge with forked := (child : Int) } :=
    if_pos (by exact_mod_cast positive)
  have there : knowledge.forks 0 =
      { knowledge with role := knowledge.role.forked, forked := 0 } := rfl
  rw [here, there]
  constructor
  · constructor
    · simpa [different] using grounded.plays
    · simpa [different] using grounded.handles
    · intro isRole _
      apply named
      rw [← grounded.plays, isRole]
      rfl
    · intro isRole _
      apply named
      rw [← grounded.plays, isRole]
      rfl
    · exact loaded
  · constructor
    · simp [grounded.plays]
    · simpa using grounded.handles
    · intro _ impossible
      cases impossible
    · intro _ impossible
      cases impossible
    · exact loaded

theorem preserves :
    Crew.Preserves (system paths decay admits) Proper script Sound where
  call := by
    intro crew known process call next answer world sound running allowed exec
      proper
    have grounded := sound.grounded process _ running
    refine ⟨?_, ?_, ?_, ?_⟩
    · cases call with
      | fork =>
          intro isSupervisor
          have improper : role process crew.log ≠ .supervisor := proper
          rw [← grounded.plays] at improper
          exact absurd isSupervisor improper
      | load addr offset =>
          intro handled isCpid zero
          cases zero
          have present : handling process crew.log = true :=
            grounded.handles.symm.trans handled
          exact proper present isCpid (call_load paths decay exec)
      | _ => trivial
    · exact named_call paths decay (Or.inl ⟨rfl, rfl, rfl⟩) grounded allowed
        proper exec sound.pids
    · exact named_call paths decay (Or.inr ⟨rfl, rfl, rfl⟩) grounded allowed
        proper exec sound.cpids
    · apply grounded_update sound.grounded
      · intro other different
        simp [Ne.symm different]
      · intro _
        exact grounded_call paths decay ⟨sound.pids, sound.cpids⟩ grounded exec
  fork := by
    intro crew known parent child call next here there sound running fresh
      allowed forks _
    cases call with
    | fork =>
        simp only [system] at forks
        split at forks
        · rename_i proper
          cases forks
          have different : child ≠ parent := by
            rintro rfl
            rw [fresh] at running
            cases running
          have grounded := grounded_fork (sound.grounded parent _ running)
            proper.1 proper.2 different
          refine ⟨fun _ => by omega, fun _ => by omega, ?_, ?_, ?_⟩
          · apply sound.pids.later
            intro addr word found
            rwa [Crew.record_state, system, clone_word] at found
          · apply sound.cpids.later
            intro addr word found
            rwa [Crew.record_state, system, clone_word] at found
          · intro other program isRunning
            by_cases isChild : other = child
            · subst isChild
              rw [Function.update_self]
              exact grounded.2
            · rw [Function.update_of_ne isChild]
              by_cases isParent : other = parent
              · subst isParent
                rw [Function.update_self]
                exact grounded.1
              · rw [Crew.record_procs, Function.update_of_ne isChild,
                  Function.update_of_ne isParent] at isRunning
                rw [Function.update_of_ne isParent]
                apply (sound.grounded other program isRunning).later
                · simp [Ne.symm isChild]
                · simp [Ne.symm isChild]
        · cases forks
    | _ => simp [system] at forks
  enter := by
    intro crew known process label program sound running _ piece _
    rcases piece with ⟨stack, piece⟩
    refine ⟨follows_code paths decay piece, ?_, ?_, ?_⟩
    · apply sound.pids.later
      intro addr word found
      rwa [Crew.record_state, system, enter_store] at found
    · apply sound.cpids.later
      intro addr word found
      rwa [Crew.record_state, system, enter_store] at found
    · apply grounded_update sound.grounded
      · intro other different
        simp [Ne.symm different]
      · intro _
        exact (sound.grounded process _ running).enters label
  jump := by
    intro crew known process program label world sound running _ jumps _
    refine ⟨known process, trivial, ?_, ?_, ?_⟩
    · exact sound.pids.later _ fun addr word found => jumps_word jumps found
    · exact sound.cpids.later _ fun addr word found => jumps_word jumps found
    · apply grounded_update sound.grounded
      · intro other _
        exact ⟨rfl, rfl⟩
      · intro _
        exact (sound.grounded process _ running).later _ rfl rfl
  leave := by
    intro crew known process program move sound running _ cause _
    have same : ∀ other, role other (move :: crew.log) = role other crew.log ∧
        handling other (move :: crew.log) = handling other crew.log := by
      intro other
      rcases cause with ⟨rfl, _⟩ | rfl
      · exact ⟨rfl, rfl⟩
      · exact ⟨rfl, rfl⟩
    refine ⟨known process, ?_, ?_, ?_⟩
    · exact sound.pids.later _ fun addr word found => Store.leave_word found
    · exact sound.cpids.later _ fun addr word found => Store.leave_word found
    · apply grounded_update sound.grounded
      · intro other _
        exact same other
      · intro impossible
        exact absurd rfl impossible
  outside := by
    intro crew known event sound _
    refine ⟨?_, ?_, ?_⟩
    · apply sound.pids.later
      intro addr word found
      rwa [Crew.record_state, system, World.post_store] at found
    · apply sound.cpids.later
      intro addr word found
      rwa [Crew.record_state, system, World.post_store] at found
    · intro other program running
      exact (sound.grounded other program running).later _ rfl rfl

variable {store : Store} {inherited : Signal → Bool} {crew : Processes}
variable {labels : Pid → Option Label}

/-- The programs that are run on one channel. -/
def onChannel (key : Key) (actions : Pid → Option Action) (process : Pid) :
    Option Label :=
  (actions process).map fun action => .main action key

/--
Any number of starts, stops and status requests on a channel, whose segments
name nobody at first: in a run whose moves are proper, whoever is sent a
signal is or was a supervisor of the channel or a child of its loop.
-/
theorem signals_own (key : Key) (actions : Pid → Option Action)
    {process : Pid} {pid : Int} {signal : Signal}
    {next : Except Errno Unit → Prog Label}
    (nameless : ∀ addr word,
      wordAt store addr OFFSET_PID.toNat = some word ∨
        wordAt store addr OFFSET_CPID.toNat = some word → word = 0)
    (reach : Crew.Reach (system paths decay admits) Proper
      (begin store inherited (onChannel key actions)) crew)
    (signals : crew.procs process =
      some (.issue (.kill pid (some signal)) next)) :
    0 < pid ∧ (Was .supervisor pid.toNat crew.log ∨
      Was .child pid.toNat crew.log) := by
  have initially : Crew.Simulated script Sound
      (begin store inherited (onChannel key actions)) fun _ =>
        { role := .other, forked := 0, loaded := [], handling := false } := by
    refine ⟨⟨?_, ?_, ?_⟩, ?_⟩
    · intro addr word found
      exact Or.inl (nameless addr word (Or.inl found))
    · intro addr word found
      exact Or.inl (nameless addr word (Or.inr found))
    · intro process program _
      refine ⟨rfl, rfl, ?_, ?_, ?_⟩
      · intro impossible
        cases impossible
      · intro impossible
        cases impossible
      · intro pid impossible
        cases impossible
    · intro process program running
      rcases begin_procs running with ⟨label, _, rfl⟩
      trivial
  rcases reach.simulated (preserves paths decay) initially with
    ⟨known, sound, follows⟩
  have allowed : pid ∈ (known process).loaded ∧ pid ≠ 0 :=
    (follows process _ signals).1
  have grounded := sound.grounded process _ signals
  rcases grounded.loaded pid allowed.1 with zero | names | names
  · exact absurd zero allowed.2
  · exact ⟨names.1, Or.inl names.2.2⟩
  · exact ⟨names.1, Or.inr names.2.2⟩

/-- The process is about to send a signal to this target. -/
def signalsTo (process : Pid) (pid : Int) (crew : Processes) : Bool :=
  match crew.procs process with
  | some (.issue (.kill target (some _)) _) => target == pid
  | _ => false

theorem signals_of_signalsTo {process : Pid} {pid : Int}
    (signals : signalsTo process pid crew = true) :
    ∃ (signal : Signal) (next : Except Errno Unit → Prog Label),
      crew.procs process = some (.issue (.kill pid (some signal)) next) := by
  unfold signalsTo at signals
  split at signals
  · rename_i target signal next running
    rw [beq_iff_eq] at signals
    subst signals
    exact ⟨signal, next, running⟩
  · cases signals

/-- The first process starts a daemon, and the fifth one stops it. -/
def startAndStop : Pid → Option Action
  | 1 => some .start
  | 5 => some .stop
  | _ => none

/-- A start up to the supervisor's first `fork`. -/
def launch : List Turn :=
  .enter 1 .stopped :: calls 1 19 ++ .fork 1 2 :: .fork 2 3 :: calls 2 4 ++
    calls 3 1 ++ .enter 3 .stopped :: calls 3 8

/-- The child runs, and the fifth process comes to its first signal. -/
def stopping : List Turn :=
  .fork 3 4 :: calls 3 8 ++ .enter 5 .stopped :: calls 5 20

/-- The `fork` fails, and the supervisor catches a signal. -/
def childless : List Turn :=
  calls 3 9 ++ [.raise 3 .SIGTERM, .caught 3 .SIGTERM, .enter 3 .stopped] ++
    calls 3 4

/-- The check that a move is proper. -/
def proper (crew : Processes) : Moves → Bool
  | .call process ⟨.fork, _⟩ => role process crew.log != .supervisor
  | .call process ⟨.load addr offset, _⟩ =>
      !handling process crew.log || offset != OFFSET_CPID.toNat ||
        wordAt crew.state.store addr offset != some 0
  | .call _ ⟨.memset _ n, _⟩ => n ≤ 4 || n = 8 || 12 ≤ n
  | _ => true

theorem proper_sound {move : Moves} (passed : proper crew move = true) :
    Proper crew move := by
  unfold proper at passed
  unfold Proper
  split at passed
  · simpa using passed
  · intro handled isCpid zero
    rw [isCpid] at zero
    simp [handled, isCpid, zero] at passed
  · simpa [or_assoc] using passed
  · trivial

theorem empty_nameless (now : Time) : ∀ addr word,
    wordAt (Store.empty now) addr OFFSET_PID.toNat = some word ∨
      wordAt (Store.empty now) addr OFFSET_CPID.toNat = some word →
        word = 0 := by
  rintro addr word (found | found)
  · cases addr <;> cases found
  · cases addr <;> cases found

/-- `stop` comes to signal the child. -/
theorem signals_own_stopping :
    ∃ crew : Processes, signalsTo 5 4 crew = true ∧ (0 : Int) < 4 ∧
      (Was .supervisor 4 crew.log ∨ Was .child 4 crew.log) := by
  have computed : (Daemon.follow .devtmpfs (fun _ => 0) proper
      (launch ++ stopping)
      (begin (Store.empty 0) (fun _ => false) (onChannel 5 startAndStop))).any
        (signalsTo 5 4) = true := by
    decide
  rcases Daemon.follow_reaches .devtmpfs (fun _ => 0)
    (fun crew move _ => proper_sound) Turn.admitted_any computed with
    ⟨crew, reach, final⟩
  rcases signals_of_signalsTo final with ⟨signal, next, signals⟩
  exact ⟨crew, final, signals_own .devtmpfs (fun _ => 0) 5 startAndStop
    (empty_nameless 0) reach signals⟩

/-- After the `fork` of the loop has failed a supervisor that catches a
signal passes it on to all processes of the user. -/
theorem supervisor_signals_all :
    ∃ crew : Processes,
      Crew.Reach (system .devtmpfs (fun _ => 0) fun _ => True)
          Crew.Unrestricted
          (begin (Store.empty 0) (fun _ => false)
            (onChannel 5 startAndStop)) crew ∧
        (∃ (signal : Signal) (next : Except Errno Unit → Prog Label),
          crew.procs 3 =
            some (.issue (.kill (-1) (some signal)) next)) ∧
        ¬ ((0 : Int) < -1 ∧ (Was .supervisor (-1 : Int).toNat crew.log ∨
          Was .child (-1 : Int).toNat crew.log)) := by
  have computed : (Daemon.follow .devtmpfs (fun _ => 0) anything
      (launch ++ childless)
      (begin (Store.empty 0) (fun _ => false) (onChannel 5 startAndStop))).any
        (signalsTo 3 (-1)) = true := by
    decide
  rcases follow_reaches_any .devtmpfs (fun _ => 0) computed with
    ⟨crew, reach, final⟩
  refine ⟨crew, reach, signals_of_signalsTo final, ?_⟩
  rintro ⟨impossible, _⟩
  revert impossible
  decide

end Atomicles.Targets
