import Atomicles.Daemon.Calls
import Atomicles.Daemon.Roles
import Atomicles.Daemon.Runs

/-!
# The supervisors of a channel

`start` reads the words for the supervisor and its child; two later processes
write them.  A start that comes while another one is on its way finds them
zero as well.
-/

namespace Atomicles.Supervisors

open Interaction Daemon

variable (paths : KeyPaths) (decay : UInt → Nat) (key : Key)

/-! ## How far a start has come -/

/-- Where a process is on the way from `start` to the supervision loop. -/
inductive Stage where
  /-- Nowhere, or polling. -/
  | idle
  /-- Before the first `fork`: whether it has read a zero, and what `shmget`
  and `shmat` have given it. -/
  | opening (free : Bool) (id : Option IpcId) (addr : Option Addr)
  /-- Between the two forks. -/
  | middle (addr : Addr)
  /-- Before `set_pid`. -/
  | naming (addr : Addr) (pid : Int)
  /-- The supervisor before its first `set_cpid`. -/
  | launching (addr : Addr)
  /-- The supervisor after that. -/
  | looping (addr : Addr)
  /-- The supervisor has begun to clear the words. -/
  | erasing
  /-- A child of the supervisor. -/
  | child
deriving DecidableEq

namespace Stage

/-- The stage of the supervisor. -/
def Rules : Stage → Prop
  | .launching _ => True
  | .looping _ => True
  | .erasing => True
  | _ => False

/-- The start of a daemon, or its end, is under way. -/
def Busy : Stage → Prop
  | .opening .. => True
  | .middle _ => True
  | .naming .. => True
  | .launching _ => True
  | .erasing => True
  | _ => False

/-- A start has not yet come to its second `fork`. -/
def Opens : Stage → Prop
  | .opening .. => True
  | .middle _ => True
  | _ => False

/-- A stage after `fork` has given this answer. -/
def forks (pid : Int) : Stage → Stage
  | .opening _ _ (some addr) => if 0 < pid then .idle else .middle addr
  | .middle addr => if 0 < pid then .naming addr pid else .launching addr
  | .launching addr => if pid = 0 then .child else .launching addr
  | .looping addr => if pid = 0 then .child else .looping addr
  | .erasing => if pid = 0 then .child else .erasing
  | stage => stage

/-- A stage after `shmget`. -/
def finds (id : IpcId) : Stage → Stage
  | .opening free _ addr => .opening free (some id) addr
  | stage => stage

/-- A stage after `shmat`. -/
def attaches (addr : Addr) : Stage → Stage
  | .opening free id _ => .opening free id (some addr)
  | stage => stage

/-- A stage after one of the two words was read as zero. -/
def reads : Stage → Stage
  | .opening _ id addr => .opening true id addr
  | stage => stage

/-- A stage after one of the two words was set. -/
def names : Stage → Stage
  | .naming .. => .idle
  | .launching addr => .looping addr
  | stage => stage

/-- A stage after a word or the segment was cleared or removed. -/
def erases : Stage → Stage
  | .launching _ => .erasing
  | .looping _ => .erasing
  | stage => stage

/-- A word for a process of the daemon. -/
def isName (offset : Nat) : Bool :=
  offset = OFFSET_PID.toNat || offset = OFFSET_CPID.toNat

/-- A stage after a call. -/
def called (stage : Stage) : (call : Call) → call.Answer → Stage
  | .fork, (pid : Int) => stage.forks pid
  | .shmget .., (outcome : Except Errno IpcId) =>
      match outcome with
      | .ok id => stage.finds id
      | .error _ => stage
  | .shmat _, (outcome : Except Errno Addr) =>
      match outcome with
      | .ok addr => stage.attaches addr
      | .error _ => stage
  | .load _ offset, (word : Option UInt) =>
      if isName offset ∧ word = some 0 then stage.reads else stage
  | .store _ offset value, (done : Option Unit) =>
      if isName offset then
        if value = 0 then stage.erases
        else if done = some () then stage.names else stage
      else stage
  | .memset .., _ => stage.erases
  | .shmctlRmid _, _ => stage.erases
  | _, _ => stage

/-- A stage after the process has gone on from a label. -/
def entered (stage : Stage) : Label → Stage
  | .main .. => .opening false none none
  | _ => stage

end Stage

/-- How far a process has come after a run. -/
def stage (process : Pid) : List Moves → Stage
  | [] => .idle
  | .call actor event :: earlier =>
      if actor = process then
        (stage process earlier).called event.call event.answer
      else stage process earlier
  | .fork parent child _ :: earlier =>
      if child = process then (stage parent earlier).forks 0
      else if parent = process then (stage process earlier).forks child
      else stage process earlier
  | .enter actor label :: earlier =>
      if actor = process then (stage process earlier).entered label
      else stage process earlier
  | _ :: earlier => stage process earlier

/-- A process is in the supervision loop. -/
def inLoop (process : Pid) : List Moves → Bool
  | [] => false
  | .enter actor (.round _) :: earlier =>
      if actor = process then true else inLoop process earlier
  | .enter actor (.returned _) :: earlier =>
      if actor = process then false else inLoop process earlier
  | .fork _ child _ :: earlier =>
      if child = process then false else inLoop process earlier
  | _ :: earlier => inLoop process earlier

/-- A call that clears or removes what a later start looks at. -/
def Clears : Call → Prop
  | .store _ offset value => Stage.isName offset = true ∧ value = 0
  | .memset .. => True
  | .shmctlRmid _ => True
  | _ => False

/-- Starts come one after the other, and none while a supervisor clears its
words; the second `fork` and `set_pid` succeed; no child clears the words,
neither after `execvp` has failed nor after a signal before it. -/
def Proper (crew : Processes) : Moves → Prop
  | .enter _ (.main ..) => ∀ other, crew.procs other ≠ none →
      ¬ (stage other crew.log).Busy
  | .call process ⟨call, _⟩ =>
      (Clears call → ∀ other, other ≠ process → crew.procs other ≠ none →
        ¬ (stage other crew.log).Opens) ∧
      (call = .fork → ∀ addr, stage process crew.log ≠ .middle addr) ∧
      call ≠ .execvp
  | .jump process (.caught ..) => stage process crew.log ≠ .child
  | .leave process => ∀ addr pid, stage process crew.log ≠ .naming addr pid
  | .kill process => ∀ addr pid, stage process crew.log ≠ .naming addr pid
  | _ => True

/-! ## The script of a process -/

/-- What a process may do at a stage. -/
def script : Script signature Stage Label where
  allow stage call :=
    match call with
    | .fork =>
        stage.Rules ∨ (∃ addr, stage = .middle addr) ∨
          ∃ id addr, stage = .opening true id (some addr)
    | .execvp => stage = .child
    | .shmget name .. =>
        ∃ free id addr, stage = .opening free id addr ∧
          name = paths.shmKey key
    | .shmat id => ∃ free addr, stage = .opening free (some id) addr
    | .load addr _ =>
        ∀ free id mapped, stage = .opening free id mapped → mapped = some addr
    | .store addr offset value =>
        stage = .erasing ∨
          (stage.Rules ∨ stage = .child) ∧ Stage.isName offset = false ∨
          stage.Rules ∧ value = 0 ∨
          value ≠ 0 ∧ (
            (∃ pid, stage = .naming addr pid ∧ offset = OFFSET_PID.toNat) ∨
            (stage = .launching addr ∨ stage = .looping addr) ∧
              offset = OFFSET_CPID.toNat)
    | .memset .. => stage.Rules
    | .shmctlRmid _ => stage.Rules
    | .vsnprintf .. => False
    | .interruptible _ => False
    | _ => True
  answer stage call answer :=
    match call, answer with
    | .fork, (pid : Int) => -1 ≤ pid ∧ pid < PID_MAX_LIMIT ∧
        ((∃ addr, stage = .middle addr) → 0 ≤ pid)
    | .execvp, _ => False
    | _, _ => True
  next stage call answer := stage.called call answer
  stops stage label :=
    match label with
    | .main action channel =>
        stage = .idle ∧ action = .start ∧ channel = key
    | .round locals =>
        stage = .erasing ∨ stage = .launching locals.shmem.addr ∨
          stage = .looping locals.shmem.addr
    | .caught _ locals =>
        stage = .erasing ∨ stage = .launching locals.shmem.addr ∨
          stage = .looping locals.shmem.addr
    | .returned _ => stage = .idle ∨ stage.Rules
    | .spinning _ => stage.Rules
    | .command => stage = .child
    | .ended _ => True
  resume stage label := stage.entered label

section Code

variable {paths key}

theorem transparent : Transparent (script paths key).toProtocol where
  allow _ call locks := by
    cases call <;> trivial
  next _ call _ locks := by
    cases call <;> first | rfl | exact locks.elim

/-! ### Programs that only look -/

/-- The calls that leave every stage as it is. -/
def Still : Call → Prop
  | .fork => False
  | .execvp => False
  | .shmget .. => False
  | .shmat _ => False
  | .load .. => False
  | .store .. => False
  | .memset .. => False
  | .shmctlRmid _ => False
  | .vsnprintf .. => False
  | .interruptible _ => False
  | _ => True

theorem still_allowed {stage : Stage} (call : Call) (still : Still call) :
    (script paths key).allow stage call := by
  cases call <;> first | exact still.elim | trivial

theorem still_stays {stage : Stage} (call : Call) (answer : call.Answer)
    (still : Still call) : (script paths key).next stage call answer = stage := by
  cases call <;> first | rfl | exact still.elim

theorem still_opensSet (call : Call) (opens : call.opensSet = true) :
    Still call := by
  cases call <;> trivial

/-- A program that only looks may come first. -/
theorem follows_still {Value : Type} {stage : Stage} {program : Prog Value}
    {continuation : Value → Prog Label} (still : program.Within Still)
    (rest : ∀ value, (script paths key).Follows stage (continuation value)) :
    (script paths key).Follows stage (program >>= continuation) :=
  still.conforms_bind still_allowed still_stays rest

theorem still_probe (pid : Int) : (kill pid none).Within Still := by
  rw [← bind_pure (kill pid none), kill_bind]
  exact ⟨trivial, fun _ => trivial⟩

theorem still_daemonstr (pid cpid : Int) :
    (daemonstr pid cpid).Within Still := by
  apply (still_probe pid).bind
  intro _
  apply (still_probe cpid).bind
  intro _
  trivial

/-- No start is being opened. -/
def Past (stage : Stage) : Prop :=
  ∀ free id addr, stage ≠ .opening free id addr

theorem Past.reads {stage : Stage} (past : Past stage) :
    stage.reads = stage := by
  cases stage with
  | opening free id addr => exact absurd rfl (past free id addr)
  | _ => rfl

/-- A program that a process may run at any stage past the opening. -/
def Looks (paths : KeyPaths) (key : Key) (Value : Type)
    (program : Prog Value) : Prop :=
  ∀ stage, Past stage →
    program.Conforms (script paths key).toProtocol stage fun after _ =>
      after = stage

theorem looks : Compositional Still (fun _ _ => False) (Looks paths key) where
  calm call calm := by
    cases call <;> trivial
  value _ _ _ := rfl
  bind := by
    intro Value Result program continuation first second stage past
    apply (first stage past).bind
    rintro _ value rfl
    exact second value _ past
  issue := by
    intro Value call next still rest stage past
    refine ⟨still_allowed call still, ?_⟩
    intro answer _
    rw [still_stays call answer still]
    exact rest answer stage past
  read := by
    intro this offset stage past
    rw [← bind_pure (this.readUint offset)]
    apply Transparent.read transparent
    · intro free id mapped isOpening
      exact absurd isOpening (past free id mapped)
    · intro word _
      show (if Stage.isName offset.toNat ∧ some word = some 0 then stage.reads
        else stage) = stage
      rw [past.reads, ite_self]
  write := by
    intro this offset n impossible
    exact impossible.elim

theorem Looks.follows_bind {Value : Type} {program : Prog Value}
    {continuation : Value → Prog Label} {stage : Stage}
    (looks : Looks paths key Value program) (past : Past stage)
    (rest : ∀ value, (script paths key).Follows stage (continuation value)) :
    (script paths key).Follows stage (program >>= continuation) := by
  apply (looks stage past).bind
  rintro _ value rfl
  exact rest value

/-! ### Programs of the supervisor -/

/-- A program after which the supervisor is where it was, or has begun to
clear the words. -/
def Governs (paths : KeyPaths) (key : Key) (Value : Type)
    (program : Prog Value) : Prop :=
  ∀ stage : Stage, stage.Rules →
    program.Conforms (script paths key).toProtocol stage fun after _ =>
      after = stage ∨ after = .erasing

/-- The calls the supervisor may make at any place. -/
def Free : Call → Prop
  | .fork => False
  | .execvp => False
  | .shmget .. => False
  | .shmat _ => False
  | .load .. => False
  | .store .. => False
  | .vsnprintf .. => False
  | .interruptible _ => False
  | _ => True

/-- The writes that do not name a process. -/
def Anonymous (offset : UShort) (n : UInt) : Prop :=
  n = 0 ∨ Stage.isName offset.toNat = false

theorem free_removes (call : Call) (removes : call.removes = true) :
    Free call := by
  cases call <;> trivial

theorem Stage.Rules.past {stage : Stage} (rules : stage.Rules) :
    Past stage := by
  rintro free id addr rfl
  exact rules

theorem Stage.Rules.erases {stage : Stage} (rules : stage.Rules) :
    stage.erases = .erasing := by
  cases stage <;> first | rfl | exact rules.elim

/-- Who has begun to clear words goes on. -/
theorem Stage.erasing_called {addr : Addr} {offset : Nat} {value : UInt}
    {done : Option Unit} :
    Stage.erasing.called (.store addr offset value) done = .erasing := by
  show (if isName offset then if value = 0 then Stage.erasing
    else if done = some () then .erasing else .erasing else .erasing) = _
  simp only [ite_self]

theorem governs : Compositional Free Anonymous (Governs paths key) where
  calm call calm := by
    cases call <;> trivial
  value _ _ _ := Or.inl rfl
  bind := by
    intro Value Result program continuation first second stage rules
    apply (first stage rules).bind
    rintro after value (rfl | rfl)
    · exact second value _ rules
    · apply (second value .erasing trivial).mono
      intro final _ same
      exact Or.inr (same.elim id id)
  issue := by
    intro Value call next free rest stage rules
    have removing : ∀ after : Stage, after = stage.erases →
        ∀ answer, (next answer).Conforms (script paths key).toProtocol after
          fun final _ => final = stage ∨ final = .erasing := by
      rintro after rfl answer
      rw [rules.erases]
      apply (rest answer .erasing trivial).mono
      intro final _ same
      exact Or.inr (same.elim id id)
    cases call with
    | memset => exact ⟨rules, fun answer _ => removing _ rfl answer⟩
    | shmctlRmid => exact ⟨rules, fun answer _ => removing _ rfl answer⟩
    | fork => exact free.elim
    | execvp => exact free.elim
    | shmget => exact free.elim
    | shmat => exact free.elim
    | load => exact free.elim
    | store => exact free.elim
    | vsnprintf => exact free.elim
    | interruptible => exact free.elim
    | _ => exact ⟨trivial, fun answer _ => rest answer stage rules⟩
  read := by
    intro this offset stage rules
    apply (Compositional.read looks this offset stage rules.past).mono
    intro after _ same
    exact Or.inl same
  write := by
    intro this offset n anonymous stage rules
    rw [← bind_pure (this.writeUint offset n)]
    apply Transparent.write transparent
    · rcases anonymous with rfl | other
      · exact Or.inr (Or.inr (Or.inl ⟨rules, rfl⟩))
      · exact Or.inr (Or.inl ⟨Or.inl rules, other⟩)
    · intro _
      rcases anonymous with rfl | other
      · by_cases isName : Stage.isName offset.toNat = true
        · right
          rw [← rules.erases]
          exact if_pos isName
        · left
          exact if_neg isName
      · left
        exact if_neg (Bool.eq_false_iff.mp other)

/-- After such a program the supervisor is where it was, or clears words. -/
theorem Governs.follows_bind {Value : Type} {program : Prog Value}
    {continuation : Value → Prog Label} {stage : Stage}
    (governs : Governs paths key Value program) (rules : stage.Rules)
    (rest : ∀ after value, after = stage ∨ after = .erasing →
      (script paths key).Follows after (continuation value)) :
    (script paths key).Follows stage (program >>= continuation) :=
  (governs stage rules).bind rest

/-- The supervisor at a segment, or clearing words. -/
def Stands (addr : Addr) (stage : Stage) : Prop :=
  stage = .erasing ∨ stage = .launching addr ∨ stage = .looping addr

theorem Stands.rules {addr : Addr} {stage : Stage}
    (stands : Stands addr stage) : stage.Rules := by
  rcases stands with rfl | rfl | rfl <;> trivial

theorem Stands.later {addr : Addr} {stage after : Stage}
    (stands : Stands addr stage) (later : after = stage ∨ after = .erasing) :
    Stands addr after := by
  rcases later with rfl | rfl
  · exact stands
  · exact Or.inl rfl

theorem anonymous_zero (offset : UShort) : Anonymous offset 0 :=
  Or.inl rfl

theorem follows_die {stage : Stage} (shmem : Option SharedMemory)
    (rules : stage.Rules) :
    (script paths key).Follows stage (Daemon.die shmem) := by
  rw [die_eq shmem (.ended 0)]
  apply (Compositional.die governs shmem anonymous_zero
    free_removes).follows_bind rules
  intro _ _ _
  trivial

theorem follows_endRound {stage : Stage} (locals : Locals)
    (stands : Stands locals.shmem.addr stage) :
    (script paths key).Follows stage (endRound decay locals) := by
  have past := stands.rules.past
  apply (Compositional.active looks _).follows_bind past
  intro _
  apply (Compositional.active looks _).follows_bind past
  intro isActive
  split
  · apply (Compositional.cleanup governs _ anonymous_zero
      free_removes).follows_bind stands.rules
    intro _ _ _
    exact Transparent.dies transparent
  · rw [sleep_bind]
    refine ⟨trivial, fun _ _ => ?_⟩
    apply (Compositional.active looks _).follows_bind past
    intro stillActive
    split
    · exact stands
    · exact Or.inr stands.rules

theorem follows_caught {stage : Stage} (signal : Signal) (locals : Locals)
    (stands : Stands locals.shmem.addr stage) :
    (script paths key).Follows stage (caught decay signal locals) := by
  unfold caught
  dsimp only
  split
  · apply (Compositional.getWord looks _ _).follows_bind stands.rules.past
    intro cpid
    apply (Compositional.kill looks trivial).follows_bind stands.rules.past
    intro _
    exact follows_die (some locals.shmem) stands.rules
  · split
    · exact follows_die (some locals.shmem) stands.rules
    · apply (Compositional.getWord looks _ _).follows_bind stands.rules.past
      intro cpid
      apply (Compositional.kill looks trivial).follows_bind stands.rules.past
      intro _
      exact follows_endRound decay locals stands

/-- A child comes to `execvp`, which does not return. -/
theorem follows_child (shmem : SharedMemory) :
    (script paths key).Follows .child (child shmem) := by
  have past : Past .child := by simp [Past]
  unfold child
  simp only [incCount, bind_assoc]
  apply (Compositional.getWord looks (some shmem)
    OFFSET_COUNT).follows_bind past
  intro count
  apply Transparent.write transparent
  · exact Or.inr (Or.inl ⟨Or.inr rfl, by decide⟩)
  · intro _
    apply (Compositional.getWord looks (some shmem)
      OFFSET_COUNT).follows_bind past
    intro _
    rw [execvp_bind]
    exact ⟨rfl, fun _ impossible => impossible.elim⟩

/-- No process identifier, nor -1, becomes a zero word. -/
theorem ofInt_ne_zero {pid : Int} (nonzero : pid ≠ 0) (least : -1 ≤ pid)
    (small : pid < PID_MAX_LIMIT) : BitVec.ofInt 32 pid ≠ 0 := by
  intro zero
  apply nonzero
  have limit : pid < 0x400000 := small
  have same : (BitVec.ofInt 32 pid).toInt = pid := by
    rw [BitVec.toInt_ofInt]
    apply Int.bmod_eq_of_le <;> omega
  rw [← same, zero]
  rfl

theorem stored_names {stage : Stage} (addr : Addr) {offset : Nat}
    {value : UInt} (isName : Stage.isName offset = true)
    (nonzero : value ≠ 0) :
    stage.called (.store addr offset value) (some () : Option Unit) =
      stage.names := by
  show (if Stage.isName offset then if value = 0 then stage.erases
    else if some () = some () then stage.names else stage
    else stage) = stage.names
  rw [if_pos isName, if_neg nonzero, if_pos rfl]

theorem stored_fails {stage : Stage} (addr : Addr) {offset : Nat}
    {value : UInt} (nonzero : value ≠ 0) :
    stage.called (.store addr offset value) (none : Option Unit) = stage := by
  by_cases isName : Stage.isName offset = true
  · apply (if_pos isName).trans
    rw [if_neg nonzero]
    rfl
  · exact if_neg isName

theorem follows_round {stage : Stage} (stack : WaitStatus) (locals : Locals)
    (stands : Stands locals.shmem.addr stage) :
    (script paths key).Follows stage (round decay stack locals) := by
  rw [round_eq]
  have installs : Governs paths key Unit
      (installHandlers locals.shmem signals) :=
    Compositional.installHandlers governs anonymous_zero free_removes _ _
      fun _ => trivial
  apply installs.follows_bind stands.rules
  intro installed _ later
  have stands := stands.later later
  refine ⟨trivial, fun _ _ => ⟨Or.inl stands.rules, ?_⟩⟩
  intro (cpid : Int) relied
  show (script paths key).Follows (installed.forks cpid) _
  dsimp only
  by_cases isChild : cpid = 0
  · have born : installed.forks cpid = .child := by
      rcases stands with rfl | rfl | rfl <;> exact if_pos isChild
    rw [born, if_pos isChild]
    exact follows_child locals.shmem
  · have same : installed.forks cpid = installed := by
      rcases stands with rfl | rfl | rfl <;> exact if_neg isChild
    have nonzero : BitVec.ofInt 32 cpid ≠ 0 :=
      ofInt_ne_zero isChild relied.1 relied.2.1
    rw [same, if_neg isChild]
    apply Transparent.write transparent
    · rcases stands with rfl | named
      · exact Or.inl rfl
      · exact Or.inr (Or.inr (Or.inr ⟨nonzero, Or.inr ⟨named, rfl⟩⟩))
    · intro _
      have named : (script paths key).next installed
          (.store locals.shmem.addr OFFSET_CPID.toNat (BitVec.ofInt 32 cpid))
          (some () : Option Unit) = installed.names := by
        have isName : Stage.isName OFFSET_CPID.toNat = true := by decide
        exact stored_names locals.shmem.addr isName nonzero
      rw [named]
      have stands : Stands locals.shmem.addr installed.names := by
        rcases stands with rfl | rfl | rfl
        · exact Or.inl rfl
        · exact Or.inr (Or.inr rfl)
        · exact Or.inr (Or.inr rfl)
      apply (Compositional.writeWord governs (some locals.shmem)
        (Or.inr rfl : Anonymous OFFSET_ACTIVE 1)).follows_bind stands.rules
      intro activated _ later
      have stands := stands.later later
      refine ⟨trivial, ?_⟩
      intro (outcome : Except Errno (Int × WaitStatus)) _
      dsimp only
      split
      · refine ⟨trivial, fun _ _ => ?_⟩
        exact follows_endRound decay _ stands
      · exact stands.rules

/-! ### Programs of a start -/

theorem follows_daemonize {free : Bool} {id : Option IpcId}
    (shmem : SharedMemory) (count : Int) (isFree : free = true) :
    (script paths key).Follows (.opening free id (some shmem.addr))
      (daemonize shmem count) := by
  subst isFree
  unfold daemonize
  dsimp only
  rw [fork_bind]
  refine ⟨Or.inr (Or.inr ⟨id, shmem.addr, rfl⟩), ?_⟩
  intro (pid : Int) _
  show (script paths key).Follows
    (if 0 < pid then .idle else .middle shmem.addr) _
  dsimp only
  by_cases isParent : 0 < pid
  · rw [if_pos isParent, if_pos isParent]
    exact Or.inl rfl
  · rw [if_neg isParent, if_neg isParent]
    rw [fork_bind]
    refine ⟨Or.inr (Or.inl ⟨shmem.addr, rfl⟩), ?_⟩
    intro (pid' : Int) relied
    show (script paths key).Follows
      (if 0 < pid' then .naming shmem.addr pid' else .launching shmem.addr) _
    dsimp only
    by_cases isParent : 0 < pid'
    · rw [if_pos isParent, if_pos isParent]
      have nonzero : BitVec.ofInt 32 pid' ≠ 0 :=
        ofInt_ne_zero (by omega) relied.1 relied.2.1
      apply Transparent.write transparent
      · exact Or.inr (Or.inr (Or.inr ⟨nonzero, Or.inl ⟨pid', rfl, rfl⟩⟩))
      · intro _
        exact Transparent.dies transparent
    · rw [if_neg isParent, if_neg isParent]
      have rules : (Stage.launching shmem.addr).Rules := trivial
      apply (Compositional.closeFileDescriptors governs anonymous_zero
        free_removes).follows_bind rules
      rintro after _ later
      have stands : Stands shmem.addr (.launching shmem.addr) :=
        Or.inr (Or.inl rfl)
      exact stands.later later

/-- A word that a start reads. -/
theorem follows_name {free : Bool} {id : Option IpcId} {shmem : SharedMemory}
    {offset : UShort} {continuation : Int → Prog Label}
    (isName : Stage.isName offset.toNat = true)
    (rest : ∀ word : UInt, ∀ after : Bool,
      (free = true ∨ word = 0 → after = true) →
        (script paths key).Follows (.opening after id (some shmem.addr))
          (continuation word.toInt)) :
    (script paths key).Follows (.opening free id (some shmem.addr))
      (getWord (some shmem) offset >>= continuation) := by
  rw [getWord_bind]
  apply Transparent.read transparent
  · intro _ _ mapped isOpening
    cases isOpening
    rfl
  · intro word _
    show (script paths key).Follows
      (if Stage.isName offset.toNat ∧ some word = some 0 then
        .opening true id (some shmem.addr)
      else .opening free id (some shmem.addr)) _
    by_cases zero : word = 0
    · rw [if_pos ⟨isName, congrArg some zero⟩]
      exact rest word true fun _ => rfl
    · rw [if_neg fun both => zero (Option.some.inj both.2)]
      apply rest word free
      rintro (isFree | isZero)
      · exact isFree
      · exact absurd isZero zero

theorem follows_start {free : Bool} {id : Option IpcId} (shmem : SharedMemory) :
    (script paths key).Follows (.opening free id (some shmem.addr))
      (start shmem) := by
  apply follows_name (by decide)
  intro pid free' readsPid
  apply follows_name (by decide)
  intro cpid free'' readsCpid
  rw [getCount, getWord_bind]
  apply Transparent.read transparent
  · intro _ _ mapped isOpening
    cases isOpening
    rfl
  · intro count _
    have kept : (script paths key).next
        (.opening free'' id (some shmem.addr))
        (.load shmem.addr OFFSET_COUNT.toNat) (some count : Option UInt) =
          .opening free'' id (some shmem.addr) := by
      show (if Stage.isName OFFSET_COUNT.toNat ∧ some count = some 0 then
        Stage.opening true id (some shmem.addr)
        else .opening free'' id (some shmem.addr)) = _
      exact if_neg fun both => absurd both.1 (by decide)
    rw [kept]
    split
    · apply follows_still (still_daemonstr _ _)
      intro _
      trivial
    · rename_i missing
      apply follows_daemonize
      apply readsCpid
      by_cases noCpid : cpid = 0
      · exact Or.inr noCpid
      · left
        apply readsPid
        right
        by_contra hasPid
        exact missing ⟨toInt_ne_zero noCpid, toInt_ne_zero hasPid⟩

/-- `shmat` of the segment that was found. -/
theorem follows_shmat {id : IpcId} {continuation : Addr → Prog Label}
    (failed : ∀ stage, (script paths key).Follows stage (continuation .failed))
    (attached : ∀ addr,
      (script paths key).Follows (.opening false (some id) (some addr))
        (continuation addr)) :
    (script paths key).Follows (.opening false (some id) none)
      (shmat id >>= continuation) := by
  rw [SharedMemory.shmat_bind]
  refine ⟨⟨false, none, rfl⟩, ?_⟩
  intro (mapped : Except Errno Addr) _
  cases mapped with
  | ok addr => exact attached addr
  | error errno => exact failed _

theorem follows_newSegment {this : SharedMemory} {size : Nat}
    {continuation : Int × SharedMemory → Prog Label} (isKey : this.key = key)
    (failed : ∀ stage success this, success ≠ EXIT_SUCCESS →
      (script paths key).Follows stage (continuation (success, this)))
    (obtained : ∀ id this,
      (script paths key).Follows (.opening false (some id) (some this.addr))
        (continuation (EXIT_SUCCESS, this))) :
    (script paths key).Follows (.opening false none none)
      (SharedMemory.newSegment paths this size true >>= continuation) := by
  have unsuccessful : EXIT_FAILURE ≠ EXIT_SUCCESS := by decide
  rw [SharedMemory.newSegment_bind]
  refine ⟨⟨false, none, none, rfl, by rw [isKey]⟩, ?_⟩
  intro (made : Except Errno IpcId) _
  cases made with
  | ok id =>
      apply follows_shmat
      · intro stage
        exact failed stage _ _ unsuccessful
      · intro addr
        split
        · exact obtained id { this with id, addr }
        · exact failed _ _ _ unsuccessful
  | error errno =>
      dsimp only
      split
      · refine ⟨⟨false, none, none, rfl, by rw [isKey]⟩, ?_⟩
        intro (found : Except Errno IpcId) _
        cases found with
        | ok id =>
            apply follows_shmat
            · intro stage
              exact failed stage _ _ (Errno.code_ne_success errno)
            · intro addr
              split
              · exact obtained id { this with id, addr }
              · exact failed _ _ _ (Errno.code_ne_success errno)
        | error errno' => exact failed _ _ _ (Errno.code_ne_success errno')
      · exact failed _ _ _ (Errno.code_ne_success errno)

theorem follows_new {size : Nat}
    {continuation : Option SharedMemory → Prog Label}
    (failed : ∀ stage : Stage,
      (script paths key).Follows stage (continuation none))
    (obtained : ∀ id shmem,
      (script paths key).Follows (.opening false (some id) (some shmem.addr))
        (continuation (some shmem))) :
    (script paths key).Follows (.opening false none none)
      (SharedMemory.new paths key size true >>= continuation) := by
  have freed : ∀ (this : SharedMemory) (stage : Stage),
      (script paths key).Follows stage
        ((SharedMemory.delete this false >>= fun _ => pure none) >>=
          continuation) := by
    intro this stage
    rw [bind_assoc]
    apply follows_still (SharedMemory.within_free this)
    intro _
    exact failed stage
  simp only [SharedMemory.new, mallocSharedMemory, Program.issue_bind,
    Program.done_bind]
  refine ⟨trivial, ?_⟩
  intro (block : Option SharedMemory) _
  cases block with
  | none => exact failed _
  | some block =>
      show (script paths key).Follows (.opening false none none) _
      simp only [bind_assoc]
      apply follows_newSegment
      · rfl
      · intro stage success this unsuccessful
        rw [if_neg unsuccessful]
        exact freed this stage
      · intro id this
        rw [if_pos rfl, bind_assoc]
        apply follows_still
          (Semaphore.within_new still_opensSet (key + 128) 1 1 true)
        intro shsem
        cases shsem with
        | none => exact freed _ _
        | some shsem =>
            rw [bind_assoc]
            apply follows_still (SharedMemory.within_lockPages trivial
              (fun _ _ => trivial) _)
            intro locked
            split
            · exact freed _ _
            · exact obtained id { this with shsem := some shsem }

theorem follows_main :
    (script paths key).Follows (.opening false none none)
      (main paths .start key) := by
  apply follows_new
  · intro stage
    trivial
  · intro id shmem
    exact follows_start shmem

theorem follows_code {stage : Stage} {stack : WaitStatus} {label : Label}
    {program : Prog Label} (stops : (script paths key).stops stage label)
    (piece : code paths decay stack label = some program) :
    (script paths key).Follows (stage.entered label) program := by
  cases label with
  | main action channel =>
      cases piece
      rcases stops with ⟨_, rfl, rfl⟩
      exact follows_main
  | round locals =>
      cases piece
      exact follows_round decay stack locals stops
  | caught signal locals =>
      cases piece
      exact follows_caught decay signal locals stops
  | returned locals =>
      cases piece
      have past : Past stage := by
        rcases stops with rfl | rules
        · simp [Past]
        · exact rules.past
      apply (Compositional.poll looks _ _ _ _).follows_bind past
      rintro ⟨pid, cpid⟩
      apply (Compositional.daemonstr looks _ _).follows_bind past
      intro _
      trivial
  | _ => cases piece

end Code

/-! ## Stages side by side -/

namespace Stage

/-- The stages that two processes can be at together. -/
def Compatible : Stage → Stage → Prop
  | .idle, _ => True
  | .child, _ => True
  | _, .idle => True
  | _, .child => True
  | .opening free _ _, .looping _ => free = false
  | .looping _, .opening free _ _ => free = false
  | .naming addr _, .launching other => addr = other
  | .launching other, .naming addr _ => addr = other
  | .naming addr _, .looping other => addr = other
  | .looping other, .naming addr _ => addr = other
  | .naming .., .erasing => True
  | .erasing, .naming .. => True
  | _, _ => False

variable {first second : Stage}

theorem Compatible.symm (compatible : first.Compatible second) :
    second.Compatible first := by
  cases first <;> cases second <;> exact compatible

theorem compatible_finds {id : IpcId} (compatible : first.Compatible second) :
    (first.finds id).Compatible second := by
  cases first <;> cases second <;> exact compatible

theorem compatible_attaches {addr : Addr}
    (compatible : first.Compatible second) :
    (first.attaches addr).Compatible second := by
  cases first <;> cases second <;> exact compatible

/-- A start reads no zero beside a supervisor whose words are set. -/
theorem compatible_reads (compatible : first.Compatible second)
    (elsewhere : (∃ free id addr, first = .opening free id addr) →
      ∀ addr, second ≠ .looping addr) :
    first.reads.Compatible second := by
  cases first with
  | opening free id addr =>
      have apart := elsewhere ⟨free, id, addr, rfl⟩
      cases second with
      | looping other => exact absurd rfl (apart other)
      | _ => exact compatible
  | _ => exact compatible

/-- `set_pid` is made beside the supervisor, `set_cpid` before or after. -/
theorem compatible_names (compatible : first.Compatible second) :
    first.names.Compatible second := by
  cases first with
  | launching addr => cases second <;> first | exact compatible | trivial
  | naming addr pid => trivial
  | _ => exact compatible

/-- Words are cleared while no start is on its way. -/
theorem compatible_erases (compatible : first.Compatible second)
    (alone : ¬ second.Opens) : first.erases.Compatible second := by
  cases first with
  | launching addr =>
      cases second <;> first | exact compatible.elim | trivial
  | looping addr =>
      cases second with
      | opening free id other => exact absurd trivial alone
      | _ => first | exact compatible.elim | trivial
  | _ => exact compatible

end Stage

/-! ## The invariant -/

variable {paths key}

/-- A segment is found under the key of the channel. -/
def Found (paths : KeyPaths) (key : Key) (store : Store) (addr : Addr) :
    Prop :=
  ∃ id, addr = .mapped id ∧ store.findShm (paths.shmKey key) = some id

/-- A word that is not zero. -/
def Names (store : Store) (addr : Addr) (offset : Nat) : Prop :=
  ∃ word, wordAt store addr offset = some word ∧ word ≠ 0

/-- What a process can rely on at its stage. -/
def Kept (paths : KeyPaths) (key : Key) (store : Store) : Stage → Prop
  | .opening _ id addr =>
      (∀ found, id = some found →
        store.findShm (paths.shmKey key) = some found) ∧
        ∀ mapped, addr = some mapped → Found paths key store mapped
  | .middle addr => Found paths key store addr
  | .launching addr => Found paths key store addr
  | .looping addr =>
      Found paths key store addr ∧ Names store addr OFFSET_CPID.toNat
  | _ => True

/-- The found segment and its names are still there. -/
def Spared (paths : KeyPaths) (key : Key) (before after : Store) : Prop :=
  ∀ id, before.findShm (paths.shmKey key) = some id →
    after.findShm (paths.shmKey key) = some id ∧
      ∀ offset, Stage.isName offset = true →
        Names before (.mapped id) offset → Names after (.mapped id) offset

section Spared

variable {before after : Store} {addr : Addr}

theorem Spared.found (spared : Spared paths key before after)
    (found : Found paths key before addr) : Found paths key after addr := by
  rcases found with ⟨id, rfl, found⟩
  exact ⟨id, rfl, (spared id found).1⟩

theorem Spared.names {offset : Nat} (spared : Spared paths key before after)
    (found : Found paths key before addr)
    (isName : Stage.isName offset = true)
    (names : Names before addr offset) : Names after addr offset := by
  rcases found with ⟨id, rfl, found⟩
  exact (spared id found).2 offset isName names

theorem Spared.kept {stage : Stage} (spared : Spared paths key before after)
    (kept : Kept paths key before stage) : Kept paths key after stage := by
  cases stage with
  | opening free id addr =>
      refine ⟨?_, ?_⟩
      · intro found isFound
        exact (spared found (kept.1 found isFound)).1
      · intro mapped isMapped
        exact spared.found (kept.2 mapped isMapped)
  | middle addr => exact spared.found kept
  | launching addr => exact spared.found kept
  | looping addr =>
      exact ⟨spared.found kept.1, spared.names kept.1 (by decide) kept.2⟩
  | _ => trivial

theorem spared_of_same (same : after = before) :
    Spared paths key before after := by
  subst same
  exact fun id found => ⟨found, fun _ _ names => names⟩

/-- A process that goes leaves the segment and its words. -/
theorem spared_filter {world : World} {process : Pid}
    (last : after.shmGen = world.store.shmGen)
    (same : after.shms = fun id => (world.store.shms id).bind fun segment =>
      Store.keepMapped segment (segment.attached.filter (· ≠ process))) :
    Spared paths key world.store after := by
  intro id found
  have kept := filter_findShm found last same
  refine ⟨kept.1, ?_⟩
  rintro offset _ ⟨word, isWord, nonzero⟩
  exact ⟨word, (kept.2 offset).trans isWord, nonzero⟩

end Spared

variable {admits : Choice → Prop}

/-- A call that does not clear words spares them. -/
theorem spared_call {world after : World} {process : Pid} {call : Call}
    {answer : call.Answer} {stage : Stage}
    (allowed : (script paths key).allow stage call)
    (calm : stage.called call answer ≠ .erasing)
    (exec : (system paths decay admits).exec process call world answer
      after) : Spared paths key world.store after.store := by
  have words : call.writesBytes = false := by
    cases call <;> first | rfl | exact allowed.elim
  have keeps : ∀ target, call ≠ .shmctlRmid target := by
    rintro target rfl
    exact calm (Stage.Rules.erases allowed)
  intro id found
  have found' := call_findShm paths decay words keeps exec found
  refine ⟨found', ?_⟩
  rintro offset isName ⟨word, isWord, nonzero⟩
  rcases Store.findShm_eq_some_iff.mp found' with
    ⟨_, _, segment, isSegment, _⟩
  have now : wordAt after.store (.mapped id) offset =
      some (segment.word offset) := by
    simp [wordAt, isSegment]
  refine ⟨_, now, ?_⟩
  rcases call_word paths decay words exec now with
    same | ⟨_, _, _, rfl, _⟩ | rfl | ⟨n, rfl, _⟩
  · rw [isWord] at same
    cases same
    exact nonzero
  · have same := call_making_word paths decay exec found isWord
    rw [now] at same
    cases same
    exact nonzero
  · rcases allowed with rfl | ⟨_, other⟩ | ⟨rules, zero⟩ | ⟨nonzero', _⟩
    · exact absurd Stage.erasing_called calm
    · rw [isName] at other
      cases other
    · exfalso
      apply calm
      rw [← rules.erases]
      exact (if_pos isName).trans (if_pos zero)
    · exact nonzero'
  · exact absurd (Stage.Rules.erases allowed) calm

/-- What holds between the processes and the words. -/
structure Sound (paths : KeyPaths) (key : Key) (crew : Processes)
    (stages : Pid → Stage) : Prop where
  same : ∀ process, stages process = stage process crew.log
  apart : ∀ first second, first ≠ second → crew.procs first ≠ none →
    crew.procs second ≠ none → (stages first).Compatible (stages second)
  kept : ∀ process, crew.procs process ≠ none →
    Kept paths key crew.state.store (stages process)
  named : ∀ process addr, crew.procs process ≠ none →
    stages process = .launching addr ∨ stages process = .looping addr →
      Names crew.state.store addr OFFSET_PID.toNat ∨
        ∃ namer pid, crew.procs namer ≠ none ∧
          stages namer = .naming addr pid
  buffer : ∀ process saved, crew.procs process ≠ none →
    crew.state.buffer process = some saved →
      stages process = .child ∨ Stands saved.shmem.addr (stages process)
  rules : ∀ process, crew.procs process ≠ none →
    inLoop process crew.log = true → (stages process).Rules

/-- A move of one process. -/
theorem Sound.moved {crew : Processes} {stages : Pid → Stage} {process : Pid}
    {world : World} {move : Moves} {next : Option (Prog Label)} {after : Stage}
    (sound : Sound paths key crew stages)
    (running : crew.procs process ≠ none)
    (same : ∀ other, stage other (move :: crew.log) =
      if process = other then after else stage other crew.log)
    (looping : ∀ other, other ≠ process →
      inLoop other (move :: crew.log) = inLoop other crew.log)
    (apart : next ≠ none → ∀ other, other ≠ process →
      crew.procs other ≠ none → after.Compatible (stages other))
    (spared : after ≠ .erasing ∨ next = none →
      Spared paths key crew.state.store world.store)
    (buffered : ∀ other, other ≠ process →
      world.buffer other = crew.state.buffer other)
    (own : next ≠ none → Kept paths key world.store after ∧
      (∀ addr, after = .launching addr ∨ after = .looping addr →
        stages process = .launching addr ∨ stages process = .looping addr) ∧
      (∀ saved, world.buffer process = some saved →
        after = .child ∨ Stands saved.shmem.addr after) ∧
      (inLoop process (move :: crew.log) = true → after.Rules))
    (naming : ∀ addr pid, stages process = .naming addr pid →
      after = .naming addr pid ∧ next ≠ none ∨
        Names world.store addr OFFSET_PID.toNat) :
    Sound paths key
      (crew.record move world (Function.update crew.procs process next))
      (Function.update stages process after) := by
  have live : ∀ actor, Function.update crew.procs process next actor ≠ none →
      crew.procs actor ≠ none ∧ (actor = process → next ≠ none) := by
    intro actor lives
    by_cases isProcess : actor = process
    · rw [isProcess, Function.update_self] at lives
      exact ⟨isProcess ▸ running, fun _ => lives⟩
    · rw [Function.update_of_ne isProcess] at lives
      exact ⟨lives, fun impossible => absurd impossible isProcess⟩
  -- Beside a process that clears words nobody relies on them.
  have relies : ∀ actor, actor ≠ process → crew.procs actor ≠ none →
      (∃ addr, stages actor = .launching addr ∨ stages actor = .looping addr) →
        Spared paths key crew.state.store world.store := by
    rintro actor different lives ⟨addr, isStage⟩
    apply spared
    by_cases goes : next = none
    · exact Or.inr goes
    · left
      rintro rfl
      have compatible := apart goes actor different lives
      rcases isStage with isStage | isStage
      · rw [isStage] at compatible
        exact compatible
      · rw [isStage] at compatible
        exact compatible
  have names : ∀ actor addr, crew.procs actor ≠ none →
      (stages actor = .launching addr ∨ stages actor = .looping addr) →
        Spared paths key crew.state.store world.store →
          Names world.store addr OFFSET_PID.toNat ∨
            ∃ namer pid,
              Function.update crew.procs process next namer ≠ none ∧
                Function.update stages process after namer =
                  .naming addr pid := by
    intro actor addr lives isStage spares
    have found : Found paths key crew.state.store addr := by
      have kept := sound.kept actor lives
      rcases isStage with isStage | isStage
      · rw [isStage] at kept
        exact kept
      · rw [isStage] at kept
        exact kept.1
    rcases sound.named actor addr lives isStage with
      already | ⟨namer, pid, lives', names⟩
    · exact Or.inl (spares.names found (by decide) already)
    · by_cases isProcess : namer = process
      · rw [isProcess] at names
        rcases naming addr pid names with ⟨still, goes⟩ | written
        · right
          refine ⟨process, pid, ?_, ?_⟩
          · rwa [Function.update_self]
          · rwa [Function.update_self]
        · exact Or.inl written
      · right
        refine ⟨namer, pid, ?_, ?_⟩
        · rwa [Function.update_of_ne isProcess]
        · rwa [Function.update_of_ne isProcess]
  constructor
  · intro other
    by_cases isProcess : other = process
    · rw [isProcess, Function.update_self, Crew.record_log, same, if_pos rfl]
    · rw [Function.update_of_ne isProcess, Crew.record_log, same,
        if_neg (Ne.symm isProcess)]
      exact sound.same other
  · intro first second different lives lives'
    by_cases isFirst : first = process
    · subst isFirst
      rw [Function.update_self, Function.update_of_ne (Ne.symm different)]
      exact apart ((live _ lives).2 rfl) second (Ne.symm different)
        (live _ lives').1
    · by_cases isSecond : second = process
      · subst isSecond
        rw [Function.update_self, Function.update_of_ne isFirst]
        exact (apart ((live _ lives').2 rfl) first isFirst
          (live _ lives).1).symm
      · rw [Function.update_of_ne isFirst, Function.update_of_ne isSecond]
        exact sound.apart first second different (live _ lives).1
          (live _ lives').1
  · intro other lives
    by_cases isProcess : other = process
    · rw [isProcess, Function.update_self]
      exact (own ((live _ lives).2 isProcess)).1
    · rw [Function.update_of_ne isProcess]
      have kept := sound.kept other (live _ lives).1
      by_cases calm : after ≠ .erasing ∨ next = none
      · exact (spared calm).kept kept
      · rw [not_or, not_not] at calm
        have compatible := apart calm.2 other isProcess (live _ lives).1
        rw [calm.1] at compatible
        cases isStage : stages other <;> rw [isStage] at compatible <;>
          trivial
  · intro other addr lives isStage
    by_cases isProcess : other = process
    · rw [isProcess, Function.update_self] at isStage
      have goes := (live _ lives).2 isProcess
      have before := (own goes).2.1 addr isStage
      apply names process addr running before
      apply spared
      left
      rintro rfl
      rcases isStage with impossible | impossible <;> cases impossible
    · rw [Function.update_of_ne isProcess] at isStage
      have lives := (live _ lives).1
      exact names other addr lives isStage
        (relies other isProcess lives ⟨addr, isStage⟩)
  · intro other saved lives isSaved
    by_cases isProcess : other = process
    · subst isProcess
      rw [Function.update_self]
      exact (own ((live _ lives).2 rfl)).2.2.1 saved isSaved
    · rw [Function.update_of_ne isProcess]
      rw [Crew.record_state, buffered other isProcess] at isSaved
      exact sound.buffer other saved (live _ lives).1 isSaved
  · intro other lives loops
    by_cases isProcess : other = process
    · subst isProcess
      rw [Function.update_self]
      exact (own ((live _ lives).2 rfl)).2.2.2 loops
    · rw [Function.update_of_ne isProcess]
      rw [Crew.record_log, looping other isProcess] at loops
      exact sound.rules other (live _ lives).1 loops

section Call

variable {crew : Processes} {stages : Pid → Stage} {process : Pid}
variable {call : Call} {answer : call.Answer} {world : World}

/-- A start reads a zero only where no supervisor has set its words. -/
theorem reads_beside (sound : Sound paths key crew stages)
    (running : crew.procs process ≠ none) {addr : Addr} {offset : Nat}
    (isName : Stage.isName offset = true)
    (allowed : (script paths key).allow (stages process) (.load addr offset))
    (exec : (system paths decay admits).exec process (.load addr offset)
      crew.state (some 0 : Option UInt) world)
    (opens : ∃ free id addr, stages process = .opening free id addr)
    {other : Pid} (lives : crew.procs other ≠ none) (there : Addr) :
    stages other ≠ .looping there := by
  intro isLooping
  rcases opens with ⟨free, id, mapped, isOpening⟩
  have isAddr : mapped = some addr := allowed free id mapped isOpening
  have keptOwn := sound.kept process running
  rw [isOpening] at keptOwn
  rcases keptOwn.2 addr isAddr with ⟨segment, rfl, found⟩
  have keptOther := sound.kept other lives
  rw [isLooping] at keptOther
  rcases keptOther.1 with ⟨segment', rfl, found'⟩
  rw [found] at found'
  cases found'
  have zero := call_load paths decay exec
  have named : Names crew.state.store (.mapped segment) offset := by
    rcases Bool.or_eq_true_iff.mp isName with isPid | isCpid
    · rw [decide_eq_true_iff] at isPid
      rcases sound.named other _ lives (Or.inr isLooping) with
        already | ⟨namer, pid, lives', names⟩
      · rwa [isPid]
      · have together : process ≠ namer := by
          rintro rfl
          rw [isOpening] at names
          cases names
        have compatible := sound.apart process namer together running lives'
        rw [isOpening, names] at compatible
        exact compatible.elim
    · rw [decide_eq_true_iff] at isCpid
      rw [isCpid]
      exact keptOther.2
  rcases named with ⟨word, isWord, nonzero⟩
  rw [zero] at isWord
  cases isWord
  exact nonzero rfl

/-- The stage after a call goes with those of the others. -/
theorem compatible_called (sound : Sound paths key crew stages)
    (running : crew.procs process ≠ none)
    (allowed : (script paths key).allow (stages process) call)
    (exec : (system paths decay admits).exec process call crew.state answer
      world)
    (proper : Proper crew (.call process ⟨call, answer⟩)) {other : Pid}
    (different : other ≠ process) (lives : crew.procs other ≠ none) :
    ((stages process).called call answer).Compatible (stages other) := by
  have before := sound.apart process other (Ne.symm different) running lives
  have alone : Clears call → ¬ (stages other).Opens := by
    intro clears
    rw [sound.same other]
    exact proper.1 clears other different lives
  cases call with
  | fork =>
      rcases call_fork paths decay exec with ⟨rfl, _⟩
      have isMiddle : ∀ addr, stages process ≠ .middle addr := by
        rw [sound.same process]
        exact proper.2.1 rfl
      rcases allowed with rules | ⟨addr, middle⟩ | ⟨id, addr, isOpening⟩
      · cases isStage : stages process <;> rw [isStage] at rules before <;>
          first | exact rules.elim | exact before
      · exact absurd middle (isMiddle addr)
      · rw [isOpening] at before ⊢
        cases isOther : stages other <;> rw [isOther] at before <;> trivial
  | shmget name size creat excl =>
      cases (answer : Except Errno IpcId) with
      | ok id => exact Stage.compatible_finds before
      | error errno => exact before
  | shmat id =>
      cases (answer : Except Errno Addr) with
      | ok addr => exact Stage.compatible_attaches before
      | error errno => exact before
  | load addr offset =>
      show (if Stage.isName offset ∧ answer = some 0 then
        (stages process).reads else stages process).Compatible (stages other)
      split
      · rename_i both
        rcases both with ⟨isName, rfl⟩
        apply Stage.compatible_reads before
        intro opens there
        exact reads_beside decay sound running isName allowed exec opens
          lives there
      · exact before
  | store addr offset value =>
      show (if Stage.isName offset then if value = 0 then
        (stages process).erases else if answer = some () then
          (stages process).names else stages process
        else stages process).Compatible (stages other)
      split
      · rename_i isName
        split
        · rename_i zero
          exact Stage.compatible_erases before (alone ⟨isName, zero⟩)
        · split
          · exact Stage.compatible_names before
          · exact before
      · exact before
  | memset addr n => exact Stage.compatible_erases before (alone trivial)
  | shmctlRmid id => exact Stage.compatible_erases before (alone trivial)
  | _ => exact before

/-- The name that a supervisor stores first. -/
theorem named_launching {here addr : Addr} {offset : Nat} {value : UInt}
    (isName : Stage.isName offset = true) (nonzero : value ≠ 0)
    (allowed : (script paths key).allow (.launching here)
      (.store addr offset value)) :
    addr = here ∧ offset = OFFSET_CPID.toNat := by
  rcases allowed with impossible | ⟨_, other⟩ | ⟨_, zero⟩ |
    ⟨_, ⟨pid, impossible, _⟩ | ⟨same | impossible, isCpid⟩⟩
  · cases impossible
  · rw [isName] at other
    cases other
  · exact absurd zero nonzero
  · cases impossible
  · cases same
    exact ⟨rfl, isCpid⟩
  · cases impossible

/-- The name that an intermediate process stores. -/
theorem named_naming {here addr : Addr} {pid : Int} {offset : Nat}
    {value : UInt}
    (allowed : (script paths key).allow (.naming here pid)
      (.store addr offset value)) :
    value ≠ 0 ∧ addr = here ∧ offset = OFFSET_PID.toNat := by
  rcases allowed with impossible | ⟨rules | impossible, _⟩ | ⟨rules, _⟩ |
    ⟨nonzero, ⟨other, same, isPid⟩ | ⟨impossible | impossible, _⟩⟩
  · cases impossible
  · exact rules.elim
  · cases impossible
  · exact rules.elim
  · cases same
    exact ⟨nonzero, rfl, isPid⟩
  · cases impossible
  · cases impossible

/-- What a process relies on after its call. -/
theorem kept_called (sound : Sound paths key crew stages)
    (running : crew.procs process ≠ none)
    (allowed : (script paths key).allow (stages process) call)
    (exec : (system paths decay admits).exec process call crew.state answer
      world)
    (proper : Proper crew (.call process ⟨call, answer⟩)) :
    Kept paths key world.store ((stages process).called call answer) := by
  by_cases calm : (stages process).called call answer = .erasing
  · rw [calm]
    trivial
  · have spared := spared_call decay allowed calm exec
    have kept := sound.kept process running
    have still := spared.kept kept
    cases call with
    | fork =>
        rcases call_fork paths decay exec with ⟨rfl, rfl⟩
        have isMiddle : ∀ addr, stages process ≠ .middle addr := by
          rw [sound.same process]
          exact proper.2.1 rfl
        rcases allowed with rules | ⟨addr, middle⟩ | ⟨id, addr, isOpening⟩
        · cases isStage : stages process <;> rw [isStage] at rules kept <;>
            first | exact rules.elim | exact kept
        · exact absurd middle (isMiddle addr)
        · rw [isOpening] at kept ⊢
          exact kept.2 addr rfl
    | shmget name size creat excl =>
        rcases allowed with ⟨free, id, mapped, isOpening, rfl⟩
        cases (answer : Except Errno IpcId) with
        | error errno => exact still
        | ok found =>
            rw [isOpening] at still ⊢
            refine ⟨?_, still.2⟩
            rintro _ ⟨⟩
            exact call_shmget paths decay exec
    | shmat id =>
        rcases allowed with ⟨free, mapped, isOpening⟩
        cases (answer : Except Errno Addr) with
        | error errno => exact still
        | ok addr =>
            rw [isOpening] at still ⊢
            refine ⟨still.1, ?_⟩
            rintro _ ⟨⟩
            exact ⟨id, call_shmat paths decay exec, still.1 id rfl⟩
    | load addr offset =>
        have reads : Kept paths key world.store (stages process).reads := by
          cases isStage : stages process <;> rw [isStage] at still <;>
            exact still
        show Kept paths key world.store
          (if Stage.isName offset ∧ answer = some 0 then
            (stages process).reads else stages process)
        split
        · exact reads
        · exact still
    | store addr offset value =>
        by_cases isName : Stage.isName offset = true
        · by_cases zero : value = 0
          · have erases : (stages process).called (.store addr offset value)
                answer = (stages process).erases :=
              (if_pos isName).trans (if_pos zero)
            rw [erases] at calm ⊢
            cases isStage : stages process <;> rw [isStage] at still calm <;>
              first | exact still | exact absurd rfl calm
          · cases (answer : Option Unit) with
            | none =>
                rw [stored_fails addr zero]
                exact still
            | some success =>
                have stored := call_stored paths decay exec
                rw [stored_names addr isName zero]
                cases isStage : stages process with
                | launching here =>
                    rw [isStage] at allowed still
                    rcases named_launching isName zero allowed with ⟨rfl, rfl⟩
                    exact ⟨still, value, stored.2, zero⟩
                | naming here pid => trivial
                | _ =>
                    rw [isStage] at still
                    exact still
        · have stays : (stages process).called (.store addr offset value)
              answer = stages process := if_neg isName
          rw [stays]
          exact still
    | memset addr n => exact absurd (Stage.Rules.erases allowed) calm
    | shmctlRmid id => exact absurd (Stage.Rules.erases allowed) calm
    | _ => exact still

/-- An intermediate process goes on with `set_pid`. -/
theorem naming_called {addr : Addr} {pid : Int}
    (names : stages process = .naming addr pid)
    (allowed : (script paths key).allow (stages process) call)
    (exec : (system paths decay admits).exec process call crew.state answer
      world) :
    (stages process).called call answer = .naming addr pid ∨
      Names world.store addr OFFSET_PID.toNat := by
  rw [names] at allowed ⊢
  cases call with
  | store target offset value =>
      rcases named_naming allowed with ⟨nonzero, rfl, rfl⟩
      cases (answer : Option Unit) with
      | none =>
          exact Or.inl (stored_fails _ nonzero)
      | some success =>
          right
          exact ⟨value, (call_stored paths decay exec).2, nonzero⟩
  | shmget name size creat excl =>
      left
      cases (answer : Except Errno IpcId) <;> rfl
  | shmat id =>
      left
      cases (answer : Except Errno Addr) <;> rfl
  | load target offset =>
      left
      show (if _ then _ else _) = _
      exact ite_self _
  | _ => exact Or.inl rfl

/-- The ways in which a call can change a stage. -/
theorem called_cases {stage : Stage} (known : call ≠ .fork) :
    stage.called call answer = stage ∨
      (∃ id, stage.called call answer = stage.finds id) ∨
      (∃ addr, stage.called call answer = stage.attaches addr) ∨
      stage.called call answer = stage.reads ∨
      stage.called call answer = stage.names ∨
      stage.called call answer = stage.erases := by
  cases call with
  | fork => exact absurd rfl known
  | shmget name size creat excl =>
      cases (answer : Except Errno IpcId) with
      | ok id => exact Or.inr (Or.inl ⟨id, rfl⟩)
      | error errno => exact Or.inl rfl
  | shmat id =>
      cases (answer : Except Errno Addr) with
      | ok addr => exact Or.inr (Or.inr (Or.inl ⟨addr, rfl⟩))
      | error errno => exact Or.inl rfl
  | load addr offset =>
      by_cases zero : Stage.isName offset = true ∧ answer = some 0
      · exact Or.inr (Or.inr (Or.inr (Or.inl (if_pos zero))))
      · exact Or.inl (if_neg zero)
  | store addr offset value =>
      by_cases isName : Stage.isName offset = true
      · by_cases zero : value = 0
        · have erases : stage.called (.store addr offset value) answer =
              stage.erases := (if_pos isName).trans (if_pos zero)
          exact Or.inr (Or.inr (Or.inr (Or.inr (Or.inr erases))))
        · cases (answer : Option Unit) with
          | none => exact Or.inl (stored_fails addr zero)
          | some success =>
              have names : stage.called (.store addr offset value)
                  (some success : Option Unit) = stage.names :=
                stored_names addr isName zero
              exact Or.inr (Or.inr (Or.inr (Or.inr (Or.inl names))))
      · exact Or.inl (if_neg isName)
  | memset addr n => exact Or.inr (Or.inr (Or.inr (Or.inr (Or.inr rfl))))
  | shmctlRmid id => exact Or.inr (Or.inr (Or.inr (Or.inr (Or.inr rfl))))
  | _ => exact Or.inl rfl

/-- The supervisor stays the supervisor, and nobody becomes it by a call. -/
structure Later (before after : Stage) : Prop where
  back : ∀ addr, after = .launching addr ∨ after = .looping addr →
    before = .launching addr ∨ before = .looping addr
  stands : ∀ addr, Stands addr before → Stands addr after
  child : before = .child → after = .child

theorem Later.rules {before after : Stage} (later : Later before after)
    (rules : before.Rules) : after.Rules := by
  cases before with
  | launching addr => exact (later.stands addr (Or.inr (Or.inl rfl))).rules
  | looping addr => exact (later.stands addr (Or.inr (Or.inr rfl))).rules
  | erasing => exact (later.stands .null (Or.inl rfl)).rules
  | _ => exact rules.elim

theorem later_refl (stage : Stage) : Later stage stage :=
  ⟨fun _ => id, fun _ => id, id⟩

theorem later_called {stage : Stage}
    (known : call = .fork → HEq answer (-1 : Int) ∧
      ∀ addr, stage ≠ .middle addr) :
    Later stage (stage.called call answer) := by
  by_cases isFork : call = .fork
  · subst isFork
    rcases known rfl with ⟨same, isMiddle⟩
    cases eq_of_heq same
    cases stage with
    | middle addr => exact absurd rfl (isMiddle addr)
    | opening free id addr =>
        cases addr with
        | none => exact later_refl _
        | some addr =>
            constructor <;> simp [Stage.called, Stage.forks, Stands]
    | _ => exact later_refl _
  · have changes : stage.called call answer = stage ∨ _ :=
      called_cases isFork
    rcases changes with
      same | ⟨id, same⟩ | ⟨addr, same⟩ | same | same | same
    · rw [same]
      exact later_refl stage
    · rw [same]
      cases stage <;> constructor <;> simp [Stage.finds, Stands]
    · rw [same]
      cases stage <;> constructor <;> simp [Stage.attaches, Stands]
    · rw [same]
      cases stage <;> constructor <;> simp [Stage.reads, Stands]
    · rw [same]
      cases stage <;> constructor <;> simp [Stage.names, Stands]
    · rw [same]
      cases stage <;> constructor <;> simp [Stage.erases, Stands]

end Call

theorem spared_clone {world : World} {parent child : Pid} :
    Spared paths key world.store (world.clone parent child).store := by
  intro id found
  refine ⟨clone_findShm found, ?_⟩
  rintro offset _ ⟨word, isWord, nonzero⟩
  exact ⟨word, clone_word.trans isWord, nonzero⟩

/-- The stages of both sides of a `fork`. -/
theorem fork_cases {before : Stage} {child : Pid} (positive : 0 < child)
    (allowed : (script paths key).allow before .fork) :
    (before.Rules ∧ before.forks (child : Int) = before ∧
        before.forks 0 = .child) ∨
      (∃ addr, before = .middle addr ∧
        before.forks (child : Int) = .naming addr child ∧
        before.forks 0 = .launching addr) ∨
      ∃ id addr, before = .opening true id (some addr) ∧
        before.forks (child : Int) = .idle ∧ before.forks 0 = .middle addr := by
  have nonzero : ¬ (child : Int) = 0 := by
    exact_mod_cast Nat.pos_iff_ne_zero.mp positive
  have isParent : (0 : Int) < child := by exact_mod_cast positive
  rcases allowed with rules | ⟨addr, rfl⟩ | ⟨id, addr, rfl⟩
  · left
    refine ⟨rules, ?_⟩
    cases before with
    | launching addr => exact ⟨if_neg nonzero, rfl⟩
    | looping addr => exact ⟨if_neg nonzero, rfl⟩
    | erasing => exact ⟨if_neg nonzero, rfl⟩
    | _ => exact rules.elim
  · exact Or.inr (Or.inl ⟨addr, rfl, if_pos isParent, rfl⟩)
  · exact Or.inr (Or.inr ⟨id, addr, rfl, if_pos isParent, rfl⟩)

/-- The stages of both sides go together. -/
theorem compatible_sides {before : Stage} {child : Pid} (positive : 0 < child)
    (allowed : (script paths key).allow before .fork) :
    (before.forks (child : Int)).Compatible (before.forks 0) := by
  rcases fork_cases positive allowed with
    ⟨_, here, there⟩ | ⟨addr, _, here, there⟩ | ⟨id, addr, _, here, there⟩
  · rw [here, there]
    cases before <;> trivial
  · rw [here, there]
    rfl
  · rw [here, there]
    trivial

/-- They go with the stages of the others. -/
theorem compatible_forks {before other : Stage} {child : Pid}
    (positive : 0 < child) (allowed : (script paths key).allow before .fork)
    (compatible : before.Compatible other) :
    (before.forks (child : Int)).Compatible other ∧
      (before.forks 0).Compatible other := by
  rcases fork_cases positive allowed with
    ⟨_, here, there⟩ | ⟨addr, rfl, here, there⟩ | ⟨id, addr, rfl, here, there⟩
  · rw [here, there]
    exact ⟨compatible, trivial⟩
  · rw [here, there]
    cases other <;> first | exact compatible.elim | exact ⟨trivial, trivial⟩
  · rw [here, there]
    refine ⟨trivial, ?_⟩
    cases other <;> first | exact compatible.elim | trivial

/-- The segment at which a supervisor is. -/
theorem Sound.found {crew : Processes} {stages : Pid → Stage} {process : Pid}
    {addr : Addr} (sound : Sound paths key crew stages)
    (lives : crew.procs process ≠ none)
    (isStage : stages process = .launching addr ∨
      stages process = .looping addr) :
    Found paths key crew.state.store addr := by
  have kept := sound.kept process lives
  rcases isStage with isStage | isStage
  · rw [isStage] at kept
    exact kept
  · rw [isStage] at kept
    exact kept.1

/-! ## Both sides of a `fork` -/

section Fork

variable {crew : Processes} {stages : Pid → Stage} {parent child other : Pid}
variable {here there : Option (Prog Label)}

/-- The stages after a `fork`. -/
abbrev sides (stages : Pid → Stage) (parent child : Pid) : Pid → Stage :=
  Function.update
    (Function.update stages parent ((stages parent).forks (child : Int)))
    child ((stages parent).forks 0)

theorem forked_child :
    sides stages parent child child = (stages parent).forks 0 :=
  Function.update_self ..

theorem forked_parent (different : parent ≠ child) :
    sides stages parent child parent =
      (stages parent).forks (child : Int) := by
  rw [sides, Function.update_of_ne different, Function.update_self]

theorem forked_other (isChild : other ≠ child) (isParent : other ≠ parent) :
    sides stages parent child other = stages other := by
  rw [sides, Function.update_of_ne isChild, Function.update_of_ne isParent]

/-- Only the child is new. -/
theorem live_before_fork (running : crew.procs parent ≠ none)
    (isChild : other ≠ child)
    (lives : Function.update (Function.update crew.procs parent here) child
      there other ≠ none) : crew.procs other ≠ none := by
  rw [Function.update_of_ne isChild] at lives
  by_cases isParent : other = parent
  · rwa [isParent]
  · rwa [Function.update_of_ne isParent] at lives

variable (sound : Sound paths key crew stages)
variable (running : crew.procs parent ≠ none) (different : parent ≠ child)
variable (positive : 0 < child)
variable (allowed : (script paths key).allow (stages parent) .fork)

include allowed in
/-- A process that is to write its word does not fork. -/
theorem not_naming {addr : Addr} {pid : Int} :
    stages parent ≠ .naming addr pid := by
  intro names
  rw [names] at allowed
  rcases allowed with impossible | ⟨_, impossible⟩ | ⟨_, _, impossible⟩
  · exact impossible
  · cases impossible
  · cases impossible

include sound different in
theorem forked_same :
    ∀ process, sides stages parent child process =
      stage process (.fork parent child .fork :: crew.log) := by
  intro other
  simp only [stage]
  by_cases isChild : child = other
  · rw [if_pos isChild, ← isChild, forked_child, sound.same parent]
  · rw [if_neg isChild]
    by_cases isParent : parent = other
    · rw [if_pos isParent, ← isParent, forked_parent different,
        sound.same parent]
    · rw [if_neg isParent, forked_other (Ne.symm isChild)
        (Ne.symm isParent), sound.same other]

include sound running different positive allowed

/-- The child goes with all others. -/
theorem forked_beside (isChild : other ≠ child)
    (lives : crew.procs other ≠ none) :
    ((stages parent).forks 0).Compatible
      (sides stages parent child other) := by
  by_cases isParent : other = parent
  · rw [isParent, forked_parent different]
    exact (compatible_sides positive allowed).symm
  · rw [forked_other isChild isParent]
    have before := sound.apart parent other (Ne.symm isParent) running lives
    exact (compatible_forks positive allowed before).2

theorem forked_apart :
    ∀ first second, first ≠ second →
      Function.update (Function.update crew.procs parent here) child there
        first ≠ none →
      Function.update (Function.update crew.procs parent here) child there
        second ≠ none →
      (sides stages parent child first).Compatible
        (sides stages parent child second) := by
  intro first second apart lives lives'
  by_cases isFirst : first = child
  · rw [isFirst] at apart ⊢
    rw [forked_child]
    exact forked_beside sound running different positive allowed
      (Ne.symm apart) (live_before_fork running (Ne.symm apart) lives')
  have alive := live_before_fork running isFirst lives
  by_cases isSecond : second = child
  · rw [isSecond, forked_child]
    exact (forked_beside sound running different positive allowed isFirst
      alive).symm
  have alive' := live_before_fork running isSecond lives'
  by_cases isParent : first = parent
  · rw [isParent, forked_parent different, forked_other isSecond
      (fun same => apart (isParent.trans same.symm))]
    rw [isParent] at apart
    have before := sound.apart parent second apart running alive'
    exact (compatible_forks positive allowed before).1
  by_cases isParent' : second = parent
  · rw [isParent', forked_parent different, forked_other isFirst isParent]
    have before := sound.apart parent first (Ne.symm isParent) running alive
    exact (compatible_forks positive allowed before).1.symm
  rw [forked_other isFirst isParent, forked_other isSecond isParent']
  exact sound.apart first second apart alive alive'

theorem forked_kept :
    ∀ process,
      Function.update (Function.update crew.procs parent here) child there
        process ≠ none →
      Kept paths key (crew.state.clone parent child).store
        (sides stages parent child process) := by
  intro other lives
  have kept := sound.kept parent running
  apply spared_clone.kept
  by_cases isChild : other = child
  · rw [isChild, forked_child]
    rcases fork_cases positive allowed with
      ⟨_, _, isStage⟩ | ⟨addr, before, _, isStage⟩ |
        ⟨id, addr, before, _, isStage⟩
    · rw [isStage]
      trivial
    · rw [before] at kept
      rw [isStage]
      exact kept
    · rw [before] at kept
      rw [isStage]
      exact kept.2 addr rfl
  by_cases isParent : other = parent
  · rw [isParent, forked_parent different]
    rcases fork_cases positive allowed with
      ⟨_, isStage, _⟩ | ⟨addr, _, isStage, _⟩ | ⟨id, addr, _, isStage, _⟩
    · rw [isStage]
      exact kept
    · rw [isStage]
      trivial
    · rw [isStage]
      trivial
  · rw [forked_other isChild isParent]
    exact sound.kept other (live_before_fork running isChild lives)

omit different positive in
/-- A word that was written, or to be written, still is. -/
theorem forked_names (fresh : crew.procs child = none) {addr : Addr}
    (lives : crew.procs other ≠ none)
    (isStage : stages other = .launching addr ∨
      stages other = .looping addr) :
    Names (crew.state.clone parent child).store addr OFFSET_PID.toNat ∨
      ∃ namer pid,
        Function.update (Function.update crew.procs parent here) child there
          namer ≠ none ∧
        sides stages parent child namer = .naming addr pid := by
  rcases sound.named other addr lives isStage with
    already | ⟨namer, pid, lives', names⟩
  · exact Or.inl
      (spared_clone.names (sound.found lives isStage) (by decide) already)
  · have isChild : namer ≠ child := by
      rintro rfl
      exact lives' fresh
    have isParent : namer ≠ parent := by
      rintro rfl
      exact not_naming allowed names
    refine Or.inr ⟨namer, pid, ?_, ?_⟩
    · rwa [Function.update_of_ne isChild, Function.update_of_ne isParent]
    · rwa [forked_other isChild isParent]

theorem forked_named (fresh : crew.procs child = none) (goes : here ≠ none) :
    ∀ process addr,
      Function.update (Function.update crew.procs parent here) child there
        process ≠ none →
      sides stages parent child process = .launching addr ∨
        sides stages parent child process = .looping addr →
      Names (crew.state.clone parent child).store addr OFFSET_PID.toNat ∨
        ∃ namer pid,
          Function.update (Function.update crew.procs parent here) child there
            namer ≠ none ∧
          sides stages parent child namer = .naming addr pid := by
  intro other addr lives isStage
  by_cases isChild : other = child
  · rw [isChild, forked_child] at isStage
    rcases fork_cases positive allowed with
      ⟨_, _, there⟩ | ⟨addr', _, here, there⟩ | ⟨_, _, _, _, there⟩
    · rw [there] at isStage
      rcases isStage with impossible | impossible <;> cases impossible
    · rw [there] at isStage
      rcases isStage with same | impossible
      · cases same
        -- The parent of a new supervisor is to write its word.
        refine Or.inr ⟨parent, child, ?_, ?_⟩
        · rwa [Function.update_of_ne different, Function.update_self]
        · rw [forked_parent different, here]
      · cases impossible
    · rw [there] at isStage
      rcases isStage with impossible | impossible <;> cases impossible
  by_cases isParent : other = parent
  · rw [isParent, forked_parent different] at isStage
    rcases fork_cases positive allowed with
      ⟨_, here, _⟩ | ⟨_, _, here, _⟩ | ⟨_, _, _, here, _⟩
    · rw [here] at isStage
      exact forked_names sound running allowed fresh running isStage
    · rw [here] at isStage
      rcases isStage with impossible | impossible <;> cases impossible
    · rw [here] at isStage
      rcases isStage with impossible | impossible <;> cases impossible
  · rw [forked_other isChild isParent] at isStage
    exact forked_names sound running allowed fresh
      (live_before_fork running isChild lives) isStage

omit different positive in
/-- A process that forks with a saved context is a supervisor. -/
theorem stands_of_saved {saved : Locals}
    (isSaved : crew.state.buffer parent = some saved) :
    Stands saved.shmem.addr (stages parent) := by
  rcases sound.buffer parent saved running isSaved with isStage | stands
  · rw [isStage] at allowed
    rcases allowed with impossible | ⟨_, impossible⟩ | ⟨_, _, impossible⟩
    · exact impossible.elim
    · cases impossible
    · cases impossible
  · exact stands

theorem forked_buffer :
    ∀ process saved,
      Function.update (Function.update crew.procs parent here) child there
        process ≠ none →
      (crew.state.clone parent child).buffer process = some saved →
        sides stages parent child process = .child ∨
          Stands saved.shmem.addr (sides stages parent child process) := by
  intro other saved lives isSaved
  by_cases isChild : other = child
  · left
    have isSaved : crew.state.buffer parent = some saved := by
      simpa [World.clone, isChild] using isSaved
    have stands := stands_of_saved sound running allowed isSaved
    rw [isChild, forked_child]
    rcases stands with isStage | isStage | isStage <;> rw [isStage] <;> rfl
  have isSaved : crew.state.buffer other = some saved := by
    simpa [World.clone, Function.update_of_ne isChild] using isSaved
  by_cases isParent : other = parent
  · right
    rw [isParent] at isSaved
    have stands := stands_of_saved sound running allowed isSaved
    rw [isParent, forked_parent different]
    rcases fork_cases positive allowed with
      ⟨_, isStage, _⟩ | ⟨_, before, _⟩ | ⟨_, _, before, _⟩
    · rwa [isStage]
    · rw [before] at stands
      exact stands.rules.elim
    · rw [before] at stands
      exact stands.rules.elim
  · rw [forked_other isChild isParent]
    exact sound.buffer other saved (live_before_fork running isChild lives)
      isSaved

theorem forked_rules :
    ∀ process,
      Function.update (Function.update crew.procs parent here) child there
        process ≠ none →
      inLoop process (.fork parent child .fork :: crew.log) = true →
        (sides stages parent child process).Rules := by
  intro other lives loops
  simp only [inLoop] at loops
  by_cases isChild : child = other
  · rw [if_pos isChild] at loops
    cases loops
  rw [if_neg isChild] at loops
  have alive := live_before_fork running (Ne.symm isChild) lives
  have rules := sound.rules other alive loops
  by_cases isParent : other = parent
  · rw [isParent] at rules ⊢
    rw [forked_parent different]
    rcases fork_cases positive allowed with
      ⟨_, isStage, _⟩ | ⟨_, before, _⟩ | ⟨_, _, before, _⟩
    · rwa [isStage]
    · rw [before] at rules
      exact rules.elim
    · rw [before] at rules
      exact rules.elim
  · rwa [forked_other (Ne.symm isChild) isParent]

theorem sound_fork (fresh : crew.procs child = none) (goes : here ≠ none) :
    Sound paths key
      (crew.record (.fork parent child .fork) (crew.state.clone parent child)
        (Function.update (Function.update crew.procs parent here) child there))
      (sides stages parent child) where
  same := forked_same sound different
  apart := forked_apart sound running different positive allowed
  kept := forked_kept sound running different positive allowed
  named := forked_named sound running different positive allowed fresh goes
  buffer := forked_buffer sound running different positive allowed
  rules := forked_rules sound running different positive allowed

end Fork

/-! ## The other moves -/

section Moves

variable {crew : Processes} {stages : Pid → Stage} {process : Pid}
variable (sound : Sound paths key crew stages)
variable (alive : crew.procs process ≠ none)

include sound

/-- A jump to a label is logged with the stage the process has. -/
theorem Sound.jumped_same {label : Label} (other : Pid) :
    stage other (.jump process label :: crew.log) =
      if process = other then stages process else stage other crew.log := by
  rw [sound.same process]
  split
  · rename_i isProcess
    rw [isProcess]
    rfl
  · rfl

include alive

/-- A call, as long as it is proper. -/
theorem Sound.called {call : Call} {answer : call.Answer} {world : World}
    {next : Prog Label}
    (allowed : (script paths key).allow (stages process) call)
    (exec : (system paths decay admits).exec process call crew.state answer
      world)
    (proper : Proper crew (.call process ⟨call, answer⟩))
    (later : Later (stages process) ((stages process).called call answer)) :
    Sound paths key
      (crew.record (.call process ⟨call, answer⟩) world
        (Function.update crew.procs process (some next)))
      (Function.update stages process
        ((stages process).called call answer)) := by
  apply sound.moved alive
  · intro other
    simp only [stage, sound.same process]
    split
    · rename_i same
      rw [same]
    · rfl
  · intro other _
    rfl
  · intro _ other different lives
    exact compatible_called decay sound alive allowed exec proper different
      lives
  · intro calm
    rcases calm with calm | impossible
    · exact spared_call decay allowed calm exec
    · cases impossible
  · intro other _
    rw [call_buffer paths decay exec]
  · intro _
    refine ⟨kept_called decay sound alive allowed exec proper, later.back,
      ?_, ?_⟩
    · intro saved isSaved
      rw [call_buffer paths decay exec] at isSaved
      exact (sound.buffer process saved alive isSaved).imp
        later.child (later.stands _)
    · intro loops
      exact later.rules (sound.rules process alive loops)
  · intro addr pid names
    exact (naming_called decay names allowed exec).imp_left
      fun still => ⟨still, Option.some_ne_none _⟩

/-- Going on from a label. -/
theorem Sound.entered {label : Label} {program : Prog Label}
    (stops : (script paths key).stops (stages process) label)
    (proper : Proper crew (.enter process label)) :
    Sound paths key
      (crew.record (.enter process label)
        ((system paths decay admits).enter process label crew.state)
        (Function.update crew.procs process (some program)))
      (Function.update stages process
        ((script paths key).resume (stages process) label)) := by
  apply sound.moved alive
  · intro other
    simp only [stage, script, sound.same process]
    split
    · rename_i same
      rw [same]
    · rfl
  · intro other different
    cases label <;> simp [inLoop, Ne.symm different]
  · intro _ other different lives
    cases label with
    | main action channel =>
        have idle := proper other lives
        rw [← sound.same other] at idle
        cases isStage : stages other <;> rw [isStage] at idle <;>
          first | exact absurd trivial idle | trivial
    | _ => exact sound.apart process other (Ne.symm different) alive lives
  · intro _
    exact spared_of_same enter_store
  · intro other different
    cases label with
    | round locals => exact Function.update_of_ne different _ _
    | returned locals => exact Function.update_of_ne different _ _
    | _ => rfl
  · intro _
    have kept : Kept paths key
        ((system paths decay admits).enter process label crew.state).store
        (stages process) :=
      (spared_of_same enter_store).kept (sound.kept process alive)
    cases label with
    | main action channel =>
        refine ⟨⟨by simp, by simp⟩, ?_, ?_, ?_⟩
        · rintro addr (impossible | impossible) <;> cases impossible
        · intro saved isSaved
          rcases sound.buffer process saved alive isSaved with
            isStage | stands
          · rw [isStage] at stops
            cases stops.1
          · rw [stops.1] at stands
            exact stands.rules.elim
        · intro loops
          have rules := sound.rules process alive loops
          rw [stops.1] at rules
          exact rules.elim
    | round locals =>
        have stands : Stands locals.shmem.addr (stages process) := stops
        refine ⟨kept, fun _ => id, ?_, fun _ => stands.rules⟩
        intro saved isSaved
        have same : locals = saved := by
          simpa [system, Daemon.enter] using isSaved
        rw [← same]
        exact Or.inr stands
    | returned locals =>
        refine ⟨kept, fun _ => id, ?_, ?_⟩
        · intro saved isSaved
          simp [system, Daemon.enter] at isSaved
        · intro loops
          simp [inLoop] at loops
    | _ =>
        exact ⟨kept, fun _ => id, fun saved => sound.buffer process saved alive,
          sound.rules process alive⟩
  · intro addr pid names
    left
    refine ⟨?_, Option.some_ne_none _⟩
    cases label with
    | main action channel =>
        rw [stops.1] at names
        cases names
    | _ => exact names

/-- A signal is caught, which changes no stage. -/
theorem Sound.caught {signal : Signal} {locals : Locals} :
    Sound paths key
      (crew.record (.jump process (.caught signal locals))
        (crew.state.catch process signal)
        (Function.update crew.procs process
          (some (.done (.caught signal locals)))))
      (Function.update stages process (stages process)) := by
  apply sound.moved alive sound.jumped_same
  · intro _ _
    rfl
  · intro _ other different lives
    exact sound.apart process other (Ne.symm different) alive lives
  · intro _
    exact spared_of_same rfl
  · intro _ _
    rfl
  · intro _
    exact ⟨sound.kept process alive, fun _ => id,
      fun saved => sound.buffer process saved alive,
      sound.rules process alive⟩
  · intro addr pid names
    exact Or.inl ⟨names, Option.some_ne_none _⟩

/-- A child runs its command. -/
theorem Sound.execed (isChild : stages process = .child) :
    Sound paths key
      (crew.record (.jump process .command) (crew.state.exec process)
        (Function.update crew.procs process (some (.done .command))))
      (Function.update stages process (stages process)) := by
  apply sound.moved alive sound.jumped_same
  · intro _ _
    rfl
  · intro _ other different lives
    exact sound.apart process other (Ne.symm different) alive lives
  · intro _
    exact spared_filter rfl rfl
  · intro other different
    simp [World.exec, Function.update_of_ne different]
  · intro _
    rw [isChild]
    refine ⟨trivial, ?_, fun _ _ => Or.inl rfl, ?_⟩
    · rintro addr (impossible | impossible) <;> cases impossible
    · intro loops
      have rules := sound.rules process alive loops
      rwa [isChild] at rules
  · intro addr pid names
    rw [isChild] at names
    cases names

/-- A process that is not to write its word goes. -/
theorem Sound.left {move : Moves}
    (cause : move = .leave process ∨ move = .kill process)
    (wordless : ∀ addr pid, stage process crew.log ≠ .naming addr pid) :
    Sound paths key
      (crew.record move (crew.state.leave process)
        (Function.update crew.procs process none))
      (Function.update stages process (stages process)) := by
  have silent : (∀ other, stage other (move :: crew.log) =
      stage other crew.log) ∧
        ∀ other, inLoop other (move :: crew.log) = inLoop other crew.log := by
    rcases cause with rfl | rfl
    · exact ⟨fun _ => rfl, fun _ => rfl⟩
    · exact ⟨fun _ => rfl, fun _ => rfl⟩
  apply sound.moved alive
  · intro other
    rw [silent.1 other, sound.same process]
    split
    · rename_i isProcess
      rw [isProcess]
    · rfl
  · intro other _
    exact silent.2 other
  · intro impossible
    exact absurd rfl impossible
  · intro _
    exact spared_filter rfl rfl
  · intro other different
    exact Function.update_of_ne different _ _
  · intro impossible
    exact absurd rfl impossible
  · intro addr pid names
    rw [sound.same process] at names
    exact absurd names (wordless addr pid)

end Moves

/-- What happens outside leaves the segments alone. -/
theorem Sound.disturbed {crew : Processes} {stages : Pid → Stage}
    {event : Raise} (sound : Sound paths key crew stages) :
    Sound paths key
      (crew.record (.outside event)
        ((system paths decay admits).disturb event crew.state) crew.procs)
      stages := by
  have same : ((system paths decay admits).disturb event
      crew.state).store = crew.state.store := World.post_store
  refine ⟨sound.same, sound.apart, ?_, ?_, ?_, sound.rules⟩
  · intro process lives
    rw [Crew.record_state, same]
    exact sound.kept process lives
  · intro process addr lives isStage
    rw [Crew.record_state, same]
    exact sound.named process addr lives isStage
  · intro process saved lives
    rw [Crew.record_state, system, World.post_buffer]
    exact sound.buffer process saved lives

theorem preserves :
    Crew.Preserves (system paths decay admits) Proper (script paths key)
      (Sound paths key) where
  call := by
    intro crew stages process call next answer world sound running allowed exec
      proper
    have alive : crew.procs process ≠ none := by simp [running]
    have isMiddle : call = .fork → ∀ addr, stages process ≠ .middle addr := by
      intro isFork
      rw [sound.same process]
      exact proper.2.1 isFork
    have failed : call = .fork → HEq answer (-1 : Int) := by
      rintro rfl
      exact heq_of_eq (call_fork paths decay exec).1
    have later : Later (stages process)
        ((stages process).called call answer) :=
      later_called fun isFork => ⟨failed isFork, isMiddle isFork⟩
    refine ⟨?_, sound.called decay alive allowed exec proper later⟩
    cases call with
    | fork =>
        cases eq_of_heq (failed rfl)
        refine ⟨Int.le_refl _, by decide, ?_⟩
        rintro ⟨addr, middle⟩
        exact absurd middle (isMiddle rfl addr)
    | execvp => exact absurd rfl proper.2.2
    | _ => trivial
  fork := by
    intro crew stages parent child call next here there sound running fresh
      allowed forks _
    cases call with
    | fork =>
        simp only [system] at forks
        split at forks
        · rename_i range
          cases forks
          have alive : crew.procs parent ≠ none := by simp [running]
          have different : parent ≠ child := by
            rintro rfl
            exact alive fresh
          refine ⟨⟨by omega, by exact_mod_cast range.2, fun _ => by omega⟩,
            ⟨by omega, by decide, fun _ => Int.le_refl _⟩, ?_⟩
          exact sound_fork sound alive different range.1 allowed fresh
            (Option.some_ne_none _)
        · cases forks
    | _ => simp [system] at forks
  enter := by
    intro crew stages process label program sound running stops piece proper
    rcases piece with ⟨stack, piece⟩
    have alive : crew.procs process ≠ none := by simp [running]
    exact ⟨follows_code decay stops piece,
      sound.entered decay alive stops proper⟩
  jump := by
    intro crew stages process program label world sound running follows jumps
      proper
    have alive : crew.procs process ≠ none := by simp [running]
    cases jumps with
    | @caught _ _ signal saved locals deliverable jmpbuf shmem count =>
        have stands : Stands locals.shmem.addr (stages process) := by
          rw [shmem]
          rcases sound.buffer process saved alive jmpbuf with
            isChild | stands
          · rw [sound.same process] at isChild
            exact absurd isChild proper
          · exact stands
        exact ⟨stages process, stands, sound.caught alive⟩
    | exec =>
        have isChild : stages process = .child := follows.1
        exact ⟨stages process, isChild, sound.execed alive isChild⟩
  leave := by
    intro crew stages process program move sound running _ cause proper
    have alive : crew.procs process ≠ none := by simp [running]
    have wordless : ∀ addr pid, stage process crew.log ≠ .naming addr pid := by
      rcases cause with ⟨rfl, _⟩ | rfl
      · exact proper
      · exact proper
    exact ⟨stages process,
      sound.left alive (cause.imp_left And.left) wordless⟩
  outside := by
    intro crew stages event sound _
    exact sound.disturbed decay

/-! ## Any number of starts -/

/-- Invocations of `daemonize -S` on one channel. -/
def starting (key : Key) (starts : Pid → Bool) (process : Pid) :
    Option Label :=
  if starts process then some (.main .start key) else none

/-- At most one process is in the supervision loop. -/
def OneSupervisor (crew : Processes) : Prop :=
  ∀ first second, crew.procs first ≠ none → crew.procs second ≠ none →
    inLoop first crew.log = true → inLoop second crew.log = true →
      first = second

variable {store : Store} {inherited : Signal → Bool} {starts : Pid → Bool}
variable {crew : Processes}

theorem begin_simulated :
    Crew.Simulated (script paths key) (Sound paths key)
      (begin store inherited (starting key starts)) fun _ => .idle := by
  refine ⟨⟨fun _ => rfl, ?_, ?_, ?_, ?_, ?_⟩, ?_⟩
  · intro _ _ _ _ _
    trivial
  · intro _ _
    trivial
  · rintro _ _ _ (impossible | impossible) <;> cases impossible
  · intro _ _ _ impossible
    cases impossible
  · intro _ _ impossible
    cases impossible
  · intro process program running
    rcases begin_procs running with ⟨label, isLabel, rfl⟩
    unfold starting at isLabel
    split at isLabel
    · cases isLabel
      exact ⟨rfl, rfl, rfl⟩
    · cases isLabel

/--
Starts on one channel bring up one supervisor at most, whatever the segment
holds at first, as long as none of them begins while another one is on its
way or a supervisor clears its words, and nothing goes wrong on the way.
-/
theorem one_supervisor
    (reach : Crew.Reach (system paths decay admits) Proper
      (begin store inherited (starting key starts)) crew) :
    OneSupervisor crew := by
  rcases reach.simulated (preserves decay) begin_simulated with
    ⟨stages, sound, _⟩
  intro first second lives lives' loops loops'
  by_contra different
  have rules := sound.rules first lives loops
  have rules' := sound.rules second lives' loops'
  have compatible := sound.apart first second different lives lives'
  cases isFirst : stages first <;> rw [isFirst] at rules compatible <;>
    cases isSecond : stages second <;>
      rw [isSecond] at rules' compatible <;>
        first | exact rules.elim | exact rules'.elim | exact compatible.elim

/-! ## Two starts -/

/-- The first and the fifth process. -/
def two (process : Pid) : Bool :=
  process = 1 || process = 5

/-- A start, up to its first `fork`. -/
def opening (process : Pid) (number : Nat) : List Turn :=
  .enter process .stopped :: calls process number

/-- From there to the supervision loop. -/
def launch (process : Pid) : List Turn :=
  .fork process (process + 1) :: .fork (process + 1) (process + 2) ::
    calls (process + 1) 4 ++ calls (process + 2) 1 ++
      [.enter (process + 2) .stopped]

/-- The first round, up to `waitpid`. -/
def firstRound (process : Pid) : List Turn :=
  calls process 8 ++ .fork process (process + 1) :: calls process 8

/-- Nobody else who is alive is at a stage of some kind. -/
def nobody (kind : Stage → Bool) (crew : Processes) : Bool :=
  (1 :: 5 :: forked crew.log).all fun other =>
    (crew.procs other).isNone || !kind (stage other crew.log)

def isBusy : Stage → Bool
  | .idle => false
  | .looping _ => false
  | .child => false
  | _ => true

def isMiddle : Stage → Bool
  | .middle _ => true
  | _ => false

def isNaming : Stage → Bool
  | .naming .. => true
  | _ => false

/-- The check that a move is proper; no word is cleared. -/
def proper (crew : Processes) : Moves → Bool
  | .enter _ (.main ..) => nobody isBusy crew
  | .call process ⟨call, _⟩ =>
      match call with
      | .fork => !isMiddle (stage process crew.log)
      | .execvp => false
      | .store _ offset value => !Stage.isName offset || value != 0
      | .memset .. => false
      | .shmctlRmid _ => false
      | _ => true
  | .jump _ (.caught ..) => false
  | .leave process => !isNaming (stage process crew.log)
  | .kill process => !isNaming (stage process crew.log)
  | _ => true

theorem not_busy {other : Stage} (idle : isBusy other = false) :
    ¬ other.Busy := by
  cases other <;> simp [isBusy, Stage.Busy] at idle ⊢

theorem proper_sound {move : Moves}
    (reach : Crew.Reach (system paths decay admits) Crew.Unrestricted
      (begin store inherited (starting key two)) crew)
    (passed : proper crew move = true) : Proper crew move := by
  cases move with
  | enter process label =>
      cases label with
      | main action channel =>
          intro other lives
          have isMember : other ∈ 1 :: 5 :: forked crew.log := by
            rcases alive_or_forked reach lives with starts | isForked
            · have isTwo : two other = true := by
                by_contra impossible
                apply starts
                simp [begin, starting, impossible]
              rcases Bool.or_eq_true_iff.mp isTwo with first | second
              · simp [of_decide_eq_true first]
              · simp [of_decide_eq_true second]
            · simp [isForked]
          have idle := List.all_eq_true.mp passed other isMember
          rcases Bool.or_eq_true_iff.mp idle with dead | idle
          · exact absurd (Option.isNone_iff_eq_none.mp dead) lives
          · exact not_busy (by simpa using idle)
      | _ => trivial
  | call process event =>
      rcases event with ⟨call, answer⟩
      refine ⟨?_, ?_, ?_⟩
      · intro clears
        cases call with
        | store target offset value =>
            simp [proper, clears.1, clears.2] at passed
        | memset => cases passed
        | shmctlRmid => cases passed
        | _ => exact clears.elim
      · rintro rfl addr isMiddle
        simp [proper, isMiddle, Supervisors.isMiddle] at passed
      · rintro rfl
        cases passed
  | jump process label => cases label <;> trivial
  | leave process =>
      intro addr pid isNaming
      simp [proper, isNaming, Supervisors.isNaming] at passed
  | kill process =>
      intro addr pid isNaming
      simp [proper, isNaming, Supervisors.isNaming] at passed
  | _ => trivial

/-- A process is in the supervision loop. -/
def loops (process : Pid) (crew : Processes) : Bool :=
  (crew.procs process).isSome && inLoop process crew.log

theorem of_loops {process : Pid} (isLooping : loops process crew = true) :
    crew.procs process ≠ none ∧ inLoop process crew.log = true := by
  rcases Bool.and_eq_true_iff.mp isLooping with ⟨lives, loops⟩
  exact ⟨Option.isSome_iff_ne_none.mp lives, loops⟩

/-- A process ends with a status. -/
def endsWith (process : Pid) (status : Int) (crew : Processes) : Bool :=
  match crew.procs process with
  | some (.done (.ended result)) => result == status
  | _ => false

/-- A start beside a daemon that runs comes to its end. -/
theorem one_supervisor_refused :
    ∃ crew : Processes, loops 3 crew = true ∧ endsWith 5 (-1) crew = true ∧
      OneSupervisor crew := by
  have computed : (Daemon.follow .devtmpfs (fun _ => 0) proper
      (opening 1 19 ++ launch 1 ++ firstRound 3 ++ opening 5 22)
      (begin (Store.empty 0) (fun _ => false) (starting 5 two))).any
        (fun crew => loops 3 crew && endsWith 5 (-1) crew) = true := by
    decide
  rcases Daemon.follow_reaches .devtmpfs (fun _ => 0)
    (fun crew move reach => proper_sound (fun _ => 0) reach)
    Turn.admitted_any computed with ⟨crew, reach, final⟩
  rw [Bool.and_eq_true] at final
  exact ⟨crew, final.1, final.2, one_supervisor (fun _ => 0) reach⟩

/-- Two starts that both make their test before either has written a word
bring up two supervisors. -/
theorem two_supervisors :
    ∃ crew : Processes,
      Crew.Reach (system .devtmpfs (fun _ => 0) fun _ => True)
          Crew.Unrestricted
          (begin (Store.empty 0) (fun _ => false) (starting 5 two)) crew ∧
        ¬ OneSupervisor crew := by
  have computed : (Daemon.follow .devtmpfs (fun _ => 0) anything
      (opening 1 19 ++ opening 5 20 ++ launch 1 ++ launch 5)
      (begin (Store.empty 0) (fun _ => false) (starting 5 two))).any
        (fun crew => loops 3 crew && loops 7 crew) = true := by
    decide
  rcases follow_reaches_any .devtmpfs (fun _ => 0) computed with
    ⟨crew, reach, final⟩
  rw [Bool.and_eq_true] at final
  refine ⟨crew, reach, ?_⟩
  intro one
  have first := of_loops final.1
  have second := of_loops final.2
  have same := one 3 7 first.1 second.1 first.2 second.2
  revert same
  decide

end Atomicles.Supervisors
