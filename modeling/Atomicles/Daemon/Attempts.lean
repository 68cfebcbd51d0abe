import Mathlib.Algebra.BigOperators.Group.Finset.Basic
import Mathlib.Algebra.BigOperators.Group.Finset.Piecewise
import Atomicles.SegmentMutex.Order
import Atomicles.Source.Daemonize

/-!
# The count of attempts

`inc_count` reads the count in one section of the mutex and writes it in
another.  Any number of processes call it any number of times on one segment.
A call that stores between the load and the store of another call is lost.
The runs in which this does not happen add up.
-/

namespace Atomicles.Attempts

open Interaction

/-- A number of calls of `inc_count`. -/
def incAll (this : SharedMemory) : Nat → Prog Unit
  | 0 => return ()
  | calls + 1 => do
      Daemon.incCount (some this)
      incAll this calls

/-- Every member is about to make its calls. -/
def start (store : Store) (handle : Pid → SharedMemory) (members : Finset Pid)
    (calls : Pid → Nat) : Pool signature Pid Store Unit :=
  { state := store
    procs := fun process =>
      if process ∈ members then some (incAll (handle process) (calls process))
      else none
    log := [] }

/-- The word offset of the count. -/
abbrev countWord : Nat :=
  OFFSET_COUNT.toNat

/-- The last access of a process to the count was a load: the process is on
its way to store what it loaded, plus one. -/
def hasLoaded (addr : Addr) (process : Pid) :
    List (Entry signature Pid Store) → Bool
  | [] => false
  | ⟨.call actor ⟨.load target offset, _⟩, _⟩ :: earlier =>
      if actor = process ∧ target = addr ∧ offset = countWord then true
      else hasLoaded addr process earlier
  | ⟨.call actor ⟨.store target offset _, _⟩, _⟩ :: earlier =>
      if actor = process ∧ target = addr ∧ offset = countWord then false
      else hasLoaded addr process earlier
  | _ :: earlier => hasLoaded addr process earlier

/-- The run condition: nobody is killed, and no process stores the count
while another one has loaded it and not stored yet. -/
def Undisturbed (addr : Addr) (pool : Pool signature Pid Store Unit) :
    Label signature Pid → Prop
  | .call process ⟨.store target offset _, _⟩ =>
      target = addr → offset = countWord →
        ∀ other, other ≠ process → pool.procs other ≠ none →
          hasLoaded addr other pool.log = false
  | .kill _ => False
  | _ => True

/-! ## The protocol of a process -/

/-- Where a process is in a call of `inc_count`. -/
inductive Stage where
  | idle
  | reading
  | fetching
  | loaded (word : UInt)
  | writing (word : UInt)
  | wrote
deriving DecidableEq

/-- The mutex is held in these stages. -/
def Stage.Holding : Stage → Prop
  | .reading => True
  | .writing _ => True
  | .wrote => True
  | _ => False

/-- The word that a process is to store, less one. -/
def Stage.word : Stage → Option UInt
  | .loaded word => some word
  | .writing word => some word
  | _ => none

/-- The stage after taking or releasing the mutex. -/
def Stage.turn : Stage → Stage
  | .idle => .reading
  | .reading => .fetching
  | .fetching => .fetching
  | .loaded word => .writing word
  | .writing word => .writing word
  | .wrote => .idle

/-- The stage of the current call, and how often the process has yet to store
the count. -/
structure Phase where
  stage : Stage
  left : Nat

@[simp]
theorem Stage.turn_word (stage : Stage) : stage.turn.word = stage.word := by
  cases stage <;> rfl

/-- The calls allowed in a phase, and what their answers are relied on. -/
def protocol (mutexId : IpcId) (addr : Addr) : Protocol signature Phase where
  allow phase call :=
    match call with
    | .semctlGetval id semnum =>
        phase.stage.Holding ∧ id = mutexId ∧ semnum = 0
    | .semop id semNum semOp undo nowait =>
        id = mutexId ∧ semNum = 0 ∧ undo = true ∧ nowait = false ∧
          ((phase.stage = .idle ∨ ∃ word, phase.stage = .loaded word) ∧
              semOp = -1 ∨
            (phase.stage = .reading ∨ phase.stage = .wrote) ∧ semOp = 1)
    | .store target offset value =>
        target = addr ∧ offset = countWord ∧ 0 < phase.left ∧
          ∃ word, phase.stage = .writing word ∧ value = word + 1
    | .load target offset =>
        phase.stage = .fetching ∧ target = addr ∧ offset = countWord
    | .die cause => cause = .segv
    | _ => False
  answer _ call answer :=
    match call, answer with
    | .semctlGetval .., (value : Except Errno Nat) => value = .ok 0
    | .semop .., (outcome : Except Errno Unit) => outcome = .ok ()
    | _, _ => True
  next phase call answer :=
    match call, answer with
    | .semop .., _ => { phase with stage := phase.stage.turn }
    | .store .., (done : Option Unit) =>
        match done with
        | some () => ⟨.wrote, phase.left - 1⟩
        | none => ⟨.wrote, phase.left⟩
    | .load .., (word : Option UInt) =>
        match word with
        | some word => { phase with stage := .loaded word }
        | none => phase
    | _, _ => phase

/-- A process that has ended has made all its calls. -/
def Finished (phase : Phase) (_ : Unit) : Prop :=
  phase.left = 0

section Conformance

variable {mutexId : IpcId} {addr : Addr} {Value : Type}
variable {post : Phase → Value → Prop} {this : SharedMemory} {left : Nat}

theorem conforms_segv {phase : Phase} :
    Program.Conforms (protocol mutexId addr) phase (die .segv : Prog Value)
      post :=
  ⟨rfl, fun impossible => impossible.elim⟩

theorem conforms_enter (handle : this.Serves mutexId addr)
    {continuation : Unit → Prog Value} {stage : Stage}
    (outside : stage = .idle ∨ ∃ word, stage = .loaded word)
    (rest : Program.Conforms (protocol mutexId addr) ⟨stage.turn, left⟩
      (continuation ()) post) :
    Program.Conforms (protocol mutexId addr) ⟨stage, left⟩
      (SharedMemory.enter this >>= continuation) post := by
  rcases handle with ⟨_, shsem, owned, isMutex, _⟩
  rw [SharedMemory.enter_bind owned]
  constructor
  · exact ⟨isMutex, rfl, rfl, rfl, Or.inl ⟨outside, rfl⟩⟩
  · intro outcome taken
    have succeeded : outcome = .ok () := taken
    subst succeeded
    exact rest

theorem conforms_exit (handle : this.Serves mutexId addr)
    {continuation : Unit → Prog Value} {stage : Stage}
    (finished : stage = .reading ∨ stage = .wrote)
    (rest : Program.Conforms (protocol mutexId addr) ⟨stage.turn, left⟩
      (continuation ()) post) :
    Program.Conforms (protocol mutexId addr) ⟨stage, left⟩
      (SharedMemory.exit this >>= continuation) post := by
  rcases handle with ⟨_, shsem, owned, isMutex, size⟩
  rw [SharedMemory.exit_bind owned]
  constructor
  · have holding : stage.Holding := by
      rcases finished with rfl | rfl <;> trivial
    exact ⟨holding, isMutex, rfl⟩
  · intro value isZero
    have empty : value = .ok 0 := isZero
    subst empty
    have used : ((shsem.size.toNat : Int) -
        Semaphore.readValue (.ok 0) > 0) := by
      simp [size, Semaphore.readValue]
    dsimp only
    rw [if_pos used]
    constructor
    · exact ⟨isMutex, rfl, rfl, rfl, Or.inr ⟨finished, rfl⟩⟩
    · intro outcome given
      have succeeded : outcome = .ok () := given
      subst succeeded
      exact rest

/-- What `inc_count` stores is the successor of what it loaded. -/
theorem ofInt_toInt_succ (word : UInt) :
    BitVec.ofInt 32 (word.toInt + 1) = word + 1 := by
  rw [BitVec.ofInt_add, BitVec.ofInt_toInt]
  rfl

theorem conforms_incCount (handle : this.Serves mutexId addr)
    {continuation : Unit → Prog Value}
    (rest : Program.Conforms (protocol mutexId addr) ⟨.idle, left⟩
      (continuation ()) post) :
    Program.Conforms (protocol mutexId addr) ⟨.idle, left + 1⟩
      (Daemon.incCount (some this) >>= continuation) post := by
  simp only [Daemon.incCount, Daemon.getCount, Daemon.getWord, Daemon.deref,
    SharedMemory.readUint, SharedMemory.readWord, SharedMemory.writeUint,
    SharedMemory.writeWord, bind_assoc, pure_bind, Program.done_bind]
  apply conforms_enter handle (Or.inl rfl)
  apply conforms_exit handle (Or.inl rfl)
  rw [SharedMemory.load_bind]
  refine ⟨⟨rfl, handle.1, rfl⟩, ?_⟩
  intro (word : Option UInt) _
  cases word with
  | none => exact conforms_segv
  | some word =>
      apply conforms_enter handle (Or.inr ⟨word, rfl⟩)
      rw [SharedMemory.store_bind]
      refine ⟨⟨handle.1, rfl, Nat.succ_pos left, word, rfl,
        ofInt_toInt_succ word⟩, ?_⟩
      intro (done : Option Unit) _
      cases done with
      | none => exact conforms_segv
      | some success => exact conforms_exit handle (Or.inr rfl) rest

theorem conforms_incAll (handle : this.Serves mutexId addr) :
    ∀ calls, Program.Conforms (protocol mutexId addr) ⟨.idle, calls⟩
      (incAll this calls) Finished
  | 0 => rfl
  | calls + 1 => conforms_incCount handle (conforms_incAll handle calls)

end Conformance

/-! ## The invariant -/

/-- What is stored and what is yet to be stored make up the total, and what
has been loaded is what is stored. -/
structure Invariant (mutexId : IpcId) (addr : Addr) (members : Finset Pid)
    (total : UInt) (pool : Pool signature Pid Store Unit)
    (phases : Pid → Phase) : Prop where
  guards : ∃ mutex, Guards mutexId mutex pool.state
    fun process => (phases process).stage.Holding
  total : ∀ word, wordAt pool.state addr countWord = some word →
    word + BitVec.ofNat 32 (∑ process ∈ members, (phases process).left) = total
  recent : ∀ process loaded, (phases process).stage.word = some loaded →
    ∀ word, wordAt pool.state addr countWord = some word → word = loaded
  logged : ∀ process, (phases process).stage.word ≠ none →
    hasLoaded addr process pool.log = true
  member : ∀ process, process ∉ members → pool.procs process = none
  rests : ∀ process program, pool.procs process = some program →
    program.Conforms (protocol mutexId addr) (phases process) Finished
  gone : ∀ process, pool.procs process = none →
    (phases process).stage.word = none ∧
      (process ∈ members → (phases process).left = 0)

section Steps

variable {mutexId : IpcId} {addr : Addr} {members : Finset Pid} {total : UInt}
variable {pool : Pool signature Pid Store Unit} {phases : Pid → Phase}
variable {process : Pid} {phase : Phase}

theorem sum_left_update (member : process ∈ members) :
    (∑ other ∈ members, (Function.update phases process phase other).left) +
        (phases process).left =
      (∑ other ∈ members, (phases other).left) + phase.left := by
  rw [← Finset.add_sum_erase _ _ member, ← Finset.add_sum_erase _ _ member]
  have elsewhere : ∑ other ∈ members.erase process,
      (Function.update phases process phase other).left =
        ∑ other ∈ members.erase process, (phases other).left := by
    apply Finset.sum_congr rfl
    intro other present
    rw [Function.update_of_ne (Finset.ne_of_mem_erase present)]
  rw [elsewhere, Function.update_self]
  omega

/-- A step of a live process, with what becomes of the count. -/
theorem Invariant.step
    (invariant : Invariant mutexId addr members total pool phases)
    {event : Event signature} {state : Store} {program : Prog Unit}
    (running : pool.procs process ≠ none)
    (guards : ∃ mutex, Guards mutexId mutex state
      fun other => (Function.update phases process phase other).stage.Holding)
    (made : ∀ word, wordAt state addr countWord = some word →
      word + BitVec.ofNat 32 (∑ other ∈ members,
        (Function.update phases process phase other).left) = total)
    (recent : ∀ other loaded,
      (Function.update phases process phase other).stage.word = some loaded →
        ∀ word, wordAt state addr countWord = some word → word = loaded)
    (own : phase.stage.word ≠ none →
      hasLoaded addr process (⟨.call process event, state⟩ :: pool.log) = true)
    (others : ∀ other, other ≠ process →
      hasLoaded addr other (⟨.call process event, state⟩ :: pool.log) =
        hasLoaded addr other pool.log)
    (rests : program.Conforms (protocol mutexId addr) phase Finished) :
    Invariant mutexId addr members total
      (pool.record (.call process event) state
        (Function.update pool.procs process (some program)))
      (Function.update phases process phase) where
  guards := guards
  total := made
  recent := recent
  logged := by
    intro other carries
    by_cases same : other = process
    · subst same
      rw [Function.update_self] at carries
      exact own carries
    · rw [Function.update_of_ne same] at carries
      rw [Pool.record_log, others other same]
      exact invariant.logged other carries
  member := by
    intro other outsider
    by_cases same : other = process
    · subst same
      exact absurd (invariant.member other outsider) running
    · simpa [Function.update_of_ne same] using invariant.member other outsider
  rests := by
    intro other rest runningOther
    by_cases same : other = process
    · subst same
      simp only [Pool.record_procs, Function.update_self,
        Option.some.injEq] at runningOther ⊢
      subst runningOther
      exact rests
    · simp only [Pool.record_procs, Function.update_of_ne same]
        at runningOther ⊢
      exact invariant.rests other rest runningOther
  gone := by
    intro other absent
    by_cases same : other = process
    · subst same
      simp at absent
    · simp only [Pool.record_procs, Function.update_of_ne same] at absent ⊢
      exact invariant.gone other absent

theorem Invariant.isMember
    (invariant : Invariant mutexId addr members total pool phases)
    (running : pool.procs process ≠ none) : process ∈ members := by
  by_cases present : process ∈ members
  · exact present
  · exact absurd (invariant.member process present) running

/-- A step that stores nothing. -/
theorem Invariant.call
    (invariant : Invariant mutexId addr members total pool phases)
    {event : Event signature} {state : Store} {program : Prog Unit}
    (running : pool.procs process ≠ none)
    (guards : ∃ mutex, Guards mutexId mutex state
      fun other => (Function.update phases process phase other).stage.Holding)
    (words : ∀ word, wordAt state addr countWord = some word →
      wordAt pool.state addr countWord = some word)
    (left : phase.left = (phases process).left)
    (recent : ∀ loaded, phase.stage.word = some loaded →
      ∀ word, wordAt pool.state addr countWord = some word → word = loaded)
    (own : phase.stage.word ≠ none →
      hasLoaded addr process (⟨.call process event, state⟩ :: pool.log) = true)
    (others : ∀ other, other ≠ process →
      hasLoaded addr other (⟨.call process event, state⟩ :: pool.log) =
        hasLoaded addr other pool.log)
    (rests : program.Conforms (protocol mutexId addr) phase Finished) :
    Invariant mutexId addr members total
      (pool.record (.call process event) state
        (Function.update pool.procs process (some program)))
      (Function.update phases process phase) := by
  apply invariant.step running guards _ _ own others rests
  · intro word found
    have sum := @sum_left_update members phases process phase
      (invariant.isMember running)
    rw [left] at sum
    rw [Nat.add_right_cancel sum]
    exact invariant.total word (words word found)
  · intro other loaded carries word found
    by_cases same : other = process
    · subst same
      rw [Function.update_self] at carries
      exact recent loaded carries word (words word found)
    · rw [Function.update_of_ne same] at carries
      exact invariant.recent other loaded carries word (words word found)

/-- One more is stored, and one less is to be stored. -/
theorem succ_add_ofNat {word : UInt} {sum sum' left : Nat}
    (balance : sum' + left = sum + (left - 1)) (positive : 0 < left) :
    word + 1 + BitVec.ofNat 32 sum' = word + BitVec.ofNat 32 sum := by
  have succ : sum = sum' + 1 := by omega
  rw [succ, BitVec.ofNat_add, BitVec.add_assoc,
    BitVec.add_comm 1 (BitVec.ofNat 32 sum')]
  rfl

/-- Only the process in a stage of the mutex moves on. -/
theorem holding_update (other : Pid) (different : other ≠ process) :
    (Function.update phases process phase other).stage.Holding ↔
      (phases other).stage.Holding := by
  rw [Function.update_of_ne different]

section Calls

variable (invariant : Invariant mutexId addr members total pool phases)
include invariant

theorem Invariant.getval {id : IpcId} {semnum : Nat}
    {next : Except Errno Nat → Prog Unit} {answer : Except Errno Nat}
    {state : Store}
    (running : pool.procs process =
      some (.issue (.semctlGetval id semnum) next))
    (allowed : (protocol mutexId addr).allow (phases process)
      (.semctlGetval id semnum))
    (exec : granting.exec process (.semctlGetval id semnum) pool.state answer
      state) :
    Pool.Keeps (protocol mutexId addr)
      (Invariant mutexId addr members total) pool phases process
      (.semctlGetval id semnum) next answer state := by
  rcases granting_exec_iff.mp exec with ⟨choice, _, _, granted⟩
  rcases invariant.guards with ⟨mutex, guards⟩
  have later : Guards mutexId mutex (pool.state.advance choice.tick)
      fun other => (phases other).stage.Holding :=
    guards.stay rfl fun _ => Iff.rfl
  rcases allowed with ⟨holding, rfl, rfl⟩
  simp only [grant, later.getval holding, Option.some.injEq,
    Prod.mk.injEq] at granted
  rcases granted with ⟨rfl, rfl⟩
  have stays : (protocol id addr).next (phases process)
      (.semctlGetval id 0) (.ok 0) = phases process := rfl
  refine ⟨rfl, ?_⟩
  apply invariant.call (by simp [running])
  · refine ⟨mutex, later.stay rfl ?_⟩
    intro other
    rw [stays, Function.update_eq_self]
  · intro word found
    exact found
  · rfl
  · exact invariant.recent process
  · exact invariant.logged process
  · intro other _
    rfl
  · exact (invariant.rests process _ running).2 _ rfl

/-- Taking and releasing the mutex moves a call of `inc_count` on and leaves
the count alone. -/
theorem Invariant.semop {id : IpcId} {semNum : Nat} {semOp : Int}
    {undo nowait : Bool} {next : Except Errno Unit → Prog Unit}
    {answer : Except Errno Unit} {state : Store}
    (running : pool.procs process =
      some (.issue (.semop id semNum semOp undo nowait) next))
    (allowed : (protocol mutexId addr).allow (phases process)
      (.semop id semNum semOp undo nowait))
    (exec : granting.exec process (.semop id semNum semOp undo nowait)
      pool.state answer state) :
    Pool.Keeps (protocol mutexId addr)
      (Invariant mutexId addr members total) pool phases process
      (.semop id semNum semOp undo nowait) next answer state := by
  rcases granting_exec_iff.mp exec with ⟨choice, _, _, granted⟩
  rcases invariant.guards with ⟨mutex, guards⟩
  have later : Guards mutexId mutex (pool.state.advance choice.tick)
      fun other => (phases other).stage.Holding :=
    guards.stay rfl fun _ => Iff.rfl
  rcases allowed with ⟨rfl, rfl, rfl, rfl, turn⟩
  have shms : SameShms (pool.state.advance choice.tick) state :=
    Store.semop_shms granted
  have turned : answer = .ok () ∧ ∃ mutex', Guards id mutex' state
      fun other =>
        (Function.update phases process
          { phases process with stage := (phases process).stage.turn }
          other).stage.Holding := by
    rcases turn with ⟨outside, rfl⟩ | ⟨finished, rfl⟩
    · have enters : (phases process).stage.turn.Holding := by
        rcases outside with stage | ⟨word, stage⟩ <;>
          rw [stage] <;> trivial
      have own : (Function.update phases process
          { phases process with stage := (phases process).stage.turn }
          process).stage.Holding := by
        rw [Function.update_self]
        exact enters
      rcases later.take granted own holding_update with
        ⟨succeeded, _, taken⟩
      exact ⟨succeeded, _, taken⟩
    · have inside : (phases process).stage.Holding := by
        rcases finished with stage | stage <;> rw [stage] <;> trivial
      have exits : ¬ (phases process).stage.turn.Holding := by
        rcases finished with stage | stage <;> rw [stage] <;>
          exact not_false
      have own : ¬ (Function.update phases process
          { phases process with stage := (phases process).stage.turn }
          process).stage.Holding := by
        rw [Function.update_self]
        exact exits
      rcases later.give inside granted own holding_update with
        ⟨succeeded, given⟩
      exact ⟨succeeded, _, given⟩
  rcases turned with ⟨rfl, guards'⟩
  refine ⟨rfl, ?_⟩
  apply invariant.call (by simp [running]) guards'
  · intro word found
    rw [Store.wordAt_of_same shms] at found
    exact found
  · rfl
  · intro loaded carries
    rw [Stage.turn_word] at carries
    exact invariant.recent process loaded carries
  · intro carries
    rw [Stage.turn_word] at carries
    exact invariant.logged process carries
  · intro other _
    rfl
  · exact (invariant.rests process _ running).2 _ rfl

/-- Nobody else has loaded the count when an undisturbed store is made. -/
theorem Invariant.alone {value : UInt} {answer : Option Unit}
    (fine : Undisturbed addr pool
      (.call process ⟨.store addr countWord value, answer⟩))
    {other : Pid} (different : other ≠ process) :
    (phases other).stage.word = none := by
  by_cases absent : pool.procs other = none
  · exact (invariant.gone other absent).1
  · have idle := fine rfl rfl other different absent
    cases carried : (phases other).stage.word with
    | none => rfl
    | some word =>
        have carries := invariant.logged other (by simp [carried])
        rw [idle] at carries
        cases carries

/-- The store writes the successor of the word that is still there, and one
store less is to be made. -/
theorem Invariant.store {target : Addr} {offset : Nat} {value : UInt}
    {next : Option Unit → Prog Unit} {answer : Option Unit} {state : Store}
    (running : pool.procs process =
      some (.issue (.store target offset value) next))
    (allowed : (protocol mutexId addr).allow (phases process)
      (.store target offset value))
    (exec : granting.exec process (.store target offset value) pool.state
      answer state)
    (fine : Undisturbed addr pool
      (.call process ⟨.store target offset value, answer⟩)) :
    Pool.Keeps (protocol mutexId addr)
      (Invariant mutexId addr members total) pool phases process
      (.store target offset value) next answer state := by
  have isLive : pool.procs process ≠ none := by simp [running]
  have conforms := invariant.rests process _ running
  have same : SameSems pool.state state := exec_sameSems (by rfl) exec
  rcases granting_exec_iff.mp exec with ⟨choice, _, _, granted⟩
  rcases invariant.guards with ⟨mutex, guards⟩
  rcases allowed with ⟨rfl, rfl, positive, loaded, stage, rfl⟩
  have holding : (phases process).stage.Holding := by
    rw [stage]
    trivial
  have elsewhere : ∀ other, other ≠ process →
      hasLoaded target other
        (⟨.call process ⟨.store target countWord (loaded + 1), answer⟩,
          state⟩ :: pool.log) = hasLoaded target other pool.log := by
    intro other different
    simp [hasLoaded, Ne.symm different]
  simp only [grant, Option.some.injEq] at granted
  refine ⟨trivial, ?_⟩
  have guards' : ∀ left, ∃ mutex, Guards mutexId mutex state
      fun other =>
        (Function.update phases process ⟨.wrote, left⟩
          other).stage.Holding := by
    intro left
    refine ⟨mutex, guards.stay (congrFun same.1 mutexId) ?_⟩
    intro other
    by_cases isSame : other = process
    · subst isSame
      rw [Function.update_self]
      exact iff_of_true trivial holding
    · rw [Function.update_of_ne isSame]
  cases answer with
  | none =>
      have unchanged := Store.storeWord_failed granted
      subst unchanged
      apply invariant.call isLive (guards' _)
      · intro word found
        exact found
      · rfl
      · intro word carries
        cases carries
      · intro carries
        exact absurd rfl carries
      · exact elsewhere
      · exact conforms.2 (none : Option Unit) trivial
  | some success =>
      rcases Store.storeWord_mapped granted countWord with ⟨former, before⟩
      have isLoaded : former = loaded :=
        invariant.recent process loaded (by simp [stage, Stage.word])
          former before
      subst isLoaded
      apply invariant.step isLive (guards' _)
      · intro word found
        have change := Store.storeWord_word granted found
        rw [if_pos rfl] at change
        subst change
        have balance := @sum_left_update members phases process
          ⟨.wrote, (phases process).left - 1⟩
          (invariant.isMember isLive)
        rw [← invariant.total former before]
        exact succ_add_ofNat balance positive
      · intro other word carries
        by_cases isSame : other = process
        · subst isSame
          rw [Function.update_self] at carries
          cases carries
        · rw [Function.update_of_ne isSame,
            invariant.alone fine isSame] at carries
          cases carries
      · intro carries
        exact absurd rfl carries
      · exact elsewhere
      · exact conforms.2 (some success : Option Unit) trivial

/-- What is loaded is what is stored. -/
theorem Invariant.load {target : Addr} {offset : Nat}
    {next : Option UInt → Prog Unit} {answer : Option UInt} {state : Store}
    (running : pool.procs process = some (.issue (.load target offset) next))
    (allowed : (protocol mutexId addr).allow (phases process)
      (.load target offset))
    (exec : granting.exec process (.load target offset) pool.state answer
      state) :
    Pool.Keeps (protocol mutexId addr)
      (Invariant mutexId addr members total) pool phases process
      (.load target offset) next answer state := by
  have isLive : pool.procs process ≠ none := by simp [running]
  have conforms := invariant.rests process _ running
  rcases granting_exec_iff.mp exec with ⟨choice, _, _, granted⟩
  rcases invariant.guards with ⟨mutex, guards⟩
  rcases allowed with ⟨stage, rfl, rfl⟩
  have idle : (phases process).stage.word = none := by
    rw [stage]
    rfl
  have outside : ¬ (phases process).stage.Holding := by
    rw [stage]
    exact not_false
  have elsewhere : ∀ other, other ≠ process →
      hasLoaded target other
        (⟨.call process ⟨.load target countWord, answer⟩, state⟩ ::
          pool.log) = hasLoaded target other pool.log := by
    intro other different
    simp [hasLoaded, Ne.symm different]
  simp only [grant, Option.some.injEq, Prod.mk.injEq] at granted
  rcases granted with ⟨loaded, rfl⟩
  refine ⟨trivial, ?_⟩
  have guards' : ∀ phase : Phase, ¬ phase.stage.Holding →
      ∃ mutex, Guards mutexId mutex (pool.state.advance choice.tick)
        fun other =>
          (Function.update phases process phase other).stage.Holding := by
    intro phase away
    refine ⟨mutex, guards.stay rfl ?_⟩
    intro other
    by_cases isSame : other = process
    · subst isSame
      rw [Function.update_self]
      exact iff_of_false away outside
    · rw [Function.update_of_ne isSame]
  cases answer with
  | none =>
      apply invariant.call isLive (guards' _ outside)
      · intro word found
        exact found
      · rfl
      · intro word carries
        exact invariant.recent process word carries
      · intro carries
        exact absurd idle carries
      · exact elsewhere
      · exact conforms.2 (none : Option UInt) trivial
  | some word =>
      have present : wordAt pool.state target countWord = some word :=
        Store.load_word loaded
      apply invariant.call isLive
        (guards' ⟨.loaded word, (phases process).left⟩ not_false)
      · intro word found
        exact found
      · rfl
      · intro carried carries other found
        cases carries
        rw [present] at found
        exact (Option.some.inj found).symm
      · intro _
        simp [hasLoaded]
      · exact elsewhere
      · exact conforms.2 (some word : Option UInt) trivial

/-- A process that leaves has nothing more to store. -/
theorem Invariant.leave {value : Unit}
    (ended : pool.procs process = some (.done value)) :
    Invariant mutexId addr members total
      (pool.record (.leave process) (granting.leave process pool.state)
        (Function.update pool.procs process none))
      (Function.update phases process ⟨.idle, 0⟩) := by
  have finished : (phases process).left = 0 :=
    invariant.rests process _ ended
  rcases invariant.guards with ⟨mutex, guards⟩
  constructor
  case guards =>
    refine ⟨_, guards.leave ?_ holding_update⟩
    rw [Function.update_self]
    exact not_false
  case total =>
    intro word found
    have member : process ∈ members :=
      invariant.isMember (by simp [ended])
    have sum := @sum_left_update members phases process ⟨.idle, 0⟩ member
    rw [finished] at sum
    rw [Nat.add_right_cancel sum]
    exact invariant.total word (Store.leave_word found)
  case recent =>
    intro other loaded carries word found
    by_cases same : other = process
    · subst same
      rw [Function.update_self] at carries
      cases carries
    · rw [Function.update_of_ne same] at carries
      exact invariant.recent other loaded carries word
        (Store.leave_word found)
  case logged =>
    intro other carries
    by_cases same : other = process
    · subst same
      rw [Function.update_self] at carries
      exact absurd rfl carries
    · rw [Function.update_of_ne same] at carries
      exact invariant.logged other carries
  case member =>
    intro other outsider
    by_cases same : other = process
    · simp [same]
    · simpa [Function.update_of_ne same] using
        invariant.member other outsider
  case rests =>
    intro other program running
    by_cases same : other = process
    · simp [same] at running
    · simp only [Pool.record_procs, Function.update_of_ne same] at running ⊢
      exact invariant.rests other program running
  case gone =>
    intro other absent
    by_cases same : other = process
    · simp [same, Stage.word]
    · simp only [Pool.record_procs, Function.update_of_ne same] at absent ⊢
      exact invariant.gone other absent

end Calls

/-- The steps of the pool keep the invariant. -/
theorem preserves :
    Pool.Preserves granting
      (fun pool label => Undisturbed addr pool label ∧ ∀ process,
        label = .leave process → ∃ value,
          pool.procs process = some (.done value))
      (protocol mutexId addr) (Invariant mutexId addr members total) where
  call := by
    intro pool phases process call next answer state invariant running allowed
      exec fine
    cases call with
    | semctlGetval id semnum => exact invariant.getval running allowed exec
    | semop id semNum semOp undo nowait =>
        exact invariant.semop running allowed exec
    | store target offset value =>
        exact invariant.store running allowed exec fine.1
    | load target offset => exact invariant.load running allowed exec
    | die cause =>
        rcases granting_exec_iff.mp exec with ⟨_, _, _, granted⟩
        cases granted
    | _ => exact allowed.elim
  fork := by
    intro pool phases parent child call next here there _ _ _ allowed forks
    cases call with
    | fork => exact allowed.elim
    | _ => cases forks
  leave := by
    intro pool phases process label invariant ends fine
    rcases ends with rfl | rfl
    · rcases fine.2 process rfl with ⟨value, ended⟩
      exact ⟨_, invariant.leave ended⟩
    · exact fine.1.elim

end Steps

/-! ## The result -/

theorem start_simulated {mutexId : IpcId} {addr : Addr} {store : Store}
    {handle : Pid → SharedMemory} {members : Finset Pid} {calls : Pid → Nat}
    {initial : UInt} (free : Represents mutexId .free store)
    (handles : ∀ process ∈ members, (handle process).Serves mutexId addr)
    (initially : wordAt store addr countWord = some initial) :
    Pool.Simulated (protocol mutexId addr)
      (Invariant mutexId addr members
        (initial + BitVec.ofNat 32 (∑ process ∈ members, calls process)))
      (start store handle members calls)
      fun process => ⟨.idle, calls process⟩ := by
  have rests : ∀ process program,
      (start store handle members calls).procs process = some program →
        program.Conforms (protocol mutexId addr) ⟨.idle, calls process⟩
          Finished := by
    intro process program running
    simp only [start] at running
    split at running
    · rename_i member
      cases running
      exact conforms_incAll (handles process member) (calls process)
    · cases running
  refine ⟨?_, fun process program running =>
    (rests process program running).mono fun _ _ _ => trivial⟩
  constructor
  case guards =>
    refine ⟨.free, ?_⟩
    constructor
    · exact free
    · simp
    · intro process
      exact iff_of_false not_false (by simp)
  case total =>
    intro word found
    have same : wordAt store addr countWord = some word := found
    rw [initially] at same
    rw [← Option.some.inj same]
  case recent =>
    intro process loaded carries
    cases carries
  case logged =>
    intro process carries
    exact absurd rfl carries
  case member =>
    intro process outsider
    simp [start, outsider]
  case rests => exact rests
  case gone =>
    intro process absent
    refine ⟨rfl, ?_⟩
    intro present
    simp [start, present] at absent

/--
In every run in which nobody is killed and no call stores the count between
the load and the store of another call: when all calls have returned, the
count is its initial value and the number of calls, modulo the word size.
-/
theorem count_of_undisturbed (mutexId : IpcId) (addr : Addr) (store : Store)
    (handle : Pid → SharedMemory) (members : Finset Pid) (calls : Pid → Nat)
    (initial : UInt) (pool : Pool signature Pid Store Unit)
    (free : Represents mutexId .free store)
    (handles : ∀ process ∈ members, (handle process).Serves mutexId addr)
    (initially : wordAt store addr countWord = some initial)
    (reach : Pool.Reach granting (Undisturbed addr)
      (start store handle members calls) pool)
    (returned : ∀ process ∈ members,
      pool.procs process = none ∨ pool.procs process = some (.done ())) :
    ∀ word, wordAt pool.state addr countWord = some word →
      word = initial +
        BitVec.ofNat 32 (∑ process ∈ members, calls process) := by
  intro word found
  rcases reach.ended.simulated preserves
    (start_simulated free handles initially) with ⟨phases, invariant, _⟩
  have nothing : ∑ process ∈ members, (phases process).left = 0 := by
    apply Finset.sum_eq_zero
    intro process member
    rcases returned process member with absent | ended
    · exact (invariant.gone process absent).2 member
    · exact invariant.rests process _ ended
  have sum := invariant.total word found
  rw [nothing] at sum
  simpa using sum

open SegmentOrder (mutexId segmentId shared sharedHandle shared_free
  sharedHandle_serves)

/-- Two processes with one call each. -/
def pair : Pool signature Pid Store Unit :=
  start shared (fun _ => sharedHandle) {1, 2} fun _ => 1

theorem pair_confined (process : Pid)
    (outsider : process ∉ ([1, 2] : List Pid)) : pair.procs process = none := by
  simpa [pair, start] using outsider

/-- Both calls have returned. -/
def bothReturned (pool : Pool signature Pid Store Unit) : Bool :=
  [1, 2].all fun (process : Pid) =>
    match pool.procs process with
    | some (.done ()) => true
    | _ => false

theorem returned_of_both {pool : Pool signature Pid Store Unit}
    (both : bothReturned pool = true) :
    ∀ process ∈ ({1, 2} : Finset Pid),
      pool.procs process = none ∨ pool.procs process = some (.done ()) := by
  intro process member
  have listed : process ∈ ([1, 2] : List Pid) := by
    simpa using member
  have returned := List.all_eq_true.mp both process listed
  split at returned
  · rename_i ended
    exact Or.inr ended
  · cases returned

/-- The check that nobody stores while another one has loaded. -/
def undisturbed (pool : Pool signature Pid Store Unit) :
    Label signature Pid → Bool
  | .call process ⟨.store .., _⟩ =>
      [1, 2].all fun (other : Pid) =>
        other = process || (pool.procs other).isNone ||
          !hasLoaded (.mapped segmentId) other pool.log
  | .kill _ => false
  | _ => true

theorem undisturbed_sound (pool : Pool signature Pid Store Unit)
    (label : Label signature Pid)
    (confined : ∀ process, process ∉ ([1, 2] : List Pid) →
      pool.procs process = none)
    (passed : undisturbed pool label = true) :
    Undisturbed (.mapped segmentId) pool label := by
  unfold Undisturbed
  split
  · rename_i process target offset value done
    intro _ _ other different alive
    have listed : other ∈ ([1, 2] : List Pid) := by
      by_cases member : other ∈ ([1, 2] : List Pid)
      · exact member
      · exact absurd (confined other member) alive
    have idle := List.all_eq_true.mp passed other listed
    simpa [different, alive] using idle
  · cases passed
  · trivial

/-- One call after the other: the count goes from 0 to 2. -/
theorem count_of_undisturbed_in_turn :
    ∃ pool : Pool signature Pid Store Unit,
      wordAt pool.state (.mapped segmentId) countWord = some 2 ∧
        ∀ word, wordAt pool.state (.mapped segmentId) countWord = some word →
          word = 0 + BitVec.ofNat 32 (∑ _process ∈ ({1, 2} : Finset Pid), 1) := by
  have computed : (follow undisturbed (turns [(1, 8), (2, 8)]) pair).any
      (fun pool => bothReturned pool &&
        wordAt pool.state (.mapped segmentId) countWord == some 2) = true := by
    decide
  rcases follow_reaches undisturbed_sound pair_confined turns_grants computed
    with ⟨pool, reach, final⟩
  rw [Bool.and_eq_true, beq_iff_eq] at final
  exact ⟨pool, final.2,
    count_of_undisturbed mutexId (.mapped segmentId) shared
      (fun _ => sharedHandle) {1, 2} (fun _ => 1) 0 pool shared_free
      (fun _ _ => sharedHandle_serves) rfl reach (returned_of_both final.1)⟩

/-- The second call comes between the load and the store of the first one:
two calls have returned, and the count went from 0 to 1. -/
theorem count_loses_update :
    (∃ pool, Pool.Reach granting Pool.Unkilled pair pool ∧
      bothReturned pool = true ∧
        wordAt pool.state (.mapped segmentId) countWord = some 1) ∧
    ¬ ∀ pool, Pool.Reach granting Pool.Unkilled pair pool →
      (∀ process ∈ ({1, 2} : Finset Pid), pool.procs process = none ∨
        pool.procs process = some (.done ())) →
      ∀ word, wordAt pool.state (.mapped segmentId) countWord = some word →
        word = 0 + BitVec.ofNat 32 (∑ _process ∈ ({1, 2} : Finset Pid), 1) := by
  have computed : (follow unkilled (turns [(1, 4), (2, 8), (1, 4)]) pair).any
      (fun pool => bothReturned pool &&
        wordAt pool.state (.mapped segmentId) countWord == some 1) = true := by
    decide
  rcases follow_reaches unkilled_sound pair_confined turns_grants computed
    with ⟨pool, reach, final⟩
  rw [Bool.and_eq_true, beq_iff_eq] at final
  refine ⟨⟨pool, reach, final⟩, ?_⟩
  intro claimed
  have two := claimed pool reach (returned_of_both final.1) 1 final.2
  revert two
  decide

end Atomicles.Attempts
