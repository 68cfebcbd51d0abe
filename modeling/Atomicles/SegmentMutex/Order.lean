import Atomicles.Interaction.History
import Atomicles.Kernel.Memory
import Atomicles.Kernel.Mutex
import Atomicles.Source.Equations

/-!
# Lock order and memory order

Any number of processes write and read words of one segment through
`SharedMemory$write_uint`, `SharedMemory$read_uint` and the two functions for
`uint32_t`.  The writing functions store while they hold the mutex.  The
reading functions take and release the mutex first, and load the word
afterwards, so a store of a later section can come in between.

The runs in which no such store changes the word are serial: every value read
is the one written last before the reader's own section.
-/

namespace Atomicles.SegmentOrder

open Interaction

/-- One access to a word. -/
inductive WordAccess where
  | writeUint (offset : UShort) (n : UInt)
  | readUint (offset : UShort)
  | writeUint32 (offset : UShort) (n : UInt)
  | readUint32 (offset : UShort)

/-- The call of an access function; the log keeps what is read. -/
def WordAccess.run (this : SharedMemory) : WordAccess → Prog Unit
  | .writeUint offset n => SharedMemory.writeUint this offset n
  | .readUint offset => do
      let _ ← SharedMemory.readUint this offset
      return ()
  | .writeUint32 offset n => SharedMemory.writeUint32 this offset n
  | .readUint32 offset => do
      let _ ← SharedMemory.readUint32 this offset
      return ()

/-- A sequence of accesses. -/
def accessAll (this : SharedMemory) : List WordAccess → Prog Unit
  | [] => return ()
  | access :: rest => do
      access.run this
      accessAll this rest

/-- Every process that takes part is about to make its accesses. -/
def start (store : Store) (handle : Pid → SharedMemory)
    (accesses : Pid → Option (List WordAccess)) :
    Pool signature Pid Store Unit :=
  { state := store
    procs := fun process => (accesses process).map (accessAll (handle process))
    log := [] }

/-! ## Sections and accesses of a run -/

/-- What one call adds to the history of the segment. -/
def advance (mutexId : IpcId) (addr : Addr) (process : Pid) :
    Event signature → History Pid Nat UInt → History Pid Nat UInt
  | ⟨.semop target _ semOp _ _, outcome⟩, history =>
      match (outcome : Except Errno Unit) with
      | .ok () =>
          if target = mutexId ∧ semOp < 0 then history.enter process
          else history
      | .error _ => history
  | ⟨.store target offset value, done⟩, history =>
      match (done : Option Unit) with
      | some () =>
          if target = addr then history.write process offset value else history
      | none => history
  | ⟨.load target offset, word⟩, history =>
      match (word : Option UInt) with
      | some value =>
          if target = addr then history.read process offset value else history
      | none => history
  | _, history => history

/-- The history of the segment that a log tells. -/
def historyOf (mutexId : IpcId) (addr : Addr) :
    List (Entry signature Pid Store) → History Pid Nat UInt
  | [] => .empty
  | ⟨.call process event, _⟩ :: earlier =>
      advance mutexId addr process event (historyOf mutexId addr earlier)
  | _ :: earlier => historyOf mutexId addr earlier

/-- The initial value of each word. -/
def initialWord (store : Store) (addr : Addr) (offset : Nat) : UInt :=
  (wordAt store addr offset).getD 0

/--
The run condition: no process stores another value into a word while some
process is about to load this word, having already released the mutex.
-/
def Undisturbed (addr : Addr) (pool : Pool signature Pid Store Unit) :
    Label signature Pid → Prop
  | .call _ ⟨.store target offset value, _⟩ =>
      target = addr → ∀ reader next,
        pool.procs reader = some (.issue (.load addr offset) next) →
          ∀ word, wordAt pool.state addr offset = some word → word = value
  | _ => True

/-! ## The protocol of a process -/

/-- Where a process is in an access. -/
inductive Phase where
  | outside
  | inside
  | wrote
  | fetching
deriving DecidableEq

/-- The mutex is held in these phases. -/
def Phase.Holding (phase : Phase) : Prop :=
  phase = .inside ∨ phase = .wrote

/-- The calls allowed in a phase, and what their answers are relied on. -/
def protocol (mutexId : IpcId) (addr : Addr) : Protocol signature Phase where
  allow phase call :=
    match call with
    | .semctlGetval id semnum =>
        phase.Holding ∧ id = mutexId ∧ semnum = 0
    | .semop id semNum semOp undo nowait =>
        id = mutexId ∧ semNum = 0 ∧ undo = true ∧ nowait = false ∧
          (phase = .outside ∧ semOp = -1 ∨ phase.Holding ∧ semOp = 1)
    | .store target _ _ => phase = .inside ∧ target = addr
    | .load target _ => phase = .fetching ∧ target = addr
    | .die cause => cause = .segv
    | _ => False
  answer _ call answer :=
    match call, answer with
    | .semctlGetval .., (value : Except Errno Nat) => value = .ok 0
    | .semop .., (outcome : Except Errno Unit) => outcome = .ok ()
    | _, _ => True
  next phase call _ :=
    match call with
    | .semop _ _ semOp _ _ =>
        if semOp < 0 then .inside
        else if phase = .inside then .fetching else .outside
    | .store .. => .wrote
    | .load .. => .outside
    | _ => phase

section Conformance

variable {mutexId : IpcId} {addr : Addr} {Value : Type}
variable {post : Phase → Value → Prop} {this : SharedMemory}

theorem conforms_segv {phase : Phase} :
    Program.Conforms (protocol mutexId addr) phase (die .segv : Prog Value)
      post :=
  ⟨rfl, fun impossible => impossible.elim⟩

theorem conforms_enter (handle : this.Serves mutexId addr)
    {continuation : Unit → Prog Value}
    (rest : Program.Conforms (protocol mutexId addr) .inside
      (continuation ()) post) :
    Program.Conforms (protocol mutexId addr) .outside
      (SharedMemory.enter this >>= continuation) post := by
  rcases handle with ⟨_, shsem, owned, isMutex, _⟩
  rw [SharedMemory.enter_bind owned]
  constructor
  · exact ⟨isMutex, rfl, rfl, rfl, Or.inl ⟨rfl, rfl⟩⟩
  · intro outcome taken
    have succeeded : outcome = .ok () := taken
    subst succeeded
    exact rest

theorem conforms_exit (handle : this.Serves mutexId addr)
    {continuation : Unit → Prog Value} {phase : Phase}
    (holding : phase.Holding)
    (rest : Program.Conforms (protocol mutexId addr)
      (if phase = .inside then .fetching else .outside)
      (continuation ()) post) :
    Program.Conforms (protocol mutexId addr) phase
      (SharedMemory.exit this >>= continuation) post := by
  rcases handle with ⟨_, shsem, owned, isMutex, size⟩
  rw [SharedMemory.exit_bind owned]
  constructor
  · exact ⟨holding, isMutex, rfl⟩
  · intro value isZero
    have empty : value = .ok 0 := isZero
    subst empty
    have used : ((shsem.size.toNat : Int) -
        Semaphore.readValue (.ok 0) > 0) := by
      simp [size, Semaphore.readValue]
    dsimp only
    rw [if_pos used]
    constructor
    · exact ⟨isMutex, rfl, rfl, rfl, Or.inr ⟨holding, rfl⟩⟩
    · intro outcome given
      have succeeded : outcome = .ok () := given
      subst succeeded
      exact rest

/-- Writing stores inside the section. -/
theorem conforms_writeWord (handle : this.Serves mutexId addr)
    {continuation : Unit → Prog Value} {offset : UShort} {n : UInt}
    (rest : Program.Conforms (protocol mutexId addr) .outside
      (continuation ()) post) :
    Program.Conforms (protocol mutexId addr) .outside
      (SharedMemory.writeWord this offset n >>= continuation) post := by
  simp only [SharedMemory.writeWord, bind_assoc]
  apply conforms_enter handle
  rw [SharedMemory.store_bind]
  refine ⟨⟨rfl, handle.1⟩, ?_⟩
  intro (done : Option Unit) _
  cases done with
  | none => exact conforms_segv
  | some success => exact conforms_exit handle (Or.inr rfl) rest

/-- Reading loads after the section. -/
theorem conforms_readWord (handle : this.Serves mutexId addr)
    {continuation : UInt → Prog Value} {offset : UShort}
    (rest : ∀ value, Program.Conforms (protocol mutexId addr) .outside
      (continuation value) post) :
    Program.Conforms (protocol mutexId addr) .outside
      (SharedMemory.readWord this offset >>= continuation) post := by
  simp only [SharedMemory.readWord, bind_assoc]
  apply conforms_enter handle
  apply conforms_exit handle (Or.inl rfl)
  rw [SharedMemory.load_bind]
  refine ⟨⟨rfl, handle.1⟩, ?_⟩
  intro (word : Option UInt) _
  cases word with
  | none => exact conforms_segv
  | some value => exact rest value

theorem conforms_accessAll (handle : this.Serves mutexId addr) :
    ∀ accesses, Program.Conforms (protocol mutexId addr) .outside
      (accessAll this accesses) fun _ _ => True
  | [] => trivial
  | .writeUint _ _ :: rest | .writeUint32 _ _ :: rest =>
      conforms_writeWord handle (conforms_accessAll handle rest)
  | .readUint _ :: rest | .readUint32 _ :: rest => by
      simp only [accessAll, WordAccess.run, SharedMemory.readUint,
        SharedMemory.readUint32, bind_assoc, pure_bind]
      exact conforms_readWord handle fun _ => conforms_accessAll handle rest

end Conformance

/-! ## The invariant -/

/-- The mutex is held by the one process that is in a section. -/
structure Guarded (mutexId : IpcId) (mutex : MutexState) (store : Store)
    (phases : Pid → Phase) : Prop where
  represents : Represents mutexId mutex store
  present : mutex ≠ .absent
  holder : ∀ process, (phases process).Holding ↔ mutex = .held process

/-- The words of the segment are what the last sections wrote, also for the
processes that have released the mutex and are about to load. -/
structure Tracks (addr : Addr) (initial : Nat → UInt)
    (history : History Pid Nat UInt) (store : Store)
    (procs : Pid → Option (Prog Unit)) (phases : Pid → Phase) : Prop where
  ordered : history.Ordered
  current : ∀ process, (phases process).Holding →
    history.latest process = history.sections
  unwritten : ∀ process, phases process = .inside →
    ∀ write ∈ history.writes, write.section < history.sections
  recent : ∀ offset word, wordAt store addr offset = some word →
    Recent initial history.writes (history.sections + 1) offset word
  pending : ∀ process offset next word, phases process = .fetching →
    procs process = some (.issue (.load addr offset) next) →
      wordAt store addr offset = some word →
        Recent initial history.writes (history.latest process) offset word
  serial : history.Serial initial

/-- The invariant of a run. -/
def Invariant (mutexId : IpcId) (addr : Addr) (initial : Nat → UInt)
    (pool : Pool signature Pid Store Unit) (phases : Pid → Phase) : Prop :=
  (∃ mutex, Guarded mutexId mutex pool.state phases) ∧
    Tracks addr initial (historyOf mutexId addr pool.log) pool.state
      pool.procs phases

section Guarded

variable {mutexId : IpcId} {mutex mutex' : MutexState} {store after : Store}
variable {phases : Pid → Phase} {process : Pid} {phase : Phase}

theorem Guarded.call (guarded : Guarded mutexId mutex store phases)
    (moves : MutexState.Moves process mutex mutex')
    (represents : Represents mutexId mutex' after)
    (own : phase.Holding ↔ mutex' = .held process) :
    Guarded mutexId mutex' after (Function.update phases process phase) where
  represents := represents
  present := moves.present guarded.present
  holder := by
    intro other
    by_cases same : other = process
    · subst same
      simpa using own
    · rw [Function.update_of_ne same, guarded.holder other,
        moves.held_other same]

theorem Guarded.leave (guarded : Guarded mutexId mutex store phases) :
    Guarded mutexId (mutex.leave process) (store.leave process)
      (Function.update phases process .outside) where
  represents := guarded.represents.leave
  present := by
    simpa using guarded.present
  holder := by
    intro other
    rw [MutexState.leave_eq_held_iff]
    by_cases same : other = process
    · subst same
      simp [Phase.Holding]
    · simp [guarded.holder other, same]

/-- Nobody else is in a section. -/
theorem Guarded.exclusive (guarded : Guarded mutexId mutex store phases)
    {other : Pid} (holding : (phases process).Holding)
    (otherHolding : (phases other).Holding) : other = process := by
  have here := (guarded.holder process).mp holding
  have there := (guarded.holder other).mp otherHolding
  rw [here] at there
  exact (MutexState.held.inj there).symm

end Guarded

namespace Tracks

variable {addr : Addr} {initial : Nat → UInt} {history : History Pid Nat UInt}
variable {store after : Store} {procs procs' : Pid → Option (Prog Unit)}
variable {phases : Pid → Phase} {process : Pid} {phase : Phase}

/-- A step that is no part of the history keeps the invariant. -/
theorem same (tracks : Tracks addr initial history store procs phases)
    (words : ∀ offset word, wordAt after addr offset = some word →
      wordAt store addr offset = some word)
    (elsewhere : ∀ other, other ≠ process → procs' other = procs other)
    (holding : phase.Holding → (phases process).Holding)
    (inside : phase = .inside → phases process = .inside)
    (fetching : phase = .fetching → phases process = .inside) :
    Tracks addr initial history after procs'
      (Function.update phases process phase) where
  ordered := tracks.ordered
  current := by
    intro other isHolding
    by_cases isSame : other = process
    · subst isSame
      rw [Function.update_self] at isHolding
      exact tracks.current other (holding isHolding)
    · rw [Function.update_of_ne isSame] at isHolding
      exact tracks.current other isHolding
  unwritten := by
    intro other isInside
    by_cases isSame : other = process
    · subst isSame
      rw [Function.update_self] at isInside
      exact tracks.unwritten other (inside isInside)
    · rw [Function.update_of_ne isSame] at isInside
      exact tracks.unwritten other isInside
  recent := by
    intro offset word found
    exact tracks.recent offset word (words offset word found)
  pending := by
    intro other offset next word isFetching running found
    by_cases isSame : other = process
    · subst isSame
      rw [Function.update_self] at isFetching
      have wasInside := fetching isFetching
      -- The section of the reader is the last one, and it wrote nothing.
      rw [tracks.current other (Or.inl wasInside)]
      apply (tracks.recent offset word (words offset word found)).rebound
      · intro write member
        exact Nat.lt_succ_of_le (tracks.ordered.writes write member)
      · exact tracks.unwritten other wasInside
    · rw [Function.update_of_ne isSame] at isFetching
      rw [elsewhere other isSame] at running
      exact tracks.pending other offset next word isFetching running
        (words offset word found)
  serial := tracks.serial

/-- A process enters a section. -/
theorem enter (tracks : Tracks addr initial history store procs phases)
    (words : ∀ offset word, wordAt after addr offset = some word →
      wordAt store addr offset = some word)
    (elsewhere : ∀ other, other ≠ process → procs' other = procs other)
    (idle : ∀ other, ¬ (phases other).Holding) :
    Tracks addr initial (history.enter process) after procs'
      (Function.update phases process .inside) where
  ordered := tracks.ordered.enter
  current := by
    intro other isHolding
    by_cases isSame : other = process
    · simp [isSame, History.enter]
    · rw [Function.update_of_ne isSame] at isHolding
      exact absurd isHolding (idle other)
  unwritten := by
    intro other _ write member
    exact Nat.lt_succ_of_le (tracks.ordered.writes write member)
  recent := by
    intro offset word found
    apply (tracks.recent offset word (words offset word found)).rebound
    · intro write member
      exact Nat.lt_succ_of_le (tracks.ordered.writes write member)
    · intro write member
      exact Nat.lt_succ_of_lt
        (Nat.lt_succ_of_le (tracks.ordered.writes write member))
  pending := by
    intro other offset next word isFetching running found
    by_cases isSame : other = process
    · subst isSame
      simp at isFetching
    · rw [Function.update_of_ne isSame] at isFetching
      rw [elsewhere other isSame] at running
      simpa [History.enter, Function.update_of_ne isSame] using
        tracks.pending other offset next word isFetching running
          (words offset word found)
  serial := tracks.serial

/-- The process in its section stores a word. -/
theorem write (tracks : Tracks addr initial history store procs phases)
    {offset : Nat} {value : UInt}
    (isInside : phases process = .inside)
    (exclusive : ∀ other, (phases other).Holding → other = process)
    (elsewhere : ∀ other, other ≠ process → procs' other = procs other)
    (stored : ∀ other word, wordAt after addr other = some word →
      if other = offset then word = value
      else wordAt store addr other = some word)
    (undisturbed : ∀ reader next,
      procs reader = some (.issue (.load addr offset) next) →
        ∀ word, wordAt after addr offset = some word →
          wordAt store addr offset = some word) :
    Tracks addr initial (history.write process offset value) after procs'
      (Function.update phases process .wrote) where
  ordered := tracks.ordered.write
  current := by
    intro other isHolding
    by_cases isSame : other = process
    · subst isSame
      exact tracks.current other (Or.inl isInside)
    · rw [Function.update_of_ne isSame] at isHolding
      exact absurd (exclusive other isHolding) isSame
  unwritten := by
    intro other isInside
    by_cases isSame : other = process
    · subst isSame
      simp at isInside
    · rw [Function.update_of_ne isSame] at isInside
      exact absurd (exclusive other (Or.inl isInside)) isSame
  recent := by
    intro other word found
    have lastSection := tracks.current process (Or.inl isInside)
    have change := stored other word found
    by_cases isPlace : other = offset
    · subst isPlace
      rw [if_pos rfl] at change
      subst change
      apply Recent.last
      · exact Nat.lt_succ_of_le (Nat.le_of_eq lastSection)
      · intro write member
        rw [lastSection]
        exact tracks.ordered.writes write member
    · rw [if_neg isPlace] at change
      exact (tracks.recent other word change).ignore fun isThere =>
        absurd isThere.symm isPlace
  pending := by
    intro other place next word isFetching running found
    by_cases isSame : other = process
    · subst isSame
      simp at isFetching
    · rw [Function.update_of_ne isSame] at isFetching
      rw [elsewhere other isSame] at running
      have before : wordAt store addr place = some word := by
        by_cases isPlace : place = offset
        · subst isPlace
          exact undisturbed other next running word found
        · simpa [isPlace] using stored place word found
      apply (tracks.pending other place next word isFetching running
        before).ignore
      intro _
      rw [tracks.current process (Or.inl isInside)]
      exact tracks.ordered.latest other
  serial := by
    intro read member
    apply (tracks.serial read member).ignore
    intro _
    rw [tracks.current process (Or.inl isInside)]
    exact tracks.ordered.reads read member

/-- A process loads the word it is about to read. -/
theorem read (tracks : Tracks addr initial history store procs phases)
    {offset : Nat} {value : UInt} {next : Option UInt → Prog Unit}
    (words : ∀ offset word, wordAt after addr offset = some word →
      wordAt store addr offset = some word)
    (elsewhere : ∀ other, other ≠ process → procs' other = procs other)
    (isFetching : phases process = .fetching)
    (running : procs process = some (.issue (.load addr offset) next))
    (loaded : wordAt store addr offset = some value) :
    Tracks addr initial (history.read process offset value) after procs'
      (Function.update phases process .outside) := by
  have before : Tracks addr initial history after procs'
      (Function.update phases process .outside) :=
    tracks.same words elsewhere (by simp [Phase.Holding]) (by simp) (by simp)
  constructor
  · exact before.ordered.read
  · exact before.current
  · exact before.unwritten
  · exact before.recent
  · exact before.pending
  · intro read member
    rcases List.mem_cons.mp member with rfl | earlier
    · exact tracks.pending process offset next value isFetching running loaded
    · exact before.serial read earlier

end Tracks

/-! ## Every undisturbed step keeps the invariant -/

section Preserves

variable {mutexId : IpcId} {addr : Addr} {initial : Nat → UInt}

/-- The calls on the mutex. -/
theorem Invariant.semop {pool : Pool signature Pid Store Unit}
    {phases : Pid → Phase} {process : Pid} {semOp : Int}
    {outcome : Except Errno Unit} {state : Store} {program : Prog Unit}
    {tick : Nat} {underWay : Bool}
    (invariant : Invariant mutexId addr initial pool phases)
    (turn : phases process = .outside ∧ semOp = -1 ∨
      (phases process).Holding ∧ semOp = 1)
    (served : (pool.state.advance tick).semop process mutexId 0 semOp true false
      underWay = some (outcome, state)) :
    outcome = .ok () ∧
      Invariant mutexId addr initial
        (pool.record (.call process
          ⟨.semop mutexId 0 semOp true false, outcome⟩) state
          (Function.update pool.procs process (some program)))
        (Function.update phases process
          (if semOp < 0 then .inside
            else if phases process = .inside then .fetching
            else .outside)) := by
  rcases invariant with ⟨⟨mutex, guarded⟩, tracks⟩
  have represents : Represents mutexId mutex (pool.state.advance tick) :=
    guarded.represents.of_same rfl
  have sameShms : SameShms (pool.state.advance tick) state :=
    Store.semop_shms served
  have words : ∀ offset word, wordAt state addr offset = some word →
      wordAt pool.state addr offset = some word := by
    intro offset word found
    rw [Store.wordAt_of_same sameShms] at found
    exact found
  have elsewhere : ∀ other, other ≠ process →
      Function.update pool.procs process (some program) other =
        pool.procs other := by
    intro other different
    exact Function.update_of_ne different _ _
  rcases turn with ⟨isOutside, rfl⟩ | ⟨holding, rfl⟩
  · rcases represents.take guarded.present served with
      ⟨rfl, rfl, taken, _, _⟩
    have idle : ∀ other, ¬ (phases other).Holding := by
      intro other isHolding
      have held := (guarded.holder other).mp isHolding
      cases held
    refine ⟨rfl, ⟨.held process, ?_⟩, ?_⟩
    · apply guarded.call .take taken
      simp [Phase.Holding]
    · simpa [historyOf, advance] using tracks.enter words elsewhere idle
  · have isHeld := (guarded.holder process).mp holding
    subst isHeld
    rcases represents.give served with ⟨rfl, given, _, _⟩
    refine ⟨rfl, ⟨.free, ?_⟩, ?_⟩
    · apply guarded.call .give given
      by_cases isInside : phases process = .inside <;>
        simp [Phase.Holding, isInside]
    · have kept : Tracks addr initial (historyOf mutexId addr pool.log) state
          (Function.update pool.procs process (some program))
          (Function.update phases process
            (if phases process = .inside then .fetching else .outside)) := by
        by_cases isInside : phases process = .inside
        · rw [if_pos isInside]
          apply tracks.same words elsewhere
          · simp [Phase.Holding]
          · simp
          · intro _
            exact isInside
        · rw [if_neg isInside]
          apply tracks.same words elsewhere <;> simp [Phase.Holding]
      simpa [historyOf, advance] using kept

/-- The steps of the pool keep the invariant. -/
theorem preserves :
    Pool.Preserves granting (Undisturbed addr) (protocol mutexId addr)
      (Invariant mutexId addr initial) where
  call := by
    intro pool phases process call next answer state invariant running allowed
      exec fine
    rcases granting_exec_iff.mp exec with ⟨choice, _, _, granted⟩
    have elsewhere : ∀ other, other ≠ process →
        Function.update pool.procs process (some (next answer)) other =
          pool.procs other := by
      intro other different
      exact Function.update_of_ne different _ _
    have words : ∀ offset word,
        wordAt (pool.state.advance choice.tick) addr offset = some word →
          wordAt pool.state addr offset = some word :=
      fun _ _ found => found
    cases call with
    | semctlGetval id semnum =>
        rcases allowed with ⟨holding, rfl, rfl⟩
        rcases invariant with ⟨⟨mutex, guarded⟩, tracks⟩
        have isHeld := (guarded.holder process).mp holding
        have represents : Represents id mutex
            (pool.state.advance choice.tick) := guarded.represents.of_same rfl
        simp only [grant, represents.getval guarded.present, isHeld,
          MutexState.units, Option.some.injEq, Prod.mk.injEq] at granted
        rcases granted with ⟨rfl, rfl⟩
        refine ⟨rfl, ⟨mutex, ?_⟩, ?_⟩
        · exact guarded.call (.stay mutex) represents (guarded.holder process)
        · apply tracks.same words elsewhere
          · intro stays
            exact stays
          · intro stays
            exact stays
          · intro isFetching
            have stays : phases process = .fetching := isFetching
            simp [stays, Phase.Holding] at holding
    | semop id semNum semOp undo nowait =>
        rcases allowed with ⟨rfl, rfl, rfl, rfl, turn⟩
        exact invariant.semop turn granted
    | store target offset value =>
        rcases allowed with ⟨isInside, rfl⟩
        rcases invariant with ⟨⟨mutex, guarded⟩, tracks⟩
        have isHeld := (guarded.holder process).mp (Or.inl isInside)
        have represents : Represents mutexId mutex state :=
          guarded.represents.of_same
            (congrFun (exec_sameSems (by rfl) exec).1 mutexId)
        simp only [grant, Option.some.injEq] at granted
        refine ⟨trivial, ⟨mutex, ?_⟩, ?_⟩
        · apply guarded.call (.stay mutex) represents
          simp [protocol, Phase.Holding, isHeld]
        · cases answer with
          | none =>
              have unchanged := Store.storeWord_failed granted
              subst unchanged
              apply tracks.same words elsewhere
              · intro _
                exact Or.inl isInside
              · simp [protocol]
              · simp [protocol]
          | some success =>
              have stored : ∀ other word,
                  wordAt state target other = some word →
                    if other = offset then word = value
                    else wordAt pool.state target other = some word := by
                intro other word found
                have change := Store.storeWord_word granted found
                exact change
              have undisturbed : ∀ reader next,
                  pool.procs reader = some (.issue (.load target offset) next) →
                    ∀ word, wordAt state target offset = some word →
                      wordAt pool.state target offset = some word := by
                intro reader next' fetching word found
                have change := Store.storeWord_word granted found
                rw [if_pos rfl] at change
                rcases Store.storeWord_mapped granted offset with
                  ⟨former, before⟩
                have sameValue : former = value :=
                  fine rfl reader next' fetching former before
                rw [change, ← sameValue]
                exact before
              have kept : Tracks target initial
                  ((historyOf mutexId target pool.log).write process offset
                    value) state _
                  (Function.update phases process .wrote) :=
                tracks.write isInside
                  (fun other holding =>
                    guarded.exclusive (Or.inl isInside) holding)
                  elsewhere
                  stored undisturbed
              simpa [historyOf, advance, protocol] using kept
    | load target offset =>
        rcases allowed with ⟨isFetching, rfl⟩
        rcases invariant with ⟨⟨mutex, guarded⟩, tracks⟩
        have unheld : mutex ≠ .held process := by
          intro held
          have holding := (guarded.holder process).mpr held
          simp [isFetching, Phase.Holding] at holding
        simp only [grant, Option.some.injEq, Prod.mk.injEq] at granted
        rcases granted with ⟨loaded, rfl⟩
        refine ⟨trivial, ⟨mutex, ?_⟩, ?_⟩
        · have represents : Represents mutexId mutex
              (pool.state.advance choice.tick) :=
            guarded.represents.of_same rfl
          apply guarded.call (.stay mutex) represents
          simp [protocol, Phase.Holding, unheld]
        · cases answer with
          | none =>
              apply tracks.same words elsewhere <;>
                simp [protocol, Phase.Holding]
          | some value =>
              have found := Store.load_word loaded
              have kept := tracks.read words elsewhere
                isFetching running found
              simpa [historyOf, advance, protocol] using kept
    | die cause => cases granted
    | _ => exact allowed.elim
  fork := by
    intro pool phases parent child call next here there _ _ _ allowed forks
    cases call with
    | fork => exact allowed.elim
    | _ => cases forks
  leave := by
    intro pool phases process label invariant ends _
    rcases invariant with ⟨⟨mutex, guarded⟩, tracks⟩
    refine ⟨.outside, ⟨_, guarded.leave⟩, ?_⟩
    have kept : Tracks addr initial (historyOf mutexId addr pool.log)
        (pool.state.leave process) (Function.update pool.procs process none)
        (Function.update phases process .outside) := by
      apply tracks.same
      · intro offset word found
        exact Store.leave_word found
      · intro other different
        exact Function.update_of_ne different _ _
      · simp [Phase.Holding]
      · simp
      · simp
    rcases ends with rfl | rfl <;> exact kept

end Preserves

/-! ## The result -/

theorem start_simulated {mutexId : IpcId} {addr : Addr} {store : Store}
    {handle : Pid → SharedMemory} {accesses : Pid → Option (List WordAccess)}
    (free : Represents mutexId .free store)
    (handles : ∀ process list, accesses process = some list →
      (handle process).Serves mutexId addr) :
    Pool.Simulated (protocol mutexId addr)
      (Invariant mutexId addr (initialWord store addr))
      (start store handle accesses) fun _ => .outside := by
  refine ⟨⟨⟨.free, ?_⟩, ?_⟩, ?_⟩
  · constructor
    · exact free
    · simp
    · simp [Phase.Holding]
  · constructor
    · exact .empty
    · simp [Phase.Holding]
    · simp
    · intro offset word found
      refine Or.inr ⟨?_, ?_⟩
      · intro other member
        cases member
      · have same : wordAt store addr offset = some word := found
        simp [initialWord, same]
    · simp
    · intro read member
      cases member
  · intro process program running
    simp only [start, Option.map_eq_some_iff] at running
    rcases running with ⟨list, taking, rfl⟩
    exact conforms_accessAll (handles process list taking) list

/--
In every run in which no store changes a word that some process has already
released the mutex to load, every value read is the one stored last before
the reader's own section, in the order in which the mutex was held.
-/
theorem serial_of_undisturbed (mutexId : IpcId) (addr : Addr) (store : Store)
    (handle : Pid → SharedMemory) (accesses : Pid → Option (List WordAccess))
    (pool : Pool signature Pid Store Unit)
    (free : Represents mutexId .free store)
    (handles : ∀ process list, accesses process = some list →
      (handle process).Serves mutexId addr)
    (reach : Pool.Reach granting (Undisturbed addr)
      (start store handle accesses) pool) :
    (historyOf mutexId addr pool.log).Serial (initialWord store addr) := by
  rcases reach.simulated preserves (start_simulated free handles) with
    ⟨phases, ⟨_, tracks⟩, _⟩
  exact tracks.serial

/-- The mutex and the segment of channel 5. -/
def mutexId : IpcId :=
  ⟨KeyPaths.devtmpfs.semKey (5 + 128), 1⟩

def segmentId : IpcId :=
  ⟨KeyPaths.devtmpfs.shmKey 5, 1⟩

/-- A segment of zeros which two processes are attached to. -/
def shared : Store :=
  { Store.empty 0 with
    sems := fun id =>
      if id = mutexId then
        some { semvals := [1], semadj := fun _ _ => 0, sem_ctime := 0 }
      else none
    shms := fun id =>
      if id = segmentId then
        some
          { size := 16, bytes := fun _ => 0, attached := [1, 2], dest := false }
      else none }

def sharedHandle : SharedMemory :=
  { key := 5
    id := segmentId
    size := Member.assign 16
    addr := .mapped segmentId
    shsem := some { key := 5 + 128, id := mutexId, count := 1, size := 1 } }

/-- Process 1 reads the first word, process 2 writes 7 to it. -/
def readerAndWriter : Pid → Option (List WordAccess)
  | 1 => some [.readUint 0]
  | 2 => some [.writeUint 0 7]
  | _ => none

theorem shared_free : Represents mutexId .free shared where
  absent := by simp
  present := by
    intro _
    refine ⟨{ semvals := [1], semadj := fun _ _ => 0, sem_ctime := 0 }, ?_,
      rfl, ?_⟩
    · simp [shared]
    · simp [MutexState.adjustment]

theorem sharedHandle_serves :
    sharedHandle.Serves mutexId (.mapped segmentId) :=
  ⟨rfl, _, rfl, rfl, rfl⟩

theorem readerAndWriter_confined (process : Pid)
    (outsider : process ∉ ([1, 2] : List Pid)) :
    (start shared (fun _ => sharedHandle) readerAndWriter).procs process =
      none := by
  have missing : readerAndWriter process = none := by
    unfold readerAndWriter
    split
    · exact absurd (by simp) outsider
    · exact absurd (by simp) outsider
    · rfl
  simp [start, missing]

/-- The check that nobody stores while one of two processes is to load. -/
def undisturbed (pool : Pool signature Pid Store Unit) :
    Label signature Pid → Bool
  | .call _ ⟨.store .., _⟩ =>
      [1, 2].all fun (reader : Pid) =>
        match pool.procs reader with
        | some (.issue (.load ..) _) => false
        | _ => true
  | _ => true

theorem undisturbed_sound (pool : Pool signature Pid Store Unit)
    (label : Label signature Pid)
    (confined : ∀ process, process ∉ ([1, 2] : List Pid) →
      pool.procs process = none)
    (passed : undisturbed pool label = true) :
    Undisturbed (.mapped segmentId) pool label := by
  unfold Undisturbed
  split
  · rename_i process target offset value done
    intro _ reader next fetching
    by_cases member : reader ∈ ([1, 2] : List Pid)
    · have calm := List.all_eq_true.mp passed reader member
      simp [fetching] at calm
    · rw [confined reader member] at fetching
      cases fetching
  · trivial

/-- The writer goes first, and the reader reads what it wrote. -/
theorem serial_of_undisturbed_in_turn :
    ∃ pool : Pool signature Pid Store Unit,
      (historyOf mutexId (.mapped segmentId) pool.log).reads =
        [⟨0, 2, 7⟩] ∧
      (historyOf mutexId (.mapped segmentId) pool.log).Serial
        (initialWord shared (.mapped segmentId)) := by
  have computed : (follow undisturbed (turns [(2, 4), (1, 4)])
      (start shared (fun _ => sharedHandle) readerAndWriter)).any
        (fun pool => (historyOf mutexId (.mapped segmentId) pool.log).reads =
          [⟨0, 2, 7⟩]) = true := by
    decide
  rcases follow_reaches undisturbed_sound readerAndWriter_confined
    turns_grants computed with ⟨pool, reach, read⟩
  exact ⟨pool, of_decide_eq_true read,
    serial_of_undisturbed _ _ _ _ _ pool shared_free
      (fun _ _ _ => sharedHandle_serves) reach⟩

/-- The reader has released the mutex when the writer takes it and stores:
the reader then reads the value of the later section. -/
theorem read_of_later_section :
    (∃ pool : Pool signature Pid Store Unit,
      Pool.Reach granting Pool.Unkilled
        (start shared (fun _ => sharedHandle) readerAndWriter) pool ∧
      (historyOf mutexId (.mapped segmentId) pool.log).reads =
        [⟨0, 1, 7⟩] ∧
      (historyOf mutexId (.mapped segmentId) pool.log).writes =
        [⟨0, 2, 7⟩]) ∧
    ¬ ∀ pool, Pool.Reach granting Pool.Unkilled
        (start shared (fun _ => sharedHandle) readerAndWriter) pool →
      (historyOf mutexId (.mapped segmentId) pool.log).Serial
        (initialWord shared (.mapped segmentId)) := by
  have computed : (follow unkilled (turns [(1, 3), (2, 2), (1, 1)])
      (start shared (fun _ => sharedHandle) readerAndWriter)).any
        (fun pool =>
          (historyOf mutexId (.mapped segmentId) pool.log).reads =
            [⟨0, 1, 7⟩] ∧
          (historyOf mutexId (.mapped segmentId) pool.log).writes =
            [⟨0, 2, 7⟩]) = true := by
    decide
  rcases follow_reaches unkilled_sound readerAndWriter_confined
    turns_grants computed with ⟨pool, reach, found⟩
  rcases of_decide_eq_true found with ⟨reads, writes⟩
  refine ⟨⟨pool, reach, reads, writes⟩, ?_⟩
  intro claimed
  have serial := claimed pool reach
  have recent := serial ⟨0, 1, 7⟩ (by simp [reads])
  rw [writes] at recent
  rcases recent with ⟨write, member, _, before, _⟩ | ⟨_, isInitial⟩
  · rw [List.mem_singleton] at member
    subst member
    revert before
    decide
  · revert isInitial
    decide

end Atomicles.SegmentOrder
