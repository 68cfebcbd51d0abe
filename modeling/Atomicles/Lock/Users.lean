import Atomicles.Lock.Counting
import Atomicles.Interaction.Completion

/-!
# Users of a lock

A user takes a unit with `lock on` and gives it back with `lock off`.  Each
`off` stands for one `on`, and starts when that has returned 0.  Then no unit
is given back twice: the units left and the units held make up the size of the
lock, whatever the order of the calls and whoever is killed.
-/

namespace Atomicles.Users

open Interaction Counting

/-! ## The protocol of a user's commands -/

/-- How far a command is with its unit. -/
inductive Stage where
  | idle
  | seen
  | moved
deriving DecidableEq

/-- What a command has of the segment, of the mutex and of the units. -/
structure Phase where
  mapped : Bool := false
  inside : Bool := false
  stage : Stage := .idle

variable (paths : KeyPaths) (key : Key) (channel : Channel)
variable (semaphores : UInt)

/-- The calls of a command on the objects of a lock that stands, and what
their answers are. -/
def protocol (action : Action) : Protocol signature Phase where
  allow phase call :=
    match call with
    | .semget name nsems creat _ =>
        (name = paths.semKey key ∨ name = paths.semKey (key + 128)) ∧
          nsems = NOP ∧ creat = false
    | .shmget name size creat _ =>
        name = paths.shmKey key ∧ size = NOP ∧ creat = false
    | .semctlGetval id semnum =>
        semnum = 0 ∧ (id = channel.mutex ∧ phase.inside = true ∨
          id = channel.user ∧ phase.inside = false ∧ action = .off ∧
            phase.stage = .idle)
    | .semop id semNum semOp true nowait =>
        id = channel.mutex ∧ semNum = 0 ∧ nowait = false ∧
          (phase.inside = false ∧ semOp = -1 ∨
            phase.inside = true ∧ semOp = 1)
    | .semop id semNum semOp false nowait =>
        id = channel.user ∧ semNum = 0 ∧ phase.inside = false ∧
          ((∃ timeout, action = .on timeout) ∧ semOp = -1 ∧
              phase.stage = .idle ∨
            action = .off ∧ semOp = 1 ∧ nowait = false ∧ phase.stage = .seen)
    | .shmat id => id = channel.segment ∧ phase.inside = false
    | .load addr offset =>
        addr = .mapped channel.segment ∧ phase.mapped = true ∧
          (offset = 0 ∨ offset = 1)
    | .semctlStat _ => True
    | .mallocSemaphore => True
    | .mallocSharedMemory => True
    | .sleep _ => True
    | _ => False
  answer _ call answer :=
    match call, answer with
    | .semget name .., (found : Except Errno IpcId) =>
        found = .ok (if name = paths.semKey key then channel.user
          else channel.mutex)
    | .shmget .., (found : Except Errno IpcId) =>
        found = .ok channel.segment
    | .semctlGetval id _, (value : Except Errno Nat) =>
        if id = channel.mutex then value = .ok 0
        else ∃ left, value = .ok left ∧ left < (semaphores.setWidth 16).toNat
    | .semop _ _ semOp undo nowait, (outcome : Except Errno Unit) =>
        outcome = .ok () ∨ undo = false ∧ semOp = -1 ∧ nowait = true ∧
          outcome = .error .EAGAIN
    | .shmat id, (mapped : Except Errno Addr) => mapped = .ok (.mapped id)
    | .load _ offset, (word : Option UInt) =>
        word = some (if offset = 0 then semaphores else 0)
    | .mallocSemaphore, (block : Option Unit) => block = some ()
    | .mallocSharedMemory, (block : Option SharedMemory) => block ≠ none
    | _, _ => True
  next phase call answer :=
    match call, answer with
    | .semctlGetval id _, _ =>
        if id = channel.mutex then phase else { phase with stage := .seen }
    | .semop _ _ semOp true _, _ =>
        { phase with inside := decide (semOp < 0) }
    | .semop _ _ _ false _, (outcome : Except Errno Unit) =>
        match outcome with
        | .ok () => { phase with stage := .moved }
        | .error _ => phase
    | .shmat _, _ => { phase with mapped := true }
    | _, _ => phase

/-- What a command that has come to its end says: `on` returns 0 if it has a
unit, and `off` always has given one back. -/
def Concludes (action : Action) (phase : Phase) (code : Int) : Prop :=
  (code = 0 ↔ phase.stage = .moved) ∧ (action = .off → code = 0)

/-- A program that follows the protocol from a phase on. -/
def Follows (action : Action) (phase : Phase) (program : Prog Int) : Prop :=
  Program.Conforms (protocol paths key channel semaphores action) phase program
    fun phase code => phase.inside = false ∧ Concludes action phase code

variable {paths key channel semaphores}

section Conformance

variable {action : Action} {phase : Phase}

/-- `Semaphore$attach` of the lock's own set. -/
theorem follows_attach_user {continuation : Option Semaphore → Prog Int}
    (rest : ∀ count, Follows paths key channel semaphores action phase
      (continuation (some ⟨key, channel.user, count, 1⟩))) :
    Follows paths key channel semaphores action phase
      (Semaphore.attach paths key >>= continuation) := by
  rw [Semaphore.attach_bind]
  refine ⟨⟨Or.inl rfl, rfl, rfl⟩, ?_⟩
  intro (found : Except Errno IpcId) isFound
  have isUser : found = .ok channel.user := by
    simpa [protocol] using isFound
  subst isUser
  refine ⟨trivial, ?_⟩
  rintro _ ⟨⟩
  exact ⟨trivial, fun ds _ => rest (BitVec.ofNat 16 ds.sem_nsems)⟩

/-- `Semaphore$attach` of the mutex. -/
theorem follows_attach_mutex {continuation : Option Semaphore → Prog Int}
    (rest : ∀ count, Follows paths key channel semaphores action phase
      (continuation (some ⟨key + 128, channel.mutex, count, 1⟩))) :
    Follows paths key channel semaphores action phase
      (Semaphore.attach paths (key + 128) >>= continuation) := by
  rw [Semaphore.attach_bind]
  refine ⟨⟨Or.inr rfl, rfl, rfl⟩, ?_⟩
  intro (found : Except Errno IpcId) isFound
  have isMutex : found = .ok channel.mutex :=
    isFound.trans (congrArg _ (if_neg (paths.semKey_mutex_ne key)))
  subst isMutex
  refine ⟨trivial, ?_⟩
  rintro _ ⟨⟩
  exact ⟨trivial, fun ds _ => rest (BitVec.ofNat 16 ds.sem_nsems)⟩

/-- A handle of the lock's segment with its mutex. -/
structure Opened (channel : Channel) (shmem : SharedMemory) : Prop where
  addr : shmem.addr = .mapped channel.segment
  mutex : ∃ shsem, shmem.shsem = some shsem ∧ shsem.id = channel.mutex ∧
    shsem.size = 1

/-- `SharedMemory$attach`. -/
theorem follows_attach_segment (outside : phase.inside = false)
    {continuation : Option SharedMemory → Prog Int}
    (rest : ∀ shmem, Opened channel shmem →
      Follows paths key channel semaphores action
        { phase with mapped := true } (continuation (some shmem))) :
    Follows paths key channel semaphores action phase
      (SharedMemory.attach paths key >>= continuation) := by
  rw [SharedMemory.attach_bind]
  refine ⟨⟨rfl, rfl, rfl⟩, ?_⟩
  rintro _ ⟨⟩
  refine ⟨trivial, ?_⟩
  intro (block : Option SharedMemory) present
  cases block with
  | none => exact absurd rfl present
  | some block =>
      dsimp only
      rw [SharedMemory.shmat_bind]
      refine ⟨⟨rfl, outside⟩, ?_⟩
      rintro _ ⟨⟩
      apply follows_attach_mutex
      intro count
      exact rest _ ⟨rfl, _, rfl, rfl, rfl⟩

/-- A `read_uint` of the first two words of the segment. -/
theorem follows_readUint (outside : phase.inside = false)
    (mapped : phase.mapped = true) {shmem : SharedMemory}
    (opened : Opened channel shmem) {offset : UShort}
    (near : offset.toNat = 0 ∨ offset.toNat = 1)
    {continuation : UInt → Prog Int}
    (rest : Follows paths key channel semaphores action phase
      (continuation (if offset.toNat = 0 then semaphores else 0))) :
    Follows paths key channel semaphores action phase
      (SharedMemory.readUint shmem offset >>= continuation) := by
  rcases opened with ⟨addr, shsem, owned, isMutex, size⟩
  have back : { phase with inside := false } = phase := by
    rw [← outside]
  simp only [SharedMemory.readUint, SharedMemory.readWord, bind_assoc]
  rw [SharedMemory.enter_bind owned]
  refine ⟨⟨isMutex, rfl, rfl, Or.inl ⟨outside, rfl⟩⟩, ?_⟩
  rintro _ (rfl | ⟨impossible, _⟩)
  · dsimp only
    rw [SharedMemory.exit_bind owned]
    refine ⟨⟨rfl, Or.inl ⟨isMutex, rfl⟩⟩, ?_⟩
    intro (value : Except Errno Nat) isZero
    have empty : value = .ok 0 := by
      simpa [protocol, isMutex] using isZero
    subst empty
    have used : (shsem.size.toNat : Int) - Semaphore.readValue (.ok 0) > 0 := by
      simp [size, Semaphore.readValue]
    dsimp only
    rw [if_pos used]
    refine ⟨⟨isMutex, rfl, rfl, Or.inr ?_⟩, ?_⟩
    · simp [protocol, isMutex]
    · rintro _ (rfl | ⟨impossible, _⟩)
      · dsimp only
        rw [SharedMemory.load_bind]
        have same : (protocol paths key channel semaphores action).next
            ((protocol paths key channel semaphores action).next
              ((protocol paths key channel semaphores action).next phase
                (.semop shsem.id 0 (-1) true false)
                (.ok () : Except Errno Unit))
              (.semctlGetval shsem.id 0) (.ok 0 : Except Errno Nat))
            (.semop shsem.id 0 1 true false) (.ok () : Except Errno Unit) =
              phase := by
          simpa [protocol, isMutex] using back
        rw [same]
        refine ⟨⟨addr, mapped, near⟩, ?_⟩
        rintro _ rfl
        exact rest
      · cases impossible
  · cases impossible

/-- `init` on the lock's handle. -/
theorem follows_init (outside : phase.inside = false)
    {statics : Lock.Statics} {count size : UShort}
    {continuation : Int × Lock.Statics × Semaphore → Prog Int}
    (rest : Follows paths key channel semaphores action
      { phase with mapped := true }
      (continuation (0, { statics with expiry := false },
        ⟨key, channel.user, count, semaphores.setWidth 16⟩))) :
    Follows paths key channel semaphores action phase
      (Lock.init paths statics ⟨key, channel.user, count, size⟩ >>=
        continuation) := by
  unfold Lock.init
  simp only [bind_assoc]
  apply follows_attach_segment outside
  intro shmem opened
  rcases opened.mutex with ⟨shsem, owned, _⟩
  simp only [owned, bind_assoc]
  apply follows_readUint (by exact outside) rfl opened (Or.inl rfl)
  apply follows_readUint (by exact outside) rfl opened (Or.inr rfl)
  simpa [SharedMemory.delete, owned, Semaphore.setSize] using rest

/-- `Semaphore$lock` on the lock's own set. -/
theorem follows_take (outside : phase.inside = false)
    (idle : phase.stage = .idle) (takes : ∃ timeout, action = .on timeout)
    {shsem : Semaphore} (isUser : shsem.id = channel.user) (timeout : Time) :
    Follows paths key channel semaphores action phase
      (Semaphore.lock shsem Lock.SHSEM_INDEX true timeout) := by
  have allowed : ∀ nowait,
      (protocol paths key channel semaphores action).allow phase
        (.semop shsem.id Lock.SHSEM_INDEX.toNat (-1) (!true) nowait) :=
    fun nowait => ⟨isUser, rfl, outside, Or.inl ⟨takes, rfl, idle⟩⟩
  have keeps : action ≠ .off := by
    rcases takes with ⟨timeout, rfl⟩
    nofun
  have taken : Concludes action { phase with stage := .moved } 0 :=
    ⟨iff_of_true rfl rfl, fun _ => rfl⟩
  have missed : Concludes action phase 1 :=
    ⟨iff_of_false (by decide) (by simp [idle]), fun gives => absurd gives keeps⟩
  unfold Semaphore.lock
  split
  · refine ⟨allowed false, ?_⟩
    rintro _ (rfl | ⟨_, _, impossible, _⟩)
    · exact ⟨outside, taken⟩
    · cases impossible
  · split
    · refine ⟨allowed true, ?_⟩
      rintro _ (rfl | ⟨_, _, _, rfl⟩)
      · exact ⟨outside, taken⟩
      · exact ⟨outside, missed⟩
    · generalize timeout.toNat = remaining
      induction remaining with
      | zero => exact ⟨outside, missed⟩
      | succ remaining ih =>
          refine ⟨allowed true, ?_⟩
          rintro _ (rfl | ⟨_, _, _, rfl⟩)
          · exact ⟨outside, taken⟩
          · exact ⟨trivial, fun _ _ => ih⟩

theorem follows_lock {timeout : Int} {statics : Lock.Statics} :
    Follows paths key channel semaphores (.on timeout) {}
      (Lock.lock paths statics key timeout) := by
  unfold Lock.lock
  rw [Semaphore.exists_bind]
  refine ⟨⟨Or.inl rfl, rfl, rfl⟩, ?_⟩
  intro (found : Except Errno IpcId) isFound
  have isUser : found = .ok channel.user := by
    simpa [protocol] using isFound
  subst isUser
  dsimp only
  rw [if_pos rfl]
  apply follows_attach_user
  intro count
  apply follows_init rfl
  have taken : Follows paths key channel semaphores (.on timeout)
      { mapped := true }
      (Semaphore.lock ⟨key, channel.user, count, semaphores.setWidth 16⟩
        Lock.SHSEM_INDEX true timeout) :=
    follows_take rfl rfl ⟨timeout, rfl⟩ rfl timeout
  exact taken.bind fun _ _ ends => ends

theorem follows_unlock {statics : Lock.Statics}
    (distinct : channel.mutex ≠ channel.user) :
    Follows paths key channel semaphores .off {}
      (Lock.unlock paths statics key) := by
  unfold Lock.unlock
  apply follows_attach_user
  intro count
  apply follows_init rfl
  dsimp only
  rw [Semaphore.unlock_bind]
  refine ⟨⟨rfl, Or.inr ⟨rfl, rfl, rfl, rfl⟩⟩, ?_⟩
  intro (value : Except Errno Nat) isLeft
  have isLeft : ∃ left, value = .ok left ∧
      left < (semaphores.setWidth 16).toNat := by
    simpa [protocol, Ne.symm distinct] using isLeft
  rcases isLeft with ⟨left, rfl, below⟩
  have used : ((semaphores.setWidth 16 : UShort).toNat : Int) -
      Semaphore.readValue (.ok left) > 0 := by
    simp only [Semaphore.readValue]
    omega
  have seen : (protocol paths key channel semaphores .off).next
      { mapped := true }
      (.semctlGetval channel.user Lock.SHSEM_INDEX.toNat)
      (.ok left : Except Errno Nat) = { mapped := true, stage := .seen } :=
    if_neg (Ne.symm distinct)
  dsimp only
  rw [if_pos used, seen]
  refine ⟨⟨rfl, rfl, rfl, Or.inr ⟨rfl, rfl, rfl, rfl⟩⟩, ?_⟩
  rintro _ (rfl | ⟨_, impossible, _⟩)
  · exact ⟨rfl, iff_of_true rfl rfl, fun _ => rfl⟩
  · cases impossible

/-- Both commands of a user follow their protocols. -/
theorem follows_run (moves : Moves action)
    (distinct : channel.mutex ≠ channel.user) (statics : Lock.Statics) :
    Follows paths key channel semaphores action {}
      (action.run paths statics key) := by
  rcases moves with rfl | ⟨timeout, rfl⟩
  · exact follows_unlock distinct
  · exact follows_lock

end Conformance

/-! ## The lock under the calls of its users -/

section Operations

variable {value : Nat} {store after : Store} {process : Pid}
variable {nowait underWay : Bool} {outcome : Except Errno Unit}

/-- A unit is taken, or the command is told that there is none. -/
theorem taking_answer
    (stands : Standing paths key channel semaphores value store)
    (small : value ≤ SEMVMX)
    (served : store.semop process channel.user 0 (-1) false nowait underWay =
      some (outcome, after)) :
    outcome = .ok () ∨ nowait = true ∧ outcome = .error .EAGAIN := by
  rcases stands.value with ⟨ctime, found⟩
  by_cases empty : value = 0
  · rw [Store.semop_short value found rfl (by omega)] at served
    cases nowait with
    | false => cases served
    | true =>
        cases served
        exact Or.inr ⟨rfl, rfl⟩
  · have goes : store.semop process channel.user 0 (-1) false nowait underWay =
        some (.ok (), _) :=
      Store.semop_proceeds value found rfl (by omega) (by omega) (by simp)
    rw [goes] at served
    cases served
    exact Or.inl rfl

/-- A unit is given back where there is room for it. -/
theorem giving_answer
    (stands : Standing paths key channel semaphores value store)
    (room : value < SEMVMX)
    (served : store.semop process channel.user 0 1 false nowait underWay =
      some (outcome, after)) : outcome = .ok () := by
  rcases stands.value with ⟨ctime, found⟩
  have goes : store.semop process channel.user 0 1 false nowait underWay =
      some (.ok (), _) :=
    Store.semop_proceeds value found rfl (by omega) (by omega) (by simp)
  rw [goes] at served
  cases served
  rfl

end Operations

/-- The lock stands with `value` units, its mutex is with the one that is
inside, and the segment is mapped by all that have attached to it. -/
structure Kept (paths : KeyPaths) (key : Key) (channel : Channel)
    (semaphores : UInt) (mutex : MutexState) (value : Nat) (store : Store)
    (phases : Pid → Phase) : Prop where
  stands : Standing paths key channel semaphores value store
  guards : Guards channel.mutex mutex store fun process =>
    (phases process).inside = true
  armed : mutex.Armed
  mapped : ∃ segment, store.shms channel.segment = some segment ∧
    segment.size = 16 ∧ ∀ process, (phases process).mapped = true →
      process ∈ segment.attached

namespace Kept

variable {mutex : MutexState} {value : Nat} {store after : Store}
variable {phases phases' : Pid → Phase} {process : Pid} {action : Action}
variable {call : Call} {answer : call.Answer}

/-- A segment that is mapped is mapped under any other phases that agree. -/
theorem mapped_of_same
    (kept : Kept paths key channel semaphores mutex value store phases)
    (shms : SameShms store after)
    (mapped : ∀ other, (phases' other).mapped = (phases other).mapped) :
    ∃ segment, after.shms channel.segment = some segment ∧
      segment.size = 16 ∧ ∀ other, (phases' other).mapped = true →
        other ∈ segment.attached := by
  rcases kept.mapped with ⟨segment, found, size, attached⟩
  refine ⟨segment, by rw [shms.1]; exact found, size, ?_⟩
  intro other isMapped
  rw [mapped] at isMapped
  exact attached other isMapped

/-- A step that changes no object, and no process's hold on one. -/
theorem spared
    (kept : Kept paths key channel semaphores mutex value store phases)
    (sems : SameSems store after) (shms : SameShms store after)
    (inside : ∀ other, (phases' other).inside = (phases other).inside)
    (mapped : ∀ other, (phases' other).mapped = (phases other).mapped) :
    Kept paths key channel semaphores mutex value after phases' where
  stands := kept.stands.of_same sems shms
  guards := by
    apply kept.guards.stay (congrFun sems.1 _)
    intro other
    rw [inside]
  armed := kept.armed
  mapped := kept.mapped_of_same shms mapped

/-- What a call of a user's command does: its answer can be relied on, and
only an operation on the lock's own set changes the value. -/
structure Effect (paths : KeyPaths) (key : Key) (channel : Channel)
    (semaphores : UInt) (value : Nat) (action : Action)
    (phases : Pid → Phase) (process : Pid) (call : Call) (answer : call.Answer)
    (after : Store) : Prop where
  relied : (protocol paths key channel semaphores action).answer
    (phases process) call answer
  kept : ∃ mutex value', Kept paths key channel semaphores mutex value' after
    (Function.update phases process
      ((protocol paths key channel semaphores action).next (phases process)
        call answer)) ∧
    (value' : Int) = value + change channel.user ⟨call, answer⟩

section Calls

variable
  (kept : Kept paths key channel semaphores mutex value store phases)

include kept

/-- A call on something else, which leaves the phase as it is. -/
theorem effect_spared (sems : call.sparesSems = true)
    (shms : call.sparesShms = true)
    (exec : granting.exec process call store answer after)
    (relied : (protocol paths key channel semaphores action).answer
      (phases process) call answer)
    (stays : (protocol paths key channel semaphores action).next
      (phases process) call answer = phases process)
    (unchanged : change channel.user ⟨call, answer⟩ = 0) :
    Effect paths key channel semaphores value action phases process call answer
      after where
  relied := relied
  kept := by
    rw [stays, Function.update_eq_self, unchanged]
    exact ⟨mutex, value, kept.spared (exec_sameSems sems exec)
      (exec_sameShms shms exec) (fun _ => rfl) (fun _ => rfl),
      (Int.add_zero _).symm⟩

theorem effect_semget {name : Key} {nsems : Nat} {creat excl : Bool}
    {found : Except Errno IpcId}
    (allowed : (protocol paths key channel semaphores action).allow
      (phases process) (.semget name nsems creat excl))
    (exec : granting.exec process (.semget name nsems creat excl) store found
      after) :
    Effect paths key channel semaphores value action phases process
      (.semget name nsems creat excl) found after := by
  rcases allowed with ⟨named, rfl, rfl⟩
  have answered := granting_semget exec
  apply kept.effect_spared rfl rfl exec _ rfl rfl
  rcases named with rfl | rfl
  · show found = Except.ok (ite _ _ _)
    rw [answered, kept.stands.user, if_pos rfl]
    rfl
  · show found = Except.ok (ite _ _ _)
    rw [answered, kept.stands.mutex, if_neg (paths.semKey_mutex_ne key)]
    rfl

theorem effect_shmget {name : Key} {size : Nat} {creat excl : Bool}
    {found : Except Errno IpcId}
    (allowed : (protocol paths key channel semaphores action).allow
      (phases process) (.shmget name size creat excl))
    (exec : granting.exec process (.shmget name size creat excl) store found
      after) :
    Effect paths key channel semaphores value action phases process
      (.shmget name size creat excl) found after := by
  rcases allowed with ⟨rfl, rfl, rfl⟩
  apply kept.effect_spared rfl rfl exec _ rfl rfl
  rw [granting_shmget exec, kept.stands.segment]
  rfl

theorem effect_load {addr : Addr} {offset : Nat} {word : Option UInt}
    (allowed : (protocol paths key channel semaphores action).allow
      (phases process) (.load addr offset))
    (exec : granting.exec process (.load addr offset) store word after) :
    Effect paths key channel semaphores value action phases process
      (.load addr offset) word after := by
  rcases allowed with ⟨rfl, isMapped, near⟩
  apply kept.effect_spared rfl rfl exec _ rfl rfl
  rcases kept.mapped with ⟨segment, found, size, attached⟩
  have behind : store.mapping process (.mapped channel.segment) =
      some (channel.segment, segment) :=
    Store.mapping_eq_some_iff.mpr ⟨rfl, found, attached _ isMapped⟩
  have read : store.load process (.mapped channel.segment) offset =
      wordAt store (.mapped channel.segment) offset := by
    have roomy : 4 * offset + 4 ≤ segment.mappedSize := by
      rw [Segment.mappedSize, size]
      rcases near with rfl | rfl <;> decide
    simp [Store.load, Store.access, behind, roomy, wordAt, found]
  show word = _
  rw [granting_load exec, read]
  rcases near with rfl | rfl
  · exact kept.stands.size
  · exact kept.stands.flag

theorem effect_shmat {id : IpcId} {mapped : Except Errno Addr}
    (allowed : (protocol paths key channel semaphores action).allow
      (phases process) (.shmat id))
    (exec : granting.exec process (.shmat id) store mapped after) :
    Effect paths key channel semaphores value action phases process
      (.shmat id) mapped after := by
  rcases allowed with ⟨rfl, outside⟩
  rcases granting_exec_iff.mp exec with ⟨choice, _, _, served⟩
  rcases kept.mapped with ⟨segment, found, size, attached⟩
  have found : (store.advance choice.tick).shms channel.segment =
      some segment := found
  have answers := congrArg Prod.fst (Option.some.inj served)
  have attaches := congrArg Prod.snd (Option.some.inj served)
  simp only [Store.shmat, found] at answers attaches
  subst answers attaches
  constructor
  · rfl
  · refine ⟨mutex, value, ?_, (Int.add_zero _).symm⟩
    constructor
    · have stands : Standing paths key channel semaphores value
          (store.advance choice.tick) :=
        kept.stands.of_same ⟨rfl, rfl⟩ ⟨rfl, rfl⟩
      exact stands.setMappings found
    · apply Guards.stay kept.guards
      · rfl
      · intro other
        by_cases same : other = process
        · subst same
          simp [protocol]
        · simp [Function.update_of_ne same]
    · exact kept.armed
    · refine ⟨{ segment with attached := process :: segment.attached },
        by simp, size, ?_⟩
      intro other isMapped
      by_cases same : other = process
      · subst same
        exact List.mem_cons_self
      · rw [Function.update_of_ne same] at isMapped
        exact List.mem_cons_of_mem _ (attached other isMapped)

theorem effect_getval {id : IpcId} {semnum : Nat} {read : Except Errno Nat}
    (short : action = .off → (phases process).stage ≠ .moved →
      value < (semaphores.setWidth 16).toNat)
    (allowed : (protocol paths key channel semaphores action).allow
      (phases process) (.semctlGetval id semnum))
    (exec : granting.exec process (.semctlGetval id semnum) store read after) :
    Effect paths key channel semaphores value action phases process
      (.semctlGetval id semnum) read after := by
  rcases allowed with ⟨rfl, ⟨rfl, inside⟩ | ⟨rfl, outside, gives, idle⟩⟩
  · apply kept.effect_spared rfl rfl exec _ (if_pos rfl) rfl
    show ite _ _ _
    rw [if_pos rfl, granting_getval exec]
    exact kept.guards.getval inside
  · have isUser : channel.user ≠ channel.mutex := Ne.symm kept.stands.distinct
    rcases kept.stands.value with ⟨ctime, found⟩
    have answered : read = .ok value := by
      rw [granting_getval exec, Store.semctlGetval, found]
      rfl
    constructor
    · show ite _ _ _
      rw [if_neg isUser]
      exact ⟨value, answered, short gives (by simp [idle])⟩
    · have goes : (protocol paths key channel semaphores action).next
          (phases process) (.semctlGetval channel.user 0) read =
            { phases process with stage := .seen } := if_neg isUser
      rw [goes]
      refine ⟨mutex, value, kept.spared (exec_sameSems rfl exec)
        (exec_sameShms rfl exec) ?_ ?_, (Int.add_zero _).symm⟩ <;>
      · intro other
        by_cases same : other = process
        · subst same
          simp
        · simp [Function.update_of_ne same]

theorem effect_mutex {id : IpcId} {semNum : Nat} {semOp : Int} {nowait : Bool}
    {outcome : Except Errno Unit}
    (allowed : (protocol paths key channel semaphores action).allow
      (phases process) (.semop id semNum semOp true nowait))
    (exec : granting.exec process (.semop id semNum semOp true nowait) store
      outcome after) :
    Effect paths key channel semaphores value action phases process
      (.semop id semNum semOp true nowait) outcome after := by
  rcases granting_exec_iff.mp exec with ⟨choice, _, _, served⟩
  have shms := exec_sameShms rfl exec
  have stands : Standing paths key channel semaphores value
      (store.advance choice.tick) :=
    kept.stands.of_same ⟨rfl, rfl⟩ ⟨rfl, rfl⟩
  have guards : Guards channel.mutex mutex (store.advance choice.tick)
      fun other => (phases other).inside = true :=
    Guards.stay kept.guards rfl fun _ => Iff.rfl
  rcases allowed with ⟨rfl, rfl, rfl, turn⟩
  have elsewhere : ∀ other, other ≠ process →
      ((Function.update phases process
        { phases process with inside := decide (semOp < 0) } other).inside =
          true ↔ (phases other).inside = true) := by
    intro other different
    rw [Function.update_of_ne different]
  have moved : outcome = .ok () ∧ ∃ mutex', Guards channel.mutex mutex' after
      (fun other => (Function.update phases process
        { phases process with inside := decide (semOp < 0) } other).inside =
          true) ∧ mutex'.Armed := by
    rcases turn with ⟨outside, rfl⟩ | ⟨inside, rfl⟩
    · rcases guards.take served (by simp) elsewhere with ⟨isOk, _, taken⟩
      exact ⟨isOk, _, taken, Or.inr ⟨process, rfl⟩⟩
    · rcases guards.give inside served (by simp) elsewhere with ⟨isOk, given⟩
      exact ⟨isOk, _, given, Or.inl rfl⟩
  rcases moved with ⟨isOk, mutex', guards', armed⟩
  have unchanged : change channel.user
      ⟨.semop channel.mutex 0 semOp true false, outcome⟩ = 0 := by
    simp [change, operates, kept.stands.distinct]
  constructor
  · exact Or.inl isOk
  · rw [unchanged]
    refine ⟨mutex', value, ?_, (Int.add_zero _).symm⟩
    constructor
    · exact stands.operateMutex served
    · exact guards'
    · exact armed
    · apply kept.mapped_of_same shms
      intro other
      by_cases same : other = process
      · subst same
        simp [protocol]
      · rw [Function.update_of_ne same]

theorem effect_unit {id : IpcId} {semNum : Nat} {semOp : Int} {nowait : Bool}
    {outcome : Except Errno Unit} (small : value ≤ SEMVMX)
    (short : action = .off → (phases process).stage ≠ .moved →
      value < SEMVMX)
    (allowed : (protocol paths key channel semaphores action).allow
      (phases process) (.semop id semNum semOp false nowait))
    (exec : granting.exec process (.semop id semNum semOp false nowait) store
      outcome after) :
    Effect paths key channel semaphores value action phases process
      (.semop id semNum semOp false nowait) outcome after := by
  rcases granting_exec_iff.mp exec with ⟨choice, _, _, served⟩
  have shms := exec_sameShms rfl exec
  have stands : Standing paths key channel semaphores value
      (store.advance choice.tick) :=
    kept.stands.of_same ⟨rfl, rfl⟩ ⟨rfl, rfl⟩
  rcases allowed with ⟨rfl, rfl, outside, turn⟩
  have single : semOp = -1 ∨ semOp = 1 := by
    rcases turn with ⟨_, takes, _⟩ | ⟨_, gives, _⟩
    · exact Or.inl takes
    · exact Or.inr gives
  have answered : outcome = .ok () ∨ false = false ∧ semOp = -1 ∧
      nowait = true ∧ outcome = .error .EAGAIN := by
    rcases turn with ⟨_, rfl, _⟩ | ⟨gives, rfl, rfl, seen⟩
    · rcases taking_answer stands small served with isOk | ⟨asked, isAgain⟩
      · exact Or.inl isOk
      · exact Or.inr ⟨rfl, rfl, asked, isAgain⟩
    · have room := short gives (by simp [seen])
      exact Or.inl (giving_answer stands room served)
  -- The phase keeps the hold on the mutex and the mapping, whatever came out.
  have holds : ∀ other, (Function.update phases process
      ((protocol paths key channel semaphores action).next (phases process)
        (.semop channel.user 0 semOp false nowait) outcome) other).inside =
        (phases other).inside ∧ (Function.update phases process
      ((protocol paths key channel semaphores action).next (phases process)
        (.semop channel.user 0 semOp false nowait) outcome) other).mapped =
        (phases other).mapped := by
    intro other
    by_cases same : other = process
    · subst same
      rw [Function.update_self]
      cases outcome <;> exact ⟨rfl, rfl⟩
    · rw [Function.update_of_ne same]
      exact ⟨rfl, rfl⟩
  have guards : Guards channel.mutex mutex after fun other =>
      (Function.update phases process
        ((protocol paths key channel semaphores action).next (phases process)
          (.semop channel.user 0 semOp false nowait) outcome) other).inside =
        true := by
    apply Guards.stay kept.guards
    · rcases Store.semop_cases served with ⟨_, _, rfl⟩ | ⟨_, _, _, _, _, rfl⟩
      · rfl
      · exact Function.update_of_ne kept.stands.distinct ..
    · intro other
      rw [(holds other).1]
  have mapped := kept.mapped_of_same shms fun other => (holds other).2
  constructor
  · exact answered
  · rcases stands.operate served with
      ⟨isOk, enough, _, moved⟩ | ⟨isError, same⟩
    · have changed : change channel.user
          ⟨.semop channel.user 0 semOp false nowait, outcome⟩ = semOp := by
        rcases single with rfl | rfl <;> simp [change, operates, isOk]
      rw [changed]
      exact ⟨mutex, _, ⟨moved, guards, kept.armed, mapped⟩,
        Int.toNat_of_nonneg enough⟩
    · have unchanged : change channel.user
          ⟨.semop channel.user 0 semOp false nowait, outcome⟩ = 0 := by
        simp [change, operates, isError]
      rw [unchanged]
      rw [← same] at stands
      exact ⟨mutex, value, ⟨stands, guards, kept.armed, mapped⟩,
        (Int.add_zero _).symm⟩

/-- What any call of a user's command does. -/
theorem effect (legal : (semaphores.setWidth 16).toNat ≤ SEMVMX)
    (bounded : value ≤ (semaphores.setWidth 16).toNat)
    (short : action = .off → (phases process).stage ≠ .moved →
      value < (semaphores.setWidth 16).toNat)
    (allowed : (protocol paths key channel semaphores action).allow
      (phases process) call)
    (exec : granting.exec process call store answer after) :
    Effect paths key channel semaphores value action phases process call answer
      after := by
  cases call with
  | semget => exact kept.effect_semget allowed exec
  | shmget => exact kept.effect_shmget allowed exec
  | load => exact kept.effect_load allowed exec
  | shmat => exact kept.effect_shmat allowed exec
  | semctlGetval => exact kept.effect_getval short allowed exec
  | semop id semNum semOp undo nowait =>
      cases undo with
      | true => exact kept.effect_mutex allowed exec
      | false =>
          apply kept.effect_unit (bounded.trans legal) _ allowed exec
          exact fun gives unmoved => (short gives unmoved).trans_le legal
  | semctlStat => exact kept.effect_spared rfl rfl exec trivial rfl rfl
  | sleep => exact kept.effect_spared rfl rfl exec trivial rfl rfl
  | mallocSemaphore =>
      apply kept.effect_spared rfl rfl exec _ rfl rfl
      rcases granting_exec_iff.mp exec with ⟨choice, memory, _, served⟩
      have answers := congrArg Prod.fst (Option.some.inj served)
      show answer = some ()
      simpa [memory] using answers.symm
  | mallocSharedMemory =>
      apply kept.effect_spared rfl rfl exec _ rfl rfl
      rcases granting_exec_iff.mp exec with ⟨choice, memory, _, served⟩
      have answers := congrArg Prod.fst (Option.some.inj served)
      simp only [memory, if_true] at answers
      show answer ≠ none
      rw [← answers]
      simp
  | _ => exact allowed.elim

end Calls

/-- The end of a process, which gives up the mutex and its mappings. -/
theorem leave
    (kept : Kept paths key channel semaphores mutex value store phases)
    (small : value ≤ SEMVMX) (stage : Stage) :
    Kept paths key channel semaphores (mutex.leave process) value
      (store.leave process)
      (Function.update phases process { stage }) where
  stands := kept.stands.leave small
  guards := by
    apply kept.guards.leave
    · simp
    · intro other different
      rw [Function.update_of_ne different]
  armed := kept.armed.leave
  mapped := by
    rcases kept.mapped with ⟨segment, found, size, attached⟩
    rcases Store.findShm_eq_some_iff.mp kept.stands.segment with
      ⟨_, _, segment', found', spared⟩
    rw [found] at found'
    cases found'
    refine ⟨{ segment with
      attached := segment.attached.filter (· ≠ process) }, ?_, size, ?_⟩
    · simp [Store.leave, found, Store.keepMapped, spared]
    · intro other isMapped
      by_cases same : other = process
      · subst same
        simp at isMapped
      · rw [Function.update_of_ne same] at isMapped
        simpa [same] using attached other isMapped

end Kept

/-- A call moves a unit if it takes the command to the stage that says so. -/
theorem moves_unit {action : Action} {phase : Phase} {call : Call}
    {answer : call.Answer} (distinct : channel.mutex ≠ channel.user)
    (allowed : (protocol paths key channel semaphores action).allow phase
      call) :
    (change channel.user ⟨call, answer⟩ = 0 ∧
      (((protocol paths key channel semaphores action).next phase call
        answer).stage = .moved ↔ phase.stage = .moved)) ∨
    (phase.stage ≠ .moved ∧
      ((protocol paths key channel semaphores action).next phase call
        answer).stage = .moved ∧
      ((∃ timeout, action = .on timeout) ∧
          change channel.user ⟨call, answer⟩ = -1 ∨
        action = .off ∧ change channel.user ⟨call, answer⟩ = 1)) := by
  cases call with
  | semop id semNum semOp undo nowait =>
      cases undo with
      | true =>
          rcases allowed with ⟨rfl, _⟩
          exact Or.inl ⟨by simp [change, operates, distinct], Iff.rfl⟩
      | false =>
          rcases allowed with ⟨rfl, _, _, turn⟩
          cases outcome : (answer : Except Errno Unit) with
          | error errno =>
              exact Or.inl ⟨by simp [change, operates, Except.isOk,
                Except.toBool], Iff.rfl⟩
          | ok success =>
              right
              rcases turn with ⟨takes, rfl, idle⟩ | ⟨gives, rfl, _, seen⟩
              · refine ⟨by simp [idle], rfl, Or.inl ⟨takes, ?_⟩⟩
                simp [change, operates, Except.isOk, Except.toBool]
              · refine ⟨by simp [seen], rfl, Or.inr ⟨gives, ?_⟩⟩
                simp [change, operates, Except.isOk, Except.toBool]
  | semctlGetval id semnum =>
      left
      refine ⟨rfl, ?_⟩
      rcases allowed with ⟨rfl, ⟨rfl, _⟩ | ⟨rfl, _, _, idle⟩⟩
      · simp [protocol]
      · simp [protocol, Ne.symm distinct, idle]
  | _ => exact Or.inl ⟨rfl, Iff.rfl⟩

/-! ## All users together -/

section Users

variable (commands : Pid → Option (Action × Lock.Statics))
variable (taker : Pid → Pid)

/-- The process runs an `on`. -/
def Takes (process : Pid) : Prop :=
  ∃ timeout statics, commands process = some (.on timeout, statics)

/-- The process runs an `off`. -/
def Gives (process : Pid) : Prop :=
  ∃ statics, commands process = some (.off, statics)

/-- Every `off` stands for an `on` of its own. -/
structure Paired : Prop where
  moves : ∀ process command, commands process = some command →
    Moves command.1
  takes : ∀ process, Gives commands process →
    Takes commands (taker process)
  single : ∀ process other, Gives commands process → Gives commands other →
    taker process = taker other → process = other

variable (paths : KeyPaths) (key : Key)

/-- A process has ended its command with a code, and is gone. -/
def Returned (process : Pid) (code : Int)
    (pool : Pool signature Pid Store Int) : Prop :=
  pool.procs process = none ∧ ∃ command, commands process = some command ∧
    Program.Ends (command.1.run paths command.2 key)
      (Pool.eventsOf process pool.log) code

/-- The run condition that an `off` works only once its `on` has returned
0. -/
def Orderly (pool : Pool signature Pid Store Int) :
    Label signature Pid → Prop
  | .call process _ => Gives commands process →
      Returned commands paths key (taker process) 0 pool
  | _ => True

/-- A process has taken a unit of a set, or given one back. -/
def Moved (id : IpcId) (log : List (Entry signature Pid Store))
    (process : Pid) : Prop :=
  ∃ entry ∈ log, ∃ event, entry.label = .call process event ∧
    change id event ≠ 0

/-- Those hold a unit who have taken one that nobody has given back for
them. -/
def Holds (moved : Pid → Prop) (process : Pid) : Prop :=
  Takes commands process ∧ moved process ∧
    ∀ other, Gives commands other → taker other = process → ¬ moved other

end Users

section Holding

variable {commands : Pid → Option (Action × Lock.Statics)}
variable {taker : Pid → Pid} {moved moved' : Pid → Prop} {process : Pid}
variable {holders : Finset Pid}

theorem takes_not_gives (takes : Takes commands process) :
    ¬ Gives commands process := by
  rintro ⟨statics, gives⟩
  rcases takes with ⟨timeout, statics', takes⟩
  rw [takes] at gives
  cases gives

theorem holds_congr (same : ∀ other, moved' other ↔ moved other) :
    Holds commands taker moved' process ↔
      Holds commands taker moved process := by
  simp only [Holds, same]

/-- An `on` that takes a unit joins the holders. -/
theorem holds_take (takes : Takes commands process)
    (moves : ∀ other, moved' other ↔ moved other ∨ other = process)
    (kept : ∀ other, Gives commands other → taker other = process →
      ¬ moved other)
    (holds : ∀ other, other ∈ holders ↔ Holds commands taker moved other)
    (other : Pid) :
    other ∈ insert process holders ↔ Holds commands taker moved' other := by
  rw [Finset.mem_insert, holds]
  constructor
  · rintro (rfl | ⟨takes', has, back⟩)
    · refine ⟨takes, (moves other).mpr (Or.inr rfl), ?_⟩
      intro giver gives isTaker given
      rcases (moves giver).mp given with given | rfl
      · exact kept giver gives isTaker given
      · exact takes_not_gives takes gives
    · refine ⟨takes', (moves other).mpr (Or.inl has), ?_⟩
      intro giver gives isTaker given
      rcases (moves giver).mp given with given | rfl
      · exact back giver gives isTaker given
      · exact takes_not_gives takes gives
  · rintro ⟨takes', has, back⟩
    rcases (moves other).mp has with has | rfl
    · right
      refine ⟨takes', has, ?_⟩
      intro giver gives isTaker given
      exact back giver gives isTaker ((moves giver).mpr (Or.inl given))
    · exact Or.inl rfl

/-- An `off` that gives a unit back takes its `on` off the holders. -/
theorem holds_give (gives : Gives commands process)
    (moves : ∀ other, moved' other ↔ moved other ∨ other = process)
    (holds : ∀ other, other ∈ holders ↔ Holds commands taker moved other)
    (other : Pid) :
    other ∈ holders.erase (taker process) ↔
      Holds commands taker moved' other := by
  rw [Finset.mem_erase, holds]
  constructor
  · rintro ⟨different, takes, has, back⟩
    refine ⟨takes, (moves other).mpr (Or.inl has), ?_⟩
    intro giver gives' isTaker given
    rcases (moves giver).mp given with given | rfl
    · exact back giver gives' isTaker given
    · exact different isTaker.symm
  · rintro ⟨takes, has, back⟩
    refine ⟨?_, takes, ?_, ?_⟩
    · rintro rfl
      exact back process gives rfl ((moves process).mpr (Or.inr rfl))
    · rcases (moves other).mp has with has | rfl
      · exact has
      · exact absurd gives (takes_not_gives takes)
    · intro giver gives' isTaker given
      exact back giver gives' isTaker ((moves giver).mpr (Or.inl given))

/-- The `on` of an `off` that has given nothing back yet is a holder, if it
has a unit. -/
theorem holds_taker (paired : Paired commands taker)
    (gives : Gives commands process) (has : moved (taker process))
    (unmoved : ¬ moved process) :
    Holds commands taker moved (taker process) := by
  refine ⟨paired.takes process gives, has, ?_⟩
  intro other gives' isTaker given
  rw [paired.single other process gives' gives isTaker] at given
  exact unmoved given

end Holding

/-- The account of the units of a lock and of those who hold them. -/
structure Tally (paths : KeyPaths) (key : Key) (channel : Channel)
    (semaphores : UInt) (commands : Pid → Option (Action × Lock.Statics))
    (taker : Pid → Pid) (mutex : MutexState) (value : Nat)
    (holders : Finset Pid) (pool : Pool signature Pid Store Int)
    (phases : Pid → Phase) : Prop where
  kept : Kept paths key channel semaphores mutex value pool.state phases
  account : value + holders.card = (semaphores.setWidth 16).toNat
  holds : ∀ process, process ∈ holders ↔
    Holds commands taker (Moved channel.user pool.log) process
  moved : ∀ process, (phases process).stage = .moved ↔
    Moved channel.user pool.log process
  live : ∀ process program, pool.procs process = some program →
    ∃ command, commands process = some command ∧
      Follows paths key channel semaphores command.1 (phases process)
        program ∧
      Program.Reaches (command.1.run paths command.2 key)
        (Pool.eventsOf process pool.log) program
  gone : ∀ process, pool.procs process = none →
    (phases process).inside = false
  ended : ∀ process code command, commands process = some command →
    Returned commands paths key process code pool →
      Concludes command.1 (phases process) code
  granted : ∀ process, Gives commands process →
    (phases process).inside = true ∨ (phases process).stage ≠ .idle →
      Returned commands paths key (taker process) 0 pool

section Steps

variable {commands : Pid → Option (Action × Lock.Statics)}
variable {taker : Pid → Pid} {mutex : MutexState} {value : Nat}
variable {holders : Finset Pid} {pool : Pool signature Pid Store Int}
variable {phases : Pid → Phase} {process actor : Pid} {code : Int}
variable {state : Store}

/-- A call changes nothing about those who are gone. -/
theorem returned_call {event : Event signature} {program : Prog Int}
    (running : pool.procs actor ≠ none) :
    Returned commands paths key process code
        (pool.record (.call actor event) state
          (Function.update pool.procs actor (some program))) ↔
      Returned commands paths key process code pool := by
  by_cases same : process = actor
  · subst same
    simp [Returned, running]
  · simp [Returned, Function.update_of_ne same, Pool.eventsOf, Ne.symm same]

/-- The end of a process changes nothing about others who are gone. -/
theorem returned_leave {label : Label signature Pid}
    (ends : label = .leave actor ∨ label = .kill actor)
    (different : process ≠ actor) :
    Returned commands paths key process code
        (pool.record label state (Function.update pool.procs actor none)) ↔
      Returned commands paths key process code pool := by
  rcases ends with rfl | rfl <;>
    simp [Returned, Function.update_of_ne different, Pool.eventsOf]

theorem moved_call {id : IpcId} {event : Event signature}
    {log : List (Entry signature Pid Store)} :
    Moved id (⟨.call actor event, state⟩ :: log) process ↔
      Moved id log process ∨ process = actor ∧ change id event ≠ 0 := by
  constructor
  · rintro ⟨entry, member, event', named, changes⟩
    rcases List.mem_cons.mp member with rfl | earlier
    · cases named
      exact Or.inr ⟨rfl, changes⟩
    · exact Or.inl ⟨entry, earlier, event', named, changes⟩
  · rintro (⟨entry, member, event', named, changes⟩ | ⟨rfl, changes⟩)
    · exact ⟨entry, List.mem_cons_of_mem _ member, event', named, changes⟩
    · exact ⟨_, List.mem_cons_self, event, rfl, changes⟩

theorem moved_leave {id : IpcId} {label : Label signature Pid}
    {log : List (Entry signature Pid Store)}
    (ends : label = .leave actor ∨ label = .kill actor) :
    Moved id (⟨label, state⟩ :: log) process ↔ Moved id log process := by
  constructor
  · rintro ⟨entry, member, event', named, changes⟩
    rcases List.mem_cons.mp member with rfl | earlier
    · rcases ends with rfl | rfl <;> cases named
    · exact ⟨entry, earlier, event', named, changes⟩
  · rintro ⟨entry, member, event', named, changes⟩
    exact ⟨entry, List.mem_cons_of_mem _ member, event', named, changes⟩

namespace Tally

/-- Where an `on` has returned 0 and its `off` has given nothing back, a unit
is in use. -/
theorem short
    (tally : Tally paths key channel semaphores commands taker mutex value
      holders pool phases)
    (paired : Paired commands taker) (gives : Gives commands process)
    (returned : Returned commands paths key (taker process) 0 pool)
    (unmoved : (phases process).stage ≠ .moved) :
    value < (semaphores.setWidth 16).toNat := by
  rcases returned.2 with ⟨command, started, _⟩
  have concludes := tally.ended _ _ _ started returned
  have has := (tally.moved _).mp (concludes.1.mp rfl)
  have member := (tally.holds _).mpr (holds_taker paired gives has
    fun given => unmoved ((tally.moved _).mpr given))
  have some := Finset.card_pos.mpr ⟨_, member⟩
  have account := tally.account
  omega

/-- A call, once its units are accounted for. -/
theorem after_call
    (tally : Tally paths key channel semaphores commands taker mutex value
      holders pool phases)
    {call : Call} {next : call.Answer → Prog Int} {answer : call.Answer}
    {command : Action × Lock.Statics} {mutex' : MutexState} {value' : Nat}
    {holders' : Finset Pid} {phase : Phase}
    (running : pool.procs process = some (.issue call next))
    (started : commands process = some command)
    (orderly : Gives commands process →
      Returned commands paths key (taker process) 0 pool)
    (follows : Follows paths key channel semaphores command.1 phase
      (next answer))
    (kept : Kept paths key channel semaphores mutex' value' state
      (Function.update phases process phase))
    (account : value' + holders'.card = (semaphores.setWidth 16).toNat)
    (stage : phase.stage = .moved ↔ (phases process).stage = .moved ∨
      change channel.user ⟨call, answer⟩ ≠ 0)
    (holds : ∀ other, other ∈ holders' ↔ Holds commands taker
      (Moved channel.user (⟨.call process ⟨call, answer⟩, state⟩ :: pool.log))
      other) :
    Tally paths key channel semaphores commands taker mutex' value' holders'
      (pool.record (.call process ⟨call, answer⟩) state
        (Function.update pool.procs process (some (next answer))))
      (Function.update phases process phase) := by
  have alive : pool.procs process ≠ none := by
    rw [running]
    simp
  constructor
  · exact kept
  · exact account
  · exact holds
  · intro other
    rw [Pool.record_log, moved_call, ← tally.moved other]
    by_cases same : other = process
    · subst same
      simpa using stage
    · simp [same]
  · intro other program runningOther
    by_cases same : other = process
    · subst same
      simp only [Pool.record_procs, Function.update_self,
        Option.some.injEq] at runningOther
      subst runningOther
      rcases tally.live _ _ running with ⟨command', started', _, reaches⟩
      rw [started] at started'
      cases started'
      refine ⟨command, started, by simpa using follows, ?_⟩
      simpa [Pool.eventsOf] using reaches.snoc answer
    · rw [Pool.record_procs, Function.update_of_ne same] at runningOther
      simpa [Function.update_of_ne same, Pool.eventsOf, Ne.symm same] using
        tally.live other program runningOther
  · intro other gone
    by_cases same : other = process
    · subst same
      simp at gone
    · rw [Pool.record_procs, Function.update_of_ne same] at gone
      simpa [Function.update_of_ne same] using tally.gone other gone
  · intro other code command' startedOther returned
    rw [returned_call alive] at returned
    have different : other ≠ process := by
      rintro rfl
      exact alive returned.1
    rw [Function.update_of_ne different]
    exact tally.ended other code command' startedOther returned
  · intro other gives begun
    rw [returned_call alive]
    by_cases same : other = process
    · subst same
      exact orderly gives
    · rw [Function.update_of_ne same] at begun
      exact tally.granted other gives begun

/-- Any call of an orderly run. -/
theorem call
    (tally : Tally paths key channel semaphores commands taker mutex value
      holders pool phases)
    (paired : Paired commands taker)
    (legal : (semaphores.setWidth 16).toNat ≤ SEMVMX)
    {call : Call} {next : call.Answer → Prog Int} {answer : call.Answer}
    (running : pool.procs process = some (.issue call next))
    (exec : granting.exec process call pool.state answer state)
    (orderly : Gives commands process →
      Returned commands paths key (taker process) 0 pool) :
    ∃ mutex' value' holders' phases',
      Tally paths key channel semaphores commands taker mutex' value' holders'
        (pool.record (.call process ⟨call, answer⟩) state
          (Function.update pool.procs process (some (next answer))))
        phases' := by
  rcases tally.live _ _ running with ⟨command, started, follows, _⟩
  have distinct := tally.kept.stands.distinct
  have account := tally.account
  have isOff : command.1 = .off → Gives commands process := by
    intro gives
    exact ⟨command.2, by rw [started, ← gives]⟩
  have effect := tally.kept.effect legal (by omega)
    (fun gives => tally.short paired (isOff gives) (orderly (isOff gives)))
    follows.1 exec
  rcases effect.kept with ⟨mutex', value', kept, changed⟩
  have follows' := follows.2 answer effect.relied
  rcases @moves_unit paths key channel semaphores command.1 (phases process)
      call answer distinct follows.1 with
    ⟨unchanged, stage⟩ | ⟨unmoved, isMoved, moves⟩
  · refine ⟨mutex', value', holders, _, tally.after_call running started orderly
      follows' kept (by omega) (by simp [stage, unchanged]) ?_⟩
    intro other
    rw [tally.holds, holds_congr]
    intro other
    simp [moved_call, unchanged]
  · have changes : change channel.user ⟨call, answer⟩ ≠ 0 := by
      rcases moves with ⟨_, changes⟩ | ⟨_, changes⟩ <;> simp [changes]
    have moves' : ∀ other,
        Moved channel.user (⟨.call process ⟨call, answer⟩, state⟩ :: pool.log)
          other ↔ Moved channel.user pool.log other ∨ other = process := by
      intro other
      simp [moved_call, changes]
    have stage : ((protocol paths key channel semaphores command.1).next
        (phases process) call answer).stage = .moved ↔
          (phases process).stage = .moved ∨
            change channel.user ⟨call, answer⟩ ≠ 0 := by
      simp [isMoved, changes]
    rcases moves with ⟨⟨timeout, takes⟩, isOne⟩ | ⟨gives, isOne⟩
    · have takes : Takes commands process :=
        ⟨timeout, command.2, by rw [started, ← takes]⟩
      have fresh : process ∉ holders := by
        rw [tally.holds]
        exact fun holds => unmoved ((tally.moved _).mpr holds.2.1)
      refine ⟨mutex', value', insert process holders, _, tally.after_call
        running started orderly follows' kept ?_ stage
        (holds_take takes moves' ?_ tally.holds)⟩
      · rw [Finset.card_insert_of_notMem fresh]
        omega
      · -- Its `off` has not begun, since it has not returned.
        rintro other gives rfl given
        have begun := (tally.moved other).mpr given
        have returned := tally.granted other gives (Or.inr (by simp [begun]))
        rw [returned.1] at running
        cases running
    · have gives := isOff gives
      have returned := orderly gives
      rcases returned.2 with ⟨taking, startedTaking, _⟩
      have has := (tally.moved _).mp
        ((tally.ended _ _ _ startedTaking returned).1.mp rfl)
      have member := (tally.holds _).mpr (holds_taker paired gives has
        fun given => unmoved ((tally.moved _).mpr given))
      refine ⟨mutex', value', holders.erase (taker process), _,
        tally.after_call running started orderly follows' kept ?_ stage
          (holds_give gives moves' tally.holds)⟩
      rw [Finset.card_erase_of_mem member]
      have some := Finset.card_pos.mpr ⟨_, member⟩
      omega

/-- The end of a process, by itself or not. -/
theorem leave
    (tally : Tally paths key channel semaphores commands taker mutex value
      holders pool phases)
    (legal : (semaphores.setWidth 16).toNat ≤ SEMVMX)
    {label : Label signature Pid} {program : Prog Int}
    (ends : label = .leave process ∨ label = .kill process)
    (running : pool.procs process = some program) :
    ∃ mutex' phases',
      Tally paths key channel semaphores commands taker mutex' value holders
        (pool.record label (pool.state.leave process)
          (Function.update pool.procs process none)) phases' := by
  have account := tally.account
  rcases tally.live _ _ running with ⟨command, started, follows, reaches⟩
  have silent : ∀ other, Pool.eventsOf other
      (⟨label, pool.state.leave process⟩ :: pool.log) =
        Pool.eventsOf other pool.log := by
    rcases ends with rfl | rfl <;> exact fun _ => rfl
  have stage : ∀ other, (Function.update phases process
      { stage := (phases process).stage } other).stage =
        (phases other).stage := by
    intro other
    by_cases same : other = process
    · subst same
      simp
    · rw [Function.update_of_ne same]
  refine ⟨_, _, tally.kept.leave (by omega) (phases process).stage, account,
    ?_, ?_, ?_, ?_, ?_, ?_⟩
  · intro other
    rw [tally.holds, holds_congr]
    exact fun _ => (moved_leave ends).symm
  · intro other
    rw [stage, tally.moved]
    exact (moved_leave ends).symm
  · intro other program runningOther
    by_cases same : other = process
    · subst same
      simp at runningOther
    · rw [Pool.record_procs, Function.update_of_ne same] at runningOther
      simpa [Function.update_of_ne same, silent] using
        tally.live other program runningOther
  · intro other gone
    by_cases same : other = process
    · subst same
      simp
    · rw [Pool.record_procs, Function.update_of_ne same] at gone
      simpa [Function.update_of_ne same] using tally.gone other gone
  · intro other code command' startedOther returned
    rw [Concludes, stage]
    by_cases same : other = process
    · subst same
      rw [started] at startedOther
      cases startedOther
      rcases returned.2 with ⟨command', started', finished⟩
      rw [started] at started'
      cases started'
      rw [Pool.record_log, silent] at finished
      rw [reaches.ended finished] at follows
      exact follows.2
    · rw [returned_leave ends same] at returned
      exact tally.ended other code command' startedOther returned
  · intro other gives begun
    rw [stage] at begun
    have began : (phases other).inside = true ∨
        (phases other).stage ≠ .idle := by
      rcases begun with inside | begun
      · by_cases same : other = process
        · subst same
          simp at inside
        · rw [Function.update_of_ne same] at inside
          exact Or.inl inside
      · exact Or.inr begun
    have returned := tally.granted other gives began
    have different : taker other ≠ process := by
      rintro rfl
      rw [returned.1] at running
      cases running
    exact (returned_leave ends different).mpr returned

end Tally

end Steps

/-! ## The result -/

section Runs

variable {commands : Pid → Option (Action × Lock.Statics)}
variable {taker : Pid → Pid} {store : Store}
variable {pool : Pool signature Pid Store Int}

/-- A lock stands, with a segment of its full size and its mutex free. -/
structure Ready (paths : KeyPaths) (key : Key) (channel : Channel)
    (semaphores : UInt) (store : Store) : Prop where
  stands : Standing paths key channel semaphores
    (semaphores.setWidth 16).toNat store
  free : Represents channel.mutex .free store
  roomy : ∃ segment, store.shms channel.segment = some segment ∧
    segment.size = 16

/-- What `create` leaves behind, if it succeeds. -/
theorem ready_of_created {after : Store} {creator : Pid}
    {events : List (Event signature)} (vacant : Vacant paths key store)
    (created : Program.Runs granting creator
      (Lock.create paths key semaphores 0) store events 0 after) :
    ∃ channel, (semaphores.setWidth 16).toNat ≤ SEMVMX ∧
      Ready paths key channel semaphores (after.leave creator) := by
  rcases standing_of_created vacant created with ⟨_, legal, _⟩
  rw [← bind_pure (Lock.create paths key semaphores 0)] at created
  have delivers : Program.Delivers granting creator (fun _ => False)
      (Lock.create paths key semaphores 0 >>= pure) store
      fun _ final => Ready paths key (.next paths key store) semaphores
        (final.leave creator) := by
    apply create_vacant vacant legal
    intro base final ctime _ stands _ _
    constructor
    · exact (Standing.made stands).leave legal
    · exact stands.mutex.leave
    · let segment := (Contents.created creator ctime semaphores 0).segment
      have found : (final.leave creator).shms
          (Channel.next paths key store).segment = some { segment with
            attached := segment.attached.filter (· ≠ creator) } := by
        simp [Store.leave, stands.segment, segment, Store.keepMapped,
          stands.kept]
      exact ⟨_, found, rfl⟩
  exact ⟨_, legal, delivers.runs created (by simp)⟩

/-- Before the first call nobody holds anything. -/
theorem Tally.opening (paired : Paired commands taker)
    (ready : Ready paths key channel semaphores store) :
    Tally paths key channel semaphores commands taker .free
      (semaphores.setWidth 16).toNat ∅ (opening paths key commands store)
      fun _ => {} := by
  have unmoved : ∀ process, ¬ Moved channel.user
      (Counting.opening paths key commands store).log process := by
    rintro process ⟨entry, member, _⟩
    cases member
  constructor
  · constructor
    · exact ready.stands
    · exact ⟨ready.free, by simp, by simp⟩
    · exact Or.inl rfl
    · rcases ready.roomy with ⟨segment, found, size⟩
      exact ⟨segment, found, size, by simp⟩
  · simp
  · intro process
    simp only [Finset.notMem_empty, false_iff]
    exact fun holds => unmoved process holds.2.1
  · intro process
    simpa using unmoved process
  · intro process program running
    rcases Option.map_eq_some_iff.mp running with ⟨command, started, rfl⟩
    exact ⟨command, started, follows_run (paired.moves _ _ started)
      ready.stands.distinct command.2, .here _⟩
  · intro process _
    rfl
  · rintro process code command started ⟨gone, _⟩
    simp [Counting.opening, started] at gone
  · intro process _ begun
    simp at begun

/-- The units are accounted for in every orderly run. -/
theorem tally_reach (paired : Paired commands taker)
    (legal : (semaphores.setWidth 16).toNat ≤ SEMVMX)
    (ready : Ready paths key channel semaphores store)
    (reach : Pool.Reach granting (Orderly commands taker paths key)
      (opening paths key commands store) pool) :
    ∃ mutex value holders phases, Tally paths key channel semaphores commands
      taker mutex value holders pool phases := by
  induction reach with
  | start => exact ⟨_, _, _, _, Tally.opening paired ready⟩
  | step before step fine ih =>
      rcases ih with ⟨mutex, value, holders, phases, tally⟩
      cases step with
      | call running exec =>
          exact tally.call paired legal running exec fine
      | @fork parent child call rest here there running fresh forks =>
          rcases tally.live _ _ running with ⟨command, _, follows, _⟩
          cases call with
          | fork => exact follows.1.elim
          | _ => cases forks
      | leave ended =>
          rcases tally.leave legal (Or.inl rfl) ended with
            ⟨mutex', phases', left⟩
          exact ⟨_, _, _, _, left⟩
      | kill running =>
          rcases tally.leave legal (Or.inr rfl) running with
            ⟨mutex', phases', left⟩
          exact ⟨_, _, _, _, left⟩

/-- The value of a lock whose units are accounted for. -/
theorem Tally.read {mutex : MutexState} {value : Nat} {holders : Finset Pid}
    {phases : Pid → Phase}
    (tally : Tally paths key channel semaphores commands taker mutex value
      holders pool phases) :
    pool.state.findSem (paths.semKey key) = some channel.user ∧
      pool.state.semctlGetval channel.user 0 = .ok value := by
  rcases tally.kept.stands.value with ⟨ctime, found⟩
  refine ⟨tally.kept.stands.user, ?_⟩
  rw [Store.semctlGetval, found]
  rfl

end Runs

/--
Where every `off` waits for its `on` to have returned 0, the value of the lock
and the number of those who hold a unit always make up its size; an `on`
returns 0 exactly if it has taken a unit, and an `off` always gives one back
and returns 0.
-/
theorem units_held (paths : KeyPaths) (key : Key) (semaphores : UInt)
    {store after : Store} {creator : Pid} {events : List (Event signature)}
    (vacant : Vacant paths key store)
    (created : Program.Runs granting creator
      (Lock.create paths key semaphores 0) store events 0 after)
    {commands : Pid → Option (Action × Lock.Statics)} {taker : Pid → Pid}
    (paired : Paired commands taker) {pool : Pool signature Pid Store Int}
    (reach : Pool.Reach granting (Orderly commands taker paths key)
      (opening paths key commands (after.leave creator)) pool) :
    ∃ id value, ∃ holders : Finset Pid,
      pool.state.findSem (paths.semKey key) = some id ∧
      pool.state.semctlGetval id 0 = .ok value ∧
      value + holders.card = (semaphores.setWidth 16).toNat ∧
      (∀ process, process ∈ holders ↔
        Holds commands taker (Moved id pool.log) process) ∧
      ∀ process code, Returned commands paths key process code pool →
        (code = 0 ↔ Moved id pool.log process) ∧
          (Gives commands process → code = 0) := by
  rcases ready_of_created vacant created with ⟨channel, legal, ready⟩
  rcases tally_reach paired legal ready reach with
    ⟨mutex, value, holders, phases, tally⟩
  refine ⟨channel.user, value, holders, tally.read.1, tally.read.2,
    tally.account, tally.holds, ?_⟩
  intro process code returned
  rcases returned.2 with ⟨command, started, _⟩
  have concludes := tally.ended process code command started returned
  constructor
  · rw [concludes.1, tally.moved]
  · rintro ⟨statics, gives⟩
    rw [gives] at started
    cases started
    exact concludes.2 rfl

/-- One user: process 2 runs the `on`, process 3 the `off`. -/
def oneUser : Pid → Option (Action × Lock.Statics)
  | 2 => some (.on 0, .initial)
  | 3 => some (.off, .initial)
  | _ => none

theorem oneUser_gives {process : Pid} (gives : Gives oneUser process) :
    process = 3 := by
  rcases gives with ⟨statics, started⟩
  unfold oneUser at started
  split at started
  · cases started
  · rfl
  · cases started

theorem oneUser_paired : Paired oneUser fun _ => 2 where
  moves := by
    intro process command started
    unfold oneUser at started
    split at started
    · cases started
      exact Or.inr ⟨0, rfl⟩
    · cases started
      exact Or.inl rfl
    · cases started
  takes := fun _ _ => ⟨0, .initial, rfl⟩
  single := by
    intro process other gives gives' _
    rw [oneUser_gives gives, oneUser_gives gives']

theorem oneUser_outside (process : Pid)
    (outsider : process ∉ ([2, 3] : List Pid)) : oneUser process = none := by
  unfold oneUser
  split
  · exact absurd (by simp) outsider
  · exact absurd (by simp) outsider
  · rfl

theorem oneUser_confined (store : Store) (process : Pid)
    (outsider : process ∉ ([2, 3] : List Pid)) :
    (opening KeyPaths.devtmpfs 5 oneUser store).procs process = none := by
  simp [opening, oneUser_outside process outsider]

/-- The check that the `off` does nothing. -/
def offWaits (_ : Pool signature Pid Store Int) : Label signature Pid → Bool
  | .call process _ => decide (process ≠ 3)
  | .kill _ => false
  | _ => true

theorem offWaits_sound {members : List Pid}
    (pool : Pool signature Pid Store Int) (label : Label signature Pid)
    (_ : ∀ process, process ∉ members → pool.procs process = none)
    (passed : offWaits pool label = true) :
    Orderly oneUser (fun _ => 2) KeyPaths.devtmpfs 5 pool label := by
  cases label with
  | call process event =>
      intro gives
      rw [oneUser_gives gives] at passed
      cases passed
  | _ => trivial

/-- The `on` has taken the only unit. -/
theorem units_held_taken :
    ∃ pool : Pool signature Pid Store Int, ∃ id value,
      ∃ holders : Finset Pid, value = 0 ∧ value + holders.card = 1 ∧
        ∀ process, process ∈ holders ↔
          Holds oneUser (fun _ => 2) (Moved id pool.log) process := by
  have computed : (alone 1 {} (Lock.create KeyPaths.devtmpfs 5 1 0)
      (.empty 0)).any (fun run => decide (run.2.1 = 0) &&
        (follow offWaits (turns [(2, 20)])
          (opening KeyPaths.devtmpfs 5 oneUser (run.2.2.leave 1))).any
            fun pool => decide
              (pool.state.findSem (KeyPaths.devtmpfs.semKey 5) =
                  some firstSet ∧
                (pool.state.semctlGetval firstSet 0).toOption = some 0)) =
        true := by
    decide
  rcases alone_run granted_default computed with
    ⟨events, code, after, created, property⟩
  simp only [Bool.and_eq_true, decide_eq_true_eq] at property
  rcases property with ⟨rfl, property⟩
  rcases follow_reaches offWaits_sound (oneUser_confined _) turns_grants
    property with ⟨pool, reach, found⟩
  rcases of_decide_eq_true found with ⟨named, read⟩
  rcases units_held KeyPaths.devtmpfs 5 1 (vacant_empty 0) created
    oneUser_paired reach with
      ⟨id, value, holders, named', read', account, holds, _⟩
  rw [named] at named'
  cases named'
  rw [read'] at read
  exact ⟨pool, firstSet, value, holders, Option.some.inj read, account, holds⟩

end Atomicles.Users
