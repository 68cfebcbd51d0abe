import Atomicles.Lock.Creation
import Atomicles.Lock.Client

/-!
# The units of a lock

Any number of `lock on` and `lock off` commands work on one key.  Whatever the
order of their calls, the value of the semaphore is its size less the units
taken and not given back.  It stays within the size as long as no `off` adds
its unit on the strength of a value that others have outdated: between the
`GETVAL` and the `semop` of `Semaphore$unlock` other `off` commands may give
back every unit that was seen as used.
-/

namespace Atomicles.Counting

open Interaction Client

/-! ## What the log says of a set -/

/-- A successful operation by `semOp` on the set `id`. -/
def operates (id : IpcId) (semOp : Int) : Event signature → Bool
  | ⟨.semop id' _ semOp' _ _, (outcome : Except Errno Unit)⟩ =>
      decide (id' = id ∧ semOp' = semOp) && outcome.isOk
  | _ => false

/-- The number of successful operations by `semOp` on the set `id`. -/
def operations (id : IpcId) (semOp : Int) :
    List (Entry signature Pid Store) → Nat
  | [] => 0
  | ⟨.call _ event, _⟩ :: earlier =>
      operations id semOp earlier + if operates id semOp event then 1 else 0
  | _ :: earlier => operations id semOp earlier

/-- The successful `on` commands: each takes its unit in one operation. -/
def ons (id : IpcId) : List (Entry signature Pid Store) → Nat :=
  operations id (-1)

/-- The successful `off` commands. -/
def offs (id : IpcId) : List (Entry signature Pid Store) → Nat :=
  operations id 1

/-- What an event adds to the value of a set. -/
def change (id : IpcId) (event : Event signature) : Int :=
  (if operates id 1 event then 1 else 0) -
    if operates id (-1) event then 1 else 0

/-- The value that an event reads from a set. -/
def valueRead (id : IpcId) : Event signature → Option Nat
  | ⟨.semctlGetval id' _, (value : Except Errno Nat)⟩ =>
      if id' = id then value.toOption else none
  | _ => none

/-- The value a process last read from a set, and the units that were given
back since less the units that were taken. -/
def lastRead (id : IpcId) (process : Pid) :
    List (Entry signature Pid Store) → Option (Nat × Int)
  | [] => none
  | ⟨.call actor event, _⟩ :: earlier =>
      let before := (lastRead id process earlier).map fun read =>
        (read.1, read.2 + change id event)
      if actor = process then
        ((valueRead id event).map fun value => (value, 0)).or before
      else before
  | _ :: earlier => lastRead id process earlier

variable (paths : KeyPaths) (key : Key)

/-- The value of the lock of a key is within its size, and it is the size less
the units taken and not given back. -/
def Counted (size : Nat) (pool : Pool signature Pid Store Int) : Prop :=
  ∃ id value, pool.state.findSem (paths.semKey key) = some id ∧
    pool.state.semctlGetval id 0 = .ok value ∧ value ≤ size ∧
      (value : Int) = size - ((ons id pool.log : Int) - offs id pool.log)

/-- A step by which an `off` gives back a unit although others have, since it
read the value, given back more units than were taken, and with them all that
it saw as used. -/
def Stale (size : Nat) (pool : Pool signature Pid Store Int) :
    Label signature Pid → Prop
  | .call process event =>
      ∃ id, pool.state.findSem (paths.semKey key) = some id ∧
        operates id 1 event = true ∧ ∃ value net,
          lastRead id process pool.log = some (value, net) ∧
            0 < net ∧ (size : Int) ≤ value + net
  | _ => False

/-- The run condition that no `off` acts on an outdated value. -/
def Fresh (size : Nat) (pool : Pool signature Pid Store Int)
    (label : Label signature Pid) : Prop :=
  ¬ Stale paths key size pool label

/-- The commands started on a key. -/
def opening (commands : Pid → Option (Action × Lock.Statics))
    (store : Store) : Pool signature Pid Store Int where
  state := store
  procs process := (commands process).map fun command =>
    command.1.run paths command.2 key
  log := []

/-! ## A lock that is not removed -/

/-- The objects of a lock that never expires, with `value` units left. -/
structure Standing (channel : Channel) (semaphores : UInt) (value : Nat)
    (store : Store) : Prop where
  user : store.findSem (paths.semKey key) = some channel.user
  mutex : store.findSem (paths.semKey (key + 128)) = some channel.mutex
  segment : store.findShm (paths.shmKey key) = some channel.segment
  value : ∃ ctime, store.sems channel.user =
    some ⟨[value], fun _ _ => 0, ctime⟩
  size : wordAt store (.mapped channel.segment) 0 = some semaphores
  flag : wordAt store (.mapped channel.segment) 1 = some 0

/-- What a command can have learnt of such a lock. -/
structure Knows (channel : Channel) (semaphores : UInt) (learnt : Learnt) :
    Prop where
  users : ∀ id ∈ learnt.users, id = channel.user
  mutexes : ∀ id ∈ learnt.mutexes, id = channel.mutex
  segments : ∀ id ∈ learnt.segments, id = channel.segment
  size : ∀ word, learnt.size = some word → word = semaphores
  flag : ∀ word, learnt.flag = some word → word = 0
  delta : learnt.delta = none
  sound : learnt.failed = false

/-- The commands that take and give back units. -/
def Moves (action : Action) : Prop :=
  action = .off ∨ ∃ timeout, action = .on timeout

variable {paths key} {channel : Channel} {semaphores : UInt} {value : Nat}
variable {store after : Store} {process : Pid} {action : Action}
variable {statics : Lock.Statics} {learnt : Learnt} {call : Call}
variable {answer : call.Answer}

theorem Moves.keeps (moves : Moves action)
    (knows : Knows channel semaphores learnt) :
    ¬ MayRemove action statics learnt := by
  rintro (deletes | ⟨_, ⟨delta, known, _⟩ | ⟨failed, _⟩⟩)
  · rcases moves with gives | ⟨timeout, takes⟩
    · rw [gives] at deletes
      cases deletes
    · rw [takes] at deletes
      cases deletes
  · rw [knows.delta] at known
    cases known
  · rw [knows.sound] at failed
    cases failed

theorem Moves.creates (moves : Moves action) : ¬ MayCreate action := by
  rintro ⟨semaphores, expire, rfl⟩
  rcases moves with gives | ⟨timeout, takes⟩
  · cases gives
  · cases takes

namespace Knows

theorem user (knows : Knows channel semaphores learnt) :
    Knows channel semaphores
      { learnt with users := channel.user :: learnt.users } :=
  { knows with users := by simpa using knows.users }

theorem mutex (knows : Knows channel semaphores learnt) :
    Knows channel semaphores
      { learnt with mutexes := channel.mutex :: learnt.mutexes } :=
  { knows with mutexes := by simpa using knows.mutexes }

theorem segment (knows : Knows channel semaphores learnt) :
    Knows channel semaphores
      { learnt with segments := channel.segment :: learnt.segments } :=
  { knows with segments := by simpa using knows.segments }

end Knows

namespace Standing

theorem distinct (stands : Standing paths key channel semaphores value store) :
    channel.mutex ≠ channel.user := by
  intro same
  have users := (Store.findSem_eq_some_iff.mp stands.user).1
  have mutexes := (Store.findSem_eq_some_iff.mp stands.mutex).1
  rw [same, users] at mutexes
  exact paths.semKey_mutex_ne key mutexes.symm

theorem of_same (stands : Standing paths key channel semaphores value store)
    (sems : SameSems store after) (shms : SameShms store after) :
    Standing paths key channel semaphores value after where
  user := by
    rw [Store.findSem, sems.1, sems.2]
    exact stands.user
  mutex := by
    rw [Store.findSem, sems.1, sems.2]
    exact stands.mutex
  segment := by
    rw [Store.findShm, shms.1, shms.2]
    exact stands.segment
  value := by
    rw [sems.1]
    exact stands.value
  size := by
    rw [Store.wordAt_of_same shms]
    exact stands.size
  flag := by
    rw [Store.wordAt_of_same shms]
    exact stands.flag

/-- Another value of the user's semaphore. -/
theorem setUser {ctime : Time} {value' : Nat}
    (stands : Standing paths key channel semaphores value store) :
    Standing paths key channel semaphores value'
      (store.setSem channel.user
        (some ⟨[value'], fun _ _ => 0, ctime⟩)) where
  user := by
    rcases Store.findSem_eq_some_iff.mp stands.user with ⟨named, last, _⟩
    exact Store.findSem_eq_some_iff.mpr ⟨named, last, by simp⟩
  mutex := by
    rcases Store.findSem_eq_some_iff.mp stands.mutex with
      ⟨named, last, present⟩
    refine Store.findSem_eq_some_iff.mpr ⟨named, last, ?_⟩
    simpa [Function.update_of_ne stands.distinct] using present
  segment := stands.segment
  value := ⟨ctime, by simp⟩
  size := stands.size
  flag := stands.flag

/-- Another value of the mutex. -/
theorem setMutex {set : SemSet}
    (stands : Standing paths key channel semaphores value store) :
    Standing paths key channel semaphores value
      (store.setSem channel.mutex (some set)) where
  user := by
    rcases Store.findSem_eq_some_iff.mp stands.user with ⟨named, last, present⟩
    refine Store.findSem_eq_some_iff.mpr ⟨named, last, ?_⟩
    simpa [Function.update_of_ne (Ne.symm stands.distinct)] using present
  mutex := by
    rcases Store.findSem_eq_some_iff.mp stands.mutex with ⟨named, last, _⟩
    exact Store.findSem_eq_some_iff.mpr ⟨named, last, by simp⟩
  segment := stands.segment
  value := by
    simpa [Function.update_of_ne (Ne.symm stands.distinct)] using stands.value
  size := stands.size
  flag := stands.flag

/-- Other mappings of the segment. -/
theorem setMappings {segment : Segment} {attached : List Pid}
    (stands : Standing paths key channel semaphores value store)
    (found : store.shms channel.segment = some segment) :
    Standing paths key channel semaphores value
      (store.setShm channel.segment (some { segment with attached })) where
  user := stands.user
  mutex := stands.mutex
  segment := by
    rcases Store.findShm_eq_some_iff.mp stands.segment with
      ⟨named, last, segment', found', kept⟩
    rw [found] at found'
    cases found'
    exact Store.findShm_eq_some_iff.mpr
      ⟨named, last, { segment with attached }, by simp, kept⟩
  value := stands.value
  size := by
    have read := stands.size
    simpa [wordAt, found, Segment.word] using read
  flag := by
    have read := stands.flag
    simpa [wordAt, found, Segment.word] using read

/-- The end of a process changes nothing about the lock. -/
theorem leave (stands : Standing paths key channel semaphores value store)
    (small : value ≤ SEMVMX) :
    Standing paths key channel semaphores value (store.leave process) := by
  rcases stands.value with ⟨ctime, found⟩
  rcases Store.findShm_eq_some_iff.mp stands.segment with
    ⟨segmentNamed, segmentLast, segment, mapped, kept⟩
  have segmentStays : (store.leave process).shms channel.segment =
      some { segment with
        attached := segment.attached.filter (· ≠ process) } := by
    simp [Store.leave, mapped, Store.keepMapped, kept]
  constructor
  · rcases Store.findSem_eq_some_iff.mp stands.user with ⟨named, last, present⟩
    refine Store.findSem_eq_some_iff.mpr ⟨named, last, ?_⟩
    simpa [Store.leave] using present
  · rcases Store.findSem_eq_some_iff.mp stands.mutex with ⟨named, last, present⟩
    refine Store.findSem_eq_some_iff.mpr ⟨named, last, ?_⟩
    simpa [Store.leave] using present
  · exact Store.findShm_eq_some_iff.mpr
      ⟨segmentNamed, segmentLast, _, segmentStays, kept⟩
  · refine ⟨ctime, ?_⟩
    simp [Store.leave, found, Store.adjusted, small]
  · have read := stands.size
    simpa [wordAt, mapped, segmentStays, Segment.word] using read
  · have read := stands.flag
    simpa [wordAt, mapped, segmentStays, Segment.word] using read

end Standing

/-- An operation on the user's set that succeeds changes its value as it
says; one that fails changes nothing. -/
theorem Standing.operate {semOp : Int} {nowait underWay : Bool}
    {outcome : Except Errno Unit}
    (stands : Standing paths key channel semaphores value store)
    (served : store.semop process channel.user 0 semOp false nowait underWay =
      some (outcome, after)) :
    (outcome.isOk = true ∧ 0 ≤ (value : Int) + semOp ∧
      (value : Int) + semOp ≤ SEMVMX ∧
      Standing paths key channel semaphores ((value : Int) + semOp).toNat
        after) ∨
    (outcome.isOk = false ∧ after = store) := by
  rcases stands.value with ⟨ctime, found⟩
  unfold Store.semop at served
  rw [found] at served
  simp only [List.getElem?_cons_zero] at served
  split at served
  · split at served
    · cases served
      exact Or.inr ⟨rfl, rfl⟩
    · cases served
  · split at served
    · cases served
      exact Or.inr ⟨rfl, rfl⟩
    · rename_i enough small
      simp only [Bool.false_and, Bool.false_eq_true, if_false,
        List.set_cons_zero, Option.some.injEq, Prod.mk.injEq] at served
      rcases served with ⟨rfl, rfl⟩
      exact Or.inl ⟨rfl, Int.not_lt.mp enough, Int.not_lt.mp small,
        stands.setUser⟩

/-- An operation on the mutex leaves the user's set alone. -/
theorem Standing.operateMutex {semNum : Nat} {semOp : Int}
    {undo nowait underWay : Bool} {outcome : Except Errno Unit}
    (stands : Standing paths key channel semaphores value store)
    (served : store.semop process channel.mutex semNum semOp undo nowait
      underWay = some (outcome, after)) :
    Standing paths key channel semaphores value after := by
  unfold Store.semop at served
  split at served
  · cases served
    exact stands
  · split at served
    · cases served
      exact stands
    · split at served
      · split at served
        · cases served
          exact stands
        · cases served
      · split at served
        · cases served
          exact stands
        · split at served
          · cases served
            exact stands
          · cases served
            exact stands.setMutex

/-! ## A call of a command -/

/-- What a call of a command on a standing lock does: the answer can be relied
on, nothing wrong is learnt, and only an operation on the user's set changes
its value. -/
structure Effect (paths : KeyPaths) (key : Key) (channel : Channel)
    (semaphores : UInt) (value : Nat) (action : Action)
    (statics : Lock.Statics) (learnt : Learnt) (call : Call)
    (answer : call.Answer) (after : Store) : Prop where
  relied : (protocol paths key action statics).answer learnt call answer
  knows : Knows channel semaphores (learn paths key learnt call answer)
  stands : ∃ value', Standing paths key channel semaphores value' after ∧
    (value' : Int) = value + change channel.user ⟨call, answer⟩ ∧
      (value ≤ SEMVMX → value' ≤ SEMVMX)
  read : ∀ known, valueRead channel.user ⟨call, answer⟩ = some known →
    known = value
  learns : ∀ known, (learn paths key learnt call answer).value = some known →
    valueRead channel.user ⟨call, answer⟩ = some known ∨
      valueRead channel.user ⟨call, answer⟩ = none ∧
        learnt.value = some known

section Calls

variable (stands : Standing paths key channel semaphores value store)
variable (knows : Knows channel semaphores learnt)

include stands

/-- A call that leaves all objects as they are. -/
theorem Effect.spared (spares : call.sparesSems = true)
    (spares' : call.sparesShms = true)
    (exec : granting.exec process call store answer after)
    (relied : (protocol paths key action statics).answer learnt call answer)
    (knows : Knows channel semaphores (learn paths key learnt call answer))
    (valueKept : (learn paths key learnt call answer).value = learnt.value)
    (unchanged : change channel.user ⟨call, answer⟩ = 0)
    (unread : valueRead channel.user ⟨call, answer⟩ = none) :
    Effect paths key channel semaphores value action statics learnt call answer
      after where
  relied := relied
  knows := knows
  stands := by
    refine ⟨value, ?_, ?_, id⟩
    · exact stands.of_same (exec_sameSems spares exec)
        (exec_sameShms spares' exec)
    · rw [unchanged]
      exact (Int.add_zero _).symm
  read := by
    intro known same
    rw [unread] at same
    cases same
  learns := by
    intro known same
    rw [valueKept] at same
    exact Or.inr ⟨unread, same⟩

include knows

theorem effect_semget {name : Key} {nsems : Nat} {creat excl : Bool}
    {found : Except Errno IpcId} (moves : Moves action)
    (allowed : (protocol paths key action statics).allow learnt
      (.semget name nsems creat excl))
    (exec : granting.exec process (.semget name nsems creat excl) store found
      after) :
    Effect paths key channel semaphores value action statics learnt
      (.semget name nsems creat excl) found after := by
  rcases allowed with ⟨named, lookup⟩
  have looks : creat = false ∧ nsems = 0 := by
    cases creat with
    | false => exact ⟨rfl, lookup⟩
    | true => exact absurd lookup.1 moves.creates
  rcases looks with ⟨rfl, rfl⟩
  rcases named with rfl | rfl
  · have answered : found = .ok channel.user := by
      rw [granting_semget exec, stands.user]
      rfl
    subst answered
    have learns : learn paths key learnt
        (.semget (paths.semKey key) 0 false excl)
        (Except.ok channel.user : Except Errno IpcId) =
          { learnt with users := channel.user :: learnt.users } :=
      if_pos rfl
    apply Effect.spared stands rfl rfl exec
    · rintro id same
      cases same
      exact (Store.findSem_eq_some_iff.mp stands.user).1
    · rw [learns]
      exact knows.user
    · rw [learns]
    · rfl
    · rfl
  · have answered : found = .ok channel.mutex := by
      rw [granting_semget exec, stands.mutex]
      rfl
    subst answered
    have learns : learn paths key learnt
        (.semget (paths.semKey (key + 128)) 0 false excl)
        (Except.ok channel.mutex : Except Errno IpcId) =
          { learnt with mutexes := channel.mutex :: learnt.mutexes } :=
      if_neg (paths.semKey_mutex_ne key)
    apply Effect.spared stands rfl rfl exec
    · rintro id same
      cases same
      exact (Store.findSem_eq_some_iff.mp stands.mutex).1
    · rw [learns]
      exact knows.mutex
    · rw [learns]
    · rfl
    · rfl

theorem effect_shmget {name : Key} {size : Nat} {creat excl : Bool}
    {found : Except Errno IpcId} (moves : Moves action)
    (allowed : (protocol paths key action statics).allow learnt
      (.shmget name size creat excl))
    (exec : granting.exec process (.shmget name size creat excl) store found
      after) :
    Effect paths key channel semaphores value action statics learnt
      (.shmget name size creat excl) found after := by
  rcases allowed with ⟨rfl, lookup⟩
  have looks : creat = false ∧ size = 0 := by
    cases creat with
    | false => exact ⟨rfl, lookup⟩
    | true => exact absurd lookup.1 moves.creates
  rcases looks with ⟨rfl, rfl⟩
  have answered : found = .ok channel.segment := by
    rw [granting_shmget exec, stands.segment]
    rfl
  subst answered
  apply Effect.spared stands rfl rfl exec
  · rintro id same
    cases same
    exact (Store.findShm_eq_some_iff.mp stands.segment).1
  · exact knows.segment
  · rfl
  · rfl
  · rfl

theorem effect_getval {id : IpcId} {semnum : Nat} {read : Except Errno Nat}
    (allowed : (protocol paths key action statics).allow learnt
      (.semctlGetval id semnum))
    (exec : granting.exec process (.semctlGetval id semnum) store read after) :
    Effect paths key channel semaphores value action statics learnt
      (.semctlGetval id semnum) read after := by
  rcases allowed with ⟨known, rfl⟩
  have same := stands.of_same (exec_sameSems rfl exec) (exec_sameShms rfl exec)
  rcases known with isUser | isMutex
  · have isUser := knows.users id isUser
    subst isUser
    rcases stands.value with ⟨ctime, found⟩
    have answered : read = .ok value := by
      rw [granting_getval exec, Store.semctlGetval, found]
      rfl
    subst answered
    have learns : learn paths key learnt (.semctlGetval channel.user 0)
        (Except.ok value : Except Errno Nat) =
          { learnt with value := some value } :=
      if_pos (Store.findSem_eq_some_iff.mp stands.user).1
    constructor
    · trivial
    · rw [learns]
      exact { knows with }
    · exact ⟨value, same, (Int.add_zero _).symm, fun small => small⟩
    · intro known same
      have reads : (Except.ok value : Except Errno Nat).toOption =
          some known := by
        simpa [valueRead] using same
      exact (Option.some.inj reads).symm
    · intro known same
      rw [learns] at same
      cases same
      exact Or.inl (if_pos rfl)
  · have isMutex := knows.mutexes id isMutex
    subst isMutex
    have mutexName := (Store.findSem_eq_some_iff.mp stands.mutex).1
    have learns : learn paths key learnt (.semctlGetval channel.mutex 0)
        read = learnt := by
      apply if_neg
      rw [mutexName]
      exact paths.semKey_mutex_ne key
    apply Effect.spared stands rfl rfl exec
    · trivial
    · rw [learns]
      exact knows
    · rw [learns]
    · rfl
    · exact if_neg stands.distinct

theorem effect_semop {id : IpcId} {semNum : Nat} {semOp : Int}
    {undo nowait : Bool} {outcome : Except Errno Unit}
    (allowed : (protocol paths key action statics).allow learnt
      (.semop id semNum semOp undo nowait))
    (exec : granting.exec process (.semop id semNum semOp undo nowait) store
      outcome after) :
    Effect paths key channel semaphores value action statics learnt
      (.semop id semNum semOp undo nowait) outcome after := by
  rcases granting_exec_iff.mp exec with ⟨choice, _, _, served⟩
  have stands : Standing paths key channel semaphores value
      (store.advance choice.tick) := stands.of_same ⟨rfl, rfl⟩ ⟨rfl, rfl⟩
  rcases allowed with ⟨rfl, grounds⟩
  cases undo with
  | true =>
      have isMutex := knows.mutexes id grounds
      subst isMutex
      constructor
      · trivial
      · exact knows
      · refine ⟨value, stands.operateMutex served, ?_, fun small => small⟩
        have unchanged : change channel.user
            ⟨.semop channel.mutex 0 semOp true nowait, outcome⟩ = 0 := by
          simp [change, operates, stands.distinct]
        rw [unchanged]
        exact (Int.add_zero _).symm
      · intro known same
        cases same
      · intro known same
        exact Or.inr ⟨rfl, same⟩
  | false =>
      have isUser := knows.users id grounds.1
      subst isUser
      have single : semOp = -1 ∨ semOp = 1 := by
        rcases grounds.2 with ⟨_, takes⟩ | ⟨_, gives, _⟩
        · exact Or.inl takes
        · exact Or.inr gives
      constructor
      · trivial
      · exact { knows with }
      · rcases stands.operate served with
          ⟨isOk, enough, small, moved⟩ | ⟨isError, rfl⟩
        · have changed : change channel.user
              ⟨.semop channel.user 0 semOp false nowait, outcome⟩ = semOp := by
            rcases single with rfl | rfl <;> simp [change, operates, isOk]
          refine ⟨_, moved, ?_, ?_⟩
          · rw [changed]
            omega
          · omega
        · have unchanged : change channel.user
              ⟨.semop channel.user 0 semOp false nowait, outcome⟩ = 0 := by
            simp [change, operates, isError]
          refine ⟨value, stands, ?_, fun small => small⟩
          rw [unchanged]
          exact (Int.add_zero _).symm
      · intro known same
        cases same
      · intro known same
        cases same

theorem effect_shmat {id : IpcId} {mapped : Except Errno Addr}
    (member : id ∈ learnt.segments)
    (exec : granting.exec process (.shmat id) store mapped after) :
    Effect paths key channel semaphores value action statics learnt
      (.shmat id) mapped after := by
  have isSegment := knows.segments id member
  subst isSegment
  rcases granting_exec_iff.mp exec with ⟨choice, _, _, served⟩
  rcases Store.findShm_eq_some_iff.mp stands.segment with
    ⟨_, _, segment, found, _⟩
  have stands : Standing paths key channel semaphores value
      (store.advance choice.tick) := stands.of_same ⟨rfl, rfl⟩ ⟨rfl, rfl⟩
  have found : (store.advance choice.tick).shms channel.segment =
      some segment := found
  have attaches := congrArg Prod.snd (Option.some.inj served)
  have answers := congrArg Prod.fst (Option.some.inj served)
  simp only [Store.shmat, found] at attaches answers
  constructor
  · exact Or.inl answers.symm
  · exact knows
  · refine ⟨value, ?_, (Int.add_zero _).symm, fun small => small⟩
    rw [← attaches]
    exact stands.setMappings found
  · intro known same
    cases same
  · intro known same
    exact Or.inr ⟨rfl, same⟩

theorem effect_load {addr : Addr} {offset : Nat} {word : Option UInt}
    (allowed : (protocol paths key action statics).allow learnt
      (.load addr offset))
    (exec : granting.exec process (.load addr offset) store word after) :
    Effect paths key channel semaphores value action statics learnt
      (.load addr offset) word after := by
  have answered := granting_load exec
  cases word with
  | none => exact .spared stands rfl rfl exec trivial knows rfl rfl rfl
  | some word =>
      rcases allowed with ⟨⟨id, member, rfl⟩, offsets⟩
      have isSegment := knows.segments id member
      subst isSegment
      have read := Store.load_word answered.symm
      rcases offsets with rfl | rfl | ⟨rfl, flag, flagRead, expires⟩
      · rw [stands.size] at read
        cases read
        apply Effect.spared stands rfl rfl exec trivial _ rfl rfl rfl
        exact { knows with
          size := by
            rintro word same
            cases same
            rfl }
      · rw [stands.flag] at read
        cases read
        apply Effect.spared stands rfl rfl exec trivial _ rfl rfl rfl
        exact { knows with
          flag := by
            rintro word same
            cases same
            rfl }
      · exact absurd (knows.flag flag flagRead) expires

/-- What any call of a command on a standing lock does. -/
theorem Standing.effect (moves : Moves action)
    (allowed : (protocol paths key action statics).allow learnt call)
    (exec : granting.exec process call store answer after) :
    Effect paths key channel semaphores value action statics learnt call answer
      after := by
  cases call with
  | semget => exact effect_semget stands knows moves allowed exec
  | shmget => exact effect_shmget stands knows moves allowed exec
  | semctlGetval => exact effect_getval stands knows allowed exec
  | semop => exact effect_semop stands knows allowed exec
  | shmat => exact effect_shmat stands knows allowed exec
  | load => exact effect_load stands knows allowed exec
  | semctlStat id =>
      apply Effect.spared stands rfl rfl exec trivial _ _ rfl rfl
      · rw [learn_stat]
        split
        · exact { knows with }
        · exact knows
      · rw [learn_stat]
        split <;> rfl
  | time => exact .spared stands rfl rfl exec trivial { knows with } rfl rfl rfl
  | mallocSemaphore =>
      exact .spared stands rfl rfl exec trivial knows rfl rfl rfl
  | mallocSharedMemory =>
      exact .spared stands rfl rfl exec trivial knows rfl rfl rfl
  | mlockall => exact .spared stands rfl rfl exec trivial knows rfl rfl rfl
  | mlock => exact .spared stands rfl rfl exec trivial knows rfl rfl rfl
  | munlockall => exact .spared stands rfl rfl exec trivial knows rfl rfl rfl
  | sleep => exact .spared stands rfl rfl exec trivial knows rfl rfl rfl
  | printf => exact .spared stands rfl rfl exec trivial knows rfl rfl rfl
  | die cause => exact answer.elim
  | semctlSetall => exact absurd allowed.1 moves.creates
  | semctlRmid => exact absurd allowed.2 (moves.keeps knows)
  | shmdt => exact absurd allowed.2 (moves.keeps knows)
  | shmctlRmid => exact absurd allowed.2 (moves.keeps knows)
  | memset => exact absurd allowed.2 (moves.keeps knows)
  | store => exact absurd allowed.2 moves.creates
  | _ => exact allowed.elim

end Calls

/-! ## All commands together -/

theorem change_of_read {id : IpcId} {event : Event signature} {known : Nat}
    (reads : valueRead id event = some known) : change id event = 0 := by
  rcases event with ⟨call, answer⟩
  cases call with
  | semctlGetval => rfl
  | _ => cases reads

theorem change_of_gives {id : IpcId} {event : Event signature}
    (gives : operates id 1 event = true) : change id event = 1 := by
  have once : operates id (-1) event = false := by
    rcases event with ⟨call, answer⟩
    cases call with
    | semop =>
        simp only [operates, Bool.and_eq_true, decide_eq_true_eq] at gives
        simp [operates, gives.1.2]
    | _ => cases gives
  simp [change, gives, once]

/-- Only an `off` that saw a unit in use gives one back. -/
theorem operates_used
    (stands : Standing paths key channel semaphores value store)
    (knows : Knows channel semaphores learnt)
    (gives : operates channel.user 1 ⟨call, answer⟩ = true)
    (allowed : (protocol paths key action statics).allow learnt call) :
    Used learnt := by
  cases call with
  | semop id semNum semOp undo nowait =>
      simp only [operates, Bool.and_eq_true, decide_eq_true_eq] at gives
      rcases gives with ⟨⟨rfl, rfl⟩, _⟩
      rcases allowed with ⟨_, grounds⟩
      cases undo with
      | true => exact absurd (knows.mutexes _ grounds) (Ne.symm stands.distinct)
      | false =>
          rcases grounds.2 with ⟨_, impossible⟩ | ⟨_, _, used⟩
          · cases impossible
          · exact used
  | _ => cases gives

/-- What a live command is and knows. -/
structure Aware (channel : Channel) (semaphores : UInt)
    (log : List (Entry signature Pid Store)) (process : Pid)
    (phase : (Action × Lock.Statics) × Learnt) : Prop where
  moves : Moves phase.1.1
  knows : Knows channel semaphores phase.2
  read : ∀ known, phase.2.value = some known →
    ∃ net, lastRead channel.user process log = some (known, net)

/-- The lock stands with `value` units, which the log accounts for. -/
structure Balanced (paths : KeyPaths) (key : Key) (channel : Channel)
    (semaphores : UInt) (value : Nat) (pool : Pool signature Pid Store Int)
    (phases : Pid → (Action × Lock.Statics) × Learnt) : Prop where
  stands : Standing paths key channel semaphores value pool.state
  small : value ≤ SEMVMX
  account : (value : Int) = (semaphores.setWidth 16).toNat -
    ((ons channel.user pool.log : Int) - offs channel.user pool.log)
  read : ∀ process known net,
    lastRead channel.user process pool.log = some (known, net) →
      (known : Int) + net = value
  aware : ∀ process, pool.procs process ≠ none →
    Aware channel semaphores pool.log process (phases process)

namespace Balanced

variable {pool : Pool signature Pid Store Int}
variable {phases : Pid → (Action × Lock.Statics) × Learnt}

theorem counted_iff
    (balanced : Balanced paths key channel semaphores value pool phases) :
    Counted paths key (semaphores.setWidth 16).toNat pool ↔
      value ≤ (semaphores.setWidth 16).toNat := by
  rcases balanced.stands.value with ⟨ctime, found⟩
  have read : pool.state.semctlGetval channel.user 0 = .ok value := by
    rw [Store.semctlGetval, found]
    rfl
  constructor
  · rintro ⟨id, value', named, read', bounded, _⟩
    rw [balanced.stands.user] at named
    cases named
    rw [read] at read'
    cases read'
    exact bounded
  · intro bounded
    exact ⟨channel.user, value, balanced.stands.user, read, bounded,
      balanced.account⟩

/-- A call keeps the account, with the value it leaves. -/
theorem served {next : call.Answer → Prog Int}
    (balanced : Balanced paths key channel semaphores value pool phases)
    (running : pool.procs process = some (.issue call next))
    (allowed : (commandProtocol paths key).allow (phases process) call)
    (exec : granting.exec process call pool.state answer after) :
    (commandProtocol paths key).answer (phases process) call answer ∧
      ∃ value' : Nat,
        (value' : Int) = value + change channel.user ⟨call, answer⟩ ∧
        Balanced paths key channel semaphores value'
          (pool.record (.call process ⟨call, answer⟩) after
            (Function.update pool.procs process (some (next answer))))
          (Function.update phases process
            ((commandProtocol paths key).next (phases process) call
              answer)) := by
  have alive : pool.procs process ≠ none := by
    rw [running]
    simp
  have aware := balanced.aware process alive
  have effect : Effect paths key channel semaphores value (phases process).1.1
      (phases process).1.2 (phases process).2 call answer after :=
    balanced.stands.effect aware.knows aware.moves allowed exec
  rcases effect.stands with ⟨value', stands, changed, small⟩
  refine ⟨effect.relied, value', changed, ?_⟩
  have reads : ∀ other known net,
      lastRead channel.user other
          (⟨.call process ⟨call, answer⟩, after⟩ :: pool.log) =
        some (known, net) → (known : Int) + net = value' := by
    intro other known net last
    have carried : (lastRead channel.user other pool.log).map (fun read =>
        (read.1, read.2 + change channel.user ⟨call, answer⟩)) =
          some (known, net) → (known : Int) + net = value' := by
      intro before
      rcases Option.map_eq_some_iff.mp before with ⟨read, last', shifts⟩
      have balance := balanced.read other read.1 read.2 last'
      simp only [Prod.mk.injEq] at shifts
      omega
    by_cases same : process = other
    · simp only [lastRead, same, if_true] at last
      cases reads : valueRead channel.user ⟨call, answer⟩ with
      | none => exact carried (by simpa [reads] using last)
      | some read =>
          have isValue := effect.read read reads
          have unchanged := change_of_read reads
          simp only [reads, Option.map_some, Option.some_or,
            Option.some.injEq, Prod.mk.injEq] at last
          omega
    · exact carried (by simpa [lastRead, same] using last)
  constructor
  · exact stands
  · exact small balanced.small
  · have account := balanced.account
    simp only [change] at changed
    simp only [Pool.record_log, ons, offs, operations] at account ⊢
    split at changed <;> split at changed <;> simp_all <;> omega
  · exact reads
  · intro other runningOther
    by_cases same : other = process
    · subst same
      rw [Function.update_self]
      constructor
      · exact aware.moves
      · exact effect.knows
      · intro known learns
        rcases effect.learns known learns with reads | ⟨unread, learnt⟩
        · exact ⟨0, by simp [lastRead, reads]⟩
        · rcases aware.read known learnt with ⟨net, last⟩
          refine ⟨net + change channel.user ⟨call, answer⟩, ?_⟩
          simp [lastRead, unread, last]
    · rw [Function.update_of_ne same]
      simp only [Pool.record_procs, Function.update_of_ne same] at runningOther
      have before := balanced.aware other runningOther
      constructor
      · exact before.moves
      · exact before.knows
      · intro known learnt
        rcases before.read known learnt with ⟨net, last⟩
        refine ⟨net + change channel.user ⟨call, answer⟩, ?_⟩
        simp [lastRead, Ne.symm same, last]

/-- The end of a process keeps the account. -/
theorem leave {label : Label signature Pid}
    (balanced : Balanced paths key channel semaphores value pool phases)
    (ends : label = .leave process ∨ label = .kill process) :
    Balanced paths key channel semaphores value
      (pool.record label (pool.state.leave process)
        (Function.update pool.procs process none)) phases := by
  have silent : ∀ id semOp, operations id semOp
      (⟨label, pool.state.leave process⟩ :: pool.log) =
        operations id semOp pool.log := by
    rcases ends with rfl | rfl <;> exact fun _ _ => rfl
  have unread : ∀ other, lastRead channel.user other
      (⟨label, pool.state.leave process⟩ :: pool.log) =
        lastRead channel.user other pool.log := by
    rcases ends with rfl | rfl <;> exact fun _ => rfl
  constructor
  · exact balanced.stands.leave balanced.small
  · exact balanced.small
  · simp only [Pool.record_log, ons, offs, silent]
    exact balanced.account
  · intro other known net last
    rw [Pool.record_log, unread] at last
    exact balanced.read other known net last
  · intro other running
    by_cases same : other = process
    · subst same
      simp at running
    · simp only [Pool.record_procs, Function.update_of_ne same] at running
      have before := balanced.aware other running
      exact { before with
        read := by
          intro known learnt
          rw [Pool.record_log, unread]
          exact before.read known learnt }

/-- A call keeps the value within the size exactly if it is not stale. -/
theorem fresh_iff
    (balanced : Balanced paths key channel semaphores value pool phases)
    (bounded : value ≤ (semaphores.setWidth 16).toNat)
    (running : pool.procs process ≠ none)
    (allowed : (commandProtocol paths key).allow (phases process) call) :
    (value : Int) + change channel.user ⟨call, answer⟩ ≤
        (semaphores.setWidth 16).toNat ↔
      Fresh paths key (semaphores.setWidth 16).toNat pool
        (.call process ⟨call, answer⟩) := by
  have aware := balanced.aware process running
  by_cases gives : operates channel.user 1 ⟨call, answer⟩ = true
  · have used := operates_used balanced.stands aware.knows gives allowed
    rcases used aware.knows.sound with ⟨known, word, valueRead, sizeRead, below⟩
    have isSize := aware.knows.size word sizeRead
    subst isSize
    rcases aware.read known valueRead with ⟨net, last⟩
    have balance := balanced.read process known net last
    rw [change_of_gives gives]
    constructor
    · rintro bound ⟨id, named, _, known', net', last', ahead, outdated⟩
      rw [balanced.stands.user] at named
      cases named
      rw [last] at last'
      cases last'
      omega
    · intro fresh
      by_contra exceeds
      exact fresh ⟨channel.user, balanced.stands.user, gives, known, net, last,
        by omega, by omega⟩
  · have within : change channel.user ⟨call, answer⟩ ≤ 0 := by
      simp only [change, gives, Bool.false_eq_true, if_false]
      split <;> omega
    constructor
    · rintro _ ⟨id, named, gives', _⟩
      rw [balanced.stands.user] at named
      cases named
      exact gives gives'
    · intro _
      omega

end Balanced

/-- The account is kept by all runs that are fresh. -/
theorem preserves (paths : KeyPaths) (key : Key) (channel : Channel)
    (semaphores : UInt) :
    Pool.Preserves granting
      (Fresh paths key (semaphores.setWidth 16).toNat)
      (commandProtocol paths key)
      fun pool phases => ∃ value, value ≤ (semaphores.setWidth 16).toNat ∧
        Balanced paths key channel semaphores value pool phases where
  call := by
    rintro pool phases process call next answer after
      ⟨value, bounded, balanced⟩ running allowed exec fresh
    have alive : pool.procs process ≠ none := by
      rw [running]
      simp
    rcases balanced.served running allowed exec with
      ⟨relied, value', changed, balanced'⟩
    refine ⟨relied, value', ?_, balanced'⟩
    have within := (balanced.fresh_iff bounded alive allowed).mpr fresh
    omega
  fork := by
    intro pool phases parent child call next here there _ _ _ allowed forks _
    cases call with
    | fork => exact allowed.elim
    | _ => cases forks
  leave := by
    rintro pool phases process label ⟨value, bounded, balanced⟩ ends _
    refine ⟨phases process, value, bounded, ?_⟩
    rw [Function.update_eq_self]
    exact balanced.leave ends

/-! ## The result -/

/-- A lock that was made without an expiry stands with all its units. -/
theorem Standing.made {ctime : Time} {base : Store}
    (stands : Stands paths key channel
      (.created process ctime semaphores 0) base store) :
    Standing paths key channel semaphores (semaphores.setWidth 16).toNat
      store where
  user := stands.findSem_user
  mutex := stands.findSem_mutex
  segment := stands.findShm_segment
  value := ⟨ctime, stands.user⟩
  size := by
    simp [wordAt, stands.segment, Contents.created, Segment.word_setWord]
  flag := by
    simp [wordAt, stands.segment, Contents.created, Segment.word_setWord]

/-- `create` succeeds with sizes that a semaphore can have only, and then the
lock stands. -/
theorem standing_of_created {events : List (Event signature)}
    (vacant : Vacant paths key store)
    (created : Program.Runs granting process
      (Lock.create paths key semaphores 0) store events 0 after) :
    ∃ channel, (semaphores.setWidth 16).toNat ≤ SEMVMX ∧
      Standing paths key channel semaphores (semaphores.setWidth 16).toNat
        (after.leave process) := by
  rw [← bind_pure (Lock.create paths key semaphores 0)] at created
  by_cases legal : (semaphores.setWidth 16).toNat ≤ SEMVMX
  · have delivers : Program.Delivers granting process (fun _ => False)
        (Lock.create paths key semaphores 0 >>= pure) store
        fun _ final => Standing paths key (.next paths key store) semaphores
          (semaphores.setWidth 16).toNat final := by
      apply create_vacant vacant legal
      intro base final ctime _ stands _ _
      exact Standing.made stands
    have stands := delivers.runs created (by simp)
    exact ⟨_, legal, stands.leave legal⟩
  · have delivers : Program.Delivers granting process (fun _ => False)
        (Lock.create paths key semaphores 0 >>= pure) store
        fun code _ => code = -1 := by
      apply create_oversized vacant.user (Nat.lt_of_not_le legal)
      exact fun _ _ => rfl
    have failed := delivers.runs created (by simp)
    cases failed

/-- Commands that take and give back units follow the protocols, and have
everything to learn. -/
theorem balanced_opening {commands : Pid → Option (Action × Lock.Statics)}
    (moves : ∀ process command, commands process = some command →
      Moves command.1) (legal : (semaphores.setWidth 16).toNat ≤ SEMVMX)
    (stands : Standing paths key channel semaphores
      (semaphores.setWidth 16).toNat store) :
    Pool.Simulated (commandProtocol paths key)
      (fun pool phases => ∃ value, value ≤ (semaphores.setWidth 16).toNat ∧
        Balanced paths key channel semaphores value pool phases)
      (opening paths key commands store)
      fun process => ((commands process).getD (.off, .initial), {}) := by
  constructor
  · refine ⟨_, Nat.le_refl _, ?_⟩
    constructor
    · exact stands
    · exact legal
    · simp [opening, ons, offs, operations]
    · intro process known net last
      cases last
    · intro process running
      cases started : commands process with
      | none => simp [opening, started] at running
      | some command =>
          constructor
          · exact moves process command started
          · constructor <;> simp
          · intro known read
            cases read
  · intro process program running
    cases started : commands process with
    | none => simp [opening, started] at running
    | some command =>
        simp only [opening, started, Option.map_some, Option.some.injEq]
          at running
        subst running
        simpa [started] using follows_command command

/--
In every run in which no `off` acts on an outdated value, the lock is counted
in every state, and the first step that is not of this kind ends that.
-/
theorem counted_of_fresh (paths : KeyPaths) (key : Key) (semaphores : UInt)
    {store after : Store} {creator : Pid} {events : List (Event signature)}
    (vacant : Vacant paths key store)
    (created : Program.Runs granting creator
      (Lock.create paths key semaphores 0) store events 0 after)
    {commands : Pid → Option (Action × Lock.Statics)}
    (moves : ∀ process command, commands process = some command →
      Moves command.1)
    {pool : Pool signature Pid Store Int}
    (reach : Pool.Reach granting
      (Fresh paths key (semaphores.setWidth 16).toNat)
      (opening paths key commands (after.leave creator)) pool) :
    Counted paths key (semaphores.setWidth 16).toNat pool ∧
      ∀ label next, Pool.Step granting pool label next →
        (Counted paths key (semaphores.setWidth 16).toNat next ↔
          Fresh paths key (semaphores.setWidth 16).toNat pool label) := by
  rcases standing_of_created vacant created with ⟨channel, legal, stands⟩
  rcases reach.simulated (preserves paths key channel semaphores)
    (balanced_opening moves legal stands) with
      ⟨phases, ⟨value, bounded, balanced⟩, conforms⟩
  refine ⟨balanced.counted_iff.mpr bounded, ?_⟩
  intro label next step
  cases step with
  | @call process call rest answer state running exec =>
      have alive : pool.procs process ≠ none := by
        rw [running]
        simp
      have allowed := (conforms process _ running).1
      rcases balanced.served running allowed exec with
        ⟨_, value', changed, balanced'⟩
      rw [balanced'.counted_iff, ← balanced.fresh_iff bounded alive allowed]
      omega
  | @fork parent child call rest here there running _ forks =>
      have allowed := (conforms parent _ running).1
      cases call with
      | fork => exact allowed.elim
      | _ => cases forks
  | @leave process value ended =>
      have balanced' := balanced.leave (Or.inl (Eq.refl (Label.leave process)))
      have counted := balanced'.counted_iff.mpr bounded
      exact iff_of_true counted id
  | @kill process program running =>
      have balanced' := balanced.leave (Or.inr (Eq.refl (Label.kill process)))
      have counted := balanced'.counted_iff.mpr bounded
      exact iff_of_true counted id

/-- One `on` and two `off` commands. -/
def onAndTwoOffs : Pid → Option (Action × Lock.Statics)
  | 2 => some (.on (-1), .initial)
  | 3 => some (.off, .initial)
  | 4 => some (.off, .initial)
  | _ => none

theorem onAndTwoOffs_moves (process : Pid) (command : Action × Lock.Statics)
    (started : onAndTwoOffs process = some command) : Moves command.1 := by
  unfold onAndTwoOffs at started
  split at started <;> cases started <;> simp [Moves]

theorem onAndTwoOffs_confined (store : Store) (process : Pid)
    (outsider : process ∉ ([2, 3, 4] : List Pid)) :
    (opening KeyPaths.devtmpfs 5 onAndTwoOffs store).procs process = none := by
  have missing : onAndTwoOffs process = none := by
    unfold onAndTwoOffs
    split
    · exact absurd (by simp) outsider
    · exact absurd (by simp) outsider
    · exact absurd (by simp) outsider
    · rfl
  simp [opening, missing]

theorem vacant_empty (now : Time) :
    Vacant KeyPaths.devtmpfs 5 (.empty now) :=
  ⟨rfl, rfl, rfl⟩

/-- The set of the first lock made on the key. -/
def firstSet : IpcId :=
  ⟨KeyPaths.devtmpfs.semKey 5, 1⟩

/-- The check that no unit is given back. -/
def noneGiven (pool : Pool signature Pid Store Int) :
    Label signature Pid → Bool
  | .call _ event =>
      (pool.state.findSem (KeyPaths.devtmpfs.semKey 5)).all fun id =>
        !operates id 1 event
  | _ => true

/-- No `off` acts on an outdated value where none gives a unit back. -/
theorem noneGiven_sound {members : List Pid}
    (pool : Pool signature Pid Store Int) (label : Label signature Pid)
    (_ : ∀ process, process ∉ members → pool.procs process = none)
    (passed : noneGiven pool label = true) :
    Fresh KeyPaths.devtmpfs 5 1 pool label := by
  cases label with
  | call process event =>
      rintro ⟨id, named, gives, _⟩
      rw [noneGiven, named, Option.all_some, gives] at passed
      cases passed
  | _ => exact id

theorem granted_default : Grants {} :=
  ⟨rfl, rfl⟩

/-- An `on` takes the only unit, and the lock is counted. -/
theorem counted_of_fresh_taken :
    ∃ pool, ons firstSet pool.log = 1 ∧
      Counted KeyPaths.devtmpfs 5 1 pool := by
  have computed : (alone 1 {} (Lock.create KeyPaths.devtmpfs 5 1 0)
      (.empty 0)).any (fun run => decide (run.2.1 = 0) &&
        (follow noneGiven (turns [(2, 20)])
          (opening KeyPaths.devtmpfs 5 onAndTwoOffs (run.2.2.leave 1))).any
            fun pool => decide (ons firstSet pool.log = 1)) = true := by
    decide
  rcases alone_run granted_default computed with
    ⟨events, code, after, created, property⟩
  simp only [Bool.and_eq_true, decide_eq_true_eq] at property
  rcases property with ⟨rfl, property⟩
  rcases follow_reaches noneGiven_sound (onAndTwoOffs_confined _) turns_grants
    property with ⟨pool, reach, taken⟩
  exact ⟨pool, of_decide_eq_true taken,
    (counted_of_fresh KeyPaths.devtmpfs 5 1 (vacant_empty 0) created
      onAndTwoOffs_moves reach).1⟩

/-- Both `off` commands see the one unit in use, and both give one back: the
lock of size 1 has two units. -/
theorem two_offs_overfill :
    ∃ events after pool,
      Program.Runs granting 1 (Lock.create KeyPaths.devtmpfs 5 1 0)
        (.empty 0) events 0 after ∧
      Pool.Reach granting Pool.Unkilled
        (opening KeyPaths.devtmpfs 5 onAndTwoOffs (after.leave 1)) pool ∧
      pool.state.semctlGetval firstSet 0 = .ok 2 ∧
      ¬ Counted KeyPaths.devtmpfs 5 1 pool := by
  have computed : (alone 1 {} (Lock.create KeyPaths.devtmpfs 5 1 0)
      (.empty 0)).any (fun run => decide (run.2.1 = 0) &&
        (follow unkilled (turns [(2, 19), (3, 18), (4, 18), (3, 1), (4, 1)])
          (opening KeyPaths.devtmpfs 5 onAndTwoOffs (run.2.2.leave 1))).any
            fun pool => decide
              (pool.state.findSem (KeyPaths.devtmpfs.semKey 5) =
                  some firstSet ∧
                (pool.state.semctlGetval firstSet 0).toOption = some 2)) =
        true := by
    set_option maxRecDepth 1000 in
    decide
  rcases alone_run granted_default computed with
    ⟨events, code, after, created, property⟩
  simp only [Bool.and_eq_true, decide_eq_true_eq] at property
  rcases property with ⟨rfl, property⟩
  rcases follow_reaches unkilled_sound (onAndTwoOffs_confined _) turns_grants
    property with ⟨pool, reach, found⟩
  rcases of_decide_eq_true found with ⟨named, read⟩
  have read : pool.state.semctlGetval firstSet 0 = .ok 2 := by
    cases answer : pool.state.semctlGetval firstSet 0 with
    | error errno =>
        rw [answer] at read
        cases read
    | ok value =>
        rw [answer] at read
        cases read
        rfl
  refine ⟨events, after, pool, created, reach, read, ?_⟩
  rintro ⟨id, value, named', read', bounded, _⟩
  rw [named] at named'
  cases named'
  rw [read] at read'
  cases read'
  exact absurd bounded (by decide)

end Atomicles.Counting
