import Mathlib.Algebra.BigOperators.Group.Finset.Basic
import Mathlib.Algebra.BigOperators.Group.Finset.Piecewise
import Atomicles.SegmentMutex.Protocol

/-!
# Mutual exclusion on a shared segment

One abstract mutex ties the phases of all processes to the value and the undo
adjustments of the set, and to the log.  A unit is never lost or doubled,
also where processes are killed: the pending adjustment of a holder goes back
into the semaphore.
-/

namespace Atomicles.SegmentMutex

open Interaction

variable {paths : KeyPaths} {key : Key}

/-! ## The invariant -/

/-- A phase as one process sees the mutex in it. -/
structure Located (process : Pid) (mutex : MutexState) (phase : Phase) :
    Prop where
  creator : phase = .creator → mutex = .raw process
  ready : phase = .ready → mutex ≠ .absent
  inside : phase = .inside ↔ mutex = .held process

/-- A store that holds no other set than the mutex. -/
structure Keeps (paths : KeyPaths) (key : Key) (mutex : MutexState)
    (store : Store) : Prop where
  represents : Represents (mutexId paths key) mutex store
  generation : store.semGen (mutexKey paths key) =
    if mutex = .absent then 0 else 1
  others : ∀ id, id ≠ mutexId paths key → store.sems id = none

/-- One abstract mutex accounts for the kernel's set, for the phases of the
processes and for what the log says of critical sections. -/
structure Agrees (paths : KeyPaths) (key : Key) (members : Finset Pid)
    (mutex : MutexState) (pool : Pool signature Pid Store Unit)
    (phases : Pid → Phase) : Prop where
  keeps : Keeps paths key mutex pool.state
  located : ∀ process, Located process mutex (phases process)
  live : ∀ process, pool.procs process = none → phases process = .fresh
  member : ∀ process, process ∉ members → pool.procs process = none
  sections : ∀ id process, inSection id process pool.log = true ↔
    id = mutexId paths key ∧ mutex = .held process
  initialised : ∀ id, Initialised id pool.log →
    id = mutexId paths key ∧ mutex.Armed

/-- The invariant of the run. -/
def Invariant (paths : KeyPaths) (key : Key) (members : Finset Pid)
    (pool : Pool signature Pid Store Unit) (phases : Pid → Phase) : Prop :=
  ∃ mutex, Agrees paths key members mutex pool phases

section Steps

variable {members : Finset Pid} {mutex : MutexState}
variable {pool : Pool signature Pid Store Unit} {phases : Pid → Phase}
variable {process : Pid}

/-- A call that moves the mutex, and the process along with it, keeps the
invariant. -/
theorem Agrees.call (agrees : Agrees paths key members mutex pool phases)
    {event : Event signature} {state : Store} {program : Prog Unit}
    {mutex' : MutexState} {phase : Phase}
    (running : pool.procs process ≠ none)
    (moves : MutexState.Moves process mutex mutex')
    (keeps : Keeps paths key mutex' state)
    (located : Located process mutex' phase)
    (section' : ∀ id, (passes id event).getD
      (decide (id = mutexId paths key ∧ mutex = .held process)) = true ↔
        id = mutexId paths key ∧ mutex' = .held process)
    (armed : ∀ id, Initialised id [⟨.call process event, state⟩] →
      id = mutexId paths key ∧ mutex'.Armed) :
    Agrees paths key members mutex'
      (pool.record (.call process event) state
        (Function.update pool.procs process (some program)))
      (Function.update phases process phase) where
  keeps := keeps
  located := by
    intro other
    by_cases same : other = process
    · subst same
      simpa using located
    · rw [Function.update_of_ne same]
      have before := agrees.located other
      constructor
      · intro isCreator
        exact moves.raw_other same (before.creator isCreator)
      · intro isReady
        exact moves.present (before.ready isReady)
      · rw [before.inside, moves.held_other same]
  live := by
    intro other gone
    by_cases same : other = process
    · subst same
      simp at gone
    · simp only [Pool.record_procs, Function.update_of_ne same] at gone ⊢
      exact agrees.live other gone
  member := by
    intro other outsider
    by_cases same : other = process
    · subst same
      exact absurd (agrees.member other outsider) running
    · simpa [Function.update_of_ne same] using agrees.member other outsider
  sections := by
    intro id other
    by_cases same : process = other
    · subst same
      have before : inSection id process pool.log =
          decide (id = mutexId paths key ∧ mutex = .held process) := by
        rw [Bool.eq_iff_iff, agrees.sections id process, decide_eq_true_iff]
      simpa [inSection, before] using section' id
    · simpa [inSection, same, moves.held_other (Ne.symm same)]
        using agrees.sections id other
  initialised := by
    rintro id ⟨entry, member, actor, array, set⟩
    rcases List.mem_cons.mp member with rfl | earlier
    · exact armed id ⟨_, List.mem_singleton_self _, actor, array, set⟩
    · have before :=
        agrees.initialised id ⟨entry, earlier, actor, array, set⟩
      exact ⟨before.1, moves.armed before.2⟩

theorem not_initialised {event : Event signature} {state : Store}
    {id : IpcId} (notSetall : ∀ id array, event.call ≠ .semctlSetall id array) :
    ¬ Initialised id [⟨.call process event, state⟩] := by
  rintro ⟨entry, member, actor, array, set⟩
  rw [List.mem_singleton] at member
  subst member
  cases set
  exact notSetall id array rfl

/-- A call on something else keeps the invariant, and its caller where it
is. -/
theorem Agrees.quiet (agrees : Agrees paths key members mutex pool phases)
    {event : Event signature} {state : Store} {program : Prog Unit}
    {phase : Phase} (running : pool.procs process ≠ none)
    (stays : phase = phases process) (same : SameSems pool.state state)
    (passing : ∀ id, passes id event = none)
    (notSetall : ∀ id array, event.call ≠ .semctlSetall id array) :
    Agrees paths key members mutex
      (pool.record (.call process event) state
        (Function.update pool.procs process (some program)))
      (Function.update phases process phase) := by
  subst stays
  apply agrees.call running (.stay mutex)
  · constructor
    · exact agrees.keeps.represents.of_same (congrFun same.1 _)
    · rw [same.2]
      exact agrees.keeps.generation
    · intro id different
      rw [same.1]
      exact agrees.keeps.others id different
  · exact agrees.located process
  · intro id
    simp [passing id]
  · intro id initialised
    exact absurd initialised (not_initialised notSetall)

/-- The end of a process keeps the invariant. -/
theorem Agrees.leave (agrees : Agrees paths key members mutex pool phases)
    {label : Label signature Pid}
    (ends : label = .leave process ∨ label = .kill process) :
    Agrees paths key members (mutex.leave process)
      (pool.record label (pool.state.leave process)
        (Function.update pool.procs process none))
      (Function.update phases process .fresh) where
  keeps := by
    constructor
    · exact agrees.keeps.represents.leave
    · simp only [MutexState.leave_eq_absent_iff]
      exact agrees.keeps.generation
    · intro id different
      simp [Store.leave, agrees.keeps.others id different]
  located := by
    intro other
    by_cases same : other = process
    · subst same
      simp only [Function.update_self]
      exact ⟨by simp, by simp, by simp⟩
    · rw [Function.update_of_ne same]
      have before := agrees.located other
      constructor
      · intro isCreator
        simp [before.creator isCreator, MutexState.leave]
      · intro isReady
        simpa using before.ready isReady
      · simp [MutexState.leave_eq_held_iff, same, before.inside]
  live := by
    intro other gone
    by_cases same : other = process
    · subst same
      simp
    · simp only [Pool.record_procs, Function.update_of_ne same] at gone ⊢
      exact agrees.live other gone
  member := by
    intro other outsider
    by_cases same : other = process
    · subst same
      simp
    · simpa [Function.update_of_ne same] using agrees.member other outsider
  sections := by
    intro id other
    rw [MutexState.leave_eq_held_iff]
    by_cases same : process = other
    · rcases ends with rfl | rfl <;> simp [inSection, same]
    · rcases ends with rfl | rfl <;>
        simpa [inSection, same, Ne.symm same] using agrees.sections id other
  initialised := by
    rintro id ⟨entry, member, actor, array, set⟩
    rcases List.mem_cons.mp member with rfl | earlier
    · rcases ends with rfl | rfl <;> cases set
    · have before :=
        agrees.initialised id ⟨entry, earlier, actor, array, set⟩
      exact ⟨before.1, before.2.leave⟩

/-! ## Every step keeps the invariant -/

/-- A lookup or creation under the name of the mutex. -/
theorem Agrees.semget (agrees : Agrees paths key members mutex pool phases)
    {nsems : Nat} {creat excl : Bool} {found : Except Errno IpcId}
    {state : Store} {program : Prog Unit} {tick : Nat}
    (running : pool.procs process ≠ none) (isFresh : phases process = .fresh)
    (exclusive : creat = true → nsems = 1 ∧ excl = true)
    (served : (pool.state.advance tick).semget (mutexKey paths key) nsems creat
      excl = (found, state)) :
    (protocol paths key).answer .fresh
        (.semget (mutexKey paths key) nsems creat excl) found ∧
      Invariant paths key members
        (pool.record (.call process
          ⟨.semget (mutexKey paths key) nsems creat excl, found⟩) state
          (Function.update pool.procs process (some program)))
        (Function.update phases process
          ((protocol paths key).next .fresh
            (.semget (mutexKey paths key) nsems creat excl) found)) := by
  have located := agrees.located process
  have unheld : mutex ≠ .held process := by
    intro held
    have isInside := located.inside.mpr held
    rw [isFresh] at isInside
    cases isInside
  have passing : ∀ id, passes id
      ⟨.semget (mutexKey paths key) nsems creat excl, found⟩ = none :=
    fun _ => rfl
  by_cases isAbsent : mutex = .absent
  · subst isAbsent
    have gone : (pool.state.advance tick).sems ⟨mutexKey paths key,
        (pool.state.advance tick).semGen (mutexKey paths key)⟩ = none := by
      apply agrees.keeps.others
      rw [Store.advance_semGen, agrees.keeps.generation]
      simp
    have unused : pool.state.semGen (mutexKey paths key) = 0 :=
      agrees.keeps.generation
    cases creat with
    | false =>
        rw [Represents.semget_lookup_absent gone] at served
        cases served
        constructor
        · intro id impossible
          cases impossible
        · exact ⟨_, agrees.quiet running isFresh.symm ⟨rfl, rfl⟩ passing
            (by simp)⟩
    | true =>
        rcases exclusive rfl with ⟨rfl, rfl⟩
        rcases Represents.semget_absent gone true process with
          ⟨answer, represents, generation, others⟩
        rw [served] at answer represents generation others
        have first : (pool.state.advance tick).nextSem (mutexKey paths key) =
            mutexId paths key := by
          simp [Store.nextSem, unused]
        rw [first] at answer represents others
        have made : found = .ok (mutexId paths key) := answer
        subst made
        constructor
        · intro id same
          cases same
          rfl
        · refine ⟨.raw process, agrees.call running .make ?_ ?_ ?_ ?_⟩
          · constructor
            · exact represents
            · simpa [unused] using congrFun generation (mutexKey paths key)
            · intro id different
              rw [others id different]
              exact agrees.keeps.others id different
          · constructor
            · intro _
              rfl
            · simp
            · simp [protocol]
          · intro id
            simp [passing id]
          · intro id initialised
            exact absurd initialised (not_initialised (by simp))
  · have represents : Represents (mutexId paths key) mutex
        (pool.state.advance tick) := agrees.keeps.represents.of_same rfl
    have named : (pool.state.advance tick).semGen (mutexKey paths key) = 1 := by
      rw [Store.advance_semGen, agrees.keeps.generation]
      simp [isAbsent]
    rw [represents.semget_present isAbsent named] at served
    cases served
    have answered : ∀ id,
        (if (creat && excl) = true then .error .EEXIST
          else if 1 < nsems then .error .EINVAL
          else .ok (mutexId paths key) : Except Errno IpcId) = .ok id →
        id = mutexId paths key ∧ creat = false := by
      intro id same
      cases creat with
      | true =>
          rw [(exclusive rfl).2] at same
          cases same
      | false =>
          simp only [Bool.false_and, Bool.false_eq_true, if_false] at same
          split at same
          · cases same
          · cases same
            exact ⟨rfl, rfl⟩
    constructor
    · intro id same
      exact (answered id same).1
    · generalize (if (creat && excl) = true then .error .EEXIST
        else if 1 < nsems then .error .EINVAL
        else .ok (mutexId paths key) : Except Errno IpcId) = found
        at answered passing ⊢
      cases found with
      | error errno =>
          exact ⟨_, agrees.quiet running isFresh.symm ⟨rfl, rfl⟩ passing
            (by simp)⟩
      | ok id =>
          have lookup : creat = false := (answered id rfl).2
          subst lookup
          refine ⟨mutex, agrees.call running (.stay mutex) ?_ ?_ ?_ ?_⟩
          · exact ⟨represents, agrees.keeps.generation, agrees.keeps.others⟩
          · constructor
            · simp [protocol]
            · intro _
              exact isAbsent
            · simp [protocol, unheld]
          · intro id
            simp [passing id]
          · intro id initialised
            exact absurd initialised (not_initialised (by simp))

/-- The creator gives the mutex its unit. -/
theorem Agrees.semctlSetall
    (agrees : Agrees paths key members mutex pool phases)
    {outcome : Except Errno Unit} {state : Store} {program : Prog Unit}
    {tick : Nat} (running : pool.procs process ≠ none)
    (isCreator : phases process = .creator)
    (served : (pool.state.advance tick).semctlSetall (mutexId paths key) [1] =
      (outcome, state)) :
    outcome = .ok () ∧
      Invariant paths key members
        (pool.record (.call process
          ⟨.semctlSetall (mutexId paths key) [1], outcome⟩) state
          (Function.update pool.procs process (some program)))
        (Function.update phases process .ready) := by
  have isRaw := (agrees.located process).creator isCreator
  subst isRaw
  have represents : Represents (mutexId paths key) (.raw process)
      (pool.state.advance tick) := agrees.keeps.represents.of_same rfl
  rcases represents.setall (by simp) with
    ⟨answer, available, generation, others⟩
  rw [served] at answer available generation others
  have succeeded : outcome = .ok () := answer
  subst succeeded
  refine ⟨rfl, .free, agrees.call running .arm ?_ ?_ ?_ ?_⟩
  · constructor
    · exact available
    · have same : state.semGen = pool.state.semGen := generation
      rw [same]
      exact agrees.keeps.generation
    · intro id different
      rw [others id different]
      exact agrees.keeps.others id different
  · exact ⟨by simp, by simp, by simp⟩
  · intro id
    simp [passes]
  · rintro id ⟨entry, member, actor, array, set⟩
    rw [List.mem_singleton] at member
    subst member
    cases set
    exact ⟨rfl, Or.inl rfl⟩

/-- An operation of a process on the mutex is the one its phase is about. -/
theorem Agrees.semop (agrees : Agrees paths key members mutex pool phases)
    {semOp : Int} {outcome : Except Errno Unit} {state : Store}
    {program : Prog Unit} {tick : Nat} {underWay : Bool}
    (running : pool.procs process ≠ none)
    (turn : phases process = .ready ∧ semOp = -1 ∨
      phases process = .inside ∧ semOp = 1)
    (served : (pool.state.advance tick).semop process (mutexId paths key) 0
      semOp true false underWay = some (outcome, state)) :
    outcome = .ok () ∧
      Invariant paths key members
        (pool.record (.call process
          ⟨.semop (mutexId paths key) 0 semOp true false, outcome⟩) state
          (Function.update pool.procs process (some program)))
        (Function.update phases process
          (if semOp < 0 then .inside else .ready)) := by
  have represents : Represents (mutexId paths key) mutex
      (pool.state.advance tick) := agrees.keeps.represents.of_same rfl
  have located := agrees.located process
  rcases turn with ⟨isReady, rfl⟩ | ⟨isInside, rfl⟩
  · rcases represents.take (located.ready isReady) served with
      ⟨rfl, rfl, taken, generation, others⟩
    refine ⟨rfl, .held process, agrees.call running .take ?_ ?_ ?_ ?_⟩
    · constructor
      · exact taken
      · rw [generation]
        exact agrees.keeps.generation
      · intro id different
        rw [others id different]
        exact agrees.keeps.others id different
    · exact ⟨by simp, by simp, by simp⟩
    · intro id
      by_cases same : id = mutexId paths key
      · simp [passes, same]
      · simp [passes, same, Ne.symm same]
    · intro id initialised
      exact absurd initialised (not_initialised (by simp))
  · have isHeld := located.inside.mp isInside
    subst isHeld
    rcases represents.give served with ⟨rfl, given, generation, others⟩
    refine ⟨rfl, .free, agrees.call running .give ?_ ?_ ?_ ?_⟩
    · constructor
      · exact given
      · rw [generation]
        exact agrees.keeps.generation
      · intro id different
        rw [others id different]
        exact agrees.keeps.others id different
    · exact ⟨by simp, by simp, by simp⟩
    · intro id
      by_cases same : id = mutexId paths key
      · simp [passes, same]
      · simp [passes, same, Ne.symm same]
    · intro id initialised
      exact absurd initialised (not_initialised (by simp))

end Steps

/-- The steps of the pool keep the invariant. -/
theorem preserves (members : Finset Pid) :
    Pool.Preserves granting Pool.Unrestricted (protocol paths key)
      (Invariant paths key members) where
  call := by
    rintro pool phases process call next answer state ⟨mutex, agrees⟩ running
      allowed exec _
    have isLive : pool.procs process ≠ none := by simp [running]
    rcases granting_exec_iff.mp exec with ⟨choice, _, _, granted⟩
    by_cases quiet : Quiet call
    · constructor
      · exact quiet_relied call answer quiet
      · rw [quiet_stays call answer quiet]
        exact ⟨mutex, agrees.quiet isLive rfl
          (exec_sameSems (quiet_spares call quiet) exec)
          (quiet_passes call answer quiet) (quiet_setall call quiet)⟩
    · cases call with
      | semget name nsems creat excl =>
          rcases allowed with ⟨isFresh, rfl, exclusive⟩
          simp only [grant, Option.some.injEq] at granted
          rw [isFresh]
          exact agrees.semget isLive isFresh exclusive granted
      | semctlSetall id array =>
          rcases allowed with ⟨isCreator, rfl, rfl⟩
          simp only [grant, Option.some.injEq] at granted
          exact agrees.semctlSetall isLive isCreator granted
      | semctlGetval id semnum =>
          rcases allowed with ⟨isInside, rfl, rfl⟩
          have isHeld := (agrees.located process).inside.mp isInside
          have represents : Represents (mutexId paths key) mutex
              (pool.state.advance choice.tick) :=
            agrees.keeps.represents.of_same rfl
          simp only [grant, represents.getval (by simp [isHeld]), isHeld,
            MutexState.units, Option.some.injEq, Prod.mk.injEq] at granted
          rcases granted with ⟨rfl, rfl⟩
          exact ⟨rfl, mutex, agrees.quiet isLive rfl ⟨rfl, rfl⟩ (fun _ => rfl)
            (by simp)⟩
      | semop id semNum semOp undo nowait =>
          rcases allowed with ⟨rfl, rfl, rfl, rfl, turn⟩
          exact agrees.semop isLive turn granted
      | semctlRmid id => exact allowed.elim
      | fork => exact allowed.elim
      | interruptible call => exact allowed.elim
      | die cause => exact absurd allowed quiet
      | _ => exact absurd trivial quiet
  fork := by
    rintro pool phases parent child call next here there _ _ _ allowed forks
    cases call with
    | fork => exact allowed.elim
    | _ => cases forks
  leave := by
    rintro pool phases process label ⟨mutex, agrees⟩ ends _
    exact ⟨.fresh, _, agrees.leave ends⟩

/-! ## The result -/

/-- Nothing exists yet, and every member is about to run. -/
def start (paths : KeyPaths) (key : Key) (now : Time) (members : Finset Pid)
    (size : Pid → Nat) (accesses : Pid → List Access) :
    Pool signature Pid Store Unit :=
  { state := Store.empty now
    procs := fun process =>
      if process ∈ members then
        some (client paths key (size process) (accesses process))
      else none
    log := [] }

/-- The members that have not ended. -/
def liveMembers (members : Finset Pid) (pool : Pool signature Pid Store Unit) :
    Finset Pid :=
  members.filter fun process => (pool.procs process).isSome

variable {members : Finset Pid} {mutex : MutexState}
variable {pool : Pool signature Pid Store Unit} {phases : Pid → Phase}

theorem start_simulated {now : Time} {size : Pid → Nat}
    {accesses : Pid → List Access} :
    Pool.Simulated (protocol paths key) (Invariant paths key members)
      (start paths key now members size accesses) fun _ => .fresh := by
  constructor
  · refine ⟨.absent, ?_⟩
    constructor
    · constructor
      · exact ⟨fun _ => rfl, by simp⟩
      · rfl
      · intro id _
        rfl
    · intro process
      exact ⟨by simp, by simp, by simp⟩
    · intro process _
      rfl
    · intro process outsider
      simp [start, outsider]
    · intro id process
      simp [start, inSection]
    · rintro id ⟨entry, member, _⟩
      cases member
  · intro process program running
    simp only [start] at running
    split at running
    · cases running
      exact conforms_client
    · cases running

/-- The unit is in the semaphore or with the one live holder. -/
theorem Agrees.unit_sum (agrees : Agrees paths key members mutex pool phases)
    {id : IpcId} (initialised : Initialised id pool.log) :
    ∃ set value, pool.state.sems id = some set ∧ set.semvals = [value] ∧
      (value : Int) + ∑ process ∈ liveMembers members pool,
        set.semadj process 0 = 1 := by
  rcases agrees.initialised id initialised with ⟨rfl, armed⟩
  have isPresent : mutex ≠ .absent := by
    rcases armed with rfl | ⟨holder, rfl⟩ <;> simp
  rcases agrees.keeps.represents.present isPresent with
    ⟨set, found, values, adjustments⟩
  refine ⟨set, mutex.units, found, values, ?_⟩
  simp only [adjustments]
  rcases armed with rfl | ⟨holder, rfl⟩
  · simp [MutexState.units, MutexState.adjustment]
  · have isInside : phases holder = .inside :=
      (agrees.located holder).inside.mpr rfl
    have isLive : pool.procs holder ≠ none := by
      intro gone
      have isFresh := agrees.live holder gone
      rw [isInside] at isFresh
      cases isFresh
    have isMember : holder ∈ members := by
      by_contra outsider
      exact isLive (agrees.member holder outsider)
    have counted : holder ∈ liveMembers members pool := by
      simp [liveMembers, isMember, Option.isSome_iff_ne_none, isLive]
    simp [MutexState.units, MutexState.adjustment, counted]

/--
However the processes are interleaved and killed: at most one of them is in
its critical section, a mutex whose value has been set has one unit in the
semaphore and the pending adjustments together, and no process is about to
fail an assertion.
-/
theorem mutual_exclusion (paths : KeyPaths) (key : Key) (now : Time)
    (members : Finset Pid) (size : Pid → Nat) (accesses : Pid → List Access)
    (pool : Pool signature Pid Store Unit)
    (reach : Pool.Reach granting Pool.Unrestricted
      (start paths key now members size accesses) pool) :
    (∀ id first second, inSection id first pool.log = true →
      inSection id second pool.log = true → first = second) ∧
    (∀ id, Initialised id pool.log →
      ∃ set value, pool.state.sems id = some set ∧ set.semvals = [value] ∧
        (value : Int) + ∑ process ∈ liveMembers members pool,
          set.semadj process 0 = 1) ∧
    ∀ process call next, pool.procs process = some (.issue call next) →
      ∀ text, call ≠ .die (.assertion text) := by
  rcases reach.simulated (preserves members) start_simulated with
    ⟨phases, ⟨mutex, agrees⟩, conforms⟩
  refine ⟨?_, ?_, ?_⟩
  · intro id first second inFirst inSecond
    have holdsFirst := ((agrees.sections id first).mp inFirst).2
    have holdsSecond := ((agrees.sections id second).mp inSecond).2
    rw [holdsFirst] at holdsSecond
    exact MutexState.held.inj holdsSecond
  · intro id initialised
    exact agrees.unit_sum initialised
  · rintro process call next running text rfl
    have allowed := (conforms process _ running).1
    cases allowed

/-- One process has made the segment and is about to write. -/
theorem mutual_exclusion_opening :
    ∃ pool : Pool signature Pid Store Unit,
      inSection (mutexId KeyPaths.devtmpfs 5) 1 pool.log = true ∧
      (∀ id first second, inSection id first pool.log = true →
        inSection id second pool.log = true → first = second) ∧
      (∀ id, Initialised id pool.log →
        ∃ set value, pool.state.sems id = some set ∧ set.semvals = [value] ∧
          (value : Int) + ∑ process ∈ liveMembers {1, 2} pool,
            set.semadj process 0 = 1) ∧
      ∀ process call next, pool.procs process = some (.issue call next) →
        ∀ text, call ≠ .die (.assertion text) := by
  have computed : (follow unkilled (turns [(1, 8)]) (start KeyPaths.devtmpfs 5 0 {1, 2}
      (fun _ => 16) fun _ => [.writeUint 0 7])).any
        (fun pool => inSection (mutexId KeyPaths.devtmpfs 5) 1 pool.log) =
          true := by
    decide
  have confined : ∀ process, process ∉ [1, 2] →
      (start KeyPaths.devtmpfs 5 0 {1, 2} (fun _ => 16)
        fun _ => [.writeUint 0 7]).procs process = none := by
    intro process outsider
    simpa [start] using outsider
  rcases follow_reaches unkilled_sound confined turns_grants computed with
    ⟨pool, reach, inside⟩
  exact ⟨pool, inside, mutual_exclusion _ _ _ _ _ _ pool
    (reach.mono fun _ _ _ => trivial)⟩

end Atomicles.SegmentMutex
