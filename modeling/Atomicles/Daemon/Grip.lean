import Atomicles.Daemon.Calls
import Atomicles.Daemon.Runs
import Atomicles.Kernel.Mutex

/-!
# The unit a process holds

Between the two `semop` calls of an accessor a process holds the unit of the
mutex.  The handler leaves the accessor there, and what the process does next
asks for the unit again.
-/

namespace Atomicles.Grip

open Interaction Daemon

variable (paths : KeyPaths) (decay : UInt → Nat)

/-- A process has a unit of a set pending as its undo adjustment. -/
def Holds (process : Pid) (id : IpcId) (store : Store) : Prop :=
  ∃ set, store.sems id = some set ∧ 0 < set.semadj process 0

/-- No signal is caught by a process that holds a unit. -/
def Unheld (crew : Processes) : Moves → Prop
  | .jump process (.caught ..) => ∀ id, ¬ Holds process id crew.state.store
  | _ => True

/-! ## The script of a process -/

/-- The set a process may hold the unit of.  A unit is only asked for without
another one, and no process comes to a label or forks with one. -/
def script : Script signature (Option IpcId) Label where
  allow grip call :=
    match call with
    | .semop id semNum semOp undo _ =>
        semNum = 0 ∧ undo = true ∧
          (semOp = -1 ∧ grip = none ∨
            semOp = 1 ∧ (grip = none ∨ grip = some id))
    | .fork => grip = none
    | .execvp => grip = none
    | .interruptible _ => False
    | _ => True
  answer _ _ _ := True
  next grip call answer :=
    match call, answer with
    | .semop id _ semOp _ _, (outcome : Except Errno Unit) =>
        match outcome with
        | .ok () => if semOp = -1 then some id else none
        | .error _ => grip
    | _, _ => grip
  stops grip _ := grip = none
  resume grip _ := grip

/-- A program that begins and ends without a unit. -/
def Released (Value : Type) (program : Prog Value) : Prop :=
  program.Conforms script.toProtocol none fun grip _ => grip = none

theorem dies {grip : Option IpcId} {cause : Death} {Value : Type}
    {post : Option IpcId → Value → Prop} :
    (die cause : Prog Value).Conforms script.toProtocol grip post :=
  ⟨trivial, fun impossible => impossible.elim⟩

/-- `Semaphore$unlock` by a process that may hold the unit. -/
theorem conforms_exit {this : SharedMemory} {shsem : Semaphore}
    {grip : Option IpcId} (owned : this.shsem = some shsem)
    (mine : grip = none ∨ grip = some shsem.id) :
    (SharedMemory.exit this).Conforms script.toProtocol grip
      fun grip _ => grip = none := by
  rw [← bind_pure (SharedMemory.exit this), SharedMemory.exit_bind owned]
  refine ⟨trivial, ?_⟩
  intro (value : Except Errno Nat) _
  dsimp only
  split
  · refine ⟨⟨rfl, rfl, Or.inr ⟨rfl, mine⟩⟩, ?_⟩
    intro (outcome : Except Errno Unit) _
    cases outcome with
    | ok success => exact rfl
    | error errno => exact dies
  · exact dies

/-- `Semaphore$lock` by a process without a unit. -/
theorem conforms_enter {this : SharedMemory} {Value : Type}
    {continuation : Unit → Prog Value}
    (rest : ∀ shsem grip, this.shsem = some shsem →
      (grip = none ∨ grip = some shsem.id) →
        (continuation ()).Conforms script.toProtocol grip
          fun grip _ => grip = none) :
    Released Value (SharedMemory.enter this >>= continuation) := by
  unfold Released
  cases owned : this.shsem with
  | none =>
      rw [SharedMemory.enter_bind_none owned]
      exact dies
  | some shsem =>
      rw [SharedMemory.enter_bind owned]
      refine ⟨⟨rfl, rfl, Or.inl ⟨rfl, rfl⟩⟩, ?_⟩
      intro (outcome : Except Errno Unit) _
      cases outcome with
      | ok success => exact rest shsem (some shsem.id) owned (Or.inr rfl)
      | error errno =>
          dsimp only
          split
          · exact rest shsem none owned (Or.inl rfl)
          · exact dies

theorem released_read (this : SharedMemory) (offset : UShort) :
    Released UInt (this.readUint offset) := by
  apply conforms_enter
  intro shsem grip owned mine
  apply (conforms_exit owned mine).bind
  rintro _ _ rfl
  rw [← bind_pure (load this.addr offset.toNat), SharedMemory.load_bind]
  refine ⟨trivial, ?_⟩
  intro (word : Option UInt) _
  cases word with
  | none => exact dies
  | some word => exact rfl

theorem released_write (this : SharedMemory) (offset : UShort) (n : UInt) :
    Released Unit (this.writeUint offset n) := by
  apply conforms_enter
  intro shsem grip owned mine
  rw [SharedMemory.store_bind]
  refine ⟨trivial, ?_⟩
  intro (done : Option Unit) _
  cases done with
  | none => exact dies
  | some success => exact conforms_exit owned mine

theorem released_issue {Value : Type} {call : Call}
    {next : call.Answer → Prog Value} (allowed : script.allow none call)
    (stays : ∀ answer, script.next none call answer = none)
    (rest : ∀ answer, Released Value (next answer)) :
    Released Value (.issue call next) := by
  refine ⟨allowed, ?_⟩
  intro answer _
  rw [stays]
  exact rest answer

/-- The calls that a process may make without having prepared them. -/
def Free : Call → Prop
  | .semop .. => False
  | .interruptible _ => False
  | _ => True

theorem free_opens (call : Call) (opens : call.opens = true) : Free call := by
  cases call <;> trivial

theorem free_removes (call : Call) (removes : call.removes = true) :
    Free call := by
  cases call <;> trivial

/-- All functions begin and end without a unit. -/
theorem released : Compositional Free (fun _ _ => True) Released where
  calm call calm := by
    cases call <;> trivial
  value _ := rfl
  bind first second := first.bind (by
    rintro _ value rfl
    exact second value)
  issue := by
    intro Value call next free rest
    cases call with
    | semop => exact free.elim
    | interruptible => exact free.elim
    | fork => exact released_issue rfl (fun _ => rfl) rest
    | execvp => exact released_issue rfl (fun _ => rfl) rest
    | _ => exact released_issue trivial (fun _ => rfl) rest
  read := released_read
  write this offset n _ := released_write this offset n

theorem released_round (stack : WaitStatus) (locals : Locals) :
    Released Label (round decay stack locals) := by
  rw [round_eq]
  apply Compositional.bind released
  · exact Compositional.installHandlers released (fun _ => trivial)
      free_removes _ _ fun _ => trivial
  · intro _
    refine Compositional.issue released (by trivial) fun _ => ?_
    refine Compositional.issue released (by trivial) ?_
    intro (cpid : Int)
    dsimp only
    split
    · exact Compositional.child released _ (fun _ => trivial) (fun _ => trivial)
        free_removes trivial
    · apply Compositional.bind released
        (Compositional.writeWord released _ trivial)
      intro _
      apply Compositional.bind released
        (Compositional.writeWord released _ trivial)
      intro _
      refine Compositional.issue released (by trivial) ?_
      intro (outcome : Except Errno (Int × WaitStatus))
      split
      · refine Compositional.issue released (by trivial) fun _ => ?_
        exact Compositional.endRound released (fun _ => trivial) free_removes
          decay _
      · exact Compositional.value released _

theorem follows_code {stack : WaitStatus} {label : Label}
    {program : Prog Label}
    (piece : code paths decay stack label = some program) :
    script.Follows none program := by
  cases label with
  | main action key =>
      cases piece
      exact Compositional.main released (fun _ _ => trivial) free_removes
        trivial (fun _ _ => trivial) free_opens paths action key
  | round locals =>
      cases piece
      exact released_round decay stack locals
  | caught signal locals =>
      cases piece
      exact Compositional.caught released (fun _ => trivial) free_removes
        (fun _ _ => trivial) decay signal locals
  | returned locals =>
      cases piece
      exact Compositional.returned released locals
  | _ => cases piece

/-! ## What the kernel accounts for -/

/-- Only the unit a process may hold is pending as its adjustment. -/
def Bounded (grips : Pid → Option IpcId) (store : Store) : Prop :=
  ∀ id set, store.sems id = some set → ∀ process,
    set.semadj process 0 ≤ if grips process = some id then 1 else 0

namespace Bounded

variable {grips : Pid → Option IpcId} {store after : Store}
variable {process : Pid}

theorem unheld (bounded : Bounded grips store) (free : grips process = none)
    (id : IpcId) : ¬ Holds process id store := by
  rintro ⟨set, found, holds⟩
  have bound := bounded id set found process
  simp only [free, reduceCtorEq, if_false] at bound
  omega

/-- All sets are old ones or without adjustments. -/
theorem renew (bounded : Bounded grips store)
    (renewed : ∀ id set, after.sems id = some set →
      store.sems id = some set ∨ ∀ process, set.semadj process 0 ≤ 0) :
    Bounded grips after := by
  intro id set found other
  rcases renewed id set found with before | unused
  · exact bounded id set before other
  · have none := unused other
    split <;> omega

theorem same (bounded : Bounded grips store)
    (same : after.sems = store.sems) : Bounded grips after :=
  bounded.renew fun id set found => Or.inl (by rw [← same]; exact found)

/-- A process without a unit pending may be taken not to hold any. -/
theorem release (bounded : Bounded grips store)
    (unheld : ∀ id, ¬ Holds process id store) :
    Bounded (Function.update grips process none) store := by
  intro id set found other
  by_cases own : other = process
  · subst own
    have bound : ¬ 0 < set.semadj other 0 := fun holds =>
      unheld id ⟨set, found, holds⟩
    rw [Function.update_self]
    simp only [reduceCtorEq, if_false]
    omega
  · rw [Function.update_of_ne own]
    exact bounded id set found other

/-- `semop` with `SEM_UNDO`, as the script has it. -/
theorem semop {id : IpcId} {semOp : Int} {nowait underWay : Bool}
    {outcome : Except Errno Unit} (bounded : Bounded grips store)
    (allowed : semOp = -1 ∧ grips process = none ∨
      semOp = 1 ∧ (grips process = none ∨ grips process = some id))
    (served : store.semop process id 0 semOp true nowait underWay =
      some (outcome, after)) :
    Bounded (Function.update grips process
      (script.next (grips process) (.semop id 0 semOp true nowait)
        outcome)) after := by
  rcases Store.semop_cases served with
    ⟨errno, rfl, rfl⟩ | ⟨rfl, set, semval, found, _, rfl⟩
  · have stays : script.next (grips process)
        (.semop id 0 semOp true nowait) (.error errno : Except Errno Unit) =
          grips process := rfl
    rw [stays, Function.update_eq_self]
    exact bounded
  · have moves : script.next (grips process)
        (.semop id 0 semOp true nowait) (.ok () : Except Errno Unit) =
          if semOp = -1 then some id else none := rfl
    rw [moves]
    intro target changed isSet other
    by_cases here : target = id
    · subst here
      rw [Store.setSem_sems, Function.update_self] at isSet
      cases isSet
      have bound := bounded target set found other
      by_cases own : other = process
      · subst own
        simp only [SemSet.operate, if_true, Function.update_self]
        rcases allowed with ⟨rfl, free⟩ | ⟨rfl, mine⟩
        · simp only [free, reduceCtorEq, if_false] at bound
          simp only [if_true]
          omega
        · rcases mine with free | grip
          · simp only [free, reduceCtorEq, if_false] at bound
            simp
            omega
          · simp only [grip, if_true] at bound
            simp
            omega
      · simpa [SemSet.operate, Function.update_of_ne own] using bound
    · rw [Store.setSem_sems, Function.update_of_ne here] at isSet
      have bound := bounded target changed isSet other
      by_cases own : other = process
      · subst own
        rw [Function.update_self]
        have elsewhere : grips other ≠ some target := by
          rcases allowed with ⟨_, free⟩ | ⟨_, free | grip⟩
          · simp [free]
          · simp [free]
          · rw [grip]
            simpa using Ne.symm here
        rw [if_neg elsewhere] at bound
        split <;> omega
      · rw [Function.update_of_ne own]
        exact bound

theorem leave (bounded : Bounded grips store) :
    Bounded (Function.update grips process none) (store.leave process) := by
  intro id set isSet other
  rcases Option.map_eq_some_iff.mp isSet with ⟨before, found, rfl⟩
  by_cases own : other = process
  · subst own
    simp
  · simpa [Function.update_of_ne own] using bounded id before found other

end Bounded

/-- A call that the script has no part in. -/
theorem Bounded.stay {grips : Pid → Option IpcId} {store : Store}
    {process : Pid} {call : Call} {answer : call.Answer}
    (bounded : Bounded grips store)
    (stays : script.next (grips process) call answer = grips process) :
    Bounded (Function.update grips process
      (script.next (grips process) call answer)) store := by
  rw [stays, Function.update_eq_self]
  exact bounded

/-- A call that the script allows keeps the account. -/
theorem Bounded.exec {admits : Choice → Prop} {grips : Pid → Option IpcId}
    {process : Pid} {call : Call} {answer : call.Answer}
    {store after : Store} (bounded : Bounded grips store)
    (allowed : script.allow (grips process) call)
    (exec : (kernel admits).exec process call store answer after) :
    Bounded (Function.update grips process
      (script.next (grips process) call answer)) after := by
  have advanced : ∀ seconds, Bounded grips (store.advance seconds) :=
    fun seconds => bounded.same Store.advance_sems
  cases call with
  | semop id semNum semOp undo nowait =>
      rcases allowed with ⟨rfl, rfl, allowed⟩
      rcases exec_cases exec with
        ⟨choice, _, ⟨errno, refused, rfl⟩ | granted⟩
      · cases refused
        exact (advanced _).stay rfl
      · exact (advanced _).semop allowed granted
  | semget key nsems creat excl =>
      apply Bounded.stay _ rfl
      rcases exec_cases exec with
        ⟨choice, _, ⟨errno, refused, rfl⟩ | granted⟩
      · exact advanced _
      · have final : after = _ :=
          (congrArg Prod.snd (Option.some.inj granted)).symm
        rw [final]
        apply (advanced _).renew
        intro id set found
        exact (Store.semget_sets found).imp_right fun unused process =>
          Int.le_of_eq (unused process 0)
  | semctlSetall id array =>
      apply Bounded.stay _ rfl
      rcases exec_cases exec with
        ⟨choice, _, ⟨errno, refused, rfl⟩ | granted⟩
      · exact advanced _
      · have final : after = _ :=
          (congrArg Prod.snd (Option.some.inj granted)).symm
        rw [final]
        apply (advanced _).renew
        intro id set found
        exact (Store.semctlSetall_sets found).imp_right fun unused process =>
          Int.le_of_eq (unused process 0)
  | semctlRmid id =>
      apply Bounded.stay _ rfl
      rcases exec_cases exec with
        ⟨choice, _, ⟨errno, refused, rfl⟩ | granted⟩
      · exact advanced _
      · have final : after = _ :=
          (congrArg Prod.snd (Option.some.inj granted)).symm
        rw [final]
        apply (advanced _).renew
        intro id set found
        exact Or.inl (Store.semctlRmid_sets found)
  | interruptible call => exact allowed.elim
  | _ => exact (bounded.same (exec_sameSems rfl exec).1).stay rfl

/-- The account is kept, and processes that are not there hold nothing. -/
structure Accounts (crew : Processes) (grips : Pid → Option IpcId) : Prop where
  bounded : Bounded grips crew.state.store
  absent : ∀ process, crew.procs process = none → grips process = none

section Accounts

variable {crew : Processes} {grips : Pid → Option IpcId} {process : Pid}

/-- Only a process that is there concerns its own unit. -/
theorem Accounts.absent_update {program : Prog Label} {grip : Option IpcId}
    (accounts : Accounts crew grips) :
    ∀ other, Function.update crew.procs process (some program) other = none →
      Function.update grips process grip other = none := by
  intro other absent
  by_cases own : other = process
  · subst own
    simp at absent
  · rw [Function.update_of_ne own] at absent ⊢
    exact accounts.absent other absent

/-- A process that ends or jumps without a unit. -/
theorem Accounts.absent_release {program : Option (Prog Label)}
    (accounts : Accounts crew grips) :
    ∀ other, Function.update crew.procs process program other = none →
      Function.update grips process none other = none := by
  intro other absent
  by_cases own : other = process
  · rw [own, Function.update_self]
  · rw [Function.update_of_ne own] at absent ⊢
    exact accounts.absent other absent

end Accounts

variable {admits : Choice → Prop} {inherited : Signal → Bool}

theorem preserves :
    Crew.Preserves (system paths decay admits) Unheld script Accounts where
  call := by
    intro crew grips process call next answer world accounts running allowed
      exec _
    refine ⟨trivial, ?_, accounts.absent_update⟩
    rcases exec_store paths decay exec with ⟨noOperation, same⟩ | ipc
    · have stays : script.next (grips process) call answer =
          grips process := by
        cases call <;> first | rfl | cases noOperation
      exact Bounded.stay (accounts.bounded.same (congrArg Store.sems same)) stays
    · exact accounts.bounded.exec allowed ipc
  fork := by
    intro crew grips parent child call next here there accounts running fresh
      allowed forks _
    cases call with
    | fork =>
        have parentFree : grips parent = none := allowed
        have childFree : grips child = none := accounts.absent child fresh
        have same : Function.update (Function.update grips parent
            (script.next (grips parent) .fork here)) child
              (script.next (grips parent) .fork there) = grips := by
          have stays : ∀ answer : Int,
              script.next (grips parent) .fork answer = none := fun _ =>
            parentFree
          rw [stays, stays, ← parentFree, Function.update_eq_self,
            parentFree, ← childFree, Function.update_eq_self]
        refine ⟨trivial, trivial, ?_⟩
        rw [same]
        refine ⟨accounts.bounded.same rfl, ?_⟩
        intro other absent
        by_cases isChild : other = child
        · rw [isChild]
          exact childFree
        · by_cases isParent : other = parent
          · rw [isParent]
            exact parentFree
          · rw [Crew.record_procs, Function.update_of_ne isChild,
              Function.update_of_ne isParent] at absent
            exact accounts.absent other absent
    | _ => simp [system] at forks
  enter := by
    intro crew grips process label program accounts running stops piece _
    rcases piece with ⟨stack, piece⟩
    have free : grips process = none := stops
    refine ⟨?_, ?_, accounts.absent_update⟩
    · show script.Follows (grips process) program
      rw [free]
      exact follows_code paths decay piece
    · have stays : script.resume (grips process) label = grips process := rfl
      rw [stays, Function.update_eq_self]
      exact accounts.bounded.same (congrArg Store.sems enter_store)
  jump := by
    intro crew grips process program label world accounts running follows jumps
      unheld
    refine ⟨none, rfl, ?_, accounts.absent_release⟩
    cases jumps with
    | caught _ _ _ _ => exact accounts.bounded.release unheld
    | exec =>
        have free : grips process = none := follows.1
        have bounded : Bounded grips (World.exec process crew.state).store :=
          accounts.bounded.same rfl
        exact bounded.release fun id => accounts.bounded.unheld free id
  leave := by
    intro crew grips process program move accounts running _ _ _
    exact ⟨none, accounts.bounded.leave, accounts.absent_release⟩
  outside := by
    intro crew grips event accounts _
    refine ⟨?_, accounts.absent⟩
    rw [Crew.record_state, system, World.post_store]
    exact accounts.bounded

variable {store : Store} {labels : Pid → Option Label} {crew : Processes}

/--
In a run in which no signal is caught by a process that holds a unit, no
process that waits for the unit of a set holds it.
-/
theorem waiting_unheld {process : Pid} {id : IpcId} {undo nowait : Bool}
    {next : Except Errno Unit → Prog Label}
    (unused : ∀ process id, ¬ Holds process id store)
    (reach : Crew.Reach (system paths decay admits) Unheld
      (begin store inherited labels) crew)
    (waiting : crew.procs process =
      some (.issue (.semop id 0 (-1) undo nowait) next)) :
    ¬ Holds process id crew.state.store := by
  have initially : Crew.Simulated script Accounts
      (begin store inherited labels) fun _ => none := by
    refine ⟨⟨?_, fun _ _ => rfl⟩, ?_⟩
    · intro id set found process
      have bound : ¬ 0 < set.semadj process 0 := fun holds =>
        unused process id ⟨set, found, holds⟩
      simp only [reduceCtorEq, if_false]
      omega
    · intro process program running
      rcases begin_procs running with ⟨label, _, rfl⟩
      exact rfl
  rcases reach.simulated (preserves paths decay) initially with
    ⟨grips, accounts, follows⟩
  rcases (follows process _ waiting).1 with
    ⟨_, _, ⟨_, free⟩ | ⟨impossible, _⟩⟩
  · exact accounts.bounded.unheld free id
  · cases impossible

/-- The first process waits for the unit of the mutex. -/
def atSemop (crew : Processes) : Bool :=
  match crew.procs 1 with
  | some (.issue (.semop id semNum semOp undo nowait) _) =>
      (id, semNum, semOp, undo, nowait) == (mutexId, 0, -1, true, false)
  | _ => false

theorem waiting_of_atSemop (waits : atSemop crew = true) :
    ∃ next : Except Errno Unit → Prog Label,
      crew.procs 1 =
        some (.issue (.semop mutexId 0 (-1) true false) next) := by
  unfold atSemop at waits
  split at waits
  · rename_i id semNum semOp undo nowait next running
    rw [beq_iff_eq, Prod.mk.injEq, Prod.mk.injEq, Prod.mk.injEq,
      Prod.mk.injEq] at waits
    rcases waits with ⟨rfl, rfl, rfl, rfl, rfl⟩
    exact ⟨next, running⟩
  · cases waits

theorem any_semset {set : Option SemSet} {property : SemSet → Bool}
    (holds : set.any property = true) :
    ∃ value, set = some value ∧ property value = true := by
  cases set with
  | none => cases holds
  | some value => exact ⟨value, rfl, holds⟩

theorem channel_unheld (attached : List Pid) :
    ∀ process id, ¬ Holds process id (channel attached) := by
  rintro process id ⟨set, found, holds⟩
  simp only [channel] at found
  split at found
  · cases found
    simp at holds
  · cases found

/-- The child takes the unit before the supervisor asks for it. -/
def childInside : List Turn :=
  .enter 1 .stopped :: calls 1 8 ++ .fork 1 2 :: calls 2 1

/-- The handler runs for the supervisor while it stores the child. -/
def caughtInside : List Turn :=
  .enter 1 .stopped :: calls 1 8 ++ .fork 1 2 :: calls 1 1 ++
    [.raise 1 .SIGHUP, .caught 1 .SIGHUP, .enter 1 .stopped]

/-- The check that no handler runs. -/
def uncaught (_ : Processes) : Moves → Bool
  | .jump _ (.caught ..) => false
  | _ => true

/-- The supervisor waits for the unit while its child holds it. -/
theorem waiting_unheld_child_inside :
    ∃ crew : Processes, atSemop crew = true ∧
      Holds 2 mutexId crew.state.store ∧
        ¬ Holds 1 mutexId crew.state.store := by
  have computed : (Daemon.follow .devtmpfs (fun _ => 0) uncaught childInside
      supervised).any
        (fun crew => atSemop crew &&
          (crew.state.store.sems mutexId).any fun set =>
            set.semadj 2 0 == 1) = true := by
    decide
  have sound : ∀ crew move,
      Crew.Reach (system .devtmpfs (fun _ => 0) fun _ => True)
        Crew.Unrestricted supervised crew →
          uncaught crew move = true → Unheld crew move := by
    intro crew move _ passed
    unfold uncaught at passed
    split at passed
    · cases passed
    · rename_i others
      unfold Unheld
      split
      · exact (others _ _ _ rfl).elim
      · trivial
  rcases Daemon.follow_reaches .devtmpfs (fun _ => 0) sound
    Turn.admitted_any computed with
    ⟨crew, reach, final⟩
  rw [Bool.and_eq_true] at final
  rcases waiting_of_atSemop final.1 with ⟨next, waiting⟩
  refine ⟨crew, final.1, ?_, waiting_unheld .devtmpfs (fun _ => 0)
    (channel_unheld [1]) reach waiting⟩
  rcases any_semset final.2 with ⟨set, found, state⟩
  rw [beq_iff_eq] at state
  refine ⟨set, found, ?_⟩
  rw [state]
  decide

/-- A supervisor whose handler runs while it stores the child in the segment
waits for its own unit, and nobody can end that. -/
theorem supervisor_waits_for_itself :
    ∃ crew : Processes,
      Crew.Reach (system .devtmpfs (fun _ => 0) fun _ => True)
          Crew.Unrestricted supervised crew ∧
        (∃ next : Except Errno Unit → Prog Label,
          crew.procs 1 =
            some (.issue (.semop mutexId 0 (-1) true false) next)) ∧
        Holds 1 mutexId crew.state.store ∧
        ∀ underWay, crew.state.store.semop 1 mutexId 0 (-1) true false
          underWay = none := by
  have computed : (Daemon.follow .devtmpfs (fun _ => 0) anything caughtInside
      supervised).any
        (fun crew => atSemop crew &&
          (crew.state.store.sems mutexId).any fun set =>
            set.semadj 1 0 == 1 && set.semvals == [0]) = true := by
    decide
  rcases follow_reaches_any .devtmpfs (fun _ => 0) computed with
    ⟨crew, reach, final⟩
  rw [Bool.and_eq_true] at final
  rcases any_semset final.2 with ⟨set, found, state⟩
  rw [Bool.and_eq_true, beq_iff_eq, beq_iff_eq] at state
  refine ⟨crew, reach, waiting_of_atSemop final.1, ⟨set, found, ?_⟩, ?_⟩
  · rw [state.1]
    decide
  · intro underWay
    have value : set.semvals[0]? = some 0 := by
      rw [state.2]
      rfl
    exact Store.semop_short 0 found value (by decide)

end Atomicles.Grip
