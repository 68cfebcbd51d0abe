import Atomicles.Lock.Publication
import Atomicles.Kernel.Names

/-!
# Which `create` an object belongs to

A set or a segment belongs to the process that made it.  With any number of
`create`s on one key, a process that has made a set or a segment has made no
other one under that name; the set keeps the creation time that its `SETALL`
left, and the words of the segment are those of its maker.
-/

namespace Atomicles.Ownership

open Interaction
open Publication (Quiet Named)

/-! ## Makers -/

/-- The set that an answered call has made. -/
def madeSet : Event signature → Option IpcId
  | ⟨.semget _ _ true _, (made : Except Errno IpcId)⟩ => made.toOption
  | _ => none

/-- The segment that an answered call has made. -/
def madeSegment : Event signature → Option IpcId
  | ⟨.shmget _ _ true _, (made : Except Errno IpcId)⟩ => made.toOption
  | _ => none

/-- The process that has made an object, which is the first one to get its
identifier. -/
def maker (makes : Event signature → Option IpcId) (id : IpcId) :
    List (Entry signature Pid Store) → Option Pid
  | [] => none
  | ⟨.call process event, _⟩ :: earlier =>
      (maker makes id earlier).or
        (if makes event = some id then some process else none)
  | _ :: earlier => maker makes id earlier

/-- The creation time that the last `SETALL` of a process on a set of a name
has left. -/
def filledBy (process : Pid) (name : Key) :
    List (Entry signature Pid Store) → Option Time
  | [] => none
  | ⟨.call actor ⟨.semctlSetall id _, (filled : Except Errno Unit)⟩, store⟩ ::
      earlier =>
      if actor = process ∧ id.key = name ∧ filled = .ok () then
        (store.sems id).map (·.sem_ctime)
      else filledBy process name earlier
  | _ :: earlier => filledBy process name earlier

section Log

variable {log : List (Entry signature Pid Store)} {process owner : Pid}
variable {event : Event signature} {state : Store} {id : IpcId}
variable {makes : Event signature → Option IpcId}

/-- What has a maker keeps it. -/
theorem maker_later (entry : Entry signature Pid Store)
    (made : maker makes id log = some owner) :
    maker makes id (entry :: log) = some owner := by
  rcases entry with ⟨label, state⟩
  cases label with
  | call process event => simp [maker, made]
  | _ => exact made

theorem maker_other (other : makes event ≠ some id) :
    maker makes id (⟨.call process event, state⟩ :: log) =
      maker makes id log := by
  simp [maker, other]

theorem maker_nothing (nothing : makes event = none) (id : IpcId) :
    maker makes id (⟨.call process event, state⟩ :: log) =
      maker makes id log := by
  apply maker_other
  rw [nothing]
  exact fun impossible => nomatch impossible

theorem maker_made (made : makes event = some id)
    (fresh : maker makes id log = none) :
    maker makes id (⟨.call process event, state⟩ :: log) = some process := by
  simp [maker, made, fresh]

theorem filledBy_other {array : List UShort} {filled : Except Errno Unit}
    {name : Key}
    (other : process ≠ owner ∨ id.key ≠ name ∨ filled ≠ .ok ()) :
    filledBy owner name
      (⟨.call process ⟨.semctlSetall id array, filled⟩, state⟩ :: log) =
        filledBy owner name log := by
  refine if_neg ?_
  rintro ⟨same, isName, isOk⟩
  rcases other with different | different | failed
  · exact different same
  · exact different isName
  · exact failed isOk

variable {call : Call} {answer : call.Answer}

theorem madeSet_quiet (quiet : Quiet call) :
    madeSet ⟨call, answer⟩ = none := by
  cases call with
  | semget name nsems creat excl =>
      cases creat with
      | false => rfl
      | true => cases quiet
  | _ => rfl

theorem madeSegment_quiet (quiet : Quiet call) :
    madeSegment ⟨call, answer⟩ = none := by
  cases call with
  | shmget name size creat excl =>
      cases creat with
      | false => rfl
      | true => cases quiet
  | _ => rfl

theorem filledBy_quiet (quiet : Quiet call) (name : Key) :
    filledBy owner name (⟨.call process ⟨call, answer⟩, state⟩ :: log) =
      filledBy owner name log := by
  cases call <;> first | rfl | exact quiet.elim

end Log

/-! ## The protocol of `create` -/

/-- How far a `create` has come. -/
inductive Progress where
  | start
  | named (user : IpcId)
  | filled (user : IpcId)
  | laying (user segment : IpcId)

/-- A `create` with its arguments; the other commands stay outside. -/
inductive Stage where
  | outside
  | creating (semaphores : UInt) (expire : Time) (progress : Progress)

/-- The set that a `create` has made. -/
def Stage.user : Stage → Option IpcId
  | .creating _ _ (.named user) => some user
  | .creating _ _ (.filled user) => some user
  | .creating _ _ (.laying user _) => some user
  | _ => none

/-- The segment that a `create` has made. -/
def Stage.segment : Stage → Option IpcId
  | .creating _ _ (.laying _ segment) => some segment
  | _ => none

/-- A `create` that has filled its set. -/
def Stage.Fills : Stage → Prop
  | .creating _ _ (.filled _) => True
  | .creating _ _ (.laying _ _) => True
  | _ => False

theorem Stage.fills_of_segment {stage : Stage} {segment : IpcId}
    (owns : stage.segment = some segment) : stage.Fills := by
  cases stage with
  | outside => cases owns
  | creating semaphores expire progress =>
      cases progress <;> trivial

/-- The set is made and filled, then the segment is made, and then its words
are stored. -/
def protocol (paths : KeyPaths) (key : Key) : Protocol signature Stage where
  allow stage call :=
    match call with
    | .semget name _ creat excl => creat = true → excl = true ∧
        ((∃ semaphores expire, stage = .creating semaphores expire .start ∧
          name = paths.semKey key) ∨
        stage.segment.isSome = true ∧ name ≠ paths.semKey key)
    | .semctlSetall id _ =>
        (∃ semaphores expire,
          stage = .creating semaphores expire (.named id)) ∨
        stage.segment.isSome = true ∧ id.key ≠ paths.semKey key
    | .shmget name _ creat excl => creat = true →
        excl = true ∧ name = paths.shmKey key ∧
          ∃ semaphores expire user,
            stage = .creating semaphores expire (.filled user)
    | .store addr offset value => ∃ semaphores expire user segment,
        stage = .creating semaphores expire (.laying user segment) ∧
          addr = .mapped segment ∧
          Expiry.written semaphores expire offset = some value
    | .vsnprintf .. => False
    | .fork => False
    | .interruptible _ => False
    | _ => True
  answer _ call answer := Named ⟨call, answer⟩
  next stage call answer :=
    match call, answer with
    | .semget _ _ true _, (made : Except Errno IpcId) =>
        match stage, made with
        | .creating semaphores expire .start, .ok id =>
            .creating semaphores expire (.named id)
        | _, _ => stage
    | .semctlSetall .., (filled : Except Errno Unit) =>
        match stage, filled with
        | .creating semaphores expire (.named user), .ok () =>
            .creating semaphores expire (.filled user)
        | _, _ => stage
    | .shmget _ _ true _, (made : Except Errno IpcId) =>
        match stage, made with
        | .creating semaphores expire (.filled user), .ok id =>
            .creating semaphores expire (.laying user id)
        | _, _ => stage
    | _, _ => stage

section Conformance

variable {paths : KeyPaths} {key : Key}

theorem transparent : Transparent (protocol paths key) where
  allow stage call locks := by
    cases call <;> trivial
  next stage call answer locks := by
    cases call <;> first | rfl | exact locks.elim

theorem quiet_allowed {stage : Stage} {call : Call} (quiet : Quiet call) :
    (protocol paths key).allow stage call := by
  cases call <;> first
    | trivial
    | exact quiet.elim
    | exact fun creates => absurd (quiet.symm.trans creates) (by decide)

theorem quiet_stays {stage : Stage} {call : Call} {answer : call.Answer}
    (quiet : Quiet call) :
    (protocol paths key).next stage call answer = stage := by
  cases call with
  | semget name nsems creat excl =>
      cases creat with
      | false => rfl
      | true => cases quiet
  | shmget name size creat excl =>
      cases creat with
      | false => rfl
      | true => cases quiet
  | _ => first | rfl | exact quiet.elim

/-- The arguments of a `create` stay. -/
theorem next_creating {stage : Stage} {call : Call} {answer : call.Answer}
    {semaphores : UInt} {expire : Time} {progress : Progress}
    (reached : (protocol paths key).next stage call answer =
      .creating semaphores expire progress) :
    ∃ before, stage = .creating semaphores expire before := by
  simp only [protocol] at reached
  repeat' split at reached
  all_goals first
    | exact ⟨_, reached⟩
    | cases reached
      exact ⟨_, rfl⟩

/-- A process outside makes nothing. -/
theorem quiet_outside {call : Call}
    (allowed : (protocol paths key).allow .outside call) : Quiet call := by
  cases call with
  | semget name nsems creat excl =>
      cases creat with
      | false => rfl
      | true =>
          rcases (allowed rfl).2 with
            ⟨_, _, impossible, _⟩ | ⟨impossible, _⟩ <;> cases impossible
  | semctlSetall id array =>
      rcases allowed with ⟨_, _, impossible⟩ | ⟨impossible, _⟩ <;>
        cases impossible
  | shmget name size creat excl =>
      cases creat with
      | false => rfl
      | true =>
          rcases (allowed rfl).2.2 with ⟨_, _, _, impossible⟩
          cases impossible
  | store addr offset value =>
      rcases allowed with ⟨_, _, _, _, impossible, _⟩
      cases impossible
  | _ => trivial

/-- The commands that make nothing stay outside. -/
theorem conforms_quiet {Value : Type} {program : Prog Value}
    (quiet : program.Within Quiet) :
    program.Conforms (protocol paths key) .outside fun _ _ => True :=
  (quiet.conforms (fun _ quiet => quiet_allowed quiet)
    (fun _ _ quiet => quiet_stays quiet)).mono fun _ _ _ => trivial

variable {semaphores : UInt} {expire : Time} {user segment : IpcId}

/-- `Semaphore$new` for the mutex of the segment. -/
theorem conforms_mutex {Result : Type}
    {continuation : Option Semaphore → Prog Result}
    (rest : ∀ shsem, (continuation shsem).Conforms (protocol paths key)
      (.creating semaphores expire (.laying user segment))
      fun _ _ => True) :
    (Semaphore.new paths (key + 128) 1 1 false >>= continuation).Conforms
      (protocol paths key)
      (.creating semaphores expire (.laying user segment))
      fun _ _ => True := by
  have apart : paths.semKey (key + 128) ≠ paths.semKey key :=
    paths.semKey_mutex_ne key
  rw [Semaphore.new_bind]
  refine ⟨trivial, ?_⟩
  intro (block : Option Unit) _
  cases block with
  | none => exact rest none
  | some success =>
      refine ⟨fun _ => ⟨rfl, Or.inr ⟨rfl, apart⟩⟩, ?_⟩
      intro (made : Except Errno IpcId) named
      cases made with
      | error errno =>
          have ends : ¬ (false = true ∧ errno = .EEXIST) := by simp
          simp only [ends, if_false]
          exact rest none
      | ok id =>
          have isMutex : id.key = paths.semKey (key + 128) := named id rfl
          refine ⟨Or.inr ⟨rfl, by rwa [isMutex]⟩, ?_⟩
          intro (filled : Except Errno Unit) _
          cases filled with
          | error errno => exact rest none
          | ok success => exact rest (some _)

/-- `SharedMemory$new` makes the segment, and its handle leads there. -/
theorem conforms_new {Result : Type}
    {continuation : Option SharedMemory → Prog Result}
    (missing : ∀ stage, (continuation none).Conforms (protocol paths key)
      stage fun _ _ => True)
    (made : ∀ shmem segment, shmem.addr = .mapped segment →
      (continuation (some shmem)).Conforms (protocol paths key)
        (.creating semaphores expire (.laying user segment))
        fun _ _ => True) :
    (SharedMemory.new paths key 16 false >>= continuation).Conforms
      (protocol paths key) (.creating semaphores expire (.filled user))
      fun _ _ => True := by
  have frees : ∀ (shmem : SharedMemory) stage,
      (SharedMemory.delete shmem false >>= fun _ =>
        continuation none).Conforms (protocol paths key) stage
          fun _ _ => True := by
    intro shmem stage
    cases owned : shmem.shsem <;>
      simpa [SharedMemory.delete, owned] using missing stage
  simp only [SharedMemory.new, mallocSharedMemory, Program.issue_bind,
    Program.done_bind]
  refine ⟨trivial, ?_⟩
  intro (block : Option SharedMemory) _
  cases block with
  | none => exact missing _
  | some block =>
      simp only [bind_assoc]
      rw [SharedMemory.newSegment_bind]
      refine ⟨fun _ => ⟨rfl, rfl, semaphores, expire, user, rfl⟩, ?_⟩
      intro (segment : Except Errno IpcId) _
      cases segment with
      | error errno =>
          have fails : errno.code ≠ EXIT_SUCCESS := errno.code_ne_success
          simp only [Bool.false_eq_true, and_false, if_false, fails]
          simpa [bind_assoc] using frees _ _
      | ok segment =>
          dsimp only
          rw [SharedMemory.shmat_bind]
          refine ⟨trivial, ?_⟩
          intro (mapped : Except Errno Addr) isMapped
          cases mapped with
          | error errno =>
              have fails : EXIT_FAILURE ≠ EXIT_SUCCESS := by decide
              simp only [ne_eq, not_true_eq_false, if_false, fails, bind_assoc]
              exact frees _ _
          | ok addr =>
              have isAddr : addr = .mapped segment := isMapped addr rfl
              subst isAddr
              simp only [ne_eq, reduceCtorEq, not_false_eq_true, if_true,
                bind_assoc]
              apply conforms_mutex
              intro mutex
              cases mutex with
              | none => simpa [bind_assoc] using frees _ _
              | some mutex =>
                  have pages : ∀ shmem : SharedMemory,
                      (SharedMemory.lockPages shmem).Within Quiet :=
                    SharedMemory.within_lockPages trivial fun _ _ => trivial
                  simp only [bind_assoc]
                  apply (pages _).conforms_bind (fun _ => quiet_allowed)
                    (fun _ _ => quiet_stays)
                  intro locked
                  split
                  · simpa [bind_assoc] using frees _ _
                  · exact made _ segment rfl

/-- A store of one of the words. -/
theorem conforms_write {shmem : SharedMemory} {offset : UShort} {n : UInt}
    {continuation : Unit → Prog Int} (isAddr : shmem.addr = .mapped segment)
    (lays : Expiry.written semaphores expire offset.toNat = some n)
    (rest : (continuation ()).Conforms (protocol paths key)
      (.creating semaphores expire (.laying user segment)) fun _ _ => True) :
    (SharedMemory.writeUint shmem offset n >>= continuation).Conforms
      (protocol paths key)
      (.creating semaphores expire (.laying user segment))
      fun _ _ => True :=
  Transparent.write transparent
    ⟨semaphores, expire, user, segment, rfl, isAddr, lays⟩ fun _ => rest

theorem conforms_create :
    (Lock.create paths key semaphores expire).Conforms (protocol paths key)
      (.creating semaphores expire .start) fun _ _ => True := by
  unfold Lock.create
  rw [Semaphore.new_bind]
  refine ⟨trivial, ?_⟩
  intro (block : Option Unit) _
  cases block with
  | none => trivial
  | some success =>
      refine ⟨fun _ => ⟨rfl, Or.inl ⟨semaphores, expire, rfl, rfl⟩⟩, ?_⟩
      intro (made : Except Errno IpcId) _
      cases made with
      | error errno => simp
      | ok user =>
          refine ⟨Or.inl ⟨semaphores, expire, rfl⟩, ?_⟩
          intro (filled : Except Errno Unit) _
          cases filled with
          | error errno => trivial
          | ok success =>
              dsimp only
              apply conforms_new
              · intro stage
                trivial
              · intro shmem segment isAddr
                apply conforms_write isAddr rfl
                apply conforms_write isAddr rfl
                apply conforms_write isAddr rfl
                apply conforms_write isAddr rfl
                cases owned : shmem.shsem <;>
                  simp [SharedMemory.delete, owned]

end Conformance

end Atomicles.Ownership
