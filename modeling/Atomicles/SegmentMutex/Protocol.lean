import Atomicles.Kernel.Mutex
import Atomicles.Source.Equations

/-!
# Processes that share a segment

Any number of processes obtain the handle of one segment with
`SharedMemory$new`, which one of them creates, and access the segment through
it.  Each process follows a protocol: it looks the mutex up or creates it,
the creator sets its value, and from then on the process takes and releases
it in turn.
-/

namespace Atomicles.SegmentMutex

open Interaction

/-- One access to the segment. -/
inductive Access where
  | write (offset : UShort) (text : List (BitVec 8))
  | read (offset : UShort)
  | writeUint (offset : UShort) (n : UInt)
  | readUint (offset : UShort)
  | writeUint32 (offset : UShort) (n : UInt)
  | readUint32 (offset : UShort)

/-- The call of an access function; what is read is dropped. -/
def Access.run (this : SharedMemory) : Access → Prog Unit
  | .write offset text => SharedMemory.write this offset text
  | .read offset => do
      let _ ← SharedMemory.read this offset
      return ()
  | .writeUint offset n => SharedMemory.writeUint this offset n
  | .readUint offset => do
      let _ ← SharedMemory.readUint this offset
      return ()
  | .writeUint32 offset n => SharedMemory.writeUint32 this offset n
  | .readUint32 offset => do
      let _ ← SharedMemory.readUint32 this offset
      return ()

/-- A sequence of accesses. -/
def accessAll (this : SharedMemory) : List Access → Prog Unit
  | [] => return ()
  | access :: rest => do
      access.run this
      accessAll this rest

variable (paths : KeyPaths) (key : Key)

/-- A process that obtains the handle and makes its accesses through it. -/
def client (size : Nat) (accesses : List Access) : Prog Unit := do
  match ← SharedMemory.new paths key size true with
  | none => return ()
  | some this => accessAll this accesses

/-- The name of the mutex. -/
abbrev mutexKey : Key :=
  paths.semKey (key + 128)

/-- The first set made under the name of the mutex. -/
abbrev mutexId : IpcId :=
  ⟨mutexKey paths key, 1⟩

/-! ## The protocol of a process -/

/-- How far a process is with the mutex. -/
inductive Phase where
  | fresh
  | creator
  | ready
  | inside
deriving DecidableEq

/-- The calls allowed in a phase, and what their answers are relied on. -/
def protocol : Protocol signature Phase where
  allow phase call :=
    match call with
    | .semget name nsems creat excl =>
        phase = .fresh ∧ name = mutexKey paths key ∧
          (creat = true → nsems = 1 ∧ excl = true)
    | .semctlSetall id array =>
        phase = .creator ∧ id = mutexId paths key ∧ array = [1]
    | .semctlGetval id semnum =>
        phase = .inside ∧ id = mutexId paths key ∧ semnum = 0
    | .semop id semNum semOp undo nowait =>
        id = mutexId paths key ∧ semNum = 0 ∧ undo = true ∧ nowait = false ∧
          (phase = .ready ∧ semOp = -1 ∨ phase = .inside ∧ semOp = 1)
    | .semctlRmid _ => False
    | .fork => False
    | .interruptible _ => False
    | .die cause => cause = .segv
    | _ => True
  answer _ call answer :=
    match call, answer with
    | .semget .., (found : Except Errno IpcId) =>
        ∀ id, found = .ok id → id = mutexId paths key
    | .semctlSetall .., (outcome : Except Errno Unit) => outcome = .ok ()
    | .semctlGetval .., (value : Except Errno Nat) => value = .ok 0
    | .semop .., (outcome : Except Errno Unit) => outcome = .ok ()
    | _, _ => True
  next phase call answer :=
    match call, answer with
    | .semget _ _ creat _, (found : Except Errno IpcId) =>
        match found with
        | .ok _ => if creat then .creator else .ready
        | .error _ => phase
    | .semctlSetall .., _ => .ready
    | .semop _ _ semOp _ _, _ => if semOp < 0 then .inside else .ready
    | _, _ => phase

/-- A handle that `SharedMemory$new` returns has a mutex. -/
def Equipped (this : SharedMemory) : Prop :=
  ∃ shsem, this.shsem = some shsem ∧ shsem.id = mutexId paths key ∧
    shsem.size = 1

variable {paths key}
variable {Value : Type} {post : Phase → Value → Prop} {this : SharedMemory}

theorem conforms_segv {phase : Phase} :
    Program.Conforms (protocol paths key) phase (die .segv : Prog Value)
      post :=
  ⟨rfl, fun impossible => impossible.elim⟩

section Access

variable {continuation : Unit → Prog Value}

theorem conforms_enter (equipped : Equipped paths key this)
    (rest : Program.Conforms (protocol paths key) .inside (continuation ())
      post) :
    Program.Conforms (protocol paths key) .ready
      (SharedMemory.enter this >>= continuation) post := by
  rcases equipped with ⟨shsem, owned, isMutex, _⟩
  rw [SharedMemory.enter_bind owned]
  constructor
  · exact ⟨isMutex, rfl, rfl, rfl, Or.inl ⟨rfl, rfl⟩⟩
  · intro outcome taken
    have succeeded : outcome = .ok () := taken
    subst succeeded
    exact rest

theorem conforms_exit (equipped : Equipped paths key this)
    (rest : Program.Conforms (protocol paths key) .ready (continuation ())
      post) :
    Program.Conforms (protocol paths key) .inside
      (SharedMemory.exit this >>= continuation) post := by
  rcases equipped with ⟨shsem, owned, isMutex, size⟩
  rw [SharedMemory.exit_bind owned]
  constructor
  · exact ⟨rfl, isMutex, rfl⟩
  · intro value isZero
    have empty : value = .ok 0 := isZero
    subst empty
    have used : ((shsem.size.toNat : Int) -
        Semaphore.readValue (.ok 0) > 0) := by
      simp [size, Semaphore.readValue]
    dsimp only
    rw [if_pos used]
    constructor
    · exact ⟨isMutex, rfl, rfl, rfl, Or.inr ⟨rfl, rfl⟩⟩
    · intro outcome given
      have succeeded : outcome = .ok () := given
      subst succeeded
      exact rest

end Access

/-! ## Calls that do not concern the mutex -/

/-- Calls on segments, memory and the heap, and the end by a wild access. -/
def Quiet : Call → Prop
  | .semget .. => False
  | .semctlSetall .. => False
  | .semctlGetval .. => False
  | .semctlRmid .. => False
  | .semop .. => False
  | .fork => False
  | .interruptible _ => False
  | .die cause => cause = .segv
  | _ => True

theorem quiet_allowed {phase : Phase} (call : Call) (quiet : Quiet call) :
    (protocol paths key).allow phase call := by
  cases call with
  | die cause => exact quiet
  | semget _ _ _ _ => exact quiet.elim
  | semctlSetall _ _ => exact quiet.elim
  | semctlGetval _ _ => exact quiet.elim
  | semctlRmid _ => exact quiet.elim
  | semop _ _ _ _ _ => exact quiet.elim
  | fork => exact quiet.elim
  | interruptible _ => exact quiet.elim
  | _ => trivial

theorem quiet_stays {phase : Phase} (call : Call) (answer : call.Answer)
    (quiet : Quiet call) :
    (protocol paths key).next phase call answer = phase := by
  cases call with
  | semget _ _ _ _ => exact quiet.elim
  | semctlSetall _ _ => exact quiet.elim
  | semop _ _ _ _ _ => exact quiet.elim
  | _ => rfl

theorem quiet_relied {phase : Phase} (call : Call) (answer : call.Answer)
    (quiet : Quiet call) : (protocol paths key).answer phase call answer := by
  cases call with
  | semget _ _ _ _ => exact quiet.elim
  | semctlSetall _ _ => exact quiet.elim
  | semctlGetval _ _ => exact quiet.elim
  | semop _ _ _ _ _ => exact quiet.elim
  | _ => trivial

theorem quiet_spares (call : Call) (quiet : Quiet call) :
    call.sparesSems = true := by
  cases call with
  | semget _ _ _ _ => exact quiet.elim
  | semctlSetall _ _ => exact quiet.elim
  | semctlRmid _ => exact quiet.elim
  | semop _ _ _ _ _ => exact quiet.elim
  | interruptible _ => exact quiet.elim
  | _ => rfl

theorem quiet_passes (call : Call) (answer : call.Answer) (quiet : Quiet call)
    (id : IpcId) : passes id ⟨call, answer⟩ = none := by
  cases call with
  | semop _ _ _ _ _ => exact quiet.elim
  | _ => rfl

theorem quiet_setall (call : Call) (quiet : Quiet call) (id : IpcId)
    (array : List UShort) : call ≠ .semctlSetall id array := by
  rintro rfl
  exact quiet

theorem conforms_quiet {Answer : Type} {phase : Phase}
    {program : Prog Answer} {continuation : Answer → Prog Value}
    (quiet : Program.Within Quiet program)
    (rest : ∀ answer,
      Program.Conforms (protocol paths key) phase (continuation answer) post) :
    Program.Conforms (protocol paths key) phase (program >>= continuation)
      post :=
  quiet.conforms_bind quiet_allowed quiet_stays rest

theorem quiet_segv : Program.Within Quiet (die .segv : Prog Value) :=
  ⟨rfl, fun impossible => impossible.elim⟩

theorem quiet_load {addr : Addr} {offset : Nat} :
    Program.Within Quiet (load addr offset) := by
  refine ⟨trivial, ?_⟩
  intro (word : Option UInt)
  cases word with
  | none => exact quiet_segv
  | some value => trivial

theorem quiet_store {addr : Addr} {offset : Nat} {value : UInt} :
    Program.Within Quiet (store addr offset value) := by
  refine ⟨trivial, ?_⟩
  intro (done : Option Unit)
  cases done with
  | none => exact quiet_segv
  | some success => trivial

theorem quiet_vsnprintf {addr : Addr} {offset n : Nat}
    {text : List (BitVec 8)} :
    Program.Within Quiet (vsnprintf addr offset n text) := by
  refine ⟨trivial, ?_⟩
  intro (done : Option Unit)
  cases done with
  | none => exact quiet_segv
  | some success => trivial

theorem quiet_strncpy {addr : Addr} {offset n : Nat} :
    Program.Within Quiet (strncpy addr offset n) := by
  refine ⟨trivial, ?_⟩
  intro (copied : Option (List (BitVec 8)))
  cases copied with
  | none => exact quiet_segv
  | some buffer => trivial

theorem quiet_shmat {id : IpcId} : Program.Within Quiet (shmat id) := by
  refine ⟨trivial, ?_⟩
  intro (mapped : Except Errno Addr)
  cases mapped <;> trivial

/-- Getting the segment. -/
theorem quiet_newSegment {size : Nat} {attach : Bool} :
    Program.Within Quiet (SharedMemory.newSegment paths this size attach) := by
  rw [← bind_pure (SharedMemory.newSegment paths this size attach),
    SharedMemory.newSegment_bind]
  refine ⟨trivial, ?_⟩
  intro (made : Except Errno IpcId)
  cases made with
  | ok id =>
      apply quiet_shmat.bind
      intro addr
      split <;> trivial
  | error errno =>
      dsimp only
      split
      · refine ⟨trivial, ?_⟩
        intro (again : Except Errno IpcId)
        cases again with
        | ok id =>
            apply quiet_shmat.bind
            intro addr
            split <;> trivial
        | error errno => trivial
      · trivial

/-- Locking its pages. -/
theorem quiet_lockPages :
    Program.Within Quiet (SharedMemory.lockPages this) := by
  refine ⟨trivial, ?_⟩
  intro (all : Except Errno Unit)
  cases all with
  | ok success => trivial
  | error errno =>
      refine ⟨trivial, ?_⟩
      intro (locked : Except Errno Unit)
      cases locked <;> trivial

/-! ## The programs follow the protocol -/

/-- `Semaphore$new` of the mutex: its caller becomes the creator and leaves
with an initialised set, or finds the set. -/
theorem conforms_semaphoreNew {continuation : Option Semaphore → Prog Value}
    (failed : Program.Conforms (protocol paths key) .fresh (continuation none)
      post)
    (obtained : ∀ shsem : Semaphore,
      shsem.id = mutexId paths key → shsem.size = 1 →
        Program.Conforms (protocol paths key) .ready
          (continuation (some shsem)) post) :
    Program.Conforms (protocol paths key) .fresh
      (Semaphore.new paths (key + 128) 1 1 true >>= continuation) post := by
  rw [Semaphore.new_bind]
  refine ⟨trivial, ?_⟩
  intro (block : Option Unit) _
  cases block with
  | none => exact failed
  | some success =>
      refine ⟨⟨rfl, rfl, fun _ => ⟨rfl, rfl⟩⟩, ?_⟩
      intro (made : Except Errno IpcId) isMutex
      cases made with
      | ok id =>
          have isFirst : id = mutexId paths key := isMutex id rfl
          refine ⟨⟨rfl, isFirst, rfl⟩, ?_⟩
          intro (outcome : Except Errno Unit) succeeded
          have isOk : outcome = .ok () := succeeded
          subst isOk
          exact obtained _ isFirst rfl
      | error errno =>
          by_cases taken : errno = .EEXIST
          · simp only [taken, and_self, if_true]
            refine ⟨⟨rfl, rfl, by simp⟩, ?_⟩
            intro (found : Except Errno IpcId) isMutex
            cases found with
            | ok id => exact obtained _ (isMutex id rfl) rfl
            | error errno => exact failed
          · simp only [taken, and_false, if_false]
            exact failed

/-- A handle from `SharedMemory$new` comes with an initialised mutex. -/
theorem conforms_new {size : Nat}
    {continuation : Option SharedMemory → Prog Value}
    (failed : ∀ phase,
      Program.Conforms (protocol paths key) phase (continuation none) post)
    (obtained : ∀ this, Equipped paths key this →
      Program.Conforms (protocol paths key) .ready (continuation (some this))
        post) :
    Program.Conforms (protocol paths key) .fresh
      (SharedMemory.new paths key size true >>= continuation) post := by
  simp only [SharedMemory.new, mallocSharedMemory, Program.issue_bind,
    Program.done_bind]
  refine ⟨trivial, ?_⟩
  intro (block : Option SharedMemory) _
  cases block with
  | none => exact failed _
  | some block =>
      simp only [bind_assoc]
      apply conforms_quiet quiet_newSegment
      rintro ⟨success, this⟩
      dsimp only
      split
      · simp only [bind_assoc]
        apply conforms_semaphoreNew
        · simpa [SharedMemory.delete] using failed _
        · intro shsem isMutex size
          simp only [bind_assoc]
          apply conforms_quiet quiet_lockPages
          intro locked
          split
          · simpa [SharedMemory.delete] using failed _
          · exact obtained _ ⟨shsem, rfl, isMutex, size⟩
      · have left : (SharedMemory.delete this false >>= fun _ =>
            (pure none : Prog (Option SharedMemory)) >>= continuation) =
              continuation none := by
          cases owned : this.shsem <;>
            simp [SharedMemory.delete, owned]
        simp only [bind_assoc, left]
        exact failed _

theorem conforms_access (equipped : Equipped paths key this)
    {continuation : Unit → Prog Value} (access : Access)
    (rest : Program.Conforms (protocol paths key) .ready (continuation ())
      post) :
    Program.Conforms (protocol paths key) .ready
      (access.run this >>= continuation) post := by
  cases access with
  | write offset text =>
      simp only [Access.run, SharedMemory.write, bind_assoc]
      apply conforms_enter equipped
      apply conforms_quiet quiet_vsnprintf
      intro _
      exact conforms_exit equipped rest
  | read offset =>
      simp only [Access.run, SharedMemory.read, bind_assoc, pure_bind]
      apply conforms_enter equipped
      apply conforms_quiet quiet_strncpy
      intro _
      exact conforms_exit equipped rest
  | writeUint offset n | writeUint32 offset n =>
      simp only [Access.run, SharedMemory.writeUint, SharedMemory.writeUint32,
        SharedMemory.writeWord, bind_assoc]
      apply conforms_enter equipped
      apply conforms_quiet quiet_store
      intro _
      exact conforms_exit equipped rest
  | readUint offset | readUint32 offset =>
      simp only [Access.run, SharedMemory.readUint, SharedMemory.readUint32,
        SharedMemory.readWord, bind_assoc, pure_bind]
      apply conforms_enter equipped
      apply conforms_exit equipped
      apply conforms_quiet quiet_load
      intro _
      exact rest

theorem conforms_accessAll (equipped : Equipped paths key this) :
    ∀ accesses, Program.Conforms (protocol paths key) .ready
      (accessAll this accesses) fun _ _ => True
  | [] => trivial
  | access :: rest =>
      conforms_access equipped access (conforms_accessAll equipped rest)

/-- A process follows the protocol from beginning to end. -/
theorem conforms_client {size : Nat} {accesses : List Access} :
    Program.Conforms (protocol paths key) .fresh
      (client paths key size accesses) fun _ _ => True := by
  unfold client
  apply conforms_new
  · intro phase
    trivial
  · intro this equipped
    exact conforms_accessAll equipped accesses

end Atomicles.SegmentMutex
