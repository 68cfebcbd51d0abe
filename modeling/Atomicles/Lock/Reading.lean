import Atomicles.Lock.Channel

/-!
# Reading a lock

What the functions of `lock.c` find out about a lock that stands while others
work with it: its segment is there with its mutex and holds certain words, and
its set was last changed at a certain time.  The clock is the phase of the
protocol, and `sleep` is all that moves it.
-/

namespace Atomicles

open Interaction

/-- A lock that stands, as a process sees it: the words of its segment, when
its set was last changed, and at what times the process may take a unit. -/
structure View where
  paths : KeyPaths
  key : Key
  words : Nat → Option UInt
  ctime : Time
  permits : Time → Prop

namespace View

/-- A word that agrees with what the segment is known to hold. -/
def Shows (view : View) (offset : Nat) (word : UInt) : Prop :=
  ∀ value, view.words offset = some value → word = value

/--
The protocol of a process that works with the lock.  An operation on the
user's semaphore takes a unit when that is permitted, and does not wait for
it.  The answers are those of a store where the lock stands.
-/
def protocol (view : View) : Protocol signature Time where
  allow clock call :=
    match call with
    | .semop id semNum semOp _ nowait =>
        id.key = view.paths.semKey view.key →
          semNum = 0 ∧ semOp = -1 ∧ nowait = true ∧ view.permits clock
    | _ => True
  answer clock call answer :=
    match call, answer with
    | .semget name .., (found : Except Errno IpcId) =>
        (∀ id, found = .ok id → id.key = name) ∧
          (name = view.paths.semKey (view.key + 128) → ∃ id, found = .ok id)
    | .shmget .., (found : Except Errno IpcId) => ∃ id, found = .ok id
    | .shmat id, (mapped : Except Errno Addr) => mapped = .ok (.mapped id)
    | .load _ offset, (word : Option UInt) =>
        ∀ value, word = some value → view.Shows offset value
    | .semctlStat id, (ds : SemidDs) =>
        id.key = view.paths.semKey view.key → ds.sem_ctime = view.ctime
    | .time, (now : Time) => now = clock
    | _, _ => True
  next clock call _ :=
    match call with
    | .sleep seconds => clock + seconds
    | _ => clock

/-! ## Calls that are of no matter to the user's semaphore -/

/-- A call that leaves the user's semaphore and the clock alone. -/
def Aside (view : View) : Call → Prop
  | .semop id .. => id.key ≠ view.paths.semKey view.key
  | .sleep _ => False
  | _ => True

/-- A handle of the segment whose mutex was found. -/
def Guarded (view : View) (shmem : SharedMemory) : Prop :=
  ∃ shsem, shmem.shsem = some shsem ∧
    shsem.id.key = view.paths.semKey (view.key + 128)

section Conformance

variable {view : View} {clock : Time} {Value : Type}
variable {post : Time → Value → Prop}

theorem aside_allowed {call : Call} (aside : view.Aside call) :
    view.protocol.allow clock call := by
  cases call with
  | semop id semNum semOp undo nowait =>
      intro user
      exact absurd user aside
  | _ => trivial

theorem aside_stays {call : Call} {answer : call.Answer}
    (aside : view.Aside call) :
    view.protocol.next clock call answer = clock := by
  cases call with
  | sleep seconds => exact aside.elim
  | _ => rfl

/-- Such a call may come before any other. -/
theorem conforms_aside {call : Call} {next : call.Answer → Prog Value}
    (aside : view.Aside call)
    (rest : ∀ answer,
      view.protocol.answer clock call answer →
        (next answer).Conforms view.protocol clock post) :
    (Program.issue call next : Prog Value).Conforms
      view.protocol clock post := by
  refine ⟨aside_allowed aside, ?_⟩
  intro answer relied
  rw [aside_stays aside]
  exact rest answer relied

theorem conforms_die (cause : Death) :
    (die cause : Prog Value).Conforms view.protocol clock
      post :=
  conforms_aside (by trivial) fun impossible => impossible.elim

/-! ## The functions follow the protocol -/

/-- `Semaphore_exists`. -/
theorem conforms_exists {continuation : Bool → Prog Value}
    (rest : ∀ found, (continuation found).Conforms
      view.protocol clock post) :
    (Semaphore.exists view.paths view.key >>= continuation).Conforms
      view.protocol clock post := by
  rw [Semaphore.exists_bind]
  apply conforms_aside (by trivial)
  intro (found : Except Errno IpcId) _
  cases found with
  | error errno => exact rest false
  | ok id => exact rest true

/-- `Semaphore$attach` of the user's set or of the mutex: the handle is one of
the set of that name. -/
theorem conforms_attach {own : Key}
    {continuation : Option Semaphore → Prog Value}
    (found : ∀ shsem : Semaphore, shsem.key = own →
      shsem.id.key = view.paths.semKey own →
        (continuation (some shsem)).Conforms
          view.protocol clock post)
    (missing : own ≠ view.key + 128 →
      (continuation none).Conforms view.protocol clock
        post) :
    (Semaphore.attach view.paths own >>= continuation).Conforms
      view.protocol clock post := by
  rw [Semaphore.attach_bind]
  apply conforms_aside (by trivial)
  intro (answer : Except Errno IpcId) relied
  rcases relied with ⟨named, present⟩
  cases answer with
  | error errno =>
      apply missing
      rintro rfl
      rcases present rfl with ⟨id, impossible⟩
      cases impossible
  | ok id =>
      apply conforms_aside (by trivial)
      intro (block : Option Unit) _
      cases block with
      | none => exact conforms_die _
      | some success =>
          apply conforms_aside (by trivial)
          intro (ds : SemidDs) _
          exact found _ rfl (named id rfl)

/-- `SharedMemory$attach`. -/
theorem conforms_attach_segment
    {continuation : Option SharedMemory → Prog Value}
    (found : ∀ shmem, view.Guarded shmem →
      (continuation (some shmem)).Conforms view.protocol
        clock post) :
    (SharedMemory.attach view.paths view.key >>= continuation).Conforms
      view.protocol clock post := by
  rw [SharedMemory.attach_bind]
  apply conforms_aside (by trivial)
  intro (answer : Except Errno IpcId) present
  rcases present with ⟨id, rfl⟩
  apply conforms_aside (by trivial)
  intro (block : Option SharedMemory) _
  cases block with
  | none => exact conforms_die _
  | some block =>
      dsimp only
      rw [SharedMemory.shmat_bind]
      apply conforms_aside (by trivial)
      intro (mapped : Except Errno Addr) isMapped
      have isOk : mapped = .ok (.mapped id) := isMapped
      subst isOk
      simp only [ne_eq, reduceCtorEq, not_false_eq_true, if_true]
      apply conforms_attach
      · intro shsem _ isMutex
        exact found _ ⟨shsem, rfl, isMutex⟩
      · intro other
        exact absurd rfl other

theorem conforms_enter {shmem : SharedMemory}
    (guarded : view.Guarded shmem) {continuation : Unit → Prog Value}
    (rest : (continuation ()).Conforms view.protocol clock
      post) :
    (SharedMemory.enter shmem >>= continuation).Conforms
      view.protocol clock post := by
  rcases guarded with ⟨shsem, owned, isMutex⟩
  have apart : shsem.id.key ≠ view.paths.semKey view.key := by
    rw [isMutex]
    exact view.paths.semKey_mutex_ne view.key
  rw [SharedMemory.enter_bind owned]
  apply conforms_aside (by exact apart)
  intro (outcome : Except Errno Unit) _
  cases outcome with
  | ok success => exact rest
  | error errno =>
      by_cases removed : errno = .EIDRM
      · simp only [removed, if_true]
        exact rest
      · simp only [removed, if_false]
        exact conforms_die _

theorem conforms_exit {shmem : SharedMemory}
    (guarded : view.Guarded shmem) {continuation : Unit → Prog Value}
    (rest : (continuation ()).Conforms view.protocol clock
      post) :
    (SharedMemory.exit shmem >>= continuation).Conforms
      view.protocol clock post := by
  rcases guarded with ⟨shsem, owned, isMutex⟩
  have apart : shsem.id.key ≠ view.paths.semKey view.key := by
    rw [isMutex]
    exact view.paths.semKey_mutex_ne view.key
  rw [SharedMemory.exit_bind owned]
  apply conforms_aside (by trivial)
  intro (value : Except Errno Nat) _
  split
  · apply conforms_aside (by exact apart)
    intro (outcome : Except Errno Unit) _
    cases outcome with
    | ok success => exact rest
    | error errno => exact conforms_die _
  · exact conforms_die _

/-- `SharedMemory$read_uint`. -/
theorem conforms_readUint {shmem : SharedMemory} {offset : UShort}
    (guarded : view.Guarded shmem) {continuation : UInt → Prog Value}
    (rest : ∀ word, view.Shows offset.toNat word →
      (continuation word).Conforms view.protocol clock post) :
    (SharedMemory.readUint shmem offset >>= continuation).Conforms
      view.protocol clock post := by
  simp only [SharedMemory.readUint, SharedMemory.readWord, bind_assoc]
  apply conforms_enter guarded
  apply conforms_exit guarded
  rw [SharedMemory.load_bind]
  apply conforms_aside (by trivial)
  intro (word : Option UInt) shows
  cases word with
  | none => exact conforms_die _
  | some word => exact rest word (shows word rfl)

/-- `init` of an attached handle: what it leaves in the statics follows from
the words. -/
theorem conforms_init {own : Lock.Statics} {shsem : Semaphore}
    {continuation : Int × Lock.Statics × Semaphore → Prog Value}
    (isKey : shsem.key = view.key)
    (isUser : shsem.id.key = view.paths.semKey view.key)
    (lasting : ∀ size, view.Shows 0 size → view.Shows 1 0 →
      (continuation (0, { own with expiry := false },
        shsem.setSize (size.setWidth 16))).Conforms view.protocol clock post)
    (expiring : ∀ size flag expire, view.Shows 0 size →
      view.Shows 1 flag → flag ≠ 0 → view.Shows 2 expire →
        (continuation (0,
          { delta := view.ctime + (expire.toNat : Int) - clock
            expiry := true },
          shsem.setSize (size.setWidth 16))).Conforms view.protocol clock
            post) :
    (Lock.init view.paths own shsem >>= continuation).Conforms view.protocol
      clock post := by
  simp only [Lock.init, isKey, bind_assoc]
  apply conforms_attach_segment
  intro shmem guarded
  rcases guarded with ⟨mutex, owned, isMutex⟩
  have guarded : view.Guarded shmem := ⟨mutex, owned, isMutex⟩
  simp only [owned, bind_assoc]
  apply conforms_readUint guarded
  intro size sized
  apply conforms_readUint guarded
  intro flag flagged
  by_cases expires : flag ≠ 0
  · simp only [expires, ne_eq, not_false_eq_true, decide_true, if_true,
      bind_assoc]
    rw [time_bind]
    apply conforms_aside (by trivial)
    intro (now : Time) isNow
    have isClock : now = clock := isNow
    subst isClock
    rw [Semaphore.ctime_bind]
    apply conforms_aside (by trivial)
    intro (ds : SemidDs) changed
    have isCtime : ds.sem_ctime = view.ctime := changed isUser
    apply conforms_readUint guarded
    intro expire shown
    simp only [isCtime, SharedMemory.delete, Bool.false_eq_true, if_false,
      owned, Semaphore.delete_false]
    exact expiring size flag expire sized flagged expires shown
  · have lasts : flag = 0 := by simpa using expires
    subst lasts
    simp only [ne_eq, not_true_eq_false, decide_false, Bool.false_eq_true,
      if_false, SharedMemory.delete, owned, Semaphore.delete_false]
    exact lasting size sized flagged

/-- `SharedMemory$delete` with the segment. -/
theorem conforms_sharedMemoryDelete {shmem : SharedMemory}
    {continuation : Unit → Prog Value}
    (rest : (continuation ()).Conforms view.protocol clock
      post) :
    (SharedMemory.delete shmem true >>= continuation).Conforms
      view.protocol clock post := by
  have cleared :
      (do
        memset shmem.addr shmem.size.value
        munlockall
        shmdt shmem.addr
        shmctlRmid shmem.id
        continuation ()).Conforms view.protocol clock
        post := by
    rw [SharedMemory.memset_bind]
    apply conforms_aside (by trivial)
    intro (done : Option Unit) _
    cases done with
    | none => exact conforms_die _
    | some success =>
        rw [SharedMemory.unmap_bind]
        apply conforms_aside (by trivial)
        intro _ _
        apply conforms_aside (by trivial)
        intro _ _
        apply conforms_aside (by trivial)
        intro _ _
        exact rest
  cases owned : shmem.shsem with
  | none =>
      simp only [SharedMemory.delete, if_true, owned, bind_assoc]
      exact cleared
  | some shsem =>
      simp only [SharedMemory.delete, if_true, owned, bind_assoc,
        Semaphore.delete_true]
      rw [semctlRmid_bind]
      apply conforms_aside (by trivial)
      intro _ _
      exact cleared

/-- `delete`. -/
theorem conforms_delete {continuation : Int → Prog Value}
    (rest : ∀ e, (continuation e).Conforms view.protocol
      clock post) :
    (Lock.delete view.paths view.key >>= continuation).Conforms
      view.protocol clock post := by
  simp only [Lock.delete, bind_assoc]
  apply conforms_attach
  · intro shsem _ _
    simp only [bind_assoc, Semaphore.delete_true]
    rw [semctlRmid_bind]
    apply conforms_aside (by trivial)
    intro _ _
    apply conforms_attach_segment
    intro shmem _
    simp only [bind_assoc]
    apply conforms_sharedMemoryDelete
    exact rest _
  · intro _
    simp only [bind_assoc]
    apply conforms_attach_segment
    intro shmem _
    simp only [bind_assoc]
    apply conforms_sharedMemoryDelete
    exact rest _

end Conformance

/-! ## The calls on a lock with key 5 -/

/-- The set of key 5. -/
def user : IpcId :=
  ⟨KeyPaths.devtmpfs.semKey 5, 1⟩

/-- The mutex of the segment of key 5. -/
def mutex : IpcId :=
  ⟨KeyPaths.devtmpfs.semKey 133, 2⟩

/-- The segment of key 5. -/
def segment : IpcId :=
  ⟨KeyPaths.devtmpfs.shmKey 5, 3⟩

/-- The calls of `SharedMemory$read_uint`. -/
def reading (offset : Nat) (word : UInt) : List (Event signature) :=
  [⟨.semop mutex 0 (-1) true false, (.ok () : Except Errno Unit)⟩,
    ⟨.semctlGetval mutex 0, (.ok 0 : Except Errno Nat)⟩,
    ⟨.semop mutex 0 1 true false, (.ok () : Except Errno Unit)⟩,
    ⟨.load (.mapped segment) offset, (some word : Option UInt)⟩]

/-- The calls of `SharedMemory$attach`. -/
def attaching : List (Event signature) :=
  [⟨.shmget (KeyPaths.devtmpfs.shmKey 5) NOP false true,
      (.ok segment : Except Errno IpcId)⟩,
    ⟨.mallocSharedMemory,
      (some ⟨0, segment, .assign 0, .null, none⟩ : Option SharedMemory)⟩,
    ⟨.shmat segment, (.ok (.mapped segment) : Except Errno Addr)⟩,
    ⟨.semget (KeyPaths.devtmpfs.semKey 133) NOP false true,
      (.ok mutex : Except Errno IpcId)⟩,
    ⟨.mallocSemaphore, (some () : Option Unit)⟩,
    ⟨.semctlStat mutex, (⟨1, 100⟩ : SemidDs)⟩]

end View

end Atomicles
