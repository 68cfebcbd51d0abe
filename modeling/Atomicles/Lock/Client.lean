import Atomicles.Lock.Channel
import Atomicles.Source.LockMain

/-!
# The commands as clients of the store

Every command of `lock` on one key follows one protocol, whatever the other
processes do.  Its phase records what the command has learnt: the objects it
found or made, the words it read, the creation time and the clock it read, and
the value it got for the user's semaphore.  The protocol says on what grounds
a command takes a unit, gives one back, or removes an object.
-/

namespace Atomicles

open Interaction

/-- What a command has learnt from the answers to its calls. -/
structure Learnt where
  users : List IpcId := []
  mutexes : List IpcId := []
  segments : List IpcId := []
  size : Option UInt := none
  flag : Option UInt := none
  expire : Option UInt := none
  clock : Option Time := none
  ctime : Option Time := none
  /-- Creation time and stored expiry less the clock. -/
  delta : Option Time := none
  value : Option Nat := none
  failed : Bool := false

namespace Client

variable (paths : KeyPaths) (key : Key)

/-- What the answer to a call adds. -/
def learn (learnt : Learnt) (call : Call) (answer : call.Answer) : Learnt :=
  match call, answer with
  | .semget name .., (found : Except Errno IpcId) =>
      match found with
      | .ok id =>
          if name = paths.semKey key then
            { learnt with users := id :: learnt.users }
          else { learnt with mutexes := id :: learnt.mutexes }
      | .error _ => { learnt with failed := true }
  | .shmget .., (found : Except Errno IpcId) =>
      match found with
      | .ok id => { learnt with segments := id :: learnt.segments }
      | .error _ => { learnt with failed := true }
  | .semctlStat id, (ds : SemidDs) =>
      if id.key = paths.semKey key then
        { learnt with ctime := some ds.sem_ctime }
      else learnt
  | .semctlGetval id _, (value : Except Errno Nat) =>
      if id.key = paths.semKey key then
        match value with
        | .ok value => { learnt with value := some value }
        | .error _ => { learnt with failed := true }
      else learnt
  | .semop _ _ _ undo _, _ =>
      if undo then learnt else { learnt with value := none }
  | .load _ offset, (word : Option UInt) =>
      match word with
      | none => learnt
      | some word =>
          if offset = 0 then { learnt with size := some word }
          else if offset = 1 then { learnt with flag := some word }
          else
            { learnt with
              expire := some word
              delta := some (learnt.ctime.getD 0 + (word.toNat : Int) -
                learnt.clock.getD 0) }
  | .time, (now : Time) => { learnt with clock := some now }
  | _, _ => learnt

theorem learn_stat {learnt : Learnt} {id : IpcId} {ds : SemidDs} :
    learn paths key learnt (.semctlStat id) ds =
      if id.key = paths.semKey key then
        { learnt with ctime := some ds.sem_ctime }
      else learnt :=
  rfl

/-- An address is that of a segment the command has found or made. -/
def Mapped (learnt : Learnt) (addr : Addr) : Prop :=
  ∃ id ∈ learnt.segments, addr = .mapped id

/-- The grounds on which a unit is given back: the value that was read is
below the size that was read. -/
def Used (learnt : Learnt) : Prop :=
  learnt.failed = false → ∃ value word, learnt.value = some value ∧
    learnt.size = some word ∧ value < (word.setWidth 16).toNat

/-- The grounds on which objects are removed: the action is `delete`, or the
lock was found to have expired, or its expiry could not be read and the
option given to `main` stands in for it. -/
def MayRemove (action : Action) (statics : Lock.Statics) (learnt : Learnt) :
    Prop :=
  action = .delete ∨ (∃ timeout, action = .on timeout) ∧
    ((∃ delta, learnt.delta = some delta ∧ delta ≤ 0) ∨
      learnt.failed = true ∧ statics.expiry = true ∧ statics.delta ≤ 0)

/-- A failure takes no grounds away. -/
theorem MayRemove.fail {action : Action} {statics : Lock.Statics}
    {learnt : Learnt} (grounds : MayRemove action statics learnt) :
    MayRemove action statics { learnt with failed := true } := by
  rcases grounds with deletes | ⟨takes, expired | ⟨_, own, due⟩⟩
  · exact Or.inl deletes
  · exact Or.inr ⟨takes, Or.inl expired⟩
  · exact Or.inr ⟨takes, Or.inr ⟨rfl, own, due⟩⟩

/-- Only `create` makes objects. -/
def MayCreate (action : Action) : Prop :=
  ∃ semaphores expire, action = .create semaphores expire

theorem MayRemove.attaches {action : Action} {statics : Lock.Statics}
    {learnt : Learnt} (grounds : MayRemove action statics learnt) :
    ¬ MayCreate action := by
  rintro ⟨semaphores, expire, rfl⟩
  rcases grounds with deletes | ⟨⟨timeout, takes⟩, _⟩
  · cases deletes
  · cases takes

/-- The protocol of an action. -/
def protocol (action : Action) (statics : Lock.Statics) :
    Protocol signature Learnt where
  allow learnt call :=
    match call with
    | .semget name nsems creat excl =>
        (name = paths.semKey key ∨ name = paths.semKey (key + 128)) ∧
          if creat then MayCreate action ∧ nsems = 1 ∧ excl = true
          else nsems = NOP
    | .semctlSetall id _ =>
        MayCreate action ∧ (id ∈ learnt.users ∨ id ∈ learnt.mutexes)
    | .semctlGetval id semnum =>
        (id ∈ learnt.users ∨ id ∈ learnt.mutexes) ∧ semnum = 0
    | .semctlStat id => id ∈ learnt.users ∨ id ∈ learnt.mutexes
    | .semctlRmid id =>
        (id ∈ learnt.users ∨ id ∈ learnt.mutexes) ∧ MayRemove action statics learnt
    | .semop id semNum semOp undo _ =>
        semNum = 0 ∧
          if undo then id ∈ learnt.mutexes
          else id ∈ learnt.users ∧
            ((∃ timeout, action = .on timeout) ∧ semOp = -1 ∨
              action = .off ∧ semOp = 1 ∧ Used learnt)
    | .shmget name size creat excl =>
        name = paths.shmKey key ∧
          if creat then MayCreate action ∧ size = 16 ∧ excl = true
          else size = NOP
    | .shmat id => id ∈ learnt.segments
    | .shmdt addr => Mapped learnt addr ∧ MayRemove action statics learnt
    | .shmctlRmid id => id ∈ learnt.segments ∧ MayRemove action statics learnt
    | .memset addr _ => Mapped learnt addr ∧ MayRemove action statics learnt
    | .load addr offset =>
        Mapped learnt addr ∧ (offset = 0 ∨ offset = 1 ∨
          offset = 2 ∧ ∃ flag, learnt.flag = some flag ∧ flag ≠ 0)
    | .store addr _ _ => Mapped learnt addr ∧ MayCreate action
    | .mallocSemaphore => True
    | .mallocSharedMemory => True
    | .mlockall => True
    | .mlock .. => True
    | .munlockall => True
    | .time => True
    | .sleep _ => True
    | .printf .. => True
    | .die _ => True
    | _ => False
  answer _ call answer :=
    match call, answer with
    | .semget name .., (found : Except Errno IpcId) =>
        ∀ id, found = .ok id → id.key = name
    | .shmget name .., (found : Except Errno IpcId) =>
        ∀ id, found = .ok id → id.key = name
    | .shmat id, (mapped : Except Errno Addr) =>
        mapped = .ok (.mapped id) ∨
          MayCreate action ∧ ∃ errno, mapped = .error errno
    | _, _ => True
  next := learn paths key

/-! ## The functions follow the protocol -/

section Conformance

variable {paths key} {action : Action} {statics : Lock.Statics}
variable {learnt : Learnt} {Value : Type} {post : Learnt → Value → Prop}

theorem conforms_die (cause : Death) :
    Program.Conforms (protocol paths key action statics) learnt
      (die cause : Prog Value) post :=
  ⟨trivial, fun impossible => impossible.elim⟩

/-- `Semaphore_exists`. -/
theorem conforms_exists {continuation : Bool → Prog Value}
    (found : ∀ id : IpcId, id.key = paths.semKey key →
      Program.Conforms (protocol paths key action statics)
        { learnt with users := id :: learnt.users } (continuation true) post)
    (missing : Program.Conforms (protocol paths key action statics)
      { learnt with failed := true } (continuation false) post) :
    Program.Conforms (protocol paths key action statics) learnt
      (Semaphore.exists paths key >>= continuation) post := by
  rw [Semaphore.exists_bind]
  refine ⟨⟨Or.inl rfl, rfl⟩, ?_⟩
  intro (answer : Except Errno IpcId) named
  cases answer with
  | error errno => exact missing
  | ok id => simpa [protocol, learn] using found id (named id rfl)

/-- `Semaphore$attach` of the user's set. -/
theorem conforms_attach_user {continuation : Option Semaphore → Prog Value}
    (found : ∀ (shsem : Semaphore) ctime, shsem.id.key = paths.semKey key →
      shsem.key = key → shsem.size = 1 →
        Program.Conforms (protocol paths key action statics)
          { learnt with
            users := shsem.id :: learnt.users
            ctime := some ctime }
          (continuation (some shsem)) post)
    (missing : Program.Conforms (protocol paths key action statics)
      { learnt with failed := true } (continuation none) post) :
    Program.Conforms (protocol paths key action statics) learnt
      (Semaphore.attach paths key >>= continuation) post := by
  rw [Semaphore.attach_bind]
  refine ⟨⟨Or.inl rfl, rfl⟩, ?_⟩
  intro (answer : Except Errno IpcId) named
  cases answer with
  | error errno => exact missing
  | ok id =>
      have isUser : id.key = paths.semKey key := named id rfl
      refine ⟨trivial, ?_⟩
      intro (block : Option Unit) _
      cases block with
      | none => exact conforms_die _
      | some success =>
          refine ⟨Or.inl (by simp [protocol, learn]), ?_⟩
          intro (ds : SemidDs) _
          have rest := found
            { key, id, count := BitVec.ofNat 16 ds.sem_nsems, size := 1 }
            ds.sem_ctime isUser rfl rfl
          simpa [protocol, learn, isUser] using rest

/-- `Semaphore$attach` of the mutex. -/
theorem conforms_attach_mutex {continuation : Option Semaphore → Prog Value}
    (found : ∀ shsem : Semaphore, shsem.id.key = paths.semKey (key + 128) →
      Program.Conforms (protocol paths key action statics)
        { learnt with mutexes := shsem.id :: learnt.mutexes }
        (continuation (some shsem)) post)
    (missing : Program.Conforms (protocol paths key action statics)
      { learnt with failed := true } (continuation none) post) :
    Program.Conforms (protocol paths key action statics) learnt
      (Semaphore.attach paths (key + 128) >>= continuation) post := by
  have different := paths.semKey_mutex_ne key
  rw [Semaphore.attach_bind]
  refine ⟨⟨Or.inr rfl, rfl⟩, ?_⟩
  intro (answer : Except Errno IpcId) named
  cases answer with
  | error errno => exact missing
  | ok id =>
      have isMutex : id.key = paths.semKey (key + 128) := named id rfl
      have notUser : id.key ≠ paths.semKey key := by
        rw [isMutex]
        exact different
      have after : (protocol paths key action statics).next learnt
          (.semget (paths.semKey (key + 128)) NOP false true)
          (.ok id : Except Errno IpcId) =
            { learnt with mutexes := id :: learnt.mutexes } :=
        if_neg different
      rw [after]
      refine ⟨trivial, ?_⟩
      intro (block : Option Unit) _
      cases block with
      | none => exact conforms_die _
      | some success =>
          refine ⟨Or.inr List.mem_cons_self, ?_⟩
          intro (ds : SemidDs) _
          have unchanged : (protocol paths key action statics).next
              { learnt with mutexes := id :: learnt.mutexes }
              (.semctlStat id) ds =
                { learnt with mutexes := id :: learnt.mutexes } :=
            if_neg notUser
          have rest := found
            { key := key + 128, id
              count := BitVec.ofNat 16 ds.sem_nsems, size := 1 } isMutex
          rw [← unchanged] at rest
          exact rest

/-- A handle whose segment and mutex the command has found or made. -/
structure Opened (paths : KeyPaths) (key : Key) (learnt : Learnt)
    (shmem : SharedMemory) : Prop where
  segment : shmem.id ∈ learnt.segments
  addr : shmem.addr = .mapped shmem.id
  mutex : ∀ shsem, shmem.shsem = some shsem → shsem.id ∈ learnt.mutexes ∧
    shsem.id.key = paths.semKey (key + 128)

theorem Opened.mapped {shmem : SharedMemory}
    (opened : Opened paths key learnt shmem) : Mapped learnt shmem.addr :=
  ⟨shmem.id, opened.segment, opened.addr⟩

theorem Opened.of_eq {shmem : SharedMemory}
    (opened : Opened paths key learnt shmem) {later : Learnt}
    (segments : later.segments = learnt.segments)
    (mutexes : later.mutexes = learnt.mutexes) :
    Opened paths key later shmem where
  segment := by
    rw [segments]
    exact opened.segment
  addr := opened.addr
  mutex := by
    rw [mutexes]
    exact opened.mutex

/-- `SharedMemory$attach`. -/
theorem conforms_attach_segment (attaches : ¬ MayCreate action)
    {continuation : Option SharedMemory → Prog Value}
    (found : ∀ shmem shsem, shmem.shsem = some shsem →
      Opened paths key
          { learnt with
            segments := shmem.id :: learnt.segments
            mutexes := shsem.id :: learnt.mutexes } shmem →
        Program.Conforms (protocol paths key action statics)
          { learnt with
            segments := shmem.id :: learnt.segments
            mutexes := shsem.id :: learnt.mutexes }
          (continuation (some shmem)) post)
    (bare : ∀ shmem : SharedMemory, shmem.shsem = none →
      Opened paths key
          { learnt with
            segments := shmem.id :: learnt.segments
            failed := true } shmem →
        Program.Conforms (protocol paths key action statics)
          { learnt with
            segments := shmem.id :: learnt.segments
            failed := true }
          (continuation (some shmem)) post)
    (missing : Program.Conforms (protocol paths key action statics)
      { learnt with failed := true } (continuation none) post) :
    Program.Conforms (protocol paths key action statics) learnt
      (SharedMemory.attach paths key >>= continuation) post := by
  rw [SharedMemory.attach_bind]
  refine ⟨⟨rfl, rfl⟩, ?_⟩
  intro (answer : Except Errno IpcId) _
  cases answer with
  | error errno => exact missing
  | ok id =>
      refine ⟨trivial, ?_⟩
      intro (block : Option SharedMemory) _
      cases block with
      | none => exact conforms_die _
      | some block =>
          dsimp only
          rw [SharedMemory.shmat_bind]
          refine ⟨List.mem_cons_self, ?_⟩
          intro (mapped : Except Errno Addr) isMapped
          have isOk : mapped = .ok (.mapped id) := by
            rcases isMapped with isOk | ⟨creates, _⟩
            · exact isOk
            · exact absurd creates attaches
          subst isOk
          simp only [ne_eq, reduceCtorEq, not_false_eq_true, if_true]
          apply conforms_attach_mutex
          · intro shsem isMutex
            apply found
              { block with key, id, addr := .mapped id, shsem := some shsem }
              shsem rfl
            constructor
            · exact List.mem_cons_self
            · rfl
            · intro other same
              cases same
              exact ⟨List.mem_cons_self, isMutex⟩
          · apply bare
              { block with key, id, addr := .mapped id, shsem := none } rfl
            constructor
            · exact List.mem_cons_self
            · rfl
            · intro other same
              cases same

theorem conforms_enter {shmem : SharedMemory}
    (opened : Opened paths key learnt shmem)
    {continuation : Unit → Prog Value}
    (rest : Program.Conforms (protocol paths key action statics) learnt
      (continuation ()) post) :
    Program.Conforms (protocol paths key action statics) learnt
      (SharedMemory.enter shmem >>= continuation) post := by
  cases owned : shmem.shsem with
  | none =>
      rw [SharedMemory.enter_bind_none owned]
      exact conforms_die _
  | some shsem =>
      rw [SharedMemory.enter_bind owned]
      refine ⟨⟨rfl, (opened.mutex shsem owned).1⟩, ?_⟩
      intro (outcome : Except Errno Unit) _
      cases outcome with
      | ok success => exact rest
      | error errno =>
          by_cases removed : errno = .EIDRM
          · simp only [removed, if_true]
            exact rest
          · simp only [removed, if_false]
            exact conforms_die _

theorem conforms_exit {shmem : SharedMemory}
    (opened : Opened paths key learnt shmem)
    {continuation : Unit → Prog Value}
    (rest : Program.Conforms (protocol paths key action statics) learnt
      (continuation ()) post) :
    Program.Conforms (protocol paths key action statics) learnt
      (SharedMemory.exit shmem >>= continuation) post := by
  cases owned : shmem.shsem with
  | none =>
      have fails : (SharedMemory.exit shmem >>= continuation) = die .segv := by
        simp [SharedMemory.exit, owned]
      rw [fails]
      exact conforms_die _
  | some shsem =>
      rcases opened.mutex shsem owned with ⟨member, isMutex⟩
      rw [SharedMemory.exit_bind owned]
      refine ⟨⟨Or.inr member, rfl⟩, ?_⟩
      intro (value : Except Errno Nat) _
      have unchanged : (protocol paths key action statics).next learnt
          (.semctlGetval shsem.id 0) value = learnt :=
        if_neg (by
          rw [isMutex]
          exact paths.semKey_mutex_ne key)
      rw [unchanged]
      dsimp only
      split
      · refine ⟨⟨rfl, member⟩, ?_⟩
        intro (outcome : Except Errno Unit) _
        cases outcome with
        | ok success => exact rest
        | error errno => exact conforms_die _
      · exact conforms_die _

/-- `SharedMemory$read_uint`. -/
theorem conforms_readWord {shmem : SharedMemory} {offset : UShort}
    (opened : Opened paths key learnt shmem)
    (readable : offset.toNat = 0 ∨ offset.toNat = 1 ∨
      offset.toNat = 2 ∧ ∃ flag, learnt.flag = some flag ∧ flag ≠ 0)
    {continuation : UInt → Prog Value}
    (rest : ∀ word, Program.Conforms (protocol paths key action statics)
      (learn paths key learnt (.load shmem.addr offset.toNat)
        (some word : Option UInt))
      (continuation word) post) :
    Program.Conforms (protocol paths key action statics) learnt
      (SharedMemory.readWord shmem offset >>= continuation) post := by
  simp only [SharedMemory.readWord, bind_assoc]
  apply conforms_enter opened
  apply conforms_exit opened
  rw [SharedMemory.load_bind]
  refine ⟨⟨opened.mapped, readable⟩, ?_⟩
  intro (word : Option UInt) _
  cases word with
  | none => exact conforms_die _
  | some word => exact rest word

theorem conforms_readSize {shmem : SharedMemory}
    (opened : Opened paths key learnt shmem)
    {continuation : UInt → Prog Value}
    (rest : ∀ word, Program.Conforms (protocol paths key action statics)
      { learnt with size := some word } (continuation word) post) :
    Program.Conforms (protocol paths key action statics) learnt
      (SharedMemory.readWord shmem 0 >>= continuation) post :=
  conforms_readWord opened (Or.inl rfl) rest

theorem conforms_readFlag {shmem : SharedMemory}
    (opened : Opened paths key learnt shmem)
    {continuation : UInt → Prog Value}
    (rest : ∀ word, Program.Conforms (protocol paths key action statics)
      { learnt with flag := some word } (continuation word) post) :
    Program.Conforms (protocol paths key action statics) learnt
      (SharedMemory.readWord shmem 1 >>= continuation) post :=
  conforms_readWord opened (Or.inr (Or.inl rfl)) rest

theorem conforms_readExpire {shmem : SharedMemory} {flag : UInt}
    {now ctime : Time} (opened : Opened paths key learnt shmem)
    (flagRead : learnt.flag = some flag) (expires : flag ≠ 0)
    (clockRead : learnt.clock = some now) (ctimeRead : learnt.ctime = some ctime)
    {continuation : UInt → Prog Value}
    (rest : ∀ word, Program.Conforms (protocol paths key action statics)
      { learnt with
        expire := some word
        delta := some (ctime + (word.toNat : Int) - now) }
      (continuation word) post) :
    Program.Conforms (protocol paths key action statics) learnt
      (SharedMemory.readWord shmem 2 >>= continuation) post := by
  apply conforms_readWord opened (Or.inr (Or.inr ⟨rfl, flag, flagRead, expires⟩))
  intro word
  have reached : learn paths key learnt
      (.load shmem.addr (2 : UShort).toNat) (some word : Option UInt) =
        { learnt with
          expire := some word
          delta := some (ctime + (word.toNat : Int) - now) } := by
    simp [learn, clockRead, ctimeRead]
  rw [reached]
  exact rest word

theorem conforms_time {continuation : Time → Prog Value}
    (rest : ∀ now, Program.Conforms (protocol paths key action statics)
      { learnt with clock := some now } (continuation now) post) :
    Program.Conforms (protocol paths key action statics) learnt
      (time >>= continuation) post := by
  rw [time_bind]
  exact ⟨trivial, fun now _ => rest now⟩

/-- `Semaphore$ctime` of the user's set. -/
theorem conforms_ctime {shsem : Semaphore}
    (isUser : shsem.id.key = paths.semKey key)
    (member : shsem.id ∈ learnt.users) {continuation : Time → Prog Value}
    (rest : ∀ ctime, Program.Conforms (protocol paths key action statics)
      { learnt with ctime := some ctime } (continuation ctime) post) :
    Program.Conforms (protocol paths key action statics) learnt
      (Semaphore.ctime shsem >>= continuation) post := by
  rw [Semaphore.ctime_bind]
  refine ⟨Or.inl member, ?_⟩
  intro (ds : SemidDs) _
  have reached : (protocol paths key action statics).next learnt
      (.semctlStat shsem.id) ds =
        { learnt with ctime := some ds.sem_ctime } :=
    if_pos isUser
  rw [reached]
  exact rest ds.sem_ctime

/-- `SharedMemory$write_uint`. -/
theorem conforms_writeWord {shmem : SharedMemory} {offset : UShort} {n : UInt}
    (opened : Opened paths key learnt shmem) (creates : MayCreate action)
    {continuation : Unit → Prog Value}
    (rest : Program.Conforms (protocol paths key action statics) learnt
      (continuation ()) post) :
    Program.Conforms (protocol paths key action statics) learnt
      (SharedMemory.writeWord shmem offset n >>= continuation) post := by
  simp only [SharedMemory.writeWord, bind_assoc]
  apply conforms_enter opened
  rw [SharedMemory.store_bind]
  refine ⟨⟨opened.mapped, creates⟩, ?_⟩
  intro (done : Option Unit) _
  cases done with
  | none => exact conforms_die _
  | some success => exact conforms_exit opened rest

/-! ## `init` -/

/-- What `init` returns and what is learnt by then: it fails, or it finds a
lock without or with an expiry. -/
inductive InitOutcome (before : Learnt) (own : Lock.Statics)
    (shsem : Semaphore) :
    Learnt → Int × Lock.Statics × Semaphore → Prop where
  | failed {after : Learnt} (users : after.users = before.users)
      (delta : after.delta = before.delta) (failed : after.failed = true) :
      InitOutcome before own shsem after (-1, own, shsem)
  | lasting {after : Learnt} {size : UInt} (users : after.users = before.users)
      (delta : after.delta = before.delta) (sizeRead : after.size = some size)
      (flagRead : after.flag = some 0) :
      InitOutcome before own shsem after
        (0, { own with expiry := false }, shsem.setSize (size.setWidth 16))
  | expiring {after : Learnt} {size flag expire : UInt} {now ctime : Time}
      (users : after.users = before.users) (sizeRead : after.size = some size)
      (flagRead : after.flag = some flag) (expires : flag ≠ 0)
      (expireRead : after.expire = some expire)
      (clockRead : after.clock = some now) (ctimeRead : after.ctime = some ctime)
      (delta : after.delta = some (ctime + (expire.toNat : Int) - now)) :
      InitOutcome before own shsem after
        (0, { delta := ctime + (expire.toNat : Int) - now, expiry := true },
          shsem.setSize (size.setWidth 16))

section Outcome

variable {before after : Learnt} {own found : Lock.Statics}
variable {shsem handle : Semaphore} {code : Int}

theorem InitOutcome.handle_id
    (outcome : InitOutcome before own shsem after (code, found, handle)) :
    handle.id = shsem.id := by
  cases outcome <;> rfl

theorem InitOutcome.users
    (outcome : InitOutcome before own shsem after (code, found, handle)) :
    after.users = before.users := by
  cases outcome with
  | failed users => exact users
  | lasting users => exact users
  | expiring users => exact users

/-- The handle has the size that was read. -/
theorem InitOutcome.sized
    (outcome : InitOutcome before own shsem after (code, found, handle))
    (sound : after.failed = false) :
    ∃ word, after.size = some word ∧ handle.size = word.setWidth 16 := by
  cases outcome with
  | failed _ _ failed =>
      rw [failed] at sound
      cases sound
  | lasting _ _ sizeRead _ => exact ⟨_, sizeRead, rfl⟩
  | expiring _ sizeRead => exact ⟨_, sizeRead, rfl⟩

/-- A lock found to have expired may be removed by `on`. -/
theorem InitOutcome.grounds {timeout : Int} (takes : action = .on timeout)
    (outcome : InitOutcome before own shsem after (code, found, handle))
    (expires : found.expiry = true) (due : ¬ found.delta > 0) :
    MayRemove action own after := by
  refine Or.inr ⟨⟨timeout, takes⟩, ?_⟩
  cases outcome with
  | failed _ _ failed => exact Or.inr ⟨failed, expires, Int.not_lt.mp due⟩
  | lasting _ _ _ _ => cases expires
  | expiring _ _ _ _ _ _ _ delta => exact Or.inl ⟨_, delta, Int.not_lt.mp due⟩

end Outcome

theorem conforms_init (attaches : ¬ MayCreate action) {own : Lock.Statics}
    {shsem : Semaphore}
    (isKey : shsem.key = key) (isUser : shsem.id.key = paths.semKey key)
    (member : shsem.id ∈ learnt.users) :
    Program.Conforms (protocol paths key action statics) learnt
      (Lock.init paths own shsem) (InitOutcome learnt own shsem) := by
  unfold Lock.init
  rw [isKey]
  apply conforms_attach_segment attaches
  · intro shmem mutex owned opened
    simp only [owned, SharedMemory.readUint, SharedMemory.delete,
      Bool.false_eq_true, if_false, Semaphore.delete_false]
    apply conforms_readSize opened
    intro size
    apply conforms_readFlag
    · exact opened.of_eq rfl rfl
    intro flag
    by_cases expires : flag ≠ 0
    · simp only [expires, ne_eq, not_false_eq_true, decide_true, if_true]
      apply conforms_time
      intro now
      apply conforms_ctime isUser
      · exact member
      intro ctime
      apply conforms_readExpire
      · exact opened.of_eq rfl rfl
      · rfl
      · exact expires
      · rfl
      · rfl
      intro expire
      exact .expiring rfl rfl rfl expires rfl rfl rfl rfl
    · have lasts : flag = 0 := by simpa using expires
      subst lasts
      exact .lasting rfl rfl rfl rfl
  · intro shmem missing opened
    simp only [missing]
    exact .failed rfl rfl rfl
  · exact .failed rfl rfl rfl

/-! ## The actions -/

/-- A program that conforms and whose outcome does not matter. -/
abbrev Follows (paths : KeyPaths) (key : Key) (action : Action)
    (statics : Lock.Statics) (learnt : Learnt) (program : Prog Value) : Prop :=
  program.Conforms (protocol paths key action statics) learnt fun _ _ => True

/-- `Semaphore$delete` with the set. -/
theorem conforms_remove_set {id : IpcId}
    (known : id ∈ learnt.users ∨ id ∈ learnt.mutexes)
    (grounds : MayRemove action statics learnt)
    {continuation : Unit → Prog Value}
    (rest : Program.Conforms (protocol paths key action statics) learnt
      (continuation ()) post) :
    Program.Conforms (protocol paths key action statics) learnt
      (semctlRmid id >>= continuation) post := by
  rw [semctlRmid_bind]
  exact ⟨⟨known, grounds⟩, fun _ _ => rest⟩

/-- `SharedMemory$delete` with the segment. -/
theorem conforms_remove_segment {shmem : SharedMemory}
    (opened : Opened paths key learnt shmem)
    (grounds : MayRemove action statics learnt)
    {continuation : Unit → Prog Value}
    (rest : Program.Conforms (protocol paths key action statics) learnt
      (continuation ()) post) :
    Program.Conforms (protocol paths key action statics) learnt
      (SharedMemory.delete shmem true >>= continuation) post := by
  have cleared : Program.Conforms (protocol paths key action statics) learnt
      (do
        memset shmem.addr shmem.size.value
        munlockall
        shmdt shmem.addr
        shmctlRmid shmem.id
        continuation ()) post := by
    rw [SharedMemory.memset_bind]
    refine ⟨⟨opened.mapped, grounds⟩, ?_⟩
    intro (done : Option Unit) _
    cases done with
    | none => exact conforms_die _
    | some success =>
        rw [SharedMemory.unmap_bind]
        refine ⟨trivial, fun _ _ => ⟨⟨opened.mapped, grounds⟩, fun _ _ => ?_⟩⟩
        exact ⟨⟨opened.segment, grounds⟩, fun _ _ => rest⟩
  cases owned : shmem.shsem with
  | none =>
      simp only [SharedMemory.delete, if_true, owned, bind_assoc]
      exact cleared
  | some shsem =>
      simp only [SharedMemory.delete, if_true, owned, bind_assoc,
        Semaphore.delete_true]
      apply conforms_remove_set (Or.inr (opened.mutex shsem owned).1) grounds
      exact cleared

/-- The removal of the segment by name. -/
theorem follows_delete_segment (grounds : MayRemove action statics learnt)
    {e missing : Int} {continuation : Option SharedMemory → Prog Int}
    (found : ∀ shmem, continuation (some shmem) =
      SharedMemory.delete shmem true >>= fun _ => pure e)
    (absent : continuation none = pure missing) :
    Follows paths key action statics learnt
      (SharedMemory.attach paths key >>= continuation) := by
  apply conforms_attach_segment grounds.attaches
  · intro shmem shsem owned opened
    rw [found]
    apply conforms_remove_segment opened
    · exact grounds
    · trivial
  · intro shmem missing opened
    rw [found]
    apply conforms_remove_segment opened
    · exact grounds.fail
    · trivial
  · rw [absent]
    trivial

/-- The removal by name, once there are grounds for it. -/
theorem follows_delete (grounds : MayRemove action statics learnt) :
    Follows paths key action statics learnt (Lock.delete paths key) := by
  unfold Lock.delete
  apply conforms_attach_user
  · intro shsem ctime isUser isKey size
    apply conforms_remove_set
    · exact Or.inl List.mem_cons_self
    · exact grounds
    · apply follows_delete_segment
      · exact grounds
      · exact fun _ => rfl
      · rfl
  · apply follows_delete_segment
    · exact grounds.fail
    · exact fun _ => rfl
    · rfl

/-- `Semaphore$lock` on the user's set. -/
theorem follows_take {shsem : Semaphore} {timeout waits : Int}
    (takes : action = .on waits) (member : shsem.id ∈ learnt.users) :
    Follows paths key action statics learnt
      (Semaphore.lock shsem Lock.SHSEM_INDEX true timeout) := by
  have allowed : ∀ nowait (learnt : Learnt), shsem.id ∈ learnt.users →
      (protocol paths key action statics).allow learnt
        (.semop shsem.id 0 (-1) false nowait) :=
    fun _ _ member => ⟨rfl, member, Or.inl ⟨⟨waits, takes⟩, rfl⟩⟩
  unfold Semaphore.lock
  split
  · refine ⟨allowed false learnt member, ?_⟩
    intro (outcome : Except Errno Unit) _
    cases outcome <;> trivial
  · split
    · refine ⟨allowed true learnt member, ?_⟩
      intro (outcome : Except Errno Unit) _
      cases outcome <;> trivial
    · generalize timeout.toNat = remaining
      induction remaining generalizing learnt with
      | zero => trivial
      | succ remaining ih =>
          refine ⟨allowed true learnt member, ?_⟩
          intro (outcome : Except Errno Unit) _
          have again : Follows paths key action statics
              { learnt with value := none }
              (Semaphore.lockTimed shsem Lock.SHSEM_INDEX true remaining) :=
            ih member
          cases outcome with
          | ok success => trivial
          | error errno =>
              cases errno with
              | EAGAIN => exact ⟨trivial, fun _ _ => again⟩
              | EIDRM => exact again
              | _ => trivial

/-- `lock` after `init`. -/
theorem follows_lockBody {before after : Learnt} {found : Lock.Statics}
    {code : Int} {shsem handle : Semaphore} {timeout : Int}
    (takes : action = .on timeout) (member : shsem.id ∈ before.users)
    (outcome : InitOutcome before statics shsem after (code, found, handle)) :
    Follows paths key action statics after
      (Lock.lockBody paths key timeout found handle) := by
  have inside : handle.id ∈ after.users := by
    rw [outcome.handle_id, outcome.users]
    exact member
  have finish : ∀ (learnt : Learnt) (e : Int),
      Follows paths key action statics learnt
        (do
          Semaphore.delete handle false
          return e) :=
    fun _ _ => trivial
  unfold Lock.lockBody
  by_cases expires : found.expiry = true
  · by_cases live : found.delta > 0
    · simp only [expires, live, if_true]
      apply Program.Conforms.bind (follows_take takes inside)
      exact fun learnt e _ => finish learnt e
    · simp only [expires, live, if_true, if_false]
      apply Program.Conforms.bind
        (follows_delete (outcome.grounds takes expires live))
      exact fun learnt _ _ => finish learnt (-1)
  · simp only [expires, Bool.false_eq_true, if_false]
    apply Program.Conforms.bind (follows_take takes inside)
    exact fun learnt e _ => finish learnt e

theorem follows_lock {timeout : Int} (takes : action = .on timeout) :
    Follows paths key action statics learnt
      (Lock.lock paths statics key timeout) := by
  unfold Lock.lock
  apply conforms_exists
  · intro id isUser
    apply conforms_attach_user
    · intro shsem ctime isUser isKey size
      have attaches : ¬ MayCreate action := by
        simp [MayCreate, takes]
      apply (conforms_init attaches isKey isUser List.mem_cons_self).bind
      rintro after ⟨code, found, handle⟩ outcome
      exact follows_lockBody takes List.mem_cons_self outcome
    · trivial
  · trivial

/-- `Semaphore$unlock` on the user's set. -/
theorem follows_giveBack {handle : Semaphore} (gives : action = .off)
    (member : handle.id ∈ learnt.users)
    (isUser : handle.id.key = paths.semKey key)
    (size : learnt.failed = false → ∃ word, learnt.size = some word ∧
      handle.size = word.setWidth 16) :
    Follows paths key action statics learnt
      (Semaphore.unlock handle Lock.SHSEM_INDEX true) := by
  have equation := Semaphore.unlock_bind handle Lock.SHSEM_INDEX true
    (pure : Int → Prog Int)
  rw [bind_pure] at equation
  rw [equation]
  refine ⟨⟨Or.inl member, rfl⟩, ?_⟩
  intro (answer : Except Errno Nat) _
  dsimp only
  split
  · rename_i used
    refine ⟨⟨rfl, ?_, Or.inr ⟨gives, rfl, ?_⟩⟩, ?_⟩
    · cases answer <;> simpa [protocol, learn, isUser] using member
    · cases answer with
      | error errno => simp [protocol, learn, isUser, Used]
      | ok value =>
          simp only [protocol, learn, isUser, if_true, Used]
          intro sound
          rcases size sound with ⟨word, sizeRead, sized⟩
          refine ⟨value, word, rfl, sizeRead, ?_⟩
          rw [← sized]
          simp only [Semaphore.readValue] at used
          omega
    · intro (outcome : Except Errno Unit) _
      cases outcome <;> trivial
  · trivial

theorem follows_unlock (gives : action = .off) :
    Follows paths key action statics learnt
      (Lock.unlock paths statics key) := by
  unfold Lock.unlock
  apply conforms_attach_user
  · intro shsem ctime isUser isKey size
    have attaches : ¬ MayCreate action := by
      simp [MayCreate, gives]
    apply (conforms_init attaches isKey isUser List.mem_cons_self).bind
    rintro after ⟨code, found, handle⟩ outcome
    have inside : handle.id ∈ after.users := by
      rw [outcome.handle_id, outcome.users]
      exact List.mem_cons_self
    have released := @follows_giveBack paths key _ statics _ _ gives inside
      (outcome.handle_id ▸ isUser) outcome.sized
    apply released.bind
    intro learnt e _
    trivial
  · trivial

/-- `Semaphore$used` on the user's set. -/
theorem follows_used {handle : Semaphore} (member : handle.id ∈ learnt.users)
    {continuation : Int → Prog Value}
    (rest : ∀ learnt value,
      Follows paths key action statics learnt (continuation value)) :
    Follows paths key action statics learnt
      (Semaphore.used handle Lock.SHSEM_INDEX >>= continuation) := by
  rw [Semaphore.used_bind]
  exact ⟨⟨Or.inl member, rfl⟩, fun _ _ => rest _ _⟩

theorem follows_status (shows : action = .status) :
    Follows paths key action statics learnt
      (Lock.status paths statics key) := by
  unfold Lock.status
  apply conforms_attach_user
  · intro shsem ctime isUser isKey size
    have attaches : ¬ MayCreate action := by
      simp [MayCreate, shows]
    apply (conforms_init attaches isKey isUser List.mem_cons_self).bind
    rintro after ⟨code, found, handle⟩ outcome
    have inside : handle.id ∈ after.users := by
      rw [outcome.handle_id, outcome.users]
      exact List.mem_cons_self
    dsimp only
    split
    · apply follows_used inside
      exact fun _ _ => ⟨trivial, fun _ _ => trivial⟩
    · exact ⟨trivial, fun _ _ => trivial⟩
  · exact ⟨trivial, fun _ _ => trivial⟩

theorem follows_summary (shows : action = .summary) :
    Follows paths key action statics learnt
      (Lock.summary paths statics key) := by
  unfold Lock.summary
  apply conforms_attach_user
  · intro shsem ctime isUser isKey size
    have attaches : ¬ MayCreate action := by
      simp [MayCreate, shows]
    apply (conforms_init attaches isKey isUser List.mem_cons_self).bind
    rintro after ⟨code, found, handle⟩ outcome
    have inside : handle.id ∈ after.users := by
      rw [outcome.handle_id, outcome.users]
      exact List.mem_cons_self
    have userHandle : handle.id.key = paths.semKey key := by
      rw [outcome.handle_id]
      exact isUser
    have described : Follows paths key action statics after
        (Semaphore.desc handle Lock.SHSEM_INDEX) := by
      refine ⟨Or.inl inside, ?_⟩
      intro (ds : SemidDs) _
      apply follows_used
      · simpa [protocol, learn, userHandle] using inside
      · exact fun _ _ => ⟨trivial, fun _ _ => trivial⟩
    apply described.bind
    intro learnt _ _
    dsimp only
    split
    · split <;> exact ⟨trivial, fun _ _ => trivial⟩
    · exact ⟨trivial, fun _ _ => trivial⟩
  · trivial

/-- `Semaphore$new` of the user's set. -/
theorem follows_new_user {size : UShort} (creates : MayCreate action)
    {continuation : Option Semaphore → Prog Value}
    (made : ∀ learnt shsem,
      Follows paths key action statics learnt (continuation (some shsem)))
    (failed : ∀ learnt,
      Follows paths key action statics learnt (continuation none)) :
    Follows paths key action statics learnt
      (Semaphore.new paths key 1 size false >>= continuation) := by
  rw [Semaphore.new_bind]
  refine ⟨trivial, ?_⟩
  intro (block : Option Unit) _
  cases block with
  | none => exact failed _
  | some success =>
      refine ⟨⟨Or.inl rfl, creates, rfl, rfl⟩, ?_⟩
      intro (answer : Except Errno IpcId) named
      cases answer with
      | error errno =>
          have ends : ¬ (false = true ∧ errno = .EEXIST) := by simp
          simp only [ends, if_false]
          exact failed _
      | ok id =>
          refine ⟨⟨creates, Or.inl ?_⟩, ?_⟩
          · simp [protocol, learn]
          · intro (outcome : Except Errno Unit) _
            cases outcome with
            | ok success => exact made _ _
            | error errno => exact failed _

/-- `Semaphore$new` of the mutex. -/
theorem follows_new_mutex {size : UShort} (creates : MayCreate action)
    {continuation : Option Semaphore → Prog Value}
    (made : ∀ shsem : Semaphore, shsem.id.key = paths.semKey (key + 128) →
      Follows paths key action statics
        { learnt with mutexes := shsem.id :: learnt.mutexes }
        (continuation (some shsem)))
    (failed : ∀ learnt,
      Follows paths key action statics learnt (continuation none)) :
    Follows paths key action statics learnt
      (Semaphore.new paths (key + 128) 1 size false >>= continuation) := by
  rw [Semaphore.new_bind]
  refine ⟨trivial, ?_⟩
  intro (block : Option Unit) _
  cases block with
  | none => exact failed _
  | some success =>
      refine ⟨⟨Or.inr rfl, creates, rfl, rfl⟩, ?_⟩
      intro (answer : Except Errno IpcId) named
      cases answer with
      | error errno =>
          have ends : ¬ (false = true ∧ errno = .EEXIST) := by simp
          simp only [ends, if_false]
          exact failed _
      | ok id =>
          have after : (protocol paths key action statics).next learnt
              (.semget (paths.semKey (key + 128)) (1 : UShort).toNat true true)
              (.ok id : Except Errno IpcId) =
                { learnt with mutexes := id :: learnt.mutexes } :=
            if_neg (paths.semKey_mutex_ne key)
          rw [show (protocol paths key action statics).next
            ((protocol paths key action statics).next learnt .mallocSemaphore
              (some success : Option Unit)) _ _ = _ from after]
          refine ⟨⟨creates, Or.inr List.mem_cons_self⟩, ?_⟩
          intro (outcome : Except Errno Unit) _
          cases outcome with
          | ok success =>
              exact made { key := key + 128, id, count := 1, size }
                (named id rfl)
          | error errno => exact failed _

theorem follows_lockPages {shmem : SharedMemory}
    {continuation : Int → Prog Value}
    (rest : ∀ success,
      Follows paths key action statics learnt (continuation success)) :
    Follows paths key action statics learnt
      (SharedMemory.lockPages shmem >>= continuation) := by
  rw [SharedMemory.lockPages_bind]
  refine ⟨trivial, ?_⟩
  intro (all : Except Errno Unit) _
  cases all with
  | ok success => exact rest _
  | error errno =>
      refine ⟨trivial, ?_⟩
      intro (locked : Except Errno Unit) _
      cases locked with
      | ok success => exact rest 0
      | error errno => exact rest 1

/-- `SharedMemory$new`. -/
theorem follows_new_segment (creates : MayCreate action)
    {continuation : Option SharedMemory → Prog Value}
    (made : ∀ learnt shmem, Opened paths key learnt shmem →
      Follows paths key action statics learnt (continuation (some shmem)))
    (failed : ∀ learnt,
      Follows paths key action statics learnt (continuation none)) :
    Follows paths key action statics learnt
      (SharedMemory.new paths key 16 false >>= continuation) := by
  simp only [SharedMemory.new, mallocSharedMemory, Program.issue_bind,
    Program.done_bind]
  refine ⟨trivial, ?_⟩
  intro (block : Option SharedMemory) _
  cases block with
  | none => exact failed _
  | some block =>
      dsimp only
      simp only [bind_assoc]
      rw [SharedMemory.newSegment_bind]
      refine ⟨⟨rfl, creates, rfl, rfl⟩, ?_⟩
      intro (answer : Except Errno IpcId) _
      cases answer with
      | error errno =>
          simp [errno.code_ne_success, SharedMemory.delete, failed]
      | ok id =>
          dsimp only
          rw [SharedMemory.shmat_bind]
          refine ⟨List.mem_cons_self, ?_⟩
          intro (mapped : Except Errno Addr) isMapped
          rcases isMapped with isOk | ⟨_, errno, isError⟩
          · have isOk : mapped = .ok (.mapped id) := isOk
            subst isOk
            simp only [ne_eq, reduceCtorEq, not_false_eq_true, if_true,
              bind_assoc]
            apply follows_new_mutex creates
            · intro shsem isMutex
              simp only [bind_assoc]
              apply follows_lockPages
              intro success
              split
              · simp [SharedMemory.delete, failed]
              · apply made
                constructor
                · exact List.mem_cons_self
                · rfl
                · intro other same
                  cases same
                  exact ⟨List.mem_cons_self, isMutex⟩
            · intro learnt
              simp [SharedMemory.delete, failed]
          · have isError : mapped = .error errno := isError
            subst isError
            simp [SharedMemory.delete, failed, EXIT_FAILURE, EXIT_SUCCESS]

/-- `create`. -/
theorem follows_create {semaphores : UInt} {expire : Time}
    (creates : MayCreate action) :
    Follows paths key action statics learnt
      (Lock.create paths key semaphores expire) := by
  unfold Lock.create
  apply follows_new_user creates
  · intro learnt shsem
    apply follows_new_segment creates
    · intro learnt shmem opened
      apply conforms_writeWord opened creates
      apply conforms_writeWord opened creates
      apply conforms_writeWord opened creates
      apply conforms_writeWord opened creates
      cases owned : shmem.shsem <;>
        simp [SharedMemory.delete, owned]
    · intro learnt
      trivial
  · intro learnt
    trivial

/-- Every action follows its protocol. -/
theorem follows_run (action : Action) :
    Follows paths key action statics {} (action.run paths statics key) := by
  cases action with
  | on timeout => exact follows_lock rfl
  | off => exact follows_unlock rfl
  | status => exact follows_status rfl
  | summary => exact follows_summary rfl
  | delete => exact follows_delete (Or.inl rfl)
  | create semaphores expire => exact follows_create ⟨semaphores, expire, rfl⟩

end Conformance

/-- The protocols of all commands on a key. -/
def commandProtocol : Protocol signature ((Action × Lock.Statics) × Learnt) :=
  .family fun command => protocol paths key command.1 command.2

/-- Every command follows its protocol from a start without knowledge. -/
theorem follows_command {paths : KeyPaths} {key : Key}
    (command : Action × Lock.Statics) :
    Program.Conforms (commandProtocol paths key) (command, {})
      (command.1.run paths command.2 key) fun _ _ => True := by
  have follows : Follows paths key command.1 command.2 {}
      (command.1.run paths command.2 key) := follows_run command.1
  exact @Program.Conforms.family signature Int _ _
    (fun command => protocol paths key command.1 command.2) command {} _ _
    follows

end Client

end Atomicles
