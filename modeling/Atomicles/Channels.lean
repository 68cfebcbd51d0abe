import Atomicles.Daemon.Calls
import Atomicles.Daemon.Runs
import Atomicles.Kernel.Locality
import Atomicles.Lock.Client

/-!
# Channels

A key stands for two semaphore sets and a segment.  Every operation of `lock`
and of `daemonize` stays with the names of its key, so that two channels are
isolated from each other as long as they have no name in common: `ftok` keeps
the low 8 bits of a key, and the mutex of a segment is the set of another key.
-/

namespace Atomicles.Channels

open Interaction Daemon

/-! ## The names of a channel -/

/-- The names of the objects of a key. -/
def names (paths : KeyPaths) (key : Key) : Footprint where
  sem name := decide (name = paths.semKey key ∨ name = paths.semKey (key + 128))
  shm name := decide (name = paths.shmKey key)

variable {paths : KeyPaths} {key : Key}

theorem sem_iff {name : Key} :
    (names paths key).sem name = true ↔
      name = paths.semKey key ∨ name = paths.semKey (key + 128) :=
  decide_eq_true_iff

theorem shm_iff {name : Key} :
    (names paths key).shm name = true ↔ name = paths.shmKey key :=
  decide_eq_true_iff

theorem user_under : (names paths key).sem (paths.semKey key) = true :=
  sem_iff.mpr (Or.inl rfl)

theorem mutex_under :
    (names paths key).sem (paths.semKey (key + 128)) = true :=
  sem_iff.mpr (Or.inr rfl)

theorem segment_under : (names paths key).shm (paths.shmKey key) = true :=
  shm_iff.mpr rfl

/-- A handle of objects under the names of a key. -/
structure Own (paths : KeyPaths) (key : Key) (shmem : SharedMemory) : Prop where
  segment : (names paths key).shm shmem.id.key = true
  addr : shmem.addr.Under (names paths key)
  mutex : ∀ shsem, shmem.shsem = some shsem →
    (names paths key).sem shsem.id.key = true

/-- The labels of a process of the channel. -/
def OwnLabel (paths : KeyPaths) (key : Key) : Label → Prop
  | .main _ channel => channel = key
  | .round locals => Own paths key locals.shmem
  | .caught _ locals => Own paths key locals.shmem
  | .spinning locals => Own paths key locals.shmem
  | .returned locals => Own paths key locals.shmem
  | .command => True
  | .ended _ => True

/-- A process of a channel makes calls under the names of its key.  It relies
on `shmat` for a segment that it has found. -/
def script (paths : KeyPaths) (key : Key) : Script signature Unit Label where
  allow _ call := call.Under (names paths key)
  answer _ call answer :=
    match call, answer with
    | .semget name .., (found : Except Errno IpcId) =>
        ∀ id, found = .ok id → id.key = name
    | .shmget name .., (found : Except Errno IpcId) =>
        ∀ id, found = .ok id → id.key = name
    | .shmat id, (mapped : Except Errno Addr) => mapped = .ok (.mapped id)
    | _, _ => True
  next _ _ _ := ()
  stops _ label := OwnLabel paths key label
  resume _ _ := ()

/-! ## The operations stay with their names -/

/-- The program makes calls under the names only, and its value is as
promised. -/
abbrev Stays (paths : KeyPaths) (key : Key) {Value : Type}
    (program : Prog Value) (post : Value → Prop) : Prop :=
  program.Conforms (script paths key).toProtocol () fun _ value => post value

section Lock

variable {action : Atomicles.Action} {statics : Lock.Statics}

/-- Everything a command has learnt is of its channel. -/
structure Familiar (paths : KeyPaths) (key : Key) (learnt : Learnt) : Prop where
  users : ∀ id ∈ learnt.users, (names paths key).sem id.key = true
  mutexes : ∀ id ∈ learnt.mutexes, (names paths key).sem id.key = true
  segments : ∀ id ∈ learnt.segments, (names paths key).shm id.key = true

theorem Familiar.mapped {learnt : Learnt} {addr : Addr}
    (familiar : Familiar paths key learnt)
    (mapped : Client.Mapped learnt addr) : addr.Under (names paths key) := by
  rcases mapped with ⟨found, member, rfl⟩
  rintro id ⟨⟩
  exact familiar.segments found member

theorem Familiar.set {learnt : Learnt} {id : IpcId}
    (familiar : Familiar paths key learnt)
    (member : id ∈ learnt.users ∨ id ∈ learnt.mutexes) :
    (names paths key).sem id.key = true := by
  rcases member with user | mutex
  · exact familiar.users id user
  · exact familiar.mutexes id mutex

theorem Familiar.allowed {learnt : Learnt} {call : Call}
    (familiar : Familiar paths key learnt)
    (allowed : (Client.protocol paths key action statics).allow learnt call) :
    call.Under (names paths key) := by
  cases call with
  | semget name nsems creat excl =>
      rcases allowed.1 with rfl | rfl
      · exact user_under
      · exact mutex_under
  | semctlSetall id array => exact familiar.set allowed.2
  | semctlGetval id semnum => exact familiar.set allowed.1
  | semctlStat id => exact familiar.set allowed
  | semctlRmid id => exact familiar.set allowed.1
  | semop id semNum semOp undo nowait =>
      rcases allowed with ⟨_, known⟩
      split at known
      · exact familiar.set (Or.inr known)
      · exact familiar.set (Or.inl known.1)
  | shmget name size creat excl =>
      rcases allowed.1 with rfl
      exact segment_under
  | shmat id => exact familiar.segments id allowed
  | shmdt addr => exact familiar.mapped allowed.1
  | shmctlRmid id => exact familiar.segments id allowed.1
  | memset addr n => exact familiar.mapped allowed.1
  | load addr offset => exact familiar.mapped allowed.1
  | store addr offset value => exact familiar.mapped allowed.1
  | vsnprintf addr offset n text => exact allowed.elim
  | strncpy addr offset n => exact allowed.elim
  | interruptible call => exact allowed.elim
  | _ => trivial

theorem Familiar.learn {learnt : Learnt} {call : Call} {answer : call.Answer}
    (familiar : Familiar paths key learnt)
    (allowed : (Client.protocol paths key action statics).allow learnt call)
    (relied : (script paths key).answer () call answer) :
    (Client.protocol paths key action statics).answer learnt call answer ∧
      Familiar paths key (Client.learn paths key learnt call answer) := by
  cases call with
  | semget name nsems creat excl =>
      refine ⟨relied, ?_⟩
      have under : (names paths key).sem name = true := familiar.allowed allowed
      simp only [Client.learn]
      split
      · rename_i id
        have named : (names paths key).sem id.key = true := by
          rw [relied id rfl]
          exact under
        split
        · exact ⟨List.forall_mem_cons.mpr ⟨named, familiar.users⟩,
            familiar.mutexes, familiar.segments⟩
        · exact ⟨familiar.users,
            List.forall_mem_cons.mpr ⟨named, familiar.mutexes⟩,
            familiar.segments⟩
      · exact ⟨familiar.users, familiar.mutexes, familiar.segments⟩
  | shmget name size creat excl =>
      refine ⟨relied, ?_⟩
      have under : (names paths key).shm name = true := familiar.allowed allowed
      simp only [Client.learn]
      split
      · rename_i id
        have named : (names paths key).shm id.key = true := by
          rw [relied id rfl]
          exact under
        exact ⟨familiar.users, familiar.mutexes,
          List.forall_mem_cons.mpr ⟨named, familiar.segments⟩⟩
      · exact ⟨familiar.users, familiar.mutexes, familiar.segments⟩
  | shmat id => exact ⟨Or.inl relied, familiar⟩
  | _ =>
      refine ⟨trivial, ?_⟩
      simp only [Client.learn]
      repeat' split
      all_goals exact ⟨familiar.users, familiar.mutexes, familiar.segments⟩

/-- The commands of `lock`. -/
theorem stays_command :
    Stays paths key (action.run paths statics key) fun _ => True := by
  have follows : Client.Follows paths key action statics {}
      (action.run paths statics key) := Client.follows_run action
  apply (follows.through (fun learnt _ => Familiar paths key learnt) _ _ _).mono
  · intro _ _ _
    trivial
  · intro learnt _ call familiar allowed
    exact familiar.allowed allowed
  · intro learnt _ call answer familiar allowed relied
    exact familiar.learn allowed relied
  · exact ⟨fun _ impossible => absurd impossible (by simp),
      fun _ impossible => absurd impossible (by simp),
      fun _ impossible => absurd impossible (by simp)⟩

end Lock

section Rules

variable {Value : Type} {post : Value → Prop}

theorem stays_die {cause : Death} :
    Stays paths key (die cause : Prog Value) post :=
  ⟨trivial, fun impossible => impossible.elim⟩

theorem stays_bind {Result : Type} {program : Prog Value}
    {continuation : Value → Prog Result} {middle : Value → Prop}
    {post : Result → Prop} (first : Stays paths key program middle)
    (second : ∀ value, middle value →
      Stays paths key (continuation value) post) :
    Stays paths key (program >>= continuation) post :=
  first.bind fun _ value => second value

/-- A call whose answer is of no matter. -/
theorem stays_issue {call : Call} {next : call.Answer → Prog Value}
    (under : call.Under (names paths key))
    (rest : ∀ answer, Stays paths key (next answer) post) :
    Stays paths key (.issue call next) post :=
  ⟨under, fun answer _ => rest answer⟩

/-! ### Handles -/

theorem stays_attachSet {name : Key}
    (under : (names paths key).sem (paths.semKey name) = true) :
    Stays paths key (Semaphore.attach paths name) fun made =>
      ∀ shsem, made = some shsem →
        (names paths key).sem shsem.id.key = true := by
  rw [← bind_pure (Semaphore.attach paths name), Semaphore.attach_bind]
  refine ⟨under, ?_⟩
  intro (found : Except Errno IpcId) named
  cases found with
  | error errno => rintro shsem ⟨⟩
  | ok id =>
      have isUnder : (names paths key).sem id.key = true := by
        rw [named id rfl]
        exact under
      refine stays_issue trivial ?_
      intro (block : Option Unit)
      cases block with
      | none => exact stays_die
      | some success =>
          refine stays_issue isUnder ?_
          intro (ds : SemidDs) shsem same
          cases same
          exact isUnder

theorem stays_newSet {name : Key} {count size : UShort} {attach : Bool}
    (under : (names paths key).sem (paths.semKey name) = true) :
    Stays paths key (Semaphore.new paths name count size attach) fun made =>
      ∀ shsem, made = some shsem →
        (names paths key).sem shsem.id.key = true := by
  have absent : ∀ shsem : Semaphore, (none : Option Semaphore) = some shsem →
      (names paths key).sem shsem.id.key = true := by
    rintro shsem ⟨⟩
  rw [← bind_pure (Semaphore.new paths name count size attach),
    Semaphore.new_bind]
  refine stays_issue trivial ?_
  intro (block : Option Unit)
  cases block with
  | none => exact absent
  | some success =>
      refine ⟨under, ?_⟩
      intro (made : Except Errno IpcId) named
      cases made with
      | ok id =>
          have isUnder : (names paths key).sem id.key = true := by
            rw [named id rfl]
            exact under
          refine stays_issue isUnder ?_
          intro (outcome : Except Errno Unit)
          cases outcome with
          | error errno => exact absent
          | ok success =>
              intro shsem same
              cases same
              exact isUnder
      | error errno =>
          dsimp only
          split
          · refine ⟨under, ?_⟩
            intro (found : Except Errno IpcId) named
            cases found with
            | error errno => exact absent
            | ok id =>
                intro shsem same
                cases same
                rw [named id rfl]
                exact under
          · exact absent

theorem own_mapped {id : IpcId}
    (under : (names paths key).shm id.key = true) :
    Addr.Under (names paths key) (.mapped id) := by
  rintro other ⟨⟩
  exact under

/-- `SharedMemory$attach`. -/
theorem stays_attach :
    Stays paths key (SharedMemory.attach paths key) fun made =>
      ∀ shmem, made = some shmem → Own paths key shmem := by
  rw [← bind_pure (SharedMemory.attach paths key), SharedMemory.attach_bind]
  refine ⟨segment_under, ?_⟩
  intro (found : Except Errno IpcId) named
  cases found with
  | error errno => rintro shmem ⟨⟩
  | ok id =>
      have isUnder : (names paths key).shm id.key = true := by
        rw [named id rfl]
        exact segment_under
      refine stays_issue trivial ?_
      intro (block : Option SharedMemory)
      cases block with
      | none => exact stays_die
      | some block =>
          dsimp only
          rw [SharedMemory.shmat_bind]
          refine ⟨isUnder, ?_⟩
          rintro _ rfl
          simp only [ne_eq, reduceCtorEq, not_false_eq_true, if_true]
          apply stays_bind (stays_attachSet mutex_under)
          rintro shsem isMutex shmem ⟨⟩
          exact ⟨isUnder, own_mapped isUnder, isMutex⟩

/-- The segment of `SharedMemory$new`. -/
theorem stays_newSegment {this : SharedMemory} {size : Nat} {attach : Bool}
    (isKey : this.key = key) (bare : this.shsem = none) :
    Stays paths key (SharedMemory.newSegment paths this size attach)
      fun made => made.2.shsem = none ∧
        (made.1 = EXIT_SUCCESS → Own paths key made.2) := by
  subst isKey
  have failed : ∀ errno : Errno, Stays paths this.key
      (.done (errno.code, this)) fun made => made.2.shsem = none ∧
        (made.1 = EXIT_SUCCESS → Own paths this.key made.2) :=
    fun errno => ⟨bare, fun succeeded =>
      absurd succeeded errno.code_ne_success⟩
  have maps : ∀ (id : IpcId) (code : Int), id.key = paths.shmKey this.key →
      Stays paths this.key
        (shmat id >>= fun addr =>
          if addr ≠ .failed then
            .done (EXIT_SUCCESS, { this with id, addr })
          else .done (code, { this with id, addr }))
        fun made => made.2.shsem = none ∧
          (made.1 = EXIT_SUCCESS → Own paths this.key made.2) := by
    intro id code named
    have isUnder : (names paths this.key).shm id.key = true := by
      rw [named]
      exact segment_under
    rw [SharedMemory.shmat_bind]
    refine ⟨isUnder, ?_⟩
    rintro _ rfl
    simp only [ne_eq, reduceCtorEq, not_false_eq_true, if_true]
    refine ⟨bare, fun _ => ⟨isUnder, own_mapped isUnder, ?_⟩⟩
    intro shsem owned
    rw [bare] at owned
    cases owned
  rw [← bind_pure (SharedMemory.newSegment paths this size attach),
    SharedMemory.newSegment_bind]
  refine ⟨segment_under, ?_⟩
  intro (made : Except Errno IpcId) named
  cases made with
  | ok id => exact maps id EXIT_FAILURE (named id rfl)
  | error errno =>
      dsimp only
      split
      · refine ⟨segment_under, ?_⟩
        intro (found : Except Errno IpcId) named
        cases found with
        | ok id => exact maps id errno.code (named id rfl)
        | error errno => exact failed errno
      · exact failed errno

theorem stays_lockPages {this : SharedMemory} :
    Stays paths key (SharedMemory.lockPages this) fun _ => True := by
  rw [← bind_pure (SharedMemory.lockPages this), SharedMemory.lockPages_bind]
  refine stays_issue trivial ?_
  intro (all : Except Errno Unit)
  cases all with
  | ok success => trivial
  | error errno =>
      refine stays_issue trivial ?_
      intro (locked : Except Errno Unit)
      cases locked <;> trivial

/-- `SharedMemory$new`. -/
theorem stays_new {size : Nat} {attach : Bool} :
    Stays paths key (SharedMemory.new paths key size attach) fun made =>
      ∀ shmem, made = some shmem → Own paths key shmem := by
  have absent : ∀ shmem : SharedMemory,
      (none : Option SharedMemory) = some shmem → Own paths key shmem := by
    rintro shmem ⟨⟩
  simp only [SharedMemory.new, mallocSharedMemory, Program.issue_bind,
    Program.done_bind]
  refine stays_issue trivial ?_
  intro (block : Option SharedMemory)
  cases block with
  | none => exact absent
  | some block =>
      refine stays_bind (stays_newSegment ?_ ?_) ?_
      · rfl
      · rfl
      rintro ⟨success, this⟩ ⟨bare, owns⟩
      dsimp only at bare owns ⊢
      split
      · rename_i succeeded
        have own := owns succeeded
        apply stays_bind (stays_newSet mutex_under)
        intro shsem isMutex
        cases shsem with
        | none => exact absent
        | some shsem =>
            apply stays_bind stays_lockPages
            intro locked _
            split
            · exact absent
            · rintro shmem ⟨⟩
              exact ⟨own.segment, own.addr, isMutex⟩
      · simp only [SharedMemory.delete, bare, Bool.false_eq_true, if_false,
          pure_bind]
        exact absent

/-! ### What is done with a handle -/

section Handle

variable {this : SharedMemory} (own : Own paths key this)
include own

theorem stays_enter :
    Stays paths key (SharedMemory.enter this) fun _ => True := by
  rw [← bind_pure (SharedMemory.enter this)]
  cases owned : this.shsem with
  | none =>
      rw [SharedMemory.enter_bind_none owned]
      exact stays_die
  | some shsem =>
      rw [SharedMemory.enter_bind owned]
      refine stays_issue (own.mutex shsem owned) ?_
      intro (outcome : Except Errno Unit)
      cases outcome with
      | ok success => trivial
      | error errno =>
          simp only
          split
          · trivial
          · exact stays_die

theorem stays_exit :
    Stays paths key (SharedMemory.exit this) fun _ => True := by
  rw [← bind_pure (SharedMemory.exit this)]
  cases owned : this.shsem with
  | none =>
      simp only [SharedMemory.exit, owned, die_bind]
      exact stays_die
  | some shsem =>
      rw [SharedMemory.exit_bind owned]
      refine stays_issue (own.mutex shsem owned) ?_
      intro (value : Except Errno Nat)
      split
      · refine stays_issue (own.mutex shsem owned) ?_
        intro (outcome : Except Errno Unit)
        cases outcome with
        | ok success => trivial
        | error errno => exact stays_die
      · exact stays_die

theorem stays_read {offset : UShort} :
    Stays paths key (this.readUint offset) fun _ => True := by
  apply stays_bind (stays_enter own)
  intro _ _
  apply stays_bind (stays_exit own)
  intro _ _
  rw [← bind_pure (load this.addr offset.toNat), SharedMemory.load_bind]
  refine stays_issue own.addr ?_
  intro (word : Option UInt)
  cases word with
  | none => exact stays_die
  | some word => trivial

theorem stays_write {offset : UShort} {n : UInt} :
    Stays paths key (this.writeUint offset n) fun _ => True := by
  apply stays_bind (stays_enter own)
  intro _ _
  rw [SharedMemory.store_bind]
  refine stays_issue own.addr ?_
  intro (done : Option Unit)
  cases done with
  | none => exact stays_die
  | some success => exact stays_exit own

/-- `SharedMemory$delete` with the removal of the objects. -/
theorem stays_remove :
    Stays paths key (SharedMemory.delete this true) fun _ => True := by
  have rest : Stays paths key (do
      memset this.addr this.size.value
      munlockall
      shmdt this.addr
      shmctlRmid this.id) fun _ => True := by
    rw [SharedMemory.memset_bind]
    refine stays_issue own.addr ?_
    intro (done : Option Unit)
    cases done with
    | none => exact stays_die
    | some success =>
        exact stays_issue trivial fun _ => stays_issue own.addr fun _ =>
          stays_issue own.segment fun _ => trivial
  cases owned : this.shsem with
  | none => simpa [SharedMemory.delete, owned] using rest
  | some shsem =>
      simp only [SharedMemory.delete, owned, if_true, Semaphore.delete_true,
        semctlRmid_bind]
      exact stays_issue (own.mutex shsem owned) fun _ => rest

end Handle

/-! ### `daemonize.c` -/

/-- Handles that may be missing. -/
def Owns (paths : KeyPaths) (key : Key) (shmem : Option SharedMemory) : Prop :=
  ∀ this, shmem = some this → Own paths key this

theorem Own.owns {this : SharedMemory} (own : Own paths key this) :
    Owns paths key (some this) := by
  rintro _ ⟨⟩
  exact own

theorem owns_none : Owns paths key none := by
  rintro _ ⟨⟩

theorem stays_deref {shmem : Option SharedMemory}
    (owns : Owns paths key shmem) :
    Stays paths key (deref shmem) (Own paths key) := by
  cases shmem with
  | none => exact stays_die
  | some this => exact owns this rfl

/-- The accessors that write. -/
theorem stays_writeWord {shmem : Option SharedMemory}
    (owns : Owns paths key shmem) {offset : UShort} {n : UInt} :
    Stays paths key (do SharedMemory.writeUint (← deref shmem) offset n)
      fun _ => True :=
  stays_bind (stays_deref owns) fun _ own => stays_write own

/-- The accessors that read. -/
theorem stays_getWord {shmem : Option SharedMemory}
    (owns : Owns paths key shmem) {offset : UShort} :
    Stays paths key (getWord shmem offset) fun _ => True := by
  cases shmem with
  | none => trivial
  | some this => exact stays_bind (stays_read (owns this rfl)) fun _ _ => trivial

theorem stays_active {shmem : Option SharedMemory}
    (owns : Owns paths key shmem) :
    Stays paths key (active shmem) fun _ => True :=
  stays_bind (stays_deref owns) fun _ own => stays_read own

theorem stays_kill {pid : Int} {signal : Option Signal} :
    Stays paths key (kill pid signal) fun _ => True := by
  rw [← bind_pure (kill pid signal), kill_bind]
  exact stays_issue trivial fun _ => trivial

theorem stays_daemonstr {pid cpid : Int} :
    Stays paths key (daemonstr pid cpid) fun _ => True :=
  stays_bind stays_kill fun _ _ => stays_bind stays_kill fun _ _ => trivial

theorem stays_cleanup {shmem : Option SharedMemory}
    (owns : Owns paths key shmem) :
    Stays paths key (cleanup shmem) fun _ => True := by
  apply stays_bind (stays_writeWord owns)
  intro _ _
  apply stays_bind (stays_writeWord owns)
  intro _ _
  exact stays_bind (stays_deref owns) fun _ own => stays_remove own

theorem stays_dieWith {shmem : Option SharedMemory}
    (owns : Owns paths key shmem) :
    Stays paths key (Daemon.die shmem : Prog Value) post := by
  apply stays_bind (stays_writeWord owns)
  intro _ _
  apply stays_bind (stays_writeWord owns)
  intro _ _
  cases shmem with
  | none => exact stays_die
  | some this =>
      apply stays_bind (stays_writeWord owns)
      intro _ _
      apply stays_bind (stays_remove (owns this rfl))
      intro _ _
      exact stays_die

theorem stays_installHandlers {this : SharedMemory}
    (own : Own paths key this) (list : List Signal) :
    Stays paths key (installHandlers this list) fun _ => True := by
  induction list with
  | nil => trivial
  | cons signal list ih =>
      unfold installHandlers
      rw [sigaction_bind]
      refine stays_issue trivial ?_
      intro (outcome : Except Errno Unit)
      split
      · exact stays_dieWith own.owns
      · exact ih

theorem stays_closeFileDescriptors :
    Stays paths key closeFileDescriptors fun _ => True := by
  unfold closeFileDescriptors
  rw [getrlimit_bind]
  refine stays_issue trivial ?_
  intro (limit : Except Errno Unit)
  split
  · exact stays_dieWith owns_none
  · trivial

theorem stays_endRound {decay : UInt → Nat} {locals : Locals}
    (own : Own paths key locals.shmem) :
    Stays paths key (endRound decay locals) (OwnLabel paths key) := by
  apply stays_bind (stays_active own.owns)
  intro _ _
  apply stays_bind (stays_active own.owns)
  intro isActive _
  split
  · apply stays_bind (stays_cleanup own.owns)
    intro _ _
    exact stays_die
  · rw [sleep_bind]
    refine stays_issue trivial ?_
    intro _
    apply stays_bind (stays_active own.owns)
    intro stillActive _
    split
    · exact own
    · exact own

theorem stays_child {this : SharedMemory} (own : Own paths key this) :
    Stays paths key (child this) (OwnLabel paths key) := by
  apply stays_bind (stays_bind (stays_getWord own.owns)
    fun _ _ => stays_writeWord own.owns)
  intro _ _
  apply stays_bind (stays_getWord own.owns)
  intro _ _
  rw [execvp_bind]
  refine stays_issue trivial ?_
  intro _
  exact stays_dieWith own.owns

theorem stays_round {decay : UInt → Nat} {stack : WaitStatus}
    {locals : Locals} (own : Own paths key locals.shmem) :
    Stays paths key (round decay stack locals) (OwnLabel paths key) := by
  rw [round_eq]
  apply stays_bind (stays_installHandlers own signals)
  intro _ _
  refine stays_issue trivial ?_
  intro exec_time
  refine stays_issue trivial ?_
  intro (cpid : Int)
  split
  · exact stays_child own
  · apply stays_bind (stays_writeWord own.owns)
    intro _ _
    apply stays_bind (stays_writeWord own.owns)
    intro _ _
    refine stays_issue trivial ?_
    intro (outcome : Except Errno (Int × WaitStatus))
    split
    · refine stays_issue trivial ?_
      intro failure_time
      exact stays_endRound own
    · exact own

theorem stays_caught {decay : UInt → Nat} {sig_rcvd : Signal}
    {locals : Locals} (own : Own paths key locals.shmem) :
    Stays paths key (caught decay sig_rcvd locals) (OwnLabel paths key) := by
  unfold caught
  dsimp only
  split
  · apply stays_bind (stays_getWord own.owns)
    intro cpid _
    exact stays_bind stays_kill fun _ _ => stays_dieWith own.owns
  · split
    · exact stays_dieWith own.owns
    · apply stays_bind (stays_getWord own.owns)
      intro cpid _
      exact stays_bind stays_kill fun _ _ => stays_endRound own

theorem stays_daemonize {this : SharedMemory} {count : Int}
    (own : Own paths key this) :
    Stays paths key (daemonize this count) (OwnLabel paths key) := by
  unfold daemonize
  dsimp only
  rw [fork_bind]
  refine stays_issue trivial ?_
  intro (pid : Int)
  split
  · exact own
  · rw [fork_bind]
    refine stays_issue trivial ?_
    intro (pid : Int)
    split
    · apply stays_bind (stays_writeWord own.owns)
      intro _ _
      exact stays_die
    · apply stays_bind stays_closeFileDescriptors
      intro _ _
      exact own

theorem stays_start {this : SharedMemory} (own : Own paths key this) :
    Stays paths key (start this) (OwnLabel paths key) := by
  apply stays_bind (stays_getWord own.owns)
  intro pid _
  apply stays_bind (stays_getWord own.owns)
  intro cpid _
  apply stays_bind (stays_getWord own.owns)
  intro count _
  split
  · exact stays_bind stays_daemonstr fun _ _ => trivial
  · exact stays_daemonize own

theorem stays_poll {this : SharedMemory} (own : Own paths key this) :
    ∀ c pid cpid, Stays paths key (poll this c pid cpid) fun _ => True
  | 0, _, _ => trivial
  | c + 1, _, _ => by
      apply stays_bind (stays_getWord own.owns)
      intro pid _
      apply stays_bind (stays_getWord own.owns)
      intro cpid _
      split
      · trivial
      · rw [sleep_bind]
        exact stays_issue trivial fun _ => stays_poll own c pid cpid

theorem stays_returned {locals : Locals}
    (own : Own paths key locals.shmem) :
    Stays paths key (returned locals) (OwnLabel paths key) := by
  apply stays_bind (stays_poll own 5 0 0)
  rintro ⟨pid, cpid⟩ _
  exact stays_bind stays_daemonstr fun _ _ => trivial

theorem stays_stop {this : SharedMemory} (own : Own paths key this) :
    Stays paths key (stop this) (OwnLabel paths key) := by
  apply stays_bind (stays_getWord own.owns)
  intro pid _
  apply stays_bind (stays_getWord own.owns)
  intro cpid _
  apply stays_bind (stays_getWord own.owns)
  intro count _
  apply stays_bind stays_daemonstr
  intro _ _
  split
  · apply stays_bind stays_kill
    intro failed _
    split
    · trivial
    · apply stays_bind stays_kill
      intro failed _
      split
      · trivial
      · exact stays_bind (stays_cleanup own.owns) fun _ _ => trivial
  · trivial

theorem stays_status {shmem : Option SharedMemory}
    (owns : Owns paths key shmem) :
    Stays paths key (status shmem) (OwnLabel paths key) := by
  apply stays_bind (stays_getWord owns)
  intro pid _
  apply stays_bind (stays_getWord owns)
  intro cpid _
  apply stays_bind (stays_getWord owns)
  intro count _
  apply stays_bind stays_daemonstr
  intro _ _
  split
  · apply stays_bind stays_kill
    intro failed _
    split
    · exact stays_bind stays_kill fun _ _ => trivial
    · trivial
  · trivial

theorem stays_main {action : Daemon.Action} :
    Stays paths key (main paths action key) (OwnLabel paths key) := by
  cases action with
  | start =>
      apply stays_bind stays_new
      intro shmem owns
      cases shmem with
      | none => trivial
      | some this => exact stays_start (owns this rfl)
  | stop =>
      apply stays_bind stays_attach
      intro shmem owns
      cases shmem with
      | none => trivial
      | some this => exact stays_stop (owns this rfl)
  | status =>
      apply stays_bind stays_attach
      intro shmem owns
      exact stays_status owns

end Rules

/-! ## Operations on a channel -/

/-- An operation as a command line starts it. -/
inductive Operation where
  | lock (action : Atomicles.Action) (statics : Lock.Statics)
  | daemonize (action : Daemon.Action)

/-- The keys that the command line accepts for it. -/
def Operation.Accepts (key : Key) : Operation → Prop
  | .lock .. => True
  | .daemonize _ => 0 < key.toInt

/-- The code of the process that is started. -/
def Operation.program (paths : KeyPaths) (key : Key) : Operation → Prog Label
  | .lock action statics =>
      action.run paths statics key >>= fun e => .done (.ended e)
  | .daemonize action => .done (.main action key)

/-- Processes that are about to work on a channel. -/
def opening (paths : KeyPaths) (key : Key)
    (operations : Pid → Option Operation) (world : World) : Processes where
  state := world
  procs process := (operations process).map (·.program paths key)
  log := []

/-- No `shmat` fails, and a child gets the identifier of no living process. -/
def Orderly (crew : Processes) : Moves → Prop
  | .call _ ⟨.shmat _, (mapped : Except Errno Addr)⟩ => mapped.isOk = true
  | .fork _ child _ => crew.state.living child = false
  | _ => True

/-- The operations are started as new processes, and so is whatever they
fork. -/
structure Arrives (operations : Pid → Option Operation) (world : World) :
    Prop where
  jmpbuf : ∀ process, (operations process).isSome = true →
    world.buffer process = none
  new : ∀ process, (operations process).isSome = true ∨
    world.living process = false → world.store.New process

/-- What operations on a channel can come to: all their calls with the answers
to them, and where the processes are then. -/
def Reached (paths : KeyPaths) (decay : UInt → Nat) (key : Key)
    (operations : Pid → Option Operation) (world : World)
    (log : List Moves) (procs : Pid → Option (Prog Label)) : Prop :=
  ∃ crew, Crew.Reach (system paths decay fun _ => True) Orderly
    (opening paths key operations world) crew ∧
      crew.log = log ∧ crew.procs = procs

/-- Whatever operations on the first key are run, the objects of the second
one stay as they were, and so does all that operations on it can come to. -/
structure Isolated (paths : KeyPaths) (decay : UInt → Nat)
    (first second : Key) : Prop where
  unchanged : ∀ world operations crew, world.store.Regular →
    Arrives operations world →
    (∀ process operation, operations process = some operation →
      operation.Accepts first) →
    Crew.Reach (system paths decay fun _ => True) Orderly
      (opening paths first operations world) crew →
    Same (names paths second) world.store crew.state.store
  results : ∀ world operations crew, world.store.Regular →
    Arrives operations world →
    (∀ process operation, operations process = some operation →
      operation.Accepts first) →
    Crew.Reach (system paths decay fun _ => True) Orderly
      (opening paths first operations world) crew →
    ∀ later, Arrives later world →
      (∀ process operation, later process = some operation →
        operation.Accepts second) →
      ∀ log procs,
        Reached paths decay second later
            { world with store := crew.state.store } log procs ↔
          Reached paths decay second later
            { world with
              store := { world.store with now := crew.state.store.now } }
            log procs

/-! ## A world put together -/

/-- The world with the objects under all other names from another store. -/
def splice (names : Footprint) (world : World) (outer : Store) : World :=
  { world with store := world.store.splice names outer }

section Splice

variable {names : Footprint} {world : World} {outer : Store} {process : Pid}

theorem splice_post {target : Pid} {signal : Signal} :
    (splice names world outer).post target signal =
      splice names (world.post target signal) outer := by
  unfold World.post
  by_cases arrives :
      (world.living target && !world.discards target signal) = true
  · rw [if_pos arrives]
    exact if_pos arrives
  · rw [if_neg arrives]
    exact if_neg arrives

/-- A call under the names does the same to the part as to the whole. -/
theorem splice_serve {choice : Choice} {call : Call}
    (under : call.Under names) :
    (splice names world outer).serve process choice call =
      (world.serve process choice call).map fun served =>
        (served.1, splice names served.2 outer) := by
  have ipc : (Atomicles.serve process choice call
        (world.store.splice names outer)).map (fun served =>
          (served.1, { splice names world outer with store := served.2 })) =
      ((Atomicles.serve process choice call world.store).map fun served =>
        (served.1, { world with store := served.2 })).map fun served =>
          (served.1, splice names served.2 outer) := by
    rw [serve_splice under]
    cases Atomicles.serve process choice call world.store <;> rfl
  cases call with
  | fork => rfl
  | execvp => rfl
  | sigaction signal =>
      simp only [World.serve]
      split <;> rfl
  | kill pid signal =>
      simp only [World.serve]
      cases choice.refuse with
      | some errno => rfl
      | none =>
          by_cases group : pid ≤ 0
          · simp [group]
          · by_cases lives : world.living pid.toNat = true
            · have spliced :
                  (splice names world outer).living pid.toNat = true := lives
              cases signal <;> simp [group, lives, spliced, splice_post]
            · have spliced :
                  ¬ (splice names world outer).living pid.toNat = true := lives
              simp [group, lives, spliced]
  | waitpid pid =>
      have awaited : (splice names world outer).awaited process pid =
          world.awaited process pid := rfl
      have deliverable : (splice names world outer).deliverable process =
          world.deliverable process := rfl
      simp only [World.serve, awaited, deliverable]
      split
      · split <;> rfl
      · split <;> rfl
  | _ => exact ipc

theorem splice_leave :
    (splice names world outer).leave process =
      splice names (world.leave process) (outer.leave process) := by
  unfold World.leave splice
  rw [Store.splice_leave]
  rfl

theorem splice_exec :
    (splice names world outer).exec process =
      splice names (world.exec process)
        { outer with
          shms := fun id => (outer.shms id).bind fun segment =>
            Store.keepMapped segment
              (segment.attached.filter (· ≠ process)) } := by
  unfold World.exec splice Store.splice
  dsimp only
  congr 2
  funext id
  split <;> rfl

theorem splice_clone {parent child : Pid} :
    (splice names world outer).clone parent child =
      splice names (world.clone parent child)
        (granting.clone parent child outer) := by
  unfold World.clone splice Store.splice
  dsimp only [granting, kernel]
  congr 2
  funext id
  split <;> rfl

theorem splice_enter {label : Label} :
    Daemon.enter process label (splice names world outer) =
      splice names (Daemon.enter process label world) outer := by
  cases label <;> rfl

end Splice

/-! ## All processes of a channel -/

section Runs

variable {decay : UInt → Nat} {operations : Pid → Option Operation}
variable {world : World}

theorem leave_living {process other : Pid}
    (gone : (world.leave process).living other = false) :
    other = process ∨ world.living other = false := by
  by_cases same : other = process
  · exact Or.inl same
  · simp only [World.leave, Function.update_of_ne same] at gone
    exact Or.inr gone

/-- No call changes who is alive. -/
theorem call_living {process : Pid} {call : Call} {answer : call.Answer}
    {before after : World}
    (exec : (system paths decay fun _ => True).exec process call before answer
      after) : after.living = before.living := by
  rcases exec with ⟨choice, _, served⟩
  rcases World.serve_frame served with
    ⟨signal, _, rfl⟩ | ⟨target, signal, rfl⟩ | ⟨store, rfl⟩
  · rfl
  · exact World.post_living
  · rfl

/-- What `setjmp` has saved is of the channel. -/
def Home (paths : KeyPaths) (key : Key) (crew : Processes) : Prop :=
  ∀ process saved, crew.procs process ≠ none →
    crew.state.buffer process = some saved → Own paths key saved.shmem

/-- The answers that a process of the channel relies on. -/
theorem relied {process : Pid} {call : Call} {answer : call.Answer}
    {before after : World} {crew : Processes}
    (exec : (system paths decay fun _ => True).exec process call before answer
      after)
    (orderly : Orderly crew (.call process ⟨call, answer⟩)) :
    (script paths key).answer () call answer := by
  cases call with
  | semget name nsems creat excl =>
      rintro id rfl
      rcases exec_store paths decay exec with ⟨impossible, _⟩ | ipc
      · cases impossible
      · exact exec_semget_key ipc
  | shmget name size creat excl =>
      rintro id rfl
      have found := call_shmget paths decay exec
      exact (Store.findShm_eq_some_iff.mp found).1
  | shmat id =>
      cases answer with
      | error errno => cases orderly
      | ok addr =>
          rw [call_shmat paths decay exec]
          rfl
  | _ => trivial

theorem home_update {crew : Processes} {process : Pid}
    {next : Option (Prog Label)} {move : Moves} {state : World}
    (home : Home paths key crew) (running : crew.procs process ≠ none)
    (buffer : ∀ other saved, state.buffer other = some saved →
      crew.state.buffer other = some saved ∨
        other = process ∧ Own paths key saved.shmem) :
    Home paths key
      (crew.record move state (Function.update crew.procs process next)) := by
  intro other saved lives jmpbuf
  rcases buffer other saved jmpbuf with old | ⟨_, own⟩
  · by_cases same : other = process
    · subst same
      exact home other saved running old
    · rw [Crew.record_procs, Function.update_of_ne same] at lives
      exact home other saved lives old
  · exact own

theorem preserves :
    Crew.Preserves (system paths decay fun _ => True) Orderly
      (script paths key) fun crew _ => Home paths key crew where
  call := by
    intro crew phases process call next answer state home running _ exec fine
    refine ⟨relied exec fine, home_update home (by simp [running]) ?_⟩
    intro other saved jmpbuf
    rw [call_buffer paths decay exec] at jmpbuf
    exact Or.inl jmpbuf
  fork := by
    intro crew phases parent child call next here there home running fresh _
      forks _
    have isFork : call = .fork := by
      cases call <;> first | rfl | cases forks
    subst isFork
    refine ⟨trivial, trivial, ?_⟩
    intro other saved lives jmpbuf
    simp only [Crew.record_state, system, World.clone] at jmpbuf
    by_cases isChild : other = child
    · subst isChild
      rw [Function.update_self] at jmpbuf
      exact home parent saved (by simp [running]) jmpbuf
    · rw [Function.update_of_ne isChild] at jmpbuf
      rw [Crew.record_procs, Function.update_of_ne isChild] at lives
      by_cases isParent : other = parent
      · subst isParent
        exact home other saved (by simp [running]) jmpbuf
      · rw [Function.update_of_ne isParent] at lives
        exact home other saved lives jmpbuf
  enter := by
    intro crew phases process label program home running stops code _
    rcases code with ⟨stack, piece⟩
    have follows : (script paths key).Follows () program := by
      cases label with
      | main action channel =>
          cases piece
          have isKey : channel = key := stops
          subst isKey
          exact stays_main
      | round locals =>
          cases piece
          exact stays_round stops
      | caught sig_rcvd locals =>
          cases piece
          exact stays_caught stops
      | returned locals =>
          cases piece
          exact stays_returned stops
      | spinning locals => cases piece
      | command => cases piece
      | ended status => cases piece
    refine ⟨follows, home_update home (by simp [running]) ?_⟩
    intro other saved jmpbuf
    cases label with
    | round locals =>
        simp only [system, Daemon.enter] at jmpbuf
        by_cases same : other = process
        · subst same
          rw [Function.update_self] at jmpbuf
          cases jmpbuf
          exact Or.inr ⟨rfl, stops⟩
        · rw [Function.update_of_ne same] at jmpbuf
          exact Or.inl jmpbuf
    | returned locals =>
        simp only [system, Daemon.enter] at jmpbuf
        by_cases same : other = process
        · subst same
          rw [Function.update_self] at jmpbuf
          cases jmpbuf
        · rw [Function.update_of_ne same] at jmpbuf
          exact Or.inl jmpbuf
    | _ => exact Or.inl jmpbuf
  jump := by
    intro crew phases process program label state home running _ jumps _
    cases jumps with
    | @caught _ _ signal saved locals deliverable jmpbuf shmem count =>
        refine ⟨(), ?_, home_update home (by simp [running]) ?_⟩
        · have own : Own paths key locals.shmem := by
            rw [shmem]
            exact home process saved (by simp [running]) jmpbuf
          exact own
        · intro other saved jmpbuf
          exact Or.inl jmpbuf
    | exec =>
        refine ⟨(), trivial, home_update home (by simp [running]) ?_⟩
        intro other saved jmpbuf
        simp only [World.exec] at jmpbuf
        by_cases same : other = process
        · subst same
          rw [Function.update_self] at jmpbuf
          cases jmpbuf
        · rw [Function.update_of_ne same] at jmpbuf
          exact Or.inl jmpbuf
  leave := by
    intro crew phases process program move home running _ _ _
    refine ⟨(), home_update home (by simp [running]) ?_⟩
    intro other saved jmpbuf
    simp only [system, World.leave] at jmpbuf
    by_cases same : other = process
    · subst same
      rw [Function.update_self] at jmpbuf
      cases jmpbuf
    · rw [Function.update_of_ne same] at jmpbuf
      exact Or.inl jmpbuf
  outside := by
    intro crew phases event home _ other saved lives jmpbuf
    simp only [Crew.record_state, system, World.post_buffer] at jmpbuf
    exact home other saved lives jmpbuf

/-- The processes of a channel stay with its names in all runs. -/
theorem follows_reached {crew : Processes}
    (jmpbuf : ∀ process, (operations process).isSome = true →
      world.buffer process = none)
    (reach : Crew.Reach (system paths decay fun _ => True) Orderly
      (opening paths key operations world) crew) {process : Pid}
    {program : Prog Label} (running : crew.procs process = some program) :
    (script paths key).Follows () program := by
  have initially : Crew.Simulated (script paths key)
      (fun crew _ => Home paths key crew) (opening paths key operations world)
        fun _ => () := by
    constructor
    · intro process saved lives saves
      have isOperation : (operations process).isSome = true := by
        cases isOne : operations process with
        | none => simp [opening, isOne] at lives
        | some operation => rfl
      have nothing := jmpbuf process isOperation
      simp only [opening] at saves
      rw [nothing] at saves
      cases saves
    · intro process program running
      rcases Option.map_eq_some_iff.mp running with ⟨operation, _, rfl⟩
      cases operation with
      | lock action statics =>
          exact stays_bind stays_command fun _ _ => trivial
      | daemonize action => exact rfl
  rcases reach.simulated preserves initially with ⟨phases, _, follows⟩
  exact follows process program running

/-! ### Objects under other names -/

/-- A call under the names leaves everything else as it was. -/
theorem same_call {others : Footprint} {process : Pid} {call : Call}
    {answer : call.Answer} {before after : World}
    (disjoint : (names paths key).Disjoint others)
    (under : call.Under (names paths key))
    (exec : (system paths decay fun _ => True).exec process call before answer
      after) : Same others before.store after.store := by
  rcases exec with ⟨choice, _, served⟩
  have whole : splice (names paths key) before before.store = before := by
    simp [splice]
  rw [← whole, splice_serve under] at served
  rcases Option.map_eq_some_iff.mp served with ⟨⟨_, part⟩, _, same⟩
  cases same
  exact Same.splice disjoint

/-- The objects under the other names as they were at first; whoever is in the
crew or may come to it has nothing to do with them. -/
structure Untouched (others : Footprint) (initial : Store) (crew : Processes) :
    Prop where
  same : Same others initial crew.state.store
  new : ∀ process, crew.procs process ≠ none ∨
    crew.state.living process = false → initial.New process

theorem Untouched.update {others : Footprint} {initial : Store} {crew : Processes}
    (untouched : Untouched others initial crew) {process : Pid}
    {next : Option (Prog Label)} {move : Moves} {state : World}
    (running : crew.procs process ≠ none)
    (same : Same others initial state.store)
    (living : ∀ other, state.living other = false →
      other = process ∨ crew.state.living other = false) :
    Untouched others initial
      (crew.record move state (Function.update crew.procs process next)) where
  same := same
  new := by
    intro other takesPart
    by_cases isProcess : other = process
    · subst isProcess
      exact untouched.new other (Or.inl running)
    · apply untouched.new
      rcases takesPart with lives | gone
      · rw [Crew.record_procs, Function.update_of_ne isProcess] at lives
        exact Or.inl lives
      · rcases living other gone with impossible | gone
        · exact absurd impossible isProcess
        · exact Or.inr gone

theorem untouched_reached {others : Footprint} {crew : Processes}
    (disjoint : (names paths key).Disjoint others)
    (regular : world.store.Regular) (arrives : Arrives operations world)
    (reach : Crew.Reach (system paths decay fun _ => True) Orderly
      (opening paths key operations world) crew) :
    Untouched others world.store crew := by
  induction reach with
  | start =>
      refine ⟨.refl others world.store, ?_⟩
      intro process takesPart
      apply arrives.new
      rcases takesPart with lives | gone
      · cases isOne : operations process with
        | none => simp [opening, isOne] at lives
        | some operation => exact Or.inl rfl
      · exact Or.inr gone
  | @step crew after move before step fine ih =>
      cases step with
      | @call process call next answer state running exec =>
          have follows := follows_reached arrives.jmpbuf before running
          apply ih.update (by simp [running])
          · exact ih.same.trans (same_call disjoint follows.1 exec)
          · intro other gone
            rw [call_living exec] at gone
            exact Or.inr gone
      | @fork parent child call next here there running fresh forks =>
          have newParent := ih.new parent (Or.inl (by simp [running]))
          have newChild := ih.new child (Or.inr fine)
          refine ⟨?_, ?_⟩
          · exact ih.same.clone newParent
          · intro other takesPart
            by_cases isChild : other = child
            · rw [isChild]
              exact newChild
            · by_cases isParent : other = parent
              · rw [isParent]
                exact newParent
              · apply ih.new
                rcases takesPart with lives | gone
                · rw [Crew.record_procs, Function.update_of_ne isChild,
                    Function.update_of_ne isParent] at lives
                  exact Or.inl lives
                · simp only [Crew.record_state, system, World.clone,
                    Function.update_of_ne isChild] at gone
                  exact Or.inr gone
      | @enter process label program running code =>
          apply ih.update (by simp [running])
          · cases label <;> exact ih.same
          · intro other gone
            cases label <;> exact Or.inr gone
      | @jump process program label state running jumps =>
          apply ih.update (by simp [running])
          · cases jumps with
            | caught _ _ _ _ => exact ih.same
            | exec =>
                exact ih.same.unmap regular
                  (ih.new process (Or.inl (by simp [running])))
          · intro other gone
            cases jumps with
            | caught _ _ _ _ => exact Or.inr gone
            | exec => exact Or.inr gone
      | @leave process program running exits =>
          apply ih.update (by simp [running])
          · exact ih.same.leave regular
              (ih.new process (Or.inl (by simp [running])))
          · intro other gone
            exact leave_living gone
      | @kill process program running =>
          apply ih.update (by simp [running])
          · exact ih.same.leave regular
              (ih.new process (Or.inl (by simp [running])))
          · intro other gone
            exact leave_living gone
      | outside event =>
          refine ⟨?_, ?_⟩
          · simpa [system] using ih.same
          · intro other takesPart
            simp only [Crew.record_state, Crew.record_procs, system,
              World.post_living] at takesPart
            exact ih.new other takesPart

/-! ### Runs in another store -/

/-- The crew with the objects under other names from another store. -/
def spliced (names : Footprint) (crew : Processes) (outer : Store) : Processes :=
  { crew with state := splice names crew.state outer }

theorem Orderly.spliced {names : Footprint} {crew : Processes} {outer : Store}
    {move : Moves} (orderly : Orderly crew move) :
    Orderly (spliced names crew outer) move := by
  cases move with
  | call process event => exact orderly
  | fork parent child call => exact orderly
  | _ => trivial

theorem step_record {names : Footprint} {crew : Processes} {move : Moves}
    {outer outer' : Store} {state after : World}
    {procs : Pid → Option (Prog Label)}
    (step : Crew.Step (system paths decay fun _ => True)
      (spliced names crew outer) move
        ((spliced names crew outer).record move state procs))
    (same : state = splice names after outer') :
    Crew.Step (system paths decay fun _ => True) (spliced names crew outer) move
      (spliced names (crew.record move after procs) outer') := by
  subst same
  exact step

/-- A move by a process of the channel can be made whatever there is under
other names. -/
theorem step_spliced {crew after : Processes} {move : Moves} {outer : Store}
    (follows : ∀ process program, crew.procs process = some program →
      (script paths key).Follows () program)
    (step : Crew.Step (system paths decay fun _ => True) crew move after) :
    ∃ outer', Crew.Step (system paths decay fun _ => True)
      (spliced (names paths key) crew outer) move
        (spliced (names paths key) after outer') := by
  cases step with
  | @call process call next answer state running exec =>
      rcases exec with ⟨choice, admitted, served⟩
      have under : call.Under (names paths key) := (follows _ _ running).1
      have exec : (system paths decay fun _ => True).exec process call
          (splice (names paths key) crew.state outer) answer
            (splice (names paths key) state outer) :=
        ⟨choice, admitted, by rw [splice_serve under, served]; rfl⟩
      exact ⟨outer, step_record (.call running exec) rfl⟩
  | fork running fresh forks =>
      exact ⟨_, step_record (.fork running fresh forks) splice_clone⟩
  | enter running code =>
      exact ⟨_, step_record (.enter running code) splice_enter⟩
  | @jump process program label state running jumps =>
      cases jumps with
      | caught deliverable jmpbuf shmem count =>
          exact ⟨outer, step_record
            (.jump running (.caught deliverable jmpbuf shmem count)) rfl⟩
      | exec => exact ⟨_, step_record (.jump running .exec) splice_exec⟩
  | leave running exits =>
      exact ⟨_, step_record (.leave running exits) splice_leave⟩
  | kill running => exact ⟨_, step_record (.kill running) splice_leave⟩
  | outside event => exact ⟨_, step_record (.outside event) splice_post⟩

/-- A run of a channel is one whatever there is under other names. -/
theorem reach_spliced {crew : Processes}
    (jmpbuf : ∀ process, (operations process).isSome = true →
      world.buffer process = none)
    (reach : Crew.Reach (system paths decay fun _ => True) Orderly
      (opening paths key operations world) crew) (outer : Store) :
    ∃ outer', Crew.Reach (system paths decay fun _ => True) Orderly
      (opening paths key operations (splice (names paths key) world outer))
        (spliced (names paths key) crew outer') := by
  induction reach with
  | start => exact ⟨outer, .start⟩
  | step before step fine ih =>
      rcases ih with ⟨middle, reached⟩
      rcases step_spliced (fun _ _ => follows_reached jmpbuf before) step with
        ⟨last, moved⟩
      exact ⟨last, reached.step moved fine.spliced⟩

/-- So what operations come to does not depend on other names. -/
theorem reached_spliced {log : List Moves} {procs : Pid → Option (Prog Label)}
    (jmpbuf : ∀ process, (operations process).isSome = true →
      world.buffer process = none) (outer : Store)
    (reached : Reached paths decay key operations world log procs) :
    Reached paths decay key operations
      (splice (names paths key) world outer) log procs := by
  rcases reached with ⟨crew, reach, rfl, rfl⟩
  rcases reach_spliced jmpbuf reach outer with ⟨outer', reach'⟩
  exact ⟨_, reach', rfl, rfl⟩

end Runs

/-! ## Which channels are isolated -/

/-- Channels have no name in common if their keys differ modulo 128. -/
theorem names_disjoint {first second : Key}
    (different : first.toNat % 128 ≠ second.toNat % 128) :
    (names paths first).Disjoint (names paths second) where
  sem name isSecond := by
    have low := mutex_low first
    have low' := mutex_low second
    apply Bool.eq_false_iff.mpr
    intro isFirst
    rcases sem_iff.mp isSecond with rfl | rfl
    · rcases sem_iff.mp isFirst with same | same
      · rw [semKey_eq_iff] at same
        omega
      · rw [semKey_eq_iff] at same
        omega
    · rcases sem_iff.mp isFirst with same | same
      · rw [semKey_eq_iff] at same
        omega
      · rw [semKey_eq_iff] at same
        omega
  shm name isSecond := by
    apply Bool.eq_false_iff.mpr
    intro isFirst
    have same : paths.shmKey first = paths.shmKey second :=
      (shm_iff.mp isFirst).symm.trans (shm_iff.mp isSecond)
    rw [shmKey_eq_iff] at same
    omega

/-- If they do not, the set that a lock makes is a name of both. -/
theorem user_shared {first second : Key}
    (same : first.toNat % 128 = second.toNat % 128) :
    (names paths second).sem (paths.semKey first) = true := by
  have low := mutex_low second
  apply sem_iff.mpr
  rw [semKey_eq_iff, semKey_eq_iff]
  omega

/-- A world in which the processes with operations are all there is. -/
def fresh (operations : Pid → Option Operation) : World :=
  World.initial (Store.empty 0) (fun _ => false) fun process =>
    (operations process).map fun _ => .ended 0

theorem fresh_regular {operations : Pid → Option Operation} :
    (fresh operations).store.Regular where
  semvals := by
    rintro id set ⟨⟩
  attached := by
    rintro id segment ⟨⟩

theorem fresh_arrives {operations : Pid → Option Operation} :
    Arrives operations (fresh operations) where
  jmpbuf _ _ := rfl
  new _ _ :=
    { semadj := by
        rintro id set ⟨⟩
      attached := by
        rintro id segment ⟨⟩ }

/-- One process that makes a lock. -/
def creation (process : Pid) : Option Operation :=
  if process = 1 then some (.lock (.create 1 0) .initial) else none

theorem creation_accepts {key : Key} (process : Pid) (operation : Operation)
    (isOperation : creation process = some operation) :
    operation.Accepts key := by
  unfold creation at isOperation
  split at isOperation
  · cases isOperation
    trivial
  · cases isOperation

/-- The set is there after two calls. -/
theorem creation_makes (paths : KeyPaths) (decay : UInt → Nat) (key : Key) :
    ∃ crew, Crew.Reach (system paths decay fun _ => True) Orderly
      (opening paths key creation (fresh creation)) crew ∧
        crew.state.store.semGen (paths.semKey key) = 1 := by
  have begins : ∃ (next : Option Unit → Prog Label)
      (next' : Except Errno IpcId → Prog Label),
      (Operation.lock (.create 1 0) .initial).program paths key =
          .issue .mallocSemaphore next ∧
        next (some ()) =
          .issue (.semget (paths.semKey key) 1 true true) next' := by
    simp only [Operation.program, Action.run, Lock.create, bind_assoc]
    rw [Semaphore.new_bind]
    exact ⟨_, _, rfl, rfl⟩
  rcases begins with ⟨next, next', isFirst, isSecond⟩
  have first : ∃ middle, Crew.Step (system paths decay fun _ => True)
      (opening paths key creation (fresh creation))
      (.call 1 ⟨.mallocSemaphore, (some () : Option Unit)⟩) middle ∧
        middle.procs 1 =
          some (.issue (.semget (paths.semKey key) 1 true true) next') ∧
        middle.state.store = Store.empty 0 :=
    ⟨_, .call (congrArg some isFirst) ⟨{}, trivial, rfl⟩,
      by rw [Crew.record_procs, Function.update_self, isSecond], rfl⟩
  rcases first with ⟨middle, first, running, empty⟩
  have served : middle.state.serve 1 {}
      (.semget (paths.semKey key) 1 true true) =
        some ((.ok ⟨paths.semKey key, 1⟩ : Except Errno IpcId),
          { middle.state with
            store := ((Store.empty 0).semget (paths.semKey key) 1 true
              true).2 }) := by
    simp only [World.serve, empty]
    rfl
  have second : Crew.Step (system paths decay fun _ => True) middle _ _ :=
    .call running ⟨{}, trivial, served⟩
  refine ⟨_, (Crew.Reach.start.step first trivial).step second trivial, ?_⟩
  simp [Store.semget, Store.findSem, Store.empty, SEMMSL]

/--
Two channels are isolated exactly if their keys differ in the low 7 bits: the
set of a lock is the mutex of the segment 128 keys away.
-/
theorem isolated_iff (paths : KeyPaths) (decay : UInt → Nat)
    (first second : Key) :
    Isolated paths decay first second ↔
      first.toNat % 128 ≠ second.toNat % 128 := by
  constructor
  · intro isolated same
    rcases creation_makes paths decay first with ⟨crew, reach, made⟩
    have unchanged := isolated.unchanged (fresh creation) creation crew
      fresh_regular fresh_arrives creation_accepts reach
    have still := unchanged.semGen (paths.semKey first) (user_shared same)
    rw [made] at still
    cases still
  · intro different
    have disjoint : (names paths first).Disjoint (names paths second) :=
      names_disjoint different
    constructor
    · intro world operations crew regular arrives _ reach
      exact (untouched_reached disjoint regular arrives reach).same
    · intro world operations crew regular arrives _ reach later arrivesLater _
        log procs
      have same := (untouched_reached disjoint regular arrives reach).same
      have jmpbuf : ∀ store process, (later process).isSome = true →
          ({ world with store } : World).buffer process = none :=
        fun _ => arrivesLater.jmpbuf
      have timed : Same (names paths second)
          { world.store with now := crew.state.store.now }
          crew.state.store :=
        ⟨same.sems, same.semGen, same.shms, same.shmGen⟩
      have there : splice (names paths second)
          { world with
            store := { world.store with now := crew.state.store.now } }
          crew.state.store = { world with store := crew.state.store } := by
        unfold splice
        rw [timed.splice_eq]
      have back : splice (names paths second)
          { world with store := crew.state.store } world.store =
            { world with
              store := { world.store with now := crew.state.store.now } } := by
        unfold splice
        rw [same.symm.splice_eq]
      constructor
      · intro reached
        have reached' := reached_spliced (jmpbuf _) world.store reached
        rwa [back] at reached'
      · intro reached
        have reached' := reached_spliced (jmpbuf _) crew.state.store reached
        rwa [there] at reached'

/-- The set of lock 128 is the mutex of the segment of lock 0. -/
theorem not_isolated :
    ¬ ∀ first second : Key, first ≠ second →
      Isolated .devtmpfs (fun _ => 0) first second := by
  intro isolated
  have separate : Isolated .devtmpfs (fun _ => 0) 128 0 :=
    isolated 128 0 (by decide)
  have unchanged := separate.unchanged (fresh creation) creation
  rcases creation_makes .devtmpfs (fun _ => 0) 128 with ⟨crew, reach, made⟩
  have still := (unchanged crew fresh_regular fresh_arrives
    creation_accepts reach).semGen (KeyPaths.devtmpfs.semKey 128)
      (user_shared (by decide))
  rw [made] at still
  cases still

end Atomicles.Channels
