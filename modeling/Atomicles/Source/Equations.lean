import Atomicles.Source.Lock

/-!
# The call trees of the small functions

Equations that show the calls of the small functions of `Semaphore.c` and
`SharedMemory.c` in front of what follows them.  Proofs about larger programs
rewrite with these equations and go along the calls; they do not unfold the
functions again.
-/

namespace Atomicles

open Interaction

variable {Value Result : Type}

@[simp]
theorem die_bind (cause : Death) (continuation : Value → Prog Result) :
    ((die cause : Prog Value) >>= continuation) = die cause := by
  simp only [die, Program.issue_bind]
  exact congrArg (Program.issue _) (funext fun impossible => impossible.elim)

@[simp]
theorem assert_bind (condition : Bool) (text : String)
    (continuation : Unit → Prog Result) :
    (assert condition text >>= continuation) =
      if condition then continuation () else die (.assertion text) := by
  cases condition <;> simp [assert]

theorem time_bind (continuation : Time → Prog Result) :
    (time >>= continuation) = .issue .time continuation :=
  rfl

theorem semctlRmid_bind (id : IpcId) (continuation : Unit → Prog Result) :
    (semctlRmid id >>= continuation) =
      .issue (.semctlRmid id) fun _ => continuation () :=
  rfl

theorem sleep_bind (seconds : Nat) (continuation : Unit → Prog Result) :
    (sleep seconds >>= continuation) =
      .issue (.sleep seconds) fun _ => continuation () :=
  rfl

theorem fork_bind (continuation : Int → Prog Result) :
    (fork >>= continuation) = .issue .fork continuation :=
  rfl

/-- The value of a call that is compared with 0. -/
def outcomeValue : Except Errno Unit → Int
  | .ok () => 0
  | .error _ => -1

theorem kill_bind (pid : Int) (signal : Option Signal)
    (continuation : Int → Prog Result) :
    (kill pid signal >>= continuation) =
      .issue (.kill pid signal) fun (outcome : Except Errno Unit) =>
        continuation (outcomeValue outcome) := by
  simp only [kill, Program.issue_bind]
  refine congrArg (Program.issue _) (funext fun outcome => ?_)
  cases outcome <;> rfl

theorem sigaction_bind (signal : Signal) (continuation : Int → Prog Result) :
    (sigaction signal >>= continuation) =
      .issue (.sigaction signal) fun (outcome : Except Errno Unit) =>
        continuation (outcomeValue outcome) := by
  simp only [sigaction, Program.issue_bind]
  refine congrArg (Program.issue _) (funext fun outcome => ?_)
  cases outcome <;> rfl

theorem getrlimit_bind (continuation : Int → Prog Result) :
    (getrlimit >>= continuation) =
      .issue .getrlimit fun (outcome : Except Errno Unit) =>
        continuation (outcomeValue outcome) := by
  simp only [getrlimit, Program.issue_bind]
  refine congrArg (Program.issue _) (funext fun outcome => ?_)
  cases outcome <;> rfl

theorem waitpid_bind (pid : Int)
    (continuation : Option WaitStatus → Prog Result) :
    (waitpid pid >>= continuation) =
      .issue (.waitpid pid)
        fun (outcome : Except Errno (Int × WaitStatus)) =>
          continuation (outcome.toOption.map Prod.snd) := by
  simp only [waitpid, Program.issue_bind]
  refine congrArg (Program.issue _) (funext fun outcome => ?_)
  cases outcome <;> rfl

theorem execvp_bind (continuation : Unit → Prog Result) :
    (execvp >>= continuation) =
      .issue .execvp fun _ => continuation () :=
  rfl

namespace Semaphore

variable {paths : KeyPaths}

@[simp]
theorem delete_true (this : Semaphore) :
    delete this true = semctlRmid this.id :=
  rfl

@[simp]
theorem delete_false (this : Semaphore) :
    delete this false = .done () :=
  rfl

theorem exists_bind (key : Key) (continuation : Bool → Prog Result) :
    (Semaphore.exists paths key >>= continuation) =
      .issue (.semget (paths.semKey key) NOP false true)
        fun (found : Except Errno IpcId) =>
          match found with
          | .ok _ => continuation true
          | .error _ => continuation false := by
  simp only [Semaphore.exists, semget, Program.issue_bind, Program.done_bind,
    Program.pure_eq_done]
  refine congrArg (Program.issue _) (funext fun found => ?_)
  cases found <;> rfl

/-- `Semaphore$new` allocates, makes the set and sets its values, or finds the
set where it may attach to one. -/
theorem new_bind (key : Key) (count size : UShort) (attach : Bool)
    (continuation : Option Semaphore → Prog Result) :
    (new paths key count size attach >>= continuation) =
      .issue .mallocSemaphore fun (block : Option Unit) =>
        match block with
        | none => continuation none
        | some () =>
            .issue (.semget (paths.semKey key) count.toNat true true)
              fun (made : Except Errno IpcId) =>
                match made with
                | .ok id =>
                    .issue (.semctlSetall id
                        (List.replicate count.toNat size))
                      fun (outcome : Except Errno Unit) =>
                        match outcome with
                        | .ok () =>
                            continuation (some { key, id, count, size })
                        | .error _ => continuation none
                | .error errno =>
                    if attach ∧ errno = .EEXIST then
                      .issue (.semget (paths.semKey key) NOP false true)
                        fun (found : Except Errno IpcId) =>
                          match found with
                          | .ok id =>
                              continuation (some { key, id, count, size })
                          | .error _ => continuation none
                    else continuation none := by
  have proper : paths.semKey key ≠ -1 := ftok_ne_failure paths.sem key
  simp only [new, mallocSemaphore, Program.issue_bind, Program.done_bind]
  refine congrArg (Program.issue _) (funext fun block => ?_)
  cases block with
  | none => rfl
  | some success =>
      simp only [assert_bind, proper, ne_eq, not_false_eq_true,
        decide_true, if_true, semget, Program.issue_bind, Program.done_bind]
      refine congrArg (Program.issue _) (funext fun made => ?_)
      cases made with
      | ok id =>
          simp only [init, semctlSetall, bind_assoc, Program.issue_bind,
            Program.done_bind]
          refine congrArg (Program.issue _) (funext fun outcome => ?_)
          cases outcome <;>
            simp [EXIT_SUCCESS, EXIT_FAILURE]
      | error errno =>
          cases attach with
          | false => simp
          | true =>
              by_cases taken : errno = .EEXIST
              · simp only [taken, if_true, and_self, Program.issue_bind]
                refine congrArg (Program.issue _) (funext fun found => ?_)
                cases found <;> rfl
              · simp [taken]

/-- `Semaphore$attach` asks for the set, allocates and asks for its count. -/
theorem attach_bind (key : Key)
    (continuation : Option Semaphore → Prog Result) :
    (attach paths key >>= continuation) =
      .issue (.semget (paths.semKey key) NOP false true)
        fun (found : Except Errno IpcId) =>
          match found with
          | .error _ => continuation none
          | .ok id =>
              .issue .mallocSemaphore fun (block : Option Unit) =>
                match block with
                | none => die .segv
                | some () =>
                    .issue (.semctlStat id) fun (ds : SemidDs) =>
                      continuation (some
                        { key, id
                          count := BitVec.ofNat 16 ds.sem_nsems
                          size := 1 }) := by
  simp only [attach, semget, mallocSemaphore, extractCount, semctlStat,
    Program.issue_bind, Program.done_bind, Program.pure_eq_done]
  refine congrArg (Program.issue _) (funext fun found => ?_)
  cases found with
  | error errno => rfl
  | ok id =>
      simp only [Program.issue_bind]
      refine congrArg (Program.issue _) (funext fun block => ?_)
      cases block <;> simp

/-- The `int` that `semctl(.., GETVAL)` gives. -/
def readValue : Except Errno Nat → Int
  | .ok value => value
  | .error _ => -1

theorem used_bind (this : Semaphore) (index : UShort)
    (continuation : Int → Prog Result) :
    (used this index >>= continuation) =
      .issue (.semctlGetval this.id index.toNat)
        fun (value : Except Errno Nat) =>
          continuation (this.size.toNat - readValue value) := by
  simp only [used, semctlGetval, Program.issue_bind, Program.pure_eq_done]
  refine congrArg (Program.issue _) (funext fun value => ?_)
  cases value <;> rfl

theorem ctime_bind (this : Semaphore) (continuation : Time → Prog Result) :
    (ctime this >>= continuation) =
      .issue (.semctlStat this.id) fun (ds : SemidDs) =>
        continuation ds.sem_ctime :=
  rfl

/-- `Semaphore$unlock` reads the value, and adds a unit if one is used. -/
theorem unlock_bind (this : Semaphore) (index : UShort) (persist : Bool)
    (continuation : Int → Prog Result) :
    (unlock this index persist >>= continuation) =
      .issue (.semctlGetval this.id index.toNat)
        fun (value : Except Errno Nat) =>
          if (this.size.toNat : Int) - readValue value > 0 then
            .issue (.semop this.id index.toNat 1 (!persist) false)
              fun (outcome : Except Errno Unit) =>
                match outcome with
                | .ok () => continuation 0
                | .error _ => continuation (-1)
          else continuation (-1) := by
  simp only [unlock, used_bind, Program.issue_bind]
  refine congrArg (Program.issue _) (funext fun value => ?_)
  split
  · simp only [semop, Program.issue_bind, Program.done_bind]
    refine congrArg (Program.issue _) (funext fun outcome => ?_)
    cases outcome <;> rfl
  · rfl

/-- The blocking mode of `Semaphore$lock`: a removal counts as a success. -/
theorem lock_blocking_bind (this : Semaphore) (index : UShort) (persist : Bool)
    (continuation : Int → Prog Result) :
    (lock this index persist 0 >>= continuation) =
      .issue (.semop this.id index.toNat (-1) (!persist) false)
        fun (outcome : Except Errno Unit) =>
          match outcome with
          | .ok () => continuation 0
          | .error errno =>
              if errno = .EIDRM then continuation 0 else continuation (-1) := by
  simp only [lock, LOCK_BLOCKING, if_true, semop, Program.issue_bind,
    Program.done_bind]
  refine congrArg (Program.issue _) (funext fun outcome => ?_)
  cases outcome with
  | ok _ => rfl
  | error errno => by_cases removed : errno = .EIDRM <;> simp [removed]

end Semaphore

namespace SharedMemory

variable {paths : KeyPaths}

theorem enter_bind {this : SharedMemory} {shsem : Semaphore}
    (owned : this.shsem = some shsem) (continuation : Unit → Prog Result) :
    (enter this >>= continuation) =
      .issue (.semop shsem.id 0 (-1) true false)
        fun (outcome : Except Errno Unit) =>
          match outcome with
          | .ok () => continuation ()
          | .error errno =>
              if errno = .EIDRM then continuation ()
              else die (.assertion "e == 0") := by
  simp only [enter, owned, Semaphore.lock_blocking_bind, Program.issue_bind]
  refine congrArg (Program.issue _) (funext fun outcome => ?_)
  cases outcome with
  | ok _ => rfl
  | error errno =>
      by_cases removed : errno = .EIDRM <;> simp [removed, assert]

theorem exit_bind {this : SharedMemory} {shsem : Semaphore}
    (owned : this.shsem = some shsem) (continuation : Unit → Prog Result) :
    (exit this >>= continuation) =
      .issue (.semctlGetval shsem.id 0)
        fun (value : Except Errno Nat) =>
          if (shsem.size.toNat : Int) - Semaphore.readValue value > 0 then
            .issue (.semop shsem.id 0 1 true false)
              fun (outcome : Except Errno Unit) =>
                match outcome with
                | .ok () => continuation ()
                | .error _ => die (.assertion "e == 0")
          else die (.assertion "e == 0") := by
  simp only [exit, owned, Semaphore.unlock_bind, Program.issue_bind]
  refine congrArg (Program.issue _) (funext fun value => ?_)
  split
  · simp only [Program.issue_bind]
    refine congrArg (Program.issue _) (funext fun outcome => ?_)
    cases outcome <;> simp [assert]
  · simp [assert]

/-- Access to the segment without a mutex ends the process. -/
theorem enter_bind_none {this : SharedMemory} (missing : this.shsem = none)
    (continuation : Unit → Prog Result) :
    (enter this >>= continuation) = die .segv := by
  simp [enter, missing]

theorem load_bind (addr : Addr) (offset : Nat)
    (continuation : UInt → Prog Result) :
    (load addr offset >>= continuation) =
      .issue (.load addr offset) fun (word : Option UInt) =>
        match word with
        | some value => continuation value
        | none => die .segv := by
  simp only [load, Program.issue_bind]
  refine congrArg (Program.issue _) (funext fun word => ?_)
  cases word <;> simp

theorem store_bind (addr : Addr) (offset : Nat) (value : UInt)
    (continuation : Unit → Prog Result) :
    (store addr offset value >>= continuation) =
      .issue (.store addr offset value) fun (done : Option Unit) =>
        match done with
        | some () => continuation ()
        | none => die .segv := by
  simp only [store, Program.issue_bind]
  refine congrArg (Program.issue _) (funext fun done => ?_)
  cases done <;> simp

theorem memset_bind (addr : Addr) (n : Nat)
    (continuation : Unit → Prog Result) :
    (memset addr n >>= continuation) =
      .issue (.memset addr n) fun (done : Option Unit) =>
        match done with
        | some () => continuation ()
        | none => die .segv := by
  simp only [memset, Program.issue_bind]
  refine congrArg (Program.issue _) (funext fun done => ?_)
  cases done <;> simp

/-- The calls that end `SharedMemory$delete`. -/
theorem unmap_bind (addr : Addr) (id : IpcId)
    (continuation : Unit → Prog Result) :
    (do
        munlockall
        shmdt addr
        shmctlRmid id
        continuation ()) =
      .issue .munlockall fun _ => .issue (.shmdt addr) fun _ =>
        .issue (.shmctlRmid id) fun _ => continuation () :=
  rfl

theorem shmat_bind (id : IpcId) (continuation : Addr → Prog Result) :
    (shmat id >>= continuation) =
      .issue (.shmat id) fun (mapped : Except Errno Addr) =>
        match mapped with
        | .ok addr => continuation addr
        | .error _ => continuation .failed := by
  simp only [shmat, Program.issue_bind]
  refine congrArg (Program.issue _) (funext fun mapped => ?_)
  cases mapped <;> rfl

/-- The segment of `SharedMemory$new` is made, or found where the function may
attach to one. -/
theorem newSegment_bind (this : SharedMemory) (size : Nat) (attach : Bool)
    (continuation : Int × SharedMemory → Prog Result) :
    (newSegment paths this size attach >>= continuation) =
      .issue (.shmget (paths.shmKey this.key) size true true)
        fun (made : Except Errno IpcId) =>
          match made with
          | .ok id =>
              shmat id >>= fun addr =>
                if addr ≠ .failed then
                  continuation (EXIT_SUCCESS, { this with id, addr })
                else continuation (EXIT_FAILURE, { this with id, addr })
          | .error errno =>
              if errno = .EEXIST ∧ attach then
                .issue (.shmget (paths.shmKey this.key) NOP false true)
                  fun (found : Except Errno IpcId) =>
                    match found with
                    | .ok id =>
                        shmat id >>= fun addr =>
                          if addr ≠ .failed then
                            continuation (EXIT_SUCCESS, { this with id, addr })
                          else
                            continuation (errno.code, { this with id, addr })
                    | .error errno => continuation (errno.code, this)
              else continuation (errno.code, this) := by
  simp only [newSegment, shmget, Program.issue_bind, Program.done_bind]
  refine congrArg (Program.issue _) (funext fun made => ?_)
  cases made with
  | ok id =>
      simp only [bind_assoc]
      refine congrArg (shmat id >>= ·) (funext fun addr => ?_)
      split <;> rfl
  | error errno =>
      by_cases attaches : errno = .EEXIST ∧ attach = true
      · simp only [attaches, and_self, if_true, Program.issue_bind]
        refine congrArg (Program.issue _) (funext fun found => ?_)
        cases found with
        | error errno => rfl
        | ok id =>
            simp only [bind_assoc]
            refine congrArg (shmat id >>= ·) (funext fun addr => ?_)
            split <;> rfl
      · simp only [attaches, if_false]
        rfl

/-- `SharedMemory$new` locks the pages with `mlockall`, else with `mlock`. -/
theorem lockPages_bind (this : SharedMemory)
    (continuation : Int → Prog Result) :
    (lockPages this >>= continuation) =
      .issue .mlockall fun (all : Except Errno Unit) =>
        match all with
        | .ok () => continuation EXIT_SUCCESS
        | .error _ =>
            .issue (.mlock this.addr this.size.value)
              fun (locked : Except Errno Unit) =>
                match locked with
                | .ok () => continuation 0
                | .error _ => continuation 1 := by
  simp only [lockPages, mlockall, Program.issue_bind]
  refine congrArg (Program.issue _) (funext fun all => ?_)
  cases all with
  | ok success => simp [EXIT_SUCCESS]
  | error errno =>
      have failed : (-1 : Int) ≠ EXIT_SUCCESS := by decide
      simp only [Program.done_bind, failed, ne_eq, not_false_eq_true, if_true,
        mlock, Program.issue_bind]
      refine congrArg (Program.issue _) (funext fun locked => ?_)
      cases locked <;> rfl

/-- `SharedMemory$attach`. -/
theorem attach_bind (key : Key)
    (continuation : Option SharedMemory → Prog Result) :
    (attach paths key >>= continuation) =
      .issue (.shmget (paths.shmKey key) NOP false true)
        fun (found : Except Errno IpcId) =>
          match found with
          | .error _ => continuation none
          | .ok id =>
              .issue .mallocSharedMemory fun (block : Option SharedMemory) =>
                match block with
                | none => die .segv
                | some block =>
                    shmat id >>= fun addr =>
                      if addr ≠ .failed then
                        Semaphore.attach paths (key + 128) >>= fun shsem =>
                          continuation (some { block with key, id, addr, shsem })
                      else continuation (some { block with key, id, addr }) := by
  simp only [attach, shmget, mallocSharedMemory, Program.issue_bind,
    Program.done_bind, Program.pure_eq_done]
  refine congrArg (Program.issue _) (funext fun found => ?_)
  cases found with
  | error errno => rfl
  | ok id =>
      simp only [Program.issue_bind]
      refine congrArg (Program.issue _) (funext fun block => ?_)
      cases block with
      | none => simp
      | some block =>
          simp only [bind_assoc]
          refine congrArg (shmat id >>= ·) (funext fun addr => ?_)
          split <;> simp [bind_assoc]

/-- A handle through which the segment behind `addr` is accessed under the
mutex `mutexId`. -/
def Serves (mutexId : IpcId) (addr : Addr) (this : SharedMemory) : Prop :=
  this.addr = addr ∧ ∃ shsem, this.shsem = some shsem ∧
    shsem.id = mutexId ∧ shsem.size = 1

end SharedMemory

end Atomicles
