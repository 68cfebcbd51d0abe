import Mathlib.Algebra.Group.Nat.Defs
import Atomicles.Lock.Creation
import Atomicles.Lock.Registry

/-!
# The operations on a standing lock

What `init`, `Semaphore$lock`, `Semaphore$unlock` and `Semaphore$used` do to a
lock that stands, for a process that runs alone.  The objects of the lock hold
what its listing says.
-/

namespace Atomicles

open Interaction

namespace Semaphore

variable {Result : Type}

/-- One round of the loop of `Semaphore$lock`. -/
theorem lockTimed_bind (this : Semaphore) (index : UShort) (persist : Bool)
    (remaining : Nat) (continuation : Int → Prog Result) :
    (lockTimed this index persist (remaining + 1) >>= continuation) =
      .issue (.semop this.id index.toNat (-1) (!persist) true)
        fun (outcome : Except Errno Unit) =>
          match outcome with
          | .ok () => continuation 0
          | .error .EAGAIN =>
              .issue (.sleep 1) fun _ =>
                lockTimed this index persist remaining >>= continuation
          | .error .EIDRM =>
              lockTimed this index persist remaining >>= continuation
          | .error _ => continuation (-1) := by
  simp only [lockTimed, semop, Program.issue_bind]
  refine congrArg (Program.issue _) (funext fun outcome => ?_)
  cases outcome with
  | ok success => rfl
  | error errno => cases errno <;> rfl

/-- The mode of `Semaphore$lock` without waiting. -/
theorem lock_nonblock_bind (this : Semaphore) (index : UShort)
    (persist : Bool) (continuation : Int → Prog Result) :
    (lock this index persist LOCK_NONBLOCK >>= continuation) =
      .issue (.semop this.id index.toNat (-1) (!persist) true)
        fun (outcome : Except Errno Unit) =>
          match outcome with
          | .ok () => continuation 0
          | .error errno =>
              continuation
                (if errno = .EAGAIN then 1
                  else if errno ≠ .EIDRM then -1 else 0) := by
  have waits : LOCK_NONBLOCK ≠ LOCK_BLOCKING := by decide
  simp only [lock, waits, if_false, if_true, semop, Program.issue_bind]
  refine congrArg (Program.issue _) (funext fun outcome => ?_)
  cases outcome <;> rfl

/-- The timed mode of `Semaphore$lock`. -/
theorem lock_timed (this : Semaphore) (index : UShort) (persist : Bool)
    {timeout : Time} (later : 0 < timeout) :
    lock this index persist timeout =
      lockTimed this index persist timeout.toNat := by
  have unblocked : timeout ≠ LOCK_BLOCKING ∧ timeout ≠ LOCK_NONBLOCK := by
    simp only [LOCK_BLOCKING, LOCK_NONBLOCK]
    grind
  simp only [lock, unblocked, if_false]

end Semaphore

/-- The objects of a lock hold what its listing says. -/
structure Listing.Held (listing : Listing) (contents : Contents) : Prop where
  mutex : contents.mutex = .free
  words : contents.segment.size = 16
  values : contents.user.semvals = [listing.size - listing.held]
  steady : ∀ process index, contents.user.semadj process index = 0
  legal : listing.size ≤ SEMVMX
  size : (contents.segment.word 0).toNat = listing.size
  lasts : listing.deadline = none → contents.segment.word 1 = 0
  expires : ∀ deadline, listing.deadline = some deadline →
    contents.segment.word 1 ≠ 0 ∧
      deadline =
        contents.user.sem_ctime + ((contents.segment.word 2).toNat : Int) ∧
      (contents.segment.word 2).toNat < 2 ^ 31

/-- What `init` finds out about a lock. -/
structure Listing.Found (listing : Listing) (now : Time)
    (statics : Lock.Statics) : Prop where
  expiry : statics.expiry = listing.deadline.isSome
  delta : ∀ deadline, listing.deadline = some deadline →
    statics.delta = deadline - now

namespace Listing

variable {listing : Listing} {contents : Contents} {process : Pid}

theorem Held.attach (held : listing.Held contents) :
    listing.Held (contents.attach process) where
  mutex := held.mutex
  words := held.words
  values := held.values
  steady := held.steady
  legal := held.legal
  size := held.size
  lasts := held.lasts
  expires := held.expires

/-- A unit is taken. -/
theorem Held.take (held : listing.Held contents)
    (free : listing.held < listing.size) :
    (listing.take free).Held
      { contents with
        user := contents.user.operate process 0 (-1) false
          (listing.size - listing.held) } where
  mutex := held.mutex
  words := held.words
  values := by
    simp only [SemSet.operate, held.values, List.set_cons_zero, Listing.take,
      List.cons.injEq, and_true]
    omega
  steady := held.steady
  legal := held.legal
  size := held.size
  lasts := held.lasts
  expires := held.expires

/-- A unit is given back. -/
theorem Held.give (held : listing.Held contents) (some : 0 < listing.held) :
    listing.give.Held
      { contents with
        user := contents.user.operate process 0 1 false
          (listing.size - listing.held) } where
  mutex := held.mutex
  words := held.words
  values := by
    have bounded := listing.bounded
    simp only [SemSet.operate, held.values, List.set_cons_zero, Listing.give,
      List.cons.injEq, and_true]
    omega
  steady := held.steady
  legal := held.legal
  size := held.size
  lasts := held.lasts
  expires := held.expires

end Listing

namespace Stands

variable {paths : KeyPaths} {key : Key} {channel : Channel}
variable {contents : Contents} {base store : Store} {listing : Listing}

/-- The store becomes the one that is looked back at. -/
theorem rebase (stands : Stands paths key channel contents base store) :
    Stands paths key channel contents store store :=
  { stands with apart := .refl channel store }

section Rules

variable {Value : Type} {process : Pid} {exempt : Call → Prop}
variable {post : Value → Store → Prop}

/-- `init` finds the size and the deadline. -/
theorem init (stands : Stands paths key channel contents base store)
    (held : listing.Held contents) {shsem : Semaphore} {own : Lock.Statics}
    (isKey : shsem.key = key) (isUser : shsem.id = channel.user)
    {continuation : Int × Lock.Statics × Semaphore → Prog Value}
    (rest : ∀ middle after statics (handle : Semaphore),
      Apart channel base middle →
        Stands paths key channel (contents.attach process) middle after →
          listing.Found middle.now statics → handle.id = channel.user →
            handle.size.toNat = listing.size →
              Program.Delivers granting process exempt
                (continuation (0, statics, handle)) after post) :
    Program.Delivers granting process exempt
      (Lock.init paths own shsem >>= continuation) store post := by
  have attached : listing.Held (contents.attach process) := held.attach
  let word : UShort := (contents.segment.word 0).setWidth 16
  have sized : word.toNat = listing.size := by
    rw [BitVec.toNat_setWidth, held.size]
    have legal := held.legal
    simp only [SEMVMX] at legal
    omega
  simp only [Lock.init, isKey, bind_assoc]
  apply stands.attach_segment
  intro shmem after serves _ stands
  rcases serves.2 with ⟨mutex, owned, _⟩
  simp only [owned, SharedMemory.readUint, bind_assoc]
  apply stands.readWord serves attached.mutex
    (.of_words (List.mem_cons_self ..) attached.words (by decide))
  intro after stands
  apply stands.readWord serves attached.mutex
    (.of_words (List.mem_cons_self ..) attached.words (by decide))
  intro after stands
  cases deadline : listing.deadline with
  | none =>
      have isFlag : (contents.attach process).segment.word
          (1 : UShort).toNat = 0 := held.lasts deadline
      simp only [isFlag, ne_eq, not_true_eq_false, decide_false,
        Bool.false_eq_true, if_false, SharedMemory.delete, owned,
        Semaphore.delete_false, Program.done_bind]
      apply rest after after _ (shsem.setSize word) stands.apart
        stands.rebase _ isUser sized
      constructor
      · rw [deadline]
        rfl
      · intro impossible isSome
        rw [deadline] at isSome
        cases isSome
  | some deadline' =>
      rcases held.expires deadline' deadline with ⟨flagged, isDeadline, _⟩
      have isFlag : (contents.attach process).segment.word
          (1 : UShort).toNat ≠ 0 := flagged
      simp only [isFlag, ne_eq, not_false_eq_true, decide_true, if_true,
        bind_assoc]
      rw [time_bind]
      apply stands.step fun (now : Time) after => now = after.now
      · intro choice store _ stands
        exact ⟨store.now, store, rfl, rfl, stands⟩
      · rintro _ middle rfl stands
        have apart := stands.apart
        have stands := stands.rebase
        rw [Semaphore.ctime_bind]
        change Program.Delivers granting process exempt
          (.issue (.semctlStat shsem.id) _) middle post
        rw [isUser]
        apply stands.step fun (ds : SemidDs) _ =>
          ds.sem_ctime = contents.user.sem_ctime
        · intro choice store _ stands
          refine ⟨_, store, rfl, ?_, stands⟩
          rw [stands.user]
          rfl
        · intro ds after isCtime stands
          apply stands.readWord serves attached.mutex
            (.of_words (List.mem_cons_self ..) attached.words (by decide))
          intro after stands
          simp only [SharedMemory.delete, Bool.false_eq_true, if_false, owned,
            Semaphore.delete_false, Program.done_bind]
          apply rest middle after _ (shsem.setSize word) apart stands _ isUser
            sized
          constructor
          · rw [deadline]
            rfl
          · intro last isSome
            rw [deadline] at isSome
            cases isSome
            rw [isDeadline, isCtime]
            rfl

/-- An attempt while there is a free unit. -/
theorem attempt_free (stands : Stands paths key channel contents base store)
    {units : Nat} (values : contents.user.semvals = [units + 1])
    (legal : units + 1 ≤ SEMVMX) {next : Except Errno Unit → Prog Value}
    (rest : ∀ after, Stands paths key channel
      { contents with
        user := contents.user.operate process 0 (-1) false (units + 1) }
      base after →
        Program.Delivers granting process exempt (next (.ok ())) after post) :
    Program.Delivers granting process exempt
      (.issue (.semop channel.user 0 (-1) false true) next) store post := by
  apply stands.step fun (outcome : Except Errno Unit) _ => outcome = .ok ()
  · intro choice store _ stands
    have value : contents.user.semvals[0]? = some (units + 1) := by
      rw [values]
      rfl
    have served : store.semop process channel.user 0 (-1) false true
        choice.underWay =
          some (.ok (), store.setSem channel.user
            (some (contents.user.operate process 0 (-1) false (units + 1)))) :=
      Store.semop_proceeds (units + 1) stands.user value (by omega) (by omega)
        (fun impossible => absurd impossible Bool.false_ne_true)
    exact ⟨.ok (), _, served, rfl, stands.changeUser _⟩
  · rintro _ after rfl stands
    exact rest after stands

/-- An attempt while all units are held. -/
theorem attempt_full (stands : Stands paths key channel contents base store)
    (values : contents.user.semvals = [0])
    {next : Except Errno Unit → Prog Value}
    (rest : ∀ after, Stands paths key channel contents base after →
      Program.Delivers granting process exempt (next (.error .EAGAIN)) after
        post) :
    Program.Delivers granting process exempt
      (.issue (.semop channel.user 0 (-1) false true) next) store post := by
  apply stands.step fun (outcome : Except Errno Unit) _ =>
    outcome = .error .EAGAIN
  · intro choice store _ stands
    have value : contents.user.semvals[0]? = some 0 := by
      rw [values]
      rfl
    have served : store.semop process channel.user 0 (-1) false true
        choice.underWay = some (.error .EAGAIN, store) :=
      Store.semop_short 0 stands.user value (by omega)
    exact ⟨.error .EAGAIN, store, served, rfl, stands⟩
  · rintro _ after rfl stands
    exact rest after stands

/-- The loop of `Semaphore$lock` runs out while all units are held. -/
theorem lockTimed_full {shsem : Semaphore} (isUser : shsem.id = channel.user)
    (values : contents.user.semvals = [0]) {continuation : Int → Prog Value}
    (rest : ∀ after, Stands paths key channel contents base after →
      Program.Delivers granting process exempt (continuation 1) after post)
    (remaining : Nat)
    (stands : Stands paths key channel contents base store) :
    Program.Delivers granting process exempt
      (Semaphore.lockTimed shsem 0 true remaining >>= continuation) store
        post := by
  induction remaining generalizing store with
  | zero => exact rest store stands
  | succ remaining ih =>
      rw [Semaphore.lockTimed_bind, isUser]
      apply stands.attempt_full values
      intro after stands
      apply stands.step fun (_ : Unit) _ => True
      · intro choice store _ stands
        exact ⟨(), _, rfl, trivial, stands.advance 1⟩
      · intro _ after _ stands
        exact ih stands

/-- A timeout with which `Semaphore$lock` does not block in the kernel. -/
def Waits (timeout : Time) : Prop :=
  timeout = LOCK_NONBLOCK ∨ 0 < timeout

/-- `Semaphore$lock` takes a free unit. -/
theorem lock_free (stands : Stands paths key channel contents base store)
    {shsem : Semaphore} (isUser : shsem.id = channel.user) {timeout : Time}
    (waits : Waits timeout) {units : Nat}
    (values : contents.user.semvals = [units + 1])
    (legal : units + 1 ≤ SEMVMX) {continuation : Int → Prog Value}
    (rest : ∀ after, Stands paths key channel
      { contents with
        user := contents.user.operate process 0 (-1) false (units + 1) }
      base after →
        Program.Delivers granting process exempt (continuation 0) after
          post) :
    Program.Delivers granting process exempt
      (Semaphore.lock shsem 0 true timeout >>= continuation) store post := by
  rcases waits with rfl | later
  · rw [Semaphore.lock_nonblock_bind, isUser]
    apply stands.attempt_free values legal
    exact rest
  · rw [Semaphore.lock_timed _ _ _ later]
    have some : 0 < timeout.toNat := Int.lt_toNat.mpr later
    have rounds : timeout.toNat = (timeout.toNat - 1) + 1 := by omega
    rw [rounds, Semaphore.lockTimed_bind, isUser]
    apply stands.attempt_free values legal
    exact rest

/-- `Semaphore$lock` gives up while all units are held. -/
theorem lock_full (stands : Stands paths key channel contents base store)
    {shsem : Semaphore} (isUser : shsem.id = channel.user) {timeout : Time}
    (waits : Waits timeout) (values : contents.user.semvals = [0])
    {continuation : Int → Prog Value}
    (rest : ∀ after, Stands paths key channel contents base after →
      Program.Delivers granting process exempt (continuation 1) after post) :
    Program.Delivers granting process exempt
      (Semaphore.lock shsem 0 true timeout >>= continuation) store post := by
  rcases waits with rfl | later
  · rw [Semaphore.lock_nonblock_bind, isUser]
    apply stands.attempt_full values
    exact rest
  · rw [Semaphore.lock_timed _ _ _ later]
    exact lockTimed_full isUser values rest timeout.toNat stands

/-- `Semaphore$used` of a handle of the lock's size. -/
theorem used (stands : Stands paths key channel contents base store)
    {shsem : Semaphore} (isUser : shsem.id = channel.user) {units : Nat}
    (values : contents.user.semvals = [units])
    {continuation : Int → Prog Value}
    (rest : ∀ after, Stands paths key channel contents base after →
      Program.Delivers granting process exempt
        (continuation (shsem.size.toNat - units)) after post) :
    Program.Delivers granting process exempt
      (Semaphore.used shsem 0 >>= continuation) store post := by
  rw [Semaphore.used_bind, isUser]
  apply stands.step fun (value : Except Errno Nat) _ => value = .ok units
  · intro choice store _ stands
    refine ⟨_, store, rfl, ?_, stands⟩
    simp [Store.semctlGetval, stands.user, values]
  · rintro _ after rfl stands
    exact rest after stands

/-- `Semaphore$unlock` gives back a unit that is held. -/
theorem unlock_held (stands : Stands paths key channel contents base store)
    (held : listing.Held contents) (some : 0 < listing.held)
    {shsem : Semaphore} (isUser : shsem.id = channel.user)
    (isSize : shsem.size.toNat = listing.size) {continuation : Int → Prog Value}
    (rest : ∀ after, Stands paths key channel
      { contents with
        user := contents.user.operate process 0 1 false
          (listing.size - listing.held) } base after →
        Program.Delivers granting process exempt (continuation 0) after
          post) :
    Program.Delivers granting process exempt
      (Semaphore.unlock shsem 0 true >>= continuation) store post := by
  have bounded := listing.bounded
  have legal := held.legal
  rw [Semaphore.unlock_bind, isUser]
  apply stands.step fun (value : Except Errno Nat) _ =>
    value = .ok (listing.size - listing.held)
  · intro choice store _ stands
    refine ⟨_, store, rfl, ?_, stands⟩
    simp [Store.semctlGetval, stands.user, held.values]
  · rintro _ after rfl stands
    have inUse : (shsem.size.toNat : Int) -
        Semaphore.readValue (.ok (listing.size - listing.held)) > 0 := by
      simp only [isSize, Semaphore.readValue]
      omega
    rw [if_pos inUse]
    apply stands.step fun (outcome : Except Errno Unit) _ => outcome = .ok ()
    · intro choice store _ stands
      have value : contents.user.semvals[0]? =
          Option.some (listing.size - listing.held) := by
        rw [held.values]
        rfl
      have served : store.semop process channel.user 0 1 false false
          choice.underWay =
            Option.some (.ok (), store.setSem channel.user
              (Option.some (contents.user.operate process 0 1 false
                (listing.size - listing.held)))) :=
        Store.semop_proceeds (listing.size - listing.held) stands.user value
          (by omega) (by omega)
          (fun impossible => absurd impossible Bool.false_ne_true)
      exact ⟨.ok (), _, served, rfl, stands.changeUser _⟩
    · rintro _ after rfl stands
      exact rest after stands

/-- `Semaphore$unlock` fails where no unit is held. -/
theorem unlock_free (stands : Stands paths key channel contents base store)
    (held : listing.Held contents) (none : listing.held = 0)
    {shsem : Semaphore} (isUser : shsem.id = channel.user)
    (isSize : shsem.size.toNat = listing.size) {continuation : Int → Prog Value}
    (rest : ∀ after, Stands paths key channel contents base after →
      Program.Delivers granting process exempt (continuation (-1)) after
        post) :
    Program.Delivers granting process exempt
      (Semaphore.unlock shsem 0 true >>= continuation) store post := by
  rw [Semaphore.unlock_bind, isUser]
  apply stands.step fun (value : Except Errno Nat) _ =>
    value = .ok listing.size
  · intro choice store _ stands
    refine ⟨_, store, rfl, ?_, stands⟩
    simp [Store.semctlGetval, stands.user, held.values, none]
  · rintro _ after rfl stands
    have unused : ¬ ((shsem.size.toNat : Int) -
        Semaphore.readValue (.ok listing.size) > 0) := by
      simp only [isSize, Semaphore.readValue]
      omega
    rw [if_neg unused]
    exact rest after stands

end Rules

end Stands

/-! ## Names without objects, and names that are taken -/

section Rules

variable {paths : KeyPaths} {key : Key} {store : Store} {Value : Type}
variable {process : Pid} {exempt : Call → Prop}
variable {post : Value → Store → Prop}

theorem exists_vacant (vacant : store.findSem (paths.semKey key) = none)
    {continuation : Bool → Prog Value}
    (rest : ∀ seconds, Program.Delivers granting process exempt
      (continuation false) (store.advance seconds) post) :
    Program.Delivers granting process exempt
      (Semaphore.exists paths key >>= continuation) store post := by
  rw [Semaphore.exists_bind]
  apply delivers_granted
  intro choice _
  have still : (store.advance choice.tick).findSem (paths.semKey key) = none :=
    vacant
  refine ⟨.error .ENOENT, store.advance choice.tick, ?_, rest choice.tick⟩
  simp [grant, Store.semget, still]

theorem attach_vacant (vacant : store.findSem (paths.semKey key) = none)
    {continuation : Option Semaphore → Prog Value}
    (rest : ∀ seconds, Program.Delivers granting process exempt
      (continuation none) (store.advance seconds) post) :
    Program.Delivers granting process exempt
      (Semaphore.attach paths key >>= continuation) store post := by
  rw [Semaphore.attach_bind]
  apply delivers_granted
  intro choice _
  have still : (store.advance choice.tick).findSem (paths.semKey key) = none :=
    vacant
  refine ⟨.error .ENOENT, store.advance choice.tick, ?_, rest choice.tick⟩
  simp [grant, Store.semget, still]

/-- `Semaphore$new` under a name that is taken. -/
theorem new_taken {name : Key} {id : IpcId} {count size : UShort}
    (taken : store.findSem (paths.semKey name) = some id)
    {continuation : Option Semaphore → Prog Value}
    (rest : ∀ seconds, Program.Delivers granting process exempt
      (continuation none) (store.advance seconds) post) :
    Program.Delivers granting process exempt
      (Semaphore.new paths name count size false >>= continuation) store
        post := by
  rw [Semaphore.new_bind]
  apply delivers_granted
  intro first grants
  refine ⟨some (), store.advance first.tick,
    by simp only [grant, grants.2, if_true], ?_⟩
  apply delivers_granted
  intro second _
  rw [Store.advance_advance]
  have still : (store.advance (first.tick + second.tick)).findSem
      (paths.semKey name) = some id := taken
  refine ⟨.error .EEXIST, store.advance (first.tick + second.tick), ?_, ?_⟩
  · simp [grant, Store.semget, still]
  · simpa using rest (first.tick + second.tick)

end Rules

end Atomicles
