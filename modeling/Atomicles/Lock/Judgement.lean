import Atomicles.Lock.Ownership

/-!
# What expiry removes

`lock` judges the lock by the set and the segment that it has attached, and
then removes what `delete` finds under the key.  Any number of commands
contend for the key.  What an `on` removes belongs to the lock that it has
judged, and that lock has expired, as long as whatever it looks up was made by
the `create` that made its set.
-/

namespace Atomicles.Clearing

open Interaction
open Publication (look lock_look stored)
open Ownership (maker madeSet madeSegment filledBy)

/-- The commands that make a lock, judge it and remove it. -/
def Contends : Action → Prop
  | .on _ => True
  | .delete => True
  | .create .. => True
  | _ => False

section Definitions

variable (paths : KeyPaths) (key : Key)

/-- A command that has attached to a set and made these calls makes the next
one in `init`. -/
def Judges (command : Action × Lock.Statics) (shsem : Semaphore)
    (events : List (Event signature)) (call : Call) : Prop :=
  ∃ first second next, events = first ++ second ∧
    (look paths key command.1).Ends first (some shsem) ∧
    (Lock.init paths command.2 shsem).Reaches second (.issue call next)

/-- The branch of `lock` for a lock that has expired. -/
def Expires (outcome : Int × Lock.Statics × Semaphore) : Prop :=
  outcome.2.1.expiry = true ∧ outcome.2.1.delta ≤ 0

/-- An `on` that has come out of `init` to find the lock expired makes the next
call in `delete`. -/
def Clears (command : Action × Lock.Statics) (shsem : Semaphore)
    (events : List (Event signature)) (call : Call) : Prop :=
  ∃ first second third outcome next, events = first ++ second ++ third ∧
    (look paths key command.1).Ends first (some shsem) ∧
    (Lock.init paths command.2 shsem).Ends second outcome ∧
    Expires outcome ∧ (Lock.delete paths key).Reaches third (.issue call next)

/-- What an `on` needs in `init`: the segment that it finds was made by the
maker of its set, the expiry that it loads has been stored, and its set is
still there.  Where its options have set `expiry` before, `init` has to find
something. -/
def Judged (statics : Lock.Statics) (shsem : Semaphore)
    (pool : Pool signature Pid Store Int) : Event signature → Prop
  | ⟨.shmget .., (found : Except Errno IpcId)⟩ =>
      (statics.expiry = true → ∃ segment, found = .ok segment) ∧
        ∀ segment, found = .ok segment →
          maker madeSegment segment pool.log = maker madeSet shsem.id pool.log
  | ⟨.shmat _, (mapped : Except Errno Addr)⟩ =>
      statics.expiry = true → ∃ addr, mapped = .ok addr
  | ⟨.semget .., (found : Except Errno IpcId)⟩ =>
      statics.expiry = true → ∃ mutex, found = .ok mutex
  | ⟨.load addr offset, _⟩ => offset = 2 → stored addr offset pool.log = true
  | ⟨.semctlStat id, _⟩ => id = shsem.id → (pool.state.sems id).isSome = true
  | _ => True

/-- What an `on` needs in `delete`: the objects that it finds were made by the
maker of the set that it has judged, and the segment can be attached. -/
def Cleared (shsem : Semaphore) (pool : Pool signature Pid Store Int) :
    Event signature → Prop
  | ⟨.semget .., (found : Except Errno IpcId)⟩ => ∀ id, found = .ok id →
      maker madeSet id pool.log = maker madeSet shsem.id pool.log
  | ⟨.shmget .., (found : Except Errno IpcId)⟩ => ∀ id, found = .ok id →
      maker madeSegment id pool.log = maker madeSet shsem.id pool.log
  | ⟨.shmat _, (mapped : Except Errno Addr)⟩ => ∃ addr, mapped = .ok addr
  | _ => True

/-- The run condition: whatever an `on` judges and clears is one lock. -/
def Coherent (commands : Pid → Option (Action × Lock.Statics))
    (pool : Pool signature Pid Store Int) : Label signature Pid → Prop
  | .call process event => ∀ timeout statics shsem,
      commands process = some (.on timeout, statics) →
        (Judges paths key (.on timeout, statics) shsem
          (Pool.eventsOf process pool.log) event.call →
            Judged statics shsem pool event) ∧
        (Clears paths key (.on timeout, statics) shsem
          (Pool.eventsOf process pool.log) event.call →
            Cleared shsem pool event)
  | _ => True

/-- The lock of a `create` whose deadline has come. -/
def Lapsed (commands : Pid → Option (Action × Lock.Statics))
    (log : List (Entry signature Pid Store)) (now : Time) (owner : Pid) :
    Prop :=
  ∃ semaphores expire statics created,
    commands owner = some (.create semaphores expire, statics) ∧
      expire ≠ 0 ∧ filledBy owner (paths.semKey key) log = some created ∧
        created + ((BitVec.ofInt 32 expire).toNat : Int) ≤ now

/-- The `create` whose set an `on` has attached to. -/
def Attached (process : Pid) (timeout : Int)
    (log : List (Entry signature Pid Store)) (owner : Pid) : Prop :=
  ∃ first second shsem, Pool.eventsOf process log = first ++ second ∧
    (look paths key (.on timeout)).Ends first (some shsem) ∧
      maker madeSet shsem.id log = some owner

/-- An object that an `on` may remove: it belongs to the lock that the `on` has
attached to, and that lock has expired. -/
def Due (commands : Pid → Option (Action × Lock.Statics)) (process : Pid)
    (timeout : Int) (log : List (Entry signature Pid Store)) (now : Time)
    (makes : Event signature → Option IpcId) (id : IpcId) : Prop :=
  ∃ owner, Attached paths key process timeout log owner ∧
    maker makes id log = some owner ∧ Lapsed paths key commands log now owner

/-- What an answered call has removed, and how such objects are made. -/
def removed : Event signature →
    Option ((Event signature → Option IpcId) × IpcId)
  | ⟨.semctlRmid id, (.ok () : Except Errno Unit)⟩ => some (madeSet, id)
  | ⟨.shmctlRmid id, (.ok () : Except Errno Unit)⟩ => some (madeSegment, id)
  | _ => none

/-- Whatever an `on` has removed was due by then. -/
def Spares (commands : Pid → Option (Action × Lock.Statics))
    (log : List (Entry signature Pid Store)) : Prop :=
  ∀ process timeout statics event state later earlier makes id,
    commands process = some (.on timeout, statics) →
      log = later ++ ⟨.call process event, state⟩ :: earlier →
        removed event = some (makes, id) →
          Due paths key commands process timeout earlier state.now makes id

end Definitions

/-! ## Where an `on` removes anything -/

section Program

variable {paths : KeyPaths} {key : Key}

/-- The calls that remove an object. -/
def Removes : Call → Prop
  | .semctlRmid _ => True
  | .shmctlRmid _ => True
  | _ => False

theorem spares_finds (call : Call) (finds : call.finds = true) :
    ¬ Removes call := by
  cases call <;> first | exact not_false | cases finds

theorem spares_reads (call : Call) (reads : call.reads = true) :
    ¬ Removes call := by
  cases call <;> first | exact not_false | cases reads

theorem look_spares (action : Action) :
    (look paths key action).Within fun call => ¬ Removes call := by
  have attaches : (Semaphore.attach paths key).Within
      fun call => ¬ Removes call :=
    Semaphore.within_attach (finds_set spares_finds) key
  cases action with
  | on timeout =>
      unfold look
      rw [Semaphore.exists_bind]
      refine ⟨not_false, fun (found : Except Errno IpcId) => ?_⟩
      cases found with
      | error errno => trivial
      | ok id => exact attaches
  | _ => exact attaches

theorem init_spares (statics : Lock.Statics) (shsem : Semaphore) :
    (Lock.init paths statics shsem).Within fun call => ¬ Removes call :=
  Lock.within_init spares_finds not_false
    (SharedMemory.within_readUint spares_reads) statics shsem

/-- An `on` removes objects only in `delete`, once it has found the lock
expired. -/
theorem removes_clears {timeout : Int} {statics : Lock.Statics}
    {events : List (Event signature)} {call : Call}
    {next : call.Answer → Prog Int} (removes : Removes call)
    (reaches : (Lock.lock paths statics key timeout).Reaches events
      (.issue call next)) :
    ∃ shsem, Clears paths key (.on timeout, statics) shsem events call := by
  have takes : ∀ (shsem : Semaphore) waiting,
      (Semaphore.lock shsem Lock.SHSEM_INDEX true waiting >>= fun e =>
        (return e : Prog Int)).Within fun call => ¬ Removes call :=
    fun shsem waiting => (Semaphore.within_lock (fun _ => not_false)
      not_false).bind fun _ => trivial
  rw [lock_look] at reaches
  rcases reaches.bind with ⟨_, looking⟩ |
    ⟨first, rest, found, rfl, looks, later⟩
  · exact absurd removes ((look_spares _).reaches looking)
  cases found with
  | none => exact absurd later Program.not_reaches_done
  | some shsem =>
      rcases later.bind with ⟨_, judging⟩ |
        ⟨second, third, outcome, rfl, judges, behind⟩
      · exact absurd removes ((init_spares statics shsem).reaches judging)
      · unfold Lock.lockBody at behind
        split at behind
        · rename_i expiry
          split at behind
          · exact absurd removes ((takes _ _).reaches behind)
          · rename_i expired
            simp only at behind
            rcases behind.bind with ⟨_, clearing⟩ |
              ⟨_, _, _, _, _, ended⟩
            · refine ⟨shsem, first, second, third, outcome, _, ?_, looks,
                judges, ⟨expiry, Int.not_lt.mp expired⟩, clearing⟩
              rw [List.append_assoc]
            · exact absurd ended Program.not_reaches_done
        · exact absurd removes ((takes _ _).reaches behind)

end Program

/-! ## What an `on` hears -/

section Hearing

variable (paths : KeyPaths) (key : Key)
variable (commands : Pid → Option (Action × Lock.Statics))
variable (log : List (Entry signature Pid Store)) (now : Time)
variable (statics : Lock.Statics) (shsem : Semaphore)

/-- The set and the segment have one maker. -/
def OneLock (makes : Event signature → Option IpcId) (id : IpcId) : Prop :=
  ∃ owner, maker madeSet shsem.id log = some owner ∧
    maker makes id log = some owner

/-- What the answers in `init` say of the lock that is judged. -/
def Tells : Event signature → Prop
  | ⟨.shmget name .., (found : Except Errno IpcId)⟩ =>
      (statics.expiry = true → ∃ segment, found = .ok segment) ∧
        ∀ segment, found = .ok segment → segment.key = name ∧
          (name = paths.shmKey key → OneLock log shsem madeSegment segment)
  | ⟨.shmat id, (mapped : Except Errno Addr)⟩ =>
      (statics.expiry = true → ∃ addr, mapped = .ok addr) ∧
        ∀ addr, mapped = .ok addr → addr = .mapped id
  | ⟨.semget .., (found : Except Errno IpcId)⟩ =>
      statics.expiry = true → ∃ mutex, found = .ok mutex
  | ⟨.load addr offset, (loaded : Option UInt)⟩ => ∀ word,
      loaded = some word → ∃ segment, addr = .mapped segment ∧
        (segment.key = paths.shmKey key →
          ∃ owner semaphores expire statics,
            maker madeSegment segment log = some owner ∧
              commands owner = some (.create semaphores expire, statics) ∧
                (offset = 1 → expire = 0 → word = 0) ∧
                  (offset = 2 → word = BitVec.ofInt 32 expire))
  | ⟨.semctlStat id, (ds : SemidDs)⟩ => id = shsem.id →
      ∃ owner, maker madeSet shsem.id log = some owner ∧
        filledBy owner (paths.semKey key) log = some ds.sem_ctime
  | ⟨.time, (instant : Time)⟩ => instant ≤ now
  | _ => True

/-- What the answers in `delete` say of it. -/
def Finds : Event signature → Prop
  | ⟨.semget name .., (found : Except Errno IpcId)⟩ => ∀ id,
      found = .ok id →
        name = paths.semKey key ∨ name = paths.semKey (key + 128) →
          OneLock log shsem madeSet id
  | ⟨.shmget name .., (found : Except Errno IpcId)⟩ => ∀ id,
      found = .ok id → name = paths.shmKey key →
        OneLock log shsem madeSegment id
  | ⟨.shmat id, (mapped : Except Errno Addr)⟩ => mapped = .ok (.mapped id)
  | _ => True

/-- The objects of one lock are removed. -/
def Takes : Call → Prop
  | .semctlRmid id => OneLock log shsem madeSet id
  | .shmctlRmid id => OneLock log shsem madeSegment id
  | _ => True

end Hearing

/-- The protocol of a program whose answers say something. -/
def hearing (allow : Call → Prop) (heard : Event signature → Prop) :
    Protocol signature Unit where
  allow _ := allow
  answer _ call answer := heard ⟨call, answer⟩
  next _ _ _ := ()

theorem hearing_transparent {heard : Event signature → Prop} :
    Transparent (hearing (fun _ => True) heard) where
  allow _ _ _ := trivial
  next _ _ _ _ := rfl

theorem hearing_relied {allow : Call → Prop} {heard : Event signature → Prop}
    {events : List (Event signature)}
    (all : ∀ event ∈ events, heard event) :
    (hearing allow heard).Relied () events :=
  Protocol.relied_of_forall (fun event member _ => all event member) ()

section Judgement

variable {paths : KeyPaths} {key : Key}
variable {commands : Pid → Option (Action × Lock.Statics)}
variable {log : List (Entry signature Pid Store)} {now : Time}
variable {statics : Lock.Statics} {shsem : Semaphore}

/-- The lock whose set has been attached has expired. -/
def Over (paths : KeyPaths) (key : Key)
    (commands : Pid → Option (Action × Lock.Statics))
    (log : List (Entry signature Pid Store)) (now : Time)
    (shsem : Semaphore) : Prop :=
  ∃ owner, maker madeSet shsem.id log = some owner ∧
    Lapsed paths key commands log now owner

variable {Value : Type} {post : Unit → Value → Prop}

/-- `SharedMemory$attach` in `init`: it finds the segment of the lock, or what
it returns leads to no judgement. -/
theorem judges_attach {continuation : Option SharedMemory → Prog Value}
    (missing : statics.expiry = false →
      (continuation none).Conforms (hearing (fun _ => True)
        (Tells paths key commands log now statics shsem)) () post)
    (bare : ∀ shmem : SharedMemory, statics.expiry = false →
      shmem.shsem = none → (continuation (some shmem)).Conforms
        (hearing (fun _ => True)
          (Tells paths key commands log now statics shsem)) () post)
    (found : ∀ (shmem : SharedMemory) mutex, shmem.shsem = some mutex →
      (∀ segment, shmem.addr = .mapped segment →
        segment.key = paths.shmKey key ∧
          OneLock log shsem madeSegment segment) →
        (continuation (some shmem)).Conforms (hearing (fun _ => True)
          (Tells paths key commands log now statics shsem)) () post) :
    (SharedMemory.attach paths key >>= continuation).Conforms
      (hearing (fun _ => True)
        (Tells paths key commands log now statics shsem)) () post := by
  have unset : (statics.expiry = true → False) → statics.expiry = false :=
    Bool.eq_false_iff.mpr
  rw [SharedMemory.attach_bind]
  refine ⟨trivial, ?_⟩
  rintro (answer : Except Errno IpcId) ⟨finds, tells⟩
  cases answer with
  | error errno =>
      apply missing (unset fun set => ?_)
      rcases finds set with ⟨_, impossible⟩
      cases impossible
  | ok segment =>
      rcases tells segment rfl with ⟨isName, one⟩
      refine ⟨trivial, ?_⟩
      intro (block : Option SharedMemory) _
      cases block with
      | none => exact Transparent.dies hearing_transparent
      | some block =>
          dsimp only
          rw [SharedMemory.shmat_bind]
          refine ⟨trivial, ?_⟩
          rintro (mapped : Except Errno Addr) ⟨maps, isMapped⟩
          cases mapped with
          | error errno =>
              simp only [ne_eq, not_true_eq_false, if_false]
              cases owned : block.shsem with
              | none =>
                  apply bare _ (unset fun set => ?_) rfl
                  rcases maps set with ⟨_, impossible⟩
                  cases impossible
              | some mutex => exact found _ mutex rfl nofun
          | ok addr =>
              have isAddr : addr = .mapped segment := isMapped addr rfl
              subst isAddr
              simp only [ne_eq, reduceCtorEq, not_false_eq_true, if_true]
              rw [Semaphore.attach_bind]
              refine ⟨trivial, ?_⟩
              intro (answer : Except Errno IpcId) locks
              cases answer with
              | error errno =>
                  apply bare _ (unset fun set => ?_) rfl
                  rcases locks set with ⟨_, impossible⟩
                  cases impossible
              | ok mutex =>
                  refine ⟨trivial, ?_⟩
                  intro (allocated : Option Unit) _
                  cases allocated with
                  | none => exact Transparent.dies hearing_transparent
                  | some success =>
                      refine ⟨trivial, fun _ _ => found _ _ rfl ?_⟩
                      rintro other ⟨⟩
                      exact ⟨isName, one rfl⟩

/-- An `on` that has come out of `init` to find the lock expired has judged the
lock of its set. -/
theorem judges_init (isKey : shsem.key = key) :
    (Lock.init paths statics shsem).Conforms (hearing (fun _ => True)
      (Tells paths key commands log now statics shsem)) ()
      fun _ outcome => Expires outcome →
        Over paths key commands log now shsem := by
  have lasts : ∀ {handle : Semaphore} {e : Int} {known : Lock.Statics},
      known.expiry = false → Expires (e, known, handle) →
        Over paths key commands log now shsem := by
    rintro handle e known unset ⟨set, _⟩
    cases unset.symm.trans set
  unfold Lock.init
  rw [isKey]
  apply judges_attach
  · exact lasts
  · intro shmem unset owned
    simp only [owned]
    exact lasts unset
  intro shmem mutex owned found
  simp only [owned, SharedMemory.delete, Semaphore.delete_false,
    Bool.false_eq_true, if_false]
  apply Transparent.read hearing_transparent trivial
  intro size tellsSize
  rcases tellsSize size rfl with ⟨segment, isAddr, _⟩
  rcases found segment isAddr with ⟨isName, owner, ofSet, ofSegment⟩
  have ofLock : ∀ {offset : Nat} {word : UInt},
      Tells paths key commands log now statics shsem
        ⟨.load shmem.addr offset, (some word : Option UInt)⟩ →
        ∃ semaphores expire statics,
          commands owner = some (.create semaphores expire, statics) ∧
            (offset = 1 → expire = 0 → word = 0) ∧
              (offset = 2 → word = BitVec.ofInt 32 expire) := by
    intro offset word tells
    rcases tells word rfl with ⟨other, isOther, tells⟩
    have same : segment = other :=
      Addr.mapped.inj (isAddr.symm.trans isOther)
    subst same
    rcases tells isName with
      ⟨maker, semaphores, expire, statics, isMaker, isCreate, words⟩
    have sameMaker : maker = owner :=
      Option.some.inj (isMaker.symm.trans ofSegment)
    subst sameMaker
    exact ⟨semaphores, expire, statics, isCreate, words⟩
  apply Transparent.read hearing_transparent trivial
  intro flag tellsFlag
  rcases ofLock tellsFlag with
    ⟨semaphores, expire, _, isCreate, flagged, _⟩
  by_cases set : flag ≠ 0
  · have expires : expire ≠ 0 := fun unset => set (flagged rfl unset)
    simp only [ne_eq, set, not_false_eq_true, decide_true, if_true]
    rw [time_bind]
    refine ⟨trivial, fun (instant : Time) before => ?_⟩
    dsimp only
    rw [Semaphore.ctime_bind]
    refine ⟨trivial, fun (ds : SemidDs) tellsTime => ?_⟩
    apply Transparent.read hearing_transparent trivial
    intro word tellsWord
    rcases ofLock tellsWord with ⟨_, _, _, isCreate', _, isWord⟩
    rcases tellsTime rfl with ⟨owner', ofSet', isFilled⟩
    have sameOwner : owner' = owner :=
      Option.some.inj (ofSet'.symm.trans ofSet)
    subst sameOwner
    rw [isCreate] at isCreate'
    cases isCreate'
    rintro ⟨_, expired⟩
    refine ⟨owner', ofSet, semaphores, expire, _, ds.sem_ctime, isCreate,
      expires, isFilled, ?_⟩
    rw [← isWord rfl]
    exact Int.le_trans (Int.le_of_sub_nonpos expired) before
  · simp only [set, decide_false, Bool.false_eq_true, if_false]
    exact lasts rfl

/-- `SharedMemory$attach` in `delete`: what it finds belongs to the lock. -/
theorem clears_attach {continuation : Option SharedMemory → Prog Value}
    (missing : (continuation none).Conforms
      (hearing (Takes log shsem) (Finds paths key log shsem)) () post)
    (found : ∀ shmem : SharedMemory, OneLock log shsem madeSegment shmem.id →
      (∀ mutex, shmem.shsem = some mutex →
        OneLock log shsem madeSet mutex.id) →
        (continuation (some shmem)).Conforms
          (hearing (Takes log shsem) (Finds paths key log shsem)) () post) :
    (SharedMemory.attach paths key >>= continuation).Conforms
      (hearing (Takes log shsem) (Finds paths key log shsem)) () post := by
  rw [SharedMemory.attach_bind]
  refine ⟨trivial, ?_⟩
  intro (answer : Except Errno IpcId) finds
  cases answer with
  | error errno => exact missing
  | ok segment =>
      have one := finds segment rfl rfl
      refine ⟨trivial, ?_⟩
      intro (block : Option SharedMemory) _
      cases block with
      | none => exact ⟨trivial, fun impossible => impossible.elim⟩
      | some block =>
          dsimp only
          rw [SharedMemory.shmat_bind]
          refine ⟨trivial, ?_⟩
          intro (mapped : Except Errno Addr) isMapped
          have isOk : mapped = .ok (.mapped segment) := isMapped
          subst isOk
          simp only [ne_eq, reduceCtorEq, not_false_eq_true, if_true]
          rw [Semaphore.attach_bind]
          refine ⟨trivial, ?_⟩
          intro (answer : Except Errno IpcId) locks
          cases answer with
          | error errno => exact found _ one nofun
          | ok mutex =>
              refine ⟨trivial, ?_⟩
              intro (allocated : Option Unit) _
              cases allocated with
              | none => exact ⟨trivial, fun impossible => impossible.elim⟩
              | some success =>
                  refine ⟨trivial, fun _ _ => found _ one ?_⟩
                  rintro other ⟨⟩
                  exact locks mutex rfl (Or.inr rfl)

/-- `SharedMemory$delete` removes the mutex and the segment. -/
theorem clears_remove {shmem : SharedMemory} {continuation : Unit → Prog Value}
    (one : OneLock log shsem madeSegment shmem.id)
    (locks : ∀ mutex, shmem.shsem = some mutex →
      OneLock log shsem madeSet mutex.id)
    (rest : (continuation ()).Conforms
      (hearing (Takes log shsem) (Finds paths key log shsem)) () post) :
    (SharedMemory.delete shmem true >>= continuation).Conforms
      (hearing (Takes log shsem) (Finds paths key log shsem)) () post := by
  have clears : ((do
      memset shmem.addr shmem.size.value
      munlockall
      shmdt shmem.addr
      shmctlRmid shmem.id) >>= continuation).Conforms
        (hearing (Takes log shsem) (Finds paths key log shsem)) () post := by
    simp only [bind_assoc]
    rw [SharedMemory.memset_bind]
    refine ⟨trivial, ?_⟩
    intro (done : Option Unit) _
    cases done with
    | none => exact ⟨trivial, fun impossible => impossible.elim⟩
    | some success =>
        exact ⟨trivial, fun _ _ => ⟨trivial, fun _ _ =>
          ⟨one, fun _ _ => rest⟩⟩⟩
  cases owned : shmem.shsem with
  | none => simpa [SharedMemory.delete, owned] using clears
  | some mutex =>
      have first : (semctlRmid mutex.id >>= fun _ => (do
          memset shmem.addr shmem.size.value
          munlockall
          shmdt shmem.addr
          shmctlRmid shmem.id) >>= continuation).Conforms
            (hearing (Takes log shsem) (Finds paths key log shsem)) ()
              post := ⟨locks mutex owned, fun _ _ => clears⟩
      simpa [SharedMemory.delete, owned] using first

/-- `delete` removes the objects of the lock that has been judged, if it finds
those. -/
theorem clears_delete :
    (Lock.delete paths key).Conforms (hearing (Takes log shsem)
      (Finds paths key log shsem)) () fun _ _ => True := by
  unfold Lock.delete
  rw [Semaphore.attach_bind]
  refine ⟨trivial, ?_⟩
  intro (answer : Except Errno IpcId) finds
  cases answer with
  | error errno =>
      apply clears_attach
      · trivial
      · intro shmem one locks
        exact clears_remove one locks trivial
  | ok id =>
      refine ⟨trivial, ?_⟩
      intro (allocated : Option Unit) _
      cases allocated with
      | none => exact ⟨trivial, fun impossible => impossible.elim⟩
      | some success =>
          refine ⟨trivial, fun _ _ =>
            ⟨finds id rfl (Or.inl rfl), fun _ _ => ?_⟩⟩
          apply clears_attach
          · trivial
          · intro shmem one locks
            exact clears_remove one locks trivial

end Judgement

end Atomicles.Clearing
