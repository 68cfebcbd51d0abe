import Atomicles.Source.Equations

/-!
# Which calls the functions make

Three kinds of calls concern a segment: those that open it, those that access
it and those that remove it.  A predicate that holds of all calls of the kinds
a function makes holds along all ways through the function.
-/

namespace Atomicles

open Interaction

/-- The calls of `SharedMemory$new` and `SharedMemory$attach`. -/
def Call.opens : Call → Bool
  | .mallocSemaphore => true
  | .mallocSharedMemory => true
  | .semget .. => true
  | .semctlSetall .. => true
  | .semctlStat .. => true
  | .shmget .. => true
  | .shmat .. => true
  | .mlockall => true
  | .mlock .. => true
  | .die _ => true
  | _ => false

/-- Those of `Semaphore$new` and `Semaphore$attach`. -/
def Call.opensSet : Call → Bool
  | .mallocSemaphore => true
  | .semget .. => true
  | .semctlSetall .. => true
  | .semctlStat .. => true
  | .die _ => true
  | _ => false

theorem Call.opens_of_opensSet (call : Call) (opens : call.opensSet = true) :
    call.opens = true := by
  cases call <;> first | rfl | cases opens

/-- Those of `Semaphore$attach`. -/
def Call.findsSet : Call → Bool
  | .mallocSemaphore => true
  | .semget _ _ creat _ => !creat
  | .semctlStat .. => true
  | .die _ => true
  | _ => false

theorem Call.opensSet_of_findsSet (call : Call)
    (finds : call.findsSet = true) : call.opensSet = true := by
  cases call <;> first | rfl | cases finds

/-- Those of `SharedMemory$attach`. -/
def Call.finds : Call → Bool
  | .mallocSharedMemory => true
  | .shmget _ _ creat _ => !creat
  | .shmat .. => true
  | call => call.findsSet

theorem Call.finds_of_findsSet (call : Call) (finds : call.findsSet = true) :
    call.finds = true := by
  cases call <;> first | exact finds | cases finds

theorem Call.opens_of_finds (call : Call) (finds : call.finds = true) :
    call.opens = true := by
  cases call <;> first | rfl | cases finds

/-- Those of the two parts of `SharedMemory$new` that concern the segment. -/
def Call.opensSegment : Call → Bool
  | .shmget .. => true
  | .shmat .. => true
  | .mlockall => true
  | .mlock .. => true
  | _ => false

theorem Call.opens_of_opensSegment (call : Call)
    (opens : call.opensSegment = true) : call.opens = true := by
  cases call <;> first | rfl | cases opens

/-- The calls of `SharedMemory$read_uint` and `SharedMemory$write_uint`. -/
def Call.accesses : Call → Bool
  | .semop .. => true
  | .semctlGetval .. => true
  | .load .. => true
  | .store .. => true
  | .die _ => true
  | _ => false

/-- Those that lock and unlock the mutex. -/
def Call.enters : Call → Bool
  | .semop .. => true
  | .semctlGetval .. => true
  | .die _ => true
  | _ => false

/-- Those of `SharedMemory$read_uint`. -/
def Call.reads : Call → Bool
  | .load .. => true
  | call => call.enters

theorem Call.reads_of_enters (call : Call) (enters : call.enters = true) :
    call.reads = true := by
  cases call <;> first | rfl | cases enters

theorem Call.accesses_of_reads (call : Call) (reads : call.reads = true) :
    call.accesses = true := by
  cases call <;> first | rfl | cases reads

/-- The calls of `SharedMemory$delete`. -/
def Call.removes : Call → Bool
  | .semctlRmid .. => true
  | .memset .. => true
  | .munlockall => true
  | .shmdt .. => true
  | .shmctlRmid .. => true
  | .die _ => true
  | _ => false

/-- The calls of `on` and `off`. -/
def Call.works : Call → Bool
  | .time => true
  | .sleep _ => true
  | call => call.finds || call.reads || call.removes

theorem Call.works_of_finds (call : Call) (finds : call.finds = true) :
    call.works = true := by
  cases call <;> first | rfl | simp [Call.works, finds]

theorem Call.works_of_reads (call : Call) (reads : call.reads = true) :
    call.works = true := by
  cases call <;> first | rfl | cases reads

theorem Call.works_of_removes (call : Call) (removes : call.removes = true) :
    call.works = true := by
  cases call <;> first | rfl | cases removes

variable {allow : Call → Prop} {Value : Type}

/-- The end of a process, where it is allowed. -/
theorem within_die (cause : Death) (allowed : allow (.die cause)) :
    Program.Within allow (die cause : Prog Value) :=
  ⟨allowed, fun impossible => impossible.elim⟩

section OpensSet

variable {paths : KeyPaths}
variable (opens : ∀ call : Call, call.opensSet = true → allow call)
include opens

theorem Semaphore.within_new (key : Key) (count size : UShort)
    (attach : Bool) :
    Program.Within allow (Semaphore.new paths key count size attach) := by
  rw [← bind_pure (Semaphore.new paths key count size attach),
    Semaphore.new_bind]
  refine ⟨opens _ rfl, ?_⟩
  intro (block : Option Unit)
  cases block with
  | none => trivial
  | some success =>
      refine ⟨opens _ rfl, ?_⟩
      intro (made : Except Errno IpcId)
      cases made with
      | ok id =>
          refine ⟨opens _ rfl, ?_⟩
          intro (outcome : Except Errno Unit)
          cases outcome <;> trivial
      | error errno =>
          dsimp only
          split
          · refine ⟨opens _ rfl, ?_⟩
            intro (found : Except Errno IpcId)
            cases found <;> trivial
          · trivial

end OpensSet

theorem opens_set (opens : ∀ call : Call, call.opens = true → allow call)
    (call : Call) (set : call.opensSet = true) : allow call :=
  opens call (call.opens_of_opensSet set)

theorem opensSet_finds
    (opens : ∀ call : Call, call.opensSet = true → allow call)
    (call : Call) (finds : call.findsSet = true) : allow call :=
  opens call (call.opensSet_of_findsSet finds)

theorem opens_finds (opens : ∀ call : Call, call.opens = true → allow call)
    (call : Call) (finds : call.finds = true) : allow call :=
  opens call (call.opens_of_finds finds)

theorem finds_set (finds : ∀ call : Call, call.finds = true → allow call)
    (call : Call) (set : call.findsSet = true) : allow call :=
  finds call (call.finds_of_findsSet set)

theorem Semaphore.within_attach {paths : KeyPaths}
    (finds : ∀ call : Call, call.findsSet = true → allow call) (key : Key) :
    Program.Within allow (Semaphore.attach paths key) := by
  rw [← bind_pure (Semaphore.attach paths key), Semaphore.attach_bind]
  refine ⟨finds _ rfl, ?_⟩
  intro (found : Except Errno IpcId)
  cases found with
  | error errno => trivial
  | ok id =>
      refine ⟨finds _ rfl, ?_⟩
      intro (block : Option Unit)
      cases block with
      | none => exact within_die _ (finds _ rfl)
      | some success => exact ⟨finds _ rfl, fun _ => trivial⟩

theorem SharedMemory.within_lockPages (all : allow .mlockall)
    (each : ∀ addr size, allow (.mlock addr size)) (this : SharedMemory) :
    Program.Within allow (SharedMemory.lockPages this) := by
  refine ⟨all, ?_⟩
  intro (locked : Except Errno Unit)
  cases locked with
  | ok success => trivial
  | error errno =>
      refine ⟨each _ _, ?_⟩
      intro (again : Except Errno Unit)
      cases again <;> trivial

section OpensSegment

variable {paths : KeyPaths}
variable (opens : ∀ call : Call, call.opensSegment = true → allow call)
include opens

omit opens in
theorem within_shmat (id : IpcId) (attaches : allow (.shmat id)) :
    Program.Within allow (shmat id) := by
  refine ⟨attaches, ?_⟩
  intro (mapped : Except Errno Addr)
  cases mapped <;> trivial

theorem SharedMemory.within_newSegment (this : SharedMemory) (size : Nat)
    (attach : Bool) :
    Program.Within allow
      (SharedMemory.newSegment paths this size attach) := by
  rw [← bind_pure (SharedMemory.newSegment paths this size attach),
    SharedMemory.newSegment_bind]
  refine ⟨opens _ rfl, ?_⟩
  intro (made : Except Errno IpcId)
  cases made with
  | ok id =>
      apply (within_shmat id (opens _ rfl)).bind
      intro addr
      split <;> trivial
  | error errno =>
      dsimp only
      split
      · refine ⟨opens _ rfl, ?_⟩
        intro (again : Except Errno IpcId)
        cases again with
        | ok id =>
            apply (within_shmat id (opens _ rfl)).bind
            intro addr
            split <;> trivial
        | error errno => trivial
      · trivial

end OpensSegment

theorem opens_segment (opens : ∀ call : Call, call.opens = true → allow call)
    (call : Call) (segment : call.opensSegment = true) : allow call :=
  opens call (call.opens_of_opensSegment segment)

section Opens

variable {paths : KeyPaths}
variable (opens : ∀ call : Call, call.opens = true → allow call)
include opens

omit opens in
/-- A handle that is not to be removed is only freed. -/
theorem SharedMemory.within_free (this : SharedMemory) :
    Program.Within allow (SharedMemory.delete this false) := by
  cases owned : this.shsem <;> simp [SharedMemory.delete, owned]

theorem SharedMemory.within_new (key : Key) (size : Nat) (attach : Bool) :
    Program.Within allow (SharedMemory.new paths key size attach) := by
  refine ⟨opens _ rfl, ?_⟩
  intro (block : Option SharedMemory)
  cases block with
  | none => trivial
  | some block =>
      apply (SharedMemory.within_newSegment (opens_segment opens) _ size
        attach).bind
      rintro ⟨success, this⟩
      dsimp only
      split
      · apply (Semaphore.within_new (opens_set opens) (key + 128) 1 1
          attach).bind
        intro shsem
        cases shsem with
        | none => exact (SharedMemory.within_free _).bind fun _ => trivial
        | some shsem =>
            apply (SharedMemory.within_lockPages (opens _ rfl)
              (fun _ _ => opens _ rfl) _).bind
            intro locked
            split
            · exact (SharedMemory.within_free _).bind fun _ => trivial
            · trivial
      · exact (SharedMemory.within_free _).bind fun _ => trivial

end Opens

theorem SharedMemory.within_attach {paths : KeyPaths}
    (finds : ∀ call : Call, call.finds = true → allow call) (key : Key) :
    Program.Within allow (SharedMemory.attach paths key) := by
  rw [← bind_pure (SharedMemory.attach paths key), SharedMemory.attach_bind]
  refine ⟨finds _ rfl, ?_⟩
  intro (found : Except Errno IpcId)
  cases found with
  | error errno => trivial
  | ok id =>
      refine ⟨finds _ rfl, ?_⟩
      intro (block : Option SharedMemory)
      cases block with
      | none => exact within_die _ (finds _ rfl)
      | some block =>
          apply (within_shmat id (finds _ rfl)).bind
          intro addr
          split
          · exact (Semaphore.within_attach (finds_set finds) _).bind
              fun _ => trivial
          · trivial

section Enters

variable (enters : ∀ call : Call, call.enters = true → allow call)
include enters

theorem SharedMemory.within_enter (this : SharedMemory) :
    Program.Within allow (SharedMemory.enter this) := by
  rw [← bind_pure (SharedMemory.enter this)]
  cases owned : this.shsem with
  | none =>
      rw [SharedMemory.enter_bind_none owned]
      exact within_die _ (enters _ rfl)
  | some shsem =>
      rw [SharedMemory.enter_bind owned]
      refine ⟨enters _ rfl, ?_⟩
      intro (outcome : Except Errno Unit)
      cases outcome with
      | ok success => trivial
      | error errno =>
          dsimp only
          split
          · trivial
          · exact within_die _ (enters _ rfl)

theorem SharedMemory.within_exit (this : SharedMemory) :
    Program.Within allow (SharedMemory.exit this) := by
  rw [← bind_pure (SharedMemory.exit this)]
  cases owned : this.shsem with
  | none =>
      simp only [SharedMemory.exit, owned]
      exact (within_die _ (enters _ rfl)).bind fun _ => trivial
  | some shsem =>
      rw [SharedMemory.exit_bind owned]
      refine ⟨enters _ rfl, ?_⟩
      intro (value : Except Errno Nat)
      dsimp only
      split
      · refine ⟨enters _ rfl, ?_⟩
        intro (outcome : Except Errno Unit)
        cases outcome with
        | ok success => trivial
        | error errno => exact within_die _ (enters _ rfl)
      · exact within_die _ (enters _ rfl)

end Enters

theorem reads_mutex (reads : ∀ call : Call, call.reads = true → allow call)
    (call : Call) (enters : call.enters = true) : allow call :=
  reads call (call.reads_of_enters enters)

theorem accesses_reads
    (accesses : ∀ call : Call, call.accesses = true → allow call)
    (call : Call) (reads : call.reads = true) : allow call :=
  accesses call (call.accesses_of_reads reads)

theorem within_load
    (reads : ∀ call : Call, call.reads = true → allow call) (addr : Addr)
    (offset : Nat) : Program.Within allow (load addr offset) := by
  refine ⟨reads _ rfl, ?_⟩
  intro (word : Option UInt)
  cases word with
  | none => exact within_die _ (reads _ rfl)
  | some word => trivial

theorem SharedMemory.within_readUint
    (reads : ∀ call : Call, call.reads = true → allow call)
    (this : SharedMemory) (offset : UShort) :
    Program.Within allow (SharedMemory.readUint this offset) := by
  apply (SharedMemory.within_enter (reads_mutex reads) this).bind
  intro _
  apply (SharedMemory.within_exit (reads_mutex reads) this).bind
  intro _
  exact within_load reads this.addr offset.toNat

section Accesses

variable (accesses : ∀ call : Call, call.accesses = true → allow call)
include accesses

theorem within_store (addr : Addr) (offset : Nat) (value : UInt) :
    Program.Within allow (store addr offset value) := by
  refine ⟨accesses _ rfl, ?_⟩
  intro (done : Option Unit)
  cases done with
  | none => exact within_die _ (accesses _ rfl)
  | some success => trivial

theorem SharedMemory.within_writeUint (this : SharedMemory)
    (offset : UShort) (n : UInt) :
    Program.Within allow (SharedMemory.writeUint this offset n) := by
  have enters := reads_mutex (accesses_reads accesses)
  apply (SharedMemory.within_enter enters this).bind
  intro _
  apply (within_store accesses this.addr offset.toNat n).bind
  intro _
  exact SharedMemory.within_exit enters this

end Accesses

/-! ## Protocols without a part in the locking -/

/-- The calls around a load or a store. -/
def Locks : Call → Prop
  | .semop .. => True
  | .semctlGetval .. => True
  | .die _ => True
  | _ => False

/-- A protocol to which the mutex does not matter. -/
structure Transparent {Phase : Type} (protocol : Protocol signature Phase) :
    Prop where
  allow : ∀ phase call, Locks call → protocol.allow phase call
  next : ∀ phase call answer, Locks call →
    protocol.next phase call answer = phase

namespace Transparent

variable {Phase : Type} {protocol : Protocol signature Phase} {phase : Phase}
variable {post : Phase → Value → Prop}
variable (transparent : Transparent protocol)
include transparent

theorem dies {cause : Death} :
    (die cause : Prog Value).Conforms protocol phase post :=
  ⟨transparent.allow _ _ trivial, fun impossible => impossible.elim⟩

/-- A call of the locking before a program. -/
theorem step {call : Call} {next : call.Answer → Prog Value}
    (locks : Locks call)
    (rest : ∀ answer, (next answer).Conforms protocol phase post) :
    (Program.issue call next : Prog Value).Conforms protocol phase post := by
  refine ⟨transparent.allow _ _ locks, ?_⟩
  intro answer _
  rw [transparent.next _ _ _ locks]
  exact rest answer

theorem enter {this : SharedMemory} {continuation : Unit → Prog Value}
    (rest : (continuation ()).Conforms protocol phase post) :
    (SharedMemory.enter this >>= continuation).Conforms protocol phase
      post := by
  cases owned : this.shsem with
  | none =>
      rw [SharedMemory.enter_bind_none owned]
      exact transparent.dies
  | some shsem =>
      rw [SharedMemory.enter_bind owned]
      refine transparent.step (by trivial) ?_
      intro (outcome : Except Errno Unit)
      cases outcome with
      | ok success => exact rest
      | error errno =>
          dsimp only
          split
          · exact rest
          · exact transparent.dies

theorem exit {this : SharedMemory} {continuation : Unit → Prog Value}
    (rest : (continuation ()).Conforms protocol phase post) :
    (SharedMemory.exit this >>= continuation).Conforms protocol phase
      post := by
  cases owned : this.shsem with
  | none =>
      have ends : SharedMemory.exit this >>= continuation =
          (die .segv : Prog Value) := by
        simp [SharedMemory.exit, owned]
      rw [ends]
      exact transparent.dies
  | some shsem =>
      rw [SharedMemory.exit_bind owned]
      refine transparent.step (by trivial) ?_
      intro (value : Except Errno Nat)
      split
      · refine transparent.step (by trivial) ?_
        intro (outcome : Except Errno Unit)
        cases outcome with
        | ok success => exact rest
        | error errno => exact transparent.dies
      · exact transparent.dies

/-- `SharedMemory$read_uint` comes down to its load. -/
theorem read {this : SharedMemory} {offset : UShort}
    {continuation : UInt → Prog Value}
    (loads : protocol.allow phase (.load this.addr offset.toNat))
    (rest : ∀ word : UInt,
      protocol.answer phase (.load this.addr offset.toNat) (some word) →
        (continuation word).Conforms protocol
          (protocol.next phase (.load this.addr offset.toNat) (some word))
          post) :
    (this.readUint offset >>= continuation).Conforms protocol phase post := by
  have shape : this.readUint offset >>= continuation =
      SharedMemory.enter this >>= fun _ => SharedMemory.exit this >>= fun _ =>
        load this.addr offset.toNat >>= continuation := by
    simp only [SharedMemory.readUint, SharedMemory.readWord, bind_assoc]
  rw [shape]
  apply transparent.enter
  apply transparent.exit
  rw [SharedMemory.load_bind]
  refine ⟨loads, ?_⟩
  intro (word : Option UInt) relied
  cases word with
  | none => exact transparent.dies
  | some word => exact rest word relied

/-- `SharedMemory$write_uint` comes down to its store. -/
theorem write {this : SharedMemory} {offset : UShort} {n : UInt}
    {continuation : Unit → Prog Value}
    (stores : protocol.allow phase (.store this.addr offset.toNat n))
    (rest : protocol.answer phase (.store this.addr offset.toNat n)
        (some ()) →
      (continuation ()).Conforms protocol
        (protocol.next phase (.store this.addr offset.toNat n) (some ()))
        post) :
    (this.writeUint offset n >>= continuation).Conforms protocol phase
      post := by
  have shape : this.writeUint offset n >>= continuation =
      SharedMemory.enter this >>= fun _ =>
        store this.addr offset.toNat n >>= fun _ =>
          SharedMemory.exit this >>= continuation := by
    simp only [SharedMemory.writeUint, SharedMemory.writeWord, bind_assoc]
  rw [shape]
  apply transparent.enter
  rw [SharedMemory.store_bind]
  refine ⟨stores, ?_⟩
  intro (done : Option Unit) relied
  cases done with
  | none => exact transparent.dies
  | some success => exact transparent.exit (rest relied)

end Transparent

section Removes

variable (removes : ∀ call : Call, call.removes = true → allow call)
include removes

theorem SharedMemory.within_remove (this : SharedMemory) :
    Program.Within allow (SharedMemory.delete this true) := by
  have rest : Program.Within allow (do
      memset this.addr this.size.value
      munlockall
      shmdt this.addr
      shmctlRmid this.id) := by
    rw [SharedMemory.memset_bind]
    refine ⟨removes _ rfl, ?_⟩
    intro (done : Option Unit)
    cases done with
    | none => exact within_die _ (removes _ rfl)
    | some success =>
        exact ⟨removes _ rfl, fun _ => ⟨removes _ rfl, fun _ =>
          ⟨removes _ rfl, fun _ => trivial⟩⟩⟩
  cases owned : this.shsem with
  | none => simpa [SharedMemory.delete, owned] using rest
  | some shsem =>
      have first : Program.Within allow (semctlRmid shsem.id) :=
        ⟨removes _ rfl, fun _ => trivial⟩
      simpa [SharedMemory.delete, owned, Semaphore.delete] using
        first.bind fun _ => rest

end Removes

/-! ## The functions of `lock.c` -/

/-- `Semaphore$lock`, in all its branches. -/
theorem Semaphore.within_lock {this : Semaphore} {index : UShort}
    {persist : Bool} {timeout : Time}
    (takes : ∀ nowait,
      allow (.semop this.id index.toNat (-1) (!persist) nowait))
    (sleeps : allow (.sleep 1)) :
    Program.Within allow (Semaphore.lock this index persist timeout) := by
  have timed : ∀ remaining, Program.Within allow
      (Semaphore.lockTimed this index persist remaining) := by
    intro remaining
    induction remaining with
    | zero => trivial
    | succ remaining ih =>
        refine ⟨takes _, fun (outcome : Except Errno Unit) => ?_⟩
        cases outcome with
        | ok success => trivial
        | error errno =>
            cases errno
            case EAGAIN => exact ⟨sleeps, fun _ => ih⟩
            case EIDRM => exact ih
            all_goals trivial
  unfold Semaphore.lock
  split
  · refine ⟨takes _, fun (outcome : Except Errno Unit) => ?_⟩
    cases outcome <;> trivial
  · split
    · refine ⟨takes _, fun (outcome : Except Errno Unit) => ?_⟩
      cases outcome <;> trivial
    · exact timed timeout.toNat

section Lock

variable {paths : KeyPaths}
variable (finds : ∀ call : Call, call.finds = true → allow call)
include finds

/-- `init`, as far as it may read the segment and the clock. -/
theorem Lock.within_init (clock : allow .time)
    (reads : ∀ this offset,
      Program.Within allow (SharedMemory.readUint this offset))
    (statics : Statics) (shsem : Semaphore) :
    Program.Within allow (init paths statics shsem) := by
  apply (SharedMemory.within_attach finds shsem.key).bind
  intro shmem
  cases shmem with
  | none => trivial
  | some shmem =>
      cases owned : shmem.shsem with
      | none => simp [owned]
      | some mutex =>
          simp only [owned]
          apply (reads shmem 0).bind
          intro size
          apply (reads shmem 1).bind
          intro flag
          split
          · rw [time_bind]
            refine ⟨clock, fun now => ?_⟩
            dsimp only
            rw [Semaphore.ctime_bind]
            refine ⟨finds _ rfl, fun ds => ?_⟩
            apply (reads shmem 2).bind
            intro expires
            exact (SharedMemory.within_free shmem).bind fun _ => trivial
          · exact (SharedMemory.within_free shmem).bind fun _ => trivial

/-- `delete`. -/
theorem Lock.within_delete
    (removes : ∀ call : Call, call.removes = true → allow call) (key : Key) :
    Program.Within allow (delete paths key) := by
  apply (Semaphore.within_attach (finds_set finds) key).bind
  intro shsem
  cases shsem
  case' some => refine ⟨removes _ rfl, fun _ => ?_⟩
  -- What follows is the same with and without the set.
  all_goals
    apply (SharedMemory.within_attach finds key).bind
    intro shmem
    cases shmem with
    | none => trivial
    | some shmem =>
        exact (SharedMemory.within_remove removes shmem).bind fun _ => trivial

end Lock

/-- `create`. -/
theorem Lock.within_create {paths : KeyPaths}
    (opens : ∀ call : Call, call.opens = true → allow call)
    (accesses : ∀ call : Call, call.accesses = true → allow call) (key : Key)
    (semaphores : UInt) (expire : Time) :
    Program.Within allow (create paths key semaphores expire) := by
  apply (Semaphore.within_new (opens_set opens) _ _ _ _).bind
  intro shsem
  cases shsem with
  | none => trivial
  | some shsem =>
      apply (SharedMemory.within_new opens _ _ _).bind
      intro shmem
      cases shmem with
      | none => trivial
      | some shmem =>
          have writes := SharedMemory.within_writeUint accesses shmem
          apply (writes 0 _).bind
          intro _
          apply (writes 1 _).bind
          intro _
          apply (writes 2 _).bind
          intro _
          apply (writes 3 _).bind
          intro _
          exact (SharedMemory.within_free shmem).bind fun _ => trivial

section Works

variable {paths : KeyPaths}
variable (works : ∀ call : Call, call.works = true → allow call)
include works

theorem works_finds (call : Call) (finds : call.finds = true) : allow call :=
  works call (call.works_of_finds finds)

theorem works_reads (call : Call) (reads : call.reads = true) : allow call :=
  works call (call.works_of_reads reads)

theorem works_removes (call : Call) (removes : call.removes = true) :
    allow call :=
  works call (call.works_of_removes removes)

theorem Lock.within_init_works (statics : Statics) (shsem : Semaphore) :
    Program.Within allow (init paths statics shsem) :=
  within_init (works_finds works) (works _ rfl)
    (SharedMemory.within_readUint (works_reads works)) statics shsem

theorem Lock.within_lockBody (key : Key) (timeout : Int) (statics : Statics)
    (shsem : Semaphore) :
    Program.Within allow (lockBody paths key timeout statics shsem) := by
  have takes : ∀ waiting, Program.Within allow
      (Semaphore.lock shsem SHSEM_INDEX true waiting) :=
    fun waiting => Semaphore.within_lock (fun _ => works _ rfl) (works _ rfl)
  unfold lockBody
  dsimp only
  split
  · split
    · exact (takes _).bind fun _ => trivial
    · exact (within_delete (works_finds works) (works_removes works) key).bind
        fun _ => trivial
  · exact (takes _).bind fun _ => trivial

/-- `lock`. -/
theorem Lock.within_lock (statics : Statics) (key : Key) (timeout : Int) :
    Program.Within allow (lock paths statics key timeout) := by
  unfold lock
  rw [Semaphore.exists_bind]
  refine ⟨works _ rfl, fun (found : Except Errno IpcId) => ?_⟩
  cases found with
  | error errno => trivial
  | ok id =>
      apply (Semaphore.within_attach (finds_set (works_finds works)) key).bind
      intro shsem
      cases shsem with
      | none => trivial
      | some shsem =>
          exact (within_init_works works statics shsem).bind
            fun _ => within_lockBody works ..

/-- `unlock`. -/
theorem Lock.within_unlock (statics : Statics) (key : Key) :
    Program.Within allow (unlock paths statics key) := by
  apply (Semaphore.within_attach (finds_set (works_finds works)) key).bind
  intro shsem
  cases shsem with
  | none => trivial
  | some shsem =>
      apply (within_init_works works statics shsem).bind
      rintro ⟨_, _, handle⟩
      dsimp only
      rw [Semaphore.unlock_bind]
      refine ⟨works _ rfl, fun (value : Except Errno Nat) => ?_⟩
      dsimp only
      split
      · refine ⟨works _ rfl, fun (outcome : Except Errno Unit) => ?_⟩
        cases outcome <;> trivial
      · trivial

end Works

end Atomicles
