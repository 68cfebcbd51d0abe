import Mathlib.Data.List.Perm.Basic
import Atomicles.Source.Calls
import Atomicles.Kernel.Memory

/-!
# Handles on shared segments

Any processes call `SharedMemory$new`, `SharedMemory$attach` and
`SharedMemory$delete`, in any order and on any segments.  A handle is sound if
its address is a mapping of its segment, its mutex is there, and its size has
been set and is within the segment.

A process knows of a segment only what the kernel told it: a lower bound of
its size, from the `shmget` that gave the identifier, and how many mappings it
has made.  Both stay true whatever the other processes do, since a segment is
never resized and only a process itself takes its mappings away.
-/

namespace Atomicles.SegmentHandles

open Interaction

/-! ## The calls and the processes -/

/-- A handle that a process has received, and whether it came from
`SharedMemory$new`. -/
structure Received where
  fromNew : Bool
  this : SharedMemory

/-- A call of a process; `delete` is given one of the handles received. -/
inductive Request where
  | new (key : Key) (size : Nat) (attach : Bool)
  | attach (key : Key)
  | delete (index : Nat) (remove_shm_too : Bool)

variable (paths : KeyPaths)

/-- Carry out a call: the handles that are left. -/
def carryOut (held : List Received) :
    Request → Prog (List Received)
  | .new key size attach => do
      match ← SharedMemory.new paths key size attach with
      | none => return held
      | some this => return ⟨true, this⟩ :: held
  | .attach key => do
      match ← SharedMemory.attach paths key with
      | none => return held
      | some this => return ⟨false, this⟩ :: held
  | .delete index remove_shm_too =>
      match held[index]? with
      | none => return held
      | some received => do
          SharedMemory.delete received.this remove_shm_too
          return held.eraseIdx index

/-- Carry out calls one after the other. -/
def client : List Request → List Received → Prog (List Received)
  | [], held => return held
  | request :: rest, held => do
      let held ← carryOut paths held request
      client rest held

/-- Processes that are about to make their calls. -/
def clients (requests : Pid → Option (List Request)) (store : Store) :
    Pool signature Pid Store (List Received) where
  state := store
  procs process := (requests process).map fun list => client paths list []
  log := []

/-! ## Sound handles -/

/-- What a handle promises to the process that received it. -/
structure Sound (process : Pid) (store : Store) (this : SharedMemory) :
    Prop where
  addr : this.addr = .mapped this.id
  shsem : this.shsem.isSome = true
  assigned : this.size.assigned = true
  fits : ∃ segment, store.shms this.id = some segment ∧
    process ∈ segment.attached ∧ this.size.value ≤ segment.size

/-- `SharedMemory$delete(&this, 1)` may clear the memory: no access fails, and
every byte that it changes is one of the segment. -/
def ClearsOwn (process : Pid) (store : Store) (this : SharedMemory) : Prop :=
  (store.memset process this.addr this.size.value).1 = some () ∧
    ∀ id segment, store.shms id = some segment →
      ∃ cleared,
        (store.memset process this.addr this.size.value).2.shms id =
          some cleared ∧
        ∀ index, id ≠ this.id ∨ segment.size ≤ index →
          cleared.bytes index = segment.bytes index

theorem size_le_mappedSize (segment : Segment) :
    segment.size ≤ segment.mappedSize := by
  unfold Segment.mappedSize PAGE_SIZE
  omega

theorem Sound.clearsOwn {process : Pid} {store : Store} {this : SharedMemory}
    (sound : Sound process store this) : ClearsOwn process store this := by
  rcases sound.fits with ⟨segment, found, member, fits⟩
  have mapped : store.mapping process this.addr = some (this.id, segment) := by
    simp [sound.addr, Store.mapping, found, member]
  have accessed : store.access process this.addr 0 this.size.value =
      some (this.id, segment) := by
    have inside := size_le_mappedSize segment
    apply Store.access_eq_some_iff.mpr
    exact ⟨mapped, by omega⟩
  unfold ClearsOwn Store.memset
  split
  · refine ⟨rfl, ?_⟩
    intro id segment isSegment
    exact ⟨segment, isSegment, fun _ _ => rfl⟩
  · rw [accessed]
    refine ⟨rfl, ?_⟩
    intro id other isOther
    by_cases here : id = this.id
    · subst here
      rw [found] at isOther
      cases isOther
      refine ⟨_, Function.update_self .., ?_⟩
      intro index outside
      have beyond : segment.size ≤ index := by
        rcases outside with different | beyond
        · exact absurd rfl different
        · exact beyond
      have unwritten :
          (List.replicate this.size.value (0#8))[index]? = none := by
        apply List.getElem?_eq_none
        rw [List.length_replicate]
        omega
      simp only [Segment.setBytes, Nat.zero_le, if_true, Nat.sub_zero]
      exact congrArg (Option.getD · _) unwritten
    · refine ⟨other, ?_, fun _ _ => rfl⟩
      exact (Function.update_of_ne here ..).trans isOther

/-! ## The condition on runs -/

/-- The last call of a process. -/
def lastCall (process : Pid) :
    List (Entry signature Pid Store) → Option Call
  | [] => none
  | ⟨.call actor event, _⟩ :: earlier =>
      if actor = process then some event.call else lastCall process earlier
  | _ :: earlier => lastCall process earlier

/-- The size that a process has just asked for under a name. -/
def asked (last : Option Call) (name : Key) : Nat :=
  match last with
  | some (.shmget key size true _) => if key = name then size else 0
  | _ => 0

/-- A segment that is found under a name has the size that was asked for
there. -/
def Fits (store : Store) (last : Option Call) : Event signature → Prop
  | ⟨.shmget name _ false _, (.ok id : Except Errno IpcId)⟩ =>
      asked last name ≤ (store.shms id).elim 0 (·.size)
  | _ => True

/-- A process whose request for a new segment has failed and that finds one
under the same name finds one of at least the size it asked for. -/
def Roomy (pool : Pool signature Pid Store (List Received)) :
    Label signature Pid → Prop
  | .call process event =>
      Fits pool.state (lastCall process pool.log) event
  | _ => True

/-! ## What a process knows -/

/-- The last call of a process, a bound for the size of each segment that it
has been told of, and the number of mappings it has made. -/
structure Phase where
  last : Option Call
  least : IpcId → Option Nat
  mapped : IpcId → Nat

/-- A process that has been told nothing. -/
def Phase.start : Phase :=
  ⟨none, fun _ => none, fun _ => 0⟩

/-- What a process knows after it has been told of a segment. -/
def Phase.told (phase : Phase) (id : IpcId) (size : Nat) : IpcId → Option Nat :=
  Function.update phase.least id (some (max ((phase.least id).getD 0) size))

/-- What a process knows after a call. -/
def Phase.after (phase : Phase) : (call : Call) → call.Answer → Phase
  | .shmget name size creat excl, (made : Except Errno IpcId) =>
      { phase with
        last := some (.shmget name size creat excl)
        least := match made with
          | .ok id =>
              phase.told id
                (max size (if creat then 0 else asked phase.last name))
          | .error _ => phase.least }
  | .shmat id, (outcome : Except Errno Addr) =>
      { phase with
        last := some (.shmat id)
        mapped := match outcome with
          | .ok _ => Function.update phase.mapped id (phase.mapped id + 1)
          | .error _ => phase.mapped }
  | .shmdt (.mapped id), _ =>
      { phase with
        last := some (.shmdt (.mapped id))
        mapped := Function.update phase.mapped id (phase.mapped id - 1) }
  | call, _ => { phase with last := some call }

/-- The calls of the three functions; a segment is mapped by an identifier
that the kernel gave. -/
def Phase.Allows (phase : Phase) : Call → Prop
  | .shmat id => (phase.least id).isSome = true
  | .fork => False
  | .vsnprintf .. => False
  | .interruptible _ => False
  | _ => True

/-- The protocol of a process: `shmat` gives the address of the segment, and
`malloc` sets no member. -/
def protocol : Protocol signature Phase where
  allow := Phase.Allows
  answer _ call answer :=
    match call, answer with
    | .shmat id, (outcome : Except Errno Addr) =>
        ∀ addr, outcome = .ok addr → addr = .mapped id
    | .mallocSharedMemory, (outcome : Option SharedMemory) =>
        ∀ block, outcome = some block → block.size.assigned = false
    | _, _ => True
  next := Phase.after

/-! ## What a process knows is true -/

/-- What a process knows is true of a store. -/
structure Sees (process : Pid) (store : Store) (phase : Phase) : Prop where
  unmade : ∀ id, store.shmGen id.key < id.generation → phase.least id = none
  untold : ∀ id, phase.least id = none → phase.mapped id = 0
  least : ∀ id bound segment, phase.least id = some bound →
    store.shms id = some segment → bound ≤ segment.size
  mapped : ∀ id, phase.mapped id ≤
    (store.shms id).elim 0 (·.attached.count process)

theorem sees_start (process : Pid) (store : Store) (last : Option Call) :
    Sees process store ⟨last, fun _ => none, fun _ => 0⟩ where
  unmade _ _ := rfl
  untold _ _ := rfl
  least _ _ _ impossible _ := by cases impossible
  mapped _ := Nat.zero_le _

/-- A change of a segment that leaves a process its mappings. -/
structure Spares (process : Pid) (segment : Segment)
    (changed : Option Segment) : Prop where
  size : ∀ kept, changed = some kept → kept.size = segment.size
  mapped : segment.attached.count process ≤
    changed.elim 0 (·.attached.count process)

/-- A segment is kept as long as it is mapped. -/
theorem spares_keepMapped {process : Pid} {segment base : Segment}
    {attached : List Pid} (size : base.size = segment.size)
    (mapped : segment.attached.count process ≤ attached.count process) :
    Spares process segment (Store.keepMapped base attached) := by
  unfold Store.keepMapped
  split
  · rename_i gone
    rw [gone.2] at mapped
    constructor
    · intro kept impossible
      cases impossible
    · exact mapped
  · constructor
    · rintro _ ⟨⟩
      exact size
    · exact mapped

/-- What a call changes leaves every process its mappings, but the one that
takes one away. -/
theorem spares_changes {process actor : Pid} {call : Call} {id : IpcId}
    {segment : Segment} {changed : Option Segment}
    (keeps : ∀ addr, call = .shmdt addr → process ≠ actor)
    (changes : call.Changes actor id segment changed) :
    Spares process segment changed := by
  cases changes with
  | attach =>
      constructor
      · rintro _ ⟨⟩
        rfl
      · exact List.count_le_count_cons
  | detach =>
      apply spares_keepMapped rfl
      have different := keeps _ rfl
      exact Nat.le_of_eq (List.count_erase_of_ne different).symm
  | mark => exact spares_keepMapped rfl (Nat.le_refl _)
  | clear =>
      constructor
      · rintro _ ⟨⟩
        rfl
      · exact Nat.le_refl _
  | write =>
      constructor
      · rintro _ ⟨⟩
        rfl
      · exact Nat.le_refl _

namespace Sees

variable {process actor : Pid} {store after : Store} {phase : Phase}

/-- Knowledge is about segments only. -/
theorem of_same (sees : Sees process store phase)
    (same : SameShms store after) : Sees process after phase where
  unmade id := by
    rw [same.2]
    exact sees.unmade id
  untold := sees.untold
  least id := by
    rw [same.1]
    exact sees.least id
  mapped id := by
    rw [same.1]
    exact sees.mapped id

/-- What the last call was does not matter. -/
theorem of_last (sees : Sees process store phase) (last : Option Call) :
    Sees process store { phase with last } where
  unmade := sees.unmade
  untold := sees.untold
  least := sees.least
  mapped := sees.mapped

theorem setShm (sees : Sees process store phase) {id : IpcId}
    {segment : Segment} {changed : Option Segment}
    (found : store.shms id = some segment)
    (spares : Spares process segment changed) :
    Sees process (store.setShm id changed) phase where
  unmade := sees.unmade
  untold := sees.untold
  least other bound kept isBound isKept := by
    by_cases here : other = id
    · subst here
      rw [Store.setShm_shms, Function.update_self] at isKept
      rw [spares.size kept isKept]
      exact sees.least other bound segment isBound found
    · rw [Store.setShm_shms, Function.update_of_ne here] at isKept
      exact sees.least other bound kept isBound isKept
  mapped other := by
    by_cases here : other = id
    · subst here
      have before := sees.mapped other
      rw [found] at before
      rw [Store.setShm_shms, Function.update_self]
      exact Nat.le_trans before spares.mapped
    · rw [Store.setShm_shms, Function.update_of_ne here]
      exact sees.mapped other

/-- Nobody has been told of a segment before it is made. -/
theorem made (sees : Sees process store phase) (key : Key)
    (segment : Segment) :
    Sees process
      { store with
        shms := Function.update store.shms (store.nextShm key) (some segment)
        shmGen := Function.update store.shmGen key (store.shmGen key + 1) }
      phase := by
  have untold : phase.least (store.nextShm key) = none :=
    sees.unmade _ (Nat.lt_succ_self _)
  constructor
  · intro id beyond
    apply sees.unmade
    dsimp only at beyond
    by_cases here : id.key = key
    · rw [here] at beyond ⊢
      rw [Function.update_self] at beyond
      exact Nat.lt_of_succ_lt beyond
    · rwa [Function.update_of_ne here] at beyond
  · exact sees.untold
  · intro id bound kept isBound isKept
    have different : id ≠ store.nextShm key := by
      rintro rfl
      rw [untold] at isBound
      cases isBound
    dsimp only at isKept
    rw [Function.update_of_ne different] at isKept
    exact sees.least id bound kept isBound isKept
  · intro id
    by_cases here : id = store.nextShm key
    · rw [here, sees.untold _ untold]
      exact Nat.zero_le _
    · dsimp only
      rw [Function.update_of_ne here]
      exact sees.mapped id

theorem shmget (sees : Sees process store phase) (key : Key) (size : Nat)
    (creat excl : Bool) :
    Sees process (store.shmget key size creat excl).2 phase := by
  unfold Store.shmget
  split
  · split
    · exact sees
    · split <;> exact sees
  · split
    · exact sees
    · split
      · exact sees
      · exact sees.made key _

/-- No call makes anything untrue but the `shmdt` of the process itself. -/
theorem exec (sees : Sees process store phase) {admits : Choice → Prop}
    {call : Call} {answer : call.Answer} (words : call.writesBytes = false)
    (keeps : ∀ addr, call = .shmdt addr → process ≠ actor)
    (exec : (kernel admits).exec actor call store answer after) :
    Sees process after phase := by
  rcases exec_segments words exec with
    same | ⟨key, size, excl, tick, _, rfl⟩ |
      ⟨id, segment, changed, tick, found, rfl, changes⟩
  · exact sees.of_same same
  · have advanced : Sees process (store.advance tick) phase :=
      sees.of_same ⟨rfl, rfl⟩
    exact advanced.shmget key size true excl
  · have advanced : Sees process (store.advance tick) phase :=
      sees.of_same ⟨rfl, rfl⟩
    exact advanced.setShm found (spares_changes keeps changes)

/-- A process is told of a segment. -/
theorem told (sees : Sees process store phase) {id : IpcId} {size : Nat}
    (made : id.generation ≤ store.shmGen id.key)
    (fits : ∀ segment, store.shms id = some segment → size ≤ segment.size) :
    Sees process store { phase with least := phase.told id size } where
  unmade other beyond := by
    have different : other ≠ id := by
      rintro rfl
      omega
    rw [← sees.unmade other beyond]
    exact Function.update_of_ne different ..
  untold other isNone := by
    by_cases here : other = id
    · subst here
      simp [Phase.told] at isNone
    · apply sees.untold
      rw [← isNone]
      exact (Function.update_of_ne here ..).symm
  least other bound segment isBound found := by
    by_cases here : other = id
    · subst here
      simp only [Phase.told, Function.update_self, Option.some.injEq] at isBound
      subst isBound
      refine Nat.max_le.mpr ⟨?_, fits segment found⟩
      cases before : phase.least other with
      | none => exact Nat.zero_le _
      | some bound => exact sees.least other bound segment before found
    · simp only [Phase.told, Function.update_of_ne here] at isBound
      exact sees.least other bound segment isBound found
  mapped := sees.mapped

end Sees

/-- What `shmget` finds or makes has the size asked for. -/
theorem shmget_ok {store after : Store} {name : Key} {size : Nat}
    {creat excl : Bool} {id : IpcId}
    (served : store.shmget name size creat excl = (.ok id, after)) :
    id.generation ≤ after.shmGen id.key ∧
      (∀ segment, after.shms id = some segment → size ≤ segment.size) ∧
      (creat = false → after = store) := by
  unfold Store.shmget at served
  split at served
  · rename_i there found
    split at served
    · cases served
    · split at served
      · cases served
      · rename_i large
        cases served
        rcases Store.findShm_eq_some_iff.mp found with ⟨isKey, last, _⟩
        refine ⟨?_, ?_, fun _ => rfl⟩
        · apply Nat.le_of_eq
          rw [isKey, last]
        · intro segment isSegment
          simpa [isSegment] using large
  · split at served
    · cases served
    · rename_i making
      split at served
      · cases served
      · cases served
        refine ⟨?_, ?_, ?_⟩
        · simp [Store.nextShm]
        · intro segment isSegment
          dsimp only at isSegment
          rw [Function.update_self] at isSegment
          cases isSegment
          exact Nat.le_refl _
        · rintro rfl
          exact absurd rfl making

namespace Sees

variable {process : Pid} {store after : Store} {phase : Phase}
variable {admits : Choice → Prop}

/-- What a process is told by `shmget` is true. -/
theorem called_shmget (sees : Sees process store phase) {name : Key}
    {size : Nat} {creat excl : Bool} {made : Except Errno IpcId}
    (fits : Fits store phase.last ⟨.shmget name size creat excl, made⟩)
    (exec : (kernel admits).exec process (.shmget name size creat excl) store
      made after) :
    Sees process after
      (phase.after (.shmget name size creat excl) made) := by
  have kept : Sees process after phase :=
    sees.exec rfl (by simp) exec
  cases made with
  | error errno => exact kept.of_last _
  | ok id =>
      rcases exec_cases exec with ⟨choice, _, ⟨errno, refused, _⟩ | granted⟩
      · cases refused
      · have served : (store.advance choice.tick).shmget name size creat excl =
            (.ok id, after) := Option.some.inj granted
        rcases shmget_ok served with ⟨isMade, large, same⟩
        apply (kept.told isMade _).of_last
        intro segment found
        refine Nat.max_le.mpr ⟨large segment found, ?_⟩
        cases creat with
        | true => exact Nat.zero_le _
        | false =>
            rw [same rfl, Store.advance_shms] at found
            have enough : asked phase.last name ≤
                (store.shms id).elim 0 (·.size) := fits
            simpa [found] using enough

/-- A mapping more. -/
theorem called_shmat (sees : Sees process store phase) {id : IpcId}
    {outcome : Except Errno Addr} (known : (phase.least id).isSome = true)
    (exec : (kernel admits).exec process (.shmat id) store outcome after) :
    Sees process after (phase.after (.shmat id) outcome) := by
  have kept : Sees process after phase :=
    sees.exec rfl (by simp) exec
  cases outcome with
  | error errno => exact kept.of_last _
  | ok addr =>
      have here : ∃ segment, store.shms id = some segment ∧
          after.shms id =
            some { segment with attached := process :: segment.attached } := by
        rcases exec_cases exec with ⟨choice, _, ⟨errno, refused, _⟩ | granted⟩
        · cases refused
        · have served : (store.advance choice.tick).shmat process id =
              (.ok addr, after) := Option.some.inj granted
          unfold Store.shmat at served
          split at served
          · cases served
          · rename_i segment found
            cases served
            exact ⟨segment, found, Function.update_self ..⟩
      rcases here with ⟨segment, found, mapped⟩
      constructor
      · exact kept.unmade
      · intro other isNone
        have different : other ≠ id := by
          rintro rfl
          have impossible : (none : Option Nat).isSome = true := by
            rwa [← isNone]
          cases impossible
        have untold := kept.untold other isNone
        rw [← untold]
        exact Function.update_of_ne different ..
      · exact kept.least
      · intro other
        by_cases same : other = id
        · subst same
          have before := sees.mapped other
          rw [found] at before
          have counted : (phase.after (.shmat other)
              (.ok addr : Except Errno Addr)).mapped other =
                phase.mapped other + 1 := Function.update_self ..
          rw [counted, mapped]
          simpa using before
        · have counted : (phase.after (.shmat id)
              (.ok addr : Except Errno Addr)).mapped other =
                phase.mapped other := Function.update_of_ne same ..
          rw [counted]
          exact kept.mapped other

/-- A mapping less is counted. -/
theorem uncounted (sees : Sees process store phase) (id : IpcId) :
    Sees process store
      { phase with
        mapped := Function.update phase.mapped id (phase.mapped id - 1) } where
  unmade := sees.unmade
  untold other isNone := by
    have none := sees.untold other isNone
    by_cases here : other = id
    · subst here
      simp [none]
    · dsimp only
      rwa [Function.update_of_ne here]
  least := sees.least
  mapped other := by
    have before := sees.mapped other
    by_cases here : other = id
    · subst here
      dsimp only
      rw [Function.update_self]
      exact Nat.le_trans (Nat.sub_le _ _) before
    · dsimp only
      rwa [Function.update_of_ne here]

/-- A mapping less. -/
theorem detached (sees : Sees process store phase) {id : IpcId}
    {segment : Segment} (found : store.shms id = some segment) :
    Sees process
      (store.setShm id
        (Store.keepMapped segment (segment.attached.erase process)))
      { phase with
        mapped := Function.update phase.mapped id (phase.mapped id - 1) } where
  unmade := sees.unmade
  untold := (sees.uncounted id).untold
  least other bound kept isBound isKept := by
    by_cases here : other = id
    · subst here
      rw [Store.setShm_shms, Function.update_self] at isKept
      unfold Store.keepMapped at isKept
      split at isKept
      · cases isKept
      · cases isKept
        exact sees.least other bound segment isBound found
    · rw [Store.setShm_shms, Function.update_of_ne here] at isKept
      exact sees.least other bound kept isBound isKept
  mapped other := by
    have before := sees.mapped other
    by_cases here : other = id
    · subst here
      have fewer : phase.mapped other - 1 ≤
          (segment.attached.erase process).count process := by
        rw [List.count_erase_self]
        rw [found] at before
        exact Nat.sub_le_sub_right before 1
      dsimp only
      rw [Function.update_self, Store.setShm_shms, Function.update_self]
      unfold Store.keepMapped
      split
      · rename_i gone
        rw [gone.2] at fewer
        exact fewer
      · exact fewer
    · dsimp only
      rw [Function.update_of_ne here, Store.setShm_shms,
        Function.update_of_ne here]
      exact before

theorem called_shmdt (sees : Sees process store phase) {addr : Addr}
    {outcome : Except Errno Unit}
    (exec : (kernel admits).exec process (.shmdt addr) store outcome after) :
    Sees process after (phase.after (.shmdt addr) outcome) := by
  have same : SameShms store after →
      Sees process after (phase.after (.shmdt addr) outcome) := by
    intro same
    have kept := sees.of_same same
    cases addr with
    | null => exact kept.of_last _
    | failed => exact kept.of_last _
    | mapped id => exact (kept.uncounted id).of_last _
  rcases exec_cases exec with ⟨choice, _, ⟨errno, _, rfl⟩ | granted⟩
  · exact same ⟨rfl, rfl⟩
  · have served : (store.advance choice.tick).shmdt process addr =
        (outcome, after) := Option.some.inj granted
    unfold Store.shmdt at served
    split at served
    · cases served
      exact same ⟨rfl, rfl⟩
    · rename_i id segment mapped
      cases served
      rcases Store.mapping_eq_some_iff.mp mapped with ⟨rfl, found, _⟩
      have advanced : Sees process (store.advance choice.tick) phase :=
        sees.of_same ⟨rfl, rfl⟩
      exact (advanced.detached found).of_last _

/-- What a process knows after a call of its own is true. -/
theorem called (sees : Sees process store phase) {call : Call}
    {answer : call.Answer} (allowed : phase.Allows call)
    (fits : Fits store phase.last ⟨call, answer⟩)
    (exec : (kernel admits).exec process call store answer after) :
    Sees process after (phase.after call answer) := by
  cases call with
  | shmget name size creat excl => exact sees.called_shmget fits exec
  | shmat id => exact sees.called_shmat allowed exec
  | shmdt addr => exact sees.called_shmdt exec
  | fork => exact allowed.elim
  | vsnprintf => exact allowed.elim
  | interruptible => exact allowed.elim
  | _ => exact (sees.exec rfl (by simp) exec).of_last _

/-- The end of another process takes only its own mappings. -/
theorem leave (sees : Sees process store phase) {actor : Pid}
    (different : process ≠ actor) :
    Sees process (store.leave actor) phase where
  unmade := sees.unmade
  untold := sees.untold
  least id bound kept isBound isKept := by
    have isKept : (store.shms id).bind (fun segment =>
        Store.keepMapped segment
          (segment.attached.filter (· ≠ actor))) = some kept := isKept
    rcases Option.bind_eq_some_iff.mp isKept with ⟨segment, found, remains⟩
    unfold Store.keepMapped at remains
    split at remains
    · cases remains
    · cases remains
      exact sees.least id bound segment isBound found
  mapped id := by
    have before := sees.mapped id
    cases found : store.shms id with
    | none =>
        rw [found] at before
        exact Nat.le_trans before (Nat.zero_le _)
    | some segment =>
        rw [found] at before
        have counted : segment.attached.count process ≤
            (segment.attached.filter (· ≠ actor)).count process := by
          apply Nat.le_of_eq
          exact (List.count_filter (by simpa using different)).symm
        have spares : Spares process segment
            (Store.keepMapped segment
              (segment.attached.filter (· ≠ actor))) :=
          spares_keepMapped rfl counted
        have remains : (store.leave actor).shms id =
            Store.keepMapped segment
              (segment.attached.filter (· ≠ actor)) := by
          simp [Store.leave, found]
        rw [remains]
        exact Nat.le_trans before spares.mapped

end Sees

/-! ## What the functions come to know -/

/-- What a process knows later: no bound is lost, and no mapping. -/
structure Extends (before later : Phase) : Prop where
  least : ∀ id bound, before.least id = some bound →
    ∃ larger, later.least id = some larger ∧ bound ≤ larger
  mapped : ∀ id, before.mapped id ≤ later.mapped id

theorem Extends.refl (phase : Phase) : Extends phase phase :=
  ⟨fun _ bound isBound => ⟨bound, isBound, Nat.le_refl _⟩,
    fun _ => Nat.le_refl _⟩

theorem Extends.trans {first second third : Phase}
    (before : Extends first second) (later : Extends second third) :
    Extends first third where
  least id bound isBound := by
    rcases before.least id bound isBound with ⟨larger, isLarger, le⟩
    rcases later.least id larger isLarger with ⟨largest, isLargest, le'⟩
    exact ⟨largest, isLargest, Nat.le_trans le le'⟩
  mapped id := Nat.le_trans (before.mapped id) (later.mapped id)

/-- The calls that tell nothing of a segment. -/
def Quiet : Call → Prop
  | .shmget .. => False
  | .shmat _ => False
  | .shmdt _ => False
  | .fork => False
  | .vsnprintf .. => False
  | .interruptible _ => False
  | _ => True

theorem extends_quiet {phase : Phase} (call : Call) {answer : call.Answer}
    (quiet : Quiet call) :
    Extends phase (protocol.next phase call answer) := by
  cases call <;>
    first
    | exact quiet.elim
    | exact ⟨(Extends.refl phase).least, (Extends.refl phase).mapped⟩

theorem extends_shmget {phase : Phase} {name : Key} {size : Nat}
    {creat excl : Bool} {made : Except Errno IpcId} :
    Extends phase
      (protocol.next phase (.shmget name size creat excl) made) := by
  constructor
  · intro id bound isBound
    cases made with
    | error errno => exact ⟨bound, isBound, Nat.le_refl _⟩
    | ok found =>
        by_cases here : id = found
        · subst here
          refine ⟨_, Function.update_self .., ?_⟩
          rw [isBound]
          exact Nat.le_max_left _ _
        · refine ⟨bound, ?_, Nat.le_refl _⟩
          rw [← isBound]
          exact Function.update_of_ne here ..
  · intro id
    exact Nat.le_refl _

/-- What an identifier tells of its segment. -/
theorem next_shmget (phase : Phase) (name : Key) (size : Nat)
    (creat excl : Bool) (id : IpcId) :
    ∃ bound, (protocol.next phase (.shmget name size creat excl)
        (.ok id : Except Errno IpcId)).least id = some bound ∧
      size ≤ bound ∧ (creat = false → asked phase.last name ≤ bound) := by
  refine ⟨_, Function.update_self .., ?_, ?_⟩
  · exact Nat.le_trans (Nat.le_max_left _ _) (Nat.le_max_right _ _)
  · rintro rfl
    exact Nat.le_trans (Nat.le_max_right _ _) (Nat.le_max_right _ _)

theorem extends_shmat {phase : Phase} {id : IpcId}
    {outcome : Except Errno Addr} :
    Extends phase (protocol.next phase (.shmat id) outcome) := by
  constructor
  · intro other bound isBound
    exact ⟨bound, isBound, Nat.le_refl _⟩
  · intro other
    cases outcome with
    | error errno => exact Nat.le_refl _
    | ok addr =>
        by_cases here : other = id
        · subst here
          have counted : (protocol.next phase (.shmat other)
              (.ok addr : Except Errno Addr)).mapped other =
                phase.mapped other + 1 := Function.update_self ..
          rw [counted]
          exact Nat.le_succ _
        · have counted : (protocol.next phase (.shmat id)
              (.ok addr : Except Errno Addr)).mapped other =
                phase.mapped other := Function.update_of_ne here ..
          exact Nat.le_of_eq counted.symm

/-- What a process knows of the segment that it has mapped for a handle. -/
structure Opened (before later : Phase) (size : Nat) (this : SharedMemory) :
    Prop where
  addr : this.addr = .mapped this.id
  least : ∃ bound, later.least this.id = some bound ∧ size ≤ bound
  mapped : before.mapped this.id + 1 ≤ later.mapped this.id

theorem Opened.extends {before later last : Phase} {size : Nat}
    {this : SharedMemory} (opened : Opened before later size this)
    (extended : Extends later last) : Opened before last size this where
  addr := opened.addr
  least := by
    rcases opened.least with ⟨bound, isBound, enough⟩
    rcases extended.least _ bound isBound with ⟨larger, isLarger, le⟩
    exact ⟨larger, isLarger, Nat.le_trans enough le⟩
  mapped := Nat.le_trans opened.mapped (extended.mapped _)

theorem Opened.after {first before later : Phase} {size : Nat}
    {this : SharedMemory} (extended : Extends first before)
    (opened : Opened before later size this) :
    Opened first later size this where
  addr := opened.addr
  least := opened.least
  mapped :=
    Nat.le_trans (Nat.succ_le_succ (extended.mapped _)) opened.mapped

section Functions

variable {paths : KeyPaths} {phase : Phase} {Value : Type}

/-- A program that is told nothing. -/
theorem conforms_quiet {program : Prog Value}
    (quiet : program.Within Quiet) :
    program.Conforms protocol phase fun later _ => Extends phase later := by
  induction program generalizing phase with
  | done value => exact Extends.refl phase
  | issue call next ih =>
      constructor
      · have isQuiet := quiet.1
        cases call <;> trivial
      · intro answer _
        apply (ih answer (quiet.2 answer)).mono
        intro later value extended
        exact (extends_quiet call quiet.1).trans extended

theorem quiet_opensSet (call : Call) (opens : call.opensSet = true) :
    Quiet call := by
  cases call <;> trivial

theorem conforms_shmat (this : SharedMemory) {id : IpcId} {size bound : Nat}
    (told : phase.least id = some bound) (enough : size ≤ bound) :
    (shmat id).Conforms protocol phase fun later addr =>
      Extends phase later ∧
        (addr ≠ .failed → Opened phase later size { this with id, addr }) := by
  have known : (phase.least id).isSome = true := by
    rw [told]
    rfl
  refine ⟨known, ?_⟩
  intro (outcome : Except Errno Addr) relied
  cases outcome with
  | error errno =>
      refine ⟨extends_shmat, ?_⟩
      intro impossible
      exact absurd rfl impossible
  | ok addr =>
      refine ⟨extends_shmat, ?_⟩
      intro _
      constructor
      · exact relied addr rfl
      · exact ⟨bound, told, enough⟩
      · have counted : (protocol.next phase (.shmat id)
            (.ok addr : Except Errno Addr)).mapped id =
              phase.mapped id + 1 := Function.update_self ..
        exact Nat.le_of_eq counted.symm

/-- What the search for the segment of a new handle comes to. -/
def SegmentFound (before later : Phase) (old : SharedMemory) (size : Nat)
    (result : Int × SharedMemory) : Prop :=
  Extends before later ∧
    (result.1 = EXIT_SUCCESS →
      Opened before later size result.2 ∧ result.2.size = old.size)

theorem conforms_newSegment (this : SharedMemory) (size : Nat)
    (attach : Bool) :
    (SharedMemory.newSegment paths this size attach).Conforms protocol phase
      fun later result => SegmentFound phase later this size result := by
  rw [← bind_pure (SharedMemory.newSegment paths this size attach),
    SharedMemory.newSegment_bind]
  have mapping : ∀ (before : Phase) (id : IpcId) (bound : Nat) (failure : Int),
      Extends phase before → before.mapped = phase.mapped →
      before.least id = some bound → size ≤ bound → failure ≠ EXIT_SUCCESS →
        (shmat id >>= fun addr =>
          if addr ≠ .failed then
            pure (EXIT_SUCCESS, { this with id, addr })
          else pure (failure, { this with id, addr })).Conforms protocol before
            fun later result => SegmentFound phase later this size result := by
    intro before id bound failure extended unmapped told enough unsuccessful
    apply (conforms_shmat this told enough).bind
    rintro later addr ⟨mapped, opened⟩
    split
    · rename_i attached
      refine ⟨extended.trans mapped, fun _ => ⟨?_, rfl⟩⟩
      have found := opened attached
      refine ⟨found.addr, found.least, ?_⟩
      rw [← unmapped]
      exact found.mapped
    · refine ⟨extended.trans mapped, ?_⟩
      intro successful
      exact absurd successful unsuccessful
  have unfound : ∀ (later : Phase) (errno : Errno), Extends phase later →
      SegmentFound phase later this size (errno.code, this) := by
    intro later errno extended
    refine ⟨extended, ?_⟩
    intro successful
    exact absurd successful errno.code_ne_success
  refine ⟨trivial, ?_⟩
  intro (made : Except Errno IpcId) _
  cases made with
  | ok id =>
      rcases next_shmget phase (paths.shmKey this.key) size true true id with
        ⟨bound, told, enough, _⟩
      exact mapping _ id bound EXIT_FAILURE extends_shmget rfl told enough
        (by decide)
  | error errno =>
      dsimp only
      split
      · rename_i taken
        refine ⟨trivial, ?_⟩
        intro (found : Except Errno IpcId) _
        cases found with
        | ok id =>
            let refused := protocol.next phase
              (.shmget (paths.shmKey this.key) size true true)
              (.error errno : Except Errno IpcId)
            rcases next_shmget refused (paths.shmKey this.key) NOP false true
              id with ⟨bound, told, _, enough⟩
            have large : size ≤ bound := by
              simpa [refused, protocol, Phase.after, asked] using enough rfl
            exact mapping _ id bound errno.code
              (extends_shmget.trans extends_shmget) rfl told large
              errno.code_ne_success
        | error errno =>
            exact unfound _ errno (extends_shmget.trans extends_shmget)
      · exact unfound _ errno extends_shmget

/-- What `SharedMemory$new` comes to. -/
def MadeNew (before later : Phase) (made : Option SharedMemory) : Prop :=
  Extends before later ∧ ∀ this, made = some this →
    Opened before later this.size.value this ∧ this.shsem.isSome = true ∧
      this.size.assigned = true

theorem conforms_new (key : Key) (size : Nat) (attach : Bool) :
    (SharedMemory.new paths key size attach).Conforms protocol phase
      (MadeNew phase) := by
  have failed : ∀ (later : Phase) (this : SharedMemory),
      Extends phase later →
        (SharedMemory.delete this false >>= fun _ =>
          pure (none : Option SharedMemory)).Conforms protocol later
            (MadeNew phase) := by
    intro later this extended
    apply (conforms_quiet (SharedMemory.within_free this)).bind
    intro last _ extended'
    refine ⟨extended.trans extended', ?_⟩
    rintro _ ⟨⟩
  refine ⟨trivial, ?_⟩
  intro (block : Option SharedMemory) _
  cases block with
  | none =>
      refine ⟨extends_quiet .mallocSharedMemory trivial, ?_⟩
      rintro _ ⟨⟩
  | some block =>
      apply (conforms_newSegment _ size attach).bind
      rintro later ⟨success, this⟩ ⟨searched, found⟩
      have extended : Extends phase later :=
        (extends_quiet .mallocSharedMemory trivial).trans searched
      dsimp only at found ⊢
      split
      · rename_i successful
        rcases found successful with ⟨opened, sameSize⟩
        apply (conforms_quiet (Semaphore.within_new quiet_opensSet
          (key + 128) 1 1 attach)).bind
        intro second shsem extended'
        cases shsem with
        | none => exact failed second _ (extended.trans extended')
        | some shsem =>
            apply (conforms_quiet (SharedMemory.within_lockPages trivial
              (fun _ _ => trivial) _)).bind
            intro third locked extended''
            have known : Opened phase third size this :=
              (opened.extends (extended'.trans extended'')).after
                (extends_quiet .mallocSharedMemory trivial)
            split
            · exact failed third _ ((extended.trans extended').trans extended'')
            · refine ⟨(extended.trans extended').trans extended'', ?_⟩
              rintro _ ⟨⟩
              rw [sameSize]
              exact ⟨⟨known.addr, known.least, known.mapped⟩, rfl, rfl⟩
      · exact failed later this extended

/-- What `SharedMemory$attach` comes to: it sets no size. -/
def MadeAttached (before later : Phase) (made : Option SharedMemory) : Prop :=
  Extends before later ∧ ∀ this, made = some this →
    this.size.assigned = false ∧ ∀ id, this.addr = .mapped id →
      before.mapped id + 1 ≤ later.mapped id

theorem conforms_attach (key : Key) :
    (SharedMemory.attach paths key).Conforms protocol phase
      (MadeAttached phase) := by
  rw [← bind_pure (SharedMemory.attach paths key), SharedMemory.attach_bind]
  refine ⟨trivial, ?_⟩
  intro (found : Except Errno IpcId) _
  cases found with
  | error errno =>
      refine ⟨extends_shmget, ?_⟩
      rintro _ ⟨⟩
  | ok id =>
      rcases next_shmget phase (paths.shmKey key) NOP false true id with
        ⟨bound, told, enough, _⟩
      refine ⟨trivial, ?_⟩
      intro (block : Option SharedMemory) fresh
      cases block with
      | none => exact ⟨trivial, fun impossible => impossible.elim⟩
      | some block =>
          have unset : block.size.assigned = false := fresh block rfl
          let found := protocol.next phase
            (.shmget (paths.shmKey key) NOP false true)
            (.ok id : Except Errno IpcId)
          have told : (protocol.next found .mallocSharedMemory
              (some block : Option SharedMemory)).least id = some bound :=
            told
          apply (conforms_shmat { block with key } told enough).bind
          rintro later addr ⟨mapped, opened⟩
          have extended : Extends phase later :=
            extends_shmget.trans
              ((extends_quiet .mallocSharedMemory trivial).trans mapped)
          split
          · rename_i attached
            apply (conforms_quiet (Semaphore.within_attach
              (opensSet_finds quiet_opensSet) (key + 128))).bind
            intro last shsem extended'
            refine ⟨extended.trans extended', ?_⟩
            rintro _ ⟨⟩
            refine ⟨unset, ?_⟩
            intro other isMapped
            have there := ((opened attached).extends extended').after
              (extends_shmget.trans
                (extends_quiet .mallocSharedMemory trivial))
            cases there.addr.symm.trans isMapped
            exact there.mapped
          · rename_i unmapped
            refine ⟨extended, ?_⟩
            rintro _ ⟨⟩
            refine ⟨unset, ?_⟩
            intro other isMapped
            have failed : addr = .failed := not_not.mp unmapped
            cases failed.symm.trans isMapped

/-- What the deletion of a handle comes to: at most its mapping goes. -/
structure Freed (before later : Phase) (this : SharedMemory) : Prop where
  least : ∀ id bound, before.least id = some bound →
    ∃ larger, later.least id = some larger ∧ bound ≤ larger
  mapped : ∀ id, before.mapped id ≤
    later.mapped id + if this.addr = .mapped id then 1 else 0

theorem Extends.freed {before later : Phase} (this : SharedMemory)
    (extended : Extends before later) : Freed before later this where
  least := extended.least
  mapped id := Nat.le_trans (extended.mapped id) (Nat.le_add_right _ _)

theorem freed_shmdt (this : SharedMemory) (outcome : Except Errno Unit) :
    Freed phase (protocol.next phase (.shmdt this.addr) outcome) this := by
  cases isAddr : this.addr with
  | null =>
      exact ⟨(Extends.refl phase).least,
        ((Extends.refl phase).freed this).mapped⟩
  | failed =>
      exact ⟨(Extends.refl phase).least,
        ((Extends.refl phase).freed this).mapped⟩
  | mapped id =>
      constructor
      · exact (Extends.refl phase).least
      · intro other
        rw [isAddr]
        by_cases here : other = id
        · subst here
          have counted : (protocol.next phase (.shmdt (.mapped other))
              outcome).mapped other = phase.mapped other - 1 :=
            Function.update_self ..
          rw [counted, if_pos rfl]
          omega
        · have counted : (protocol.next phase (.shmdt (.mapped id))
              outcome).mapped other = phase.mapped other :=
            Function.update_of_ne here ..
          rw [counted]
          exact Nat.le_add_right _ _

theorem Freed.extends {before later last : Phase} {this : SharedMemory}
    (freed : Freed before later this) (extended : Extends later last) :
    Freed before last this where
  least id bound isBound := by
    rcases freed.least id bound isBound with ⟨larger, isLarger, le⟩
    rcases extended.least id larger isLarger with ⟨largest, isLargest, le'⟩
    exact ⟨largest, isLargest, Nat.le_trans le le'⟩
  mapped id :=
    Nat.le_trans (freed.mapped id)
      (Nat.add_le_add_right (extended.mapped id) _)

theorem Freed.after {first before later : Phase} {this : SharedMemory}
    (extended : Extends first before) (freed : Freed before later this) :
    Freed first later this where
  least id bound isBound := by
    rcases extended.least id bound isBound with ⟨larger, isLarger, le⟩
    rcases freed.least id larger isLarger with ⟨largest, isLargest, le'⟩
    exact ⟨largest, isLargest, Nat.le_trans le le'⟩
  mapped id := Nat.le_trans (extended.mapped id) (freed.mapped id)

theorem conforms_delete (this : SharedMemory) (remove_shm_too : Bool) :
    (SharedMemory.delete this remove_shm_too).Conforms protocol phase
      fun later _ => Freed phase later this := by
  cases remove_shm_too with
  | false =>
      apply (conforms_quiet (SharedMemory.within_free this)).mono
      intro later _ extended
      exact extended.freed this
  | true =>
      have clear : (memset this.addr this.size.value).Within Quiet := by
        refine ⟨trivial, ?_⟩
        intro (done : Option Unit)
        cases done with
        | none => exact within_die _ trivial
        | some success => trivial
      have unmap : ∀ before : Phase, Extends phase before →
          (do
            memset this.addr this.size.value
            munlockall
            shmdt this.addr
            shmctlRmid this.id).Conforms protocol before
              fun later _ => Freed phase later this := by
        intro before extended
        apply (conforms_quiet clear).bind
        intro third _ extended'
        refine ⟨trivial, fun (_ : Except Errno Unit) _ => ?_⟩
        refine ⟨trivial, fun (outcome : Except Errno Unit) _ => ?_⟩
        refine ⟨trivial, fun (_ : Except Errno Unit) _ => ?_⟩
        apply Freed.extends _ (extends_quiet (.shmctlRmid this.id) trivial)
        apply Freed.after _ (freed_shmdt this outcome)
        exact (extended.trans extended').trans
          (extends_quiet .munlockall trivial)
      unfold SharedMemory.delete
      rw [if_pos rfl]
      cases this.shsem with
      | none => exact unmap phase (Extends.refl phase)
      | some shsem =>
          refine ⟨trivial, fun (_ : Except Errno Unit) _ => ?_⟩
          exact unmap _ (extends_quiet (.semctlRmid shsem.id) trivial)

/-! ## What a process holds -/

/-- The mappings behind the handles are counted, and the size of a handle is
known to be within its segment exactly if the handle is a new one. -/
structure Holds (phase : Phase) (held : List Received) : Prop where
  new : ∀ received ∈ held, received.fromNew = true →
    received.this.addr = .mapped received.this.id ∧
      received.this.shsem.isSome = true ∧
      received.this.size.assigned = true ∧
      ∃ bound, phase.least received.this.id = some bound ∧
        received.this.size.value ≤ bound
  attached : ∀ received ∈ held, received.fromNew = false →
    received.this.size.assigned = false
  mapped : ∀ id, held.countP (·.this.addr = .mapped id) ≤ phase.mapped id

theorem holds_nil (phase : Phase) : Holds phase [] where
  new _ impossible := by cases impossible
  attached _ impossible := by cases impossible
  mapped _ := Nat.zero_le _

theorem Holds.extends {later : Phase} {held : List Received}
    (holds : Holds phase held) (extended : Extends phase later) :
    Holds later held where
  new received member fromNew := by
    rcases holds.new received member fromNew with
      ⟨addr, shsem, assigned, bound, isBound, fits⟩
    rcases extended.least _ bound isBound with ⟨larger, isLarger, le⟩
    exact ⟨addr, shsem, assigned, larger, isLarger, Nat.le_trans fits le⟩
  attached := holds.attached
  mapped id := Nat.le_trans (holds.mapped id) (extended.mapped id)

/-- One handle more, with its mapping. -/
theorem Holds.cons {later : Phase} {held : List Received}
    {received : Received} (holds : Holds phase held)
    (extended : Extends phase later)
    (new : received.fromNew = true →
      Opened phase later received.this.size.value received.this ∧
        received.this.shsem.isSome = true ∧
        received.this.size.assigned = true)
    (attached : received.fromNew = false →
      received.this.size.assigned = false)
    (mapped : ∀ id, received.this.addr = .mapped id →
      phase.mapped id + 1 ≤ later.mapped id) :
    Holds later (received :: held) where
  new other member fromNew := by
    rcases List.mem_cons.mp member with rfl | earlier
    · rcases new fromNew with ⟨opened, shsem, assigned⟩
      exact ⟨opened.addr, shsem, assigned, opened.least⟩
    · exact (holds.extends extended).new other earlier fromNew
  attached other member notNew := by
    rcases List.mem_cons.mp member with rfl | earlier
    · exact attached notNew
    · exact holds.attached other earlier notNew
  mapped id := by
    rw [List.countP_cons]
    have before := holds.mapped id
    by_cases here : received.this.addr = .mapped id
    · have more := mapped id here
      simp only [here, decide_true, if_true]
      omega
    · have kept := extended.mapped id
      simp only [here, decide_false, Bool.false_eq_true, if_false]
      omega

/-- One handle less, and at most its mapping. -/
theorem Holds.eraseIdx {later : Phase} {held : List Received} {index : Nat}
    {received : Received} (holds : Holds phase held)
    (isHeld : held[index]? = some received)
    (freed : Freed phase later received.this) :
    Holds later (held.eraseIdx index) where
  new other member fromNew := by
    have earlier := List.mem_of_mem_eraseIdx member
    rcases holds.new other earlier fromNew with
      ⟨addr, shsem, assigned, bound, isBound, fits⟩
    rcases freed.least _ bound isBound with ⟨larger, isLarger, le⟩
    exact ⟨addr, shsem, assigned, larger, isLarger, Nat.le_trans fits le⟩
  attached other member :=
    holds.attached other (List.mem_of_mem_eraseIdx member)
  mapped id := by
    rcases List.getElem?_eq_some_iff.mp isHeld with ⟨inside, isReceived⟩
    have counted := (List.getElem_cons_eraseIdx_perm inside).countP_eq
      (fun other => decide (other.this.addr = .mapped id))
    rw [isReceived, List.countP_cons] at counted
    have before := holds.mapped id
    have after := freed.mapped id
    by_cases here : received.this.addr = .mapped id
    · simp only [here, decide_true, if_true] at counted after
      omega
    · simp only [here, decide_false, Bool.false_eq_true, if_false]
        at counted after
      omega

theorem conforms_carryOut {held : List Received} (holds : Holds phase held)
    (request : Request) :
    (carryOut paths held request).Conforms protocol phase Holds := by
  cases request with
  | new key size attach =>
      apply (conforms_new key size attach).bind
      rintro later made ⟨extended, isNew⟩
      cases made with
      | none => exact holds.extends extended
      | some this =>
          have new := isNew this rfl
          apply holds.cons extended
          · intro _
            exact new
          · intro impossible
            cases impossible
          · intro id isMapped
            cases new.1.addr.symm.trans isMapped
            exact new.1.mapped
  | attach key =>
      apply (conforms_attach key).bind
      rintro later made ⟨extended, isAttached⟩
      cases made with
      | none => exact holds.extends extended
      | some this =>
          have attached := isAttached this rfl
          apply holds.cons extended
          · intro impossible
            cases impossible
          · intro _
            exact attached.1
          · exact attached.2
  | delete index remove_shm_too =>
      simp only [carryOut]
      cases isHeld : held[index]? with
      | none => exact holds
      | some received =>
          apply (conforms_delete received.this remove_shm_too).bind
          intro later _ freed
          exact holds.eraseIdx isHeld freed

theorem conforms_client {held : List Received} (holds : Holds phase held)
    (requests : List Request) :
    (client paths requests held).Conforms protocol phase Holds := by
  induction requests generalizing held phase with
  | nil => exact holds
  | cons request rest ih =>
      apply (conforms_carryOut holds request).bind
      intro later held' holds'
      exact ih holds'

end Functions

/-! ## The invariant -/

/-- What every process knows is true, its last call is that of the log, and
what is left of its program knows what it holds in the end. -/
structure Agrees (pool : Pool signature Pid Store (List Received))
    (phases : Pid → Phase) : Prop where
  sees : ∀ process, Sees process pool.state (phases process)
  last : ∀ process, (phases process).last = lastCall process pool.log
  conforms : ∀ process program, pool.procs process = some program →
    program.Conforms protocol (phases process) Holds

theorem after_last (phase : Phase) (call : Call) (answer : call.Answer) :
    (phase.after call answer).last = some call := by
  cases call with
  | shmdt addr => cases addr <;> rfl
  | _ => rfl

/-- No member of a fresh block has been set. -/
theorem exec_malloc {admits : Choice → Prop} {process : Pid}
    {store after : Store} {block : SharedMemory}
    (exec : (kernel admits).exec process .mallocSharedMemory store
      (some block : Option SharedMemory) after) :
    block.size.assigned = false := by
  rcases exec_cases exec with ⟨choice, _, ⟨errno, refused, _⟩ | granted⟩
  · cases refused
  · have served : (if choice.memory then
        some { choice.block with
          size := { choice.block.size with assigned := false } }
        else none) = some block := congrArg Prod.fst (Option.some.inj granted)
    split at served
    · cases served
      rfl
    · cases served

/-- The answers of the kernel are those that a process relies on. -/
theorem exec_relied {admits : Choice → Prop} {process : Pid} {call : Call}
    {answer : call.Answer} {store after : Store} (phase : Phase)
    (exec : (kernel admits).exec process call store answer after) :
    protocol.answer phase call answer := by
  cases call with
  | shmat id =>
      rintro addr rfl
      exact exec_shmat exec
  | mallocSharedMemory =>
      rintro block rfl
      exact exec_malloc exec
  | _ => trivial

theorem Agrees.call {pool : Pool signature Pid Store (List Received)}
    {phases : Pid → Phase} {process : Pid} {call : Call}
    {next : call.Answer → Prog (List Received)} {answer : call.Answer}
    {state : Store} (agrees : Agrees pool phases)
    (running : pool.procs process = some (.issue call next))
    (exec : refusing.exec process call pool.state answer state)
    (roomy : Roomy pool (.call process ⟨call, answer⟩)) :
    Agrees
      (pool.record (.call process ⟨call, answer⟩) state
        (Function.update pool.procs process (some (next answer))))
      (Function.update phases process
        (protocol.next (phases process) call answer)) := by
  have conforms := agrees.conforms process _ running
  have allowed : (phases process).Allows call := conforms.1
  have fits : Fits pool.state (phases process).last ⟨call, answer⟩ := by
    rw [agrees.last process]
    exact roomy
  constructor
  · intro other
    by_cases same : other = process
    · subst same
      rw [Function.update_self]
      exact (agrees.sees other).called allowed fits exec
    · rw [Function.update_of_ne same]
      have words : call.writesBytes = false := by
        cases call <;> first | rfl | exact allowed.elim
      exact (agrees.sees other).exec words (fun _ _ => same) exec
  · intro other
    by_cases same : other = process
    · subst same
      rw [Function.update_self]
      simp [lastCall, protocol, after_last]
    · rw [Function.update_of_ne same]
      simpa [lastCall, Ne.symm same] using agrees.last other
  · intro other program running'
    by_cases same : other = process
    · subst same
      rw [Pool.record_procs, Function.update_self] at running'
      cases running'
      rw [Function.update_self]
      exact conforms.2 answer (exec_relied _ exec)
    · rw [Pool.record_procs, Function.update_of_ne same] at running'
      rw [Function.update_of_ne same]
      exact agrees.conforms other program running'

theorem Agrees.leave {pool : Pool signature Pid Store (List Received)}
    {phases : Pid → Phase} {process : Pid} {label : Label signature Pid}
    (agrees : Agrees pool phases)
    (ends : label = .leave process ∨ label = .kill process) :
    Agrees
      (pool.record label (pool.state.leave process)
        (Function.update pool.procs process none))
      (Function.update phases process
        { Phase.start with last := lastCall process pool.log }) := by
  have unlogged : ∀ other state, lastCall other
      (⟨label, state⟩ :: pool.log) = lastCall other pool.log := by
    intro other state
    rcases ends with rfl | rfl <;> rfl
  constructor
  · intro other
    by_cases same : other = process
    · subst same
      rw [Function.update_self]
      exact sees_start _ _ _
    · rw [Function.update_of_ne same]
      exact (agrees.sees other).leave same
  · intro other
    rw [Pool.record_log, unlogged]
    by_cases same : other = process
    · subst same
      rw [Function.update_self]
    · rw [Function.update_of_ne same]
      exact agrees.last other
  · intro other program running
    by_cases same : other = process
    · subst same
      simp at running
    · rw [Pool.record_procs, Function.update_of_ne same] at running
      rw [Function.update_of_ne same]
      exact agrees.conforms other program running

theorem preserves :
    Pool.Preserves refusing Roomy protocol Agrees where
  call _ _ _ _ _ _ _ agrees running _ exec roomy :=
    ⟨exec_relied _ exec, agrees.call running exec roomy⟩
  fork := by
    intro pool phases parent child call next here there _ _ _ allowed forks
    cases call with
    | fork => exact allowed.elim
    | _ => cases forks
  leave _ _ _ _ agrees ends _ := ⟨_, agrees.leave ends⟩

theorem initially (paths : KeyPaths) (requests : Pid → Option (List Request))
    (store : Store) :
    Pool.Simulated protocol Agrees (clients paths requests store)
      fun _ => .start := by
  have conforms : ∀ process program,
      (clients paths requests store).procs process = some program →
        program.Conforms protocol .start Holds := by
    intro process program running
    rcases Option.map_eq_some_iff.mp running with ⟨list, _, rfl⟩
    exact conforms_client (holds_nil _) list
  constructor
  · constructor
    · intro process
      exact sees_start process store none
    · intro process
      rfl
    · exact conforms
  · intro process program running
    exact (conforms process program running).mono fun _ _ _ => trivial

/-! ## The result -/

/-- A handle that is held is backed by a mapping of its own. -/
theorem mapped_of_held {held : List Received} {received : Received}
    {phase : Phase} (holds : Holds phase held) (member : received ∈ held)
    {id : IpcId} (isMapped : received.this.addr = .mapped id) :
    0 < phase.mapped id := by
  apply Nat.lt_of_lt_of_le _ (holds.mapped id)
  apply List.countP_pos_iff.mpr
  exact ⟨received, member, by simpa using isMapped⟩

/-- **Handles.**  In any interleaving of any calls, a handle is sound for as
long as a process holds it exactly if it came from `SharedMemory$new`, and its
deletion then clears bytes of its own segment only. -/
theorem sound_of_roomy (paths : KeyPaths)
    (requests : Pid → Option (List Request)) (store : Store)
    {pool : Pool signature Pid Store (List Received)}
    (reach : Pool.Reach refusing Roomy (clients paths requests store) pool)
    {process : Pid} {held : List Received}
    (holding : pool.procs process = some (.done held))
    {received : Received} (member : received ∈ held) :
    (Sound process pool.state received.this ↔ received.fromNew = true) ∧
      (received.fromNew = true →
        ClearsOwn process pool.state received.this) := by
  rcases Pool.Reach.simulated preserves (initially paths requests store) reach
    with ⟨phases, agrees, _⟩
  have holds : Holds (phases process) held :=
    agrees.conforms process _ holding
  have sees := agrees.sees process
  have sound : received.fromNew = true →
      Sound process pool.state received.this := by
    intro fromNew
    rcases holds.new received member fromNew with
      ⟨addr, shsem, assigned, bound, isBound, fits⟩
    have mapped := mapped_of_held holds member addr
    have counted := sees.mapped received.this.id
    refine ⟨addr, shsem, assigned, ?_⟩
    cases found : pool.state.shms received.this.id with
    | none =>
        rw [found] at counted
        exact absurd (Nat.lt_of_lt_of_le mapped counted) (Nat.lt_irrefl 0)
    | some segment =>
        rw [found] at counted
        have attached : process ∈ segment.attached :=
          List.count_pos_iff.mp (Nat.lt_of_lt_of_le mapped counted)
        have large := sees.least _ bound segment isBound found
        exact ⟨segment, rfl, attached, Nat.le_trans fits large⟩
  constructor
  · constructor
    · intro isSound
      cases isNew : received.fromNew with
      | true => rfl
      | false =>
          have unset := holds.attached received member isNew
          rw [isSound.assigned] at unset
          cases unset
    · exact sound
  · intro fromNew
    exact (sound fromNew).clearsOwn

/-! ### Computed runs -/

/-- One process makes a segment of 64 bytes; another one asks for a size, and
takes what is there. -/
def making (size : Nat) : Pid → Option (List Request)
  | 1 => some [.new 0 64 false]
  | 2 => some [.new 0 size true]
  | _ => none

theorem making_confined (size : Nat) (process : Pid)
    (outsider : process ∉ ([1, 2] : List Pid)) :
    (clients .devtmpfs (making size) (Store.empty 0)).procs process = none := by
  have unasked : making size process = none := by
    unfold making
    split
    · simp at outsider
    · simp at outsider
    · rfl
  simp [clients, unasked]

/-- The check of the condition on runs. -/
def isRoomy (pool : Pool signature Pid Store (List Received)) :
    Label signature Pid → Bool
  | .call process ⟨.shmget name _ false _, (.ok id : Except Errno IpcId)⟩ =>
      asked (lastCall process pool.log) name ≤
        (pool.state.shms id).elim 0 (·.size)
  | _ => true

theorem isRoomy_sound (pool : Pool signature Pid Store (List Received))
    (label : Label signature Pid)
    (_ : ∀ process, process ∉ ([1, 2] : List Pid) → pool.procs process = none)
    (passed : isRoomy pool label = true) : Roomy pool label := by
  unfold isRoomy at passed
  split at passed
  · rename_i process name size excl id
    have enough : asked (lastCall process pool.log) name ≤
        (pool.state.shms id).elim 0 (·.size) := by
      simpa using passed
    exact enough
  · rename_i others
    unfold Roomy
    split
    · unfold Fits
      split
      · exact (others _ _ _ _ _ rfl).elim
      · trivial
    · trivial

/-- The first handle of a process. -/
def firstHeld (process : Pid)
    (pool : Pool signature Pid Store (List Received)) : Option Received :=
  match pool.procs process with
  | some (.done (received :: _)) => some received
  | _ => none

theorem holding_of_firstHeld {process : Pid} {received : Received}
    {pool : Pool signature Pid Store (List Received)}
    (isFirst : firstHeld process pool = some received) :
    ∃ held, pool.procs process = some (.done held) ∧ received ∈ held := by
  unfold firstHeld at isFirst
  split at isFirst
  · rename_i first rest holding
    cases isFirst
    exact ⟨_, holding, by simp⟩
  · cases isFirst

/-- The size that the second process takes its segment to have, and the size
of the segment. -/
def sizesOf (pool : Pool signature Pid Store (List Received)) :
    Option (Nat × Nat) :=
  (firstHeld 2 pool).map fun received =>
    (received.this.size.value,
      (pool.state.shms received.this.id).elim 0 (·.size))

/-- A handle on a segment that was there. -/
theorem sound_of_roomy_attached :
    ∃ (pool : Pool signature Pid Store (List Received))
      (held : List Received) (received : Received),
      pool.procs 2 = some (.done held) ∧ received ∈ held ∧
        ((Sound 2 pool.state received.this ↔ received.fromNew = true) ∧
          (received.fromNew = true →
            ClearsOwn 2 pool.state received.this)) := by
  have computed : (follow isRoomy (turns [(1, 7), (2, 8)])
      (clients .devtmpfs (making 32) (Store.empty 0))).any
        (fun pool => (firstHeld 2 pool).isSome) = true := by
    decide
  have reached : ∃ pool,
      Pool.Reach refusing Roomy
          (clients .devtmpfs (making 32) (Store.empty 0)) pool ∧
        (firstHeld 2 pool).isSome = true :=
    follow_reaches isRoomy_sound (making_confined 32) turns_any computed
  rcases reached with ⟨pool, reach, final⟩
  rcases Option.isSome_iff_exists.mp final with ⟨received, isFirst⟩
  rcases holding_of_firstHeld isFirst with ⟨held, holding, member⟩
  exact ⟨pool, held, received, holding, member,
    sound_of_roomy .devtmpfs (making 32) (Store.empty 0) reach holding member⟩

/-- A handle on a segment that is smaller than what was asked for. -/
theorem unsound_new :
    ¬ ∀ (requests : Pid → Option (List Request)) (store : Store)
      (pool : Pool signature Pid Store (List Received)) (process : Pid)
      (held : List Received) (received : Received),
      Pool.Reach refusing Pool.Unrestricted
        (clients .devtmpfs requests store) pool →
      pool.procs process = some (.done held) → received ∈ held →
        Sound process pool.state received.this := by
  intro claimed
  have computed : (follow (fun _ _ => true) (turns [(1, 7), (2, 8)])
      (clients .devtmpfs (making 8192) (Store.empty 0))).any
        (fun pool => sizesOf pool == some (8192, 64)) = true := by
    decide
  have reached : ∃ pool,
      Pool.Reach refusing Pool.Unrestricted
          (clients .devtmpfs (making 8192) (Store.empty 0)) pool ∧
        (sizesOf pool == some (8192, 64)) = true :=
    follow_reaches (fun _ _ _ _ => trivial) (making_confined 8192) turns_any
      computed
  rcases reached with ⟨pool, reach, final⟩
  rw [beq_iff_eq] at final
  rcases Option.map_eq_some_iff.mp final with ⟨received, isFirst, sizes⟩
  rcases holding_of_firstHeld isFirst with ⟨held, holding, member⟩
  have sound := claimed (making 8192) (Store.empty 0) pool 2 held received
    reach holding member
  rcases sound.fits with ⟨segment, found, _, fits⟩
  rw [found] at sizes
  have same := Prod.mk.inj sizes
  have small : segment.size = 64 := same.2
  omega

end Atomicles.SegmentHandles
