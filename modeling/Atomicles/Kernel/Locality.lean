import Atomicles.Kernel.Frame

/-!
# Calls under some of the names

Two stores are put together name by name.  A call on objects under some of the
names does to the whole what it does to the part under these names, and gives
the same answer; so it neither sees nor touches anything under other names.
-/

namespace Atomicles

open Interaction

/-- Names of semaphore sets and names of segments. -/
structure Footprint where
  sem : Key → Bool
  shm : Key → Bool

/-- An address is none of a mapping of a segment under another name. -/
def Addr.Under (names : Footprint) (addr : Addr) : Prop :=
  ∀ id, addr = .mapped id → names.shm id.key = true

/-- The call concerns objects under the names only. -/
def Call.Under (names : Footprint) : Call → Prop
  | .semget name .. => names.sem name = true
  | .semctlSetall id _ => names.sem id.key = true
  | .semctlGetval id _ => names.sem id.key = true
  | .semctlStat id => names.sem id.key = true
  | .semctlRmid id => names.sem id.key = true
  | .semop id .. => names.sem id.key = true
  | .shmget name .. => names.shm name = true
  | .shmat id => names.shm id.key = true
  | .shmdt addr => addr.Under names
  | .shmctlRmid id => names.shm id.key = true
  | .memset addr _ => addr.Under names
  | .load addr _ => addr.Under names
  | .store addr .. => addr.Under names
  | .vsnprintf addr .. => addr.Under names
  | .strncpy addr .. => addr.Under names
  | .interruptible call => call.Under names
  | _ => True

/-- The objects of `inner` under the names and those of `outer` under all
others, at the time of `inner`. -/
def Store.splice (names : Footprint) (inner outer : Store) : Store where
  sems id := if names.sem id.key then inner.sems id else outer.sems id
  semGen name := if names.sem name then inner.semGen name else outer.semGen name
  shms id := if names.shm id.key then inner.shms id else outer.shms id
  shmGen name := if names.shm name then inner.shmGen name else outer.shmGen name
  now := inner.now

namespace Store

variable {names : Footprint} {inner outer store : Store} {process : Pid}
variable {id : IpcId} {name : Key}

@[simp]
theorem splice_self : store.splice names store = store := by
  simp [splice]

@[simp]
theorem splice_splice {last : Store} :
    inner.splice names (last.splice names outer) =
      inner.splice names outer := by
  unfold splice
  congr 1 <;> funext _ <;> split <;> simp [*]

@[simp]
theorem splice_advance (seconds : Nat) :
    (inner.splice names outer).advance seconds =
      (inner.advance seconds).splice names outer :=
  rfl

theorem splice_sems (under : names.sem id.key = true) :
    (inner.splice names outer).sems id = inner.sems id :=
  if_pos under

theorem splice_semGen (under : names.sem name = true) :
    (inner.splice names outer).semGen name = inner.semGen name :=
  if_pos under

theorem splice_shms (under : names.shm id.key = true) :
    (inner.splice names outer).shms id = inner.shms id :=
  if_pos under

theorem splice_shmGen (under : names.shm name = true) :
    (inner.splice names outer).shmGen name = inner.shmGen name :=
  if_pos under

/-! ## Sets -/

theorem splice_setSem (under : names.sem id.key = true)
    (set : Option SemSet) :
    (inner.splice names outer).setSem id set =
      (inner.setSem id set).splice names outer := by
  unfold setSem splice
  congr 1
  funext other
  by_cases same : other = id
  · subst same
    simp [under]
  · simp [Function.update_of_ne same]

theorem splice_findSem (under : names.sem name = true) :
    (inner.splice names outer).findSem name = inner.findSem name := by
  unfold findSem
  rw [splice_semGen under, splice_sems under]

theorem splice_semget {nsems : Nat} {creat excl : Bool}
    (under : names.sem name = true) :
    (inner.splice names outer).semget name nsems creat excl =
      ((inner.semget name nsems creat excl).1,
        (inner.semget name nsems creat excl).2.splice names outer) := by
  unfold semget
  rw [splice_findSem under]
  cases found : inner.findSem name with
  | some id =>
      have named : names.sem id.key = true := by
        rw [(findSem_eq_some_iff.mp found).1]
        exact under
      dsimp only
      rw [splice_sems named]
      split
      · rfl
      · split <;> rfl
  | none =>
      dsimp only
      split
      · rfl
      · split
        · rfl
        · simp only [nextSem, splice_semGen under, Prod.mk.injEq, true_and]
          unfold splice
          congr 1
          · funext other
            by_cases same : other = ⟨name, inner.semGen name + 1⟩
            · subst same
              simp [under]
            · simp [Function.update_of_ne same]
          · funext other
            by_cases same : other = name
            · subst same
              simp [under]
            · simp [Function.update_of_ne same]

/-- A set that `semget` gives has the name asked for. -/
theorem semget_key {nsems : Nat} {creat excl : Bool}
    (gives : (store.semget name nsems creat excl).1 = .ok id) :
    id.key = name := by
  unfold semget at gives
  split at gives
  · rename_i found isFound
    split at gives
    · cases gives
    · split at gives
      · cases gives
      · cases gives
        exact (findSem_eq_some_iff.mp isFound).1
  · split at gives
    · cases gives
    · split at gives
      · cases gives
      · cases gives
        rfl

theorem splice_semctlSetall {array : List UShort}
    (under : names.sem id.key = true) :
    (inner.splice names outer).semctlSetall id array =
      ((inner.semctlSetall id array).1,
        (inner.semctlSetall id array).2.splice names outer) := by
  unfold semctlSetall
  rw [splice_sems under]
  cases inner.sems id with
  | none => rfl
  | some set =>
      dsimp only
      split
      · rfl
      · rw [splice_setSem under]
        rfl

theorem splice_semctlGetval {semnum : Nat}
    (under : names.sem id.key = true) :
    (inner.splice names outer).semctlGetval id semnum =
      inner.semctlGetval id semnum := by
  unfold semctlGetval
  rw [splice_sems under]

theorem splice_semctlRmid (under : names.sem id.key = true) :
    (inner.splice names outer).semctlRmid id =
      ((inner.semctlRmid id).1,
        (inner.semctlRmid id).2.splice names outer) := by
  unfold semctlRmid
  rw [splice_sems under]
  cases inner.sems id with
  | none => rfl
  | some set =>
      dsimp only
      rw [splice_setSem under]

theorem splice_semop {semNum : Nat} {semOp : Int}
    {undo nowait underWay : Bool} (under : names.sem id.key = true) :
    (inner.splice names outer).semop process id semNum semOp undo nowait
        underWay =
      (inner.semop process id semNum semOp undo nowait underWay).map
        fun served => (served.1, served.2.splice names outer) := by
  unfold semop
  rw [splice_sems under]
  cases inner.sems id with
  | none => rfl
  | some set =>
      dsimp only
      cases set.semvals[semNum]? with
      | none => rfl
      | some semval =>
          dsimp only
          split
          · split <;> rfl
          · split
            · rfl
            · split
              · rfl
              · rw [splice_setSem under]
                rfl

/-! ## Segments -/

theorem splice_setShm (under : names.shm id.key = true)
    (segment : Option Segment) :
    (inner.splice names outer).setShm id segment =
      (inner.setShm id segment).splice names outer := by
  unfold setShm splice
  congr 1
  funext other
  by_cases same : other = id
  · subst same
    simp [under]
  · simp [Function.update_of_ne same]

theorem splice_findShm (under : names.shm name = true) :
    (inner.splice names outer).findShm name = inner.findShm name := by
  unfold findShm
  rw [splice_shmGen under, splice_shms under]

theorem splice_shmget {size : Nat} {creat excl : Bool}
    (under : names.shm name = true) :
    (inner.splice names outer).shmget name size creat excl =
      ((inner.shmget name size creat excl).1,
        (inner.shmget name size creat excl).2.splice names outer) := by
  unfold shmget
  rw [splice_findShm under]
  cases found : inner.findShm name with
  | some id =>
      have named : names.shm id.key = true := by
        rw [(findShm_eq_some_iff.mp found).1]
        exact under
      dsimp only
      rw [splice_shms named]
      split
      · rfl
      · split <;> rfl
  | none =>
      dsimp only
      split
      · rfl
      · split
        · rfl
        · simp only [nextShm, splice_shmGen under, Prod.mk.injEq, true_and]
          unfold splice
          congr 1
          · funext other
            by_cases same : other = ⟨name, inner.shmGen name + 1⟩
            · subst same
              simp [under]
            · simp [Function.update_of_ne same]
          · funext other
            by_cases same : other = name
            · subst same
              simp [under]
            · simp [Function.update_of_ne same]

theorem splice_shmat (under : names.shm id.key = true) :
    (inner.splice names outer).shmat process id =
      ((inner.shmat process id).1,
        (inner.shmat process id).2.splice names outer) := by
  unfold shmat
  rw [splice_shms under]
  cases inner.shms id with
  | none => rfl
  | some segment =>
      dsimp only
      rw [splice_setShm under]

theorem splice_shmctlRmid (under : names.shm id.key = true) :
    (inner.splice names outer).shmctlRmid id =
      ((inner.shmctlRmid id).1,
        (inner.shmctlRmid id).2.splice names outer) := by
  unfold shmctlRmid
  rw [splice_shms under]
  cases inner.shms id with
  | none => rfl
  | some segment =>
      dsimp only
      rw [splice_setShm under]

section Mapped

variable {addr : Addr} (under : addr.Under names)
include under

theorem splice_mapping :
    (inner.splice names outer).mapping process addr =
      inner.mapping process addr := by
  cases addr with
  | mapped id =>
      unfold mapping
      dsimp only
      rw [splice_shms (under id rfl)]
  | _ => rfl

theorem splice_access {offset length : Nat} :
    (inner.splice names outer).access process addr offset length =
      inner.access process addr offset length := by
  unfold access
  rw [splice_mapping under]

omit under in
/-- The segment that is accessed is the one behind the address. -/
theorem mapping_id {segment : Segment}
    (mapped : store.mapping process addr = some (id, segment)) :
    addr = .mapped id := by
  unfold mapping at mapped
  split at mapped
  · split at mapped
    · split at mapped
      · cases mapped
        rfl
      · cases mapped
    · cases mapped
  · cases mapped

omit under in
theorem access_mapping {offset length : Nat} {found : IpcId × Segment}
    (accessed : store.access process addr offset length = some found) :
    store.mapping process addr = some found := by
  unfold access at accessed
  split at accessed
  · rename_i mapped
    split at accessed
    · cases accessed
      exact mapped
    · cases accessed
  · cases accessed

theorem splice_shmdt :
    (inner.splice names outer).shmdt process addr =
      ((inner.shmdt process addr).1,
        (inner.shmdt process addr).2.splice names outer) := by
  unfold shmdt
  rw [splice_mapping under]
  cases found : inner.mapping process addr with
  | none => rfl
  | some mapped =>
      dsimp only
      rw [splice_setShm (under _ (mapping_id found))]

theorem splice_storeWord {offset : Nat} {value : UInt} :
    (inner.splice names outer).storeWord process addr offset value =
      ((inner.storeWord process addr offset value).1,
        (inner.storeWord process addr offset value).2.splice names outer) := by
  unfold storeWord
  rw [splice_access under]
  cases found : inner.access process addr (4 * offset) 4 with
  | none => rfl
  | some mapped =>
      dsimp only
      rw [splice_setShm (under _ (mapping_id (access_mapping found)))]

theorem splice_memset {n : Nat} :
    (inner.splice names outer).memset process addr n =
      ((inner.memset process addr n).1,
        (inner.memset process addr n).2.splice names outer) := by
  unfold memset
  rw [splice_access under]
  split
  · rfl
  · cases found : inner.access process addr 0 n with
    | none => rfl
    | some mapped =>
        dsimp only
        rw [splice_setShm (under _ (mapping_id (access_mapping found)))]

theorem splice_vsnprintf {offset n : Nat} {text : List (BitVec 8)} :
    (inner.splice names outer).vsnprintf process addr offset n text =
      ((inner.vsnprintf process addr offset n text).1,
        (inner.vsnprintf process addr offset n text).2.splice names
          outer) := by
  unfold vsnprintf
  dsimp only
  rw [splice_access under]
  split
  · rfl
  · cases found : inner.access process addr offset
        (text.take (n - 1) ++ [0]).length with
    | none => rfl
    | some mapped =>
        dsimp only
        rw [splice_setShm (under _ (mapping_id (access_mapping found)))]

end Mapped

/-! ## Processes that end -/

theorem splice_leave :
    (inner.splice names outer).leave process =
      (inner.leave process).splice names (outer.leave process) := by
  unfold leave splice
  congr 1 <;> funext _ <;> dsimp only <;> split <;> rfl

end Store

/-- A call under the names does the same to the part as to the whole. -/
theorem grant_splice {names : Footprint} {inner outer : Store} {process : Pid}
    {choice : Choice} {call : Call} (under : call.Under names) :
    grant process choice (inner.splice names outer) call =
      (grant process choice inner call).map fun served =>
        (served.1, served.2.splice names outer) := by
  induction call with
  | semget name nsems creat excl =>
      exact congrArg some (Store.splice_semget under)
  | semctlSetall id array =>
      exact congrArg some (Store.splice_semctlSetall under)
  | semctlGetval id semnum =>
      simp only [grant, Store.splice_semctlGetval under, Option.map_some]
  | semctlStat id =>
      simp only [grant, Store.splice_sems under, Option.map_some]
  | semctlRmid id => exact congrArg some (Store.splice_semctlRmid under)
  | semop id semNum semOp undo nowait => exact Store.splice_semop under
  | shmget name size creat excl =>
      exact congrArg some (Store.splice_shmget under)
  | shmat id => exact congrArg some (Store.splice_shmat under)
  | shmdt addr => exact congrArg some (Store.splice_shmdt under)
  | shmctlRmid id => exact congrArg some (Store.splice_shmctlRmid under)
  | memset addr n => exact congrArg some (Store.splice_memset under)
  | load addr offset =>
      simp only [grant, Store.load, Store.splice_access under, Option.map_some]
  | store addr offset value =>
      exact congrArg some (Store.splice_storeWord under)
  | vsnprintf addr offset n text =>
      exact congrArg some (Store.splice_vsnprintf under)
  | strncpy addr offset n =>
      simp only [grant, Store.strncpy, Store.splice_access under,
        Option.map_some]
  | interruptible call ih =>
      simp only [grant]
      split
      · rfl
      · rw [ih under]
        cases grant process choice inner call <;> rfl
  | _ => rfl

theorem serve_splice {names : Footprint} {inner outer : Store} {process : Pid}
    {choice : Choice} {call : Call} (under : call.Under names) :
    serve process choice call (inner.splice names outer) =
      (serve process choice call inner).map fun served =>
        (served.1, served.2.splice names outer) := by
  unfold serve
  split
  · rfl
  · rw [Store.splice_advance]
    exact grant_splice under

/-- What `semget` gives, whatever is refused. -/
theorem exec_semget_key {admits : Choice → Prop} {process : Pid} {name : Key}
    {nsems : Nat} {creat excl : Bool} {store after : Store} {id : IpcId}
    (exec : (kernel admits).exec process (.semget name nsems creat excl) store
      (.ok id : Except Errno IpcId) after) : id.key = name := by
  rcases exec_cases exec with ⟨choice, _, ⟨errno, refused, _⟩ | granted⟩
  · cases refused
  · exact Store.semget_key (congrArg Prod.fst (Option.some.inj granted))

/-! ## What stays the same -/

/-- The objects under the names are the same, and so are the ones that a
lookup finds. -/
structure Same (names : Footprint) (before after : Store) : Prop where
  sems : ∀ id, names.sem id.key = true → after.sems id = before.sems id
  semGen : ∀ name, names.sem name = true →
    after.semGen name = before.semGen name
  shms : ∀ id, names.shm id.key = true → after.shms id = before.shms id
  shmGen : ∀ name, names.shm name = true →
    after.shmGen name = before.shmGen name

/-- No name is among both. -/
structure Footprint.Disjoint (first second : Footprint) : Prop where
  sem : ∀ name, second.sem name = true → first.sem name = false
  shm : ∀ name, second.shm name = true → first.shm name = false

/-- A process that has no adjustment pending and nothing mapped. -/
structure Store.New (process : Pid) (store : Store) : Prop where
  semadj : ∀ id set, store.sems id = some set →
    ∀ semnum, set.semadj process semnum = 0
  attached : ∀ id segment, store.shms id = some segment →
    process ∉ segment.attached

/-- What the kernel keeps of all objects: values in range, and no segment that
is marked for destruction and mapped by nobody. -/
structure Store.Regular (store : Store) : Prop where
  semvals : ∀ id set, store.sems id = some set →
    ∀ semval ∈ set.semvals, semval ≤ SEMVMX
  attached : ∀ id segment, store.shms id = some segment →
    segment.dest = true → segment.attached ≠ []

namespace Same

variable {names others : Footprint} {before middle after : Store} {process : Pid}

theorem refl (names : Footprint) (store : Store) : Same names store store :=
  ⟨fun _ _ => rfl, fun _ _ => rfl, fun _ _ => rfl, fun _ _ => rfl⟩

theorem trans (first : Same names before middle)
    (second : Same names middle after) : Same names before after where
  sems id under := (second.sems id under).trans (first.sems id under)
  semGen name under := (second.semGen name under).trans (first.semGen name under)
  shms id under := (second.shms id under).trans (first.shms id under)
  shmGen name under := (second.shmGen name under).trans (first.shmGen name under)

/-- What was put together has the same objects under the other names. -/
theorem splice (disjoint : others.Disjoint names) {inner : Store} :
    Same names before (inner.splice others before) where
  sems id under := by simp [Store.splice, disjoint.sem id.key under]
  semGen name under := by simp [Store.splice, disjoint.sem name under]
  shms id under := by simp [Store.splice, disjoint.shm id.key under]
  shmGen name under := by simp [Store.splice, disjoint.shm name under]

theorem symm (same : Same names before after) : Same names after before where
  sems id under := (same.sems id under).symm
  semGen name under := (same.semGen name under).symm
  shms id under := (same.shms id under).symm
  shmGen name under := (same.shmGen name under).symm

/-- Where the objects under the names are the same, only the time is taken
over. -/
theorem splice_eq (same : Same names before after) :
    before.splice names after = { after with now := before.now } := by
  unfold Store.splice
  congr 1
  · funext id
    by_cases under : names.sem id.key = true
    · rw [if_pos under, same.sems id under]
    · rw [if_neg under]
  · funext name
    by_cases under : names.sem name = true
    · rw [if_pos under, same.semGen name under]
    · rw [if_neg under]
  · funext id
    by_cases under : names.shm id.key = true
    · rw [if_pos under, same.shms id under]
    · rw [if_neg under]
  · funext name
    by_cases under : names.shm name = true
    · rw [if_pos under, same.shmGen name under]
    · rw [if_neg under]

/-- Mappings that a process does not have do not go with it. -/
theorem keepMapped {segment : Segment}
    (absent : process ∉ segment.attached)
    (used : segment.dest = true → segment.attached ≠ []) :
    Store.keepMapped segment (segment.attached.filter (· ≠ process)) =
      some segment := by
  have all : segment.attached.filter (· ≠ process) = segment.attached := by
    apply List.filter_eq_self.mpr
    intro other member
    have different : other ≠ process := by
      rintro rfl
      exact absent member
    simpa using different
  rw [all]
  unfold Store.keepMapped
  rw [if_neg]
  rintro ⟨marked, nobody⟩
  exact used marked nobody

/-- The mappings of a process that has none of the objects go. -/
theorem unmap (same : Same names before after) (regular : before.Regular)
    (new : before.New process) :
    Same names before
      { after with
        shms := fun id => (after.shms id).bind fun segment =>
          Store.keepMapped segment
            (segment.attached.filter (· ≠ process)) } where
  sems id under := same.sems id under
  semGen name under := same.semGen name under
  shms id under := by
    simp only [same.shms id under]
    cases found : before.shms id with
    | none => rfl
    | some segment =>
        exact keepMapped (new.attached id segment found)
          (regular.attached id segment found)
  shmGen name under := same.shmGen name under

/-- A process that has none of the objects is duplicated. -/
theorem clone {parent child : Pid} (same : Same names before after)
    (new : before.New parent) :
    Same names before (granting.clone parent child after) where
  sems id under := same.sems id under
  semGen name under := same.semGen name under
  shms id under := by
    simp only [granting, kernel, same.shms id under]
    cases found : before.shms id with
    | none => rfl
    | some segment =>
        have none := List.count_eq_zero.mpr (new.attached id segment found)
        simp [none]
  shmGen name under := same.shmGen name under

/-- The end of a process that has nothing of the objects. -/
theorem leave (same : Same names before after) (regular : before.Regular)
    (new : before.New process) : Same names before (after.leave process) where
  sems id under := by
    simp only [Store.leave, same.sems id under]
    cases found : before.sems id with
    | none => rfl
    | some set =>
        have semvals : (set.semvals.mapIdx fun index semval =>
            Store.adjusted semval (set.semadj process index)) =
              set.semvals := by
          apply List.ext_getElem (by simp)
          intro index small small'
          have bound : set.semvals[index] ≤ SEMVMX :=
            regular.semvals id set found _ (List.getElem_mem small')
          simp [Store.adjusted, new.semadj id set found, Nat.min_eq_right bound]
        have semadj : Function.update set.semadj process (fun _ => 0) =
            set.semadj := by
          rw [Function.update_eq_self_iff]
          funext semnum
          exact (new.semadj id set found semnum).symm
        simp only [Option.map_some, semvals, semadj]
  semGen name under := same.semGen name under
  shms id under := (same.unmap regular new).shms id under
  shmGen name under := same.shmGen name under

end Same

end Atomicles
