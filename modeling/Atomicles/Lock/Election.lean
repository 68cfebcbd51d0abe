import Atomicles.Interaction.Completion
import Atomicles.Kernel.Idle
import Atomicles.Lock.Refinement
import Atomicles.Source.Calls

/-!
# Concurrent `create`s elect one of them

The first `create` to ask for the set of a key gets it, and all others are
turned away.  From then on only the winner changes the store: the others ask
for the set and leave, which takes time and nothing else.  So the winner makes
its lock as if it ran alone.
-/

namespace Atomicles.Election

open Interaction Refinement

variable (paths : KeyPaths) (key : Key)

/-! ## A candidate -/

/-- The store shows the lock of a `create` begun at `now`, and no other. -/
def Placed (now : Time) (semaphores : UInt) (expire : Time)
    (store : Store) : Prop :=
  ∃ made, now ≤ made ∧ made ≤ store.now ∧
    Reflects paths (Registry.put (fun _ => none) key
      (.fresh semaphores.toNat
        (if expire = 0 then none else some (made + expire)))) store

/-- What is left of a `create` that is about to ask for the set. -/
def Asking (semaphores : UInt) (expire : Time) (rest : Prog Int) : Prop :=
  ∃ next : Option Unit → Prog Int,
    Lock.create paths key semaphores expire = .issue .mallocSemaphore next ∧
      rest = next (some ())

/-- The calls of `create`. -/
def Builds : Call → Prop
  | .semctlRmid _ => False
  | .memset .. => False
  | .vsnprintf .. => False
  | .fork => False
  | .interruptible _ => False
  | _ => True

variable {paths key}
variable {now : Time} {semaphores : UInt} {expire : Time} {rest : Prog Int}
variable {process : Pid} {store after : Store}

theorem Placed.advance (placed : Placed paths key now semaphores expire store)
    (seconds : Nat) :
    Placed paths key now semaphores expire (store.advance seconds) := by
  rcases placed with ⟨made, begun, ended, reflects⟩
  exact ⟨made, begun, Int.le_trans ended (Store.now_le_advance seconds),
    reflects.advance seconds⟩

theorem Placed.leave (placed : Placed paths key now semaphores expire store)
    (process : Pid) :
    Placed paths key now semaphores expire (store.leave process) := by
  rcases placed with ⟨made, begun, ended, reflects⟩
  exact ⟨made, begun, ended, reflects.leave process⟩

theorem create_malloc : ∃ next : Option Unit → Prog Int,
    Lock.create paths key semaphores expire = .issue .mallocSemaphore next :=
  ⟨_, rfl⟩

/-- Whoever is turned away returns -1. -/
theorem Asking.semget (asking : Asking paths key semaphores expire rest) :
    ∃ next : Except Errno IpcId → Prog Int,
      rest = .issue (.semget (paths.semKey key) 1 true true) next ∧
        ∀ errno, next (.error errno) = .done (-1) := by
  rcases asking with ⟨next, isCreate, rfl⟩
  rw [Lock.create, Semaphore.new_bind] at isCreate
  cases isCreate
  refine ⟨_, rfl, ?_⟩
  intro errno
  simp

theorem builds_within :
    Program.Within Builds (Lock.create paths key semaphores expire) := by
  apply Lock.within_create
  · intro call opens
    cases call <;> trivial
  · intro call accesses
    cases call <;> trivial

theorem builds_modest (call : Call) (builds : Builds call) :
    ¬ Oversized call := by
  cases call <;> first | exact builds.elim | exact not_false

/-- A candidate that runs alone on the empty store makes its lock. -/
theorem create_delivers (small : key.toNat < 128)
    (legal : Legal (.create semaphores expire)) {seconds : Nat} :
    Program.Delivers granting process (fun _ => False)
      (Lock.create paths key semaphores expire)
      ((Store.empty now).advance seconds) fun code after =>
        code = 0 ∧ Placed paths key now semaphores expire after := by
  have reflects : Reflects paths (fun _ => none)
      ((Store.empty now).advance seconds) := (reflects_empty now).advance seconds
  apply ((create_unlisted reflects small rfl legal).unexempt
    (builds_within.mono builds_modest)).mono
  rintro code after ⟨made, begun, ended, replies, reflects⟩
  refine ⟨congrArg Reply.code replies, made, ?_, ended, reflects⟩
  exact Int.le_trans (Store.now_le_advance seconds) begun

theorem exec_malloc :
    granting.exec process .mallocSemaphore store (some () : Option Unit)
      (store.advance 0) :=
  granting_exec_iff.mpr ⟨{}, rfl, rfl, rfl⟩

theorem malloc_answer {block : Option Unit}
    (exec : granting.exec process .mallocSemaphore store block after) :
    block = some () ∧ ∃ seconds, after = store.advance seconds := by
  rcases granting_exec_iff.mp exec with ⟨choice, memory, _, granted⟩
  simp only [grant, memory, if_true, Option.some.injEq,
    Prod.mk.injEq] at granted
  exact ⟨granted.1.symm, choice.tick, granted.2.symm⟩

/-- The first call of a candidate takes time and nothing else. -/
theorem create_begins {call : Call} {next : call.Answer → Prog Int}
    {answer : call.Answer}
    (begins : .issue call next = Lock.create paths key semaphores expire)
    (exec : granting.exec process call store answer after) :
    (∃ seconds, after = store.advance seconds) ∧
      Asking paths key semaphores expire (next answer) := by
  rcases (create_malloc : ∃ next, Lock.create paths key semaphores expire =
    .issue .mallocSemaphore next) with ⟨opened, isCreate⟩
  rw [isCreate] at begins
  cases begins
  rcases malloc_answer exec with ⟨isBlock, passed⟩
  have isBlock : answer = some () := isBlock
  subst isBlock
  exact ⟨passed, opened, isCreate, rfl⟩

/-- A candidate that is about to ask for the set makes its lock alone, too. -/
theorem Asking.delivers (asking : Asking paths key semaphores expire rest)
    (small : key.toNat < 128) (legal : Legal (.create semaphores expire))
    {seconds : Nat} :
    Program.Delivers granting process (fun _ => False) rest
      ((Store.empty now).advance seconds) fun code after =>
        code = 0 ∧ Placed paths key now semaphores expire after := by
  rcases asking with ⟨next, isCreate, rfl⟩
  have delivers : Program.Delivers granting process (fun _ => False)
      (Lock.create paths key semaphores expire)
      ((Store.empty now).advance seconds) fun code after =>
        code = 0 ∧ Placed paths key now semaphores expire after :=
    create_delivers small legal
  rw [isCreate] at delivers
  have behind := delivers.resolve_left not_false
  have asked := behind.2 (some ()) _ exec_malloc
  rwa [Store.advance_advance, Nat.add_zero] at asked

theorem Asking.builds (asking : Asking paths key semaphores expire rest) :
    Program.Within Builds rest := by
  rcases asking with ⟨next, isCreate, rfl⟩
  have within : Program.Within Builds
      (Lock.create paths key semaphores expire) := builds_within
  rw [isCreate] at within
  exact within.2 (some ())

/-! ## Before and after the election -/

variable (paths key)
variable (size : Pid → UInt) (expires : Pid → Time)

/-- What each process runs. -/
abbrev candidate (process : Pid) : Prog Int :=
  Lock.create paths key (size process) (expires process)

/-- The members are about to run, and nothing exists yet. -/
def start (now : Time) (members : Finset Pid) :
    Pool signature Pid Store Int :=
  { state := .empty now
    procs := fun process =>
      if process ∈ members then some (candidate paths key size expires process)
      else none
    log := [] }

/-- Nobody has asked for the set yet. -/
structure Open (now : Time) (members : Finset Pid)
    (pool : Pool signature Pid Store Int) : Prop where
  store : ∃ seconds, pool.state = (Store.empty now).advance seconds
  here : ∀ process, pool.procs process ≠ none ↔ process ∈ members
  rests : ∀ process rest, pool.procs process = some rest →
    rest = candidate paths key size expires process ∨
      Asking paths key (size process) (expires process) rest

/-- What the winner is bound to do. -/
def Wins (now : Time) (winner : Pid)
    (pool : Pool signature Pid Store Int) : Option (Prog Int) → Prop
  | some rest => Program.Within Builds rest ∧
      Program.Delivers granting winner (fun _ => False) rest pool.state
        fun code after => code = 0 ∧
          Placed paths key now (size winner) (expires winner) after
  | none => Program.Ends (candidate paths key size expires winner)
      (Pool.eventsOf winner pool.log) 0 ∧
        Placed paths key now (size winner) (expires winner) pool.state

/-- What every other process is bound to do. -/
def Loses (process : Pid) (pool : Pool signature Pid Store Int) :
    Option (Prog Int) → Prop
  | some rest => rest = candidate paths key size expires process ∨
      Asking paths key (size process) (expires process) rest ∨
      rest = .done (-1)
  | none => Program.Ends (candidate paths key size expires process)
      (Pool.eventsOf process pool.log) (-1)

/-- One of the processes has got the set. -/
structure Won (now : Time) (members : Finset Pid) (winner : Pid)
    (pool : Pool signature Pid Store Int) : Prop where
  taken : (pool.state.findSem (paths.semKey key)).isSome = true
  member : winner ∈ members
  here : ∀ process, process ∉ members → pool.procs process = none
  wins : Wins paths key size expires now winner pool (pool.procs winner)
  loses : ∀ process ∈ members, process ≠ winner →
    Loses paths key size expires process pool (pool.procs process)
  idle : ∀ process, process ≠ winner → Idle process pool.state

variable {paths key size expires}
variable {members : Finset Pid} {winner : Pid}
variable {pool : Pool signature Pid Store Int}

/-- What a winner delivers it delivers later as well. -/
theorem wins_later {program : Prog Int}
    (delivers : Program.Delivers granting winner (fun _ => False) program store
      fun code after => code = 0 ∧
        Placed paths key now semaphores expire after) (seconds : Nat) :
    Program.Delivers granting winner (fun _ => False) program
      (store.advance seconds) fun code after => code = 0 ∧
        Placed paths key now semaphores expire after := by
  refine delivers.later (fun state later => ∃ seconds,
    later = state.advance seconds) ?_ ?_ ?_ ⟨seconds, rfl⟩
  · rintro call state later answer after ⟨seconds, rfl⟩ exec
    exact granting_absorb exec
  · rintro call state later ⟨seconds, rfl⟩ served
    exact granting_later seconds served
  · rintro code state later ⟨seconds, rfl⟩ ⟨isZero, placed⟩
    exact ⟨isZero, placed.advance seconds⟩

section Steps

variable {call : Call} {next : call.Answer → Prog Int}
variable {answer : call.Answer}

/-- A set that is there is no obstacle for its name to be taken. -/
theorem taken_kept (builds : Builds call) {name : Key}
    (exec : granting.exec process call store answer after)
    (taken : (store.findSem name).isSome = true) :
    (after.findSem name).isSome = true := by
  by_cases keeps : call.keepsSems = true
  · rw [exec_semNames keeps exec name]
    exact taken
  cases call with
  | semget other nsems creat excl =>
      by_cases same : name = other
      · subst same
        rcases granting_exec_iff.mp exec with ⟨choice, _, _, granted⟩
        rcases Option.isSome_iff_exists.mp taken with ⟨id, found⟩
        have present : (store.advance choice.tick).findSem name = some id :=
          found
        simp only [grant, Store.semget, present, Option.some.injEq] at granted
        split at granted
        · cases granted
          exact taken
        · split at granted <;>
            cases granted <;> exact taken
      · rw [exec_semget_findSem exec same]
        exact taken
  | semctlRmid id => exact builds.elim
  | interruptible call => exact builds.elim
  | _ => exact absurd rfl keeps

theorem builds_words (builds : Builds call) : call.writesBytes = false := by
  cases call <;> first | rfl | exact builds.elim

/-- Asking for a set that is there. -/
theorem semget_taken {name : Key} {made : Except Errno IpcId}
    (exec : granting.exec process (.semget name 1 true true) store made after)
    (taken : (store.findSem name).isSome = true) :
    made = .error .EEXIST ∧ ∃ seconds, after = store.advance seconds := by
  rcases granting_exec_iff.mp exec with ⟨choice, _, _, granted⟩
  rcases Option.isSome_iff_exists.mp taken with ⟨id, found⟩
  have present : (store.advance choice.tick).findSem name = some id := found
  simp only [grant, Store.semget, present, Bool.and_self, if_true,
    Option.some.injEq, Prod.mk.injEq] at granted
  exact ⟨granted.1.symm, choice.tick, granted.2.symm⟩

/-- Asking for a set where nothing exists. -/
theorem semget_first {name : Key} {made : Except Errno IpcId} {seconds : Nat}
    (exec : granting.exec process (.semget name 1 true true)
      ((Store.empty now).advance seconds) made after) :
    (∃ id, made = .ok id) ∧ (after.findSem name).isSome = true := by
  rcases granting_exec_iff.mp exec with ⟨choice, _, _, granted⟩
  simp [grant, Store.semget, Store.findSem, Store.empty, SEMMSL] at granted
  rcases granted with ⟨rfl, rfl⟩
  simp [Store.findSem, Store.nextSem]

theorem Loses.of_same {after : Pool signature Pid Store Int}
    {rest : Option (Prog Int)}
    (loses : Loses paths key size expires process pool rest)
    (same : Pool.eventsOf process after.log =
      Pool.eventsOf process pool.log) :
    Loses paths key size expires process after rest := by
  cases rest with
  | some rest => exact loses
  | none =>
      simp only [Loses, same]
      exact loses

/-- A call of the winner. -/
theorem Won.call_winner
    (won : Won paths key size expires now members winner pool)
    (running : pool.procs winner = some (.issue call next))
    (exec : granting.exec winner call pool.state answer after) :
    Won paths key size expires now members winner
      (pool.record (.call winner ⟨call, answer⟩) after
        (Function.update pool.procs winner (some (next answer)))) := by
  have wins := won.wins
  rw [running] at wins
  rcases wins with ⟨builds, delivers⟩
  have goesOn := (delivers.resolve_left not_false).2 answer after exec
  constructor
  · exact taken_kept builds.1 exec won.taken
  · exact won.member
  · intro process outsider
    have different : process ≠ winner := by
      rintro rfl
      exact outsider won.member
    rw [Pool.record_procs, Function.update_of_ne different]
    exact won.here process outsider
  · rw [Pool.record_procs, Function.update_self]
    exact ⟨builds.2 answer, goesOn⟩
  · intro process member different
    rw [Pool.record_procs, Function.update_of_ne different]
    apply (won.loses process member different).of_same
    simp [Pool.eventsOf, Ne.symm different]
  · intro process different
    exact exec_idle different (builds_words builds.1) exec
      (won.idle process different)

/-- A call of another process takes time, and turns it away if it asks for
the set. -/
theorem Won.call_other {actor : Pid}
    (won : Won paths key size expires now members winner pool)
    (different : actor ≠ winner) (member : actor ∈ members)
    (running : pool.procs actor = some (.issue call next))
    (exec : granting.exec actor call pool.state answer after) :
    Won paths key size expires now members winner
      (pool.record (.call actor ⟨call, answer⟩) after
        (Function.update pool.procs actor (some (next answer)))) := by
  have loses := won.loses actor member different
  rw [running] at loses
  have moved : (∃ seconds, after = pool.state.advance seconds) ∧
      Loses paths key size expires actor pool (some (next answer)) := by
    rcases loses with begins | asking | ended
    · rcases create_begins begins exec with ⟨passed, asking⟩
      exact ⟨passed, Or.inr (Or.inl asking)⟩
    · rcases asking.semget with ⟨opened, isSemget, turned⟩
      cases isSemget
      rcases semget_taken exec won.taken with ⟨isTaken, passed⟩
      have isTaken : answer = Except.error Errno.EEXIST := isTaken
      subst isTaken
      exact ⟨passed, Or.inr (Or.inr (turned _))⟩
    · cases ended
  rcases moved with ⟨⟨seconds, rfl⟩, loses⟩
  constructor
  · exact won.taken
  · exact won.member
  · intro process outsider
    have other : process ≠ actor := by
      rintro rfl
      exact outsider member
    rw [Pool.record_procs, Function.update_of_ne other]
    exact won.here process outsider
  · have wins := won.wins
    rw [Pool.record_procs, Function.update_of_ne (Ne.symm different)]
    cases left : pool.procs winner with
    | some rest =>
        rw [left] at wins
        exact ⟨wins.1, wins_later wins.2 seconds⟩
    | none =>
        rw [left] at wins
        refine ⟨?_, wins.2.advance seconds⟩
        simpa [Pool.eventsOf, different] using wins.1
  · intro process among other
    by_cases same : process = actor
    · subst same
      rw [Pool.record_procs, Function.update_self]
      exact loses
    · rw [Pool.record_procs, Function.update_of_ne same]
      apply (won.loses process among other).of_same
      simp [Pool.eventsOf, Ne.symm same]
  · intro process other
    exact (won.idle process other).advance seconds

/-- The end of a process that has returned. -/
theorem Won.leave {actor : Pid} {value : Int}
    (won : Won paths key size expires now members winner pool)
    (ended : pool.procs actor = some (.done value))
    (reaches : (candidate paths key size expires actor).Reaches
      (Pool.eventsOf actor pool.log) (.done value)) :
    Won paths key size expires now members winner
      (pool.record (.leave actor) (pool.state.leave actor)
        (Function.update pool.procs actor none)) := by
  have events : ∀ process, Pool.eventsOf process
      (⟨.leave actor, pool.state.leave actor⟩ :: pool.log :
        List (Entry signature Pid Store)) =
          Pool.eventsOf process pool.log := fun _ => rfl
  constructor
  · rw [Pool.record_state, Store.leave_semNames]
    exact won.taken
  · exact won.member
  · intro process outsider
    by_cases same : process = actor
    · subst same
      exact Function.update_self ..
    · rw [Pool.record_procs, Function.update_of_ne same]
      exact won.here process outsider
  · by_cases same : winner = actor
    · subst same
      have wins := won.wins
      rw [ended] at wins
      rcases wins with ⟨_, isZero, placed⟩
      rw [Pool.record_procs, Function.update_self]
      subst isZero
      exact ⟨reaches.ends, placed.leave winner⟩
    · have stays := (won.idle actor (Ne.symm same)).leave
      rw [Pool.record_procs, Function.update_of_ne same, stays]
      exact won.wins
  · intro process among other
    by_cases same : process = actor
    · subst same
      have loses := won.loses process among other
      rw [ended] at loses
      rw [Pool.record_procs, Function.update_self]
      rcases loses with begins | asking | isLost
      · cases begins
      · rcases asking.semget with ⟨opened, isSemget, _⟩
        cases isSemget
      · cases isLost
        exact reaches.ends
    · rw [Pool.record_procs, Function.update_of_ne same]
      exact (won.loses process among other).of_same rfl
  · intro process other
    exact (won.idle process other).after_leave

/-- A call before the election: it takes time, or decides the election. -/
theorem Open.decides (small : key.toNat < 128)
    (legal : ∀ process, Legal (.create (size process) (expires process)))
    {actor : Pid} (isOpen : Open paths key size expires now members pool)
    (running : pool.procs actor = some (.issue call next))
    (exec : granting.exec actor call pool.state answer after) :
    Open paths key size expires now members
        (pool.record (.call actor ⟨call, answer⟩) after
          (Function.update pool.procs actor (some (next answer)))) ∨
      Won paths key size expires now members actor
        (pool.record (.call actor ⟨call, answer⟩) after
          (Function.update pool.procs actor (some (next answer)))) := by
  rcases isOpen.store with ⟨elapsed, isEmpty⟩
  have member : actor ∈ members := by
    rw [← isOpen.here actor, running]
    simp
  rcases isOpen.rests actor _ running with begins | asking
  · rcases create_begins begins exec with ⟨⟨seconds, rfl⟩, asking⟩
    refine Or.inl ⟨⟨elapsed + seconds, ?_⟩, ?_, ?_⟩
    · rw [Pool.record_state, isEmpty, Store.advance_advance]
    · intro process
      by_cases same : process = actor
      · subst same
        simp [member]
      · rw [Pool.record_procs, Function.update_of_ne same]
        exact isOpen.here process
    · intro process rest left
      by_cases same : process = actor
      · subst same
        rw [Pool.record_procs, Function.update_self] at left
        cases left
        exact Or.inr asking
      · rw [Pool.record_procs, Function.update_of_ne same] at left
        exact isOpen.rests process rest left
  · right
    have delivers : Program.Delivers granting actor (fun _ => False)
        (.issue call next) pool.state fun code after => code = 0 ∧
          Placed paths key now (size actor) (expires actor) after := by
      rw [isEmpty]
      exact asking.delivers small (legal actor)
    have builds := asking.builds
    have goesOn := (delivers.resolve_left not_false).2 answer after exec
    have idle : ∀ process, Idle process pool.state := by
      intro process
      rw [isEmpty]
      exact idle_empty.advance elapsed
    constructor
    · rcases asking.semget with ⟨opened, isSemget, _⟩
      cases isSemget
      rw [isEmpty] at exec
      exact (semget_first exec).2
    · exact member
    · intro process outsider
      have different : process ≠ actor := by
        rintro rfl
        exact outsider member
      rw [Pool.record_procs, Function.update_of_ne different]
      by_contra alive
      exact outsider ((isOpen.here process).mp alive)
    · rw [Pool.record_procs, Function.update_self]
      exact ⟨builds.2 answer, goesOn⟩
    · intro process among different
      rw [Pool.record_procs, Function.update_of_ne different]
      rcases Option.ne_none_iff_exists'.mp
        ((isOpen.here process).mpr among) with ⟨rest, left⟩
      rw [left]
      rcases isOpen.rests process rest left with begins | asking
      · exact Or.inl begins
      · exact Or.inr (Or.inl asking)
    · intro process different
      exact exec_idle different (builds_words builds.1) exec (idle process)

end Steps

/-! ## The election -/

variable (paths key size expires) in
/-- The invariant of the run. -/
def Electing (now : Time) (members : Finset Pid)
    (pool : Pool signature Pid Store Int) : Prop :=
  Open paths key size expires now members pool ∨
    ∃ winner, Won paths key size expires now members winner pool

section Runs

variable (small : key.toNat < 128)
variable (legal : ∀ process, Legal (.create (size process) (expires process)))
variable {label : Label signature Pid}
variable {later : Pool signature Pid Store Int}

theorem electing_start :
    Electing paths key size expires now members
      (start paths key size expires now members) := by
  refine Or.inl ⟨⟨0, ?_⟩, ?_, ?_⟩
  · simp [start, Store.advance]
  · intro process
    simp [start]
  · intro process rest left
    simp only [start] at left
    split at left
    · cases left
      exact Or.inl rfl
    · cases left

/-- A process that lives has calls of `create` left only. -/
theorem Electing.builds
    (electing : Electing paths key size expires now members pool)
    {process : Pid} {rest : Prog Int}
    (running : pool.procs process = some rest) :
    Program.Within Builds rest := by
  rcases electing with isOpen | ⟨winner, won⟩
  · rcases isOpen.rests process rest running with rfl | asking
    · exact builds_within
    · exact asking.builds
  · by_cases same : process = winner
    · subst same
      have wins := won.wins
      rw [running] at wins
      exact wins.1
    · have member : process ∈ members := by
        by_contra outsider
        rw [won.here process outsider] at running
        cases running
      have loses := won.loses process member same
      rw [running] at loses
      rcases loses with rfl | asking | rfl
      · exact builds_within
      · exact asking.builds
      · trivial

theorem builds_forkless {call : Call} (builds : Builds call) (child : Pid) :
    granting.fork call child = none := by
  cases call <;> first | rfl | exact builds.elim

include small legal in
theorem Electing.step
    (electing : Electing paths key size expires now members pool)
    (reaches : ∀ process rest, pool.procs process = some rest →
      (candidate paths key size expires process).Reaches
        (Pool.eventsOf process pool.log) rest)
    (step : Pool.Step granting pool label later)
    (fine : Pool.Unkilled pool label) :
    Electing paths key size expires now members later := by
  cases step with
  | @call process call next answer state running exec =>
      rcases electing with isOpen | ⟨winner, won⟩
      · rcases isOpen.decides small legal running exec with isOpen | won
        · exact Or.inl isOpen
        · exact Or.inr ⟨process, won⟩
      · by_cases same : process = winner
        · subst same
          exact Or.inr ⟨process, won.call_winner running exec⟩
        · have member : process ∈ members := by
            by_contra outsider
            rw [won.here process outsider] at running
            cases running
          exact Or.inr ⟨winner, won.call_other same member running exec⟩
  | fork running fresh forks =>
      rw [builds_forkless (electing.builds running).1] at forks
      cases forks
  | @leave process value ended =>
      rcases electing with isOpen | ⟨winner, won⟩
      · rcases isOpen.rests process _ ended with begins | asking
        · cases begins
        · rcases asking.semget with ⟨opened, isSemget, _⟩
          cases isSemget
      · exact Or.inr ⟨winner, won.leave ended (reaches process _ ended)⟩
  | kill running => exact fine.elim

include small legal in
theorem electing_reach
    (reach : Pool.Reach granting Pool.Unkilled
      (start paths key size expires now members) pool) :
    Electing paths key size expires now members pool ∧
      Pool.Reach granting (fun pool label => Pool.Unkilled pool label ∧
        ¬ label.Forks) (start paths key size expires now members) pool := by
  induction reach with
  | start => exact ⟨electing_start, .start⟩
  | @step pool later label before step fine ih =>
      rcases ih with ⟨electing, unforked⟩
      have reaches : ∀ process rest, pool.procs process = some rest →
          (candidate paths key size expires process).Reaches
            (Pool.eventsOf process pool.log) rest := by
        intro process rest running
        rcases unforked.reaches (fun _ _ fine => fine.2) rfl process rest
          running with ⟨program, started, reaches⟩
        simp only [start] at started
        split at started
        · cases started
          exact reaches
        · cases started
      refine ⟨electing.step small legal reaches step fine,
        .step unforked step ⟨fine, ?_⟩⟩
      cases step with
      | fork running fresh forks =>
          rw [builds_forkless (electing.builds running).1] at forks
          cases forks
      | _ => exact not_false

theorem begins_served {process : Pid} {call : Call}
    {next : call.Answer → Prog Int}
    (begins : .issue call next = Lock.create paths key semaphores expire) :
    ∃ answer after, granting.exec process call store answer after := by
  rcases (create_malloc : ∃ next, Lock.create paths key semaphores expire =
    .issue .mallocSemaphore next) with ⟨opened, isCreate⟩
  rw [isCreate] at begins
  cases begins
  exact ⟨_, _, exec_malloc⟩

theorem Asking.served {process : Pid} {call : Call}
    {next : call.Answer → Prog Int}
    (asking : Asking paths key semaphores expire (.issue call next)) :
    ∃ answer after, granting.exec process call store answer after := by
  rcases asking.semget with ⟨opened, isSemget, _⟩
  cases isSemget
  exact ⟨_, _, granting_exec_iff.mpr ⟨{}, rfl, rfl, rfl⟩⟩

/-- As long as a process lives, one of them can go on. -/
theorem Electing.goes
    (electing : Electing paths key size expires now members pool)
    (unfinished : ¬ pool.Ended) :
    ∃ label after, Pool.Step granting pool label after ∧ ¬ label.Forks ∧
      Pool.Unkilled pool label := by
  simp only [Pool.Ended, not_forall] at unfinished
  rcases unfinished with ⟨process, alive⟩
  rcases Option.ne_none_iff_exists'.mp alive with ⟨rest, running⟩
  cases rest with
  | done value => exact ⟨_, _, .leave running, not_false, trivial⟩
  | issue call next =>
      have served : ∃ answer after,
          granting.exec process call pool.state answer after := by
        rcases electing with isOpen | ⟨winner, won⟩
        · rcases isOpen.rests process _ running with begins | asking
          · exact begins_served begins
          · exact asking.served
        · by_cases same : process = winner
          · subst same
            have wins := won.wins
            rw [running] at wins
            exact (wins.2.resolve_left not_false).1
          · have member : process ∈ members := by
              by_contra outsider
              rw [won.here process outsider] at running
              cases running
            have loses := won.loses process member same
            rw [running] at loses
            rcases loses with begins | asking | ended
            · exact begins_served begins
            · exact asking.served
            · cases ended
      rcases served with ⟨answer, after, exec⟩
      exact ⟨_, _, .call running exec, not_false, trivial⟩

theorem Electing.confined
    (electing : Electing paths key size expires now members pool) :
    Pool.Confined members pool := by
  intro process outsider
  rcases electing with isOpen | ⟨winner, won⟩
  · by_contra alive
    exact outsider ((isOpen.here process).mp alive)
  · exact won.here process outsider

end Runs

/--
However any number of `create`s on one key are interleaved, each with its own
size and expiry: they can always be run to their ends, and once all of them
have ended exactly one has returned 0, the others have returned -1, and the
store shows the lock of the one, complete, and nothing else.
-/
theorem elects (paths : KeyPaths) (key : Key) (small : key.toNat < 128)
    (size : Pid → UInt) (expires : Pid → Time)
    (legal : ∀ process, Legal (.create (size process) (expires process)))
    (now : Time) (members : Finset Pid) (some : members.Nonempty)
    (pool : Pool signature Pid Store Int)
    (reach : Pool.Reach granting Pool.Unkilled
      (start paths key size expires now members) pool) :
    (∃ final, Pool.Reach granting Pool.Unkilled pool final ∧ final.Ended) ∧
      (pool.Ended → ∃ winner ∈ members,
        (∀ process ∈ members,
          Program.Ends (candidate paths key size expires process)
            (Pool.eventsOf process pool.log)
            (if process = winner then 0 else -1)) ∧
        Placed paths key now (size winner) (expires winner) pool.state) := by
  constructor
  · have onwards : ∀ before, Pool.Reach granting Pool.Unkilled
        (start paths key size expires now members) before →
        ¬ before.Ended → ∃ label after,
          Pool.Step granting before label after ∧ ¬ label.Forks ∧
            Pool.Unkilled before label ∧ Pool.Reach granting Pool.Unkilled
              (start paths key size expires now members) after := by
      intro before reach unfinished
      rcases (electing_reach small legal reach).1.goes unfinished with
        ⟨label, after, step, forkless, fine⟩
      exact ⟨label, after, step, forkless, fine, reach.step step fine⟩
    exact Pool.comes_to_end onwards reach
      (electing_reach small legal reach).1.confined
  · intro ended
    rcases (electing_reach small legal reach).1 with isOpen | ⟨winner, won⟩
    · rcases some with ⟨process, member⟩
      exact absurd (ended process) ((isOpen.here process).mpr member)
    · have wins := won.wins
      rw [ended winner] at wins
      refine ⟨winner, won.member, ?_, wins.2⟩
      intro process member
      by_cases same : process = winner
      · subst same
        rw [if_pos rfl]
        exact wins.1
      · have loses := won.loses process member same
        rw [ended process] at loses
        rw [if_neg same]
        exact loses

/-- Two processes have left, the second of which was faster. -/
theorem elects_two :
    ∃ pool : Pool signature Pid Store Int, pool.Ended ∧
      ∃ winner ∈ ({1, 2} : Finset Pid),
        (∀ process ∈ ({1, 2} : Finset Pid),
          Program.Ends (candidate .devtmpfs 5 (fun _ => 3) (fun _ => 60) process)
            (Pool.eventsOf process pool.log)
            (if process = winner then 0 else -1)) ∧
        Placed .devtmpfs 5 0 3 60 pool.state := by
  have computed : (follow unkilled (turns [(1, 1), (2, 3), (1, 2), (2, 24)])
      (start .devtmpfs 5 (fun _ => 3) (fun _ => 60) 0 {1, 2})).any
        (fun pool => (pool.procs 1).isNone && (pool.procs 2).isNone) =
          true := by
    decide
  have confined : ∀ process, process ∉ [1, 2] →
      (start .devtmpfs 5 (fun _ => 3) (fun _ => 60) 0 {1, 2}).procs process =
        none := by
    intro process outsider
    simpa [start] using outsider
  have legal : ∀ _ : Pid, Legal (.create 3 60) := by simp [Legal]
  rcases follow_reaches unkilled_sound confined turns_grants computed with
    ⟨pool, reach, left⟩
  rw [Bool.and_eq_true, Option.isNone_iff_eq_none,
    Option.isNone_iff_eq_none] at left
  have ended : pool.Ended := by
    intro process
    by_cases first : process = 1
    · rw [first]
      exact left.1
    · by_cases second : process = 2
      · rw [second]
        exact left.2
      · exact (electing_reach (by decide) legal reach).1.confined process
          (by simp [first, second])
  exact ⟨pool, ended, (elects _ _ (by decide) _ _ legal _ _ (by simp) pool
    reach).2 ended⟩

end Atomicles.Election
