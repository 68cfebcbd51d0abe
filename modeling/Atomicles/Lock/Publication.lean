import Atomicles.Kernel.Locality
import Atomicles.Lock.Publishing

/-!
# A lock is published complete

`create` beside any number of commands that work with its lock.  The set under
the key is that of the `create`, and a word that has been stored is one of its
words, in every state of every run; so what a command finds in `init` is what
the `create` was given.
-/

namespace Atomicles.Publication

open Interaction

section Looking

variable {paths : KeyPaths} {key : Key}

/-! ## The lock and the log -/

/-- The set is filled. -/
def Stage.Fills : Stage → Prop
  | .filled _ => True
  | .storing _ => True
  | _ => False

/-- The stage that `create` is in agrees with the store and the log: the set
under the key is its own and has kept the creation time, and what has been
stored is one of the words. -/
structure Stands (paths : KeyPaths) (key : Key) (words : Nat → Option UInt)
    (store : Store) (log : List (Entry signature Pid Store)) (stage : Stage) :
    Prop where
  user : ∀ id set, store.sems id = some set → id.key = paths.semKey key →
    stage.user = some id
  ctime : ∀ id set created, store.sems id = some set →
    id.key = paths.semKey key → made (paths.semKey key) log = some created →
      set.sem_ctime = created
  unfilled : ¬ stage.Fills → made (paths.semKey key) log = none
  unstored : (∀ user, stage ≠ .storing user) →
    ∀ addr offset, stored addr offset log = false
  words : ∀ addr offset word value, stored addr offset log = true →
    words offset = some value → wordAt store addr offset = some word →
      word = value

section Log

variable {log : List (Entry signature Pid Store)} {process : Pid}
variable {call : Call} {answer : call.Answer} {state : Store}

theorem made_quiet (quiet : Quiet call) (name : Key) :
    made name (⟨.call process ⟨call, answer⟩, state⟩ :: log) =
      made name log := by
  cases call <;> first | rfl | exact quiet.elim

/-- Nothing is stored, and only `memset` clears. -/
theorem stored_quiet (quiet : Quiet call) {addr : Addr} {offset : Nat}
    (isStored : stored addr offset
      (⟨.call process ⟨call, answer⟩, state⟩ :: log) = true) :
    stored addr offset log = true ∧
      ∀ n, call = .memset addr n → ¬ 4 * offset < n := by
  cases call with
  | memset target n =>
      simp only [stored, Bool.and_eq_true, Bool.not_eq_true'] at isStored
      refine ⟨isStored.2, ?_⟩
      rintro length ⟨⟩ inside
      simp [inside] at isStored
  | store => exact quiet.elim
  | _ => exact ⟨isStored, fun _ impossible => nomatch impossible⟩

/-- A word that is still taken for stored after a call that stores nothing was
stored before, and has not changed. -/
theorem exec_stored (quiet : Quiet call) {store after : Store}
    (exec : refusing.exec process call store answer after) {addr : Addr}
    {offset : Nat}
    (isStored : stored addr offset
      (⟨.call process ⟨call, answer⟩, after⟩ :: log) = true) :
    stored addr offset log = true ∧
      ∀ word, wordAt after addr offset = some word →
        wordAt store addr offset = some word := by
  have words : call.writesBytes = false := by
    cases call <;> first | rfl | exact quiet.elim
  rcases stored_quiet quiet isStored with ⟨before, uncleared⟩
  refine ⟨before, ?_⟩
  intro word found
  rcases exec_word words exec found with
    same | ⟨name, size, excl, rfl, _⟩ | rfl | ⟨n, rfl, inside, _⟩
  · exact same
  · cases quiet
  · exact quiet.elim
  · exact absurd inside (uncleared n rfl)

end Log

namespace Stands

variable {words : Nat → Option UInt} {store : Store}
variable {log : List (Entry signature Pid Store)} {stage : Stage}
variable {process : Pid}

/-- A call that makes and stores nothing. -/
theorem quiet (stands : Stands paths key words store log stage) {call : Call}
    {answer : call.Answer} {after : Store} (quiet : Quiet call)
    (exec : refusing.exec process call store answer after) :
    Stands paths key words after
      (⟨.call process ⟨call, answer⟩, after⟩ :: log) stage := by
  have keeps : call.keepsTimes = true := by
    cases call <;> first
      | rfl
      | exact quiet.elim
      | rw [Call.keepsTimes, show _ = false from quiet]; rfl
  constructor
  · intro id set found isUser
    rcases exec_ctime keeps exec found with ⟨before, present, _⟩
    exact stands.user id before present isUser
  · intro id set created found isUser isMade
    rw [made_quiet quiet] at isMade
    rcases exec_ctime keeps exec found with ⟨before, present, same⟩
    rw [same]
    exact stands.ctime id before created present isUser isMade
  · intro unfilled
    rw [made_quiet quiet]
    exact stands.unfilled unfilled
  · intro unstored addr offset
    rw [Bool.eq_false_iff]
    intro isStored
    have before := (stored_quiet quiet isStored).1
    rw [stands.unstored unstored] at before
    cases before
  · intro addr offset word value isStored lays found
    rcases exec_stored quiet exec isStored with ⟨before, same⟩
    exact stands.words addr offset word value before lays (same word found)

/-- The user's set or the mutex is made. -/
theorem makesSet (stands : Stands paths key words store log stage) {name : Key}
    {nsems : Nat} {excl : Bool} {found : Except Errno IpcId} {after : Store}
    (allowed : stage = .start ∧ name = paths.semKey key ∨
      (∃ user, stage = .filled user) ∧ name ≠ paths.semKey key)
    (exec : refusing.exec process (.semget name nsems true excl) store found
      after) :
    Stands paths key words after
      (⟨.call process ⟨.semget name nsems true excl, found⟩, after⟩ :: log)
      ((protocol paths key words).next stage (.semget name nsems true excl)
        found) := by
  have shms := exec_sameShms rfl exec
  rcases allowed with ⟨rfl, rfl⟩ | ⟨⟨user, rfl⟩, other⟩
  · have unfilled : made (paths.semKey key) log = none :=
      stands.unfilled not_false
    have empty : ∀ addr offset, stored addr offset log = false :=
      stands.unstored fun _ impossible => nomatch impossible
    constructor
    · intro id set found isUser
      rcases exec_semget_set exec found with before | ⟨rfl, _⟩
      · cases stands.user id set before isUser
      · rfl
    · intro id set created _ _ isMade
      cases unfilled.symm.trans isMade
    · exact fun _ => unfilled
    · exact fun _ => empty
    · intro addr offset word value isStored
      cases (empty addr offset).symm.trans isStored
  · constructor
    · intro id set found isUser
      rcases exec_semget_set exec found with before | ⟨_, isName⟩
      · exact stands.user id set before isUser
      · exact absurd (isName.symm.trans isUser) other
    · intro id set created found isUser isMade
      rcases exec_semget_set exec found with before | ⟨_, isName⟩
      · exact stands.ctime id set created before isUser isMade
      · exact absurd (isName.symm.trans isUser) other
    · exact stands.unfilled
    · exact stands.unstored
    · intro addr offset word value isStored lays found
      rw [Store.wordAt_of_same shms] at found
      exact stands.words addr offset word value isStored lays found

/-- The user's set or the mutex is filled. -/
theorem fills (stands : Stands paths key words store log stage)
    {id : IpcId} {array : List UShort} {filled : Except Errno Unit}
    {after : Store}
    (allowed : stage = .named id ∨
      (∃ user, stage = .filled user) ∧ id.key ≠ paths.semKey key)
    (exec : refusing.exec process (.semctlSetall id array) store filled
      after) :
    Stands paths key words after
      (⟨.call process ⟨.semctlSetall id array, filled⟩, after⟩ :: log)
      ((protocol paths key words).next stage (.semctlSetall id array)
        filled) := by
  have shms := exec_sameShms rfl exec
  rcases allowed with rfl | ⟨⟨user, rfl⟩, other⟩
  · have unfilled : made (paths.semKey key) log = none :=
      stands.unfilled not_false
    have empty : ∀ addr offset, stored addr offset log = false :=
      stands.unstored fun _ impossible => nomatch impossible
    have own : ∀ other set, after.sems other = some set →
        other.key = paths.semKey key → other = id := by
      intro other set found isUser
      have present : ∃ set, store.sems other = some set := by
        rcases exec_semctlSetall_set exec found with before | ⟨_, _, before⟩
        · exact ⟨set, before⟩
        · exact Option.isSome_iff_exists.mp before
      rcases present with ⟨before, present⟩
      exact (Option.some.inj (stands.user other before present isUser)).symm
    have remains : ∀ other set, after.sems other = some set →
        other.key = paths.semKey key →
          ((protocol paths key words).next (.named id)
            (.semctlSetall id array) filled).user = some other := by
      intro other set found isUser
      rw [own other set found isUser]
      cases filled <;> rfl
    cases filled with
    | error errno =>
        have unmade : made (paths.semKey key)
            (⟨.call process ⟨.semctlSetall id array,
              (.error errno : Except Errno Unit)⟩, after⟩ :: log) = none := by
          simp [made, unfilled]
        refine ⟨remains, ?_, fun _ => unmade, fun _ => empty, ?_⟩
        · intro other set created _ _ isMade
          cases unmade.symm.trans isMade
        · intro addr offset word value isStored
          cases (empty addr offset).symm.trans isStored
    | ok success =>
        refine ⟨remains, ?_, fun impossible => absurd trivial impossible,
          fun _ => empty, ?_⟩
        · intro other set created found isUser isMade
          have same := own other set found isUser
          subst same
          have isCtime : some set.sem_ctime = some created := by
            simpa [made, isUser, found] using isMade
          exact Option.some.inj isCtime
        · intro addr offset word value isStored
          cases (empty addr offset).symm.trans isStored
  · have unnamed : made (paths.semKey key)
        (⟨.call process ⟨.semctlSetall id array, filled⟩, after⟩ :: log) =
          made (paths.semKey key) log := by
      simp [made, other]
    constructor
    · intro other' set found isUser
      rcases exec_semctlSetall_set exec found with before | ⟨rfl, _⟩
      · exact stands.user other' set before isUser
      · exact absurd isUser other
    · intro other' set created found isUser isMade
      rw [unnamed] at isMade
      rcases exec_semctlSetall_set exec found with before | ⟨rfl, _⟩
      · exact stands.ctime other' set created before isUser isMade
      · exact absurd isUser other
    · intro unfilled
      exact absurd trivial unfilled
    · exact stands.unstored
    · intro addr offset word value isStored lays found
      rw [Store.wordAt_of_same shms] at found
      exact stands.words addr offset word value isStored lays found

/-- The segment is made before any word is stored. -/
theorem makesSegment (stands : Stands paths key words store log stage)
    {name : Key} {size : Nat} {excl : Bool} {found : Except Errno IpcId}
    {after : Store} {user : IpcId} (ready : stage = .filled user)
    (exec : refusing.exec process (.shmget name size true excl) store found
      after) :
    Stands paths key words after
      (⟨.call process ⟨.shmget name size true excl, found⟩, after⟩ :: log)
      stage := by
  have sems := exec_sameSems rfl exec
  have empty : ∀ addr offset, stored addr offset log = false := by
    apply stands.unstored
    rintro other rfl
    cases ready
  constructor
  · intro id set found
    rw [sems.1] at found
    exact stands.user id set found
  · intro id set created found
    rw [sems.1] at found
    exact stands.ctime id set created found
  · exact stands.unfilled
  · exact fun _ => empty
  · intro addr offset word value isStored
    cases (empty addr offset).symm.trans isStored

/-- A word is stored. -/
theorem stores (stands : Stands paths key words store log stage) {addr : Addr}
    {offset : Nat} {value : UInt} {done : Option Unit} {after : Store}
    (lays : words offset = some value)
    (ready : ∃ user, stage = .filled user ∨ stage = .storing user)
    (exec : refusing.exec process (.store addr offset value) store done
      after) :
    Stands paths key words after
      (⟨.call process ⟨.store addr offset value, done⟩, after⟩ :: log)
      ((protocol paths key words).next stage (.store addr offset value)
        done) := by
  have sems := exec_sameSems rfl exec
  rcases ready with ⟨user, ready⟩
  have isStoring : (protocol paths key words).next stage
      (.store addr offset value) done = .storing user := by
    rcases ready with rfl | rfl <;> rfl
  rw [isStoring]
  constructor
  · intro id set found isUser
    rw [sems.1] at found
    have isOwn := stands.user id set found isUser
    rcases ready with rfl | rfl <;> exact isOwn
  · intro id set created found
    rw [sems.1] at found
    exact stands.ctime id set created found
  · exact fun impossible => absurd trivial impossible
  · exact fun impossible => absurd rfl (impossible user)
  · intro target index word laid isStored isLaid found
    by_cases here : target = addr ∧ index = offset ∧ done = some ()
    · rcases here with ⟨rfl, rfl, rfl⟩
      have written := exec_store_word exec found
      rw [lays] at isLaid
      rw [written, Option.some.inj isLaid]
    · have before : stored target index log = true := by
        simp only [stored, Bool.or_eq_true, Bool.and_eq_true,
          decide_eq_true_eq, Option.isSome_iff_exists] at isStored
        rcases isStored with ⟨⟨rfl, rfl⟩, success, rfl⟩ | before
        · exact absurd ⟨rfl, rfl, rfl⟩ here
        · exact before
      rcases exec_word rfl exec found with
        same | ⟨name, size, excl, impossible, _⟩ | same | ⟨n, impossible, _⟩
      · exact stands.words target index word laid before isLaid same
      · cases impossible
      · cases same
        rw [lays] at isLaid
        exact Option.some.inj isLaid
      · cases impossible

/-- A process ends or is killed. -/
theorem leave (stands : Stands paths key words store log stage)
    {label : Label signature Pid}
    (isLeave : label = .leave process ∨ label = .kill process) :
    Stands paths key words (store.leave process)
      (⟨label, store.leave process⟩ :: log) stage := by
  have isMade : made (paths.semKey key)
      (⟨label, store.leave process⟩ :: log) =
        made (paths.semKey key) log := by
    rcases isLeave with rfl | rfl <;> rfl
  have isStored : ∀ addr offset,
      stored addr offset (⟨label, store.leave process⟩ :: log) =
        stored addr offset log := by
    intro addr offset
    rcases isLeave with rfl | rfl <;> rfl
  constructor
  · intro id set found isUser
    rcases Store.leave_ctime found with ⟨before, present, _⟩
    exact stands.user id before present isUser
  · intro id set created found isUser
    rw [isMade]
    rcases Store.leave_ctime found with ⟨before, present, same⟩
    rw [same]
    exact stands.ctime id before created present isUser
  · rw [isMade]
    exact stands.unfilled
  · intro unstored addr offset
    rw [isStored]
    exact stands.unstored unstored addr offset
  · intro addr offset word value
    rw [isStored]
    intro before lays found
    exact stands.words addr offset word value before lays
      (Store.leave_word found)

/-- A call that the protocol allows. -/
theorem call (stands : Stands paths key words store log stage) {call : Call}
    {answer : call.Answer} {after : Store}
    (allowed : (protocol paths key words).allow stage call)
    (exec : refusing.exec process call store answer after) :
    Stands paths key words after
      (⟨.call process ⟨call, answer⟩, after⟩ :: log)
      ((protocol paths key words).next stage call answer) := by
  have others : Quiet call → Stands paths key words after
      (⟨.call process ⟨call, answer⟩, after⟩ :: log)
      ((protocol paths key words).next stage call answer) := by
    intro isQuiet
    rw [quiet_stays isQuiet]
    exact stands.quiet isQuiet exec
  cases call with
  | semget name nsems creat excl =>
      cases creat with
      | false => exact others rfl
      | true => exact stands.makesSet (allowed rfl) exec
  | semctlSetall id array => exact stands.fills allowed exec
  | shmget name size creat excl =>
      cases creat with
      | false => exact others rfl
      | true =>
          rcases allowed rfl with ⟨user, ready⟩
          exact stands.makesSegment ready exec
  | store addr offset value => exact stands.stores allowed.1 allowed.2 exec
  | _ => first | exact others trivial | exact allowed.elim

/-- The creation time stays once it is known. -/
theorem made_call (stands : Stands paths key words store log stage)
    {call : Call} {answer : call.Answer} {after : Store}
    (allowed : (protocol paths key words).allow stage call) :
    made (paths.semKey key) log = none ∨
      made (paths.semKey key)
        (⟨.call process ⟨call, answer⟩, after⟩ :: log) =
          made (paths.semKey key) log := by
  cases call with
  | semctlSetall id array =>
      rcases allowed with rfl | ⟨_, other⟩
      · exact Or.inl (stands.unfilled not_false)
      · right
        simp [made, other]
  | _ => exact Or.inr rfl

/-- Where a command finds what it needs, the answer is good. -/
theorem good (stands : Stands paths key words store log stage)
    {pool : Pool signature Pid Store Int} {call : Call}
    {answer : call.Answer} {after : Store} (isStore : pool.state = store)
    (isLog : pool.log = log) (supports : Supports paths key pool ⟨call, answer⟩)
    (exec : refusing.exec process call store answer after) :
    Good paths key words (made (paths.semKey key) log) (fun _ => True)
      ⟨call, answer⟩ := by
  subst isStore
  subst isLog
  cases call with
  | load addr offset =>
      rintro word value rfl lays
      exact stands.words addr offset word value supports lays (exec_load exec)
  | semctlStat id =>
      intro isUser
      rcases supports isUser with ⟨present, isMade⟩
      rcases Option.isSome_iff_exists.mp present with ⟨set, present⟩
      rcases Option.isSome_iff_exists.mp isMade with ⟨created, isMade⟩
      rw [isMade, exec_semctlStat exec present,
        stands.ctime id set created present isUser isMade]
  | semget => exact supports
  | shmget => exact supports
  | shmat => exact supports
  | _ => trivial

end Stands

/-! ## What the commands have heard -/

/-- A good answer stays good once the creation time is known. -/
theorem Good.later {words : Nat → Option UInt} {ctime ctime' : Option Time}
    {clocks : Time → Prop} {event : Event signature}
    (good : Good paths key words ctime clocks event)
    (known : ctime = none ∨ ctime' = ctime) :
    Good paths key words ctime' clocks event := by
  rcases known with rfl | rfl
  · rcases event with ⟨call, answer⟩
    cases call with
    | semctlStat id =>
        intro isUser
        cases good isUser
    | _ => exact good
  · exact good

/-- What the kernel says of every answer. -/
theorem named_exec {process : Pid} {call : Call} {answer : call.Answer}
    {store after : Store}
    (exec : refusing.exec process call store answer after) :
    Named ⟨call, answer⟩ := by
  cases call with
  | semget name nsems creat excl =>
      rintro id rfl
      exact exec_semget_key exec
  | shmat id =>
      rintro addr rfl
      exact exec_shmat exec
  | _ => trivial

/-- A list that ends in an element, split at an element. -/
theorem snoc_split {Element : Type} {list before after : List Element}
    {last element : Element}
    (same : list ++ [last] = before ++ element :: after) :
    list = before ∧ last = element ∨
      ∃ rest, list = before ++ element :: rest := by
  rcases List.eq_nil_or_concat after with rfl | ⟨rest, final, rfl⟩
  · rcases List.append_inj' same rfl with ⟨isBefore, isLast⟩
    exact Or.inl ⟨isBefore, (List.cons.inj isLast).1⟩
  · have regrouped : list ++ [last] =
        (before ++ element :: rest) ++ [final] := by
      simpa using same
    exact Or.inr ⟨rest, (List.append_inj' regrouped rfl).1⟩

/-- The other commands stay outside, and what they have heard in `init` is
good. -/
structure Sound (paths : KeyPaths) (key : Key) (words : Nat → Option UInt)
    (maker : Pid) (commands : Pid → Option (Action × Lock.Statics))
    (pool : Pool signature Pid Store Int) (phases : Pid → Stage) : Prop where
  outside : ∀ process, process ≠ maker → phases process = .outside
  stands : Stands paths key words pool.state pool.log (phases maker)
  good : ∀ process command, process ≠ maker →
    commands process = some command → Looks command.1 →
      ∀ before event after,
        Pool.eventsOf process pool.log = before ++ event :: after →
        Reads paths key command before event.call →
          Good paths key words (made (paths.semKey key) pool.log)
            (fun _ => True) event

section Steps

variable {words : Nat → Option UInt} {maker : Pid}
variable {commands : Pid → Option (Action × Lock.Statics)}
variable {pool : Pool signature Pid Store Int} {phases : Pid → Stage}
variable {process : Pid}

/-- A call of `create`. -/
theorem Sound.creates (sound : Sound paths key words maker commands pool phases)
    {call : Call} {next : call.Answer → Prog Int} {answer : call.Answer}
    {state : Store}
    (allowed : (protocol paths key words).allow (phases maker) call)
    (exec : refusing.exec maker call pool.state answer state) :
    Sound paths key words maker commands
      (pool.record (.call maker ⟨call, answer⟩) state
        (Function.update pool.procs maker (some (next answer))))
      (Function.update phases maker
        ((protocol paths key words).next (phases maker) call answer)) := by
  constructor
  · intro other different
    rw [Function.update_of_ne different]
    exact sound.outside other different
  · rw [Function.update_self]
    exact sound.stands.call allowed exec
  · intro other command different isCommand looks before event after split reads
    simp only [Pool.record_log, Pool.eventsOf, if_neg different.symm] at split
    exact (sound.good other command different isCommand looks before event
      after split reads).later (sound.stands.made_call allowed)

/-- A call of another command. -/
theorem Sound.looked (sound : Sound paths key words maker commands pool phases)
    {call : Call} {next : call.Answer → Prog Int} {answer : call.Answer}
    {state : Store} (other : process ≠ maker)
    (allowed : (protocol paths key words).allow (phases process) call)
    (exec : refusing.exec process call pool.state answer state)
    (fine : Timely paths key commands pool (.call process ⟨call, answer⟩)) :
    Sound paths key words maker commands
      (pool.record (.call process ⟨call, answer⟩) state
        (Function.update pool.procs process (some (next answer))))
      (Function.update phases process
        ((protocol paths key words).next (phases process) call answer)) := by
  rw [sound.outside process other] at allowed
  have quiet : Quiet call := quiet_outside allowed
  rw [quiet_stays quiet, Function.update_eq_self]
  constructor
  · exact sound.outside
  · exact sound.stands.quiet quiet exec
  · intro looker command different isCommand looks before event after split
      reads
    rw [Pool.record_log, made_quiet quiet]
    by_cases same : process = looker
    · subst same
      simp only [Pool.record_log, Pool.eventsOf, if_true] at split
      rcases snoc_split split with ⟨rfl, rfl⟩ | ⟨rest, earlier⟩
      · exact sound.stands.good rfl rfl (fine command isCommand looks reads)
          exec
      · exact sound.good process command different isCommand looks before event
          rest earlier reads
    · simp only [Pool.record_log, Pool.eventsOf, if_neg same] at split
      exact sound.good looker command different isCommand looks before event
        after split reads

/-- A process ends or is killed. -/
theorem Sound.left (sound : Sound paths key words maker commands pool phases)
    {label : Label signature Pid} {procs : Pid → Option (Prog Int)}
    (isLeave : label = .leave process ∨ label = .kill process) :
    Sound paths key words maker commands
      (pool.record label (pool.state.leave process) procs) phases := by
  have isMade : made (paths.semKey key)
      (⟨label, pool.state.leave process⟩ :: pool.log) =
        made (paths.semKey key) pool.log := by
    rcases isLeave with rfl | rfl <;> rfl
  have events : ∀ other, Pool.eventsOf other
      (⟨label, pool.state.leave process⟩ :: pool.log) =
        Pool.eventsOf other pool.log := by
    intro other
    rcases isLeave with rfl | rfl <;> rfl
  refine ⟨sound.outside, sound.stands.leave isLeave, ?_⟩
  intro other command different isCommand looks before event after split reads
  rw [Pool.record_log, events] at split
  rw [Pool.record_log, isMade]
  exact sound.good other command different isCommand looks before event after
    split reads

theorem preserves :
    Pool.Preserves refusing (Timely paths key commands)
      (protocol paths key words)
      (Sound paths key words maker commands) where
  call := by
    intro pool phases process call next answer state sound _ allowed exec fine
    refine ⟨named_exec exec, ?_⟩
    by_cases isMaker : process = maker
    · subst isMaker
      exact sound.creates allowed exec
    · exact sound.looked isMaker allowed exec fine
  fork := by
    intro pool phases parent child call next here there _ _ _ allowed forks _
    cases call <;> first | exact allowed.elim | cases forks
  leave := by
    intro pool phases process label sound isLeave _
    refine ⟨phases process, ?_⟩
    rw [Function.update_eq_self]
    exact sound.left isLeave

end Steps

/-! ## The result -/

/-- Whoever has heard the clock has its answer among the calls. -/
theorem Good.heard {words : Nat → Option UInt} {ctime : Option Time}
    {event : Event signature} {events : List (Event signature)}
    (good : Good paths key words ctime (fun _ => True) event)
    (member : event ∈ events) :
    Good paths key words ctime (fun now => ⟨.time, now⟩ ∈ events) event := by
  rcases event with ⟨call, answer⟩
  cases call with
  | time => exact member
  | _ => exact good

section Result

variable {maker : Pid} {n : UShort} {t : BitVec 32}
variable {commands : Pid → Option (Action × Lock.Statics)} {store : Store}

/-- Before the first step only `create` is about to make a set. -/
def starting (maker process : Pid) : Stage :=
  if process = maker then .start else .outside

theorem sound_opening (started : Started maker n t commands)
    (absent : ∀ id, id.key = paths.semKey key → store.sems id = none) :
    Pool.Simulated (protocol paths key (lays n t))
      (Sound paths key (lays n t) maker commands)
      (opening paths key commands store) (starting maker) := by
  refine ⟨⟨?_, ?_, ?_⟩, ?_⟩
  · intro process other
    exact if_neg other
  · constructor
    · intro id set found isUser
      cases (absent id isUser).symm.trans found
    · exact fun _ _ _ _ _ impossible => nomatch impossible
    · exact fun _ => rfl
    · exact fun _ _ _ => rfl
    · exact fun _ _ _ _ impossible => nomatch impossible
  · intro process command _ _ _ before event after split
    cases before <;> cases split
  · intro process program running
    rcases Option.map_eq_some_iff.mp running with ⟨command, isCommand, rfl⟩
    by_cases isMaker : process = maker
    · rcases started.creates with ⟨statics, creates⟩
      rw [isMaker, creates] at isCommand
      cases isCommand
      rw [starting, if_pos isMaker]
      exact conforms_create
    · rw [starting, if_neg isMaker]
      exact conforms_quiet
        (quiet_run (started.others process command isCommand isMaker))

/-- In every run in which each command finds what it needs in `init`, the
commands work with the parameters of the `create`. -/
theorem published_of_timely {pool : Pool signature Pid Store Int}
    (positive : 0 ≤ t.toInt) (started : Started maker n t commands)
    (absent : ∀ id, id.key = paths.semKey key → store.sems id = none)
    (reach : Pool.Reach refusing (Timely paths key commands)
      (opening paths key commands store) pool) :
    Published paths key n t.toInt commands pool := by
  rcases reach.simulated preserves (sound_opening started absent) with
    ⟨phases, sound, _⟩
  intro process command isCommand looks first second rest shsem outcome split
    finds inits
  have other : process ≠ maker := by
    rintro rfl
    rcases started.creates with ⟨statics, creates⟩
    rw [creates] at isCommand
    cases isCommand
    exact looks.elim
  have named : ∀ event ∈ first, Named event := by
    intro event member
    apply reach.answered (fun _ _ _ _ _ => named_exec) rfl process
    rw [split]
    simp [member]
  rcases (naming_look command.1).ends (naming_relied named) finds shsem rfl
    with ⟨isKey, isUser⟩
  have good : ∀ event ∈ second, Good paths key (lays n t)
      (made (paths.semKey key) pool.log)
      (fun now => ⟨.time, now⟩ ∈ second) event := by
    intro event member
    rcases List.append_of_mem member with ⟨before, after, isSecond⟩
    have inits' := inits
    rw [isSecond] at inits'
    rcases inits'.reached.before with ⟨next, reaches⟩
    have isSplit : Pool.eventsOf process pool.log =
        (first ++ before) ++ event :: (after ++ rest) := by
      rw [split, isSecond]
      simp
    exact (sound.good process command other isCommand looks _ event _ isSplit
      ⟨first, before, shsem, next, rfl, finds, reaches⟩).heard member
  exact (hearing_init positive isKey isUser).ends (hearing_relied good) inits

end Result

end Looking

/-! ## A lock with key 5 -/

/-- `lock 5 create -s 3 -x 100`, and another command on the key. -/
def createAnd (action : Action) : Pid → Option (Action × Lock.Statics)
  | 1 => some (.create 3 100, .initial)
  | 2 => some (action, .initial)
  | _ => none

theorem createAnd_started {action : Action} (looks : Looks action) :
    Started 1 3 100 (createAnd action) := by
  refine ⟨⟨.initial, rfl⟩, ?_⟩
  intro process command isCommand other
  unfold createAnd at isCommand
  split at isCommand
  · exact absurd rfl other
  · cases isCommand
    exact looks
  · cases isCommand

theorem createAnd_confined (action : Action) (process : Pid)
    (outsider : process ∉ ([1, 2] : List Pid)) :
    (opening KeyPaths.devtmpfs 5 (createAnd action) (.empty 0)).procs process =
      none := by
  have missing : createAnd action process = none := by
    unfold createAnd
    split
    · exact absurd (by simp) outsider
    · exact absurd (by simp) outsider
    · rfl
  simp [opening, missing]

/-- The check of the run condition, which takes all calls for calls of
`init`. -/
def timely (paths : KeyPaths) (key : Key) (maker : Pid)
    (pool : Pool signature Pid Store Int) : Label signature Pid → Bool
  | .call process ⟨call, answer⟩ =>
      process = maker ||
        match call, answer with
        | .semget .., (found : Except Errno IpcId) => found.isOk
        | .shmget .., (found : Except Errno IpcId) => found.isOk
        | .shmat id, (mapped : Except Errno Addr) =>
            mapped.toOption = some (.mapped id)
        | .load addr offset, _ => stored addr offset pool.log
        | .semctlStat id, _ => id.key ≠ paths.semKey key ||
            (pool.state.sems id).isSome &&
              (made (paths.semKey key) pool.log).isSome
        | _, _ => true
  | _ => true

theorem timely_sound {paths : KeyPaths} {key : Key} {maker : Pid} {n : UShort}
    {t : BitVec 32} {commands : Pid → Option (Action × Lock.Statics)}
    {members : List Pid} (started : Started maker n t commands)
    (pool : Pool signature Pid Store Int) (label : Label signature Pid)
    (_ : ∀ process, process ∉ members → pool.procs process = none)
    (passed : timely paths key maker pool label = true) :
    Timely paths key commands pool label := by
  cases label with
  | call process event =>
      rcases event with ⟨call, answer⟩
      intro command isCommand looks _
      have other : process ≠ maker := by
        rintro rfl
        rcases started.creates with ⟨statics, creates⟩
        rw [creates] at isCommand
        cases isCommand
        exact looks.elim
      simp only [timely, other, decide_false, Bool.false_or] at passed
      cases call with
      | semget name nsems creat excl =>
          cases answer with
          | ok id => exact ⟨id, rfl⟩
          | error errno => cases passed
      | shmget name size creat excl =>
          cases answer with
          | ok id => exact ⟨id, rfl⟩
          | error errno => cases passed
      | shmat id =>
          cases answer with
          | ok addr =>
              have isAddr : addr = .mapped id := by
                simpa [Except.toOption] using passed
              rw [isAddr]
              rfl
          | error errno => simp [Except.toOption] at passed
      | load addr offset => exact passed
      | semctlStat id =>
          intro isUser
          simpa [isUser] using passed
      | _ => trivial
  | _ => trivial

/-- Whether a command has come through `init` and found no expiry. -/
def lasting (paths : KeyPaths) (key : Key) (command : Action × Lock.Statics)
    (events : List (Event signature)) : Bool :=
  match (look paths key command.1).replay events with
  | some (some shsem, later) =>
      ((Lock.init paths command.2 shsem).replay later).any
        fun ending => !ending.1.2.1.expiry
  | _ => false

/-- A `status` that follows the `create`. -/
theorem published_of_timely_status :
    ∃ pool, Pool.Reach refusing (Timely .devtmpfs 5 (createAnd .status))
        (opening .devtmpfs 5 (createAnd .status) (.empty 0)) pool ∧
      ((pool.procs 1).isNone && (pool.procs 2).isNone) = true ∧
      Published .devtmpfs 5 3 100 (createAnd .status) pool := by
  have computed : (follow (timely .devtmpfs 5 1) (turns [(1, 27), (2, 26)])
      (opening .devtmpfs 5 (createAnd .status) (.empty 0))).any (fun pool =>
        (pool.procs 1).isNone && (pool.procs 2).isNone) = true := by
    decide
  have started : Started 1 3 100 (createAnd .status) :=
    createAnd_started trivial
  have reached : ∃ pool, Pool.Reach refusing
      (Timely .devtmpfs 5 (createAnd .status))
      (opening .devtmpfs 5 (createAnd .status) (.empty 0)) pool ∧
        ((pool.procs 1).isNone && (pool.procs 2).isNone) = true :=
    follow_reaches (timely_sound started) (createAnd_confined .status)
      turns_any computed
  rcases reached with ⟨pool, reach, finished⟩
  exact ⟨pool, reach, finished,
    published_of_timely (by decide) started (fun _ _ => rfl) reach⟩

/-- An `on` that comes between the set and the segment takes a unit of a lock
that it believes to last for ever. -/
theorem not_published :
    ¬ ∀ (maker : Pid) (n : UShort) (t : BitVec 32)
      (commands : Pid → Option (Action × Lock.Statics)) (store : Store)
      (pool : Pool signature Pid Store Int),
      0 ≤ t.toInt → Started maker n t commands →
      (∀ id, id.key = KeyPaths.devtmpfs.semKey 5 → store.sems id = none) →
      Pool.Reach granting Pool.Unkilled (opening .devtmpfs 5 commands store)
        pool →
        Published .devtmpfs 5 n t.toInt commands pool := by
  intro claimed
  have computed : (follow unkilled (turns [(1, 3), (2, 6)])
      (opening .devtmpfs 5 (createAnd (.on 0)) (.empty 0))).any (fun pool =>
        lasting .devtmpfs 5 (.on 0, .initial)
          (Pool.eventsOf 2 pool.log)) = true := by
    decide
  have reached : ∃ pool, Pool.Reach granting Pool.Unkilled
      (opening .devtmpfs 5 (createAnd (.on 0)) (.empty 0)) pool ∧
        lasting .devtmpfs 5 (.on 0, .initial) (Pool.eventsOf 2 pool.log) =
          true :=
    follow_reaches unkilled_sound (createAnd_confined (.on 0)) turns_grants
      computed
  rcases reached with ⟨pool, reach, lasts⟩
  unfold lasting at lasts
  split at lasts
  · rename_i shsem later finds
    rcases (Option.any_eq_true _ _).mp lasts with ⟨ending, inits, unset⟩
    rcases Program.replay_ends finds with ⟨first, isFirst, looked⟩
    rcases Program.replay_ends inits with ⟨second, isSecond, inited⟩
    have complete := claimed 1 3 100 (createAnd (.on 0)) (.empty 0) pool
      (by decide) (createAnd_started trivial) (fun _ _ => rfl) reach 2
      (.on 0, .initial) rfl trivial first second ending.2 shsem ending.1
      (by rw [isFirst, isSecond, List.append_assoc]) looked inited
    have expires := complete.expiry
    have isUnset : ending.1.2.1.expiry = false := by simpa using unset
    rw [isUnset] at expires
    exact absurd expires (by decide)
  · cases lasts

end Atomicles.Publication
