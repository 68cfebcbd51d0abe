import Atomicles.Lock.Judgement

/-!
# Expiry spares what has not expired

What an `on` has heard in `init` is true of the lock whose set it has attached
to, and stays true; so if it finds that lock expired, and finds the objects of
that lock in `delete`, what it removes has expired.  Otherwise it may remove a
lock that has just been made.
-/

namespace Atomicles.Clearing

open Interaction
open Publication (look opening stored Quiet Named named_exec naming_relied
  naming_look snoc_split quiet_works)
open Ownership (maker madeSet madeSegment filledBy Stage protocol
  maker_later quiet_outside conforms_create conforms_quiet)

/-! ## What the commands have heard -/

/-- The `create`s are in their stages, and what an `on` has heard in `init` and
in `delete` speaks of its lock. -/
structure Sound (paths : KeyPaths) (key : Key)
    (commands : Pid → Option (Action × Lock.Statics))
    (pool : Pool signature Pid Store Int) (phases : Pid → Stage) : Prop where
  roles : ∀ process semaphores expire progress,
    phases process = .creating semaphores expire progress →
      ∃ statics, commands process = some (.create semaphores expire, statics)
  stands : Ownership.Stands paths key pool.state pool.log phases
  named : ∀ process, ∀ event ∈ Pool.eventsOf process pool.log, Named event
  heard : ∀ process timeout statics,
    commands process = some (.on timeout, statics) →
      ∀ before event after,
        Pool.eventsOf process pool.log = before ++ event :: after → ∀ shsem,
          (Judges paths key (.on timeout, statics) shsem before event.call →
            Tells paths key commands pool.log pool.state.now statics shsem
              event) ∧
          (Clears paths key (.on timeout, statics) shsem before event.call →
            Finds paths key pool.log shsem event)

section Later

variable {paths : KeyPaths} {key : Key}
variable {commands : Pid → Option (Action × Lock.Statics)}
variable {log : List (Entry signature Pid Store)} {now now' : Time}
variable {entry : Entry signature Pid Store}
variable {statics : Lock.Statics} {shsem : Semaphore}
variable {event : Event signature}

theorem OneLock.later {makes : Event signature → Option IpcId} {id : IpcId}
    (one : OneLock log shsem makes id) :
    OneLock (entry :: log) shsem makes id := by
  rcases one with ⟨owner, ofSet, ofObject⟩
  exact ⟨owner, maker_later _ ofSet, maker_later _ ofObject⟩

/-- What has been heard in `init` stays true. -/
theorem Tells.later
    (tells : Tells paths key commands log now statics shsem event)
    (filled : ∀ owner created,
      filledBy owner (paths.semKey key) log = some created →
        filledBy owner (paths.semKey key) (entry :: log) = some created)
    (passes : now ≤ now') :
    Tells paths key commands (entry :: log) now' statics shsem event := by
  rcases event with ⟨call, answer⟩
  cases call with
  | shmget name size creat excl =>
      refine ⟨tells.1, ?_⟩
      intro segment isOk
      rcases tells.2 segment isOk with ⟨isName, one⟩
      exact ⟨isName, fun named => (one named).later⟩
  | load addr offset =>
      intro word isWord
      rcases tells word isWord with ⟨segment, isAddr, ofLock⟩
      refine ⟨segment, isAddr, fun named => ?_⟩
      rcases ofLock named with
        ⟨owner, semaphores, expire, statics, isMaker, rest⟩
      exact ⟨owner, semaphores, expire, statics, maker_later _ isMaker, rest⟩
  | semctlStat id =>
      intro isSet
      rcases tells isSet with ⟨owner, isMaker, isFilled⟩
      exact ⟨owner, maker_later _ isMaker, filled _ _ isFilled⟩
  | time => exact Int.le_trans tells passes
  | semget => exact tells
  | shmat => exact tells
  | _ => trivial

/-- What has been found in `delete` stays true. -/
theorem Finds.later (finds : Finds paths key log shsem event) :
    Finds paths key (entry :: log) shsem event := by
  rcases event with ⟨call, answer⟩
  cases call with
  | semget name nsems creat excl =>
      exact fun id isOk names => (finds id isOk names).later
  | shmget name size creat excl =>
      exact fun id isOk isName => (finds id isOk isName).later
  | shmat => exact finds
  | _ => trivial

end Later

section Steps

variable {paths : KeyPaths} {key : Key}
variable {commands : Pid → Option (Action × Lock.Statics)}
variable {pool : Pool signature Pid Store Int} {phases : Pid → Stage}
variable {process : Pid} {timeout : Int} {statics : Lock.Statics}
variable {shsem : Semaphore}

/-- The set that an `on` has attached to is one of the key. -/
theorem Sound.attached (sound : Sound paths key commands pool phases)
    {command : Action × Lock.Statics} {first rest : List (Event signature)}
    (split : Pool.eventsOf process pool.log = first ++ rest)
    (looks : (look paths key command.1).Ends first (some shsem)) :
    shsem.key = key ∧ shsem.id.key = paths.semKey key := by
  have named : ∀ event ∈ first, Named event := by
    intro event member
    apply sound.named process event
    rw [split]
    exact List.mem_append_left _ member
  exact (naming_look command.1).ends (naming_relied named) looks shsem rfl

/-- Whatever comes after the first call of `init` comes after a segment has
been found. -/
theorem judges_found {command : Action × Lock.Statics}
    {events : List (Event signature)} {call : Call}
    (judges : Judges paths key command shsem events call)
    (isKey : shsem.key = key)
    (later : call ≠ .shmget (paths.shmKey key) NOP false true) :
    ∃ before after segment,
      events = before ++ ⟨.shmget (paths.shmKey key) NOP false true,
        (.ok segment : Except Errno IpcId)⟩ :: after ∧
      Judges paths key command shsem before
        (.shmget (paths.shmKey key) NOP false true) := by
  rcases judges with ⟨first, second, next, rfl, looks, reaches⟩
  have starts : ∃ rest, Lock.init paths command.2 shsem =
      .issue (.shmget (paths.shmKey key) NOP false true) rest ∧
        ∀ errno, ∃ outcome, rest (.error errno : Except Errno IpcId) =
          .done outcome := by
    unfold Lock.init
    rw [isKey, SharedMemory.attach_bind]
    exact ⟨_, rfl, fun errno => ⟨_, rfl⟩⟩
  rcases starts with ⟨rest, isInit, fails⟩
  have begins : Judges paths key command shsem first
      (.shmget (paths.shmKey key) NOP false true) := by
    refine ⟨first, [], rest, by simp, looks, ?_⟩
    rw [isInit]
    exact .here _
  rw [isInit] at reaches
  generalize shape : (Program.issue call next :
    Prog (Int × Lock.Statics × Semaphore)) = target at reaches
  cases reaches with
  | here =>
      cases shape
      exact absurd rfl later
  | @issue _ _ answer events _ behind =>
      subst shape
      have finds : ∃ segment, answer = (.ok segment : Except Errno IpcId) := by
        rcases isAnswer : (answer : Except Errno IpcId) with errno | segment
        · rcases fails errno with ⟨outcome, ends⟩
          have stopped : rest answer = .done outcome := by
            rw [← ends, ← isAnswer]
          rw [stopped] at behind
          exact absurd behind Program.not_reaches_done
        · exact ⟨segment, rfl⟩
      rcases finds with ⟨segment, rfl⟩
      exact ⟨first, events, segment, rfl, begins⟩

variable {call : Call} {answer : call.Answer} {state : Store}

/-- A segment under the name of the lock has a maker, who lays its words. -/
theorem Sound.owned (sound : Sound paths key commands pool phases)
    {segment : IpcId} (present : (pool.state.shms segment).isSome = true)
    (isName : segment.key = paths.shmKey key) :
    ∃ owner semaphores expire statics,
      maker madeSegment segment pool.log = some owner ∧
        commands owner = some (.create semaphores expire, statics) ∧
          (phases owner).lays = some (semaphores, expire, segment) := by
  rcases Option.isSome_iff_exists.mp
    (sound.stands.registered.segments.known segment present isName) with
    ⟨owner, isMaker⟩
  have owns := (sound.stands.registered.segments.held segment owner
    trivial).mp isMaker
  cases isStage : phases owner with
  | outside =>
      rw [isStage] at owns
      cases owns
  | creating semaphores expire progress =>
      rcases sound.roles owner semaphores expire progress isStage with
        ⟨statics, isCreate⟩
      refine ⟨owner, semaphores, expire, statics, isMaker, isCreate, ?_⟩
      rw [isStage] at owns
      cases progress <;> cases owns
      rw [isStage]
      rfl

/-- What a lookup of a segment gives is there under its name. -/
theorem found_segment {name : Key} {size : Nat} {excl : Bool}
    {segment : IpcId} {store after : Store}
    (exec : refusing.exec process (.shmget name size false excl) store
      (.ok segment : Except Errno IpcId) after) :
    segment.key = name ∧ (store.shms segment).isSome = true := by
  rcases Store.findShm_eq_some_iff.mp (exec_shmget exec) with
    ⟨isName, _, content, isContent, _⟩
  rw [(exec_sameShms rfl exec).1] at isContent
  exact ⟨isName, by simp [isContent]⟩

/-- An answer in `init`, under the run condition. -/
theorem Sound.tells (sound : Sound paths key commands pool phases)
    (isOn : commands process = some (.on timeout, statics))
    (quiet : Quiet call)
    (exec : refusing.exec process call pool.state answer state)
    (judges : Judges paths key (.on timeout, statics) shsem
      (Pool.eventsOf process pool.log) call)
    (judged : Judged statics shsem pool ⟨call, answer⟩) :
    Tells paths key commands pool.log state.now statics shsem
      ⟨call, answer⟩ := by
  cases call with
  | semget name nsems creat excl => exact judged
  | shmget name size creat excl =>
      cases creat with
      | true => cases quiet
      | false =>
          refine ⟨judged.1, ?_⟩
          rintro segment rfl
          rcases found_segment exec with ⟨isKey, present⟩
          refine ⟨isKey, fun isName => ?_⟩
          rcases sound.owned present (isKey.trans isName) with
            ⟨owner, _, _, _, isMaker, _⟩
          exact ⟨owner, (judged.2 segment rfl).symm.trans isMaker, isMaker⟩
  | shmat id =>
      refine ⟨judged, ?_⟩
      rintro addr rfl
      exact exec_shmat exec
  | load addr offset =>
      rintro word rfl
      have found := exec_load exec
      cases addr with
      | mapped segment =>
          refine ⟨segment, rfl, fun isName => ?_⟩
          rcases Option.map_eq_some_iff.mp found with ⟨content, isContent, _⟩
          rcases sound.owned (by simp [isContent]) isName with
            ⟨owner, semaphores, expire, statics, isMaker, isCreate, lays⟩
          refine ⟨owner, semaphores, expire, statics, isMaker, isCreate, ?_, ?_⟩
          · rintro rfl rfl
            exact sound.stands.worded.zero owner semaphores segment word lays
              found
          · rintro rfl
            exact sound.stands.worded.words owner semaphores expire segment 2 _
              word lays (judged rfl) rfl found
      | _ => cases found
  | semctlStat id =>
      rintro rfl
      rcases judges with ⟨first, second, next, split, looks, reaches⟩
      rcases sound.attached split looks with ⟨isKey, isName⟩
      rcases judges_found ⟨first, second, next, split, looks, reaches⟩ isKey
        nofun with ⟨before, after, segment, earlier, begins⟩
      have heard := (sound.heard process timeout statics isOn before _ after
        earlier shsem).1 begins
      rcases (heard.2 segment rfl).2 rfl with ⟨owner, ofSet, ofSegment⟩
      have owns := (sound.stands.registered.segments.held segment owner
        trivial).mp ofSegment
      have holds := (sound.stands.registered.sets.held shsem.id owner
        isName).mp ofSet
      have isFilled := (sound.stands.dated.filled owner).mp
        (Ownership.Stage.fills_of_segment owns)
      rcases Option.isSome_iff_exists.mp isFilled with ⟨created, isFilled⟩
      rcases Option.isSome_iff_exists.mp (judged rfl) with ⟨set, present⟩
      refine ⟨owner, ofSet, ?_⟩
      rw [isFilled, exec_semctlStat exec present,
        sound.stands.dated.ctime owner shsem.id set created holds isName present
          isFilled]
  | time => exact Int.le_of_eq (exec_time exec)
  | _ => trivial

/-- An answer in `delete`, under the run condition. -/
theorem Sound.finds (sound : Sound paths key commands pool phases)
    (quiet : Quiet call)
    (exec : refusing.exec process call pool.state answer state)
    (cleared : Cleared shsem pool ⟨call, answer⟩) :
    Finds paths key pool.log shsem ⟨call, answer⟩ := by
  cases call with
  | semget name nsems creat excl =>
      cases creat with
      | true => cases quiet
      | false =>
          rintro id rfl names
          rcases Store.findSem_eq_some_iff.mp (exec_semget_looked exec) with
            ⟨isKey, _, present⟩
          have ours : Ownership.Ours paths key id :=
            names.imp isKey.trans isKey.trans
          rcases Option.isSome_iff_exists.mp
            (sound.stands.registered.sets.known id present ours) with
            ⟨owner, isMaker⟩
          exact ⟨owner, (cleared id rfl).symm.trans isMaker, isMaker⟩
  | shmget name size creat excl =>
      cases creat with
      | true => cases quiet
      | false =>
          rintro segment rfl isName
          rcases found_segment exec with ⟨isKey, present⟩
          rcases sound.owned present (isKey.trans isName) with
            ⟨owner, _, _, _, isMaker, _⟩
          exact ⟨owner, (cleared segment rfl).symm.trans isMaker, isMaker⟩
  | shmat id =>
      rcases cleared with ⟨addr, rfl⟩
      have isAddr : addr = .mapped id := exec_shmat exec
      rw [isAddr]
      rfl
  | _ => trivial

/-- A call of a command, under the run condition. -/
theorem Sound.step (sound : Sound paths key commands pool phases)
    {next : call.Answer → Prog Int}
    (allowed : (protocol paths key).allow (phases process) call)
    (exec : refusing.exec process call pool.state answer state)
    (fine : Coherent paths key commands pool
      (.call process ⟨call, answer⟩)) :
    Sound paths key commands
      (pool.record (.call process ⟨call, answer⟩) state
        (Function.update pool.procs process (some (next answer))))
      (Function.update phases process
        ((protocol paths key).next (phases process) call answer)) := by
  have filled : ∀ owner created,
      filledBy owner (paths.semKey key) pool.log = some created →
        filledBy owner (paths.semKey key)
          (⟨.call process ⟨call, answer⟩, state⟩ :: pool.log) =
            some created :=
    fun _ _ isFilled => sound.stands.filled_later allowed isFilled
  constructor
  · intro other semaphores expire progress isStage
    by_cases here : other = process
    · subst here
      rw [Function.update_self] at isStage
      rcases Ownership.next_creating isStage with ⟨before, isBefore⟩
      exact sound.roles other semaphores expire before isBefore
    · rw [Function.update_of_ne here] at isStage
      exact sound.roles other semaphores expire progress isStage
  · exact sound.stands.step allowed exec
  · intro other event member
    by_cases same : process = other
    · subst same
      simp only [Pool.record_log, Pool.eventsOf, if_true, List.mem_append,
        List.mem_singleton] at member
      rcases member with earlier | rfl
      · exact sound.named process event earlier
      · exact named_exec exec
    · simp only [Pool.record_log, Pool.eventsOf, if_neg same] at member
      exact sound.named other event member
  · intro other timeout statics isOn before event after split shsem
    by_cases same : process = other
    · subst same
      have quiet : Quiet call := by
        cases isStage : phases process with
        | outside =>
            rw [isStage] at allowed
            exact quiet_outside allowed
        | creating semaphores expire progress =>
            rcases sound.roles process semaphores expire progress isStage with
              ⟨_, isCreate⟩
            cases isOn.symm.trans isCreate
      simp only [Pool.record_log, Pool.eventsOf, if_true] at split
      rcases snoc_split split with ⟨rfl, rfl⟩ | ⟨rest, earlier⟩
      · have fine := fine timeout statics shsem isOn
        refine ⟨fun judges => ?_, fun clears => ?_⟩
        · exact (sound.tells isOn quiet exec judges
            (fine.1 judges)).later filled (Int.le_refl _)
        · exact (sound.finds quiet exec (fine.2 clears)).later
      · have heard := sound.heard process timeout statics isOn before event
          rest earlier shsem
        exact ⟨fun judges => (heard.1 judges).later filled (exec_now exec),
          fun clears => (heard.2 clears).later⟩
    · simp only [Pool.record_log, Pool.eventsOf, if_neg same] at split
      have heard := sound.heard other timeout statics isOn before event after
        split shsem
      exact ⟨fun judges => (heard.1 judges).later filled (exec_now exec),
        fun clears => (heard.2 clears).later⟩

/-- A process ends or is killed. -/
theorem Sound.left (sound : Sound paths key commands pool phases)
    {label : Label signature Pid} {procs : Pid → Option (Prog Int)}
    (isLeave : label = .leave process ∨ label = .kill process) :
    Sound paths key commands
      (pool.record label (pool.state.leave process) procs) phases := by
  have events : ∀ other, Pool.eventsOf other
      (⟨label, pool.state.leave process⟩ :: pool.log) =
        Pool.eventsOf other pool.log := by
    intro other
    rcases isLeave with rfl | rfl <;> rfl
  have filled : ∀ owner created,
      filledBy owner (paths.semKey key) pool.log = some created →
        filledBy owner (paths.semKey key)
          (⟨label, pool.state.leave process⟩ :: pool.log) = some created := by
    intro owner created isFilled
    rcases isLeave with rfl | rfl <;> exact isFilled
  constructor
  · exact sound.roles
  · exact sound.stands.leave isLeave
  · intro other event member
    rw [Pool.record_log, events] at member
    exact sound.named other event member
  · intro other timeout statics isOn before event after split shsem
    rw [Pool.record_log, events] at split
    have heard := sound.heard other timeout statics isOn before event after
      split shsem
    exact ⟨fun judges => (heard.1 judges).later filled (Int.le_refl _),
      fun clears => (heard.2 clears).later⟩

theorem preserves :
    Pool.Preserves refusing (Coherent paths key commands) (protocol paths key)
      (Sound paths key commands) where
  call := by
    intro pool phases process call next answer state sound _ allowed exec fine
    exact ⟨named_exec exec, sound.step allowed exec fine⟩
  fork := by
    intro pool phases parent child call next here there _ _ _ allowed forks _
    cases call <;> first | exact allowed.elim | cases forks
  leave := by
    intro pool phases process label sound isLeave _
    refine ⟨phases process, ?_⟩
    rw [Function.update_eq_self]
    exact sound.left isLeave

/-- An `on` that is about to remove an object has judged an expired lock, and
removes an object of that lock. -/
theorem Sound.removes (sound : Sound paths key commands pool phases)
    {next : call.Answer → Prog Int}
    (isOn : commands process = some (.on timeout, statics))
    (reaches : (Lock.lock paths statics key timeout).Reaches
      (Pool.eventsOf process pool.log) (.issue call next))
    (removes : Removes call) :
    ∃ first second shsem, Pool.eventsOf process pool.log = first ++ second ∧
      (look paths key (.on timeout)).Ends first (some shsem) ∧
      Over paths key commands pool.log pool.state.now shsem ∧
      Takes pool.log shsem call := by
  rcases removes_clears removes reaches with
    ⟨shsem, first, second, third, outcome, last, split, looks, judges,
      expires, clears⟩
  have begins : Pool.eventsOf process pool.log =
      first ++ (second ++ third) := by
    rw [split, List.append_assoc]
  have isKey : shsem.key = key := (sound.attached begins looks).1
  have tells : ∀ event ∈ second, Tells paths key commands pool.log
      pool.state.now statics shsem event := by
    intro event member
    rcases List.append_of_mem member with ⟨before, after, rfl⟩
    rcases judges.reached.before with ⟨next, reaches⟩
    apply (sound.heard process timeout statics isOn (first ++ before) event
      (after ++ third) (by rw [split]; simp) shsem).1
    exact ⟨first, before, next, rfl, looks, reaches⟩
  have finds : ∀ event ∈ third, Finds paths key pool.log shsem event := by
    intro event member
    rcases List.append_of_mem member with ⟨before, after, rfl⟩
    rcases clears.before with ⟨next, reaches⟩
    apply (sound.heard process timeout statics isOn
      (first ++ second ++ before) event after (by rw [split]; simp) shsem).2
    exact ⟨first, second, before, outcome, next, rfl, looks, judges,
      expires, reaches⟩
  exact ⟨first, second ++ third, shsem, begins, looks,
    (judges_init isKey).ends (hearing_relied tells) judges expires,
    clears_delete.allows (hearing_relied finds) clears⟩

theorem Lapsed.later {log : List (Entry signature Pid Store)} {now now' : Time}
    {owner : Pid} (lapsed : Lapsed paths key commands log now owner)
    (passes : now ≤ now') : Lapsed paths key commands log now' owner := by
  rcases lapsed with
    ⟨semaphores, expire, statics, created, isCreate, expires, filled, due⟩
  exact ⟨semaphores, expire, statics, created, isCreate, expires, filled,
    Int.le_trans due passes⟩

/-- What an `on` removes is due. -/
theorem Sound.spares (sound : Sound paths key commands pool phases)
    {next : call.Answer → Prog Int} {answer : call.Answer} {state : Store}
    {makes : Event signature → Option IpcId} {id : IpcId}
    (isOn : commands process = some (.on timeout, statics))
    (reaches : (Lock.lock paths statics key timeout).Reaches
      (Pool.eventsOf process pool.log) (.issue call next))
    (exec : refusing.exec process call pool.state answer state)
    (isRemoved : removed ⟨call, answer⟩ = some (makes, id)) :
    Due paths key commands process timeout pool.log state.now makes id := by
  have removes : Removes call := by
    cases call <;> trivial
  rcases sound.removes isOn reaches removes with
    ⟨first, second, shsem, split, looks, ⟨owner, ofJudged, lapsed⟩, takes⟩
  have one : OneLock pool.log shsem makes id := by
    cases call with
    | semctlRmid target =>
        cases answer <;> cases isRemoved
        exact takes
    | shmctlRmid target =>
        cases answer <;> cases isRemoved
        exact takes
    | _ => exact removes.elim
  rcases one with ⟨maker, ofSet, ofObject⟩
  cases ofJudged.symm.trans ofSet
  exact ⟨owner, ⟨first, second, shsem, split, looks, ofSet⟩, ofObject,
    lapsed.later (exec_now exec)⟩

end Steps

/-! ## The result -/

section Result

variable {paths : KeyPaths} {key : Key}
variable {commands : Pid → Option (Action × Lock.Statics)} {store : Store}

/-- Before the first step the `create`s are about to make their sets. -/
def starting (commands : Pid → Option (Action × Lock.Statics))
    (process : Pid) : Stage :=
  match commands process with
  | some (.create semaphores expire, _) =>
      .creating semaphores expire .start
  | _ => .outside

theorem starting_cases (commands : Pid → Option (Action × Lock.Statics))
    (process : Pid) :
    starting commands process = .outside ∨
      ∃ semaphores expire statics,
        commands process = some (.create semaphores expire, statics) ∧
          starting commands process = .creating semaphores expire .start := by
  unfold starting
  split
  · rename_i semaphores expire statics isCreate
    exact Or.inr ⟨semaphores, expire, statics, isCreate, rfl⟩
  · exact Or.inl rfl

theorem sound_opening
    (contends : ∀ process command, commands process = some command →
      Contends command.1)
    (noSets : ∀ id, Ownership.Ours paths key id → store.sems id = none)
    (noSegments : ∀ id, id.key = paths.shmKey key → store.shms id = none) :
    Pool.Simulated (protocol paths key) (Sound paths key commands)
      (opening paths key commands store) (starting commands) := by
  have holds : ∀ process, (starting commands process).user = none ∧
      (starting commands process).lays = none ∧
        ¬ (starting commands process).Fills := by
    intro process
    rcases starting_cases commands process with
      isStage | ⟨_, _, _, _, isStage⟩
    all_goals
      rw [isStage]
      exact ⟨rfl, rfl, not_false⟩
  refine ⟨⟨?_, ?_, ?_, ?_⟩, ?_⟩
  · intro process semaphores expire progress isStage
    rcases starting_cases commands process with
      outside | ⟨_, _, statics, isCreate, isStart⟩
    · cases outside.symm.trans isStage
    · cases isStart.symm.trans isStage
      exact ⟨statics, isCreate⟩
  · exact Ownership.Stands.opening noSets noSegments
      (fun process => (holds process).1) (fun process => (holds process).2.1)
      fun process => (holds process).2.2
  · rintro process event ⟨⟩
  · intro process timeout statics _ before event after split
    exact absurd split.symm (by simp [opening, Pool.eventsOf])
  · intro process program running
    rcases Option.map_eq_some_iff.mp running with ⟨command, isCommand, rfl⟩
    rcases command with ⟨action, statics⟩
    have contending := contends process _ isCommand
    have works : ∀ call : Call, call.works = true → Quiet call := quiet_works
    unfold starting
    rw [isCommand]
    cases action with
    | create semaphores expire => exact conforms_create
    | on timeout =>
        exact conforms_quiet (Lock.within_lock works statics key timeout)
    | delete =>
        exact conforms_quiet
          (Lock.within_delete (works_finds works) (works_removes works) key)
    | _ => exact contending.elim

/-- A longer log is spared if the step that it ends with spares. -/
theorem Spares.extend {log : List (Entry signature Pid Store)}
    {entry : Entry signature Pid Store}
    (spares : Spares paths key commands log)
    (last : ∀ process timeout statics event state makes id,
      commands process = some (.on timeout, statics) →
        entry = ⟨.call process event, state⟩ →
          removed event = some (makes, id) →
            Due paths key commands process timeout log state.now makes id) :
    Spares paths key commands (entry :: log) := by
  intro process timeout statics event state later earlier makes id isOn split
    isRemoved
  cases later with
  | nil =>
      rcases List.cons.inj split with ⟨isEntry, rfl⟩
      exact last process timeout statics event state makes id isOn isEntry
        isRemoved
  | cons newest later =>
      exact spares process timeout statics event state later earlier makes id
        isOn (List.cons.inj split).2 isRemoved

/-- With any number of `on`s, `create`s and `delete`s on one key, in any order
of their steps and with any choices of the kernel, whatever an `on` has removed
belonged to a lock that had expired, as long as whatever it judges and clears
is one lock. -/
theorem spares_of_coherent
    {pool : Pool signature Pid Store Int}
    (contends : ∀ process command, commands process = some command →
      Contends command.1)
    (noSets : ∀ id, Ownership.Ours paths key id → store.sems id = none)
    (noSegments : ∀ id, id.key = paths.shmKey key → store.shms id = none)
    (reach : Pool.Reach refusing (Coherent paths key commands)
      (opening paths key commands store) pool) :
    Spares paths key commands pool.log := by
  have start := sound_opening contends noSets noSegments
  have forkless := reach.unforked preserves start (by
    intro phase call child allowed
    cases call <;> first | rfl | exact allowed.elim)
  clear reach
  induction forkless with
  | start =>
      intro process timeout statics event state later earlier makes id _ split
      simp [opening] at split
  | @step pool after label before step fine ih =>
      cases step with
      | @call actor call next answer state running exec =>
          rw [Pool.record_log]
          apply ih.extend
          rintro process timeout statics event _ makes id isOn ⟨⟩ isRemoved
          have sound : ∃ phases, Pool.Simulated (protocol paths key)
              (Sound paths key commands) pool phases :=
            (before.mono fun _ _ fine => fine.1).simulated preserves start
          rcases sound with ⟨phases, sound, _⟩
          rcases before.reaches (fun _ _ fine => fine.2) rfl _ _ running with
            ⟨program, started, reaches⟩
          simp only [opening, isOn, Option.map_some] at started
          cases started
          exact sound.spares isOn reaches exec isRemoved
      | _ =>
          rw [Pool.record_log]
          apply ih.extend
          rintro process timeout statics event state makes id _ ⟨⟩

end Result

/-! ## A lock with key 5 -/

/-- `lock 5 create -s 1 -x 1`, an `on`, a `delete`, and another `create` with
`-x 100`. -/
def successors : Pid → Option (Action × Lock.Statics)
  | 1 => some (.create 1 1, .initial)
  | 2 => some (.on 0, .initial)
  | 3 => some (.delete, .initial)
  | 4 => some (.create 1 100, .initial)
  | _ => none

theorem successors_contend (process : Pid) (command : Action × Lock.Statics)
    (isCommand : successors process = some command) : Contends command.1 := by
  unfold successors at isCommand
  split at isCommand <;> first | cases isCommand; trivial | cases isCommand

theorem successors_confined (process : Pid)
    (outsider : process ∉ ([1, 2, 3, 4] : List Pid)) :
    (opening KeyPaths.devtmpfs 5 successors (.empty 0)).procs process =
      none := by
  have missing : successors process = none := by
    unfold successors
    split <;> first | rfl | simp at outsider
  simp [opening, missing]

/-- The `on` looks at the lock five seconds later, and these turns follow. -/
def later (before after : List (Pid × Nat)) : List (Pid × Choice) :=
  turns before ++ (2, { tick := 5 }) :: turns after

theorem later_grants {before after : List (Pid × Nat)} :
    ∀ entry ∈ later before after, Grants entry.2 := by
  intro entry member
  rcases List.mem_append.mp member with isBefore | isAfter
  · exact turns_grants entry isBefore
  · rcases List.mem_cons.mp isAfter with rfl | isAfter
    · exact ⟨rfl, rfl⟩
    · exact turns_grants entry isAfter

/-- The check of the run condition, which takes all calls on the lock that an
`on` has attached to for calls of `init` and of `delete`. -/
def together (shsem : Semaphore) (pool : Pool signature Pid Store Int) :
    Event signature → Bool
  | ⟨.semget .., (found : Except Errno IpcId)⟩ => found.toOption.any fun id =>
      maker madeSet id pool.log = maker madeSet shsem.id pool.log
  | ⟨.shmget .., (found : Except Errno IpcId)⟩ => found.toOption.any fun id =>
      maker madeSegment id pool.log = maker madeSet shsem.id pool.log
  | ⟨.shmat _, (mapped : Except Errno Addr)⟩ => mapped.toOption.isSome
  | ⟨.load addr offset, _⟩ => stored addr offset pool.log
  | ⟨.semctlStat id, _⟩ => (pool.state.sems id).isSome
  | _ => true

def coherent (paths : KeyPaths) (key : Key)
    (pool : Pool signature Pid Store Int) : Label signature Pid → Bool
  | .call process event =>
      match (look paths key (.on 0)).replay
          (Pool.eventsOf process pool.log) with
      | some (some shsem, _) => together shsem pool event
      | _ => true
  | _ => true

/-- Whether the last call has removed the set of the second `create` before
its time. -/
def premature : List (Entry signature Pid Store) → Bool
  | ⟨.call process ⟨.semctlRmid id, (.ok () : Except Errno Unit)⟩, state⟩ ::
      earlier =>
      process = 2 && maker madeSet id earlier = some 4 &&
        (filledBy 4 (KeyPaths.devtmpfs.semKey 5) earlier).any
          fun created => state.now < created + 100
  | _ => false

/-- Whether the first `create` is gone with its set and its segment. -/
def cleared (pool : Pool signature Pid Store Int) : Bool :=
  (pool.procs 2).isNone && pool.log.any fun entry =>
    match entry with
    | ⟨.call process ⟨.shmctlRmid id, (.ok () : Except Errno Unit)⟩, _⟩ =>
        process = 2 && maker madeSegment id pool.log = some 1
    | _ => false

/-- What is checked covers `init` and `delete`. -/
theorem judged_together (statics : Lock.Statics) {shsem : Semaphore}
    {pool : Pool signature Pid Store Int} {event : Event signature}
    (passed : together shsem pool event = true) :
    Judged statics shsem pool event ∧ Cleared shsem pool event := by
  rcases event with ⟨call, answer⟩
  cases call with
  | semget name nsems creat excl =>
      rcases (Option.any_eq_true _ _).mp passed with ⟨id, isOk, isMaker⟩
      cases answer with
      | error errno => cases isOk
      | ok found =>
          cases isOk
          refine ⟨fun _ => ⟨_, rfl⟩, ?_⟩
          rintro id ⟨⟩
          exact of_decide_eq_true isMaker
  | shmget name size creat excl =>
      rcases (Option.any_eq_true _ _).mp passed with ⟨id, isOk, isMaker⟩
      cases answer with
      | error errno => cases isOk
      | ok found =>
          cases isOk
          refine ⟨⟨fun _ => ⟨_, rfl⟩, ?_⟩, ?_⟩
          all_goals
            rintro id ⟨⟩
            exact of_decide_eq_true isMaker
  | shmat id =>
      cases answer with
      | error errno => cases passed
      | ok addr => exact ⟨fun _ => ⟨addr, rfl⟩, addr, rfl⟩
  | load addr offset => exact ⟨fun _ => passed, trivial⟩
  | semctlStat id => exact ⟨fun _ => passed, trivial⟩
  | _ => exact ⟨trivial, trivial⟩

theorem coherent_sound {paths : KeyPaths} {key : Key}
    {commands : Pid → Option (Action × Lock.Statics)} {members : List Pid}
    (pool : Pool signature Pid Store Int) (label : Label signature Pid)
    (_ : ∀ process, process ∉ members → pool.procs process = none)
    (passed : coherent paths key pool label = true) :
    Coherent paths key commands pool label := by
  cases label with
  | call process event =>
      intro timeout statics shsem _
      have attached : ∀ first second,
          Pool.eventsOf process pool.log = first ++ second →
          (look paths key (.on timeout)).Ends first (some shsem) →
            together shsem pool event = true := by
        intro first second split looks
        have replayed : (look paths key (.on 0)).replay
            (Pool.eventsOf process pool.log) = some (some shsem, second) := by
          rw [split]
          exact looks.replay second
        simpa only [coherent, replayed] using passed
      constructor
      · rintro ⟨first, second, next, split, looks, _⟩
        exact (judged_together statics (attached first second split looks)).1
      · rintro ⟨first, second, third, _, next, split, looks, _⟩
        rw [List.append_assoc] at split
        exact (judged_together statics
          (attached first (second ++ third) split looks)).2
  | _ => trivial

/-- An `on` that is alone with the first `create` removes what that has
made. -/
theorem spares_of_coherent_on :
    ∃ pool, Pool.Reach refusing (Coherent .devtmpfs 5 successors)
        (opening .devtmpfs 5 successors (.empty 0)) pool ∧
      cleared pool = true ∧ Spares .devtmpfs 5 successors pool.log := by
  have computed : (follow (coherent .devtmpfs 5) (later [(1, 27)] [(2, 39)])
      (opening .devtmpfs 5 successors (.empty 0))).any cleared = true := by
    set_option maxRecDepth 1000 in
    decide
  have reached : ∃ pool, Pool.Reach refusing (Coherent .devtmpfs 5 successors)
      (opening .devtmpfs 5 successors (.empty 0)) pool ∧
        cleared pool = true :=
    follow_reaches coherent_sound successors_confined
      (fun _ _ => trivial) computed
  rcases reached with ⟨pool, reach, isCleared⟩
  exact ⟨pool, reach, isCleared, spares_of_coherent successors_contend
    (fun _ _ => rfl) (fun _ _ => rfl) reach⟩

/-- The `on` judges the first lock.  Before it removes anything, the `delete`
removes the lock and the second `create` makes another, which the `on` then
finds under the key. -/
theorem not_spares :
    ¬ ∀ (commands : Pid → Option (Action × Lock.Statics)) (store : Store)
      (pool : Pool signature Pid Store Int),
      (∀ process command, commands process = some command →
        Contends command.1) →
      (∀ id, Ownership.Ours .devtmpfs 5 id → store.sems id = none) →
      (∀ id, id.key = KeyPaths.devtmpfs.shmKey 5 → store.shms id = none) →
      Pool.Reach granting Pool.Unkilled (opening .devtmpfs 5 commands store)
        pool →
        Spares .devtmpfs 5 commands pool.log := by
  intro claimed
  have computed : (follow unkilled
      (later [(1, 27)] [(2, 23), (3, 16), (4, 27), (2, 4)])
      (opening .devtmpfs 5 successors (.empty 0))).any (fun pool =>
        premature pool.log) = true := by
    set_option maxRecDepth 1000 in
    decide
  have reached : ∃ pool, Pool.Reach granting Pool.Unkilled
      (opening .devtmpfs 5 successors (.empty 0)) pool ∧
        premature pool.log = true :=
    follow_reaches unkilled_sound successors_confined later_grants computed
  rcases reached with ⟨pool, reach, isPremature⟩
  have spares := claimed successors (.empty 0) pool successors_contend
    (fun _ _ => rfl) (fun _ _ => rfl) reach
  unfold premature at isPremature
  split at isPremature
  · rename_i process id state earlier isLog
    simp only [Bool.and_eq_true, decide_eq_true_eq] at isPremature
    rcases isPremature with ⟨⟨rfl, isMaker⟩, isEarly⟩
    rcases (Option.any_eq_true _ _).mp isEarly with ⟨created, isFilled, early⟩
    rcases spares 2 0 .initial _ state [] earlier madeSet id rfl isLog rfl with
      ⟨owner, _, isOwner, _, expire, _, filled, isCreate, _, isFilling, due⟩
    cases isMaker.symm.trans isOwner
    cases isCreate
    cases isFilled.symm.trans isFilling
    exact absurd (of_decide_eq_true early) (Int.not_lt.mpr due)
  · cases isPremature

end Atomicles.Clearing
