import Atomicles.Daemon.Runs
import Atomicles.Daemon.Script
import Atomicles.Lock.Channel

/-!
# What the overview of the services tells

The script asks `daemonize` for the status of a service, and prints what it
makes of the line.  When nobody else is at work on the channel, the overview
shows the words of its segment and which of its processes live, and asking
changes neither the segment nor the mutex.
-/

namespace Atomicles.Daemon

open Interaction CommandLine

/-! ## One process in the world -/

/-- The kernel under one process of a daemon. -/
def machine : Machine signature Pid World where
  exec process call world answer after :=
    ∃ choice, Grants choice ∧
      world.serve process choice call = some (answer, after)
  leave := World.leave
  fork _ _ := none
  clone := World.clone

/-- A call that is about the store and not about processes. -/
def Stored : Call → Prop
  | .fork | .execvp | .sigaction _ | .kill .. | .waitpid _ => False
  | _ => True

theorem Stored.serve {call : Call} (stored : Stored call) (world : World)
    (process : Pid) (choice : Choice) :
    world.serve process choice call =
      (Atomicles.serve process choice call world.store).map fun served =>
        (served.1, { world with store := served.2 }) := by
  cases call <;> first | rfl | exact absurd stored not_false

/-- A signal to a process, or to a group, finds somebody. -/
def World.answers (world : World) (pid : Int) : Bool :=
  pid ≤ 0 || world.living pid.toNat

theorem World.serve_kill (world : World) (process : Pid) {choice : Choice}
    (grants : Grants choice) (pid : Int) :
    world.serve process choice (.kill pid none) =
      some ((if world.answers pid then .ok () else .error .ESRCH), world) := by
  simp only [World.serve, grants.1, World.answers]
  by_cases group : pid ≤ 0
  · simp [group]
  · by_cases lives : world.living pid.toNat = true
    · simp [group, lives]
    · simp [group, lives]

section Rules

variable {Value : Type} {process : Pid} {exempt : Call → Prop}
variable {world : World} {post : Value → World → Prop}

/-- `kill` without a signal finds out whether a process lives. -/
theorem delivers_kill {pid : Int} {continuation : Int → Prog Value}
    (rest : Program.Delivers machine process exempt
      (continuation (if world.answers pid then 0 else -1)) world post) :
    Program.Delivers machine process exempt
      (kill pid none >>= continuation) world post := by
  rw [kill_bind]
  refine Or.inr ⟨⟨_, world, {}, ⟨rfl, rfl⟩,
    world.serve_kill process ⟨rfl, rfl⟩ pid⟩, ?_⟩
  rintro answer after ⟨choice, grants, served⟩
  rw [world.serve_kill process grants pid] at served
  cases served
  cases answers : world.answers pid with
  | true => simpa [answers, outcomeValue] using rest
  | false => simpa [answers, outcomeValue] using rest

/-- `SharedMemory$attach` of a channel that has no segment. -/
theorem delivers_attach_absent {paths : KeyPaths} {key : Key}
    (absent : world.store.findShm (paths.shmKey key) = none)
    {continuation : Option SharedMemory → Prog Value}
    (rest : ∀ seconds, Program.Delivers machine process exempt
      (continuation none) { world with store := world.store.advance seconds }
      post) :
    Program.Delivers machine process exempt
      (SharedMemory.attach paths key >>= continuation) world post := by
  have missing (seconds : Nat) :
      (world.store.advance seconds).shmget (paths.shmKey key) NOP false true =
        (.error .ENOENT, world.store.advance seconds) := by
    have stillAbsent : (world.store.advance seconds).findShm
        (paths.shmKey key) = none := absent
    unfold Store.shmget
    rw [stillAbsent]
    rfl
  have stored : Stored (.shmget (paths.shmKey key) NOP false true) := trivial
  have served (choice : Choice) (grants : Grants choice) :
      world.serve process choice (.shmget (paths.shmKey key) NOP false true) =
        some (.error .ENOENT,
          { world with store := world.store.advance choice.tick }) := by
    rw [stored.serve, Atomicles.serve, grants.1]
    simp only [Option.bind_none, grant, missing, Option.map_some]
  rw [SharedMemory.attach_bind]
  refine Or.inr ⟨⟨_, _, {}, ⟨rfl, rfl⟩, served {} ⟨rfl, rfl⟩⟩, ?_⟩
  rintro answer after ⟨choice, grants, given⟩
  rw [served choice grants] at given
  cases given
  exact rest choice.tick

/-- The segment and the mutex of a channel, and an earlier store that has not
changed apart from them. -/
structure Posted (paths : KeyPaths) (key : Key) (mutex id : IpcId)
    (state : MutexState) (segment : Segment) (base store : Store) : Prop where
  mutexKey : mutex.key = paths.semKey (key + 128)
  mutexLast : store.semGen mutex.key = mutex.generation
  represents : Represents mutex state store
  present : state ≠ .absent
  segmentKey : id.key = paths.shmKey key
  segmentLast : store.shmGen id.key = id.generation
  isSegment : store.shms id = some segment
  kept : segment.dest = false
  apart : Apart ⟨mutex, mutex, id⟩ base store

namespace Posted

variable {paths : KeyPaths} {key : Key} {mutex id : IpcId}
variable {state state' : MutexState} {segment segment' : Segment}
variable {base store after : Store}

/-- A step that changes the mutex or the segment. -/
theorem change (posted : Posted paths key mutex id state segment base store)
    (apart : Apart ⟨mutex, mutex, id⟩ store after)
    (represents : Represents mutex state' after) (present : state' ≠ .absent)
    (isSegment : after.shms id = some segment')
    (kept : segment'.dest = false) :
    Posted paths key mutex id state' segment' base after where
  mutexKey := posted.mutexKey
  mutexLast := by
    rw [apart.semGen]
    exact posted.mutexLast
  represents := represents
  present := present
  segmentKey := posted.segmentKey
  segmentLast := by
    rw [apart.shmGen]
    exact posted.segmentLast
  isSegment := isSegment
  kept := kept
  apart := posted.apart.trans apart

/-- Another segment and the same mutex. -/
theorem changeSegment
    (posted : Posted paths key mutex id state segment base store)
    (kept : segment'.dest = false) :
    Posted paths key mutex id state segment' base
      (store.setShm id (some segment')) := by
  refine posted.change ?_ (posted.represents.of_same rfl) posted.present
    (by simp) kept
  exact
    { sems := fun _ _ _ => rfl
      shms := fun other different => by
        simp [Function.update_of_ne different]
      semGen := rfl
      shmGen := rfl
      now := Int.le_refl _ }

/-- Another state of the mutex and the same segment. -/
theorem changeMutex
    (posted : Posted paths key mutex id state segment base store)
    (represents : Represents mutex state' after) (present : state' ≠ .absent)
    (semGen : after.semGen = store.semGen)
    (others : ∀ other, other ≠ mutex → after.sems other = store.sems other)
    (shms : SameShms store after) (now : store.now ≤ after.now) :
    Posted paths key mutex id state' segment base after := by
  refine posted.change ?_ represents present ?_ posted.kept
  · exact
      { sems := fun other different _ => others other different
        shms := fun other _ => congrFun shms.1 other
        semGen := semGen
        shmGen := shms.2
        now := now }
  · rw [shms.1]
    exact posted.isSegment

theorem advance (posted : Posted paths key mutex id state segment base store)
    (tick : Nat) :
    Posted paths key mutex id state segment base (store.advance tick) :=
  posted.change (.advance _ store tick) (posted.represents.of_same rfl)
    posted.present posted.isSegment posted.kept

theorem semget (posted : Posted paths key mutex id state segment base store) :
    store.semget (paths.semKey (key + 128)) NOP false true =
      (.ok mutex, store) := by
  rcases posted.represents.present posted.present with ⟨set, found, _, _⟩
  have isFound : store.findSem (paths.semKey (key + 128)) = some mutex := by
    rw [← posted.mutexKey]
    simp [Store.findSem, posted.mutexLast, found]
  unfold Store.semget
  rw [isFound]
  simp [NOP]

theorem shmget (posted : Posted paths key mutex id state segment base store) :
    store.shmget (paths.shmKey key) NOP false true = (.ok id, store) := by
  have isFound : store.findShm (paths.shmKey key) = some id := by
    rw [← posted.segmentKey]
    simp [Store.findShm, posted.segmentLast, posted.isSegment, posted.kept]
  unfold Store.shmget
  rw [isFound]
  simp [NOP]

/-- A call on the store, of a process that runs alone. -/
theorem step (posted : Posted paths key mutex id state segment base store)
    {call : Call} {next : call.Answer → Prog Value}
    (good : call.Answer → Prop) (stored : Stored call)
    (granted : ∀ choice store, Grants choice →
      Posted paths key mutex id state segment base store →
        ∃ answer after, grant process choice store call =
            some (answer, after) ∧ good answer ∧
          Posted paths key mutex id state' segment' base after)
    (rest : ∀ answer store, good answer →
      Posted paths key mutex id state' segment' base store →
        Program.Delivers machine process exempt (next answer)
          { world with store } post) :
    Program.Delivers machine process exempt (.issue call next)
      { world with store } post := by
  have serves : ∀ choice, Grants choice → ∃ answer after,
      World.serve process choice call { world with store } =
          some (answer, { world with store := after }) ∧ good answer ∧
        Posted paths key mutex id state' segment' base after := by
    intro choice grants
    rcases granted choice _ grants (posted.advance choice.tick) with
      ⟨answer, after, served, isGood, later⟩
    refine ⟨answer, after, ?_, isGood, later⟩
    rw [stored.serve, Atomicles.serve, grants.1]
    simp [served]
  refine Or.inr ⟨?_, ?_⟩
  · rcases serves {} ⟨rfl, rfl⟩ with ⟨answer, after, served, _⟩
    exact ⟨answer, _, {}, ⟨rfl, rfl⟩, served⟩
  · rintro answer after ⟨choice, grants, served⟩
    rcases serves choice grants with ⟨_, _, same, isGood, later⟩
    rw [same] at served
    cases served
    exact rest _ _ isGood later

variable (world) in
/-- `SharedMemory$attach`, which makes a mapping. -/
theorem attach (posted : Posted paths key mutex id state segment base store)
    {continuation : Option SharedMemory → Prog Value}
    (rest : ∀ shmem store, shmem.Serves mutex (.mapped id) →
      Posted paths key mutex id state
          { segment with attached := process :: segment.attached } base store →
        Program.Delivers machine process exempt (continuation (some shmem))
          { world with store } post) :
    Program.Delivers machine process exempt
      (SharedMemory.attach paths key >>= continuation) { world with store }
      post := by
  rw [SharedMemory.attach_bind]
  apply posted.step fun (found : Except Errno IpcId) => found = .ok id
  · trivial
  · intro choice store _ posted
    exact ⟨_, store, by simp only [grant, posted.shmget], rfl, posted⟩
  rintro _ store rfl posted
  apply posted.step fun (block : Option SharedMemory) =>
    ∃ shmem, block = some shmem
  · trivial
  · intro choice store grants posted
    exact ⟨some { choice.block with
        size := { choice.block.size with assigned := false } }, store,
      by simp only [grant, grants.2, if_true], ⟨_, rfl⟩, posted⟩
  rintro _ store ⟨block, rfl⟩ posted
  dsimp only
  rw [SharedMemory.shmat_bind]
  apply posted.step fun (mapped : Except Errno Addr) =>
    mapped = .ok (.mapped id)
  · trivial
  · intro choice store _ posted
    let mapped : Segment :=
      { segment with attached := process :: segment.attached }
    have isMapped : Posted paths key mutex id state mapped base
        (store.setShm id (some mapped)) := posted.changeSegment posted.kept
    exact ⟨.ok (.mapped id), _,
      by simp only [grant, Store.shmat, posted.isSegment]; rfl, rfl, isMapped⟩
  rintro _ store rfl posted
  simp only [ne_eq, reduceCtorEq, not_false_eq_true, if_true]
  rw [Semaphore.attach_bind]
  apply posted.step fun (found : Except Errno IpcId) => found = .ok mutex
  · trivial
  · intro choice store _ posted
    exact ⟨_, store, by simp only [grant, posted.semget], rfl, posted⟩
  rintro _ store rfl posted
  apply posted.step fun (block : Option Unit) => block = some ()
  · trivial
  · intro choice store grants posted
    exact ⟨some (), store, by simp only [grant, grants.2, if_true], rfl, posted⟩
  rintro _ store rfl posted
  apply posted.step fun (_ : SemidDs) => True
  · trivial
  · intro choice store _ posted
    exact ⟨_, store, rfl, trivial, posted⟩
  intro ds store _ posted
  exact rest _ store ⟨rfl, _, rfl, rfl, rfl⟩ posted

/-- `SharedMemory$read_uint` gives the word at its offset. -/
theorem readUint
    (posted : Posted paths key mutex id .free segment base store)
    {this : SharedMemory} {offset : UShort}
    (serves : this.Serves mutex (.mapped id))
    (attached : process ∈ segment.attached)
    (inside : 4 * offset.toNat + 4 ≤ segment.mappedSize)
    {continuation : UInt → Prog Value}
    (rest : ∀ store, Posted paths key mutex id .free segment base store →
      Program.Delivers machine process exempt
        (continuation (segment.word offset.toNat)) { world with store } post) :
    Program.Delivers machine process exempt
      (SharedMemory.readUint this offset >>= continuation) { world with store }
      post := by
  rcases serves with ⟨isAddr, shsem, owned, isMutex, size⟩
  simp only [SharedMemory.readUint, SharedMemory.readWord, bind_assoc]
  rw [SharedMemory.enter_bind owned, isMutex]
  apply posted.step fun (outcome : Except Errno Unit) => outcome = .ok ()
  · trivial
  · intro choice store _ posted
    rcases posted.represents.takes process choice.underWay with
      ⟨after, served⟩
    rcases posted.represents.take (by simp) served with
      ⟨_, _, taken, semGen, others⟩
    exact ⟨.ok (), after, served, rfl, posted.changeMutex taken (by simp)
      semGen others (Store.semop_shms served) (Store.semop_now served)⟩
  rintro _ store rfl posted
  dsimp only
  rw [SharedMemory.exit_bind owned, isMutex]
  apply posted.step fun (value : Except Errno Nat) => value = .ok 0
  · trivial
  · intro choice store _ posted
    have empty := posted.represents.getval posted.present
    exact ⟨.ok 0, store, by simp only [grant, empty, MutexState.units], rfl,
      posted⟩
  rintro _ store rfl posted
  have used : ((shsem.size.toNat : Int) -
      Semaphore.readValue (.ok 0) > 0) := by
    simp [size, Semaphore.readValue]
  rw [if_pos used]
  apply posted.step fun (outcome : Except Errno Unit) => outcome = .ok ()
  · trivial
  · intro choice store _ posted
    rcases posted.represents.gives choice.underWay with ⟨after, served⟩
    rcases posted.represents.give served with ⟨_, given, semGen, others⟩
    exact ⟨.ok (), after, served, rfl, posted.changeMutex given (by simp)
      semGen others (Store.semop_shms served) (Store.semop_now served)⟩
  rintro _ store rfl posted
  dsimp only
  rw [SharedMemory.load_bind, isAddr]
  apply posted.step fun (word : Option UInt) =>
    word = some (segment.word offset.toNat)
  · trivial
  · intro choice store _ posted
    have access : store.access process (.mapped id) (4 * offset.toNat) 4 =
        some (id, segment) := by
      rw [Store.access_eq_some_iff, Store.mapping_eq_some_iff]
      exact ⟨⟨rfl, posted.isSegment, attached⟩, inside⟩
    exact ⟨_, store, by simp only [grant, Store.load, access, Option.map_some],
      rfl, posted⟩
  rintro _ store rfl posted
  exact rest store posted

end Posted

end Rules

/-! ## The line -/

/-- `main` with `status`, and what is printed. -/
def overview (paths : KeyPaths) (key : Int) : Prog (Text × Label) := do
  let shmem ← SharedMemory.attach paths (BitVec.ofInt 32 key.natAbs)
  statusText shmem key

/-- Without the line it is `main`. -/
theorem overview_main (paths : KeyPaths) (key : Int) :
    (overview paths key >>= fun printed => pure printed.2) =
      main paths .status (BitVec.ofInt 32 key.natAbs) := by
  simp only [overview, main, bind_assoc, statusText_status]

/-- What there is to tell of a channel: three words of its segment, or zeros
where it has none, and who lives. -/
def World.report (world : World) (key : Int) (segment : Option Segment) :
    Report :=
  let word (offset : UShort) : UInt :=
    segment.elim 0 fun segment => segment.word offset.toNat
  let pid := (word OFFSET_PID).toInt
  let cpid := (word OFFSET_CPID).toInt
  { channel := key
    pid
    cpid
    count := word OFFSET_COUNT
    pidAlive := world.answers pid
    cpidAlive := world.answers cpid
    standing :=
      if pid = 0 ∨ cpid = 0 then .missing
      else if world.answers pid = false then .dead
      else if world.answers cpid = false then .recovering
      else .alive }

section Overview

variable {paths : KeyPaths} {key : Int} {mutex id : IpcId}
variable {segment : Segment} {base : Store} {world : World} {process : Pid}

/-- The last branches of `status`, whose word is that of the report. -/
theorem delivers_standing {segment : Option Segment} {buffer : Text}
    {post : Text × Label → World → Prop}
    (prints : post
      (statusLine buffer (world.report key segment).standing, .ended 0) world) :
    Program.Delivers machine process (fun _ => False)
      (if (world.report key segment).pid ≠ 0 ∧
          (world.report key segment).cpid ≠ 0 then do
        if (← kill (world.report key segment).pid none) ≠ 0 then
          return (statusLine buffer .dead, .ended 0)
        else if (← kill (world.report key segment).cpid none) ≠ 0 then
          return (statusLine buffer .recovering, .ended 0)
        else return (statusLine buffer .alive, .ended 0)
      else return (statusLine buffer .missing, .ended 0)) world post := by
  generalize isPid : (world.report key segment).pid = pid
  generalize isCpid : (world.report key segment).cpid = cpid
  have judged : (world.report key segment).standing =
      if pid = 0 ∨ cpid = 0 then .missing
      else if world.answers pid = false then .dead
      else if world.answers cpid = false then .recovering
      else .alive := by
    subst isPid isCpid
    rfl
  rw [judged] at prints
  by_cases missing : pid = 0 ∨ cpid = 0
  · rw [if_neg fun both => missing.elim both.1 both.2]
    rw [if_pos missing] at prints
    exact prints
  rw [if_pos (not_or.mp missing)]
  rw [if_neg missing] at prints
  refine delivers_kill ?_
  cases answers : world.answers pid with
  | false => simpa [answers] using prints
  | true =>
      rw [if_neg (by simp [answers])] at prints
      refine delivers_kill ?_
      cases childAnswers : world.answers cpid with
      | false => simpa [childAnswers] using prints
      | true => simpa [childAnswers] using prints

/-- `status` prints what there is to tell. -/
theorem delivers_statusText {store : Store}
    (posted : Posted paths (BitVec.ofInt 32 key.natAbs) mutex id .free segment
      base store) {shmem : SharedMemory}
    (serves : shmem.Serves mutex (.mapped id))
    (attached : process ∈ segment.attached) (size : segment.size = 16) :
    Program.Delivers machine process (fun _ => False)
      (statusText (some shmem) key) { world with store } fun printed after =>
        printed = ((world.report key (some segment)).line, .ended 0) ∧
          ∃ store, after = { world with store } ∧
            Posted paths (BitVec.ofInt 32 key.natAbs) mutex id .free segment
              base store := by
  have whole : segment.mappedSize = PAGE_SIZE := by
    simp [Segment.mappedSize, size, PAGE_SIZE]
  have inside {offset : UShort} (small : offset.toNat < 4) :
      4 * offset.toNat + 4 ≤ segment.mappedSize := by
    rw [whole, PAGE_SIZE]
    omega
  simp only [statusText, getPid, getCpid, getCount, getWord, bind_assoc,
    pure_bind]
  apply posted.readUint serves attached (inside (by decide))
  intro store posted
  apply posted.readUint serves attached (inside (by decide))
  intro store posted
  apply posted.readUint serves attached (inside (by decide))
  intro store posted
  simp only [daemonstrText, bind_assoc, pure_bind]
  apply delivers_kill
  apply delivers_kill
  have letter (alive : Bool) :
      decide ((if alive then 0 else -1 : Int) ≠ 0) = !alive := by
    cases alive <;> rfl
  have count (word : UInt) : BitVec.ofInt 32 word.toInt = word :=
    BitVec.ofInt_toInt
  simp only [letter, count]
  let now : World := { world with store }
  have prints : (statusLine
      (daemonText key (now.report key (some segment)).pid
        (now.report key (some segment)).cpid
        (now.report key (some segment)).count
        (!(now.report key (some segment)).pidAlive)
        (!(now.report key (some segment)).cpidAlive))
      (now.report key (some segment)).standing) =
        (world.report key (some segment)).line := rfl
  exact @delivers_standing key now process (some segment) _ _
    ⟨Prod.ext prints rfl, store, rfl, posted⟩

/-- A channel has a segment of four words and a mutex that nobody holds, or it
has no segment; apart from them an earlier store has not changed. -/
def Rests (paths : KeyPaths) (key : Key) (segment : Option Segment)
    (base store : Store) : Prop :=
  match segment with
  | some segment =>
      segment.size = 16 ∧
        ∃ mutex id, Posted paths key mutex id .free segment base store
  | none =>
      store.findShm (paths.shmKey key) = none ∧
        ∃ seconds, store = base.advance seconds

/-- The segment with one more mapping. -/
def mapped (process : Pid) (segment : Option Segment) : Option Segment :=
  segment.map fun segment =>
    { segment with attached := process :: segment.attached }

/-- `daemonize --status` on a channel at rest. -/
theorem delivers_overview {segment : Option Segment}
    (rests : Rests paths (BitVec.ofInt 32 key.natAbs) segment world.store
      world.store) :
    Program.Delivers machine process (fun _ => False) (overview paths key)
      world fun printed after =>
        printed = ((world.report key segment).line, .ended 0) ∧
          ∃ store, after = { world with store } ∧
            Rests paths (BitVec.ofInt 32 key.natAbs) (mapped process segment)
              world.store store := by
  cases segment with
  | some segment =>
      rcases rests with ⟨size, mutex, id, posted⟩
      refine posted.attach world ?_
      intro shmem store serves posted
      refine (delivers_statusText posted serves List.mem_cons_self size).mono ?_
      rintro printed after ⟨same, store, rfl, posted⟩
      exact ⟨same, store, rfl, size, mutex, id, posted⟩
  | none =>
      rcases rests with ⟨absent, _⟩
      refine delivers_attach_absent absent fun seconds => ?_
      simp only [statusText, getPid, getCpid, getCount, getWord, pure_bind,
        daemonstrText, bind_assoc]
      apply delivers_kill
      apply delivers_kill
      rw [if_neg fun both => both.1 rfl, Program.pure_eq_done,
        Program.delivers_done]
      exact ⟨rfl, world.store.advance seconds, rfl, absent, seconds, rfl⟩

end Overview

/-! ## The overview -/

/-- The shell command for the status of a channel starts `status` on it. -/
theorem mainArgs_status {words : Text → List Text}
    (splits : Script.Splits words) {daemonize : Text} (path : '/' ∈ daemonize)
    (isPlain : Script.Plain daemonize) (paths : KeyPaths) {key : Int}
    (positive : 0 < key) (small : key < 2 ^ 31) :
    mainArgs paths (words (Script.statusCommand daemonize key)).tail =
      main paths .status (BitVec.ofInt 32 key.natAbs) := by
  let request : Script.Request := ⟨.status, key, []⟩
  have bare : Script.Bare request.command := rfl
  have split : words (Script.statusCommand daemonize key) =
      daemonize :: request.arguments :=
    splits _ _ _ (Script.bare_text isPlain bare)
      (Script.pieces_text (List.ne_nil_of_mem path) isPlain request) path
  have isKey : kept key = key := kept_int (by omega) small
  have taken : course request.arguments = .call .status key := by
    rw [Script.course_arguments, Script.Request.course, isKey]
    exact if_pos ⟨positive, fun impossible => by cases impossible⟩
  simp only [split, List.tail_cons, mainArgs, taken]

/-- What the script makes of a line that its format takes. -/
theorem serve_status {daemonize : Text} {config : Script.Config}
    {«section» service : Text} {key : Int}
    (isService : config.service «section» = some service)
    (isChannel : config.channel «section» = some key)
    (manual_eq_enabled : Bool) {output line : Text}
    (found : format («section» :: service :: split (strip output)) =
      some line) :
    Program.Ends
      (Script.serve daemonize config .status manual_eq_enabled «section»)
      [⟨.communicate (Script.statusCommand daemonize key), output⟩,
        ⟨.write line, ()⟩] (some ()) := by
  unfold Script.serve
  rw [isService, isChannel]
  dsimp only
  rw [if_pos rfl]
  refine Program.ends_bind_iff.mpr ⟨[_], [_], strip output, rfl,
    Program.ends_issue_iff.mpr ⟨output, [], rfl, .done _⟩, ?_⟩
  rw [found]
  exact Program.ends_issue_iff.mpr ⟨(), [], rfl, .done _⟩

/-- The script prints the tokens of a report. -/
theorem serve_report {daemonize : Text} {config : Script.Config}
    {«section» service : Text} {key : Int}
    (isService : config.service «section» = some service)
    (isChannel : config.channel «section» = some key)
    (manual_eq_enabled : Bool) (report : Report) :
    ∃ line, format («section» :: service :: report.tokens) = some line ∧
      Program.Ends
        (Script.serve daemonize config .status manual_eq_enabled «section»)
        [⟨.communicate (Script.statusCommand daemonize key), report.line⟩,
          ⟨.write line, ()⟩] (some ()) := by
  have tokens : split (strip report.line) = report.tokens :=
    (split_strip _).trans (split_line report)
  have found : ∃ line,
      format («section» :: service :: report.tokens) = some line := ⟨_, rfl⟩
  rcases found with ⟨line, found⟩
  refine ⟨line, found, serve_status isService isChannel _ ?_⟩
  rw [tokens, found]

/-- **The overview tells what there is.**  For a channel at rest and any
processes: the shell command of the script runs `status` on the channel, and
its line is that of the words in the segment and of the processes that live.
The script prints these contents for the service, its tokens can be read back,
and nothing but a mapping of the segment is new. -/
theorem overview_true {words : Text → List Text}
    (splits : Script.Splits words) {daemonize : Text} (path : '/' ∈ daemonize)
    (isPlain : Script.Plain daemonize) {config : Script.Config}
    {«section» service : Text} {key : Int}
    (isService : config.service «section» = some service)
    (isChannel : config.channel «section» = some key) (positive : 0 < key)
    (small : key < 2 ^ 31) {paths : KeyPaths} {segment : Option Segment}
    {world : World}
    (rests : Rests paths (BitVec.ofInt 32 key.natAbs) segment world.store
      world.store) (process : Pid) (manual_eq_enabled : Bool) :
    let cmd := Script.statusCommand daemonize key
    let report := world.report key segment
    mainArgs paths (words cmd).tail =
        (overview paths key >>= fun printed => pure printed.2) ∧
      (Program.Delivers machine process (fun _ => False) (overview paths key)
        world fun printed after => printed = (report.line, .ended 0) ∧
          ∃ store, after = { world with store } ∧
            Rests paths (BitVec.ofInt 32 key.natAbs) (mapped process segment)
              world.store store) ∧
      (∃ line, format («section» :: service :: report.tokens) = some line ∧
        Program.Ends
          (Script.serve daemonize config .status manual_eq_enabled «section»)
          [⟨.communicate cmd, report.line⟩, ⟨.write line, ()⟩] (some ())) ∧
      Report.read report.tokens = some report := by
  intro cmd report
  refine ⟨?_, delivers_overview rests, ?_, report.read_tokens⟩
  · rw [overview_main]
    exact mainArgs_status splits path isPlain paths positive small
  · exact serve_report isService isChannel manual_eq_enabled report

/-- A segment that names supervisor 7 and child 8. -/
def naming : Segment :=
  let zeros : Segment := ⟨SHMEM_SIZE, fun _ => 0, [], false⟩
  ((zeros.setWord 1 7).setWord 2 8).setWord 3 1

/-- Only the supervisor lives. -/
def recovering : World :=
  World.initial ((channel []).setShm segmentId (some naming)) (fun _ => false)
    fun process => if process = 7 then some .command else none

theorem overview_true_recovering :
    ∃ config : Script.Config, ∃ line, format
        ["web".toList, "enabled".toList, "5".toList, "P:7".toList,
          "c:8".toList, "1".toList, "Recovering".toList] = some line ∧
      Program.Ends
        (Script.serve "/usr/bin/daemonize".toList config .status false
          "web".toList)
        [⟨.communicate "/usr/bin/daemonize --status 5".toList,
            (recovering.report 5 (some naming)).line⟩,
          ⟨.write line, ()⟩] (some ()) := by
  let config : Script.Config :=
    { sections := ["web".toList]
      service := fun _ => some "enabled".toList
      channel := fun _ => some 5
      command := fun _ => some "/bin/web".toList }
  have posted : Posted .devtmpfs 5 mutexId segmentId .free naming
      recovering.store recovering.store :=
    { mutexKey := rfl
      mutexLast := by decide
      represents :=
        { absent := fun absent => absurd absent (by decide)
          present := fun _ => ⟨_, rfl, rfl, fun _ => rfl⟩ }
      present := by decide
      segmentKey := rfl
      segmentLast := by decide
      isSegment := rfl
      kept := rfl
      apart := .refl _ _ }
  have told := @overview_true (Sequence.pieces Script.blank)
    (fun _ _ _ _ split _ => split) "/usr/bin/daemonize".toList (by decide)
    (by rfl) config "web".toList "enabled".toList 5 rfl rfl (by decide)
    (by decide) .devtmpfs (some naming) recovering
    ⟨rfl, mutexId, segmentId, posted⟩ 9 false
  have tokens : (recovering.report 5 (some naming)).tokens =
      ["5".toList, "P:7".toList, "c:8".toList, "1".toList,
        "Recovering".toList] := by
    decide
  have printed := told.2.2.1
  rw [tokens] at printed
  exact ⟨config, printed⟩

end Atomicles.Daemon
