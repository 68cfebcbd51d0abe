import Atomicles.Lock.Expiry
import Atomicles.Source.LockMain

/-!
# What `create` publishes and what `init` finds

`create` makes the set before the segment, and stores the words of the segment
one by one.  A command that finds the set goes on to `init`, whose failure it
ignores.  It works with the parameters of the `create` if whatever it looks up
in `init` is there and each word that it loads has been stored.
-/

namespace Atomicles.Publication

open Interaction

/-- The commands that work with a lock they find. -/
def Looks : Action → Prop
  | .on _ => True
  | .off => True
  | .status => True
  | .summary => True
  | _ => False

/-- The words of `create`. -/
abbrev lays (n : UShort) (t : BitVec 32) : Nat → Option UInt :=
  Expiry.written (n.setWidth 32) t.toInt

section Definitions

variable (paths : KeyPaths) (key : Key)

/-- What a command does before it calls `init`. -/
def look : Action → Prog (Option Semaphore)
  | .on _ => do
      if ← Semaphore.exists paths key then Semaphore.attach paths key
      else return none
  | _ => Semaphore.attach paths key

/-- A command that has made these calls makes the next one in `init`. -/
def Reads (command : Action × Lock.Statics) (events : List (Event signature))
    (call : Call) : Prop :=
  ∃ first second shsem next, events = first ++ second ∧
    (look paths key command.1).Ends first (some shsem) ∧
    (Lock.init paths command.2 shsem).Reaches second (.issue call next)

/-- The creation time that the last `SETALL` on a set of a name has left. -/
def made (name : Key) : List (Entry signature Pid Store) → Option Time
  | [] => none
  | ⟨.call _ ⟨.semctlSetall id _, (filled : Except Errno Unit)⟩, store⟩ ::
      earlier =>
      if id.key = name ∧ filled = .ok () then
        (store.sems id).map (·.sem_ctime)
      else made name earlier
  | _ :: earlier => made name earlier

/-- Whether a word has been stored, and not been cleared since. -/
def stored (addr : Addr) (offset : Nat) :
    List (Entry signature Pid Store) → Bool
  | [] => false
  | ⟨.call _ ⟨.store target index _, (done : Option Unit)⟩, _⟩ :: earlier =>
      target = addr && index = offset && done.isSome ||
        stored addr offset earlier
  | ⟨.call _ ⟨.memset target n, _⟩, _⟩ :: earlier =>
      !(target = addr && 4 * offset < n) && stored addr offset earlier
  | _ :: earlier => stored addr offset earlier

/-- What a call of `init` needs: the object that it looks up is there, the word
that it loads has been stored, and the set whose creation time it reads is
there and has been filled. -/
def Supports (pool : Pool signature Pid Store Int) : Event signature → Prop
  | ⟨.semget .., (found : Except Errno IpcId)⟩ => ∃ id, found = .ok id
  | ⟨.shmget .., (found : Except Errno IpcId)⟩ => ∃ id, found = .ok id
  | ⟨.shmat id, (mapped : Except Errno Addr)⟩ => mapped = .ok (.mapped id)
  | ⟨.load addr offset, _⟩ => stored addr offset pool.log = true
  | ⟨.semctlStat id, _⟩ => id.key = paths.semKey key →
      (pool.state.sems id).isSome = true ∧
        (made (paths.semKey key) pool.log).isSome = true
  | _ => True

/-- The run condition: whatever a command needs in `init` is there. -/
def Timely (commands : Pid → Option (Action × Lock.Statics))
    (pool : Pool signature Pid Store Int) : Label signature Pid → Prop
  | .call process event => ∀ command, commands process = some command →
      Looks command.1 →
      Reads paths key command (Pool.eventsOf process pool.log) event.call →
        Supports paths key pool event
  | _ => True

/-- The commands that are about to start. -/
def opening (commands : Pid → Option (Action × Lock.Statics)) (store : Store) :
    Pool signature Pid Store Int where
  state := store
  procs process := (commands process).map fun command =>
    command.1.run paths command.2 key
  log := []

/-- One `create`, besides commands that work with the lock. -/
structure Started (maker : Pid) (n : UShort) (t : BitVec 32)
    (commands : Pid → Option (Action × Lock.Statics)) : Prop where
  creates : ∃ statics,
    commands maker = some (.create (n.setWidth 32) t.toInt, statics)
  others : ∀ process command, commands process = some command →
    process ≠ maker → Looks command.1

/-- What `init` has to find of a `create`: the size, whether the lock expires,
and the time from the creation time on. -/
structure Complete (n : UShort) (t : Time) (ctime : Option Time)
    (events : List (Event signature))
    (outcome : Int × Lock.Statics × Semaphore) : Prop where
  size : outcome.2.2.size = n
  expiry : outcome.2.1.expiry = decide (t ≠ 0)
  deadline : t ≠ 0 → ∃ created now, ctime = some created ∧
    ⟨.time, now⟩ ∈ events ∧ outcome.2.1.delta + now = created + t

/-- Every command that has found the set and come through `init` goes on with
the parameters of the `create`. -/
def Published (n : UShort) (t : Time)
    (commands : Pid → Option (Action × Lock.Statics))
    (pool : Pool signature Pid Store Int) : Prop :=
  ∀ process command, commands process = some command → Looks command.1 →
    ∀ first second rest shsem outcome,
      Pool.eventsOf process pool.log = first ++ second ++ rest →
      (look paths key command.1).Ends first (some shsem) →
      (Lock.init paths command.2 shsem).Ends second outcome →
        Complete n t (made (paths.semKey key) pool.log) second outcome

end Definitions

/-! ## `init` within the commands -/

section Looking

variable {paths : KeyPaths} {key : Key}

theorem attach_look {statics : Lock.Statics}
    {works : Option Semaphore → Prog Int}
    {act : Int × Lock.Statics × Semaphore → Prog Int}
    (inits : ∀ shsem,
      works (some shsem) = Lock.init paths statics shsem >>= act) :
    Semaphore.attach paths key >>= works =
      Semaphore.attach paths key >>= fun found =>
        found.elim (works none) fun shsem =>
          Lock.init paths statics shsem >>= act := by
  refine congrArg _ (funext fun found => ?_)
  cases found with
  | none => rfl
  | some shsem => exact inits shsem

/-- `lock` judges what it finds, and goes on from there. -/
theorem lock_look {timeout : Int} {statics : Lock.Statics} :
    Lock.lock paths statics key timeout =
      look paths key (.on timeout) >>= fun found =>
        found.elim (return -1) fun shsem =>
          Lock.init paths statics shsem >>= fun outcome =>
            Lock.lockBody paths key timeout outcome.2.1 outcome.2.2 := by
  simp only [Lock.lock, look, bind_assoc]
  refine congrArg _ (funext fun found => ?_)
  cases found with
  | false => rfl
  | true =>
      simp only [if_true]
      refine congrArg _ (funext fun shsem => ?_)
      cases shsem <;> rfl

/-- A command that finds a set goes on to `init`, and from there it depends on
what `init` returned. -/
theorem run_look {command : Action × Lock.Statics} (looks : Looks command.1) :
    ∃ (missing : Prog Int) (act : Int × Lock.Statics × Semaphore → Prog Int),
      command.1.run paths command.2 key =
        look paths key command.1 >>= fun found =>
          found.elim missing fun shsem =>
            Lock.init paths command.2 shsem >>= act := by
  rcases command with ⟨action, statics⟩
  cases action with
  | on timeout => exact ⟨_, _, lock_look⟩
  | off => exact ⟨_, _, attach_look fun _ => rfl⟩
  | status => exact ⟨_, _, attach_look fun _ => rfl⟩
  | summary => exact ⟨_, _, attach_look fun _ => rfl⟩
  | delete => exact looks.elim
  | create semaphores expire => exact looks.elim

/-! ## What `init` makes of the answers -/

/-- Answers that agree with the words, with the creation time, if it is known,
and with the times the clock has shown. -/
def Good (paths : KeyPaths) (key : Key) (words : Nat → Option UInt)
    (ctime : Option Time) (clocks : Time → Prop) : Event signature → Prop
  | ⟨.semget .., (found : Except Errno IpcId)⟩ => ∃ id, found = .ok id
  | ⟨.shmget .., (found : Except Errno IpcId)⟩ => ∃ id, found = .ok id
  | ⟨.shmat id, (mapped : Except Errno Addr)⟩ => mapped = .ok (.mapped id)
  | ⟨.load _ offset, (loaded : Option UInt)⟩ => ∀ word value,
      loaded = some word → words offset = some value → word = value
  | ⟨.semctlStat id, (ds : SemidDs)⟩ => id.key = paths.semKey key →
      ctime = some ds.sem_ctime
  | ⟨.time, (now : Time)⟩ => clocks now
  | _ => True

/-- The protocol of a program that gets such answers. -/
def hearing (paths : KeyPaths) (key : Key) (words : Nat → Option UInt)
    (ctime : Option Time) (clocks : Time → Prop) :
    Protocol signature Unit where
  allow _ _ := True
  answer _ call answer := Good paths key words ctime clocks ⟨call, answer⟩
  next _ _ _ := ()

theorem hearing_transparent {words : Nat → Option UInt} {ctime : Option Time}
    {clocks : Time → Prop} :
    Transparent (hearing paths key words ctime clocks) where
  allow _ _ _ := trivial
  next _ _ _ _ := rfl

section Hearing

variable {words : Nat → Option UInt} {ctime : Option Time}
variable {clocks : Time → Prop} {Value : Type} {post : Unit → Value → Prop}

/-- `SharedMemory$attach` where everything is found. -/
theorem hearing_attach {continuation : Option SharedMemory → Prog Value}
    (found : ∀ shmem mutex, shmem.shsem = some mutex →
      (continuation (some shmem)).Conforms
        (hearing paths key words ctime clocks) () post) :
    (SharedMemory.attach paths key >>= continuation).Conforms
      (hearing paths key words ctime clocks) () post := by
  rw [SharedMemory.attach_bind]
  refine ⟨trivial, ?_⟩
  rintro (answer : Except Errno IpcId) ⟨id, rfl⟩
  refine ⟨trivial, ?_⟩
  intro (block : Option SharedMemory) _
  cases block with
  | none => exact Transparent.dies hearing_transparent
  | some block =>
      dsimp only
      rw [SharedMemory.shmat_bind]
      refine ⟨trivial, ?_⟩
      intro (mapped : Except Errno Addr) isMapped
      have isOk : mapped = .ok (.mapped id) := isMapped
      subst isOk
      simp only [ne_eq, reduceCtorEq, not_false_eq_true, if_true]
      rw [Semaphore.attach_bind]
      refine ⟨trivial, ?_⟩
      rintro (answer : Except Errno IpcId) ⟨mutex, rfl⟩
      refine ⟨trivial, ?_⟩
      intro (allocated : Option Unit) _
      cases allocated with
      | none => exact Transparent.dies hearing_transparent
      | some success => exact ⟨trivial, fun _ _ => found _ _ rfl⟩

end Hearing

theorem hearing_relied {words : Nat → Option UInt} {ctime : Option Time}
    {clocks : Time → Prop} {events : List (Event signature)}
    (good : ∀ event ∈ events, Good paths key words ctime clocks event) :
    (hearing paths key words ctime clocks).Relied () events :=
  Protocol.relied_of_forall (fun event member _ => good event member) ()

/-- The word of an expiry that is not negative is the expiry. -/
theorem toNat_expiry {t : BitVec 32} (positive : 0 ≤ t.toInt) :
    ((BitVec.ofInt 32 t.toInt).toNat : Int) = t.toInt := by
  rw [BitVec.ofInt_toInt]
  exact (Expiry.toNat_eq_toInt_iff t).mpr positive

/-- `init` on good answers finds what the `create` was given. -/
theorem hearing_init {n : UShort} {t : BitVec 32} {ctime : Option Time}
    {statics : Lock.Statics} {shsem : Semaphore}
    {events : List (Event signature)} (positive : 0 ≤ t.toInt)
    (isKey : shsem.key = key) (isUser : shsem.id.key = paths.semKey key) :
    (Lock.init paths statics shsem).Conforms
      (hearing paths key (lays n t) ctime fun now => ⟨.time, now⟩ ∈ events) ()
      fun _ outcome => Complete n t.toInt ctime events outcome := by
  have narrow : (n.setWidth 32 : UInt).setWidth 16 = n := by
    simp
  unfold Lock.init
  rw [isKey]
  apply hearing_attach
  intro shmem mutex owned
  simp only [owned, SharedMemory.delete, Semaphore.delete_false,
    Bool.false_eq_true, if_false]
  apply Transparent.read hearing_transparent trivial
  intro size isSize
  have sized : size = n.setWidth 32 := isSize _ _ rfl rfl
  apply Transparent.read hearing_transparent trivial
  intro flag isFlag
  have flagged : flag = if t.toInt ≠ 0 then 1 else 0 := isFlag _ _ rfl rfl
  by_cases expires : t.toInt ≠ 0
  · have set : flag ≠ 0 := by simp [flagged, expires]
    simp only [ne_eq, set, not_false_eq_true, decide_true, if_true]
    rw [time_bind]
    refine ⟨trivial, fun (now : Time) isNow => ?_⟩
    dsimp only
    rw [Semaphore.ctime_bind]
    refine ⟨trivial, fun (ds : SemidDs) isCtime => ?_⟩
    apply Transparent.read hearing_transparent trivial
    intro expire isExpire
    have word : expire = BitVec.ofInt 32 t.toInt := isExpire _ _ rfl rfl
    refine ⟨?_, ?_, fun _ => ⟨ds.sem_ctime, now, isCtime isUser, isNow, ?_⟩⟩
    · rw [sized]
      exact narrow
    · simp [expires]
    · rw [word]
      dsimp only
      rw [toNat_expiry positive]
      exact Int.sub_add_cancel _ _
  · have unset : flag = 0 := by simp [flagged, expires]
    simp only [ne_eq, unset, not_true_eq_false, decide_false,
      Bool.false_eq_true, if_false]
    refine ⟨?_, ?_, fun impossible => absurd impossible expires⟩
    · rw [sized]
      exact narrow
    · simp [not_ne_iff.mp expires]

/-! ## Which set a command works with -/

/-- Lookups by name give objects of that name, and an attached segment is
mapped at its own address. -/
def Named : Event signature → Prop
  | ⟨.semget name .., (found : Except Errno IpcId)⟩ =>
      ∀ id, found = .ok id → id.key = name
  | ⟨.shmat id, (mapped : Except Errno Addr)⟩ =>
      ∀ addr, mapped = .ok addr → addr = .mapped id
  | _ => True

/-- The protocol of a program that gets such answers. -/
def naming : Protocol signature Unit where
  allow _ _ := True
  answer _ call answer := Named ⟨call, answer⟩
  next _ _ _ := ()

theorem naming_relied {events : List (Event signature)}
    (named : ∀ event ∈ events, Named event) : naming.Relied () events :=
  Protocol.relied_of_forall (fun event member _ => named event member) ()

/-- The handle is one of the set of the key. -/
theorem naming_attach :
    (Semaphore.attach paths key).Conforms naming () fun _ found =>
      ∀ shsem, found = some shsem →
        shsem.key = key ∧ shsem.id.key = paths.semKey key := by
  rw [← bind_pure (Semaphore.attach paths key), Semaphore.attach_bind]
  refine ⟨trivial, ?_⟩
  intro (found : Except Errno IpcId) named
  cases found with
  | error errno => rintro shsem ⟨⟩
  | ok id =>
      refine ⟨trivial, ?_⟩
      intro (block : Option Unit) _
      cases block with
      | none => exact ⟨trivial, fun impossible => impossible.elim⟩
      | some success =>
          refine ⟨trivial, ?_⟩
          rintro (ds : SemidDs) _ shsem ⟨⟩
          exact ⟨rfl, named id rfl⟩

theorem naming_look (action : Action) :
    (look paths key action).Conforms naming () fun _ found =>
      ∀ shsem, found = some shsem →
        shsem.key = key ∧ shsem.id.key = paths.semKey key := by
  cases action with
  | on timeout =>
      unfold look
      rw [Semaphore.exists_bind]
      refine ⟨trivial, ?_⟩
      intro (found : Except Errno IpcId) _
      cases found with
      | error errno => rintro shsem ⟨⟩
      | ok id => exact naming_attach
  | _ => exact naming_attach

/-! ## The calls of the commands -/

/-- The calls of the commands that work with a lock: nothing is made, and no
word is stored. -/
def Quiet : Call → Prop
  | .semget _ _ creat _ => creat = false
  | .semctlSetall .. => False
  | .shmget _ _ creat _ => creat = false
  | .store .. => False
  | .vsnprintf .. => False
  | .fork => False
  | .interruptible _ => False
  | _ => True

theorem quiet_works (call : Call) (works : call.works = true) :
    Quiet call := by
  cases call <;> first
    | trivial
    | simpa [Quiet, Call.works, Call.finds, Call.findsSet, Call.reads,
        Call.enters, Call.removes] using works

theorem quiet_run {action : Action} {statics : Lock.Statics}
    (looks : Looks action) :
    (action.run paths statics key).Within Quiet := by
  have attaches : (Semaphore.attach paths key).Within Quiet :=
    Semaphore.within_attach (finds_set (works_finds quiet_works)) key
  have inits : ∀ shsem, (Lock.init paths statics shsem).Within Quiet :=
    Lock.within_init_works quiet_works statics
  cases action with
  | on timeout => exact Lock.within_lock quiet_works statics key timeout
  | off => exact Lock.within_unlock quiet_works statics key
  | status =>
      apply attaches.bind
      intro shsem
      cases shsem with
      | none => exact ⟨trivial, fun _ => trivial⟩
      | some shsem =>
          apply (inits shsem).bind
          rintro ⟨_, known, handle⟩
          dsimp only
          split
          · rw [Semaphore.used_bind]
            exact ⟨trivial, fun _ => ⟨trivial, fun _ => trivial⟩⟩
          · exact ⟨trivial, fun _ => trivial⟩
  | summary =>
      apply attaches.bind
      intro shsem
      cases shsem with
      | none => trivial
      | some shsem =>
          apply (inits shsem).bind
          rintro ⟨_, known, handle⟩
          have described : (Semaphore.desc handle Lock.SHSEM_INDEX).Within
              Quiet := ⟨trivial, fun _ => ⟨trivial, fun value => by
                cases value <;> exact ⟨trivial, fun _ => trivial⟩⟩⟩
          apply described.bind
          intro _
          dsimp only
          repeat' split
          all_goals exact ⟨trivial, fun _ => trivial⟩
  | delete => exact looks.elim
  | create semaphores expire => exact looks.elim

/-! ## The protocol -/

/-- How far `create` has come; the other commands stay outside. -/
inductive Stage where
  | outside
  | start
  | named (user : IpcId)
  | filled (user : IpcId)
  | storing (user : IpcId)

/-- The set that `create` has made. -/
def Stage.user : Stage → Option IpcId
  | .outside => none
  | .start => none
  | .named user => some user
  | .filled user => some user
  | .storing user => some user

/-- The set is filled before the segment is made, and then words are stored,
each of them one of `words`. -/
def protocol (paths : KeyPaths) (key : Key) (words : Nat → Option UInt) :
    Protocol signature Stage where
  allow stage call :=
    match call with
    | .semget name _ creat _ => creat = true →
        stage = .start ∧ name = paths.semKey key ∨
          (∃ user, stage = .filled user) ∧ name ≠ paths.semKey key
    | .semctlSetall id _ => stage = .named id ∨
        (∃ user, stage = .filled user) ∧ id.key ≠ paths.semKey key
    | .shmget _ _ creat _ => creat = true → ∃ user, stage = .filled user
    | .store _ offset value => words offset = some value ∧
        ∃ user, stage = .filled user ∨ stage = .storing user
    | .memset .. => stage = .outside
    | .vsnprintf .. => False
    | .fork => False
    | .interruptible _ => False
    | _ => True
  answer _ call answer := Named ⟨call, answer⟩
  next stage call answer :=
    match call, answer with
    | .semget _ _ true _, (made : Except Errno IpcId) =>
        match stage, made with
        | .start, .ok id => .named id
        | _, _ => stage
    | .semctlSetall .., (filled : Except Errno Unit) =>
        match stage, filled with
        | .named user, .ok () => .filled user
        | _, _ => stage
    | .store .., _ =>
        match stage with
        | .filled user => .storing user
        | _ => stage
    | _, _ => stage

section Conformance

variable {words : Nat → Option UInt}

theorem transparent : Transparent (protocol paths key words) where
  allow stage call locks := by
    cases call <;> trivial
  next stage call answer locks := by
    cases call <;> first | rfl | exact locks.elim

theorem quiet_stays {stage : Stage} {call : Call} {answer : call.Answer}
    (quiet : Quiet call) :
    (protocol paths key words).next stage call answer = stage := by
  cases call with
  | semget name nsems creat excl =>
      cases creat with
      | false => rfl
      | true => cases quiet
  | _ => first | rfl | exact quiet.elim

theorem quiet_outside {call : Call}
    (allowed : (protocol paths key words).allow .outside call) :
    Quiet call := by
  cases call with
  | semget name nsems creat excl =>
      cases creat with
      | false => rfl
      | true =>
          rcases allowed rfl with ⟨impossible, _⟩ | ⟨⟨_, impossible⟩, _⟩ <;>
            cases impossible
  | semctlSetall id array =>
      rcases allowed with impossible | ⟨⟨_, impossible⟩, _⟩ <;>
        cases impossible
  | shmget name size creat excl =>
      cases creat with
      | false => rfl
      | true =>
          rcases allowed rfl with ⟨_, impossible⟩
          cases impossible
  | store addr offset value =>
      rcases allowed.2 with ⟨_, impossible | impossible⟩ <;> cases impossible
  | _ => trivial

/-- The commands that work with the lock stay outside. -/
theorem conforms_quiet {Value : Type} {program : Prog Value}
    (quiet : program.Within Quiet) :
    program.Conforms (protocol paths key words) .outside fun _ _ => True := by
  have stays : program.Conforms (protocol paths key words) .outside
      fun reached _ => reached = .outside := by
    apply quiet.conforms
    · intro call quiet
      cases call <;> first
        | trivial
        | exact quiet.elim
        | exact fun creates => absurd (quiet.symm.trans creates) (by decide)
    · intro call answer quiet
      exact quiet_stays quiet
  exact stays.mono fun _ _ _ => trivial

/-- The calls of `SharedMemory$new` that concern the segment. -/
theorem conforms_segment {user : IpcId} {Value Result : Type}
    {program : Prog Value} {continuation : Value → Prog Result}
    (opens : program.Within fun call : Call => call.opensSegment = true)
    (rest : ∀ value, (continuation value).Conforms
      (protocol paths key words) (.filled user) fun _ _ => True) :
    (program >>= continuation).Conforms (protocol paths key words)
      (.filled user) fun _ _ => True := by
  apply opens.conforms_bind
  · intro call opens
    cases call <;> first | trivial | exact fun _ => ⟨user, rfl⟩
  · intro call answer opens
    cases call <;> first | rfl | cases opens
  · exact rest

/-- `Semaphore$new` for the mutex of the segment. -/
theorem conforms_mutex {user : IpcId} {Result : Type}
    {continuation : Option Semaphore → Prog Result}
    (rest : ∀ shsem, (continuation shsem).Conforms
      (protocol paths key words) (.filled user) fun _ _ => True) :
    (Semaphore.new paths (key + 128) 1 1 false >>= continuation).Conforms
      (protocol paths key words) (.filled user) fun _ _ => True := by
  have apart : paths.semKey (key + 128) ≠ paths.semKey key :=
    (paths.semKey_mutex_ne key)
  rw [Semaphore.new_bind]
  refine ⟨trivial, ?_⟩
  intro (block : Option Unit) _
  cases block with
  | none => exact rest none
  | some success =>
      refine ⟨fun _ => Or.inr ⟨⟨user, rfl⟩, apart⟩, ?_⟩
      intro (made : Except Errno IpcId) named
      cases made with
      | error errno =>
          have ends : ¬ (false = true ∧ errno = .EEXIST) := by simp
          simp only [ends, if_false]
          exact rest none
      | ok id =>
          have isMutex : id.key = paths.semKey (key + 128) := named id rfl
          refine ⟨Or.inr ⟨⟨user, rfl⟩, by rwa [isMutex]⟩, ?_⟩
          intro (filled : Except Errno Unit) _
          cases filled with
          | error errno => exact rest none
          | ok success => exact rest (some _)

/-- A store of one of the words. -/
theorem conforms_write {stage : Stage} {shmem : SharedMemory}
    {offset : UShort} {n : UInt} {continuation : Unit → Prog Int}
    (ready : ∃ user, stage = .filled user ∨ stage = .storing user)
    (lays : words offset.toNat = some n)
    (rest : ∀ user, (continuation ()).Conforms (protocol paths key words)
      (.storing user) fun _ _ => True) :
    (SharedMemory.writeUint shmem offset n >>= continuation).Conforms
      (protocol paths key words) stage fun _ _ => True := by
  apply Transparent.write transparent ⟨lays, ready⟩
  intro _
  rcases ready with ⟨user, rfl | rfl⟩
  · exact rest user
  · exact rest user

/-- The four words that `create` stores. -/
theorem conforms_words {n : UShort} {t : BitVec 32} {user : IpcId}
    {shmem : SharedMemory} {shsem : Semaphore} :
    (do
      SharedMemory.writeUint shmem 0 (n.setWidth 32)
      SharedMemory.writeUint shmem 1 (if t.toInt ≠ 0 then 1 else 0)
      SharedMemory.writeUint shmem 2 (BitVec.ofInt 32 t.toInt)
      SharedMemory.writeUint shmem 3 0
      SharedMemory.delete shmem false
      Semaphore.delete shsem false
      return (0 : Int)).Conforms (protocol paths key (lays n t)) (.filled user)
        fun _ _ => True := by
  apply conforms_write ⟨user, Or.inl rfl⟩ rfl
  intro user
  apply conforms_write ⟨user, Or.inr rfl⟩ rfl
  intro user
  apply conforms_write ⟨user, Or.inr rfl⟩ rfl
  intro user
  apply conforms_write ⟨user, Or.inr rfl⟩ rfl
  intro user
  cases owned : shmem.shsem <;> simp [SharedMemory.delete, owned]

theorem conforms_create {n : UShort} {t : BitVec 32} :
    (Lock.create paths key (n.setWidth 32) t.toInt).Conforms
      (protocol paths key (lays n t)) .start fun _ _ => True := by
  unfold Lock.create
  rw [Semaphore.new_bind]
  refine ⟨trivial, ?_⟩
  intro (block : Option Unit) _
  cases block with
  | none => trivial
  | some success =>
      refine ⟨fun _ => Or.inl ⟨rfl, rfl⟩, ?_⟩
      intro (made : Except Errno IpcId) _
      cases made with
      | error errno => simp
      | ok user =>
          refine ⟨Or.inl rfl, ?_⟩
          intro (filled : Except Errno Unit) _
          cases filled with
          | error errno => trivial
          | ok success =>
              simp only [SharedMemory.new, mallocSharedMemory,
                Program.issue_bind, Program.done_bind]
              refine ⟨trivial, ?_⟩
              intro (block : Option SharedMemory) _
              cases block with
              | none => trivial
              | some block =>
                  simp only [bind_assoc]
                  apply conforms_segment
                  · exact SharedMemory.within_newSegment (fun _ opens => opens)
                      ..
                  rintro ⟨success, shmem⟩
                  dsimp only
                  split
                  · simp only [bind_assoc]
                    apply conforms_mutex
                    intro mutex
                    cases mutex with
                    | none => simp [SharedMemory.delete]
                    | some mutex =>
                        simp only [bind_assoc]
                        apply conforms_segment
                        · exact SharedMemory.within_lockPages (by rfl)
                            (fun _ _ => by rfl) _
                        intro locked
                        split
                        · simp [SharedMemory.delete]
                        · exact conforms_words
                  · cases owned : shmem.shsem <;>
                      simp [SharedMemory.delete, owned]

end Conformance

end Looking

end Atomicles.Publication
