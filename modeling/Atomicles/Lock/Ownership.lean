import Atomicles.Lock.Makers

/-!
# What the processes own

Whoever has made a set or a segment of the lock holds it, in every state of
every run.  Its set keeps the creation time that `SETALL` has left, and each
word of its segment that has been stored is its own.
-/

namespace Atomicles.Ownership

open Interaction
open Publication (Quiet stored exec_stored)

/-! ## What has been made, and by whom -/

/-- Whoever has made an object with one of the names holds it, identifiers are
not used again, and the objects there are have a maker if they are covered. -/
structure Held (makes : Event signature → Option IpcId)
    (named covered present : IpcId → Prop) (generation : Key → Nat)
    (log : List (Entry signature Pid Store)) (holds : Pid → Option IpcId) :
    Prop where
  held : ∀ id owner, named id →
    (maker makes id log = some owner ↔ holds owner = some id)
  named : ∀ owner id, holds owner = some id → named id
  old : ∀ id owner, maker makes id log = some owner →
    id.generation ≤ generation id.key
  known : ∀ id, present id → covered id → (maker makes id log).isSome = true

namespace Held

variable {makes : Event signature → Option IpcId}
variable {named covered present present' : IpcId → Prop}
variable {generation generation' : Key → Nat}
variable {log log' : List (Entry signature Pid Store)}
variable {holds holds' : Pid → Option IpcId}

/-- A step that makes nothing. -/
theorem unchanged
    (held : Held makes named covered present generation log holds)
    (same : ∀ id, maker makes id log' = maker makes id log)
    (keeps : ∀ other, holds' other = holds other)
    (later : ∀ name, generation name ≤ generation' name)
    (before : ∀ id, present' id → present id) :
    Held makes named covered present' generation' log' holds' where
  held := by
    intro id owner isNamed
    rw [same, keeps]
    exact held.held id owner isNamed
  named := by
    intro owner id holds
    rw [keeps] at holds
    exact held.named owner id holds
  old := by
    intro id owner isMaker
    rw [same] at isMaker
    exact Nat.le_trans (held.old id owner isMaker) (later id.key)
  known := by
    intro id isPresent isCovered
    rw [same]
    exact held.known id (before id isPresent) isCovered

/-- An identifier that was not used before has no maker. -/
theorem fresh (held : Held makes named covered present generation log holds)
    {id : IpcId} (unused : generation id.key < id.generation) :
    maker makes id log = none := by
  cases isMaker : maker makes id log with
  | none => rfl
  | some owner =>
      exact absurd (held.old id owner isMaker) (Nat.not_le.mpr unused)

/-- An object is made, with an identifier that was not used before. -/
theorem add (held : Held makes named covered present generation log holds)
    {process : Pid} {event : Event signature} {state : Store} {id : IpcId}
    (made : makes event = some id)
    (unused : generation id.key < id.generation)
    (used : generation' id.key = id.generation)
    (later : ∀ name, generation name ≤ generation' name)
    (before : ∀ other, present' other → present other ∨ other = id)
    (changes : ∀ owner other, holds' owner = some other ↔
      holds owner = some other ∨ owner = process ∧ other = id ∧ named id) :
    Held makes named covered present' generation'
      (⟨.call process event, state⟩ :: log) holds' := by
  have none : maker makes id log = none := held.fresh unused
  have isMaker : maker makes id (⟨.call process event, state⟩ :: log) =
      some process := maker_made made none
  have others : ∀ other, other ≠ id →
      maker makes other (⟨.call process event, state⟩ :: log) =
        maker makes other log := by
    intro other different
    apply maker_other
    rw [made]
    exact fun same => different (Option.some.inj same).symm
  constructor
  · intro other owner isNamed
    rw [changes]
    by_cases here : other = id
    · subst here
      rw [isMaker, ← held.held other owner isNamed, none]
      simp [isNamed, eq_comm]
    · rw [others other here, held.held other owner isNamed]
      simp [here]
  · intro owner other isHeld
    rcases (changes owner other).mp isHeld with earlier | ⟨_, rfl, isNamed⟩
    · exact held.named owner other earlier
    · exact isNamed
  · intro other owner makes
    by_cases here : other = id
    · rw [here]
      exact Nat.le_of_eq used.symm
    · rw [others other here] at makes
      exact Nat.le_trans (held.old other owner makes) (later other.key)
  · intro other isPresent isCovered
    by_cases here : other = id
    · rw [here, isMaker]
      rfl
    · rw [others other here]
      exact held.known other ((before other isPresent).resolve_right here)
        isCovered

end Held

/-- The sets of a lock: that of its units and that of its mutex. -/
def Ours (paths : KeyPaths) (key : Key) (id : IpcId) : Prop :=
  id.key = paths.semKey key ∨ id.key = paths.semKey (key + 128)

/-- A `create` holds the set and the segment that it has made, and all that is
found under the names of the lock has been made by a known process. -/
structure Registered (paths : KeyPaths) (key : Key) (store : Store)
    (log : List (Entry signature Pid Store)) (phases : Pid → Stage) :
    Prop where
  sets : Held madeSet (fun id => id.key = paths.semKey key) (Ours paths key)
    (fun id => (store.sems id).isSome = true) store.semGen log
    fun process => (phases process).user
  segments : Held madeSegment (fun _ => True)
    (fun id => id.key = paths.shmKey key)
    (fun id => (store.shms id).isSome = true) store.shmGen log
    fun process => (phases process).segment

/-- The words of the lock that a `create` lays out, and where. -/
def Stage.lays : Stage → Option (UInt × Time × IpcId)
  | .creating semaphores expire (.laying _ segment) =>
      some (semaphores, expire, segment)
  | _ => none

theorem Stage.segment_eq (stage : Stage) :
    stage.segment = stage.lays.map (·.2.2) := by
  cases stage with
  | outside => rfl
  | creating semaphores expire progress => cases progress <;> rfl

/-- The set of a `create` that has filled it keeps the creation time. -/
structure Dated (paths : KeyPaths) (key : Key) (store : Store)
    (log : List (Entry signature Pid Store)) (phases : Pid → Stage) :
    Prop where
  filled : ∀ process, (phases process).Fills ↔
    (filledBy process (paths.semKey key) log).isSome = true
  ctime : ∀ process id set created, (phases process).user = some id →
    id.key = paths.semKey key → store.sems id = some set →
      filledBy process (paths.semKey key) log = some created →
        set.sem_ctime = created

/-- What has been stored in a segment and not been cleared are the words of its
maker, and the flag of a lock without an expiry is never set. -/
structure Worded (store : Store) (log : List (Entry signature Pid Store))
    (phases : Pid → Stage) : Prop where
  kept : ∀ segment offset, stored (.mapped segment) offset log = true →
    ∃ owner, (phases owner).segment = some segment
  words : ∀ owner semaphores expire segment offset value word,
    (phases owner).lays = some (semaphores, expire, segment) →
      stored (.mapped segment) offset log = true →
        Expiry.written semaphores expire offset = some value →
          wordAt store (.mapped segment) offset = some word → word = value
  zero : ∀ owner semaphores segment word,
    (phases owner).lays = some (semaphores, 0, segment) →
      wordAt store (.mapped segment) 1 = some word → word = 0

/-- The stages agree with the store and the log. -/
structure Stands (paths : KeyPaths) (key : Key) (store : Store)
    (log : List (Entry signature Pid Store)) (phases : Pid → Stage) :
    Prop where
  registered : Registered paths key store log phases
  dated : Dated paths key store log phases
  worded : Worded store log phases

section Unchanged

variable {paths : KeyPaths} {key : Key} {store after : Store}
variable {log log' : List (Entry signature Pid Store)}
variable {phases phases' : Pid → Stage}

/-- A step that fills no set of the name. -/
theorem Dated.unchanged (dated : Dated paths key store log phases)
    (same : ∀ other, filledBy other (paths.semKey key) log' =
      filledBy other (paths.semKey key) log)
    (fills : ∀ other, (phases' other).Fills ↔ (phases other).Fills)
    (times : ∀ other id set created, (phases' other).user = some id →
      id.key = paths.semKey key → after.sems id = some set →
        filledBy other (paths.semKey key) log = some created →
          (phases other).user = some id ∧ ∃ before,
            store.sems id = some before ∧
              set.sem_ctime = before.sem_ctime) :
    Dated paths key after log' phases' where
  filled := by
    intro other
    rw [fills, same]
    exact dated.filled other
  ctime := by
    intro other id set created isUser isName found isFilled
    rw [same] at isFilled
    rcases times other id set created isUser isName found isFilled with
      ⟨held, before, present, sameTime⟩
    rw [sameTime]
    exact dated.ctime other id before created held isName present isFilled

/-- A step that stores nothing. -/
theorem Worded.unchanged (worded : Worded store log phases)
    (lays : ∀ other, (phases' other).lays = (phases other).lays)
    (words : ∀ segment offset,
      stored (.mapped segment) offset log' = true →
        stored (.mapped segment) offset log = true ∧
          ∀ word, wordAt after (.mapped segment) offset = some word →
            wordAt store (.mapped segment) offset = some word)
    (zero : ∀ segment word,
      (∀ before, wordAt store (.mapped segment) 1 = some before →
        before = 0) →
        wordAt after (.mapped segment) 1 = some word → word = 0) :
    Worded after log' phases' where
  kept := by
    intro segment offset isStored
    rcases worded.kept segment offset (words segment offset isStored).1 with
      ⟨owner, owns⟩
    refine ⟨owner, ?_⟩
    rwa [Stage.segment_eq, lays, ← Stage.segment_eq]
  words := by
    intro owner semaphores expire segment offset value word isLaying isStored
      isWritten found
    rw [lays] at isLaying
    rcases words segment offset isStored with ⟨earlier, same⟩
    exact worded.words owner semaphores expire segment offset value word
      isLaying earlier isWritten (same word found)
  zero := by
    intro owner semaphores segment word isLaying found
    rw [lays] at isLaying
    exact zero segment word
      (fun before => worded.zero owner semaphores segment before isLaying) found

end Unchanged

section Quiet

variable {process : Pid} {call : Call} {answer : call.Answer}
variable {store after : Store} {log : List (Entry signature Pid Store)}

/-- A word that is zero stays zero. -/
theorem exec_zero (quiet : Quiet call)
    (exec : refusing.exec process call store answer after) {addr : Addr}
    {offset : Nat} {word : UInt}
    (zero : ∀ before, wordAt store addr offset = some before → before = 0)
    (found : wordAt after addr offset = some word) : word = 0 := by
  have words : call.writesBytes = false := by
    cases call <;> first | rfl | exact quiet.elim
  rcases exec_word words exec found with
    same | ⟨name, size, excl, rfl, isZero⟩ | rfl | ⟨n, rfl, _, _⟩
  · exact zero word same
  · exact isZero
  · exact quiet.elim
  · exact exec_memset_zero exec zero found

end Quiet

section Steps

variable {paths : KeyPaths} {key : Key} {store after : Store}
variable {log : List (Entry signature Pid Store)} {phases : Pid → Stage}
variable {process : Pid} {call : Call} {answer : call.Answer}

/-- What a step does to the stage of its process, and to no other. -/
theorem update_stage {Value : Type} (view : Stage → Value) {stage : Stage}
    (same : view stage = view (phases process)) (other : Pid) :
    view (Function.update phases process stage other) =
      view (phases other) := by
  by_cases here : other = process
  · rw [here, Function.update_self, same]
  · rw [Function.update_of_ne here]

/-- A call that makes neither a set nor a segment. -/
theorem Registered.makesNothing
    (registered : Registered paths key store log phases) {stage : Stage}
    (known : ∀ inner, call ≠ .interruptible inner)
    (words : call.writesBytes = false)
    (noSet : madeSet ⟨call, answer⟩ = none)
    (noSegment : madeSegment ⟨call, answer⟩ = none)
    (user : stage.user = (phases process).user)
    (segment : stage.segment = (phases process).segment)
    (sets : ∀ id, (after.sems id).isSome = true →
      (store.sems id).isSome = true)
    (segments : ∀ id, (after.shms id).isSome = true →
      (store.shms id).isSome = true)
    (exec : refusing.exec process call store answer after) :
    Registered paths key after (⟨.call process ⟨call, answer⟩, after⟩ :: log)
      (Function.update phases process stage) where
  sets := by
    apply registered.sets.unchanged
    · exact maker_nothing noSet
    · exact update_stage Stage.user user
    · exact exec_semGen_le known exec
    · exact sets
  segments := by
    apply registered.segments.unchanged
    · exact maker_nothing noSegment
    · exact update_stage Stage.segment segment
    · exact exec_shmGen_le words exec
    · exact segments

namespace Stands

/-- A call that makes, fills and stores nothing. -/
theorem quiet (stands : Stands paths key store log phases)
    (quiet : Quiet call)
    (exec : refusing.exec process call store answer after) :
    Stands paths key after (⟨.call process ⟨call, answer⟩, after⟩ :: log)
      phases := by
  have known : ∀ inner, call ≠ .interruptible inner := by
    rintro inner rfl
    exact quiet
  have words : call.writesBytes = false := by
    cases call <;> first | rfl | exact quiet.elim
  have makes : ∀ name size excl, call ≠ .shmget name size true excl := by
    rintro name size excl rfl
    cases quiet
  have times : call.keepsTimes = true := by
    cases call <;> first
      | rfl
      | exact quiet.elim
      | exact (by rw [Call.keepsTimes, show _ = false from quiet]; rfl)
  refine ⟨?_, ?_, ?_⟩
  · have made := stands.registered.makesNothing known words
      (madeSet_quiet quiet) (madeSegment_quiet quiet) rfl rfl ?_ ?_ exec
    · rwa [Function.update_eq_self] at made
    · intro id present
      rcases Option.isSome_iff_exists.mp present with ⟨set, found⟩
      rcases exec_ctime times exec found with ⟨before, isBefore, _⟩
      simp [isBefore]
    · intro id present
      rcases Option.isSome_iff_exists.mp present with ⟨segment, found⟩
      exact exec_segment words makes exec found
  · apply stands.dated.unchanged
    · intro other
      exact filledBy_quiet quiet _
    · exact fun _ => Iff.rfl
    · intro other id set created isUser _ found _
      exact ⟨isUser, exec_ctime times exec found⟩
  · apply stands.worded.unchanged
    · exact fun _ => rfl
    · intro segment offset isStored
      exact exec_stored quiet exec isStored
    · intro segment word zero found
      exact exec_zero quiet exec zero found

/-- A call that has failed to make or to fill anything. -/
theorem idle (stands : Stands paths key store log phases)
    (known : ∀ inner, call ≠ .interruptible inner)
    (words : call.writesBytes = false)
    (noSet : madeSet ⟨call, answer⟩ = none)
    (noSegment : madeSegment ⟨call, answer⟩ = none)
    (noTime : ∀ other, filledBy other (paths.semKey key)
      (⟨.call process ⟨call, answer⟩, after⟩ :: log) =
        filledBy other (paths.semKey key) log)
    (noWord : ∀ addr offset, stored addr offset
      (⟨.call process ⟨call, answer⟩, after⟩ :: log) =
        stored addr offset log)
    (sems : SameSems store after) (shms : SameShms store after)
    (exec : refusing.exec process call store answer after) :
    Stands paths key after (⟨.call process ⟨call, answer⟩, after⟩ :: log)
      phases := by
  refine ⟨?_, ?_, ?_⟩
  · have made := stands.registered.makesNothing known words noSet noSegment
      rfl rfl ?_ ?_ exec
    · rwa [Function.update_eq_self] at made
    · intro id present
      rwa [sems.1] at present
    · intro id present
      rwa [shms.1] at present
  · apply stands.dated.unchanged noTime (fun _ => Iff.rfl)
    intro other id set created isUser _ found _
    rw [sems.1] at found
    exact ⟨isUser, set, found, rfl⟩
  · apply stands.worded.unchanged (fun _ => rfl)
    · intro segment offset isStored
      rw [noWord] at isStored
      refine ⟨isStored, ?_⟩
      intro word found
      rwa [Store.wordAt_of_same shms] at found
    · intro segment word zero found
      rw [Store.wordAt_of_same shms] at found
      exact zero word found

/-- A set is made: the set of the units by a `create` that starts, or the set
of the mutex. -/
theorem makesSet (stands : Stands paths key store log phases) {name : Key}
    {nsems : Nat} {made : Except Errno IpcId}
    (allowed : (∃ semaphores expire,
        phases process = .creating semaphores expire .start ∧
          name = paths.semKey key) ∨
      (phases process).segment.isSome = true ∧ name ≠ paths.semKey key)
    (exec : refusing.exec process (.semget name nsems true true) store made
      after) :
    Stands paths key after
      (⟨.call process ⟨.semget name nsems true true, made⟩, after⟩ :: log)
      (Function.update phases process ((protocol paths key).next
        (phases process) (.semget name nsems true true) made)) := by
  have shms := exec_sameShms rfl exec
  rcases exec_semget_made exec with
    ⟨id, rfl, isNext, last⟩ | ⟨⟨errno, rfl⟩, sems⟩
  · have isKey : id.key = name := congrArg IpcId.key isNext
    have unused : store.semGen id.key < id.generation := by
      rw [isKey, isNext]
      exact Nat.lt_succ_self _
    have fresh := stands.registered.sets.fresh unused
    have old : ∀ other set, after.sems other = some set →
        store.sems other = some set ∨ other = id := by
      intro other set found
      rcases exec_semget_set exec found with before | ⟨isMade, _⟩
      · exact Or.inl before
      · cases isMade
        exact Or.inr rfl
    generalize isStage : (protocol paths key).next (phases process)
      (.semget name nsems true true) (.ok id : Except Errno IpcId) = stage
    have changed : stage.lays = (phases process).lays ∧
        (stage.Fills ↔ (phases process).Fills) ∧
          ∀ user, stage.user = some user ↔ (phases process).user = some user ∨
            user = id ∧ id.key = paths.semKey key := by
      rcases allowed with ⟨semaphores, expire, isStart, isName⟩ |
        ⟨isLaying, other⟩
      · have isNamed : stage = .creating semaphores expire (.named id) := by
          rw [← isStage, isStart]
          rfl
        rw [isNamed, isStart]
        refine ⟨rfl, Iff.rfl, fun user => ?_⟩
        simp [Stage.user, isKey, isName, eq_comm]
      · have stays : stage = phases process := by
          rw [← isStage]
          cases isPhase : phases process with
          | outside => rfl
          | creating semaphores expire progress =>
              rw [isPhase] at isLaying
              cases progress <;> first | rfl | cases isLaying
        rw [stays]
        exact ⟨rfl, Iff.rfl, fun user => by simp [isKey, other]⟩
    rcases changed with ⟨lays, fills, users⟩
    refine ⟨⟨?_, ?_⟩, ?_, ?_⟩
    · apply stands.registered.sets.add rfl unused (by rw [isKey, last])
        (exec_semGen_le (by rintro inner ⟨⟩) exec)
      · intro other present
        rcases Option.isSome_iff_exists.mp present with ⟨set, found⟩
        exact (old other set found).imp_left fun before => by simp [before]
      · intro owner user
        by_cases here : owner = process
        · simp [here, users]
        · simp [here]
    · apply stands.registered.segments.unchanged
      · exact maker_nothing rfl
      · apply update_stage Stage.segment
        rw [Stage.segment_eq, lays, Stage.segment_eq]
      · exact exec_shmGen_le rfl exec
      · intro other present
        rwa [shms.1] at present
    · apply stands.dated.unchanged
      · intro other
        rfl
      · intro other
        rw [update_stage Stage.Fills (propext fills)]
      · intro other user set created isUser isName found isFilled
        have held : (phases other).user = some user := by
          by_cases here : other = process
          · subst here
            rw [Function.update_self, users] at isUser
            rcases isUser with before | ⟨rfl, _⟩
            · exact before
            · have fills := (stands.dated.filled other).mpr (by simp [isFilled])
              rcases allowed with ⟨_, _, isStart, _⟩ | ⟨_, other⟩
              · rw [isStart] at fills
                exact fills.elim
              · exact absurd (isKey.symm.trans isName) other
          · rwa [Function.update_of_ne here] at isUser
        refine ⟨held, set, ?_, rfl⟩
        rcases old user set found with before | rfl
        · exact before
        · have isMaker :=
            (stands.registered.sets.held user other isName).mpr held
          cases fresh.symm.trans isMaker
    · apply stands.worded.unchanged
      · exact update_stage Stage.lays lays
      · intro segment offset isStored
        refine ⟨isStored, ?_⟩
        intro word found
        rwa [Store.wordAt_of_same shms] at found
      · intro segment word zero found
        rw [Store.wordAt_of_same shms] at found
        exact zero word found
  · have stays : (protocol paths key).next (phases process)
        (.semget name nsems true true) (.error errno : Except Errno IpcId) =
          phases process := by
      cases isPhase : phases process with
      | outside => rfl
      | creating semaphores expire progress => cases progress <;> rfl
    rw [stays, Function.update_eq_self]
    exact stands.idle nofun rfl rfl rfl (fun _ => rfl) (fun _ _ => rfl) sems
      shms exec

/-- What `SETALL` does to the creation times. -/
theorem fills_dated (stands : Stands paths key store log phases) {id : IpcId}
    {array : List UShort} {filled : Except Errno Unit}
    (allowed : (∃ semaphores expire,
        phases process = .creating semaphores expire (.named id)) ∨
      (phases process).segment.isSome = true ∧ id.key ≠ paths.semKey key)
    (exec : refusing.exec process (.semctlSetall id array) store filled
      after) :
    Dated paths key after
      (⟨.call process ⟨.semctlSetall id array, filled⟩, after⟩ :: log)
      (Function.update phases process ((protocol paths key).next
        (phases process) (.semctlSetall id array) filled)) := by
  have others : ∀ other user, other ≠ process ∨ id.key ≠ paths.semKey key ∨
      filled ≠ .ok () → (phases other).user = some user →
        user.key = paths.semKey key → ∀ set, after.sems user = some set →
          store.sems user = some set := by
    intro other user apart held isName set found
    rcases exec_semctlSetall_set exec found with before | ⟨rfl, isOk, _⟩
    · exact before
    · rcases allowed with ⟨_, _, isNamed⟩ | ⟨_, apart'⟩
      · have own : (phases process).user = some user := by
          rw [isNamed]
          rfl
        rcases apart with different | different | failed
        · have first := (stands.registered.sets.held user other isName).mpr held
          have second :=
            (stands.registered.sets.held user process isName).mpr own
          exact absurd (Option.some.inj (first.symm.trans second)) different
        · exact absurd isName different
        · exact absurd isOk failed
      · exact absurd isName apart'
  -- Where nothing is filled under the name, the process stays in its stage.
  have idles : (protocol paths key).next (phases process)
      (.semctlSetall id array) filled = phases process →
        id.key ≠ paths.semKey key ∨ filled ≠ .ok () →
          Dated paths key after
            (⟨.call process ⟨.semctlSetall id array, filled⟩, after⟩ :: log)
            (Function.update phases process ((protocol paths key).next
              (phases process) (.semctlSetall id array) filled)) := by
    intro stays apart
    rw [stays, Function.update_eq_self]
    apply stands.dated.unchanged
    · intro other
      exact filledBy_other (Or.inr apart)
    · exact fun _ => Iff.rfl
    · intro other user set created held isName found _
      exact ⟨held, set,
        others other user (Or.inr apart) held isName set found, rfl⟩
  rcases allowed with ⟨semaphores, expire, isNamed⟩ | ⟨isLaying, apart⟩
  · have own : (phases process).user = some id := by
      rw [isNamed]
      rfl
    have isName : id.key = paths.semKey key :=
      stands.registered.sets.named process id own
    cases filled with
    | error errno => exact idles (by rw [isNamed]; rfl) (Or.inr nofun)
    | ok success =>
        rcases exec_semctlSetall_filled exec with ⟨set, isSet⟩
        have isFilled : filledBy process (paths.semKey key)
            (⟨.call process ⟨.semctlSetall id array,
              (.ok () : Except Errno Unit)⟩, after⟩ :: log) =
                some set.sem_ctime := by
          simp [filledBy, isName, isSet]
        constructor
        · intro other
          by_cases here : other = process
          · rw [here, isFilled, Function.update_self, isNamed]
            exact iff_of_true trivial rfl
          · rw [Function.update_of_ne here, stands.dated.filled other,
              filledBy_other (Or.inl (Ne.symm here))]
        · intro other user found created isUser isName' present isCreated
          by_cases here : other = process
          · subst here
            rw [Function.update_self, isNamed] at isUser
            cases isUser
            rw [isFilled] at isCreated
            rw [isSet] at present
            cases isCreated
            cases present
            rfl
          · rw [Function.update_of_ne here] at isUser
            rw [filledBy_other (Or.inl (Ne.symm here))] at isCreated
            exact stands.dated.ctime other user found created isUser isName'
              (others other user (Or.inl here) isUser isName' found present)
              isCreated
  · apply idles _ (Or.inl apart)
    cases isPhase : phases process with
    | outside => rfl
    | creating semaphores expire progress =>
        rw [isPhase] at isLaying
        cases progress <;> first | rfl | cases isLaying

/-- A set is filled: the set of the units by its `create`, or the set of the
mutex. -/
theorem fills (stands : Stands paths key store log phases) {id : IpcId}
    {array : List UShort} {filled : Except Errno Unit}
    (allowed : (∃ semaphores expire,
        phases process = .creating semaphores expire (.named id)) ∨
      (phases process).segment.isSome = true ∧ id.key ≠ paths.semKey key)
    (exec : refusing.exec process (.semctlSetall id array) store filled
      after) :
    Stands paths key after
      (⟨.call process ⟨.semctlSetall id array, filled⟩, after⟩ :: log)
      (Function.update phases process ((protocol paths key).next
        (phases process) (.semctlSetall id array) filled)) := by
  have shms := exec_sameShms rfl exec
  generalize isStage : (protocol paths key).next (phases process)
    (.semctlSetall id array) filled = stage
  have views : stage.user = (phases process).user ∧
      stage.lays = (phases process).lays := by
    rw [← isStage]
    cases isPhase : phases process with
    | outside => exact ⟨rfl, rfl⟩
    | creating semaphores expire progress =>
        cases progress <;> cases filled <;> exact ⟨rfl, rfl⟩
  have present : ∀ other, (after.sems other).isSome = true →
      (store.sems other).isSome = true := by
    intro other present
    rcases Option.isSome_iff_exists.mp present with ⟨set, found⟩
    rcases exec_semctlSetall_set exec found with before | ⟨_, _, before⟩
    · simp [before]
    · exact before
  refine ⟨?_, ?_, ?_⟩
  · apply stands.registered.makesNothing (by rintro inner ⟨⟩) rfl rfl rfl
      views.1 (by rw [Stage.segment_eq, views.2, Stage.segment_eq]) present
      _ exec
    intro other present
    rwa [shms.1] at present
  · rw [← isStage]
    exact stands.fills_dated allowed exec
  · apply stands.worded.unchanged
    · exact update_stage Stage.lays views.2
    · intro segment offset isStored
      refine ⟨isStored, ?_⟩
      intro word found
      rwa [Store.wordAt_of_same shms] at found
    · intro segment word zero found
      rw [Store.wordAt_of_same shms] at found
      exact zero word found

/-- A `create` makes its segment. -/
theorem makesSegment (stands : Stands paths key store log phases) {name : Key}
    {size : Nat} {made : Except Errno IpcId} {semaphores : UInt}
    {expire : Time} {user : IpcId} (isName : name = paths.shmKey key)
    (isFilled : phases process = .creating semaphores expire (.filled user))
    (exec : refusing.exec process (.shmget name size true true) store made
      after) :
    Stands paths key after
      (⟨.call process ⟨.shmget name size true true, made⟩, after⟩ :: log)
      (Function.update phases process ((protocol paths key).next
        (phases process) (.shmget name size true true) made)) := by
  have sems := exec_sameSems rfl exec
  rcases exec_shmget_made exec with
    ⟨id, rfl, _, isNext, _, generations, _⟩ | ⟨⟨errno, rfl⟩, _⟩
  · have isKey : id.key = name := congrArg IpcId.key isNext
    have unused : store.shmGen id.key < id.generation := by
      rw [isKey, isNext]
      exact Nat.lt_succ_self _
    have fresh := stands.registered.segments.fresh unused
    have unowned : ∀ owner, (phases owner).segment ≠ some id := by
      intro owner owns
      have isMaker :=
        (stands.registered.segments.held id owner trivial).mpr owns
      cases fresh.symm.trans isMaker
    have isStage : (protocol paths key).next (phases process)
        (.shmget name size true true) (.ok id : Except Errno IpcId) =
          .creating semaphores expire (.laying user id) := by
      rw [isFilled]
      rfl
    rw [isStage]
    refine ⟨⟨?_, ?_⟩, ?_, ?_⟩
    · apply stands.registered.sets.unchanged
      · exact maker_nothing rfl
      · apply update_stage Stage.user
        rw [isFilled]
        rfl
      · exact exec_semGen_le (by rintro inner ⟨⟩) exec
      · intro other present
        rwa [sems.1] at present
    · apply stands.registered.segments.add rfl unused
        (by rw [generations, isKey, isNext]; simp [Store.nextShm])
        (exec_shmGen_le rfl exec)
      · intro other present
        rcases Option.isSome_iff_exists.mp present with ⟨segment, found⟩
        rcases exec_shmget_segment exec found with before | ⟨isMade, _⟩
        · simp [before]
        · cases isMade
          exact Or.inr rfl
      · intro owner other
        by_cases here : owner = process
        · simp [here, isFilled, Stage.segment, eq_comm]
        · simp [here]
    · apply stands.dated.unchanged
      · intro other
        rfl
      · intro other
        apply Iff.of_eq
        apply update_stage Stage.Fills
        rw [isFilled]
        rfl
      · intro other set found created isUser _ present _
        rw [sems.1] at present
        rw [update_stage Stage.user (by rw [isFilled]; rfl)] at isUser
        exact ⟨isUser, found, present, rfl⟩
    · have isLaying : ∀ owner n t segment,
          (Function.update phases process
            (.creating semaphores expire (.laying user id)) owner).lays =
              some (n, t, segment) →
            owner = process ∧ segment = id ∨
              (phases owner).lays = some (n, t, segment) ∧ segment ≠ id := by
        intro owner n t segment lays
        by_cases here : owner = process
        · rw [here, Function.update_self] at lays
          cases lays
          exact Or.inl ⟨here, rfl⟩
        · rw [Function.update_of_ne here] at lays
          refine Or.inr ⟨lays, ?_⟩
          rintro rfl
          apply unowned owner
          rw [Stage.segment_eq, lays]
          rfl
      have kept : ∀ segment offset word, segment ≠ id →
          wordAt after (.mapped segment) offset = some word →
            wordAt store (.mapped segment) offset = some word := by
        intro segment offset word other found
        rcases Option.map_eq_some_iff.mp found with ⟨content, isContent, isWord⟩
        rcases exec_shmget_segment exec isContent with before | ⟨isMade, _⟩
        · simp [wordAt, before, isWord]
        · cases isMade
          exact absurd rfl other
      constructor
      · intro segment offset isStored
        rcases stands.worded.kept segment offset isStored with ⟨owner, owns⟩
        refine ⟨owner, ?_⟩
        have other : owner ≠ process := by
          rintro rfl
          rw [isFilled] at owns
          cases owns
        rwa [Function.update_of_ne other]
      · intro owner n t segment offset value word lays isStored isWritten found
        rcases isLaying owner n t segment lays with ⟨_, rfl⟩ | ⟨before, other⟩
        · rcases stands.worded.kept segment offset isStored with ⟨holder, owns⟩
          exact absurd owns (unowned holder)
        · exact stands.worded.words owner n t segment offset value word before
            isStored isWritten (kept segment offset word other found)
      · intro owner n segment word lays found
        rcases isLaying owner n 0 segment lays with ⟨_, rfl⟩ | ⟨before, other⟩
        · rcases Option.map_eq_some_iff.mp found with
            ⟨content, isContent, isWord⟩
          rcases exec_shmget_segment exec isContent with before | ⟨_, zero⟩
          · have known := stands.registered.segments.known segment
              (by simp [before]) (isKey.trans isName)
            rw [fresh] at known
            cases known
          · rw [← isWord]
            exact zero 1
        · exact stands.worded.zero owner n segment word before
            (kept segment 1 word other found)
  · have stays : (protocol paths key).next (phases process)
        (.shmget name size true true) (.error errno : Except Errno IpcId) =
          phases process := by
      rw [isFilled]
      rfl
    rw [stays, Function.update_eq_self]
    exact stands.idle (by rintro inner ⟨⟩) rfl rfl rfl (fun _ => rfl)
      (fun _ _ => rfl) sems (exec_shmget_failed exec) exec

/-- A word is stored. -/
theorem stores (stands : Stands paths key store log phases)
    {semaphores value : UInt} {expire : Time} {user segment : IpcId}
    {offset : Nat} {done : Option Unit}
    (isLaying : phases process =
      .creating semaphores expire (.laying user segment))
    (isWritten : Expiry.written semaphores expire offset = some value)
    (exec : refusing.exec process (.store (.mapped segment) offset value)
      store done after) :
    Stands paths key after
      (⟨.call process ⟨.store (.mapped segment) offset value, done⟩, after⟩ ::
        log) phases := by
  have sems := exec_sameSems rfl exec
  have owns : (phases process).segment = some segment := by
    rw [isLaying]
    rfl
  refine ⟨?_, ?_, ?_⟩
  · have made := stands.registered.makesNothing (by rintro inner ⟨⟩) rfl rfl
      rfl rfl rfl ?_ ?_ exec
    · rwa [Function.update_eq_self] at made
    · intro id present
      rwa [sems.1] at present
    · intro id present
      rcases Option.isSome_iff_exists.mp present with ⟨segment, found⟩
      exact exec_segment rfl (by rintro name size excl ⟨⟩) exec found
  · apply stands.dated.unchanged
    · intro other
      rfl
    · exact fun _ => Iff.rfl
    · intro other id set created isUser _ found _
      rw [sems.1] at found
      exact ⟨isUser, set, found, rfl⟩
  · have own : ∀ owner n t, (phases owner).lays = some (n, t, segment) →
        n = semaphores ∧ t = expire := by
      intro owner n t lays
      have held : (phases owner).segment = some segment := by
        rw [Stage.segment_eq, lays]
        rfl
      have first := (stands.registered.segments.held segment owner trivial).mpr
        held
      have second := (stands.registered.segments.held segment process
        trivial).mpr owns
      have same : owner = process := Option.some.inj (first.symm.trans second)
      rw [same, isLaying] at lays
      cases lays
      exact ⟨rfl, rfl⟩
    constructor
    · intro target index isStored
      simp only [stored, Bool.or_eq_true, Bool.and_eq_true,
        decide_eq_true_eq] at isStored
      rcases isStored with ⟨⟨⟨⟩, rfl⟩, _⟩ | before
      · exact ⟨process, owns⟩
      · exact stands.worded.kept target index before
    · intro owner n t target index laid word lays isStored isLaid found
      have written : target = segment → index = offset → laid = value := by
        rintro rfl rfl
        rcases own owner n t lays with ⟨rfl, rfl⟩
        exact Option.some.inj (isLaid.symm.trans isWritten)
      simp only [stored, Bool.or_eq_true, Bool.and_eq_true,
        decide_eq_true_eq, Option.isSome_iff_exists] at isStored
      rcases isStored with ⟨⟨⟨⟩, rfl⟩, success, rfl⟩ | before
      · rw [written rfl rfl]
        exact exec_store_word exec found
      · rcases exec_word rfl exec found with
          same | ⟨_, _, _, ⟨⟩, _⟩ | same | ⟨_, ⟨⟩, _⟩
        · exact stands.worded.words owner n t target index laid word lays
            before isLaid same
        · cases same
          exact (written rfl rfl).symm
    · intro owner n target word lays found
      rcases exec_word rfl exec found with
        same | ⟨_, _, _, ⟨⟩, _⟩ | same | ⟨_, ⟨⟩, _⟩
      · exact stands.worded.zero owner n target word lays same
      · cases same
        rcases own owner n 0 lays with ⟨rfl, rfl⟩
        exact (Option.some.inj isWritten).symm

/-- A process ends or is killed. -/
theorem leave (stands : Stands paths key store log phases)
    {label : Label signature Pid}
    (isLeave : label = .leave process ∨ label = .kill process) :
    Stands paths key (store.leave process)
      (⟨label, store.leave process⟩ :: log) phases := by
  have makers : ∀ makes id,
      maker makes id (⟨label, store.leave process⟩ :: log) =
        maker makes id log := by
    intro makes id
    rcases isLeave with rfl | rfl <;> rfl
  have words : ∀ addr offset,
      stored addr offset (⟨label, store.leave process⟩ :: log) =
        stored addr offset log := by
    intro addr offset
    rcases isLeave with rfl | rfl <;> rfl
  refine ⟨⟨?_, ?_⟩, ?_, ?_⟩
  · apply stands.registered.sets.unchanged (makers madeSet) (fun _ => rfl)
      (fun _ => Nat.le_refl _)
    intro id present
    rcases Option.isSome_iff_exists.mp present with ⟨set, found⟩
    rcases Store.leave_ctime found with ⟨before, isBefore, _⟩
    simp [isBefore]
  · apply stands.registered.segments.unchanged (makers madeSegment)
      (fun _ => rfl) (fun _ => Nat.le_refl _)
    intro id present
    rcases Option.isSome_iff_exists.mp present with ⟨segment, found⟩
    rcases Option.bind_eq_some_iff.mp found with ⟨before, isBefore, _⟩
    simp [isBefore]
  · apply stands.dated.unchanged
    · intro other
      rcases isLeave with rfl | rfl <;> rfl
    · exact fun _ => Iff.rfl
    · intro other id set created isUser _ found _
      exact ⟨isUser, Store.leave_ctime found⟩
  · apply stands.worded.unchanged (fun _ => rfl)
    · intro segment offset isStored
      rw [words] at isStored
      exact ⟨isStored, fun word found => Store.leave_word found⟩
    · intro segment word zero found
      exact zero word (Store.leave_word found)

/-- A call that the protocol allows. -/
theorem step (stands : Stands paths key store log phases)
    (allowed : (protocol paths key).allow (phases process) call)
    (exec : refusing.exec process call store answer after) :
    Stands paths key after (⟨.call process ⟨call, answer⟩, after⟩ :: log)
      (Function.update phases process
        ((protocol paths key).next (phases process) call answer)) := by
  have others : Quiet call → Stands paths key after
      (⟨.call process ⟨call, answer⟩, after⟩ :: log)
      (Function.update phases process
        ((protocol paths key).next (phases process) call answer)) := by
    intro isQuiet
    rw [quiet_stays isQuiet, Function.update_eq_self]
    exact stands.quiet isQuiet exec
  cases call with
  | semget name nsems creat excl =>
      cases creat with
      | false => exact others rfl
      | true =>
          rcases allowed rfl with ⟨rfl, makes⟩
          exact stands.makesSet makes exec
  | semctlSetall id array => exact stands.fills allowed exec
  | shmget name size creat excl =>
      cases creat with
      | false => exact others rfl
      | true =>
          rcases allowed rfl with ⟨rfl, isName, _, _, _, isFilled⟩
          exact stands.makesSegment isName isFilled exec
  | store addr offset value =>
      rcases allowed with ⟨_, _, _, segment, isLaying, rfl, isWritten⟩
      have stays : (protocol paths key).next (phases process)
          (.store (.mapped segment) offset value) answer = phases process :=
        rfl
      rw [stays, Function.update_eq_self]
      exact stands.stores isLaying isWritten exec
  | _ => first | exact others trivial | exact allowed.elim

/-- The creation time of a lock stays once it is known. -/
theorem filled_later (stands : Stands paths key store log phases)
    (allowed : (protocol paths key).allow (phases process) call)
    {owner : Pid} {created : Time}
    (isFilled : filledBy owner (paths.semKey key) log = some created) :
    filledBy owner (paths.semKey key)
      (⟨.call process ⟨call, answer⟩, after⟩ :: log) = some created := by
  cases call with
  | semctlSetall id array =>
      rw [filledBy_other, isFilled]
      rcases allowed with ⟨_, _, isNamed⟩ | ⟨_, apart⟩
      · left
        rintro rfl
        have fills := (stands.dated.filled process).mpr (by simp [isFilled])
        rw [isNamed] at fills
        exact fills
      · exact Or.inr (Or.inl apart)
  | _ => exact isFilled

/-- Before the first step nothing is made. -/
theorem opening
    (noSets : ∀ id, Ours paths key id → store.sems id = none)
    (noSegments : ∀ id, id.key = paths.shmKey key → store.shms id = none)
    (users : ∀ process, (phases process).user = none)
    (lays : ∀ process, (phases process).lays = none)
    (unfilled : ∀ process, ¬ (phases process).Fills) :
    Stands paths key store [] phases := by
  refine ⟨⟨⟨?_, ?_, ?_, ?_⟩, ?_, ?_, ?_, ?_⟩, ⟨?_, ?_⟩, ?_, ?_, ?_⟩
  · intro id owner _
    rw [users]
    exact iff_of_false nofun nofun
  · intro owner id isUser
    rw [users] at isUser
    cases isUser
  · rintro id owner ⟨⟩
  · intro id present ours
    rw [noSets id ours] at present
    cases present
  · intro id owner _
    rw [Stage.segment_eq, lays]
    exact iff_of_false nofun nofun
  · exact fun _ _ _ => trivial
  · rintro id owner ⟨⟩
  · intro id present isName
    rw [noSegments id isName] at present
    cases present
  · intro process
    exact iff_of_false (unfilled process) nofun
  · rintro process id set created _ _ _ ⟨⟩
  · rintro segment offset ⟨⟩
  · rintro owner semaphores expire segment offset value word _ ⟨⟩
  · intro owner semaphores segment word isLaying
    rw [lays] at isLaying
    cases isLaying

end Stands

end Steps

end Atomicles.Ownership
