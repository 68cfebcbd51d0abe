import Atomicles.Lock.Reflection

/-!
# The commands reply what the registry replies

A command that runs alone while the store reflects a registry returns what the
registry replies at one time of its run, and the store then reflects the
registry after that step.  Only where a lock is deleted may a command fail to
return: it clears as many bytes as the handle of the segment says, and nothing
has set the size of that handle.
-/

namespace Atomicles.Refinement

open Interaction Deletion

/-- More than a page is cleared, and the process dies. -/
def Oversized : Call → Prop
  | .memset _ n => PAGE_SIZE < n
  | _ => False

theorem clears_grants : Clears Grants Oversized where
  chosen := ⟨{}, rfl, rfl⟩
  grants := fun _ grants => grants
  modest := by
    intro choice _
    rcases Nat.lt_or_ge PAGE_SIZE choice.block.size.value with beyond | fits
    · exact Or.inr fun _ => beyond
    · exact Or.inl fits

variable {paths : KeyPaths} {key : Key} {store after : Store}
variable {registry : Registry} {listing : Listing}

/-! ## How long `lock` waits -/

theorem toInt_small {value : Int} (lower : -2 ^ 31 ≤ value)
    (upper : value < 2 ^ 31) : Lock.toInt value = value := by
  simp only [Lock.toInt, BitVec.toInt_ofInt, Int.bmod_def]
  omega

/-- The timeout that is passed on does not make `Semaphore$lock` block. -/
theorem waits_timeoutFor {delta timeout : Int} (legal : Legal (.on timeout))
    (positive : 0 < delta) (short : delta < 2 ^ 31) :
    Stands.Waits (Lock.timeoutFor delta timeout) := by
  rcases legal with rfl | ⟨some, few⟩
  · left
    have sooner : ¬ delta < -1 := by omega
    have waits : (-1 : Int) ≠ 0 := by decide
    simp only [Lock.timeoutFor, waits, sooner, if_false]
    decide
  · right
    have waits : timeout ≠ 0 := by omega
    simp only [Lock.timeoutFor, waits, if_false]
    split
    · rw [toInt_small (by omega) short]
      exact positive
    · rw [toInt_small (by omega) (by omega)]
      exact some

section Body

variable {now : Time} {statics : Lock.Statics} {handle : Semaphore}
variable {timeout : Int}

/-- A deadline that is the expiry after the making is no further away. -/
theorem remaining_lt {made now deadline : Int} {expire : Nat}
    (before : made ≤ now) (isDeadline : deadline = made + (expire : Int))
    (short : expire < 2 ^ 31) : deadline - now < 2 ^ 31 := by
  omega

theorem positive_of_not_le {deadline now : Int} (later : ¬ deadline ≤ now) :
    0 < deadline - now := by
  omega

theorem not_positive_of_le {deadline now : Int} (past : deadline ≤ now) :
    ¬ 0 < deadline - now := by
  omega

/-- A lock that has not expired is taken, or waited for. -/
theorem lockBody_unexpired {contents : Contents}
    (held : listing.Held contents) (made : contents.user.sem_ctime ≤ now)
    (found : listing.Found now statics) (unexpired : ¬ listing.Expired now)
    (legal : Legal (.on timeout)) :
    ∃ waiting, Stands.Waits waiting ∧
      Lock.lockBody paths key timeout statics handle =
        Semaphore.lock handle 0 true waiting >>= pure := by
  cases expires : listing.deadline with
  | none =>
      refine ⟨timeout, ?_, ?_⟩
      · rcases legal with once | ⟨some, _⟩
        · exact Or.inl once
        · exact Or.inr some
      · simp only [Lock.lockBody, found.expiry, expires, Option.isSome_none,
          Bool.false_eq_true, if_false, Semaphore.delete_false,
          Program.done_bind, Lock.SHSEM_INDEX]
  | some deadline =>
      rw [Listing.expired_iff expires] at unexpired
      have left := positive_of_not_le unexpired
      rcases held.expires deadline expires with ⟨_, isDeadline, few⟩
      have short := remaining_lt made isDeadline few
      refine ⟨Lock.timeoutFor (deadline - now) timeout,
        waits_timeoutFor legal left short, ?_⟩
      simp only [Lock.lockBody, found.expiry, expires, Option.isSome_some,
        if_true, found.delta deadline expires, gt_iff_lt]
      rw [if_pos left]
      simp only [Semaphore.delete_false, Program.done_bind, Lock.SHSEM_INDEX]

/-- A lock that has expired is deleted. -/
theorem lockBody_expired (found : listing.Found now statics)
    (expired : listing.Expired now) :
    Lock.lockBody paths key timeout statics handle =
      Lock.delete paths key >>= fun _ => pure (-1) := by
  rcases expired with ⟨deadline, expires, past⟩
  have expires : listing.deadline = some deadline := expires
  have none_left := not_positive_of_le past
  simp only [Lock.lockBody, found.expiry, expires, Option.isSome_some,
    if_true, found.delta deadline expires, gt_iff_lt]
  rw [if_neg none_left]
  simp only [pure_bind, Semaphore.delete_false, Program.done_bind]

end Body

/-! ## The commands -/

/-- The reply of the registry at one time of the run, and what the store shows
afterwards. -/
def Answered (paths : KeyPaths) (registry : Registry) (key : Key)
    (action : Action) (store : Store) (reply : Reply) (after : Store) : Prop :=
  ∃ now, store.now ≤ now ∧ now ≤ after.now ∧
    reply = (registry.serve now key action).1 ∧
    Reflects paths (registry.serve now key action).2 after

/-- A command whose reply does not depend on the time. -/
theorem answered_unlisted {action : Action} {reply : Reply}
    (reflects : Reflects paths registry after) (later : store.now ≤ after.now)
    (serves : registry.serve store.now key action = (reply, registry)) :
    Answered paths registry key action store reply after := by
  refine ⟨store.now, Int.le_refl _, later, ?_, ?_⟩
  · rw [serves]
  · rw [serves]
    exact reflects

section Commands

variable (reflects : Reflects paths registry store)
variable (small : key.toNat < 128) {process : Pid} {statics : Lock.Statics}
include reflects small

/-- A reply of the registry that the store agrees with. -/
theorem answered {action : Action} {reply : Reply} {registry' : Registry}
    {now : Time} (served : registry.serve now key action = (reply, registry'))
    (begun : store.now ≤ now) (ended : now ≤ after.now)
    (beside : Beside paths key store after)
    (shows : Shows paths key after (registry' key)) :
    Answered paths registry key action store reply after := by
  refine ⟨now, begun, ended, by rw [served], ?_⟩
  apply reflects.serve small beside
  rwa [served]

/-- `create` under a name that is taken. -/
theorem create_listed (listed : registry key = some listing)
    {semaphores : UInt} {expire : Time} :
    Program.Delivers granting process Oversized
      (Lock.create paths key semaphores expire) store fun code after =>
        Answered paths registry key (.create semaphores expire) store ⟨code, []⟩
          after := by
  have registered := reflects key small
  rw [listed] at registered
  rcases registered with ⟨channel, contents, stands, held, made⟩
  unfold Lock.create
  apply new_taken stands.findSem_user
  intro seconds
  apply answered_unlisted (reflects.advance seconds)
    (Store.now_le_advance seconds)
  unfold Registry.serve
  simp only [listed]

/-- `create` under a free name. -/
theorem create_unlisted (listed : registry key = none) {semaphores : UInt}
    {expire : Time} (legal : Legal (.create semaphores expire)) :
    Program.Delivers granting process Oversized
      (Lock.create paths key semaphores expire) store fun code after =>
        Answered paths registry key (.create semaphores expire) store ⟨code, []⟩
          after := by
  have vacant := reflects key small
  rw [listed] at vacant
  have fits : (semaphores.setWidth 16).toNat ≤ SEMVMX := by
    rw [BitVec.toNat_setWidth]
    exact Nat.le_trans (Nat.mod_le _ _) legal.1
  rw [← bind_pure (Lock.create paths key semaphores expire)]
  apply create_vacant vacant fits
  intro base after ctime beside stands begun ended
  have served : registry.serve ctime key (.create semaphores expire) =
      (⟨0, []⟩, registry.put key (.fresh semaphores.toNat
        (if expire = 0 then none else ctime + expire))) := by
    unfold Registry.serve
    simp only [listed]
  apply answered reflects small served begun ended
    (beside.trans (.of_apart stands.apart stands.named))
  rw [Registry.put_self]
  exact .of_stands stands (held_created legal) ended

/-- `off` without a lock. -/
theorem unlock_unlisted (listed : registry key = none) :
    Program.Delivers granting process Oversized
      (Lock.unlock paths statics key) store fun code after =>
        Answered paths registry key .off store ⟨code, []⟩ after := by
  have vacant := reflects key small
  rw [listed] at vacant
  unfold Lock.unlock
  apply attach_vacant vacant.user
  intro seconds
  apply answered_unlisted (reflects.advance seconds)
    (Store.now_le_advance seconds)
  unfold Registry.serve
  simp only [listed]

/-- `off` gives back a unit that is held. -/
theorem unlock_listed (listed : registry key = some listing) :
    Program.Delivers granting process Oversized
      (Lock.unlock paths statics key) store fun code after =>
        Answered paths registry key .off store ⟨code, []⟩ after := by
  have registered := reflects key small
  rw [listed] at registered
  rcases registered with ⟨channel, contents, stands, held, made⟩
  unfold Lock.unlock
  apply stands.attach_found fun store stands => stands.semget_user true
  intro shsem after isKey isUser _ stands
  apply stands.init held isKey isUser
  intro middle after statics handle apart stands _ isUser isSize
  by_cases some : 0 < listing.held
  · apply stands.unlock_held held.attach some isUser isSize
    intro after stands
    have beside := beside_of_stands apart stands
    have served : registry.serve store.now key .off =
        (⟨0, []⟩, registry.put key listing.give) := by
      unfold Registry.serve
      simp only [listed, some, if_true]
    apply answered reflects small served (Int.le_refl _) beside.now beside
    rw [Registry.put_self]
    exact .of_stands stands (held.attach.give some)
      (Int.le_trans made beside.now)
  · have none : listing.held = 0 := Nat.eq_zero_of_not_pos some
    apply stands.unlock_free held.attach none isUser isSize
    intro after stands
    have beside := beside_of_stands apart stands
    have served : registry.serve store.now key .off =
        (⟨-1, []⟩, registry) := by
      unfold Registry.serve
      simp only [listed, some, if_false]
    apply answered reflects small served (Int.le_refl _) beside.now beside
    rw [listed]
    exact .of_stands stands held.attach (Int.le_trans made beside.now)

/-- `delete` of what is there, and of what is not. -/
theorem delete_replies :
    Program.Delivers granting process Oversized (Lock.delete paths key) store
      fun code after =>
        Answered paths registry key .delete store ⟨code, []⟩ after := by
  have before := reflects key small
  cases listed : registry key with
  | none =>
      rw [listed] at before
      have vacant : Vacant paths key store := before
      apply delivers_delete clears_grants
      · intro mutex isMutex
        cases vacant.mutex.symm.trans isMutex
      · intro id segment found
        cases vacant.segment.symm.trans found
      · intro after gone beside
        rw [vacant.user, vacant.segment]
        have served : registry.serve store.now key .delete =
            (⟨2, []⟩, registry) := by
          unfold Registry.serve
          simp only [listed]
        apply answered reflects small served (Int.le_refl _) beside.now beside
        rw [listed]
        exact gone
  | some listing =>
      rw [listed] at before
      rcases before with ⟨channel, contents, stands, held, made⟩
      apply delivers_delete clears_grants
      · intro mutex _
        exact ⟨_, stands.findShm_segment⟩
      · intro id segment found present
        rw [stands.findShm_segment] at found
        cases found
        rw [stands.segment] at present
        cases present
        rw [held.words]
        decide
      · intro after gone beside
        rw [stands.findSem_user, stands.findShm_segment]
        have served : registry.serve store.now key .delete =
            (⟨0, []⟩, registry.drop key) := by
          unfold Registry.serve
          simp only [listed]
        apply answered reflects small served (Int.le_refl _) beside.now beside
        rw [Registry.drop_self]
        exact gone

/-- `on` without a lock. -/
theorem lock_unlisted (listed : registry key = none) {timeout : Int} :
    Program.Delivers granting process Oversized
      (Lock.lock paths statics key timeout) store fun code after =>
        Answered paths registry key (.on timeout) store ⟨code, []⟩ after := by
  have vacant := reflects key small
  rw [listed] at vacant
  unfold Lock.lock
  apply exists_vacant vacant.user
  intro seconds
  apply answered_unlisted (reflects.advance seconds)
    (Store.now_le_advance seconds)
  unfold Registry.serve
  simp only [listed]

/-- `on` of a lock that has expired. -/
theorem lock_expired (listed : registry key = some listing) {timeout : Int}
    {channel : Channel} {contents : Contents} {middle after : Store}
    (apart : Apart channel store middle)
    (stands : Stands paths key channel contents middle after)
    (held : listing.Held contents) (expired : listing.Expired middle.now) :
    Program.Delivers granting process Oversized
      (Lock.delete paths key >>= fun _ => pure (-1 : Int)) after
      fun code after =>
        Answered paths registry key (.on timeout) store ⟨code, []⟩ after := by
  rw [Program.delivers_bind]
  apply delivers_delete clears_grants
  · intro mutex _
    exact ⟨_, stands.findShm_segment⟩
  · intro id segment found present
    rw [stands.findShm_segment] at found
    cases found
    rw [stands.segment] at present
    cases present
    rw [held.words]
    decide
  · intro final gone beside
    have served : registry.serve middle.now key (.on timeout) =
        (⟨-1, []⟩, registry.drop key) := by
      unfold Registry.serve
      simp only [listed, expired, if_true]
    have whole := (beside_of_stands apart stands).trans beside
    apply answered reflects small served apart.now
      (Int.le_trans stands.apart.now beside.now) whole
    rw [Registry.drop_self]
    exact gone

/-- `on` of a lock that has not expired. -/
theorem lock_unexpired (listed : registry key = some listing) {timeout : Int}
    {channel : Channel} {contents : Contents} {middle after : Store}
    (apart : Apart channel store middle)
    (stands : Stands paths key channel contents middle after)
    (held : listing.Held contents)
    (made : contents.user.sem_ctime ≤ middle.now)
    (unexpired : ¬ listing.Expired middle.now) {handle : Semaphore}
    (isUser : handle.id = channel.user) {waiting : Time}
    (waits : Stands.Waits waiting) :
    Program.Delivers granting process Oversized
      (Semaphore.lock handle 0 true waiting >>= pure) after
      fun code after =>
        Answered paths registry key (.on timeout) store ⟨code, []⟩ after := by
  have legal := held.legal
  by_cases free : listing.held < listing.size
  · have units : listing.size - listing.held =
        (listing.size - listing.held - 1) + 1 := by omega
    have values := held.values
    rw [units] at values
    apply stands.lock_free isUser waits values (by omega)
    intro final stands
    rw [← units] at stands
    have served : registry.serve middle.now key (.on timeout) =
        (⟨0, []⟩, registry.put key (listing.take free)) := by
      unfold Registry.serve
      simp only [listed, unexpired, if_false, free, dif_pos]
    have beside := beside_of_stands apart stands
    apply answered reflects small served apart.now stands.apart.now beside
    rw [Registry.put_self]
    exact .of_stands stands (held.take free)
      (Int.le_trans made stands.apart.now)
  · have values := held.values
    have none_left : listing.size - listing.held = 0 := by omega
    rw [none_left] at values
    apply stands.lock_full isUser waits values
    intro final stands
    have served : registry.serve middle.now key (.on timeout) =
        (⟨1, []⟩, registry) := by
      unfold Registry.serve
      simp only [listed, unexpired, if_false, free, dif_neg, not_false_eq_true]
    have beside := beside_of_stands apart stands
    apply answered reflects small served apart.now stands.apart.now beside
    rw [listed]
    exact .of_stands stands held (Int.le_trans made stands.apart.now)

/-- `on` of a lock. -/
theorem lock_listed (listed : registry key = some listing) {timeout : Int}
    (legal : Legal (.on timeout)) :
    Program.Delivers granting process Oversized
      (Lock.lock paths statics key timeout) store fun code after =>
        Answered paths registry key (.on timeout) store ⟨code, []⟩ after := by
  have registered := reflects key small
  rw [listed] at registered
  rcases registered with ⟨channel, contents, stands, held, made⟩
  unfold Lock.lock
  apply stands.exists_user
  intro after stands
  apply stands.attach_found fun store stands => stands.semget_user true
  intro shsem after isKey isUser _ stands
  apply stands.init held isKey isUser
  intro middle after found handle apart stands isFound isUser _
  have made' : contents.user.sem_ctime ≤ middle.now :=
    Int.le_trans made apart.now
  by_cases expired : listing.Expired middle.now
  · dsimp only
    rw [lockBody_expired isFound expired]
    exact lock_expired reflects small listed apart stands held.attach expired
  · rcases lockBody_unexpired held made' isFound expired legal with
      ⟨waiting, waits, body⟩
    dsimp only
    rw [body]
    exact lock_unexpired reflects small listed apart stands held.attach made'
      expired isUser waits

end Commands

/-! ## `status` -/

/-- What `status` finds out: its return value and the numbers of its line. -/
def report (paths : KeyPaths) (statics : Lock.Statics) (key : Key) :
    Prog (Int × List Int) := do
  match ← Semaphore.attach paths key with
  | some shsem =>
      let (_, statics, shsem) ← Lock.init paths statics shsem
      let (e, d) := Lock.statusCode statics
      if e = 0 then
        let u ← Semaphore.used shsem Lock.SHSEM_INDEX
        return (e, [u, shsem.size.toNat, d])
      else return (e, [-1, -1, d])
  | none => return (-1, Registry.nothing)

/-- `status` prints what it finds out, and returns. -/
theorem status_eq (statics : Lock.Statics) :
    Lock.status paths statics key =
      report paths statics key >>= fun said =>
        printf "%d %d %d\n" said.2 >>= fun _ => pure said.1 := by
  unfold Lock.status report
  rw [bind_assoc]
  refine congrArg (Semaphore.attach paths key >>= ·) (funext fun found => ?_)
  cases found with
  | none => rfl
  | some shsem =>
      dsimp only
      rw [bind_assoc]
      refine congrArg (Lock.init paths statics shsem >>= ·)
        (funext fun known => ?_)
      split
      · rw [bind_assoc]
        rfl
      · rfl

section Status

variable {now : Time} {statics : Lock.Statics}

/-- A lock that has not expired. -/
theorem statusCode_unexpired {contents : Contents}
    (held : listing.Held contents) (made : contents.user.sem_ctime ≤ now)
    (found : listing.Found now statics) (unexpired : ¬ listing.Expired now) :
    Lock.statusCode statics = (0, listing.remaining now) := by
  cases expires : listing.deadline with
  | none =>
      simp only [Lock.statusCode, found.expiry, expires, Option.isSome_none,
        Bool.false_eq_true, if_false, Listing.remaining, Option.elim_none]
  | some deadline =>
      rw [Listing.expired_iff expires] at unexpired
      have left := positive_of_not_le unexpired
      rcases held.expires deadline expires with ⟨_, isDeadline, few⟩
      have short := remaining_lt made isDeadline few
      simp only [Lock.statusCode, found.expiry, expires, Option.isSome_some,
        if_true, found.delta deadline expires, gt_iff_lt, Listing.remaining,
        Option.elim_some]
      have lower : -2 ^ 31 ≤ deadline - now :=
        Int.le_trans (by decide) (Int.le_of_lt left)
      rw [if_pos left, toInt_small lower short]

/-- A lock that has expired. -/
theorem statusCode_expired (found : listing.Found now statics)
    (expired : listing.Expired now) :
    Lock.statusCode statics = (-1, -1) := by
  rcases expired with ⟨deadline, expires, past⟩
  have expires : listing.deadline = some deadline := expires
  have none_left := not_positive_of_le past
  simp only [Lock.statusCode, found.expiry, expires, Option.isSome_some,
    if_true, found.delta deadline expires, gt_iff_lt]
  rw [if_neg none_left]

variable (reflects : Reflects paths registry store)
variable (small : key.toNat < 128) {process : Pid}
include reflects small

theorem report_unlisted (listed : registry key = none) :
    Program.Delivers granting process Oversized (report paths statics key)
      store fun said after =>
        Answered paths registry key .status store ⟨said.1, [said.2]⟩ after := by
  have vacant := reflects key small
  rw [listed] at vacant
  unfold report
  apply attach_vacant vacant.user
  intro seconds
  apply answered_unlisted (reflects.advance seconds)
    (Store.now_le_advance seconds)
  unfold Registry.serve
  simp only [listed]

theorem report_listed (listed : registry key = some listing) :
    Program.Delivers granting process Oversized (report paths statics key)
      store fun said after =>
        Answered paths registry key .status store ⟨said.1, [said.2]⟩ after := by
  have registered := reflects key small
  rw [listed] at registered
  rcases registered with ⟨channel, contents, stands, held, made⟩
  unfold report
  apply stands.attach_found fun store stands => stands.semget_user true
  intro shsem after isKey isUser _ stands
  apply stands.init held isKey isUser
  intro middle after found handle apart stands isFound isUser isSize
  have made' : contents.user.sem_ctime ≤ middle.now :=
    Int.le_trans made apart.now
  dsimp only
  by_cases expired : listing.Expired middle.now
  · rw [statusCode_expired isFound expired]
    have served : registry.serve middle.now key .status =
        (⟨-1, [Registry.nothing]⟩, registry) := by
      unfold Registry.serve
      simp only [listed, expired, if_true]
    apply answered reflects small served apart.now stands.apart.now
      (beside_of_stands apart stands)
    rw [listed]
    exact .of_stands stands held.attach (Int.le_trans made' stands.apart.now)
  · rw [statusCode_unexpired held made' isFound expired]
    dsimp only
    rw [if_pos rfl]
    apply stands.used isUser held.attach.values
    intro after stands
    have bounded := listing.bounded
    have used : (handle.size.toNat : Int) -
        ((listing.size - listing.held : Nat) : Int) = listing.held := by
      rw [isSize]
      omega
    have served : registry.serve middle.now key .status =
        (⟨0, [[listing.held, listing.size, listing.remaining middle.now]]⟩,
          registry) := by
      unfold Registry.serve
      simp only [listed, expired, if_false]
    rw [used, isSize]
    apply answered reflects small served apart.now stands.apart.now
      (beside_of_stands apart stands)
    rw [listed]
    exact .of_stands stands held.attach (Int.le_trans made' stands.apart.now)

end Status

end Atomicles.Refinement
