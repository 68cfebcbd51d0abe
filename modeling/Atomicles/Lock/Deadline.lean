import Mathlib.Algebra.Group.Int.Defs
import Atomicles.Lock.Reading

/-!
# No grant after expiry

`lock` on a key whose segment holds a non-zero expiry: on the way to the
user's semaphore it reads how many seconds are left, and every attempt it then
makes is made before they have passed and does not wait in the kernel.
-/

namespace Atomicles

open Interaction

namespace Deadline

open View (user mutex attaching reading)

/-- The words of a segment that `create` made with an expiry. -/
def words (expire : UInt) (offset : Nat) : Option UInt :=
  if offset = 1 then some 1 else if offset = 2 then some expire else none

/-- The time at which a lock with the expiry word `expire` expires. -/
def deadline (expire : UInt) (ctime : Time) : Time :=
  ctime + expire.toNat

/-- A lock that expires, to be taken before its deadline. -/
def view (paths : KeyPaths) (key : Key) (expire : UInt) (ctime : Time) : View :=
  { paths, key, ctime
    words := words expire
    permits := fun clock => clock < deadline expire ctime }

section Conformance

variable {paths : KeyPaths} {key : Key} {expire : UInt} {ctime clock : Time}
variable {Value : Type}

/-! ## The attempts -/

/-- One attempt without waiting. -/
theorem conforms_attempt {id : IpcId} {undo : Bool}
    {next : Except Errno Unit → Prog Value}
    (early : clock < deadline expire ctime)
    {post : Time → Value → Prop}
    (rest : ∀ outcome, (next outcome).Conforms
      (view paths key expire ctime).protocol clock post) :
    (Program.issue (.semop id 0 (-1) undo true) next : Prog Value).Conforms
      (view paths key expire ctime).protocol clock post :=
  ⟨fun _ => ⟨rfl, rfl, rfl, early⟩, fun outcome _ => rest outcome⟩

/-- The loop: as many rounds as there are seconds left, and each that fails
sleeps for one of them. -/
theorem conforms_lockTimed {shsem : Semaphore} {persist : Bool}
    {remaining : Nat} {post : Time → Int → Prop}
    (enough : clock + remaining ≤ deadline expire ctime)
    (ends : ∀ clock e, post clock e) :
    (Semaphore.lockTimed shsem 0 persist remaining).Conforms
      (view paths key expire ctime).protocol clock post := by
  induction remaining generalizing clock with
  | zero => exact ends _ _
  | succ remaining ih =>
      have early : clock < deadline expire ctime := by
        grind
      apply conforms_attempt early
      intro outcome
      cases outcome with
      | ok success => exact ends _ _
      | error errno =>
          cases errno with
          | EAGAIN =>
              refine ⟨trivial, ?_⟩
              intro answer _
              apply ih
              show clock + (1 : Nat) + remaining ≤ deadline expire ctime
              grind
          | EIDRM =>
              apply ih
              grind
          | _ => exact ends _ _

/-- `Semaphore$lock` outside its blocking mode, for no longer than there is
time. -/
theorem conforms_lock {shsem : Semaphore} {persist : Bool} {timeout : Time}
    {post : Time → Int → Prop} (early : clock < deadline expire ctime)
    (bounded : timeout ≠ 0)
    (within : timeout ≤ deadline expire ctime - clock)
    (ends : ∀ clock e, post clock e) :
    (Semaphore.lock shsem 0 persist timeout).Conforms
      (view paths key expire ctime).protocol clock post := by
  have waits : timeout ≠ LOCK_BLOCKING := bounded
  simp only [Semaphore.lock, waits, if_false]
  by_cases tries : timeout = LOCK_NONBLOCK
  · simp only [tries, if_true]
    apply conforms_attempt early
    intro outcome
    cases outcome with
    | ok success => exact ends _ _
    | error errno => exact ends _ _
  · simp only [tries, if_false]
    apply conforms_lockTimed _ ends
    grind

/-! ## `lock` -/

/-- The conversion to `int`, where the value is below `2 ^ 32`. -/
theorem toInt_cases {value : Int} (lower : -2 ^ 31 ≤ value)
    (upper : value < 2 ^ 32) :
    Lock.toInt value = value ∨
      2 ^ 31 ≤ value ∧ Lock.toInt value = value - 2 ^ 32 := by
  simp only [Lock.toInt, BitVec.toInt_ofInt, Int.bmod_def]
  omega

/-- The timeout that is passed on is none of the blocking mode, and it is no
longer than the time that is left. -/
theorem timeoutFor_spec {delta : Time} (timeout : BitVec 32)
    (positive : 0 < delta) (word : delta < 2 ^ 32) :
    Lock.timeoutFor delta timeout.toInt ≠ 0 ∧
      Lock.timeoutFor delta timeout.toInt ≤ delta := by
  have lower := timeout.le_toInt
  have upper := timeout.toInt_lt
  unfold Lock.timeoutFor
  by_cases unbounded : timeout.toInt = 0
  · rw [if_pos unbounded]
    -- From `2 ^ 31` on the time that is left turns negative, but not into 0.
    rcases toInt_cases (by grind) word with same | ⟨large, wrapped⟩
    · grind
    · grind
  · rw [if_neg unbounded]
    by_cases less : delta < timeout.toInt
    · rw [if_pos less]
      rcases toInt_cases (by grind) word with same | ⟨large, wrapped⟩
      · grind
      · grind
    · rw [if_neg less]
      rcases @toInt_cases timeout.toInt (by grind) (by grind) with
        same | ⟨large, wrapped⟩
      · grind
      · grind

theorem conforms_lockBody {shsem : Semaphore} (timeout : BitVec 32)
    (past : ctime ≤ clock) :
    (Lock.lockBody paths key timeout.toInt
      { delta := deadline expire ctime - clock, expiry := true }
      shsem).Conforms (view paths key expire ctime).protocol clock
        fun _ _ => True := by
  have word : deadline expire ctime - clock < 2 ^ 32 := by
    have small := expire.isLt
    unfold deadline
    grind
  unfold Lock.lockBody
  simp only [if_true]
  by_cases left : deadline expire ctime - clock > 0
  · simp only [left, if_true, Semaphore.delete_false]
    rcases timeoutFor_spec timeout left word with ⟨bounded, within⟩
    have locked := @conforms_lock paths key expire ctime clock shsem true
      (Lock.timeoutFor (deadline expire ctime - clock) timeout.toInt)
      (fun _ _ => True) (by grind) bounded within fun _ _ => trivial
    exact locked.bind fun _ _ _ => trivial
  · simp only [left, if_false]
    apply View.conforms_delete
    intro e
    trivial

theorem conforms_lock_command {statics : Lock.Statics} (timeout : BitVec 32)
    (past : ctime ≤ clock) :
    (Lock.lock paths statics key timeout.toInt).Conforms
      (view paths key expire ctime).protocol clock fun _ _ => True := by
  unfold Lock.lock
  apply View.conforms_exists
  intro found
  cases found with
  | false => trivial
  | true =>
      apply View.conforms_attach
      · intro shsem isKey isUser
        apply View.conforms_init isKey isUser
        · -- The flag is 1, as `create` wrote it.
          intro size _ flagged
          exact absurd (flagged 1 rfl) (by decide)
        · intro size flag word _ _ _ shown
          have isWord : word = expire := shown expire rfl
          subst isWord
          exact conforms_lockBody timeout past
      · intro _
        trivial

end Conformance

/--
**No grant after expiry.**  Wherever `lock` gets to on a key whose segment
holds the expiry word `expire`, each of its operations on the user's semaphore
takes one unit at a time before the deadline, and without blocking.
-/
theorem lock_grants_before_deadline (paths : KeyPaths)
    (statics : Lock.Statics) (key : Key) (timeout : BitVec 32) (expire : UInt)
    {ctime start : Time} (past : ctime ≤ start)
    {events : List (Event signature)} {id : IpcId} {semNum : Nat} {semOp : Int}
    {undo nowait : Bool} {next : Except Errno Unit → Prog Int}
    (reaches : (Lock.lock paths statics key timeout.toInt).Reaches events
      (.issue (.semop id semNum semOp undo nowait) next))
    (relied : (view paths key expire ctime).protocol.Relied start events)
    (user : id.key = paths.semKey key) :
    semNum = 0 ∧ semOp = -1 ∧ nowait = true ∧
      (view paths key expire ctime).protocol.after start events <
        ctime + expire.toNat := by
  have conforms : (Lock.lock paths statics key timeout.toInt).Conforms
      (view paths key expire ctime).protocol start fun _ _ => True :=
    conforms_lock_command timeout past
  have allowed := conforms.allows relied reaches
  exact allowed user

/-- The calls of `lock 5 on` up to its first attempt, 5 seconds after the
creation of a lock that expires after 10. -/
def preamble : List (Event signature) :=
  [⟨.semget (KeyPaths.devtmpfs.semKey 5) NOP false true,
      (.ok user : Except Errno IpcId)⟩,
    ⟨.semget (KeyPaths.devtmpfs.semKey 5) NOP false true,
      (.ok user : Except Errno IpcId)⟩,
    ⟨.mallocSemaphore, (some () : Option Unit)⟩,
    ⟨.semctlStat user, (⟨1, 100⟩ : SemidDs)⟩] ++
  attaching ++ reading 0 3 ++ reading 1 1 ++
  [⟨.time, (105 : Time)⟩,
    ⟨.semctlStat user, (⟨1, 100⟩ : SemidDs)⟩] ++
  reading 2 10

theorem preamble_reaches :
    ∃ next, (Lock.lock KeyPaths.devtmpfs .initial 5
        (BitVec.toInt (0 : BitVec 32))).Reaches preamble
      (.issue (.semop user 0 (-1) false true) next) := by
  apply Exists.intro
  unfold preamble attaching reading
  iterate 24 apply Program.Reaches.issue
  exact .here _

/-- Such a lock grants its first attempt at 105, before 110. -/
theorem lock_grants_before_deadline_first :
    ∃ next : Except Errno Unit → Prog Int,
      (Lock.lock KeyPaths.devtmpfs .initial 5
          (BitVec.toInt (0 : BitVec 32))).Reaches preamble
        (.issue (.semop user 0 (-1) false true) next) ∧
      (0 : Nat) = 0 ∧ (-1 : Int) = -1 ∧ true = true ∧
        (view KeyPaths.devtmpfs 5 10 100).protocol.after 105 preamble <
          100 + (10 : UInt).toNat := by
  rcases preamble_reaches with ⟨next, reaches⟩
  have relied :
      (view KeyPaths.devtmpfs 5 10 100).protocol.Relied 105 preamble := by
    simp [preamble, attaching, reading, Protocol.Relied, View.protocol,
      View.Shows, view, words, user, mutex, View.segment]
  have past : (100 : Time) ≤ 105 := by decide
  exact ⟨next, reaches,
    lock_grants_before_deadline _ _ 5 0 10 past reaches relied rfl⟩

end Deadline

end Atomicles
