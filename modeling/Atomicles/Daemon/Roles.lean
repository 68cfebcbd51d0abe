import Atomicles.Daemon.World

/-!
# What the processes are to their channel

A start forks twice on its way to the supervision loop, and the supervisor
forks the children.  Where a `fork` fails, the process itself goes on in the
place of the child.
-/

namespace Atomicles.Daemon

open Interaction

/-- What a process is to its channel. -/
inductive Role where
  | other
  | starter
  | intermediate
  | supervisor
  | child
deriving DecidableEq, Repr

namespace Role

/-- The role of a forked process, by that of its parent. -/
def forked : Role → Role
  | .other => .other
  | .starter => .intermediate
  | .intermediate => .supervisor
  | .supervisor => .child
  | .child => .child

/-- The role of a process after a `fork` that failed. -/
def alone : Role → Role
  | .starter => .intermediate
  | .intermediate => .supervisor
  | role => role

/-- The role of a process after a call of its own. -/
def called (role : Role) : Call → Role
  | .fork => role.alone
  | _ => role

/-- The role of a process that goes on from a label. -/
def entered (role : Role) : Label → Role
  | .main .start _ => .starter
  | .round _ => .supervisor
  | _ => role

end Role

/-- The role of a process after a run. -/
def role (process : Pid) : List Moves → Role
  | [] => .other
  | .call actor event :: earlier =>
      if actor = process then (role process earlier).called event.call
      else role process earlier
  | .fork parent child _ :: earlier =>
      if child = process then (role parent earlier).forked
      else role process earlier
  | .enter actor label :: earlier =>
      if actor = process then (role process earlier).entered label
      else role process earlier
  | _ :: earlier => role process earlier

/-- A label at which `setjmp` has returned a signal. -/
def Label.isCaught : Label → Bool
  | .caught .. => true
  | _ => false

/-- A process is in the branch for a signal. -/
def handling (process : Pid) : List Moves → Bool
  | [] => false
  | .fork parent child _ :: earlier =>
      if child = process then handling parent earlier
      else handling process earlier
  | .enter actor label :: earlier =>
      if actor = process then label.isCaught else handling process earlier
  | _ :: earlier => handling process earlier

section Lemmas

variable {process actor parent child : Pid} {log : List Moves}

@[simp]
theorem role_call {event : Event signature} :
    role process (.call actor event :: log) =
      if actor = process then (role process log).called event.call
      else role process log :=
  rfl

@[simp]
theorem role_fork {call : Call} :
    role process (.fork parent child call :: log) =
      if child = process then (role parent log).forked
      else role process log :=
  rfl

@[simp]
theorem role_enter {label : Label} :
    role process (.enter actor label :: log) =
      if actor = process then (role process log).entered label
      else role process log :=
  rfl

@[simp]
theorem handling_call {event : Event signature} :
    handling process (.call actor event :: log) = handling process log :=
  rfl

@[simp]
theorem handling_fork {call : Call} :
    handling process (.fork parent child call :: log) =
      if child = process then handling parent log
      else handling process log :=
  rfl

@[simp]
theorem handling_enter {label : Label} :
    handling process (.enter actor label :: log) =
      if actor = process then label.isCaught else handling process log :=
  rfl

end Lemmas

/-- A process has or had a role. -/
def Was (played : Role) (process : Pid) (log : List Moves) : Prop :=
  ∃ earlier, earlier <:+ log ∧ role process earlier = played

section Was

variable {played : Role} {process : Pid} {log : List Moves}

theorem was_now (now : role process log = played) : Was played process log :=
  ⟨log, List.suffix_refl log, now⟩

theorem Was.later (was : Was played process log) (move : Moves) :
    Was played process (move :: log) := by
  rcases was with ⟨earlier, suffix, now⟩
  exact ⟨earlier, suffix.trans (List.suffix_cons move log), now⟩

end Was

/-- A number is the identifier of a process that has or had a role. -/
def Names (played : Role) (pid : Int) (log : List Moves) : Prop :=
  0 < pid ∧ pid < PID_MAX_LIMIT ∧ Was played pid.toNat log

theorem Names.later {played : Role} {pid : Int} {log : List Moves}
    (names : Names played pid log) (move : Moves) :
    Names played pid (move :: log) :=
  ⟨names.1, names.2.1, names.2.2.later move⟩

theorem toInt_ne_zero {word : UInt} (nonzero : word ≠ 0) :
    word.toInt ≠ 0 := by
  intro zero
  apply nonzero
  apply BitVec.eq_of_toInt_eq
  simpa using zero

/-- A word can hold every process identifier. -/
theorem toInt_ofInt_pid {pid : Int} (positive : 0 < pid)
    (small : pid < PID_MAX_LIMIT) : (BitVec.ofInt 32 pid).toInt = pid := by
  rw [BitVec.toInt_ofInt]
  have limit : pid < 0x400000 := small
  apply Int.bmod_eq_of_le <;> omega

end Atomicles.Daemon
