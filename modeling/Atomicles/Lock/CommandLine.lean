import Mathlib.Algebra.Group.Nat.Defs
import Atomicles.Source.LockMain

/-!
# The command line of `lock`

The numbers on the command line go through locals of different widths before
an action gets them.  The option loop is followed field by field, and the
courses that `main` can take are compared with what is written.
-/

namespace Atomicles

open Interaction CommandLine

namespace Lock

/-! ## What the option loop leaves -/

/-- The number behind an option of one kind. -/
def argument (code : OptionCode) : Found OptionCode → Option Int
  | .option other optarg => if other = code then some (atoi optarg) else none
  | .invalid => none

/-- The number the command line gives for one kind of option: the last one,
or a default where there is none. -/
def written (code : OptionCode) (default : Int)
    (found : List (Found OptionCode)) : Int :=
  (found.filterMap (argument code)).getLastD default

/-- The locals after the loop. -/
def settled (found : List (Found OptionCode)) : Locals :=
  found.foldl Locals.set {}

variable {found : List (Found OptionCode)}

theorem settled_timeout :
    (settled found).timeout = BitVec.ofInt 16 (written .timeout 0 found) := by
  apply @foldl_field _ _ _ _ Locals.set Locals.timeout (argument .timeout)
  · intro locals item
    cases item with
    | option code optarg => cases code <;> rfl
    | invalid => rfl
  · rfl

theorem settled_semaphores :
    (settled found).semaphores =
      BitVec.ofInt 16 (written .semaphores 1 found) := by
  apply @foldl_field _ _ _ _ Locals.set Locals.semaphores
    (argument .semaphores)
  · intro locals item
    cases item with
    | option code optarg => cases code <;> rfl
    | invalid => rfl
  · rfl

theorem settled_expire :
    (settled found).expire = written .expire 0 found := by
  apply @foldl_field _ _ _ _ Locals.set Locals.expire (argument .expire) id
  · intro locals item
    cases item with
    | option code optarg => cases code <;> rfl
    | invalid => rfl
  · rfl

/-- An option that is not understood is remembered to the end. -/
theorem foldl_e {locals : Locals} :
    (found.foldl Locals.set locals).e = 0 ↔
      locals.e = 0 ∧ .invalid ∉ found := by
  induction found generalizing locals with
  | nil => simp
  | cons item found ih =>
      rw [List.foldl_cons, ih]
      cases item with
      | option code optarg => cases code <;> simp [Locals.set]
      | invalid => simp [Locals.set]

theorem settled_e : (settled found).e = 0 ↔ .invalid ∉ found := by
  unfold settled
  rw [foldl_e]
  exact and_iff_right rfl

/-! ## The courses -/

/-- What `main` does with its operands, once its options are understood. -/
theorem course_operands {args operands : List Text}
    (enough : args.length + 1 > 2)
    (scanned : getopt_long longopts args = (found, operands))
    (understood : .invalid ∉ found) :
    course args =
      match operands with
      | [] => .segv
      | [_] => .segv
      | key :: action :: _ => (settled found).choose key action := by
  have fine : (settled found).e = 0 := settled_e.mpr understood
  unfold course
  rw [if_pos enough, scanned]
  exact if_pos fine

theorem course_invalid {args operands : List Text}
    (enough : args.length + 1 > 2)
    (scanned : getopt_long longopts args = (found, operands))
    (invalid : .invalid ∈ found) : course args = .usage (-2) := by
  have failed : ¬ (settled found).e = 0 := by
    rw [settled_e]
    exact not_not_intro invalid
  unfold course
  rw [if_pos enough, scanned]
  exact if_neg failed

/-- The action that a word and the numbers on the command line stand for. -/
def Stated (found : List (Found OptionCode)) (verb : Verb) : Action → Prop
  | .on timeout => verb = .on ∧ timeout = written .timeout 0 found
  | .off => verb = .off
  | .summary => verb = .summary
  | .status => verb = .status
  | .delete => verb = .delete
  | .create semaphores expire =>
      verb = .create ∧
        (semaphores.toNat : Int) = written .semaphores 1 found ∧
        expire = written .expire 0 found

/-- The numbers that an action gets fit into the locals they go through. -/
def Fits (found : List (Found OptionCode)) (key : Text) : Verb → Prop
  | .help => True
  | .on =>
      0 ≤ atoi key ∧ -2 ^ 15 ≤ written .timeout 0 found ∧
        written .timeout 0 found < 2 ^ 15
  | .create =>
      0 ≤ atoi key ∧ 0 ≤ written .semaphores 1 found ∧
        written .semaphores 1 found < 2 ^ 16
  | _ => 0 ≤ atoi key

theorem key_exact_iff (key : Text) :
    (((BitVec.ofInt 32 (atoi key)).toNat : Int) = atoi key) ↔ 0 ≤ atoi key := by
  rcases atoi_range key with ⟨lower, upper⟩
  rw [BitVec.toNat_ofInt]
  omega

theorem short_exact_iff (value : Int) :
    (BitVec.ofInt 16 value).toInt = value ↔
      -2 ^ 15 ≤ value ∧ value < 2 ^ 15 := by
  rw [BitVec.toInt_ofInt, Int.bmod_def]
  omega

theorem ushort_exact_iff (value : Int) :
    (((BitVec.ofInt 16 value).setWidth 32).toNat : Int) = value ↔
      0 ≤ value ∧ value < 2 ^ 16 := by
  rw [BitVec.toNat_setWidth, BitVec.toNat_ofInt]
  omega

/-- The call that a word other than `help` leads to is the stated one exactly
where the numbers fit. -/
theorem choose_stated_iff {key action : Text} {verb : Verb}
    (read : Verb.read action = some verb) (acts : verb ≠ .help) :
    (∃ statics number stated,
      (settled found).choose key action = .call statics number stated ∧
        (number.toNat : Int) = atoi key ∧ Stated found verb stated) ↔
      Fits found key verb := by
  have exact := key_exact_iff key
  constructor
  · rintro ⟨statics, number, stated, chosen, isKey, meant⟩
    simp only [Locals.choose, read] at chosen
    cases verb with
    | help => exact absurd rfl acts
    | on =>
        cases chosen
        have short := meant.2
        rw [settled_timeout, short_exact_iff] at short
        exact ⟨exact.mp isKey, short⟩
    | create =>
        cases chosen
        have ushort := meant.2.1
        rw [settled_semaphores, ushort_exact_iff] at ushort
        exact ⟨exact.mp isKey, ushort⟩
    | off =>
        cases chosen
        exact exact.mp isKey
    | summary =>
        cases chosen
        exact exact.mp isKey
    | status =>
        cases chosen
        exact exact.mp isKey
    | delete =>
        cases chosen
        exact exact.mp isKey
  · intro fits
    simp only [Locals.choose, read]
    cases verb with
    | help => exact absurd rfl acts
    | on =>
        rcases fits with ⟨positive, short⟩
        refine ⟨_, _, _, rfl, exact.mpr positive, rfl, ?_⟩
        rw [settled_timeout, short_exact_iff]
        exact short
    | create =>
        rcases fits with ⟨positive, ushort⟩
        refine ⟨_, _, _, rfl, exact.mpr positive, rfl, ?_, settled_expire⟩
        rw [settled_semaphores, ushort_exact_iff]
        exact ushort
    | off => exact ⟨_, _, _, rfl, exact.mpr fits, rfl⟩
    | summary => exact ⟨_, _, _, rfl, exact.mpr fits, rfl⟩
    | status => exact ⟨_, _, _, rfl, exact.mpr fits, rfl⟩
    | delete => exact ⟨_, _, _, rfl, exact.mpr fits, rfl⟩

/-- The timeout that `on` gets is that of the blocking mode for every multiple
of `2 ^ 16`. -/
theorem on_blocking_iff :
    (settled found).timeout.toInt = LOCK_BLOCKING ↔
      2 ^ 16 ∣ written .timeout 0 found := by
  rw [settled_timeout, BitVec.toInt_ofInt, Int.bmod_def]
  unfold LOCK_BLOCKING
  omega

/-! ## The results -/

end Lock

end Atomicles
