import Atomicles.Source.LockMain

/-!
# The registry of locks

What the `lock` command is for: a map from keys to locks, each with a size, a
number of units that are held and perhaps a deadline.  A command is one step
of the registry at one time.
-/

namespace Atomicles

/-- A lock as its users see it. -/
structure Listing where
  size : Nat
  held : Nat
  deadline : Option Time
  bounded : held ≤ size

namespace Listing

/-- A lock that was just made. -/
def fresh (size : Nat) (deadline : Option Time) : Listing :=
  ⟨size, 0, deadline, Nat.zero_le size⟩

def Expired (listing : Listing) (now : Time) : Prop :=
  ∃ deadline ∈ listing.deadline, deadline ≤ now

instance (listing : Listing) (now : Time) : Decidable (listing.Expired now) :=
  inferInstanceAs (Decidable (∃ deadline ∈ listing.deadline, deadline ≤ now))

/-- One more unit is held. -/
def take (listing : Listing) (free : listing.held < listing.size) : Listing :=
  { listing with held := listing.held + 1, bounded := free }

/-- One unit less is held. -/
def give (listing : Listing) : Listing :=
  { listing with
    held := listing.held - 1
    bounded := Nat.le_trans (Nat.sub_le _ _) listing.bounded }

/-- The seconds that are left, `-1` if the lock never expires. -/
def remaining (listing : Listing) (now : Time) : Int :=
  listing.deadline.elim (-1) (· - now)

theorem expired_iff {listing : Listing} {now deadline : Time}
    (expires : listing.deadline = some deadline) :
    listing.Expired now ↔ deadline ≤ now := by
  simp [Expired, expires]

end Listing

/-- The locks under their keys. -/
abbrev Registry := Key → Option Listing

/-- What a command returns, and the lines of numbers that it prints. -/
structure Reply where
  code : Int
  printed : List (List Int) := []

namespace Registry

def put (registry : Registry) (key : Key) (listing : Listing) : Registry :=
  Function.update registry key (some listing)

def drop (registry : Registry) (key : Key) : Registry :=
  Function.update registry key none

@[simp]
theorem put_self {registry : Registry} {key : Key} {listing : Listing} :
    registry.put key listing key = some listing :=
  Function.update_self ..

@[simp]
theorem drop_self {registry : Registry} {key : Key} :
    registry.drop key key = none :=
  Function.update_self ..

/-- The line of `status` about a lock that is missing or expired. -/
def nothing : List Int :=
  [-1, -1, -1]

/-- A command as one step. -/
def serve (registry : Registry) (now : Time) (key : Key) (action : Action) :
    Reply × Registry :=
  match registry key, action with
  | none, .create semaphores expire =>
      (⟨0, []⟩, registry.put key
        (.fresh semaphores.toNat (if expire = 0 then none else now + expire)))
  | none, .delete => (⟨2, []⟩, registry)
  | none, .status => (⟨-1, [nothing]⟩, registry)
  | none, _ => (⟨-1, []⟩, registry)
  | some listing, .on _ =>
      if listing.Expired now then (⟨-1, []⟩, registry.drop key)
      else if free : listing.held < listing.size then
        (⟨0, []⟩, registry.put key (listing.take free))
      else (⟨1, []⟩, registry)
  | some listing, .off =>
      if 0 < listing.held then (⟨0, []⟩, registry.put key listing.give)
      else (⟨-1, []⟩, registry)
  | some listing, .status =>
      if listing.Expired now then (⟨-1, [nothing]⟩, registry)
      else
        (⟨0, [[listing.held, listing.size, listing.remaining now]]⟩, registry)
  | some _, .delete => (⟨0, []⟩, registry.drop key)
  | some _, _ => (⟨-1, []⟩, registry)

/-- A command concerns its own key only. -/
theorem serve_other {registry : Registry} {now : Time} {key other : Key}
    {action : Action} (different : other ≠ key) :
    (registry.serve now key action).2 other = registry other := by
  unfold serve
  split <;> try rfl
  · exact Function.update_of_ne different _ _
  · split
    · exact Function.update_of_ne different _ _
    · split
      · exact Function.update_of_ne different _ _
      · rfl
  · split
    · exact Function.update_of_ne different _ _
    · rfl
  · split <;> rfl
  · exact Function.update_of_ne different _ _

end Registry

/-- A command that was run, with the times of its start and its end. -/
structure Served where
  key : Key
  action : Action
  started : Time
  ended : Time
  reply : Reply

/-- A sequence of commands, each one step at a time while it runs. -/
inductive Registry.Serves : Registry → List Served → Registry → Prop where
  | nil (registry : Registry) : Serves registry [] registry
  | cons {registry final : Registry} {command : Served} {rest : List Served}
      (now : Time) (begun : command.started ≤ now) (served : now ≤ command.ended)
      (replies : command.reply =
        (registry.serve now command.key command.action).1)
      (goesOn : Serves (registry.serve now command.key command.action).2 rest
        final) : Serves registry (command :: rest) final

end Atomicles
