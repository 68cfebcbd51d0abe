import Mathlib.Data.List.Perm.Basic
import Atomicles.Source.Syschk

/-!
# What the probes acquire and release

`chk_calloc` frees all its chunks and counts them right where an allocation
has failed; a chunk that comes too slowly is lost.  `chk_open` counts one
descriptor more than it closes, wherever it ends.
-/

namespace Atomicles.Syschk

/-! ## What is expected -/

/-- A run of one of the two probes. -/
inductive Probe where
  | opens (outcomes : List OpenOutcome)
  | allocations (outcomes : List AllocOutcome)

namespace Probe

/-- The probe returns after these outcomes. -/
def Returns (threshold : Int) : Probe → Prop
  | .opens outcomes => (chkOpen threshold outcomes .start).isSome
  | .allocations outcomes => (chkCalloc threshold outcomes .start).isSome

/-- When it does, everything has been released once and counted, and every
index was within the table. -/
def Releases (threshold : Int) : Probe → Prop
  | .opens outcomes => ∀ final, chkOpen threshold outcomes .start = some final →
      final.closed.Perm final.descriptors ∧
        final.opened_max = final.descriptors.length
  | .allocations outcomes =>
      ∀ final, chkCalloc threshold outcomes .start = some final →
        final.freed.Perm final.chunks ∧
          final.opened_max = final.chunks.length ∧
          ∀ index ∈ final.indices, index < CALLOC_MAX_COUNT

end Probe

/-- A chunk that the loop goes on after. -/
def AllocOutcome.Continues (threshold : Int) : AllocOutcome → Prop
  | .null _ => False
  | .chunk _ performed => performed = -1 ∨ threshold ≤ performed

/-- An allocation that fails, after fewer chunks than the table has room
for. -/
def Exhausts (threshold : Int) (outcomes : List AllocOutcome) : Prop :=
  ∃ (front : List AllocOutcome) (errno : Int) (rest : List AllocOutcome),
    outcomes = front ++ .null errno :: rest ∧
      (∀ outcome ∈ front, outcome.Continues threshold) ∧
      front.length < CALLOC_MAX_COUNT

/-- The runs that release and report what they acquired: those of `chk_calloc`
whose memory is exhausted. -/
def Probe.Sound (threshold : Int) : Probe → Prop
  | .opens _ => False
  | .allocations outcomes => Exhausts threshold outcomes

/-! ## `chk_open` -/

/-- The cleanup counts one more than it closes. -/
theorem cleanup_counts {state : Opening}
    (assigned : state.opened.length = state.i) :
    state.cleanup.opened_max = state.cleanup.closed.length + 1 := by
  simp [Opening.cleanup, assigned]

theorem chkOpen_counts {threshold : Int} {outcomes : List OpenOutcome}
    {state : Opening} {final : Opened}
    (assigned : state.opened.length = state.i)
    (ran : chkOpen threshold outcomes state = some final) :
    final.opened_max = final.closed.length + 1 := by
  induction outcomes generalizing state with
  | nil => cases ran
  | cons outcome rest ih =>
      cases outcome with
      | error errno =>
          rw [chkOpen, Option.some.injEq] at ran
          rw [← ran]
          exact cleanup_counts assigned
      | descriptor fh performed =>
          rw [chkOpen] at ran
          dsimp only at ran
          split at ran
          · refine ih ?_ ran
            simp [assigned]
          · split at ran
            · refine ih ?_ ran
              exact assigned
            · rw [Option.some.injEq] at ran
              rw [← ran]
              exact cleanup_counts assigned

/-- However it ends, `chk_open` does not count what it has closed. -/
theorem chkOpen_unsound {threshold : Int} {outcomes : List OpenOutcome}
    {final : Opened}
    (ran : chkOpen threshold outcomes .start = some final) :
    ¬ (final.closed.Perm final.descriptors ∧
      final.opened_max = final.descriptors.length) := by
  rintro ⟨released, counted⟩
  have more := chkOpen_counts rfl ran
  rw [released.length_eq] at more
  omega

/-! ## `chk_calloc` -/

/-- The state of the loop after chunks that it goes on after. -/
def holding (chunks : List Nat) : Callocing where
  i := chunks.length
  heaps := chunks
  indices := List.range chunks.length
  reason := STR_UNKNWN
  chunks := chunks

/-- What has been done when memory is exhausted. -/
def exhausted (chunks : List Nat) (reason : String) : Calloced where
  opened_max := chunks.length
  freed := chunks.reverse
  indices := List.range (chunks.length + 1) ++ (List.range chunks.length).reverse
  reason := reason
  chunks := chunks

/-- A round with a chunk that the loop goes on after. -/
theorem chkCalloc_continues {threshold : Int} {outcome : AllocOutcome}
    (continues : outcome.Continues threshold) (chunks : List Nat)
    (rest : List AllocOutcome) :
    ∃ address,
      chkCalloc threshold (outcome :: rest) (holding chunks) =
        chkCalloc threshold rest (holding (chunks ++ [address])) := by
  cases outcome with
  | null errno => cases continues
  | chunk address performed =>
      refine ⟨address, ?_⟩
      have next : holding (chunks ++ [address]) =
          { i := chunks.length + 1
            heaps := chunks.take chunks.length ++ [address]
            indices := List.range chunks.length ++ [chunks.length]
            reason := STR_UNKNWN
            chunks := chunks ++ [address] } := by
        simp [holding, List.range_succ]
      rw [chkCalloc, next]
      by_cases none : performed = -1
      · rw [if_pos none]
        rfl
      · rw [if_neg none, if_pos (continues.resolve_left none)]
        rfl

/-- A failed allocation ends the loop. -/
theorem chkCalloc_null (threshold : Int) (errno : Int) (chunks : List Nat)
    (rest : List AllocOutcome) :
    ∃ reason,
      chkCalloc threshold (.null errno :: rest) (holding chunks) =
        some (exhausted chunks reason) := by
  refine ⟨if errno = ENOMEM then STR_ENOMEM else STR_UNKNWN, ?_⟩
  rw [chkCalloc]
  simp [Callocing.finish, Callocing.assign, holding, exhausted,
    List.range_succ]

/-- So does a chunk that comes too slowly, which is lost. -/
theorem chkCalloc_slow {threshold performed : Int} {address : Nat}
    (stops : ¬ (AllocOutcome.chunk address performed).Continues threshold)
    {chunks : List Nat} {rest : List AllocOutcome} {final : Calloced}
    (ran : chkCalloc threshold (.chunk address performed :: rest)
      (holding chunks) = some final) :
    final.freed.length < final.chunks.length := by
  have measured : performed ≠ -1 := fun none => stops (Or.inl none)
  have slow : ¬ threshold ≤ performed := fun fast => stops (Or.inr fast)
  rw [chkCalloc] at ran
  simp only [measured, slow, if_false, Option.some.injEq] at ran
  rw [← ran]
  simp [Callocing.finish, Callocing.assign, holding]

/-- Rounds that the loop goes on after. -/
theorem chkCalloc_front {threshold : Int} {front : List AllocOutcome}
    (continue_all : ∀ outcome ∈ front, outcome.Continues threshold)
    (chunks : List Nat) (rest : List AllocOutcome) :
    ∃ more : List Nat, more.length = front.length ∧
      chkCalloc threshold (front ++ rest) (holding chunks) =
        chkCalloc threshold rest (holding (chunks ++ more)) := by
  induction front generalizing chunks with
  | nil => exact ⟨[], rfl, by rw [List.append_nil, List.nil_append]⟩
  | cons outcome front ih =>
      rcases chkCalloc_continues (continue_all outcome List.mem_cons_self)
        chunks (front ++ rest) with ⟨address, first⟩
      rcases ih
        (fun other member =>
          continue_all other (List.mem_cons_of_mem outcome member))
        (chunks ++ [address]) with ⟨more, same, later⟩
      refine ⟨address :: more, congrArg Nat.succ same, ?_⟩
      rw [List.cons_append, first, later, List.append_assoc,
        List.singleton_append]

/-- Where the loop ends, a chunk is lost, or memory is exhausted. -/
theorem chkCalloc_cases {threshold : Int} {outcomes : List AllocOutcome}
    {chunks : List Nat} {final : Calloced}
    (ran : chkCalloc threshold outcomes (holding chunks) = some final) :
    final.freed.length < final.chunks.length ∨
      ∃ (front : List AllocOutcome) (errno : Int)
          (rest : List AllocOutcome) (more : List Nat) (reason : String),
        outcomes = front ++ .null errno :: rest ∧
        (∀ outcome ∈ front, outcome.Continues threshold) ∧
        more.length = front.length ∧
        final = exhausted (chunks ++ more) reason := by
  induction outcomes generalizing chunks with
  | nil => cases ran
  | cons outcome rest ih =>
      by_cases continues : outcome.Continues threshold
      · rcases chkCalloc_continues continues chunks rest with
          ⟨address, first⟩
        rw [first] at ran
        rcases ih ran with
          lost | ⟨front, errno, last, more, reason, rfl, all, same, isFinal⟩
        · exact Or.inl lost
        · right
          rw [List.append_assoc, List.singleton_append] at isFinal
          refine ⟨outcome :: front, errno, last, address :: more, reason, rfl,
            ?_, congrArg Nat.succ same, isFinal⟩
          intro other member
          rcases List.mem_cons.mp member with rfl | member
          · exact continues
          · exact all other member
      · cases outcome with
        | chunk address performed =>
            exact Or.inl (chkCalloc_slow continues ran)
        | null errno =>
            right
            rcases chkCalloc_null threshold errno chunks rest with
              ⟨reason, ended⟩
            rw [ended, Option.some.injEq] at ran
            refine ⟨[], errno, rest, [], reason, rfl, ?_, rfl, ?_⟩
            · intro other member
              cases member
            · rw [List.append_nil]
              exact ran.symm

/-- What is left when memory is exhausted. -/
theorem exhausted_sound_iff (chunks : List Nat) (reason : String) :
    ((exhausted chunks reason).freed.Perm (exhausted chunks reason).chunks ∧
      (exhausted chunks reason).opened_max =
        (exhausted chunks reason).chunks.length ∧
      ∀ index ∈ (exhausted chunks reason).indices,
        index < CALLOC_MAX_COUNT) ↔
      chunks.length < CALLOC_MAX_COUNT := by
  constructor
  · rintro ⟨_, _, within⟩
    apply within
    simp [exhausted]
  · intro small
    refine ⟨chunks.reverse_perm, rfl, ?_⟩
    intro index used
    have below : index ≤ chunks.length := by
      rcases List.mem_append.mp used with assigned | freed
      · exact Nat.le_of_lt_succ (List.mem_range.mp assigned)
      · exact Nat.le_of_lt (List.mem_range.mp (List.mem_reverse.mp freed))
    exact Nat.lt_of_le_of_lt below small

/-! ## The result -/

/-- **Probes.**  Of the runs that return, those of `chk_calloc` whose memory
is exhausted release what they acquired and report it; no run of `chk_open`
does. -/
theorem releases_iff_sound {threshold : Int} {probe : Probe}
    (returns : probe.Returns threshold) :
    probe.Releases threshold ↔ probe.Sound threshold := by
  cases probe with
  | opens outcomes =>
      rcases Option.isSome_iff_exists.mp returns with ⟨final, ran⟩
      constructor
      · intro releases
        exact chkOpen_unsound ran (releases final ran)
      · intro impossible
        cases impossible
  | allocations outcomes =>
      rcases Option.isSome_iff_exists.mp returns with ⟨final, ran⟩
      have fromHolding :
          chkCalloc threshold outcomes (holding []) = some final := ran
      constructor
      · intro releases
        have sound := releases final ran
        rcases chkCalloc_cases fromHolding with
          lost | ⟨front, errno, rest, more, reason, rfl, all, same, rfl⟩
        · exact absurd sound.1.length_eq (Nat.ne_of_lt lost)
        · have small := (exhausted_sound_iff ([] ++ more) reason).mp sound
          rw [List.nil_append, same] at small
          exact ⟨front, errno, rest, rfl, all, small⟩
      · rintro ⟨front, errno, rest, rfl, all, small⟩ other ran_other
        have isFinal : other = final :=
          Option.some.inj (ran_other.symm.trans ran)
        subst isFinal
        rcases chkCalloc_front all [] (.null errno :: rest) with
          ⟨more, same, continued⟩
        rw [continued] at fromHolding
        rcases chkCalloc_null threshold errno ([] ++ more) rest with
          ⟨reason, ended⟩
        rw [ended, Option.some.injEq] at fromHolding
        rw [← fromHolding]
        apply (exhausted_sound_iff ([] ++ more) reason).mpr
        rw [List.nil_append, same]
        exact small

/-- One chunk, and then no memory. -/
theorem releases_iff_sound_exhausted :
    (Probe.allocations [.chunk 4096 (-1), .null ENOMEM]).Releases 100 ↔
      (Probe.allocations [.chunk 4096 (-1), .null ENOMEM]).Sound 100 :=
  releases_iff_sound rfl

/-- No descriptor at all: `opened_max` is one. -/
theorem not_releases :
    (Probe.opens [.error EMFILE]).Returns 7000 ∧
      ¬ (Probe.opens [.error EMFILE]).Releases 7000 := by
  refine ⟨rfl, ?_⟩
  intro releases
  exact absurd (releases _ rfl).2 (by decide)

end Atomicles.Syschk
