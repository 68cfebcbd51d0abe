import Mathlib.Data.List.Induction
import Atomicles.Source.Syschk

/-!
# The children that `do_fork` accounts for

`forked` counts the children only while `performance` gives no result.  Every
other end of a round leaves a child behind that is not counted, and the
offset of a word passes through an `unsigned short`.
-/

namespace Atomicles.Syschk

/-! ## What is expected at the cleanup -/

/-- The segment begins with the children in the order of their creation, as
many as are counted, and every offset is one within the limit that is not cut
off.  The cleanup reads the offsets below `forked`. -/
structure Accounted (lim : Nat) (entry : Spawning) : Prop where
  count : entry.forked = entry.pids.length
  words : ∀ index < entry.forked, entry.word index = entry.pids[index]?
  offsets : ∀ offset,
    offset ∈ entry.writes.map Prod.fst ∨ offset < entry.forked →
      offset < lim ∧ offset < 0x10000

/-- Only children without a result of `performance`, no more than the limit
and the offsets allow, and then an error of `fork`. -/
def Undisturbed (lim : Nat) (outcomes : List ForkOutcome) : Prop :=
  ∃ (pids : List UInt) (errno : Int) (rest : List ForkOutcome),
    outcomes = pids.map (fun pid => .child pid (-1)) ++ .error errno :: rest ∧
      pids.length ≤ lim ∧ pids.length ≤ 0x10000

/-! ## Rounds that count their child -/

/-- The state after children that have all been counted. -/
def recorded (pids : List UInt) : Spawning where
  forked := pids.length
  writes := pids.zipIdx.map Prod.swap
  reason := STR_UNKNWN
  pids := pids

theorem recorded_nil : recorded [] = .start := rfl

theorem recorded_append (pids : List UInt) (pid : UInt) :
    recorded (pids ++ [pid]) =
      { recorded pids with
        forked := pids.length + 1
        writes := (recorded pids).writes ++ [(pids.length, pid)]
        pids := pids ++ [pid] } := by
  simp [recorded, List.zipIdx_append]

/-- A round without a result of `performance`. -/
theorem doFork_counted {lim : Nat} (threshold : Int) {pids : List UInt}
    (below : pids.length < lim) (pid : UInt) (rest : List ForkOutcome) :
    doFork lim threshold (.child pid (-1) :: rest) (recorded pids) =
      doFork lim threshold rest (recorded (pids ++ [pid])) := by
  rw [doFork, recorded_append]
  have within : (recorded pids).forked < lim := below
  simp only [within, if_true, Spawning.writeUint]
  rfl

/-- A child that has been left out stays left out. -/
theorem doFork_behind {lim : Nat} {threshold : Int}
    {outcomes : List ForkOutcome} {state entry : Spawning}
    (behind : state.forked < state.pids.length)
    (ran : doFork lim threshold outcomes state = some entry) :
    entry.forked < entry.pids.length := by
  induction outcomes generalizing state with
  | nil => cases ran
  | cons outcome rest ih =>
      cases outcome with
      | error errno =>
          cases ran
          exact behind
      | child pid performed =>
          have later : state.forked + 1 < (state.pids ++ [pid]).length := by
            rw [List.length_append, List.length_singleton]
            exact Nat.succ_lt_succ behind
          rw [doFork] at ran
          dsimp only at ran
          split at ran
          · split at ran
            · exact ih later ran
            · split at ran
              · exact ih (Nat.lt_of_succ_lt later) ran
              · cases ran
                exact Nat.lt_of_succ_lt later
          · cases ran
            exact Nat.lt_of_succ_lt later

/-- Where the cleanup is reached, a child has been left out, or all of them
are counted and `fork` has failed. -/
theorem doFork_cases {lim : Nat} {threshold : Int}
    {outcomes : List ForkOutcome} {pids : List UInt} {entry : Spawning}
    (within : pids.length ≤ lim)
    (ran : doFork lim threshold outcomes (recorded pids) = some entry) :
    entry.forked < entry.pids.length ∨
      ∃ (more : List UInt) (errno : Int) (rest : List ForkOutcome)
          (reason : String),
        outcomes =
          more.map (fun pid => .child pid (-1)) ++ .error errno :: rest ∧
        (pids ++ more).length ≤ lim ∧
        entry = { recorded (pids ++ more) with reason } := by
  induction outcomes generalizing pids with
  | nil => cases ran
  | cons outcome rest ih =>
      cases outcome with
      | error errno =>
          right
          rw [doFork, Option.some.injEq] at ran
          rw [← ran]
          refine ⟨[], errno, rest, ?reason, rfl, ?bound, ?entry⟩
          case bound =>
            rw [List.append_nil]
            exact within
          case entry =>
            rw [List.append_nil]
      | child pid performed =>
          have behind : pids.length < (pids ++ [pid]).length := by
            rw [List.length_append, List.length_singleton]
            exact Nat.lt_succ_self _
          by_cases below : pids.length < lim
          · by_cases counted : performed = -1
            · subst counted
              rw [doFork_counted threshold below] at ran
              have within_next : (pids ++ [pid]).length ≤ lim := by
                rw [List.length_append, List.length_singleton]
                exact below
              rcases ih within_next ran with
                lost | ⟨more, errno, last, reason, rfl, bound, isEntry⟩
              · exact Or.inl lost
              · right
                rw [List.append_assoc, List.singleton_append]
                  at bound isEntry
                exact ⟨pid :: more, errno, last, reason, rfl, bound, isEntry⟩
            · left
              have isBelow : (recorded pids).forked < lim := below
              rw [doFork] at ran
              simp only [isBelow, if_true, counted, if_false] at ran
              split at ran
              · exact doFork_behind behind ran
              · cases ran
                exact behind
          · left
            have isAbove : ¬ (recorded pids).forked < lim := below
            rw [doFork] at ran
            simp only [isAbove, if_false] at ran
            cases ran
            exact behind

/-- Such rounds lead to the cleanup. -/
theorem doFork_children {lim : Nat} (threshold : Int) {pids : List UInt}
    (more : List UInt) (within : (pids ++ more).length ≤ lim)
    (rest : List ForkOutcome) :
    doFork lim threshold
        (more.map (fun pid => .child pid (-1)) ++ rest) (recorded pids) =
      doFork lim threshold rest (recorded (pids ++ more)) := by
  induction more generalizing pids with
  | nil => rw [List.append_nil, List.map_nil, List.nil_append]
  | cons pid more ih =>
      have below : pids.length < lim := by
        rw [List.length_append, List.length_cons] at within
        omega
      rw [← List.singleton_append, ← List.append_assoc] at within ⊢
      rw [List.map_append, List.append_assoc, List.map_singleton,
        List.singleton_append, doFork_counted threshold below]
      exact ih within

/-! ## The segment -/

/-- As long as no offset is cut off, the segment holds the children. -/
theorem word_recorded {pids : List UInt} (small : pids.length ≤ 0x10000)
    (index : Nat) : (recorded pids).word index = pids[index]? := by
  induction pids using List.reverseRecOn with
  | nil => rfl
  | append_singleton pids pid ih =>
      rw [List.length_append, List.length_singleton] at small
      have kept := ih (by omega)
      have cut : pids.length % 0x10000 = pids.length :=
        Nat.mod_eq_of_lt small
      unfold Spawning.word at kept ⊢
      rw [recorded_append]
      simp only [List.reverse_append, List.reverse_singleton,
        List.singleton_append, List.find?_cons, cut]
      by_cases here : pids.length = index
      · subst here
        simp
      · rw [decide_eq_false here, kept, List.getElem?_append]
        split
        · rfl
        · have beyond : 1 ≤ index - pids.length := by omega
          rw [List.getElem?_eq_none (by omega),
            List.getElem?_eq_none (by simpa using beyond)]

theorem offsets_recorded (pids : List UInt) :
    (recorded pids).writes.map Prod.fst = List.range pids.length := by
  have swapped : (Prod.fst ∘ Prod.swap : UInt × Nat → Nat) = Prod.snd := rfl
  unfold recorded
  rw [List.map_map, swapped, List.zipIdx_map_snd, List.range_eq_range']

/-! ## The result -/

/-- **Children.**  When `do_fork` comes to its cleanup, the children are
accounted for exactly if nothing has disturbed their count. -/
theorem accounted_iff_undisturbed {lim : Nat} {threshold : Int}
    {outcomes : List ForkOutcome} {entry : Spawning}
    (ran : doFork lim threshold outcomes .start = some entry) :
    Accounted lim entry ↔ Undisturbed lim outcomes := by
  rw [← recorded_nil] at ran
  constructor
  · intro accounted
    rcases doFork_cases (Nat.zero_le lim) ran with
      lost | ⟨pids, errno, rest, reason, rfl, within, rfl⟩
    · exact absurd accounted.count (Nat.ne_of_lt lost)
    · refine ⟨pids, errno, rest, rfl, within, ?_⟩
      by_contra beyond
      have cut := (accounted.offsets 0x10000
        (Or.inr (Nat.lt_of_not_le beyond))).2
      exact absurd cut (Nat.lt_irrefl _)
  · rintro ⟨pids, errno, rest, rfl, within, small⟩
    rw [doFork_children threshold pids within] at ran
    cases ran
    constructor
    · rfl
    · intro index _
      exact word_recorded small index
    · intro offset used
      have below : offset < pids.length := by
        rcases used with written | read
        · have inRange : offset ∈ List.range pids.length := by
            rw [← offsets_recorded]
            exact written
          exact List.mem_range.mp inRange
        · exact read
      exact ⟨Nat.lt_of_lt_of_le below within, Nat.lt_of_lt_of_le below small⟩

/-- Two children and an error. -/
theorem accounted_iff_undisturbed_two :
    Accounted 10 { recorded [100, 101] with reason := STR_EAGAIN } ↔
      Undisturbed 10 [.child 100 (-1), .child 101 (-1), .error EAGAIN] :=
  @accounted_iff_undisturbed 10 500
    [.child 100 (-1), .child 101 (-1), .error EAGAIN] _ rfl

/-- With a limit of one the second child is not counted. -/
theorem not_accounted :
    ∃ entry,
      doFork 1 500 [.child 100 (-1), .child 101 (-1)] .start = some entry ∧
        ¬ Accounted 1 entry := by
  refine ⟨_, rfl, ?_⟩
  intro accounted
  exact absurd accounted.count (by decide)

end Atomicles.Syschk
