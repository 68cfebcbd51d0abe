import Mathlib.Data.List.Forall2
import Atomicles.Source.Syschk

/-!
# What `performance` measures

The statics of `performance` outlive the test that it is called by.  The time
of the last measurement is reset by the first call of a test, the count is
not, so the first rate of a test is taken from where an earlier test ended.
-/

namespace Atomicles.Syschk

/-! ## Tests -/

/-- A call of `performance` and what the clock shows at its two readings. -/
structure Call where
  counter : ULong
  divider : ULong
  now : Time
  again : Time
deriving DecidableEq, Repr

/-- The results of the calls of one test. -/
def runTest : List Call → Statics → Option (List (Call × Int) × Statics)
  | [], statics => some ([], statics)
  | call :: rest, statics => do
      let (result, statics) ←
        performance call.counter call.divider call.now call.again statics
      let (results, statics) ← runTest rest statics
      return ((call, result) :: results, statics)

/-- The results of one test after the other. -/
def runTests :
    List (List Call) → Statics → Option (List (List (Call × Int)) × Statics)
  | [], statics => some ([], statics)
  | test :: rest, statics => do
      let (results, statics) ← runTest test statics
      let (later, statics) ← runTests rest statics
      return (results :: later, statics)

/-- What a rate is measured from. -/
structure Baseline where
  counter : ULong
  time : Time
deriving DecidableEq, Repr

/-- The rate since the baseline. -/
def Baseline.rate (base : Baseline) (call : Call) : Int :=
  ((call.counter.toNat : Int) - base.counter.toNat) / (call.now - base.time) /
    call.divider.toNat

/-- Every result but -1 is the rate since the measurement before. -/
def Measured : Baseline → List (Call × Int) → Prop
  | _, [] => True
  | base, (call, result) :: rest =>
      (result ≠ -1 → result = base.rate call) ∧
        Measured (if result = -1 then base else ⟨call.counter, call.now⟩) rest

/-- Where a test begins: with the time that its first call remembers. -/
def baselineOf : List Call → Baseline
  | [] => ⟨0, 0⟩
  | first :: _ => ⟨0, first.again⟩

/-- The counter of a test starts at zero and does not decrease. -/
structure Counting (test : List Call) : Prop where
  starts : ∀ first ∈ test.head?, first.counter = 0
  rises : test.Pairwise fun earlier later =>
    earlier.counter.toNat ≤ later.counter.toNat

/-! ## Tests that are measured as they should be -/

/-- A call that comes more than five seconds after the baseline. -/
def Baseline.Due (base : Baseline) (call : Call) : Prop :=
  call.counter ≠ 0 ∧ 5 < call.now - base.time

instance (base : Baseline) (call : Call) : Decidable (base.Due call) := by
  unfold Baseline.Due
  infer_instance

/-- The rates of a test fit in an `int`. -/
def Fits : Baseline → List Call → Prop
  | _, [] => True
  | base, call :: rest =>
      if base.Due call then
        base.rate call < 0x80000000 ∧ Fits ⟨call.counter, call.now⟩ rest
      else Fits base rest

/-- A test that goes on for more than five seconds. -/
def Long (test : List Call) : Prop :=
  ∃ call ∈ test, (baselineOf test).Due call

/-- The clock is past zero when the test begins, no time passes until the
counter has left zero, and the rates fit. -/
structure Steady (test : List Call) : Prop where
  positive : ∀ first ∈ test.head?, 0 < first.again
  zero : ∀ call ∈ test, call.counter = 0 →
    call.again = (baselineOf test).time
  fits : Fits (baselineOf test) test

/-! ## One call -/

/-- A call with a counter of zero measures nothing. -/
theorem performance_zero (divider : ULong) (now again : Time)
    (statics : Statics) :
    performance 0 divider now again statics =
      some (-1, { statics with t_last := again }) := by
  simp [performance]

/-- A call that is not due measures nothing. -/
theorem performance_early {call : Call} {base : Baseline}
    (counted : call.counter ≠ 0) (positive : 0 < base.time)
    (early : ¬ base.Due call) (count : ULong) :
    performance call.counter call.divider call.now call.again
        ⟨base.time, count⟩ =
      some (-1, ⟨base.time, count⟩) := by
  have notLong : ¬ 5 < call.now - base.time :=
    fun long => early ⟨counted, long⟩
  unfold performance
  rw [if_neg counted]
  simp only [positive, if_true, notLong, if_false]

/-- A call that is due measures the rate since the baseline. -/
theorem performance_due {call : Call} {base : Baseline}
    (positive : 0 < base.time) (due : base.Due call)
    (rises : base.counter.toNat ≤ call.counter.toNat)
    (fits : base.rate call < 0x80000000) {result : Int} {after : Statics}
    (ran : performance call.counter call.divider call.now call.again
      ⟨base.time, base.counter⟩ = some (result, after)) :
    result = base.rate call ∧ result ≠ -1 ∧
      after = ⟨call.now, call.counter⟩ := by
  unfold performance at ran
  simp only [due.1, if_false, positive, if_true, due.2] at ran
  by_cases divides : call.divider = 0
  · rw [if_pos divides] at ran
    cases ran
  · rw [if_neg divides] at ran
    have long : (5 : Int) < (call.now : Int) - base.time := due.2
    have elapsed : ((call.now - base.time).toNat : Int) =
        call.now - base.time :=
      Int.toNat_of_nonneg (by omega)
    have counted : ((call.counter - base.counter).toNat : Int) =
        (call.counter.toNat : Int) - base.counter.toNat := by
      rw [BitVec.toNat_sub_of_le (BitVec.le_def.mpr rises)]
      exact Int.ofNat_sub rises
    have rate :
        (((call.counter - base.counter).toNat /
          (call.now - base.time).toNat / call.divider.toNat : Nat) : Int) =
            base.rate call := by
      rw [Int.natCast_ediv, Int.natCast_ediv, elapsed, counted]
      rfl
    have nonneg : 0 ≤ base.rate call := by
      rw [← rate]
      exact Int.natCast_nonneg _
    rw [rate, Int.bmod_eq_of_le (by omega) (by omega)] at ran
    cases ran
    refine ⟨rfl, ?_, rfl⟩
    intro minus
    rw [minus] at nonneg
    exact absurd nonneg (by decide)

/-! ## One test -/

theorem runTest_cons {call : Call} {rest : List Call}
    {statics after : Statics} {results : List (Call × Int)}
    (ran : runTest (call :: rest) statics = some (results, after)) :
    ∃ result middle later,
      performance call.counter call.divider call.now call.again statics =
        some (result, middle) ∧
      runTest rest middle = some (later, after) ∧
      results = (call, result) :: later := by
  unfold runTest at ran
  rcases Option.bind_eq_some_iff.mp ran with ⟨⟨result, middle⟩, called, ran⟩
  rcases Option.bind_eq_some_iff.mp ran with ⟨⟨later, last⟩, continued, ran⟩
  cases ran
  exact ⟨result, middle, later, called, continued, rfl⟩

/-- From a baseline that the statics agree with, a test is measured as it
should be. -/
theorem measured_of_agreeing {calls : List Call} (base : Baseline)
    {start : Time} {results : List (Call × Int)} {after : Statics}
    (positive : 0 < base.time)
    (atStart : base.counter = 0 → base.time = start)
    (zero : ∀ call ∈ calls, call.counter = 0 → call.again = start)
    (above : ∀ call ∈ calls, base.counter.toNat ≤ call.counter.toNat)
    (rises : calls.Pairwise fun earlier later =>
      earlier.counter.toNat ≤ later.counter.toNat)
    (fits : Fits base calls)
    (ran : runTest calls ⟨base.time, base.counter⟩ = some (results, after)) :
    Measured base results := by
  induction calls generalizing base results with
  | nil =>
      cases ran
      trivial
  | cons call rest ih =>
      rcases runTest_cons ran with
        ⟨result, middle, later, called, continued, rfl⟩
      have zero_rest := fun other member =>
        zero other (List.mem_cons_of_mem call member)
      have above_rest := fun other member =>
        above other (List.mem_cons_of_mem call member)
      rcases List.pairwise_cons.mp rises with ⟨next, rises_rest⟩
      by_cases due : base.Due call
      · simp only [Fits, if_pos due] at fits
        rcases performance_due positive due
          (above call List.mem_cons_self) fits.1 called with
          ⟨isRate, measured, rfl⟩
        refine ⟨fun _ => isRate, ?_⟩
        rw [if_neg measured]
        have later_time : (0 : Int) < call.now := by
          have long : (5 : Int) < (call.now : Int) - base.time := due.2
          have begun : (0 : Int) < base.time := positive
          omega
        have counted : ¬ call.counter = 0 := due.1
        exact ih ⟨call.counter, call.now⟩ later_time
          (fun none => absurd none counted) zero_rest next rises_rest fits.2
          continued
      · simp only [Fits, if_neg due] at fits
        have kept : result = -1 ∧ middle = ⟨base.time, base.counter⟩ := by
          by_cases counted : call.counter = 0
          · have isZero : base.counter = 0 := by
              have below := above call List.mem_cons_self
              rw [counted] at below
              exact BitVec.eq_of_toNat_eq (Nat.le_zero.mp below)
            have again : call.again = base.time :=
              (zero call List.mem_cons_self counted).trans
                (atStart isZero).symm
            rw [counted, performance_zero, again] at called
            cases called
            exact ⟨rfl, rfl⟩
          · rw [performance_early counted positive due] at called
            cases called
            exact ⟨rfl, rfl⟩
        rcases kept with ⟨rfl, rfl⟩
        refine ⟨fun impossible => absurd rfl impossible, ?_⟩
        rw [if_pos rfl]
        exact ih base positive atStart zero_rest above_rest rises_rest fits
          continued

/-- A test of five seconds measures nothing and leaves the statics. -/
theorem silent_of_short {calls : List Call} {start : Time} {count : ULong}
    {results : List (Call × Int)} {after : Statics} (positive : 0 < start)
    (zero : ∀ call ∈ calls, call.counter = 0 → call.again = start)
    (short : ∀ call ∈ calls, ¬ (Baseline.mk 0 start).Due call)
    (ran : runTest calls ⟨start, count⟩ = some (results, after)) :
    Measured ⟨0, start⟩ results ∧ after = ⟨start, count⟩ := by
  induction calls generalizing results with
  | nil =>
      cases ran
      exact ⟨trivial, rfl⟩
  | cons call rest ih =>
      rcases runTest_cons ran with
        ⟨result, middle, later, called, continued, rfl⟩
      have kept : result = -1 ∧ middle = ⟨start, count⟩ := by
        by_cases counted : call.counter = 0
        · rw [counted, performance_zero,
            zero call List.mem_cons_self counted] at called
          cases called
          exact ⟨rfl, rfl⟩
        · have early := performance_early counted positive
            (short call List.mem_cons_self) count
          rw [early] at called
          cases called
          exact ⟨rfl, rfl⟩
      rcases kept with ⟨rfl, rfl⟩
      rcases ih
        (fun other member => zero other (List.mem_cons_of_mem call member))
        (fun other member => short other (List.mem_cons_of_mem call member))
        continued with ⟨measured, isAfter⟩
      refine ⟨⟨fun impossible => absurd rfl impossible, ?_⟩, isAfter⟩
      rw [if_pos rfl]
      exact measured

/-- The first call of a test remembers its time, whatever was remembered. -/
theorem runTest_start {first : Call} (starts : first.counter = 0)
    (rest : List Call) (statics : Statics) :
    runTest (first :: rest) statics =
      runTest (first :: rest) ⟨first.again, statics.counter_last⟩ := by
  unfold runTest
  rw [starts, performance_zero, performance_zero]

/-- One test: the count that an earlier test has left must be zero, or never
used. -/
theorem test_measured {test : List Call} {statics after : Statics}
    {results : List (Call × Int)} (counting : Counting test)
    (steady : Steady test)
    (fresh : statics.counter_last = 0 ∨ ¬ Long test)
    (ran : runTest test statics = some (results, after)) :
    Measured (baselineOf test) results ∧
      (¬ Long test → after.counter_last = statics.counter_last) := by
  cases test with
  | nil =>
      cases ran
      exact ⟨trivial, fun _ => rfl⟩
  | cons first rest =>
      have positive := steady.positive first rfl
      rw [runTest_start (counting.starts first rfl)] at ran
      by_cases long : Long (first :: rest)
      · refine ⟨?_, fun short => absurd long short⟩
        have zero_count : statics.counter_last = 0 :=
          fresh.resolve_right fun short => short long
        rw [zero_count] at ran
        exact measured_of_agreeing ⟨0, first.again⟩ positive
          (fun _ => rfl) steady.zero (fun _ _ => Nat.zero_le _)
          counting.rises steady.fits ran
      · have short : ∀ call ∈ first :: rest,
            ¬ (Baseline.mk 0 first.again).Due call :=
          fun call member due => long ⟨call, member, due⟩
        rcases silent_of_short positive steady.zero short ran with
          ⟨measured, rfl⟩
        exact ⟨measured, fun _ => rfl⟩

/-! ## All tests -/

theorem runTests_cons {test : List Call} {rest : List (List Call)}
    {statics after : Statics} {outcomes : List (List (Call × Int))}
    (ran : runTests (test :: rest) statics = some (outcomes, after)) :
    ∃ results middle later,
      runTest test statics = some (results, middle) ∧
      runTests rest middle = some (later, after) ∧
      outcomes = results :: later := by
  unfold runTests at ran
  rcases Option.bind_eq_some_iff.mp ran with ⟨⟨results, middle⟩, first, ran⟩
  rcases Option.bind_eq_some_iff.mp ran with ⟨⟨later, last⟩, continued, ran⟩
  cases ran
  exact ⟨results, middle, later, first, continued, rfl⟩

theorem tests_measured {tests : List (List Call)} {statics after : Statics}
    {outcomes : List (List (Call × Int))}
    (counting : ∀ test ∈ tests, Counting test)
    (steady : ∀ test ∈ tests, Steady test)
    (once : tests.Pairwise fun earlier later => ¬ (Long earlier ∧ Long later))
    (fresh : statics.counter_last = 0 ∨ ∀ test ∈ tests, ¬ Long test)
    (ran : runTests tests statics = some (outcomes, after)) :
    List.Forall₂ (fun test results => Measured (baselineOf test) results)
      tests outcomes := by
  induction tests generalizing statics outcomes with
  | nil =>
      cases ran
      exact List.Forall₂.nil
  | cons test rest ih =>
      rcases runTests_cons ran with
        ⟨results, middle, later, first, continued, rfl⟩
      rcases List.pairwise_cons.mp once with ⟨apart, once_rest⟩
      have fresh_test : statics.counter_last = 0 ∨ ¬ Long test :=
        fresh.imp_right fun short => short test List.mem_cons_self
      rcases test_measured (counting test List.mem_cons_self)
        (steady test List.mem_cons_self) fresh_test first with
        ⟨measured, kept⟩
      refine List.Forall₂.cons measured (ih
        (fun other member => counting other (List.mem_cons_of_mem _ member))
        (fun other member => steady other (List.mem_cons_of_mem _ member))
        once_rest ?_ continued)
      by_cases long : Long test
      · exact Or.inr fun other member both =>
          apart other member ⟨long, both⟩
      · rw [kept long]
        exact fresh.imp_right fun short other member =>
          short other (List.mem_cons_of_mem _ member)

/-- **Throughput.**  In every sequence of tests of which at most one goes on
for more than five seconds, every result but -1 is the rate since the
measurement before in the same test. -/
theorem throughput_measured {tests : List (List Call)} {after : Statics}
    {outcomes : List (List (Call × Int))}
    (counting : ∀ test ∈ tests, Counting test)
    (steady : ∀ test ∈ tests, Steady test)
    (once : tests.Pairwise fun earlier later => ¬ (Long earlier ∧ Long later))
    (ran : runTests tests ⟨0, 0⟩ = some (outcomes, after)) :
    List.Forall₂ (fun test results => Measured (baselineOf test) results)
      tests outcomes :=
  tests_measured counting steady once (Or.inl rfl) ran

/-- 600 counts in six seconds. -/
theorem throughput_measured_alone :
    List.Forall₂ (fun test results => Measured (baselineOf test) results)
      [[⟨0, 1, 100, 100⟩, ⟨600, 1, 106, 106⟩]]
      [[(⟨0, 1, 100, 100⟩, -1), (⟨600, 1, 106, 106⟩, 100)]] := by
  refine @throughput_measured [[⟨0, 1, 100, 100⟩, ⟨600, 1, 106, 106⟩]]
    ⟨106, 600⟩ [[(⟨0, 1, 100, 100⟩, -1), (⟨600, 1, 106, 106⟩, 100)]]
    ?_ ?_ (List.pairwise_singleton _ _) (by decide)
  · intro test member
    rw [List.mem_singleton.mp member]
    exact ⟨by decide, by decide⟩
  · intro test member
    rw [List.mem_singleton.mp member]
    exact ⟨by decide, by decide, by simp only [Fits]; decide⟩

/-- A test of 660 counts in six seconds after one that ended at 600: the
result is 10 in place of 110. -/
theorem throughput_stale :
    Counting [⟨0, 1, 110, 110⟩, ⟨660, 1, 116, 116⟩] ∧
      runTests
          [[⟨0, 1, 100, 100⟩, ⟨600, 1, 106, 106⟩],
            [⟨0, 1, 110, 110⟩, ⟨660, 1, 116, 116⟩]] ⟨0, 0⟩ =
        some
          ([[(⟨0, 1, 100, 100⟩, -1), (⟨600, 1, 106, 106⟩, 100)],
            [(⟨0, 1, 110, 110⟩, -1), (⟨660, 1, 116, 116⟩, 10)]],
            ⟨116, 660⟩) ∧
      ¬ Measured ⟨0, 110⟩
        [(⟨0, 1, 110, 110⟩, -1), (⟨660, 1, 116, 116⟩, 10)] := by
  refine ⟨⟨by decide, by decide⟩, by decide, ?_⟩
  intro measured
  have rate := measured.2.1 (by decide)
  revert rate
  decide

end Atomicles.Syschk
