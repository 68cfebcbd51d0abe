import Atomicles.Lock.Users
import Atomicles.Kernel.Idle

/-!
# Users of a lock come to their ends

Whoever holds the mutex of the segment can give it back, and whoever holds a
unit has an `off` that can give it back.  So as long as nobody is killed there
is always a way on for users that wait, and at its end all units are back.
-/

namespace Atomicles.Users

open Interaction Counting

variable {paths : KeyPaths} {key : Key} {channel : Channel}
variable {semaphores : UInt} {store : Store}
variable {commands : Pid → Option (Action × Lock.Statics)} {taker : Pid → Pid}
variable {pool after : Pool signature Pid Store Int} {process : Pid}

/-- The run condition that nobody is killed, and that an `off` works only once
its `on` has returned 0. -/
def Calm (commands : Pid → Option (Action × Lock.Statics)) (taker : Pid → Pid)
    (paths : KeyPaths) (key : Key) (pool : Pool signature Pid Store Int)
    (label : Label signature Pid) : Prop :=
  Pool.Unkilled pool label ∧ Orderly commands taker paths key pool label

/-- Nobody is left but `off` commands whose `on` has got no unit. -/
def Settled (commands : Pid → Option (Action × Lock.Statics))
    (taker : Pid → Pid) (paths : KeyPaths) (key : Key)
    (pool : Pool signature Pid Store Int) : Prop :=
  ∀ process, pool.procs process ≠ none → Gives commands process ∧
    ∃ code, code ≠ 0 ∧
      Returned commands paths key (taker process) code pool

/-- Every command of a calm run that is gone has returned. -/
theorem returned_of_gone (paired : Paired commands taker)
    (legal : (semaphores.setWidth 16).toNat ≤ SEMVMX)
    (ready : Ready paths key channel semaphores store)
    (reach : Pool.Reach granting (Calm commands taker paths key)
      (opening paths key commands store) pool) :
    ∀ process command, commands process = some command →
      pool.procs process = none →
        ∃ code, Returned commands paths key process code pool := by
  induction reach with
  | start =>
      intro process command started gone
      simp [opening, started] at gone
  | @step pool after label before step fine ih =>
      intro process command started gone
      have orderly := before.mono fun _ _ fine => fine.2
      rcases tally_reach paired legal ready orderly with
        ⟨mutex, value, holders, phases, tally⟩
      cases step with
      | @call actor call next answer state running exec =>
          have alive : pool.procs actor ≠ none := by
            rw [running]
            simp
          have different : process ≠ actor := by
            rintro rfl
            simp at gone
          rw [Pool.record_procs, Function.update_of_ne different] at gone
          rcases ih process command started gone with ⟨code, returned⟩
          exact ⟨code, (returned_call alive).mpr returned⟩
      | @fork parent child call rest here there running fresh forks =>
          rcases tally.live _ _ running with ⟨_, _, follows, _⟩
          cases call with
          | fork => exact follows.1.elim
          | _ => cases forks
      | @leave actor code ended =>
          by_cases same : process = actor
          · subst same
            rcases tally.live _ _ ended with ⟨command', started', _, reaches⟩
            refine ⟨code, by simp, command', started', ?_⟩
            simpa [Pool.eventsOf] using reaches.ends
          · rw [Pool.record_procs, Function.update_of_ne same] at gone
            rcases ih process command started gone with ⟨code, returned⟩
            exact ⟨code, (returned_leave (Or.inl rfl) same).mpr returned⟩
      | kill running => exact fine.1.elim

section Steps

variable {mutex : MutexState} {value : Nat} {holders : Finset Pid}
variable {phases : Pid → Phase}

/-- A process can go on unless it waits for the mutex, for a unit, or for its
`on`. -/
theorem Tally.goes
    (tally : Tally paths key channel semaphores commands taker mutex value
      holders pool phases)
    (paired : Paired commands taker)
    (legal : (semaphores.setWidth 16).toNat ≤ SEMVMX)
    {program : Prog Int} (running : pool.procs process = some program)
    (free : (phases process).inside = false → mutex = .free)
    (left : Takes commands process → (phases process).inside = false →
      (phases process).stage = .idle → 0 < value)
    (granted : Gives commands process →
      Returned commands paths key (taker process) 0 pool) :
    ∃ label after, Pool.Step granting pool label after ∧ ¬ label.Forks ∧
      Calm commands taker paths key pool label := by
  rcases tally.live _ _ running with ⟨command, started, follows, _⟩
  cases program with
  | done code =>
      exact ⟨_, _, .leave running, not_false, trivial, trivial⟩
  | issue call next =>
      have served : (∃ answer state,
          granting.exec process call pool.state answer state) →
          ∃ label after, Pool.Step granting pool label after ∧
            ¬ label.Forks ∧ Calm commands taker paths key pool label := by
        rintro ⟨answer, state, exec⟩
        exact ⟨_, _, .call running exec, not_false, trivial, granted⟩
      have account := tally.account
      cases call with
      | semop id semNum semOp undo nowait =>
          apply served
          cases undo with
          | true =>
              have guards := tally.kept.guards
              have represents : Represents channel.mutex mutex
                  (pool.state.advance 0) :=
                guards.represents.of_same rfl
              rcases follows.1 with
                ⟨rfl, rfl, rfl, ⟨outside, rfl⟩ | ⟨inside, rfl⟩⟩
              · have isFree := free outside
                subst isFree
                rcases represents.takes process false with ⟨state, taken⟩
                exact ⟨_, state,
                  granting_exec_iff.mpr ⟨{}, rfl, rfl, taken⟩⟩
              · have isHeld := (guards.holder process).mp inside
                subst isHeld
                rcases represents.gives false with ⟨state, given⟩
                exact ⟨_, state,
                  granting_exec_iff.mpr ⟨{}, rfl, rfl, given⟩⟩
          | false =>
              rcases tally.kept.stands.value with ⟨ctime, found⟩
              have found : (pool.state.advance 0).sems channel.user =
                some ⟨[value], fun _ _ => 0, ctime⟩ := found
              rcases follows.1 with ⟨rfl, rfl, outside, turn⟩
              have fits : 0 ≤ (value : Int) + semOp ∧
                  (value : Int) + semOp ≤ SEMVMX := by
                rcases turn with
                  ⟨⟨timeout, takes⟩, rfl, idle⟩ | ⟨gives, rfl, _, seen⟩
                · have some := left
                    ⟨timeout, command.2, by rw [started, ← takes]⟩ outside idle
                  omega
                · have gives : Gives commands process :=
                    ⟨command.2, by rw [started, ← gives]⟩
                  have room := tally.short paired gives (granted gives)
                    (by simp [seen])
                  omega
              exact ⟨_, _, granting_exec_iff.mpr ⟨{}, rfl, rfl,
                Store.semop_proceeds value found rfl fits.1 fits.2 (by simp)⟩⟩
      | die cause => exact follows.1.elim
      | interruptible call => exact follows.1.elim
      | _ => exact served (exec_of_not_waits _ _ _ not_false)

end Steps

/-- As long as the users are not settled, one of them can go on. -/
theorem goes (paired : Paired commands taker)
    (fed : ∀ process, Takes commands process →
      ∃ giver, Gives commands giver ∧ taker giver = process)
    (legal : (semaphores.setWidth 16).toNat ≤ SEMVMX)
    (some : 0 < (semaphores.setWidth 16).toNat)
    (ready : Ready paths key channel semaphores store)
    (reach : Pool.Reach granting (Calm commands taker paths key)
      (opening paths key commands store) pool)
    (unsettled : ¬ Settled commands taker paths key pool) :
    ∃ label after, Pool.Step granting pool label after ∧ ¬ label.Forks ∧
      Calm commands taker paths key pool label := by
  have orderly := reach.mono fun _ _ fine => fine.2
  have left := returned_of_gone paired legal ready reach
  rcases tally_reach paired legal ready orderly with
    ⟨mutex, value, holders, phases, tally⟩
  rcases tally.kept.armed with rfl | ⟨holder, rfl⟩
  · have onwards : ∀ process, pool.procs process ≠ none →
        (Takes commands process → (phases process).stage = .idle →
          0 < value) →
        (Gives commands process →
          Returned commands paths key (taker process) 0 pool) →
        ∃ label after, Pool.Step granting pool label after ∧
          ¬ label.Forks ∧ Calm commands taker paths key pool label := by
      intro process alive left granted
      rcases Option.ne_none_iff_exists'.mp alive with ⟨program, running⟩
      exact tally.goes paired legal running (fun _ => rfl)
        (fun takes _ => left takes) granted
    -- Where no unit is left, somebody holds one.
    have taking : ∀ process, Takes commands process →
        pool.procs process ≠ none →
        ∃ label after, Pool.Step granting pool label after ∧
          ¬ label.Forks ∧ Calm commands taker paths key pool label := by
      intro process takes alive
      by_cases empty : value = 0
      · have account := tally.account
        rcases Finset.card_pos.mp (show 0 < holders.card by omega) with
          ⟨holder, member⟩
        rcases (tally.holds holder).mp member with ⟨takes', has, back⟩
        have moved := (tally.moved holder).mpr has
        by_cases gone : pool.procs holder = none
        · rcases takes' with ⟨timeout, statics, started⟩
          rcases left holder _ started gone with ⟨code, returned⟩
          have concludes := tally.ended _ _ _ started returned
          have isZero := concludes.1.mpr moved
          subst isZero
          rcases fed holder ⟨timeout, statics, started⟩ with
            ⟨giver, gives, rfl⟩
          apply onwards giver
          · intro goneToo
            rcases gives with ⟨statics', started'⟩
            rcases left giver _ started' goneToo with ⟨code', returned'⟩
            have concludes' := tally.ended _ _ _ started' returned'
            have given := concludes'.1.mp (concludes'.2 rfl)
            exact back giver ⟨statics', started'⟩ rfl
              ((tally.moved giver).mp given)
          · exact fun takes => absurd gives (takes_not_gives takes)
          · exact fun _ => returned
        · apply onwards holder gone
          · intro _ idle
            rw [idle] at moved
            cases moved
          · exact fun gives => absurd gives (takes_not_gives takes')
      · apply onwards process alive
        · exact fun _ _ => Nat.pos_of_ne_zero empty
        · exact fun gives => absurd gives (takes_not_gives takes)
    simp only [Settled, not_forall] at unsettled
    rcases unsettled with ⟨process, alive, unsettled⟩
    rcases Option.ne_none_iff_exists'.mp alive with ⟨program, running⟩
    rcases tally.live _ _ running with ⟨⟨action, statics⟩, started, _⟩
    rcases paired.moves _ _ started with rfl | ⟨timeout, rfl⟩
    · have gives : Gives commands process := ⟨statics, started⟩
      have takes := paired.takes process gives
      by_cases gone : pool.procs (taker process) = none
      · rcases takes with ⟨timeout, statics', started'⟩
        rcases left _ _ started' gone with ⟨code, returned⟩
        by_cases isZero : code = 0
        · subst isZero
          apply onwards process alive
          · exact fun takes => absurd gives (takes_not_gives takes)
          · exact fun _ => returned
        · exact absurd ⟨gives, code, isZero, returned⟩ unsettled
      · exact taking _ takes gone
    · exact taking process ⟨timeout, statics, started⟩ alive
  · -- Whoever is inside goes on.
    have inside : (phases holder).inside = true :=
      (tally.kept.guards.holder holder).mpr rfl
    cases running : pool.procs holder with
    | none =>
        rw [tally.gone holder running] at inside
        cases inside
    | some program =>
        apply tally.goes paired legal running
        · simp [inside]
        · simp [inside]
        · exact fun gives => tally.granted holder gives (Or.inl inside)

/--
However the commands of the users are interleaved, as long as nobody is killed
and every `off` waits for its `on` to have returned 0: there is always a way on
by which every `on` comes to its end, and every `off` whose `on` has got a
unit, and then the lock has all its units back.
-/
theorem units_return (paths : KeyPaths) (key : Key) (semaphores : UInt)
    (some : 0 < (semaphores.setWidth 16).toNat)
    {store after : Store} {creator : Pid} {events : List (Event signature)}
    (vacant : Vacant paths key store)
    (created : Program.Runs granting creator
      (Lock.create paths key semaphores 0) store events 0 after)
    {commands : Pid → Option (Action × Lock.Statics)} {taker : Pid → Pid}
    (paired : Paired commands taker)
    (fed : ∀ process, Takes commands process →
      ∃ giver, Gives commands giver ∧ taker giver = process)
    {members : Finset Pid}
    (confined : ∀ process, process ∉ members → commands process = none)
    {pool : Pool signature Pid Store Int}
    (reach : Pool.Reach granting (Calm commands taker paths key)
      (opening paths key commands (after.leave creator)) pool) :
    ∃ final, Pool.Reach granting (Calm commands taker paths key) pool final ∧
      Settled commands taker paths key final ∧
      ∃ id, final.state.findSem (paths.semKey key) = .some id ∧
        final.state.semctlGetval id 0 =
          .ok (semaphores.setWidth 16).toNat := by
  rcases ready_of_created vacant created with ⟨channel, legal, ready⟩
  have live : ∀ {pool : Pool signature Pid Store Int},
      Pool.Reach granting (Calm commands taker paths key)
        (opening paths key commands (after.leave creator)) pool →
      ∃ mutex value holders phases, Tally paths key channel semaphores
        commands taker mutex value holders pool phases :=
    fun reach => tally_reach paired legal ready
      (reach.mono fun _ _ fine => fine.2)
  have inside : Pool.Confined members pool := by
    intro process outsider
    rcases live reach with ⟨_, _, _, _, tally⟩
    cases running : pool.procs process with
    | none => rfl
    | some program =>
        rcases tally.live _ _ running with ⟨command, started, _⟩
        rw [confined process outsider] at started
        cases started
  have onwards : ∀ before,
      Pool.Reach granting (Calm commands taker paths key)
        (opening paths key commands (after.leave creator)) before →
      ¬ Settled commands taker paths key before → ∃ label later,
        Pool.Step granting before label later ∧ ¬ label.Forks ∧
          Calm commands taker paths key before label ∧
          Pool.Reach granting (Calm commands taker paths key)
            (opening paths key commands (after.leave creator)) later := by
    intro before reach unsettled
    rcases goes paired fed legal some ready reach unsettled with
      ⟨label, later, step, forkless, calm⟩
    exact ⟨label, later, step, forkless, calm, reach.step step calm⟩
  rcases Pool.comes_to_end onwards reach inside with ⟨final, last, settled⟩
  refine ⟨final, last, settled, channel.user, ?_⟩
  have whole := reach.trans last
  have left := returned_of_gone paired legal ready whole
  rcases live whole with ⟨mutex, value, holders, phases, tally⟩
  have nobody : holders = ∅ := by
    rw [Finset.eq_empty_iff_forall_notMem]
    intro holder member
    rcases (tally.holds holder).mp member with ⟨takes, has, back⟩
    have moved := (tally.moved holder).mpr has
    have gone : final.procs holder = none := by
      by_contra alive
      exact takes_not_gives takes (settled holder alive).1
    rcases takes with ⟨timeout, statics, started⟩
    rcases left holder _ started gone with ⟨code, returned⟩
    have isZero := (tally.ended _ _ _ started returned).1.mpr moved
    subst isZero
    rcases fed holder ⟨timeout, statics, started⟩ with ⟨giver, gives, rfl⟩
    by_cases goneToo : final.procs giver = none
    · rcases gives with ⟨statics', started'⟩
      rcases left giver _ started' goneToo with ⟨code', returned'⟩
      have concludes := tally.ended _ _ _ started' returned'
      exact back giver ⟨statics', started'⟩ rfl
        ((tally.moved giver).mp (concludes.1.mp (concludes.2 rfl)))
    · rcases (settled giver goneToo).2 with ⟨code', failed, returned'⟩
      exact failed ((tally.ended _ _ _ started returned').1.mpr moved)
  have account := tally.account
  rw [nobody, Finset.card_empty] at account
  refine ⟨tally.read.1, ?_⟩
  rw [tally.read.2, ← account]
  rfl

theorem offWaits_calm {members : List Pid}
    (pool : Pool signature Pid Store Int) (label : Label signature Pid)
    (confined : ∀ process, process ∉ members → pool.procs process = none)
    (passed : offWaits pool label = true) :
    Calm oneUser (fun _ => 2) KeyPaths.devtmpfs 5 pool label := by
  refine ⟨?_, offWaits_sound pool label confined passed⟩
  cases label with
  | kill process => cases passed
  | _ => trivial

/-- The `on` has taken the only unit, and neither command has come to its
end. -/
theorem units_return_taken :
    ∃ pool final : Pool signature Pid Store Int,
      pool.state.semctlGetval firstSet 0 = .ok 0 ∧
      Pool.Reach granting (Calm oneUser (fun _ => 2) KeyPaths.devtmpfs 5) pool
        final ∧
      Settled oneUser (fun _ => 2) KeyPaths.devtmpfs 5 final ∧
      ∃ id, final.state.findSem (KeyPaths.devtmpfs.semKey 5) = some id ∧
        final.state.semctlGetval id 0 = .ok 1 := by
  have computed : (alone 1 {} (Lock.create KeyPaths.devtmpfs 5 1 0)
      (.empty 0)).any (fun run => decide (run.2.1 = 0) &&
        (follow offWaits (turns [(2, 19)])
          (opening KeyPaths.devtmpfs 5 oneUser (run.2.2.leave 1))).any
            fun pool => decide
              ((pool.state.semctlGetval firstSet 0).toOption = some 0)) =
        true := by
    decide
  rcases alone_run granted_default computed with
    ⟨events, code, after, created, property⟩
  simp only [Bool.and_eq_true, decide_eq_true_eq] at property
  rcases property with ⟨rfl, property⟩
  rcases follow_reaches offWaits_calm (oneUser_confined _) turns_grants
    property with ⟨pool, reach, found⟩
  have read : pool.state.semctlGetval firstSet 0 = .ok 0 := by
    cases answer : pool.state.semctlGetval firstSet 0 with
    | error errno => simp [answer, Except.toOption] at found
    | ok value => simpa [answer, Except.toOption] using found
  have confined : ∀ process, process ∉ ({2, 3} : Finset Pid) →
      oneUser process = none := by
    intro process outsider
    exact oneUser_outside process (by simpa using outsider)
  have fed : ∀ process, Takes oneUser process →
      ∃ giver, Gives oneUser giver ∧ 2 = process := by
    rintro process ⟨timeout, statics, started⟩
    refine ⟨3, ⟨.initial, rfl⟩, ?_⟩
    unfold oneUser at started
    split at started
    · rfl
    · cases started
    · cases started
  rcases units_return KeyPaths.devtmpfs 5 1 (by decide) (vacant_empty 0)
    created oneUser_paired fed confined reach with
      ⟨final, last, settled, id, named, full⟩
  exact ⟨pool, final, read, last, settled, id, named, full⟩

end Atomicles.Users
