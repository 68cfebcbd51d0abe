import Atomicles.Source.Report

/-!
# What the report shows

Every probe that was run has its line in the report, in the order in which
they were run, and the list they are kept in is gone when it has been
printed.
-/

namespace Atomicles.Syschk

open Heap

/-! ## The list -/

/-- The line for a result: fifteen characters of the name, and the start to
the second. -/
def Result.line (result : Result) : ReportLine where
  name := result.name.take 15
  reach := result.reach
  limit := result.limit
  stime := ⟨result.stime.time, 0⟩
  etime := result.etime
  reason := some result.reason

/-- The list shows some results and lies in some blocks, and the other blocks
are as they were. -/
structure Lists (base : MsgHeap) (messages : Messages)
    (results : List Result) (locs : List Loc) (cells : List (Loc × Msg)) :
    Prop where
  chain : Chain Msg.next messages.1 messages.2 cells
  lines : cells.map (fun cell => cell.2.line) = results.map Result.line
  places : Heap.places cells = locs
  apart : locs.Nodup
  outside : ∀ loc, loc ∉ locs → messages.1 loc = base loc
  fresh : ∀ loc ∈ locs, base loc = none

section Lists

variable {base : MsgHeap} {messages : Messages} {results : List Result}
variable {locs : List Loc} {cells : List (Loc × Msg)} {rounds : Nat}

theorem Lists.length (lists : Lists base messages results locs cells) :
    cells.length = locs.length := by
  rw [← lists.places, List.length_map]

/-- `Msg$addMessage` puts a result behind the others. -/
theorem Lists.add (lists : Lists base messages results locs cells)
    (enough : locs.length < rounds) (result : Result) {loc : Loc}
    (unused : base loc = none) (isFresh : loc ∉ locs) :
    ∃ after cells, addMessage rounds result (some loc) messages.1 messages.2 =
        some after ∧
      Lists base after (results ++ [result]) (locs ++ [loc]) cells := by
  have apart : (locs ++ [loc]).Nodup := by
    rw [List.nodup_append]
    refine ⟨lists.apart, List.nodup_singleton loc, ?_⟩
    rintro other member _ single rfl
    rw [List.mem_singleton.mp single] at member
    exact isFresh member
  have fresh : ∀ other ∈ locs ++ [loc], base other = none := by
    intro other member
    rcases List.mem_append.mp member with old | new
    · exact lists.fresh other old
    · rw [List.mem_singleton.mp new]
      exact unused
  rcases messages with ⟨heap, this⟩
  rcases List.eq_nil_or_concat cells with rfl | ⟨front, back, rfl⟩
  · have none : this = none := lists.chain
    subst none
    have isEmpty : locs = [] := lists.places.symm
    have noResults : results = [] := by
      simpa using lists.lines.symm
    subst isEmpty noResults
    refine ⟨_, [(loc, result.fill Msg.zero)], rfl, ⟨?_, rfl, rfl, apart, ?_,
      fresh⟩⟩
    · exact ⟨rfl, Function.update_self .., rfl⟩
    · intro other different
      have other_ne : other ≠ loc := by simpa using different
      dsimp only
      rw [Function.update_of_ne other_ne]
      exact lists.outside other (by simp)
  · rw [List.concat_eq_append] at lists
    rcases back with ⟨last, cell⟩
    have chain := lists.chain
    rcases chain.starts with ⟨first, isFirst⟩
    cases isFirst
    have short : front.length < rounds := by
      have length := lists.length
      rw [List.length_append, List.length_singleton] at length
      omega
    have member : last ∈ locs := by
      rw [← lists.places]
      simp
    have different : last ≠ loc := by
      rintro rfl
      exact isFresh member
    let linked : Msg := { cell with next := some loc }
    let added := result.fill Msg.zero
    refine ⟨(Function.update (Function.update heap last (some linked)) loc
      (some added), some first), front ++ [(last, linked), (loc, added)],
      ?_, ?_, ?_, ?_, apart, ?_, fresh⟩
    · have isLast : Heap.last Msg.next heap rounds first = some last :=
        chain.lasts short
      have found : heap last = some cell := chain.found_last
      simp [addMessage, isLast, found, linked, added]
    · apply chain.append
      · rw [lists.places]
        exact lists.apart
      · rw [lists.places]
        exact isFresh
      · rfl
      · rfl
    · have lines := lists.lines
      rw [List.map_append, List.map_singleton] at lines
      rw [List.map_append, List.map_append, ← lines, List.append_assoc]
      rfl
    · have isPlaces := lists.places
      rw [Heap.places, List.map_append, List.map_singleton] at isPlaces
      rw [Heap.places, List.map_append, ← isPlaces, List.append_assoc]
      rfl
    · intro other outside
      rw [List.mem_append, not_or, List.mem_singleton] at outside
      have notLast : other ≠ last := by
        rintro rfl
        exact outside.1 member
      dsimp only
      rw [Function.update_of_ne outside.2, Function.update_of_ne notLast]
      exact lists.outside other outside.1

/-- `Msg$dump` prints the results and frees their blocks. -/
theorem Lists.dumps (lists : Lists base messages results locs cells)
    (enough : locs.length ≤ rounds) :
    dump rounds messages.1 messages.2 =
      some (results.map Result.line, locs, base) := by
  have bound : cells.length ≤ rounds := by
    rw [lists.length]
    exact enough
  have apart : (Heap.places cells).Nodup := by
    rw [lists.places]
    exact lists.apart
  have visited := lists.chain.visits bound
  have released := lists.chain.releases apart bound
  have restored : (fun loc =>
      if loc ∈ Heap.places cells then none else messages.1 loc) = base := by
    funext loc
    rw [lists.places]
    by_cases member : loc ∈ locs
    · rw [if_pos member, lists.fresh loc member]
    · rw [if_neg member, lists.outside loc member]
  rw [restored] at released
  simp only [dump, visited, released, Option.bind_eq_bind, Option.bind_some,
    List.map_map, lists.places]
  rw [← lists.lines]
  rfl

end Lists

/-! ## Any number of results -/

/-- `Msg$addMessage` for one result after the other, with the answers of
`calloc`. -/
def record (rounds : Nat) :
    List (Result × Option Loc) → Messages → Option Messages
  | [], messages => some messages
  | (result, answer) :: rest, messages => do
      let messages ←
        addMessage rounds result answer messages.1 messages.2
      record rounds rest messages

/-- A null pointer that `calloc` gives is written to. -/
theorem addMessage_null (rounds : Nat) (result : Result) (heap : MsgHeap)
    (this : Option Loc) : addMessage rounds result none heap this = none := by
  cases this with
  | none => rfl
  | some first => simp [addMessage]

/-- The blocks that `calloc` gives, if it gives no null pointer. -/
def blocks : List (Result × Option Loc) → Option (List Loc)
  | [] => some []
  | (_, answer) :: rest => do
      let loc ← answer
      let locs ← blocks rest
      return loc :: locs

/-- Blocks that `calloc` may give: free ones, each once. -/
structure Fresh (base : MsgHeap) (locs : List Loc) : Prop where
  apart : locs.Nodup
  unused : ∀ loc ∈ locs, base loc = none

theorem record_lists {base : MsgHeap} {rounds : Nat}
    {entries : List (Result × Option Loc)} {messages : Messages}
    {results : List Result} {locs more : List Loc}
    {cells : List (Loc × Msg)}
    (lists : Lists base messages results locs cells)
    (given : blocks entries = some more) (fresh : Fresh base (locs ++ more))
    (enough : (locs ++ more).length ≤ rounds) :
    ∃ after cells, record rounds entries messages = some after ∧
      Lists base after (results ++ entries.map Prod.fst) (locs ++ more)
        cells := by
  induction entries generalizing messages results locs more cells with
  | nil =>
      have isEmpty : more = [] := (Option.some.inj given).symm
      subst isEmpty
      refine ⟨messages, cells, rfl, ?_⟩
      simpa using lists
  | cons entry entries ih =>
      rcases entry with ⟨result, answer⟩
      rcases Option.bind_eq_some_iff.mp given with ⟨loc, isLoc, given⟩
      rcases Option.bind_eq_some_iff.mp given with ⟨later, isLater, same⟩
      cases isLoc
      cases same
      have isFresh : loc ∉ locs := by
        intro member
        have apart := List.disjoint_of_nodup_append fresh.apart
        exact apart member (List.mem_cons_self ..)
      have room : locs.length < rounds := by
        rw [List.length_append, List.length_cons] at enough
        omega
      rcases lists.add room result (fresh.unused loc (by simp)) isFresh with
        ⟨middle, grown, added, lists⟩
      have regrouped : locs ++ loc :: later = (locs ++ [loc]) ++ later := by
        simp
      rw [regrouped] at fresh enough
      rcases ih lists isLater fresh enough with
        ⟨after, all, recorded, lists⟩
      refine ⟨after, all, ?_, ?_⟩
      · simp only [record, added, Option.bind_eq_bind, Option.bind_some,
          recorded]
      · simpa using lists

/-- Without blocks for all results the program faults. -/
theorem record_null {rounds : Nat} {entries : List (Result × Option Loc)}
    {messages : Messages} (refused : blocks entries = none) :
    record rounds entries messages = none := by
  induction entries generalizing messages with
  | nil => cases refused
  | cons entry entries ih =>
      rcases entry with ⟨result, answer⟩
      cases answer with
      | none => simp [record, addMessage_null]
      | some loc =>
          cases rest : blocks entries with
          | none => simp [record, ih rest]
          | some locs => simp [blocks, rest] at refused

theorem blocks_length {entries : List (Result × Option Loc)}
    {locs : List Loc} (given : blocks entries = some locs) :
    locs.length = entries.length := by
  induction entries generalizing locs with
  | nil =>
      cases given
      rfl
  | cons entry entries ih =>
      rcases Option.bind_eq_some_iff.mp given with ⟨loc, _, given⟩
      rcases Option.bind_eq_some_iff.mp given with ⟨later, isLater, same⟩
      cases same
      rw [List.length_cons, List.length_cons, ih isLater]

/-- The list from its first result to its report. -/
theorem record_dumps {base : MsgHeap} {rounds : Nat}
    {entries : List (Result × Option Loc)}
    (fresh : ∀ locs, blocks entries = some locs → Fresh base locs)
    (enough : entries.length ≤ rounds) :
    ((record rounds entries (base, none)).bind fun messages =>
      dump rounds messages.1 messages.2) =
      (blocks entries).map fun locs =>
        (entries.map fun entry => entry.1.line, locs, base) := by
  cases given : blocks entries with
  | none => simp [record_null given]
  | some locs =>
      have nothing : Lists base (base, none) [] [] [] :=
        ⟨rfl, rfl, rfl, List.nodup_nil, fun _ _ => rfl, by simp⟩
      have room : ([] ++ locs).length ≤ rounds := by
        rw [List.nil_append, blocks_length given]
        exact enough
      rcases record_lists nothing given (fresh locs given) room with
        ⟨after, cells, recorded, lists⟩
      simp [recorded, lists.dumps room]

/-! ## The whole program -/

/-- The result of `chk_open`, and the block for it. -/
def openEntries (environment : Environment) :
    Option (List (Result × Option Loc)) :=
  (openResult environment).map fun result =>
    [(result, environment.opening.answer)]

/-- The result of `chk_fork`, if it is run. -/
def forkEntries (environment : Environment) :
    Option (List (Result × Option Loc)) :=
  if environment.sigaction then
    if environment.children then
      (forkResult environment).map fun result =>
        [(result, environment.forking.answer)]
    else none
  else some []

/-- The result of `chk_calloc`, if it is run. -/
def callocEntries (environment : Environment) :
    Option (List (Result × Option Loc)) :=
  if environment.overcommit_memory = 2 then
    (callocResult environment).map fun result =>
      [(result, environment.callocing.answer)]
  else some []

/-- The results of the probes that are run, in their order; `none` if one of
them does not come to its end. -/
def entries (environment : Environment) :
    Option (List (Result × Option Loc)) := do
  let opened ← openEntries environment
  let forked ← forkEntries environment
  let calloced ← callocEntries environment
  return opened ++ (forked ++ calloced)

/-- The exit status, which comes from the last probe alone. -/
def status (environment : Environment) : Int :=
  if environment.overcommit_memory = 2 then EXIT_SUCCESS else EXIT_FAILURE

theorem record_append (rounds : Nat) (front back : List (Result × Option Loc))
    (messages : Messages) :
    record rounds (front ++ back) messages =
      (record rounds front messages).bind (record rounds back) := by
  induction front generalizing messages with
  | nil => rfl
  | cons entry front ih =>
      rcases entry with ⟨result, answer⟩
      simp only [List.cons_append, record, Option.bind_eq_bind, ih,
        Option.bind_assoc]

section Main

variable (rounds : Nat) (environment : Environment)

theorem record_single (result : Result) (answer : Option Loc)
    (messages : Messages) :
    record rounds [(result, answer)] messages =
      addMessage rounds result answer messages.1 messages.2 := by
  rw [record]
  cases addMessage rounds result answer messages.1 messages.2 <;> rfl

theorem chkOpenMain_eq (messages : Messages) :
    chkOpenMain rounds environment messages =
      (openEntries environment).bind fun found =>
        (record rounds found messages).map fun after =>
          (EXIT_FAILURE, after) := by
  cases result : openResult environment with
  | none => simp [chkOpenMain, openEntries, result]
  | some found =>
      simp [chkOpenMain, openEntries, result, record_single,
        Option.map_eq_bind, Function.comp_def]

theorem chkForkMain_eq (messages : Messages) :
    chkForkMain rounds environment messages =
      (forkEntries environment).bind fun found =>
        (record rounds found messages).map fun after =>
          (if environment.sigaction then EXIT_SUCCESS else EXIT_FAILURE,
            after) := by
  cases installed : environment.sigaction with
  | false => simp [chkForkMain, forkEntries, installed, record]
  | true =>
      cases segment : environment.children with
      | false => simp [chkForkMain, forkEntries, installed, segment]
      | true =>
          cases result : forkResult environment with
          | none => simp [chkForkMain, forkEntries, installed, segment, result]
          | some found =>
              simp [chkForkMain, forkEntries, installed, segment, result,
                record_single, Option.map_eq_bind, Function.comp_def]

theorem chkCallocMain_eq (messages : Messages) :
    chkCallocMain rounds environment messages =
      (callocEntries environment).bind fun found =>
        (record rounds found messages).map fun after =>
          (status environment, after) := by
  by_cases protected' : environment.overcommit_memory = 2
  · cases result : callocResult environment with
    | none => simp [chkCallocMain, callocEntries, protected', result]
    | some found =>
        simp [chkCallocMain, callocEntries, protected', result, status,
          record_single, Option.map_eq_bind, Function.comp_def]
  · simp [chkCallocMain, callocEntries, protected', status, record]

/-- `main` runs the probes, records their results and prints them. -/
theorem main_eq (base : MsgHeap) :
    main rounds environment base =
      if environment.setpriority then
        (entries environment).bind fun all =>
          ((record rounds all (base, none)).bind fun messages =>
            dump rounds messages.1 messages.2).map fun printed =>
              (status environment, printed)
      else none := by
  unfold main entries
  cases environment.setpriority with
  | false => rfl
  | true =>
      simp only [if_true, chkOpenMain_eq, chkForkMain_eq, chkCallocMain_eq]
      cases opened : openEntries environment with
      | none => rfl
      | some first =>
          cases forked : forkEntries environment with
          | none => simp
          | some second =>
              cases calloced : callocEntries environment with
              | none => simp
              | some third =>
                  simp [record_append, Option.map_eq_bind, Option.bind_assoc,
                    Function.comp_def]

/-- At most three probes are run. -/
theorem entries_length {all : List (Result × Option Loc)}
    (found : entries environment = some all) : all.length ≤ 3 := by
  have short : ∀ {only : Option Result} {answer : Option Loc}
      {part : List (Result × Option Loc)},
      (only.map fun result => [(result, answer)]) = some part →
        part.length ≤ 1 := by
    intro only answer part isPart
    rcases Option.map_eq_some_iff.mp isPart with ⟨result, _, rfl⟩
    exact Nat.le_refl 1
  rcases Option.bind_eq_some_iff.mp found with ⟨first, isFirst, found⟩
  rcases Option.bind_eq_some_iff.mp found with ⟨second, isSecond, found⟩
  rcases Option.bind_eq_some_iff.mp found with ⟨third, isThird, same⟩
  cases same
  have one : first.length ≤ 1 := short isFirst
  have two : second.length ≤ 1 := by
    unfold forkEntries at isSecond
    split at isSecond
    · split at isSecond
      · exact short isSecond
      · cases isSecond
    · cases isSecond
      exact Nat.zero_le 1
  have three : third.length ≤ 1 := by
    unfold callocEntries at isThird
    split at isThird
    · exact short isThird
    · cases isThird
      exact Nat.zero_le 1
  simp only [List.length_append]
  omega

/--
For every run of the probes: `main` comes to its end exactly if no assertion
fails, every probe that is run ends, and there is a block for every result.
It has then printed one line for each of them, in their order, has freed each
block once, and has left no other trace on the heap.
-/
theorem main_reports (base : MsgHeap) (enough : 3 ≤ rounds)
    (fresh : ∀ all locs, entries environment = some all →
      blocks all = some locs → Fresh base locs) :
    main rounds environment base =
      if environment.setpriority then do
        let all ← entries environment
        let locs ← blocks all
        return (status environment, all.map fun entry => entry.1.line, locs,
          base)
      else none := by
  rw [main_eq]
  cases environment.setpriority with
  | false => rfl
  | true =>
      simp only [if_true]
      cases found : entries environment with
      | none => rfl
      | some all =>
          have short : all.length ≤ rounds :=
            Nat.le_trans (entries_length environment found) enough
          have printed := record_dumps (fun locs => fresh all locs found) short
          simp only [Option.bind_some, Option.bind_eq_bind, printed]
          cases blocks all <;> rfl

/-- Everything succeeds, and each probe fails at its first try. -/
def atLimits : Environment where
  setpriority := true
  opening := ⟨⟨7, 250⟩, ⟨8, 0⟩, 1024, some 1⟩
  opens := [.error EMFILE]
  sigaction := true
  children := true
  forking := ⟨⟨8, 500⟩, ⟨9, 0⟩, 512, some 2⟩
  forks := [.error EAGAIN]
  overcommit_memory := 0
  callocing := ⟨⟨9, 750⟩, ⟨9, 900⟩, 0x100000, none⟩
  allocs := []

/-- Two probes fail at their first tries, and the third one is not run. -/
theorem main_reports_at_limits :
    ∃ lines, main 3 atLimits (fun _ => none) =
        some (EXIT_FAILURE, lines, [1, 2], fun _ => none) ∧
      lines.map ReportLine.name = ["OPEN".toList, "PROC".toList] := by
  have fresh : ∀ all locs, entries atLimits = some all →
      blocks all = some locs → Fresh (fun _ => none) locs := by
    intro all locs found given
    cases found
    cases given
    exact ⟨by decide, by simp⟩
  exact ⟨_, main_reports 3 atLimits (fun _ => none) (Nat.le_refl 3) fresh,
    rfl⟩

end Main

end Atomicles.Syschk
