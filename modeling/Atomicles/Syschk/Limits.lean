import Atomicles.Source.Limits
import Atomicles.Syschk.FileLines
import Atomicles.Syschk.Report

/-!
# The limits that the probes meet

The numbers are read as the kernel writes them, the limit on memory is made of
the totals of memory and swap, and every probe works against the smaller one
of its own limit and that of the system.
-/

namespace Atomicles.Syschk

open CommandLine

/-! ## Lowering a limit -/

/-- A soft limit under a ceiling, where there is one. -/
def lowered (ceiling soft : Nat) : Nat :=
  if ceiling = 0 then soft else min soft ceiling

section Setrlim

variable {resource : Resource} {syslim : ULong} {limits : Limits}

/-- Where `setrlim` changes a limit, `setrlimit` allows it. -/
theorem setrlim_change (positive : 0 < syslim)
    (exceeds : syslim < (limits resource).rlim_cur) :
    setrlim resource syslim limits =
      Function.update limits resource ⟨syslim, syslim, BitVec.le_refl _⟩ := by
  have below : syslim < (limits resource).rlim_max :=
    Nat.lt_of_lt_of_le exceeds (limits resource).ordered
  have allowed : syslim ≤ syslim ∧ syslim ≤ (limits resource).rlim_max :=
    ⟨BitVec.le_refl _, BitVec.le_of_lt below⟩
  simp only [setrlim, setrlimit, if_pos (And.intro positive exceeds),
    if_pos exceeds, if_pos below, dif_pos allowed]

theorem setrlim_same
    (within : ¬ (0 < syslim ∧ syslim < (limits resource).rlim_cur)) :
    setrlim resource syslim limits = limits := by
  simp only [setrlim, if_neg within]

theorem setrlim_other {other : Resource} (different : other ≠ resource) :
    setrlim resource syslim limits other = limits other := by
  by_cases change : 0 < syslim ∧ syslim < (limits resource).rlim_cur
  · rw [setrlim_change change.1 change.2]
    exact Function.update_of_ne different ..
  · rw [setrlim_same change]

/-- The soft limit is lowered to that of the system, and the hard one is not
raised. -/
theorem setrlim_self :
    (setrlim resource syslim limits resource).rlim_cur.toNat =
        lowered syslim.toNat (limits resource).rlim_cur.toNat ∧
      (setrlim resource syslim limits resource).rlim_max ≤
        (limits resource).rlim_max := by
  unfold lowered
  have ordered := BitVec.le_def.mp (limits resource).ordered
  by_cases change : 0 < syslim ∧ syslim < (limits resource).rlim_cur
  · rw [setrlim_change change.1 change.2, Function.update_self]
    have positive := BitVec.lt_def.mp change.1
    have exceeds := BitVec.lt_def.mp change.2
    have above : syslim.toNat ≠ 0 := Nat.ne_of_gt positive
    rw [if_neg above, Nat.min_eq_right (Nat.le_of_lt exceeds)]
    exact ⟨rfl, BitVec.le_def.mpr
      (Nat.le_trans (Nat.le_of_lt exceeds) ordered)⟩
  · rw [setrlim_same change]
    refine ⟨?_, BitVec.le_refl _⟩
    split_ifs with zero
    · rfl
    · have positive : 0 < syslim := BitVec.lt_def.mpr (Nat.pos_of_ne_zero zero)
      have within : ¬ syslim < (limits resource).rlim_cur :=
        fun exceeds => change ⟨positive, exceeds⟩
      exact (Nat.min_eq_left (Nat.not_lt.mp within)).symm

end Setrlim

/-! ## What the files say -/

/-- A file that holds a number, as the kernel writes it. -/
structure Reading.Shows (reading : Reading) (value : Int) : Prop where
  line : text reading.content = decimal value ++ ['\n']
  fits : reading.content.length ≤ 32

theorem text_append (front back : List Byte) :
    text (front ++ back) = text front ++ text back :=
  List.map_append

theorem Reading.Shows.get {reading : Reading} {value : Int}
    (shows' : reading.Shows value) (l : Int) :
    reading.get l = kept value := by
  have whole : text (read 32 reading.content reading.buf) =
      List.replicate 0 ' ' ++ (decimal value ++
        '\n' :: text (reading.buf.drop reading.content.length)) := by
    rw [read_all shows'.fits, text_append, shows'.line, List.append_assoc]
    rfl
  rw [Reading.get, whole, scanInt_decimal rfl]
  rfl

/-! ## `/proc/meminfo` -/

/-- The loop takes the lines that the buffer holds. -/
theorem readMeminfo_holds {file : File} {heap : List Byte}
    {found : List (List Byte)} {saved : List Byte} (holds : Holds saved found)
    {rounds : Nat} (enough : found.length < rounds) (totals : Totals) :
    readMeminfo file heap rounds (some saved) totals =
      some (found.foldl Totals.line totals) := by
  induction rounds generalizing found saved totals with
  | zero => exact absurd enough (Nat.not_lt_zero _)
  | succ rounds ih =>
      rw [readMeminfo, readFileLines_text]
      rcases strtok_cases saved with
        ⟨fault, clean⟩ | ⟨rest, ended, isEmpty⟩ | ⟨token, rest, next, first⟩
      · exact absurd holds.1 clean
      · have none : found = [] := holds.2.symm.trans isEmpty.2
        rw [ended, none]
        rfl
      · rcases (first found).mp holds with ⟨later, rfl, held⟩
        rw [next]
        exact ih held (Nat.lt_of_succ_lt_succ enough) (totals.line token)

/-- Among some lines, one and no other has a label, and states an amount. -/
def Amount (label : Text) (found : List (List Byte)) (value : Nat) : Prop :=
  ∃ line blanks unit, found.filter (names label) = [line] ∧
    text line = label ++
      (List.replicate blanks ' ' ++ (decimal value ++ ' ' :: unit))

theorem names_front {label rest : Text} {line : List Byte}
    (begins : text line = label ++ rest) : names label line = true :=
  decide_eq_true (begins ▸ (List.prefix_append label rest).isInfix)

/-- The number behind a label is read. -/
theorem scan_amount {label unit : Text} {line : List Byte}
    {blanks value : Nat} (fits : value < 2 ^ 64)
    (shape : text line = label ++
      (List.replicate blanks ' ' ++ (decimal value ++ ' ' :: unit))) :
    scanULong (text (line.drop label.length)) =
      some (BitVec.ofNat 64 value) := by
  have behind : text (line.drop label.length) =
      List.replicate blanks ' ' ++ (decimal value ++ ' ' :: unit) := by
    rw [text, List.map_drop]
    exact (congrArg (List.drop label.length) shape).trans List.drop_left
  rw [behind]
  exact scanULong_decimal rfl unit blanks fits

/-- A total that the only line with a label sets, and no other line. -/
theorem foldl_only {field : Totals → ULong} {label : Text} {value : ULong}
    {found : List (List Byte)} {line : List Byte}
    (only : found.filter (names label) = [line])
    (untouched : ∀ totals other, names label other = false →
      field (Totals.line totals other) = field totals)
    (sets : ∀ totals, field (Totals.line totals line) = value)
    (totals : Totals) : field (found.foldl Totals.line totals) = value := by
  have silent {part : List (List Byte)} (without : ∀ other ∈ part,
      ¬ names label other = true) (totals : Totals) :
      field (part.foldl Totals.line totals) = field totals := by
    induction part generalizing totals with
    | nil => rfl
    | cons other part ih =>
        rw [List.foldl_cons, ih fun later member =>
          without later (List.mem_cons_of_mem _ member)]
        exact untouched totals other
          (Bool.eq_false_iff.mpr (without other List.mem_cons_self))
  rcases List.filter_eq_cons_iff.mp only with
    ⟨front, back, rfl, before, _, after⟩
  rw [List.foldl_append, List.foldl_cons,
    silent (List.filter_eq_nil_iff.mp after)]
  exact sets _

theorem foldl_mem_total {found : List (List Byte)} {value : Nat}
    (fits : value < 2 ^ 64)
    (amount : Amount "MemTotal:".toList found value) (totals : Totals) :
    (found.foldl Totals.line totals).mem_total =
      BitVec.ofNat 64 value * KILO := by
  rcases amount with ⟨line, blanks, unit, only, shape⟩
  refine foldl_only only ?_ ?_ totals
  · intro totals other without
    simp only [Totals.line, without, Bool.false_eq_true, if_false]
    split_ifs <;> rfl
  · intro totals
    have read : scanULong (text (line.drop 9)) = some (BitVec.ofNat 64 value) :=
      scan_amount fits shape
    simp only [Totals.line, names_front shape, if_pos, read, Option.getD_some]

theorem foldl_swap_total {found : List (List Byte)} {value other : Nat}
    (fits : value < 2 ^ 64)
    (amount : Amount "SwapTotal:".toList found value)
    (memory : Amount "MemTotal:".toList found other) (totals : Totals) :
    (found.foldl Totals.line totals).swap_total =
      BitVec.ofNat 64 value * KILO := by
  rcases amount with ⟨line, blanks, unit, only, shape⟩
  refine foldl_only only ?_ ?_ totals
  · intro totals other without
    simp only [Totals.line, without, Bool.false_eq_true, if_false]
    split_ifs <;> rfl
  · intro totals
    have read : scanULong (text (line.drop 10)) =
        some (BitVec.ofNat 64 value) :=
      scan_amount fits shape
    -- The only line with the other label begins with another letter.
    have apart : names "MemTotal:".toList line = false := by
      rw [Bool.eq_false_iff]
      intro named
      rcases memory with ⟨first, _, _, onlyFirst, firstShape⟩
      have member : line ∈ found.filter (names "MemTotal:".toList) :=
        List.mem_filter.mpr ⟨List.mem_of_mem_filter
          (only ▸ List.mem_singleton_self line), named⟩
      rw [onlyFirst, List.mem_singleton] at member
      rw [member, firstShape] at shape
      exact absurd (List.cons.inj shape).1 (by decide)
    simp only [Totals.line, apart, names_front shape, if_pos, read,
      Option.getD_some]
    rfl

/-! ## The main result -/

/-- What the files of `/proc` say. -/
structure Written where
  file_max : Int
  pid_max : Int
  overcommit_memory : Int
  overcommit_ratio : Int
  memory : Nat
  swap : Nat

/-- How much memory may be committed, in bytes. -/
def Written.commit (written : Written) : Nat :=
  written.swap * 1024 +
    written.memory * 1024 * written.overcommit_ratio.toNat / 100

/-- What the limits of a resource are lowered to; zero is no ceiling. -/
def Written.ceiling (written : Written) : Resource → ULong
  | .NOFILE => BitVec.ofInt 64 (kept written.file_max)
  | .NPROC | .SIGPENDING => BitVec.ofInt 64 (kept written.pid_max)
  | .AS =>
      if kept written.overcommit_memory = 2 then
        BitVec.ofNat 64 written.commit
      else 0

/-- The files that hold a number. -/
structure Proc.Shows (proc : Proc) (written : Written) : Prop where
  file_max : proc.file_max.Shows written.file_max
  pid_max : proc.pid_max.Shows written.pid_max
  overcommit_memory : proc.overcommit_memory.Shows written.overcommit_memory
  overcommit_ratio : proc.overcommit_ratio.Shows written.overcommit_ratio

/-- `/proc/meminfo` comes into its buffer as it is, and states amounts that
can be multiplied. -/
structure Proc.Memory (proc : Proc) (written : Written) : Prop where
  clean : 0 ∉ proc.meminfo.content
  sized : proc.meminfo.st_size = 0 ∨
    proc.meminfo.st_size = proc.meminfo.content.length
  intact : Intact proc.meminfo proc.heap
  memory : Amount "MemTotal:".toList (lines proc.meminfo.content)
    written.memory
  swap : Amount "SwapTotal:".toList (lines proc.meminfo.content) written.swap
  ratio : 0 ≤ written.overcommit_ratio ∧ written.overcommit_ratio < 2 ^ 31
  fits : written.memory < 2 ^ 64
  product : written.memory * 1024 * written.overcommit_ratio.toNat < 2 ^ 64
  sum : written.commit < 2 ^ 64

section Prepared

variable {proc : Proc} {written : Written} {rounds : Nat} {limits : Limits}

theorem readMeminfo_start (file : File) (heap : List Byte) (rounds : Nat)
    (totals : Totals) :
    readMeminfo file heap rounds none totals =
      readMeminfo file heap rounds (some (load file heap)) totals := by
  cases rounds <;> rfl

/-- The totals of memory and swap. -/
theorem readMeminfo_memory (memory : proc.Memory written)
    (enough : (lines proc.meminfo.content).length < rounds) :
    readMeminfo proc.meminfo proc.heap rounds none {} =
      some ⟨BitVec.ofNat 64 written.memory * KILO,
        BitVec.ofNat 64 written.swap * KILO⟩ := by
  have holds := (holds_iff_intact memory.clean memory.sized proc.heap).mpr
    memory.intact
  have small : written.swap < 2 ^ 64 := by
    have sum := memory.sum
    unfold Written.commit at sum
    omega
  rw [readMeminfo_start, readMeminfo_holds holds enough]
  congr 1
  exact Totals.ext (foldl_mem_total memory.fits memory.memory _)
    (foldl_swap_total small memory.swap memory.memory _)

/-- The limit on memory is computed without overflow. -/
theorem memsyslim_eq (memory : proc.Memory written) :
    BitVec.ofNat 64 written.swap * KILO +
        BitVec.ofNat 64 written.memory * KILO *
          BitVec.ofInt 64 (kept written.overcommit_ratio) / 100 =
      BitVec.ofNat 64 written.commit := by
  have ratio : BitVec.ofInt 64 (kept written.overcommit_ratio) =
      BitVec.ofNat 64 written.overcommit_ratio.toNat := by
    rw [kept_int (by have := memory.ratio.1; omega) memory.ratio.2,
      ← BitVec.ofInt_natCast, Int.toNat_of_nonneg memory.ratio.1]
  have kilo : KILO = BitVec.ofNat 64 1024 := rfl
  have hundred : (100 : ULong) = BitVec.ofNat 64 100 := rfl
  have product : BitVec.ofNat 64 written.memory * KILO *
      BitVec.ofNat 64 written.overcommit_ratio.toNat / 100 =
        BitVec.ofNat 64
          (written.memory * 1024 * written.overcommit_ratio.toNat / 100) := by
    have small := memory.product
    have divided : written.memory * 1024 * written.overcommit_ratio.toNat /
        100 < 2 ^ 64 := Nat.lt_of_le_of_lt (Nat.div_le_self _ _) small
    apply BitVec.eq_of_toNat_eq
    rw [kilo, hundred, ← BitVec.ofNat_mul, ← BitVec.ofNat_mul,
      BitVec.toNat_udiv, BitVec.toNat_ofNat, BitVec.toNat_ofNat,
      BitVec.toNat_ofNat, Nat.mod_eq_of_lt small, Nat.mod_eq_of_lt divided]
  rw [ratio, product, kilo, ← BitVec.ofNat_mul, ← BitVec.ofNat_add]
  rfl

/-- `chk_calloc_prepare` lowers the limit on memory to what may be
committed. -/
theorem chkCallocPrepare_eq (shows' : proc.Shows written)
    (memory : kept written.overcommit_memory = 2 → proc.Memory written)
    (enough : (lines proc.meminfo.content).length < rounds) :
    chkCallocPrepare rounds proc limits =
      some (if kept written.overcommit_memory = 2 then EXIT_SUCCESS
        else EXIT_FAILURE, setrlim .AS (written.ceiling .AS) limits) := by
  unfold chkCallocPrepare Written.ceiling
  rw [shows'.overcommit_memory.get]
  by_cases protected' : kept written.overcommit_memory = 2
  · simp only [if_pos protected']
    rw [readMeminfo_memory (memory protected') enough,
      shows'.overcommit_ratio.get]
    simp only [Option.bind_eq_bind, Option.bind_some,
      memsyslim_eq (memory protected')]
    rfl
  · have same : setrlim .AS 0 limits = limits :=
      setrlim_same fun change => absurd change.1 (BitVec.lt_irrefl _)
    simp only [if_neg protected', same]
    rfl

/-- `setrlim` looks at no other limit. -/
theorem setrlim_congr {resource : Resource} {syslim : ULong}
    {other : Limits} (same : other resource = limits resource) :
    setrlim resource syslim other resource =
      setrlim resource syslim limits resource := by
  simp only [setrlim, same]
  by_cases change : 0 < syslim ∧ syslim < (limits resource).rlim_cur
  · rw [if_pos change, if_pos change, Function.update_self,
      Function.update_self]
  · rw [if_neg change, if_neg change, same]

/-- Every limit is lowered once, to its own ceiling. -/
theorem prepare_eq (shows' : proc.Shows written)
    (memory : kept written.overcommit_memory = 2 → proc.Memory written)
    (enough : (lines proc.meminfo.content).length < rounds)
    (limits : Limits) (environment : Environment) :
    ∃ after : Limits,
      (∀ resource, after resource =
        setrlim resource (written.ceiling resource) limits resource) ∧
      prepare rounds proc limits environment =
        some ({ environment with
          opening := { environment.opening with
            rlim_cur := (after .NOFILE).rlim_cur }
          forking := { environment.forking with
            rlim_cur := (after .NPROC).rlim_cur }
          callocing := { environment.callocing with
            rlim_cur := (after .AS).rlim_cur }
          overcommit_memory := kept written.overcommit_memory }, after) := by
  let opened := setrlim .NOFILE (written.ceiling .NOFILE) limits
  let spawned := setrlim .NPROC (written.ceiling .NPROC) opened
  let signalled := setrlim .SIGPENDING (written.ceiling .SIGPENDING) spawned
  let after := setrlim .AS (written.ceiling .AS) signalled
  have first : chkOpenPrepare proc limits = opened := by
    rw [chkOpenPrepare, shows'.file_max.get]
    rfl
  have second : chkForkPrepare proc opened = signalled := by
    rw [chkForkPrepare, shows'.pid_max.get]
    rfl
  have third : chkCallocPrepare rounds proc signalled = some (_, after) :=
    chkCallocPrepare_eq shows' memory enough
  have openedOther {resource : Resource} (different : resource ≠ .NOFILE) :
      opened resource = limits resource := setrlim_other different
  have spawnedOther {resource : Resource} (different : resource ≠ .NPROC) :
      spawned resource = opened resource := setrlim_other different
  have signalledOther {resource : Resource}
      (different : resource ≠ .SIGPENDING) :
      signalled resource = spawned resource := setrlim_other different
  have afterOther {resource : Resource} (different : resource ≠ .AS) :
      after resource = signalled resource := setrlim_other different
  have files : after .NOFILE = opened .NOFILE := by
    rw [afterOther (by decide), signalledOther (by decide),
      spawnedOther (by decide)]
  have processes : after .NPROC = spawned .NPROC := by
    rw [afterOther (by decide), signalledOther (by decide)]
  refine ⟨after, ?_, ?_⟩
  · intro resource
    cases resource with
    | NOFILE => exact files
    | NPROC =>
        rw [processes]
        exact setrlim_congr (openedOther (by decide))
    | SIGPENDING =>
        rw [afterOther (by decide)]
        apply setrlim_congr
        rw [spawnedOther (by decide), openedOther (by decide)]
    | AS =>
        apply setrlim_congr
        rw [signalledOther (by decide), spawnedOther (by decide),
          openedOther (by decide)]
  · have forked : (signalled .NPROC).rlim_cur = (after .NPROC).rlim_cur := by
      rw [processes, signalledOther (by decide)]
    rw [prepare]
    simp only [first, second, third, Option.bind_eq_bind, Option.bind_some,
      forked, ← files, shows'.overcommit_memory.get]
    rfl

/-- The limits that the report can show. -/
def shown (files processes memory : ULong) : List (List Char × ULong) :=
  [("OPEN".toList, files), ("PROC".toList, processes),
    ("CALLOC".toList, memory / MEGA)]

/-- Each probe puts its own limit into its result. -/
theorem entries_shown {environment : Environment}
    {all : List (Result × Option Loc)}
    (found : entries environment = some all) :
    ∀ entry ∈ all, (entry.1.line.name, entry.1.line.limit) ∈
      shown environment.opening.rlim_cur environment.forking.rlim_cur
        environment.callocing.rlim_cur := by
  rcases Option.bind_eq_some_iff.mp found with ⟨first, isFirst, found⟩
  rcases Option.bind_eq_some_iff.mp found with ⟨second, isSecond, found⟩
  rcases Option.bind_eq_some_iff.mp found with ⟨third, isThird, same⟩
  cases same
  intro entry member
  rcases List.mem_append.mp member with opened | member
  · rcases Option.map_eq_some_iff.mp isFirst with ⟨result, isResult, rfl⟩
    rcases Option.bind_eq_some_iff.mp isResult with ⟨_, _, same⟩
    cases same
    rw [List.mem_singleton.mp opened]
    exact List.mem_cons_self
  rcases List.mem_append.mp member with forked | calloced
  · unfold forkEntries at isSecond
    split at isSecond
    · split at isSecond
      · rcases Option.map_eq_some_iff.mp isSecond with ⟨result, isResult, rfl⟩
        rcases Option.bind_eq_some_iff.mp isResult with ⟨_, _, same⟩
        cases same
        rw [List.mem_singleton.mp forked]
        exact List.mem_cons_of_mem _ List.mem_cons_self
      · cases isSecond
    · cases isSecond
      cases forked
  · unfold callocEntries at isThird
    split at isThird
    · rcases Option.map_eq_some_iff.mp isThird with ⟨result, isResult, rfl⟩
      rcases Option.bind_eq_some_iff.mp isResult with ⟨_, _, same⟩
      cases same
      rw [List.mem_singleton.mp calloced]
      exact List.mem_cons_of_mem _ (List.mem_cons_of_mem _
        List.mem_cons_self)
    · cases isThird
      cases calloced

/-- The lines of a report are those of the results. -/
theorem main_lines {environment : Environment} {base heap : MsgHeap}
    (enough : 3 ≤ rounds)
    (fresh : ∀ all locs, entries environment = some all →
      blocks all = some locs → Fresh base locs)
    {e : Int} {printed : List ReportLine} {freed : List Loc}
    (ran : main rounds environment base = some (e, printed, freed, heap)) :
    ∃ all, entries environment = some all ∧
      printed = all.map fun entry => entry.1.line := by
  rw [main_eq] at ran
  split at ran
  · rcases Option.bind_eq_some_iff.mp ran with ⟨all, found, dumped⟩
    have short := Nat.le_trans (entries_length environment found) enough
    rw [record_dumps (fun locs => fresh all locs found) short,
      Option.map_map] at dumped
    rcases Option.map_eq_some_iff.mp dumped with ⟨locs, _, same⟩
    cases same
    exact ⟨all, found, rfl⟩
  · cases ran

/-- **No probe goes beyond the limits of the system.**  For every process and
everything the kernel writes into the files: before the probes each soft limit
of the process is lowered to the ceiling that the files set for it, and no
hard limit is raised; and each line of the report shows the limit that its
probe met, the lowered one. -/
theorem main_within (shows' : proc.Shows written)
    (memory : kept written.overcommit_memory = 2 → proc.Memory written)
    (enough : (lines proc.meminfo.content).length < rounds)
    (three : 3 ≤ rounds) (limits : Limits) (environment : Environment) :
    ∃ settled : Environment, ∃ after : Limits,
      prepare rounds proc limits environment = some (settled, after) ∧
      (∀ resource,
        (after resource).rlim_cur.toNat =
            lowered (written.ceiling resource).toNat
              (limits resource).rlim_cur.toNat ∧
          (after resource).rlim_max ≤ (limits resource).rlim_max) ∧
      ∀ base e printed freed heap,
        (∀ all locs, entries settled = some all → blocks all = some locs →
          Fresh base locs) →
        main rounds settled base = some (e, printed, freed, heap) →
          ∀ line ∈ printed, (line.name, line.limit) ∈
            shown (after .NOFILE).rlim_cur (after .NPROC).rlim_cur
              (after .AS).rlim_cur := by
  rcases prepare_eq shows' memory enough limits environment with
    ⟨after, isLowered, prepared⟩
  refine ⟨_, after, prepared, ?_, ?_⟩
  · intro resource
    rw [isLowered resource]
    exact setrlim_self
  · intro base e printed freed heap fresh ran line member
    rcases main_lines three fresh ran with ⟨all, found, rfl⟩
    rcases List.mem_map.mp member with ⟨entry, isEntry, rfl⟩
    exact entries_shown found entry isEntry

/-- The bytes of a text. -/
def bytes (content : String) : List Byte :=
  content.toList.map fun character => BitVec.ofNat 8 character.toNat

/-- A host that protects its memory. -/
def host : Proc where
  file_max := ⟨bytes "1000\n", []⟩
  pid_max := ⟨bytes "400\n", bytes "7"⟩
  overcommit_memory := ⟨bytes "2\n", []⟩
  overcommit_ratio := ⟨bytes "50\n", []⟩
  meminfo := ⟨bytes "MemTotal: 16 kB\nSwapTotal: 8 kB\n", 0⟩
  heap := List.replicate 40 0
  unset := 0

/-- The limits of a process on it. -/
def unlimited : Limits :=
  fun _ => ⟨BitVec.allOnes 64, BitVec.allOnes 64, BitVec.le_refl _⟩

theorem main_within_host :
    ∃ settled after, prepare 3 host unlimited atLimits = some (settled, after) ∧
      (after .NOFILE).rlim_cur.toNat = 1000 ∧
      (after .NPROC).rlim_cur.toNat = 400 ∧
      (after .AS).rlim_cur.toNat = 16384 := by
  let written : Written :=
    { file_max := 1000
      pid_max := 400
      overcommit_memory := 2
      overcommit_ratio := 50
      memory := 16
      swap := 8 }
  have shows' : host.Shows written :=
    ⟨⟨by decide, by decide⟩, ⟨by decide, by decide⟩,
      ⟨by decide, by decide⟩, ⟨by decide, by decide⟩⟩
  have memory : host.Memory written :=
    { clean := by decide
      sized := .inl rfl
      intact := by
        unfold Intact
        rw [if_pos (.inr (by decide))]
        exact ⟨by decide, fun byte member => by cases member⟩
      memory := ⟨bytes "MemTotal: 16 kB", 1, "kB".toList,
        by decide, by decide⟩
      swap := ⟨bytes "SwapTotal: 8 kB", 1, "kB".toList,
        by decide, by decide⟩
      ratio := by decide
      fits := by decide
      product := by decide
      sum := by decide }
  rcases main_within shows' (fun _ => memory)
    (by decide : (lines host.meminfo.content).length < 3) (Nat.le_refl 3)
    unlimited atLimits with ⟨settled, after, prepared, isLowered, _⟩
  refine ⟨settled, after, prepared, ?_, ?_, ?_⟩
  · rw [(isLowered .NOFILE).1]
    decide
  · rw [(isLowered .NPROC).1]
    decide
  · rw [(isLowered .AS).1]
    decide

end Prepared

end Atomicles.Syschk
