import Mathlib.Data.List.TakeWhile
import Atomicles.Sequence.Pieces
import Atomicles.Source.Syschk

/-!
# The lines that `read_file_lines` returns

The buffer gets no terminator, so the tokens go on into whatever lies behind
it, up to the next zero.  A file that is read in blocks is read into one and
the same block, in which the last two reads are all that is left.
-/

namespace Atomicles.Syschk

open Atomicles.Sequence

/-- The lines of a text that are not empty. -/
def lines (text : List Byte) : List (List Byte) :=
  pieces (fun byte => decide (byte = newline)) text

/-- The bytes in front of the first zero. -/
def terminated (text : List Byte) : List Byte :=
  text.takeWhile fun byte => byte ≠ 0

theorem terminated_append {front : List Byte} (clean : 0 ∉ front)
    (back : List Byte) :
    terminated (front ++ back) = front ++ terminated back := by
  apply List.takeWhile_append_of_pos
  intro byte member
  apply decide_eq_true
  rintro rfl
  exact clean member

/-! ## Tokens -/

/-- Bytes that end no token. -/
def Plain (text : List Byte) : Prop :=
  ∀ byte ∈ text, byte ≠ newline ∧ byte ≠ 0

/-- Newlines only. -/
def Blank (text : List Byte) : Prop :=
  ∀ byte ∈ text, byte = newline

theorem Blank.clean {text : List Byte} (blank : Blank text) : 0 ∉ text := by
  intro member
  exact absurd (blank 0 member) (by decide)

theorem Plain.clean {text : List Byte} (plain : Plain text) : 0 ∉ text :=
  fun member => (plain 0 member).2 rfl

/-- After the newlines in front a text is plain, or it begins with a zero or
with a token that a newline or a zero ends. -/
theorem text_shape (text : List Byte) :
    ∃ blanks rest, text = blanks ++ rest ∧ Blank blanks ∧
      (Plain rest ∨ (∃ later, rest = 0 :: later) ∨
        ∃ token stop later, rest = token ++ stop :: later ∧ token ≠ [] ∧
          Plain token ∧ (stop = newline ∨ stop = 0)) := by
  have none : ∀ {Kept : Byte → Prop}, ∀ byte ∈ ([] : List Byte), Kept byte := by
    intro _ byte member
    cases member
  induction text with
  | nil => exact ⟨[], [], rfl, none, Or.inl none⟩
  | cons byte text ih =>
      rcases ih with ⟨blanks, rest, rfl, blank, shape⟩
      by_cases isBlank : byte = newline
      · refine ⟨byte :: blanks, rest, rfl, ?_, shape⟩
        exact List.forall_mem_cons.mpr ⟨isBlank, blank⟩
      by_cases isZero : byte = 0
      · subst isZero
        exact ⟨[], _, rfl, none, Or.inr (Or.inl ⟨_, rfl⟩)⟩
      have single : Plain [byte] := by
        intro other member
        rw [List.mem_singleton.mp member]
        exact ⟨isBlank, isZero⟩
      refine ⟨[], _, rfl, none, ?_⟩
      cases blanks with
      | cons stop blanks =>
          right
          right
          exact ⟨[byte], stop, blanks ++ rest, rfl, List.cons_ne_nil _ _,
            single, Or.inl (blank stop List.mem_cons_self)⟩
      | nil =>
          rcases shape with plain | ⟨later, rfl⟩ |
            ⟨token, stop, later, rfl, _, plain, stops⟩
          · left
            exact List.forall_mem_cons.mpr ⟨⟨isBlank, isZero⟩, plain⟩
          · right
            right
            exact ⟨[byte], 0, later, rfl, List.cons_ne_nil _ _, single,
              Or.inr rfl⟩
          · right
            right
            refine ⟨byte :: token, stop, later, rfl, List.cons_ne_nil _ _, ?_,
              stops⟩
            exact List.forall_mem_cons.mpr ⟨⟨isBlank, isZero⟩, plain⟩

theorem strtok_blanks {blanks : List Byte} (blank : Blank blanks)
    (rest : List Byte) : strtok (blanks ++ rest) = strtok rest := by
  have dropped : (blanks ++ rest).dropWhile (fun byte => byte = newline) =
      rest.dropWhile fun byte => byte = newline :=
    List.dropWhile_append_of_pos fun byte member =>
      decide_eq_true (blank byte member)
  unfold strtok
  dsimp only
  rw [dropped]

theorem strtok_token {token : List Byte} (inhabited : token ≠ [])
    (plain : Plain token) {stop : Byte} (stops : stop = newline ∨ stop = 0)
    (later : List Byte) :
    strtok (token ++ stop :: later) =
      some (some token, if stop = 0 then stop :: later else later) := by
  have taken : (token ++ stop :: later).takeWhile
      (fun byte => byte ≠ newline ∧ byte ≠ 0) = token := by
    rw [List.takeWhile_append_of_pos fun byte member =>
      decide_eq_true (plain byte member), List.takeWhile_cons_of_neg,
      List.append_nil]
    rcases stops with rfl | rfl <;> decide
  cases token with
  | nil => exact absurd rfl inhabited
  | cons first token =>
      rcases plain first List.mem_cons_self with ⟨notBlank, notZero⟩
      unfold strtok
      dsimp only
      rw [List.cons_append, List.dropWhile_cons_of_neg
        (by simpa using notBlank)]
      rw [List.cons_append] at taken
      dsimp only
      rw [if_neg notZero, taken, ← List.cons_append, List.drop_left]

theorem strtok_plain {text : List Byte} (plain : Plain text) :
    strtok text = none := by
  cases text with
  | nil => rfl
  | cons first text =>
      have taken : (first :: text).takeWhile
          (fun byte => byte ≠ newline ∧ byte ≠ 0) = first :: text :=
        List.takeWhile_eq_self_iff.mpr fun byte member =>
          decide_eq_true (plain byte member)
      rcases plain first List.mem_cons_self with ⟨notBlank, notZero⟩
      unfold strtok
      dsimp only
      rw [List.dropWhile_cons_of_neg (by simpa using notBlank)]
      dsimp only
      rw [if_neg notZero, taken, List.drop_length]

/-- Before the first zero there are these lines. -/
def Holds (text : List Byte) (found : List (List Byte)) : Prop :=
  0 ∈ text ∧ lines (terminated text) = found

theorem lines_blanks {blanks : List Byte} (blank : Blank blanks)
    (rest : List Byte) : lines (blanks ++ rest) = lines rest :=
  pieces_prepend (fun byte member => decide_eq_true (blank byte member)) rest

theorem holds_blanks {blanks : List Byte} (blank : Blank blanks)
    (rest : List Byte) (found : List (List Byte)) :
    Holds (blanks ++ rest) found ↔ Holds rest found := by
  unfold Holds
  rw [terminated_append blank.clean, lines_blanks blank, List.mem_append,
    or_iff_right blank.clean]

/-- What `strtok_r` does: it reads too far, or there is no line, or it gives
the first line and leaves the others. -/
theorem strtok_cases (text : List Byte) :
    (strtok text = none ∧ 0 ∉ text) ∨
    (∃ saved, strtok text = some (none, saved) ∧ Holds text []) ∨
    ∃ token saved, strtok text = some (some token, saved) ∧
      ∀ found, Holds text found ↔
        ∃ later, found = token :: later ∧ Holds saved later := by
  rcases text_shape text with ⟨blanks, rest, rfl, blank, shape⟩
  simp only [strtok_blanks blank, holds_blanks blank]
  rcases shape with plain | ⟨later, rfl⟩ |
    ⟨token, stop, later, rfl, inhabited, plain, stops⟩
  · left
    refine ⟨strtok_plain plain, ?_⟩
    rw [List.mem_append, not_or]
    exact ⟨blank.clean, plain.clean⟩
  · right
    left
    exact ⟨0 :: later, rfl, List.mem_cons_self, rfl⟩
  · right
    right
    refine ⟨token, _, strtok_token inhabited plain stops later, ?_⟩
    intro found
    have inside : ∀ byte ∈ token, decide (byte = newline) = false :=
      fun byte member => decide_eq_false (plain byte member).1
    have first : lines token = [token] := pieces_single inhabited inside
    unfold Holds
    rw [terminated_append plain.clean, List.mem_append]
    rcases stops with rfl | rfl
    · have notZero : ¬ newline = 0 := by decide
      have isBlank : decide (newline = newline) = true := rfl
      have more : lines (token ++ newline :: terminated later) =
          token :: lines (terminated later) :=
        pieces_piece inhabited inside isBlank _
      have passes : terminated (newline :: later) =
          newline :: terminated later := rfl
      rw [if_neg notZero, passes, more]
      simp only [plain.clean, false_or, List.mem_cons]
      constructor
      · rintro ⟨zero, rfl⟩
        exact ⟨_, rfl, zero.resolve_left (by decide), rfl⟩
      · rintro ⟨rest, rfl, zero, rfl⟩
        exact ⟨Or.inr zero, rfl⟩
    · have passes : terminated (0 :: later) = [] := rfl
      rw [if_pos rfl, passes, List.append_nil, first]
      constructor
      · rintro ⟨_, rfl⟩
        exact ⟨[], rfl, List.mem_cons_self, rfl⟩
      · rintro ⟨rest, rfl, _, rfl⟩
        exact ⟨Or.inr List.mem_cons_self, rfl⟩

/-! ## Calls -/

/-- The results of calls, each with what can be read at a new buffer. -/
def readCalls (file : File) :
    List (List Byte) → Option (List Byte) →
      Option (List (Option (List Byte)) × Option (List Byte))
  | [], saved => some ([], saved)
  | heap :: rest, saved => do
      let (line, saved) ← readFileLines file heap saved
      let (later, saved) ← readCalls file rest saved
      return (line :: later, saved)

theorem readCalls_cons {file : File} {heap : List Byte}
    {rest : List (List Byte)} {saved after : Option (List Byte)}
    {results : List (Option (List Byte))} :
    readCalls file (heap :: rest) saved = some (results, after) ↔
      ∃ line middle later,
        readFileLines file heap saved = some (line, middle) ∧
        readCalls file rest middle = some (later, after) ∧
        results = line :: later := by
  constructor
  · intro ran
    rw [readCalls] at ran
    rcases Option.bind_eq_some_iff.mp ran with ⟨⟨line, middle⟩, first, ran⟩
    rcases Option.bind_eq_some_iff.mp ran with ⟨⟨later, last⟩, second, ran⟩
    cases ran
    exact ⟨line, middle, later, first, second, rfl⟩
  · rintro ⟨line, middle, later, first, second, rfl⟩
    rw [readCalls, first]
    simp [second]

theorem readCalls_append {file : File} {front back : List (List Byte)}
    {saved after : Option (List Byte)}
    {results : List (Option (List Byte))} :
    readCalls file (front ++ back) saved = some (results, after) ↔
      ∃ first middle second,
        readCalls file front saved = some (first, middle) ∧
        readCalls file back middle = some (second, after) ∧
        results = first ++ second := by
  induction front generalizing saved results with
  | nil =>
      rw [List.nil_append]
      constructor
      · intro ran
        exact ⟨[], saved, results, rfl, ran, rfl⟩
      · rintro ⟨first, middle, second, none, ran, rfl⟩
        cases none
        exact ran
  | cons heap front ih =>
      rw [List.cons_append, readCalls_cons]
      simp only [ih, readCalls_cons]
      constructor
      · rintro ⟨line, middle, _, called, ⟨first, last, second, ran, rest, rfl⟩,
          rfl⟩
        exact ⟨line :: first, last, second,
          ⟨line, middle, first, called, ran, rfl⟩, rest, rfl⟩
      · rintro ⟨_, last, second, ⟨line, middle, first, called, ran, rfl⟩, rest,
          rfl⟩
        exact ⟨line, middle, first ++ second, called,
          ⟨first, last, second, ran, rest, rfl⟩, rfl⟩

theorem readCalls_length {file : File} {heaps : List (List Byte)}
    {saved after : Option (List Byte)}
    {results : List (Option (List Byte))}
    (ran : readCalls file heaps saved = some (results, after)) :
    results.length = heaps.length := by
  induction heaps generalizing saved results with
  | nil =>
      cases ran
      rfl
  | cons heap rest ih =>
      rcases readCalls_cons.mp ran with ⟨line, middle, later, _, ran', rfl⟩
      exact congrArg Nat.succ (ih ran')

/-- The results of a pass through a file: its lines and a null pointer. -/
def pass (found : List (List Byte)) : List (Option (List Byte)) :=
  found.map some ++ [none]

theorem pass_length (found : List (List Byte)) :
    (pass found).length = found.length + 1 := by
  simp [pass]

/-- What a call does with a text that is left in the buffer. -/
theorem readFileLines_text (file : File) (heap text : List Byte) :
    readFileLines file heap (some text) =
      (strtok text).map fun found =>
        (found.1, found.1.map fun _ => found.2) := by
  unfold readFileLines
  rw [Option.getD_some]
  cases strtok text with
  | none => rfl
  | some found =>
      rcases found with ⟨token, saved⟩
      cases token <;> rfl

/-- As many calls as there are lines, and one more, from a text in the
buffer. -/
theorem readCalls_pass_iff (file : File) (heap : List Byte)
    (found : List (List Byte)) (text : List Byte)
    (after : Option (List Byte)) :
    readCalls file (List.replicate (found.length + 1) heap) (some text) =
        some (pass found, after) ↔
      after = none ∧ Holds text found := by
  induction found generalizing text with
  | nil =>
      rw [List.length_nil, List.replicate_succ, List.replicate_zero,
        readCalls_cons, readFileLines_text]
      rcases strtok_cases text with
        ⟨fault, clean⟩ | ⟨saved, ended, holds⟩ | ⟨token, saved, next, first⟩
      · rw [fault]
        constructor
        · rintro ⟨_, _, _, impossible, _⟩
          cases impossible
        · rintro ⟨_, zero, _⟩
          exact absurd zero clean
      · rw [ended]
        constructor
        · rintro ⟨_, _, _, called, rest, _⟩
          cases called
          cases rest
          exact ⟨rfl, holds⟩
        · rintro ⟨rfl, _⟩
          exact ⟨none, none, [], rfl, rfl, rfl⟩
      · rw [next]
        constructor
        · rintro ⟨_, _, _, called, _, same⟩
          cases called
          cases same
        · rintro ⟨_, holds⟩
          rcases (first []).mp holds with ⟨_, impossible, _⟩
          cases impossible
  | cons line found ih =>
      rw [List.length_cons, List.replicate_succ, readCalls_cons,
        readFileLines_text]
      rcases strtok_cases text with
        ⟨fault, clean⟩ | ⟨saved, ended, holds⟩ | ⟨token, saved, next, first⟩
      · rw [fault]
        constructor
        · rintro ⟨_, _, _, impossible, _⟩
          cases impossible
        · rintro ⟨_, zero, _⟩
          exact absurd zero clean
      · rw [ended]
        constructor
        · rintro ⟨_, _, _, called, _, same⟩
          cases called
          cases same
        · rintro ⟨_, others⟩
          exact absurd (others.2.symm.trans holds.2) (List.cons_ne_nil _ _)
      · rw [next, first (line :: found)]
        constructor
        · rintro ⟨_, _, later, called, rest, same⟩
          cases called
          cases same
          rcases (ih saved).mp rest with ⟨isAfter, holds⟩
          exact ⟨isAfter, found, rfl, holds⟩
        · rintro ⟨isAfter, later, same, holds⟩
          cases same
          exact ⟨some line, some saved, pass found, rfl,
            (ih saved).mpr ⟨isAfter, holds⟩, rfl⟩

/-- The first call fills the buffer. -/
theorem readCalls_start (file : File) (heap : List Byte)
    (rest : List (List Byte)) :
    readCalls file (heap :: rest) none =
      readCalls file (heap :: rest) (some (load file heap)) :=
  rfl

/-- One pass after the other, each with a buffer of its own. -/
def Yields (file : File) (heaps : List (List Byte)) : Prop :=
  readCalls file
      (heaps.flatMap fun heap =>
        List.replicate ((lines file.content).length + 1) heap) none =
    some (heaps.flatMap fun _ => pass (lines file.content), none)

theorem yields_iff_holds (file : File) (heaps : List (List Byte)) :
    Yields file heaps ↔
      ∀ heap ∈ heaps, Holds (load file heap) (lines file.content) := by
  unfold Yields
  induction heaps with
  | nil => simp [readCalls]
  | cons heap heaps ih =>
      rw [List.flatMap_cons, List.flatMap_cons, readCalls_append,
        List.forall_mem_cons, ← ih]
      have begins : ∀ after,
          readCalls file
              (List.replicate ((lines file.content).length + 1) heap) none =
            some (pass (lines file.content), after) ↔
          after = none ∧ Holds (load file heap) (lines file.content) := by
        intro after
        rw [List.replicate_succ, readCalls_start, ← List.replicate_succ]
        exact readCalls_pass_iff file heap _ _ after
      constructor
      · rintro ⟨first, middle, second, ran, rest, same⟩
        have length : (pass (lines file.content)).length = first.length := by
          rw [readCalls_length ran, pass_length, List.length_replicate]
        rcases List.append_inj same length with ⟨rfl, rfl⟩
        rcases (begins middle).mp ran with ⟨rfl, holds⟩
        exact ⟨holds, rest⟩
      · rintro ⟨holds, rest⟩
        exact ⟨_, none, _, (begins none).mpr ⟨rfl, holds⟩, rest, rfl⟩

/-! ## What is in the buffer -/

/-- What is left of a content of at least one block: the last, shorter one
over the one before it. -/
def remains (content : List Byte) : List Byte :=
  let last := content.drop (content.length / BUFSIZ * BUFSIZ)
  let before :=
    (content.drop ((content.length / BUFSIZ - 1) * BUFSIZ)).take BUFSIZ
  last ++ before.drop last.length

/-- One block is left as it is. -/
theorem remains_block {content : List Byte}
    (same : content.length = BUFSIZ) : remains content = content := by
  unfold remains
  rw [same, Nat.div_self (by decide), Nat.one_mul, Nat.sub_self, Nat.zero_mul,
    List.drop_zero, ← same, List.drop_length, List.take_length]
  rfl

theorem read_all {content : List Byte} {count : Nat}
    (all : content.length ≤ count) (memory : List Byte) :
    read count content memory = content ++ memory.drop content.length := by
  unfold read
  rw [List.take_of_length_le all]

theorem readBlocks_short {content : List Byte}
    (short : content.length < BUFSIZ) (memory : List Byte) :
    readBlocks content memory = content ++ memory.drop content.length := by
  have notFull : ¬ (content.take BUFSIZ).length = BUFSIZ := by
    rw [List.length_take]
    omega
  rw [readBlocks, if_neg notFull]
  exact read_all (Nat.le_of_lt short) memory

theorem readBlocks_full {content : List Byte}
    (full : BUFSIZ ≤ content.length) (memory : List Byte) :
    readBlocks content memory =
      readBlocks (content.drop BUFSIZ)
        (content.take BUFSIZ ++ memory.drop BUFSIZ) := by
  have isFull : (content.take BUFSIZ).length = BUFSIZ := by
    rw [List.length_take]
    omega
  rw [readBlocks, if_pos isFull, read, isFull]

/-- Blocks that are read one over the other. -/
theorem readBlocks_long {content : List Byte}
    (full : BUFSIZ ≤ content.length) (memory : List Byte) :
    readBlocks content memory = remains content ++ memory.drop BUFSIZ := by
  have positive : 0 < BUFSIZ := by decide
  induction count : content.length using Nat.strongRecOn
    generalizing content memory with
  | ind length ih =>
      subst count
      have next := Nat.div_eq_sub_div positive full
      have rest : (content.drop BUFSIZ).length = content.length - BUFSIZ :=
        List.length_drop
      have block : (content.take BUFSIZ).length = BUFSIZ := by
        rw [List.length_take]
        omega
      rw [readBlocks_full full]
      by_cases short : (content.drop BUFSIZ).length < BUFSIZ
      · have one : content.length / BUFSIZ = 1 := by
          rw [next, Nat.div_eq_of_lt (by omega)]
        unfold remains
        rw [readBlocks_short short, one]
        simp only [Nat.one_mul, Nat.sub_self, Nat.zero_mul, List.drop_zero]
        rw [List.drop_append_of_le_length (by omega), List.append_assoc]
      · have more := Nat.le_of_not_lt short
        have some_more : 1 ≤ (content.length - BUFSIZ) / BUFSIZ :=
          (Nat.one_le_div_iff positive).mpr (by omega)
        rw [ih _ (by omega) more _ rfl]
        have kept : remains (content.drop BUFSIZ) = remains content := by
          unfold remains
          rw [rest, next, List.drop_drop, List.drop_drop]
          have shift : ∀ n, BUFSIZ + n * BUFSIZ = (n + 1) * BUFSIZ := by
            intro n
            rw [Nat.succ_mul, Nat.add_comm]
          rw [shift, shift, Nat.add_sub_cancel, Nat.sub_add_cancel some_more]
        have behind : (content.take BUFSIZ ++ memory.drop BUFSIZ).drop BUFSIZ =
            memory.drop BUFSIZ :=
          List.drop_left' block
        rw [kept, behind]

/-! ## The result -/

/-- The bytes up to the first zero are newlines. -/
def Trails (rest : List Byte) : Prop :=
  0 ∈ rest ∧ Blank (terminated rest)

/-- When the buffer is as it should be.  A content that fills at most one
block, or whose size is known, must be followed by newlines and a zero.  A
longer one must have all its lines in what is left of it, together with the
bytes that follow the block up to a zero. -/
def Intact (file : File) (heap : List Byte) : Prop :=
  if 0 < file.st_size ∨ file.content.length ≤ BUFSIZ then
    Trails (heap.drop file.content.length)
  else
    0 ∈ heap.drop BUFSIZ ∧
      lines (remains file.content ++ terminated (heap.drop BUFSIZ)) =
        lines file.content

/-- Behind a content without zeros. -/
theorem holds_append_iff {content : List Byte} (clean : 0 ∉ content)
    (rest : List Byte) :
    Holds (content ++ rest) (lines content) ↔ Trails rest := by
  unfold Holds Trails
  rw [terminated_append clean, List.mem_append, or_iff_right clean]
  apply and_congr_right
  intro _
  unfold lines
  rw [pieces_append_iff]
  simp only [decide_eq_true_iff]
  exact Iff.rfl

theorem remains_clean {content : List Byte} (clean : 0 ∉ content) :
    0 ∉ remains content := by
  intro member
  rcases List.mem_append.mp member with last | before
  · exact clean (List.mem_of_mem_drop last)
  · exact clean (List.mem_of_mem_drop (List.mem_of_mem_take
      (List.mem_of_mem_drop before)))

theorem holds_iff_intact {file : File} (clean : 0 ∉ file.content)
    (sized : file.st_size = 0 ∨ file.st_size = file.content.length)
    (heap : List Byte) :
    Holds (load file heap) (lines file.content) ↔ Intact file heap := by
  unfold load Intact
  by_cases known : 0 < file.st_size
  · have size := sized.resolve_left (Nat.ne_of_gt known)
    rw [if_pos known, if_pos (Or.inl known), size, read_all (Nat.le_refl _)]
    exact holds_append_iff clean _
  · rw [if_neg known]
    by_cases full : BUFSIZ ≤ file.content.length
    · rw [readBlocks_long full]
      by_cases exact_size : file.content.length ≤ BUFSIZ
      · have same := Nat.le_antisymm exact_size full
        rw [if_pos (Or.inr exact_size), remains_block same, same]
        exact holds_append_iff clean _
      · rw [if_neg (not_or.mpr ⟨known, exact_size⟩)]
        unfold Holds
        rw [terminated_append (remains_clean clean), List.mem_append,
          or_iff_right (remains_clean clean)]
    · have short := Nat.lt_of_not_le full
      rw [if_pos (Or.inr (Nat.le_of_lt short)), readBlocks_short short]
      exact holds_append_iff clean _

/-- **Lines of a file.**  For every content without zeros, and a size that is
reported or reported as zero: pass after pass gives the lines exactly if the
buffer is intact each time it is filled. -/
theorem yields_iff_intact {file : File} (clean : 0 ∉ file.content)
    (sized : file.st_size = 0 ∨ file.st_size = file.content.length)
    (heaps : List (List Byte)) :
    Yields file heaps ↔ ∀ heap ∈ heaps, Intact file heap := by
  rw [yields_iff_holds]
  simp only [holds_iff_intact clean sized]

/-- "a" and a zero behind it. -/
theorem yields_iff_intact_line :
    Yields ⟨[97], 1⟩ [[0, 0]] ↔
      ∀ heap ∈ [[(0 : Byte), 0]], Intact ⟨[97], 1⟩ heap :=
  @yields_iff_intact ⟨[97], 1⟩ (by decide) (Or.inr rfl) [[0, 0]]

/-- "a" and a "b" behind it: the line is "ab". -/
theorem not_yields :
    readFileLines ⟨[97], 1⟩ [0, 98, 0] none =
        some (some [97, 98], some [0]) ∧
      ¬ Yields ⟨[97], 1⟩ [[0, 98, 0]] := by
  refine ⟨by decide, ?_⟩
  unfold Yields
  decide

end Atomicles.Syschk
