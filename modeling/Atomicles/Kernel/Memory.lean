import Atomicles.Kernel.Frame

/-!
# Words of a segment

What loads and stores see of a segment, and what else changes it.
-/

namespace Atomicles

open Interaction

namespace Segment

/-- Four bytes make up the word they were taken from. -/
theorem bytes_join (value : UInt) :
    value.extractLsb' 24 8 ++ value.extractLsb' 16 8 ++
      value.extractLsb' 8 8 ++ value.extractLsb' 0 8 = value := by
  apply BitVec.eq_of_getLsbD_eq
  intro index small
  have join : (value.extractLsb' 24 8 ++ value.extractLsb' 16 8 ++
      value.extractLsb' 8 8 ++ value.extractLsb' 0 8).getLsbD index =
        if index < 8 then value.getLsbD index
        else if index - 8 < 8 then value.getLsbD (8 + (index - 8))
        else if index - 8 - 8 < 8 then value.getLsbD (16 + (index - 8 - 8))
        else value.getLsbD (24 + (index - 8 - 8 - 8)) := by
    simp only [BitVec.getLsbD_append, BitVec.getLsbD_extractLsb']
    split
    · simp [*]
    · split
      · simp [*]
      · split
        · simp [*]
        · have last : index - 8 - 8 - 8 < 8 := by omega
          simp [*]
  rw [join]
  repeat' split
  all_goals congr 1
  all_goals omega

variable {segment : Segment} {offset other : Nat} {value : UInt}

/-- A word that was written is read back; the other words stay. -/
theorem word_setWord :
    (segment.setWord offset value).word other =
      if other = offset then value else segment.word other := by
  have quotients : 4 * other / 4 = other ∧ (4 * other + 1) / 4 = other ∧
      (4 * other + 2) / 4 = other ∧ (4 * other + 3) / 4 = other := by
    omega
  have remainders : 4 * other % 4 = 0 ∧ (4 * other + 1) % 4 = 1 ∧
      (4 * other + 2) % 4 = 2 ∧ (4 * other + 3) % 4 = 3 := by
    omega
  simp only [Segment.word, Segment.setWord, quotients, remainders]
  split
  · exact bytes_join value
  · rfl

theorem append_eq_zero {m n : Nat} {high : BitVec m} {low : BitVec n}
    (zero : high ++ low = 0) : high = 0 ∧ low = 0 := by
  have left : (high ++ low).extractLsb' n m = high := by
    simp [BitVec.extractLsb'_append_eq_ite]
  have right : (high ++ low).setWidth n = low := by
    simp [BitVec.setWidth_append]
  rw [zero] at left right
  exact ⟨by simpa using left.symm, by simpa using right.symm⟩

/-- A word is zero if its bytes are. -/
theorem word_eq_zero_iff :
    segment.word offset = 0 ↔
      ∀ index, 4 * offset ≤ index → index < 4 * offset + 4 →
        segment.bytes index = 0 := by
  unfold Segment.word
  constructor
  · intro zero index low high
    rcases append_eq_zero zero with ⟨zero, first⟩
    rcases append_eq_zero zero with ⟨zero, second⟩
    rcases append_eq_zero zero with ⟨fourth, third⟩
    have position : index = 4 * offset ∨ index = 4 * offset + 1 ∨
        index = 4 * offset + 2 ∨ index = 4 * offset + 3 := by omega
    rcases position with rfl | rfl | rfl | rfl <;> assumption
  · intro zero
    rw [zero _ (by omega) (by omega), zero _ (by omega) (by omega),
      zero _ (by omega) (by omega), zero _ (by omega) (by omega)]
    rfl

end Segment

/-- The calls that write bytes which are no words. -/
def Call.writesBytes : Call → Bool
  | .vsnprintf .. => true
  | .interruptible _ => true
  | _ => false

/-- The word at an offset behind an address. -/
def wordAt (store : Store) (addr : Addr) (offset : Nat) : Option UInt :=
  match addr with
  | .mapped id => (store.shms id).map (·.word offset)
  | _ => none

namespace Store

variable {store after : Store} {process : Pid} {addr : Addr}
variable {offset other : Nat} {value word : UInt}

theorem wordAt_of_same (same : SameShms store after) :
    wordAt after addr offset = wordAt store addr offset := by
  unfold wordAt
  rw [same.1]

/-- The mappings of a process are those of the segments it is attached to. -/
theorem mapping_eq_some_iff {id : IpcId} {segment : Segment} :
    store.mapping process addr = some (id, segment) ↔
      addr = .mapped id ∧ store.shms id = some segment ∧
        process ∈ segment.attached := by
  unfold mapping
  cases addr with
  | null => simp
  | failed => simp
  | mapped target =>
      dsimp only
      cases found : store.shms target with
      | none =>
          simp only [reduceCtorEq, false_iff]
          rintro ⟨same, present, _⟩
          rw [Addr.mapped.inj same, present] at found
          cases found
      | some behind =>
          dsimp only
          by_cases attached : process ∈ behind.attached
          · rw [if_pos attached]
            constructor
            · intro same
              cases same
              exact ⟨rfl, found, attached⟩
            · rintro ⟨same, present, _⟩
              cases same
              rw [present] at found
              cases found
              rfl
          · rw [if_neg attached]
            simp only [reduceCtorEq, false_iff]
            rintro ⟨same, present, member⟩
            cases same
            rw [present] at found
            cases found
            exact attached member

/-- What can be accessed is a part of a segment the process is attached to. -/
theorem access_eq_some_iff {length : Nat} {id : IpcId} {segment : Segment} :
    store.access process addr offset length = some (id, segment) ↔
      store.mapping process addr = some (id, segment) ∧
        offset + length ≤ segment.mappedSize := by
  unfold access
  cases mapped : store.mapping process addr with
  | none => simp
  | some pair =>
      rcases pair with ⟨target, behind⟩
      dsimp only
      split
      · simp only [Option.some.injEq, Prod.mk.injEq]
        constructor
        · rintro ⟨rfl, rfl⟩
          exact ⟨⟨rfl, rfl⟩, by assumption⟩
        · rintro ⟨same, _⟩
          exact same
      · simp only [reduceCtorEq, Option.some.injEq, Prod.mk.injEq, false_iff]
        rintro ⟨⟨rfl, rfl⟩, fits⟩
        contradiction

/-- An access that goes through is to a segment the process has mapped there. -/
theorem mapped_of_access {length : Nat} {id : IpcId} {segment : Segment}
    (accessed : store.access process addr offset length = some (id, segment)) :
    addr = .mapped id ∧ store.shms id = some segment ∧
      process ∈ segment.attached := by
  rw [access_eq_some_iff, mapping_eq_some_iff] at accessed
  exact accessed.1

/-- A load gives the word behind the address. -/
theorem load_word (loaded : store.load process addr offset = some value) :
    wordAt store addr offset = some value := by
  rcases Option.map_eq_some_iff.mp loaded with ⟨⟨id, segment⟩, accessed, rfl⟩
  rcases mapped_of_access accessed with ⟨rfl, found, _⟩
  simp [wordAt, found]

/-- A store changes the word behind the address, and no other. -/
theorem storeWord_word
    (stored : store.storeWord process addr offset value = (some (), after))
    (found : wordAt after addr other = some word) :
    if other = offset then word = value
    else wordAt store addr other = some word := by
  unfold storeWord at stored
  split at stored
  · rename_i id segment accessed
    cases stored
    rcases mapped_of_access accessed with ⟨rfl, before, _⟩
    have word_eq : (segment.setWord offset value).word other = word := by
      simpa [wordAt] using found
    rw [Segment.word_setWord] at word_eq
    by_cases same : other = offset
    · simpa [same] using word_eq.symm
    · simpa [same, wordAt, before] using word_eq
  · cases stored

/-- A word behind any address comes from before the store or from it. -/
theorem storeWord_words {target : Addr} {index : Nat}
    (stored : store.storeWord process target index value = (some (), after))
    (found : wordAt after addr offset = some word) :
    wordAt store addr offset = some word ∨
      (addr = target ∧ offset = index ∧ word = value) := by
  by_cases here : addr = target
  · subst here
    have written := storeWord_word stored found
    by_cases same : offset = index
    · rw [if_pos same] at written
      exact Or.inr ⟨rfl, same, written⟩
    · rw [if_neg same] at written
      exact Or.inl written
  · left
    unfold storeWord at stored
    split at stored
    · rename_i id segment accessed
      cases stored
      rcases mapped_of_access accessed with ⟨rfl, _, _⟩
      cases addr with
      | mapped other =>
          have elsewhere : other ≠ id := fun same => here (by rw [same])
          simpa [wordAt, Function.update_of_ne elsewhere] using found
      | _ => cases found
    · cases stored

/-- A store goes to a word that exists. -/
theorem storeWord_mapped
    (stored : store.storeWord process addr offset value = (some (), after))
    (other : Nat) : ∃ word, wordAt store addr other = some word := by
  unfold storeWord at stored
  split at stored
  · rename_i id segment accessed
    rcases mapped_of_access accessed with ⟨rfl, before, _⟩
    exact ⟨segment.word other, by simp [wordAt, before]⟩
  · cases stored

/-- A store outside the mappings changes nothing. -/
theorem storeWord_failed
    (stored : store.storeWord process addr offset value = (none, after)) :
    after = store := by
  unfold storeWord at stored
  split at stored
  · cases stored
  · cases stored
    rfl

/-- A segment that is kept keeps its words. -/
theorem keepMapped_word {segment kept : Segment} {attached : List Pid}
    (keeps : keepMapped segment attached = some kept) :
    kept.word offset = segment.word offset := by
  unfold keepMapped at keeps
  split at keeps
  · cases keeps
  · cases keeps
    rfl

/-- A segment that replaces another one with the same words. -/
theorem setShm_word {id : IpcId} {segment : Segment} {changed : Option Segment}
    (before : store.shms id = some segment)
    (sameWord : ∀ kept, changed = some kept →
      kept.word offset = segment.word offset)
    (found : wordAt (store.setShm id changed) addr offset = some word) :
    wordAt store addr offset = some word := by
  cases addr with
  | mapped target =>
      by_cases here : target = id
      · subst here
        simp only [wordAt, setShm_shms, Function.update_self,
          Option.map_eq_some_iff] at found
        rcases found with ⟨kept, isKept, same⟩
        simp [wordAt, before, ← same, sameWord kept isKept]
      · simpa [wordAt, Function.update_of_ne here] using found
  | _ => cases found

/-- `shmat` changes no word. -/
theorem shmat_word {id : IpcId}
    (found : wordAt (store.shmat process id).2 addr offset = some word) :
    wordAt store addr offset = some word := by
  unfold shmat at found
  split at found
  · exact found
  · rename_i segment before
    apply setShm_word before _ found
    rintro kept ⟨⟩
    rfl

/-- `shmdt` changes no word. -/
theorem shmdt_word {target : Addr}
    (found : wordAt (store.shmdt process target).2 addr offset = some word) :
    wordAt store addr offset = some word := by
  unfold shmdt at found
  split at found
  · exact found
  · rename_i id segment mapped
    have before := (mapping_eq_some_iff.mp mapped).2.1
    exact setShm_word before (fun kept keeps => keepMapped_word keeps) found

/-- `IPC_RMID` changes no word. -/
theorem shmctlRmid_word {id : IpcId}
    (found : wordAt (store.shmctlRmid id).2 addr offset = some word) :
    wordAt store addr offset = some word := by
  unfold shmctlRmid at found
  split at found
  · exact found
  · rename_i segment before
    apply setShm_word before _ found
    intro kept keeps
    have sameWord : kept.word offset =
        ({ segment with dest := true } : Segment).word offset :=
      keepMapped_word keeps
    exact sameWord

/-- A new segment is full of zeros. -/
theorem shmget_word {key : Key} {size : Nat} {creat excl : Bool}
    (found : wordAt (store.shmget key size creat excl).2 addr offset =
      some word) :
    wordAt store addr offset = some word ∨ word = 0 := by
  unfold shmget at found
  repeat' split at found
  all_goals try exact Or.inl found
  cases addr with
  | mapped target =>
      by_cases fresh : target = store.nextShm key
      · subst fresh
        simp only [wordAt, Function.update_self, Option.map_some,
          Option.some.injEq] at found
        right
        rw [← found]
        show (0#8 ++ 0#8 ++ 0#8 ++ 0#8 : BitVec 32) = 0
        rfl
      · left
        simpa [wordAt, Function.update_of_ne fresh] using found
  | _ => cases found

/-- `memset` clears the words below its end, and may clear a part of the word
it ends in. -/
theorem memset_word {target : Addr} {n : Nat}
    (found : wordAt (store.memset process target n).2 addr offset =
      some word) :
    wordAt store addr offset = some word ∨
      (addr = target ∧ 4 * offset < n ∧ (4 * offset + 4 ≤ n → word = 0)) := by
  unfold memset at found
  split at found
  · exact Or.inl found
  · split at found
    · rename_i id segment accessed
      rcases mapped_of_access accessed with ⟨rfl, before, _⟩
      cases addr with
      | mapped other =>
          by_cases here : other = id
          · subst here
            simp only [wordAt, setShm_shms, Function.update_self,
              Option.map_some, Option.some.injEq] at found
            by_cases beyond : n ≤ 4 * offset
            · left
              have kept : ∀ index, n ≤ index →
                  (segment.setBytes 0 (List.replicate n 0)).bytes index =
                    segment.bytes index := by
                intro index large
                simp [Segment.setBytes, Nat.not_lt.mpr large]
              have same : (segment.setBytes 0 (List.replicate n 0)).word
                  offset = segment.word offset := by
                unfold Segment.word
                rw [kept _ (by omega), kept _ (by omega), kept _ (by omega),
                  kept _ (by omega)]
              rw [← found, same]
              simp [wordAt, before]
            · right
              refine ⟨rfl, by omega, ?_⟩
              intro within
              have cleared : ∀ index, index < n →
                  (segment.setBytes 0 (List.replicate n 0)).bytes index =
                    0 := by
                intro index small
                simp [Segment.setBytes, small]
              rw [← found]
              unfold Segment.word
              rw [cleared _ (by omega), cleared _ (by omega),
                cleared _ (by omega), cleared _ (by omega)]
              rfl
          · left
            simpa [wordAt, Function.update_of_ne here] using found
      | _ => cases found
    · exact Or.inl found

/-- The end of a process changes no word. -/
theorem leave_word
    (found : wordAt (store.leave process) addr offset = some word) :
    wordAt store addr offset = some word := by
  cases addr with
  | mapped id =>
      simp only [wordAt, leave, Option.map_eq_some_iff,
        Option.bind_eq_some_iff] at found ⊢
      rcases found with ⟨_, ⟨segment, before, kept⟩, same⟩
      refine ⟨segment, before, ?_⟩
      unfold keepMapped at kept
      split at kept
      · cases kept
      · cases kept
        exact same
  | _ => cases found

end Store

/-- Where a word behind an address may come from, after any call but those
that write bytes. -/
theorem exec_word {admits : Choice → Prop} {process : Pid} {call : Call}
    {answer : call.Answer} {store after : Store} {addr : Addr} {offset : Nat}
    {word : UInt} (words : call.writesBytes = false)
    (exec : (kernel admits).exec process call store answer after)
    (found : wordAt after addr offset = some word) :
    wordAt store addr offset = some word ∨
      (∃ key size excl, call = .shmget key size true excl ∧ word = 0) ∨
      call = .store addr offset word ∨
      ∃ n, call = .memset addr n ∧ 4 * offset < n ∧
        (4 * offset + 4 ≤ n → word = 0) := by
  have spared : call.sparesShms = true →
      wordAt store addr offset = some word := fun spares => by
    rw [← Store.wordAt_of_same (exec_sameShms spares exec)]
    exact found
  rcases exec_cases exec with ⟨choice, _, ⟨errno, _, rfl⟩ | granted⟩
  · exact Or.inl found
  · have advanced : wordAt (store.advance choice.tick) addr offset =
        some word → wordAt store addr offset = some word := fun same => same
    cases call with
    | shmget key size creat excl =>
        cases creat with
        | false => exact Or.inl (spared rfl)
        | true =>
            have final : after = _ :=
              (congrArg Prod.snd (Option.some.inj granted)).symm
            rw [final] at found
            rcases Store.shmget_word found with before | zero
            · exact Or.inl before
            · exact Or.inr (Or.inl ⟨key, size, excl, rfl, zero⟩)
    | shmat id =>
        have final : after = _ :=
          (congrArg Prod.snd (Option.some.inj granted)).symm
        rw [final] at found
        exact Or.inl (advanced (Store.shmat_word found))
    | shmdt target =>
        have final : after = _ :=
          (congrArg Prod.snd (Option.some.inj granted)).symm
        rw [final] at found
        exact Or.inl (advanced (Store.shmdt_word found))
    | shmctlRmid id =>
        have final : after = _ :=
          (congrArg Prod.snd (Option.some.inj granted)).symm
        rw [final] at found
        exact Or.inl (advanced (Store.shmctlRmid_word found))
    | store target index value =>
        have stored : (store.advance choice.tick).storeWord process target
            index value = (answer, after) := Option.some.inj granted
        cases answer with
        | none =>
            rw [Store.storeWord_failed stored] at found
            exact Or.inl found
        | some success =>
            rcases Store.storeWord_words stored found with
              before | ⟨rfl, rfl, rfl⟩
            · exact Or.inl before
            · exact Or.inr (Or.inr (Or.inl rfl))
    | memset target n =>
        have final : after = _ :=
          (congrArg Prod.snd (Option.some.inj granted)).symm
        rw [final] at found
        rcases Store.memset_word found with before | ⟨rfl, inside, zero⟩
        · exact Or.inl before
        · exact Or.inr (Or.inr (Or.inr ⟨n, rfl, inside, zero⟩))
    | vsnprintf => cases words
    | interruptible call => cases words
    | _ => exact Or.inl (spared rfl)

/-- A load that is answered gives the word behind the address. -/
theorem exec_load {admits : Choice → Prop} {process : Pid} {addr : Addr}
    {offset : Nat} {word : UInt} {store after : Store}
    (exec : (kernel admits).exec process (.load addr offset) store
      (some word : Option UInt) after) :
    wordAt store addr offset = some word := by
  rcases exec_cases exec with ⟨choice, _, ⟨_, refused, _⟩ | granted⟩
  · cases refused
  · have loaded : (store.advance choice.tick).load process addr offset =
        some word :=
      congrArg Prod.fst (Option.some.inj granted)
    exact Store.load_word loaded

/-- A store that is answered is what is behind the address then. -/
theorem exec_store_word {admits : Choice → Prop} {process : Pid} {addr : Addr}
    {offset : Nat} {word value : UInt} {store after : Store}
    (exec : (kernel admits).exec process (.store addr offset value) store
      (some () : Option Unit) after)
    (found : wordAt after addr offset = some word) : word = value := by
  rcases exec_cases exec with ⟨choice, _, ⟨_, refused, _⟩ | granted⟩
  · cases refused
  · have stored : (store.advance choice.tick).storeWord process addr offset
        value = (some (), after) := Option.some.inj granted
    have written := Store.storeWord_word stored found
    rwa [if_pos rfl] at written

/-- `memset` leaves a word that is zero at zero. -/
theorem exec_memset_zero {admits : Choice → Prop} {process : Pid}
    {target addr : Addr} {n offset : Nat} {done : Option Unit}
    {store after : Store} {word : UInt}
    (exec : (kernel admits).exec process (.memset target n) store done after)
    (zero : ∀ before, wordAt store addr offset = some before → before = 0)
    (found : wordAt after addr offset = some word) : word = 0 := by
  rcases exec_cases exec with ⟨choice, _, ⟨errno, refused, _⟩ | granted⟩
  · cases refused
  have final : after = ((store.advance choice.tick).memset process target n).2 :=
    (congrArg Prod.snd (Option.some.inj granted)).symm
  rw [final] at found
  unfold Store.memset at found
  split at found
  · exact zero word found
  split at found
  · rename_i id segment accessed
    rcases Store.mapped_of_access accessed with ⟨rfl, isSegment, _⟩
    have present : store.shms id = some segment := isSegment
    cases addr with
    | mapped other =>
        by_cases here : other = id
        · subst here
          have before := zero (segment.word offset) (by simp [wordAt, present])
          have isWord : (segment.setBytes 0 (List.replicate n 0)).word offset =
              word := by
            simpa [wordAt] using found
          rw [← isWord, Segment.word_eq_zero_iff]
          intro index low high
          by_cases inside : index < n
          · simp [Segment.setBytes, inside]
          · have kept := Segment.word_eq_zero_iff.mp before index low high
            simpa [Segment.setBytes, inside] using kept
        · apply zero word
          simpa [wordAt, Function.update_of_ne here] using found
    | _ => cases found
  · exact zero word found

/-- A process has a segment mapped at an address. -/
def Maps (store : Store) (process : Pid) (addr : Addr) : Prop :=
  ∃ id segment, addr = .mapped id ∧ store.shms id = some segment ∧
    process ∈ segment.attached

namespace Maps

variable {store after : Store} {process other : Pid} {addr : Addr}

theorem of_same (maps : Maps store process addr)
    (same : after.shms = store.shms) : Maps after process addr := by
  rcases maps with ⟨id, segment, isMapped, found, member⟩
  exact ⟨id, segment, isMapped, by rw [same]; exact found, member⟩

theorem of_access {offset length : Nat} {id : IpcId} {segment : Segment}
    (accessed : store.access process addr offset length =
      some (id, segment)) : Maps store process addr := by
  rcases Store.mapped_of_access accessed with ⟨isMapped, found, member⟩
  exact ⟨id, segment, isMapped, found, member⟩

/-- There is a word behind the address. -/
theorem word (maps : Maps store process addr) (offset : Nat) :
    ∃ word, wordAt store addr offset = some word := by
  rcases maps with ⟨id, segment, rfl, found, _⟩
  exact ⟨segment.word offset, by simp [wordAt, found]⟩

/-- A segment that others still map is kept. -/
theorem keepMapped {segment : Segment} {attached : List Pid}
    (member : process ∈ attached) :
    ∃ kept, Store.keepMapped segment attached = some kept ∧
      process ∈ kept.attached := by
  have nonempty : attached ≠ [] := List.ne_nil_of_mem member
  exact ⟨{ segment with attached }, by simp [Store.keepMapped, nonempty],
    member⟩

/-- A segment is replaced by one that the process still maps. -/
theorem setShm {id : IpcId} {changed : Option Segment}
    (maps : Maps store process addr)
    (still : ∀ segment, store.shms id = some segment →
      process ∈ segment.attached →
        ∃ kept, changed = some kept ∧ process ∈ kept.attached) :
    Maps (store.setShm id changed) process addr := by
  rcases maps with ⟨target, segment, rfl, found, member⟩
  by_cases here : target = id
  · subst here
    rcases still segment found member with ⟨kept, isKept, remains⟩
    exact ⟨target, kept, rfl, by simp [isKept], remains⟩
  · exact ⟨target, segment, rfl, by simp [Function.update_of_ne here, found],
      member⟩

end Maps

/-- A store is made by a process that has the segment mapped. -/
theorem Store.storeWord_maps {store after : Store} {process : Pid}
    {addr : Addr} {offset : Nat} {value : UInt}
    (stored : store.storeWord process addr offset value = (some (), after)) :
    Maps store process addr := by
  unfold Store.storeWord at stored
  split at stored
  · rename_i id segment accessed
    exact Maps.of_access accessed
  · cases stored

/-- What a call of a process does to a segment. -/
inductive Call.Changes (process : Pid) :
    Call → IpcId → Segment → Option Segment → Prop where
  | attach {id : IpcId} {segment : Segment} :
      Changes process (.shmat id) id segment
        (some { segment with attached := process :: segment.attached })
  | detach {id : IpcId} {segment : Segment} :
      Changes process (.shmdt (.mapped id)) id segment
        (Store.keepMapped segment (segment.attached.erase process))
  | mark {id : IpcId} {segment : Segment} :
      Changes process (.shmctlRmid id) id segment
        (Store.keepMapped { segment with dest := true } segment.attached)
  | clear {id : IpcId} {segment : Segment} {n : Nat}
      {bytes : Nat → BitVec 8} :
      Changes process (.memset (.mapped id) n) id segment
        (some { segment with bytes })
  | write {id : IpcId} {segment : Segment} {offset : Nat} {value : UInt}
      {bytes : Nat → BitVec 8} :
      Changes process (.store (.mapped id) offset value) id segment
        (some { segment with bytes })

/-- A call spares the segments, makes one, or changes one. -/
theorem exec_segments {admits : Choice → Prop} {process : Pid} {call : Call}
    {answer : call.Answer} {store after : Store}
    (words : call.writesBytes = false)
    (exec : (kernel admits).exec process call store answer after) :
    SameShms store after ∨
      (∃ key size excl tick, call = .shmget key size true excl ∧
        after = ((store.advance tick).shmget key size true excl).2) ∨
      ∃ id segment changed tick, store.shms id = some segment ∧
        after = (store.advance tick).setShm id changed ∧
        call.Changes process id segment changed := by
  have spared : call.sparesShms = true → SameShms store after :=
    fun spares => exec_sameShms spares exec
  rcases exec_cases exec with ⟨choice, _, ⟨errno, _, rfl⟩ | granted⟩
  · exact Or.inl ⟨rfl, rfl⟩
  · cases call with
    | shmget key size creat excl =>
        cases creat with
        | false => exact Or.inl (spared rfl)
        | true =>
            have final : after = _ :=
              (congrArg Prod.snd (Option.some.inj granted)).symm
            exact Or.inr (Or.inl ⟨key, size, excl, choice.tick, rfl, final⟩)
    | shmat id =>
        have final : after = _ :=
          (congrArg Prod.snd (Option.some.inj granted)).symm
        rw [final]
        unfold Store.shmat
        split
        · exact Or.inl ⟨rfl, rfl⟩
        · rename_i segment found
          exact Or.inr (Or.inr ⟨id, segment, _, _, found, rfl, .attach⟩)
    | shmdt target =>
        have final : after = _ :=
          (congrArg Prod.snd (Option.some.inj granted)).symm
        rw [final]
        unfold Store.shmdt
        split
        · exact Or.inl ⟨rfl, rfl⟩
        · rename_i id segment mapped
          rcases Store.mapping_eq_some_iff.mp mapped with ⟨rfl, found, _⟩
          exact Or.inr (Or.inr ⟨id, segment, _, _, found, rfl, .detach⟩)
    | shmctlRmid id =>
        have final : after = _ :=
          (congrArg Prod.snd (Option.some.inj granted)).symm
        rw [final]
        unfold Store.shmctlRmid
        split
        · exact Or.inl ⟨rfl, rfl⟩
        · rename_i segment found
          exact Or.inr (Or.inr ⟨id, segment, _, _, found, rfl, .mark⟩)
    | memset target n =>
        have final : after = _ :=
          (congrArg Prod.snd (Option.some.inj granted)).symm
        rw [final]
        unfold Store.memset
        split
        · exact Or.inl ⟨rfl, rfl⟩
        · split
          · rename_i id segment accessed
            rcases Store.mapped_of_access accessed with ⟨rfl, found, _⟩
            exact Or.inr (Or.inr ⟨id, segment, _, _, found, rfl, .clear⟩)
          · exact Or.inl ⟨rfl, rfl⟩
    | store target index value =>
        have final : after = _ :=
          (congrArg Prod.snd (Option.some.inj granted)).symm
        rw [final]
        unfold Store.storeWord
        split
        · rename_i id segment accessed
          rcases Store.mapped_of_access accessed with ⟨rfl, found, _⟩
          exact Or.inr (Or.inr ⟨id, segment, _, _, found, rfl, .write⟩)
        · exact Or.inl ⟨rfl, rfl⟩
    | vsnprintf => cases words
    | interruptible call => cases words
    | _ => exact Or.inl (spared rfl)

/-- No call takes a mapping away but the `shmdt` of the process itself, and
the making of segments. -/
theorem exec_maps {admits : Choice → Prop} {process other : Pid} {call : Call}
    {answer : call.Answer} {store after : Store} {addr : Addr}
    (words : call.writesBytes = false)
    (known : ∀ key size excl, call ≠ .shmget key size true excl)
    (keeps : ∀ target, call = .shmdt target → other ≠ process)
    (exec : (kernel admits).exec other call store answer after)
    (maps : Maps store process addr) : Maps after process addr := by
  rcases exec_segments words exec with
    same | ⟨key, size, excl, _, isMaking, _⟩ |
      ⟨id, segment, changed, tick, found, rfl, changes⟩
  · exact maps.of_same same.1
  · exact absurd isMaking (known key size excl)
  · have advanced : Maps (store.advance tick) process addr :=
      maps.of_same rfl
    apply advanced.setShm
    intro before isBefore member
    rw [Store.advance_shms, found] at isBefore
    cases isBefore
    cases changes with
    | attach => exact ⟨_, rfl, List.mem_cons_of_mem _ member⟩
    | detach =>
        have different := keeps _ rfl
        apply Maps.keepMapped
        exact (List.mem_erase_of_ne (Ne.symm different)).mpr member
    | mark => exact Maps.keepMapped member
    | clear => exact ⟨_, rfl, member⟩
    | write => exact ⟨_, rfl, member⟩

/-! ## The segment under a key -/

namespace Store

variable {store after : Store} {name : Key} {id : IpcId}

/-- The segment under a key stays there when some segment is replaced by one
that is not marked either. -/
theorem setShm_findShm {target : IpcId} {changed : Option Segment}
    (found : store.findShm name = some id)
    (still : ∀ segment, store.shms target = some segment →
      segment.dest = false →
        ∃ kept, changed = some kept ∧ kept.dest = false) :
    (store.setShm target changed).findShm name = some id := by
  rcases findShm_eq_some_iff.mp found with
    ⟨isKey, last, segment, isSegment, unmarked⟩
  apply findShm_eq_some_iff.mpr
  refine ⟨isKey, last, ?_⟩
  by_cases here : id = target
  · subst here
    rcases still segment isSegment unmarked with ⟨kept, isKept, unmarked'⟩
    exact ⟨kept, by simp [isKept], unmarked'⟩
  · exact ⟨segment, by simp [Function.update_of_ne here, isSegment], unmarked⟩

theorem keepMapped_unmarked {segment : Segment} {attached : List Pid}
    (unmarked : segment.dest = false) :
    ∃ kept, keepMapped segment attached = some kept ∧ kept.dest = false :=
  ⟨{ segment with attached }, by simp [keepMapped, unmarked], unmarked⟩

/-- A segment is made under a key only while none is found there. -/
theorem shmget_findShm {key : Key} {size : Nat} {creat excl : Bool}
    (found : store.findShm name = some id) :
    (store.shmget key size creat excl).2.findShm name = some id ∧
      (store.shmget key size creat excl).2.shms id = store.shms id := by
  unfold shmget
  split
  · split
    · exact ⟨found, rfl⟩
    · split
      · exact ⟨found, rfl⟩
      · exact ⟨found, rfl⟩
  · rename_i vacant
    split
    · exact ⟨found, rfl⟩
    · split
      · exact ⟨found, rfl⟩
      · have different : name ≠ key := by
          rintro rfl
          rw [found] at vacant
          cases vacant
        rcases findShm_eq_some_iff.mp found with ⟨isKey, last, segment, _, _⟩
        have other : id ≠ store.nextShm key := by
          rintro rfl
          exact different isKey.symm
        refine ⟨findShm_eq_some_iff.mpr ?_, Function.update_of_ne other _ _⟩
        refine ⟨isKey, ?_, segment, ?_, ‹_›⟩
        · dsimp only
          rwa [Function.update_of_ne different]
        · dsimp only
          rwa [Function.update_of_ne other]

end Store

/-- The segment under a key stays there until it is marked. -/
theorem exec_findShm {admits : Choice → Prop} {process : Pid} {call : Call}
    {answer : call.Answer} {store after : Store} {name : Key} {id : IpcId}
    (words : call.writesBytes = false)
    (keeps : ∀ target, call ≠ .shmctlRmid target)
    (exec : (kernel admits).exec process call store answer after)
    (found : store.findShm name = some id) : after.findShm name = some id := by
  rcases exec_segments words exec with
    same | ⟨key, size, excl, tick, _, rfl⟩ |
      ⟨target, segment, changed, tick, isSegment, rfl, changes⟩
  · rw [← found]
    simp only [Store.findShm, same.1, same.2]
  · have advanced : (store.advance tick).findShm name = some id := found
    exact (Store.shmget_findShm advanced).1
  · have advanced : (store.advance tick).findShm name = some id := found
    apply Store.setShm_findShm advanced
    intro before isBefore unmarked
    rw [Store.advance_shms, isSegment] at isBefore
    cases isBefore
    cases changes with
    | attach => exact ⟨_, rfl, unmarked⟩
    | detach => exact Store.keepMapped_unmarked unmarked
    | mark => exact absurd rfl (keeps target)
    | clear => exact ⟨_, rfl, unmarked⟩
    | write => exact ⟨_, rfl, unmarked⟩

/-- A word of that segment stays unless it is stored or the segment is
cleared or marked. -/
theorem exec_found_word {admits : Choice → Prop} {process : Pid} {call : Call}
    {answer : call.Answer} {store after : Store} {name : Key} {id : IpcId}
    {offset : Nat} {word : UInt} (words : call.writesBytes = false)
    (keeps : ∀ target, call ≠ .shmctlRmid target)
    (stores : ∀ value, call ≠ .store (.mapped id) offset value)
    (clears : ∀ n, call ≠ .memset (.mapped id) n)
    (exec : (kernel admits).exec process call store answer after)
    (found : store.findShm name = some id)
    (before : wordAt store (.mapped id) offset = some word) :
    wordAt after (.mapped id) offset = some word := by
  rcases Store.findShm_eq_some_iff.mp (exec_findShm words keeps exec found)
    with ⟨_, _, segment, isSegment, _⟩
  have now : wordAt after (.mapped id) offset = some (segment.word offset) := by
    simp [wordAt, isSegment]
  rcases exec_word words exec now with
    same | ⟨key, size, excl, rfl, _⟩ | rfl | ⟨n, rfl, _⟩
  · rw [now, ← same, before]
  · rcases exec_segments words exec with
      same | ⟨key', size', excl', tick, _, rfl⟩ | ⟨_, _, _, _, _, _, changes⟩
    · rw [← before]
      exact Store.wordAt_of_same same
    · have advanced : (store.advance tick).findShm name = some id := found
      have kept : ((store.advance tick).shmget key' size' true
          excl').2.shms id = (store.advance tick).shms id :=
        (Store.shmget_findShm advanced).2
      rw [← before]
      simp only [wordAt, kept, Store.advance_shms]
    · cases changes
  · exact absurd rfl (stores _)
  · exact absurd rfl (clears n)

/-- What `shmget` gives is found under its key from then on. -/
theorem exec_shmget {admits : Choice → Prop} {process : Pid} {name : Key}
    {size : Nat} {creat excl : Bool} {id : IpcId} {store after : Store}
    (exec : (kernel admits).exec process (.shmget name size creat excl) store
      (.ok id : Except Errno IpcId) after) : after.findShm name = some id := by
  rcases exec_cases exec with ⟨choice, _, ⟨errno, refused, _⟩ | granted⟩
  · cases refused
  · have served : (store.advance choice.tick).shmget name size creat excl =
        (.ok id, after) := Option.some.inj granted
    unfold Store.shmget at served
    split at served
    · rename_i found
      split at served
      · cases served
      · split at served
        · cases served
        · cases served
          exact found
    · split at served
      · cases served
      · split at served
        · cases served
        · cases served
          apply Store.findShm_eq_some_iff.mpr
          exact ⟨rfl, Function.update_self .., _, Function.update_self .., rfl⟩

/-- `shmat` gives the address of the segment. -/
theorem exec_shmat {admits : Choice → Prop} {process : Pid} {id : IpcId}
    {addr : Addr} {store after : Store}
    (exec : (kernel admits).exec process (.shmat id) store
      (.ok addr : Except Errno Addr) after) : addr = .mapped id := by
  rcases exec_cases exec with ⟨choice, _, ⟨errno, refused, _⟩ | granted⟩
  · cases refused
  · have served : (store.advance choice.tick).shmat process id =
        (.ok addr, after) := Option.some.inj granted
    unfold Store.shmat at served
    split at served
    · cases served
    · cases served
      rfl

end Atomicles
