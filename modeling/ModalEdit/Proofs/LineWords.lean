import Mathlib.Data.Nat.Count
import ModalEdit.Proofs.WordSpans
import ModalEdit.TextObject.Word

/-!
The WORDs of a line (`Text.words`), and what the object around WORDs takes of them. WORDs of two parts of
a line are those of the one and those of the other, if a blank is where the parts meet
(`Text.words_append`), and there the skips of the object end: with the blanks before a WORD from a blank
(`TextObject.repeatSkip_words`), and with those behind it from a WORD (`TextObject.skipWords_spec`). So
what is left has the WORDs before the caret's run and those behind the ones counted
(`TextObject.takesWords`). There are as many before that run as end before the caret
(`Text.count_endsWord_behind`).
-/

set_option autoImplicit false
set_option relaxedAutoImplicit false

namespace ModalEdit

open Unicode (isWhiteSpace)

namespace Text

/-- The WORDs of a line: what its blanks leave between them. -/
def words (line : Text) : List Text := (line.splitOnP isWhiteSpace).filter (· ≠ [])

/-- No WORD goes on from the one part to the other. -/
def Apart (front back : Text) : Prop :=
  (∀ c ∈ front.getLast?, isWhiteSpace c = true) ∨ ∀ c ∈ back.head?, isWhiteSpace c = true

section Words

variable {front back : Text} {c : Char}

@[simp] theorem words_nil : words [] = [] := rfl

theorem words_append_cons (front back : Text) (hblank : isWhiteSpace c = true) :
    words (front ++ c :: back) = words front ++ words back := by
  rw [words, List.splitOnP_append_cons _ _ hblank, List.filter_append]
  rfl

theorem words_cons_blank (back : Text) (hblank : isWhiteSpace c = true) :
    words (c :: back) = words back := words_append_cons [] back hblank

theorem words_append (h : Apart front back) : words (front ++ back) = words front ++ words back := by
  rcases h with hfront | hback
  · obtain rfl | ⟨init, c, rfl⟩ := front.eq_nil_or_concat'
    · rfl
    · have hblank : isWhiteSpace c = true := hfront c List.getLast?_concat
      rw [List.append_assoc, List.singleton_append, words_append_cons _ _ hblank,
        words_append_cons _ _ hblank, words_nil, List.append_nil]
  · cases back with
    | nil => rw [words_nil, List.append_nil, List.append_nil]
    | cons c back =>
      have hblank : isWhiteSpace c = true := hback c rfl
      rw [words_append_cons _ _ hblank, words_cons_blank _ hblank]

theorem words_of_blanks {blanks : Text} (h : ∀ c ∈ blanks, isWhiteSpace c = true) :
    words blanks = [] := by
  induction blanks with
  | nil => rfl
  | cons c rest ih =>
    obtain ⟨hblank, hrest⟩ := List.forall_mem_cons.mp h
    rw [words_cons_blank _ hblank, ih hrest]

theorem words_of_word {word : Text} (hne : word ≠ []) (h : ∀ c ∈ word, isWhiteSpace c = false) :
    words word = [word] := by
  rw [words, List.splitOnP_eq_singleton h, List.filter_singleton, decide_eq_true hne]
  rfl

end Words

end Text

namespace TextObject

open Text

/-! ### What the object skips -/

section Skip

variable {c d : Char} {ahead : List Char}

/-- Of WORDs there are no classes but blanks and the rest. -/
theorem sameClass_big (c d : Char) : sameClass true c d = (isWhiteSpace d == isWhiteSpace c) := by
  unfold sameClass CharClass.ofChar
  cases isWhiteSpace c <;> cases isWhiteSpace d <;> rfl

theorem blankNext_iff (ahead : List Char) :
    blankNext true ahead = true ↔ ∃ c ∈ ahead.head?, isWhiteSpace c = true := by
  cases ahead with
  | nil => simp [blankNext]
  | cons c rest =>
    simp [blankNext, ofChar_eq_blank_iff]

theorem skipRun_suffix (big : Bool) (ahead : List Char) : skipRun big ahead <:+ ahead := by
  cases ahead with
  | nil => exact List.suffix_refl _
  | cons c rest => exact (List.dropWhile_suffix _).trans (List.suffix_cons _ _)

theorem skipBlanks_suffix (big : Bool) (ahead : List Char) : skipBlanks big ahead <:+ ahead := by
  unfold skipBlanks
  split
  · exact skipRun_suffix big ahead
  · exact List.suffix_refl _

/-- Behind a run comes a character of another kind, or nothing. -/
theorem isWhiteSpace_of_skipRun (hd : d ∈ (skipRun true (c :: ahead)).head?) :
    isWhiteSpace d = !isWhiteSpace c := by
  have hnot : sameClass true c d = false := by
    have hhead := List.head?_dropWhile_not (sameClass true c) ahead
    rwa [show (ahead.dropWhile (sameClass true c)).head? = some d from hd] at hhead
  rw [sameClass_big] at hnot
  cases hc : isWhiteSpace c <;> cases hd' : isWhiteSpace d <;> simp_all

/-- What a run is made of. -/
theorem isWhiteSpace_of_mem_run (hd : d ∈ ahead.takeWhile (sameClass true c)) :
    isWhiteSpace d = isWhiteSpace c := by
  have hsame := List.mem_takeWhile_imp hd
  rw [sameClass_big] at hsame
  exact eq_of_beq hsame

theorem skipRun_spec (c : Char) (ahead : List Char) :
    c :: ahead.takeWhile (sameClass true c) ++ skipRun true (c :: ahead) = c :: ahead := by
  rw [skipRun, List.cons_append, List.takeWhile_append_dropWhile]

theorem words_skipRun_of_blank (hblank : isWhiteSpace c = true) :
    words (skipRun true (c :: ahead)) = words (c :: ahead) := by
  have hblanks : ∀ d ∈ c :: ahead.takeWhile (sameClass true c), isWhiteSpace d = true :=
    List.forall_mem_cons.mpr ⟨hblank, fun d hd ↦ (isWhiteSpace_of_mem_run hd).trans hblank⟩
  have happ : words (c :: ahead.takeWhile (sameClass true c) ++ skipRun true (c :: ahead)) =
      words (skipRun true (c :: ahead)) := by
    rw [words_append (.inl fun d hd ↦ hblanks d (List.mem_of_getLast? hd)), words_of_blanks hblanks,
      List.nil_append]
  rw [← happ, skipRun_spec]

/-- The run of a WORD is that WORD, with what there is of it before. -/
theorem words_append_run {front : List Char} (ahead : List Char)
    (hfront : ∀ d ∈ front, isWhiteSpace d = false) (hword : isWhiteSpace c = false) : ∃ word,
      words (front ++ c :: ahead) = word :: words (skipRun true (c :: ahead)) := by
  have hmembers : ∀ d ∈ front ++ c :: ahead.takeWhile (sameClass true c), isWhiteSpace d = false := by
    refine List.forall_mem_append.mpr ⟨hfront, List.forall_mem_cons.mpr ⟨hword, fun d hd ↦ ?_⟩⟩
    exact (isWhiteSpace_of_mem_run hd).trans hword
  refine ⟨front ++ c :: ahead.takeWhile (sameClass true c), ?_⟩
  have hbehind : ∀ d ∈ (skipRun true (c :: ahead)).head?, isWhiteSpace d = true := fun d hd ↦ by
    rw [isWhiteSpace_of_skipRun hd, hword]
    rfl
  calc words (front ++ c :: ahead)
      = words (front ++ c :: ahead.takeWhile (sameClass true c) ++ skipRun true (c :: ahead)) := by
        rw [List.append_assoc, skipRun_spec]
    _ = _ := by
        rw [words_append (.inr hbehind), words_of_word (by simp) hmembers]
        rfl

theorem words_skipBlanks (ahead : List Char) : words (skipBlanks true ahead) = words ahead := by
  unfold skipBlanks
  split
  · next hnext =>
    obtain ⟨c, hc, hblank⟩ := (blankNext_iff ahead).mp hnext
    obtain ⟨rest, rfl⟩ := List.head?_eq_some_iff.mp hc
    exact words_skipRun_of_blank hblank
  · rfl

theorem isWhiteSpace_of_skipBlanks (ahead : List Char) (hc : c ∈ (skipBlanks true ahead).head?) :
    isWhiteSpace c = false := by
  unfold skipBlanks at hc
  split at hc
  · next hnext =>
    obtain ⟨d, hd, hblank⟩ := (blankNext_iff ahead).mp hnext
    obtain ⟨rest, rfl⟩ := List.head?_eq_some_iff.mp hd
    rw [isWhiteSpace_of_skipRun hc, hblank]
    rfl
  · next hnext =>
    by_contra hblank
    exact hnext ((blankNext_iff ahead).mpr ⟨c, hc, Bool.not_eq_false _ ▸ hblank⟩)

/-- With the blanks before it one WORD is skipped. -/
theorem words_skipRun_skipBlanks (ahead : List Char) :
    words (skipRun true (skipBlanks true ahead)) = (words ahead).drop 1 := by
  rw [← words_skipBlanks ahead]
  cases hrest : skipBlanks true ahead with
  | nil => rfl
  | cons c rest =>
    have hword : isWhiteSpace c = false :=
      isWhiteSpace_of_skipBlanks ahead (by rw [hrest]; rfl)
    obtain ⟨word, hwords⟩ := words_append_run rest (List.forall_mem_nil _) hword
    rw [show words (c :: rest) = _ from hwords]
    rfl

/-- From a blank as many WORDs are skipped as are counted, and nothing of another. -/
theorem repeatSkip_words (count : Nat) (ahead : List Char) :
    words (repeatSkip (fun rest ↦ skipRun true (skipBlanks true rest)) count ahead) =
      (words ahead).drop count := by
  induction count generalizing ahead with
  | zero => rfl
  | succ count ih =>
    cases ahead with
    | nil => simp [repeatSkip]
    | cons c rest =>
      show words (repeatSkip _ count (skipRun true (skipBlanks true (c :: rest)))) = _
      rw [ih, words_skipRun_skipBlanks, List.drop_drop, Nat.add_comm]

theorem repeatSkip_suffix {skip : List Char → List Char} (hskip : ∀ rest, skip rest <:+ rest)
    (count : Nat) (ahead : List Char) : repeatSkip skip count ahead <:+ ahead := by
  induction count generalizing ahead with
  | zero => exact List.suffix_refl _
  | succ count ih =>
    cases ahead with
    | nil => exact List.suffix_refl _
    | cons c rest => exact (ih _).trans (hskip _)

/-- What has been skipped from a blank ends where a WORD does. -/
theorem isWhiteSpace_of_repeatSkip (count : Nat) (ahead : List Char) (hc : c ∈
    (repeatSkip (fun rest ↦ skipRun true (skipBlanks true rest)) (count + 1) ahead).head?) :
    isWhiteSpace c = true := by
  induction count generalizing ahead with
  | zero =>
    cases ahead with
    | nil => cases hc
    | cons first rest =>
      change c ∈ (skipRun true (skipBlanks true (first :: rest))).head? at hc
      cases hrest : skipBlanks true (first :: rest) with
      | nil =>
        rw [hrest] at hc
        cases hc
      | cons d word =>
        have hword : isWhiteSpace d = false :=
          isWhiteSpace_of_skipBlanks (first :: rest) (by rw [hrest]; rfl)
        rw [hrest] at hc
        rw [isWhiteSpace_of_skipRun hc, hword]
        rfl
  | succ count ih =>
    cases ahead with
    | nil => cases hc
    | cons first rest => exact ih _ hc

/-- From a WORD as many are skipped as are counted, and nothing of another. Where no blanks follow the
last of them nothing is left. -/
theorem skipWords_spec (count : Nat) (trailing : Bool) (ahead : List Char)
    (hahead : ∀ c ∈ ahead.head?, isWhiteSpace c = false) :
    let result := skipWords true count trailing ahead
    words result.1 = (words ahead).drop count ∧ result.1 <:+ ahead ∧
      (result.2 = false → count = 0 ∧ trailing = false ∨ result.1 = []) := by
  induction count generalizing trailing ahead with
  | zero => exact ⟨rfl, List.suffix_refl _, fun h ↦ .inl ⟨rfl, h⟩⟩
  | succ count ih =>
    cases ahead with
    | nil => exact ⟨(List.drop_nil ..).symm, List.suffix_refl _, fun _ ↦ .inr rfl⟩
    | cons c rest =>
      obtain ⟨word, hwords⟩ := words_append_run rest (List.forall_mem_nil _) (hahead c rfl)
      obtain ⟨hleft, hsuffix, htrailing⟩ := ih (blankNext true (skipRun true (c :: rest)))
        (skipBlanks true (skipRun true (c :: rest))) fun d hd ↦ isWhiteSpace_of_skipBlanks _ hd
      refine ⟨?_, hsuffix.trans ((skipBlanks_suffix _ _).trans (skipRun_suffix _ _)), fun hnone ↦ .inr ?_⟩
      · rw [show words (c :: rest) = _ from hwords, List.drop_succ_cons]
        rw [words_skipBlanks] at hleft
        exact hleft
      · rcases htrailing hnone with ⟨rfl, hnext⟩ | hleft
        -- what follows a WORD is a blank or nothing
        · show skipBlanks true (skipRun true (c :: rest)) = []
          rw [skipBlanks, hnext, if_neg Bool.false_ne_true]
          cases hbehind : skipRun true (c :: rest) with
          | nil => rfl
          | cons d behind =>
            have hd : d ∈ (skipRun true (c :: rest)).head? := by
              rw [hbehind]
              rfl
            have hblank : isWhiteSpace d = true := by
              rw [isWhiteSpace_of_skipRun hd, hahead c rfl]
              rfl
            cases hnext.symm.trans ((blankNext_iff _).mpr ⟨d, hd, hblank⟩)
        · exact hleft

end Skip

/-! ### The extent of the object -/

section Extent

variable {c : Char} {behind ahead : List Char}

theorem drop_length_takeWhile (p : Char → Bool) (l : List Char) :
    l.drop (l.takeWhile p).length = l.dropWhile p := by
  calc l.drop (l.takeWhile p).length
      = (l.takeWhile p ++ l.dropWhile p).drop (l.takeWhile p).length := by
        rw [List.takeWhile_append_dropWhile]
    _ = l.dropWhile p := List.drop_left

/-- Blanks at the end of a line add no WORD. -/
theorem words_reverse_dropBlanks (behind : List Char) :
    words (behind.dropWhile fun d ↦ CharClass.ofChar true d = .blank).reverse =
      words behind.reverse := by
  have hblanks : ∀ d ∈ (behind.takeWhile fun d ↦ CharClass.ofChar true d = .blank).reverse,
      isWhiteSpace d = true := fun d hd ↦ by
    have hblank := List.mem_takeWhile_imp (List.mem_reverse.mp hd)
    exact ofChar_eq_blank_iff.mp (of_decide_eq_true hblank)
  calc words (behind.dropWhile fun d ↦ CharClass.ofChar true d = .blank).reverse
      = words ((behind.dropWhile fun d ↦ CharClass.ofChar true d = .blank).reverse ++
          (behind.takeWhile fun d ↦ CharClass.ofChar true d = .blank).reverse) := by
        rw [words_append (.inr fun d hd ↦ hblanks d (List.mem_of_head? hd)),
          words_of_blanks hblanks, List.append_nil]
    _ = words behind.reverse := by
        rw [← List.reverse_append, List.takeWhile_append_dropWhile]

/-- What is before the run of the caret. -/
def beforeRun (behind : List Char) (c : Char) : Text := (behind.dropWhile (sameClass true c)).reverse

theorem beforeRun_append_run (behind : List Char) (c : Char) :
    beforeRun behind c ++ (behind.takeWhile (sameClass true c)).reverse = behind.reverse := by
  rw [beforeRun, ← List.reverse_append, List.takeWhile_append_dropWhile]

theorem isWhiteSpace_of_beforeRun {d : Char} (hd : d ∈ (beforeRun behind c).getLast?) :
    isWhiteSpace d = !isWhiteSpace c := by
  rw [beforeRun, List.getLast?_reverse] at hd
  exact isWhiteSpace_of_skipRun hd

/-- What an extent takes of a line: before the caret and from it on, and of its WORDs as many as are
counted from that of the caret's run on, or from the one behind it. -/
structure TakesWords (behind ahead : List Char) (c : Char) (n before : Nat) (left : List Char) :
    Prop where
  before_le : before ≤ behind.length
  left_suffix : left <:+ c :: ahead
  words_taken : ∃ ws, words (behind.reverse ++ c :: ahead) = words (beforeRun behind c) ++ ws ∧
    words ((behind.drop before).reverse ++ left) = words (beforeRun behind c) ++ ws.drop n

/-- From a blank WORDs go with the blanks before them. -/
theorem takesWords_of_blank (hblank : isWhiteSpace c = true) (n : Nat) :
    ∃ before left, wordExtent behind (c :: ahead) (n + 1) true true = (before, left) ∧
      TakesWords behind ahead c (n + 1) before left := by
  have hnext : blankNext true (c :: ahead) = true := (blankNext_iff _).mpr ⟨c, rfl, hblank⟩
  have hextent : wordExtent behind (c :: ahead) (n + 1) true true =
      ((behind.takeWhile (sameClass true c)).length,
        repeatSkip (fun rest ↦ skipRun true (skipBlanks true rest)) (n + 1) (c :: ahead)) := by
    rw [wordExtent, hnext]
    rfl
  refine ⟨_, _, hextent, (List.takeWhile_prefix _).length_le, ?_, words (c :: ahead), ?_, ?_⟩
  · exact repeatSkip_suffix (fun rest ↦ (skipRun_suffix _ _).trans (skipBlanks_suffix _ _)) _ _
  · have hrun : ∀ d ∈ (behind.takeWhile (sameClass true c)).reverse, isWhiteSpace d = true :=
      fun d hd ↦ (isWhiteSpace_of_mem_run (List.mem_reverse.mp hd)).trans hblank
    rw [← beforeRun_append_run behind c, words_append (.inr fun d hd ↦ ?_),
      words_append (.inr fun d hd ↦ ?_), words_of_blanks hrun, List.append_nil]
    · exact hrun d (List.mem_of_head? hd)
    · obtain rfl : c = d := Option.some.inj hd
      exact hblank
  · rw [drop_length_takeWhile, ← repeatSkip_words]
    exact words_append (.inr fun d hd ↦ isWhiteSpace_of_repeatSkip n _ hd)

section FromWord

variable (hword : isWhiteSpace c = false)
include hword

theorem blankNext_of_word (ahead : List Char) : blankNext true (c :: ahead) = false := by
  refine Bool.eq_false_iff.mpr fun hnext ↦ ?_
  obtain ⟨d, hd, hblank⟩ := (blankNext_iff _).mp hnext
  obtain rfl : c = d := Option.some.inj hd
  cases hword.symm.trans hblank

theorem blank_of_beforeRun (behind : List Char) :
    ∀ d ∈ (beforeRun behind c).getLast?, isWhiteSpace d = true := fun d hd ↦ by
  rw [isWhiteSpace_of_beforeRun hd, hword]
  rfl

/-- The WORD that the caret is in comes behind those before it. -/
theorem exists_words_eq (behind ahead : List Char) : ∃ word,
    words (behind.reverse ++ c :: ahead) =
      words (beforeRun behind c) ++ word :: words (skipRun true (c :: ahead)) := by
  have hrun : ∀ d ∈ (behind.takeWhile (sameClass true c)).reverse, isWhiteSpace d = false :=
    fun d hd ↦ (isWhiteSpace_of_mem_run (List.mem_reverse.mp hd)).trans hword
  obtain ⟨word, hline⟩ := words_append_run ahead hrun hword
  refine ⟨word, ?_⟩
  rw [← beforeRun_append_run behind c, List.append_assoc,
    words_append (.inl (blank_of_beforeRun hword behind)), hline]

/-- What is left of the line once the WORDs are skipped, and whether blanks follow the last of them. -/
theorem skipWords_of_word (n : Nat) (ahead : List Char) : ∃ left trailing,
    skipWords true (n + 1) false (c :: ahead) = (left, trailing) ∧ left <:+ c :: ahead ∧
      words left = (words (skipRun true (c :: ahead))).drop n ∧ (trailing = false → left = []) := by
  obtain ⟨word, hahead⟩ := words_append_run ahead (List.forall_mem_nil _) hword
  obtain ⟨hwords, hsuffix, hnone⟩ := skipWords_spec (n + 1) false (c :: ahead) fun d hd ↦ by
    obtain rfl : c = d := Option.some.inj hd
    exact hword
  rw [show words (c :: ahead) = _ from hahead, List.drop_succ_cons] at hwords
  exact ⟨_, _, rfl, hsuffix, hwords,
    fun htrailing ↦ (hnone htrailing).resolve_left fun hzero ↦ Nat.succ_ne_zero n hzero.1⟩

/-- From a WORD they go with the blanks behind them, or with those before the first if none are behind
the last. -/
theorem takesWords_of_word (n : Nat) :
    ∃ before left, wordExtent behind (c :: ahead) (n + 1) true true = (before, left) ∧
      TakesWords behind ahead c (n + 1) before left := by
  have hnext := blankNext_of_word hword ahead
  obtain ⟨word, htaken⟩ := exists_words_eq hword behind ahead
  obtain ⟨left, trailing, hskip, hsuffix, hwords, hnone⟩ := skipWords_of_word hword n ahead
  cases trailing with
  | true =>
    have hextent : wordExtent behind (c :: ahead) (n + 1) true true =
        ((behind.takeWhile (sameClass true c)).length, left) := by
      rw [wordExtent, hnext, hskip]
      rfl
    refine ⟨_, _, hextent, (List.takeWhile_prefix _).length_le, hsuffix, _, htaken, ?_⟩
    rw [drop_length_takeWhile, List.drop_succ_cons, ← hwords]
    exact words_append (.inl (blank_of_beforeRun hword behind))
  | false =>
    obtain rfl : left = [] := hnone rfl
    have hextent : wordExtent behind (c :: ahead) (n + 1) true true =
        ((behind.takeWhile (sameClass true c)).length +
          ((behind.dropWhile (sameClass true c)).takeWhile fun d ↦
            CharClass.ofChar true d = .blank).length, []) := by
      rw [wordExtent, hnext, hskip, ← drop_length_takeWhile]
      rfl
    refine ⟨_, _, hextent, ?_, hsuffix, _, htaken, ?_⟩
    · have hlength := congrArg List.length
        (List.takeWhile_append_dropWhile (p := sameClass true c) (l := behind))
      rw [List.length_append] at hlength
      have hblanks := (List.takeWhile_prefix (l := behind.dropWhile (sameClass true c))
        fun d ↦ CharClass.ofChar true d = .blank).length_le
      omega
    · rw [← List.drop_drop, drop_length_takeWhile, drop_length_takeWhile, List.drop_succ_cons, ← hwords,
        List.append_nil, words_nil, List.append_nil]
      exact words_reverse_dropBlanks _

end FromWord

theorem takesWords (behind ahead : List Char) (c : Char) (n : Nat) :
    ∃ before left, wordExtent behind (c :: ahead) (n + 1) true true = (before, left) ∧
      TakesWords behind ahead c (n + 1) before left := by
  cases hc : isWhiteSpace c with
  | true => exact takesWords_of_blank hc n
  | false => exact takesWords_of_word hc n

end Extent

end TextObject

namespace Text

open TextObject

/-! ### The number of WORDs -/

section Count

variable {c : Char} {line front back : Text}

theorem endsWord_zero_iff : EndsWord (c :: line) true 0 ↔
    isWhiteSpace c = false ∧ ∀ d ∈ line.head?, isWhiteSpace d = true := by
  cases line with
  | nil =>
    simp only [EndsWord, classAt, charAt, CharClass.ofChar?, CharClass.ofChar]
    cases hc : isWhiteSpace c <;> simp [hc]
  | cons d rest =>
    simp only [EndsWord, classAt, charAt, CharClass.ofChar?, CharClass.ofChar]
    cases hc : isWhiteSpace c <;> cases hd : isWhiteSpace d <;> simp [hc, hd]

/-- There is one WORD more if one ends at the first character. -/
theorem length_words_cons (c : Char) (line : Text) : (words (c :: line)).length =
    (words line).length + if EndsWord (c :: line) true 0 then 1 else 0 := by
  cases hc : isWhiteSpace c with
  | true =>
    rw [words_cons_blank _ hc, if_neg fun hends ↦ ?_, Nat.add_zero]
    cases hc.symm.trans (endsWord_zero_iff.mp hends).1
  | false =>
    by_cases hnext : ∀ d ∈ line.head?, isWhiteSpace d = true
    · have hword : words [c] = [[c]] :=
        words_of_word (List.cons_ne_nil _ _) (List.forall_mem_singleton.mpr hc)
      rw [if_pos (endsWord_zero_iff.mpr ⟨hc, hnext⟩), ← List.singleton_append,
        words_append (.inr hnext), hword, List.length_append, Nat.add_comm]
      rfl
    · rw [if_neg fun hends ↦ hnext (endsWord_zero_iff.mp hends).2, Nat.add_zero]
      push Not at hnext
      obtain ⟨d, hd, hword⟩ := hnext
      obtain ⟨rest, rfl⟩ := List.head?_eq_some_iff.mp hd
      have hword := Bool.eq_false_iff.mpr hword
      obtain ⟨whole, hwhole⟩ := words_append_run rest (List.forall_mem_singleton.mpr hc) hword
      obtain ⟨part, hpart⟩ := words_append_run rest (List.forall_mem_nil _) hword
      rw [show words (c :: d :: rest) = _ from hwhole, show words (d :: rest) = _ from hpart]
      rfl

/-- Up to a place in a run as many WORDs end as are in the part before the run. -/
theorem count_endsWord {m : Nat} (hback : back ≠ [])
    (hmeet : ∀ c ∈ front.getLast?, ∀ d ∈ back.head?, isWhiteSpace c = !isWhiteSpace d)
    (hsame : ∀ q < m, back.classAt true (q + 1) = back.classAt true q) :
    Nat.count (EndsWord (front ++ back) true) (front.length + m) = (words front).length := by
  induction front with
  | nil =>
    rw [List.nil_append, List.length_nil, Nat.zero_add, words_nil, List.length_nil,
      Nat.count_iff_forall_not]
    exact fun q hq hends ↦ hends.2 (hsame q hq)
  | cons c front ih =>
    have hends : EndsWord (c :: (front ++ back)) true 0 ↔ EndsWord (c :: front) true 0 := by
      rw [endsWord_zero_iff, endsWord_zero_iff]
      cases front with
      | nil =>
        obtain ⟨d, rest, rfl⟩ := List.exists_cons_of_ne_nil hback
        have hd := hmeet c rfl d rfl
        simp [hd]
      | cons d front => rfl
    have htail : ∀ c ∈ front.getLast?, ∀ d ∈ back.head?, isWhiteSpace c = !isWhiteSpace d := by
      intro d hd
      refine hmeet d ?_
      obtain ⟨init, rfl⟩ := List.getLast?_eq_some_iff.mp hd
      rw [← List.cons_append]
      exact List.getLast?_concat
    rw [List.length_cons, Nat.add_right_comm, Nat.count_succ', length_words_cons, ← ih htail]
    simp only [hends, List.cons_append]
    rfl

/-- Up to the caret as many WORDs end as are before its run. -/
theorem count_endsWord_behind (behind ahead : List Char) (c : Char) :
    Nat.count (EndsWord (behind.reverse ++ c :: ahead) true) behind.length =
      (words (beforeRun behind c)).length := by
  obtain ⟨run, hrun⟩ : ∃ run, run = (behind.takeWhile (sameClass true c)).reverse := ⟨_, rfl⟩
  have hmember : ∀ d ∈ run, CharClass.ofChar true d = CharClass.ofChar true c := fun d hd ↦ by
    have hsame : sameClass true c d = true := List.mem_takeWhile_imp (List.mem_reverse.mp (hrun ▸ hd))
    exact eq_of_beq hsame
  have hclass : ∀ q ≤ run.length, classAt (run ++ c :: ahead) true q = CharClass.ofChar true c := by
    intro q hq
    rcases Nat.lt_or_eq_of_le hq with hlt | rfl
    · have hat : charAt (run ++ c :: ahead) q = some run[q] := by
        rw [charAt, List.getElem?_append_left hlt, List.getElem?_eq_getElem hlt]
      rw [classAt_of_charAt hat, hmember _ (List.getElem_mem hlt)]
    · have hat : charAt (run ++ c :: ahead) run.length = some c := by
        rw [charAt, List.getElem?_append_right (Nat.le_refl _), Nat.sub_self]
        rfl
      rw [classAt_of_charAt hat]
  have hlength : behind.length = (beforeRun behind c).length + run.length := by
    rw [hrun, ← List.length_append, beforeRun_append_run, List.length_reverse]
  rw [hlength, ← beforeRun_append_run behind c, ← hrun, List.append_assoc]
  refine count_endsWord (by simp) (fun d hd e he ↦ ?_) fun q hq ↦ ?_
  · rw [isWhiteSpace_of_beforeRun hd]
    cases run with
    | nil => rw [Option.some.inj he]
    | cons first rest =>
      have hfirst : first ∈ behind.takeWhile (sameClass true c) :=
        List.mem_reverse.mp (hrun ▸ List.mem_cons_self)
      rw [← Option.some.inj he, isWhiteSpace_of_mem_run hfirst]
  · rw [hclass _ hq, hclass _ (Nat.le_of_lt hq)]

end Count

end Text

end ModalEdit
