import Mathlib.Data.List.Basic
import ModalEdit.Text.Word

/-!
Where words and empty lines are. A word is a maximal run of one class other than blank, so it starts
where the class is not that of the character before (`Text.StartsWord`) and ends where the class is
not that of the character behind (`Text.EndsWord`). The places of a text at which motions stop are
listed in ascending order (`Text.wordStarts`, `Text.wordEnds`, `Text.wordEndsAndEmptyLines`). What the
scans step over is told by the class of the places they pass (`Text.run_ahead`, `Text.blankRun_ahead`,
`Text.exists_run_behind`).
-/

set_option autoImplicit false
set_option relaxedAutoImplicit false

namespace ModalEdit.Text

/-- The class of what is at an offset; past the end of the text lies blank. -/
def classAt (t : Text) (big : Bool) (offset : Nat) : CharClass :=
  CharClass.ofChar? big (t.charAt offset)

/-- The first character of a word. -/
def StartsWord (t : Text) (big : Bool) (offset : Nat) : Prop :=
  t.classAt big offset ≠ .blank ∧
    (offset = 0 ∨ t.classAt big (offset - 1) ≠ t.classAt big offset)

/-- The last character of a word. -/
def EndsWord (t : Text) (big : Bool) (offset : Nat) : Prop :=
  t.classAt big offset ≠ .blank ∧ t.classAt big (offset + 1) ≠ t.classAt big offset

/-- A line feed at the start of the text, or behind another one. -/
def EmptyLine (t : Text) (offset : Nat) : Prop :=
  t.charAt offset = some '\n' ∧ (offset = 0 ∨ t.charAt (offset - 1) = some '\n')

instance (t : Text) (big : Bool) : DecidablePred (t.StartsWord big) := fun _ ↦ instDecidableAnd

instance (t : Text) (big : Bool) : DecidablePred (t.EndsWord big) := fun _ ↦ instDecidableAnd

instance (t : Text) : DecidablePred t.EmptyLine := fun _ ↦ instDecidableAnd

/-- The places of a text that have a property, in ascending order. -/
def places (t : Text) (p : Nat → Prop) [DecidablePred p] : List Nat :=
  (List.range t.length).filter (p ·)

/-- Where words start, and the empty lines. -/
def wordStarts (t : Text) (big : Bool) : List Nat :=
  t.places fun offset ↦ t.StartsWord big offset ∨ t.EmptyLine offset

/-- Where words end. -/
def wordEnds (t : Text) (big : Bool) : List Nat := t.places (t.EndsWord big)

/-- Where words end, and the empty lines. -/
def wordEndsAndEmptyLines (t : Text) (big : Bool) : List Nat :=
  t.places fun offset ↦ t.EndsWord big offset ∨ t.EmptyLine offset

section Classes

variable {t : Text} {big : Bool} {offset : Nat} {c : Char}

theorem mem_places {p : Nat → Prop} [DecidablePred p] :
    offset ∈ t.places p ↔ offset < t.length ∧ p offset := by
  rw [places, List.mem_filter, List.mem_range, decide_eq_true_eq]

theorem charAt_ne_none_of_mem_places {p : Nat → Prop} [DecidablePred p] (h : offset ∈ t.places p) :
    t.charAt offset ≠ none := fun hnone ↦
  Nat.not_lt.mpr (List.getElem?_eq_none_iff.mp hnone) (mem_places.mp h).1

theorem places_sorted (t : Text) (p : Nat → Prop) [DecidablePred p] :
    (t.places p).Pairwise (· < ·) := List.Pairwise.filter _ List.pairwise_lt_range

theorem classAt_of_charAt (h : t.charAt offset = some c) :
    t.classAt big offset = CharClass.ofChar big c := by
  rw [classAt, h]
  rfl

theorem classAt_of_none (h : t.charAt offset = none) : t.classAt big offset = .blank := by
  rw [classAt, h]
  rfl

theorem ofChar_eq_blank_iff : CharClass.ofChar big c = .blank ↔ Unicode.isWhiteSpace c = true := by
  unfold CharClass.ofChar
  split
  · next hblank => exact iff_of_true rfl hblank
  · next hblank => split <;> exact iff_of_false CharClass.noConfusion hblank

theorem ofChar_feed (big : Bool) : CharClass.ofChar big '\n' = .blank :=
  ofChar_eq_blank_iff.mpr (by decide)

theorem lt_length_of_classAt (h : t.classAt big offset ≠ .blank) : offset < t.length := by
  refine Nat.lt_of_not_le fun hle ↦ h (classAt_of_none ?_)
  exact List.getElem?_eq_none hle

theorem exists_charAt (h : t.classAt big offset ≠ .blank) :
    ∃ c, t.charAt offset = some c ∧ CharClass.ofChar big c ≠ .blank := by
  cases hc : t.charAt offset with
  | none => exact absurd (classAt_of_none hc) h
  | some c => exact ⟨c, rfl, by rwa [classAt_of_charAt hc] at h⟩

theorem lt_length_of_charAt (h : t.charAt offset = some c) : offset < t.length :=
  (List.getElem?_eq_some_iff.mp h).1

/-- An empty line is blank. -/
theorem EmptyLine.classAt (h : t.EmptyLine offset) : t.classAt big offset = .blank := by
  rw [classAt_of_charAt h.1, ofChar_feed]

theorem EmptyLine.lt_length (h : t.EmptyLine offset) : offset < t.length := lt_length_of_charAt h.1

theorem mem_wordStarts : offset ∈ t.wordStarts big ↔ t.StartsWord big offset ∨ t.EmptyLine offset := by
  rw [wordStarts, mem_places, and_iff_right_iff_imp]
  rintro (hword | hempty)
  · exact lt_length_of_classAt hword.1
  · exact hempty.lt_length

theorem mem_wordEnds : offset ∈ t.wordEnds big ↔ t.EndsWord big offset := by
  rw [wordEnds, mem_places, and_iff_right_iff_imp]
  exact fun hword ↦ lt_length_of_classAt hword.1

theorem mem_wordEndsAndEmptyLines :
    offset ∈ t.wordEndsAndEmptyLines big ↔ t.EndsWord big offset ∨ t.EmptyLine offset := by
  rw [wordEndsAndEmptyLines, mem_places, and_iff_right_iff_imp]
  rintro (hword | hempty)
  · exact lt_length_of_classAt hword.1
  · exact hempty.lt_length

theorem wordEnds_sorted (t : Text) (big : Bool) : (t.wordEnds big).Pairwise (· < ·) := t.places_sorted _

theorem isWordEnd_iff : t.isWordEnd offset big = true ↔ t.EndsWord big offset := by
  simp only [isWordEnd, EndsWord, classAt, Bool.and_eq_true, bne_iff_ne]

end Classes

/-! ### What lies ahead and behind -/

section Runs

variable {t : Text} {big : Bool} {offset : Nat} {c : Char}

theorem drop_of_charAt (h : t.charAt offset = some c) : t.drop offset = c :: t.drop (offset + 1) := by
  obtain ⟨hlt, hc⟩ := List.getElem?_eq_some_iff.mp h
  rw [List.drop_eq_getElem_cons hlt, hc]

theorem charAt_of_drop {rest : List Char} (h : t.drop offset = c :: rest) :
    t.charAt offset = some c ∧ t.drop (offset + 1) = rest := by
  refine ⟨?_, ?_⟩
  · rw [charAt, ← List.getElem?_drop.trans (congrArg _ (Nat.add_zero offset)), h]
    rfl
  · rw [← List.tail_drop, h, List.tail_cons]

theorem before_of_charAt (h : t.charAt offset = some c) :
    t.before (offset + 1) = c :: t.before offset := by
  rw [before, List.take_add_one, show t[offset]? = some c from h, Option.toList_some,
    List.reverse_concat, before]

theorem before_of_none (h : t.charAt offset = none) : t.before (offset + 1) = t.before offset := by
  rw [before, List.take_add_one, show t[offset]? = none from h, Option.toList_none, List.append_nil,
    before]

theorem length_before (h : offset ≤ t.length) : (t.before offset).length = offset := by
  rw [before, List.length_reverse, List.length_take, Nat.min_eq_left h]

/-- Two line feeds, the nearer one at the offset, are an empty line but for the start of the text. -/
theorem feeds_iff (hc : t.charAt offset = some c) :
    c = '\n' ∧ (t.before offset).head? = some '\n' ↔ t.EmptyLine offset ∧ 0 < offset := by
  rw [EmptyLine, hc, Option.some.injEq]
  cases offset with
  | zero => simp [before]
  | succ previous =>
    have hlt : previous < t.length := Nat.lt_of_succ_lt (lt_length_of_charAt hc)
    obtain ⟨d, hd⟩ : ∃ d, t.charAt previous = some d := ⟨t[previous], List.getElem?_eq_getElem hlt⟩
    simp [before_of_charAt hd, hd]

/-- The characters ahead that have a property fill the places up to one that has it not. -/
theorem takeWhile_ahead (t : Text) (p : Char → Bool) (offset : Nat) :
    (∀ q, offset ≤ q → q < offset + ((t.drop offset).takeWhile p).length →
      ∃ c, t.charAt q = some c ∧ p c = true) ∧
    ∀ c, t.charAt (offset + ((t.drop offset).takeWhile p).length) = some c → p c = false := by
  generalize hahead : t.drop offset = ahead
  induction ahead generalizing offset with
  | nil =>
    refine ⟨fun q hle hlt ↦ absurd hlt (Nat.not_lt.mpr hle), fun c hc ↦ ?_⟩
    exact absurd (lt_length_of_charAt hc) (Nat.not_lt.mpr (List.drop_eq_nil_iff.mp hahead))
  | cons d rest ih =>
    obtain ⟨hd, hrest⟩ := charAt_of_drop hahead
    by_cases hp : p d = true
    · obtain ⟨hrun, hstop⟩ := ih (offset + 1) hrest
      rw [List.takeWhile_cons_of_pos hp, List.length_cons, Nat.add_comm _ 1, ← Nat.add_assoc]
      refine ⟨fun q hle hlt ↦ ?_, hstop⟩
      rcases Nat.eq_or_lt_of_le hle with rfl | hlater
      · exact ⟨d, hd, hp⟩
      · exact hrun q hlater hlt
    · rw [List.takeWhile_cons_of_neg hp]
      refine ⟨fun q hle hlt ↦ absurd hlt (Nat.not_lt.mpr hle), fun c hc ↦ ?_⟩
      obtain rfl : d = c := Option.some.inj (hd.symm.trans hc)
      exact Bool.eq_false_iff.mpr hp

/-- What lies ahead of one class fills the places up to one of another class. -/
theorem run_ahead (hc : CharClass.ofChar big c ≠ .blank) (t : Text) (offset : Nat) :
    (∀ q, offset ≤ q → q < offset + ((t.drop offset).takeWhile (sameClass big c)).length →
      t.classAt big q = CharClass.ofChar big c) ∧
    t.classAt big (offset + ((t.drop offset).takeWhile (sameClass big c)).length) ≠
      CharClass.ofChar big c := by
  obtain ⟨hrun, hstop⟩ := t.takeWhile_ahead (sameClass big c) offset
  refine ⟨fun q hle hlt ↦ ?_, fun hsame ↦ ?_⟩
  · obtain ⟨d, hd, hsame⟩ := hrun q hle hlt
    rw [classAt_of_charAt hd, eq_of_beq hsame]
  · obtain ⟨d, hd, -⟩ := exists_charAt (hsame ▸ hc)
    have hother := hstop d hd
    rw [sameClass, ← classAt_of_charAt hd, hsame, beq_self_eq_true] at hother
    cases hother

/-- Every word has an end. -/
theorem exists_endsWord (h : t.classAt big offset ≠ .blank) : ∃ q, offset ≤ q ∧ t.EndsWord big q := by
  obtain ⟨c, hc, hword⟩ := exists_charAt h
  obtain ⟨hrun, hstop⟩ := run_ahead hword t offset
  generalize ((t.drop offset).takeWhile (sameClass big c)).length = n at hrun hstop
  obtain ⟨last, rfl⟩ : ∃ last, n = last + 1 := Nat.exists_eq_succ_of_ne_zero fun hzero ↦
    hstop (by rw [hzero]; exact classAt_of_charAt hc)
  have hlast := hrun (offset + last) (Nat.le_add_right _ _) (Nat.lt_succ_self _)
  exact ⟨offset + last, Nat.le_add_right _ _, hlast ▸ hword, hlast ▸ hstop⟩

/-- What lies before of one class fills the places back to one behind another class. -/
theorem exists_run_behind (t : Text) (big : Bool) (c : Char) (hle : offset ≤ t.length) :
    ∃ start ≤ offset, (t.before offset).dropWhile (sameClass big c) = t.before start ∧
      (∀ q, start ≤ q → q < offset → t.classAt big q = CharClass.ofChar big c) ∧
      ∀ q, q + 1 = start → t.classAt big q ≠ CharClass.ofChar big c := by
  induction offset with
  | zero =>
    exact ⟨0, Nat.le_refl 0, rfl, fun q _ hlt ↦ absurd hlt (Nat.not_lt_zero q),
      fun q h ↦ absurd h (Nat.succ_ne_zero q)⟩
  | succ last ih =>
    obtain ⟨d, hd⟩ : ∃ d, t.charAt last = some d := ⟨t[last], List.getElem?_eq_getElem hle⟩
    rw [before_of_charAt hd]
    by_cases hsame : sameClass big c d = true
    · obtain ⟨start, hstart, hdrop, hrun, hstop⟩ := ih (Nat.le_of_succ_le hle)
      refine ⟨start, Nat.le_succ_of_le hstart, by rw [List.dropWhile_cons_of_pos hsame, hdrop],
        fun q hq hlt ↦ ?_, hstop⟩
      rcases Nat.eq_or_lt_of_le (Nat.le_of_lt_succ hlt) with rfl | hearlier
      · rw [classAt_of_charAt hd, eq_of_beq hsame]
      · exact hrun q hq hearlier
    · refine ⟨last + 1, Nat.le_refl _, ?_, fun q hq hlt ↦ absurd hlt (Nat.not_lt.mpr hq),
        fun q heq ↦ ?_⟩
      · rw [List.dropWhile_cons_of_neg hsame, before_of_charAt hd]
      · obtain rfl : q = last := Nat.succ.inj heq
        rw [classAt_of_charAt hd]
        exact fun heq ↦ hsame (beq_iff_eq.mpr heq)

/-- The word around an offset reaches back to one behind another class. -/
theorem exists_word_behind (big : Bool) (hc : t.charAt offset = some c) :
    ∃ start ≤ offset, (t.before offset).dropWhile (sameClass big c) = t.before start ∧
      (∀ q, start ≤ q → q ≤ offset → t.classAt big q = CharClass.ofChar big c) ∧
      ∀ q, q + 1 = start → t.classAt big q ≠ CharClass.ofChar big c := by
  obtain ⟨start, hstart, hdrop, hrun, hstop⟩ :=
    exists_run_behind t big c (Nat.le_of_lt (lt_length_of_charAt hc))
  refine ⟨start, hstart, hdrop, fun q hq hqo ↦ ?_, hstop⟩
  rcases Nat.eq_or_lt_of_le hqo with rfl | hbefore
  · exact classAt_of_charAt hc
  · exact hrun q hq hbefore

theorem blankRun_le_length (ahead : List Char) : blankRun ahead ≤ ahead.length := by
  fun_induction blankRun ahead with
  | case1 => exact Nat.le_add_left 1 _
  | case2 c rest _ _ ih => exact Nat.succ_le_succ ih
  | case3 => exact Nat.zero_le _
  | case4 => exact Nat.le_refl 0

/-- The blank that lies ahead fills the places up to a word, an empty line or the end of the text. -/
theorem blankRun_ahead (t : Text) (big : Bool) (offset : Nat) :
    (∀ q, offset ≤ q → q < offset + blankRun (t.drop offset) → t.classAt big q = .blank) ∧
    (∀ q, offset < q → q < offset + blankRun (t.drop offset) → ¬t.EmptyLine q) ∧
    (t.classAt big (offset + blankRun (t.drop offset)) ≠ .blank ∨
      t.length ≤ offset + blankRun (t.drop offset) ∨
      0 < blankRun (t.drop offset) ∧ t.EmptyLine (offset + blankRun (t.drop offset))) := by
  generalize hahead : t.drop offset = ahead
  fun_induction blankRun ahead generalizing offset with
  | case1 rest =>
    obtain ⟨hfeed, hrest⟩ := charAt_of_drop hahead
    obtain ⟨hnext, -⟩ := charAt_of_drop hrest
    refine ⟨fun q hle hlt ↦ ?_, fun q hlt hle ↦ by omega, .inr (.inr ⟨Nat.one_pos, hnext, .inr hfeed⟩)⟩
    obtain rfl : q = offset := by omega
    rw [classAt_of_charAt hfeed, ofChar_feed]
  | case2 c rest hnotEmpty hblank ih =>
    obtain ⟨hc, hrest⟩ := charAt_of_drop hahead
    obtain ⟨hrun, hfull, hstop⟩ := ih (offset + 1) hrest
    rw [Nat.add_comm (blankRun rest), ← Nat.add_assoc]
    refine ⟨fun q hle hlt ↦ ?_, fun q hlt hle ↦ ?_, ?_⟩
    · rcases Nat.eq_or_lt_of_le hle with rfl | hlater
      · rw [classAt_of_charAt hc, ofChar_eq_blank_iff.mpr hblank]
      · exact hrun q hlater hlt
    · rcases Nat.eq_or_lt_of_le hlt with rfl | hlater
      · rintro ⟨hfeed, hbehind⟩
        have hprevious : some c = some '\n' := hc.symm.trans (hbehind.resolve_left (Nat.succ_ne_zero _))
        exact hnotEmpty _ (Option.some.inj hprevious) (hrest.symm.trans (drop_of_charAt hfeed))
      · exact hfull q hlater hle
    · exact hstop.imp_right (Or.imp_right (And.imp_left fun _ ↦ by omega))
  | case3 c rest hnotEmpty hword =>
    obtain ⟨hc, hrest⟩ := charAt_of_drop hahead
    refine ⟨fun q hle hlt ↦ absurd hlt (Nat.not_lt.mpr hle), fun q hlt hle ↦ by omega, .inl ?_⟩
    rw [Nat.add_zero, classAt_of_charAt hc]
    exact fun hblank ↦ hword (ofChar_eq_blank_iff.mp hblank)
  | case4 =>
    refine ⟨fun q hle hlt ↦ absurd hlt (Nat.not_lt.mpr hle), fun q hlt hle ↦ by omega, .inr (.inl ?_)⟩
    exact List.drop_eq_nil_iff.mp hahead

end Runs

end ModalEdit.Text
