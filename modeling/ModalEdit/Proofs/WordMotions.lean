import ModalEdit.Proofs.CountedSteps
import ModalEdit.Proofs.WordPlaces

/-!
Word motions enumerate places of the text. The motions to the start of a word go through the starts of
words and the empty lines, forward and backward the same ones (`Text.word_motions_enumerate_starts`);
the motions to the end of a word go through the ends of words, backward also through the empty lines
(`Text.end_motions_enumerate_ends`). One step is a scan over runs of one class, and goes to the nearest
of these places (`nearestAbove_nextWord`, `nearestBelow_previousWord`, `nearestAbove_nextWordEnd`,
`nearestBelow_previousWordEnd`).
-/

set_option autoImplicit false
set_option relaxedAutoImplicit false

namespace ModalEdit.Text

variable {t : Text} {big : Bool} {offset q : Nat} {c : Char}

/-! ### To the start of a word -/

/-- Inside a run of one class no word starts and no line is empty. -/
theorem notMem_wordStarts_of_same (hclass : t.classAt big q ≠ .blank) (hpos : 0 < q)
    (hsame : t.classAt big (q - 1) = t.classAt big q) : q ∉ t.wordStarts big := by
  rw [mem_wordStarts]
  rintro (⟨-, hfirst | hother⟩ | hempty)
  · exact Nat.ne_of_gt hpos hfirst
  · exact hother hsame
  · exact hclass hempty.classAt

theorem mem_wordStarts_of_blank (hclass : t.classAt big q = .blank) :
    q ∈ t.wordStarts big ↔ t.EmptyLine q := by
  rw [mem_wordStarts, or_iff_right_iff_imp]
  exact fun hword ↦ absurd hclass hword.1

/-- From where blank may begin, the blank ahead is stepped over to a place or to the end of the text. -/
theorem nearestAbove_blankRun {start : Nat} (hle : offset ≤ start) (hlength : start ≤ t.length)
    (hpassed : ∀ q, offset < q → q < start → q ∉ t.wordStarts big)
    (hword : t.classAt big start ≠ .blank → offset < start ∧ start ∈ t.wordStarts big)
    (hblank : offset < start → ¬t.EmptyLine start) :
    NearestAbove (t.wordStarts big) t.length offset (start + blankRun (t.drop start)) := by
  obtain ⟨hrun, hfull, hstop⟩ := t.blankRun_ahead big start
  have hshort : start + blankRun (t.drop start) ≤ t.length := by
    have hle := blankRun_le_length (t.drop start)
    rw [List.length_drop] at hle
    omega
  generalize blankRun (t.drop start) = n at *
  have hpassed (q : Nat) (hq : offset < q) (hqn : q < start + n) : q ∉ t.wordStarts big := by
    rcases Nat.lt_or_ge q start with hbefore | hbehind
    · exact hpassed q hq hbefore
    · rw [mem_wordStarts_of_blank (hrun q hbehind hqn)]
      rcases Nat.eq_or_lt_of_le hbehind with rfl | hlater
      · exact hblank hq
      · exact hfull q hlater hqn
  have hplace (hmem : start + n ∈ t.wordStarts big) (hmoved : offset < start + n) :
      NearestAbove (t.wordStarts big) t.length offset (start + n) :=
    nearestAbove_of_passed hmoved hmem hpassed
  rcases hstop with hnext | hend | ⟨hpos, hempty⟩
  · rcases Nat.eq_zero_or_pos n with rfl | hpos
    · exact hplace (hword hnext).2 (hword hnext).1
    · refine hplace (mem_wordStarts.mpr (.inl ⟨hnext, .inr fun hsame ↦ hnext ?_⟩)) (by omega)
      rw [← hsame]
      exact hrun _ (by omega) (by omega)
  · have hend : start + n = t.length := Nat.le_antisymm hshort hend
    refine .inr ⟨fun q hq ↦ Nat.le_of_not_lt fun hlt ↦ ?_, hend⟩
    exact hpassed q hlt (hend ▸ (mem_places.mp hq).1) hq
  · exact hplace (mem_wordStarts.mpr (.inr hempty)) (by omega)

/-- From within a word the rest of it is stepped over, and then the blank behind it. -/
theorem nearestAbove_pastWord (hc : t.charAt offset = some c) (hword : CharClass.ofChar big c ≠ .blank) :
    let behind := offset + ((t.drop offset).takeWhile (sameClass big c)).length
    NearestAbove (t.wordStarts big) t.length offset (behind + blankRun (t.drop behind)) := by
  obtain ⟨hrun, hstop⟩ := run_ahead hword t offset
  have hlt := lt_length_of_charAt hc
  have hshort := (List.takeWhile_prefix (sameClass big c) (l := t.drop offset)).length_le
  rw [List.length_drop] at hshort
  intro behind
  change t.classAt big behind ≠ CharClass.ofChar big c at hstop
  have hbeyond : offset < behind := Nat.lt_of_le_of_ne (Nat.le_add_right _ _) fun heq ↦
    hstop (heq ▸ classAt_of_charAt hc)
  have hlast : t.classAt big (behind - 1) = CharClass.ofChar big c :=
    hrun _ (Nat.le_sub_one_of_lt hbeyond) (Nat.sub_one_lt (Nat.ne_zero_of_lt hbeyond))
  refine nearestAbove_blankRun (Nat.le_of_lt hbeyond) (by omega) (fun q hq hqb ↦ ?_)
    (fun hnext ↦ ⟨hbeyond, ?_⟩) fun _ hempty ↦ ?_
  · have hhere := hrun q (Nat.le_of_lt hq) hqb
    exact notMem_wordStarts_of_same (hhere ▸ hword) (Nat.zero_lt_of_lt hq)
      ((hrun (q - 1) (Nat.le_sub_one_of_lt hq) (Nat.sub_lt_of_lt hqb)).trans hhere.symm)
  · exact mem_wordStarts.mpr (.inl ⟨hnext, .inr fun hsame ↦ hstop (hsame.symm.trans hlast)⟩)
  · have hfeed := hempty.2.resolve_left (Nat.ne_zero_of_lt hbeyond)
    rw [classAt_of_charAt hfeed, ofChar_feed] at hlast
    exact hword hlast.symm

/-- The step forward goes to the nearest start of a word or empty line. -/
theorem nearestAbove_nextWord (t : Text) (big : Bool) (offset : Nat) :
    NearestAbove (t.wordStarts big) t.length offset (t.nextWord big offset) := by
  cases hc : t.charAt offset with
  | none =>
    have hle : t.length ≤ offset := List.getElem?_eq_none_iff.mp hc
    rw [nextWord, Nat.min_eq_right hle, List.drop_eq_nil_of_le hle]
    exact .inr ⟨fun q hq ↦ Nat.le_of_lt (Nat.lt_of_lt_of_le (mem_places.mp hq).1 hle), rfl⟩
  | some c =>
    have hlt := lt_length_of_charAt hc
    have hclass : t.classAt big offset = CharClass.ofChar big c := classAt_of_charAt hc
    have hdrop := drop_of_charAt hc
    rw [nextWord, Nat.min_eq_left (Nat.le_of_lt hlt), hdrop, nextWordDistance, ← hdrop]
    split
    · next hblank =>
      exact nearestAbove_blankRun (Nat.le_refl _) (Nat.le_of_lt hlt)
        (fun q hq hqo ↦ absurd hq (Nat.lt_asymm hqo)) (fun hword ↦ absurd (hclass.trans hblank) hword)
        fun h ↦ absurd h (Nat.lt_irrefl _)
    · next hword =>
      dsimp only
      rw [List.drop_drop, ← Nat.add_assoc]
      exact nearestAbove_pastWord hc hword

/-- Just behind a character of a word the nearest place before is where the word starts. -/
theorem nearestBelow_wordStart (hc : t.charAt offset = some c)
    (hword : CharClass.ofChar big c ≠ .blank) :
    NearestBelow (t.wordStarts big) (offset + 1)
      ((t.before offset).dropWhile (sameClass big c)).length := by
  obtain ⟨start, hstart, hdrop, hrun, hstop⟩ := exists_word_behind big hc
  have hhere := hrun start (Nat.le_refl _) hstart
  rw [hdrop, length_before (Nat.le_trans hstart (Nat.le_of_lt (lt_length_of_charAt hc)))]
  refine nearestBelow_of_passed (Nat.lt_succ_of_le hstart) ?_ fun q hq hqo ↦ ?_
  · refine mem_wordStarts.mpr (.inl ⟨hhere ▸ hword, ?_⟩)
    rcases Nat.eq_zero_or_pos start with hzero | hpos
    · exact .inl hzero
    · exact .inr (hhere ▸ hstop (start - 1) (Nat.sub_add_cancel hpos))
  · have hthere := hrun q (Nat.le_of_lt hq) (Nat.le_of_lt_succ hqo)
    exact notMem_wordStarts_of_same (hthere ▸ hword) (Nat.zero_lt_of_lt hq)
      ((hrun (q - 1) (by omega) (by omega)).trans hthere.symm)

/-- The step backward goes to the nearest start of a word or empty line before. -/
theorem nearestBelow_previousWord (t : Text) (big : Bool) (offset : Nat) :
    NearestBelow (t.wordStarts big) offset (t.previousWord big offset) := by
  -- The scan takes one character after the other, so it is followed from the start of the text.
  induction offset with
  | zero => exact nearestBelow_zero _
  | succ last ih =>
    cases hc : t.charAt last with
    | none =>
      rw [previousWord, before_of_none hc]
      exact ih.succ fun hmem ↦ absurd hc (charAt_ne_none_of_mem_places hmem)
    | some c =>
      have hle := Nat.le_of_lt (lt_length_of_charAt hc)
      have hclass : t.classAt big last = CharClass.ofChar big c := classAt_of_charAt hc
      rw [previousWord, before_of_charAt hc, lastWordStart]
      split
      · next hblank =>
        rw [← hclass] at hblank
        split
        · next hfeeds =>
          rw [length_before hle]
          exact nearestBelow_of_passed (Nat.lt_succ_self _)
            (mem_wordStarts.mpr (.inr ((feeds_iff hc).mp hfeeds).1)) fun q hq hqo ↦ by omega
        · next hfeeds =>
          refine ih.succ fun hmem ↦ Nat.eq_zero_of_not_pos fun hpos ↦
            hfeeds ((feeds_iff hc).mpr ⟨?_, hpos⟩)
          exact (mem_wordStarts_of_blank hblank).mp hmem
      · next hword => exact nearestBelow_wordStart hc hword

theorem wordForward_eq (t : Text) (offset count : Nat) (big : Bool) : t.wordForward offset count big =
    ((t.wordStarts big).filter (offset < ·))[count - 1]?.getD t.length := by
  rw [wordForward, show max count 1 = count - 1 + 1 by omega]
  exact iterate_ascending (fun _ ↦ t.length) (t.places_sorted _) (t.nearestAbove_nextWord big)
    (fun _ _ ↦ ⟨fun q hq ↦ Nat.le_of_lt (mem_places.mp hq).1, rfl⟩) _ _

theorem wordForward_bounds (hlt : offset < t.length) (count : Nat) (big : Bool) :
    offset < t.wordForward offset count big ∧ t.wordForward offset count big ≤ t.length := by
  rw [wordForward_eq]
  cases hplace : ((t.wordStarts big).filter (offset < ·))[count - 1]? with
  | none => exact ⟨hlt, Nat.le_refl _⟩
  | some place =>
    obtain ⟨hmem, hbeyond⟩ := List.mem_filter.mp (List.mem_of_getElem? hplace)
    exact ⟨of_decide_eq_true hbeyond, Nat.le_of_lt (mem_places.mp hmem).1⟩

theorem wordBackward_eq (t : Text) (offset count : Nat) (big : Bool) : t.wordBackward offset count big =
    ((t.wordStarts big).filter (· < offset)).reverse[count - 1]?.getD 0 := by
  rw [wordBackward, show max count 1 = count - 1 + 1 by omega]
  exact iterate_descending (t.places_sorted _) (t.nearestBelow_previousWord big) _ _

/-- Forward and backward the motions to the start of a word go through the same places: the starts of
words and the empty lines. From each of them the step backward undoes the step forward. -/
theorem word_motions_enumerate_starts (t : Text) (big : Bool) :
    (∀ offset count, t.wordForward offset count big =
      ((t.wordStarts big).filter (offset < ·))[count - 1]?.getD t.length) ∧
    (∀ offset count, t.wordBackward offset count big =
      ((t.wordStarts big).filter (· < offset)).reverse[count - 1]?.getD 0) ∧
    ∀ q ∈ t.wordStarts big, t.wordBackward (t.wordForward q 1 big) 1 big = q := by
  refine ⟨fun offset count ↦ t.wordForward_eq offset count big,
    fun offset count ↦ t.wordBackward_eq offset count big, fun q hq ↦ ?_⟩
  have hforward : t.wordForward q 1 big = t.nextWord big q := iterate_one _ q
  have hbackward (offset : Nat) : t.wordBackward offset 1 big = t.previousWord big offset :=
    iterate_one _ offset
  rw [hforward, hbackward]
  refine (t.nearestBelow_previousWord big _).eq_of_isGreatest ?_
  rcases t.nearestAbove_nextWord big q with ⟨⟨-, hlt⟩, hleast⟩ | ⟨hlast, hend⟩
  · refine ⟨⟨hq, hlt⟩, fun x hx ↦ Nat.le_of_not_lt fun hbeyond ↦ ?_⟩
    exact Nat.not_le.mpr hx.2 (hleast ⟨hx.1, hbeyond⟩)
  · rw [hend]
    exact ⟨⟨hq, (mem_places.mp hq).1⟩, fun x hx ↦ hlast x hx.1⟩

/-- A word, punctuation, an empty line and a word behind blank: from the punctuation forward to the empty
line and back. -/
theorem back_from_empty_line :
    let t : Text := "ab.\n\n cd".toList
    t.wordStarts false = [0, 2, 4, 6] ∧ t.wordForward 2 1 false = 4 ∧
      t.wordBackward (t.wordForward 2 1 false) 1 false = 2 := by
  intro t
  have hforward : t.wordForward 2 1 false = 4 := by
    rw [(word_motions_enumerate_starts t false).1 2 1]
    decide +kernel
  exact ⟨by decide +kernel, hforward, (word_motions_enumerate_starts t false).2.2 2 (by decide +kernel)⟩

/-! ### To the end of a word -/

/-- Inside a run of one class no word ends and no line is empty. -/
theorem notMem_wordEndsAndEmptyLines_of_same (hclass : t.classAt big q ≠ .blank)
    (hsame : t.classAt big (q + 1) = t.classAt big q) : q ∉ t.wordEndsAndEmptyLines big := by
  rw [mem_wordEndsAndEmptyLines]
  rintro (hword | hempty)
  · exact hword.2 hsame
  · exact hclass hempty.classAt

theorem nextWordEndDistance_ahead (t : Text) (big : Bool) (start : Nat) :
    (nextWordEndDistance big (t.drop start) = 0 → ∀ q, start ≤ q → ¬t.EndsWord big q) ∧
    ∀ n, nextWordEndDistance big (t.drop start) = n + 1 →
      t.EndsWord big (start + n) ∧ ∀ q, start ≤ q → q < start + n → ¬t.EndsWord big q := by
  generalize hahead : t.drop start = ahead
  fun_induction nextWordEndDistance big ahead generalizing start with
  | case1 =>
    refine ⟨fun _ q hle hword ↦ ?_, fun n h ↦ absurd h.symm (Nat.succ_ne_zero n)⟩
    have hlt := lt_length_of_classAt hword.1
    have hend := List.drop_eq_nil_iff.mp hahead
    omega
  | case2 c rest hblank hzero ih =>
    obtain ⟨hc, hrest⟩ := charAt_of_drop hahead
    refine ⟨fun _ q hle hword ↦ ?_, fun n h ↦ absurd h.symm (Nat.succ_ne_zero n)⟩
    rcases Nat.eq_or_lt_of_le hle with rfl | hlater
    · exact hword.1 ((classAt_of_charAt hc).trans hblank)
    · exact (ih (start + 1) hrest).1 hzero q hlater hword
  | case3 c rest hblank distance hdistance ih =>
    obtain ⟨hc, hrest⟩ := charAt_of_drop hahead
    refine ⟨fun h ↦ absurd h (Nat.succ_ne_zero _), fun n h ↦ ?_⟩
    obtain rfl : distance + 1 = n := Nat.succ.inj h
    obtain ⟨hends, hpassed⟩ := (ih (start + 1) hrest).2 distance hdistance
    rw [Nat.add_comm distance 1, ← Nat.add_assoc]
    refine ⟨hends, fun q hle hlt hword ↦ ?_⟩
    rcases Nat.eq_or_lt_of_le hle with rfl | hlater
    · exact hword.1 ((classAt_of_charAt hc).trans hblank)
    · exact hpassed q hlater hlt hword
  | case4 c rest hword =>
    obtain ⟨hc, rfl⟩ := charAt_of_drop hahead
    obtain ⟨hrun, hstop⟩ := run_ahead hword t (start + 1)
    refine ⟨fun h ↦ absurd h (Nat.succ_ne_zero _), fun n h ↦ ?_⟩
    rw [Nat.succ.inj h] at hrun hstop
    have hrun (q : Nat) (hle : start ≤ q) (hlt : q ≤ start + n) :
        t.classAt big q = CharClass.ofChar big c := by
      rcases Nat.eq_or_lt_of_le hle with rfl | hlater
      · exact classAt_of_charAt hc
      · exact hrun q hlater (by omega)
    have hlast := hrun (start + n) (Nat.le_add_right _ _) (Nat.le_refl _)
    refine ⟨⟨hlast ▸ hword, ?_⟩, fun q hle hlt hends ↦ hends.2 ?_⟩
    · rw [hlast, Nat.add_right_comm]
      exact hstop
    · rw [hrun q hle (Nat.le_of_lt hlt), hrun (q + 1) (by omega) hlt]

/-- The step forward goes to the nearest end of a word behind the offset, and stays if there is none. -/
theorem nearestAbove_nextWordEnd (t : Text) (big : Bool) (offset : Nat) :
    NearestAbove (t.wordEnds big) offset offset (t.nextWordEnd big offset) := by
  obtain ⟨hnone, hnearest⟩ := t.nextWordEndDistance_ahead big (offset + 1)
  rw [nextWordEnd]
  cases hdistance : nextWordEndDistance big (t.drop (offset + 1)) with
  | zero =>
    refine .inr ⟨fun q hq ↦ Nat.le_of_not_lt fun hlt ↦ ?_, Nat.add_zero offset⟩
    exact hnone hdistance q hlt (mem_wordEnds.mp hq)
  | succ n =>
    obtain ⟨hends, hpassed⟩ := hnearest n hdistance
    rw [Nat.add_comm n 1, ← Nat.add_assoc]
    exact nearestAbove_of_passed (by omega) (mem_wordEnds.mpr hends) fun q hq hqn hmem ↦
      hpassed q hq hqn (mem_wordEnds.mp hmem)

/-- Where there is a word or an empty line. -/
def wordsAndEmptyLines (t : Text) (big : Bool) : List Nat :=
  t.places fun offset ↦ t.classAt big offset ≠ .blank ∨ t.EmptyLine offset

theorem mem_wordsAndEmptyLines : offset ∈ t.wordsAndEmptyLines big ↔
    t.classAt big offset ≠ .blank ∨ t.EmptyLine offset := by
  rw [wordsAndEmptyLines, mem_places, and_iff_right_iff_imp]
  rintro (hword | hempty)
  · exact lt_length_of_classAt hword
  · exact hempty.lt_length

theorem nearestBelow_lastWordEnd (t : Text) (big : Bool) (offset : Nat) :
    NearestBelow (t.wordsAndEmptyLines big) offset (lastWordEnd big (t.before offset)) := by
  induction offset with
  | zero => exact nearestBelow_zero _
  | succ last ih =>
    cases hc : t.charAt last with
    | none =>
      rw [before_of_none hc]
      exact ih.succ fun hmem ↦ absurd hc (charAt_ne_none_of_mem_places hmem)
    | some c =>
      have hle := Nat.le_of_lt (lt_length_of_charAt hc)
      rw [before_of_charAt hc, lastWordEnd, ← classAt_of_charAt hc]
      split
      · next hpassed =>
        refine ih.succ fun hmem ↦ Nat.eq_zero_of_not_pos fun hpos ↦
          hpassed.2 ((feeds_iff hc).mpr ⟨?_, hpos⟩)
        exact (mem_wordsAndEmptyLines.mp hmem).resolve_left fun hword ↦ hword hpassed.1
      · next hstops =>
        rw [length_before hle]
        refine nearestBelow_of_passed (Nat.lt_succ_self _) ?_ fun q hq hqo ↦ by omega
        rw [mem_wordsAndEmptyLines]
        by_cases hblank : t.classAt big last = .blank
        · have hfeeds := Decidable.not_not.mp fun hfeeds ↦ hstops ⟨hblank, hfeeds⟩
          exact .inr ((feeds_iff hc).mp hfeeds).1
        · exact .inl hblank

/-- From where no word goes on, the nearest word or empty line before is the end of a word or an empty
line. -/
theorem NearestBelow.wordEnds {start place : Nat}
    (h : NearestBelow (t.wordsAndEmptyLines big) start place)
    (hedge : ∀ q, q + 1 = start → t.classAt big q ≠ .blank → t.classAt big (q + 1) ≠ t.classAt big q) :
    NearestBelow (t.wordEndsAndEmptyLines big) start place := by
  have hsubset (q : Nat) (hq : q ∈ t.wordEndsAndEmptyLines big) : q ∈ t.wordsAndEmptyLines big :=
    mem_wordsAndEmptyLines.mpr ((mem_wordEndsAndEmptyLines.mp hq).imp_left And.left)
  rcases h with ⟨⟨hplace, hlt⟩, hgreatest⟩ | ⟨hnone, hzero⟩
  · refine .inl ⟨⟨?_, hlt⟩, fun q hq ↦ hgreatest ⟨hsubset q hq.1, hq.2⟩⟩
    refine mem_wordEndsAndEmptyLines.mpr
      ((mem_wordsAndEmptyLines.mp hplace).imp_left fun hword ↦ ⟨hword, ?_⟩)
    rcases Nat.eq_or_lt_of_le hlt with hlast | hinside
    · exact hedge place hlast hword
    · intro hsame
      have hnext : place + 1 ∈ t.wordsAndEmptyLines big :=
        mem_wordsAndEmptyLines.mpr (.inl (hsame ▸ hword))
      exact Nat.not_succ_le_self place (hgreatest ⟨hnext, hinside⟩)
  · exact .inr ⟨fun q hq ↦ hnone q (hsubset q hq), hzero⟩

/-- The step backward goes to the nearest end of a word or empty line before the offset. -/
theorem nearestBelow_previousWordEnd (t : Text) (big : Bool) (offset : Nat) :
    NearestBelow (t.wordEndsAndEmptyLines big) offset (t.previousWordEnd big offset) := by
  have hfromBlank (hblank : t.classAt big offset = .blank) :
      NearestBelow (t.wordEndsAndEmptyLines big) offset (lastWordEnd big (t.before offset)) := by
    refine (t.nearestBelow_lastWordEnd big offset).wordEnds ?_
    rintro q rfl hword hsame
    exact hword (hsame.symm.trans hblank)
  unfold previousWordEnd
  split
  · next hnone => exact hfromBlank (classAt_of_none hnone)
  · next c hc =>
    have hclass : t.classAt big offset = CharClass.ofChar big c := classAt_of_charAt hc
    split
    · next hblank => exact hfromBlank (hclass.trans hblank)
    · next hword =>
      obtain ⟨start, hstart, hdrop, hrun, hstop⟩ := exists_word_behind big hc
      rw [hdrop]
      refine ((t.nearestBelow_lastWordEnd big start).wordEnds ?_).of_passed hstart fun q hq hqo ↦ ?_
      · rintro q rfl - hsame
        exact hstop q rfl (hsame.symm.trans (hrun _ (Nat.le_refl _) hstart))
      · have hhere := hrun q hq (Nat.le_of_lt hqo)
        exact notMem_wordEndsAndEmptyLines_of_same (hhere ▸ hword)
          ((hrun (q + 1) (Nat.le_succ_of_le hq) hqo).trans hhere.symm)

theorem iterate_nextWordEnd (t : Text) (big : Bool) (count offset : Nat) :
    iterate (t.nextWordEnd big) (count + 1) offset =
      ((t.wordEnds big).filter (offset < ·))[count]?.getD
        (((t.wordEnds big).filter (offset < ·)).getLastD offset) :=
  iterate_ascending (fun offset ↦ offset) (t.wordEnds_sorted big) (t.nearestAbove_nextWordEnd big)
    (fun _ hlast ↦ ⟨hlast, rfl⟩) count offset

theorem wordEnd_eq (t : Text) (offset count : Nat) (big : Bool) :
    t.wordEnd offset count big false =
      ((t.wordEnds big).filter (min offset (t.length - 1) < ·))[count - 1]?.getD
        (((t.wordEnds big).filter (min offset (t.length - 1) < ·)).getLastD
          (min offset (t.length - 1))) := by
  rw [wordEnd, Bool.false_and, if_neg Bool.false_ne_true, show max count 1 = count - 1 + 1 by omega]
  exact t.iterate_nextWordEnd big _ _

/-- Where an end at the offset takes up the first of the count, the ends from the offset on are gone
through. -/
theorem wordEnd_stopping_eq (hlt : offset < t.length) (count : Nat) (big : Bool) :
    t.wordEnd offset count big true = ((t.wordEnds big).filter (offset ≤ ·))[count - 1]?.getD
      (((t.wordEnds big).filter (offset ≤ ·)).getLastD offset) := by
  have hends : t.isWordEnd offset big = true ↔ offset ∈ t.wordEnds big :=
    isWordEnd_iff.trans mem_wordEnds.symm
  rw [wordEnd, Nat.min_eq_left (Nat.le_sub_one_of_lt hlt), Bool.true_and,
    filter_le_eq (t.wordEnds_sorted big)]
  by_cases hmem : offset ∈ t.wordEnds big
  · rw [if_pos (hends.mpr hmem), if_pos hmem, show max count 1 - 1 = count - 1 by omega]
    cases count - 1 with
    | zero => rfl
    | succ n => rw [iterate_nextWordEnd, List.getElem?_cons_succ, List.getLastD_cons]
  · rw [if_neg fun hend ↦ hmem (hends.mp hend), if_neg hmem, show max count 1 = count - 1 + 1 by omega,
      iterate_nextWordEnd]

theorem wordEndBackward_eq (t : Text) (offset count : Nat) (big : Bool) :
    t.wordEndBackward offset count big =
      ((t.wordEndsAndEmptyLines big).filter (· < offset)).reverse[count - 1]?.getD 0 := by
  rw [wordEndBackward, show max count 1 = count - 1 + 1 by omega]
  exact iterate_descending (t.places_sorted _) (t.nearestBelow_previousWordEnd big) _ _

/-- Forward the motions to the end of a word go through the ends of words, and stay at the last; backward
they go through the ends of words and the empty lines. -/
theorem end_motions_enumerate_ends (t : Text) (big : Bool) :
    (∀ offset count,
      let start := min offset (t.length - 1)
      let ends := (t.wordEnds big).filter (start < ·)
      t.wordEnd offset count big false = ends[count - 1]?.getD (ends.getLastD start)) ∧
    ∀ offset count, t.wordEndBackward offset count big =
      ((t.wordEndsAndEmptyLines big).filter (· < offset)).reverse[count - 1]?.getD 0 :=
  ⟨fun offset count ↦ t.wordEnd_eq offset count big,
    fun offset count ↦ t.wordEndBackward_eq offset count big⟩

end ModalEdit.Text
