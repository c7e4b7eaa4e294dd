import ModalEdit.Proofs.LineGeometry
import ModalEdit.Text.Step

/-!
Where carets come to rest. An offset is drawn back onto its line and no further, so normalizing it
twice is normalizing it once (`Text.normalize_normalize`); without the line's end allowed, it stays
exactly if it is on a character of the content of its line or at the start of the line
(`Text.normalize_eq_self_iff`). The indent of a line is such an offset but for blank lines, of which
it is the end (`Text.rests_indentOfLine`). What is spanned by a selection lies in the text
(`Span.selection_stop_le`).
-/

set_option autoImplicit false
set_option relaxedAutoImplicit false

namespace ModalEdit.Text

variable {t : Text} {line offset : Nat} {allowEnd : Bool}

theorem lineStart_le_lineEnd (t : Text) (line : Nat) :
    t.lineStart line ≤ t.lineEnd line := Nat.le_add_right _ _

theorem lineEnd_le_lineOffset_succ (h : line < t.lineCount) :
    t.lineEnd line ≤ t.lineOffset (line + 1) := by
  rw [lineEnd_eq h, lineOffset_succ h]
  exact Nat.add_le_add_left (contentLength_le _) _

theorem lineEnd_le_length (h : line < t.lineCount) : t.lineEnd line ≤ t.length := by
  rw [← t.lineOffset_lineCount]
  exact Nat.le_trans (lineEnd_le_lineOffset_succ h) (t.lineOffset_mono h)

theorem lineStart_lineOf_le (t : Text) (offset : Nat) : t.lineStart (t.lineOf offset) ≤ offset := by
  rw [lineStart_eq_lineOffset (t.lineOf_lt offset)]
  exact t.lineOffset_lineOf_le offset

/-- What is between the start of a line and an offset on it is on the line. -/
theorem lineOf_eq_of_le {place : Nat} (hstart : t.lineStart (t.lineOf offset) ≤ place)
    (hle : place ≤ offset) :
    t.lineOf place = t.lineOf offset := by
  refine Nat.le_antisymm (t.lineOf_mono hle) (le_lineOf (t.lineOf_lt offset) ?_)
  rwa [← lineStart_eq_lineOffset (t.lineOf_lt offset)]

/-! ### The characters of a line -/

/-- A line feed ends its line. -/
theorem feed_notMem_dropLast (t : Text) : ∀ l ∈ t.splitLines, '\n' ∉ l.dropLast := by
  fun_induction splitLines t with
  | case1 => exact fun _ h ↦ absurd h List.not_mem_nil
  | case2 rest ih => exact List.forall_mem_cons.mpr ⟨by decide, ih⟩
  | case3 c rest _ _ ih => exact List.forall_mem_cons.mpr ⟨List.not_mem_nil, ih⟩
  | case4 c rest _ _ _ _ => exact List.forall_mem_singleton.mpr List.not_mem_nil
  | case5 c rest _ hbreak line others hsplit ih =>
    rw [hsplit, List.forall_mem_cons] at ih
    refine List.forall_mem_cons.mpr ⟨?_, ih.2⟩
    have hne : line ≠ [] :=
      ne_nil_of_mem_splitLines (t := rest) (by rw [hsplit]; exact List.mem_cons_self)
    rw [List.dropLast_cons_of_ne_nil hne, List.mem_cons, not_or]
    exact ⟨fun hfeed ↦ hbreak (hfeed ▸ rfl), ih.1⟩

theorem feed_notMem_dropLast_lineAt {line : Nat} (h : line < t.lineCount) :
    '\n' ∉ (t.lineAt line).dropLast := by
  have hmem := lineAt_mem_lines h
  unfold lines at hmem
  split at hmem
  · rw [List.mem_singleton.mp hmem]
    exact List.not_mem_nil
  · next hsplit => exact t.feed_notMem_dropLast _ (by rwa [hsplit])

theorem lt_lineOffset_succ_lineOf (h : offset < t.length) :
    offset < t.lineOffset (t.lineOf offset + 1) := by
  have hline := t.lineOf_lt offset
  rcases Nat.lt_or_ge (t.lineOf offset + 1) t.lineCount with hnext | hcount
  · exact lt_lineOffset_lineOf hnext
  · rwa [show t.lineOf offset + 1 = t.lineCount by omega, lineOffset_lineCount]

/-- What is short of the end of its line is on a character other than a line feed. -/
theorem lt_lineEnd_iff :
    offset < t.lineEnd (t.lineOf offset) ↔ ∃ c, t.charAt offset = some c ∧ c ≠ '\n' := by
  have hline := t.lineOf_lt offset
  have hlast := feed_notMem_dropLast_lineAt hline
  have hle := t.lineOffset_lineOf_le offset
  have hsucc := lineOffset_succ hline
  obtain ⟨n, hn⟩ : ∃ n, offset = t.lineOffset (t.lineOf offset) + n :=
    ⟨_, (Nat.add_sub_cancel' hle).symm⟩
  have hchar (hlt : n < (t.lineAt (t.lineOf offset)).length) :
      t.charAt offset = (t.lineAt (t.lineOf offset))[n]? := by
    conv_lhs => rw [hn]
    exact charAt_lineOffset_add hline hlt
  rw [lineEnd_eq hline]
  generalize t.lineAt (t.lineOf offset) = l at *
  constructor
  · intro hlt
    have hshort : n < contentLength l := by omega
    have hlong := Nat.lt_of_lt_of_le hshort (contentLength_le l)
    refine ⟨l[n], (hchar hlong).trans (List.getElem?_eq_getElem hlong), fun hfeed ↦ ?_⟩
    rcases Nat.lt_or_ge n (l.length - 1) with hfront | hback
    · refine hlast ?_
      rw [← hfeed, ← List.getElem_dropLast (by rwa [List.length_dropLast])]
      exact List.getElem_mem _
    · have hends : l.getLast? = some '\n' := by
        rw [List.getLast?_eq_getElem?, show l.length - 1 =
          n by omega, List.getElem?_eq_getElem hlong, hfeed]
      have := contentLength_of_feed hends
      omega
  · rintro ⟨c, hc, hne⟩
    have hlt := lt_lineOffset_succ_lineOf (List.getElem?_eq_some_iff.mp hc).1
    have hlong : n < l.length := by omega
    rw [hchar hlong] at hc
    by_cases hends : l.getLast? = some '\n'
    · have hlength := contentLength_of_feed hends
      have hback : n ≠ l.length - 1 := by
        rintro rfl
        rw [← List.getLast?_eq_getElem?, hends] at hc
        exact hne (Option.some.inj hc).symm
      omega
    · rw [contentLength, if_neg hends]
      omega

theorem lineOf_eq_of_lt_lineEnd {place : Nat} (hle : offset ≤ place)
    (hlt : place < t.lineEnd (t.lineOf offset)) :
    t.lineOf place = t.lineOf offset := by
  have hline := t.lineOf_lt offset
  exact (lineOf_eq_iff hline).mpr ⟨Nat.le_trans (t.lineOffset_lineOf_le offset) hle,
    fun _ ↦ Nat.lt_of_lt_of_le hlt (lineEnd_le_lineOffset_succ hline)⟩

/-! ### Normalized offsets -/

theorem normalize_eq_min (t : Text) (offset : Nat) (allowEnd : Bool) :
    t.normalize offset allowEnd = min offset (t.lastCaretOffset (t.lineOf offset) allowEnd) := by
  have hstart := t.lineStart_lineOf_le offset
  have hend := t.lineStart_le_lineEnd (t.lineOf offset)
  unfold normalize lastCaretOffset
  dsimp only
  split <;> omega

theorem normalize_le (t : Text) (offset : Nat) (allowEnd : Bool) :
    t.normalize offset allowEnd ≤ offset := by
  rw [normalize_eq_min]
  exact Nat.min_le_left _ _

/-- Where the end of a line is allowed, what is on a character stays. -/
theorem normalize_end_of_lt (h : offset < t.length) : t.normalize offset true = offset := by
  have hline := t.lineOf_lt offset
  have hnext := lt_lineOffset_succ_lineOf h
  have hcontent : (t.lineAt (t.lineOf offset)).length ≤
      contentLength (t.lineAt (t.lineOf offset)) + 1 := by
    unfold contentLength
    split <;> omega
  rw [lineOffset_succ hline] at hnext
  rw [normalize_eq_min]
  refine Nat.min_eq_left ?_
  show offset ≤ t.lineEnd _
  rw [lineEnd_eq hline]
  omega

/-- The end of a text that ends in a line feed is drawn back before it. -/
theorem normalize_end_of_feed (h : t.getLast? = some '\n') :
    t.normalize t.length true = t.length - 1 := by
  have hne : t ≠ [] := by
    rintro rfl
    cases h
  have hlt := lineOffset_lastLine_lt hne
  have hline : t.lastLine < t.lineCount := t.lastLine_add_one ▸ Nat.lt_succ_self _
  have hlast : t.lineOf t.length = t.lastLine := lineOf_eq_lastLine_iff.mpr (Nat.le_of_lt hlt)
  have hrest : t.drop (t.lineOffset t.lastLine) = t.lineAt t.lastLine := by
    rw [drop_lineOffset_eq_append hline, lastLine_add_one, lineOffset_lineCount, List.drop_length,
      List.append_nil]
  have hfeed : (t.lineAt t.lastLine).getLast? = some '\n' := by
    rw [← hrest, List.getLast?_drop, if_neg (Nat.not_le.mpr hlt), h]
  have hcontent := contentLength_of_feed hfeed
  have hlength := congrArg List.length hrest
  rw [List.length_drop] at hlength
  rw [normalize_eq_min, hlast]
  show min t.length (t.lineEnd t.lastLine) = t.length - 1
  rw [lineEnd_eq hline]
  omega

theorem lineOf_normalize (t : Text) (offset : Nat) (allowEnd : Bool) :
    t.lineOf (t.normalize offset allowEnd) = t.lineOf offset :=
  lineOf_eq_of_le (Nat.le_max_left _ _) (t.normalize_le offset allowEnd)

theorem normalize_normalize (t : Text) (offset : Nat) (allowEnd : Bool) :
    t.normalize (t.normalize offset allowEnd) allowEnd = t.normalize offset allowEnd := by
  rw [t.normalize_eq_min (t.normalize offset allowEnd), lineOf_normalize, normalize_eq_min,
    Nat.min_assoc, Nat.min_self]

/-- Drawing offsets onto their lines keeps their order. -/
theorem normalize_mono (t : Text) (allowEnd : Bool) {a b : Nat} (hab : a ≤ b) :
    t.normalize a allowEnd ≤ t.normalize b allowEnd := by
  rcases Nat.eq_or_lt_of_le (t.lineOf_mono hab) with hsame | hlater
  · rw [normalize_eq_min, normalize_eq_min, hsame]
    omega
  · have hline := t.lineOf_lt b
    have hcount : t.lineOf a + 1 < t.lineCount := by omega
    calc t.normalize a allowEnd
      _ ≤ a := t.normalize_le a allowEnd
      _ ≤ t.lineOffset (t.lineOf a + 1) := Nat.le_of_lt (lt_lineOffset_lineOf hcount)
      _ ≤ t.lineOffset (t.lineOf b) := t.lineOffset_mono hlater
      _ = t.lineStart (t.lineOf b) := (lineStart_eq_lineOffset hline).symm
      _ ≤ t.normalize b allowEnd := Nat.le_max_left _ _

/-- An offset on the content of its line stays, and so does the start of a line. -/
theorem normalize_eq_self_iff : t.normalize offset false = offset ↔
    offset < t.lineEnd (t.lineOf offset) ∨ offset = t.lineStart (t.lineOf offset) := by
  have hstart := t.lineStart_lineOf_le offset
  rw [normalize_eq_min, lastCaretOffset, if_neg Bool.false_ne_true]
  omega

theorem normalize_of_lt_lineEnd (h : offset < t.lineEnd (t.lineOf offset)) :
    t.normalize offset false = offset :=
  normalize_eq_self_iff.mpr (.inl h)

/-- But for the empty text, a caret is short of its end. -/
theorem le_length_sub_one (h : t.normalize offset false = offset) :
    offset ≤ t.length - 1 := by
  have hline := t.lineOf_lt offset
  rcases normalize_eq_self_iff.mp h with hlt | hstart
  · have hend := lineEnd_le_length hline
    omega
  · rw [lineStart_eq_lineOffset hline] at hstart
    by_cases hnil : t = []
    · subst hnil
      have hzero : lineOffset [] (lineOf [] offset) ≤ lineOffset [] (lineCount []) :=
        lineOffset_mono [] (Nat.le_of_lt hline)
      rw [lineOffset_lineCount] at hzero
      exact Nat.le_trans (Nat.le_of_eq hstart) hzero
    · have hnext := lineOffset_lt_succ hnil hline
      have hlast : t.lineOffset (t.lineOf offset + 1) ≤ t.lineOffset t.lineCount :=
        t.lineOffset_mono hline
      rw [lineOffset_lineCount] at hlast
      omega

theorem normalize_le_length (t : Text) (offset : Nat) (allowEnd : Bool) :
    t.normalize offset allowEnd ≤ t.length := by
  have hend := lineEnd_le_length (t.lineOf_lt offset)
  have hstart := t.lineStart_le_lineEnd (t.lineOf offset)
  rw [normalize_eq_min, lastCaretOffset]
  split <;> omega

/-! ### Blank lines -/

/-- Past the last character of a line that has some blanks and nothing else. -/
structure AtBlankEnd (t : Text) (offset : Nat) : Prop where
  pastStart : t.lineStart (t.lineOf offset) < offset
  atEnd : offset = t.lineEnd (t.lineOf offset)
  blank : ∀ c ∈ t.lineText (t.lineOf offset), c = ' ' ∨ c = '\t'

/-- A normalized offset, or one at the end of a blank line. -/
def Rests (t : Text) (offset : Nat) : Prop :=
  t.normalize offset false = offset ∨ t.AtBlankEnd offset

theorem AtBlankEnd.normalize_ne (h : t.AtBlankEnd offset) : t.normalize offset false ≠ offset := by
  have hpast := h.pastStart
  have hend := h.atEnd
  rw [Ne, normalize_eq_self_iff]
  omega

theorem Rests.normalize_eq_iff (h : t.Rests offset) :
    t.normalize offset false = offset ↔ ¬ t.AtBlankEnd offset :=
  ⟨fun heq hblank ↦ hblank.normalize_ne heq, h.resolve_right⟩

theorem Rests.le_length (h : t.Rests offset) : offset ≤ t.length := by
  rcases h with hnormal | hblank
  · rw [← hnormal]
    exact t.normalize_le_length offset false
  · rw [hblank.atEnd]
    exact lineEnd_le_length (t.lineOf_lt offset)

theorem rests_normalize (t : Text) (offset : Nat) : t.Rests (t.normalize offset false) :=
  .inl (t.normalize_normalize offset false)

/-- The indent of a line is where a caret rests, if need be at the end of a blank line. -/
theorem rests_indentOfLine (t : Text) (offset : Nat) : t.Rests (t.indentOfLine offset) := by
  have hline := t.lineOf_lt offset
  have hsame : t.lineOf (t.indentOfLine offset) = t.lineOf offset := lineOf_firstNonBlank hline
  have hend : t.indentOfLine offset ≤ t.lineEnd (t.lineOf offset) := t.firstNonBlank_le_lineEnd _
  have hstart : t.lineStart (t.lineOf offset) ≤ t.indentOfLine offset := Nat.le_add_right _ _
  rcases Nat.lt_or_eq_of_le hend with hlt | heq
  · exact .inl (normalize_eq_self_iff.mpr (.inl (hsame.symm ▸ hlt)))
  · rcases Nat.lt_or_eq_of_le hstart with hpast | hfirst
    · refine .inr ⟨?_, ?_, ?_⟩
      · rwa [hsame]
      · rwa [hsame]
      · rw [hsame]
        exact (firstNonBlank_eq_lineEnd_iff hline).mp heq
    · exact .inl (normalize_eq_self_iff.mpr (.inr (by rw [hsame, hfirst])))

end ModalEdit.Text

namespace ModalEdit.Span

open Text

variable {t : Text} {offset : Nat}

theorem inclusiveEnd_eq_self (h : ¬ ∃ c ≠ '\n', t.charAt offset = some c) :
    inclusiveEnd t offset = offset := by
  unfold inclusiveEnd
  split
  · rfl
  · rfl
  · next c hfeed hc => exact absurd ⟨c, hfeed, hc⟩ h

theorem inclusiveEnd_eq_succ {c : Char} (hne : c ≠ '\n') (hc : t.charAt offset = some c) :
    inclusiveEnd t offset = offset + 1 := by
  unfold inclusiveEnd
  rw [hc]
  split
  · next hnone => cases hnone
  · next hfeed => exact absurd (Option.some.inj hfeed) hne
  · rfl

theorem inclusiveEnd_of_lt_lineEnd (h : offset < t.lineEnd (t.lineOf offset)) :
    inclusiveEnd t offset = offset + 1 := by
  obtain ⟨c, hc, hne⟩ := lt_lineEnd_iff.mp h
  exact inclusiveEnd_eq_succ hne hc

theorem pastLineFeed_le (h : offset ≤ t.length) :
    pastLineFeed t offset ≤ t.length := by
  unfold pastLineFeed
  split
  · next hchar => exact (List.getElem?_eq_some_iff.mp hchar).1
  · exact h

theorem linesOf_stop_le (t : Text) (a b : Nat) : (linesOf t a b).stop ≤ t.length := by
  have hline (x y : Nat) : x < t.lineCount → y < t.lineCount → t.lineStart (min x y) ≤ t.length ∧
      pastLineFeed t (t.lineEnd (max x y)) ≤ t.length := by
    intro hx hy
    have hmin : min x y < t.lineCount := Nat.lt_of_le_of_lt (Nat.min_le_left x y) hx
    have hmax : max x y < t.lineCount := Nat.max_lt.mpr ⟨hx, hy⟩
    exact ⟨Nat.le_trans (t.lineStart_le_lineEnd _) (lineEnd_le_length hmin),
      pastLineFeed_le (lineEnd_le_length hmax)⟩
  obtain ⟨hstart, hstop⟩ := hline _ _ (t.lineOf_lt a) (t.lineOf_lt b)
  exact Nat.max_le.mpr ⟨hstart, hstop⟩

/-- A selection lies in the text if its caret does, wherever its other end is. -/
theorem selection_stop_le {head : Nat} (hhead : head ≤ t.length) (anchor : Nat)
    (kind : SelectionKind) (selectMode forceLines : Bool) :
    (selection t anchor head kind selectMode forceLines).stop ≤ t.length := by
  unfold selection
  cases kind with
  | line => exact linesOf_stop_le t _ _
  | character =>
    dsimp only
    split
    · exact linesOf_stop_le t _ _
    · split <;> simp only [TextRange.between] <;> omega
  | block =>
    simp only [TextRange.between]
    omega

end ModalEdit.Span
