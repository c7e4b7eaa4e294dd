import Mathlib.Data.List.Basic
import Mathlib.Data.List.TakeWhile
import ModalEdit.Span.Basic

/-!
Where lines lie. The lines of a text put together are the text (`Text.lines_flatten`), so line number `l`
reaches from `Text.lineOffset t l` up to that of the next, and an offset is on the line that reaches over
it (`lineOf_eq_iff`). Where the line feed is the only break, the span of a line is the line with its line
feed (`Span.lines_self`), and the break before a line is a line feed (`charAt_lineOffset_sub_one`).
-/

set_option autoImplicit false
set_option relaxedAutoImplicit false

namespace ModalEdit.Text

/-- The line feed is the only line break of the text. -/
def FeedsOnly (t : Text) : Prop := ∀ c ∈ t, isLineBreak c = true → c = '\n'

instance (t : Text) : Decidable t.FeedsOnly :=
  List.decidableBAll (fun c ↦ isLineBreak c = true → c = '\n') t

/-- The offset at which a line begins; past the last line, the end of the text. -/
def lineOffset (t : Text) (line : Nat) : Nat := (t.lines.take line).flatten.length

/-- The span of a line, with its line break. -/
def lineRange (t : Text) (line : Nat) : TextRange :=
  .between (t.lineOffset line) (t.lineOffset (line + 1)) .linewise

section Lines

variable {t : Text} {line offset : Nat}

theorem splitLines_flatten (t : Text) : t.splitLines.flatten = t := by
  fun_induction splitLines t with
  | case1 => rfl
  | case2 rest ih => rw [List.flatten_cons, ih]; rfl
  | case3 c rest _ _ ih => rw [List.flatten_cons, ih]; rfl
  | case4 c rest _ _ hnil ih =>
    rw [hnil] at ih
    rw [← ih]
    rfl
  | case5 c rest _ _ line others hcons ih =>
    rw [hcons] at ih
    rw [← ih]
    rfl

theorem lines_flatten (t : Text) : t.lines.flatten = t := by
  have hsplit := t.splitLines_flatten
  unfold lines
  split
  · next hnil => rw [← hsplit, hnil]; rfl
  · next hcons => rw [← hcons, hsplit]

theorem lines_ne_nil (t : Text) : t.lines ≠ [] := by
  unfold lines
  split <;> exact List.cons_ne_nil _ _

theorem lineCount_pos (t : Text) : 0 < t.lineCount := List.length_pos_of_ne_nil t.lines_ne_nil

theorem ne_nil_of_mem_splitLines {l : Text} (h : l ∈ t.splitLines) : l ≠ [] := by
  fun_induction splitLines t with
  | case1 => exact absurd h List.not_mem_nil
  | case2 rest ih =>
    rcases List.mem_cons.mp h with rfl | h
    · exact List.cons_ne_nil _ _
    · exact ih h
  | case3 c rest _ _ ih =>
    rcases List.mem_cons.mp h with rfl | h
    · exact List.cons_ne_nil _ _
    · exact ih h
  | case4 c rest _ _ hnil ih =>
    rw [List.mem_singleton.mp h]
    exact List.cons_ne_nil _ _
  | case5 c rest _ _ line others hcons ih =>
    rcases List.mem_cons.mp h with rfl | h
    · exact List.cons_ne_nil _ _
    · exact ih (hcons ▸ List.mem_cons_of_mem _ h)

/-- Every line but the last ends in its break. -/
theorem exists_break_of_mem_dropLast (t : Text) :
    ∀ l ∈ t.splitLines.dropLast, ∃ c, l.getLast? = some c ∧ isLineBreak c = true := by
  fun_induction splitLines t with
  | case1 => exact fun _ h ↦ absurd h List.not_mem_nil
  | case2 rest ih =>
    cases hsplit : splitLines rest with
    | nil => exact fun _ h ↦ absurd h List.not_mem_nil
    | cons first others =>
      rw [List.dropLast_cons_of_ne_nil (List.cons_ne_nil _ _), List.forall_mem_cons, ← hsplit]
      exact ⟨⟨'\n', rfl, by decide⟩, ih⟩
  | case3 c rest _ hc ih =>
    cases hsplit : splitLines rest with
    | nil => exact fun _ h ↦ absurd h List.not_mem_nil
    | cons first others =>
      rw [List.dropLast_cons_of_ne_nil (List.cons_ne_nil _ _), List.forall_mem_cons, ← hsplit]
      exact ⟨⟨c, rfl, hc⟩, ih⟩
  | case4 c rest _ _ hnil ih => exact fun _ h ↦ absurd h List.not_mem_nil
  | case5 c rest _ _ first others hcons ih =>
    cases others with
    | nil => exact fun _ h ↦ absurd h List.not_mem_nil
    | cons second others =>
      rw [hcons, List.dropLast_cons_of_ne_nil (List.cons_ne_nil _ _), List.forall_mem_cons] at ih
      obtain ⟨⟨last, hlast, hbreak⟩, hothers⟩ := ih
      rw [List.dropLast_cons_of_ne_nil (List.cons_ne_nil _ _), List.forall_mem_cons, List.getLast?_cons, hlast]
      exact ⟨⟨last, rfl, hbreak⟩, hothers⟩

/-! ### Where lines begin -/

theorem lineOffset_mono (t : Text) {first last : Nat} (hle : first ≤ last) :
    t.lineOffset first ≤ t.lineOffset last := by
  obtain ⟨rest, hrest⟩ := List.take_prefix_take_left (l := t.lines) hle
  rw [lineOffset, lineOffset, ← hrest, List.flatten_append, List.length_append]
  exact Nat.le_add_right _ _

theorem lineOffset_zero (t : Text) : t.lineOffset 0 = 0 := rfl

theorem lineOffset_lineCount (t : Text) : t.lineOffset t.lineCount = t.length := by
  rw [lineOffset, lineCount, List.take_length, lines_flatten]

theorem drop_lineOffset (t : Text) (line : Nat) :
    t.drop (t.lineOffset line) = (t.lines.drop line).flatten := by
  have hsplit : t = (t.lines.take line).flatten ++ (t.lines.drop line).flatten := by
    rw [← List.flatten_append, List.take_append_drop, lines_flatten]
  calc t.drop (t.lineOffset line)
    _ = ((t.lines.take line).flatten ++ (t.lines.drop line).flatten).drop (t.lineOffset line) := by
      rw [← hsplit]
    _ = (t.lines.drop line).flatten := List.drop_left

theorem lineStart_eq_lineOffset (h : line < t.lineCount) : t.lineStart line = t.lineOffset line := by
  rw [lineStart, lastLine, Nat.min_eq_left (Nat.le_sub_one_of_lt h)]
  rfl

theorem getElem?_lines (h : line < t.lineCount) : t.lines[line]? = some (t.lineAt line) := by
  have hlt : line < t.lines.length := h
  rw [lineAt, lastLine, Nat.min_eq_left (Nat.le_sub_one_of_lt h), List.getElem?_eq_getElem hlt,
    Option.getD_some]

theorem lines_take_succ (h : line < t.lineCount) :
    t.lines.take (line + 1) = t.lines.take line ++ [t.lineAt line] := by
  rw [List.take_add_one, getElem?_lines h, Option.toList_some]

theorem lineOffset_succ (h : line < t.lineCount) :
    t.lineOffset (line + 1) = t.lineOffset line + (t.lineAt line).length := by
  rw [lineOffset, lines_take_succ h, List.flatten_append, List.length_append, List.flatten_singleton]
  rfl

theorem drop_lineOffset_eq_append (h : line < t.lineCount) :
    t.drop (t.lineOffset line) = t.lineAt line ++ t.drop (t.lineOffset (line + 1)) := by
  obtain ⟨hlt, hline⟩ := List.getElem?_eq_some_iff.mp (getElem?_lines h)
  rw [drop_lineOffset, drop_lineOffset, List.drop_eq_getElem_cons hlt, hline, List.flatten_cons]

/-- A line is read behind its offset. -/
theorem charAt_lineOffset_add (h : line < t.lineCount) {n : Nat} (hn : n < (t.lineAt line).length) :
    t.charAt (t.lineOffset line + n) = (t.lineAt line)[n]? := by
  rw [charAt, ← List.getElem?_drop, drop_lineOffset_eq_append h, List.getElem?_append_left hn]

theorem lineAt_mem_lines (h : line < t.lineCount) : t.lineAt line ∈ t.lines :=
  List.mem_of_getElem? (getElem?_lines h)

/-- Only the empty text has no line that it could be cut into. -/
theorem lines_eq_splitLines (hne : t ≠ []) : t.lines = t.splitLines := by
  unfold lines
  split
  · next hnil =>
    have hflat := t.splitLines_flatten
    rw [hnil] at hflat
    exact absurd hflat.symm hne
  · next hcons => exact hcons.symm

theorem length_lineAt_pos (hne : t ≠ []) (h : line < t.lineCount) : 0 < (t.lineAt line).length := by
  have hmem := lineAt_mem_lines h
  rw [lines_eq_splitLines hne] at hmem
  exact List.length_pos_of_ne_nil (ne_nil_of_mem_splitLines hmem)

theorem lineOffset_lt_succ (hne : t ≠ []) (h : line < t.lineCount) :
    t.lineOffset line < t.lineOffset (line + 1) := by
  have hpos := length_lineAt_pos hne h
  rw [lineOffset_succ h]
  omega

theorem lineOffset_pos_iff (hne : t ≠ []) (h : line < t.lineCount) :
    0 < t.lineOffset line ↔ 0 < line := by
  cases line with
  | zero => exact Iff.rfl
  | succ line =>
    have hstep := lineOffset_lt_succ hne (Nat.lt_of_succ_lt h)
    exact ⟨fun _ ↦ Nat.succ_pos line, fun _ ↦ Nat.zero_lt_of_lt hstep⟩

theorem exists_break_lineAt (h : line + 1 < t.lineCount) :
    ∃ c, (t.lineAt line).getLast? = some c ∧ isLineBreak c = true := by
  have hne : t ≠ [] := by
    rintro rfl
    exact absurd h (Nat.not_lt.mpr (Nat.le_add_left 1 line))
  have hbefore : line < t.lines.length - 1 := Nat.lt_sub_of_add_lt h
  have hmem : t.lineAt line ∈ t.lines.dropLast := by
    refine List.mem_of_getElem? (i := line) ?_
    rw [List.getElem?_dropLast, if_pos hbefore, getElem?_lines (Nat.lt_of_succ_lt h)]
  rw [lines_eq_splitLines hne] at hmem
  exact t.exists_break_of_mem_dropLast _ hmem

/-- Where the line feed is the only break, every line but the last ends in its line feed. -/
theorem getLast?_lineAt (hbreaks : t.FeedsOnly) (h : line + 1 < t.lineCount) :
    (t.lineAt line).getLast? = some '\n' := by
  obtain ⟨c, hc, hbreak⟩ := exists_break_lineAt h
  have hmem : c ∈ t := by
    rw [← t.lines_flatten]
    exact List.mem_flatten_of_mem (lineAt_mem_lines (Nat.lt_of_succ_lt h)) (List.mem_of_getLast? hc)
  rwa [hbreaks c hmem hbreak] at hc

/-! ### The line of an offset -/

theorem lineAmong_spec {ls : List Text} (hne : ls ≠ []) (offset : Nat) :
    lineAmong ls offset < ls.length ∧ (ls.take (lineAmong ls offset)).flatten.length ≤ offset ∧
      (lineAmong ls offset + 1 < ls.length →
        offset < (ls.take (lineAmong ls offset + 1)).flatten.length) := by
  fun_induction lineAmong ls offset with
  | case1 => exact absurd rfl hne
  | case2 offset l => exact ⟨Nat.one_pos, Nat.zero_le _, fun h ↦ absurd h (Nat.lt_irrefl _)⟩
  | case3 offset l rest _ hlt =>
    refine ⟨Nat.succ_pos _, Nat.zero_le _, fun _ ↦ ?_⟩
    simpa using hlt
  | case4 offset l rest hrest hlt ih =>
    obtain ⟨hline, hstart, hstop⟩ := ih fun hnil ↦ hrest (by rw [hnil])
    rw [List.length_cons]
    refine ⟨Nat.succ_lt_succ hline, ?_, fun h ↦ ?_⟩
    · rw [List.take_succ_cons, List.flatten_cons, List.length_append]
      omega
    · have hstop := hstop (Nat.lt_of_succ_lt_succ h)
      rw [List.take_succ_cons, List.flatten_cons, List.length_append]
      omega

theorem lineOf_lt (t : Text) (offset : Nat) : t.lineOf offset < t.lineCount :=
  (lineAmong_spec t.lines_ne_nil offset).1

theorem lineOffset_lineOf_le (t : Text) (offset : Nat) : t.lineOffset (t.lineOf offset) ≤ offset :=
  (lineAmong_spec t.lines_ne_nil offset).2.1

theorem lt_lineOffset_lineOf (h : t.lineOf offset + 1 < t.lineCount) :
    offset < t.lineOffset (t.lineOf offset + 1) := (lineAmong_spec t.lines_ne_nil offset).2.2 h

/-- An offset is on the line that reaches over it; past the end, on the last. -/
theorem lineOf_eq_iff (h : line < t.lineCount) : t.lineOf offset = line ↔
    t.lineOffset line ≤ offset ∧ (line + 1 < t.lineCount → offset < t.lineOffset (line + 1)) := by
  constructor
  · rintro rfl
    exact ⟨t.lineOffset_lineOf_le offset, lt_lineOffset_lineOf⟩
  · rintro ⟨hstart, hstop⟩
    rcases Nat.lt_trichotomy (t.lineOf offset) line with hlt | heq | hgt
    · have hbefore := lt_lineOffset_lineOf (Nat.lt_of_le_of_lt hlt h)
      have hmono : t.lineOffset (t.lineOf offset + 1) ≤ t.lineOffset line := t.lineOffset_mono hlt
      omega
    · exact heq
    · have hbefore := hstop (Nat.lt_of_le_of_lt hgt (t.lineOf_lt offset))
      have hmono : t.lineOffset (line + 1) ≤ t.lineOffset (t.lineOf offset) := t.lineOffset_mono hgt
      have hle := t.lineOffset_lineOf_le offset
      omega

theorem lineRange_ends (t : Text) (line : Nat) : (t.lineRange line).start = t.lineOffset line ∧
    (t.lineRange line).stop = t.lineOffset (line + 1) := by
  have hle := t.lineOffset_mono (Nat.le_succ line)
  exact ⟨Nat.min_eq_left hle, Nat.max_eq_right hle⟩

theorem lineRange_contains_iff (h : line < t.lineCount) (ho : offset < t.length) :
    (t.lineRange line).contains offset = true ↔ t.lineOf offset = line := by
  have hend : ¬line + 1 < t.lineCount → offset < t.lineOffset (line + 1) := by
    intro hlast
    have hcount : line + 1 = t.lineCount := by omega
    rwa [hcount, lineOffset_lineCount]
  rw [TextRange.contains_iff, (t.lineRange_ends line).1, (t.lineRange_ends line).2, lineOf_eq_iff h]
  exact ⟨fun hin ↦ ⟨hin.1, fun _ ↦ hin.2⟩,
    fun hin ↦ ⟨hin.1, if hnext : line + 1 < t.lineCount then hin.2 hnext else hend hnext⟩⟩

theorem le_lineOf (h : line < t.lineCount) (hle : t.lineOffset line ≤ offset) :
    line ≤ t.lineOf offset := by
  refine Nat.le_of_not_lt fun hlt ↦ ?_
  have hbefore := lt_lineOffset_lineOf (Nat.lt_of_le_of_lt hlt h)
  have hmono : t.lineOffset (t.lineOf offset + 1) ≤ t.lineOffset line := t.lineOffset_mono hlt
  omega

theorem lineOf_mono (t : Text) {a b : Nat} (hab : a ≤ b) : t.lineOf a ≤ t.lineOf b :=
  le_lineOf (t.lineOf_lt a) (Nat.le_trans (t.lineOffset_lineOf_le a) hab)

theorem lastLine_add_one (t : Text) : t.lastLine + 1 = t.lineCount := Nat.sub_add_cancel t.lineCount_pos

theorem lineRange_lastLine_stop (t : Text) : (t.lineRange t.lastLine).stop = t.length := by
  rw [(t.lineRange_ends t.lastLine).2, lastLine_add_one, lineOffset_lineCount]

theorem lineOffset_lastLine_lt (hne : t ≠ []) : t.lineOffset t.lastLine < t.length := by
  have hstep := lineOffset_lt_succ hne (Nat.lt_of_succ_le (Nat.le_of_eq t.lastLine_add_one))
  rwa [lastLine_add_one, lineOffset_lineCount] at hstep

theorem lineOf_eq_lastLine_iff : t.lineOf offset = t.lastLine ↔ t.lineOffset t.lastLine ≤ offset := by
  rw [lineOf_eq_iff (Nat.lt_of_succ_le (Nat.le_of_eq t.lastLine_add_one)), lastLine_add_one]
  exact and_iff_left fun h ↦ absurd h (Nat.lt_irrefl _)

/-! ### The content of a line -/

theorem lineEnd_eq (h : line < t.lineCount) :
    t.lineEnd line = t.lineOffset line + contentLength (t.lineAt line) := by
  rw [lineEnd, lineStart_eq_lineOffset h]

theorem contentLength_le (l : Text) : contentLength l ≤ l.length := by
  unfold contentLength
  split
  · exact Nat.sub_le _ _
  · exact Nat.le_refl _

theorem contentLength_of_feed {l : Text} (h : l.getLast? = some '\n') :
    contentLength l + 1 = l.length := by
  have hpos : 0 < l.length := List.length_pos_of_ne_nil fun hnil ↦ by rw [hnil] at h; cases h
  rw [contentLength, if_pos h]
  omega

theorem firstNonBlank_le_lineEnd (t : Text) (line : Nat) : t.firstNonBlank line ≤ t.lineEnd line := by
  have hle : t.lineStart line ≤ t.lineEnd line := Nat.le_add_right _ _
  have hlength : (t.lineText line).length ≤ t.lineEnd line - t.lineStart line := by
    rw [lineText, slice, Nat.min_eq_left hle, Nat.max_eq_right hle]
    exact List.length_take_le _ _
  have hblanks := (List.takeWhile_prefix (l := t.lineText line) fun c ↦ c == ' ' || c == '\t').length_le
  rw [firstNonBlank]
  omega

theorem lineText_eq (h : line < t.lineCount) :
    t.lineText line = (t.lineAt line).take (contentLength (t.lineAt line)) := by
  rw [lineText, slice, lineEnd_eq h, lineStart_eq_lineOffset h, Nat.min_eq_left (Nat.le_add_right _ _),
    Nat.max_eq_right (Nat.le_add_right _ _), Nat.add_sub_cancel_left, drop_lineOffset_eq_append h,
    List.take_append_of_le_length (contentLength_le _)]

/-- Only a line of blanks has its first other character at its end. -/
theorem firstNonBlank_eq_lineEnd_iff (h : line < t.lineCount) :
    t.firstNonBlank line = t.lineEnd line ↔ ∀ c ∈ t.lineText line, c = ' ' ∨ c = '\t' := by
  have hlength : (t.lineText line).length = contentLength (t.lineAt line) := by
    rw [lineText_eq h, List.length_take, Nat.min_eq_left (contentLength_le _)]
  rw [firstNonBlank, lineEnd, Nat.add_left_cancel_iff, ← hlength]
  constructor
  · intro heq c hc
    have hall := List.takeWhile_eq_self_iff.mp ((List.takeWhile_prefix _).eq_of_length heq) c hc
    simpa only [Bool.or_eq_true, beq_iff_eq] using hall
  · intro hblank
    rw [List.takeWhile_eq_self_iff.mpr fun c hc ↦ by simpa only [Bool.or_eq_true, beq_iff_eq] using hblank c hc]

/-- The first character other than blank of a line is on the line. -/
theorem lineOf_firstNonBlank (h : line < t.lineCount) : t.lineOf (t.firstNonBlank line) = line := by
  have hend := t.firstNonBlank_le_lineEnd line
  have hblank := firstNonBlank_eq_lineEnd_iff h
  rw [lineText_eq h] at hblank
  rw [lineEnd_eq h] at hend hblank
  refine (lineOf_eq_iff h).mpr ⟨?_, fun hnext ↦ ?_⟩
  · rw [firstNonBlank, lineStart_eq_lineOffset h]
    exact Nat.le_add_right _ _
  · obtain ⟨c, hc, hbreak⟩ := exists_break_lineAt hnext
    rw [lineOffset_succ h]
    by_cases hfeed : c = '\n'
    · have hcontent := contentLength_of_feed (hfeed ▸ hc)
      omega
    · -- another break is content and no blank, so the line has more than blanks
      have hwhole : contentLength (t.lineAt line) = (t.lineAt line).length :=
        if_neg (by rwa [hc, Option.some.injEq])
      have hne : t.firstNonBlank line ≠ t.lineOffset line + contentLength (t.lineAt line) := by
        rw [Ne, hblank, hwhole, List.take_length]
        intro hall
        rcases hall c (List.mem_of_getLast? hc) with rfl | rfl
        · exact absurd hbreak (by decide)
        · exact absurd hbreak (by decide)
      omega

end Lines

end ModalEdit.Text

namespace ModalEdit.Span

open Text

variable {t : Text} {line : Nat}

/-- Where the line feed is the only break, a line ends just behind its line feed. -/
theorem pastLineFeed_lineEnd (hbreaks : t.FeedsOnly) (h : line < t.lineCount) :
    pastLineFeed t (t.lineEnd line) = t.lineOffset (line + 1) := by
  have hsucc := lineOffset_succ h
  rw [lineEnd_eq h, pastLineFeed]
  by_cases hfeed : (t.lineAt line).getLast? = some '\n'
  · have hcontent := contentLength_of_feed hfeed
    have hchar : t.charAt (t.lineOffset line + contentLength (t.lineAt line)) = some '\n' := by
      rw [charAt_lineOffset_add h (by omega), ← hfeed, List.getLast?_eq_getElem?, ← hcontent]
      rfl
    rw [if_pos hchar]
    omega
  · have hlast : line + 1 = t.lineCount := by
      have hnot : ¬line + 1 < t.lineCount := fun hnext ↦ hfeed (getLast?_lineAt hbreaks hnext)
      omega
    have hbeyond : t.lineOffset line + contentLength (t.lineAt line) = t.length := by
      rw [contentLength, if_neg hfeed, ← hsucc, hlast, lineOffset_lineCount]
    have hchar : t.charAt t.length ≠ some '\n' := by
      rw [charAt, List.getElem?_eq_none (Nat.le_refl _)]
      exact (Option.some_ne_none _).symm
    rw [hbeyond, if_neg hchar, hlast, lineOffset_lineCount]

theorem lines_self (hbreaks : t.FeedsOnly) (h : line < t.lineCount) :
    lines t line line = t.lineRange line := by
  rw [lines, Nat.min_self, Nat.max_self, pastLineFeed_lineEnd hbreaks h, lineStart_eq_lineOffset h,
    lineRange]

end ModalEdit.Span
