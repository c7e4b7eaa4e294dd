import Mathlib.Data.List.Basic
import ModalEdit.Operator.Basic
import ModalEdit.Proofs.LineEnds

/-!
The lines of a text as its line feeds cut it (`Text.feedLines`), in which a line feed at the end opens
no line. Where the line feed is the only break these are the lines of the text without their breaks
(`Text.lines_map_content`), and an offset is on the line that as many line feeds come before
(`Text.lineOf_eq_feedLineOf`). What stands before a line is the lines before it, each with its line feed
(`Text.take_lineOffset`), and what stands from there on has the other lines
(`Text.feedLines_drop_lineOffset`).
-/

set_option autoImplicit false
set_option relaxedAutoImplicit false

namespace ModalEdit.Text

/-- The lines of a text without their line feeds. A line feed at the end opens no line, and the empty
text has one empty line. -/
def feedLines (t : Text) : List Text :=
  if t.getLast? = some '\n' then (t.splitOn '\n').dropLast else t.splitOn '\n'

/-- The number of the line that an offset is on: as many line feeds come before, but at the end of the
text it is the last line still. -/
def feedLineOf (t : Text) (offset : Nat) : Nat :=
  min ((t.take offset).count '\n') (t.feedLines.length - 1)

/-- Lines put together, each with its line feed. -/
def terminated (rows : List Text) : Text := rows.flatMap (· ++ ['\n'])

/-- A line without the line feed that ends it. -/
def content (line : Text) : Text := line.take (contentLength line)

/-! ### Lines put together -/

section Rows

variable {rows front back : List Text} {row rest : Text}

@[simp] theorem terminated_nil : terminated [] = [] := rfl

@[simp] theorem terminated_cons (row : Text) (rows : List Text) :
    terminated (row :: rows) = row ++ '\n' :: terminated rows := by
  simp [terminated]

@[simp] theorem terminated_append (front back : List Text) :
    terminated (front ++ back) = terminated front ++ terminated back := by
  simp [terminated]

theorem terminated_eq_nil_iff : terminated rows = [] ↔ rows = [] := by
  cases rows <;> simp

theorem getLast?_terminated (hne : rows ≠ []) : (terminated rows).getLast? = some '\n' := by
  obtain ⟨front, row, rfl⟩ := rows.eq_nil_or_concat'.resolve_left hne
  simp

theorem count_terminated (h : ∀ row ∈ rows, '\n' ∉ row) : (terminated rows).count '\n' = rows.length := by
  induction rows with
  | nil => rfl
  | cons row rows ih =>
    obtain ⟨hrow, hrows⟩ := List.forall_mem_cons.mp h
    simp [ih hrows, List.count_eq_zero.mpr hrow]

theorem splitOn_terminated_append (h : ∀ row ∈ rows, '\n' ∉ row) (rest : Text) :
    (terminated rows ++ rest).splitOn '\n' = rows ++ rest.splitOn '\n' := by
  induction rows with
  | nil => rfl
  | cons row rows ih =>
    obtain ⟨hrow, hrows⟩ := List.forall_mem_cons.mp h
    rw [terminated_cons, List.append_assoc, List.cons_append,
      List.splitOn_append_cons_self_of_not_mem hrow, ih hrows, List.cons_append]

/-- Lines that are all ended by a line feed. -/
theorem feedLines_terminated (h : ∀ row ∈ rows, '\n' ∉ row) (hne : rows ≠ []) :
    feedLines (terminated rows) = rows := by
  have hsplit := splitOn_terminated_append h []
  rw [List.append_nil, List.splitOn_nil] at hsplit
  rw [feedLines, if_pos (getLast?_terminated hne), hsplit, List.dropLast_concat]

/-- Lines before others. -/
theorem feedLines_terminated_append (h : ∀ row ∈ rows, '\n' ∉ row) (hrest : rest ≠ []) :
    feedLines (terminated rows ++ rest) = rows ++ feedLines rest := by
  have hlast : (terminated rows ++ rest).getLast? = rest.getLast? := by
    rw [List.getLast?_append_of_ne_nil _ hrest]
  rw [feedLines, feedLines, hlast, splitOn_terminated_append h]
  split
  · rw [List.dropLast_append_of_ne_nil (List.splitOn_ne_nil _ _)]
  · rfl

theorem feedLines_of_notMem (h : '\n' ∉ row) : feedLines row = [row] := by
  rw [feedLines, if_neg fun hlast ↦ h (List.mem_of_getLast? hlast), List.splitOn_eq_singleton h]

end Rows

/-! ### The lines of a text -/

section Split

variable {t rest : Text}

/-- A character goes to the first of the pieces that follow it, and a line feed before them. -/
theorem splitOn_cons_cases {motive : List Text → Prop} (c : Char) (t : Text)
    (hfeed : c = '\n' → motive ([] :: t.splitOn '\n'))
    (hother : ∀ row rows, c ≠ '\n' → t.splitOn '\n' = row :: rows → motive ((c :: row) :: rows)) :
    motive ((c :: t).splitOn '\n') := by
  rw [List.splitOn_cons_eq_if_modifyHead]
  by_cases hc : c = '\n'
  · simpa [hc] using hfeed hc
  · obtain ⟨row, rows, hsplit⟩ := List.exists_cons_of_ne_nil (List.splitOn_ne_nil '\n' t)
    simpa [hc, hsplit] using hother row rows hc hsplit

theorem terminated_splitOn (t : Text) : terminated (t.splitOn '\n') = t ++ ['\n'] := by
  induction t with
  | nil => rfl
  | cons c t ih =>
    refine splitOn_cons_cases (motive := fun rows ↦ terminated rows = c :: t ++ ['\n']) c t ?_ ?_
    · intro hc
      simp [ih, hc]
    · intro row rows _ hsplit
      rw [hsplit, terminated_cons] at ih
      simp [ih]

theorem feed_notMem_splitOn (t : Text) : ∀ row ∈ t.splitOn '\n', '\n' ∉ row := by
  induction t with
  | nil => simp
  | cons c t ih =>
    refine splitOn_cons_cases (motive := fun rows ↦ ∀ row ∈ rows, '\n' ∉ row) c t ?_ ?_
    · intro _
      exact List.forall_mem_cons.mpr ⟨List.not_mem_nil, ih⟩
    · intro row rows hc hsplit
      rw [hsplit, List.forall_mem_cons] at ih
      refine List.forall_mem_cons.mpr ⟨?_, ih.2⟩
      exact List.not_mem_cons_of_ne_of_not_mem (Ne.symm hc) ih.1

/-- The lines of a text, each with its line feed, are the text with a line feed at its end. -/
theorem terminated_feedLines (t : Text) : terminated t.feedLines = Operator.withLineFeed t := by
  unfold feedLines Operator.withLineFeed
  by_cases hlast : t.getLast? = some '\n'
  · obtain ⟨init, rfl⟩ := List.getLast?_eq_some_iff.mp hlast
    rw [if_pos hlast, if_pos hlast, List.splitOn_append_cons_self, List.splitOn_nil,
      List.dropLast_concat, terminated_splitOn]
  · rw [if_neg hlast, if_neg hlast, terminated_splitOn]

theorem feed_notMem_feedLines (t : Text) : ∀ row ∈ t.feedLines, '\n' ∉ row := by
  unfold feedLines
  split
  · exact fun row hrow ↦ t.feed_notMem_splitOn row (List.dropLast_subset _ hrow)
  · exact t.feed_notMem_splitOn

theorem feed_notMem_take (t : Text) (line : Nat) : ∀ row ∈ t.feedLines.take line, '\n' ∉ row :=
  fun row hrow ↦ t.feed_notMem_feedLines row (List.mem_of_mem_take hrow)

end Split

/-! ### The lines that the line feed alone breaks -/

section FeedsOnly

variable {t : Text} {line offset : Nat}

theorem feedLines_cons_of_feed {rest : Text} (hrest : rest ≠ []) :
    feedLines ('\n' :: rest) = [] :: feedLines rest :=
  @feedLines_terminated_append [[]] rest (by simp) hrest

theorem feedLines_cons_of_ne {c : Char} {rest : Text} (hc : c ≠ '\n') (hrest : rest ≠ []) :
    feedLines (c :: rest) = (feedLines rest).modifyHead (c :: ·) := by
  have hfeed : (c == '\n') = false := beq_eq_false_iff_ne.mpr hc
  rw [feedLines, feedLines, List.getLast?_cons_of_ne_nil hrest, List.splitOn_cons_eq_if_modifyHead,
    hfeed, if_neg Bool.false_ne_true]
  split
  · rw [List.modifyHead_dropLast]
  · rfl

theorem content_of_feed {l : Text} (h : l.getLast? = some '\n') : content l ++ ['\n'] = l := by
  obtain ⟨init, rfl⟩ := List.getLast?_eq_some_iff.mp h
  simp [content, contentLength]

theorem content_of_notMem {l : Text} (h : '\n' ∉ l) : content l = l := by
  rw [content, contentLength, if_neg fun hlast ↦ h (List.mem_of_getLast? hlast), List.take_length]

theorem content_cons {c : Char} {l : Text} (hne : l ≠ []) : content (c :: l) = c :: content l := by
  rw [content, content, contentLength, contentLength, List.getLast?_cons_of_ne_nil hne]
  have hpos := List.length_pos_of_ne_nil hne
  split
  · rw [List.length_cons, show l.length + 1 - 1 = l.length - 1 + 1 by omega, List.take_succ_cons]
  · rfl

/-- Where the line feed is the only break, the lines are those between the line feeds. -/
theorem splitLines_map_content (hbreaks : t.FeedsOnly) (hne : t ≠ []) :
    t.splitLines.map content = t.feedLines := by
  fun_induction splitLines t with
  | case1 => exact absurd rfl hne
  | case2 rest ih =>
    have hfeed := hbreaks '\r' List.mem_cons_self rfl
    exact absurd hfeed (by decide)
  | case3 c rest _ hbreak ih =>
    obtain rfl := hbreaks c List.mem_cons_self hbreak
    by_cases hrest : rest = []
    · subst hrest
      rfl
    · rw [List.map_cons, ih (fun d hd ↦ hbreaks d (List.mem_cons_of_mem _ hd)) hrest,
        feedLines_cons_of_feed hrest]
      rfl
  | case4 c rest _ hbreak hnil ih =>
    have hrest := splitLines_flatten rest
    rw [hnil] at hrest
    obtain rfl : [] = rest := hrest
    have hc : '\n' ∉ [c] := by
      rw [List.mem_singleton]
      rintro rfl
      exact hbreak rfl
    rw [List.map_singleton, content_of_notMem hc, feedLines_of_notMem hc]
  | case5 c rest _ hbreak line others hcons ih =>
    have hline : line ≠ [] :=
      ne_nil_of_mem_splitLines (t := rest) (by rw [hcons]; exact List.mem_cons_self)
    have hrest : rest ≠ [] := by
      rintro rfl
      cases hcons
    have hc : c ≠ '\n' := by
      rintro rfl
      exact hbreak rfl
    have hothers := ih (fun d hd ↦ hbreaks d (List.mem_cons_of_mem _ hd)) hrest
    rw [feedLines_cons_of_ne hc hrest, ← hothers, hcons, List.map_cons, List.map_cons,
      content_cons hline, List.modifyHead_cons]

theorem lines_map_content (hbreaks : t.FeedsOnly) : t.lines.map content = t.feedLines := by
  by_cases hne : t = []
  · subst hne
    rfl
  · rw [lines_eq_splitLines hne, splitLines_map_content hbreaks hne]

theorem length_feedLines (hbreaks : t.FeedsOnly) : t.feedLines.length = t.lineCount := by
  rw [← lines_map_content hbreaks, List.length_map, lineCount]

theorem terminated_map_content {ls : List Text} (h : ∀ l ∈ ls, l.getLast? = some '\n') :
    terminated (ls.map content) = ls.flatten := by
  induction ls with
  | nil => rfl
  | cons l ls ih =>
    obtain ⟨hl, hls⟩ := List.forall_mem_cons.mp h
    rw [List.map_cons, terminated_cons, ih hls, List.flatten_cons, List.append_cons, content_of_feed hl]

theorem take_lineOffset_eq_flatten (t : Text) (line : Nat) :
    t.take (t.lineOffset line) = (t.lines.take line).flatten := by
  have hsplit : t = (t.lines.take line).flatten ++ (t.lines.drop line).flatten := by
    rw [← List.flatten_append, List.take_append_drop, lines_flatten]
  calc t.take (t.lineOffset line)
    _ = ((t.lines.take line).flatten ++ (t.lines.drop line).flatten).take (t.lineOffset line) := by
      rw [← hsplit]
    _ = (t.lines.take line).flatten := List.take_left

/-- Before a line stand the lines before it, each with its line feed; and so before the end of a text
that ends in one. -/
theorem take_lineOffset (hbreaks : t.FeedsOnly)
    (h : line < t.lineCount ∨ line = t.lineCount ∧ t.getLast? = some '\n') :
    t.take (t.lineOffset line) = terminated (t.feedLines.take line) := by
  rcases h with hlt | ⟨rfl, hlast⟩
  · rw [take_lineOffset_eq_flatten, ← lines_map_content hbreaks, ← List.map_take,
      terminated_map_content]
    intro l hl
    obtain ⟨j, hj, rfl⟩ := List.mem_take_iff_getElem.mp hl
    have hnext : j + 1 < t.lineCount := by omega
    have hline : t.lines[j]? = some (t.lineAt j) := getElem?_lines (Nat.lt_of_succ_lt hnext)
    rw [(List.getElem?_eq_some_iff.mp hline).2]
    exact getLast?_lineAt hbreaks hnext
  · rw [lineOffset_lineCount, List.take_length, ← length_feedLines hbreaks, List.take_length,
      terminated_feedLines, Operator.withLineFeed, if_pos hlast]

theorem drop_lineOffset_ne_nil (hne : t ≠ []) (h : line < t.lineCount) :
    t.drop (t.lineOffset line) ≠ [] := by
  have hstep := lineOffset_lt_succ hne h
  have hlast : t.lineOffset (line + 1) ≤ t.lineOffset t.lineCount := t.lineOffset_mono h
  rw [lineOffset_lineCount] at hlast
  rw [Ne, List.drop_eq_nil_iff]
  omega

/-- From a line on stand the other lines. -/
theorem feedLines_drop_lineOffset (hbreaks : t.FeedsOnly) (h : line < t.lineCount) :
    feedLines (t.drop (t.lineOffset line)) = t.feedLines.drop line := by
  by_cases hne : t = []
  · subst hne
    obtain rfl : line = 0 := Nat.lt_one_iff.mp h
    rfl
  · have hwhole := feedLines_terminated_append (t.feed_notMem_take line)
      (drop_lineOffset_ne_nil hne h)
    rw [← take_lineOffset hbreaks (.inl h), List.take_append_drop] at hwhole
    conv_lhs at hwhole => rw [← List.take_append_drop line t.feedLines]
    exact (List.append_cancel_left hwhole).symm

/-- An offset is on the line that as many line feeds come before. -/
theorem lineOf_eq_feedLineOf (hbreaks : t.FeedsOnly) (offset : Nat) :
    t.lineOf offset = t.feedLineOf offset := by
  have hline := t.lineOf_lt offset
  have hle := t.lineOffset_lineOf_le offset
  obtain ⟨n, hn⟩ : ∃ n, offset = t.lineOffset (t.lineOf offset) + n :=
    ⟨_, (Nat.add_sub_cancel' hle).symm⟩
  have hcount : (t.take offset).count '\n' =
      t.lineOf offset + ((t.drop (t.lineOffset (t.lineOf offset))).take n).count '\n' := by
    conv_lhs => rw [hn, List.take_add, List.count_append, take_lineOffset hbreaks (.inl hline)]
    rw [count_terminated (t.feed_notMem_take _), List.length_take, length_feedLines hbreaks,
      Nat.min_eq_left (Nat.le_of_lt hline)]
  rw [feedLineOf, hcount, length_feedLines hbreaks]
  by_cases hnext : t.lineOf offset + 1 < t.lineCount
  · have hlt := lt_lineOffset_lineOf hnext
    rw [lineOffset_succ hline] at hlt
    have hwithin : (t.drop (t.lineOffset (t.lineOf offset))).take n =
        (t.lineAt (t.lineOf offset)).dropLast.take n := by
      rw [drop_lineOffset_eq_append hline, List.take_append_of_le_length (by omega),
        List.dropLast_eq_take, List.take_take, Nat.min_eq_left (by omega)]
    have hnone : '\n' ∉ (t.lineAt (t.lineOf offset)).dropLast.take n := fun hmem ↦
      feed_notMem_dropLast_lineAt hline (List.mem_of_mem_take hmem)
    rw [hwithin, List.count_eq_zero.mpr hnone]
    omega
  · omega

end FeedsOnly

/-! ### Lines taken out -/

/-- What is left of a text has some lines; with none of them left it is empty, and else it ends as the
text did. -/
structure LeavesLines (before after : Text) (rows : List Text) : Prop where
  empty : rows = [] → after = []
  lines : rows ≠ [] → after.feedLines = rows
  ended : after ≠ [] → (after.getLast? = some '\n' ↔ before.getLast? = some '\n')

section Taken

variable {t : Text} {first n : Nat}

theorem ne_nil_of_lineCount {line : Nat} (hpos : 0 < line) (h : line < t.lineCount) : t ≠ [] := by
  rintro rfl
  exact absurd h (Nat.not_lt.mpr hpos)

/-- The last lines of a text are the text from the first of them on. -/
theorem slice_lineOffset_lineCount {line : Nat} (h : line ≤ t.lineCount) :
    t.slice (t.lineOffset line) (t.lineOffset t.lineCount) = t.drop (t.lineOffset line) := by
  have hle := t.lineOffset_mono h
  rw [lineOffset_lineCount] at hle
  rw [slice, lineOffset_lineCount, Nat.min_eq_left hle, Nat.max_eq_right hle, List.take_of_length_le]
  rw [List.length_drop]

variable (hbreaks : t.FeedsOnly) (hfirst : first < t.lineCount) (hlast : first + n ≤ t.lineCount)
  (hn : 0 < n)
include hbreaks hfirst hlast hn

/-- Lines with others behind them, lines from the first on, and lines at an end with a line feed are
taken out alone. -/
theorem leavesLines_erase
    (halone : first + n < t.lineCount ∨ first = 0 ∨ t.getLast? = some '\n') :
    LeavesLines t (t.erase (t.lineOffset first) (t.lineOffset (first + n)))
      (t.feedLines.take first ++ t.feedLines.drop (first + n)) := by
  have hle := t.lineOffset_mono (Nat.le_add_right first n)
  have hlength := length_feedLines hbreaks
  rw [erase, Nat.min_eq_left hle, Nat.max_eq_right hle, take_lineOffset hbreaks (.inl hfirst)]
  by_cases hnext : first + n < t.lineCount
  · have hne : t ≠ [] := ne_nil_of_lineCount (by omega) hnext
    have hrest := drop_lineOffset_ne_nil hne hnext
    refine ⟨fun hnil ↦ ?_, fun _ ↦ ?_, fun _ ↦ ?_⟩
    · have hnone := List.drop_eq_nil_iff.mp (List.append_eq_nil_iff.mp hnil).2
      omega
    · rw [feedLines_terminated_append (t.feed_notMem_take first) hrest,
        feedLines_drop_lineOffset hbreaks hnext]
    · rw [List.getLast?_append_of_ne_nil _ hrest, List.getLast?_drop,
        if_neg (Nat.not_le.mpr (Nat.lt_of_not_le fun hge ↦ hrest (List.drop_eq_nil_iff.mpr hge)))]
  · have hend : first + n = t.lineCount := by omega
    rw [hend, lineOffset_lineCount, List.drop_length, ← hlength, List.drop_length, List.append_nil,
      List.append_nil]
    refine ⟨fun hnil ↦ terminated_eq_nil_iff.mpr hnil,
      feedLines_terminated (t.feed_notMem_take first), fun hne ↦ ?_⟩
    have hrows : t.feedLines.take first ≠ [] := fun hnil ↦ hne (terminated_eq_nil_iff.mpr hnil)
    rw [getLast?_terminated hrows]
    rcases halone with hnext' | rfl | hfeed
    · exact absurd hnext' hnext
    · exact absurd rfl hrows
    · exact iff_of_true rfl hfeed

omit hlast hn in
/-- Lines at an end without a line feed are taken out with the line feed before them, which leaves the
lines before unless the last of these is empty. -/
theorem leavesLines_erase_break (hpos : 0 < first) (hopen : t.getLast? ≠ some '\n')
    (hbefore : t.feedLines[first - 1]? ≠ some []) :
    LeavesLines t (t.erase (t.lineOffset first - 1) t.length) (t.feedLines.take first) := by
  have hlength := length_feedLines hbreaks
  obtain ⟨line, rfl⟩ : ∃ line, first = line + 1 := ⟨first - 1, by omega⟩
  have hlt : line < t.feedLines.length := by omega
  have hrow : t.feedLines[line] ≠ [] := fun hnil ↦ hbefore (by simp [hlt, hnil])
  have hfeed := t.feed_notMem_feedLines _ (List.getElem_mem hlt)
  have hafter : t.erase (t.lineOffset (line + 1) - 1) t.length =
      terminated (t.feedLines.take line) ++ t.feedLines[line] := by
    have hle := t.lineOffset_mono (Nat.le_of_lt hfirst)
    rw [lineOffset_lineCount] at hle
    have hbefore : t.take (t.lineOffset (line + 1)) =
        terminated (t.feedLines.take line) ++ t.feedLines[line] ++ ['\n'] := by
      rw [take_lineOffset hbreaks (.inl hfirst), ← List.take_append_getElem hlt, terminated_append,
        terminated_cons, terminated_nil, List.append_assoc]
    calc t.erase (t.lineOffset (line + 1) - 1) t.length
      _ = t.take (t.lineOffset (line + 1) - 1) := by
        rw [erase, Nat.min_eq_left (by omega), Nat.max_eq_right (by omega), List.drop_length,
          List.append_nil]
      _ = (t.take (t.lineOffset (line + 1))).dropLast := by
        rw [List.dropLast_eq_take, List.take_take, List.length_take, Nat.min_eq_left hle,
          Nat.min_eq_left (Nat.sub_le _ _)]
      _ = terminated (t.feedLines.take line) ++ t.feedLines[line] := by
        rw [hbefore, List.dropLast_concat]
  have hlast : (terminated (t.feedLines.take line) ++ t.feedLines[line]).getLast? ≠ some '\n' := by
    rw [List.getLast?_append_of_ne_nil _ hrow]
    exact fun h ↦ hfeed (List.mem_of_getLast? h)
  rw [hafter]
  refine ⟨fun hnil ↦ ?_, fun _ ↦ ?_, fun _ ↦ iff_of_false hlast hopen⟩
  · have hnone := congrArg List.length hnil
    rw [List.length_take, List.length_nil] at hnone
    omega
  · rw [feedLines_terminated_append (t.feed_notMem_take line) hrow, feedLines_of_notMem hfeed,
      List.take_append_getElem]

/-- In a register, lines are kept each with its line feed. -/
theorem withLineFeed_slice :
    Operator.withLineFeed (t.slice (t.lineOffset first) (t.lineOffset (first + n))) =
      terminated ((t.feedLines.drop first).take n) := by
  have hle := t.lineOffset_mono (Nat.le_add_right first n)
  have hlength := length_feedLines hbreaks
  by_cases hnext : first + n < t.lineCount
  · have hslice : t.slice (t.lineOffset first) (t.lineOffset (first + n)) =
        terminated ((t.feedLines.drop first).take n) := by
      have hfront := congrArg List.length (take_lineOffset hbreaks (.inl hfirst))
      have hstop := t.lineOffset_mono (Nat.le_of_lt hnext)
      rw [lineOffset_lineCount] at hstop
      rw [List.length_take, Nat.min_eq_left (by omega)] at hfront
      rw [slice, Nat.min_eq_left hle, Nat.max_eq_right hle, ← List.drop_take,
        take_lineOffset hbreaks (.inl hnext), List.take_add, terminated_append, hfront,
        List.drop_left]
    have hrows : (t.feedLines.drop first).take n ≠ [] := by
      rw [Ne, List.take_eq_nil_iff, List.drop_eq_nil_iff]
      omega
    rw [hslice, Operator.withLineFeed, if_pos (getLast?_terminated hrows)]
  · have hend : first + n = t.lineCount := by omega
    rw [hend, slice_lineOffset_lineCount (Nat.le_of_lt hfirst), ← terminated_feedLines,
      feedLines_drop_lineOffset hbreaks hfirst, List.take_of_length_le]
    rw [List.length_drop, hlength]
    omega

end Taken

end ModalEdit.Text
