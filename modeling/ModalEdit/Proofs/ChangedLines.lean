import Mathlib.Data.List.ModifyLast
import ModalEdit.Proofs.LinewiseCommands

/-!
Lines changed. Of changed lines no more is left than the line feed of the last (`Text.emptied`), before
which text is typed then, so that it stands in place of them (`Text.feedLines_refilled`). But of the last
lines of a text that does not end in a line feed nothing is left, so that the caret is drawn back to the
end of the line before, and the text is added to that (`Text.feedLines_refilled_spilled`). So by a count
and the key of the operator typed twice, and then a text, the lines are replaced by the text unless they
are such lines (`Session.changed_lines_are_replaced`).
-/

set_option autoImplicit false
set_option relaxedAutoImplicit false

namespace ModalEdit

namespace Text

/-- The last of some lines has a line feed. -/
def EndsInFeed (t : Text) (first n : Nat) : Prop :=
  first + n < t.lineCount ∨ t.getLast? = some '\n'

instance (t : Text) (first n : Nat) : Decidable (t.EndsInFeed first n) :=
  inferInstanceAs (Decidable (_ ∨ _))

/-- A text with no more of some lines than the line feed of the last. -/
def emptied (t : Text) (first n : Nat) : Text :=
  t.erase (t.lineOffset first)
    (if t.EndsInFeed first n then t.lineOffset (first + n) - 1 else t.lineOffset (first + n))

/-- A text with what is typed where the caret is drawn to, with no more left of some lines. -/
def refilled (t : Text) (first n : Nat) (typed : Text) : Text :=
  (t.emptied first n).insert ((t.emptied first n).normalize (t.lineOffset first) true) typed

variable {t : Text} {first n : Nat} (hbreaks : t.FeedsOnly) (hfirst : first < t.lineCount)
  (hlast : first + n ≤ t.lineCount) (hn : 0 < n)
include hbreaks hfirst hlast hn

theorem endsInFeed_iff : t.EndsInFeed first n ↔ t.lineOffset first < t.lineOffset (first + n) ∧
    t.charAt (t.lineOffset (first + n) - 1) = some '\n' := by
  by_cases hkeeps : t.EndsInFeed first n
  · have hne : t ≠ [] := by
      rcases hkeeps with hnext | hfeed
      · exact ne_nil_of_lineCount (Nat.lt_add_left first hn) hnext
      · rintro rfl
        cases hfeed
    have hlt : t.lineOffset first < t.lineOffset (first + n) :=
      Nat.lt_of_lt_of_le (lineOffset_lt_succ hne hfirst) (t.lineOffset_mono (by omega))
    have hrows : t.feedLines.take (first + n) ≠ [] := by
      rw [Ne, List.take_eq_nil_iff, ← List.length_eq_zero_iff, length_feedLines hbreaks]
      omega
    have hfront : t.take (t.lineOffset (first + n)) = terminated (t.feedLines.take (first + n)) := by
      refine take_lineOffset hbreaks ?_
      rcases Nat.lt_or_eq_of_le hlast with hnext | hend
      · exact .inl hnext
      · exact .inr ⟨hend, hkeeps.resolve_left (Nat.not_lt.mpr hend.ge)⟩
    have hfeed := getLast?_terminated hrows
    have hbound := t.lineOffset_mono hlast
    rw [lineOffset_lineCount] at hbound
    rw [← hfront, List.getLast?_eq_getElem?, List.length_take, Nat.min_eq_left hbound,
      List.getElem?_take_of_lt (by omega)] at hfeed
    exact iff_of_true hkeeps ⟨hlt, hfeed⟩
  · obtain ⟨hnext, hopen⟩ := not_or.mp hkeeps
    have hend : first + n = t.lineCount := by omega
    refine iff_of_false hkeeps fun h ↦ hopen ?_
    rw [List.getLast?_eq_getElem?, ← lineOffset_lineCount, ← hend]
    exact h.2

/-- What is typed stands in place of the lines whose last line feed is kept. -/
theorem feedLines_refilled_kept (hkeeps : t.EndsInFeed first n) {typed : Text}
    (htyped : '\n' ∉ typed) :
    (t.refilled first n typed).feedLines =
      t.feedLines.take first ++ typed :: t.feedLines.drop (first + n) := by
  obtain ⟨hle, hfeed⟩ := (endsInFeed_iff hbreaks hfirst hlast hn).mp hkeeps
  obtain ⟨hlt, hchar⟩ := List.getElem?_eq_some_iff.mp hfeed
  have hfront : (t.take (t.lineOffset first)).length = t.lineOffset first := by
    rw [List.length_take]
    omega
  have hrest : t.emptied first n =
      t.take (t.lineOffset first) ++ '\n' :: t.drop (t.lineOffset (first + n)) := by
    rw [emptied, if_pos hkeeps, erase, Nat.min_eq_left (by omega), Nat.max_eq_right (by omega),
      List.drop_eq_getElem_cons hlt, hchar, Nat.sub_add_cancel (by omega)]
  have hwithin : t.lineOffset first < (t.emptied first n).length := by
    rw [hrest, List.length_append, hfront, List.length_cons]
    omega
  have hnew : t.refilled first n typed =
      terminated (t.feedLines.take first ++ [typed]) ++ t.drop (t.lineOffset (first + n)) := by
    rw [refilled, normalize_end_of_lt hwithin, hrest, insert, List.take_left' hfront,
      List.drop_left' hfront, take_lineOffset hbreaks (.inl hfirst)]
    simp
  have hrows : ∀ row ∈ t.feedLines.take first ++ [typed], '\n' ∉ row :=
    List.forall_mem_append.mpr ⟨t.feed_notMem_take first, List.forall_mem_singleton.mpr htyped⟩
  rw [hnew, List.append_cons _ _ (t.feedLines.drop _)]
  by_cases hnext : first + n < t.lineCount
  · have hne : t ≠ [] := List.ne_nil_of_length_pos (Nat.zero_lt_of_lt hlt)
    rw [feedLines_terminated_append hrows (drop_lineOffset_ne_nil hne hnext),
      feedLines_drop_lineOffset hbreaks hnext]
  · have hend : first + n = t.lineCount := by omega
    rw [hend, lineOffset_lineCount, List.drop_length, List.append_nil, ← length_feedLines hbreaks,
      List.drop_length, List.append_nil,
      feedLines_terminated hrows (List.append_ne_nil_of_right_ne_nil _ (List.cons_ne_nil _ _))]

omit hbreaks hfirst hn in
theorem emptied_of_not (hopen : ¬t.EndsInFeed first n) :
    first + n = t.lineCount ∧ t.emptied first n = t.take (t.lineOffset first) := by
  have hend : first + n = t.lineCount := Nat.le_antisymm hlast (Nat.not_lt.mp (not_or.mp hopen).1)
  have hle := t.lineOffset_mono (Nat.le_add_right first n)
  refine ⟨hend, ?_⟩
  rw [emptied, if_neg hopen, erase, Nat.min_eq_left hle, Nat.max_eq_right hle, hend,
    lineOffset_lineCount, List.drop_length, List.append_nil]

omit hn in
/-- Nothing is left of the last lines without a line feed, so that what is typed goes to the line before
them. -/
theorem feedLines_refilled_spilled (hpos : 0 < first) (hopen : ¬t.EndsInFeed first n) {typed : Text}
    (htyped : '\n' ∉ typed) :
    (t.refilled first n typed).feedLines = (t.feedLines.take first).modifyLast (· ++ typed) := by
  have hne : t.feedLines.take first ≠ [] := by
    rw [Ne, List.take_eq_nil_iff, ← List.length_eq_zero_iff, length_feedLines hbreaks]
    omega
  obtain ⟨before, row, hrows⟩ := (t.feedLines.take first).eq_nil_or_concat'.resolve_left hne
  obtain ⟨hbefore, hrow⟩ := List.forall_mem_append.mp (hrows ▸ t.feed_notMem_take first)
  have hfront : t.emptied first n = t.take (t.lineOffset first) := (emptied_of_not hlast hopen).2
  have hrest : t.emptied first n = (terminated before ++ row) ++ ['\n'] := by
    rw [hfront, take_lineOffset hbreaks (.inl hfirst), hrows]
    simp
  have hlength : t.lineOffset first = (t.emptied first n).length := by
    have hle := t.lineOffset_mono (Nat.le_of_lt hfirst)
    rw [lineOffset_lineCount] at hle
    rw [hfront, List.length_take, Nat.min_eq_left hle]
  have hfeed : (t.emptied first n).getLast? = some '\n' := by
    rw [hrest, List.getLast?_concat]
  have hend : (t.emptied first n).length - 1 = (terminated before ++ row).length := by
    rw [hrest, List.length_append, List.length_singleton, Nat.add_sub_cancel]
  have hnew : t.refilled first n typed = terminated (before ++ [row ++ typed]) := by
    rw [refilled, hlength, normalize_end_of_feed hfeed, hend, hrest, insert, List.take_left,
      List.drop_left]
    simp
  have hlonger : '\n' ∉ row ++ typed := by
    rw [List.mem_append, not_or]
    exact ⟨hrow row List.mem_cons_self, htyped⟩
  rw [hnew, hrows, List.modifyLast_concat]
  exact feedLines_terminated
    (List.forall_mem_append.mpr ⟨hbefore, List.forall_mem_singleton.mpr hlonger⟩)
    (List.append_ne_nil_of_right_ne_nil _ (List.cons_ne_nil _ _))

/-- What is typed stands in place of the lines, unless these are the last of several and have no line
feed. -/
theorem feedLines_refilled (hstays : t.EndsInFeed first n ∨ first = 0) {typed : Text}
    (htyped : '\n' ∉ typed) :
    (t.refilled first n typed).feedLines =
      t.feedLines.take first ++ typed :: t.feedLines.drop (first + n) := by
  by_cases hkeeps : t.EndsInFeed first n
  · exact feedLines_refilled_kept hbreaks hfirst hlast hn hkeeps htyped
  · obtain rfl := hstays.resolve_left hkeeps
    obtain ⟨hend, hrest⟩ := emptied_of_not hlast hkeeps
    have hnew : t.refilled 0 n typed = typed := by
      rw [refilled, hrest, lineOffset_zero, List.take_zero]
      exact List.append_nil typed
    rw [hnew, feedLines_of_notMem htyped, hend, ← length_feedLines hbreaks, List.drop_length]
    rfl

end Text

/-- Changed lines are emptied. -/
theorem Operator.change_lines {e : Editor} (hbreaks : e.text.FeedsOnly) {first n : Nat}
    (hfirst : first < e.text.lineCount) (hlast : first + n ≤ e.text.lineCount) (hn : 0 < n)
    (args : OperatorArgs) (hrange : args.range = e.text.linesRange first n) :
    (change e args).2.text = e.text.emptied first n ∧ (change e args).1 =
      ⟨(e.text.emptied first n).normalize (e.text.lineOffset first) true, .insert⟩ := by
  obtain ⟨hstart, hstop⟩ := e.text.linesRange_ends first n
  have hkeeps := Text.endsInFeed_iff hbreaks hfirst hlast hn
  rw [← beq_iff_eq (a := e.text.charAt _), ← decide_eq_true_iff (p := _ < _), ← Bool.and_eq_true]
    at hkeeps
  have hrest : e.text.emptied first n = e.text.erase (e.text.lineOffset first)
      (if e.text.lineOffset first < e.text.lineOffset (first + n) &&
          e.text.charAt (e.text.lineOffset (first + n) - 1) == some '\n' then
        e.text.lineOffset (first + n) - 1 else e.text.lineOffset (first + n)) := by
    rw [Text.emptied, if_congr hkeeps rfl rfl]
  rw [hrest, ← hstart, ← hstop, ← hrange]
  unfold change changeWith
  dsimp only
  rw [hrange]
  exact ⟨rfl, rfl⟩

namespace Session

variable {s : Session} {caret : CaretId} {offset : Nat}

/-- With one caret, what is typed goes in there. -/
theorem TakesText.typeAll_alone (h : s.TakesText) (hlone : s.edit.Lone caret offset) (typed : Text) :
    (s.handleAll (typed.map .char)).2.editor.text = s.editor.text.insert offset typed := by
  have hanchored : s.edit.Anchored := hlone.toAnchored
  obtain ⟨order, piece, tail, hcut, hready⟩ := EditState.exists_cut hanchored
    (EditState.orderedByOffset_perm (s := s.edit.prepared)
      ⟨hanchored.editor.of_buffer rfl rfl rfl, hanchored.carets.sync _⟩)
  have horder : order = [caret] := by
    rw [← List.perm_singleton, ← hlone.ids]
    exact hcut.carets
  subst horder
  obtain ⟨-, hcopied⟩ := h.typeAll hcut hready typed
  have hoffset := (hcut.ends [] caret [] rfl).symm.trans hlone.stands
  have hlength : (piece caret).length = offset := by simpa using hoffset
  have hafter := hcopied.text
  have hbefore := hcut.text
  simp only [List.flatMap_singleton] at hafter hbefore
  show _ = Text.insert s.edit.text offset typed
  rw [hbefore, Text.insert, List.take_left' hlength, List.drop_left' hlength]
  exact hafter

/-- Lines that are changed are emptied and then filled with what is typed. -/
theorem ReadsCommands.refills_lines (h : s.ReadsCommands) (hlone : s.edit.Lone caret offset)
    (hbreaks : s.editor.text.FeedsOnly) (c : TypedCount) {first : Nat}
    (hfirst : s.editor.text.lineOf offset = first)
    (henough : first + c.limited ≤ s.editor.text.lineCount) (typed : Text) :
    (s.handleAll (c.strokes ++ [.char 'c', .char 'c'] ++ typed.map .char)).2.editor.text =
      s.editor.text.refilled first c.limited typed := by
  have hline : first < s.editor.text.lineCount := hfirst ▸ s.editor.text.lineOf_lt offset
  obtain ⟨e, changed, hchange, hreported, htext, -, -, hafter, -, hlone', hmode⟩ :=
    h.doubled_executed .change c hlone hbreaks (hfirst ▸ henough)
  rw [hfirst, ← htext] at hafter hlone' hmode
  rw [List.append_assoc] at hchange
  rw [← htext] at hbreaks hline henough ⊢
  obtain ⟨hleft, heffect⟩ := Operator.change_lines hbreaks hline henough c.limited_pos
    { caret, range := e.text.linesRange first c.limited, count := c.limited } rfl
  have hbody : OperatorKey.change.body = Operator.change := rfl
  rw [hbody, hleft, heffect, Nat.min_eq_left (Text.normalize_le_length _ _ _)] at hlone'
  rw [hbody, heffect] at hmode
  have htakes : TakesText { s with resolver := {}, edit := changed } :=
    ⟨h.bindings, rfl, rfl, hmode, hreported⟩
  rw [handleAll_append, show s.handleAll (c.strokes ++ [.char 'c', .char 'c']) = _ from hchange,
    htakes.typeAll_alone hlone' typed]
  exact congrArg (Text.insert · _ typed) (hafter.trans hleft)

/-- By a count, the key of the operator for changing typed twice, and a text without line feeds, with one
caret and the line feed as the only line break, the lines from the caret's on, as many as are counted, are
replaced by the text. But if they are the last of several and the last of them has no line feed, the text
goes to the end of the line before them. -/
theorem changed_lines_are_replaced (h : s.ReadsCommands) (hlone : s.edit.Lone caret offset)
    (hbreaks : s.editor.text.FeedsOnly) (c : TypedCount) {typed : Text} (htyped : '\n' ∉ typed) :
    let t := s.editor.text
    let rows := t.feedLines
    let first := t.feedLineOf offset
    let n := c.limited
    let spills := 0 < first ∧ first + n = rows.length ∧ t.getLast? ≠ some '\n'
    let after := (s.handleAll (c.strokes ++ [.char 'c', .char 'c'] ++ typed.map .char)).2
    first + n ≤ rows.length →
      (¬spills → after.editor.text.feedLines = rows.take first ++ typed :: rows.drop (first + n)) ∧
      (spills → after.editor.text.feedLines = (rows.take first).modifyLast (· ++ typed)) := by
  have hrows := Text.length_feedLines hbreaks
  have hfirst := Text.lineOf_eq_feedLineOf hbreaks offset
  have hline : s.editor.text.feedLineOf offset < s.editor.text.lineCount :=
    hfirst ▸ s.editor.text.lineOf_lt offset
  intro t rows first n spills after henough
  rw [show rows.length = t.lineCount from hrows] at henough
  have hspills : spills ↔ 0 < first ∧ ¬t.EndsInFeed first n := by
    rw [show spills = (0 < first ∧ first + n = rows.length ∧ t.getLast? ≠ some '\n') from rfl,
      show rows.length = t.lineCount from hrows, Text.EndsInFeed, not_or, Nat.not_lt,
      ← henough.ge_iff_eq]
  have hafter : after.editor.text = t.refilled first n typed :=
    h.refills_lines hlone hbreaks c hfirst henough typed
  rw [hafter, hspills]
  refine ⟨fun hstays ↦ ?_, fun ⟨hpos, hopen⟩ ↦ ?_⟩
  · refine Text.feedLines_refilled hbreaks hline henough c.limited_pos ?_ htyped
    rcases Nat.eq_zero_or_pos first with hzero | hpos
    · exact .inr hzero
    · exact .inl (by_contra fun hopen ↦ hstays ⟨hpos, hopen⟩)
  · exact Text.feedLines_refilled_spilled hbreaks hline henough hpos hopen htyped

/-- By `2cc` two lines between others are replaced. -/
theorem two_lines_changed :
    let s := withCaret "a\nb\n\nend".toList 2
    let after := (s.handleAll ([.char '2', .char 'c', .char 'c'] ++ "xy".toList.map .char)).2
    (s.ReadsCommands ∧ s.edit.Lone ⟨0⟩ 2 ∧ s.editor.text.FeedsOnly ∧ '\n' ∉ "xy".toList) ∧
      after.editor.text.feedLines = ["a".toList, "xy".toList, "end".toList] := by
  intro s after
  have hreads : s.ReadsCommands := withCaret_readsCommands _ _
  have hlone : s.edit.Lone ⟨0⟩ 2 := withCaret_lone (by decide +kernel)
  have hbreaks : s.editor.text.FeedsOnly := by
    rw [withCaret_text]
    decide +kernel
  have htyped : '\n' ∉ "xy".toList := by decide +kernel
  have hlaw := changed_lines_are_replaced hreads hlone hbreaks { digits := [2] } htyped
  rw [withCaret_text] at hlaw
  obtain ⟨hreplaced, -⟩ := hlaw (by decide +kernel)
  exact ⟨⟨hreads, hlone, hbreaks, htyped⟩, hreplaced (by decide +kernel)⟩

/-- Typed after `cc` on a last line without a line feed, text goes to the line before. -/
theorem last_line_not_replaced :
    let s := withCaret "foo\nbar".toList 4
    let rows := s.editor.text.feedLines
    let first := s.editor.text.feedLineOf 4
    let after := (s.handleAll [.char 'c', .char 'c', .char 'x']).2
    (s.ReadsCommands ∧ s.edit.Lone ⟨0⟩ 4 ∧ s.editor.text.FeedsOnly ∧ first + 1 ≤ rows.length) ∧
      after.editor.text = "foox\n".toList ∧
      after.editor.text.feedLines ≠ rows.take first ++ "x".toList :: rows.drop (first + 1) := by
  intro s rows first after
  have hreads : s.ReadsCommands := withCaret_readsCommands _ _
  have hlone : s.edit.Lone ⟨0⟩ 4 := withCaret_lone (by decide +kernel)
  have hbreaks : s.editor.text.FeedsOnly := by
    rw [withCaret_text]
    decide +kernel
  have hline : s.editor.text.lineOf 4 = 1 := by decide +kernel
  have hrefilled := hreads.refills_lines hlone hbreaks { digits := [] } hline (by decide +kernel)
    "x".toList
  have htext : after.editor.text = "foox\n".toList := hrefilled.trans (by decide +kernel)
  refine ⟨⟨hreads, hlone, hbreaks, by decide +kernel⟩, htext, ?_⟩
  rw [htext]
  decide +kernel

end Session

end ModalEdit
