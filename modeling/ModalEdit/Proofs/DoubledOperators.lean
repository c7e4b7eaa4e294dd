import ModalEdit.Proofs.LinewiseCommands

/-!
Lines deleted and yanked. Deleted lines are taken out of the text, the last ones of a text that does
not end in a line feed with the line feed before them (`Text.leavesLines_erasingLines`), and both
operators put the lines, each with its line feed, into the unnamed register
(`Text.withLineFeed_linesRange`). So by a count and the key of the operator typed twice just the lines
from the caret's on are deleted or yanked, as many as are counted, or nothing is done if there are fewer
(`Session.doubled_operators_act_on_lines`).
-/

set_option autoImplicit false
set_option relaxedAutoImplicit false

namespace ModalEdit

theorem Text.slice_drop_one (t : Text) {a b : Nat} (hpos : 0 < a) (hle : a ≤ b) :
    (t.slice (a - 1) b).drop 1 = t.slice a b := by
  have hbefore : a - 1 ≤ b := by omega
  rw [slice, slice, Nat.min_eq_left hbefore, Nat.max_eq_right hbefore, Nat.min_eq_left hle,
    Nat.max_eq_right hle, List.drop_take, List.drop_drop, show a - 1 + 1 = a by omega,
    show b - (a - 1) - 1 = b - a by omega]

namespace Operator

variable (e : Editor) (args : OperatorArgs) (hkind : args.range.kind = .linewise)
include hkind

/-- Deleted lines go to the register without the line feed that goes with them. -/
theorem delete_linewise :
    (delete e args).2.text = (Revision.erasingLines e.text args.range).text ∧
      (delete e args).2.registers = e.registers.recordDelete args.register
        ⟨withLineFeed (e.text.slice args.range.start args.range.stop), .linewise⟩ ∧
      (delete e args).1.nextMode = .normal := by
  have hle := args.range.start_le_stop
  have hcharacters : (if Revision.takesBreakBefore e.text args.range then
      (e.text.slice (args.range.start - 1) args.range.stop).drop 1
      else e.text.slice args.range.start args.range.stop) =
        e.text.slice args.range.start args.range.stop := by
    split
    · next hbreak =>
      simp only [Revision.takesBreakBefore, Bool.and_eq_true, decide_eq_true_eq] at hbreak
      exact e.text.slice_drop_one hbreak.1.2 hle
    · rfl
  rw [← hcharacters, Revision.erasingLines]
  unfold delete
  dsimp only
  rw [hkind]
  by_cases hbreak : Revision.takesBreakBefore e.text args.range = true
  · have hbreak' := hbreak
    unfold Revision.takesBreakBefore at hbreak'
    simp only [hbreak, hbreak', if_true]
    exact ⟨rfl, rfl, trivial⟩
  · have hbreak' := hbreak
    unfold Revision.takesBreakBefore at hbreak'
    simp only [hbreak, hbreak']
    exact ⟨rfl, rfl, trivial⟩

theorem yank_linewise :
    (yank e args).2.text = e.text ∧
      (yank e args).2.registers = e.registers.recordYank args.register
        ⟨withLineFeed (e.text.slice args.range.start args.range.stop), .linewise⟩ := by
  unfold yank
  dsimp only
  rw [hkind]
  exact ⟨rfl, rfl⟩

end Operator

namespace Text

variable {t : Text} {first n : Nat} (hbreaks : t.FeedsOnly) (hfirst : first < t.lineCount)
  (hlast : first + n ≤ t.lineCount) (hn : 0 < n)
include hbreaks hfirst hlast hn

omit hn in
theorem takesBreakBefore_linesRange : Revision.takesBreakBefore t (t.linesRange first n) = true ↔
    0 < first ∧ first + n = t.lineCount ∧ t.getLast? ≠ some '\n' := by
  obtain ⟨hstart, hstop⟩ := t.linesRange_ends first n
  rw [Revision.takesBreakBefore, hstart, hstop]
  simp only [Bool.and_eq_true, beq_iff_eq, decide_eq_true_eq, bne_iff_ne]
  by_cases hne : t = []
  · subst hne
    have hfirst : first = 0 := Nat.lt_one_iff.mp hfirst
    simp [hfirst, lineOffset_zero]
  · rw [lineOffset_pos_iff hne hfirst]
    by_cases hend : first + n = t.lineCount
    · rw [hend, lineOffset_lineCount, charAt, ← List.getLast?_eq_getElem?]
      simp
    · have hnext : first + n < t.lineCount := by omega
      have hstep := lineOffset_lt_succ hne hnext
      have hbound : t.lineOffset (first + n + 1) ≤ t.lineOffset t.lineCount := t.lineOffset_mono hnext
      rw [lineOffset_lineCount] at hbound
      exact iff_of_false (fun h ↦ by omega) fun h ↦ hend h.2.1

/-- Lines are taken out, unless they go to the end of a text without a last line feed and the line
before them is empty. -/
theorem leavesLines_erasingLines
    (hbefore : 0 < first → first + n = t.lineCount → t.getLast? ≠ some '\n' →
      t.feedLines[first - 1]? ≠ some []) :
    LeavesLines t (Revision.erasingLines t (t.linesRange first n)).text
      (t.feedLines.take first ++ t.feedLines.drop (first + n)) := by
  have htakes := takesBreakBefore_linesRange hbreaks hfirst hlast
  obtain ⟨hstart, hstop⟩ := t.linesRange_ends first n
  rw [Revision.erasingLines, hstart, hstop]
  by_cases hbreak : Revision.takesBreakBefore t (t.linesRange first n) = true
  · obtain ⟨hpos, hend, hopen⟩ := htakes.mp hbreak
    rw [if_pos hbreak, hend, lineOffset_lineCount, ← length_feedLines hbreaks, List.drop_length,
      List.append_nil]
    exact leavesLines_erase_break hbreaks hfirst hpos hopen (hbefore hpos hend hopen)
  · rw [if_neg hbreak]
    refine leavesLines_erase hbreaks hfirst hlast hn ?_
    by_cases hfeed : t.getLast? = some '\n'
    · exact .inr (.inr hfeed)
    · have hinner : ¬ (0 < first ∧ first + n = t.lineCount) := fun h ↦
        hbreak (htakes.mpr ⟨h.1, h.2, hfeed⟩)
      omega

theorem withLineFeed_linesRange :
    Operator.withLineFeed (t.slice (t.linesRange first n).start (t.linesRange first n).stop) =
      terminated ((t.feedLines.drop first).take n) := by
  rw [(t.linesRange_ends first n).1, (t.linesRange_ends first n).2]
  exact withLineFeed_slice hbreaks hfirst hlast hn

end Text

theorem Registers.get?_recordDelete (r : Registers) (content : RegisterContent) :
    (r.recordDelete none content).get? none = some content := rfl

theorem Registers.get?_recordYank (r : Registers) (content : RegisterContent) :
    (r.recordYank none content).get? none = some content := rfl

namespace Session

variable {s : Session} {caret : CaretId} {offset : Nat}

section Lines

variable {first : Nat} (h : s.ReadsCommands) (hlone : s.edit.Lone caret offset)
  (hbreaks : s.editor.text.FeedsOnly) (c : TypedCount) (hfirst : s.editor.text.lineOf offset = first)
  (henough : first + c.limited ≤ s.editor.text.lineCount)
include h hlone hbreaks hfirst henough

theorem ReadsCommands.deletes_lines :
    ∃ after : EditState, s.handleAll (c.strokes ++ [.char 'd', .char 'd']) =
        (.executed, { s with resolver := {}, edit := after }) ∧
      after.text = (Revision.erasingLines s.editor.text
        (s.editor.text.linesRange first c.limited)).text ∧
      after.editor.registers.get? none = some
        ⟨Text.terminated ((s.editor.text.feedLines.drop first).take c.limited), .linewise⟩ := by
  have hline : first < s.editor.text.lineCount := hfirst ▸ s.editor.text.lineOf_lt offset
  obtain ⟨e, after, hdelete, -, htext, -, -, hafter, hregisters, -⟩ :=
    h.doubled_executed .delete c hlone hbreaks (hfirst ▸ henough)
  rw [hfirst] at hafter hregisters
  obtain ⟨herased, hput, -⟩ := Operator.delete_linewise e
    { caret, range := s.editor.text.linesRange first c.limited, count := c.limited } rfl
  rw [htext] at herased hput
  rw [List.append_assoc] at hdelete
  refine ⟨after, hdelete, hafter.trans herased, ?_⟩
  rw [hregisters.trans hput, Registers.get?_recordDelete,
    Text.withLineFeed_linesRange hbreaks hline henough c.limited_pos]

theorem ReadsCommands.yanks_lines :
    ∃ after : EditState, s.handleAll (c.strokes ++ [.char 'y', .char 'y']) =
        (.executed, { s with resolver := {}, edit := after }) ∧
      after.text = s.editor.text ∧
      after.editor.registers.get? none = some
        ⟨Text.terminated ((s.editor.text.feedLines.drop first).take c.limited), .linewise⟩ := by
  have hline : first < s.editor.text.lineCount := hfirst ▸ s.editor.text.lineOf_lt offset
  obtain ⟨e, after, hyank, -, htext, -, -, hafter, hregisters, -⟩ :=
    h.doubled_executed .yank c hlone hbreaks (hfirst ▸ henough)
  rw [hfirst] at hafter hregisters
  obtain ⟨hsame, hput⟩ := Operator.yank_linewise e
    { caret, range := s.editor.text.linesRange first c.limited, count := c.limited } rfl
  rw [htext] at hsame hput
  rw [List.append_assoc] at hyank
  refine ⟨after, hyank, hafter.trans hsame, ?_⟩
  rw [hregisters.trans hput, Registers.get?_recordYank,
    Text.withLineFeed_linesRange hbreaks hline henough c.limited_pos]

end Lines

/-- By a count and the key of an operator typed twice, with one caret and the line feed as the only line
break, the lines from the caret's on are deleted or yanked, as many as are counted, and nothing is done
if there are fewer. The unnamed register then has these lines, each with its line feed. Lines at the end
of a text without a last line feed are deleted with the line feed before them, which leaves the other
lines unless the last of these is empty. -/
theorem doubled_operators_act_on_lines (h : s.ReadsCommands) (hlone : s.edit.Lone caret offset)
    (hbreaks : s.editor.text.FeedsOnly) (c : TypedCount) :
    let t := s.editor.text
    let rows := t.feedLines
    let first := t.feedLineOf offset
    let n := c.limited
    let deleted := s.handleAll (c.strokes ++ [.char 'd', .char 'd'])
    let yanked := s.handleAll (c.strokes ++ [.char 'y', .char 'y'])
    (rows.length < first + n →
      (deleted.1 = .cancelled ∧ s.Untouched deleted.2) ∧
        yanked.1 = .cancelled ∧ s.Untouched yanked.2) ∧
    (first + n ≤ rows.length →
      ((0 < first → first + n = rows.length → t.getLast? ≠ some '\n' →
          rows[first - 1]? ≠ some []) →
        t.LeavesLines deleted.2.editor.text (rows.take first ++ rows.drop (first + n))) ∧
      yanked.2.editor.text = t ∧
      ∀ after ∈ [deleted, yanked], after.1 = .executed ∧
        after.2.editor.registers.get? none =
          some ⟨((rows.drop first).take n).flatMap (· ++ ['\n']), .linewise⟩) := by
  have hrows := Text.length_feedLines hbreaks
  have hfirst := Text.lineOf_eq_feedLineOf hbreaks offset
  have hline : s.editor.text.feedLineOf offset < s.editor.text.lineCount :=
    hfirst ▸ s.editor.text.lineOf_lt offset
  intro t rows first n deleted yanked
  rw [show rows.length = t.lineCount from hrows]
  refine ⟨fun hfew ↦ ?_, fun henough ↦ ?_⟩
  · have hfew : t.lineCount < t.lineOf offset + c.limited := by rwa [hfirst]
    have hdeleted := h.doubled_cancelled .delete c hlone hbreaks hfew
    have hyanked := h.doubled_cancelled .yank c hlone hbreaks hfew
    rw [List.append_assoc] at hdeleted hyanked
    exact ⟨hdeleted, hyanked⟩
  · obtain ⟨after, hdelete, hleft, hput⟩ := h.deletes_lines hlone hbreaks c hfirst henough
    obtain ⟨after', hyank, hsame, hput'⟩ := h.yanks_lines hlone hbreaks c hfirst henough
    rw [show deleted = _ from hdelete, show yanked = _ from hyank]
    refine ⟨fun hbefore ↦ ?_, hsame, ?_⟩
    · have hleaves := Text.leavesLines_erasingLines hbreaks hline henough c.limited_pos hbefore
      rw [← hleft] at hleaves
      exact hleaves
    · exact List.forall_mem_cons.mpr ⟨⟨rfl, hput⟩, List.forall_mem_singleton.mpr ⟨rfl, hput'⟩⟩

/-- By `2dd` two lines between others are deleted, and by `2yy` they are yanked. -/
theorem two_lines_deleted_or_yanked :
    let s := withCaret "a\nb\n\nend".toList 2
    let deleted := s.handleAll [.char '2', .char 'd', .char 'd']
    let yanked := s.handleAll [.char '2', .char 'y', .char 'y']
    (s.ReadsCommands ∧ s.edit.Lone ⟨0⟩ 2 ∧ s.editor.text.FeedsOnly) ∧
      deleted.2.editor.text.feedLines = ["a".toList, "end".toList] ∧
      yanked.2.editor.text = "a\nb\n\nend".toList ∧
      ∀ after ∈ [deleted, yanked], after.1 = .executed ∧
        after.2.editor.registers.get? none = some ⟨"b\n\n".toList, .linewise⟩ := by
  intro s deleted yanked
  have hreads : s.ReadsCommands := withCaret_readsCommands _ _
  have hlone : s.edit.Lone ⟨0⟩ 2 := withCaret_lone (by decide +kernel)
  have hbreaks : s.editor.text.FeedsOnly := by
    rw [withCaret_text]
    decide +kernel
  have hlaw := doubled_operators_act_on_lines hreads hlone hbreaks { digits := [2] }
  rw [withCaret_text] at hlaw
  obtain ⟨-, hlines⟩ := hlaw
  obtain ⟨hdeleted, hyanked, hregisters⟩ := hlines (by decide +kernel)
  refine ⟨⟨hreads, hlone, hbreaks⟩, ?_, hyanked, hregisters⟩
  exact (hdeleted (by decide +kernel)).lines (by decide +kernel)

end Session

end ModalEdit
