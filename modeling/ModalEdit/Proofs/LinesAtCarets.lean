import ModalEdit.Proofs.CaretTable
import ModalEdit.Proofs.CommandGrammar
import ModalEdit.Proofs.LineDeletion

/-!
The lines of all carets deleted. Every caret covers its line in the text as it is (`range?_currentLine`),
in the order of the offsets, which is that of the lines, so the run over lines in order decides what is left
(`EditState.compose_deletes_lines`).
-/

set_option autoImplicit false
set_option relaxedAutoImplicit false

namespace ModalEdit

namespace Operator

/-- Deleted lines are taken out with the line break before them, where it goes along. -/
theorem delete_revises_lines : delete.Revises .linewise Revision.erasingLines := by
  refine revises_of_erases fun e ⟨caret, ⟨start, stop, kind, hle⟩, register, count⟩ hkind ↦ ?_
  cases hkind
  exact ⟨_, rfl⟩

/-- The motion over lines, without a count, covers the line of the caret. -/
theorem range?_currentLine (ctx : MotionContext) {keys : Keys} (hcall : ctx.command = linesCall keys)
    (hbreaks : ctx.text.FeedsOnly) (operator : ActionId) :
    range? ctx operator (.motion Motion.currentLine) =
      some (ctx.text.lineRange (ctx.text.lineOf ctx.offset)) := by
  have hline : ctx.line < ctx.text.lineCount := ctx.text.lineOf_lt ctx.offset
  have hmotion : Motion.currentLine ctx = some (ctx.text.firstNonBlank ctx.line) := by
    rw [Motion.currentLine, MotionContext.count, hcall]
    exact if_pos hline
  have hword : changesToWordEnd? ctx operator = none := by
    rw [changesToWordEnd?, hcall]
    exact ite_self _
  have htarget := Text.lineOf_firstNonBlank hline
  have hspan {a b : Nat} (ha : ctx.text.lineOf a = ctx.line) (hb : ctx.text.lineOf b = ctx.line) :
      Span.linesOf ctx.text (min a b) (max a b) = ctx.text.lineRange ctx.line := by
    rw [Span.linesOf, ← Span.lines_self hbreaks hline]
    rcases Nat.le_total a b with hab | hba
    · rw [Nat.min_eq_left hab, Nat.max_eq_right hab, ha, hb]
    · rw [Nat.min_eq_right hba, Nat.max_eq_left hba, ha, hb]
  rw [range?, hword, hmotion, Option.map_some, rangeOfMotion, hcall]
  exact congrArg some (hspan rfl htarget)

end Operator

namespace Text

/-- What is taken out depends on which lines are named, not on the order or how often. -/
theorem withoutLines_congr (t : Text) {ls others : List Nat} (h : ∀ line, line ∈ ls ↔ line ∈ others) :
    t.withoutLines ls = t.withoutLines others := by
  have hcontains : ls.contains = others.contains := by
    funext line
    rw [Bool.eq_iff_iff, List.contains_iff_mem, List.contains_iff_mem, h]
  rw [withoutLines, withoutLines, hcontains]

end Text

namespace EditState

variable {s : EditState} {registry : Registry} {command : Command} {keys : Keys}

/-- The lines that the carets are on. -/
def caretLines (s : EditState) : List Nat := s.caretOffsets.map s.text.lineOf

theorem compose_chops_lines (h : s.Sound) (hbreaks : s.text.FeedsOnly)
    (hregistry : registry.get? ActionId.currentLine =
      some (Builtin.motion ActionId.currentLine Motion.currentLine Builtin.linewise))
    (hcommand : command.argument = some (linesCall keys)) :
    (s.compose registry command .delete).2.text =
      (s.text.withoutLines s.caretLines).chop (s.caretLines.count s.text.lastLine - 1) := by
  obtain ⟨offsets, hsorted, hperm, hspans⟩ := exists_plannedSpans_eq h hcommand hregistry
    (fun offset ↦ s.text.lineRange (s.text.lineOf offset))
    fun caret state ↦ Operator.range?_currentLine (s.pendingContext _ caret state) rfl hbreaks _
  have hkind (p : CaretId × TextRange) (hp : p ∈ s.plannedSpans registry command) :
      p.2.kind = .linewise := by
    have hmem := List.mem_map_of_mem (f := (·.2)) hp
    rw [hspans] at hmem
    obtain ⟨offset, -, heq⟩ := List.mem_map.mp hmem
    rw [← heq]
    rfl
  have hlines : (offsets.map s.text.lineOf).Perm s.caretLines := hperm.map _
  have hordered : (offsets.map s.text.lineOf).Pairwise (· ≤ ·) :=
    List.pairwise_map.mpr (hsorted.imp fun hle ↦ s.text.lineOf_mono hle)
  have hrun := Revision.foldl_lineRanges hordered
    (List.forall_mem_map.mpr fun offset _ ↦ s.text.lineOf_lt offset)
  rw [List.map_map] at hrun
  rw [compose_text h.editor Operator.delete_revises_lines registry command hkind, hspans,
    ← s.text.withoutLines_congr fun _ ↦ hlines.mem_iff, ← hlines.count_eq]
  exact hrun

/-- To delete the lines of all carets takes out these lines, and the line feed before the block of them at
the end where the last line has none. Each caret on the last line but the first takes a character more, of
the line that is then last; nothing more goes if there is one such caret, or nothing is left there. -/
theorem compose_deletes_lines (h : s.Sound) (hbreaks : s.text.FeedsOnly)
    (hregistry : registry.get? ActionId.currentLine =
      some (Builtin.motion ActionId.currentLine Motion.currentLine Builtin.linewise))
    (hcommand : command.argument = some (linesCall keys)) :
    (s.compose registry command .delete).2.text =
        (s.text.withoutLines s.caretLines).chop (s.caretLines.count s.text.lastLine - 1) ∧
      ((s.compose registry command .delete).2.text = s.text.withoutLines s.caretLines ↔
        s.caretLines.count s.text.lastLine ≤ 1 ∨ (s.text.withoutLines s.caretLines).openEnd = 0) := by
  have hrun := compose_chops_lines h hbreaks hregistry hcommand
  refine ⟨hrun, ?_⟩
  rw [hrun, Text.chop_eq_self_iff, Nat.sub_eq_zero_iff_le]

/-- Two carets share a line, and another is on the last. -/
theorem lines_of_three_carets_deleted :
    let s : EditState :=
      { editor := .ofMarked { text := "a\nbc\nde".toList, carets := [2, 3, 5] } }
    let command : Command :=
      { kind := .operator, action := ActionId.delete, argument := some (linesCall [.char 'd']) }
    s.caretLines = [1, 1, 2] ∧ (s.compose .standard command .delete).2.text = "a".toList := by
  intro s command
  have hs : s.Sound :=
    ⟨Editor.ofMarked_sound { text := "a\nbc\nde".toList, carets := [2, 3, 5] }, List.nodup_nil⟩
  have hlines := compose_deletes_lines hs (by decide +kernel) currentLine_registered
    (show command.argument = some (linesCall [.char 'd']) from rfl)
  rw [hlines.1]
  decide +kernel

/-- Two carets share the last line: the last character of the line before it goes too. -/
theorem two_carets_on_last_line :
    let s : EditState := { editor := .ofMarked { text := "ab\ncd".toList, carets := [3, 4] } }
    let command : Command :=
      { kind := .operator, action := ActionId.delete, argument := some (linesCall [.char 'd']) }
    s.text.FeedsOnly ∧ s.caretLines = [1, 1] ∧
      (s.compose .standard command .delete).2.text = "a".toList ∧
      s.text.withoutLines s.caretLines = "ab".toList := by
  intro s command
  have hs : s.Sound :=
    ⟨Editor.ofMarked_sound { text := "ab\ncd".toList, carets := [3, 4] }, List.nodup_nil⟩
  have hbreaks : s.text.FeedsOnly := by decide +kernel
  have hlines := compose_chops_lines hs hbreaks currentLine_registered
    (show command.argument = some (linesCall [.char 'd']) from rfl)
  rw [hlines]
  decide +kernel

end EditState

end ModalEdit
