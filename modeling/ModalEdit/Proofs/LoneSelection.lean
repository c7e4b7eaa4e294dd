import ModalEdit.Proofs.LoneCaret
import ModalEdit.Proofs.SelectionSteps
import ModalEdit.Proofs.SessionFrame
import ModalEdit.Proofs.TargetSpans

/-!
One caret that selects characters (`EditState.Selects`). A selection begins and ends where the caret
is; a motion takes its moving end along, a text object puts both ends around itself, and an operator
is given what is between them (`Selects.operate`).
-/

set_option autoImplicit false
set_option relaxedAutoImplicit false

namespace ModalEdit

theorem Editor.caretIds_removeSelection (e : Editor) (caret : CaretId) :
    (e.removeSelection caret).caretIds = e.caretIds := by
  have hcleared : (e.clearSelection caret).2.caretIds = e.caretIds := by
    unfold clearSelection
    split
    · rfl
    · exact caretIds_setSelectionMarks e caret none
  unfold removeSelection
  split <;> next heq =>
    rw [heq] at hcleared
    exact hcleared

namespace EditState

variable {s : EditState} {caret : CaretId} {anchor offset : Nat}

theorem Lone.prepared (h : s.Lone caret offset) : s.prepared.Lone caret offset :=
  (h.withGuard s.lock.2.editor.guard).syncCarets

theorem Lone.clearSelections (h : s.Lone caret offset) : s.clearSelections.Lone caret offset := by
  have hremoved : s.clearSelections.editor = s.editor.removeSelection caret := by
    unfold EditState.clearSelections
    rw [h.ids]
    rfl
  refine ⟨(clearSelections_clear h.toAnchored).toAnchored, ?_, ?_⟩
  · rw [hremoved, Editor.caretIds_removeSelection]
    exact h.ids
  · rw [caretOffset?, hremoved]
    exact (h.editor.removeSelection_deselects caret).offset.trans h.stands

/-- The caret selects characters, from a fixed end to where it is. -/
structure Selects (s : EditState) (caret : CaretId) (anchor offset : Nat) : Prop
    extends Lone s caret offset where
  coherent : s.modes.Coherent
  mode : s.mode = .visual .character
  starts : (s.view caret).Starts anchor offset

namespace Selects

theorem visual (h : s.Selects caret anchor offset) : s.mode.isVisual = true := by
  rw [h.mode]
  rfl

theorem withGuard (h : s.Selects caret anchor offset) (guard : SuppressionGuard) :
    Selects { s with editor := { s.editor with guard } } caret anchor offset :=
  ⟨h.toLone.withGuard guard, h.coherent, h.mode, h.starts⟩

theorem withModes (h : s.Selects caret anchor offset) {modes : ModeMachine}
    (hcoherent : modes.Coherent) (hmode : modes.mode = s.mode) :
    Selects { s with modes } caret anchor offset :=
  ⟨h.toLone.withModes modes, hcoherent, hmode.trans h.mode, h.starts⟩

theorem syncCarets (h : s.Selects caret anchor offset) :
    s.syncCarets.Selects caret anchor offset := by
  refine ⟨h.toLone.syncCarets, h.coherent, h.mode, ?_⟩
  rw [view_syncCarets_of_starts h.toAnchored h.mem h.starts]
  exact h.starts

theorem prepared (h : s.Selects caret anchor offset) : s.prepared.Selects caret anchor offset :=
  (h.withGuard s.lock.2.editor.guard).syncCarets

/-- A caret that has been moved, or its fixed end, shows the selection between them. -/
theorem shown {t : EditState} (h : s.Selects caret anchor offset) (hmoved : Stays s t)
    {start target : Nat} (hstarts : (t.view caret).Starts start target) :
    (t.updateSelection caret).Selects caret start target := by
  have hids := hmoved.ids.trans h.ids
  have htouches := updateSelection_touches hmoved.anchored caret
  have hkind : t.mode.selectionKind? = some .character := by
    rw [hmoved.mode, h.mode]
    rfl
  have hshows := updateSelection_shows hmoved.anchored (by rw [hids]; exact List.mem_cons_self)
    hkind hstarts
  refine ⟨h.toLone.of_stays (hmoved.trans htouches.toStays) hshows.stands, ?_, ?_, hshows.toStarts⟩
  · rw [htouches.modes, hmoved.modes]
    exact h.coherent
  · rw [htouches.mode, hmoved.mode]
    exact h.mode

theorem updateSelections (h : s.Selects caret anchor offset) :
    s.updateSelections.Selects caret anchor offset := by
  rw [EditState.updateSelections, h.toLone.forCarets]
  exact h.shown (syncCarets_stays h.toAnchored) h.syncCarets.starts

end Selects

/-- A selection begins where the caret is. -/
theorem Lone.startSelection (h : s.Lone caret offset) (hcoherent : s.modes.Coherent) :
    (s.startSelection (.visual .character)).Selects caret offset offset := by
  have hmarked := h.syncCarets.modifyCaret caret fun state ↦
    { state with selectionStart := some state.offset }
  have hstarts : ((s.syncCarets.modifyCaret caret fun state ↦
      { state with selectionStart := some state.offset }).view caret).Starts offset offset := by
    rw [view_modifyCaret, view_syncCarets h.editor h.mem h.stands]
    exact ⟨rfl, _, rfl, rfl, rfl⟩
  unfold EditState.startSelection
  rw [h.forCarets]
  obtain ⟨modes, hentered, hmode, hmodes⟩ :=
    enterMode_eq (s := s.syncCarets.modifyCaret caret fun state ↦
    { state with selectionStart := some state.offset }) hcoherent (.visual .character)
  dsimp only
  rw [hentered]
  exact Selects.updateSelections ⟨hmarked.withModes modes, hmodes, hmode, hstarts⟩

namespace Selects

/-- A motion takes the caret along, and the fixed end stays. -/
theorem applyMotion (h : s.Selects caret anchor offset) (call : ActionCall) {f : Motion}
    {destination : Nat} (hf : ∀ state, state.offset = offset →
      f (s.motionContext call caret state) = some destination) :
    (s.applyMotion call f).2.Selects caret anchor
      (min (s.text.normalize destination false) s.text.length) := by
  have hsynced := h.syncCarets
  obtain ⟨-, state, hstate, hoffset, -⟩ := hsynced.starts
  have hallow : (s.motionContext call caret state).allowEnd = false := by
    unfold MotionContext.allowEnd
    rw [show (s.motionContext call caret state).mode = _ from h.mode]
    rfl
  generalize htarget : s.text.normalize destination false = target
  have hmoved := moveCaret_touches hsynced.toAnchored caret target
  have hmarked := hmoved.trans (modifyCaret_touches hmoved.anchored caret
    ({ · with goal := goalAfter call (s.motionContext call caret state).goal }))
  have hstarts := modifyCaret_starts
    (f := ({ · with goal := goalAfter call (s.motionContext call caret state).goal }))
    (moveCaret_starts hsynced.toAnchored hsynced.mem hsynced.starts target) fun _ ↦ ⟨rfl, rfl⟩
  have hshown := hsynced.shown hmarked.toStays hstarts
  have hvisible : (((s.syncCarets.moveCaret caret target).modifyCaret caret
      ({ · with goal := goalAfter call (s.motionContext call caret state).goal })).showSelection
        caret) =
      ((s.syncCarets.moveCaret caret target).modifyCaret caret
        ({ · with goal := goalAfter call (s.motionContext call caret state).goal })).updateSelection
          caret := by
    rw [showSelection, hmarked.mode, show s.syncCarets.mode = _ from h.mode]
    rfl
  have hrun : applyMotionTo call f caret false s.syncCarets = (true,
      ((s.syncCarets.moveCaret caret target).modifyCaret caret
        ({ · with goal := goalAfter call (s.motionContext call caret state).goal })).updateSelection
          caret) := by
    unfold applyMotionTo
    rw [show s.syncCarets.carets.get? caret = some state from hstate]
    dsimp only
    rw [show f (s.syncCarets.motionContext call caret state) =
      some destination from hf state hoffset]
    dsimp only
    rw [show (s.syncCarets.motionContext call caret state).allowEnd = false from hallow,
      show s.syncCarets.text.normalize destination false = target from htarget]
    exact congrArg (Prod.mk true) hvisible
  unfold EditState.applyMotion
  rw [h.toLone.foldCarets, hrun]
  exact hshown

/-- A text object puts both ends around itself. -/
theorem selectTextObject (h : s.Selects caret anchor offset) (call : ActionCall) {f : TextObject}
    {r : TextRange} (hinclusive : call.flags.inclusive = false) (hne : r.isEmpty = false)
    (hf : ∀ state goal, state.offset = offset →
      f { s.motionContext call caret state with goal } = some r) :
    (s.selectTextObject call f).2.Selects caret r.start
      (min (max (r.stop - 1) r.start) s.text.length) := by
  have hsynced := h.syncCarets
  obtain ⟨hstands, state, hstate, hoffset, hanchor⟩ := hsynced.starts
  have hmarked := modifyCaret_touches hsynced.toAnchored caret
    ({ · with selectionStart := some r.start, goal := none })
  have hstarts : ((s.syncCarets.modifyCaret caret
      ({ · with selectionStart := some r.start, goal := none })).view caret).Starts r.start
        offset := by
    rw [view_modifyCaret, hstate]
    exact ⟨hstands, _, rfl, hoffset, rfl⟩
  have hmem : caret ∈ (s.syncCarets.modifyCaret caret
      ({ · with selectionStart := some r.start, goal := none })).editor.caretIds := hsynced.mem
  have hmoved := hmarked.trans (moveCaret_touches hmarked.anchored caret (max (r.stop - 1) r.start))
  have hshown := hsynced.shown hmoved.toStays
    (moveCaret_starts hmarked.anchored hmem hstarts (max (r.stop - 1) r.start))
  have hrun : selectTextObjectAt call f caret false s.syncCarets = (true,
      ((s.syncCarets.modifyCaret caret
        ({ · with selectionStart := some r.start, goal := none })).moveCaret caret
        (max (r.stop - 1) r.start)).updateSelection caret) := by
    unfold selectTextObjectAt
    rw [show s.syncCarets.carets.get? caret = some state from hstate]
    dsimp only
    have hcovers := hf state (.cell (s.text.visualColumn state.offset)) hoffset
    rw [show f { s.syncCarets.motionContext call caret state with
        goal := .cell (s.syncCarets.text.visualColumn state.offset) } = some r from hcovers,
      Option.filter_some, hne, hinclusive]
    rfl
  unfold EditState.selectTextObject
  rw [if_pos h.visual, h.toLone.foldCarets, hrun]
  exact hshown

/-- An operator is given the selection, and acts on it in the normal mode. -/
theorem operateOnSelections (h : s.Selects caret anchor offset) (command : Command)
    (hlines : command.flags.linewise = false) (body : Operator) :
    ∃ t : EditState, t.Lone caret offset ∧ t.modes.Coherent ∧ t.text = s.text ∧
      t.editor.registers = s.editor.registers ∧ s.operateOnSelections command body =
        t.operate command.toActionCall body
          [(caret, Span.selection s.text anchor offset .character false false)] := by
  obtain ⟨-, state, hstate, hoffset, hanchor⟩ := h.syncCarets.starts
  have hranges : s.syncCarets.selectedRanges .character command.flags.linewise =
      [(caret, Span.selection s.text anchor offset .character false false)] := by
    have hselect : s.mode.isSelect = false := by
      rw [h.mode]
      rfl
    unfold selectedRanges
    rw [h.toLone.orderedByOffset, List.filterMap_cons, List.filterMap_nil,
      show s.syncCarets.carets.get? caret = some state from hstate, hlines, ← hoffset]
    show [(caret, Span.selection s.text (state.selectionStart.getD state.offset)
      state.offset .character
      s.mode.isSelect false)] = _
    rw [hanchor, hselect]
    rfl
  have hleft : Moves s (s.syncCarets.clearSelections.setMode .normal).2 :=
    ((Step.syncCarets s).steps.trans (clearSelections_moves _)).trans
      (setMode_moves _ Mode.noConfusion)
  refine ⟨(s.syncCarets.clearSelections.setMode .normal).2, ?_,
    hleft.rearranges.modes.coherent h.coherent,
    hleft.rearranges.editor.text, hleft.rearranges.editor.registers, ?_⟩
  · rw [setMode_snd]
    exact h.syncCarets.toLone.clearSelections.withModes _
  · rw [operateOnSelections_of_mode (by rw [h.mode]; rfl), hranges]

end Selects

end EditState

end ModalEdit
