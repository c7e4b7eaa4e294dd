import ModalEdit.Proofs.ClearStates
import ModalEdit.Proofs.LineEnds

/-!
Selections that agree with their carets. In a mode that selects, each caret remembers a fixed end,
and the editor shows for it the selection from there to where it is (`CaretView.Shows`); in any
other mode there are no selections (`EditState.Agrees`). Motions, text objects and the ways between
the modes keep this, for each caret as its own visit leaves it.
-/

set_option autoImplicit false
set_option relaxedAutoImplicit false

namespace ModalEdit

namespace CaretView

/-- A caret is where it is remembered to be, and remembers the fixed end of a selection. -/
structure Starts (v : CaretView) (anchor offset : Nat) : Prop where
  stands : v.offset? = some offset
  remembered : ∃ state, v.state? = some state ∧ state.offset = offset ∧ state.selectionStart =
    some anchor

/-- A caret shows the selection from its fixed end to where it is. -/
structure Shows (v : CaretView) (t : Text) (kind : SelectionKind) (select : Bool)
    (anchor offset : Nat) : Prop
    extends Starts v anchor offset where
  selection : v.selection? = some ((Span.selection t anchor offset kind select false).start,
    (Span.selection t anchor offset kind select false).stop)

def Started (v : CaretView) : Prop := ∃ anchor offset, v.Starts anchor offset

def Shown (v : CaretView) (t : Text) (kind : SelectionKind) (select : Bool) : Prop :=
  ∃ anchor offset, v.Shows t kind select anchor offset

theorem Shown.started {v : CaretView} {t : Text} {kind : SelectionKind} {select : Bool}
    (h : v.Shown t kind select) : v.Started := by
  obtain ⟨anchor, offset, hshows⟩ := h
  exact ⟨anchor, offset, hshows.toStarts⟩

end CaretView

namespace EditState

open CaretView

variable {s t : EditState} {caret : CaretId} {kind : SelectionKind}

/-! ### One caret -/

theorem view_modifyCaret (s : EditState) (caret : CaretId) (f : CaretState → CaretState) :
    (s.modifyCaret caret f).view caret =
      { s.view caret with state? := (s.view caret).state?.map f } := by
  unfold view modifyCaret
  dsimp only
  rw [CaretTable.get?_modify, if_pos rfl]
  rfl

theorem view_moveCaret (h : s.Anchored) (hmem : caret ∈ s.editor.caretIds) (offset : Nat) :
    (s.moveCaret caret offset).view caret = ⟨some (min offset s.text.length),
      (s.view caret).selection?, (s.view caret).state?.map
        ({ · with offset := min offset s.text.length })⟩ := by
  have hoffset := h.editor.caretOffset?_moveCaret hmem offset
  have hselection := h.editor.selection?_moveCaret caret offset
  rw [moveCaret, view_modifyCaret]
  unfold view caretOffset?
  dsimp only
  rw [hoffset, hselection]
  rfl

/-- A caret that is where it is remembered to be is not touched when the table is brought in line.
-/
theorem view_syncCarets_of_starts (h : s.Anchored) (hmem : caret ∈ s.editor.caretIds)
    {anchor offset : Nat} (hstarts : (s.view caret).Starts anchor offset) :
    s.syncCarets.view caret = s.view caret := by
  obtain ⟨hoffset, state, hstate, rfl, -⟩ := hstarts
  have hknown : s.carets.get? caret = some state := hstate
  rw [view_syncCarets h.editor hmem hoffset, hknown]
  show CaretView.mk (some state.offset) (s.editor.selection? caret) (some state) = s.view caret
  rw [← hstate, ← hoffset]
  rfl

/-- Wherever a caret goes, it keeps its fixed end. -/
theorem moveCaret_starts (h : s.Anchored) (hmem : caret ∈ s.editor.caretIds) {anchor offset : Nat}
    (hstarts : (s.view caret).Starts anchor offset) (target : Nat) :
    ((s.moveCaret caret target).view caret).Starts anchor (min target s.text.length) := by
  obtain ⟨-, state, hstate, -, hanchor⟩ := hstarts
  rw [view_moveCaret h hmem, hstate]
  exact ⟨rfl, _, rfl, rfl, hanchor⟩

theorem modifyCaret_starts {anchor offset : Nat} (hstarts : (s.view caret).Starts anchor offset)
    {f : CaretState → CaretState}
    (hf : ∀ state, (f state).offset = state.offset ∧
      (f state).selectionStart = state.selectionStart) :
    ((s.modifyCaret caret f).view caret).Starts anchor offset := by
  obtain ⟨hoffset, state, hstate, hsame, hanchor⟩ := hstarts
  rw [view_modifyCaret, hstate]
  exact ⟨hoffset, f state, rfl, (hf state).1.trans hsame, (hf state).2.trans hanchor⟩

/-- Of a caret with a fixed end, the selection from there is shown. -/
theorem updateSelection_shows (h : s.Anchored) (hmem : caret ∈ s.editor.caretIds)
    (hkind : s.mode.selectionKind? = some kind) {anchor offset : Nat}
    (hstarts : (s.view caret).Starts anchor offset) :
    ((s.updateSelection caret).view caret).Shows s.text kind s.mode.isSelect anchor offset := by
  obtain ⟨hoffset, state, hstate, rfl, hanchor⟩ := hstarts
  generalize hrange : Span.selection s.text anchor state.offset kind s.mode.isSelect false = range
  have hle : state.offset ≤ s.text.length := h.editor.caretOffset?_le hoffset
  have hstop : range.stop ≤ s.editor.text.length :=
    hrange ▸ Span.selection_stop_le hle anchor kind _ _
  have hselects := h.editor.setSelection_selects hmem range.start range.stop
  have hends : (min (min range.start range.stop) s.editor.text.length,
      min (max range.start range.stop) s.editor.text.length) = (range.start, range.stop) := by
    have hstart := range.start_le_stop
    rw [Nat.min_eq_left hstart, Nat.max_eq_right hstart, Nat.min_eq_left hstop,
      Nat.min_eq_left (Nat.le_trans hstart hstop)]
  have hupdated : s.updateSelection caret =
      { s with editor := s.editor.setSelection caret range.start range.stop } := by
    rw [← hrange]
    unfold updateSelection
    rw [hkind, show s.carets.get? caret = some state from hstate]
    dsimp only
    rw [hanchor]
    rfl
  rw [hupdated]
  refine ⟨⟨hselects.offset.trans hoffset, state, hstate, rfl, hanchor⟩, ?_⟩
  rw [hrange, ← hends]
  exact hselects.selection

/-! ### States that agree -/

/-- The mode selects, and each caret shows its selection. -/
structure Selecting (s : EditState) (kind : SelectionKind) : Prop extends Anchored s where
  coherent : s.modes.Coherent
  mode : s.mode.selectionKind? = some kind
  shown : ∀ caret ∈ s.editor.caretIds, (s.view caret).Shown s.text kind s.mode.isSelect

/-- Either no selection is there, or one of each caret. -/
def Agrees (s : EditState) : Prop := s.Plain ∨ ∃ kind, s.Selecting kind

theorem Agrees.anchored (h : s.Agrees) :
    s.Anchored := h.elim (·.toAnchored) fun ⟨_, h⟩ ↦ h.toAnchored

theorem Agrees.coherent (h : s.Agrees) :
    s.modes.Coherent := h.elim (·.coherent) fun ⟨_, h⟩ ↦ h.coherent

theorem Agrees.plain (h : s.Agrees) (hmode : s.mode.selectionKind? = none) : s.Plain := by
  rcases h with hplain | ⟨kind, hselecting⟩
  · exact hplain
  · rw [hselecting.mode] at hmode
    cases hmode

theorem Agrees.selecting (h : s.Agrees) (hmode : s.mode.selectionKind? = some kind) :
    s.Selecting kind := by
  rcases h with hplain | ⟨other, hselecting⟩
  · rw [hplain.mode] at hmode
    cases hmode
  · obtain rfl := Option.some.inj (hselecting.mode.symm.trans hmode)
    exact hselecting

/-- Nothing is changed that a selection depends on. -/
theorem Selecting.of_same (h : s.Selecting kind) (hstays : Stays s t)
    (hview : ∀ caret ∈ s.editor.caretIds, t.view caret = s.view caret) : t.Selecting kind := by
  refine ⟨hstays.anchored, ?_, ?_, ?_⟩
  · rw [hstays.modes]
    exact h.coherent
  · rw [hstays.mode]
    exact h.mode
  · intro caret hcaret
    rw [hstays.ids] at hcaret
    rw [hview caret hcaret, hstays.text, hstays.mode]
    exact h.shown caret hcaret

/-- Each caret ends with its selection shown. -/
theorem Selecting.of_visits (h : s.Selecting kind) (hstays : Stays s t)
    (hshown : ∀ caret ∈ s.editor.caretIds, (t.view caret).Shown s.text kind s.mode.isSelect) :
    t.Selecting kind := by
  refine ⟨hstays.anchored, ?_, ?_, ?_⟩
  · rw [hstays.modes]
    exact h.coherent
  · rw [hstays.mode]
    exact h.mode
  · intro caret hcaret
    rw [hstays.ids] at hcaret
    rw [hstays.text, hstays.mode]
    exact hshown caret hcaret

theorem Selecting.not_plain_mode (h : s.Selecting kind) :
    (s.mode.isVisual || s.mode.isSelect) = true := by
  have hmode := h.mode
  cases hcase : s.mode with
  | visual kind | select kind => rfl
  | _ =>
    rw [hcase] at hmode
    cases hmode

theorem Selecting.view_syncCarets (h : s.Selecting kind) (hmem : caret ∈ s.editor.caretIds) :
    s.syncCarets.view caret = s.view caret := by
  obtain ⟨anchor, offset, hshows⟩ := h.shown caret hmem
  exact view_syncCarets_of_starts h.toAnchored hmem hshows.toStarts

theorem Selecting.syncCarets (h : s.Selecting kind) : s.syncCarets.Selecting kind :=
  h.of_same (syncCarets_stays h.toAnchored) fun _ hcaret ↦ h.view_syncCarets hcaret

theorem Selecting.bell (h : s.Selecting kind) : s.bell.Selecting kind :=
  h.of_same ⟨⟨Editor.Move.anchored (.bell s.editor) h.editor, h.carets⟩, rfl, rfl, rfl⟩ fun _ _ ↦
    rfl

theorem Selecting.withCmdline (h : s.Selecting kind) (cmdline : Text) :
    Selecting { s with cmdline } kind :=
  h.of_same ⟨⟨h.editor, h.carets⟩, rfl, rfl, rfl⟩ fun _ _ ↦ rfl

theorem Agrees.bell (h : s.Agrees) : s.bell.Agrees :=
  h.imp (·.bell) fun ⟨kind, h⟩ ↦ ⟨kind, h.bell⟩

theorem Agrees.syncCarets (h : s.Agrees) : s.syncCarets.Agrees :=
  h.imp (·.syncCarets) fun ⟨kind, h⟩ ↦ ⟨kind, h.syncCarets⟩

theorem Agrees.finish {result : Bool × EditState} (h : result.2.Agrees) :
    (finish result).2.Agrees := by
  obtain ⟨done, t⟩ := result
  cases done with
  | true => exact h
  | false => exact h.bell

/-! ### Selections that begin and change their kind -/

theorem updateSelections_selecting (h : s.Anchored) (hcoherent : s.modes.Coherent)
    (hkind : s.mode.selectionKind? = some kind)
    (hstarted : ∀ caret ∈ s.editor.caretIds, (s.view caret).Started) :
    s.updateSelections.Selecting kind := by
  obtain ⟨hstays, hshown⟩ := forCarets_visits (P := Started)
    (Q := fun v ↦ v.Shown s.text kind s.mode.isSelect) h
    (fun caret t ht ↦ updateSelection_touches ht caret)
    (fun caret hcaret ↦ by
      obtain ⟨anchor, offset, hstarts⟩ := hstarted caret hcaret
      rw [view_syncCarets_of_starts h hcaret hstarts]
      exact ⟨anchor, offset, hstarts⟩)
    (fun caret t hstays hmem ⟨anchor, offset, hstarts⟩ ↦ by
      rw [← hstays.text, ← hstays.mode]
      exact ⟨anchor, offset, updateSelection_shows hstays.anchored hmem (by rwa [hstays.mode])
        hstarts⟩)
  refine ⟨hstays.anchored, ?_, ?_, ?_⟩
  · exact hstays.modes ▸ hcoherent
  · exact hstays.mode ▸ hkind
  · intro caret hcaret
    rw [updateSelections, hstays.text, hstays.mode]
    exact hshown caret (hstays.ids ▸ hcaret)

/-- With the table in line, each caret is where it is remembered to be. -/
theorem view_syncCarets_placed (h : s.Anchored) (hmem : caret ∈ s.editor.caretIds) :
    ∃ state, (s.syncCarets.view caret).state? = some state ∧
      (s.syncCarets.view caret).offset? = some state.offset := by
  obtain ⟨offset, -, hoffset⟩ := h.editor.exists_caretOffset? hmem
  rw [view_syncCarets h.editor hmem hoffset]
  exact ⟨_, rfl, rfl⟩

theorem startSelection_selecting (h : s.Anchored) (hcoherent : s.modes.Coherent) {target : Mode}
    (hkind : target.selectionKind? = some kind) : (s.startSelection target).Selecting kind := by
  obtain ⟨hstays, hstarted⟩ := forCarets_visits (Q := Started)
    (P := fun v ↦ ∃ state, v.state? = some state ∧ v.offset? = some state.offset)
    (f := fun caret s ↦ s.modifyCaret caret fun state ↦
      { state with selectionStart := some state.offset }) h
    (fun caret t ht ↦ modifyCaret_touches ht caret _)
    (fun caret hcaret ↦ view_syncCarets_placed h hcaret)
    (fun caret t hstays hmem ⟨state, hstate, hoffset⟩ ↦ by
      rw [view_modifyCaret, hstate]
      exact ⟨state.offset, state.offset, hoffset, _, rfl, rfl, rfl⟩)
  unfold startSelection
  dsimp only
  generalize s.forCarets _ = marked at hstays hstarted
  obtain ⟨modes, hentered, hmode, hmodes⟩ :=
    enterMode_eq (s := marked) (hstays.modes ▸ hcoherent) target
  rw [hentered]
  refine updateSelections_selecting ⟨hstays.anchored.editor, hstays.anchored.carets⟩ hmodes ?_ ?_
  · show modes.mode.selectionKind? = some kind
    rwa [hmode]
  · intro caret hcaret
    exact hstarted caret (hstays.ids ▸ hcaret)

theorem moveCaret_updateSelection_touches (h : s.Anchored) (caret : CaretId) (target : Nat) :
    Touches caret s ((s.moveCaret caret target).updateSelection caret) :=
  (moveCaret_touches h caret target).trans
    (updateSelection_touches (moveCaret_touches h caret target).anchored caret)

/-- A caret that is moved with its selection shows it after. -/
theorem moveCaret_updateSelection_shown (h : s.Anchored) (hmem : caret ∈ s.editor.caretIds)
    (hkind : s.mode.selectionKind? = some kind) (hstarted : (s.view caret).Started) (target : Nat) :
    (((s.moveCaret caret target).updateSelection caret).view caret).Shown s.text kind
      s.mode.isSelect := by
  obtain ⟨anchor, offset, hstarts⟩ := hstarted
  have hmoved := moveCaret_touches h caret target
  have hshows := updateSelection_shows hmoved.anchored (by rwa [hmoved.ids]) hkind
    (moveCaret_starts h hmem hstarts target)
  rw [hmoved.text] at hshows
  exact ⟨_, _, hshows⟩

theorem startSelect_selecting (h : s.Anchored) (hcoherent : s.modes.Coherent)
    (kind : SelectionKind) :
    (s.startSelect kind).Selecting kind := by
  have hstarted : (s.startSelection (.select kind)).Selecting kind :=
    startSelection_selecting h hcoherent rfl
  unfold startSelect
  dsimp only
  generalize s.startSelection (.select kind) = started at hstarted
  split
  · generalize hwidened : started.forCarets _ = widened
    have hvisits : Stays started widened ∧
        ∀ caret ∈ started.editor.caretIds, (widened.view caret).Shown started.text kind
          started.mode.isSelect := by
      rw [← hwidened]
      refine forCarets_visits (P := fun v ↦ v.Shown started.text kind started.mode.isSelect)
        (Q := fun v ↦ v.Shown started.text kind started.mode.isSelect) hstarted.toAnchored
        (fun caret t ht ↦ ?_) (fun caret hcaret ↦ ?_) fun caret t hstays hmem hshown ↦ ?_
      · split
        · exact .refl ht caret
        · exact moveCaret_updateSelection_touches ht caret _
      · rw [hstarted.view_syncCarets hcaret]
        exact hstarted.shown caret hcaret
      · split
        · exact hshown
        · rw [← hstays.text, ← hstays.mode]
          exact moveCaret_updateSelection_shown hstays.anchored hmem (hstays.mode ▸ hstarted.mode)
            hshown.started _
    exact hstarted.of_visits hvisits.1 hvisits.2
  · exact hstarted

theorem Selecting.changeSelectionMode (h : s.Selecting kind) {target : Mode} {other : SelectionKind}
    (htarget : target.selectionKind? = some other)
    (hlegal : s.modes.mode.isLegal target s.modes.parent = true) (toSelect : Bool) :
    (s.changeSelectionMode target toSelect).Selecting other := by
  unfold EditState.changeSelectionMode
  dsimp only
  generalize hmoved : s.forCarets _ = moved
  obtain ⟨hstays, hstarted⟩ :
      Stays s moved ∧ ∀ caret ∈ s.editor.caretIds, (moved.view caret).Started := by
    rw [← hmoved]
    refine forCarets_visits (P := Started) (Q := Started) h.toAnchored
      (fun caret t ht ↦ ?_) (fun caret hcaret ↦ ?_) fun caret t hstays hmem hstarted ↦ ?_
    · split
      · exact .refl ht caret
      · split
        · exact .refl ht caret
        · exact moveCaret_touches ht caret _
    · rw [h.view_syncCarets hcaret]
      exact (h.shown caret hcaret).started
    · split
      · exact hstarted
      · split
        · exact hstarted
        · obtain ⟨anchor, offset, hstarts⟩ := hstarted
          exact ⟨anchor, _, moveCaret_starts hstays.anchored hmem hstarts _⟩
  have hmode : (moved.modes.tryTransition target).mode = target :=
    ModeMachine.tryTransition_mode_of_legal (by rwa [hstays.modes])
  rw [setMode_snd]
  refine updateSelections_selecting ⟨hstays.anchored.editor, hstays.anchored.carets⟩
    (ModeMachine.tryTransition_coherent (hstays.modes ▸ h.coherent) target) ?_ ?_
  · show (moved.modes.tryTransition target).mode.selectionKind? = some other
    rwa [hmode]
  · exact fun caret hcaret ↦ hstarted caret (hstays.ids ▸ hcaret)

theorem Agrees.toggleVisualSelect (h : s.Agrees) : s.toggleVisualSelect.Agrees := by
  unfold EditState.toggleVisualSelect
  split
  · next kind hmode =>
    have hlegal : s.modes.mode.isLegal (.select kind) s.modes.parent = true := by
      rw [show s.modes.mode = .visual kind from hmode]
      rfl
    exact .inr ⟨kind, (h.selecting (by rw [hmode]; rfl)).changeSelectionMode rfl hlegal true⟩
  · next kind hmode =>
    have hlegal : s.modes.mode.isLegal (.visual kind) s.modes.parent = true := by
      rw [show s.modes.mode = .select kind from hmode]
      rfl
    exact .inr ⟨kind, (h.selecting (by rw [hmode]; rfl)).changeSelectionMode rfl hlegal false⟩
  · exact h

theorem Agrees.toggleVisual (h : s.Agrees) (kind : SelectionKind) :
    (s.toggleVisual kind).Agrees := by
  unfold EditState.toggleVisual
  split
  · next current hmode =>
    split
    · exact .inl (exitToNormal_plain h.anchored h.coherent)
    · have hselecting := h.selecting (show s.mode.selectionKind? = some current by rw [hmode]; rfl)
      have hlegal : s.modes.mode.isLegal (.visual kind) s.modes.parent = true := by
        rw [show s.modes.mode = .visual current from hmode]
        rfl
      rw [setMode_snd]
      refine .inr ⟨kind, updateSelections_selecting ⟨h.anchored.editor, h.anchored.carets⟩
        (ModeMachine.tryTransition_coherent h.coherent _) ?_ fun caret hcaret ↦
          (hselecting.shown caret hcaret).started⟩
      show (s.modes.tryTransition (.visual kind)).mode.selectionKind? = some kind
      rw [ModeMachine.tryTransition_mode_of_legal hlegal]
      rfl
  · exact .inr ⟨kind, startSelection_selecting h.anchored h.coherent rfl⟩

/-! ### Motions and text objects -/

theorem showSelection_touches (h : s.Anchored) (caret : CaretId) :
    Touches caret s (s.showSelection caret) := by
  unfold showSelection
  split
  · exact updateSelection_touches h caret
  · exact .refl h caret

theorem applyMotionTo_touches (h : s.Anchored) (call : ActionCall) (f : Motion) (caret : CaretId)
    (done : Bool) :
    Touches caret s (applyMotionTo call f caret done s).2 := by
  unfold applyMotionTo
  split
  · exact .refl h caret
  · next state _ =>
    dsimp only
    split
    · exact .refl h caret
    · next destination _ =>
      generalize s.text.normalize destination (s.motionContext call caret state).allowEnd = target
      have hmoved := moveCaret_touches h caret target
      have hmarked := hmoved.trans (modifyCaret_touches hmoved.anchored caret
        ({ · with goal := goalAfter call (s.motionContext call caret state).goal }))
      exact hmarked.trans (showSelection_touches hmarked.anchored caret)

/-- A caret takes its selection along if it is moved, and keeps it if the motion fails. -/
theorem applyMotionTo_shown (h : s.Anchored) (hmem : caret ∈ s.editor.caretIds)
    (hkind : s.mode.selectionKind? = some kind)
    (hshown : (s.view caret).Shown s.text kind s.mode.isSelect) (call : ActionCall) (f : Motion)
    (done : Bool) :
    ((applyMotionTo call f caret done s).2.view caret).Shown s.text kind s.mode.isSelect := by
  unfold applyMotionTo
  split
  · exact hshown
  · next state hstate =>
    dsimp only
    split
    · exact hshown
    · next destination hf =>
      generalize s.text.normalize destination (s.motionContext call caret state).allowEnd = target
      generalize goalAfter call (s.motionContext call caret state).goal = goal
      obtain ⟨anchor, offset, hshows⟩ := hshown
      have hmoved := moveCaret_touches h caret target
      have hmarked := hmoved.trans (modifyCaret_touches hmoved.anchored caret ({ · with goal }))
      have hstarts := modifyCaret_starts (f := ({ · with goal }))
        (moveCaret_starts h hmem hshows.toStarts target) fun _ ↦ ⟨rfl, rfl⟩
      generalize (s.moveCaret caret target).modifyCaret caret ({ · with goal }) =
        marked at hmarked hstarts
      have hselects : (marked.mode.isVisual || marked.mode.isSelect) = true := by
        rw [hmarked.mode]
        cases hmode : s.mode with
        | visual kind | select kind => rfl
        | _ =>
          rw [hmode] at hkind
          cases hkind
      have hdone := updateSelection_shows hmarked.anchored (by rwa [hmarked.ids])
        (by rwa [hmarked.mode]) hstarts
      rw [hmarked.text, hmarked.mode] at hdone
      rw [showSelection, if_pos hselects]
      exact ⟨_, _, hdone⟩

theorem Agrees.applyMotion (h : s.Agrees) (call : ActionCall) (f : Motion) :
    (s.applyMotion call f).2.Agrees := by
  rcases h with hplain | ⟨kind, h⟩
  · exact .inl (hplain.applyMotion call f)
  · obtain ⟨hstays, hshown⟩ := foldCarets_visits (f := applyMotionTo call f)
      (P := fun v ↦ v.Shown s.text kind s.mode.isSelect)
        (Q := fun v ↦ v.Shown s.text kind s.mode.isSelect)
      h.toAnchored false
      (fun caret done t ht ↦ applyMotionTo_touches ht call f caret done)
      (fun caret hcaret ↦ by
        rw [h.view_syncCarets hcaret]
        exact h.shown caret hcaret)
      (fun caret done t hstays hmem hshown ↦ by
        rw [← hstays.text, ← hstays.mode] at hshown ⊢
        exact applyMotionTo_shown hstays.anchored hmem (hstays.mode ▸ h.mode) hshown call f done)
    exact Agrees.finish (.inr ⟨kind, h.of_visits hstays hshown⟩)

theorem selectTextObjectAt_touches (h : s.Anchored) (call : ActionCall) (f : TextObject)
    (caret : CaretId) (done : Bool) :
    Touches caret s (selectTextObjectAt call f caret done s).2 := by
  unfold selectTextObjectAt
  split
  · exact .refl h caret
  · dsimp only
    split
    · exact .refl h caret
    · have hmarked := modifyCaret_touches h caret
      exact (hmarked _).trans (moveCaret_updateSelection_touches (hmarked _).anchored caret _)

theorem selectTextObjectAt_shown (h : s.Anchored) (hmem : caret ∈ s.editor.caretIds)
    (hkind : s.mode.selectionKind? = some kind)
    (hshown : (s.view caret).Shown s.text kind s.mode.isSelect) (call : ActionCall) (f : TextObject)
    (done : Bool) :
    ((selectTextObjectAt call f caret done s).2.view caret).Shown s.text kind s.mode.isSelect := by
  unfold selectTextObjectAt
  split
  · exact hshown
  · dsimp only
    split
    · exact hshown
    · next r hr =>
      obtain ⟨-, offset, ⟨hoffset, before, hbefore, hsame, -⟩, -⟩ := hshown
      have hstarted : ((s.modifyCaret caret
          ({ · with selectionStart := some r.start, goal := none })).view caret).Starts
            r.start offset := by
        rw [view_modifyCaret, hbefore]
        exact ⟨hoffset, _, rfl, hsame, rfl⟩
      exact moveCaret_updateSelection_shown (modifyCaret_touches h caret _).anchored hmem hkind
        ⟨_, _, hstarted⟩ _

theorem Agrees.selectTextObject (h : s.Agrees) (call : ActionCall) (f : TextObject) :
    (s.selectTextObject call f).2.Agrees := by
  rcases h with hplain | ⟨kind, h⟩
  · exact .inl (hplain.selectTextObject call f)
  · unfold EditState.selectTextObject
    split
    · obtain ⟨hstays, hshown⟩ := foldCarets_visits (f := selectTextObjectAt call f)
        (P := fun v ↦ v.Shown s.text kind s.mode.isSelect)
          (Q := fun v ↦ v.Shown s.text kind s.mode.isSelect)
        h.toAnchored false
        (fun caret done t ht ↦ selectTextObjectAt_touches ht call f caret done)
        (fun caret hcaret ↦ by
          rw [h.view_syncCarets hcaret]
          exact h.shown caret hcaret)
        (fun caret done t hstays hmem hshown ↦ by
          rw [← hstays.text, ← hstays.mode] at hshown ⊢
          exact selectTextObjectAt_shown hstays.anchored hmem (hstays.mode ▸ h.mode) hshown call f
            done)
      exact Agrees.finish (.inr ⟨kind, h.of_visits hstays hshown⟩)
    · exact .inr ⟨kind, h.bell⟩

/-! ### Operators -/

theorem operateOnSelections_of_mode {kind : SelectionKind} (h : s.mode.selectionKind? = some kind)
    (command : Command) (body : Operator) : s.operateOnSelections command body =
      (s.syncCarets.clearSelections.setMode .normal).2.operate command.toActionCall body
        (s.syncCarets.selectedRanges kind command.flags.linewise) := by
  unfold operateOnSelections
  rw [h]

/-! ### Special keys, typing and the command line -/

theorem Agrees.adaptSelection (h : s.Agrees) (options : Options) (shifted : Bool) :
    (s.adaptSelection options shifted).Agrees := by
  have hstarted (target : Mode) {kind : SelectionKind}
      (htarget : target.selectionKind? = some kind) :
      (s.startSelection target).Agrees :=
        .inr ⟨kind, startSelection_selecting h.anchored h.coherent htarget⟩
  have hstopped (stops : Bool) : (if stops then s.exitToNormal else s).Agrees := by
    cases stops with
    | true => exact .inl (exitToNormal_plain h.anchored h.coherent)
    | false => exact h
  unfold EditState.adaptSelection
  dsimp only
  split
  · split
    · split
      · exact hstarted _ rfl
      · exact hstarted _ rfl
    · exact h
  · split
    · exact hstopped _
    · exact h

theorem Agrees.specialKey (h : s.Agrees) (around : Surroundings) (command : Command) :
    (s.specialKey around command).Agrees := by
  unfold EditState.specialKey
  split
  · exact h
  · split
    · exact h
    · exact (h.adaptSelection around.options _).applyMotion _ _

theorem Agrees.typeKeys (h : s.Agrees) (keys : Keys) : (s.typeKeys keys).2.Agrees := by
  rcases h with hplain | ⟨kind, h⟩
  · exact .inl (hplain.typeKeys keys)
  · have hreplaced := replaceSelections_plain h.toAnchored h.coherent
    have hselects := h.mode
    unfold EditState.typeKeys
    dsimp only
    split
    · exact .inl hreplaced
    · split
      · exact .inr ⟨kind, h.bell⟩
      · split
        · next hmode =>
          rw [hmode] at hselects
          cases hselects
        · next hmode =>
          rw [hmode] at hselects
          cases hselects
        · exact .inl (plain_keptByTyping.insertAtCarets hreplaced _)
        · next hmode =>
          rw [hmode] at hselects
          cases hselects
        · exact .inr ⟨kind, h.bell⟩

theorem Agrees.openCommandLine (h : s.Agrees) : s.openCommandLine.Agrees := by
  rcases h with hplain | ⟨kind, h⟩
  · exact .inl hplain.openCommandLine
  · unfold EditState.openCommandLine
    split
    · exact .inl (((exitToNormal_plain h.toAnchored h.coherent).withCmdline []).setMode rfl)
    · next hvisual =>
      -- a select mode has no way to the command line
      have hselect : s.modes.mode = .select kind := by
        have hmode := h.mode
        cases hcase : s.mode with
        | visual other =>
          rw [hcase] at hvisual
          exact absurd rfl hvisual
        | select other =>
          rw [hcase] at hmode
          exact hcase.trans (congrArg Mode.select (Option.some.inj hmode))
        | _ =>
          rw [hcase] at hmode
          cases hmode
      have hstuck : s.modes.tryTransition .commandLine = s.modes := by
        rcases s.modes.tryTransition_cases .commandLine with ⟨heq, -⟩ | ⟨-, -, hlegal⟩
        · exact heq
        · rw [hselect] at hlegal
          cases hlegal
      rw [setMode_snd, show ({ s with cmdline := [] } : EditState).modes.tryTransition .commandLine
        = s.modes
        from hstuck]
      exact .inr ⟨kind, h.withCmdline []⟩

end EditState

end ModalEdit
