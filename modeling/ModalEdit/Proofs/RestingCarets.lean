import ModalEdit.Proofs.CommandGrammar
import ModalEdit.Proofs.LinesAtCarets
import ModalEdit.Proofs.LoneSelection
import ModalEdit.Proofs.ReadCommands
import ModalEdit.Proofs.SelectionAgreement

/-!
Where a caret is in the normal mode. The modes in which nothing is typed or selected keep the caret
on a character (`EditState.Rested`): motions and the ways back to the normal mode normalize where it
goes, and so do operators but for one. What is deleted over lines leaves the caret on the indent of
the line that takes their place (`Operator.delete_lines`), which is past the last character of a
line of blanks. So in the normal mode the caret is on a character of its line or at the start of an
empty one, unless it is at the end of a line of blanks (`Session.caret_rests_iff_not_at_blank_end`),
where it may come to be (`Session.lines_deleted_above_blanks`).
-/

set_option autoImplicit false
set_option relaxedAutoImplicit false

namespace ModalEdit

open Relation (ReflTransGen)

/-- The modes in which a caret rests: nothing is typed into the text, and nothing is selected. -/
def Mode.isResting : Mode → Bool
  | normal | operatorPending | commandLine => true
  | _ => false

theorem Mode.cases_of_isResting {mode : Mode} (h : mode.isResting = true) :
    mode = .normal ∨ mode = .operatorPending ∨ mode = .commandLine := by
  cases mode with
  | normal => exact .inl rfl
  | operatorPending => exact .inr (.inl rfl)
  | commandLine => exact .inr (.inr rfl)
  | _ => cases h

theorem Mode.not_isResting_of_selects {mode : Mode} {kind : SelectionKind}
    (h : mode.selectionKind? = some kind) :
    mode.isResting = false := by
  cases mode with
  | visual _ | select _ => rfl
  | _ => cases h

theorem ModeMachine.tryTransition_busy {m : ModeMachine} {target : Mode}
    (hmode : m.mode.isResting = false) (htarget : target.isResting = false) :
    (m.tryTransition target).mode.isResting = false := by
  rcases m.tryTransition_cases target with ⟨heq, -⟩ | ⟨heq, -⟩
  · rwa [heq]
  · rwa [heq]

theorem Editor.Move.caretIds {e after : Editor} (h : Move e after) :
    after.caretIds = e.caretIds := by
  cases h with
  | bell => rfl
  | moveCaret caret offset =>
    show (e.moveCaret caret offset).carets.map _ = _
    rw [moveCaret_carets]
    rfl
  | setSelection caret a b => exact EditState.setSelection_caretIds e caret a b
  | removeSelection caret => exact caretIds_removeSelection e caret

namespace EditState

variable {s t : EditState} {caret : CaretId} {offset : Nat}

theorem Steps.moves_caretIds (h : Moves s t) : t.editor.caretIds = s.editor.caretIds := by
  refine h.keeps (P := fun t ↦ t.editor.caretIds = s.editor.caretIds) (fun hstep hbefore ↦ ?_) rfl
  cases hstep with
  | editor hmove => exact hmove.caretIds.trans hbefore
  | _ => exact hbefore

/-- There is one caret, and it rests where the mode has it rest. -/
structure Resting (s : EditState) (caret : CaretId) (offset : Nat) : Prop
    extends Lone s caret offset where
  coherent : s.modes.Coherent
  rests : s.mode.isResting = true → s.text.Rests offset

def Rested (caret : CaretId) (s : EditState) : Prop := ∃ offset, s.Resting caret offset

/-- In the other modes a caret may be anywhere. -/
theorem Lone.rested_of_moves (h : s.Lone caret offset) (hcoherent : s.modes.Coherent)
    (hmoves : Moves s t) (hmode : t.mode.isResting = false) : t.Rested caret := by
  obtain ⟨place, hlone⟩ :=
    exists_lone (hmoves.moves_anchored h.toAnchored) (hmoves.moves_caretIds.trans h.ids)
  refine ⟨place, hlone, hmoves.rearranges.modes.coherent hcoherent, fun hresting ↦ ?_⟩
  rw [hmode] at hresting
  cases hresting

theorem Lone.bell (h : s.Lone caret offset) : s.bell.Lone caret offset :=
  ⟨⟨Editor.Move.anchored (.bell s.editor) h.editor, h.carets⟩, h.ids, h.stands⟩

theorem Resting.syncCarets (h : s.Resting caret offset) : s.syncCarets.Resting caret offset :=
  ⟨h.toLone.syncCarets, h.coherent, h.rests⟩

theorem Resting.bell (h : s.Resting caret offset) : s.bell.Resting caret offset :=
  ⟨h.toLone.bell, h.coherent, h.rests⟩

theorem Resting.withCmdline (h : s.Resting caret offset) (cmdline : Text) :
    Resting { s with cmdline } caret offset :=
  ⟨⟨⟨h.editor, h.carets⟩, h.ids, h.stands⟩, h.coherent, h.rests⟩

theorem Resting.withModes (h : s.Resting caret offset) {modes : ModeMachine}
    (hcoherent : modes.Coherent) (hmode : modes.mode.isResting = true → s.mode.isResting = true) :
    Resting { s with modes } caret offset :=
  ⟨h.toLone.withModes modes, hcoherent, fun hresting ↦ h.rests (hmode hresting)⟩

theorem Rested.syncCarets (h : s.Rested caret) :
    s.syncCarets.Rested caret := h.imp fun _ h ↦ h.syncCarets

theorem Rested.bell (h : s.Rested caret) : s.bell.Rested caret := h.imp fun _ h ↦ h.bell

theorem Rested.setMode (h : s.Rested caret) {target : Mode}
    (hmode : (s.modes.tryTransition target).mode.isResting = true → s.mode.isResting = true) :
    (s.setMode target).2.Rested caret := by
  obtain ⟨offset, h⟩ := h
  rw [setMode_snd]
  exact ⟨offset, h.withModes (ModeMachine.tryTransition_coherent h.coherent target) hmode⟩

/-! ### Ways into and out of the modes -/

/-- On the way back to the normal mode the caret is normalized. -/
theorem Lone.exitToNormal (h : s.Lone caret offset) (hcoherent : s.modes.Coherent) :
    s.exitToNormal.Rested caret := by
  have hmoves := s.exitToNormal_moves
  have hleft := (h.clearSelections.withModes s.clearSelections.modes.resetToNormal).moveAll
    fun t offset ↦ t.normalize offset false
  have htext : s.clearSelections.text = s.text := s.clearSelections_moves.rearranges.editor.text
  refine ⟨_, hleft, hmoves.rearranges.modes.coherent hcoherent, fun _ ↦ ?_⟩
  rw [EditState.text, hmoves.rearranges.editor.text]
  show s.text.Rests (min (s.clearSelections.text.normalize offset false)
    s.clearSelections.text.length)
  rw [htext, Nat.min_eq_left (s.text.normalize_le_length offset false)]
  exact s.text.rests_normalize offset

theorem Rested.exitToNormal (h : s.Rested caret) : s.exitToNormal.Rested caret := by
  obtain ⟨offset, h⟩ := h
  exact h.toLone.exitToNormal h.coherent

theorem Rested.escape (h : s.Rested caret) : s.escape.Rested caret := by
  unfold EditState.escape
  split
  · exact h.bell
  · exact h.exitToNormal

theorem Rested.leaveInsert (h : s.Rested caret) : s.leaveInsert.Rested caret := by
  obtain ⟨offset, h⟩ := h
  have hmoved := h.toLone.moveAll fun t offset ↦ t.left offset 1
  unfold EditState.leaveInsert
  dsimp only
  rw [hmoved.forCarets]
  refine (hmoved.syncCarets.modifyCaret caret _).exitToNormal ?_
  show (s.moveAll fun t offset ↦ t.left offset 1).modes.Coherent
  rw [moveAll_modes]
  exact h.coherent

theorem Rested.cancel (h : s.Rested caret) : s.cancel.Rested caret := by
  unfold EditState.cancel
  split
  · exact h
  · exact h.leaveInsert
  · exact h.leaveInsert
  · obtain ⟨offset, h⟩ := h
    exact (h.withCmdline []).toLone.exitToNormal h.coherent
  · exact h.exitToNormal

theorem enterInsert_mode (h : s.modes.Coherent) (target : Mode) :
    (s.enterInsert target).mode = target := by
  obtain ⟨modes, hentered, hmode, -⟩ := enterMode_eq h target
  unfold EditState.enterInsert
  rw [hentered]
  exact (congrArg ModeMachine.mode (markInsertStart_modes { s with modes })).trans hmode

theorem Lone.enterInsert (h : s.Lone caret offset) (hcoherent : s.modes.Coherent) {target : Mode}
    (htarget : target ≠ .operatorPending) (hbusy : target.isResting = false) :
    (s.enterInsert target).Rested caret :=
  h.rested_of_moves hcoherent (s.enterInsert_moves htarget) (by rwa [enterInsert_mode hcoherent])

theorem Rested.enterInsert (h : s.Rested caret) {target : Mode}
    (htarget : target ≠ .operatorPending) (hbusy : target.isResting = false) :
    (s.enterInsert target).Rested caret := by
  obtain ⟨offset, h⟩ := h
  exact h.toLone.enterInsert h.coherent htarget hbusy

theorem Rested.insertAt (h : s.Rested caret) (destination : Text → Nat → Nat) :
    ((s.moveAll destination).enterInsert .insert).Rested caret := by
  obtain ⟨offset, h⟩ := h
  refine (h.toLone.moveAll destination).enterInsert ?_ Mode.noConfusion rfl
  rw [moveAll_modes]
  exact h.coherent

theorem Rested.startSelection (h : s.Rested caret) {target : Mode}
    (htarget : target ≠ .operatorPending) {kind : SelectionKind}
    (hkind : target.selectionKind? = some kind) : (s.startSelection target).Rested caret := by
  obtain ⟨offset, h⟩ := h
  exact h.toLone.rested_of_moves h.coherent (s.startSelection_moves htarget)
    (Mode.not_isResting_of_selects (startSelection_selecting h.toAnchored h.coherent hkind).mode)

theorem Rested.startSelect (h : s.Rested caret) (kind : SelectionKind) :
    (s.startSelect kind).Rested caret := by
  obtain ⟨offset, h⟩ := h
  exact h.toLone.rested_of_moves h.coherent (s.startSelect_moves kind)
    (Mode.not_isResting_of_selects (startSelect_selecting h.toAnchored h.coherent kind).mode)

theorem Rested.toggleVisual (h : s.Rested caret) (kind : SelectionKind) :
    (s.toggleVisual kind).Rested caret := by
  unfold EditState.toggleVisual
  split
  · next current hmode =>
    split
    · exact h.exitToNormal
    · obtain ⟨offset, h⟩ := h
      refine h.toLone.rested_of_moves h.coherent
        ((s.setMode_moves Mode.noConfusion).trans (updateSelections_moves _)) ?_
      rw [EditState.mode, updateSelections_modes, setMode_snd]
      exact ModeMachine.tryTransition_busy (by rw [show s.modes.mode = _ from hmode]; rfl) rfl
  · exact h.startSelection Mode.noConfusion rfl

theorem Lone.changeSelectionMode (h : s.Lone caret offset) (hcoherent : s.modes.Coherent)
    (hbusy : s.mode.isResting = false) {target : Mode} (htarget : target ≠ .operatorPending)
    (htargetBusy : target.isResting = false) (toSelect : Bool) :
    (s.changeSelectionMode target toSelect).Rested caret := by
  refine h.rested_of_moves hcoherent (s.changeSelectionMode_moves htarget toSelect) ?_
  unfold EditState.changeSelectionMode
  dsimp only
  rw [EditState.mode, updateSelections_modes, setMode_snd]
  refine ModeMachine.tryTransition_busy ?_ htargetBusy
  rw [forCarets_modes fun caret t ↦ ?_]
  · exact hbusy
  · split
    · rfl
    · split <;> rfl

theorem Rested.toggleVisualSelect (h : s.Rested caret) : s.toggleVisualSelect.Rested caret := by
  obtain ⟨offset, h⟩ := h
  unfold EditState.toggleVisualSelect
  split
  · next kind hmode =>
    exact h.toLone.changeSelectionMode h.coherent (by rw [hmode]; rfl) Mode.noConfusion rfl true
  · next kind hmode =>
    exact h.toLone.changeSelectionMode h.coherent (by rw [hmode]; rfl) Mode.noConfusion rfl false
  · exact ⟨offset, h⟩

/-- The command line is opened from modes in which the caret rests, or by way of the normal mode. -/
theorem Rested.openCommandLine (h : s.Rested caret) : s.openCommandLine.Rested caret := by
  have hleft : Rested caret (if s.mode.isVisual then s.exitToNormal else s) ∧
      (if s.mode.isVisual then s.exitToNormal else s).mode.isVisual = false := by
    split
    · have ⟨_, hlone⟩ := h
      exact ⟨h.exitToNormal, by rw [exitToNormal_mode hlone.coherent]; rfl⟩
    · next hnot => exact ⟨h, Bool.eq_false_iff.mpr hnot⟩
  unfold EditState.openCommandLine
  dsimp only
  generalize (if s.mode.isVisual then s.exitToNormal else s) = left at hleft
  obtain ⟨⟨offset, hresting⟩, hvisual⟩ := hleft
  refine Rested.setMode ⟨offset, hresting.withCmdline []⟩ fun hrests ↦ ?_
  show left.modes.mode.isResting = true
  rcases left.modes.tryTransition_cases .commandLine with ⟨heq, -⟩ | ⟨-, -, hlegal⟩
  · rwa [heq] at hrests
  · replace hvisual : left.modes.mode.isVisual = false := hvisual
    cases hmode : left.modes.mode with
    | normal | operatorPending | commandLine => rfl
    | visual _ =>
      rw [hmode] at hvisual
      cases hvisual
    | insert | replace | select _ =>
      rw [hmode] at hlegal
      cases hlegal

theorem Rested.closeCommandLine (h : s.Rested caret) (hresting : s.mode.isResting = true) :
    s.closeCommandLine.Rested caret := by
  obtain ⟨offset, h⟩ := h
  exact Rested.setMode ⟨offset, h.withCmdline []⟩ fun _ ↦ hresting

theorem Rested.commandLineBackspace (h : s.Rested caret) (hresting : s.mode.isResting = true) :
    s.commandLineBackspace.Rested caret := by
  unfold EditState.commandLineBackspace
  split
  · exact h.setMode fun _ ↦ hresting
  · exact h.imp fun _ h ↦ h.withCmdline _

/-! ### Motions -/

/-- Where the caret rests, a motion takes it to a normalized offset, or leaves it where it is. -/
theorem Resting.applyMotion (h : s.Resting caret offset) (hresting : s.mode.isResting = true)
    (call : ActionCall) (f : Motion) : (s.applyMotion call f).2.Rested caret := by
  have hunselecting : (s.mode.isVisual || s.mode.isSelect) = false := by
    rcases Mode.cases_of_isResting hresting with hmode | hmode | hmode <;> rw [hmode] <;> rfl
  have hallow (state : CaretState) :
      (s.syncCarets.motionContext call caret state).allowEnd = false := by
    unfold MotionContext.allowEnd
    rw [show (s.syncCarets.motionContext call caret state).mode = s.mode from rfl]
    rcases Mode.cases_of_isResting hresting with hmode | hmode | hmode <;> rw [hmode] <;> rfl
  unfold EditState.applyMotion
  rw [h.toLone.foldCarets]
  unfold applyMotionTo
  rw [h.toLone.known]
  dsimp only
  split
  · exact ⟨offset, h.syncCarets.bell⟩
  · next destination _ =>
    rw [hallow]
    have hmoved := h.toLone.syncCarets.moveCaret (s.text.normalize destination false)
    rw [show s.syncCarets.text.length = s.text.length from rfl,
      Nat.min_eq_left (s.text.normalize_le_length destination false)] at hmoved
    have hshown (u : EditState) (hu : u.modes = s.modes) : u.showSelection caret = u := by
      unfold showSelection
      rw [show u.mode = s.mode from congrArg ModeMachine.mode hu, hunselecting]
      rfl
    unfold finish
    dsimp only
    rw [hshown]
    · refine ⟨_, hmoved.modifyCaret caret _, h.coherent, fun _ ↦ ?_⟩
      show (s.editor.moveCaret caret _).text.Rests _
      rw [Editor.moveCaret_text]
      exact s.text.rests_normalize destination
    · rfl

theorem Rested.applyMotion (h : s.Rested caret) (call : ActionCall) (f : Motion) :
    (s.applyMotion call f).2.Rested caret := by
  obtain ⟨offset, h⟩ := h
  cases hresting : s.mode.isResting with
  | true => exact h.applyMotion hresting call f
  | false =>
    exact h.toLone.rested_of_moves h.coherent (s.applyMotion_moves call f)
      (by rwa [applyMotion_mode])

theorem Rested.selectTextObject (h : s.Rested caret) (call : ActionCall) (f : TextObject) :
    (s.selectTextObject call f).2.Rested caret := by
  cases hvisual : s.mode.isVisual with
  | true =>
    obtain ⟨offset, h⟩ := h
    refine h.toLone.rested_of_moves h.coherent (s.selectTextObject_moves call f) ?_
    rw [selectTextObject_mode]
    cases hmode : s.mode with
    | visual kind => rfl
    | _ =>
      rw [hmode] at hvisual
      cases hvisual
  | false =>
    unfold EditState.selectTextObject
    rw [hvisual]
    exact h.bell

theorem Rested.adaptSelection (h : s.Rested caret) (options : Options) (shifted : Bool) :
    (s.adaptSelection options shifted).Rested caret := by
  have hstops (stops : Bool) : Rested caret (if stops then s.exitToNormal else s) := by
    cases stops with
    | true => exact h.exitToNormal
    | false => exact h
  unfold EditState.adaptSelection
  dsimp only
  split
  · split
    · split
      · exact h.startSelection Mode.noConfusion rfl
      · exact h.startSelection Mode.noConfusion rfl
    · exact h
  · split
    · exact hstops _
    · exact h

theorem Rested.specialKey (h : s.Rested caret) (around : Surroundings) (command : Command) :
    (s.specialKey around command).Rested caret := by
  unfold EditState.specialKey
  split
  · exact h
  · split
    · exact h
    · exact (h.adaptSelection around.options _).applyMotion _ _

end EditState

/-! ### Operators -/

/-- An operator leaves its caret where it rests if it leads to a mode that has it rest. -/
def Operator.LeavesAtRest (body : Operator) : Prop := ∀ e args,
  (body e args).1.nextMode.isResting = true → (body e args).2.text.Rests (body e args).1.caretOffset

namespace Operator

/-- Only over lines may the caret be left at the end of a blank line. -/
theorem delete_leavesAtRest : LeavesAtRest delete := by
  intro e args _
  unfold delete
  dsimp only
  split
  · exact Text.rests_normalize _ _
  · exact Text.rests_indentOfLine _ _
  · exact Text.rests_normalize _ _

/-- But at the end of a text without a last line feed, what is deleted over lines leaves the caret
on the indent of the line that takes their place. -/
theorem delete_lines (e : Editor) (args : OperatorArgs) (hkind : args.range.kind = .linewise)
    (hinner : args.range.stop ≠ e.text.length) :
    (delete e args).2.text = e.text.erase args.range.start args.range.stop ∧
      (delete e args).1 =
        ⟨(e.text.erase args.range.start args.range.stop).indentOfLine args.range.start,
          .normal⟩ := by
  unfold delete
  dsimp only
  rw [hkind]
  dsimp only
  rw [beq_eq_false_iff_ne.mpr hinner]
  exact ⟨rfl, rfl⟩

theorem changeWith_leavesAtRest (blockToLineEnds : Bool) :
    LeavesAtRest (changeWith blockToLineEnds) :=
  fun _ _ hresting ↦ absurd hresting Bool.false_ne_true

theorem yank_leavesAtRest : LeavesAtRest yank := fun e _ _ ↦ e.text.rests_normalize _

theorem mapCase_leavesAtRest (f : Char → List Char) : LeavesAtRest (mapCase f) :=
  fun _ _ _ ↦ Text.rests_normalize _ _

end Operator

namespace EditState

variable {s t : EditState} {caret : CaretId} {offset : Nat} {body : Operator}

theorem Lone.operate_rested (h : s.Lone caret offset) (hcoherent : s.modes.Coherent)
    (hbody : body.Rewrites) (hrests : body.LeavesAtRest) (call : ActionCall) (range : TextRange) :
    (s.operate call body [(caret, range)]).2.Rested caret := by
  have hafter := (operate_steps id hbody.madeOf s call
    [(caret, range)]).edits_orderly.modes.coherent hcoherent
  obtain ⟨e, -, -, -, htext, -, hlone, hmode⟩ := h.operate hcoherent hbody call range
  refine ⟨_, hlone, hafter, fun hresting ↦ ?_⟩
  rw [hmode] at hresting
  have hrest := hrests e _ hresting
  rw [htext, Nat.min_eq_left hrest.le_length]
  exact hrest

theorem Rested.compose (h : s.Rested caret) (hbody : body.Rewrites) (hrests : body.LeavesAtRest)
    (registry : Registry) (command : Command) :
    (s.compose registry command body).2.Rested caret := by
  unfold EditState.compose
  split
  · exact h.bell
  · next argument spec _ =>
    dsimp only
    obtain ⟨offset, hresting⟩ := h
    rcases hresting.toLone.plannedRanges_cases command.toActionCall argument spec.handler with
      hnone | ⟨range, hrange⟩
    · rw [hnone]
      exact ⟨offset, hresting.syncCarets.bell⟩
    · rw [hrange]
      exact hresting.toLone.syncCarets.operate_rested hresting.coherent hbody hrests _ range

theorem Rested.operateOnSelections (h : s.Rested caret) (hbody : body.Rewrites)
    (hrests : body.LeavesAtRest) (command : Command) :
    (s.operateOnSelections command body).2.Rested caret := by
  cases hkind : s.mode.selectionKind? with
  | none =>
    unfold EditState.operateOnSelections
    rwa [hkind]
  | some kind =>
    rw [operateOnSelections_of_mode hkind]
    obtain ⟨offset, hresting⟩ := h
    have hlone : (s.syncCarets.clearSelections.setMode .normal).2.Lone caret offset := by
      rw [setMode_snd]
      exact hresting.toLone.syncCarets.clearSelections.withModes _
    have hcoherent : (s.syncCarets.clearSelections.setMode .normal).2.modes.Coherent := by
      rw [setMode_snd]
      exact ModeMachine.tryTransition_coherent hresting.coherent .normal
    obtain ⟨range, hrange⟩ := hresting.toLone.exists_selectedRanges kind command.flags.linewise
    rw [hrange]
    exact hlone.operate_rested hcoherent hbody hrests _ range

/-! ### Typing -/

theorem lone_keptByTyping (caret : CaretId) (modes : ModeMachine) :
    KeptByTyping fun t ↦ (∃ offset, t.Lone caret offset) ∧ t.modes = modes where
  syncCarets := fun ⟨⟨offset, h⟩, hmodes⟩ ↦ ⟨⟨offset, h.syncCarets⟩, hmodes⟩
  rewrite {u editor} hrewrite other place := by
    rintro ⟨⟨offset, h⟩, hmodes⟩
    have hids : (editor.moveCaret other place).caretIds = [caret] := by
      rw [(Editor.Move.moveCaret editor other place).caretIds, Editor.caretIds,
        (Editor.rewrites_keep hrewrite h.editor).2]
      exact h.ids
    exact ⟨exists_lone (h.toAnchored.rewrite hrewrite other place) hids, hmodes⟩

/-- What is typed in a mode in which the caret may be anywhere. -/
theorem Rested.typed (h : s.Rested caret) (hbusy : s.mode.isResting = false)
    (htyped : ∀ P, KeptByTyping P → P s → P t) : t.Rested caret := by
  obtain ⟨offset, h⟩ := h
  obtain ⟨⟨place, hlone⟩, hmodes⟩ :=
    htyped _ (lone_keptByTyping caret s.modes) ⟨⟨offset, h.toLone⟩, rfl⟩
  refine hlone.rested_of_moves (hmodes ▸ h.coherent) (.refl t) ?_
  rwa [EditState.mode, hmodes]

theorem Rested.insertAtCarets (h : s.Rested caret) (hbusy : s.mode.isResting = false)
    (typed : Text) :
    (s.insertAtCarets typed).Rested caret := h.typed hbusy fun _ hP hs ↦ hP.insertAtCarets hs typed

theorem Rested.openLine (h : s.Rested caret) (below : Bool) : (s.openLine below).Rested caret := by
  obtain ⟨offset, h⟩ := h
  obtain ⟨t, ⟨⟨place, hlone⟩, hmodes⟩, heq⟩ :=
    (lone_keptByTyping caret s.modes).openLine ⟨⟨offset, h.toLone⟩, rfl⟩ below
  rw [heq]
  exact hlone.enterInsert (hmodes ▸ h.coherent) Mode.noConfusion rfl

theorem Rested.replaceSelections (h : s.Rested caret) :
    s.replaceSelections.Rested caret ∧ s.replaceSelections.mode = .insert := by
  obtain ⟨offset, h⟩ := h
  obtain ⟨t, ⟨⟨place, hlone⟩, hmodes⟩, heq⟩ :=
    (lone_keptByTyping caret s.modes).replaceSelections ⟨⟨offset, h.toLone⟩, rfl⟩
  have hcoherent : t.clearSelections.modes.Coherent := hmodes ▸ h.coherent
  rw [heq]
  exact ⟨hlone.clearSelections.enterInsert hcoherent Mode.noConfusion rfl,
    enterInsert_mode hcoherent .insert⟩

theorem Rested.typeKeys (h : s.Rested caret) (keys : Keys) : (s.typeKeys keys).2.Rested caret := by
  obtain ⟨hreplaced, hinsert⟩ := h.replaceSelections
  unfold EditState.typeKeys
  dsimp only
  split
  · exact hreplaced
  · split
    · exact h.bell
    · split
      · next hmode => exact h.insertAtCarets (by rw [hmode]; rfl) _
      · next hmode => exact h.typed (by rw [hmode]; rfl) fun _ hP hs ↦ hP.overwriteAtCarets hs _
      · exact hreplaced.insertAtCarets (by rw [hinsert]; rfl) _
      · exact h.imp fun _ h ↦ h.withCmdline _
      · exact h.bell

end EditState

/-! ### Actions -/

/-- The actions that write where the caret is. -/
def writingActions : List ActionId :=
  [ActionId.insertBackspace, ActionId.insertNewline, ActionId.insertTab]

/-- The actions that lead back from the command line. -/
def commandLineActions : List ActionId :=
  [ActionId.commandLineCancel, ActionId.commandLineExecute, ActionId.commandLineBackspace]

theorem standardBindings_writing : ∀ b ∈ Keymap.standardBindings, ∀ id ∈ writingActions,
    b.target = .action id → b.modes = [.insert] := by
  decide +kernel

theorem standardBindings_commandLine : ∀ b ∈ Keymap.standardBindings, ∀ id ∈ commandLineActions,
    b.target = .action id → b.modes = [.commandLine] := by
  decide +kernel

/-- Nothing is written where the caret rests, and it rests where the command line is left. -/
structure Placed (id : ActionId) (mode : Mode) : Prop where
  writing : id ∈ writingActions → mode.isResting = false
  commandLine : id ∈ commandLineActions → mode.isResting = true

theorem OfferedAt.placed {id : ActionId} {mode : Mode} (h : OfferedAt mode id) :
    Placed id mode := by
  refine ⟨fun hid ↦ ?_, fun hid ↦ ?_⟩
  · have hheedless : ∀ id ∈ writingActions, id ∈ heedlessActions := by decide
    obtain ⟨b, hb, htarget, hmem⟩ := h.bound (heedless_waits_not id (hheedless id hid))
    rw [standardBindings_writing b hb id hid htarget] at hmem
    rcases hmem with hmem | ⟨-, hmem⟩
    · cases mode with
      | insert | replace => rfl
      | _ => exact absurd hmem (by simp [MapMode.ofMode])
    · exact absurd hmem (by simp)
  · have hheedless : ∀ id ∈ commandLineActions, id ∈ heedlessActions := by decide
    obtain ⟨b, hb, htarget, hmem⟩ := h.bound (heedless_waits_not id (hheedless id hid))
    rw [standardBindings_commandLine b hb id hid htarget] at hmem
    rcases hmem with hmem | ⟨-, hmem⟩
    · cases mode with
      | commandLine => rfl
      | _ => exact absurd hmem (by simp [MapMode.ofMode])
    · exact absurd hmem (by simp)

/-- An operator that rewrites the text and leaves its caret where it rests. -/
def Operator.Settles (body : Operator) : Prop := body.Rewrites ∧ body.LeavesAtRest

open EditState (Rested)

namespace Builtin

variable (caret : CaretId)

theorem operators_settle : ∀ a ∈ operators, ∀ body, a.handler = .operator body → body.Settles :=
  forall_operators ⟨Operator.delete_rewrites, Operator.delete_leavesAtRest⟩
    (fun toEnds ↦ ⟨Operator.changeWith_rewrites toEnds, Operator.changeWith_leavesAtRest toEnds⟩)
    ⟨Operator.yank_rewrites, Operator.yank_leavesAtRest⟩
    fun f ↦ ⟨Operator.mapCase_rewrites f, Operator.mapCase_leavesAtRest f⟩

theorem modeChanges_keepRested :
    ∀ a ∈ modeChanges, a.Keeps (Rested caret) Operator.Settles Placed := by
  simp only [modeChanges, List.forall_mem_cons, List.not_mem_nil, false_imp_iff, implies_true,
    and_true]
  exact ⟨change_keeps fun _ h _ ↦ h.enterInsert Mode.noConfusion rfl,
    change_keeps fun _ h _ ↦ h.insertAt _,
    change_keeps fun _ h _ ↦ h.insertAt _, change_keeps fun _ h _ ↦ h.insertAt _,
    change_keeps fun _ h _ ↦ h.openLine true, change_keeps fun _ h _ ↦ h.openLine false,
    change_keeps fun _ h _ ↦ h.enterInsert Mode.noConfusion rfl,
    selecting_keeps (fun _ kind h ↦ h.toggleVisual kind) _,
    selecting_keeps (fun _ kind h ↦ h.toggleVisual kind) _,
    selecting_keeps (fun _ kind h ↦ h.toggleVisual kind) _,
    selecting_keeps (fun _ kind h ↦ h.startSelect kind) _,
    selecting_keeps (fun _ kind h ↦ h.startSelect kind) _,
    selecting_keeps (fun _ kind h ↦ h.startSelect kind) _,
    change_keeps fun _ h _ ↦ h.toggleVisualSelect, change_keeps fun _ h _ ↦ h.openCommandLine,
    change_keeps fun _ h _ ↦ h.escape⟩

theorem typing_keepRested : ∀ a ∈ typing, a.Keeps (Rested caret) Operator.Settles Placed := by
  simp only [typing, List.forall_mem_cons, List.not_mem_nil, false_imp_iff, implies_true, and_true]
  exact ⟨change_keeps fun _ h _ ↦ h.leaveInsert,
    change_keeps fun _ h hplaced ↦ h.typed (hplaced.writing (by decide)) fun _ hP hs ↦
      hP.backspace hs,
    change_keeps fun _ h hplaced ↦ h.insertAtCarets (hplaced.writing (by decide)) _,
    change_keeps fun _ h hplaced ↦ h.typed (hplaced.writing (by decide)) fun _ hP hs ↦
      hP.typeTab hs,
    change_keeps fun _ h hplaced ↦ h.closeCommandLine (hplaced.commandLine (by decide)),
    change_keeps fun _ h hplaced ↦ h.closeCommandLine (hplaced.commandLine (by decide)),
    change_keeps fun _ h hplaced ↦ h.commandLineBackspace (hplaced.commandLine (by decide))⟩

end Builtin

theorem Registry.standard_keepsRested (caret : CaretId) :
    ∀ a ∈ standard.specs, a.Keeps (Rested caret) Operator.Settles Placed :=
  standard_keeps Builtin.operators_settle (Builtin.modeChanges_keepRested caret)
    (Builtin.typing_keepRested caret)
    fun _ around command h ↦ h.specialKey around command

namespace EditState

variable {s : EditState} {caret : CaretId}

theorem rested_keptByCommands (caret : CaretId) :
    KeptByCommands (Rested caret) Operator.Settles where
  bell _ h := h.bell
  applyMotion _ call f h := h.applyMotion call f
  selectTextObject _ call f h := h.selectTextObject call f
  operateOnSelections _ command _ hbody h := h.operateOnSelections hbody.1 hbody.2 command
  compose _ registry command _ hbody h _ := h.compose hbody.1 hbody.2 registry command

/-- The caret rests through any use of the keys. -/
theorem rested_enduring (caret : CaretId) : Enduring (Rested caret) where
  withGuard s guard := fun ⟨offset, h⟩ ↦ ⟨offset, h.toLone.withGuard guard, h.coherent, h.rests⟩
  withListener s listener := fun ⟨offset, h⟩ ↦
    ⟨offset, ⟨⟨h.editor.of_buffer rfl rfl rfl, h.carets⟩, h.ids, h.stands⟩, h.coherent, h.rests⟩
  syncCarets s h := h.syncCarets
  waits s := fun ⟨offset, h⟩ hmode ↦ ⟨offset,
    h.withModes (ModeMachine.tryTransition_coherent h.coherent _)
    fun _ ↦ by rw [hmode]; rfl⟩
  leaves s := fun ⟨offset, h⟩ hmode _ ↦ ⟨offset,
    h.withModes (ModeMachine.leavePending_coherent h.coherent)
    fun _ ↦ by rw [hmode]; rfl⟩
  bell s h := h.bell
  cancel s h _ _ := h.cancel
  typeKeys s keys h _ := h.typeKeys keys
  execute s options command h _ _ hoffered :=
    (rested_keptByCommands caret).execute (Registry.standard_keepsRested caret) h options
      hoffered.placed

theorem Rested.drawBack (h : s.Rested caret) (other : CaretId) {place : Nat}
    (hend : place = s.text.lineEnd (s.text.lineOf place))
    (hstart : s.text.lineStart (s.text.lineOf place) < place) :
    (s.moveCaret other (place - 1)).Rested caret := by
  obtain ⟨offset, h⟩ := h
  have htouches := moveCaret_touches h.toAnchored other (place - 1)
  have hmode : (s.moveCaret other (place - 1)).mode = s.mode := htouches.mode
  have hcoherent : (s.moveCaret other (place - 1)).modes.Coherent := htouches.modes ▸ h.coherent
  by_cases hother : other = caret
  · subst hother
    have hline : s.text.lineOf (place - 1) = s.text.lineOf place :=
      Text.lineOf_eq_of_le (by omega) (Nat.sub_le _ _)
    have hle := Text.lineEnd_le_length (s.text.lineOf_lt place)
    have hmoved := h.toLone.moveCaret (place - 1)
    rw [Nat.min_eq_left (by omega)] at hmoved
    refine ⟨_, hmoved, hcoherent, fun _ ↦ .inl ?_⟩
    rw [htouches.text, Text.normalize_eq_self_iff, hline]
    omega
  · have hkept : (s.moveCaret other (place - 1)).caretOffset? caret = s.caretOffset? caret :=
      congrArg CaretView.offset? (htouches.others caret fun heq ↦ hother heq.symm)
    refine ⟨offset, h.toLone.of_stays htouches.toStays (hkept.trans h.stands), hcoherent,
      fun hresting ↦ ?_⟩
    rw [htouches.text]
    exact h.rests (hmode ▸ hresting)

theorem rested_keptByFollowing (caret : CaretId) :
    KeptByFollowing fun s ↦ s.Plain ∧ s.Rested caret where
  plain h := h.1
  withGuard guard h := ⟨h.1.withGuard guard, (rested_enduring caret).withGuard _ guard h.2⟩
  withCarets := fun ⟨hplain, offset, h⟩ hcarets hunstarted ↦
    ⟨hplain.withCarets hcarets hunstarted, offset, ⟨⟨h.editor, hcarets⟩, h.ids, h.stands⟩,
      h.coherent, h.rests⟩
  drawBack other _ h hend hstart := ⟨h.1.moveCaret other _, h.2.drawBack other hend hstart⟩

theorem rested_kept_by_reports (caret : CaretId) :
    KeptByReports fun s ↦ s.Agrees ∧ s.Rested caret :=
  fun s event h hmode ↦ by
    have hplain := h.1.plain (by rw [show s.edit.mode = .normal from hmode]; rfl)
    obtain ⟨⟨hkept, hrested⟩, hnormal⟩ :=
      Session.handleEvent_keeps (rested_keptByFollowing caret) event ⟨hplain, h.2⟩ hmode
    exact ⟨⟨.inl hkept, hrested⟩, hnormal⟩

end EditState

/-- With the default bindings, both extensions, and whatever has been put in the place of other
strokes, a single caret that begins where it may be in the normal mode is there after each call that
ends in the normal mode, but for the end of a line of blanks. -/
theorem Session.caret_rests_iff_not_at_blank_end (options : Options) (editor : Editor)
    (early late : List Remap) (hanchored : editor.Anchored) {caret : CaretId}
    (hids : editor.caretIds = [caret]) {offset : Nat}
    (hoffset : editor.caretOffset? caret = some offset)
    (hnormal : editor.text.normalize offset false = offset)
    (hquiet : editor.reported = [] ∨ ∀ caret, editor.selection? caret = none)
    (calls : List KeyCall) :
    let s := calls.foldl call (opened options editor early late)
    ∃ place, s.editor.caretIds = [caret] ∧ s.editor.caretOffset? caret = some place ∧
      (s.mode = .normal → (s.editor.text.normalize place false = place ↔
        ¬ s.editor.text.AtBlankEnd place)) := by
  intro s
  have hopened : EditState.Rested caret { editor } :=
    ⟨offset, ⟨⟨hanchored, List.nodup_nil⟩, hids, hoffset⟩, rfl, fun _ ↦ .inl hnormal⟩
  have hrested : s.edit.Rested caret := by
    rcases hquiet with hnone | hnone
    · exact (calls_keep (EditState.rested_enduring caret) options editor early late hopened
        (.inl hnone) calls).state
    · exact (calls_keep (EditState.agrees_enduring.and (EditState.rested_enduring caret)) options
        editor early late
        ⟨.inl (.of_unselected hanchored hnone), hopened⟩
          (.inr (EditState.rested_kept_by_reports caret))
        calls).state.2
  obtain ⟨place, h⟩ := hrested
  exact ⟨place, h.ids, h.stands, fun hmode ↦ (h.rests (by
    rw [show s.edit.mode = .normal from hmode]
    rfl)).normalize_eq_iff⟩

/-- A caret behind the end of its line, where text has been added, is drawn back by Escape. -/
theorem Session.caret_drawn_back_by_escape :
    let editor := Editor.ofMarked ⟨"ab cd\n \n".toList, [3], []⟩
    (editor.Anchored ∧ editor.caretIds = [⟨0⟩] ∧ editor.caretOffset? ⟨0⟩ = some 3 ∧
      editor.text.normalize 3 false = 3 ∧ editor.reported = []) ∧
      let s := [KeyCall.key (.char 'A'), .key (.char 'e'), .key .escape].foldl call
        (opened {} editor [] [])
      ∃ place, s.editor.caretIds = [⟨0⟩] ∧ s.editor.caretOffset? ⟨0⟩ = some place ∧
        (s.mode = .normal → (s.editor.text.normalize place false = place ↔
          ¬ s.editor.text.AtBlankEnd place)) := by
  intro editor
  have hanchored : editor.Anchored := Editor.ofMarked_anchored _
  have hids : editor.caretIds = [⟨0⟩] := by decide +kernel
  have hoffset : editor.caretOffset? ⟨0⟩ = some 3 := by decide +kernel
  have hnormal : editor.text.normalize 3 false = 3 := by decide +kernel
  have hreported : editor.reported = [] := by decide +kernel
  exact ⟨⟨hanchored, hids, hoffset, hnormal, hreported⟩,
    caret_rests_iff_not_at_blank_end {} editor [] [] hanchored hids hoffset hnormal (.inl hreported)
      _⟩

/-- By `dd` a line that is not the last is taken out, and the caret goes to the indent of the next
one. -/
theorem Session.TakesCommands.deleteLine {s : Session} (h : s.TakesCommands)
    (hmode : s.mode = .normal) {caret : CaretId} {offset : Nat} (hlone : s.edit.Lone caret offset)
    (hbreaks : s.editor.text.FeedsOnly) (range : TextRange)
    (hline : s.editor.text.lineRange (s.editor.text.lineOf offset) = range)
    (hinner : range.stop < s.editor.text.length) :
    let t := (s.handleAll [.char 'd', .char 'd']).2
    t.mode = .normal ∧ t.editor.text = s.editor.text.erase range.start range.stop ∧
      t.editor.caretOffset? caret = some (t.editor.text.indentOfLine range.start) := by
  intro t
  let opening : Opening := { operator := .delete, register_valid := fun _ hnone ↦ by cases hnone }
  let command := opening.command (linesCall [.char 'd'])
  obtain ⟨modes, hcoherent, hsame, hrun⟩ := h.handleAll [.char 'd', .char 'd'] command
    (by rw [hmode]; exact opening.waitsThrough_strokes.completes opening.completes_again)
  have hprepared := (hlone.withModes modes).prepared
  have hunselecting : ((EditState.prepared { s.edit with modes }).mode.isVisual ||
      (EditState.prepared { s.edit with modes }).mode.isSelect) = false := by
    rw [show (EditState.prepared { s.edit with modes }).mode = .normal from hsame.trans hmode]
    rfl
  have hget : Registry.standard.get? ActionId.delete =
      some (Builtin.operator ActionId.delete Operator.delete {}) :=
    Registry.standard_get?_of_mem (a := Builtin.operator ActionId.delete Operator.delete {})
      (by simp [Builtin.actions, Builtin.operators])
  have hexecute : (EditState.prepared { s.edit with modes }).execute .standard s.options command =
      (EditState.prepared { s.edit with modes }).syncCarets.operate command.toActionCall
        Operator.delete
        [(caret, range)] := by
    have hcovers (state : CaretState) (hstate : state.offset = offset) :
        Operator.range? ((EditState.prepared { s.edit with modes }).pendingContext
          (linesCall [.char 'd']) caret state)
          ActionId.delete (.motion Motion.currentLine) = some range := by
      rw [Operator.range?_currentLine _ rfl hbreaks]
      show some (s.editor.text.lineRange (s.editor.text.lineOf state.offset)) = some range
      rw [hstate, hline]
    rw [EditState.execute_of_operator command hget, hunselecting, if_neg Bool.false_ne_true]
    exact hprepared.compose command _ rfl currentLine_registered hcovers
  have hkind : range.kind = .linewise := by
    rw [← hline]
    rfl
  obtain ⟨e, htext, -, -, hresult⟩ :=
    hprepared.syncCarets.operate hcoherent Operator.delete_rewrites
    command.toActionCall range
  rw [show range.within (EditState.prepared { s.edit with modes }).syncCarets.text = range from
    TextRange.within_eq_self (Nat.le_of_lt hinner)] at hresult
  replace htext : e.text = s.editor.text := htext
  obtain ⟨herased, heffect⟩ := Operator.delete_lines e
    { caret, range, register := command.register, count := command.toActionCall.count } hkind
    (by rw [htext]; exact Nat.ne_of_lt hinner)
  generalize Operator.delete e _ = deleted at hresult herased heffect
  obtain ⟨effect, after⟩ := deleted
  have hended : t.EndsWith caret (effect, after.text, after.registers) := by
    rw [show t = _ from hrun]
    exact .of_run (congrArg Prod.snd hexecute) hresult
  have hafter : t.editor.text = s.editor.text.erase range.start range.stop := by
    rw [← htext]
    exact hended.text.trans herased
  have hrest := Text.rests_indentOfLine t.editor.text range.start
  replace heffect : effect = ⟨t.editor.text.indentOfLine range.start, .normal⟩ := by
    rw [hafter, ← htext]
    exact heffect
  refine ⟨hended.mode.trans (congrArg OperatorEffect.nextMode heffect), hafter,
    hended.offset.trans ?_⟩
  rw [← hended.text, heffect, Nat.min_eq_left hrest.le_length]

/-- The line above a blank is deleted, and the caret is left behind the blank, where it is not
normalized. -/
theorem Session.lines_deleted_above_blanks :
    let editor := Editor.ofMarked ⟨"a\n \n".toList, [0], []⟩
    let s := [KeyCall.key (.char 'd'), .key (.char 'd')].foldl call (opened {} editor [] [])
    (editor.caretIds = [⟨0⟩] ∧ editor.caretOffset? ⟨0⟩ = some 0 ∧
      editor.text.normalize 0 false = 0 ∧
      editor.reported = []) ∧
      s.mode = .normal ∧ s.editor.caretOffset? ⟨0⟩ = some 1 ∧
      s.editor.text.normalize 1 false ≠ 1 := by
  intro editor s
  have hids : editor.caretIds = [⟨0⟩] := by decide +kernel
  have hoffset : editor.caretOffset? ⟨0⟩ = some 0 := by decide +kernel
  have hreported : editor.reported = [] := by decide +kernel
  have htakes : (opened {} editor [] []).TakesCommands := by
    refine ⟨opened_keymap {} editor, opened_registry {} editor [] [], ?_, ?_, ?_, ?_, .inl ?_⟩
    · rw [opened_resolver]
      rfl
    · rw [opened_resolver]
    · rw [Session.editor, opened_edit]
      exact hreported
    · rw [opened_edit]
      rfl
    · rw [Session.mode, opened_edit]
      rfl
  have hlone : (opened {} editor [] []).edit.Lone ⟨0⟩ 0 := by
    rw [opened_edit]
    exact ⟨⟨Editor.ofMarked_anchored ⟨"a\n \n".toList, [0], []⟩, List.nodup_nil⟩, hids, hoffset⟩
  have htext : (opened {} editor [] []).editor.text = "a\n \n".toList := by
    rw [Session.editor, opened_edit]
    rfl
  have hdeleted := htakes.deleteLine (by rw [Session.mode, opened_edit]; rfl) hlone
    (by rw [htext]; decide +kernel) (.between 0 2 .linewise) (by rw [htext]; decide +kernel)
    (by rw [htext]; decide +kernel)
  rw [htext] at hdeleted
  obtain ⟨hmode, hafter, hplace⟩ := hdeleted
  rw [show Text.erase "a\n \n".toList (TextRange.between 0 2 .linewise).start _ =
    " \n".toList by decide +kernel]
    at hafter
  rw [hafter, show Text.indentOfLine " \n".toList _ = 1 by decide +kernel] at hplace
  have hcalls : s = ((opened {} editor [] []).handleAll [.char 'd', .char 'd']).2 := by
    rw [handleAll_snd]
    rfl
  rw [hcalls, hafter]
  exact ⟨⟨hids, hoffset, by decide +kernel, hreported⟩, hmode, hplace, by decide +kernel⟩

end ModalEdit
