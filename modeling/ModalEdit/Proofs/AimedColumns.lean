import ModalEdit.Proofs.RestingCarets

/-!
The column that a caret aims at (`EditState.aim`). It is written by motions and by the selection of text
objects alone: these forget it or put another one in its place (`EditState.Aims.applyMotion`,
`EditState.Aims.selectTextObject`). Everything else that a command may do keeps it, wherever it takes the
caret: operators, the ways into and out of the modes, typing, and the command line.
-/

set_option autoImplicit false
set_option relaxedAutoImplicit false

namespace ModalEdit

theorem CaretTable.get?_clearSelections (t : CaretTable) (id : CaretId) :
    t.clearSelections.get? id = (t.get? id).map ({ · with selectionStart := none }) :=
  lookup_map_values (fun _ (state : CaretState) ↦ ({ state with selectionStart := none } : CaretState))
    t.entries id

/-- A motion with these flags leaves its caret to aim at a column of a kind. -/
def CommandFlags.Leaves (flags : CommandFlags) (Q : Option GoalColumn → Prop) : Prop :=
  ∀ call : ActionCall, call.flags = flags → ∀ goal, Q (EditState.goalAfter call goal)

namespace EditState

variable {s t : EditState} {caret : CaretId} {Q : Option GoalColumn → Prop}

/-- The column that a caret is remembered to aim at. -/
def aim (s : EditState) (caret : CaretId) : Option GoalColumn := (s.carets.get? caret).bind (·.goal)

theorem aim_modifyCaret (s : EditState) (caret other : CaretId) {f : CaretState → CaretState}
    (hf : ∀ state, (f state).goal = state.goal) : (s.modifyCaret other f).aim caret = s.aim caret := by
  unfold aim modifyCaret
  dsimp only
  rw [CaretTable.get?_modify]
  split
  · next hsame =>
    rw [hsame]
    cases s.carets.get? other with
    | none => rfl
    | some state => exact hf state
  · rfl

theorem aim_moveCaret (s : EditState) (caret other : CaretId) (offset : Nat) :
    (s.moveCaret other offset).aim caret = s.aim caret :=
  aim_modifyCaret { s with editor := s.editor.moveCaret other offset } caret other fun _ ↦ rfl

theorem isSome_get?_moveCaret (h : (s.carets.get? caret).isSome = true) (other : CaretId) (offset : Nat) :
    ((s.moveCaret other offset).carets.get? caret).isSome = true := by
  unfold moveCaret modifyCaret
  dsimp only
  rw [CaretTable.get?_modify]
  split
  · next hsame =>
    rw [Option.isSome_map, ← hsame]
    exact h
  · exact h

/-- Bringing the table in line keeps the columns of the carets there are. -/
theorem aim_syncCarets (h : s.editor.Anchored) (hmem : caret ∈ s.editor.caretIds) :
    s.syncCarets.aim caret = s.aim caret := by
  obtain ⟨offset, -, hoffset⟩ := h.exists_caretOffset? hmem
  have hknown : s.syncCarets.carets.get? caret =
      some (CaretTable.placed (s.carets.get? caret) offset) :=
    congrArg CaretView.state? (view_syncCarets h hmem hoffset)
  unfold aim
  rw [hknown]
  cases s.carets.get? caret with
  | none => rfl
  | some state => rfl

theorem aim_clearSelections (s : EditState) (caret : CaretId) :
    s.clearSelections.aim caret = s.aim caret := by
  show (s.carets.clearSelections.get? caret).bind (·.goal) = _
  rw [CaretTable.get?_clearSelections]
  unfold aim
  cases s.carets.get? caret with
  | none => rfl
  | some state => rfl

/-- There is one caret, and the column that it aims at has a property. -/
structure Aims (caret : CaretId) (Q : Option GoalColumn → Prop) (s : EditState) : Prop
    extends Anchored s where
  ids : s.editor.caretIds = [caret]
  coherent : s.modes.Coherent
  goal : Q (s.aim caret)

namespace Aims

theorem mem (h : s.Aims caret Q) : caret ∈ s.editor.caretIds := by simp [h.ids]

theorem mono (h : s.Aims caret Q) {R : Option GoalColumn → Prop} (hle : ∀ goal, Q goal → R goal) :
    s.Aims caret R :=
  ⟨h.toAnchored, h.ids, h.coherent, hle _ h.goal⟩

theorem exists_lone (h : s.Aims caret Q) : ∃ offset, s.Lone caret offset :=
  EditState.exists_lone h.toAnchored h.ids

theorem withEditor (h : s.Aims caret Q) {editor : Editor} (hanchored : editor.Anchored)
    (hids : editor.caretIds = s.editor.caretIds) : Aims caret Q { s with editor } :=
  ⟨⟨hanchored, h.carets⟩, hids.trans h.ids, h.coherent, h.goal⟩

theorem withModes (h : s.Aims caret Q) {modes : ModeMachine} (hcoherent : modes.Coherent) :
    Aims caret Q { s with modes } :=
  ⟨⟨h.editor, h.carets⟩, h.ids, hcoherent, h.goal⟩

theorem withCmdline (h : s.Aims caret Q) (cmdline : Text) : Aims caret Q { s with cmdline } :=
  ⟨⟨h.editor, h.carets⟩, h.ids, h.coherent, h.goal⟩

theorem move (h : s.Aims caret Q) {editor : Editor} (hmove : Editor.Move s.editor editor) :
    Aims caret Q { s with editor } :=
  h.withEditor (hmove.anchored h.editor) hmove.caretIds

theorem bell (h : s.Aims caret Q) : s.bell.Aims caret Q := h.move (.bell s.editor)

theorem syncCarets (h : s.Aims caret Q) : s.syncCarets.Aims caret Q where
  toAnchored := h.toAnchored.syncCarets
  ids := h.ids
  coherent := h.coherent
  goal := by
    rw [aim_syncCarets h.editor h.mem]
    exact h.goal

theorem modifyCaret (h : s.Aims caret Q) (other : CaretId) {f : CaretState → CaretState}
    (hf : ∀ state, (f state).goal = state.goal) : (s.modifyCaret other f).Aims caret Q where
  editor := h.editor
  carets := h.carets.modify other f
  ids := h.ids
  coherent := h.coherent
  goal := by
    rw [aim_modifyCaret s caret other hf]
    exact h.goal

theorem moveCaret (h : s.Aims caret Q) (other : CaretId) (offset : Nat) :
    (s.moveCaret other offset).Aims caret Q :=
  (h.move (.moveCaret s.editor other offset)).modifyCaret other fun _ ↦ rfl

theorem forCarets (h : s.Aims caret Q) {f : CaretId → EditState → EditState}
    (hf : ∀ other t, t.Aims caret Q → (f other t).Aims caret Q) : (s.forCarets f).Aims caret Q :=
  forCarets_keeps s h.syncCarets hf

theorem moveAll (h : s.Aims caret Q) (destination : Text → Nat → Nat) :
    (s.moveAll destination).Aims caret Q := by
  refine h.forCarets fun other t ht ↦ ?_
  split
  · exact ht
  · dsimp only
    split
    · exact ht
    · exact ht.moveCaret other _

theorem updateSelection (h : s.Aims caret Q) (other : CaretId) :
    (s.updateSelection other).Aims caret Q := by
  unfold EditState.updateSelection
  split
  · exact h.move (.setSelection s.editor other _ _)
  · exact h

theorem updateSelections (h : s.Aims caret Q) : s.updateSelections.Aims caret Q :=
  h.forCarets fun other _ ht ↦ ht.updateSelection other

theorem clearSelections (h : s.Aims caret Q) : s.clearSelections.Aims caret Q := by
  have hmoves := s.clearSelections_moves
  refine ⟨hmoves.moves_anchored h.toAnchored, hmoves.moves_caretIds.trans h.ids, h.coherent, ?_⟩
  rw [aim_clearSelections]
  exact h.goal

/-! ### Ways into and out of the modes -/

theorem setMode (h : s.Aims caret Q) (target : Mode) : (s.setMode target).2.Aims caret Q := by
  rw [setMode_snd]
  exact h.withModes (ModeMachine.tryTransition_coherent h.coherent target)

theorem enterMode (h : s.Aims caret Q) (target : Mode) : (s.enterMode target).2.Aims caret Q := by
  obtain ⟨modes, hentered, -, hcoherent⟩ := enterMode_eq h.coherent target
  rw [hentered]
  exact h.withModes hcoherent

theorem markInsertStart (h : s.Aims caret Q) : s.markInsertStart.Aims caret Q :=
  h.forCarets fun other _ ht ↦ ht.modifyCaret other fun _ ↦ rfl

theorem enterInsert (h : s.Aims caret Q) (target : Mode) : (s.enterInsert target).Aims caret Q := by
  have hentered := h.enterMode target
  unfold EditState.enterInsert
  split
  · next he =>
    rw [he] at hentered
    exact hentered.markInsertStart
  · next he =>
    rw [he] at hentered
    exact hentered

theorem exitToNormal (h : s.Aims caret Q) : s.exitToNormal.Aims caret Q := by
  have hleft := h.clearSelections
  exact (hleft.withModes (ModeMachine.resetToNormal_coherent hleft.coherent)).moveAll
    fun t offset ↦ t.normalize offset false

theorem leaveInsert (h : s.Aims caret Q) : s.leaveInsert.Aims caret Q := by
  have hmoved := h.moveAll fun t offset ↦ t.left offset 1
  exact (hmoved.forCarets fun other t ht ↦ ht.modifyCaret (f := ({ · with insertStart := none })) other
    fun _ ↦ rfl).exitToNormal

theorem cancel (h : s.Aims caret Q) : s.cancel.Aims caret Q := by
  unfold EditState.cancel
  split
  · exact h
  · exact h.leaveInsert
  · exact h.leaveInsert
  · exact (h.withCmdline []).exitToNormal
  · exact h.exitToNormal

theorem escape (h : s.Aims caret Q) : s.escape.Aims caret Q := by
  unfold EditState.escape
  split
  · exact h.bell
  · exact h.exitToNormal

theorem startSelection (h : s.Aims caret Q) (target : Mode) :
    (s.startSelection target).Aims caret Q := by
  have hmarked : (s.forCarets fun caret s ↦ s.modifyCaret caret fun state ↦
      { state with selectionStart := some state.offset }).Aims caret Q :=
    h.forCarets fun other _ ht ↦ ht.modifyCaret other fun _ ↦ rfl
  obtain ⟨modes, hentered, -, hcoherent⟩ := enterMode_eq hmarked.coherent target
  unfold EditState.startSelection
  dsimp only
  rw [hentered]
  exact (hmarked.withModes hcoherent).updateSelections

theorem toggleVisual (h : s.Aims caret Q) (kind : SelectionKind) :
    (s.toggleVisual kind).Aims caret Q := by
  unfold EditState.toggleVisual
  split
  · split
    · exact h.exitToNormal
    · exact (h.setMode _).updateSelections
  · exact h.startSelection _

theorem startSelect (h : s.Aims caret Q) (kind : SelectionKind) : (s.startSelect kind).Aims caret Q := by
  have hstarted := h.startSelection (.select kind)
  unfold EditState.startSelect
  dsimp only
  split
  · refine hstarted.forCarets fun other t ht ↦ ?_
    split
    · exact ht
    · exact (ht.moveCaret other _).updateSelection other
  · exact hstarted

theorem changeSelectionMode (h : s.Aims caret Q) (target : Mode) (toSelect : Bool) :
    (s.changeSelectionMode target toSelect).Aims caret Q := by
  refine (Aims.setMode (h.forCarets fun other t ht ↦ ?_) target).updateSelections
  split
  · exact ht
  · dsimp only
    split
    · exact ht
    · exact ht.moveCaret other _

theorem toggleVisualSelect (h : s.Aims caret Q) : s.toggleVisualSelect.Aims caret Q := by
  unfold EditState.toggleVisualSelect
  split
  · exact h.changeSelectionMode _ true
  · exact h.changeSelectionMode _ false
  · exact h

theorem adaptSelection (h : s.Aims caret Q) (options : Options) (shifted : Bool) :
    (s.adaptSelection options shifted).Aims caret Q := by
  have hstops (stops : Bool) : Aims caret Q (if stops then s.exitToNormal else s) := by
    cases stops with
    | true => exact h.exitToNormal
    | false => exact h
  unfold EditState.adaptSelection
  dsimp only
  split
  · split
    · exact h.startSelection _
    · exact h
  · split
    · exact hstops _
    · exact h

theorem openCommandLine (h : s.Aims caret Q) : s.openCommandLine.Aims caret Q := by
  refine (Aims.withCmdline ?_ []).setMode .commandLine
  split
  · exact h.exitToNormal
  · exact h

theorem closeCommandLine (h : s.Aims caret Q) : s.closeCommandLine.Aims caret Q :=
  (h.withCmdline []).setMode .normal

theorem commandLineBackspace (h : s.Aims caret Q) : s.commandLineBackspace.Aims caret Q := by
  unfold EditState.commandLineBackspace
  split
  · exact h.setMode .normal
  · exact h.withCmdline _

/-! ### Typing -/

theorem keptByTyping (caret : CaretId) (Q : Option GoalColumn → Prop) : KeptByTyping (Aims caret Q) where
  syncCarets h := h.syncCarets
  rewrite {s editor} hrewrite other place h := by
    obtain ⟨hanchored, hcarets⟩ := Editor.rewrites_keep hrewrite h.editor
    have hids : editor.caretIds = s.editor.caretIds := by rw [Editor.caretIds, hcarets, Editor.caretIds]
    exact (h.withEditor hanchored hids).moveCaret other place

theorem insertAtCarets (h : s.Aims caret Q) (typed : Text) : (s.insertAtCarets typed).Aims caret Q :=
  (keptByTyping caret Q).insertAtCarets h typed

theorem openLine (h : s.Aims caret Q) (below : Bool) : (s.openLine below).Aims caret Q := by
  obtain ⟨t, ht, heq⟩ := (keptByTyping caret Q).openLine h below
  rw [heq]
  exact ht.enterInsert .insert

theorem replaceSelections (h : s.Aims caret Q) : s.replaceSelections.Aims caret Q := by
  obtain ⟨t, ht, heq⟩ := (keptByTyping caret Q).replaceSelections h
  rw [heq]
  exact ht.clearSelections.enterInsert .insert

theorem typeKeys (h : s.Aims caret Q) (keys : Keys) : (s.typeKeys keys).2.Aims caret Q := by
  unfold EditState.typeKeys
  dsimp only
  split
  · exact h.replaceSelections
  · split
    · exact h.bell
    · split
      · exact h.insertAtCarets _
      · exact (keptByTyping caret Q).overwriteAtCarets h _
      · exact h.replaceSelections.insertAtCarets _
      · exact h.withCmdline _
      · exact h.bell

end Aims

/-! ### Operators -/

theorem aim_markInsertStart (h : s.editor.Anchored) (hmem : caret ∈ s.editor.caretIds) :
    s.markInsertStart.aim caret = s.aim caret :=
  forCarets_keeps (P := fun t ↦ t.aim caret = s.aim caret) s (aim_syncCarets h hmem)
    fun other t ht ↦ (aim_modifyCaret t (f := fun state ↦ { state with insertStart := some state.offset })
      caret other fun _ ↦ rfl).trans ht

/-- An operator moves its caret and lets it aim where it did. -/
theorem aim_operate (s : EditState) (call : ActionCall) (body : Operator) (target : CaretId)
    (range : TextRange)
    (hanchored : (s.operate call body [(target, range)]).2.editor.Anchored)
    (hmem : caret ∈ (s.operate call body [(target, range)]).2.editor.caretIds) :
    (s.operate call body [(target, range)]).2.aim caret = s.aim caret := by
  have hon (t : EditState) (p : PinnedRange) :
      (operateOn call body .normal t p).2.aim caret = t.aim caret := by
    have hunpinned : (t.unpin p).2.aim caret = t.aim caret := rfl
    unfold operateOn
    split
    · next heq => rwa [heq] at hunpinned
    · next heq =>
      rw [heq] at hunpinned
      exact (aim_moveCaret _ caret p.caret _).trans hunpinned
  have hentered (t : EditState) (mode : Mode) : (t.enterMode mode).2.aim caret = t.aim caret := by
    rw [enterMode_snd]
    rfl
  have haim := hon (s.pin target range).2 (s.pin target range).1
  obtain ⟨mode, after, hdone⟩ : ∃ mode after,
      operateOn call body .normal (s.pin target range).2 (s.pin target range).1 = (mode, after) :=
    ⟨_, _, rfl⟩
  have hrun : (s.operate call body [(target, range)]).2 =
      if mode = .insert then (after.enterMode mode).2.markInsertStart else (after.enterMode mode).2 := by
    unfold operate
    rw [show s.pinAll [(target, range)] = ([(s.pin target range).1], (s.pin target range).2) from rfl]
    simp only [List.foldl_cons, List.foldl_nil, hdone]
  rw [hdone] at haim
  rw [hrun] at hanchored hmem ⊢
  split at hanchored
  · next hinsert =>
    rw [if_pos hinsert, markInsertStart_editor] at hmem
    rw [markInsertStart_editor] at hanchored
    rw [if_pos hinsert, aim_markInsertStart hanchored hmem, hentered]
    exact haim
  · next hinsert =>
    rw [if_neg hinsert, hentered]
    exact haim

namespace Aims

variable {body : Operator}

theorem operate (h : s.Aims caret Q) (hbody : body.Rewrites) (call : ActionCall) (range : TextRange) :
    (s.operate call body [(caret, range)]).2.Aims caret Q := by
  obtain ⟨offset, hlone⟩ := h.exists_lone
  obtain ⟨_, -, -, -, -, -, hafter, -⟩ := hlone.operate h.coherent hbody call range
  refine ⟨hafter.toAnchored, hafter.ids, ?_, ?_⟩
  · exact (operate_steps id hbody.madeOf s call [(caret, range)]).edits_orderly.modes.coherent h.coherent
  · rw [aim_operate s call body caret range hafter.editor hafter.mem]
    exact h.goal

theorem compose (h : s.Aims caret Q) (hbody : body.Rewrites) (registry : Registry) (command : Command) :
    (s.compose registry command body).2.Aims caret Q := by
  unfold EditState.compose
  split
  · exact h.bell
  · next argument spec _ =>
    dsimp only
    obtain ⟨offset, hlone⟩ := h.exists_lone
    rcases hlone.plannedRanges_cases command.toActionCall argument spec.handler with
      hnone | ⟨range, hrange⟩
    · rw [hnone]
      exact h.syncCarets.bell
    · rw [hrange]
      exact h.syncCarets.operate hbody _ range

theorem operateOnSelections (h : s.Aims caret Q) (hbody : body.Rewrites) (command : Command) :
    (s.operateOnSelections command body).2.Aims caret Q := by
  unfold EditState.operateOnSelections
  split
  · exact h
  · next kind _ =>
    obtain ⟨offset, hlone⟩ := h.exists_lone
    obtain ⟨range, hrange⟩ := hlone.exists_selectedRanges kind command.flags.linewise
    dsimp only
    rw [hrange]
    exact (h.syncCarets.clearSelections.setMode .normal).operate hbody _ range

/-! ### Motions and text objects -/

/-- What is remembered of the caret is written. -/
theorem write (h : s.Aims caret Q) {state : CaretState} (hknown : s.carets.get? caret = some state)
    (f : CaretState → CaretState) : (s.modifyCaret caret f).Aims caret (· = (f state).goal) where
  editor := h.editor
  carets := h.carets.modify caret f
  ids := h.ids
  coherent := h.coherent
  goal := by
    show ((s.carets.modify caret f).get? caret).bind (·.goal) = _
    rw [CaretTable.get?_modify, if_pos rfl, hknown]
    rfl

theorem showSelection (h : s.Aims caret Q) (other : CaretId) :
    (s.showSelection other).Aims caret Q := by
  unfold EditState.showSelection
  split
  · exact h.updateSelection other
  · exact h

/-- A motion that fails keeps the column, and one that does not writes it. -/
theorem applyMotion_cases (h : s.Aims caret Q) (call : ActionCall) (f : Motion) :
    (s.applyMotion call f).1 = .cancelled ∧ (s.applyMotion call f).2.Aims caret Q ∨
      (s.applyMotion call f).1 = .executed ∧
        ∃ goal, (s.applyMotion call f).2.Aims caret (· = goalAfter call goal) := by
  obtain ⟨offset, hlone⟩ := h.exists_lone
  unfold EditState.applyMotion
  rw [hlone.foldCarets]
  unfold applyMotionTo
  rw [hlone.known]
  dsimp only
  split
  · exact .inl ⟨rfl, h.syncCarets.bell⟩
  · next destination _ =>
    generalize (s.syncCarets.motionContext call caret _) = ctx
    generalize s.syncCarets.text.normalize destination ctx.allowEnd = target
    have hmoved := h.syncCarets.moveCaret caret target
    have hknown : ((s.syncCarets.moveCaret caret target).carets.get? caret).isSome = true :=
      isSome_get?_moveCaret (by rw [hlone.known]; rfl) caret target
    obtain ⟨state, hstate⟩ := Option.isSome_iff_exists.mp hknown
    exact .inr ⟨rfl, _, (hmoved.write hstate ({ · with goal := goalAfter call ctx.goal })).showSelection
      caret⟩

theorem applyMotion (h : s.Aims caret Q) {call : ActionCall} (hcall : call.flags.Leaves Q) (f : Motion) :
    (s.applyMotion call f).2.Aims caret Q := by
  rcases h.applyMotion_cases call f with ⟨-, hkept⟩ | ⟨-, goal, hwritten⟩
  · exact hkept
  · exact hwritten.mono fun _ hgoal ↦ hgoal ▸ hcall call rfl goal

/-- What is selected as a text object leaves no column to aim at. -/
theorem selectTextObject (h : s.Aims caret Q) (hnone : Q none) (call : ActionCall) (f : TextObject) :
    (s.selectTextObject call f).2.Aims caret Q := by
  obtain ⟨offset, hlone⟩ := h.exists_lone
  unfold EditState.selectTextObject
  split
  · rw [hlone.foldCarets]
    unfold selectTextObjectAt
    rw [hlone.known]
    dsimp only
    split
    · exact h.syncCarets.bell
    · next r _ =>
      have hmarked := h.syncCarets.write hlone.known
        ({ · with selectionStart := some r.start, goal := none })
      refine ((hmarked.moveCaret caret _).updateSelection caret).mono fun _ hgoal ↦ ?_
      rw [hgoal]
      exact hnone
  · exact h.bell

/-- A special key does what its motion does. -/
theorem specialKey (h : s.Aims caret Q) (around : Surroundings) (command : Command)
    (hkey : ∀ id shifted f flags, specialKeys.lookup command.action = some (id, shifted) →
      around.motion? id = some (f, flags) → flags.Leaves Q) :
    (s.specialKey around command).Aims caret Q := by
  unfold EditState.specialKey
  split
  · exact h
  · next id shifted hlookup =>
    split
    · exact h
    · next f flags hmotion =>
      exact (h.adaptSelection around.options shifted).applyMotion (hkey id shifted f flags hlookup hmotion) f

end Aims

end EditState

/-! ### Actions -/

namespace ActionSpec

/-- An action that is neither a motion nor a text object nor a special key keeps the columns that carets
aim at. -/
def KeepsColumns (a : ActionSpec) : Prop :=
  match a.handler with
  | .motion _ | .textObject _ => True
  | .operator body => body.Rewrites
  | .other f =>
    (∀ caret Q around command s, EditState.Aims caret Q s → (f around command s).Aims caret Q) ∨
      f = fun around command s ↦ s.specialKey around command

theorem keepsColumns_of_kind {a : ActionSpec}
    (h : a.handler.kind = .motion ∨ a.handler.kind = .textObject) : a.KeepsColumns := by
  unfold KeepsColumns
  generalize a.handler = handler at h
  cases handler with
  | motion f => trivial
  | textObject f => trivial
  | operator body => rcases h with h | h <;> cases h
  | other f => rcases h with h | h <;> cases h

end ActionSpec

namespace Builtin

open EditState (Aims)

theorem operators_keepColumns : ∀ a ∈ operators, a.KeepsColumns := by
  have hkinds : ∀ a ∈ operators, a.handler.kind = .operator := by decide +kernel
  intro a ha
  have hrewrites := operators_rewrite a ha
  have hkind := hkinds a ha
  unfold ActionSpec.KeepsColumns
  generalize a.handler = handler at hrewrites hkind
  cases handler with
  | operator body => exact hrewrites body rfl
  | motion f => trivial
  | textObject f => trivial
  | other f => cases hkind

theorem change_keepsColumns {f : EditState → EditState}
    (hf : ∀ {caret Q s}, Aims caret Q s → (f s).Aims caret Q) (id : ActionId) :
    (change id f).KeepsColumns := .inl fun _ _ _ _ _ h ↦ hf h

theorem selecting_keepsColumns {f : EditState → SelectionKind → EditState}
    (hf : ∀ {caret Q s}, Aims caret Q s → ∀ kind, (f s kind).Aims caret Q) (id : ActionId) :
    (selecting id f).KeepsColumns := .inl fun _ _ _ _ _ h ↦ hf h _

theorem modeChanges_keepColumns : ∀ a ∈ modeChanges, a.KeepsColumns := by
  simp only [modeChanges, List.forall_mem_cons, List.not_mem_nil, false_imp_iff, implies_true, and_true]
  exact ⟨change_keepsColumns (·.enterInsert .insert) _,
    change_keepsColumns (fun h ↦ (h.moveAll _).enterInsert .insert) _,
    change_keepsColumns (fun h ↦ (h.moveAll _).enterInsert .insert) _,
    change_keepsColumns (fun h ↦ (h.moveAll _).enterInsert .insert) _,
    change_keepsColumns (·.openLine true) _, change_keepsColumns (·.openLine false) _,
    change_keepsColumns (·.enterInsert .replace) _,
    selecting_keepsColumns (·.toggleVisual ·) _, selecting_keepsColumns (·.toggleVisual ·) _,
    selecting_keepsColumns (·.toggleVisual ·) _, selecting_keepsColumns (·.startSelect ·) _,
    selecting_keepsColumns (·.startSelect ·) _, selecting_keepsColumns (·.startSelect ·) _,
    change_keepsColumns (·.toggleVisualSelect) _, change_keepsColumns (·.openCommandLine) _,
    change_keepsColumns (·.escape) _⟩

theorem typing_keepColumns : ∀ a ∈ typing, a.KeepsColumns := by
  simp only [typing, List.forall_mem_cons, List.not_mem_nil, false_imp_iff, implies_true, and_true]
  exact ⟨change_keepsColumns (·.leaveInsert) _,
    change_keepsColumns (Aims.keptByTyping _ _).backspace _,
    change_keepsColumns (·.insertAtCarets _) _,
    change_keepsColumns (Aims.keptByTyping _ _).typeTab _,
    change_keepsColumns (·.closeCommandLine) _, change_keepsColumns (·.closeCommandLine) _,
    change_keepsColumns (·.commandLineBackspace) _⟩

theorem actions_keepColumns : ∀ a ∈ actions, a.KeepsColumns := by
  have hmotions : ∀ a ∈ motions, a.handler.kind = .motion := by decide +kernel
  have hobjects : ∀ a ∈ textObjects, a.handler.kind = .textObject := by decide +kernel
  have hspecial (id : ActionId) : (special id).KeepsColumns := .inr rfl
  have hkeys : ∀ a ∈ specialKeys, a.KeepsColumns := by
    simp only [specialKeys, List.forall_mem_cons, List.not_mem_nil, false_imp_iff, implies_true, and_true,
      hspecial]
  simp only [actions, List.forall_mem_append]
  exact ⟨⟨⟨⟨⟨fun a ha ↦ ActionSpec.keepsColumns_of_kind (.inl (hmotions a ha)),
    fun a ha ↦ ActionSpec.keepsColumns_of_kind (.inr (hobjects a ha))⟩, operators_keepColumns⟩,
    modeChanges_keepColumns⟩, typing_keepColumns⟩, hkeys⟩

end Builtin

end ModalEdit
