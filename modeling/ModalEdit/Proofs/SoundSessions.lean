import ModalEdit.Proofs.CaretTable
import ModalEdit.Proofs.EscapeLaw
import ModalEdit.Proofs.GestureSteps

/-!
Sound states. That no mark and no caret is given out twice, and that no caret is there or remembered twice
(`EditState.Sound`), is kept by each single step that commands are made of (`EditState.Step.sound`), by the
gestures of a user, and by what a session makes of the reports. So whatever a session is given, in any
order, its state stays sound (`Session.foldl_receive_sound`).
-/

set_option autoImplicit false
set_option relaxedAutoImplicit false

namespace ModalEdit

namespace Editor

variable {e after : Editor} {caret : CaretId}

theorem Sound.emit (h : e.Sound) (event : EditorEvent) : (e.emit event).Sound :=
  h.of_eq h.issued rfl rfl rfl

theorem Sound.releaseMark (h : e.Sound) (mark : Mark) : (e.releaseMark mark).Sound :=
  h.of_eq (h.issued.release mark) rfl rfl rfl

theorem Sound.setHead (h : e.Sound) (caret : CaretId) (offset : Nat) : (e.setHead caret offset).2.Sound := by
  unfold Editor.setHead
  split
  · exact h
  · exact h.of_eq (h.issued.set _ _) rfl rfl rfl

theorem Sound.moveCaret (h : e.Sound) (caret : CaretId) (offset : Nat) :
    (e.moveCaret caret offset).Sound := by
  have hmoved := h.setHead caret offset
  unfold Editor.moveCaret
  split
  · next he =>
    rw [he] at hmoved
    exact hmoved
  · next he =>
    rw [he] at hmoved
    exact hmoved.emit _

theorem Sound.setSelection (h : e.Sound) (caret : CaretId) (a b : Nat) :
    (e.setSelection caret a b).Sound := by
  unfold Editor.setSelection
  dsimp only
  split
  · exact (h.storeSelection caret a b).emit _
  · exact h.storeSelection caret a b

theorem Sound.clearSelection (h : e.Sound) (caret : CaretId) : (e.clearSelection caret).2.Sound := by
  unfold Editor.clearSelection
  split
  · exact h
  · exact ((h.setSelectionMarks caret none).releaseMark _).releaseMark _

theorem Sound.removeSelection (h : e.Sound) (caret : CaretId) : (e.removeSelection caret).Sound := by
  have hcleared := h.clearSelection caret
  unfold Editor.removeSelection
  split
  · next he =>
    rw [he] at hcleared
    exact hcleared
  · next he =>
    rw [he] at hcleared
    exact hcleared.emit _

theorem Edit.sound (hedit : Edit e after) (h : e.Sound) : after.Sound := by
  cases hedit with
  | move hmove =>
    cases hmove with
    | bell => exact h.of_eq h.issued rfl rfl rfl
    | moveCaret caret offset => exact h.moveCaret caret offset
    | setSelection caret a b => exact h.setSelection caret a b
    | removeSelection caret => exact h.removeSelection caret
  | eraseRange a b => exact h.eraseRange a b
  | insertText offset s => exact h.insertText offset s
  | createMark offset => exact h.createMark offset
  | releaseMark mark => exact h.releaseMark mark
  | record registers => exact h.of_eq h.issued rfl rfl rfl

/-! ### Gestures -/

/-- Some of the carets are gone. -/
theorem Sound.sublist (h : e.Sound) {carets : List (CaretId × CaretMarks)} (hsub : carets.Sublist e.carets) :
    Sound { e with carets } where
  issued := h.issued
  heads caret hcaret := h.heads caret (hsub.subset hcaret)
  spawned caret hcaret := h.spawned caret (hsub.subset hcaret)
  distinct := h.distinct.sublist (hsub.map _)

theorem Sound.removeCaret (h : e.Sound) (caret : CaretId) : (e.removeCaret caret).2.Sound := by
  unfold Editor.removeCaret
  split
  · exact h
  · split
    · exact h
    · exact (((h.clearSelection caret).sublist List.filter_sublist).releaseMark _).emit _

theorem GestureStep.sound (hstep : GestureStep e after) (h : e.Sound) : after.Sound := by
  cases hstep with
  | setHead caret offset => exact h.setHead caret offset
  | storeSelection caret a b => exact h.storeSelection caret a b
  | clearSelection caret => exact h.clearSelection caret
  | emit event => exact h.emit event
  | spawnCaret offset => exact h.spawnCaret offset
  | removeCaret caret => exact h.removeCaret caret

end Editor

namespace EditState

variable {s t : EditState}

/-- Each single step keeps the state sound. -/
theorem Step.sound (hstep : Step Editor.Edit s t) (h : s.Sound) : t.Sound := by
  cases hstep with
  | editor hedit => exact ⟨hedit.sound h.editor, h.carets⟩
  | modes | cmdline => exact ⟨h.editor, h.carets⟩
  | syncCarets => exact ⟨h.editor, h.carets.sync _⟩
  | modifyCaret caret f => exact ⟨h.editor, h.carets.modify caret f⟩
  | clearSelections => exact ⟨h.editor, h.carets.clearSelections⟩

theorem Steps.sound (hsteps : Edits s t) (h : s.Sound) : t.Sound := hsteps.keeps Step.sound h

theorem Sound.prepared (h : s.Sound) : s.prepared.Sound :=
  ⟨h.editor.of_eq h.editor.issued rfl rfl rfl, h.carets.sync _⟩

/-- The guard does not matter. -/
theorem Sound.unlock (h : s.Sound) (token : SuppressionToken) : (s.unlock token).Sound :=
  ⟨h.editor.of_eq h.editor.issued rfl rfl rfl, h.carets⟩

theorem Sound.guarded {α : Type} {f : EditState → α × EditState} (h : s.Sound)
    (hf : Edits s.prepared (f s.prepared).2) : (s.guarded f).2.Sound :=
  Sound.unlock (hf.sound h.prepared) s.lock.1

theorem Sound.guardedChange {f : EditState → EditState} (h : s.Sound)
    (hf : Moves s.prepared (f s.prepared)) : (s.guardedChange f).Sound := h.guarded hf.edits

theorem Sound.syncOperatorMode (h : s.Sound) (operatorPending : Bool) :
    (s.syncOperatorMode operatorPending).Sound := by
  rw [syncOperatorMode_eq]
  exact ⟨h.editor, h.carets⟩

theorem Sound.apply (h : s.Sound) {registry : Registry} (hregistry : registry.MadeOfSteps)
    (options : Options) (operatorPending : Bool) (outcome : Outcome) :
    (s.apply registry options operatorPending outcome).2.Sound := by
  have hsynced := h.syncOperatorMode operatorPending
  unfold EditState.apply
  cases outcome with
  | pending => exact hsynced
  | resolved command =>
    exact hsynced.guarded (f := (·.execute registry options command)) (execute_edits hregistry _ _ _)
  | cancelled => exact hsynced.guardedChange (cancel_moves _)
  | unmapped keys =>
    dsimp only
    split
    · exact hsynced.guarded (f := (·.typeKeys keys)) (typeKeys_edits _ keys)
    · exact (bell_moves _).edits.sound hsynced

end EditState

namespace Session

/-- The state is sound, and all actions are made of steps, which keep it so. -/
structure Sound (s : Session) : Prop where
  registry : s.registry.MadeOfSteps
  edit : s.edit.Sound

variable {s : Session}

theorem Sound.act (h : s.Sound) (result : Outcome × Resolver) : (s.act result).2.Sound :=
  ⟨h.registry, h.edit.apply h.registry _ _ _⟩

theorem Sound.readNext (h : s.Sound) : s.readNext.Sound := by
  cases hinput : s.resolver.input with
  | nil => rwa [readNext_of_nil hinput]
  | cons stroke rest =>
    rw [readNext_of_cons hinput]
    exact h.act _

theorem Sound.handleEvent (h : s.Sound) (event : EditorEvent) : (s.handleEvent event).Sound := by
  refine ⟨?_, ?_⟩
  · obtain ⟨edit, dragging, heq, -⟩ := s.handleEvent_eq event
    rw [heq]
    exact h.registry
  cases event with
  | caretAdded caret offset => exact ⟨h.edit.editor, h.edit.carets.add caret offset⟩
  | caretRemoved caret => exact ⟨h.edit.editor, h.edit.carets.sublist (List.filter_sublist.map _)⟩
  | caretMoved caret offset => exact ⟨h.edit.editor, h.edit.carets.modify caret _⟩
  | dragStarted caret =>
    unfold Session.handleEvent
    dsimp only
    split
    · exact h.edit
    · exact ⟨h.edit.editor.of_eq h.edit.editor.issued rfl rfl rfl, h.edit.carets⟩
  | mouseReleased caret =>
    unfold Session.handleEvent
    dsimp only
    split
    · exact (h.edit.guardedChange (EditState.adoptSelection_moves _ _ _ _)).unlock {}
    · exact h.edit
  | mouseClicked caret offset clicks =>
    unfold Session.handleEvent
    dsimp only
    split
    · exact h.edit.guardedChange (f := (·.click caret offset)) (EditState.click_moves _ _ _)
    · exact h.edit
  | selectionChanged caret start stop source =>
    exact h.edit.guardedChange (f := (·.adoptSelection s.options caret source))
      (EditState.adoptSelection_moves _ _ _ _)

theorem Sound.pump (h : s.Sound) : s.pump.Sound := by
  obtain ⟨listener, htaken⟩ := s.editor.takeEvents_eq
  refine List.foldlRecOn (motive := Sound) _ _ ⟨h.registry, ?_, h.edit.carets⟩
    fun t ht event _ ↦ ht.handleEvent event
  show s.editor.takeEvents.2.Sound
  rw [htaken]
  exact h.edit.editor.of_eq h.edit.editor.issued rfl rfl rfl

theorem Sound.begin (h : s.Sound) (c : KeyCall) : (s.begin c).Sound := by
  cases c with
  | key stroke => exact ⟨h.pump.registry, h.pump.edit⟩
  | flush => exact h.act _

theorem Sound.gesture (h : s.Sound) (g : Gesture) : (s.gesture g).Sound :=
  ⟨h.registry, g.keeps Editor.GestureStep.sound h.edit.editor, h.edit.carets⟩

theorem Sound.receive (h : s.Sound) (input : Input) : (s.receive input).Sound := by
  cases input with
  | call c => exact call_keeps (P := Sound) (fun _ c ht ↦ ht.begin c) (fun _ ht ↦ ht.readNext) h c
  | gesture g => exact h.gesture g
  | pump => exact h.pump

/-- A session opened over a sound editor stays sound, whatever it is given in any order. -/
theorem foldl_receive_sound (options : Options) {editor : Editor} (heditor : editor.Sound)
    (early late : List Remap) (inputs : List Input) :
    (inputs.foldl Session.receive (opened options editor early late)).Sound := by
  refine List.foldlRecOn (motive := Sound) inputs Session.receive ⟨?_, ?_⟩
    fun t ht input _ ↦ ht.receive input
  · rw [opened_registry]
    exact Registry.standard_madeOfSteps
  · rw [opened_edit]
    exact ⟨heditor, List.nodup_nil⟩

end Session

end ModalEdit
