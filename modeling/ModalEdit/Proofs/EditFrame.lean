import ModalEdit.Extension.Basic
import ModalEdit.Proofs.EditSteps

/-!
What commands leave alone. Every change of the state that a command makes is `Orderly`: the guard stays
as it is, no report gets past it while it is locked, the mode machine stays coherent, and the pending
mode is not entered. A change that `Rearranges` the state keeps the text and the registers besides. Both
relations compose, and hold of each single step, so that all that is made of steps is orderly
(`Steps.orderly`), and rearranges the state if it leaves the text alone (`Steps.rearranges`). Motions and
text objects stay in the mode, and which mode the ways out of the modes lead to is said in the order in
which the functions are defined.
-/

set_option autoImplicit false
set_option relaxedAutoImplicit false

namespace ModalEdit

namespace EditState

/-- The change that any command may make. -/
structure Orderly (before after : EditState) : Prop where
  editor : before.editor.Silent after.editor
  modes : before.modes.Steady after.modes

/-- An orderly change of carets, selections and modes that keeps the text and the registers. -/
structure Rearranges (before after : EditState) : Prop where
  editor : before.editor.Repositions after.editor
  modes : before.modes.Steady after.modes

variable {first middle last before after : EditState}

theorem Orderly.refl (s : EditState) : Orderly s s := ⟨.refl s.editor, .refl s.modes⟩

theorem Orderly.trans (h₁ : Orderly first middle) (h₂ : Orderly middle last) : Orderly first last :=
  ⟨h₁.editor.trans h₂.editor, h₁.modes.trans h₂.modes⟩

theorem Rearranges.refl (s : EditState) : Rearranges s s := ⟨.refl s.editor, .refl s.modes⟩

theorem Rearranges.trans (h₁ : Rearranges first middle) (h₂ : Rearranges middle last) :
    Rearranges first last := ⟨h₁.editor.trans h₂.editor, h₁.modes.trans h₂.modes⟩

theorem Rearranges.orderly (h : Rearranges before after) : Orderly before after :=
  ⟨h.editor.toSilent, h.modes⟩

theorem Step.orderly (h : Step Editor.Silent before after) : Orderly before after := by
  cases h with
  | editor h => exact ⟨h, .refl _⟩
  | modes h => exact ⟨.refl _, h⟩
  | cmdline | syncCarets | modifyCaret | clearSelections => exact ⟨.refl _, .refl _⟩

theorem Step.rearranges (h : Step Editor.Move before after) : Rearranges before after := by
  cases h with
  | editor h => exact ⟨h.repositions, .refl _⟩
  | modes h => exact ⟨.refl _, h⟩
  | cmdline | syncCarets | modifyCaret | clearSelections => exact ⟨.refl _, .refl _⟩

theorem Steps.orderly (h : Steps Editor.Silent before after) : Orderly before after :=
  h.keeps (fun hstep hbefore ↦ Orderly.trans hbefore hstep.orderly) (.refl before)

theorem Steps.edits_orderly (h : Edits before after) : Orderly before after :=
  (h.mono Editor.Edit.silent).orderly

theorem Steps.rearranges (h : Moves before after) : Rearranges before after :=
  h.keeps (fun hstep hbefore ↦ Rearranges.trans hbefore hstep.rearranges) (.refl before)

/-! ### Modes -/

theorem forCarets_modes {f : CaretId → EditState → EditState}
    (hf : ∀ caret t, (f caret t).modes = t.modes) (s : EditState) :
    (s.forCarets f).modes = s.modes :=
  forCarets_keeps (P := fun t ↦ t.modes = s.modes) s rfl fun caret t h ↦ (hf caret t).trans h

theorem moveAll_modes (s : EditState) (destination : Text → Nat → Nat) :
    (s.moveAll destination).modes = s.modes := by
  refine forCarets_modes (fun caret t ↦ ?_) s
  dsimp only
  split
  · rfl
  · split <;> rfl

theorem markInsertStart_modes (s : EditState) : s.markInsertStart.modes = s.modes := by
  refine forCarets_modes (fun caret t ↦ ?_) s
  rfl

theorem updateSelection_modes (s : EditState) (caret : CaretId) : (s.updateSelection caret).modes = s.modes := by
  unfold updateSelection
  split <;> rfl

theorem updateSelections_modes (s : EditState) : s.updateSelections.modes = s.modes :=
  forCarets_modes (fun caret t ↦ t.updateSelection_modes caret) s

theorem showSelection_modes (s : EditState) (caret : CaretId) : (s.showSelection caret).modes = s.modes := by
  unfold showSelection
  split
  · exact s.updateSelection_modes caret
  · rfl

theorem finish_modes (result : Bool × EditState) : (finish result).2.modes = result.2.modes := by
  obtain ⟨_ | _, t⟩ := result <;> rfl

theorem applyMotionTo_modes (call : ActionCall) (f : Motion) (caret : CaretId) (done : Bool) (s : EditState) :
    (applyMotionTo call f caret done s).2.modes = s.modes := by
  unfold applyMotionTo
  split
  · rfl
  · dsimp only
    split
    · rfl
    · exact showSelection_modes _ caret

theorem applyMotion_mode (s : EditState) (call : ActionCall) (f : Motion) :
    (s.applyMotion call f).2.mode = s.mode := by
  refine congrArg ModeMachine.mode ((finish_modes _).trans ?_)
  exact foldCarets_keeps (P := fun t ↦ t.modes = s.modes) s false rfl
    fun caret done t ht ↦ (applyMotionTo_modes call f caret done t).trans ht

theorem selectTextObjectAt_modes (call : ActionCall) (f : TextObject) (caret : CaretId) (done : Bool)
    (s : EditState) : (selectTextObjectAt call f caret done s).2.modes = s.modes := by
  unfold selectTextObjectAt
  split
  · rfl
  · dsimp only
    split
    · rfl
    · exact updateSelection_modes _ caret

theorem selectTextObject_mode (s : EditState) (call : ActionCall) (f : TextObject) :
    (s.selectTextObject call f).2.mode = s.mode := by
  unfold selectTextObject
  split
  · refine congrArg ModeMachine.mode ((finish_modes _).trans ?_)
    exact foldCarets_keeps (P := fun t ↦ t.modes = s.modes) s false rfl
      fun caret done t ht ↦ (selectTextObjectAt_modes call f caret done t).trans ht
  · rfl

theorem exitToNormal_modes (s : EditState) : s.exitToNormal.modes = s.modes.resetToNormal := by
  unfold exitToNormal
  rw [moveAll_modes]
  rfl

theorem exitToNormal_mode {s : EditState} (h : s.modes.Coherent) : s.exitToNormal.mode = .normal := by
  rw [mode, exitToNormal_modes]
  exact ModeMachine.resetToNormal_mode h

theorem closeCommandLine_mode {s : EditState} (hmode : s.mode = .commandLine) :
    s.closeCommandLine.mode = .normal := by
  have hlegal : s.modes.mode.isLegal .normal s.modes.parent = true := by
    rw [show s.modes.mode = .commandLine from hmode]
    rfl
  unfold closeCommandLine
  rw [setMode_snd]
  exact ModeMachine.tryTransition_mode_of_legal hlegal

theorem leaveInsert_mode {s : EditState} (h : s.modes.Coherent) : s.leaveInsert.mode = .normal := by
  have hmoved := s.moveAll_modes fun t offset ↦ t.left offset 1
  have hmodes := forCarets_modes
    (f := fun caret t ↦ t.modifyCaret caret ({ · with insertStart := none })) (fun _ _ ↦ rfl)
    (s.moveAll fun t offset ↦ t.left offset 1)
  refine exitToNormal_mode ?_
  rw [hmodes, hmoved]
  exact h

theorem escape_mode {s : EditState} (h : s.modes.Coherent) : s.escape.mode = .normal := by
  unfold escape
  split
  · next hnormal => exact hnormal
  · exact exitToNormal_mode h

/-- Whatever the mode was, it is the normal one after giving up what was typed of a command. -/
theorem cancel_mode {s : EditState} (h : s.modes.Coherent) : s.cancel.mode = .normal := by
  unfold cancel
  split
  · next hnormal => exact hnormal
  · exact leaveInsert_mode h
  · exact leaveInsert_mode h
  · exact exitToNormal_mode h
  · exact exitToNormal_mode h

end EditState

/-! ### Actions -/

/-- An action that makes orderly changes only. Motions and text objects are functions of the text, and
what runs them is orderly for all of them. -/
def ActionHandler.Orderly : ActionHandler → Prop
  | motion _ | textObject _ => True
  | operator body => body.Discreet
  | other f => ∀ around command s, EditState.Orderly s (f around command s)

theorem Operator.MadeOf.discreet {body : Operator} (h : body.MadeOf Editor.Edit) : body.Discreet := by
  intro e args
  obtain ⟨hedits, hnext⟩ := h e args
  refine ⟨?_, hnext⟩
  generalize (body e args).2 = after at hedits
  induction hedits with
  | refl => exact .refl e
  | tail _ hlast ih => exact ih.trans hlast.silent

theorem ActionHandler.MadeOfSteps.orderly {handler : ActionHandler} (h : handler.MadeOfSteps) :
    handler.Orderly := by
  cases handler with
  | motion f => trivial
  | textObject f => trivial
  | operator body => exact h.discreet
  | other f => exact fun around command s ↦ (h around command s).edits_orderly

namespace Registry

/-- A registry all of whose actions are orderly. -/
def Orderly (r : Registry) : Prop := ∀ spec ∈ r.specs, spec.handler.Orderly

theorem MadeOfSteps.orderly {r : Registry} (h : r.MadeOfSteps) : r.Orderly :=
  fun spec hspec ↦ (h spec hspec).orderly

end Registry

theorem EditState.execute_orderly {registry : Registry} (h : registry.Orderly) (s : EditState)
    (options : Options) (command : Command) : Orderly s (s.execute registry options command).2 := by
  unfold execute
  split
  · exact s.bell_moves.rearranges.orderly
  · next spec hget =>
    have hspec := h spec (List.mem_of_find?_eq_some hget)
    split
    · exact (s.applyMotion_moves _ _).rearranges.orderly
    · exact (s.selectTextObject_moves _ _).rearranges.orderly
    · next body hhandler =>
      rw [hhandler] at hspec
      have hbody : body.MadeOf Editor.Silent := fun e args ↦ ⟨.single (hspec e args).1, (hspec e args).2⟩
      split
      · exact (operateOnSelections_steps Editor.Edit.silent hbody s command).orderly
      · exact (compose_steps Editor.Edit.silent hbody s registry command).orderly
    · next f hhandler =>
      rw [hhandler] at hspec
      exact hspec (registry.surroundings options) command s

end ModalEdit
