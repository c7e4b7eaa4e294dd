import Mathlib.Logic.Relation
import ModalEdit.Action.Builtin
import ModalEdit.Edit.Execute
import ModalEdit.Proofs.EditorFrame
import ModalEdit.Proofs.ModeCoherence

/-!
What commands are made of. Every command is a chain of single steps, each of which changes one thing: the
editor by one of its own operations, the mode, what is remembered of the carets, or the command line
(`EditState.Step`). Motions, selections and ways between the modes take steps that leave the text alone
(`EditState.Moves`), typing and operators may take any (`EditState.Edits`). Each function on states is taken
apart once, in the order in which the functions are defined, up to `execute_steps` for any registry whose
actions are made of such steps; what each step keeps, all commands then keep (`Steps.keeps`).
-/

set_option autoImplicit false
set_option relaxedAutoImplicit false

namespace ModalEdit

open Relation (ReflTransGen)

namespace EditState

/-- One thing is changed: the editor in some way, the mode, what is remembered of the carets, or the
command line. -/
inductive Step (change : Editor → Editor → Prop) : EditState → EditState → Prop
  | editor {s : EditState} {editor : Editor} (h : change s.editor editor) : Step change s { s with editor }
  | modes {s : EditState} {modes : ModeMachine} (h : s.modes.Steady modes) :
      Step change s { s with modes }
  | cmdline (s : EditState) (cmdline : Text) : Step change s { s with cmdline }
  | syncCarets (s : EditState) : Step change s s.syncCarets
  | modifyCaret (s : EditState) (caret : CaretId) (f : CaretState → CaretState) :
      Step change s (s.modifyCaret caret f)
  | clearSelections (s : EditState) : Step change s { s with carets := s.carets.clearSelections }

/-- One thing after the other is changed. -/
def Steps (change : Editor → Editor → Prop) : EditState → EditState → Prop :=
  ReflTransGen (Step change)

/-- Steps that leave the text and the registers alone. -/
abbrev Moves := Steps Editor.Move

abbrev Edits := Steps Editor.Edit

variable {change other : Editor → Editor → Prop} {first middle last s t : EditState}

theorem Steps.refl (s : EditState) : Steps change s s := ReflTransGen.refl

theorem Steps.trans (h₁ : Steps change first middle) (h₂ : Steps change middle last) :
    Steps change first last := ReflTransGen.trans h₁ h₂

theorem Step.steps (h : Step change s t) : Steps change s t := ReflTransGen.single h

theorem Step.mono (hle : ∀ {e after}, change e after → other e after) (h : Step change s t) :
    Step other s t := by
  cases h with
  | editor h => exact .editor (hle h)
  | modes h => exact .modes h
  | cmdline cmdline => exact .cmdline s cmdline
  | syncCarets => exact .syncCarets s
  | modifyCaret caret f => exact .modifyCaret s caret f
  | clearSelections => exact .clearSelections s

/-- What each step keeps, a chain of steps keeps. -/
theorem Steps.keeps {P : EditState → Prop} (hstep : ∀ {s t}, Step change s t → P s → P t)
    (h : Steps change s t) (hs : P s) : P t := by
  induction h with
  | refl => exact hs
  | tail _ hlast ih => exact hstep hlast ih

/-- What each change keeps of the editor, a chain of steps keeps of it. -/
theorem Steps.keeps_editor {P : Editor → Prop} (hchange : ∀ {e after}, change e after → P e → P after)
    (h : Steps change s t) (hs : P s.editor) : P t.editor := by
  refine h.keeps (P := fun s ↦ P s.editor) (fun hstep hbefore ↦ ?_) hs
  cases hstep with
  | editor hedit => exact hchange hedit hbefore
  | modes | cmdline | syncCarets | modifyCaret | clearSelections => exact hbefore

theorem Steps.mono (hle : ∀ {e after}, change e after → other e after) (h : Steps change s t) :
    Steps other s t := h.keeps (fun hstep hbefore ↦ hbefore.tail (hstep.mono hle)) (.refl s)

theorem Steps.edits (h : Moves s t) : Edits s t := h.mono .move

theorem Steps.of_editor {editor : Editor} (h : ReflTransGen change s.editor editor) :
    Steps change s { s with editor } := by
  induction h with
  | refl => exact .refl s
  | tail _ hlast ih => exact ih.tail (.editor hlast)

theorem cmdline_moves (s : EditState) (cmdline : Text) : Moves s { s with cmdline } :=
  (Step.cmdline s cmdline).steps

theorem bell_moves (s : EditState) : Moves s s.bell := (Step.editor (.bell s.editor)).steps

/-! ### Modes -/

theorem setMode_snd (s : EditState) (target : Mode) :
    (s.setMode target).2 = { s with modes := s.modes.tryTransition target } := by
  unfold setMode ModeMachine.tryTransition
  cases s.modes.transition target <;> rfl

theorem enterMode_snd (s : EditState) (target : Mode) :
    (s.enterMode target).2 = { s with
      modes := (if s.modes.canTransition target then s.modes
        else s.modes.resetToNormal).tryTransition target } := by
  unfold enterMode
  split
  · exact setMode_snd s target
  · exact setMode_snd _ target

theorem enterMode_editor (s : EditState) (target : Mode) : (s.enterMode target).2.editor = s.editor := by
  rw [enterMode_snd]

variable {target : Mode}

theorem setMode_moves (s : EditState) (htarget : target ≠ .operatorPending) :
    Moves s (s.setMode target).2 := by
  rw [setMode_snd]
  exact (Step.modes (s.modes.tryTransition_steady htarget)).steps

theorem enterMode_moves (s : EditState) (htarget : target ≠ .operatorPending) :
    Moves s (s.enterMode target).2 := by
  rw [enterMode_snd]
  refine (Step.modes (.trans ?_ (ModeMachine.tryTransition_steady _ htarget))).steps
  split
  · exact .refl s.modes
  · exact s.modes.resetToNormal_steady

/-! ### Carets -/

theorem modifyCaret_moves (s : EditState) (caret : CaretId) (f : CaretState → CaretState) :
    Moves s (s.modifyCaret caret f) := (Step.modifyCaret s caret f).steps

/-- What bringing the caret table in line and each step keep, going through the carets keeps. -/
theorem foldCarets_keeps {α : Type} {f : CaretId → α → EditState → α × EditState}
    {P : EditState → Prop} (s : EditState) (a : α) (hsync : P s.syncCarets)
    (hstep : ∀ caret a t, P t → P (f caret a t).2) : P (s.foldCarets a f).2 :=
  List.foldlRecOn (motive := fun result ↦ P result.2) _ _ hsync
    fun (result : α × EditState) h caret _ ↦ hstep caret result.1 result.2 h

theorem forCarets_keeps {f : CaretId → EditState → EditState} {P : EditState → Prop} (s : EditState)
    (hsync : P s.syncCarets) (hstep : ∀ caret t, P t → P (f caret t)) : P (s.forCarets f) :=
  List.foldlRecOn (motive := P) _ _ hsync fun t h caret _ ↦ hstep caret t h

theorem foldCarets_steps {α : Type} {f : CaretId → α → EditState → α × EditState}
    (hf : ∀ caret a t, Steps change t (f caret a t).2) (s : EditState) (a : α) :
    Steps change s (s.foldCarets a f).2 :=
  foldCarets_keeps s a (Step.syncCarets s).steps fun caret a t h ↦ h.trans (hf caret a t)

theorem forCarets_steps {f : CaretId → EditState → EditState} (hf : ∀ caret t, Steps change t (f caret t))
    (s : EditState) : Steps change s (s.forCarets f) :=
  forCarets_keeps s (Step.syncCarets s).steps fun caret t h ↦ h.trans (hf caret t)

theorem moveCaret_moves (s : EditState) (caret : CaretId) (offset : Nat) :
    Moves s (s.moveCaret caret offset) :=
  (Step.editor (.moveCaret s.editor caret offset)).steps.trans (modifyCaret_moves _ caret _)

/-- An edit and the move of a caret after it. -/
theorem moveCaret_edits (s : EditState) {editor : Editor} (h : ReflTransGen Editor.Edit s.editor editor)
    (caret : CaretId) (offset : Nat) : Edits s ({ s with editor }.moveCaret caret offset) :=
  (Steps.of_editor h).trans (moveCaret_moves _ caret offset).edits

theorem moveAll_moves (s : EditState) (destination : Text → Nat → Nat) :
    Moves s (s.moveAll destination) := by
  refine forCarets_steps (fun caret t ↦ ?_) s
  dsimp only
  split
  · exact .refl t
  · split
    · exact .refl t
    · exact t.moveCaret_moves caret _

theorem markInsertStart_editor (s : EditState) : s.markInsertStart.editor = s.editor :=
  forCarets_keeps (P := fun t ↦ t.editor = s.editor) s rfl fun _ _ h ↦ h

theorem markInsertStart_moves (s : EditState) : Moves s s.markInsertStart :=
  forCarets_steps (fun caret t ↦ t.modifyCaret_moves caret _) s

theorem enterInsert_moves (s : EditState) (htarget : target ≠ .operatorPending) :
    Moves s (s.enterInsert target) := by
  have hentered := s.enterMode_moves htarget
  unfold enterInsert
  split
  · next he =>
    rw [he] at hentered
    exact hentered.trans (markInsertStart_moves _)
  · next he =>
    rw [he] at hentered
    exact hentered

/-! ### Selections -/

theorem updateSelection_moves (s : EditState) (caret : CaretId) : Moves s (s.updateSelection caret) := by
  unfold updateSelection
  split
  · exact (Step.editor (.setSelection s.editor caret _ _)).steps
  · exact .refl s

theorem updateSelections_moves (s : EditState) : Moves s s.updateSelections :=
  forCarets_steps (fun caret t ↦ t.updateSelection_moves caret) s

theorem clearSelections_moves (s : EditState) : Moves s s.clearSelections := by
  have hremoved := List.foldlRecOn (motive := ReflTransGen Editor.Move s.editor) s.editor.caretIds
    Editor.removeSelection .refl fun e h caret _ ↦ h.tail (.removeSelection e caret)
  exact (Steps.of_editor hremoved).trans (Step.clearSelections _).steps

theorem exitToNormal_moves (s : EditState) : Moves s s.exitToNormal := by
  unfold exitToNormal
  exact (s.clearSelections_moves.trans
    (Step.modes s.clearSelections.modes.resetToNormal_steady).steps).trans (moveAll_moves _ _)

/-! ### Motions and text objects -/

theorem finish_moves {result : Bool × EditState} (s : EditState) (h : Moves s result.2) :
    Moves s (finish result).2 := by
  obtain ⟨done, t⟩ := result
  cases done with
  | true => exact h
  | false => exact h.trans t.bell_moves

theorem showSelection_moves (s : EditState) (caret : CaretId) : Moves s (s.showSelection caret) := by
  unfold showSelection
  split
  · exact s.updateSelection_moves caret
  · exact .refl s

theorem applyMotion_moves (s : EditState) (call : ActionCall) (f : Motion) :
    Moves s (s.applyMotion call f).2 := by
  refine finish_moves s (foldCarets_steps (fun caret done t ↦ ?_) s false)
  unfold applyMotionTo
  split
  · exact .refl t
  · dsimp only
    split
    · exact .refl t
    · exact ((t.moveCaret_moves caret _).trans (modifyCaret_moves _ caret _)).trans
        (showSelection_moves _ caret)

theorem selectTextObject_moves (s : EditState) (call : ActionCall) (f : TextObject) :
    Moves s (s.selectTextObject call f).2 := by
  unfold selectTextObject
  split
  · refine finish_moves s (foldCarets_steps (fun caret done t ↦ ?_) s false)
    unfold selectTextObjectAt
    split
    · exact .refl t
    · dsimp only
      split
      · exact .refl t
      · exact ((t.modifyCaret_moves caret _).trans (moveCaret_moves _ caret _)).trans
          (updateSelection_moves _ caret)
  · exact s.bell_moves

/-! ### Typing -/

/-- Bringing the caret table in line keeps a property, and so does rewriting the text and then moving a caret. -/
structure KeptByTyping (P : EditState → Prop) : Prop where
  syncCarets : ∀ {s}, P s → P s.syncCarets
  rewrite : ∀ {s : EditState} {editor}, ReflTransGen Editor.Rewrite s.editor editor → ∀ caret offset, P s →
    P ({ s with editor }.moveCaret caret offset)

namespace KeptByTyping

variable {P : EditState → Prop} (hP : KeptByTyping P)
include hP

theorem insertAtCarets (h : P s) (typed : Text) : P (s.insertAtCarets typed) := by
  refine forCarets_keeps s (hP.syncCarets h) fun caret t ht ↦ ?_
  split
  · exact ht
  · exact hP.rewrite (.single (.insertText t.editor _ typed)) caret _ ht

theorem overwriteAt (h : P s) (c : Char) (caret : CaretId) : P (overwriteAt c caret s) := by
  unfold EditState.overwriteAt
  split
  · exact h
  · dsimp only
    refine hP.rewrite (.tail ?_ (.insertText _ _ [c])) caret _ h
    split
    · exact .single (.eraseRange s.editor _ _)
    · exact .refl

theorem overwriteAtCarets (h : P s) (typed : Text) : P (s.overwriteAtCarets typed) :=
  List.foldlRecOn (motive := P) _ _ h fun t ht c _ ↦
    forCarets_keeps t (hP.syncCarets ht) fun caret _ hu ↦ hP.overwriteAt hu c caret

theorem backspace (h : P s) : P s.backspace := by
  refine forCarets_keeps s (hP.syncCarets h) fun caret t ht ↦ ?_
  dsimp only
  split
  · exact ht
  · exact ht
  · refine hP.rewrite ?_ caret _ ht
    split
    · exact .single (.eraseRange t.editor _ _)
    · exact .refl

theorem typeTab (h : P s) : P s.typeTab := by
  unfold EditState.typeTab
  split
  · exact hP.overwriteAtCarets h _
  · exact hP.insertAtCarets h _

theorem openLine (h : P s) (below : Bool) : ∃ t, P t ∧ s.openLine below = t.enterInsert .insert := by
  refine ⟨_, forCarets_keeps s (hP.syncCarets h) fun caret t ht ↦ ?_, rfl⟩
  dsimp only
  split
  · exact ht
  · exact hP.rewrite (.single (.insertText t.editor _ _)) caret _ ht

theorem replaceSelections (h : P s) :
    ∃ t, P t ∧ s.replaceSelections = t.clearSelections.enterInsert .insert := by
  refine ⟨_, forCarets_keeps s (hP.syncCarets h) fun caret t ht ↦ ?_, rfl⟩
  split
  · exact ht
  · exact hP.rewrite (.single (.eraseRange t.editor _ _)) caret _ ht

end KeptByTyping

theorem edits_keptByTyping (s : EditState) : KeptByTyping (Edits s) where
  syncCarets h := h.tail (.syncCarets _)
  rewrite hrewrite caret offset h :=
    h.trans (moveCaret_edits _ (ReflTransGen.mono (fun _ _ hstep ↦ hstep.edit) _ _ hrewrite) caret offset)

theorem insertAtCarets_edits (s : EditState) (typed : Text) : Edits s (s.insertAtCarets typed) :=
  s.edits_keptByTyping.insertAtCarets (.refl s) typed

theorem overwriteAtCarets_edits (s : EditState) (typed : Text) : Edits s (s.overwriteAtCarets typed) :=
  s.edits_keptByTyping.overwriteAtCarets (.refl s) typed

theorem replaceSelections_edits (s : EditState) : Edits s s.replaceSelections := by
  obtain ⟨t, ht, heq⟩ := s.edits_keptByTyping.replaceSelections (.refl s)
  rw [heq]
  exact ht.trans ((clearSelections_moves t).trans (enterInsert_moves _ Mode.noConfusion)).edits

theorem typeKeys_edits (s : EditState) (keys : Keys) : Edits s (s.typeKeys keys).2 := by
  unfold typeKeys
  dsimp only
  split
  · exact s.replaceSelections_edits
  · split
    · exact s.bell_moves.edits
    · split
      · exact s.insertAtCarets_edits _
      · exact s.overwriteAtCarets_edits _
      · exact s.replaceSelections_edits.trans (insertAtCarets_edits _ _)
      · exact (s.cmdline_moves _).edits
      · exact s.bell_moves.edits

theorem backspace_edits (s : EditState) : Edits s s.backspace := s.edits_keptByTyping.backspace (.refl s)

theorem typeTab_edits (s : EditState) : Edits s s.typeTab := s.edits_keptByTyping.typeTab (.refl s)

theorem openCommandLine_moves (s : EditState) : Moves s s.openCommandLine := by
  have hleft : Moves s (if s.mode.isVisual then s.exitToNormal else s) := by
    split
    · exact s.exitToNormal_moves
    · exact .refl s
  unfold openCommandLine
  exact (hleft.trans (cmdline_moves _ [])).trans (setMode_moves _ Mode.noConfusion)

theorem closeCommandLine_moves (s : EditState) : Moves s s.closeCommandLine := by
  unfold closeCommandLine
  exact (s.cmdline_moves []).trans (setMode_moves _ Mode.noConfusion)

theorem commandLineBackspace_moves (s : EditState) : Moves s s.commandLineBackspace := by
  unfold commandLineBackspace
  split
  · exact s.setMode_moves Mode.noConfusion
  · exact s.cmdline_moves _

/-! ### Ways into and out of the modes -/

theorem append_moves (s : EditState) : Moves s s.append :=
  (s.moveAll_moves _).trans (enterInsert_moves _ Mode.noConfusion)

theorem insertAtIndent_moves (s : EditState) : Moves s s.insertAtIndent :=
  (s.moveAll_moves _).trans (enterInsert_moves _ Mode.noConfusion)

theorem appendAtLineEnd_moves (s : EditState) : Moves s s.appendAtLineEnd :=
  (s.moveAll_moves _).trans (enterInsert_moves _ Mode.noConfusion)

theorem openLine_edits (s : EditState) (below : Bool) : Edits s (s.openLine below) := by
  obtain ⟨t, ht, heq⟩ := s.edits_keptByTyping.openLine (.refl s) below
  rw [heq]
  exact ht.trans (enterInsert_moves t Mode.noConfusion).edits

theorem leaveInsert_moves (s : EditState) : Moves s s.leaveInsert :=
  ((s.moveAll_moves _).trans (forCarets_steps (fun caret t ↦ t.modifyCaret_moves caret _) _)).trans
    (exitToNormal_moves _)

theorem startSelection_moves (s : EditState) (htarget : target ≠ .operatorPending) :
    Moves s (s.startSelection target) := by
  unfold startSelection
  dsimp only
  generalize hmarked : (s.forCarets fun caret s ↦
    s.modifyCaret caret fun state ↦ { state with selectionStart := some state.offset }) = marked
  have hstarts : Moves s marked := by
    rw [← hmarked]
    exact forCarets_steps (fun caret t ↦ t.modifyCaret_moves caret _) s
  have hentered := hstarts.trans (marked.enterMode_moves htarget)
  split
  · next he =>
    rw [he] at hentered
    exact hentered.trans (updateSelections_moves _)
  · next he =>
    rw [he] at hentered
    exact hentered.trans (Step.clearSelections _).steps

theorem toggleVisual_moves (s : EditState) (kind : SelectionKind) : Moves s (s.toggleVisual kind) := by
  unfold toggleVisual
  split
  · split
    · exact s.exitToNormal_moves
    · exact (s.setMode_moves Mode.noConfusion).trans (updateSelections_moves _)
  · exact s.startSelection_moves Mode.noConfusion

theorem startSelect_moves (s : EditState) (kind : SelectionKind) : Moves s (s.startSelect kind) := by
  have hstarted : Moves s (s.startSelection (.select kind)) := s.startSelection_moves Mode.noConfusion
  unfold startSelect
  dsimp only
  split
  · refine hstarted.trans (forCarets_steps (fun caret t ↦ ?_) _)
    split
    · exact .refl t
    · exact (t.moveCaret_moves caret _).trans (updateSelection_moves _ caret)
  · exact hstarted

theorem changeSelectionMode_moves (s : EditState) (htarget : target ≠ .operatorPending)
    (toSelect : Bool) : Moves s (s.changeSelectionMode target toSelect) := by
  refine ((forCarets_steps (fun caret t ↦ ?_) s).trans (setMode_moves _ htarget)).trans
    (updateSelections_moves _)
  split
  · exact .refl t
  · dsimp only
    split
    · exact .refl t
    · exact t.moveCaret_moves caret _

theorem toggleVisualSelect_moves (s : EditState) : Moves s s.toggleVisualSelect := by
  unfold toggleVisualSelect
  split
  · exact s.changeSelectionMode_moves Mode.noConfusion true
  · exact s.changeSelectionMode_moves Mode.noConfusion false
  · exact .refl s

theorem escape_moves (s : EditState) : Moves s s.escape := by
  unfold escape
  split
  · exact s.bell_moves
  · exact s.exitToNormal_moves

theorem cancel_moves (s : EditState) : Moves s s.cancel := by
  unfold cancel
  split
  · exact .refl s
  · exact s.leaveInsert_moves
  · exact s.leaveInsert_moves
  · exact (s.cmdline_moves []).trans (exitToNormal_moves _)
  · exact s.exitToNormal_moves

theorem adaptSelection_moves (s : EditState) (options : Options) (shifted : Bool) :
    Moves s (s.adaptSelection options shifted) := by
  have hstops (stops : Bool) : Moves s (if stops then s.exitToNormal else s) := by
    cases stops with
    | true => exact s.exitToNormal_moves
    | false => exact .refl s
  unfold adaptSelection
  dsimp only
  split
  · split
    · refine s.startSelection_moves ?_
      split <;> exact Mode.noConfusion
    · exact .refl s
  · split
    · exact hstops _
    · exact .refl s

theorem specialKey_moves (s : EditState) (around : Surroundings) (command : Command) :
    Moves s (s.specialKey around command) := by
  unfold specialKey
  split
  · exact .refl s
  · split
    · exact .refl s
    · exact (s.adaptSelection_moves around.options _).trans (applyMotion_moves _ _ _)

/-! ### Operators -/

end EditState

/-- An operator that is made of some changes of the editor, and after which no operator waits. -/
def Operator.MadeOf (change : Editor → Editor → Prop) (body : Operator) : Prop :=
  ∀ e args, ReflTransGen change e (body e args).2 ∧ (body e args).1.nextMode ≠ .operatorPending

/-- An operator that rewrites the text and the registers, and asks for the normal or the insert mode. -/
structure Operator.Rewrites (body : Operator) : Prop where
  editor : ∀ e args, ReflTransGen Editor.Rewrite e (body e args).2
  nextMode : ∀ e args, (body e args).1.nextMode = .normal ∨ (body e args).1.nextMode = .insert

namespace Operator

theorem Rewrites.madeOf {body : Operator} (h : body.Rewrites) : MadeOf Editor.Edit body := by
  intro e args
  refine ⟨ReflTransGen.mono (fun _ _ hrewrite ↦ hrewrite.edit) _ _ (h.editor e args), ?_⟩
  rcases h.nextMode e args with hmode | hmode <;> rw [hmode] <;> exact Mode.noConfusion

theorem eraseSegments_rewrites (e : Editor) (segments : List (Nat × Nat)) :
    ReflTransGen Editor.Rewrite e (eraseSegments e segments).2 := by
  induction segments with
  | nil => exact .refl
  | cons segment rest ih => exact ih.tail (.eraseRange _ segment.1 segment.2)

theorem delete_rewrites : Rewrites delete := by
  constructor
  · intro e args
    unfold delete
    dsimp only
    split
    · exact .tail (.single (.eraseRange e _ _)) (.record _ _)
    · exact .tail (.single (.eraseRange e _ _)) (.record _ _)
    · exact (eraseSegments_rewrites e _).tail (.record _ _)
  · intro e args
    unfold delete
    dsimp only
    split <;> exact .inl rfl

theorem changeWith_rewrites (blockToLineEnds : Bool) : Rewrites (changeWith blockToLineEnds) := by
  refine ⟨fun e args ↦ ?_, fun _ _ ↦ .inr rfl⟩
  unfold changeWith
  dsimp only
  refine .tail ?_ (.record _ _)
  split
  · exact .single (.eraseRange e _ _)
  · exact .single (.eraseRange e _ _)
  · exact eraseSegments_rewrites e _

theorem yank_rewrites : Rewrites yank := ⟨fun e _ ↦ .single (.record e _), fun _ _ ↦ .inl rfl⟩

theorem mapChars_rewrites (f : Char → List Char) (e : Editor) (start stop : Nat) :
    ReflTransGen Editor.Rewrite e (mapChars f e start stop) := by
  unfold mapChars
  dsimp only
  split
  · exact .refl
  · exact .tail (.single (.eraseRange e _ _)) (.insertText _ _ _)

theorem mapCase_rewrites (f : Char → List Char) : Rewrites (mapCase f) := by
  refine ⟨fun e args ↦ ?_, fun _ _ ↦ .inl rfl⟩
  unfold mapCase
  dsimp only
  split
  · exact List.foldlRecOn (motive := ReflTransGen Editor.Rewrite e) _ _ .refl
      fun before h segment _ ↦ h.trans (mapChars_rewrites f before segment.1 segment.2)
  · exact mapChars_rewrites f e _ _

end Operator

namespace EditState

/-- Of what holds once an operator was run on all spans, the entering of its mode leaves what moves leave. -/
theorem operate_keeps_editor {P : Editor → Prop}
    (hmove : ∀ {e after}, Editor.Move e after → P e → P after) {s : EditState} {call : ActionCall}
    {body : Operator} {ranges : List (CaretId × TextRange)}
    (hrun : P ((s.pinAll ranges).1.foldl (fun result p ↦ operateOn call body result.1 result.2 p)
      (.normal, (s.pinAll ranges).2)).2.editor) : P (s.operate call body ranges).2.editor := by
  unfold operate
  dsimp only
  split
  · refine (markInsertStart_moves _).keeps_editor hmove ?_
    rw [enterMode_editor]
    exact hrun
  · rw [enterMode_editor]
    exact hrun

section Operate

variable {change : Editor → Editor → Prop} (hedit : ∀ {e after}, Editor.Edit e after → change e after)

include hedit

theorem Steps.of_moves {s t : EditState} (h : Moves s t) : Steps change s t :=
  h.mono fun hmove ↦ hedit (.move hmove)

theorem pinAll_steps (s : EditState) (ranges : List (CaretId × TextRange)) :
    Steps change s (s.pinAll ranges).2 := by
  induction ranges generalizing s with
  | nil => exact .refl s
  | cons range rest ih =>
    have hpinned : Steps change s (s.pin range.1 range.2).2 :=
      (Steps.of_editor (.tail (.single (.createMark s.editor range.2.start))
        (.createMark _ range.2.stop))).mono hedit
    exact hpinned.trans (ih _)

theorem unpin_steps (s : EditState) (p : PinnedRange) : Steps change s (s.unpin p).2 :=
  (Steps.of_editor (.tail (.single (.releaseMark s.editor p.first)) (.releaseMark _ p.last))).mono hedit

variable {body : Operator} (hbody : body.MadeOf change)

include hbody

/-- One span more, after which no mode is asked for that an operator would wait in. -/
theorem operateOn_steps (call : ActionCall) {nextMode : Mode} (hnext : nextMode ≠ .operatorPending)
    (s : EditState) (p : PinnedRange) :
    Steps change s (operateOn call body nextMode s p).2 ∧
      (operateOn call body nextMode s p).1 ≠ .operatorPending := by
  have hunpinned := unpin_steps hedit s p
  unfold operateOn
  split
  · next he =>
    rw [he] at hunpinned
    exact ⟨hunpinned, hnext⟩
  · next range t he =>
    rw [he] at hunpinned
    have hdone := hbody t.editor
      { caret := p.caret, range, register := call.register, count := call.count }
    exact ⟨(hunpinned.trans (.of_editor hdone.1)).trans (.of_moves hedit (moveCaret_moves _ p.caret _)),
      hdone.2⟩

theorem operate_steps (s : EditState) (call : ActionCall) (ranges : List (CaretId × TextRange)) :
    Steps change s (s.operate call body ranges).2 := by
  have hrun := List.foldlRecOn
    (motive := fun result : Mode × EditState ↦ Steps change s result.2 ∧ result.1 ≠ .operatorPending)
    (s.pinAll ranges).1 (fun result p ↦ operateOn call body result.1 result.2 p)
    (b := (.normal, (s.pinAll ranges).2)) ⟨pinAll_steps hedit s ranges, Mode.noConfusion⟩
    (fun result h p _ ↦
      have hstep := operateOn_steps hedit hbody call h.2 result.2 p
      ⟨h.1.trans hstep.1, hstep.2⟩)
  have hentered := hrun.1.trans (.of_moves hedit (enterMode_moves _ hrun.2))
  unfold operate
  dsimp only
  split
  · exact hentered.trans (.of_moves hedit (markInsertStart_moves _))
  · exact hentered

theorem compose_steps (s : EditState) (registry : Registry) (command : Command) :
    Steps change s (s.compose registry command body).2 := by
  have hsync : Steps change s s.syncCarets := (Step.syncCarets s).steps
  unfold compose
  split
  · exact .of_moves hedit s.bell_moves
  · dsimp only
    split
    · exact hsync.trans (.of_moves hedit s.syncCarets.bell_moves)
    · exact hsync.trans (operate_steps hedit hbody _ _ _)

theorem operateOnSelections_steps (s : EditState) (command : Command) :
    Steps change s (s.operateOnSelections command body).2 := by
  unfold operateOnSelections
  split
  · exact .refl s
  · have hleft : Moves s (s.syncCarets.clearSelections.setMode .normal).2 :=
      ((Step.syncCarets s).steps.trans (clearSelections_moves _)).trans (setMode_moves _ Mode.noConfusion)
    exact (Steps.of_moves hedit hleft).trans (operate_steps hedit hbody _ _ _)

end Operate

end EditState

/-! ### Actions -/

/-- An action made of steps. Motions and text objects are functions of the text, and what runs them is made
of steps for all of them. -/
def ActionHandler.MadeOfSteps : ActionHandler → Prop
  | motion _ | textObject _ => True
  | operator body => body.MadeOf Editor.Edit
  | other f => ∀ around command s, EditState.Edits s (f around command s)

/-- A registry all of whose actions are made of steps. -/
def Registry.MadeOfSteps (r : Registry) : Prop := ∀ spec ∈ r.specs, spec.handler.MadeOfSteps

theorem EditState.execute_edits {registry : Registry} (h : registry.MadeOfSteps) (s : EditState)
    (options : Options) (command : Command) : Edits s (s.execute registry options command).2 := by
  unfold execute
  split
  · exact s.bell_moves.edits
  · next spec hget =>
    have hspec := h spec (List.mem_of_find?_eq_some hget)
    split
    · exact (s.applyMotion_moves _ _).edits
    · exact (s.selectTextObject_moves _ _).edits
    · next body hhandler =>
      rw [hhandler] at hspec
      split
      · exact operateOnSelections_steps id hspec s command
      · exact compose_steps id hspec s registry command
    · next f hhandler =>
      rw [hhandler] at hspec
      exact hspec (registry.surroundings options) command s

end ModalEdit
