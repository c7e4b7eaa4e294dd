import Mathlib.Data.List.Perm.Subperm
import ModalEdit.Proofs.GestureSteps
import ModalEdit.Proofs.KeyedRuns
import ModalEdit.Proofs.MarkAccounts

/-!
An editor keeps its accounts through whole sessions. What locking the guard, each move, each rewriting of
the text and each operator as a whole keep (`Editor.Lasting`), a session keeps in whatever it is asked to do,
and whatever strokes are bound (`Editor.Lasting.call`, `Editor.Lasting.pump`). The account of the marks is
kept so, and so are the carets themselves, which only gestures bring and take away, each under an id that
none has had before (`Editor.Succeeds`). So whatever a user and a session do to an editor, and whatever is
done to its text directly, there is a caret, selections lie in the text in order, and no mark is left over
(`Session.editor_keeps_accounts`).
-/

set_option autoImplicit false
set_option relaxedAutoImplicit false

namespace ModalEdit

open Relation (ReflTransGen)

/-- What the single changes that commands make to the editor keep, and operators as a whole, which take marks
and let go of them again. -/
structure Editor.Lasting (P : Editor → Prop) : Prop where
  withGuard : ∀ {e : Editor} guard, P e → P { e with guard }
  withListener : ∀ {e : Editor} listener, P e → P { e with listener }
  move : ∀ {e after}, Editor.Move e after → P e → P after
  rewrite : ∀ {e after}, Editor.Rewrite e after → P e → P after
  operate : ∀ {s : EditState} {body : Operator}, body.Rewrites → P s.editor → ∀ call ranges,
    P (s.operate call body ranges).2.editor

/-- An action keeps a property of the editor in any mode, if it is no operator. -/
abbrev ActionSpec.KeepsEditor (P : Editor → Prop) (a : ActionSpec) : Prop :=
  a.Keeps (fun s ↦ P s.editor) Operator.Rewrites fun _ _ ↦ True

namespace Editor.Lasting

variable {P : Editor → Prop} (hP : Lasting P) {s t : EditState}
include hP

/-! ### Commands -/

theorem moves (hmoves : EditState.Moves s t) (h : P s.editor) : P t.editor := hmoves.keeps_editor hP.move h

theorem keptByTyping : EditState.KeptByTyping fun s ↦ P s.editor where
  syncCarets h := h
  rewrite hrewrites caret offset h := by
    refine hP.move (.moveCaret _ caret offset) ?_
    induction hrewrites with
    | refl => exact h
    | tail _ hlast ih => exact hP.rewrite hlast ih

theorem openLine (h : P s.editor) (below : Bool) : P (s.openLine below).editor := by
  obtain ⟨t, ht, heq⟩ := hP.keptByTyping.openLine h below
  rw [heq]
  exact hP.moves (t.enterInsert_moves Mode.noConfusion) ht

theorem replaceSelections (h : P s.editor) : P s.replaceSelections.editor := by
  obtain ⟨t, ht, heq⟩ := hP.keptByTyping.replaceSelections h
  rw [heq]
  exact hP.moves (t.clearSelections_moves.trans (EditState.enterInsert_moves _ Mode.noConfusion)) ht

theorem typeKeys (h : P s.editor) (keys : Keys) : P (s.typeKeys keys).2.editor := by
  unfold EditState.typeKeys
  dsimp only
  split
  · exact hP.replaceSelections h
  · split
    · exact hP.moves s.bell_moves h
    · split
      · exact hP.keptByTyping.insertAtCarets h _
      · exact hP.keptByTyping.overwriteAtCarets h _
      · exact hP.keptByTyping.insertAtCarets (hP.replaceSelections h) _
      · exact h
      · exact hP.moves s.bell_moves h

theorem keptByCommands : EditState.KeptByCommands (fun s ↦ P s.editor) Operator.Rewrites where
  bell s h := hP.moves s.bell_moves h
  applyMotion s call f h := hP.moves (s.applyMotion_moves call f) h
  selectTextObject s call f h := hP.moves (s.selectTextObject_moves call f) h
  operateOnSelections s command body hbody h := by
    unfold EditState.operateOnSelections
    split
    · exact h
    · refine hP.operate hbody (hP.moves ?_ h) _ _
      exact ((EditState.Step.syncCarets s).steps.trans (EditState.clearSelections_moves _)).trans
        (EditState.setMode_moves _ Mode.noConfusion)
  compose s registry command body hbody h _ := by
    unfold EditState.compose
    split
    · exact hP.moves s.bell_moves h
    · dsimp only
      split
      · exact hP.moves ((EditState.Step.syncCarets s).steps.trans s.syncCarets.bell_moves) h
      · exact hP.operate (s := s.syncCarets) hbody h _ _

open Builtin in
theorem change_keepsEditor {f : EditState → EditState} (hf : ∀ s, EditState.Moves s (f s)) (id : ActionId) :
    (change id f).KeepsEditor P := change_keeps fun s h _ ↦ hP.moves (hf s) h

open Builtin in
theorem modeChanges_keep : ∀ a ∈ modeChanges, a.KeepsEditor P := by
  have changes {f : EditState → EditState} (hf : ∀ s, EditState.Moves s (f s)) {id : ActionId} :=
    hP.change_keepsEditor hf id
  have selects {f : EditState → SelectionKind → EditState} (hf : ∀ s kind, EditState.Moves s (f s kind))
      {id : ActionId} : (selecting id f).KeepsEditor P :=
    selecting_keeps (fun s kind h ↦ hP.moves (hf s kind) h) id
  simp only [modeChanges, List.forall_mem_cons, List.not_mem_nil, false_imp_iff, implies_true, and_true]
  exact ⟨changes (·.enterInsert_moves Mode.noConfusion), changes EditState.append_moves,
    changes EditState.insertAtIndent_moves, changes EditState.appendAtLineEnd_moves,
    change_keeps fun _ h _ ↦ hP.openLine h true, change_keeps fun _ h _ ↦ hP.openLine h false,
    changes (·.enterInsert_moves Mode.noConfusion), selects EditState.toggleVisual_moves,
    selects EditState.toggleVisual_moves, selects EditState.toggleVisual_moves,
    selects EditState.startSelect_moves, selects EditState.startSelect_moves,
    selects EditState.startSelect_moves, changes EditState.toggleVisualSelect_moves,
    changes EditState.openCommandLine_moves, changes EditState.escape_moves⟩

open Builtin in
theorem typing_keep : ∀ a ∈ typing, a.KeepsEditor P := by
  have changes {f : EditState → EditState} (hf : ∀ s, EditState.Moves s (f s)) {id : ActionId} :=
    hP.change_keepsEditor hf id
  simp only [typing, List.forall_mem_cons, List.not_mem_nil, false_imp_iff, implies_true, and_true]
  exact ⟨changes EditState.leaveInsert_moves, change_keeps fun _ h _ ↦ hP.keptByTyping.backspace h,
    change_keeps fun _ h _ ↦ hP.keptByTyping.insertAtCarets h _,
    change_keeps fun _ h _ ↦ hP.keptByTyping.typeTab h, changes EditState.closeCommandLine_moves,
    changes EditState.closeCommandLine_moves, changes EditState.commandLineBackspace_moves⟩

theorem execute (h : P s.editor) (options : Options) (command : Command) :
    P (s.execute .standard options command).2.editor := by
  have hactions : ∀ a ∈ Registry.standard.specs, a.KeepsEditor P :=
    Registry.standard_keeps Builtin.operators_rewrite hP.modeChanges_keep hP.typing_keep
      fun s around command h ↦ hP.moves (s.specialKey_moves around command) h
  exact hP.keptByCommands.execute hactions h options trivial

/-! ### Sessions -/

theorem guarded {α : Type} {f : EditState → α × EditState} (hf : P s.prepared.editor → P (f s.prepared).2.editor)
    (h : P s.editor) : P (s.guarded f).2.editor :=
  hP.withGuard _ (hf (hP.withGuard (e := s.editor) _ h))

theorem guardedChange {f : EditState → EditState} (hf : EditState.Moves s.prepared (f s.prepared))
    (h : P s.editor) : P (s.guardedChange f).editor := hP.guarded (hP.moves hf) h

theorem apply (h : P s.editor) (options : Options) (operatorPending : Bool) (outcome : Outcome) :
    P (s.apply .standard options operatorPending outcome).2.editor := by
  have hsynced : P (s.syncOperatorMode operatorPending).editor := by
    rw [EditState.syncOperatorMode_eq]
    exact h
  have hexecute {t : EditState} (ht : P t.editor) := hP.execute ht options
  unfold EditState.apply
  generalize s.syncOperatorMode operatorPending = synced at hsynced
  -- the actions are only looked up, never gone through
  generalize Registry.standard = registry at hexecute ⊢
  cases outcome with
  | pending => exact hsynced
  | resolved command =>
    show P (synced.guarded fun s ↦ s.execute registry options command).2.editor
    exact hP.guarded (fun hprepared ↦ hexecute hprepared command) hsynced
  | cancelled => exact hP.guardedChange (EditState.cancel_moves _) hsynced
  | unmapped keys =>
    dsimp only
    split
    · show P (synced.guarded fun s ↦ s.typeKeys keys).2.editor
      exact hP.guarded (fun hprepared ↦ hP.typeKeys hprepared keys) hsynced
    · exact hP.moves synced.bell_moves hsynced

/-- What a session with the standard actions keeps of its editor. -/
theorem act {s : Session} (hregistry : s.registry = .standard) (h : P s.editor) (result : Outcome × Resolver) :
    (s.act result).2.registry = .standard ∧ P (s.act result).2.editor := by
  refine ⟨hregistry, ?_⟩
  show P (s.edit.apply s.registry s.options _ _).2.editor
  rw [hregistry]
  exact hP.apply h _ _ _

theorem readNext {s : Session} (h : s.registry = .standard ∧ P s.editor) :
    s.readNext.registry = .standard ∧ P s.readNext.editor := by
  cases hinput : s.resolver.input with
  | nil => rwa [Session.readNext_of_nil hinput]
  | cons stroke rest =>
    rw [Session.readNext_of_cons hinput]
    exact hP.act h.1 h.2 _

theorem handleEvent {s : Session} (h : P s.editor) (event : EditorEvent) : P (s.handleEvent event).editor := by
  have hadopt (caret : CaretId) (source : EventSource) :
      P (s.edit.guardedChange fun edit ↦ edit.adoptSelection s.options caret source).editor :=
    hP.guardedChange (EditState.adoptSelection_moves _ _ caret source) h
  cases event with
  | caretAdded caret offset => exact h
  | caretRemoved caret => exact h
  | caretMoved caret offset => exact h
  | dragStarted caret =>
    unfold Session.handleEvent
    dsimp only
    split
    · exact h
    · exact hP.withGuard (e := s.editor) _ h
  | mouseReleased caret =>
    unfold Session.handleEvent
    dsimp only
    split
    · exact hP.withGuard _ (hadopt caret .mouse)
    · exact h
  | mouseClicked caret offset clicks =>
    unfold Session.handleEvent
    dsimp only
    split
    · exact hP.guardedChange (f := (·.click caret offset)) (EditState.click_moves _ caret offset) h
    · exact h
  | selectionChanged caret start stop source => exact hadopt caret source

theorem pump {s : Session} (h : s.registry = .standard ∧ P s.editor) :
    s.pump.registry = .standard ∧ P s.pump.editor := by
  obtain ⟨listener, htaken⟩ := s.editor.takeEvents_eq
  have hstart : P (s.withEditor s.editor.takeEvents.2).editor := by
    show P s.editor.takeEvents.2
    rw [htaken]
    exact hP.withListener listener h.2
  refine List.foldlRecOn (motive := fun t : Session ↦ t.registry = .standard ∧ P t.editor) _ _
    ⟨h.1, hstart⟩ fun t ht event _ ↦ ⟨?_, hP.handleEvent ht.2 event⟩
  obtain ⟨edit, dragging, heq, -⟩ := t.handleEvent_eq event
  rw [heq]
  exact ht.1

/-- Whatever it is asked to do, a session keeps it. -/
theorem call {s : Session} (h : s.registry = .standard ∧ P s.editor) (c : Session.KeyCall) :
    (s.call c).registry = .standard ∧ P (s.call c).editor := by
  refine Session.call_keeps (P := fun t ↦ t.registry = .standard ∧ P t.editor) (fun t c ht ↦ ?_)
    (fun _ ht ↦ hP.readNext ht) h c
  cases c with
  | key stroke => exact hP.pump ht
  | flush => exact hP.act ht.1 ht.2 _

end Editor.Lasting

namespace Editor

/-! ### The account of the marks -/

theorem accounted_lasting : Lasting (Accounted []) where
  withGuard _ h := h.of_buffer rfl rfl rfl
  withListener _ h := h.of_buffer rfl rfl rfl
  move hmove h := hmove.accounted h
  rewrite hrewrite h := hrewrite.accounted h
  operate hbody h call ranges := EditState.operate_accounted h hbody call ranges

/-! ### Carets and their ids -/

/-- The carets are the same, and so is the next one. -/
structure SameCarets (before after : Editor) : Prop where
  ids : after.caretIds = before.caretIds
  next : after.nextCaret = before.nextCaret

variable {e after first middle last : Editor}

theorem SameCarets.refl (e : Editor) : SameCarets e e := ⟨rfl, rfl⟩

theorem SameCarets.trans (h₁ : SameCarets first middle) (h₂ : SameCarets middle last) :
    SameCarets first last := ⟨h₂.ids.trans h₁.ids, h₂.next.trans h₁.next⟩

theorem setHead_sameCarets (e : Editor) (caret : CaretId) (offset : Nat) :
    SameCarets e (e.setHead caret offset).2 := by
  unfold setHead
  split <;> exact ⟨rfl, rfl⟩

theorem storeSelection_sameCarets (e : Editor) (caret : CaretId) (a b : Nat) :
    SameCarets e (e.storeSelection caret a b) := by
  unfold storeSelection
  split
  · exact .refl e
  · exact ⟨rfl, rfl⟩
  · exact ⟨caretIds_setSelectionMarks _ caret _, rfl⟩

theorem clearSelection_sameCarets (e : Editor) (caret : CaretId) :
    SameCarets e (e.clearSelection caret).2 := by
  unfold clearSelection
  split
  · exact .refl e
  · exact ⟨caretIds_setSelectionMarks e caret none, rfl⟩

theorem emit_sameCarets (e : Editor) (event : EditorEvent) : SameCarets e (e.emit event) := ⟨rfl, rfl⟩

theorem Edit.sameCarets (h : Edit e after) : SameCarets e after := by
  cases h with
  | move hmove =>
    cases hmove with
    | bell => exact ⟨rfl, rfl⟩
    | moveCaret caret offset =>
      obtain ⟨buffer, listener, heq, -⟩ := e.exists_moveCaret_eq caret offset
      rw [heq]
      exact ⟨rfl, rfl⟩
    | setSelection caret a b =>
      have hstored := e.storeSelection_sameCarets caret a b
      unfold setSelection
      dsimp only
      split
      · exact hstored.trans (emit_sameCarets _ _)
      · exact hstored
    | removeSelection caret =>
      have hcleared := e.clearSelection_sameCarets caret
      unfold removeSelection
      split <;> next he =>
        rw [he] at hcleared
        exact ⟨hcleared.ids, hcleared.next⟩
  | eraseRange | insertText | createMark | releaseMark | record => exact ⟨rfl, rfl⟩

theorem sameCarets_lasting (e : Editor) : Lasting (SameCarets e) where
  withGuard _ h := h.trans ⟨rfl, rfl⟩
  withListener _ h := h.trans ⟨rfl, rfl⟩
  move hmove h := h.trans (Edit.move hmove).sameCarets
  rewrite hrewrite h := h.trans hrewrite.edit.sameCarets
  operate hbody h call ranges :=
    (EditState.operate_steps id hbody.madeOf _ call ranges).keeps_editor
      (fun hedit hbefore ↦ hbefore.trans hedit.sameCarets) h

/-- Carets may have come and gone, but those that have come are new. -/
structure Succeeds (before after : Editor) : Prop where
  next : before.nextCaret ≤ after.nextCaret
  ids : ∀ caret ∈ after.caretIds, caret ∈ before.caretIds ∨ before.nextCaret ≤ caret.serial

theorem Succeeds.refl (e : Editor) : Succeeds e e := ⟨Nat.le_refl _, fun _ ↦ .inl⟩

theorem Succeeds.trans (h₁ : Succeeds first middle) (h₂ : Succeeds middle last) : Succeeds first last where
  next := Nat.le_trans h₁.next h₂.next
  ids caret hcaret := by
    rcases h₂.ids caret hcaret with hmem | hnew
    · exact h₁.ids caret hmem
    · exact .inr (Nat.le_trans h₁.next hnew)

theorem SameCarets.succeeds (h : SameCarets e after) : Succeeds e after :=
  ⟨h.next ▸ Nat.le_refl _, fun _ hcaret ↦ .inl (h.ids ▸ hcaret)⟩

theorem Sound.lt_of_mem_caretIds (h : e.Sound) {caret : CaretId} (hmem : caret ∈ e.caretIds) :
    caret.serial < e.nextCaret := by
  obtain ⟨entry, hentry, rfl⟩ := List.mem_map.mp hmem
  exact h.spawned entry hentry

/-- A caret that has gone does not come back. -/
theorem Succeeds.mem_of_mem (hfirst : first.Sound) (h₁ : Succeeds first middle) (h₂ : Succeeds middle last)
    {caret : CaretId} (hbefore : caret ∈ first.caretIds) (hafter : caret ∈ last.caretIds) :
    caret ∈ middle.caretIds := by
  refine (h₂.ids caret hafter).resolve_right fun hnew ↦ ?_
  exact Nat.lt_irrefl _ (Nat.lt_of_lt_of_le (hfirst.lt_of_mem_caretIds hbefore) (Nat.le_trans h₁.next hnew))

theorem GestureStep.accounted (hstep : GestureStep e after) (h : e.Accounted []) : after.Accounted [] := by
  cases hstep with
  | setHead caret offset => exact h.setHead caret offset
  | storeSelection caret a b => exact h.storeSelection caret a b
  | clearSelection caret => exact h.clearSelection caret
  | emit event => exact h.emit event
  | spawnCaret offset => exact h.spawnCaret offset
  | removeCaret caret => exact h.removeCaret caret

theorem caretIds_spawnCaret (e : Editor) (offset : Nat) :
    (e.spawnCaret offset).2.caretIds = e.caretIds ++ [⟨e.nextCaret⟩] := List.map_append

/-- A caret is removed only if another one remains. -/
theorem removeCaret_cases (e : Editor) (caret : CaretId) : (e.removeCaret caret).2 = e ∨
    1 < e.caretIds.length ∧ (e.removeCaret caret).2.nextCaret = e.nextCaret ∧
      (e.removeCaret caret).2.caretIds = e.caretIds.filter (· ≠ caret) := by
  have hcleared := e.clearSelection_sameCarets caret
  unfold removeCaret
  split
  · exact .inl rfl
  · split
    · exact .inl rfl
    · next hlength =>
      refine .inr ⟨?_, hcleared.next, ?_⟩
      · rw [caretIds, List.length_map]
        exact Nat.lt_of_not_le hlength
      · show ((e.clearSelection caret).2.carets.filter (·.1 ≠ caret)).map (·.1) = _
        rw [← hcleared.ids, caretIds, List.filter_map]
        rfl

theorem GestureStep.succeeds (hstep : GestureStep e after) : Succeeds e after := by
  cases hstep with
  | setHead caret offset => exact (e.setHead_sameCarets caret offset).succeeds
  | storeSelection caret a b => exact (e.storeSelection_sameCarets caret a b).succeeds
  | clearSelection caret => exact (e.clearSelection_sameCarets caret).succeeds
  | emit event => exact (e.emit_sameCarets event).succeeds
  | spawnCaret offset =>
    refine ⟨Nat.le_succ _, fun caret hcaret ↦ ?_⟩
    rw [caretIds_spawnCaret] at hcaret
    refine (List.mem_append.mp hcaret).imp_right fun hnew ↦ ?_
    rw [List.mem_singleton.mp hnew]
  | removeCaret caret =>
    rcases e.removeCaret_cases caret with hsame | ⟨-, hnext, hids⟩
    · rw [hsame]
      exact .refl e
    · exact ⟨hnext ▸ Nat.le_refl _, fun other hother ↦ .inl (List.mem_of_mem_filter (hids ▸ hother))⟩

/-- The last caret stays. -/
theorem GestureStep.exists_caret (hstep : GestureStep e after) (hsound : e.Sound) (h : e.caretIds ≠ []) :
    after.caretIds ≠ [] := by
  cases hstep with
  | setHead caret offset => rwa [(e.setHead_sameCarets caret offset).ids]
  | storeSelection caret a b => rwa [(e.storeSelection_sameCarets caret a b).ids]
  | clearSelection caret => rwa [(e.clearSelection_sameCarets caret).ids]
  | emit event => exact h
  | spawnCaret offset =>
    rw [caretIds_spawnCaret]
    exact List.append_ne_nil_of_right_ne_nil _ (List.cons_ne_nil _ _)
  | removeCaret caret =>
    rcases e.removeCaret_cases caret with hsame | ⟨hmore, -, hids⟩
    · rwa [hsame]
    · rw [hids]
      intro hnone
      have hsub : e.caretIds ⊆ [caret] := fun other hother ↦ by
        have hsame := List.filter_eq_nil_iff.mp hnone other hother
        simpa using hsame
      exact Nat.not_lt.mpr (List.subperm_of_subset hsound.distinct hsub).length_le hmore

/-! ### Editors that are opened -/

theorem ofMarked_exists_caret (m : MarkedText) : (ofMarked m).caretIds ≠ [] := by
  unfold ofMarked
  dsimp only
  split
  · rw [caretIds_spawnCaret]
    exact List.append_ne_nil_of_right_ne_nil _ (List.cons_ne_nil _ _)
  · next hcarets =>
    rw [List.isEmpty_iff] at hcarets
    exact fun hnone ↦ hcarets (List.map_eq_nil_iff.mp hnone)

end Editor

/-- What an editor is opened over. -/
inductive Document where
  | plain (t : Text)
  | marked (m : MarkedText)
  deriving DecidableEq, Repr

namespace Document

def editor : Document → Editor
  | plain t => .ofText t
  | marked m => .ofMarked m

theorem editor_accounted (d : Document) : d.editor.Accounted [] := by
  cases d with
  | plain t => exact Editor.ofText_accounted t
  | marked m => exact Editor.ofMarked_accounted m

theorem editor_exists_caret (d : Document) : d.editor.caretIds ≠ [] := by
  cases d with
  | plain t => exact List.cons_ne_nil _ _
  | marked m => exact Editor.ofMarked_exists_caret m

end Document

namespace Session

/-! ### Runs -/

/-- What can happen to a session and its editor. -/
inductive Happening where
  | input (input : Input)
  | eraseRange (a b : Nat)
  | insertText (offset : Nat) (s : Text)
  deriving DecidableEq, Repr

def undergo (s : Session) : Happening → Session
  | .input input => s.receive input
  | .eraseRange a b => s.withEditor (s.editor.eraseRange a b).2
  | .insertText offset text => s.withEditor (s.editor.insertText offset text)

/-- The actions are the standard ones, the editor accounts for its marks, and it has a caret. -/
structure Kept (s : Session) : Prop where
  registry : s.registry = .standard
  accounted : s.editor.Accounted []
  caret : s.editor.caretIds ≠ []

variable {s : Session}

/-- What a session does to its editor keeps the carets. -/
theorem Kept.of_lasting (h : s.Kept) {t : Session} (ht : ∀ {P : Editor → Prop}, Editor.Lasting P →
    P s.editor → t.registry = .standard ∧ P t.editor) : t.Kept ∧ s.editor.Succeeds t.editor := by
  obtain ⟨hregistry, haccounted⟩ := ht Editor.accounted_lasting h.accounted
  have hsame := (ht (Editor.sameCarets_lasting s.editor) (.refl _)).2
  exact ⟨⟨hregistry, haccounted, hsame.ids ▸ h.caret⟩, hsame.succeeds⟩

theorem Kept.gesture (h : s.Kept) (g : Gesture) : (s.gesture g).Kept ∧ s.editor.Succeeds (s.gesture g).editor := by
  have hdone := g.keeps (P := fun e ↦ (e.Accounted [] ∧ e.caretIds ≠ []) ∧ s.editor.Succeeds e)
    (fun hstep hbefore ↦ ⟨⟨hstep.accounted hbefore.1.1, hstep.exists_caret hbefore.1.1.toSound hbefore.1.2⟩,
      hbefore.2.trans hstep.succeeds⟩) ⟨⟨h.accounted, h.caret⟩, .refl _⟩
  exact ⟨⟨h.registry, hdone.1.1, hdone.1.2⟩, hdone.2⟩

theorem Kept.undergo (h : s.Kept) (happening : Happening) :
    (s.undergo happening).Kept ∧ s.editor.Succeeds (s.undergo happening).editor := by
  cases happening with
  | input input =>
    cases input with
    | call c => exact h.of_lasting fun hP hs ↦ hP.call ⟨h.registry, hs⟩ c
    | gesture g => exact h.gesture g
    | pump => exact h.of_lasting fun hP hs ↦ hP.pump ⟨h.registry, hs⟩
  | eraseRange a b => exact h.of_lasting fun hP hs ↦ ⟨h.registry, hP.rewrite (.eraseRange _ a b) hs⟩
  | insertText offset text =>
    exact h.of_lasting fun hP hs ↦ ⟨h.registry, hP.rewrite (.insertText _ offset text) hs⟩

theorem Kept.foldl_undergo (h : s.Kept) (history : List Happening) :
    (history.foldl Session.undergo s).Kept ∧ s.editor.Succeeds (history.foldl Session.undergo s).editor :=
  List.foldlRecOn (motive := fun t : Session ↦ t.Kept ∧ s.editor.Succeeds t.editor) history Session.undergo
    ⟨h, .refl _⟩ fun _ ht happening _ ↦
      have hstep := ht.1.undergo happening
      ⟨hstep.1, ht.2.trans hstep.2⟩

/-- Whatever a user does to an editor, whatever a session is asked to do to it, and whatever is done to its
text besides, in any order: there is a caret, and none has the id of one before it; carets and selections
lie in the text, and selections have their ends in order; and there are no more marks than those of carets
and selections. -/
theorem editor_keeps_accounts (options : Options) (document : Document) (listener : Option Listener)
    (early late : List Remap) (history : List Happening) :
    let reached := fun history : List Happening ↦
      (history.foldl undergo (opened options { document.editor with listener } early late)).editor
    let e := reached history
    e.carets ≠ [] ∧ e.caretIds.Nodup ∧
      (∀ caret ∈ e.caretIds, ∃ offset ≤ e.text.length, e.caretOffset? caret = some offset) ∧
      (∀ caret marks, (caret, marks) ∈ e.carets → marks.selection ≠ none → ∃ start stop,
        e.selection? caret = some (start, stop) ∧ start ≤ stop ∧ stop ≤ e.text.length) ∧
      e.buffer.marks.size = e.carets.length + 2 * e.carets.countP (·.2.selection.isSome) ∧
      ∀ before between after, history = before ++ between ++ after →
        ∀ caret ∈ (reached before).caretIds, caret ∈ e.caretIds →
          caret ∈ (reached (before ++ between)).caretIds := by
  intro reached e
  have hopened : (opened options { document.editor with listener } early late).Kept := by
    refine ⟨opened_registry _ _ _ _, ?_, ?_⟩
    · rw [editor, opened_edit]
      exact document.editor_accounted.of_buffer rfl rfl rfl
    · rw [editor, opened_edit]
      exact document.editor_exists_caret
  have hnow := (hopened.foldl_undergo history).1
  refine ⟨fun hnone ↦ hnow.caret (List.map_eq_nil_iff.mpr hnone), hnow.accounted.distinct,
    fun caret hcaret ↦ hnow.accounted.exists_caretOffset? hcaret,
    fun caret marks hmem hstored ↦ ?_, hnow.accounted.size, ?_⟩
  · obtain ⟨start, stop, hselection, hle⟩ := hnow.accounted.exists_selection? hmem hstored
    exact ⟨start, stop, hselection, hnow.accounted.ordered caret start stop hselection, hle⟩
  · rintro before between after rfl caret hbefore hafter
    have hfirst := (hopened.foldl_undergo before).1
    have hmiddle := hfirst.foldl_undergo between
    have hlast := hmiddle.1.foldl_undergo after
    simp only [e, reached, List.foldl_append] at hafter ⊢
    exact hmiddle.2.mem_of_mem hfirst.accounted.toSound hlast.2 hbefore hafter

end Session

end ModalEdit
