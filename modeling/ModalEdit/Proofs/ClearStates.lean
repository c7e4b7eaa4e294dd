import ModalEdit.Proofs.CaretVisits

/-!
States without selections. In such a state the editor shows no selection and no caret remembers
where one began (`EditState.Clear`), and if moreover the mode selects nothing it is `Plain`. All
that is done outside of the visual and select modes keeps a state plain, one lemma per function. The
ways out of those modes lead to a plain state from any other, and so does an operator on the
selections (`operateOnSelections_plain`).
-/

set_option autoImplicit false
set_option relaxedAutoImplicit false

namespace ModalEdit

open Relation (ReflTransGen)

/-! ### Steps keep carets on marks of their own -/

namespace Editor

variable {e after : Editor}

theorem Move.anchored (h : Move e after) (hanchored : e.Anchored) : after.Anchored := by
  cases h with
  | bell => exact hanchored.of_buffer rfl rfl rfl
  | moveCaret caret offset => exact hanchored.moveCaret caret offset
  | setSelection caret a b => exact hanchored.setSelection caret a b
  | removeSelection caret => exact hanchored.removeSelection caret

theorem Rewrite.anchored (h : Rewrite e after) (hanchored : e.Anchored) : after.Anchored := by
  cases h with
  | eraseRange a b => exact hanchored.eraseRange a b
  | insertText offset s => exact hanchored.insertText offset s
  | record registers => exact hanchored.of_buffer rfl rfl rfl

theorem Rewrite.carets (h : Rewrite e after) : after.carets = e.carets := by
  cases h <;> rfl

theorem rewrites_keep (h : ReflTransGen Rewrite e after) (hanchored : e.Anchored) :
    after.Anchored ∧ after.carets = e.carets := by
  induction h with
  | refl => exact ⟨hanchored, rfl⟩
  | tail _ hlast ih => exact ⟨hlast.anchored ih.1, hlast.carets.trans ih.2⟩

/-- No caret has marks for a selection. -/
def Unselected (e : Editor) : Prop := ∀ entry ∈ e.carets, entry.2.selection = none

theorem Unselected.selection? (h : e.Unselected) (caret : CaretId) : e.selection? caret = none := by
  unfold Editor.selection?
  cases hlookup : e.carets.lookup caret with
  | none => rfl
  | some marks =>
    obtain ⟨before, rest, heq, -⟩ := List.lookup_eq_some_iff.mp hlookup
    have hnone : marks.selection = none := by
      refine h (caret, marks) ?_
      rw [heq]
      exact List.mem_append_right _ List.mem_cons_self
    simp [hnone]

theorem Anchored.unselected (h : e.Anchored) (hnone : ∀ caret, e.selection? caret = none) :
    e.Unselected := by
  rintro ⟨caret, marks⟩ hentry
  by_contra hstored
  obtain ⟨start, stop, hsome, -⟩ := h.exists_selection? hentry hstored
  rw [hnone caret] at hsome
  cases hsome

/-- With all of its selections removed, an editor has none. -/
theorem Anchored.foldl_removeSelection (h : e.Anchored) :
    (e.caretIds.foldl Editor.removeSelection e).Anchored ∧
      (e.caretIds.foldl Editor.removeSelection e).Unselected := by
  have hfold {carets : List CaretId} : ∀ {e : Editor}, e.Anchored →
      (∀ caret ∉ carets, e.selection? caret = none) →
      (carets.foldl Editor.removeSelection e).Anchored ∧
        ∀ caret, (carets.foldl Editor.removeSelection e).selection? caret = none := by
    induction carets with
    | nil => exact fun h hnone ↦ ⟨h, fun caret ↦ hnone caret List.not_mem_nil⟩
    | cons first rest ih =>
      intro e h hnone
      have hremoved := h.removeSelection_deselects first
      refine ih hremoved.anchored fun caret hcaret ↦ ?_
      by_cases heq : caret = first
      · rw [heq]
        exact hremoved.selection
      · rw [(hremoved.others caret heq).selection]
        exact hnone caret (List.not_mem_cons_of_ne_of_not_mem heq hcaret)
  have hremoved := hfold h fun caret hcaret ↦ by
    unfold Editor.selection?
    rw [CaretTable.lookup_eq_none_of_notMem hcaret]
    rfl
  exact ⟨hremoved.1, hremoved.1.unselected hremoved.2⟩

end Editor

namespace CaretTable

/-- No caret remembers where a selection began. -/
def Unselected (t : CaretTable) : Prop := ∀ entry ∈ t.entries, entry.2.selectionStart = none

variable {t : CaretTable}

theorem Unselected.modify (h : t.Unselected) (id : CaretId) {f : CaretState → CaretState}
    (hf : ∀ state, state.selectionStart = none → (f state).selectionStart = none) :
    (t.modify id f).Unselected := by
  intro entry hentry
  obtain ⟨before, hbefore, rfl⟩ := List.mem_map.mp hentry
  split
  · exact hf _ (h before hbefore)
  · exact h before hbefore

theorem Unselected.add (h : t.Unselected) (id : CaretId) (offset : Nat) :
    (t.add id offset).Unselected := by
  unfold CaretTable.add
  split
  · exact h
  · intro entry hentry
    rcases List.mem_cons.mp ((insertSorted_perm id { offset } t.entries).subset
      hentry) with rfl | hbefore
    · rfl
    · exact h entry hbefore

theorem Unselected.filter (h : t.Unselected) (p : CaretId × CaretState → Bool) :
    Unselected ⟨t.entries.filter p⟩ := fun entry hentry ↦ h entry (List.mem_of_mem_filter hentry)

theorem Unselected.remove (h : t.Unselected) (id : CaretId) : (t.remove id).Unselected := h.filter _

theorem Unselected.sync (h : t.Unselected) (live : List (CaretId × Nat)) :
    (t.sync live).Unselected :=
  List.foldlRecOn (motive := Unselected) live _ (h.filter _) fun _ ht entry _ ↦
    (ht.add entry.1 entry.2).modify entry.1 fun _ hstate ↦ hstate

theorem clearSelections_unselected (t : CaretTable) : t.clearSelections.Unselected := by
  intro entry hentry
  obtain ⟨before, -, rfl⟩ := List.mem_map.mp hentry
  rfl

theorem Unselected.selectionStart (h : t.Unselected) {id : CaretId} {state : CaretState}
    (hget : t.get? id = some state) : state.selectionStart = none := by
  obtain ⟨before, rest, heq, -⟩ := List.lookup_eq_some_iff.mp hget
  refine h (id, state) ?_
  rw [heq]
  exact List.mem_append_right _ List.mem_cons_self

end CaretTable

namespace EditState

variable {s t : EditState} {change : Editor → Editor → Prop}

/-- Steps that keep the editor anchored keep the state so. -/
theorem Steps.anchored (hsteps : Steps change s t)
    (hchange : ∀ {e after}, change e after → e.Anchored → after.Anchored) (h : s.Anchored) :
    t.Anchored := by
  refine hsteps.keeps (P := Anchored) (fun hstep h ↦ ?_) h
  cases hstep with
  | editor hedit => exact ⟨hchange hedit h.editor, h.carets⟩
  | modes | cmdline => exact ⟨h.editor, h.carets⟩
  | syncCarets => exact h.syncCarets
  | modifyCaret caret f => exact ⟨h.editor, h.carets.modify caret f⟩
  | clearSelections => exact ⟨h.editor, h.carets.clearSelections⟩

theorem Steps.moves_anchored (hmoves : Moves s t) (h : s.Anchored) : t.Anchored :=
  hmoves.anchored Editor.Move.anchored h

/-! ### States that are clear or plain -/

/-- There are no selections, neither in the editor nor remembered. -/
structure Clear (s : EditState) : Prop extends Anchored s where
  unselected : s.editor.Unselected
  unstarted : s.carets.Unselected

/-- There are no selections, and the mode is not one that selects. -/
structure Plain (s : EditState) : Prop extends Clear s where
  coherent : s.modes.Coherent
  mode : s.mode.selectionKind? = none

theorem Clear.withEditor (h : s.Clear) {editor : Editor} (hanchored : editor.Anchored)
    (hcarets : editor.carets = s.editor.carets) : Clear { s with editor } where
  editor := hanchored
  carets := h.carets
  unselected := by
    unfold Editor.Unselected
    rw [hcarets]
    exact h.unselected
  unstarted := h.unstarted

theorem Clear.syncCarets (h : s.Clear) : s.syncCarets.Clear :=
  ⟨h.toAnchored.syncCarets, h.unselected, h.unstarted.sync _⟩

theorem Clear.modifyCaret (h : s.Clear) (caret : CaretId) {f : CaretState → CaretState}
    (hf : ∀ state, state.selectionStart = none → (f state).selectionStart = none) :
    (s.modifyCaret caret f).Clear :=
  ⟨⟨h.editor, h.carets.modify caret f⟩, h.unselected, h.unstarted.modify caret hf⟩

theorem Clear.moveCaret (h : s.Clear) (caret : CaretId) (offset : Nat) :
    (s.moveCaret caret offset).Clear :=
  (h.withEditor (h.editor.moveCaret caret offset)
    (s.editor.moveCaret_carets caret offset)).modifyCaret caret
    fun _ hstate ↦ hstate

/-- An edit that leaves the marks of the carets to them, and the move of a caret after it. -/
theorem Clear.rewrite (h : s.Clear) {editor : Editor}
    (hrewrite : ReflTransGen Editor.Rewrite s.editor editor) (caret : CaretId) (offset : Nat) :
    ({ s with editor }.moveCaret caret offset).Clear := by
  obtain ⟨hanchored, hcarets⟩ := Editor.rewrites_keep hrewrite h.editor
  exact (h.withEditor hanchored hcarets).moveCaret caret offset

theorem clearSelections_clear (h : s.Anchored) : s.clearSelections.Clear := by
  obtain ⟨hanchored, hunselected⟩ := h.editor.foldl_removeSelection
  exact ⟨⟨hanchored, h.carets.clearSelections⟩, hunselected, s.carets.clearSelections_unselected⟩

theorem Plain.of_clear (h : s.Plain) (hclear : t.Clear) (hmodes : t.modes = s.modes) : t.Plain := by
  refine ⟨hclear, ?_, ?_⟩
  · rw [hmodes]
    exact h.coherent
  · rw [EditState.mode, hmodes]
    exact h.mode

theorem Plain.not_selecting (h : s.Plain) : (s.mode.isVisual || s.mode.isSelect) = false := by
  have hmode := h.mode
  cases hcase : s.mode with
  | visual kind | select kind =>
    rw [hcase] at hmode
    cases hmode
  | _ => rfl

theorem Plain.bell (h : s.Plain) : s.bell.Plain :=
  h.of_clear (h.toClear.withEditor (Editor.Move.anchored (.bell s.editor) h.editor) rfl) rfl

theorem Plain.withGuard (h : s.Plain) (guard : SuppressionGuard) :
    Plain { s with editor := { s.editor with guard } } :=
  h.of_clear (h.toClear.withEditor (h.editor.of_buffer rfl rfl rfl) rfl) rfl

theorem Plain.withListener (h : s.Plain) (listener : Option Listener) :
    Plain { s with editor := { s.editor with listener } } :=
  h.of_clear (h.toClear.withEditor (h.editor.of_buffer rfl rfl rfl) rfl) rfl

theorem Plain.withCmdline (h : s.Plain) (cmdline : Text) : Plain { s with cmdline } :=
  h.of_clear ⟨⟨h.editor, h.carets⟩, h.unselected, h.unstarted⟩ rfl

theorem Plain.modifyCaret (h : s.Plain) (caret : CaretId) {f : CaretState → CaretState}
    (hf : ∀ state, state.selectionStart = none → (f state).selectionStart = none) :
    (s.modifyCaret caret f).Plain := h.of_clear (h.toClear.modifyCaret caret hf) rfl

theorem Plain.moveCaret (h : s.Plain) (caret : CaretId) (offset : Nat) :
    (s.moveCaret caret offset).Plain :=
  h.of_clear (h.toClear.moveCaret caret offset) rfl

theorem Plain.rewrite (h : s.Plain) {editor : Editor}
    (hrewrite : ReflTransGen Editor.Rewrite s.editor editor) (caret : CaretId) (offset : Nat) :
    ({ s with editor }.moveCaret caret offset).Plain :=
  h.of_clear (h.toClear.rewrite hrewrite caret offset) rfl

theorem Plain.syncCarets (h : s.Plain) : s.syncCarets.Plain := h.of_clear h.toClear.syncCarets rfl

theorem Plain.forCarets (h : s.Plain) {f : CaretId → EditState → EditState}
    (hf : ∀ caret t, t.Plain → (f caret t).Plain) : (s.forCarets f).Plain :=
  forCarets_keeps s h.syncCarets hf

/-! ### Modes -/

theorem Clear.withModes (h : s.Clear) (modes : ModeMachine) : Clear { s with modes } :=
  ⟨⟨h.editor, h.carets⟩, h.unselected, h.unstarted⟩

theorem Clear.plain (h : s.Clear) {modes : ModeMachine} (hcoherent : modes.Coherent)
    (hmode : modes.mode.selectionKind? = none) : Plain { s with modes } :=
  ⟨h.withModes modes, hcoherent, hmode⟩

/-- From a coherent machine every mode is entered. -/
theorem enterMode_eq (h : s.modes.Coherent) (target : Mode) :
    ∃ modes : ModeMachine, s.enterMode target = (true, { s with modes }) ∧ modes.mode = target ∧
      modes.Coherent := by
  have henter {m : ModeMachine} (hm : m.Coherent) (hcan : m.canTransition target = true) :
      ∃ modes : ModeMachine, m.transition target = .ok modes ∧ modes.mode =
        target ∧ modes.Coherent := by
    by_cases hsame : m.mode = target
    · subst hsame
      exact ⟨m, m.transition_self, rfl, hm⟩
    · have hlegal : m.mode.isLegal target m.parent = true := by
        simpa [ModeMachine.canTransition, Ne.symm hsame] using hcan
      exact ⟨m.moved target, m.transition_legal hsame hlegal, rfl,
        ModeMachine.moved_coherent hsame hlegal⟩
  unfold enterMode setMode
  split
  · next hcan =>
    obtain ⟨modes, htransition, hmode, hcoherent⟩ := henter h hcan
    rw [htransition]
    exact ⟨modes, rfl, hmode, hcoherent⟩
  · have hnormal := ModeMachine.resetToNormal_mode h
    have hcan : s.modes.resetToNormal.canTransition target = true := by
      unfold ModeMachine.canTransition
      rw [hnormal]
      cases target <;> rfl
    obtain ⟨modes, htransition, hmode, hcoherent⟩ :=
      henter (ModeMachine.resetToNormal_coherent h) hcan
    dsimp only
    rw [htransition]
    exact ⟨modes, rfl, hmode, hcoherent⟩

theorem Clear.enterMode (h : s.Clear) (hcoherent : s.modes.Coherent) {target : Mode}
    (htarget : target.selectionKind? = none) : (s.enterMode target).2.Plain := by
  obtain ⟨modes, hentered, hmode, hmodes⟩ := enterMode_eq hcoherent target
  rw [hentered]
  exact h.plain hmodes (by rwa [hmode])

theorem Clear.enterInsert (h : s.Clear) (hcoherent : s.modes.Coherent) {target : Mode}
    (htarget : target.selectionKind? = none) : (s.enterInsert target).Plain := by
  have hentered := h.enterMode hcoherent htarget
  obtain ⟨modes, heq, -, -⟩ := enterMode_eq hcoherent target
  unfold EditState.enterInsert
  rw [heq] at hentered ⊢
  exact hentered.forCarets fun caret t ht ↦ ht.modifyCaret caret fun _ hstate ↦ hstate

theorem Plain.enterInsert (h : s.Plain) {target : Mode} (htarget : target.selectionKind? = none) :
    (s.enterInsert target).Plain := h.toClear.enterInsert h.coherent htarget

theorem Plain.tryTransition (h : s.Plain) {target : Mode} (htarget : target.selectionKind? = none) :
    Plain { s with modes := s.modes.tryTransition target } := by
  refine h.plain (ModeMachine.tryTransition_coherent h.coherent target) ?_
  rcases s.modes.tryTransition_cases target with ⟨heq, -⟩ | ⟨heq, -, -⟩
  · rw [heq]
    exact h.mode
  · rwa [heq]

theorem Plain.setMode (h : s.Plain) {target : Mode} (htarget : target.selectionKind? = none) :
    (s.setMode target).2.Plain := by
  rw [setMode_snd]
  exact h.tryTransition htarget

/-! ### Ways to a plain state -/

theorem Plain.moveAll (h : s.Plain) (destination : Text → Nat → Nat) :
    (s.moveAll destination).Plain := by
  refine h.forCarets fun caret t ht ↦ ?_
  dsimp only
  split
  · exact ht
  · split
    · exact ht
    · exact ht.moveCaret caret _

theorem exitToNormal_plain (h : s.Anchored) (hcoherent : s.modes.Coherent) :
    s.exitToNormal.Plain := by
  have hmode : s.modes.resetToNormal.mode = .normal := ModeMachine.resetToNormal_mode hcoherent
  have hreset : Plain { s.clearSelections with modes := s.modes.resetToNormal } :=
    (clearSelections_clear h).plain (ModeMachine.resetToNormal_coherent hcoherent)
      (by rw [hmode]; rfl)
  exact hreset.moveAll fun t offset ↦ t.normalize offset false

theorem leaveInsert_plain (h : s.Anchored) (hcoherent : s.modes.Coherent) :
    s.leaveInsert.Plain := by
  have hmoved : Moves s ((s.moveAll fun t offset ↦ t.left offset 1).forCarets fun caret s ↦
      s.modifyCaret caret ({ · with insertStart := none })) :=
    (s.moveAll_moves _).trans (forCarets_steps (fun caret t ↦ t.modifyCaret_moves caret _) _)
  exact exitToNormal_plain (hmoved.moves_anchored h) (hmoved.rearranges.modes.coherent hcoherent)

theorem escape_plain (h : s.Anchored) (hcoherent : s.modes.Coherent)
    (hnormal : s.mode = .normal → s.Plain) :
    s.escape.Plain := by
  unfold escape
  split
  · next hmode => exact (hnormal hmode).bell
  · exact exitToNormal_plain h hcoherent

theorem cancel_plain (h : s.Anchored) (hcoherent : s.modes.Coherent)
    (hnormal : s.mode = .normal → s.Plain) :
    s.cancel.Plain := by
  unfold cancel
  split
  · next hmode => exact hnormal hmode
  · exact leaveInsert_plain h hcoherent
  · exact leaveInsert_plain h hcoherent
  · exact exitToNormal_plain ⟨h.editor, h.carets⟩ hcoherent
  · exact exitToNormal_plain h hcoherent

/-! ### Motions and operators -/

theorem Plain.finish {result : Bool × EditState} (h : result.2.Plain) :
    (finish result).2.Plain := by
  obtain ⟨done, t⟩ := result
  cases done with
  | true => exact h
  | false => exact h.bell

theorem Plain.applyMotion (h : s.Plain) (call : ActionCall) (f : Motion) :
    (s.applyMotion call f).2.Plain := by
  refine Plain.finish (foldCarets_keeps (P := Plain) s false h.syncCarets fun caret done t ht ↦ ?_)
  unfold applyMotionTo
  split
  · exact ht
  · dsimp only
    split
    · exact ht
    · have hshown {u : EditState} (hu : u.Plain) : (u.showSelection caret).Plain := by
        rwa [showSelection, hu.not_selecting]
      exact hshown ((ht.moveCaret caret _).modifyCaret caret fun _ hstate ↦ hstate)

theorem Plain.selectTextObject (h : s.Plain) (call : ActionCall) (f : TextObject) :
    (s.selectTextObject call f).2.Plain := by
  have hvisual := (Bool.or_eq_false_iff.mp h.not_selecting).1
  rw [EditState.selectTextObject, if_neg (Bool.eq_false_iff.mp hvisual)]
  exact h.bell

/-- No selection is there, the carets rest on the marks they had, and those were given out before
others. -/
structure Undisturbed (held : List (CaretId × CaretMarks)) (limit : Nat) (s : EditState) : Prop
    extends Clear s where
  coherent : s.modes.Coherent
  same : s.editor.carets = held
  below : ∀ entry ∈ held, ∀ mark ∈ entry.2.all, mark.serial < limit

section Operate

variable {held : List (CaretId × CaretMarks)} {limit : Nat} {body : Operator}

theorem pinAll_undisturbed (h : s.Clear) (hcoherent : s.modes.Coherent)
    (ranges : List (CaretId × TextRange)) :
    Undisturbed s.editor.carets s.editor.buffer.marks.next (s.pinAll ranges).2 := by
  have hpinned : (s.pinAll ranges).2.Clear ∧ (s.pinAll ranges).2.modes.Coherent := by
    induction ranges generalizing s with
    | nil => exact ⟨h, hcoherent⟩
    | cons range rest ih =>
      exact ih (s := (s.pin range.1 range.2).2)
        (h.withEditor ((h.editor.createMark _).createMark _) rfl) hcoherent
  exact ⟨hpinned.1, hpinned.2, s.pinAll_carets ranges,
    fun entry hentry mark hmark ↦ h.editor.lt_of_holds ⟨entry, hentry, hmark⟩⟩

/-- The marks of a span that waits are younger than those of the carets. -/
theorem Undisturbed.unpin (h : Undisturbed held limit s) {p : PinnedRange}
    (hp : ∀ mark ∈ p.marks, limit ≤ mark.serial) : Undisturbed held limit (s.unpin p).2 := by
  have hfree (e : Editor) (he : e.carets = s.editor.carets) {mark : Mark} (hmark : mark ∈ p.marks) :
      ¬ e.Holds mark := by
    rintro ⟨entry, hentry, hheld⟩
    rw [he, h.same] at hentry
    exact Nat.lt_irrefl _ (Nat.lt_of_lt_of_le (h.below entry hentry mark hheld) (hp mark hmark))
  have hfirst := h.editor.releaseMark (hfree s.editor rfl (List.mem_pair.mpr (.inl rfl)))
  have hlast := hfirst.releaseMark (hfree _ rfl (List.mem_pair.mpr (.inr rfl)))
  exact ⟨h.toClear.withEditor hlast rfl, h.coherent, h.same, h.below⟩

theorem Undisturbed.operateOn (h : Undisturbed held limit s) (hbody : body.Rewrites)
    (call : ActionCall) {nextMode : Mode} (hmode : nextMode = .normal ∨ nextMode = .insert)
    {p : PinnedRange} (hp : ∀ mark ∈ p.marks, limit ≤ mark.serial) :
    Undisturbed held limit (operateOn call body nextMode s p).2 ∧
      ((operateOn call body nextMode s p).1 = .normal ∨
        (operateOn call body nextMode s p).1 = .insert) := by
  have hunpinned := h.unpin hp
  unfold EditState.operateOn
  split
  · next heq =>
    rw [heq] at hunpinned
    exact ⟨hunpinned, hmode⟩
  · next range t heq =>
    rw [heq] at hunpinned
    have hrewrites := hbody.editor t.editor
      { caret := p.caret, range, register := call.register, count := call.count }
    refine ⟨⟨hunpinned.toClear.rewrite hrewrites p.caret _, hunpinned.coherent, ?_, h.below⟩,
      hbody.nextMode _ _⟩
    show (Editor.moveCaret _ p.caret _).carets = held
    rw [Editor.moveCaret_carets, (Editor.rewrites_keep hrewrites hunpinned.editor).2]
    exact hunpinned.same

/-- An operator leaves no selection where there was none. -/
theorem operate_plain (h : s.Clear) (hcoherent : s.modes.Coherent) (hbody : body.Rewrites)
    (call : ActionCall) (ranges : List (CaretId × TextRange)) :
    (s.operate call body ranges).2.Plain := by
  have hyoung := s.le_serial_of_mem_pinAll ranges
  have hrun := List.foldlRecOn
    (motive := fun result : Mode × EditState ↦
      Undisturbed s.editor.carets s.editor.buffer.marks.next result.2 ∧
        (result.1 = .normal ∨ result.1 = .insert))
    (s.pinAll ranges).1 (fun result p ↦ EditState.operateOn call body result.1 result.2 p)
    (b := (.normal, (s.pinAll ranges).2)) ⟨pinAll_undisturbed h hcoherent ranges, .inl rfl⟩
    fun result hresult p hp ↦ hresult.1.operateOn hbody call hresult.2 fun mark hmark ↦
      hyoung mark (List.mem_flatMap.mpr ⟨p, hp, hmark⟩)
  unfold EditState.operate
  dsimp only
  generalize (s.pinAll ranges).1.foldl _ _ = result at hrun
  obtain ⟨hundisturbed, hmode⟩ := hrun
  have hentered : (result.2.enterMode result.1).2.Plain := by
    refine hundisturbed.toClear.enterMode hundisturbed.coherent ?_
    rcases hmode with hmode | hmode <;> rw [hmode] <;> rfl
  split
  · exact hentered.forCarets fun caret t ht ↦ ht.modifyCaret caret fun _ hstate ↦ hstate
  · exact hentered

theorem Plain.compose (h : s.Plain) (hbody : body.Rewrites) (registry : Registry)
    (command : Command) :
    (s.compose registry command body).2.Plain := by
  unfold EditState.compose
  split
  · exact h.bell
  · dsimp only
    split
    · exact h.syncCarets.bell
    · exact operate_plain h.syncCarets.toClear h.coherent hbody _ _

/-- An operator on the selections gives them up. -/
theorem operateOnSelections_plain (h : s.Anchored) (hcoherent : s.modes.Coherent)
    (hbody : body.Rewrites) (hselecting : s.mode.selectionKind? ≠ none) (command : Command) :
    (s.operateOnSelections command body).2.Plain := by
  unfold operateOnSelections
  split
  · next hnone => exact absurd hnone hselecting
  · dsimp only
    rw [setMode_snd]
    exact operate_plain ((clearSelections_clear h.syncCarets).withModes _)
      (ModeMachine.tryTransition_coherent hcoherent .normal) hbody _ _

end Operate

/-! ### Typing -/

theorem plain_keptByTyping : KeptByTyping Plain where
  syncCarets h := h.syncCarets
  rewrite hrewrite caret offset h := h.rewrite hrewrite caret offset

theorem Anchored.rewrite (h : s.Anchored) {editor : Editor}
    (hrewrite : ReflTransGen Editor.Rewrite s.editor editor) (caret : CaretId) (offset : Nat) :
    ({ s with editor }.moveCaret caret offset).Anchored :=
  ⟨(Editor.rewrites_keep hrewrite h.editor).1.moveCaret caret offset, h.carets.modify caret _⟩

theorem Plain.openLine (h : s.Plain) (below : Bool) : (s.openLine below).Plain := by
  obtain ⟨t, ht, heq⟩ := plain_keptByTyping.openLine h below
  rw [heq]
  exact ht.enterInsert rfl

theorem replaceSelections_plain (h : s.Anchored) (hcoherent : s.modes.Coherent) :
    s.replaceSelections.Plain := by
  have hkept : KeptByTyping fun t ↦ t.Anchored ∧ t.modes.Coherent :=
    ⟨fun ht ↦ ⟨ht.1.syncCarets, ht.2⟩, fun hrewrite caret offset ht ↦
      ⟨ht.1.rewrite hrewrite caret offset, ht.2⟩⟩
  obtain ⟨t, ⟨hanchored, hmodes⟩, heq⟩ := hkept.replaceSelections ⟨h, hcoherent⟩
  rw [heq]
  exact (clearSelections_clear hanchored).enterInsert hmodes rfl

theorem Plain.closeCommandLine (h : s.Plain) :
    s.closeCommandLine.Plain := (h.withCmdline []).setMode rfl

theorem Plain.commandLineBackspace (h : s.Plain) : s.commandLineBackspace.Plain := by
  unfold EditState.commandLineBackspace
  split
  · exact h.setMode rfl
  · exact h.withCmdline _

theorem Plain.openCommandLine (h : s.Plain) : s.openCommandLine.Plain := by
  have hvisual := (Bool.or_eq_false_iff.mp h.not_selecting).1
  unfold EditState.openCommandLine
  rw [if_neg (Bool.eq_false_iff.mp hvisual)]
  exact (h.withCmdline []).setMode rfl

theorem Plain.typeKeys (h : s.Plain) (keys : Keys) : (s.typeKeys keys).2.Plain := by
  have hselect := (Bool.or_eq_false_iff.mp h.not_selecting).2
  unfold EditState.typeKeys
  dsimp only
  rw [hselect, Bool.false_and, if_neg Bool.false_ne_true]
  split
  · exact h.bell
  · split
    · exact plain_keptByTyping.insertAtCarets h _
    · exact plain_keptByTyping.overwriteAtCarets h _
    · next hmode =>
      rw [hmode] at hselect
      cases hselect
    · exact h.withCmdline _
    · exact h.bell

end EditState

end ModalEdit
