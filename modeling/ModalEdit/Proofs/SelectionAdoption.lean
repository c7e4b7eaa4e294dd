import ModalEdit.Proofs.OperatorLockstep

/-!
Selections made by the user while an operator waits. A session follows a selection into a visual or
select mode whatever its own mode is, and this is the one thing among all reports that takes the mode
machine out of the pending mode; the operator that waits is not given up with it. So the mode machine
and the resolver are still in line after any gestures of the user exactly if no operator waited or no
report was followed (`gestures_keep_operator_mode_iff`). An operator that waits behind a visual mode is
reached by typing an operator and selecting with the mouse (`selecting_strands_typed_operator`).
-/

set_option autoImplicit false
set_option relaxedAutoImplicit false

namespace ModalEdit

namespace ModeMachine

/-- There is another mode under the present one to get back to. -/
def HasWayBack (m : ModeMachine) : Prop := ∃ parent, m.parent = some parent ∧ parent ≠ .operatorPending

/-- The machine asked for a mode, by way of the normal mode where there is no direct way. -/
def entering (m : ModeMachine) (target : Mode) : ModeMachine :=
  (if m.canTransition target then m else m.resetToNormal).tryTransition target

variable {m : ModeMachine} {target : Mode}

/-- With a mode to get back to the pending mode is left. -/
theorem entering_of_hasWayBack (hmode : m.mode = .operatorPending) (hback : m.HasWayBack)
    (htarget : target ≠ .operatorPending) : (m.entering target).mode ≠ .operatorPending := by
  obtain ⟨parent, hparent, hne⟩ := hback
  unfold entering
  split
  · next hdirect =>
    have hlegal : m.mode.isLegal target m.parent = true := by
      rcases Bool.or_eq_true_iff.mp hdirect with hsame | hlegal
      · rw [beq_iff_eq, hmode] at hsame
        exact absurd hsame htarget
      · exact hlegal
    rwa [tryTransition_mode_of_legal hlegal]
  · refine tryTransition_ne_operatorPending htarget ?_
    have hleft : m.leavePending.mode ≠ .operatorPending := by
      rw [leavePending_of_parent hmode hparent hne, moved_mode]
      exact hne
    rw [resetToNormal_eq, if_pos hmode, tryTransition_normal_mode hleft]
    exact Mode.noConfusion

/-- With none, the machine stays where it is. -/
theorem entering_of_not_hasWayBack (hmode : m.mode = .operatorPending) (hback : ¬ m.HasWayBack)
    (htarget : target ≠ .operatorPending) : m.entering target = m := by
  have hparent : ∀ mode, mode ≠ .operatorPending → m.mode.isLegal mode m.parent = false := by
    intro mode hne
    rw [hmode]
    show (m.parent == some mode) = false
    rw [beq_eq_false_iff_ne]
    exact fun heq ↦ hback ⟨mode, heq, hne⟩
  have hstays : ∀ mode, mode ≠ .operatorPending → m.tryTransition mode = m := by
    intro mode hne
    rcases m.tryTransition_cases mode with ⟨heq, -⟩ | ⟨-, -, hlegal⟩
    · exact heq
    · rw [hparent mode hne] at hlegal
      cases hlegal
  have hleft : m.leavePending = m := by
    unfold leavePending
    cases hlies : m.parent with
    | none => rfl
    | some parent =>
      by_cases hpending : parent = .operatorPending
      · rcases m.tryTransition_cases parent with ⟨heq, -⟩ | ⟨-, hne, -⟩
        · exact heq
        · exact absurd (hmode.trans hpending.symm) hne
      · exact absurd ⟨parent, hlies, hpending⟩ hback
  have hreset : m.resetToNormal = m := by
    rw [resetToNormal_eq, if_pos hmode, hleft]
    exact hstays .normal Mode.noConfusion
  unfold entering
  split
  · exact hstays target htarget
  · rw [hreset]
    exact hstays target htarget

end ModeMachine

namespace EditState

/-- Whether a caret has text selected. -/
def hasSelection (s : EditState) (caret : CaretId) : Bool :=
  ((s.editor.selection? caret).filter fun (start, stop) ↦ start < stop).isSome

theorem exists_adoptSelection_modes {s : EditState} (hmode : s.mode = .operatorPending)
    (options : Options) {caret : CaretId} (source : EventSource) (h : s.hasSelection caret = true) :
    ∃ target, target ≠ .operatorPending ∧
      (s.adoptSelection options caret source).modes = s.modes.entering target := by
  unfold adoptSelection
  split
  · next hnone =>
    rw [hasSelection, hnone] at h
    cases h
  · dsimp only
    generalize htarget : (if startsSelect options source then Mode.select .character
      else Mode.visual .character) = target
    have hne : target ≠ .operatorPending := by
      rw [← htarget]
      split <;> exact Mode.noConfusion
    refine ⟨target, hne, ?_⟩
    have hother : ¬ s.mode = target := fun heq ↦ hne (heq.symm.trans hmode)
    generalize hmarked : s.modifyCaret caret _ = marked
    have hmodes : marked.modes = s.modes := by
      rw [← hmarked]
      rfl
    have hmarkedMode : ¬ marked.mode = target := by rwa [mode, hmodes]
    rw [if_neg hmarkedMode]
    have hentered : (marked.enterMode target).2.modes = s.modes.entering target := by
      rw [enterMode_snd, ← hmodes]
      rfl
    split
    · rw [updateSelection_modes]
      exact hentered
    · exact hentered

theorem adoptSelection_of_none {s : EditState} (hmode : s.mode = .operatorPending) (options : Options)
    {caret : CaretId} (source : EventSource) (h : s.hasSelection caret = false) :
    (s.adoptSelection options caret source).modes = s.modes := by
  unfold adoptSelection
  split
  · rw [hmode]
    rfl
  · next hsome =>
    rw [hasSelection, hsome] at h
    cases h

theorem click_modes {s : EditState} (hmode : s.mode = .operatorPending) (caret : CaretId)
    (offset : Nat) : (s.click caret offset).modes = s.modes := by
  unfold click
  have hneither : (s.mode.isVisual || s.mode.isSelect) = false := by rw [hmode]; rfl
  simp only [hneither, Bool.false_eq_true, if_false]
  split
  · rfl
  · split <;> rfl

end EditState

namespace Session

/-- Whether the session follows a report into the mode of a selection. -/
def adopts (s : Session) : EditorEvent → Bool
  | .selectionChanged caret .. => s.edit.hasSelection caret
  | .mouseReleased caret => s.dragging && s.edit.hasSelection caret
  | _ => false

/-- Whether it follows one of several reports, each looked at when its turn comes. -/
def adoptsAny (s : Session) : List EditorEvent → Bool
  | [] => false
  | event :: rest => s.adopts event || (s.handleEvent event).adoptsAny rest

variable {s : Session}

theorem handleEvent_of_adopts (hmode : s.mode = .operatorPending) {event : EditorEvent}
    (h : s.adopts event = true) : ∃ target, target ≠ .operatorPending ∧
      (s.handleEvent event).edit.modes = s.edit.modes.entering target := by
  cases event with
  | selectionChanged caret start stop source =>
    exact EditState.exists_adoptSelection_modes (s := s.edit.prepared) hmode s.options source h
  | mouseReleased caret =>
    obtain ⟨hdragging, hselected⟩ := Bool.and_eq_true_iff.mp h
    obtain ⟨target, hne, hmodes⟩ := EditState.exists_adoptSelection_modes (s := s.edit.prepared)
      hmode s.options .mouse hselected
    refine ⟨target, hne, ?_⟩
    unfold handleEvent
    dsimp only
    rw [if_pos hdragging]
    exact hmodes
  | _ => cases h

theorem handleEvent_of_not_adopts (hmode : s.mode = .operatorPending) {event : EditorEvent}
    (h : s.adopts event = false) : (s.handleEvent event).edit.modes = s.edit.modes := by
  cases event with
  | selectionChanged caret start stop source =>
    exact EditState.adoptSelection_of_none (s := s.edit.prepared) hmode s.options source h
  | mouseReleased caret =>
    unfold handleEvent
    dsimp only
    split
    · next hdragging =>
      rw [adopts, hdragging, Bool.true_and] at h
      exact EditState.adoptSelection_of_none (s := s.edit.prepared) hmode s.options .mouse h
    · rfl
  | mouseClicked caret offset clicks =>
    unfold handleEvent
    dsimp only
    split
    · exact EditState.click_modes (s := s.edit.prepared) hmode caret offset
    · rfl
  | dragStarted caret =>
    unfold handleEvent
    dsimp only
    split <;> rfl
  | _ => rfl

theorem handleEvent_steady (s : Session) (event : EditorEvent) :
    s.edit.modes.Steady (s.handleEvent event).edit.modes := by
  obtain ⟨edit, dragging, heq, hedit⟩ := s.handleEvent_eq event
  rw [heq]
  exact hedit.modes

theorem foldl_handleEvent_settled (events : List EditorEvent) (h : s.mode ≠ .operatorPending) :
    (events.foldl handleEvent s).mode ≠ .operatorPending :=
  List.foldlRecOn (motive := fun t : Session ↦ t.mode ≠ .operatorPending) _ _ h
    fun t ht event _ ↦ (t.handleEvent_steady event).settled ht

/-- The pending mode outlasts reports exactly if it cannot be left or no report is followed. -/
theorem foldl_handleEvent_mode (hmode : s.mode = .operatorPending) (events : List EditorEvent) :
    (events.foldl handleEvent s).mode = .operatorPending ↔
      ¬ (s.edit.modes.HasWayBack ∧ s.adoptsAny events = true) := by
  induction events generalizing s with
  | nil => exact ⟨fun _ h ↦ Bool.false_ne_true h.2, fun _ ↦ hmode⟩
  | cons event rest ih =>
    rw [List.foldl_cons, adoptsAny]
    cases hadopts : s.adopts event with
    | true =>
      obtain ⟨target, hne, hmodes⟩ := handleEvent_of_adopts hmode hadopts
      by_cases hback : s.edit.modes.HasWayBack
      · have hleft : (s.handleEvent event).mode ≠ .operatorPending := by
          show (s.handleEvent event).edit.modes.mode ≠ .operatorPending
          rw [hmodes]
          exact ModeMachine.entering_of_hasWayBack hmode hback hne
        exact ⟨fun h ↦ absurd h (foldl_handleEvent_settled rest hleft),
          fun h ↦ absurd ⟨hback, Bool.true_or _⟩ h⟩
      · rw [ModeMachine.entering_of_not_hasWayBack hmode hback hne] at hmodes
        have hstays : (s.handleEvent event).mode = .operatorPending := by
          show (s.handleEvent event).edit.modes.mode = .operatorPending
          rw [hmodes]
          exact hmode
        rw [ih hstays, hmodes]
        exact ⟨fun _ h ↦ hback h.1, fun _ h ↦ hback h.1⟩
    | false =>
      have hmodes := handleEvent_of_not_adopts hmode hadopts
      have hstays : (s.handleEvent event).mode = .operatorPending := by
        show (s.handleEvent event).edit.modes.mode = .operatorPending
        rw [hmodes]
        exact hmode
      rw [ih hstays, hmodes, Bool.false_or]

/-- Whether one of the reports that wait will be followed. -/
def adoptsReport (s : Session) : Bool :=
  (s.withEditor s.editor.takeEvents.2).adoptsAny s.editor.takeEvents.1

theorem foldl_gesture (s : Session) (gestures : List Gesture) :
    ∃ editor, gestures.foldl gesture s = s.withEditor editor :=
  List.foldlRecOn (motive := fun t : Session ↦ ∃ editor, t = s.withEditor editor) _ _ ⟨s.editor, rfl⟩
    fun _ ⟨editor, heq⟩ g _ ↦ ⟨g.on editor, by rw [heq]; rfl⟩

/-- Where the pending mode and an operator that waits went together before, they do so after gestures
of the user and the reports of them, unless an operator waited, there was another mode under the pending
one, and some report was followed. -/
theorem gestures_keep_operator_mode_iff (s : Session) (gestures : List Gesture)
    (h : s.mode = .operatorPending ↔ s.resolver.operatorPending = true) :
    ((gestures.foldl gesture s).pump.mode = .operatorPending ↔
        (gestures.foldl gesture s).pump.resolver.operatorPending = true) ↔
      ¬ (s.resolver.operatorPending = true ∧ s.edit.modes.HasWayBack ∧
        (gestures.foldl gesture s).adoptsReport = true) := by
  obtain ⟨editor, hgestures⟩ := s.foldl_gesture gestures
  rw [hgestures]
  generalize hseen : s.withEditor editor = seen
  have hsame : seen.edit.modes = s.edit.modes ∧ seen.resolver = s.resolver := by
    rw [← hseen]
    exact ⟨rfl, rfl⟩
  have hresolver : seen.pump.resolver = s.resolver := seen.pump_resolver.trans hsame.2
  rw [hresolver]
  cases hwaits : s.resolver.operatorPending with
  | true =>
    have hmode : (seen.withEditor seen.editor.takeEvents.2).mode = .operatorPending := by
      show seen.edit.modes.mode = .operatorPending
      rw [hsame.1]
      exact h.mpr hwaits
    have hpump := foldl_handleEvent_mode hmode seen.editor.takeEvents.1
    have hback : (seen.withEditor seen.editor.takeEvents.2).edit.modes = s.edit.modes := hsame.1
    rw [hback] at hpump
    simp only [true_and, iff_true]
    exact hpump
  | false =>
    have hne : seen.mode ≠ .operatorPending := by
      intro hmode
      have hpending : s.mode = .operatorPending := by
        rw [Session.mode, EditState.mode, ← hsame.1]
        exact hmode
      rw [h.mp hpending] at hwaits
      cases hwaits
    have hafter : seen.pump.mode ≠ .operatorPending :=
      foldl_handleEvent_settled (s := seen.withEditor seen.editor.takeEvents.2)
        seen.editor.takeEvents.1 hne
    simp only [Bool.false_eq_true, iff_false, false_and, not_false_eq_true, iff_true]
    exact hafter

/-- An operator that has been typed at the start of a text. -/
def typedOperator : Session :=
  ((opened {} (Editor.ofText "abc def\n".toList).attachListener [] []).handleKey (.char 'd')).2

/-- What gestures of the user lead to while that operator waits. -/
theorem typedOperator_gestures :
    (typedOperator.mode = .operatorPending ∧ typedOperator.resolver.operatorPending = true) ∧
      (typedOperator.gesture (.moveCaret ⟨0⟩ 2)).adoptsReport = false ∧
      (typedOperator.gesture (.select ⟨0⟩ 0 3 .mouse)).pump.mode = .visual .character ∧
      (typedOperator.gesture (.select ⟨0⟩ 0 3 .mouse)).pump.resolver.operatorPending = true := by
  have hread : let s := ((opened {} (Editor.ofText "abc def\n".toList).attachListener [] []).pump.enqueue
        (.char 'd')).readNext
      s.resolver.input = [] ∧ (s.mode = .operatorPending ∧ s.resolver.operatorPending = true) ∧
        (s.gesture (.moveCaret ⟨0⟩ 2)).adoptsReport = false ∧
        (s.gesture (.select ⟨0⟩ 0 3 .mouse)).pump.mode = .visual .character ∧
        (s.gesture (.select ⟨0⟩ 0 3 .mouse)).pump.resolver.operatorPending = true := by
    decide +kernel
  rw [typedOperator, handleKey_of_read hread.1]
  exact hread.2

/-- A caret that the user moves leaves the operator waiting in the pending mode. -/
theorem moving_keeps_typed_operator :
    (typedOperator.gesture (.moveCaret ⟨0⟩ 2)).pump.mode = .operatorPending ↔
      (typedOperator.gesture (.moveCaret ⟨0⟩ 2)).pump.resolver.operatorPending = true := by
  obtain ⟨⟨hmode, hwaits⟩, hnone, -⟩ := typedOperator_gestures
  refine (gestures_keep_operator_mode_iff typedOperator [.moveCaret ⟨0⟩ 2]
    ⟨fun _ ↦ hwaits, fun _ ↦ hmode⟩).mpr fun h ↦ ?_
  exact Bool.false_ne_true (hnone.symm.trans h.2.2)

/-- A selection by mouse leaves it waiting behind the visual mode. -/
theorem selecting_strands_typed_operator :
    (typedOperator.mode = .operatorPending ↔ typedOperator.resolver.operatorPending = true) ∧
      ¬ ((typedOperator.gesture (.select ⟨0⟩ 0 3 .mouse)).pump.mode = .operatorPending ↔
        (typedOperator.gesture (.select ⟨0⟩ 0 3 .mouse)).pump.resolver.operatorPending = true) := by
  obtain ⟨⟨hmode, hwaits⟩, -, hvisual, hstranded⟩ := typedOperator_gestures
  refine ⟨⟨fun _ ↦ hwaits, fun _ ↦ hmode⟩, fun h ↦ ?_⟩
  have hpending := h.mpr hstranded
  rw [hvisual] at hpending
  cases hpending

end Session

end ModalEdit
