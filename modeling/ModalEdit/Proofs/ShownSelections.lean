import ModalEdit.Proofs.AttunedInput
import ModalEdit.Proofs.SelectionAdoption
import ModalEdit.Proofs.SelectionAgreement
import ModalEdit.Proofs.SpanUnion
import ModalEdit.Proofs.SuppressedReports

/-!
What is shown and what is deleted. A session follows a selection that the user makes at one caret into a
visual mode, and from there that caret is shown with what an operator takes of it
(`EditState.adoptSelection_shows`). The mode is that of all carets, though, and an operator takes a span of
each: up to the caret from its fixed end, or the character at the caret if it remembers none
(`CaretView.takes`). The other carets are left as they were, so what is deleted is what is shown exactly if
each of them shows what is taken of it (`Session.selected_is_deleted_iff`). A second caret at which nothing
is selected loses a character (`Session.deleted_at_other_caret`).
-/

set_option autoImplicit false
set_option relaxedAutoImplicit false

namespace ModalEdit

/-! ### What is shown and what is taken -/

/-- Whether a character lies in a selection that is shown. -/
def Editor.displays (e : Editor) (place : Nat) : Bool :=
  e.caretIds.any fun caret ↦ (e.selection? caret).any fun (start, stop) ↦ start ≤ place && place < stop

namespace CaretView

/-- Whether a character lies in the selection of a caret. -/
def displays (v : CaretView) (place : Nat) : Bool :=
  v.selection?.any fun (start, stop) ↦ start ≤ place && place < stop

/-- Whether an operator on the selections takes a character for a caret: it takes the span up to the caret
from its fixed end, or from the caret itself if it remembers none. -/
def takes (v : CaretView) (t : Text) (kind : SelectionKind) (select : Bool) (place : Nat) : Bool :=
  v.offset?.any fun offset ↦
    (Span.selection t ((v.state?.bind (·.selectionStart)).getD offset) offset kind select false).contains place

/-- Of a caret that shows the selection from its fixed end, just that is taken. -/
theorem Shows.takes_eq {v : CaretView} {t : Text} {kind : SelectionKind} {select : Bool}
    {anchor offset : Nat} (h : v.Shows t kind select anchor offset) (place : Nat) :
    v.takes t kind select place = v.displays place := by
  obtain ⟨state, hstate, -, hanchor⟩ := h.remembered
  rw [takes, displays, h.stands, h.selection, hstate, Option.bind_some, hanchor]
  rfl

/-- Of a caret that remembers no fixed end, the character at it is taken. -/
theorem takes_of_unanchored {v : CaretView} {t : Text} {offset : Nat} (hoffset : v.offset? = some offset)
    (hnone : v.state?.bind (·.selectionStart) = none) (hlt : offset < t.length) (place : Nat) :
    v.takes t .character false place = true ↔ place = offset := by
  rw [takes, hoffset, Option.any_some, hnone, Option.getD_none, TextRange.contains_iff]
  simp only [Span.selection, TextRange.between, Bool.false_eq_true, if_false]
  omega

end CaretView

namespace EditState

variable {s : EditState} {caret : CaretId} {kind : SelectionKind}

/-- Whether an operator on the selections takes a character for some caret. -/
def takes (s : EditState) (kind : SelectionKind) (place : Nat) : Bool :=
  s.editor.caretIds.any fun caret ↦ (s.view caret).takes s.text kind s.mode.isSelect place

theorem takes_iff {place : Nat} : s.takes kind place = true ↔
    ∃ caret ∈ s.editor.caretIds, (s.view caret).takes s.text kind s.mode.isSelect place = true :=
  List.any_eq_true

theorem displays_iff {place : Nat} : s.editor.displays place = true ↔
    ∃ caret ∈ s.editor.caretIds, (s.view caret).displays place = true := List.any_eq_true

/-- Of the characters of the text, what is taken for a caret is shown, be it at another caret, and what is
shown of it is taken. -/
structure ShowsTaken (s : EditState) (kind : SelectionKind) (caret : CaretId) : Prop where
  displayed : ∀ place < s.text.length, (s.view caret).takes s.text kind s.mode.isSelect place = true →
    s.editor.displays place = true
  taken : ∀ place < s.text.length, (s.view caret).displays place = true → s.takes kind place = true

/-- What is taken is what is shown exactly if that is so of each caret. -/
theorem takes_eq_displays_iff : (∀ place < s.text.length, s.takes kind place = s.editor.displays place) ↔
    ∀ caret ∈ s.editor.caretIds, s.ShowsTaken kind caret := by
  constructor
  · intro heq caret hmem
    refine ⟨fun place hplace htakes ↦ ?_, fun place hplace hshows ↦ ?_⟩
    · rw [← heq place hplace]
      exact takes_iff.mpr ⟨caret, hmem, htakes⟩
    · rw [heq place hplace]
      exact displays_iff.mpr ⟨caret, hmem, hshows⟩
  · intro hall place hplace
    rw [Bool.eq_iff_iff]
    constructor
    · intro htakes
      obtain ⟨caret, hmem, hof⟩ := takes_iff.mp htakes
      exact (hall caret hmem).displayed place hplace hof
    · intro hshows
      obtain ⟨caret, hmem, hof⟩ := displays_iff.mp hshows
      exact (hall caret hmem).taken place hplace hof

theorem showsTaken_of_shows (hmem : caret ∈ s.editor.caretIds) {anchor offset : Nat}
    (h : (s.view caret).Shows s.text kind s.mode.isSelect anchor offset) : s.ShowsTaken kind caret where
  displayed place _ htakes := displays_iff.mpr ⟨caret, hmem, (h.takes_eq place).symm.trans htakes⟩
  taken place _ hshows := takes_iff.mpr ⟨caret, hmem, (h.takes_eq place).trans hshows⟩

/-- A caret that remembers no fixed end is not shown with what is taken of it, unless the character at it is
shown for another. -/
theorem not_showsTaken_of_unanchored (hselect : s.mode.isSelect = false) {offset : Nat}
    (hoffset : (s.view caret).offset? = some offset)
    (hnone : (s.view caret).state?.bind (·.selectionStart) = none) (hlt : offset < s.text.length)
    (hhidden : s.editor.displays offset = false) : ¬ s.ShowsTaken .character caret := by
  intro hshows
  have htakes : (s.view caret).takes s.text .character s.mode.isSelect offset = true := by
    rw [hselect]
    exact (CaretView.takes_of_unanchored hoffset hnone hlt offset).mpr rfl
  exact Bool.false_ne_true (hhidden.symm.trans (hshows.displayed offset hlt htakes))

/-! ### The operator -/

/-- Bringing the table in line changes nothing about what is taken for a caret. -/
theorem view_syncCarets_takes (h : s.editor.Anchored) (hmem : caret ∈ s.editor.caretIds) (t : Text)
    (select : Bool) (place : Nat) :
    (s.syncCarets.view caret).takes t kind select place = (s.view caret).takes t kind select place := by
  obtain ⟨offset, -, hoffset⟩ := h.exists_caretOffset? hmem
  have hanchor : (CaretTable.placed (s.carets.get? caret) offset).selectionStart =
      (s.carets.get? caret).bind (·.selectionStart) := by
    cases s.carets.get? caret <;> rfl
  have hbefore : s.view caret = ⟨some offset, s.editor.selection? caret, s.carets.get? caret⟩ :=
    congrArg (CaretView.mk · _ _) hoffset
  rw [view_syncCarets h hmem hoffset, hbefore, CaretView.takes, CaretView.takes]
  dsimp only
  rw [Option.bind_some, hanchor]

theorem takes_syncCarets (h : s.editor.Anchored) (kind : SelectionKind) :
    s.syncCarets.takes kind = s.takes kind := by
  funext place
  rw [Bool.eq_iff_iff, takes_iff, takes_iff]
  refine exists_congr fun caret ↦ and_congr_right fun hmem ↦ ?_
  rw [view_syncCarets_takes h hmem]
  exact Iff.rfl

/-- What is taken lies in the spans that an operator is given. -/
theorem any_selectedRanges (h : s.Anchored) (kind : SelectionKind) (place : Nat) :
    (s.syncCarets.selectedRanges kind false).any (·.2.contains place) = s.takes kind place := by
  have hordered {caret : CaretId} : caret ∈ s.syncCarets.carets.orderedByOffset ↔
      caret ∈ s.syncCarets.editor.caretIds := (orderedByOffset_perm h).mem_iff
  have htakes {caret : CaretId} {state : CaretState} (hmem : caret ∈ s.syncCarets.editor.caretIds)
      (hstate : s.syncCarets.carets.get? caret = some state) :
      (s.syncCarets.view caret).takes s.text kind s.mode.isSelect place =
        (Span.selection s.text (state.selectionStart.getD state.offset) state.offset kind s.mode.isSelect
          false).contains place := by
    obtain ⟨known, hknown, hoffset⟩ := view_syncCarets_placed h hmem
    obtain rfl := Option.some.inj (hstate.symm.trans hknown)
    rw [CaretView.takes, hknown, hoffset]
    rfl
  rw [← takes_syncCarets h.editor, Bool.eq_iff_iff, List.any_eq_true, takes_iff]
  constructor
  · rintro ⟨⟨caret, range⟩, hrange, hcontains⟩
    obtain ⟨other, hother, heq⟩ := List.mem_filterMap.mp hrange
    obtain ⟨state, hstate, hpair⟩ := Option.bind_eq_some_iff.mp heq
    obtain ⟨rfl, rfl⟩ := Prod.mk.inj (Option.some.inj hpair)
    exact ⟨other, hordered.mp hother, (htakes (hordered.mp hother) hstate).trans hcontains⟩
  · rintro ⟨caret, hmem, hof⟩
    obtain ⟨state, hstate, -⟩ := view_syncCarets_placed h hmem
    have hknown : s.syncCarets.carets.get? caret = some state := hstate
    refine ⟨(caret, _), List.mem_filterMap.mpr ⟨caret, hordered.mpr hmem, ?_⟩,
      (htakes hmem hknown).symm.trans hof⟩
    rw [hknown]
    rfl

/-- Deleting what is selected takes out just what is taken. -/
theorem delete_removes_taken (h : s.Anchored) (hkind : s.mode.selectionKind? = some .character)
    (command : Command) (hlines : command.flags.linewise = false) :
    (s.operateOnSelections command .delete).2.text = s.text.without (s.takes .character) := by
  have hcleared : Moves s (s.syncCarets.clearSelections.setMode .normal).2 :=
    ((Step.syncCarets s).steps.trans (clearSelections_moves _)).trans
      (setMode_moves _ Mode.noConfusion)
  have hsound := Steps.sound hcleared.edits ⟨h.editor.toSound, h.carets⟩
  have htext : (s.syncCarets.clearSelections.setMode .normal).2.text = s.text :=
    hcleared.rearranges.editor.text
  have hcharacters : ∀ p ∈ s.syncCarets.selectedRanges .character false, p.2.kind = .characterwise := by
    intro p hp
    obtain ⟨caret, -, heq⟩ := List.mem_filterMap.mp hp
    obtain ⟨state, -, hpair⟩ := Option.bind_eq_some_iff.mp heq
    rw [← Option.some.inj hpair, Span.selection]
    dsimp only
    rw [if_neg Bool.false_ne_true]
    split <;> rfl
  have hunion := ((Revision.start_lacks s.text).foldl_next
    ((s.syncCarets.selectedRanges .character false).map (·.2))).text
  rw [operateOnSelections_of_mode hkind, hlines,
    operate_text hsound.editor Operator.delete_revises _ hcharacters, htext, hunion]
  congr 1
  funext place
  rw [Bool.false_or, List.any_map]
  exact any_selectedRanges h .character place

/-! ### Following a selection -/

/-- If a selection is followed into a visual mode, its caret is shown with what is taken of it. -/
theorem adoptSelection_shows (h : s.Anchored) (hcoherent : s.modes.Coherent)
    (hmem : caret ∈ s.editor.caretIds) (hknown : ∃ state, (s.view caret).state? = some state ∧
      (s.view caret).offset? = some state.offset) {options : Options} {source : EventSource}
    {after : EditState} (hafter : s.adoptSelection options caret source = after)
    (hvisual : after.mode.isVisual = true) :
    after.mode = .visual .character ∧ caret ∈ after.editor.caretIds ∧
      ∃ anchor offset, (after.view caret).Shows after.text .character false anchor offset := by
  obtain ⟨state, hstate, hoffset⟩ := hknown
  unfold adoptSelection at hafter
  split at hafter
  · -- no selection is there to be followed
    split at hafter
    · rw [← hafter, exitToNormal_mode hcoherent] at hvisual
      cases hvisual
    · next hleft =>
      rw [hafter, hvisual, Bool.true_or] at hleft
      exact absurd rfl hleft
  · next start stop _ =>
    dsimp only at hafter
    generalize htarget : (if startsSelect options source then Mode.select .character
      else Mode.visual .character) = target at hafter
    generalize selectionEnds start stop _ _ = ends at hafter
    generalize hmarked : s.modifyCaret caret ({ · with selectionStart := some ends.1 }) = marked at hafter
    have htouched : Touches caret s marked := hmarked ▸ modifyCaret_touches h caret _
    obtain ⟨modes, hentry, hmode⟩ : ∃ modes : ModeMachine,
        (if marked.mode = target then (true, marked) else marked.enterMode target) =
          (true, { marked with modes }) ∧ modes.mode = target := by
      split
      · next hsame => exact ⟨marked.modes, rfl, hsame⟩
      · obtain ⟨modes, hentered, hmode, -⟩ := enterMode_eq (htouched.modes ▸ hcoherent) target
        exact ⟨modes, hentered, hmode⟩
    rw [hentry] at hafter
    dsimp only at hafter
    rw [if_pos rfl] at hafter
    have hentered : Anchored { marked with modes } := ⟨htouched.anchored.editor, htouched.anchored.carets⟩
    have hmarkedMem : caret ∈ marked.editor.caretIds := htouched.ids ▸ hmem
    have hstarts : (EditState.view { marked with modes } caret).Starts ends.1 state.offset := by
      show (marked.view caret).Starts ends.1 state.offset
      rw [← hmarked, view_modifyCaret, hstate]
      exact ⟨hoffset, _, rfl, rfl, rfl⟩
    have hmoved := moveCaret_touches hentered caret ends.2
    have hshown : Touches caret { marked with modes } after :=
      hafter ▸ moveCaret_updateSelection_touches hentered caret ends.2
    have hvisualChar : target = .visual .character := by
      rw [hshown.mode.trans hmode, ← htarget] at hvisual
      rw [← htarget]
      split
      · next hselect =>
        rw [if_pos hselect] at hvisual
        cases hvisual
      · rfl
    have hafterMode : after.mode = .visual .character := (hshown.mode.trans hmode).trans hvisualChar
    have hmovedMode := (hmoved.mode.trans hmode).trans hvisualChar
    have hshows := updateSelection_shows hmoved.anchored (hmoved.ids.symm ▸ hmarkedMem)
      (by rw [hmovedMode]; rfl) (moveCaret_starts hentered hmarkedMem hstarts ends.2)
    rw [hafter, hmovedMode, hmoved.text.trans hshown.text.symm] at hshows
    exact ⟨hafterMode, hshown.ids.symm ▸ hmarkedMem, _, _, hshows⟩

end EditState

/-! ### Gestures and their reports -/

namespace Editor

variable {e : Editor} {caret : CaretId}

theorem Anchored.userSelect_eq (h : e.Anchored) {marks : CaretMarks} (hmarks : (caret, marks) ∈ e.carets)
    (anchor head : Nat) (source : EventSource) :
    e.userSelect caret anchor head source =
      (Editor.storeSelection { e with buffer := e.buffer.setMark marks.head head } caret anchor head).emit
        (.selectionChanged caret (min anchor head) (max anchor head) source) := by
  unfold userSelect setHead
  rw [(lookup_iff_mem h.toSound).mpr hmarks]
  simp only [markOffset?, setMark_of_live (h.live_of_mem hmarks marks.head_mem_all)]

theorem Anchored.userSelect (h : e.Anchored) (hmem : caret ∈ e.caretIds) (anchor head : Nat)
    (source : EventSource) : (e.userSelect caret anchor head source).Anchored := by
  obtain ⟨marks, hmarks⟩ := exists_marks hmem
  rw [h.userSelect_eq hmarks]
  exact ((h.setMark marks.head head).storeSelection_selects hmem anchor head).anchored.emit _

theorem Anchored.caretIds_userSelect (h : e.Anchored) (hmem : caret ∈ e.caretIds) (anchor head : Nat)
    (source : EventSource) : (e.userSelect caret anchor head source).caretIds = e.caretIds := by
  obtain ⟨marks, hmarks⟩ := exists_marks hmem
  rw [h.userSelect_eq hmarks]
  exact (Editor.storeSelection_sameCarets _ caret anchor head).ids

/-- With the guard unlocked, a selection that is made is reported behind what waits. -/
theorem Anchored.userSelect_reported (h : e.Anchored) (hmem : caret ∈ e.caretIds)
    (hhears : e.listener.isSome = true) (hunlocked : e.guard.depth = 0) (anchor head : Nat)
    (source : EventSource) :
    (e.userSelect caret anchor head source).reported =
      e.reported ++ [.selectionChanged caret (min anchor head) (max anchor head) source] := by
  obtain ⟨listener, hlistener⟩ := Option.isSome_iff_exists.mp hhears
  obtain ⟨marks, hmarks⟩ := exists_marks hmem
  have hopen : e.guard.isLocked = false := by
    rw [SuppressionGuard.isLocked, hunlocked]
    rfl
  have hstored (moved : Editor) : (moved.storeSelection caret anchor head).listener = moved.listener ∧
      (moved.storeSelection caret anchor head).guard = moved.guard := by
    unfold storeSelection
    split <;> exact ⟨rfl, rfl⟩
  obtain ⟨hlistens, hguard⟩ := hstored { e with buffer := e.buffer.setMark marks.head head }
  rw [h.userSelect_eq hmarks]
  generalize storeSelection _ caret anchor head = stored at hlistens hguard ⊢
  rw [reported, reported, Editor.emit, hlistens, hguard, hlistener]
  dsimp only [Option.map_some, Option.getD_some, Listener.notify]
  rw [hopen]
  rfl

end Editor

namespace EditState

variable {s : EditState}

/-- The guard does not matter. -/
theorem Anchored.withGuard (h : s.Anchored) (guard : SuppressionGuard) :
    Anchored { s with editor := { s.editor with guard } } :=
  ⟨h.editor.of_buffer rfl rfl rfl, h.carets⟩

theorem Anchored.prepared (h : s.Anchored) : s.prepared.Anchored := (h.withGuard _).syncCarets

theorem Anchored.takes_prepared (h : s.Anchored) (kind : SelectionKind) :
    s.prepared.takes kind = s.takes kind := takes_syncCarets (h.withGuard _).editor kind

theorem Anchored.guardedChange (h : s.Anchored) {f : EditState → EditState}
    (hf : Moves s.prepared (f s.prepared)) : (s.guardedChange f).Anchored :=
  (hf.moves_anchored h.prepared).withGuard _

end EditState

namespace Session

variable {s : Session}

/-- Carets and selections are anchored, and the mode machine is coherent. -/
structure Tidy (s : Session) : Prop where
  anchored : s.edit.Anchored
  coherent : s.edit.modes.Coherent

theorem handleEvent_anchored (h : s.edit.Anchored) (event : EditorEvent) :
    (s.handleEvent event).edit.Anchored := by
  cases event with
  | caretAdded caret offset => exact ⟨h.editor, h.carets.add caret offset⟩
  | caretRemoved caret => exact ⟨h.editor, h.carets.sublist (List.filter_sublist.map _)⟩
  | caretMoved caret offset => exact ⟨h.editor, h.carets.modify caret _⟩
  | dragStarted caret =>
    unfold Session.handleEvent
    dsimp only
    split
    · exact h
    · exact h.withGuard _
  | mouseReleased caret =>
    unfold Session.handleEvent
    dsimp only
    split
    · exact (h.guardedChange (EditState.adoptSelection_moves _ _ _ _)).withGuard _
    · exact h
  | mouseClicked caret offset clicks =>
    unfold Session.handleEvent
    dsimp only
    split
    · exact h.guardedChange (f := (·.click caret offset)) (EditState.click_moves _ _ _)
    · exact h
  | selectionChanged caret start stop source =>
    exact h.guardedChange (f := (·.adoptSelection s.options caret source))
      (EditState.adoptSelection_moves _ _ _ _)

theorem Tidy.handleEvent (h : s.Tidy) (event : EditorEvent) : (s.handleEvent event).Tidy :=
  ⟨handleEvent_anchored h.anchored event, (s.handleEvent_steady event).coherent h.coherent⟩

theorem Tidy.takeEvents (h : s.Tidy) : (s.withEditor s.editor.takeEvents.2).Tidy := by
  obtain ⟨listener, htaken⟩ := s.editor.takeEvents_eq
  rw [htaken]
  exact ⟨⟨h.anchored.editor.of_buffer rfl rfl rfl, h.anchored.carets⟩, h.coherent⟩

/-- Dealing with reports leaves a session tidy and its carets there. -/
theorem Tidy.foldl_handleEvent (h : s.Tidy) (events : List EditorEvent) :
    (events.foldl Session.handleEvent s).Tidy ∧
      (events.foldl Session.handleEvent s).editor.caretIds = s.editor.caretIds :=
  List.foldlRecOn (motive := fun t : Session ↦ t.Tidy ∧ t.editor.caretIds = s.editor.caretIds) events
    Session.handleEvent ⟨h, rfl⟩ fun t ht event _ ↦ ⟨ht.1.handleEvent event,
      ((Editor.sameCarets_lasting t.editor).handleEvent (.refl _) event).ids.trans ht.2⟩

theorem Tidy.pump (h : s.Tidy) : s.pump.Tidy := (h.takeEvents.foldl_handleEvent _).1

theorem Tidy.gesture_select (h : s.Tidy) {caret : CaretId} (hmem : caret ∈ s.editor.caretIds)
    (anchor head : Nat) (source : EventSource) : (s.gesture (.select caret anchor head source)).Tidy :=
  ⟨⟨h.anchored.editor.userSelect hmem anchor head source, h.anchored.carets⟩, h.coherent⟩

/-! ### Sessions that are under way -/

/-- A session with the standard actions, whose marks are accounted for and whose guard is locked just while
the mouse drags, with nothing to be read. -/
structure Underway (s : Session) : Prop where
  accounted : s.editor.Accounted []
  sound : s.Sound
  coherent : s.edit.modes.Coherent
  registry : s.registry = .standard
  attentive : ∃ hearing, s.Attentive hearing
  read : s.resolver.input = []

theorem call_coherent (horderly : s.registry.Orderly) (h : s.edit.modes.Coherent) (c : KeyCall) :
    (s.call c).edit.modes.Coherent := by
  have hread (t : Session) (ht : t.registry.Orderly ∧ t.edit.modes.Coherent) :
      t.readNext.registry.Orderly ∧ t.readNext.edit.modes.Coherent := by
    cases hinput : t.resolver.input with
    | nil => rwa [readNext_of_nil hinput]
    | cons stroke rest =>
      rw [readNext_of_cons hinput]
      exact ⟨ht.1, act_coherent ht.1 ht.2 _⟩
  refine (call_keeps (P := fun t ↦ t.registry.Orderly ∧ t.edit.modes.Coherent) (fun t c ht ↦ ?_) hread
    ⟨horderly, h⟩ c).2
  cases c with
  | key stroke =>
    have hpumped := t.pump_steady.coherent ht.2
    obtain ⟨edit, dragging, hpump, -⟩ := t.pump_eq
    rw [hpump] at hpumped
    refine ⟨?_, ?_⟩
    · show t.pump.registry.Orderly
      rw [hpump]
      exact ht.1
    · show t.pump.edit.modes.Coherent
      rw [hpump]
      exact hpumped
  | flush => exact ⟨ht.1, act_coherent ht.1 ht.2 _⟩

/-- What happens to a session leaves it underway. -/
theorem Underway.undergo (h : s.Underway) (happening : Happening) : (s.undergo happening).Underway := by
  obtain ⟨hearing, hattentive⟩ := h.attentive
  have hread := undergo_input h.read happening
  have hsecret {t : Session} (hregistry : t.registry = s.registry) (hdragging : t.dragging = s.dragging)
      (ht : s.edit.Secret t.edit) : ∃ hearing, t.Attentive hearing :=
    ⟨hearing, hattentive.of_secret hregistry hdragging ht⟩
  have horderly : s.registry.Orderly := by
    rw [h.registry]
    exact Registry.standard_orderly
  cases happening with
  | input input =>
    have hsound := h.sound.receive input
    have hheard : ∃ hearing, (s.receive input).Attentive hearing := ⟨_, hattentive.receive input⟩
    cases input with
    | call c =>
      obtain ⟨hregistry, haccounted⟩ := Editor.accounted_lasting.call ⟨h.registry, h.accounted⟩ c
      exact ⟨haccounted, hsound, call_coherent horderly h.coherent c, hregistry, hheard, hread⟩
    | gesture g =>
      exact ⟨g.keeps Editor.GestureStep.accounted h.accounted, hsound, h.coherent, h.registry, hheard, hread⟩
    | pump =>
      obtain ⟨hregistry, haccounted⟩ := Editor.accounted_lasting.pump ⟨h.registry, h.accounted⟩
      exact ⟨haccounted, hsound, s.pump_steady.coherent h.coherent, hregistry, hheard, hread⟩
  | eraseRange a b =>
    exact ⟨Editor.accounted_lasting.rewrite (.eraseRange _ a b) h.accounted,
      ⟨h.sound.registry, h.sound.edit.editor.eraseRange a b, h.sound.edit.carets⟩, h.coherent, h.registry,
      hsecret rfl rfl ⟨rfl, rfl⟩, hread⟩
  | insertText offset text =>
    exact ⟨Editor.accounted_lasting.rewrite (.insertText _ offset text) h.accounted,
      ⟨h.sound.registry, h.sound.edit.editor.insertText offset text, h.sound.edit.carets⟩, h.coherent,
      h.registry, hsecret rfl rfl ⟨rfl, rfl⟩, hread⟩

theorem opened_underway (options : Options) {editor : Editor} (haccounted : editor.Accounted [])
    (hunlocked : editor.guard.depth = 0) (early late : List Remap) :
    (opened options editor early late).Underway := by
  have hregistry := opened_registry options editor early late
  have hedit := opened_edit options editor early late
  have hdragging : (opened options editor early late).dragging = false := by rw [opened_eq]
  refine ⟨?_, ⟨?_, ?_⟩, ?_, hregistry, ⟨{ waiting := editor.reported }, ?_, ?_, hdragging, ?_⟩, ?_⟩
  · rwa [Session.editor, hedit]
  · rw [hregistry]
    exact Registry.standard_madeOfSteps
  · rw [hedit]
    exact ⟨haccounted.toSound, List.nodup_nil⟩
  · rw [hedit]
    rfl
  · rw [hregistry]
    exact Registry.standard_orderly.silent
  · rwa [Session.editor, hedit, hdragging]
  · rw [Session.editor, hedit]
  · rw [opened_resolver]

theorem undergo_keymap (s : Session) (happening : Happening) : (s.undergo happening).keymap = s.keymap := by
  have hpump (t : Session) : t.pump.keymap = t.keymap := by
    obtain ⟨edit, dragging, hpump, -⟩ := t.pump_eq
    rw [hpump]
  have hread (t : Session) : t.readNext.keymap = t.keymap := by
    cases hinput : t.resolver.input with
    | nil => rw [readNext_of_nil hinput]
    | cons stroke rest =>
      rw [readNext_of_cons hinput]
      rfl
  cases happening with
  | input input =>
    cases input with
    | call c =>
      refine call_keeps (P := fun t ↦ t.keymap = s.keymap) (fun t c ht ↦ ?_)
        (fun t ht ↦ (hread t).trans ht) rfl c
      cases c with
      | key stroke => exact (hpump t).trans ht
      | flush => exact ht
    | gesture g => rfl
    | pump => exact hpump s
  | eraseRange a b => rfl
  | insertText offset text => rfl

/-- What a stroke leads to by default it still leads to, whatever is put in the place of strokes that begin
with another one. -/
theorem opened_follow (options : Options) (editor : Editor) {early late : List Remap} {mode : MapMode}
    {stroke : KeyStroke} {node : Option Target × Trie}
    (hdefault : (Keymap.default.trie mode).follow stroke = some node)
    (hextensions : ∀ b ∈ Extension.all.flatMap (·.bindings), b.keys.head? ≠ some stroke)
    (hremaps : ∀ r ∈ early ++ late, mode ∈ r.modes → r.keys.head? ≠ some stroke) :
    ((opened options editor early late).keymap.trie mode).follow stroke = some node := by
  have hadded : ∀ b ∈ addedBindings early late, mode ∈ b.modes → b.keys.head? ≠ some stroke := by
    intro b hb hmode
    rcases List.mem_append.mp hb with hb | hb
    · rcases List.mem_append.mp hb with hb | hb
      · obtain ⟨r, hr, rfl⟩ := List.mem_map.mp hb
        exact hremaps r (List.mem_append_left _ hr) hmode
      · exact hextensions b hb
    · obtain ⟨r, hr, rfl⟩ := List.mem_map.mp hb
      exact hremaps r (List.mem_append_right _ hr) hmode
  rw [opened_eq]
  refine Keymap.bindAll_trie_keeps (P := fun t ↦ t.follow stroke = some node) hdefault ?_
  intro b hb hmode t ht
  rw [Trie.follow_insert_of_ne (hadded b hb hmode)]
  exact ht

/-- A key with which nothing begins that stands for others in the visual modes deletes if it did so by
default. -/
theorem opened_visual_delete (options : Options) (editor : Editor) {early late : List Remap}
    (hremaps : ∀ r ∈ early ++ late, .visual ∈ r.modes → r.keys.head? ≠ some (.char 'd')) :
    ((opened options editor early late).keymap.trie .visual).follow (.char 'd') =
      some (some (.action ActionId.delete), .nil) :=
  opened_follow options editor (by decide +kernel) (by decide +kernel) hremaps

/-! ### Shown and deleted -/

/-- Nothing is held of a command, the guard is unlocked, reports are listened for, and `d` deletes in the
visual modes. -/
structure TakesSelections (s : Session) : Prop extends Tidy s where
  idle : s.resolver.hasPending = false
  read : s.resolver.input = []
  unlocked : s.editor.guard.depth = 0
  hears : s.editor.listener.isSome = true
  bound : (s.keymap.trie .visual).follow (.char 'd') = some (some (.action ActionId.delete), .nil)
  registered : s.registry.get? ActionId.delete = Registry.standard.get? ActionId.delete

/-- Whatever has happened to a session, it takes selections if nothing is held of a command and the mouse
does not drag. -/
theorem Underway.takesSelections (h : s.Underway) (hidle : s.resolver.hasPending = false)
    (hdragging : s.dragging = false) (hhears : s.editor.listener.isSome = true)
    (hbound : (s.keymap.trie .visual).follow (.char 'd') = some (some (.action ActionId.delete), .nil)) :
    s.TakesSelections where
  anchored := ⟨h.accounted.toAnchored, h.sound.edit.carets⟩
  coherent := h.coherent
  idle := hidle
  read := h.read
  unlocked := by
    obtain ⟨hearing, hattentive⟩ := h.attentive
    rw [hattentive.depth, hdragging]
    rfl
  hears := hhears
  bound := hbound
  registered := by rw [h.registry]

theorem foldl_undergo_takesSelections (options : Options) {editor : Editor}
    (haccounted : editor.Accounted []) (hunlocked : editor.guard.depth = 0) {early late : List Remap}
    (hremaps : ∀ r ∈ early ++ late, .visual ∈ r.modes → r.keys.head? ≠ some (.char 'd'))
    (history : List Happening) {s : Session}
    (hs : history.foldl undergo (opened options editor early late) = s)
    (hidle : s.resolver.hasPending = false) (hdragging : s.dragging = false)
    (hhears : s.editor.listener.isSome = true) : s.TakesSelections := by
  have hrun : s.Underway ∧ s.keymap = (opened options editor early late).keymap := by
    rw [← hs]
    exact List.foldlRecOn (motive := fun t : Session ↦ t.Underway ∧ t.keymap = _) history undergo
      ⟨opened_underway options haccounted hunlocked early late, rfl⟩ fun t ht happening _ ↦
        ⟨ht.1.undergo happening, (t.undergo_keymap happening).trans ht.2⟩
  refine hrun.1.takesSelections hidle hdragging hhears ?_
  rw [hrun.2]
  exact opened_visual_delete options editor hremaps

/-- The report of a selection that is made is dealt with last, and if that ends in a visual mode the caret
is shown with what is taken of it. -/
theorem TakesSelections.pump_select_shows (h : s.TakesSelections) {caret : CaretId}
    (hmem : caret ∈ s.editor.caretIds) (anchor head : Nat) (source : EventSource) {shown : Session}
    (hshown : (s.gesture (.select caret anchor head source)).pump = shown)
    (hvisual : shown.mode.isVisual = true) :
    shown.mode = .visual .character ∧ caret ∈ shown.editor.caretIds ∧ ∃ anchor offset,
      (shown.edit.view caret).Shows shown.edit.text .character false anchor offset := by
  have hmade := h.gesture_select hmem anchor head source
  have hreported : (s.gesture (.select caret anchor head source)).editor.reported =
      s.editor.reported ++ [.selectionChanged caret (min anchor head) (max anchor head) source] :=
    h.anchored.editor.userSelect_reported hmem h.hears h.unlocked anchor head source
  have hids : (s.gesture (.select caret anchor head source)).editor.caretIds = s.editor.caretIds :=
    h.anchored.editor.caretIds_userSelect hmem anchor head source
  generalize s.gesture (.select caret anchor head source) = made at hshown hmade hreported hids
  replace hshown : made.editor.takeEvents.1.foldl handleEvent (made.withEditor made.editor.takeEvents.2) =
      shown := hshown
  rw [Editor.takeEvents_fst, hreported, List.foldl_append] at hshown
  obtain ⟨htidy, hsame⟩ := hmade.takeEvents.foldl_handleEvent s.editor.reported
  replace hsame : _ = made.editor.takeEvents.2.caretIds := hsame
  obtain ⟨listener, htaken⟩ := made.editor.takeEvents_eq
  generalize s.editor.reported.foldl handleEvent (made.withEditor made.editor.takeEvents.2) = before
    at hshown htidy hsame
  have hmemBefore : caret ∈ before.edit.lock.2.editor.caretIds := by
    show caret ∈ before.editor.caretIds
    rw [hsame, htaken]
    exact hids.symm ▸ hmem
  generalize hadopted : before.edit.prepared.adoptSelection before.options caret source = adopted
  have hunlocked : shown = { before with edit := adopted.unlock before.edit.lock.1 } := by
    rw [← hshown, ← hadopted]
    rfl
  have hshows := EditState.adoptSelection_shows htidy.anchored.prepared htidy.coherent hmemBefore
    (EditState.view_syncCarets_placed (htidy.anchored.withGuard _) hmemBefore) hadopted
    (by rwa [hunlocked] at hvisual)
  rw [hunlocked]
  exact hshows

/-- In the visual mode of characters `d` takes out just what is taken for the carets. -/
theorem delete_in_visual (htidy : s.Tidy) (hmode : s.mode = .visual .character)
    (hidle : s.resolver.hasPending = false) (hread : s.resolver.input = []) (hreported : s.editor.reported = [])
    (hbound : (s.keymap.trie .visual).follow (.char 'd') = some (some (.action ActionId.delete), .nil))
    (hregistered : s.registry.get? ActionId.delete = Registry.standard.get? ActionId.delete) :
    (s.handleKey (.char 'd')).2.editor.text = s.editor.text.without (s.edit.takes .character) := by
  have hget : s.keymap.get? .visual OperatorKey.delete.keys = some (.action OperatorKey.delete.action) := by
    show (s.keymap.trie .visual).get? [.char 'd'] = _
    simp only [Trie.get?, hbound]
    rfl
  have hbeyond : (s.keymap.trie .visual).goesBeyond OperatorKey.delete.keys = false := by
    show (s.keymap.trie .visual).goesBeyond [.char 'd'] = false
    simp only [Trie.goesBeyond, hbound]
    rfl
  have hcompletes := (OperatorKey.delete.completes_command_of_bound hregistered hget hbeyond
    .character).of_idle hidle hread
  obtain ⟨modes, hmodes, hsame, hrun⟩ := handleAll_of_completes (s := s) (by rw [hmode]; exact .inr rfl)
    htidy.coherent hreported (Resolver.hasPending_eq_false_iff.mp hidle).2.1 (by rw [hmode]; exact hcompletes)
    rfl
  generalize hheld : ({ s.edit with modes } : EditState) = held at hrun
  have hheldMode : held.mode = .visual .character := by
    rw [← hheld]
    exact hsame.trans hmode
  have hanchored : held.Anchored := by
    rw [← hheld]
    exact ⟨htidy.anchored.editor, htidy.anchored.carets⟩
  have hexecute : held.prepared.execute s.registry s.options OperatorKey.delete.command =
      held.prepared.operateOnSelections OperatorKey.delete.command .delete := by
    rw [EditState.execute_of_operator OperatorKey.delete.command
      (hregistered.trans OperatorKey.delete.get?_action), show held.prepared.mode = .visual .character from
      hheldMode]
    rfl
  have htakes : held.prepared.takes .character = s.edit.takes .character := by
    refine (hanchored.takes_prepared .character).trans ?_
    funext place
    unfold EditState.takes
    rw [show held.mode = s.edit.mode from hheldMode.trans hmode.symm, ← hheld]
    rfl
  have hdeleted := EditState.delete_removes_taken (s := held.prepared) hanchored.prepared
    (by rw [show held.prepared.mode = .visual .character from hheldMode]; rfl) OperatorKey.delete.command rfl
  have htext : (s.handleKey (.char 'd')).2.editor.text =
      (held.prepared.execute s.registry s.options OperatorKey.delete.command).2.text :=
    congrArg (fun result : KeyOutcome × Session ↦ result.2.editor.text) hrun
  rw [htext, hexecute, hdeleted, htakes, ← hheld]
  rfl

theorem TakesSelections.text_deleted (h : s.TakesSelections) {caret : CaretId}
    (hmem : caret ∈ s.editor.caretIds) (anchor head : Nat) (source : EventSource) {shown : Session}
    (hshown : (s.gesture (.select caret anchor head source)).pump = shown)
    (hvisual : shown.mode.isVisual = true) :
    (shown.handleKey (.char 'd')).2.editor.text =
      shown.editor.text.without (shown.edit.takes .character) := by
  obtain ⟨hmode, -⟩ := h.pump_select_shows hmem anchor head source hshown hvisual
  have htidy : shown.Tidy := hshown ▸ (h.gesture_select hmem anchor head source).pump
  have hreported : shown.editor.reported = [] := hshown ▸ pump_reported _
  obtain ⟨edit, dragging, hpump, -⟩ := (s.gesture (.select caret anchor head source)).pump_eq
  rw [hshown] at hpump
  refine delete_in_visual htidy hmode ?_ ?_ hreported ?_ ?_ <;> rw [hpump]
  exacts [h.idle, h.read, h.bound, h.registered]

/-- If a selection that the user makes at a caret leads to a visual mode, `d` takes out just what is taken
for the carets; and this is what is shown exactly if, of each caret but that one, what is taken is shown and
what is shown is taken. -/
theorem selected_is_deleted_iff (h : s.TakesSelections) {caret : CaretId}
    (hmem : caret ∈ s.editor.caretIds) (anchor head : Nat) (source : EventSource) {shown : Session}
    (hshown : (s.gesture (.select caret anchor head source)).pump = shown)
    (hvisual : shown.mode.isVisual = true) :
    (shown.handleKey (.char 'd')).2.editor.text =
        shown.editor.text.without (shown.edit.takes .character) ∧
      ((∀ place < shown.editor.text.length, shown.edit.takes .character place = shown.editor.displays place) ↔
        ∀ other ∈ shown.editor.caretIds, other ≠ caret → shown.edit.ShowsTaken .character other) := by
  obtain ⟨hmode, hshownMem, place, offset, hshows⟩ :=
    h.pump_select_shows hmem anchor head source hshown hvisual
  have hselect : shown.edit.mode.isSelect = false := by
    rw [show shown.edit.mode = .visual .character from hmode]
    rfl
  have hself : shown.edit.ShowsTaken .character caret :=
    EditState.showsTaken_of_shows hshownMem (by rw [hselect]; exact hshows)
  refine ⟨h.text_deleted hmem anchor head source hshown hvisual, EditState.takes_eq_displays_iff.trans ?_⟩
  refine ⟨fun hall other hother _ ↦ hall other hother, fun hothers other hother ↦ ?_⟩
  by_cases hsame : other = caret
  · exact hsame ▸ hself
  · exact hothers other hother hsame

/-- Two words, with a caret at each. -/
def twoWords : Editor := (Editor.ofMarked ⟨"abc def\n".toList, [0, 4], []⟩).attachListener

theorem twoWords_accounted : twoWords.Accounted [] := (Editor.ofMarked_accounted _).of_buffer rfl rfl rfl

/-- Once a word has been selected at each of two carets, both words are shown and deleted. -/
theorem both_words_deleted :
    let s := (opened {} twoWords [] []).gesture (.select ⟨0⟩ 0 3 .mouse)
    let shown := (s.gesture (.select ⟨1⟩ 4 7 .mouse)).pump
    (s.TakesSelections ∧ ⟨1⟩ ∈ s.editor.caretIds ∧ shown.mode.isVisual = true) ∧
      (shown.handleKey (.char 'd')).2.editor.text = " \n".toList ∧
      ∀ place < shown.editor.text.length, shown.edit.takes .character place = shown.editor.displays place := by
  intro s shown
  have htakes : s.TakesSelections := foldl_undergo_takesSelections {} twoWords_accounted rfl
    (fun _ hr ↦ absurd hr List.not_mem_nil) [.input (.gesture (.select ⟨0⟩ 0 3 .mouse))] rfl
    (by decide +kernel) (by decide +kernel) (by decide +kernel)
  have hmem : ⟨1⟩ ∈ s.editor.caretIds := by decide +kernel
  have hvisual : shown.mode.isVisual = true := by decide +kernel
  obtain ⟨hdeleted, hiff⟩ := selected_is_deleted_iff htakes hmem 4 7 .mouse rfl hvisual
  refine ⟨⟨htakes, hmem, hvisual⟩, hdeleted.trans (by decide +kernel), hiff.mpr ?_⟩
  intro other hother hne
  obtain rfl : other = ⟨0⟩ := by
    have hids : shown.editor.caretIds = [⟨0⟩, ⟨1⟩] := by decide +kernel
    rw [hids] at hother
    simpa [hne] using hother
  exact ⟨by decide +kernel, by decide +kernel⟩

/-- If a word is selected at one of two carets, what is deleted is not what is shown, but also the character
at the other caret. -/
theorem deleted_at_other_caret :
    let s := opened {} twoWords [] []
    let shown := (s.gesture (.select ⟨0⟩ 0 3 .mouse)).pump
    s.resolver.hasPending = false ∧ s.dragging = false ∧ shown.mode = .visual .character ∧
      shown.editor.caretIds.map shown.editor.selection? = [some (0, 3), none] ∧
        (shown.handleKey (.char 'd')).2.editor.text = " ef\n".toList ∧
          (shown.handleKey (.char 'd')).2.editor.text ≠ shown.editor.text.without shown.editor.displays := by
  intro s shown
  have hidle : s.resolver.hasPending = false := by decide +kernel
  have hdragging : s.dragging = false := by decide +kernel
  have htakes : s.TakesSelections := foldl_undergo_takesSelections {} twoWords_accounted rfl
    (fun _ hr ↦ absurd hr List.not_mem_nil) [] rfl hidle hdragging (by decide +kernel)
  have hmode : shown.mode = .visual .character := by decide +kernel
  have hdeleted : (shown.handleKey (.char 'd')).2.editor.text = " ef\n".toList :=
    (htakes.text_deleted (by decide +kernel) 0 3 .mouse rfl (by rw [hmode]; rfl)).trans (by decide +kernel)
  refine ⟨hidle, hdragging, hmode, by decide +kernel, hdeleted, ?_⟩
  rw [hdeleted]
  decide +kernel

end Session

end ModalEdit
