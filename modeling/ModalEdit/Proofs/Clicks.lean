import ModalEdit.Proofs.ShownSelections

/-!
Where a click leaves the caret. A click drops the selection of its caret and is reported last
(`Editor.Anchored.userClick_clicked`), and a session that listens to its editor goes on listening, whatever
keys it is given (`Session.Listens.call`). A session that hears of a click leaves the modes that select, with
the caret normalized, and then draws it back from the end of a line (`EditState.Points.click`). Together this
puts the caret where it may rest in the normal mode, but for a click in that mode past a line feed at the end
of the text: behind it no line ends, and there the caret stays (`Text.drawnBack_click`,
`Session.click_rests_iff`).
-/

set_option autoImplicit false
set_option relaxedAutoImplicit false

namespace ModalEdit

/-! ### Ends of lines -/

namespace Text

variable {t : Text} {offset : Nat}

/-- Where a click at an offset leaves a caret that is at a place by then: before the end of a line, and else
where it is. -/
def drawnBack (t : Text) (offset place : Nat) : Nat :=
  if offset = t.lineEnd (t.lineOf offset) ∧ t.lineStart (t.lineOf offset) < offset then offset - 1 else place

/-- Behind the line feed at the end of a text no line ends. -/
theorem lineEnd_of_feed (h : t.getLast? = some '\n') : t.lineEnd (t.lineOf t.length) = t.length - 1 := by
  have hne : t ≠ [] := by
    rintro rfl
    cases h
  have hpos := List.length_pos_of_ne_nil hne
  have hdrawn := normalize_end_of_feed h
  rw [normalize_eq_min] at hdrawn
  have hend : t.lastCaretOffset (t.lineOf t.length) true = t.lineEnd (t.lineOf t.length) := rfl
  omega

/-- The last line of a text that does not end in a line feed ends where the text does. -/
theorem lineEnd_of_no_feed (h : t.getLast? ≠ some '\n') : t.lineEnd (t.lineOf t.length) = t.length := by
  by_cases hnil : t = []
  · subst hnil
    rfl
  have hpos := List.length_pos_of_ne_nil hnil
  have hlast := lineOffset_lastLine_lt hnil
  have hsame : t.lineOf (t.length - 1) = t.lineOf t.length := by
    rw [lineOf_eq_lastLine_iff.mpr (Nat.le_of_lt hlast),
      lineOf_eq_lastLine_iff.mpr (Nat.le_sub_one_of_lt hlast)]
  have hshort : t.length - 1 < t.lineEnd (t.lineOf (t.length - 1)) := by
    refine lt_lineEnd_iff.mpr ⟨t.getLast hnil, ?_, fun hfeed ↦ h ?_⟩
    · rw [charAt, ← List.getLast?_eq_getElem?, List.getLast?_eq_some_getLast hnil]
    · rw [List.getLast?_eq_some_getLast hnil, hfeed]
  have hle := lineEnd_le_length (t.lineOf_lt t.length)
  rw [hsame] at hshort
  omega

theorem normalize_length_lt_of_feed (h : t.getLast? = some '\n') : t.normalize t.length false < t.length := by
  have hne : t ≠ [] := by
    rintro rfl
    cases h
  have hlast := le_length_sub_one (t.normalize_normalize t.length false)
  have hpos := List.length_pos_of_ne_nil hne
  omega

/-- A caret that has been normalized is drawn back no further. -/
theorem drawnBack_normalize (t : Text) (offset : Nat) :
    t.drawnBack offset (t.normalize offset false) = t.normalize offset false := by
  rw [drawnBack, normalize_eq_min, lastCaretOffset, if_neg Bool.false_ne_true]
  split <;> omega

/-- A caret at the offset itself is drawn back to where it may rest, unless a line feed ends the text before
it. -/
theorem drawnBack_self (h : offset ≤ t.length) : t.drawnBack offset offset =
    if t.length ≤ offset ∧ t.getLast? = some '\n' then t.length else t.normalize offset false := by
  have hstart := t.lineStart_lineOf_le offset
  have hwithin (hend : offset ≤ t.lineEnd (t.lineOf offset)) :
      t.drawnBack offset offset = t.normalize offset false := by
    rw [drawnBack, normalize_eq_min, lastCaretOffset, if_neg Bool.false_ne_true]
    split <;> omega
  rcases Nat.lt_or_eq_of_le h with hlt | rfl
  · rw [if_neg fun hpast ↦ Nat.not_le.mpr hlt hpast.1]
    have hkept := normalize_end_of_lt hlt
    rw [normalize_eq_min, lastCaretOffset, if_pos rfl] at hkept
    exact hwithin (by omega)
  · by_cases hfeed : t.getLast? = some '\n'
    · have hend := lineEnd_of_feed hfeed
      have hpos := normalize_length_lt_of_feed hfeed
      rw [if_pos ⟨Nat.le_refl _, hfeed⟩, drawnBack, if_neg (by omega)]
    · rw [if_neg fun hpast ↦ hfeed hpast.2]
      exact hwithin (Nat.le_of_eq (lineEnd_of_no_feed hfeed).symm)

/-- Where a click leaves a caret that is only normalized before if something was left. -/
theorem drawnBack_click (t : Text) (offset : Nat) (stays : Prop) [Decidable stays] :
    t.drawnBack (min offset t.length)
        (if stays then min offset t.length else t.normalize (min offset t.length) false) =
      if stays ∧ t.length ≤ offset ∧ t.getLast? = some '\n' then t.length
      else t.normalize (min offset t.length) false := by
  by_cases hstays : stays
  · rw [if_pos hstays, drawnBack_self (Nat.min_le_right offset t.length)]
    refine if_congr ?_ rfl rfl
    rw [Nat.le_min, and_iff_left (Nat.le_refl t.length), and_iff_right hstays]
  · rw [if_neg hstays, if_neg fun hpast ↦ hstays hpast.1, drawnBack_normalize]

end Text

/-! ### What a click does to the editor -/

namespace Editor

variable {e after : Editor} {caret : CaretId} {offset : Nat}

/-- A click puts the caret somewhere, drops its selection, and is reported. -/
theorem Anchored.userClick_eq (h : e.Anchored) {marks : CaretMarks} (hmarks : (caret, marks) ∈ e.carets)
    (offset clicks : Nat) :
    e.userClick caret offset clicks =
      (Editor.collapseSelection { e with buffer := e.buffer.setMark marks.head offset } caret
        (min offset e.text.length) .mouse).emit (.mouseClicked caret (min offset e.text.length) clicks) := by
  unfold userClick setHead
  rw [(lookup_iff_mem h.toSound).mpr hmarks]
  simp only [markOffset?, setMark_of_live (h.live_of_mem hmarks marks.head_mem_all)]

theorem Anchored.collapseSelection_deselects (h : e.Anchored) (caret : CaretId) (offset : Nat)
    (source : EventSource) : Deselects caret e (e.collapseSelection caret offset source) := by
  have hcleared := h.clearSelection_deselects caret
  unfold collapseSelection
  split
  · next he =>
    rw [he] at hcleared
    exact hcleared
  · next he =>
    rw [he] at hcleared
    exact hcleared.emit _

theorem collapseSelection_text (e : Editor) (caret : CaretId) (offset : Nat) (source : EventSource) :
    (e.collapseSelection caret offset source).text = e.text := by
  unfold collapseSelection clearSelection
  split <;> next he =>
    split at he <;> cases he
    rfl

theorem collapseSelection_caretIds (e : Editor) (caret : CaretId) (offset : Nat) (source : EventSource) :
    (e.collapseSelection caret offset source).caretIds = e.caretIds := by
  have hcleared := e.clearSelection_sameCarets caret
  unfold collapseSelection
  split <;> next he =>
    rw [he] at hcleared
    exact hcleared.ids

/-- Reports are listened for. -/
def Hears (e : Editor) : Prop := e.listener.isSome = true

theorem Hears.emit (h : e.Hears) (event : EditorEvent) : (e.emit event).Hears := by
  rw [Hears, Editor.emit, Option.isSome_map]
  exact h

/-- What the mouse does is reported even while the guard is locked. -/
theorem Hears.emit_reported (h : e.Hears) {event : EditorEvent} (hpasses : event.isSuppressible = false) :
    (e.emit event).reported = e.reported ++ [event] := by
  obtain ⟨listener, hlistener⟩ := Option.isSome_iff_exists.mp h
  rw [reported, reported, Editor.emit, hlistener]
  dsimp only [Option.map_some, Option.getD_some, Listener.notify]
  rw [hpasses]
  rfl

theorem emit_reported_or (e : Editor) (event : EditorEvent) :
    (e.emit event).reported = e.reported ∨ (e.emit event).reported = e.reported ++ [event] := by
  rw [reported, reported, Editor.emit]
  cases e.listener with
  | none => exact .inl rfl
  | some listener =>
    dsimp only [Option.map_some, Option.getD_some, Listener.notify]
    split
    · exact .inl rfl
    · exact .inr rfl

theorem clearSelection_listener (e : Editor) (caret : CaretId) :
    (e.clearSelection caret).2.listener = e.listener := by
  unfold clearSelection
  split <;> rfl

theorem Hears.collapseSelection (h : e.Hears) (caret : CaretId) (offset : Nat) (source : EventSource) :
    (e.collapseSelection caret offset source).Hears := by
  have hcleared : (e.clearSelection caret).2.Hears := by
    rw [Hears, clearSelection_listener]
    exact h
  unfold Editor.collapseSelection
  split
  · next he =>
    rw [he] at hcleared
    exact hcleared
  · next he =>
    rw [he] at hcleared
    exact hcleared.emit _

/-- Of a selection that is dropped there may be a report. -/
theorem collapseSelection_reported (e : Editor) (caret : CaretId) (offset : Nat) (source : EventSource) :
    (e.collapseSelection caret offset source).reported = e.reported ∨
      (e.collapseSelection caret offset source).reported =
        e.reported ++ [.selectionChanged caret offset offset source] := by
  have hcleared : (e.clearSelection caret).2.reported = e.reported := by
    rw [reported, clearSelection_listener, reported]
  unfold collapseSelection
  split
  · next he =>
    rw [he] at hcleared
    exact .inl hcleared
  · next he =>
    rw [he] at hcleared
    rw [← hcleared]
    exact emit_reported_or _ _

theorem selection?_of_notMem (hmem : caret ∉ e.caretIds) : e.selection? caret = none := by
  rw [selection?, CaretTable.lookup_eq_none_of_notMem hmem]
  rfl

/-- Where a click leaves its caret, with nothing selected and the click reported last. -/
structure Clicked (caret : CaretId) (place clicks : Nat) (before after : Editor) : Prop where
  anchored : after.Anchored
  text : after.text = before.text
  ids : after.caretIds = before.caretIds
  offset : after.caretOffset? caret = some place
  selection : after.selection? caret = none
  reported : after.reported = before.reported ++ [.mouseClicked caret place clicks] ∨
    after.reported =
      before.reported ++ [.selectionChanged caret place place .mouse, .mouseClicked caret place clicks]

theorem Anchored.userClick_clicked (h : e.Anchored) (hmem : caret ∈ e.caretIds) (hhears : e.Hears)
    (offset clicks : Nat) :
    Clicked caret (min offset e.text.length) clicks e (e.userClick caret offset clicks) := by
  obtain ⟨marks, hmarks⟩ := exists_marks hmem
  rw [h.userClick_eq hmarks]
  generalize hplaced : { e with buffer := e.buffer.setMark marks.head offset } = placed
  have hanchored : placed.Anchored := hplaced ▸ h.setMark marks.head offset
  have hoffset : placed.caretOffset? caret = some (min offset e.text.length) := by
    rw [← setMark_of_live (h.live_of_mem hmarks marks.head_mem_all), ← hplaced]
    exact caretOffset?_of_lookup ((lookup_iff_mem h.toSound).mpr hmarks)
  have hdropped := (hanchored.collapseSelection_deselects caret (min offset e.text.length) .mouse)
  have hheard : placed.Hears := hplaced ▸ hhears
  have hclick := (hheard.collapseSelection caret (min offset e.text.length) .mouse).emit_reported
    (show (EditorEvent.mouseClicked caret (min offset e.text.length) clicks).isSuppressible = false from rfl)
  have hsame : placed.reported = e.reported := hplaced ▸ rfl
  refine ⟨(hdropped.emit _).anchored, ?_, ?_, (hdropped.emit _).offset.trans hoffset,
    (hdropped.emit _).selection, ?_⟩
  · exact (collapseSelection_text placed caret _ _).trans (hplaced ▸ rfl)
  · exact (collapseSelection_caretIds placed caret _ _).trans (hplaced ▸ rfl)
  · rcases collapseSelection_reported placed caret (min offset e.text.length) .mouse with hnone | hsome
    · exact .inl (by rw [hclick, hnone, hsame])
    · exact .inr (by rw [hclick, hsome, hsame, List.append_assoc]; rfl)

/-! ### Who listens goes on listening -/

theorem Edit.hears (h : Edit e after) (he : e.Hears) : after.Hears := by
  cases h with
  | move hmove =>
    cases hmove with
    | bell => exact he
    | moveCaret caret offset =>
      have hplaced : (e.setHead caret offset).2.Hears := by
        unfold setHead
        split <;> exact he
      unfold moveCaret
      split
      · next heq =>
        rw [heq] at hplaced
        exact hplaced
      · next heq =>
        rw [heq] at hplaced
        exact hplaced.emit _
    | setSelection caret a b =>
      have hstored : (e.storeSelection caret a b).Hears := by
        unfold storeSelection
        split <;> exact he
      unfold setSelection
      dsimp only
      split
      · exact hstored.emit _
      · exact hstored
    | removeSelection caret =>
      have hcleared : (e.clearSelection caret).2.Hears := by
        rw [Hears, clearSelection_listener]
        exact he
      unfold removeSelection
      split
      · next heq =>
        rw [heq] at hcleared
        exact hcleared
      · next heq =>
        rw [heq] at hcleared
        exact hcleared.emit _
  | eraseRange | insertText | createMark | releaseMark | record => exact he

end Editor

namespace EditState

variable {s : EditState}

theorem Steps.hears {t : EditState} (hsteps : Edits s t) (h : s.editor.Hears) : t.editor.Hears :=
  hsteps.keeps_editor Editor.Edit.hears h

theorem guarded_hears {α : Type} {f : EditState → α × EditState} (hf : Edits s.prepared (f s.prepared).2)
    (h : s.editor.Hears) : (s.guarded f).2.editor.Hears := hf.hears (s := s.prepared) h

theorem apply_hears {registry : Registry} (hregistry : registry.MadeOfSteps) (options : Options)
    (operatorPending : Bool) (outcome : Outcome) (h : s.editor.Hears) :
    (s.apply registry options operatorPending outcome).2.editor.Hears := by
  have hsynced : (s.syncOperatorMode operatorPending).editor.Hears := by
    rw [syncOperatorMode_eq]
    exact h
  unfold EditState.apply
  cases outcome with
  | pending => exact hsynced
  | resolved command =>
    exact guarded_hears (f := (·.execute registry options command)) (execute_edits hregistry _ _ _) hsynced
  | cancelled => exact guarded_hears (f := fun t ↦ ((), t.cancel)) (cancel_moves _).edits hsynced
  | unmapped keys =>
    dsimp only
    split
    · exact guarded_hears (f := (·.typeKeys keys)) (typeKeys_edits _ keys) hsynced
    · exact Steps.hears (bell_moves _).edits hsynced

/-! ### What is done about a click -/

/-- One caret stands at a place, and nothing is selected. -/
structure Points (s : EditState) (caret : CaretId) (place : Nat) : Prop extends Lone s caret place where
  coherent : s.modes.Coherent
  unselected : s.editor.Unselected

/-- The modes that selections end in are left for the normal mode. -/
def leaveSelecting (s : EditState) : EditState :=
  if s.mode.isVisual || s.mode.isSelect then s.exitToNormal else s

/-- The mode is the normal one, or one of those that select. -/
def Commanding (s : EditState) : Prop := s.mode = .normal ∨ s.mode.isVisual = true ∨ s.mode.isSelect = true

variable {caret : CaretId} {place : Nat}

theorem Points.withGuard (h : s.Points caret place) (guard : SuppressionGuard) :
    Points { s with editor := { s.editor with guard } } caret place :=
  ⟨h.toLone.withGuard guard, h.coherent, h.unselected⟩

theorem Points.prepared (h : s.Points caret place) : s.prepared.Points caret place :=
  ⟨h.toLone.prepared, h.coherent, h.unselected⟩

theorem Points.moveCaret (h : s.Points caret place) (target : Nat) :
    (s.moveCaret caret target).Points caret (min target s.text.length) := by
  refine ⟨h.toLone.moveCaret target, h.coherent, ?_⟩
  show (s.editor.moveCaret caret target).Unselected
  unfold Editor.Unselected
  rw [s.editor.moveCaret_carets]
  exact h.unselected

theorem Points.exitToNormal (h : s.Points caret place) :
    s.exitToNormal.Points caret (s.text.normalize place false) := by
  have hplain := exitToNormal_plain h.toAnchored h.coherent
  have hleft := (h.toLone.clearSelections.withModes s.clearSelections.modes.resetToNormal).moveAll
    fun t offset ↦ t.normalize offset false
  have htext : s.clearSelections.text = s.text := s.clearSelections_moves.rearranges.editor.text
  refine ⟨?_, hplain.coherent, hplain.unselected⟩
  have hplace : min (s.clearSelections.text.normalize place false) s.clearSelections.text.length =
      s.text.normalize place false := by
    rw [htext, Nat.min_eq_left (s.text.normalize_le_length place false)]
  exact hplace ▸ hleft

/-- In the normal mode the caret stays, and on the way there it is normalized. -/
theorem Points.leaveSelecting (h : s.Points caret place) (hmode : s.Commanding) :
    s.leaveSelecting.Points caret (if s.mode = .normal then place else s.text.normalize place false) ∧
      s.leaveSelecting.mode = .normal ∧ s.leaveSelecting.text = s.text := by
  unfold EditState.leaveSelecting
  by_cases hnormal : s.mode = .normal
  · rw [if_pos hnormal, hnormal]
    exact ⟨h, hnormal, rfl⟩
  · have hselects : (s.mode.isVisual || s.mode.isSelect) = true := by
      rw [Bool.or_eq_true]
      exact hmode.resolve_left hnormal
    rw [if_neg hnormal, if_pos hselects]
    exact ⟨h.exitToNormal, exitToNormal_mode h.coherent, s.exitToNormal_moves.rearranges.editor.text⟩

/-- Without a selection to follow, the modes that select are left. -/
theorem Points.adoptSelection_eq (h : s.Points caret place) (options : Options) (other : CaretId)
    (source : EventSource) : s.adoptSelection options other source = s.leaveSelecting := by
  unfold EditState.adoptSelection
  rw [h.unselected.selection? other]
  rfl

/-- A click leaves the modes that select, and draws the caret back from the end of a line. -/
theorem Points.click (h : s.Points caret place) (hmode : s.Commanding) (offset : Nat)
    (hoffset : offset ≤ s.text.length) :
    (s.click caret offset).Points caret
        (s.text.drawnBack offset (if s.mode = .normal then place else s.text.normalize place false)) ∧
      (s.click caret offset).mode = .normal ∧ (s.click caret offset).text = s.text := by
  obtain ⟨hleft, hnormal, htext⟩ := h.leaveSelecting hmode
  unfold EditState.click
  rw [show (if s.mode.isVisual || s.mode.isSelect then s.exitToNormal else s) = s.leaveSelecting from rfl]
  generalize s.leaveSelecting = left at hleft hnormal htext
  dsimp only
  rw [if_neg (by rw [hnormal]; simp), htext, Text.drawnBack]
  split
  · have hmoved := hleft.moveCaret (offset - 1)
    rw [htext, Nat.min_eq_left (by omega)] at hmoved
    exact ⟨hmoved, hnormal, (moveCaret_touches hleft.toAnchored caret _).text.trans htext⟩
  · exact ⟨hleft, hnormal, htext⟩

end EditState

namespace Session

/-- A session with the standard actions that listens to its editor and has been told nothing. -/
structure Listens (s : Session) : Prop where
  registry : s.registry = .standard
  hears : s.editor.Hears
  reported : s.editor.reported = []

variable {s : Session}

theorem Listens.act (h : s.Listens) (result : Outcome × Resolver) : (s.act result).2.Listens where
  registry := h.registry
  hears := EditState.apply_hears (by rw [h.registry]; exact Registry.standard_madeOfSteps) _ _ _ h.hears
  reported := (act_reported (by rw [h.registry]; exact Registry.standard_orderly) result).trans h.reported

theorem Listens.readNext (h : s.Listens) : s.readNext.Listens := by
  cases hinput : s.resolver.input with
  | nil => rwa [readNext_of_nil hinput]
  | cons stroke rest =>
    rw [readNext_of_cons hinput]
    exact h.act _

/-- What keys do is done with the guard locked, so that nothing is reported, and who listens goes on
listening. -/
theorem Listens.call (h : s.Listens) (c : KeyCall) : (s.call c).Listens := by
  refine call_keeps (P := Listens) (fun t c ht ↦ ?_) (fun _ ht ↦ ht.readNext) h c
  cases c with
  | key stroke =>
    show (t.pump.enqueue stroke).Listens
    rw [pump_of_reported_nil ht.reported]
    exact ⟨ht.registry, ht.hears, ht.reported⟩
  | flush => exact ht.act _

/-! ### Reports of a click -/

section Reports

variable {caret : CaretId} {place : Nat}

theorem handleEvent_clicked (h : s.edit.Points caret place) (hmode : s.edit.Commanding) (offset : Nat)
    (hoffset : offset ≤ s.edit.text.length) :
    let t := s.handleEvent (.mouseClicked caret offset 1)
    t.edit.Points caret (s.edit.text.drawnBack offset
        (if s.mode = .normal then place else s.edit.text.normalize place false)) ∧
      t.mode = .normal ∧ t.edit.text = s.edit.text := by
  obtain ⟨hclicked, hnormal, htext⟩ := h.prepared.click hmode offset hoffset
  exact ⟨hclicked.withGuard _, hnormal, htext⟩

theorem handleEvent_unselected (h : s.edit.Points caret place) (hmode : s.edit.Commanding) (start stop : Nat)
    (source : EventSource) :
    let t := s.handleEvent (.selectionChanged caret start stop source)
    t.edit.Points caret (if s.mode = .normal then place else s.edit.text.normalize place false) ∧
      t.mode = .normal ∧ t.edit.text = s.edit.text := by
  obtain ⟨hleft, hnormal, htext⟩ := h.prepared.leaveSelecting hmode
  have hadopted := h.prepared.adoptSelection_eq s.options caret source
  intro t
  have hedit : t.edit = s.edit.prepared.leaveSelecting.unlock s.edit.lock.1 := by
    rw [← hadopted]
    rfl
  show t.edit.Points _ _ ∧ t.edit.mode = _ ∧ _
  rw [hedit]
  exact ⟨hleft.withGuard _, hnormal, htext⟩

/-- Whether a selection was dropped or not, the reports lead to the same. -/
theorem foldl_handleEvent_click (h : s.edit.Points caret place) (hmode : s.edit.Commanding)
    {events : List EditorEvent} (hevents : events = [.mouseClicked caret place 1] ∨
      events = [.selectionChanged caret place place .mouse, .mouseClicked caret place 1]) :
    let t := events.foldl handleEvent s
    t.edit.Points caret (s.edit.text.drawnBack place
        (if s.mode = .normal then place else s.edit.text.normalize place false)) ∧
      t.mode = .normal ∧ t.edit.text = s.edit.text := by
  rcases hevents with rfl | rfl
  · exact handleEvent_clicked h hmode place h.le
  · obtain ⟨hleft, hnormal, htext⟩ := handleEvent_unselected h hmode place place .mouse
    have hle : place ≤ (s.handleEvent (.selectionChanged caret place place .mouse)).edit.text.length :=
      htext ▸ h.le
    obtain ⟨hclicked, hdone, hsame⟩ := handleEvent_clicked hleft (.inl hnormal) place hle
    rw [if_pos hnormal, htext] at hclicked
    exact ⟨hclicked, hdone, hsame.trans htext⟩

/-- What a session hears of a click. -/
theorem Listens.click_reports (h : s.Listens) (hlone : s.edit.Lone caret place) (offset : Nat) :
    let target := min offset s.edit.text.length
    let events := (s.gesture (.click caret offset 1)).editor.takeEvents.1
    events = [.mouseClicked caret target 1] ∨
      events = [.selectionChanged caret target target .mouse, .mouseClicked caret target 1] := by
  intro target events
  have hreported := (hlone.editor.userClick_clicked hlone.mem h.hears offset 1).reported
  rw [show s.edit.editor.reported = [] from h.reported] at hreported
  rw [show events = (s.editor.userClick caret offset 1).reported from Editor.takeEvents_fst _]
  exact hreported

/-- How a click leaves the state before anything is done about it. -/
theorem Listens.click_points (h : s.Listens) (hlone : s.edit.Lone caret place)
    (hcoherent : s.edit.modes.Coherent) (offset : Nat) :
    let made := s.gesture (.click caret offset 1)
    let heard := made.withEditor made.editor.takeEvents.2
    heard.edit.Points caret (min offset s.edit.text.length) ∧ heard.mode = s.mode ∧
      heard.edit.text = s.edit.text := by
  intro made heard
  have hclicked := hlone.editor.userClick_clicked hlone.mem h.hears offset 1
  obtain ⟨listener, htaken⟩ := made.editor.takeEvents_eq
  have hedit : heard.edit = { s.edit with editor := { s.editor.userClick caret offset 1 with listener } } :=
    congrArg (fun editor ↦ { s.edit with editor }) htaken
  show heard.edit.Points _ _ ∧ heard.edit.mode = _ ∧ _
  rw [hedit]
  have hlive : (s.editor.userClick caret offset 1).Anchored := hclicked.anchored
  have hids : (s.editor.userClick caret offset 1).caretIds = [caret] := hclicked.ids.trans hlone.ids
  have hunselected : (s.editor.userClick caret offset 1).Unselected := by
    refine hlive.unselected fun other ↦ ?_
    by_cases hother : other = caret
    · exact hother ▸ hclicked.selection
    · exact Editor.selection?_of_notMem (by rwa [hids, List.mem_singleton])
  exact ⟨⟨⟨⟨hlive.of_buffer rfl rfl rfl, hlone.carets⟩, hids, hclicked.offset⟩, hcoherent, hunselected⟩, rfl,
    hclicked.text⟩

/-- A click in a session that listens to its editor. -/
theorem Listens.pump_click (h : s.Listens) (hlone : s.edit.Lone caret place)
    (hcoherent : s.edit.modes.Coherent) (hmode : s.edit.Commanding) (offset : Nat) :
    let target := min offset s.edit.text.length
    let t := (s.gesture (.click caret offset 1)).pump
    t.edit.Points caret (s.edit.text.drawnBack target
        (if s.mode = .normal then target else s.edit.text.normalize target false)) ∧
      t.mode = .normal ∧ t.edit.text = s.edit.text := by
  obtain ⟨hpoints, hsame, htext⟩ := h.click_points hlone hcoherent offset
  have hevents := h.click_reports hlone offset
  have hcommanding : EditState.Commanding ((s.gesture (.click caret offset 1)).withEditor
      (s.gesture (.click caret offset 1)).editor.takeEvents.2).edit := by
    rw [EditState.Commanding, show EditState.mode _ = s.edit.mode from hsame]
    exact hmode
  have hdone := foldl_handleEvent_click hpoints hcommanding hevents
  rw [hsame, htext] at hdone
  exact hdone

end Reports

/-! ### Runs of keys -/

/-- A session that listens to a tidy editor. -/
structure Awaits (s : Session) : Prop extends Listens s where
  sound : s.Sound
  accounted : s.editor.Accounted []
  coherent : s.edit.modes.Coherent

theorem Awaits.call (h : s.Awaits) (c : KeyCall) :
    (s.call c).Awaits ∧ (s.call c).editor.caretIds = s.editor.caretIds := by
  have horderly : s.registry.Orderly := by
    rw [h.registry]
    exact Registry.standard_orderly
  refine ⟨⟨h.toListens.call c, h.sound.receive (.call c), ?_, call_coherent horderly h.coherent c⟩, ?_⟩
  · exact (Editor.accounted_lasting.call ⟨h.registry, h.accounted⟩ c).2
  · exact ((Editor.sameCarets_lasting s.editor).call ⟨h.registry, .refl _⟩ c).2.ids

theorem opened_awaits (options : Options) (document : Document) (early late : List Remap) :
    (opened options document.editor.attachListener early late).Awaits ∧
      (opened options document.editor.attachListener early late).editor.caretIds =
        document.editor.caretIds := by
  have hregistry := opened_registry options document.editor.attachListener early late
  have hedit := opened_edit options document.editor.attachListener early late
  have haccounted : document.editor.attachListener.Accounted [] :=
    document.editor_accounted.of_buffer rfl rfl rfl
  rw [Session.editor, hedit]
  refine ⟨⟨⟨hregistry, ?_, ?_⟩, ⟨?_, ?_⟩, ?_, ?_⟩, rfl⟩
  · rw [Session.editor, hedit]
    rfl
  · rw [Session.editor, hedit]
    rfl
  · rw [hregistry]
    exact Registry.standard_madeOfSteps
  · rw [hedit]
    exact ⟨haccounted.toSound, List.nodup_nil⟩
  · rwa [Session.editor, hedit]
  · rw [hedit]
    rfl

/-- However keys have led to the normal mode or one that selects, a click in a document with one caret leads
to the normal mode, and nothing is selected any more. The caret is then normalized from where the click was,
drawn into the text, if and only if the click was not in the normal mode and past a line feed at the end of
the text; there it stays behind it. -/
theorem click_rests_iff (options : Options) (document : Document) (early late : List Remap) {caret : CaretId}
    (hids : document.editor.caretIds = [caret]) (calls : List KeyCall) (s : Session)
    (hs : calls.foldl call (opened options document.editor.attachListener early late) = s)
    (hmode : s.mode = .normal ∨ s.mode.isVisual = true ∨ s.mode.isSelect = true) (offset : Nat) :
    let text := s.editor.text
    let target := text.normalize (min offset text.length) false
    let t := (s.gesture (.click caret offset 1)).pump
    let pastFeed := s.mode = .normal ∧ text.length ≤ offset ∧ text.getLast? = some '\n'
    t.mode = .normal ∧ (∀ other, t.editor.selection? other = none) ∧ t.editor.text = text ∧
      t.editor.caretOffset? caret = some (if pastFeed then text.length else target) ∧
      (t.editor.caretOffset? caret = some target ↔ ¬ pastFeed) := by
  intro text target t pastFeed
  have hrun : s.Awaits ∧ s.editor.caretIds = document.editor.caretIds := by
    rw [← hs]
    exact List.foldlRecOn (motive := fun t : Session ↦ t.Awaits ∧ t.editor.caretIds = _) calls call
      (opened_awaits options document early late) fun t ht c _ ↦
        ⟨(ht.1.call c).1, (ht.1.call c).2.trans ht.2⟩
  obtain ⟨hawaits, hsame⟩ := hrun
  have hanchored : s.edit.Anchored := ⟨hawaits.accounted.toAnchored, hawaits.sound.edit.carets⟩
  obtain ⟨_, hlone⟩ := EditState.exists_lone hanchored (hsame.trans hids)
  obtain ⟨hpoints, hnormal, htext⟩ := hawaits.pump_click hlone hawaits.coherent hmode offset
  have hstands : t.editor.caretOffset? caret = some (if pastFeed then text.length else target) :=
    hpoints.stands.trans (congrArg some (text.drawnBack_click offset (s.mode = .normal)))
  refine ⟨hnormal, hpoints.unselected.selection?, htext, hstands, ?_⟩
  rw [hstands, Option.some.injEq]
  by_cases hpast : pastFeed
  · have hshort : target < text.length := by
      have hdrawn := Text.normalize_length_lt_of_feed hpast.2.2
      show text.normalize (min offset text.length) false < text.length
      rwa [Nat.min_eq_right hpast.2.1]
    rw [if_pos hpast]
    exact iff_of_false (Nat.ne_of_gt hshort) (not_not.mpr hpast)
  · rw [if_neg hpast]
    exact iff_of_true rfl hpast

/-- A click past the end of a text gives up a selection and puts the caret on the last character. -/
theorem click_past_end_of_selection :
    let document := Document.plain "ab\ncd\n".toList
    let s := [KeyCall.key (.char 'v')].foldl call (opened {} document.editor.attachListener [] [])
    let t := (s.gesture (.click ⟨0⟩ 9 1)).pump
    document.editor.caretIds = [⟨0⟩] ∧ s.mode = .visual .character ∧ t.mode = .normal ∧
      (∀ other, t.editor.selection? other = none) ∧ t.editor.caretOffset? ⟨0⟩ = some 4 := by
  intro document s t
  generalize hopened : opened {} document.editor.attachListener [] [] = first
  have hedit : first.edit = { editor := document.editor.attachListener } := by rw [← hopened, opened_edit]
  have hnormal : first.mode = .normal := by
    rw [Session.mode, hedit]
    rfl
  have htakes : first.TakesCommands := by
    refine ⟨?_, ?_, ?_, ?_, ?_, ?_, .inl hnormal⟩
    · rw [← hopened, opened_keymap]
    · rw [← hopened, opened_registry]
    · rw [← hopened, opened_resolver]
      rfl
    · rw [← hopened, opened_resolver]
    · rw [Session.editor, hedit]
      rfl
    · rw [hedit]
      rfl
  have hlone : first.edit.Lone ⟨0⟩ 0 := by
    rw [hedit]
    exact ⟨⟨(Editor.ofText_accounted _).toAnchored.of_buffer rfl rfl rfl, List.nodup_nil⟩, rfl, rfl⟩
  obtain ⟨hextends, htext, -⟩ := htakes.startSelection hnormal hlone
  have hkeys : s = (first.handleAll [.char 'v']).2 := by
    show [KeyCall.key (.char 'v')].foldl call (opened {} document.editor.attachListener [] []) = _
    rw [hopened, handleAll_snd]
    rfl
  have hmode : s.mode = .visual .character := hkeys ▸ hextends.selects.mode
  have hsame : s.editor.text = "ab\ncd\n".toList := by
    rw [hkeys, htext, Session.editor, hedit]
    rfl
  have hids : document.editor.caretIds = [⟨0⟩] := rfl
  obtain ⟨hleft, hnone, -, -, hrests⟩ :=
    click_rests_iff {} document [] [] hids _ s rfl (.inr (.inl (by rw [hmode]; rfl))) 9
  have hplace := hrests.mpr fun hpast ↦ Mode.noConfusion (hmode.symm.trans hpast.1)
  rw [hsame] at hplace
  exact ⟨hids, hmode, hleft, hnone, hplace.trans (by decide +kernel)⟩

/-- In the normal mode, a click past a line feed at the end of the text leaves the caret behind it, where it
may not rest. -/
theorem click_past_last_feed :
    let s := opened {} (Document.plain "abc\n".toList).editor.attachListener [] []
    let t := (s.gesture (.click ⟨0⟩ 4 1)).pump
    s.mode = .normal ∧ s.resolver.hasPending = false ∧ t.mode = .normal ∧
      t.editor.caretOffset? ⟨0⟩ = some 4 ∧
        t.editor.text.normalize (min 4 t.editor.text.length) false = 2 := by
  decide +kernel

end Session

end ModalEdit
