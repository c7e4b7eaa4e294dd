import Mathlib.Data.List.Sort
import ModalEdit.Proofs.InsertTyping
import ModalEdit.Proofs.LoneSelection
import ModalEdit.Proofs.SpanUnion

/-!
Typing in a select mode. First what the carets select is taken out, one caret after the other, which carries
the selections of the others along and leaves each caret where its own began (`EditState.Emptied`). Then the
selections are dropped, and the character goes in at every caret, from the last to the first
(`EditState.exists_order_insertAtCarets`). Selections that touch leave their carets at one place, in any
order, which does not matter since all type the same (`Text.foldr_insert_eq_weave`). So the text is the one
with the character in place of each selection (`Session.typing_replaces_selections`).
-/

set_option autoImplicit false
set_option relaxedAutoImplicit false

namespace ModalEdit

namespace Text

/-! ### Spans replaced -/

/-- From an offset on, a text with a character put in at some offsets, once each time that one of them is
listed, and without the characters at others. -/
def weaveFrom (starts : List Nat) (gone : Nat → Bool) (c : Char) : Nat → Text → Text
  | offset, [] => List.replicate (starts.count offset) c
  | offset, old :: rest => List.replicate (starts.count offset) c ++ leaveOut gone offset old ++
      weaveFrom starts gone c (offset + 1) rest

/-- Whether an offset lies in one of some spans, given by their starts and ends. -/
def covered (spans : List (Nat × Nat)) (offset : Nat) : Bool :=
  spans.any fun span ↦ span.1 ≤ offset && offset < span.2

theorem covered_cons (span : Nat × Nat) (rest : List (Nat × Nat)) (offset : Nat) :
    covered (span :: rest) offset = ((span.1 ≤ offset && offset < span.2) || covered rest offset) := rfl

/-- The text with a character in place of each of some spans: it stands where the span began, and what was
in the span is left out. -/
def replaceSpans (t : Text) (spans : List (Nat × Nat)) (c : Char) : Text :=
  weaveFrom (spans.map (·.1)) (covered spans) c 0 t

section Weave

variable {starts more : List Nat} {gone left : Nat → Bool} {c : Char}

/-- Where nothing is put in, characters are only left out. -/
theorem weaveFrom_append (offset : Nat) (front back : Text)
    (hnone : ∀ start ∈ starts, offset ≤ start → offset + front.length ≤ start) :
    weaveFrom starts gone c offset (front ++ back) =
      replaceEachFrom offset front (leaveOut gone) ++
        weaveFrom starts gone c (offset + front.length) back := by
  induction front generalizing offset with
  | nil => rfl
  | cons old rest ih =>
    have hhere : starts.count offset = 0 := List.count_eq_zero.mpr fun hmem ↦ by
      have hlater := hnone offset hmem (Nat.le_refl offset)
      rw [List.length_cons] at hlater
      omega
    rw [List.cons_append, weaveFrom, hhere, ih (offset + 1) fun start hmem hle ↦ by
      have hlater := hnone start hmem (Nat.le_of_succ_le hle)
      rw [List.length_cons] at hlater
      omega]
    rw [replaceEachFrom_cons, List.length_cons, Nat.add_assoc, Nat.add_comm 1, List.replicate_zero,
      List.nil_append, List.append_assoc]

/-- Only what is said of the offsets from there on matters. -/
theorem weaveFrom_congr (offset : Nat) (t : Text)
    (hcount : ∀ place, offset ≤ place → starts.count place = more.count place)
    (hgone : ∀ place, offset ≤ place → gone place = left place) :
    weaveFrom starts gone c offset t = weaveFrom more left c offset t := by
  induction t generalizing offset with
  | nil => exact congrArg (List.replicate · c) (hcount offset (Nat.le_refl offset))
  | cons old rest ih =>
    have hrest := ih (offset + 1) (fun place hle ↦ hcount place (Nat.le_of_succ_le hle))
      fun place hle ↦ hgone place (Nat.le_of_succ_le hle)
    rw [weaveFrom, weaveFrom, hcount offset (Nat.le_refl offset), leaveOut, leaveOut,
      hgone offset (Nat.le_refl offset), hrest]

/-- What is put in once more at the first offset comes first. -/
theorem weaveFrom_cons_start (offset : Nat) (t : Text) :
    weaveFrom (offset :: starts) gone c offset t = c :: weaveFrom starts gone c offset t := by
  cases t with
  | nil =>
    rw [weaveFrom, weaveFrom, List.count_cons_self, List.replicate_succ]
  | cons old rest =>
    have hrest : weaveFrom (offset :: starts) gone c (offset + 1) rest =
        weaveFrom starts gone c (offset + 1) rest :=
      weaveFrom_congr (offset + 1) rest
        (fun place hle ↦ List.count_cons_of_ne (Nat.ne_of_lt hle)) fun _ _ ↦ rfl
    rw [weaveFrom, weaveFrom, hrest, List.count_cons_self, List.replicate_succ]
    rfl

theorem weaveFrom_perm (h : starts.Perm more) (gone : Nat → Bool) (c : Char) (offset : Nat) (t : Text) :
    weaveFrom starts gone c offset t = weaveFrom more gone c offset t :=
  weaveFrom_congr offset t (fun place _ ↦ h.count_eq place) fun _ _ ↦ rfl

/-- With nothing to put in before an offset, a text is cut there. -/
theorem weaveFrom_zero_split {t : Text} {offset : Nat} (hle : offset ≤ t.length)
    (hafter : ∀ start ∈ starts, offset ≤ start) :
    weaveFrom starts gone c 0 t =
      replaceEach (t.take offset) (leaveOut gone) ++ weaveFrom starts gone c offset (t.drop offset) := by
  have hlength : (t.take offset).length = offset := by rw [List.length_take, Nat.min_eq_left hle]
  conv_lhs => rw [← List.take_append_drop offset t]
  rw [weaveFrom_append 0 (t.take offset) _ fun start hmem _ ↦ by
    rw [hlength, Nat.zero_add]
    exact hafter start hmem]
  rw [hlength, Nat.zero_add]
  rfl

/-- With nothing to put in at all, characters are only left out. -/
theorem weaveFrom_nil (t : Text) (gone : Nat → Bool) (c : Char) :
    weaveFrom [] gone c 0 t = t.without gone := by
  rw [weaveFrom_zero_split (Nat.le_refl t.length) fun _ hmem ↦ absurd hmem List.not_mem_nil,
    List.take_length, List.drop_length, without_eq_replaceEach]
  exact List.append_nil _

/-- What goes in at the places of offsets, from the last to the first, when the characters are gone. -/
theorem foldr_insert_eq_weave {t : Text} (hsorted : starts.Pairwise (· ≤ ·))
    (hle : ∀ start ∈ starts, start ≤ t.length) (gone : Nat → Bool) (c : Char) :
    starts.foldr (fun start u ↦ Text.insert u (t.placeAt (leaveOut gone) start) [c]) (t.without gone) =
      weaveFrom starts gone c 0 t := by
  induction starts with
  | nil => exact (weaveFrom_nil t gone c).symm
  | cons start rest ih =>
    obtain ⟨hfirst, hrest⟩ := List.pairwise_cons.mp hsorted
    obtain ⟨hstart, hlater⟩ := List.forall_mem_cons.mp hle
    rw [List.foldr_cons, ih hrest hlater, weaveFrom_zero_split hstart hfirst,
      weaveFrom_zero_split hstart (List.forall_mem_cons.mpr ⟨Nat.le_refl start, hfirst⟩),
      weaveFrom_cons_start, Text.insert, placeAt, List.take_left, List.drop_left, List.append_assoc]
    rfl

end Weave

theorem replaceSpans_perm {t : Text} {spans other : List (Nat × Nat)} (h : spans.Perm other) (c : Char) :
    t.replaceSpans spans c = t.replaceSpans other c := by
  have hcovered : covered spans = covered other := funext fun _ ↦ h.any_eq
  rw [replaceSpans, replaceSpans, hcovered]
  exact weaveFrom_perm (h.map _) _ c 0 t

/-- Nothing is left out where no span is. -/
theorem take_of_not_covered {t : Text} {spans : List (Nat × Nat)} {offset : Nat}
    (hafter : ∀ span ∈ spans, offset ≤ span.1) :
    replaceEach (t.take offset) (leaveOut (covered spans)) = t.take offset := by
  refine replaceEachFrom_eq_self fun place old _ hlt ↦ if_neg fun hcovered ↦ ?_
  obtain ⟨span, hmem, hin⟩ := List.any_eq_true.mp hcovered
  have hstart := hafter span hmem
  rw [List.length_take] at hlt
  rw [Bool.and_eq_true, decide_eq_true_eq] at hin
  omega

/-- Spans of which none begins before those listed first have ended may be taken out one by one, from the last
to the first, with the character put in for each. -/
theorem foldr_replace_eq_replaceSpans {t : Text} {spans : List (Nat × Nat)}
    (hspans : ∀ span ∈ spans, span.1 ≤ span.2 ∧ span.2 ≤ t.length)
    (hapart : spans.Pairwise fun first second ↦ first.2 ≤ second.1) (c : Char) :
    spans.foldr (fun span u ↦ u.take span.1 ++ c :: u.drop span.2) t = t.replaceSpans spans c := by
  induction spans with
  | nil =>
    have hnone : t = t.without (covered []) := (Revision.start_lacks t).text
    exact hnone.trans (weaveFrom_nil t (covered []) c).symm
  | cons span rest ih =>
    obtain ⟨start, stop⟩ := span
    obtain ⟨⟨hle, hend⟩, hlater⟩ := List.forall_mem_cons.mp hspans
    obtain ⟨hnext, hrest⟩ := List.pairwise_cons.mp hapart
    have hstarts : ∀ place ∈ rest.map (·.1), stop ≤ place := List.forall_mem_map.mpr hnext
    -- the spans behind leave the text up to the end of this one alone
    have hbehind : rest.foldr (fun span u ↦ u.take span.1 ++ c :: u.drop span.2) t =
        t.take stop ++ weaveFrom (rest.map (·.1)) (covered rest) c stop (t.drop stop) := by
      rw [ih hlater hrest, replaceSpans, weaveFrom_zero_split hend hstarts, take_of_not_covered hnext]
    have hinside : weaveFrom (rest.map (·.1)) (covered ((start, stop) :: rest)) c start (t.drop start) =
        weaveFrom (rest.map (·.1)) (covered rest) c stop (t.drop stop) := by
      have hlength : start + ((t.drop start).take (stop - start)).length = stop := by
        rw [List.length_take, List.length_drop]
        omega
      have hcut : t.drop start = (t.drop start).take (stop - start) ++ t.drop stop := by
        conv_lhs => rw [← List.take_append_drop (stop - start) (t.drop start), List.drop_drop]
        rw [Nat.add_sub_cancel' hle]
      have hnone : t.replaceEachIn (leaveOut (covered ((start, stop) :: rest))) start stop = [] :=
        Revision.replaceEachIn_leaveOut fun place hfrom hto ↦ by
          simp only [covered, List.any_cons, hfrom, hto, decide_true, Bool.and_self, Bool.true_or]
      rw [hcut, weaveFrom_append start _ _ fun place hmem _ ↦ by
        rw [hlength]
        exact hstarts place hmem]
      rw [hlength, show replaceEachFrom start _ _ = [] from hnone, List.nil_append]
      refine weaveFrom_congr stop _ (fun _ _ ↦ rfl) fun place hfrom ↦ ?_
      simp only [covered, List.any_cons, Nat.not_lt.mpr hfrom, decide_false, Bool.and_false, Bool.false_or]
    have hbefore : ∀ other ∈ (start, stop) :: rest, start ≤ other.1 :=
      List.forall_mem_cons.mpr ⟨Nat.le_refl start, fun other hother ↦ hle.trans (hnext other hother)⟩
    rw [List.foldr_cons, hbehind, replaceSpans, weaveFrom_zero_split (hle.trans hend)
      (List.forall_mem_map.mpr hbefore), take_of_not_covered hbefore, List.map_cons, weaveFrom_cons_start,
      hinside]
    congr 1
    · rw [List.take_append_of_le_length (by rw [List.length_take, Nat.min_eq_left hend]; exact hle),
        List.take_take, Nat.min_eq_left hle]
    · rw [List.drop_left' (by rw [List.length_take, Nat.min_eq_left hend])]

end Text

namespace Editor

variable {e : Editor}

theorem selection?_eraseRange (e : Editor) (a b : Nat) (caret : CaretId) :
    (e.eraseRange a b).2.selection? caret = (e.selection? caret).map fun ends ↦
      (MarkSet.offsetAfterErase (min (min a b) e.text.length) (min (max a b) e.text.length) ends.1,
        MarkSet.offsetAfterErase (min (min a b) e.text.length) (min (max a b) e.text.length) ends.2) := by
  have hmoved (mark : Mark) : (e.eraseRange a b).2.markOffset? mark = (e.markOffset? mark).map
      (MarkSet.offsetAfterErase (min (min a b) e.text.length) (min (max a b) e.text.length)) :=
    MarkSet.get?_mapOffsets _ _ _
  unfold Editor.selection?
  simp only [hmoved]
  show (e.carets.lookup caret >>= _) = (e.carets.lookup caret >>= _).map _
  cases e.carets.lookup caret with
  | none => rfl
  | some marks =>
    obtain ⟨head, _ | ⟨first, last⟩⟩ := marks
    · rfl
    · dsimp only [Option.bind_eq_bind, Option.bind_some]
      cases e.markOffset? first <;> cases e.markOffset? last <;> rfl

theorem Anchored.selection?_le (h : e.Anchored) {caret : CaretId} {start stop : Nat}
    (hselected : e.selection? caret = some (start, stop)) : stop ≤ e.text.length := by
  cases hlookup : e.carets.lookup caret with
  | none =>
    rw [selection?, hlookup] at hselected
    cases hselected
  | some marks =>
    have hstored : marks.selection ≠ none := fun hnone ↦ by
      rw [selection?_of_lookup_none hlookup hnone] at hselected
      cases hselected
    obtain ⟨_, _, hsame, hle⟩ := h.exists_selection? ((lookup_iff_mem h.toSound).mp hlookup) hstored
    obtain ⟨-, rfl⟩ := Prod.mk.inj (Option.some.inj (hsame.symm.trans hselected))
    exact hle

/-- Dropping selections moves no caret. -/
theorem Anchored.caretOffset?_foldl_removeSelection (h : e.Anchored) (carets : List CaretId)
    (caret : CaretId) :
    (carets.foldl Editor.removeSelection e).caretOffset? caret = e.caretOffset? caret := by
  induction carets generalizing e with
  | nil => rfl
  | cons first rest ih =>
    have hremoved := h.removeSelection_deselects first
    refine (ih hremoved.anchored).trans ?_
    by_cases heq : caret = first
    · rw [heq]
      exact hremoved.offset
    · exact (hremoved.others caret heq).offset

theorem caretIds_foldl_removeSelection (e : Editor) (carets : List CaretId) :
    (carets.foldl Editor.removeSelection e).caretIds = e.caretIds :=
  List.foldlRecOn (motive := fun t : Editor ↦ t.caretIds = e.caretIds) carets _ rfl
    fun t ht caret _ ↦ (t.caretIds_removeSelection caret).trans ht

end Editor

namespace EditState

/-- What is selected at one caret is taken out, and the caret put where it was. -/
def eraseSelection (caret : CaretId) (s : EditState) : EditState :=
  match s.editor.selection? caret with
  | none => s
  | some (start, stop) =>
    { s with editor := (s.editor.eraseRange start stop).2 }.moveCaret caret start

/-- Each caret has a selection, from an offset to one that does not lie before it. -/
def Spans (s : EditState) (span : CaretId → Nat × Nat) : Prop :=
  ∀ caret ∈ s.editor.caretIds, s.editor.selection? caret = some (span caret) ∧
    (span caret).1 ≤ (span caret).2

/-- Of the selections of any two carets, one ends before the other begins, or where it does. -/
def SpansApart (s : EditState) (span : CaretId → Nat × Nat) : Prop :=
  ∀ first ∈ s.editor.caretIds, ∀ second ∈ s.editor.caretIds, first ≠ second →
    (span first).2 ≤ (span second).1 ∨ (span second).2 ≤ (span first).1

/-- What was selected at some carets is gone from a text. Those carets stand where it was, and the selections
of the others have been carried along. -/
structure Emptied (t : Text) (span : CaretId → Nat × Nat) (carets : List CaretId) (gone : Nat → Bool)
    (visits : List CaretId) (s : EditState) : Prop where
  anchored : s.Anchored
  ids : s.editor.caretIds = carets
  text : s.text = t.without gone
  ahead : ∀ caret ∈ visits, s.editor.selection? caret =
    some (t.placeAt (Text.leaveOut gone) (span caret).1, t.placeAt (Text.leaveOut gone) (span caret).2)
  behind : ∀ caret ∈ carets, caret ∉ visits →
    s.caretOffset? caret = some (t.placeAt (Text.leaveOut gone) (span caret).1)

namespace Emptied

variable {t : Text} {span : CaretId → Nat × Nat} {carets visits : List CaretId} {gone : Nat → Bool}
  {caret : CaretId} {s : EditState}

/-- One selection more is gone. -/
theorem visit (h : Emptied t span carets gone (caret :: visits) s) (hmem : caret ∈ carets)
    (hfirst : caret ∉ visits) (hle : (span caret).1 ≤ (span caret).2) :
    Emptied t span carets
      (fun offset ↦ gone offset || ((span caret).1 ≤ offset && offset < (span caret).2)) visits
      (eraseSelection caret s) := by
  obtain ⟨more, hmore⟩ : ∃ more : Nat → Bool, ∀ offset, more offset =
      (gone offset || ((span caret).1 ≤ offset && offset < (span caret).2)) := ⟨_, fun _ ↦ rfl⟩
  rw [← funext hmore]
  let place := t.placeAt (Text.leaveOut gone)
  let e : Editor := (s.editor.eraseRange (place (span caret).1) (place (span caret).2)).2
  have herased : Revision.Lacks ⟨e.text, _⟩ t more :=
    Revision.Lacks.erasedBetween (v := ⟨s.text, place⟩) ⟨h.text, fun _ ↦ rfl⟩ hle hmore rfl
  have htext : e.text = t.without more := herased.text
  have hedited : EditState.Anchored { s with editor := e } :=
    ⟨h.anchored.editor.eraseRange _ _, h.anchored.carets⟩
  have htouches := moveCaret_touches hedited caret (place (span caret).1)
  have hvisit : eraseSelection caret s = { s with editor := e }.moveCaret caret (place (span caret).1) := by
    rw [eraseSelection, h.ahead caret List.mem_cons_self]
  rw [hvisit]
  refine ⟨htouches.anchored, htouches.ids.trans h.ids, htouches.text.trans htext,
    fun other hother ↦ ?_, fun other hother hdone ↦ ?_⟩
  · have hne : other ≠ caret := fun heq ↦ hfirst (heq ▸ hother)
    refine (congrArg CaretView.selection? (htouches.others other hne)).trans ?_
    show e.selection? other = _
    rw [Editor.selection?_eraseRange, h.ahead other (List.mem_cons_of_mem _ hother), ← herased.follow,
      ← herased.follow]
    rfl
  · by_cases heq : other = caret
    · have hsame : t.placeAt (Text.leaveOut more) (span caret).1 = place (span caret).1 :=
        Revision.placeAt_before hmore (Nat.le_refl _)
      have hwithin : place (span caret).1 ≤ e.text.length := by
        rw [← hsame, htext, Text.without_eq_replaceEach]
        exact t.placeAt_le_length _ _
      rw [heq, hsame]
      refine (hedited.editor.caretOffset?_moveCaret (h.ids ▸ hmem) _).trans ?_
      rw [Nat.min_eq_left hwithin]
    · refine (congrArg CaretView.offset? (htouches.others other heq)).trans ?_
      show e.caretOffset? other = _
      rw [Editor.caretOffset?_eraseRange, ← herased.follow]
      have hbefore := h.behind other hother fun hvisit ↦ (List.mem_cons.mp hvisit).elim heq hdone
      rw [show s.editor.caretOffset? other = _ from hbefore]
      rfl

/-- One after the other all selections go. -/
theorem run (h : Emptied t span carets gone visits s) (hnodup : visits.Nodup) (hsub : visits ⊆ carets)
    (hle : ∀ caret ∈ carets, (span caret).1 ≤ (span caret).2) :
    Emptied t span carets (fun offset ↦ gone offset || Text.covered (visits.map span) offset) []
      (visits.foldl (fun s caret ↦ eraseSelection caret s) s) := by
  induction visits generalizing gone s with
  | nil =>
    have hsame : (fun offset ↦ gone offset || Text.covered ([].map span) offset) = gone :=
      funext fun offset ↦ Bool.or_false _
    rwa [hsame]
  | cons caret rest ih =>
    obtain ⟨hfirst, hrest⟩ := List.nodup_cons.mp hnodup
    obtain ⟨hmem, hsubrest⟩ := List.cons_subset.mp hsub
    have hrun := ih (h.visit hmem hfirst (hle caret hmem)) hrest hsubrest
    simpa only [List.foldl_cons, List.map_cons, Text.covered_cons, Bool.or_assoc] using hrun

end Emptied

section Replace

variable {s : EditState} {span : CaretId → Nat × Nat}

/-- What the carets select is taken out, and each stands where it was. -/
theorem Spans.emptied (hspans : s.Spans span) (h : s.Anchored) :
    Emptied s.text span s.editor.caretIds (Text.covered (s.editor.caretIds.map span)) []
      (s.forCarets eraseSelection) := by
  have hperm := orderedByOffset_perm h
  have hstart : Emptied s.text span s.editor.caretIds (fun _ ↦ false)
      s.syncCarets.carets.orderedByOffset s.syncCarets := by
    refine ⟨h.syncCarets, rfl, (Revision.start_lacks s.text).text, fun caret hcaret ↦ ?_,
      fun caret hcaret hdone ↦ absurd (hperm.symm.subset hcaret) hdone⟩
    obtain ⟨hselected, hle⟩ := hspans caret (hperm.subset hcaret)
    have hend : (span caret).2 ≤ s.text.length := h.editor.selection?_le hselected
    rw [Text.placeAt_leaveOut_none hend, Text.placeAt_leaveOut_none (hle.trans hend)]
    exact hselected
  have hrun := hstart.run (hperm.nodup_iff.mpr h.editor.distinct) hperm.subset
    fun caret hcaret ↦ (hspans caret hcaret).2
  have hcovered : (fun offset ↦ false || Text.covered (s.syncCarets.carets.orderedByOffset.map span) offset) =
      Text.covered (s.editor.caretIds.map span) := by
    funext offset
    exact (Bool.false_or _).trans ((hperm.map span).any_eq)
  rwa [hcovered] at hrun

/-- From a select mode the insert mode is entered at once. -/
theorem enterInsert_of_select {kind : SelectionKind} (hmode : s.mode = .select kind) :
    s.enterInsert .insert = markInsertStart { s with modes := s.modes.moved .insert } := by
  have hne : s.modes.mode ≠ .insert := by
    rw [show s.modes.mode = .select kind from hmode]
    exact Mode.noConfusion
  have hlegal : s.modes.mode.isLegal .insert s.modes.parent = true := by
    rw [show s.modes.mode = .select kind from hmode]
    rfl
  have hcan : s.modes.canTransition .insert = true := by
    rw [ModeMachine.canTransition, hlegal, Bool.or_true]
  rw [enterInsert, enterMode, if_pos hcan, setMode, s.modes.transition_legal hne hlegal]

theorem Clear.markInsertStart (h : s.Clear) : s.markInsertStart.Clear :=
  forCarets_keeps s h.syncCarets fun caret _ ht ↦ ht.modifyCaret caret fun _ hstate ↦ hstate

/-- In the insert mode nothing is selected any more. -/
theorem Spans.replaceSelections (hspans : s.Spans span) (h : s.Anchored) {kind : SelectionKind}
    (hmode : s.mode = .select kind) :
    s.replaceSelections.Clear ∧ s.replaceSelections.mode = .insert ∧
      Emptied s.text span s.editor.caretIds (Text.covered (s.editor.caretIds.map span)) []
        s.replaceSelections := by
  let u := s.forCarets eraseSelection
  have hemptied := hspans.emptied h
  have hmodes : u.modes = s.modes := forCarets_modes (fun caret t ↦ by unfold eraseSelection; split <;> rfl) s
  have hclear := clearSelections_clear hemptied.anchored
  have hentered : s.replaceSelections =
      markInsertStart { u.clearSelections with modes := u.modes.moved .insert } :=
    enterInsert_of_select (s := u.clearSelections) ((congrArg ModeMachine.mode hmodes).trans hmode)
  have heditor : s.replaceSelections.editor = u.clearSelections.editor := by
    rw [hentered, markInsertStart_editor]
  have hplain : s.replaceSelections.Clear := by
    rw [hentered]
    exact (hclear.withModes _).markInsertStart
  refine ⟨hplain, ?_, hplain.toAnchored, ?_, ?_, fun caret hcaret ↦ absurd hcaret List.not_mem_nil,
    fun caret hcaret hdone ↦ ?_⟩
  · rw [hentered, EditState.mode, markInsertStart_modes]
    rfl
  · rw [heditor]
    exact (Editor.caretIds_foldl_removeSelection _ _).trans hemptied.ids
  · rw [EditState.text, heditor]
    exact u.clearSelections_moves.rearranges.editor.text.trans hemptied.text
  · rw [caretOffset?, heditor]
    exact (hemptied.anchored.editor.caretOffset?_foldl_removeSelection _ caret).trans
      (hemptied.behind caret hcaret hdone)

/-- What is typed at all carets goes in at their places, from the last to the first. -/
theorem exists_order_insertAtCarets (h : s.Anchored) {offset : CaretId → Nat}
    (hoffset : ∀ caret ∈ s.editor.caretIds, s.caretOffset? caret = some (offset caret)) {typed : Text}
    (hne : typed ≠ []) :
    ∃ order : List CaretId, order.Perm s.editor.caretIds ∧
      (order.Pairwise fun first second ↦ offset first ≤ offset second) ∧
      (s.insertAtCarets typed).text =
        order.foldr (fun caret t ↦ Text.insert t (offset caret) typed) s.text := by
  obtain ⟨order, piece, tail, hcut, hready⟩ := exists_cut h (orderedByOffset_perm h)
  obtain ⟨place, hplace, hsorted, -⟩ := hcut.exists_offsets
  have hsame : ∀ caret ∈ order, place caret = offset caret := fun caret hcaret ↦
    Option.some.inj ((hplace caret hcaret).symm.trans (hoffset caret (hcut.carets.subset hcaret)))
  have hends (before : List CaretId) (caret : CaretId) (after : List CaretId)
      (heq : order = before ++ caret :: after) :
      offset caret = ([] : Text).length + ((before.flatMap piece).length + (piece caret).length) := by
    have hmem : caret ∈ order := heq ▸ List.mem_append_right _ List.mem_cons_self
    rw [List.length_nil, Nat.zero_add]
    exact Option.some.inj
      ((hoffset caret (hcut.carets.subset hmem)).symm.trans (hcut.ends before caret after heq))
  refine ⟨order, hcut.carets, hsorted.imp_of_mem fun hfirst hsecond hle ↦ ?_, ?_⟩
  · rwa [hsame _ hfirst, hsame _ hsecond] at hle
  · have hinserted := foldr_insert order piece [] tail typed hends
    rw [List.nil_append, List.nil_append, ← hcut.text] at hinserted
    exact (hcut.insertAtCarets hready hne).text.trans hinserted.symm

/-- A character typed in a select mode stands for what each caret selects. -/
theorem Spans.replaced (hspans : s.Spans span) (h : s.Anchored) {kind : SelectionKind}
    (hmode : s.mode = .select kind) (c : Char) :
    (s.replaceSelections.insertAtCarets [c]).text = s.text.replaceSpans (s.editor.caretIds.map span) c := by
  obtain ⟨hclear, -, hemptied⟩ := hspans.replaceSelections h hmode
  obtain ⟨gone, hgone⟩ : ∃ gone, gone = Text.covered (s.editor.caretIds.map span) := ⟨_, rfl⟩
  rw [← hgone] at hemptied
  let place := s.text.placeAt (Text.leaveOut gone)
  have hbehind : ∀ caret ∈ s.replaceSelections.editor.caretIds,
      s.replaceSelections.caretOffset? caret = some (place (span caret).1) := fun caret hcaret ↦
    hemptied.behind caret (hemptied.ids ▸ hcaret) List.not_mem_nil
  obtain ⟨order, hperm, hsorted, htext⟩ :=
    exists_order_insertAtCarets hclear.toAnchored hbehind (List.cons_ne_nil c [])
  rw [hemptied.ids] at hperm
  -- where selections have met, the carets may be in another order than the selections
  let starts := (order.map fun caret ↦ (span caret).1).mergeSort (· ≤ ·)
  have hstarts : starts.Perm (order.map fun caret ↦ (span caret).1) := List.mergeSort_perm _ _
  have hincreasing : starts.Pairwise (· ≤ ·) := List.pairwise_mergeSort' _ _
  have hplaces : order.map (fun caret ↦ place (span caret).1) = starts.map place := by
    refine List.Perm.eq_of_pairwise (fun _ _ _ _ ↦ le_antisymm) (List.pairwise_map.mpr hsorted)
      (List.pairwise_map.mpr (hincreasing.imp fun hle ↦ s.text.placeAt_mono _ hle)) ?_
    have hmapped := (hstarts.map place).symm
    rwa [List.map_map] at hmapped
  have hwithin : ∀ start ∈ starts, start ≤ s.text.length := fun start hstart ↦ by
    obtain ⟨caret, hcaret, rfl⟩ := List.mem_map.mp (hstarts.subset hstart)
    obtain ⟨hselected, hle⟩ := hspans caret (hperm.subset hcaret)
    exact hle.trans (h.editor.selection?_le hselected)
  calc (s.replaceSelections.insertAtCarets [c]).text
    _ = order.foldr (fun caret t ↦ Text.insert t (place (span caret).1) [c]) s.replaceSelections.text := htext
    _ = (starts.map place).foldr (fun offset t ↦ Text.insert t offset [c]) (s.text.without gone) := by
      rw [hemptied.text, ← hplaces, List.foldr_map]
    _ = Text.weaveFrom starts gone c 0 s.text := by
      rw [List.foldr_map]
      exact Text.foldr_insert_eq_weave hincreasing hwithin gone c
    _ = s.text.replaceSpans (s.editor.caretIds.map span) c := by
      rw [Text.replaceSpans, ← hgone, List.map_map]
      exact Text.weaveFrom_perm (hstarts.trans (hperm.map _)) gone c 0 s.text

/-- Selections that are apart follow one another in some order. -/
theorem SpansApart.exists_order (hapart : s.SpansApart span) (hspans : s.Spans span)
    (hdistinct : s.editor.caretIds.Nodup) : ∃ order : List CaretId, order.Perm s.editor.caretIds ∧
      order.Pairwise fun first second ↦ (span first).2 ≤ (span second).1 := by
  -- of those that begin at one place, all but the last are empty
  let le (a b : CaretId) : Bool :=
    (span a).1 < (span b).1 ∨ (span a).1 = (span b).1 ∧ (span a).2 ≤ (span b).2
  have hle_trans (a b c : CaretId) (hab : le a b = true) (hbc : le b c = true) : le a c = true := by
    simp only [le, decide_eq_true_eq] at hab hbc ⊢
    omega
  have hle_total (a b : CaretId) : (le a b || le b a) = true := by
    simp only [le, Bool.or_eq_true, decide_eq_true_eq]
    omega
  have hperm : (s.editor.caretIds.mergeSort le).Perm s.editor.caretIds := List.mergeSort_perm _ _
  have hsorted := (List.pairwise_mergeSort hle_trans hle_total s.editor.caretIds).and
    (hperm.nodup_iff.mpr hdistinct)
  refine ⟨_, hperm, hsorted.imp_of_mem fun hfirst hsecond hboth ↦ ?_⟩
  have hend := (hspans _ (hperm.subset hsecond)).2
  have hle := of_decide_eq_true hboth.1
  rcases hapart _ (hperm.subset hfirst) _ (hperm.subset hsecond) hboth.2 with hbefore | hbehind
  · exact hbefore
  · omega

end Replace

theorem clear_keptByTyping : KeptByTyping Clear :=
  ⟨fun h ↦ h.syncCarets, fun hrewrite caret offset h ↦ h.rewrite hrewrite caret offset⟩

end EditState

namespace Session

variable {s : Session}

/-- Under the default bindings, a plain character that is typed in a select mode stands for what each caret
selects, and the session goes on in the insert mode with nothing selected. If the selections are apart, the
text is as if they had been replaced one by one from the last to the first. -/
theorem typing_replaces_selections (hbindings : s.StandardBindings)
    (hidle : s.resolver.hasPending = false) (hinput : s.resolver.input = []) {kind : SelectionKind}
    (hmode : s.mode = .select kind) (hreported : s.editor.reported = []) (hanchored : s.edit.Anchored)
    {span : CaretId → Nat × Nat} (hspans : s.edit.Spans span) (c : Char) :
    let after := (s.handleKey (.char c)).2
    after.editor.text = s.editor.text.replaceSpans (s.editor.caretIds.map span) c ∧
      (s.edit.SpansApart span → ∃ order : List CaretId, order.Perm s.editor.caretIds ∧
        (order.Pairwise fun first second ↦ (span first).2 ≤ (span second).1) ∧
        after.editor.text =
          order.foldr (fun caret t ↦ t.take (span caret).1 ++ c :: t.drop (span caret).2) s.editor.text) ∧
      (∀ caret, after.editor.selection? caret = none) ∧ after.mode = .insert := by
  intro after
  have hentry : s.mode.isTextEntry = true := by
    rw [hmode]
    rfl
  have hfree : s.keymap.resolve (.ofMode s.mode) [.char c] = .unmapped := by
    rw [hmode]
    exact hbindings.resolve_char (List.mem_cons_of_mem _ List.mem_cons_self) c
  have htype (u : EditState) (hmode : u.mode = .select kind) :
      u.typeKeys [.char c] = (.executed, u.replaceSelections.insertAtCarets [c]) := by
    unfold EditState.typeKeys
    rw [hmode]
    rfl
  have hafter : after = { s with
      resolver := {}, edit := s.edit.guardedChange fun u ↦ u.replaceSelections.insertAtCarets [c] } := by
    refine (handleKey_of_unmapped hidle hinput hreported hentry hfree).trans ?_
    show Session.mk _ _ _ _ _ ((s.edit.prepared.typeKeys [.char c]).2.unlock s.edit.lock.1) = _
    rw [htype s.edit.prepared hmode]
    rfl
  have hprepared : s.edit.prepared.Anchored :=
    ⟨hanchored.editor.of_buffer rfl rfl rfl, hanchored.carets.sync _⟩
  have hspans' : s.edit.prepared.Spans span := hspans
  obtain ⟨hclear, hinsert, -⟩ := hspans'.replaceSelections hprepared hmode
  have htext : after.editor.text = s.editor.text.replaceSpans (s.editor.caretIds.map span) c := by
    rw [hafter]
    exact hspans'.replaced hprepared hmode c
  refine ⟨htext, fun hapart ↦ ?_, fun caret ↦ ?_, ?_⟩
  · obtain ⟨order, hperm, hfollow⟩ := hapart.exists_order hspans hanchored.editor.distinct
    have hwithin : ∀ entry ∈ order.map span, entry.1 ≤ entry.2 ∧ entry.2 ≤ s.editor.text.length := by
      refine List.forall_mem_map.mpr fun caret hcaret ↦ ?_
      obtain ⟨hselected, hle⟩ := hspans caret (hperm.subset hcaret)
      exact ⟨hle, hanchored.editor.selection?_le hselected⟩
    have hfold := Text.foldr_replace_eq_replaceSpans hwithin (List.pairwise_map.mpr hfollow) c
    rw [List.foldr_map, Text.replaceSpans_perm (hperm.map span)] at hfold
    exact ⟨order, hperm, hfollow, htext.trans hfold.symm⟩
  · rw [hafter]
    exact (EditState.clear_keptByTyping.insertAtCarets hclear [c]).unselected.selection? caret
  · rw [hafter]
    have hmodes := EditState.forCarets_modes (f := EditState.typeAt [c])
      (fun caret u ↦ by unfold EditState.typeAt; split <;> rfl) s.edit.prepared.replaceSelections
    exact (congrArg ModeMachine.mode hmodes).trans hinsert

/-- Two selections that touch and an empty one. -/
theorem touching_selections_replaced :
    let s : Session :=
      { keymap := .standard, registry := .standard
        edit :=
          { editor := .ofMarked ⟨"abcdef\n".toList, [2, 4, 5], [(0, 2), (2, 4), (5, 5)]⟩
            modes := { mode := .select .character } } }
    let span (caret : CaretId) : Nat × Nat := [(0, 2), (2, 4), (5, 5)].getD caret.serial (0, 0)
    let after := (s.handleKey (.char 'x')).2
    (s.StandardBindings ∧ s.resolver.hasPending = false ∧ s.resolver.input = [] ∧
      s.mode = .select .character ∧ s.editor.reported = [] ∧ s.edit.Anchored ∧ s.edit.Spans span ∧
      s.edit.SpansApart span) ∧
    after.editor.text = "xxexf\n".toList ∧ (∀ caret, after.editor.selection? caret = none) ∧
      after.mode = .insert := by
  intro s span after
  have hbindings : s.StandardBindings := .inl ⟨by with_reducible rfl, by with_reducible rfl⟩
  have hreported : s.editor.reported = [] := by
    show Editor.reported (.ofMarked ⟨"abcdef\n".toList, [2, 4, 5], [(0, 2), (2, 4), (5, 5)]⟩) = []
    decide +kernel
  have hanchored : s.edit.Anchored :=
    ⟨Editor.ofMarked_anchored ⟨"abcdef\n".toList, [2, 4, 5], [(0, 2), (2, 4), (5, 5)]⟩, List.nodup_nil⟩
  have hspans : s.edit.Spans span := by
    unfold EditState.Spans
    decide +kernel
  have hapart : s.edit.SpansApart span := by
    unfold EditState.SpansApart
    decide +kernel
  obtain ⟨htext, -, hnone, hinsert⟩ :=
    typing_replaces_selections hbindings rfl rfl rfl hreported hanchored hspans 'x'
  exact ⟨⟨hbindings, rfl, rfl, rfl, hreported, hanchored, hspans, hapart⟩,
    htext.trans (by decide +kernel), hnone, hinsert⟩

end Session

end ModalEdit
