import ModalEdit.Proofs.AnchoredCarets

/-!
Going through the carets one after the other. What there is of a caret is where it is, its
selection, and what is remembered of it (`EditState.view`). A command that goes through the carets
begins with a table that is in line with the editor (`view_syncCarets`) and comes by every caret
once (`orderedByOffset_perm`). If what it does for a caret touches no other (`EditState.Touches`),
every caret ends as its own visit leaves it (`forCarets_visits`, `foldCarets_visits`).
-/

set_option autoImplicit false
set_option relaxedAutoImplicit false

namespace ModalEdit

namespace CaretTable

variable {t : CaretTable} {id : CaretId}

/-- What is known of a caret, at an offset. -/
def placed (known : Option CaretState) (offset : Nat) : CaretState :=
  { known.getD { offset } with offset }

theorem get?_noted (t : CaretTable) (id : CaretId) (offset : Nat) (other : CaretId) :
    ((t.add id offset).modify id ({ · with offset })).get? other =
      if other = id then some (placed (t.get? id) offset) else t.get? other := by
  rw [get?_modify, get?_add, get?_add, if_pos rfl]
  split
  · rfl
  · rfl

theorem get?_foldl {live : List (CaretId × Nat)} (hlive : (live.map (·.1)).Nodup) (t : CaretTable)
    (id : CaretId) :
    (live.foldl (fun t (id, offset) ↦ (t.add id offset).modify id ({ · with offset })) t).get? id =
      ((live.lookup id).map (placed (t.get? id))).or (t.get? id) := by
  induction live generalizing t with
  | nil => rfl
  | cons entry rest ih =>
    obtain ⟨hfirst, hrest⟩ := List.nodup_cons.mp hlive
    rw [List.foldl_cons, ih hrest, get?_noted, lookup_cons_eq_ite]
    by_cases hid : id = entry.1
    · rw [if_pos hid, if_pos hid, hid, lookup_eq_none_of_notMem hfirst]
      rfl
    · rw [if_neg hid, if_neg hid]

theorem get?_filter_of_mem (t : CaretTable) {live : List (CaretId × Nat)}
    (hmem : id ∈ live.map (·.1)) :
    get? ⟨t.entries.filter fun entry ↦ live.any (·.1 = entry.1)⟩ id = t.get? id := by
  obtain ⟨kept, hkept, rfl⟩ := List.mem_map.mp hmem
  exact lookup_filter_of_forall
    (fun _ ↦ List.any_eq_true.mpr ⟨kept, hkept, decide_eq_true rfl⟩) t.entries

/-- A caret that is there now keeps what was known of it but for the offset. -/
theorem get?_sync (t : CaretTable) {live : List (CaretId × Nat)} (hlive : (live.map (·.1)).Nodup)
    {offset : Nat} (h : live.lookup id = some offset) :
    (t.sync live).get? id = some (placed (t.get? id) offset) := by
  have hmem : id ∈ live.map (·.1) := by
    by_contra hnot
    rw [lookup_eq_none_of_notMem hnot] at h
    cases h
  rw [sync, get?_foldl hlive, h, get?_filter_of_mem t hmem]
  rfl

end CaretTable

/-- What there is of a caret: where it is, its selection, and what is remembered. -/
structure CaretView where
  offset? : Option Nat
  selection? : Option (Nat × Nat)
  state? : Option CaretState

namespace EditState

variable {s t : EditState} {caret other : CaretId}

/-- The editor is anchored, and no caret is remembered twice. -/
structure Anchored (s : EditState) : Prop where
  editor : s.editor.Anchored
  carets : s.carets.Distinct

def view (s : EditState) (caret : CaretId) : CaretView :=
  ⟨s.caretOffset? caret, s.editor.selection? caret, s.carets.get? caret⟩

/-! ### The table in line with the editor -/

/-- The carets there are, with their offsets. -/
def liveCarets (s : EditState) : List (CaretId × Nat) :=
  s.editor.caretIds.filterMap fun caret ↦ (s.caretOffset? caret).map (caret, ·)

theorem liveCarets_ids (h : s.editor.Anchored) : s.liveCarets.map (·.1) = s.editor.caretIds := by
  rw [liveCarets, List.map_filterMap]
  refine (List.filterMap_congr fun caret hcaret ↦ ?_).trans List.filterMap_some
  obtain ⟨offset, -, hoffset⟩ := h.exists_caretOffset? hcaret
  rw [show s.caretOffset? caret = some offset from hoffset]
  rfl

theorem liveCarets_nodup (h : s.editor.Anchored) : (s.liveCarets.map (·.1)).Nodup := by
  rw [liveCarets_ids h]
  exact h.distinct

theorem lookup_liveCarets (h : s.editor.Anchored) (hcaret : caret ∈ s.editor.caretIds)
    {offset : Nat} (hoffset : s.caretOffset? caret = some offset) :
    s.liveCarets.lookup caret = some offset := by
  refine (CaretTable.lookup_eq_some_iff_mem (liveCarets_nodup h)).mpr (List.mem_filterMap.mpr ?_)
  exact ⟨caret, hcaret, by rw [hoffset]; rfl⟩

theorem view_syncCarets (h : s.editor.Anchored) (hcaret : caret ∈ s.editor.caretIds) {offset : Nat}
    (hoffset : s.caretOffset? caret = some offset) :
    s.syncCarets.view caret = ⟨some offset, s.editor.selection? caret,
      some (CaretTable.placed (s.carets.get? caret) offset)⟩ := by
  have hstate : s.syncCarets.carets.get? caret =
      some (CaretTable.placed (s.carets.get? caret) offset) :=
    CaretTable.get?_sync s.carets (liveCarets_nodup h) (lookup_liveCarets h hcaret hoffset)
  rw [view, hstate, show s.syncCarets.caretOffset? caret = some offset from hoffset]
  rfl

/-- Every caret is come by once. -/
theorem orderedByOffset_perm (h : s.Anchored) :
    s.syncCarets.carets.orderedByOffset.Perm s.editor.caretIds := by
  rw [← liveCarets_ids h.editor]
  refine ((List.mergeSort_perm _ _).map _).trans ?_
  have hperm := (CaretTable.sync_perm h.carets (liveCarets_nodup h.editor)).map (·.1)
  rwa [List.map_map] at hperm

theorem Anchored.syncCarets (h : s.Anchored) : s.syncCarets.Anchored := ⟨h.editor, h.carets.sync _⟩

/-! ### Visits -/

/-- The state is anchored, with the text, the mode and the carets that there were. -/
structure Stays (s t : EditState) : Prop where
  anchored : t.Anchored
  text : t.text = s.text
  modes : t.modes = s.modes
  ids : t.editor.caretIds = s.editor.caretIds

/-- Nothing is changed but what there is of one caret. -/
structure Touches (caret : CaretId) (s t : EditState) : Prop extends Stays s t where
  others : ∀ other ≠ caret, t.view other = s.view other

theorem Stays.refl (h : s.Anchored) : Stays s s := ⟨h, rfl, rfl, rfl⟩

theorem Stays.trans {first middle last : EditState} (h₁ : Stays first middle)
    (h₂ : Stays middle last) :
    Stays first last :=
  ⟨h₂.anchored, h₂.text.trans h₁.text, h₂.modes.trans h₁.modes, h₂.ids.trans h₁.ids⟩

theorem Stays.mode (h : Stays s t) : t.mode = s.mode := congrArg ModeMachine.mode h.modes

theorem Touches.refl (h : s.Anchored) (caret : CaretId) :
    Touches caret s s := ⟨.refl h, fun _ _ ↦ rfl⟩

theorem Touches.trans {first middle last : EditState} (h₁ : Touches caret first middle)
    (h₂ : Touches caret middle last) : Touches caret first last :=
  ⟨h₁.toStays.trans h₂.toStays, fun other hne ↦ (h₂.others other hne).trans (h₁.others other hne)⟩

theorem syncCarets_stays (h : s.Anchored) : Stays s s.syncCarets := ⟨h.syncCarets, rfl, rfl, rfl⟩

theorem modifyCaret_touches (h : s.Anchored) (caret : CaretId) (f : CaretState → CaretState) :
    Touches caret s (s.modifyCaret caret f) where
  anchored := ⟨h.editor, h.carets.modify caret f⟩
  text := rfl
  modes := rfl
  ids := rfl
  others other hne := by
    unfold view modifyCaret
    dsimp only
    rw [CaretTable.get?_modify, if_neg hne]
    rfl

theorem moveCaret_touches (h : s.Anchored) (caret : CaretId) (offset : Nat) :
    Touches caret s (s.moveCaret caret offset) := by
  have hmoved := h.editor.moveCaret caret offset
  suffices htouches : Touches caret s { s with editor := s.editor.moveCaret caret offset } from
    htouches.trans (modifyCaret_touches htouches.anchored caret _)
  refine ⟨⟨⟨hmoved, h.carets⟩, s.editor.moveCaret_text caret offset, rfl, ?_⟩, fun other hne ↦ ?_⟩
  · show (s.editor.moveCaret caret offset).carets.map _ = _
    rw [Editor.moveCaret_carets]
    rfl
  · have hkeeps := h.editor.moveCaret_keeps hne offset
    unfold view caretOffset?
    dsimp only
    rw [hkeeps.offset, hkeeps.selection]

theorem setSelection_caretIds (e : Editor) (caret : CaretId) (a b : Nat) :
    (e.setSelection caret a b).caretIds = e.caretIds := by
  have hstored : (e.storeSelection caret a b).caretIds = e.caretIds := by
    unfold Editor.storeSelection
    split
    · rfl
    · rfl
    · exact Editor.caretIds_setSelectionMarks _ caret _
  unfold Editor.setSelection
  dsimp only
  split <;> exact hstored

theorem setSelection_touches (h : s.Anchored) (caret : CaretId) (a b : Nat) :
    Touches caret s { s with editor := s.editor.setSelection caret a b } := by
  refine ⟨⟨⟨h.editor.setSelection caret a b, h.carets⟩, ?_, rfl, setSelection_caretIds _ _ _ _⟩,
    fun other hne ↦ ?_⟩
  · exact (s.editor.setSelection_repositions caret a b).text
  · by_cases hmem : caret ∈ s.editor.caretIds
    · have hkeeps := (h.editor.setSelection_selects hmem a b).others other hne
      unfold view caretOffset?
      dsimp only
      rw [hkeeps.offset, hkeeps.selection]
    · rw [Editor.setSelection_of_notMem hmem]

theorem updateSelection_touches (h : s.Anchored) (caret : CaretId) :
    Touches caret s (s.updateSelection caret) := by
  unfold updateSelection
  split
  · exact setSelection_touches h caret _ _
  · exact .refl h caret

section Visits

variable {α : Type} {P Q : CaretView → Prop}

/-- Along a list of carets, each of those that are visited ends as its visit leaves it. -/
theorem foldl_visits {f : CaretId → α → EditState → α × EditState} (start : EditState)
    (htouches : ∀ caret a t, t.Anchored → Touches caret t (f caret a t).2)
    (hvisit : ∀ caret a t, Stays start t → caret ∈ t.editor.caretIds → P (t.view caret) →
      Q ((f caret a t).2.view caret))
    {carets : List CaretId} (hnodup : carets.Nodup) (hsub : carets ⊆ start.editor.caretIds) (a : α)
    (h : Stays start s) (hP : ∀ caret ∈ carets, P (s.view caret)) :
    Stays start (carets.foldl (fun (a, s) caret ↦ f caret a s) (a, s)).2 ∧
      (∀ caret ∈ carets, Q ((carets.foldl (fun (a, s) caret ↦ f caret a s) (a, s)).2.view caret)) ∧
      ∀ caret ∉ carets, (carets.foldl (fun (a, s) caret ↦ f caret a s) (a, s)).2.view caret =
        s.view caret := by
  induction carets generalizing a s with
  | nil => exact ⟨h, fun _ hmem ↦ absurd hmem List.not_mem_nil, fun _ _ ↦ rfl⟩
  | cons caret rest ih =>
    obtain ⟨hfirst, hrest⟩ := List.nodup_cons.mp hnodup
    obtain ⟨hmem, hsubrest⟩ := List.cons_subset.mp hsub
    have htouched := htouches caret a s h.anchored
    have hvisited := hvisit caret a s h (by rw [h.ids]; exact hmem) (hP caret List.mem_cons_self)
    have hwaiting : ∀ other ∈ rest, P ((f caret a s).2.view other) := by
      intro other hother
      rw [htouched.others other fun heq ↦ hfirst (heq ▸ hother)]
      exact hP other (List.mem_cons_of_mem _ hother)
    obtain ⟨hstays, hdone, hleft⟩ := ih hrest hsubrest _ (h.trans htouched.toStays) hwaiting
    refine ⟨hstays, fun other hother ↦ ?_, fun other hother ↦ ?_⟩
    · rcases List.mem_cons.mp hother with rfl | hlater
      · rw [List.foldl_cons, hleft other hfirst]
        exact hvisited
      · exact hdone other hlater
    · rw [List.mem_cons, not_or] at hother
      rw [List.foldl_cons, hleft other hother.2, htouched.others other hother.1]

theorem foldCarets_visits (h : s.Anchored) {f : CaretId → α → EditState → α × EditState} (a : α)
    (htouches : ∀ caret a t, t.Anchored → Touches caret t (f caret a t).2)
    (hP : ∀ caret ∈ s.editor.caretIds, P (s.syncCarets.view caret))
    (hvisit : ∀ caret a t, Stays s t → caret ∈ t.editor.caretIds → P (t.view caret) →
      Q ((f caret a t).2.view caret)) :
    Stays s (s.foldCarets a f).2 ∧
      ∀ caret ∈ s.editor.caretIds, Q ((s.foldCarets a f).2.view caret) := by
  have hperm := orderedByOffset_perm h
  obtain ⟨hstays, hdone, -⟩ := foldl_visits (P := P) (Q := Q) s htouches hvisit
    (hperm.nodup_iff.mpr h.editor.distinct) hperm.subset a (syncCarets_stays h)
    fun caret hcaret ↦ hP caret (hperm.subset hcaret)
  exact ⟨hstays, fun caret hcaret ↦ hdone caret (hperm.symm.subset hcaret)⟩

theorem forCarets_eq_foldCarets (s : EditState) (f : CaretId → EditState → EditState) :
    s.forCarets f = (s.foldCarets () fun caret _ t ↦ ((), f caret t)).2 := by
  unfold forCarets foldCarets
  dsimp only
  generalize s.syncCarets = t
  generalize t.carets.orderedByOffset = carets
  induction carets generalizing t with
  | nil => rfl
  | cons caret rest ih => exact ih (f caret t)

theorem forCarets_visits (h : s.Anchored) {f : CaretId → EditState → EditState}
    (htouches : ∀ caret t, t.Anchored → Touches caret t (f caret t))
    (hP : ∀ caret ∈ s.editor.caretIds, P (s.syncCarets.view caret))
    (hvisit : ∀ caret t, Stays s t → caret ∈ t.editor.caretIds → P (t.view caret) →
      Q ((f caret t).view caret)) :
    Stays s (s.forCarets f) ∧ ∀ caret ∈ s.editor.caretIds, Q ((s.forCarets f).view caret) := by
  rw [forCarets_eq_foldCarets]
  exact foldCarets_visits h () (fun caret _ t ↦ htouches caret t) hP fun caret _ t ↦ hvisit caret t

end Visits

end EditState

end ModalEdit
