import Mathlib.Data.List.Nodup
import ModalEdit.Proofs.PinnedRun

/-!
The caret table in line with the editor. A table without doubles that takes over the carets of the editor
has their offsets and no others (`CaretTable.sync_perm`), so that a command goes through what the editor's
carets are, in the order in which they stand (`EditState.exists_plannedSpans_eq`).
-/

set_option autoImplicit false
set_option relaxedAutoImplicit false

namespace ModalEdit

namespace CaretTable

variable {α β : Type} [DecidableEq α] {t : CaretTable} {id other : CaretId}

/-- No caret is in the table twice. -/
def Distinct (t : CaretTable) : Prop := (t.entries.map (·.1)).Nodup

instance (t : CaretTable) : Decidable t.Distinct := inferInstanceAs (Decidable (List.Nodup _))

/-! ### Look-up -/

theorem lookup_eq_none_of_notMem {l : List (α × β)} {a : α} (h : a ∉ l.map (·.1)) :
    l.lookup a = none := by
  refine List.lookup_eq_none_iff.mpr fun entry hentry ↦ bne_iff_ne.mpr fun heq ↦ h ?_
  rw [heq]
  exact List.mem_map_of_mem hentry

theorem lookup_eq_some_iff_mem {l : List (α × β)} (h : (l.map (·.1)).Nodup) {a : α} {b : β} :
    l.lookup a = some b ↔ (a, b) ∈ l := by
  induction l with
  | nil => simp
  | cons entry rest ih =>
    obtain ⟨hfirst, hrest⟩ := List.nodup_cons.mp h
    rw [lookup_cons_eq_ite, List.mem_cons, Prod.ext_iff, ← ih hrest]
    by_cases hkey : a = entry.1
    · simp [hkey, lookup_eq_none_of_notMem hfirst, eq_comm]
    · simp [hkey]

/-- Lists without double keys that say the same of every key have the same entries. -/
theorem perm_of_lookup_eq {l m : List (α × β)} (hl : (l.map (·.1)).Nodup) (hm : (m.map (·.1)).Nodup)
    (h : ∀ a, l.lookup a = m.lookup a) : l.Perm m := by
  refine (List.perm_ext_iff_of_nodup hl.of_map hm.of_map).mpr fun ⟨a, b⟩ ↦ ?_
  rw [← lookup_eq_some_iff_mem hl, ← lookup_eq_some_iff_mem hm, h]

theorem insertSorted_perm (id : CaretId) (state : CaretState) (entries : List (CaretId × CaretState)) :
    (insertSorted id state entries).Perm ((id, state) :: entries) := by
  induction entries with
  | nil => exact .refl _
  | cons entry rest ih =>
    rw [insertSorted]
    split
    · exact .refl _
    · exact (ih.cons entry).trans (.swap _ _ _)

theorem lookup_insertSorted {entries : List (CaretId × CaretState)} (state : CaretState)
    (h : entries.lookup id = none) (other : CaretId) :
    (insertSorted id state entries).lookup other =
      if other = id then some state else entries.lookup other := by
  induction entries with
  | nil => exact lookup_cons_eq_ite _ _ _
  | cons entry rest ih =>
    rw [lookup_cons_eq_ite] at h
    split at h
    · cases h
    · next hne =>
      rw [insertSorted]
      split
      · exact lookup_cons_eq_ite _ _ _
      · rw [lookup_cons_eq_ite, lookup_cons_eq_ite, ih h]
        by_cases hother : other = id
        · rw [hother, if_neg hne, if_pos rfl, if_pos rfl]
        · rw [if_neg hother, if_neg hother]

theorem get?_add (t : CaretTable) (id : CaretId) (offset : Nat) (other : CaretId) :
    (t.add id offset).get? other =
      if other = id then some ((t.get? id).getD { offset }) else t.get? other := by
  unfold add
  cases hfound : t.get? id with
  | some state =>
    rw [Option.isSome_some, if_pos rfl, Option.getD_some]
    split
    · next h => rw [h, hfound]
    · rfl
  | none => exact lookup_insertSorted _ hfound other

theorem get?_modify (t : CaretTable) (id : CaretId) (f : CaretState → CaretState) (other : CaretId) :
    (t.modify id f).get? other = if other = id then (t.get? id).map f else t.get? other := by
  obtain ⟨entries⟩ := t
  show (entries.map fun entry ↦ if entry.1 = id then (id, f entry.2) else entry).lookup other =
    if other = id then (entries.lookup id).map f else entries.lookup other
  induction entries with
  | nil =>
    rw [List.map_nil, List.lookup_nil, List.lookup_nil, Option.map_none, ite_self]
  | cons entry rest ih =>
    rw [List.map_cons, lookup_cons_eq_ite, ih, lookup_cons_eq_ite, lookup_cons_eq_ite]
    by_cases hentry : entry.1 = id
    · rw [if_pos hentry, hentry, if_pos rfl]
      by_cases hother : other = id
      · rw [if_pos hother, if_pos hother, Option.map_some]
      · rw [if_neg hother, if_neg hother, if_neg hother, if_neg hother]
    · rw [if_neg hentry, if_neg (Ne.symm hentry)]
      by_cases hother : other = id
      · rw [hother, if_neg (Ne.symm hentry), if_pos rfl, if_pos rfl]
      · rw [if_neg hother, if_neg hother]

/-! ### No doubles -/

theorem Distinct.add (h : t.Distinct) (id : CaretId) (offset : Nat) : (t.add id offset).Distinct := by
  unfold CaretTable.add
  split
  · exact h
  · next hnone =>
    have hnew : id ∉ t.entries.map (·.1) := by
      intro hmem
      obtain ⟨⟨_, state⟩, hentry, rfl⟩ := List.mem_map.mp hmem
      have hfound : t.get? _ = some state := (lookup_eq_some_iff_mem h).mpr hentry
      rw [hfound] at hnone
      exact hnone rfl
    exact ((insertSorted_perm id { offset } t.entries).map _).nodup_iff.mpr (List.nodup_cons.mpr ⟨hnew, h⟩)

theorem Distinct.modify (h : t.Distinct) (id : CaretId) (f : CaretState → CaretState) :
    (t.modify id f).Distinct := by
  have hids : (t.modify id f).entries.map (·.1) = t.entries.map (·.1) := by
    rw [CaretTable.modify, List.map_map]
    refine List.map_congr_left fun entry _ ↦ ?_
    rw [Function.comp_apply]
    split
    · next heq => exact heq.symm
    · rfl
  rw [Distinct, hids]
  exact h

theorem Distinct.sync (h : t.Distinct) (live : List (CaretId × Nat)) : (t.sync live).Distinct :=
  List.foldlRecOn (motive := Distinct) live _ (h.sublist (List.filter_sublist.map _))
    fun _ h (id, offset) _ ↦ (h.add id offset).modify id _

theorem Distinct.remove (h : t.Distinct) (id : CaretId) : (t.remove id).Distinct :=
  h.sublist (List.filter_sublist.map _)

theorem Distinct.clearSelections (h : t.Distinct) : t.clearSelections.Distinct := by
  have hids : t.clearSelections.entries.map (·.1) = t.entries.map (·.1) := List.map_map
  rw [Distinct, hids]
  exact h

/-! ### Taking over the carets -/

def offset? (t : CaretTable) (id : CaretId) : Option Nat := (t.get? id).map (·.offset)

theorem offset?_noted (t : CaretTable) (id : CaretId) (offset : Nat) (other : CaretId) :
    ((t.add id offset).modify id ({ · with offset })).offset? other =
      if other = id then some offset else t.offset? other := by
  rw [offset?, get?_modify, get?_add, if_pos rfl]
  split
  · rfl
  · next h => rw [get?_add, if_neg h, offset?]

theorem offset?_foldl (live : List (CaretId × Nat)) (hlive : (live.map (·.1)).Nodup) (t : CaretTable)
    (id : CaretId) :
    (live.foldl (fun t (id, offset) ↦ (t.add id offset).modify id ({ · with offset })) t).offset? id =
      (live.lookup id).or (t.offset? id) := by
  induction live generalizing t with
  | nil => rfl
  | cons entry rest ih =>
    obtain ⟨hfirst, hrest⟩ := List.nodup_cons.mp hlive
    rw [List.foldl_cons, ih hrest, offset?_noted, lookup_cons_eq_ite]
    by_cases hid : id = entry.1
    · rw [if_pos hid, if_pos hid, hid, lookup_eq_none_of_notMem hfirst]
      rfl
    · rw [if_neg hid, if_neg hid]

/-- What the table says of a caret after it has taken over the carets there are now. -/
theorem offset?_sync (t : CaretTable) {live : List (CaretId × Nat)} (hlive : (live.map (·.1)).Nodup)
    (id : CaretId) : (t.sync live).offset? id = live.lookup id := by
  rw [sync, offset?_foldl live hlive]
  cases hfound : live.lookup id with
  | some offset => rfl
  | none =>
    rw [Option.none_or, offset?, Option.map_eq_none_iff]
    refine List.lookup_eq_none_iff.mpr fun entry hentry ↦ bne_iff_ne.mpr ?_
    rintro rfl
    obtain ⟨other, hother, heq⟩ := List.any_eq_true.mp (List.mem_filter.mp hentry).2
    have hne := List.lookup_eq_none_iff.mp hfound other hother
    rw [← of_decide_eq_true heq, bne_self_eq_false] at hne
    cases hne

/-- The table has the carets there are now, with their offsets, and no others. -/
theorem sync_perm (h : t.Distinct) {live : List (CaretId × Nat)} (hlive : (live.map (·.1)).Nodup) :
    ((t.sync live).entries.map fun entry ↦ (entry.1, entry.2.offset)).Perm live := by
  have hids : ((t.sync live).entries.map fun entry ↦ (entry.1, entry.2.offset)).map (·.1) =
      (t.sync live).entries.map (·.1) := List.map_map
  refine perm_of_lookup_eq (hids ▸ h.sync live) hlive fun id ↦ ?_
  rw [← offset?_sync t hlive id, offset?]
  exact lookup_map_values (fun _ (state : CaretState) ↦ state.offset) (t.sync live).entries id

/-- Carets that stand in the order of the table are gone through in that order. -/
theorem orderedByOffset_of_pairwise (h : t.entries.Pairwise fun a b ↦ a.2.offset ≤ b.2.offset) :
    t.orderedByOffset = t.entries.map (·.1) := by
  rw [orderedByOffset, List.mergeSort_of_pairwise (h.imp decide_eq_true)]

end CaretTable

namespace EditState

variable {s : EditState}

/-- Where the editor's carets are. -/
def caretOffsets (s : EditState) : List Nat := s.editor.caretIds.filterMap s.caretOffset?

/-- The editor is sound, and no caret is remembered twice. -/
structure Sound (s : EditState) : Prop where
  editor : s.editor.Sound
  carets : s.carets.Distinct

/-- A command finds the carets where the editor's are. -/
theorem syncCarets_offsets_perm (h : s.Sound) :
    (s.syncCarets.carets.entries.map (·.2.offset)).Perm s.caretOffsets := by
  let live := s.editor.caretIds.filterMap fun caret ↦ (s.caretOffset? caret).map (caret, ·)
  have hids : (live.map (·.1)).Nodup := by
    rw [List.map_filterMap]
    refine h.editor.distinct.filterMap fun first second caret hfirst hsecond ↦ ?_
    obtain ⟨_, -, rfl⟩ := Option.map_eq_some_iff.mp (Option.map_map .. ▸ hfirst)
    obtain ⟨_, -, heq⟩ := Option.map_eq_some_iff.mp (Option.map_map .. ▸ hsecond)
    exact heq.symm
  have hoffsets : live.map (·.2) = s.caretOffsets := by
    rw [List.map_filterMap]
    simp only [Option.map_map, Function.comp_def, Option.map_id']
    rfl
  have hperm := (CaretTable.sync_perm h.carets hids).map (·.2)
  rw [List.map_map, hoffsets] at hperm
  exact hperm

/-- What the motion or text object of an operator looks at. -/
def pendingContext (s : EditState) (argument : ActionCall) (caret : CaretId) (state : CaretState) :
    MotionContext :=
  { s.motionContext argument caret state with mode := .operatorPending, operatorPending := true }

/-- Where every caret covers a span that its offset decides, a command goes through these spans in the
order of the offsets. -/
theorem exists_plannedSpans_eq (h : s.Sound) {registry : Registry} {command : Command}
    {argument : ActionCall} {spec : ActionSpec} (hargument : command.argument = some argument)
    (hget : registry.get? argument.action = some spec) (cover : Nat → TextRange)
    (hcover : ∀ caret state, Operator.range? (s.pendingContext argument caret state) command.action
      spec.handler = some (cover state.offset)) :
    ∃ offsets : List Nat, offsets.Pairwise (· ≤ ·) ∧ offsets.Perm s.caretOffsets ∧
      (s.plannedSpans registry command).map (·.2) = offsets.map cover := by
  let entries := s.syncCarets.carets.entries
  let sorted := entries.mergeSort fun a b ↦ a.2.offset ≤ b.2.offset
  have hperm : sorted.Perm entries := List.mergeSort_perm _ _
  refine ⟨sorted.map (·.2.offset), ?_, (hperm.map _).trans (syncCarets_offsets_perm h), ?_⟩
  · refine List.pairwise_map.mpr ?_
    have htrans (a b c : CaretId × CaretState) (hab : decide (a.2.offset ≤ b.2.offset) = true)
        (hbc : decide (b.2.offset ≤ c.2.offset) = true) : decide (a.2.offset ≤ c.2.offset) = true :=
      decide_eq_true (Nat.le_trans (of_decide_eq_true hab) (of_decide_eq_true hbc))
    have htotal (a b : CaretId × CaretState) :
        (decide (a.2.offset ≤ b.2.offset) || decide (b.2.offset ≤ a.2.offset)) = true := by
      simp [Nat.le_total]
    have hsorted := List.pairwise_mergeSort htrans htotal entries
    exact hsorted.imp of_decide_eq_true
  · rw [plannedSpans_of_get? hargument hget, plannedRanges, CaretTable.orderedByOffset]
    have hplanned (entry : CaretId × CaretState) (hentry : entry ∈ sorted) :
        s.syncCarets.carets.get? entry.1 = some entry.2 :=
      (CaretTable.lookup_eq_some_iff_mem (h.carets.sync _)).mpr (hperm.mem_iff.mp hentry)
    rw [List.filterMap_map, List.map_filterMap, List.map_map, ← List.filterMap_eq_map]
    refine List.filterMap_congr fun entry hentry ↦ ?_
    rw [Function.comp_apply, hplanned entry hentry]
    show Option.map (·.2) ((Operator.range? (s.pendingContext argument entry.1 entry.2) command.action
      spec.handler).bind fun r ↦ some (entry.1, r)) = _
    rw [hcover]
    rfl

end EditState

end ModalEdit
