import ModalEdit.Proofs.CaretVisits
import ModalEdit.Proofs.StandardSession

/-!
Commands that are cancelled. A table that has the carets of the editor where they are takes over nothing
when it is brought in line (`EditState.InLine.syncCarets_eq`). A run over the carets that ends with nothing
done for any of them has passed each by (`foldl_not_done`), and an operator with nothing to act over gives up
before it holds a span (`compose_rings`). So a cancelled command, whatever the registry makes of it, rings the
bell once and does no more (`execute_rings`, `cancelled_only_rings`).
-/

set_option autoImplicit false
set_option relaxedAutoImplicit false

namespace ModalEdit

namespace CaretTable

variable {t : CaretTable}

theorem get?_of_mem (h : t.Distinct) {entry : CaretId × CaretState} (hmem : entry ∈ t.entries) :
    t.get? entry.1 = some entry.2 :=
  (lookup_eq_some_iff_mem h).mpr hmem

/-- A caret that is known to be where it is need not be noted again. -/
theorem noted_eq_self (h : t.Distinct) {id : CaretId} {offset : Nat} (hid : t.offset? id = some offset) :
    (t.add id offset).modify id ({ · with offset }) = t := by
  obtain ⟨state, hstate, rfl⟩ := Option.map_eq_some_iff.mp hid
  have hadd : t.add id state.offset = t := by rw [add, hstate, Option.isSome_some, if_pos rfl]
  have hentry (entry : CaretId × CaretState) (hmem : entry ∈ t.entries) :
      (if entry.1 = id then (id, { entry.2 with offset := state.offset }) else entry) = entry := by
    split
    · next heq =>
      have hsame : state = entry.2 := Option.some.inj (hstate.symm.trans (heq ▸ get?_of_mem h hmem))
      rw [hsame, ← heq]
    · rfl
  rw [hadd, modify, List.map_congr_left hentry, List.map_id']

/-- A table of the carets there are, with their offsets, stays as it is. -/
theorem sync_eq_self (h : t.Distinct) {live : List (CaretId × Nat)}
    (hlive : ∀ entry ∈ live, t.offset? entry.1 = some entry.2)
    (hall : ∀ entry ∈ t.entries, entry.1 ∈ live.map (·.1)) : t.sync live = t := by
  have hkept : t.entries.filter (fun entry ↦ live.any (·.1 = entry.1)) = t.entries := by
    refine List.filter_eq_self.mpr fun entry hentry ↦ ?_
    obtain ⟨other, hother, heq⟩ := List.mem_map.mp (hall entry hentry)
    exact List.any_eq_true.mpr ⟨other, hother, decide_eq_true heq⟩
  rw [sync, hkept]
  exact List.foldlRecOn (motive := (· = t)) live _ rfl fun known heq entry hentry ↦ by
    rw [heq]
    exact noted_eq_self h (hlive entry hentry)

end CaretTable

namespace EditState

variable {s : EditState}

/-- The table has the carets of the editor and no others, none twice, each where the editor has it. -/
structure InLine (s : EditState) : Prop where
  carets : s.carets.Distinct
  offsets : ∀ caret, s.carets.offset? caret = s.caretOffset? caret

theorem InLine.syncCarets_eq (h : s.InLine) : s.syncCarets = s := by
  have hsync : s.carets.sync s.liveCarets = s.carets := by
    refine CaretTable.sync_eq_self h.carets (fun entry hentry ↦ ?_) fun entry hentry ↦ ?_
    · obtain ⟨caret, -, hcaret⟩ := List.mem_filterMap.mp hentry
      obtain ⟨offset, hoffset, rfl⟩ := Option.map_eq_some_iff.mp hcaret
      exact (h.offsets caret).trans hoffset
    · have hknown : s.carets.offset? entry.1 = some entry.2.offset := by
        rw [CaretTable.offset?, CaretTable.get?_of_mem h.carets hentry, Option.map_some]
      have hoffset := (h.offsets entry.1).symm.trans hknown
      refine List.mem_map.mpr ⟨(entry.1, entry.2.offset), ?_, rfl⟩
      refine List.mem_filterMap.mpr ⟨entry.1, Editor.mem_caretIds_of_caretOffset? hoffset, ?_⟩
      rw [hoffset, Option.map_some]
  exact congrArg (fun carets ↦ { s with carets }) hsync

/-- A table that was brought in line with the editor is in line with it. -/
theorem Anchored.inLine_syncCarets (h : s.Anchored) : s.syncCarets.InLine where
  carets := h.carets.sync _
  offsets caret := by
    refine (CaretTable.offset?_sync s.carets (liveCarets_nodup h.editor) caret).trans ?_
    by_cases hmem : caret ∈ s.editor.caretIds
    · obtain ⟨offset, -, hoffset⟩ := h.editor.exists_caretOffset? hmem
      exact (lookup_liveCarets h.editor hmem hoffset).trans hoffset.symm
    · rw [CaretTable.lookup_eq_none_of_notMem (liveCarets_ids h.editor ▸ hmem)]
      refine (Option.eq_none_iff_forall_ne_some.mpr fun offset hoffset ↦ hmem ?_).symm
      exact Editor.mem_caretIds_of_caretOffset? hoffset

/-! ### Runs with nothing done -/

section NotDone

variable {f : CaretId → Bool → EditState → Bool × EditState}
  (hf : ∀ caret done t, (f caret done t).1 = true ∨ f caret done t = (done, t))
include hf

theorem foldl_done (carets : List CaretId) (s : EditState) :
    (carets.foldl (fun (done, t) caret ↦ f caret done t) (true, s)).1 = true := by
  refine List.foldlRecOn (motive := fun result : Bool × EditState ↦ result.1 = true) carets _ rfl
    fun (done, t) hdone caret _ ↦ ?_
  obtain hvisit | hpassed := hf caret done t
  · exact hvisit
  · exact (congrArg Prod.fst hpassed).trans hdone

/-- What is done for a caret is not forgotten for the next: with nothing done in the end, every caret has
been passed by. -/
theorem foldl_not_done {carets : List CaretId}
    (h : (carets.foldl (fun (done, t) caret ↦ f caret done t) (false, s)).1 = false) :
    carets.foldl (fun (done, t) caret ↦ f caret done t) (false, s) = (false, s) := by
  induction carets with
  | nil => rfl
  | cons caret rest ih =>
    rw [List.foldl_cons] at h ⊢
    dsimp only at h ⊢
    obtain hvisit | hpassed := hf caret false s
    · have hresult : f caret false s = (true, (f caret false s).2) := Prod.ext hvisit rfl
      rw [hresult, foldl_done hf rest] at h
      cases h
    · rw [hpassed] at h ⊢
      exact ih h

theorem finish_foldCarets_cancelled (h : (finish (s.foldCarets false f)).1 = .cancelled) :
    (finish (s.foldCarets false f)).2 = s.syncCarets.bell := by
  have hnone : (s.foldCarets false f).1 = false := by
    cases hresult : s.foldCarets false f with
    | mk done t =>
      cases done with
      | false => rfl
      | true =>
        rw [hresult] at h
        cases h
  have hfold : s.foldCarets false f = (false, s.syncCarets) := foldl_not_done hf hnone
  rw [hfold]
  rfl

end NotDone

theorem applyMotionTo_done_or (call : ActionCall) (f : Motion) (caret : CaretId) (done : Bool)
    (t : EditState) :
    (applyMotionTo call f caret done t).1 = true ∨ applyMotionTo call f caret done t = (done, t) := by
  unfold applyMotionTo
  split
  · exact .inr rfl
  · dsimp only
    split
    · exact .inr rfl
    · exact .inl rfl

theorem selectTextObjectAt_done_or (call : ActionCall) (f : TextObject) (caret : CaretId) (done : Bool)
    (t : EditState) :
    (selectTextObjectAt call f caret done t).1 = true ∨
      selectTextObjectAt call f caret done t = (done, t) := by
  unfold selectTextObjectAt
  split
  · exact .inr rfl
  · dsimp only
    split
    · exact .inr rfl
    · exact .inl rfl

/-! ### Cancelled commands -/

/-- The bell was rung once and nothing else was done, but that the table may have been brought in line with
the editor. -/
inductive Rings (s : EditState) : EditState → Prop
  | atOnce : Rings s s.bell
  | inLine : Rings s s.syncCarets.bell

theorem Rings.eq_bell {t : EditState} (h : s.Rings t) (hline : s.InLine) : t = s.bell := by
  cases h with
  | atOnce => rfl
  | inLine => rw [hline.syncCarets_eq]

theorem compose_rings {registry : Registry} {command : Command} {body : Operator}
    (h : (s.compose registry command body).1 = .cancelled) :
    s.Rings (s.compose registry command body).2 := by
  unfold compose at h ⊢
  split
  · exact .atOnce
  · next hargument =>
    rw [hargument] at h
    dsimp only at h ⊢
    split
    · exact .inLine
    · next hranges =>
      split at h
      · next hnone => exact absurd hnone hranges
      · cases h

/-- An operator on selections is never cancelled. -/
theorem operateOnSelections_executed (hselects : (s.mode.isVisual || s.mode.isSelect) = true)
    (command : Command) (body : Operator) : (s.operateOnSelections command body).1 = .executed := by
  unfold operateOnSelections
  cases hmode : s.mode with
  | visual _ | select _ => rfl
  | normal | insert | replace | operatorPending | commandLine =>
    rw [hmode] at hselects
    cases hselects

/-- Every way in which a command is cancelled rings the bell before it has done anything. -/
theorem execute_rings {registry : Registry} {options : Options} {command : Command}
    (h : (s.execute registry options command).1 = .cancelled) :
    s.Rings (s.execute registry options command).2 := by
  unfold execute at h ⊢
  split at h
  · exact .atOnce
  · next spec hget =>
    split at h
    · next f _ =>
      exact (finish_foldCarets_cancelled (applyMotionTo_done_or _ f) h) ▸ .inLine
    · next f _ =>
      unfold selectTextObject at h ⊢
      split at h
      · next hvisual =>
        rw [if_pos hvisual]
        exact (finish_foldCarets_cancelled (selectTextObjectAt_done_or _ f) h) ▸ .inLine
      · next hvisual =>
        rw [if_neg hvisual]
        exact .atOnce
    · next body _ =>
      split at h
      · next hselects =>
        rw [operateOnSelections_executed hselects command body] at h
        cases h
      · next hselects =>
        rw [if_neg hselects]
        exact compose_rings h
    · cases h

/-- A cancelled command changes nothing where the table is in line with the editor, however many carets
there are, whatever the mode and whatever functions are registered: the bell is rung once. -/
theorem cancelled_only_rings (hline : s.InLine) {registry : Registry} {options : Options}
    {command : Command} (h : (s.execute registry options command).1 = .cancelled) :
    let after := (s.execute registry options command).2
    after.text = s.text ∧ after.editor.registers = s.editor.registers ∧ after.modes = s.modes ∧
      after.cmdline = s.cmdline ∧ (∀ caret, after.view caret = s.view caret) ∧
      after.editor.buffer.marks.size = s.editor.buffer.marks.size ∧
      after.editor.bells = s.editor.bells + 1 ∧ after = s.bell := by
  intro after
  have hafter : after = s.bell := (execute_rings h).eq_bell hline
  rw [hafter]
  exact ⟨rfl, rfl, rfl, rfl, fun _ ↦ rfl, rfl, rfl, rfl⟩

/-- Two selections whose carets are at the starts of their lines, and so cannot go to the left. -/
theorem stuck_carets_only_ring :
    let s : EditState := EditState.syncCarets
      { editor := .ofMarked { text := "ab\ncd\n".toList, carets := [0, 3], selections := [(0, 2), (3, 4)] }
        modes := { mode := .visual .character }
        carets := ⟨[(⟨0⟩, { offset := 0, selectionStart := some 1 }),
          (⟨1⟩, { offset := 3, selectionStart := some 3 })]⟩ }
    let command : Command := { kind := .motion, action := ActionId.left, flags := Builtin.exclusive }
    let after := (s.execute .standard {} command).2
    (s.execute .standard {} command).1 = .cancelled ∧
      after.text = "ab\ncd\n".toList ∧ after.editor.selection? ⟨0⟩ = some (0, 2) ∧
      after.carets.get? ⟨0⟩ = some { offset := 0, selectionStart := some 1 } ∧
      after.editor.buffer.marks.size = 6 ∧ after.editor.bells = 1 := by
  intro s command after
  have hline : s.InLine := Anchored.inLine_syncCarets
    ⟨Editor.ofMarked_anchored
      { text := "ab\ncd\n".toList, carets := [0, 3], selections := [(0, 2), (3, 4)] }, by decide⟩
  have hget : Registry.standard.get? command.action =
      some (Builtin.motion ActionId.left Motion.left Builtin.exclusive) :=
    Registry.standard_get?_of_mem (a := Builtin.motion ActionId.left Motion.left Builtin.exclusive)
      (by simp [Builtin.actions, Builtin.motions])
  have hordered : s.syncCarets.carets.orderedByOffset = [⟨0⟩, ⟨1⟩] :=
    CaretTable.orderedByOffset_of_pairwise (by decide +kernel)
  have hcancelled : (s.execute .standard {} command).1 = .cancelled := by
    unfold execute
    rw [hget]
    show (finish (s.foldCarets false (applyMotionTo command.toActionCall Motion.left))).1 = _
    rw [foldCarets, hordered]
    decide +kernel
  obtain ⟨-, -, -, -, -, -, -, hbell⟩ := cancelled_only_rings hline hcancelled
  have hafter : after = s.bell := hbell
  rw [hafter]
  exact ⟨hcancelled, by decide +kernel⟩

end EditState

end ModalEdit
