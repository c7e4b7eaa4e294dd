import ModalEdit.Editor.Marked

/-!
Looking up marks. Each operation on marks changes the look-up of one mark or of all in the same way
(`get?_mapOffsets`, `get?_release_of_ne`, `get?_create_of_ne`). That a mark given out now is none of those
in use rests on every mark in use having been given out before (`Editor.Sound`), which holds of an editor
over a text with carets anywhere (`Editor.ofMarked_sound`) and is kept by all that commands and gestures do
to an editor.
-/

set_option autoImplicit false
set_option relaxedAutoImplicit false

namespace ModalEdit

section Lookup

variable {α β γ : Type} [DecidableEq α]

theorem lookup_cons_eq_ite (entry : α × β) (rest : List (α × β)) (a : α) :
    (entry :: rest).lookup a = if a = entry.1 then some entry.2 else rest.lookup a := by
  rw [List.lookup_cons]
  by_cases h : a = entry.1
  · rw [if_pos h, beq_iff_eq.mpr h]
  · rw [if_neg h, beq_false_of_ne h]

theorem lookup_map_values (f : α → β → γ) (l : List (α × β)) (a : α) :
    (l.map fun (a, b) ↦ (a, f a b)).lookup a = (l.lookup a).map (f a) := by
  induction l with
  | nil => rfl
  | cons entry rest ih =>
    rw [List.map_cons, lookup_cons_eq_ite, lookup_cons_eq_ite, ih]
    by_cases h : a = entry.1
    · rw [if_pos h, if_pos h, h, Option.map_some]
    · rw [if_neg h, if_neg h]

/-- Dropping entries under other keys changes nothing. -/
theorem lookup_filter_of_forall {p : α × β → Bool} {a : α} (h : ∀ b, p (a, b) = true)
    (l : List (α × β)) : (l.filter p).lookup a = l.lookup a := by
  induction l with
  | nil => rfl
  | cons entry rest ih =>
    rw [List.filter_cons, lookup_cons_eq_ite]
    split
    case isTrue => rw [lookup_cons_eq_ite, ih]
    case isFalse hdropped =>
      rw [if_neg fun ha ↦ hdropped (by simpa only [ha] using h entry.2), ih]

end Lookup

namespace MarkSet

variable {s : MarkSet} {mark other : Mark}

/-- Every live mark has been given out. -/
def Issued (s : MarkSet) : Prop := ∀ entry ∈ s.live, entry.1.serial < s.next

instance (s : MarkSet) : Decidable s.Issued := inferInstanceAs (Decidable (∀ _ ∈ _, _))

/-! ### What is found -/

theorem get?_mapOffsets (s : MarkSet) (f : Mark → Nat → Nat) (mark : Mark) :
    (s.mapOffsets f).get? mark = (s.get? mark).map (f mark) :=
  lookup_map_values f s.live mark

theorem mapOffsets_id (s : MarkSet) : (s.mapOffsets fun _ offset ↦ offset) = s :=
  congrArg (MarkSet.mk s.next) (List.map_id s.live)

theorem mapOffsets_mapOffsets (s : MarkSet) (f g : Mark → Nat → Nat) :
    (s.mapOffsets f).mapOffsets g = s.mapOffsets fun mark offset ↦ g mark (f mark offset) :=
  congrArg (MarkSet.mk s.next) List.map_map

theorem get?_set_of_ne (hne : other ≠ mark) (offset : Nat) :
    (s.set mark offset).get? other = s.get? other := by
  rw [set, get?_mapOffsets]
  simp only [if_neg hne, Option.map_id']

theorem get?_release_of_ne (hne : other ≠ mark) : (s.release mark).get? other = s.get? other :=
  lookup_filter_of_forall (fun _ ↦ decide_eq_true hne) s.live

theorem get?_create_of_ne (offset : Nat) (hne : mark ≠ (s.create offset).1) :
    (s.create offset).2.get? mark = s.get? mark := by
  show (s.live ++ [((⟨s.next⟩ : Mark), offset)]).lookup mark = s.live.lookup mark
  have hother : mark ≠ (⟨s.next⟩ : Mark) := hne
  rw [List.lookup_append, lookup_cons_eq_ite, if_neg hother, List.lookup_nil, Option.or_none]

/-- A new mark is found where it was put. -/
theorem get?_create (h : s.Issued) (offset : Nat) :
    (s.create offset).2.get? (s.create offset).1 = some offset := by
  show (s.live ++ [((⟨s.next⟩ : Mark), offset)]).lookup (⟨s.next⟩ : Mark) = some offset
  have hfresh : s.live.lookup (⟨s.next⟩ : Mark) = none := by
    refine List.lookup_eq_none_iff.mpr fun entry hentry ↦ ?_
    have hlt : entry.1.serial < s.next := h entry hentry
    rw [bne_iff_ne]
    rintro heq
    rw [← heq] at hlt
    exact Nat.lt_irrefl _ hlt
  rw [List.lookup_append, hfresh, Option.none_or, lookup_cons_eq_ite, if_pos rfl]

/-! ### What has been given out -/

theorem Issued.mapOffsets (h : s.Issued) (f : Mark → Nat → Nat) : (s.mapOffsets f).Issued := by
  intro entry hentry
  obtain ⟨before, hbefore, rfl⟩ := List.mem_map.mp hentry
  exact h before hbefore

theorem Issued.set (h : s.Issued) (mark : Mark) (offset : Nat) : (s.set mark offset).Issued :=
  h.mapOffsets _

theorem Issued.release (h : s.Issued) (mark : Mark) : (s.release mark).Issued :=
  fun entry hentry ↦ h entry (List.mem_filter.mp hentry).1

theorem Issued.create (h : s.Issued) (offset : Nat) : (s.create offset).2.Issued := by
  intro entry hentry
  rcases List.mem_append.mp hentry with hold | hnew
  · exact Nat.lt_succ_of_lt (h entry hold)
  · rw [List.mem_singleton.mp hnew]
    exact Nat.lt_succ_self s.next

end MarkSet

namespace Editor

/-- Every mark that is live, every mark that a caret rests on and every caret has been given out, so that the
next one to be given out is none of them; and no caret is there twice. -/
structure Sound (e : Editor) : Prop where
  issued : e.buffer.marks.Issued
  heads : ∀ caret ∈ e.carets, caret.2.head.serial < e.buffer.marks.next
  spawned : ∀ caret ∈ e.carets, caret.1.serial < e.nextCaret
  distinct : e.caretIds.Nodup

instance (e : Editor) : Decidable e.Sound :=
  decidable_of_iff (e.buffer.marks.Issued ∧ (∀ caret ∈ e.carets, caret.2.head.serial < e.buffer.marks.next) ∧
    (∀ caret ∈ e.carets, caret.1.serial < e.nextCaret) ∧ e.caretIds.Nodup)
    ⟨fun h ↦ ⟨h.1, h.2.1, h.2.2.1, h.2.2.2⟩, fun h ↦ ⟨h.issued, h.heads, h.spawned, h.distinct⟩⟩

variable {e : Editor}

/-- What gives out neither marks nor carets keeps the editor sound if it keeps the live marks given out. -/
theorem Sound.of_eq {after : Editor} (h : e.Sound) (hissued : after.buffer.marks.Issued)
    (hnext : after.buffer.marks.next = e.buffer.marks.next) (hcarets : after.carets = e.carets)
    (hspawned : after.nextCaret = e.nextCaret) : after.Sound where
  issued := hissued
  heads := by
    rw [hcarets, hnext]
    exact h.heads
  spawned := by
    rw [hcarets, hspawned]
    exact h.spawned
  distinct := by
    rw [caretIds, hcarets]
    exact h.distinct

theorem Sound.createMark (h : e.Sound) (offset : Nat) : (e.createMark offset).2.Sound where
  issued := h.issued.create _
  heads caret hcaret := Nat.lt_succ_of_lt (h.heads caret hcaret)
  spawned := h.spawned
  distinct := h.distinct

theorem Sound.eraseRange (h : e.Sound) (a b : Nat) : (e.eraseRange a b).2.Sound :=
  h.of_eq (h.issued.mapOffsets _) rfl rfl rfl

theorem Sound.insertText (h : e.Sound) (offset : Nat) (s : Text) : (e.insertText offset s).Sound :=
  h.of_eq (h.issued.mapOffsets _) rfl rfl rfl

theorem Sound.spawnCaret (h : e.Sound) (offset : Nat) : (e.spawnCaret offset).2.Sound where
  issued := h.issued.create _
  heads := by
    refine List.forall_mem_append.mpr ⟨fun caret hcaret ↦ Nat.lt_succ_of_lt (h.heads caret hcaret), ?_⟩
    exact List.forall_mem_singleton.mpr (Nat.lt_succ_self e.buffer.marks.next)
  spawned := by
    refine List.forall_mem_append.mpr ⟨fun caret hcaret ↦ Nat.lt_succ_of_lt (h.spawned caret hcaret), ?_⟩
    exact List.forall_mem_singleton.mpr (Nat.lt_succ_self e.nextCaret)
  distinct := by
    have hnew : (⟨e.nextCaret⟩ : CaretId) ∉ e.caretIds := by
      intro hmem
      obtain ⟨caret, hcaret, heq⟩ := List.mem_map.mp hmem
      have hlt := h.spawned caret hcaret
      rw [heq] at hlt
      exact Nat.lt_irrefl _ hlt
    have hids : (e.spawnCaret offset).2.caretIds = e.caretIds ++ [⟨e.nextCaret⟩] := List.map_append
    rw [hids]
    refine List.nodup_append.mpr ⟨h.distinct, List.pairwise_singleton _ _, fun caret hcaret other hother ↦ ?_⟩
    rw [List.mem_singleton.mp hother]
    rintro rfl
    exact hnew hcaret

theorem Sound.setSelectionMarks (h : e.Sound) (caret : CaretId) (selection : Option (Mark × Mark)) :
    (e.setSelectionMarks caret selection).Sound where
  issued := h.issued
  heads := by
    refine List.forall_mem_map.mpr fun entry hentry ↦ ?_
    have hlt := h.heads entry hentry
    dsimp only
    split <;> exact hlt
  spawned := List.forall_mem_map.mpr h.spawned
  distinct := by
    have hids : (e.setSelectionMarks caret selection).caretIds = e.caretIds := List.map_map
    rw [hids]
    exact h.distinct

theorem Sound.storeSelection (h : e.Sound) (caret : CaretId) (a b : Nat) :
    (e.storeSelection caret a b).Sound := by
  unfold Editor.storeSelection
  split
  · exact h
  · next first last _ => exact h.of_eq ((h.issued.set first _).set last _) rfl rfl rfl
  · exact ((h.createMark _).createMark _).setSelectionMarks caret _

/-! ### Editors that are opened -/

/-- An editor that nothing has been given out in. -/
theorem bare_sound (t : Text) : Sound { buffer := { text := t } } :=
  ⟨fun _ h ↦ absurd h List.not_mem_nil, fun _ h ↦ absurd h List.not_mem_nil,
    fun _ h ↦ absurd h List.not_mem_nil, List.nodup_nil⟩

theorem Sound.addSelections (h : e.Sound) (selections : List (Nat × (Nat × Nat))) :
    (e.addSelections selections).Sound := by
  induction selections generalizing e with
  | nil => exact h
  | cons selection rest ih =>
    unfold Editor.addSelections
    dsimp only
    split
    · exact ih (h.storeSelection _ _ _)
    · exact ih ((h.spawnCaret _).storeSelection _ _ _)

/-- An editor over any text is sound, with carets and selections anywhere in it. -/
theorem ofMarked_sound (m : MarkedText) : (ofMarked m).Sound := by
  have hcarets := List.foldlRecOn (motive := Sound) m.carets
    (fun e offset ↦ (e.spawnCaret offset).2) (bare_sound m.text) fun _ h offset _ ↦ h.spawnCaret offset
  have hselections := hcarets.addSelections
    (m.selections.zipIdx.map fun entry ↦ (entry.2, entry.1))
  unfold ofMarked
  dsimp only
  split
  · exact hselections.spawnCaret 0
  · exact hselections

end Editor

end ModalEdit
