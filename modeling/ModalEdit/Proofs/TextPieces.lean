import Mathlib.Data.List.Basic
import Mathlib.Logic.Function.Basic
import ModalEdit.Proofs.CaretVisits

/-!
A text that is cut at its carets. Taken in the order in which they stand, the carets cut the text
into pieces, each of which ends at its caret, and a tail behind the last (`EditState.Cut`). Typing
at one caret, or taking back what stands before it, changes the piece of that caret and no other
(`Cut.typeAt`, `Cut.eraseBefore`), so that carets that are gone through one after the other all get
longer pieces, or shorter ones (`Cut.insertAtCarets`, `Cut.backspace`). Where carets meet, all but
one of the pieces between them are empty, and what is typed at one of them goes in before the
others: of two carets that meet, the one that is come by first ends behind the other
(`EditState.Ready`). Any text can be cut so (`exists_cut`).
-/

set_option autoImplicit false
set_option relaxedAutoImplicit false

namespace ModalEdit

/-- A piece that is not among those put together does not matter. -/
theorem flatMap_update_of_notMem {carets : List CaretId} {caret : CaretId} (h : caret ∉ carets)
    (piece : CaretId → Text) (new : Text) :
    carets.flatMap (Function.update piece caret new) = carets.flatMap piece := by
  refine List.flatMap_congr fun other hother ↦
    Function.update_of_ne (a := other) (fun heq ↦ ?_) new piece
  exact h (heq ▸ hother)

namespace EditState

/-- In some order, each caret stands at the end of a piece of its own, and the pieces and a tail are
the whole text. -/
structure Cut (s : EditState) (order : List CaretId) (piece : CaretId → Text)
    (tail : Text) : Prop where
  anchored : s.Anchored
  carets : order.Perm s.editor.caretIds
  text : s.text = order.flatMap piece ++ tail
  ends : ∀ before caret after, order = before ++ caret :: after →
    s.caretOffset? caret = some ((before.flatMap piece).length + (piece caret).length)

variable {s t : EditState} {order before after : List CaretId} {caret : CaretId}
    {piece : CaretId → Text}
  {tail new typed : Text}

namespace Cut

theorem nodup (h : Cut s order piece tail) :
    order.Nodup := h.carets.nodup_iff.mpr h.anchored.editor.distinct

theorem text_split (h : Cut s (before ++ caret :: after) piece tail) :
    s.text = before.flatMap piece ++ piece caret ++ (after.flatMap piece ++ tail) := by
  rw [h.text, List.flatMap_append, List.flatMap_cons]
  simp only [List.append_assoc]

theorem notMem (h : Cut s (before ++ caret :: after) piece tail) :
    caret ∉ before ∧ caret ∉ after := by
  have hnodup := h.nodup
  rw [List.nodup_append, List.nodup_cons] at hnodup
  exact ⟨fun hmem ↦ hnodup.2.2 caret hmem caret List.mem_cons_self rfl, hnodup.2.1.1⟩

/-- The carets before one stand before its piece. -/
theorem le_of_mem_before (h : Cut s (before ++ caret :: after) piece tail) {other : CaretId}
    (hother : other ∈ before) :
    ∃ offset ≤ (before.flatMap piece).length, s.caretOffset? other = some offset := by
  obtain ⟨front, back, rfl⟩ := List.append_of_mem hother
  refine ⟨_, ?_, h.ends front other (back ++ caret :: after) (by simp)⟩
  simp

/-- The carets behind one stand at the end of its piece or further on. -/
theorem exists_of_mem_after (h : Cut s (before ++ caret :: after) piece tail) {other : CaretId}
    (hother : other ∈ after) : ∃ front back, after = front ++ other :: back ∧
      s.caretOffset? other = some ((before.flatMap piece).length + (piece caret).length +
        ((front.flatMap piece).length + (piece other).length)) := by
  obtain ⟨front, back, rfl⟩ := List.append_of_mem hother
  refine ⟨front, back, rfl, ?_⟩
  rw [h.ends (before ++ caret :: front) other back (by simp)]
  simp
  omega

/-- One piece may be changed for another: the carets before stay, and those behind go by as much as
it is longer or shorter. -/
theorem replace (h : Cut s (before ++ caret :: after) piece tail) (hanchored : t.Anchored)
    (hids : t.editor.caretIds = s.editor.caretIds)
    (htext : t.text = before.flatMap piece ++ new ++ (after.flatMap piece ++ tail))
    (hself : t.caretOffset? caret = some ((before.flatMap piece).length + new.length))
    (hbefore : ∀ other ∈ before, t.caretOffset? other = s.caretOffset? other)
    (hafter : ∀ other ∈ after, ∀ further, s.caretOffset? other =
        some ((before.flatMap piece).length + (piece caret).length + further) →
      t.caretOffset? other = some ((before.flatMap piece).length + new.length + further)) :
    Cut t (before ++ caret :: after) (Function.update piece caret new) tail where
  anchored := hanchored
  carets := hids ▸ h.carets
  text := by
    rw [htext, List.flatMap_append, List.flatMap_cons, flatMap_update_of_notMem h.notMem.1,
      flatMap_update_of_notMem h.notMem.2, Function.update_self]
    simp only [List.append_assoc]
  ends front other back heq := by
    obtain ⟨hfront, hback⟩ := h.notMem
    rcases List.append_eq_append_iff.mp heq with ⟨middle, rfl, hrest⟩ | ⟨middle, rfl, hrest⟩
    · cases middle with
      | nil =>
        -- the caret itself
        obtain ⟨rfl, rfl⟩ := List.cons.inj hrest
        rw [List.append_nil, flatMap_update_of_notMem hfront, Function.update_self]
        exact hself
      | cons first middle =>
        -- a caret behind it
        obtain ⟨rfl, rfl⟩ := List.cons.inj hrest
        have hne : other ≠ caret := fun h ↦ hback (h ▸ List.mem_append_right _ List.mem_cons_self)
        have hends := h.ends (before ++ caret :: middle) other back (by simp)
        rw [hafter other (by simp) ((middle.flatMap piece).length + (piece other).length)
          (by rw [hends]; simp; omega)]
        rw [Function.update_of_ne hne, List.flatMap_append, List.flatMap_cons,
          flatMap_update_of_notMem hfront, flatMap_update_of_notMem fun h ↦
            hback (List.mem_append_left _ h), Function.update_self]
        simp only [List.length_append]
        congr 1
        omega
    · cases middle with
      | nil =>
        obtain ⟨rfl, rfl⟩ := List.cons.inj hrest
        rw [List.append_nil] at hself hfront
        rw [flatMap_update_of_notMem hfront, Function.update_self]
        exact hself
      | cons first middle =>
        -- a caret before it
        obtain ⟨rfl, rfl⟩ := List.cons.inj hrest
        have hne : other ≠ caret := fun h ↦ hfront (h ▸ List.mem_append_right _ List.mem_cons_self)
        rw [hbefore other (by simp), h.ends front other (middle ++ caret :: after) (by simp),
          Function.update_of_ne hne, flatMap_update_of_notMem fun h ↦
            hfront (List.mem_append_left _ h)]

/-- Two states that are cut alike have the same text, and the same carets at the same places. -/
theorem same (h : Cut s order piece tail) (h' : Cut t order piece tail) :
    t.text = s.text ∧ ∀ caret, t.caretOffset? caret = s.caretOffset? caret := by
  have hnone {u : EditState} (h : Cut u order piece tail) {caret : CaretId} (hmem : caret ∉ order) :
      u.caretOffset? caret = none := by
    unfold caretOffset? Editor.caretOffset?
    rw [CaretTable.lookup_eq_none_of_notMem fun h' ↦ hmem (h.carets.symm.subset h')]
    rfl
  refine ⟨h'.text.trans h.text.symm, fun caret ↦ ?_⟩
  by_cases hmem : caret ∈ order
  · obtain ⟨before, after, heq⟩ := List.append_of_mem hmem
    exact (h'.ends before caret after heq).trans (h.ends before caret after heq).symm
  · exact (hnone h' hmem).trans (hnone h hmem).symm

/-- The carets stand where their pieces end, and so further and further on. -/
theorem exists_offsets (h : Cut s order piece tail) : ∃ offset : CaretId → Nat,
    (∀ caret ∈ order, s.caretOffset? caret = some (offset caret)) ∧
      (order.Pairwise fun first second ↦ offset first ≤ offset second) ∧
      ∀ before caret after, order = before ++ caret :: after →
        offset caret = (before.flatMap piece).length + (piece caret).length := by
  let offset : CaretId → Nat := fun caret ↦ (s.caretOffset? caret).getD 0
  have hends (before : List CaretId) (caret : CaretId) (after : List CaretId)
      (heq : order = before ++ caret :: after) :
      offset caret = (before.flatMap piece).length + (piece caret).length := by
    simp only [offset, h.ends before caret after heq, Option.getD_some]
  refine ⟨offset, fun caret hcaret ↦ ?_, ?_, hends⟩
  · obtain ⟨before, after, heq⟩ := List.append_of_mem hcaret
    rw [hends before caret after heq, h.ends before caret after heq]
  · refine List.pairwise_iff_getElem.mpr fun i j hi hj hij ↦ ?_
    have hsplit : order = order.take j ++ order[j] :: order.drop (j + 1) := by
      rw [← List.drop_eq_getElem_cons, List.take_append_drop]
    obtain ⟨place, hle, hplace⟩ :=
      le_of_mem_before (hsplit ▸ h) (List.mem_take_iff_getElem.mpr ⟨i, by omega, rfl⟩)
    rw [hends _ _ _ hsplit]
    simp only [offset, hplace, Option.getD_some]
    omega

end Cut

/-! ### One caret -/

/-- What typing does at one caret. -/
def typeAt (typed : Text) (caret : CaretId) (s : EditState) : EditState :=
  match s.caretOffset? caret with
  | none => s
  | some offset => { s with editor := s.editor.insertText offset typed }.moveCaret caret
    (offset + typed.length)

/-- What taking back does at one caret. -/
def eraseBefore (caret : CaretId) (s : EditState) : EditState :=
  match s.caretOffset? caret with
  | none | some 0 => s
  | some (before + 1) =>
    { s with editor := (s.editor.eraseRange before (before + 1)).2 }.moveCaret caret before

theorem backspace_eq (h : s.mode ≠ .replace) : s.backspace = s.forCarets eraseBefore := by
  unfold backspace
  rw [bne_iff_ne.mpr h]
  rfl

/-- Typing at a caret makes its piece longer, if the caret behind it stands further on. -/
theorem Cut.typeAt (h : Cut s (before ++ caret :: after) piece tail)
    (hnext : ∀ next ∈ after.head?, piece next ≠ []) (typed : Text) :
    Cut (typeAt typed caret s) (before ++ caret :: after)
    (Function.update piece caret (piece caret ++ typed))
      tail := by
  have hmem : caret ∈ s.editor.caretIds := h.carets.subset (by simp)
  have hoffset := h.ends before caret after rfl
  obtain ⟨offset, ho⟩ :
      ∃ offset, offset = (before.flatMap piece).length + (piece caret).length := ⟨_, rfl⟩
  rw [← ho] at hoffset
  have hle : offset ≤ s.text.length := h.anchored.editor.caretOffset?_le hoffset
  let u : EditState := { s with editor := s.editor.insertText offset typed }
  have hu : u.Anchored := ⟨h.anchored.editor.insertText offset typed, h.anchored.carets⟩
  have htouches := moveCaret_touches hu caret (offset + typed.length)
  have htext : u.text = before.flatMap piece ++ (piece caret ++ typed) ++
      (after.flatMap piece ++ tail) := by
    show s.text.insert offset typed = _
    rw [h.text_split, Text.insert, List.take_left' (by simp [ho]), List.drop_left' (by simp [ho])]
    simp only [List.append_assoc]
  have hshift (other : CaretId) (hne : other ≠ caret) :
      (u.moveCaret caret (offset + typed.length)).caretOffset?
      other = (s.caretOffset? other).map (MarkSet.offsetAfterInsert offset typed.length) := by
    rw [show (u.moveCaret caret (offset + typed.length)).caretOffset? other =
      u.caretOffset? other from
      congrArg CaretView.offset? (htouches.others other hne)]
    refine (s.editor.caretOffset?_insertText offset typed other).trans ?_
    rw [show s.editor.text.length = s.text.length from rfl, Nat.min_eq_left hle]
    rfl
  unfold EditState.typeAt
  rw [hoffset]
  refine h.replace htouches.anchored htouches.ids (htouches.text.trans htext) ?_
    (fun other hother ↦ ?_)
    fun other hother further hfurther ↦ ?_
  · refine (hu.editor.caretOffset?_moveCaret hmem _).trans ?_
    rw [show u.editor.text = u.text from rfl, htext]
    simp [ho]
    omega
  · obtain ⟨place, hplace, heq⟩ := h.le_of_mem_before hother
    rw [hshift other fun h' ↦ h.notMem.1 (h' ▸ hother), heq, Option.map_some,
      MarkSet.offsetAfterInsert, if_neg]
    omega
  · have hfar : 0 < further := by
      obtain ⟨front, back, rfl, heq⟩ := h.exists_of_mem_after hother
      rw [heq, Option.some.injEq] at hfurther
      cases front with
      | nil =>
        have := List.length_pos_iff.mpr (hnext other rfl)
        omega
      | cons first front =>
        have := List.length_pos_iff.mpr (hnext first rfl)
        simp at hfurther
        omega
    rw [hshift other fun h' ↦ h.notMem.2 (h' ▸ hother), hfurther, Option.map_some,
      MarkSet.offsetAfterInsert, if_pos (by omega), List.length_append]
    congr 1
    omega

/-- Taking back at a caret makes its piece shorter. -/
theorem Cut.eraseBefore (h : Cut s (before ++ caret :: after) piece tail) (hne : piece caret ≠ []) :
    Cut (eraseBefore caret s) (before ++ caret :: after)
    (Function.update piece caret (piece caret).dropLast)
      tail := by
  have hmem : caret ∈ s.editor.caretIds := h.carets.subset (by simp)
  obtain ⟨front, last, hpiece⟩ : ∃ front last, piece caret = front ++ [last] :=
    ⟨_, _, (List.dropLast_concat_getLast hne).symm⟩
  obtain ⟨place, hp⟩ : ∃ place, place = (before.flatMap piece).length + front.length := ⟨_, rfl⟩
  have hoffset : s.caretOffset? caret = some (place + 1) := by
    rw [h.ends before caret after rfl, hpiece]
    simp [hp]
    omega
  have hle : place + 1 ≤ s.text.length := h.anchored.editor.caretOffset?_le hoffset
  let u : EditState := { s with editor := (s.editor.eraseRange place (place + 1)).2 }
  have hu : u.Anchored := ⟨h.anchored.editor.eraseRange _ _, h.anchored.carets⟩
  have htouches := moveCaret_touches hu caret place
  have htext : u.text = before.flatMap piece ++ front ++ (after.flatMap piece ++ tail) := by
    show s.text.erase place (place + 1) = _
    rw [Text.erase, Nat.min_eq_left (by omega), Nat.max_eq_right (by omega), h.text_split, hpiece]
    rw [show before.flatMap piece ++ (front ++ [last]) ++ (after.flatMap piece ++ tail) =
      (before.flatMap piece ++ front) ++ ([last] ++ (after.flatMap piece ++ tail)) by simp]
    rw [List.take_left' (by simp [hp]), ← List.drop_drop, List.drop_left' (by simp [hp])]
    rfl
  have hshift (other : CaretId) (hne : other ≠ caret) :
      (u.moveCaret caret place).caretOffset? other =
      (s.caretOffset? other).map (MarkSet.offsetAfterErase place (place + 1)) := by
    rw [show (u.moveCaret caret place).caretOffset? other = u.caretOffset? other from
      congrArg CaretView.offset? (htouches.others other hne)]
    refine (s.editor.caretOffset?_eraseRange place (place + 1) other).trans ?_
    rw [show s.editor.text.length = s.text.length from rfl, Nat.min_eq_left (Nat.le_succ place),
      Nat.max_eq_right (Nat.le_succ place), Nat.min_eq_left hle,
      Nat.min_eq_left (Nat.le_of_succ_le hle)]
    rfl
  unfold EditState.eraseBefore
  rw [hoffset, hpiece, List.dropLast_concat]
  refine h.replace htouches.anchored htouches.ids (htouches.text.trans htext) ?_
    (fun other hother ↦ ?_)
    fun other hother further hfurther ↦ ?_
  · refine (hu.editor.caretOffset?_moveCaret hmem _).trans ?_
    rw [show u.editor.text = u.text from rfl, htext]
    simp [hp]
  · obtain ⟨offset, hoffset, heq⟩ := h.le_of_mem_before hother
    rw [hshift other fun h' ↦ h.notMem.1 (h' ▸ hother), heq, Option.map_some,
      MarkSet.offsetAfterErase, if_neg (by omega), Nat.min_eq_left (by omega)]
  · rw [hshift other fun h' ↦ h.notMem.2 (h' ▸ hother), hfurther, Option.map_some,
      MarkSet.offsetAfterErase, hpiece]
    simp only [List.length_append, List.length_singleton]
    rw [if_pos (by omega)]
    congr 1
    omega

/-! ### All carets -/

/-- Of two carets that meet, the one that is to end behind the other is yet to be come by before it.
-/
def Ready (order : List CaretId) (piece : CaretId → Text) (visits : List CaretId) : Prop :=
  ∀ before caret next after, order = before ++ caret :: next :: after → caret ∈ visits →
    piece next = [] →
    visits.idxOf next < visits.idxOf caret

theorem ready_of_ne_nil (h : ∀ caret ∈ order, piece caret ≠ []) (visits : List CaretId) :
    Ready order piece visits := by
  rintro before caret next after rfl - hnil
  exact absurd hnil (h next (by simp))

/-- Once a caret has typed, all is ready for those that are left. -/
theorem Ready.rest {visits : List CaretId} (h : Ready order piece (caret :: visits))
    (hcaret : caret ∉ visits) (hnew : new ≠ []) :
    Ready order (Function.update piece caret new) visits := by
  intro before other next after horder hother hnil
  have hnext : next ≠ caret := by
    rintro rfl
    rw [Function.update_self] at hnil
    exact hnew hnil
  have hne : other ≠ caret := fun heq ↦ hcaret (heq ▸ hother)
  rw [Function.update_of_ne hnext] at hnil
  have hlt := h before other next after horder (List.mem_cons_of_mem _ hother) hnil
  rw [List.idxOf_cons_ne _ hnext.symm, List.idxOf_cons_ne _ hne.symm] at hlt
  exact Nat.lt_of_succ_lt_succ hlt

theorem Ready.next_ne_nil {visits : List CaretId}
    (h : Ready (before ++ caret :: after) piece (caret :: visits)) :
    ∀ next ∈ after.head?, piece next ≠ [] := by
  intro next hnext hnil
  obtain ⟨rest, rfl⟩ := List.head?_eq_some_iff.mp hnext
  have hlt := h before caret next rest rfl List.mem_cons_self hnil
  rw [List.idxOf_cons_self] at hlt
  exact Nat.not_lt_zero _ hlt

/-- Pieces once some of the carets have been come by. -/
def visited (f : Text → Text) (visits : List CaretId) (piece : CaretId → Text) : CaretId → Text :=
  fun caret ↦ if caret ∈ visits then f (piece caret) else piece caret

theorem visited_update (f : Text → Text) {visits : List CaretId} (h : caret ∉ visits)
    (piece : CaretId → Text) :
    visited f visits (Function.update piece caret (f (piece caret))) =
      visited f (caret :: visits) piece := by
  funext other
  unfold visited
  by_cases heq : other = caret
  · rw [heq, if_neg h, if_pos List.mem_cons_self, Function.update_self]
  · simp only [Function.update_of_ne heq, List.mem_cons, heq, false_or]

theorem Cut.congr (h : Cut s order piece tail) {other : CaretId → Text}
    (heq : ∀ caret ∈ order, other caret = piece caret) : Cut s order other tail where
  anchored := h.anchored
  carets := h.carets
  text := by rw [h.text, List.flatMap_congr heq]
  ends before caret after horder := by
    rw [h.ends before caret after horder, heq caret (by simp [horder]),
      List.flatMap_congr fun other hother ↦ heq other (by simp [horder, hother])]

/-- The carets are come by one after the other. -/
theorem Cut.foldl {visit : CaretId → EditState → EditState} {f : Text → Text}
    {ready : (CaretId → Text) → List CaretId → Prop}
    (hvisit : ∀ (s : EditState) (piece : CaretId → Text) (caret : CaretId) (visits : List CaretId),
      Cut s order piece tail → caret ∈ order → caret ∉ visits → ready piece (caret :: visits) →
      Cut (visit caret s) order (Function.update piece caret (f (piece caret))) tail ∧
        ready (Function.update piece caret (f (piece caret))) visits)
    {visits : List CaretId} (hnodup : visits.Nodup) (hsub : visits ⊆ order)
    (h : Cut s order piece tail) (hready : ready piece visits) :
    Cut (visits.foldl (fun s caret ↦ visit caret s) s) order (visited f visits piece) tail := by
  induction visits generalizing s piece with
  | nil => exact h.congr fun caret _ ↦ if_neg List.not_mem_nil
  | cons caret rest ih =>
    obtain ⟨hfirst, hrest⟩ := List.nodup_cons.mp hnodup
    obtain ⟨hmem, hsubrest⟩ := List.cons_subset.mp hsub
    obtain ⟨hcut, hnext⟩ := hvisit s piece caret rest h hmem hfirst hready
    rw [List.foldl_cons, ← visited_update f hfirst]
    exact ih hrest hsubrest hcut hnext

/-! ### All carets -/

theorem Cut.syncCarets (h : Cut s order piece tail) : Cut s.syncCarets order piece tail :=
  ⟨h.anchored.syncCarets, h.carets, h.text, h.ends⟩

theorem Cut.withGuard (h : Cut s order piece tail) (guard : SuppressionGuard) :
    Cut { s with editor := { s.editor with guard } } order piece tail :=
  ⟨⟨h.anchored.editor.of_buffer rfl rfl rfl, h.anchored.carets⟩, h.carets, h.text, h.ends⟩

theorem Cut.forCarets (h : Cut s order piece tail) (visit : CaretId → EditState → EditState)
    (f : Text → Text) (ready : (CaretId → Text) → List CaretId → Prop)
    (hvisit : ∀ (s : EditState) (piece : CaretId → Text) (caret : CaretId) (visits : List CaretId),
      Cut s order piece tail → caret ∈ order → caret ∉ visits → ready piece (caret :: visits) →
      Cut (visit caret s) order (Function.update piece caret (f (piece caret))) tail ∧
        ready (Function.update piece caret (f (piece caret))) visits)
    (hready : ready piece s.syncCarets.carets.orderedByOffset) :
    Cut (s.forCarets visit) order (fun caret ↦ f (piece caret)) tail := by
  have hperm := (orderedByOffset_perm h.anchored).trans h.carets.symm
  refine (h.syncCarets.foldl hvisit (hperm.nodup_iff.mpr h.nodup) hperm.subset
    hready).congr fun caret hcaret ↦ ?_
  exact (if_pos (hperm.symm.subset hcaret)).symm

/-- What is typed at all carets goes to the end of each piece. -/
theorem Cut.insertAtCarets (h : Cut s order piece tail)
    (hready : Ready order piece s.syncCarets.carets.orderedByOffset) (hne : typed ≠ []) :
    Cut (s.insertAtCarets typed) order (fun caret ↦ piece caret ++ typed) tail := by
  refine h.forCarets (EditState.typeAt typed) (· ++ typed) (Ready order)
    (fun s piece caret visits h hmem hfirst hready ↦ ?_) hready
  obtain ⟨before, after, rfl⟩ := List.append_of_mem hmem
  exact ⟨h.typeAt hready.next_ne_nil typed,
    hready.rest hfirst (List.append_ne_nil_of_right_ne_nil _ hne)⟩

/-- What is taken back at all carets is taken from the end of each piece. -/
theorem Cut.backspace (h : Cut s order piece tail) (hmode : s.mode ≠ .replace)
    (hne : ∀ caret ∈ order, piece caret ≠ []) :
    Cut s.backspace order (fun caret ↦ (piece caret).dropLast) tail := by
  rw [backspace_eq hmode]
  have hperm := (orderedByOffset_perm h.anchored).trans h.carets.symm
  refine h.forCarets EditState.eraseBefore List.dropLast
    (fun piece visits ↦ ∀ caret ∈ visits, piece caret ≠ [])
    (fun s piece caret visits h hmem hfirst hready ↦ ?_) fun caret hcaret ↦
      hne caret (hperm.subset hcaret)
  obtain ⟨before, after, rfl⟩ := List.append_of_mem hmem
  refine ⟨h.eraseBefore (hready caret List.mem_cons_self), fun other hother ↦ ?_⟩
  have hother' : other ≠ caret := fun heq ↦ hfirst (heq ▸ hother)
  rw [Function.update_of_ne hother']
  exact hready other (List.mem_cons_of_mem _ hother)

/-! ### Any text -/

/-- A text can be cut at offsets that do not go back. -/
theorem exists_pieces (t : Text) (offset : CaretId → Nat) {order : List CaretId}
    (hnodup : order.Nodup) (hsorted : order.Pairwise fun a b ↦ offset a ≤ offset b)
    (hend : ∀ caret ∈ order, offset caret ≤ t.length) {start : Nat}
    (hstart : ∀ caret ∈ order, start ≤ offset caret) :
    ∃ piece tail, t.drop start = order.flatMap piece ++ tail ∧
      ∀ before caret after, order = before ++ caret :: after →
        offset caret = start + ((before.flatMap piece).length + (piece caret).length) := by
  induction order generalizing start with
  | nil => exact ⟨fun _ ↦ [], t.drop start, rfl, fun before caret after h ↦ by simp at h⟩
  | cons first rest ih =>
    obtain ⟨hfirst, hrest⟩ := List.nodup_cons.mp hnodup
    obtain ⟨hle, hsorted⟩ := List.pairwise_cons.mp hsorted
    have hfrom := hstart first List.mem_cons_self
    have hto := hend first List.mem_cons_self
    obtain ⟨piece, tail, htext, hends⟩ := ih hrest hsorted
      (fun caret hcaret ↦ hend caret (List.mem_cons_of_mem _ hcaret)) hle
    refine ⟨Function.update piece first ((t.drop start).take (offset first - start)), tail, ?_, ?_⟩
    · rw [List.flatMap_cons, Function.update_self, flatMap_update_of_notMem hfirst,
        List.append_assoc, ← htext]
      conv_lhs => rw [← List.take_append_drop (offset first - start) (t.drop start), List.drop_drop]
      rw [Nat.add_sub_cancel' hfrom]
    · intro before caret after heq
      cases before with
      | nil =>
        obtain ⟨rfl, rfl⟩ := List.cons.inj heq
        simp
        omega
      | cons other before =>
        obtain ⟨rfl, rfl⟩ := List.cons.inj heq
        rw [hends before caret after rfl, List.flatMap_cons, Function.update_self,
          flatMap_update_of_notMem fun h ↦ hfirst (List.mem_append_left _ h),
          Function.update_of_ne fun h ↦ hfirst (by rw [← h]; simp)]
        simp
        omega

/-- Any text is cut at its carets, and so that all is ready for them to be come by in some order. -/
theorem exists_cut (h : s.Anchored) {visits : List CaretId}
    (hvisits : visits.Perm s.editor.caretIds) :
    ∃ order piece tail, Cut s order piece tail ∧ Ready order piece visits := by
  let offset : CaretId → Nat := fun caret ↦ (s.caretOffset? caret).getD 0
  -- of those that meet, the one that is come by first is to be the last
  let le (a b : CaretId) : Bool :=
    offset a < offset b ∨ offset a = offset b ∧ visits.idxOf b ≤ visits.idxOf a
  let order := visits.mergeSort le
  have hle_trans (a b c : CaretId) (hab : le a b = true) (hbc : le b c = true) : le a c = true := by
    simp only [le, decide_eq_true_eq] at hab hbc ⊢
    omega
  have hle_total (a b : CaretId) : (le a b || le b a) = true := by
    simp only [le, Bool.or_eq_true, decide_eq_true_eq]
    omega
  have hperm : order.Perm s.editor.caretIds := (List.mergeSort_perm _ _).trans hvisits
  have hknown : ∀ caret ∈ order, s.caretOffset? caret = some (offset caret) ∧
      offset caret ≤ s.text.length := by
    intro caret hcaret
    obtain ⟨place, hle, hplace⟩ := h.editor.exists_caretOffset? (hperm.subset hcaret)
    have hsome : s.caretOffset? caret = some place := hplace
    simp only [offset, hsome, Option.getD_some]
    exact ⟨trivial, hle⟩
  have hsorted : order.Pairwise fun a b ↦ le a b = true :=
    List.pairwise_mergeSort hle_trans hle_total visits
  obtain ⟨piece, tail, htext, hends⟩ :=
    exists_pieces s.text offset (hperm.nodup_iff.mpr h.editor.distinct)
    (hsorted.imp fun hle ↦ (of_decide_eq_true hle).elim Nat.le_of_lt fun h ↦ Nat.le_of_eq h.1)
    (fun caret hcaret ↦ (hknown caret hcaret).2) fun caret _ ↦ Nat.zero_le _
  have hcut : Cut s order piece tail := by
    refine ⟨h, hperm, htext, fun before caret after heq ↦ ?_⟩
    rw [(hknown caret (by simp [heq])).1, hends before caret after heq, Nat.zero_add]
  refine ⟨order, piece, tail, hcut, fun before caret next after heq hcaret hnil ↦ ?_⟩
  have hmeet : offset next = offset caret := by
    rw [hends (before ++ [caret]) next after (by simp [heq]),
      hends before caret (next :: after) heq, hnil, List.flatMap_append, List.flatMap_singleton,
      List.length_append]
    rfl
  have hle : le caret next = true := by
    rw [heq] at hsorted
    exact (List.pairwise_cons.mp (List.pairwise_append.mp hsorted).2.1).1 next List.mem_cons_self
  have hne : next ≠ caret := by
    have hnodup := hcut.nodup
    rw [heq] at hnodup
    rintro rfl
    exact (List.nodup_cons.mp (List.nodup_append.mp hnodup).2.1).1 List.mem_cons_self
  have hindex : visits.idxOf next ≠ visits.idxOf caret := fun hsame ↦ hne ((List.idxOf_inj (by
    refine hvisits.symm.subset (hperm.subset ?_)
    simp [heq])).mp hsame)
  simp only [le, decide_eq_true_eq, hmeet] at hle
  omega

/-! ### Copies -/

theorem length_flatMap_append (carets : List CaretId) (piece : CaretId → Text) (typed : Text) :
    (carets.flatMap fun caret ↦ piece caret ++ typed).length =
      (carets.flatMap piece).length + carets.length * typed.length := by
  induction carets with
  | nil => simp
  | cons caret rest ih =>
    simp only [List.flatMap_cons, List.length_append, List.length_cons, ih, Nat.succ_mul]
    omega

/-- A copy that goes in at each of the ends, from the last to the first, makes each piece longer. -/
theorem foldr_insert (order : List CaretId) (piece : CaretId → Text) {offset : CaretId → Nat}
    (front tail typed : Text)
    (hends : ∀ before caret after, order = before ++ caret :: after →
      offset caret = front.length + ((before.flatMap piece).length + (piece caret).length)) :
    order.foldr (fun caret t ↦ Text.insert t (offset caret) typed)
    (front ++ (order.flatMap piece ++ tail)) =
      front ++ ((order.flatMap fun caret ↦ piece caret ++ typed) ++ tail) := by
  induction order generalizing front with
  | nil => rfl
  | cons first rest ih =>
    have hfirst : offset first = (front ++ piece first).length := by
      rw [hends [] first rest rfl]
      simp
    have hrest := ih (front ++ piece first) fun before caret after heq ↦ by
      rw [hends (first :: before) caret after (by simp [heq])]
      simp
      omega
    rw [List.foldr_cons, List.flatMap_cons]
    rw [show front ++ (piece first ++ rest.flatMap piece ++ tail) =
      front ++ piece first ++ (rest.flatMap piece ++ tail) by simp, hrest]
    rw [hfirst, Text.insert, List.take_left, List.drop_left, List.flatMap_cons]
    simp

variable {u : EditState}

/-- Carets that all have the same at the end of their pieces, over what they had before. -/
theorem Cut.copies (h : Cut s order piece tail)
    (hcopies : Cut u order (fun caret ↦ piece caret ++ typed) tail)
    (heq : order = before ++ caret :: after) {offset : Nat}
    (hoffset : s.caretOffset? caret = some offset) :
    u.caretOffset? caret = some (offset + (before.length + 1) * typed.length) ∧
      u.text.slice (offset + before.length * typed.length)
      (offset + (before.length + 1) * typed.length) = typed := by
  subst heq
  obtain rfl := Option.some.inj (hoffset.symm.trans (h.ends before caret after rfl))
  constructor
  · rw [hcopies.ends before caret after rfl, length_flatMap_append, List.length_append,
      Nat.succ_mul]
    congr 1
    omega
  · have htext : u.text = ((before.flatMap fun caret ↦ piece caret ++ typed) ++ piece caret) ++
        (typed ++ ((after.flatMap fun caret ↦ piece caret ++ typed) ++ tail)) := by
      rw [hcopies.text_split]
      simp only [List.append_assoc]
    rw [htext, Text.slice, Nat.min_eq_left (by rw [Nat.succ_mul]; omega),
      Nat.max_eq_right (by rw [Nat.succ_mul]; omega),
      List.drop_left' (by rw [List.length_append, length_flatMap_append]; omega),
      List.take_left' (by rw [Nat.succ_mul]; omega)]

end EditState

end ModalEdit
