import ModalEdit.Proofs.ClearStates
import ModalEdit.Proofs.MarkedCharacters

/-!
Every live mark has its holder. An editor accounts for its marks (`Editor.Accounted`) if each is live once
and is the place of a caret or an end of a selection, or one of the few that hold the spans of a command on
its way. Each operation of an editor keeps such an account, and an operator that is run on spans lets go of
all marks it has taken (`EditState.operate_accounted`). With nothing on its way there are then as many live
marks as carets, and two more for each selection (`Editor.Accounted.size`). That the ends of selections
keep their order is said apart (`Editor.Ordered`).
-/

set_option autoImplicit false
set_option relaxedAutoImplicit false

namespace ModalEdit

open Relation (ReflTransGen)

namespace MarkSet

variable {s : MarkSet} {mark : Mark}

/-- The live marks, oldest first. -/
def names (s : MarkSet) : List Mark := s.live.map (·.1)

theorem names_mapOffsets (s : MarkSet) (f : Mark → Nat → Nat) : (s.mapOffsets f).names = s.names :=
  List.map_map

theorem names_create (s : MarkSet) (offset : Nat) :
    (s.create offset).2.names = s.names ++ [(s.create offset).1] := List.map_append

theorem names_release (s : MarkSet) (mark : Mark) :
    (s.release mark).names = s.names.filter fun other ↦ other ≠ mark := by
  rw [names, names, List.filter_map]
  rfl

theorem Issued.lt_of_mem_names (h : s.Issued) (hmem : mark ∈ s.names) : mark.serial < s.next := by
  obtain ⟨entry, hentry, rfl⟩ := List.mem_map.mp hmem
  exact h entry hentry

theorem mem_names_of_get? {offset : Nat} (h : s.get? mark = some offset) : mark ∈ s.names := by
  obtain ⟨before, after, heq, -⟩ := List.lookup_eq_some_iff.mp h
  rw [names, heq]
  exact List.mem_map_of_mem (List.mem_append_right before List.mem_cons_self)

end MarkSet

theorem CaretMarks.length_all (m : CaretMarks) : m.all.length = 1 + 2 * m.selection.isSome.toNat := by
  obtain ⟨head, selection⟩ := m
  cases selection <;> rfl

namespace Editor

/-- No selection starts behind its end. -/
def Ordered (e : Editor) : Prop := ∀ caret start stop, e.selection? caret = some (start, stop) → start ≤ stop

/-- Every live mark is there once, and held by a caret or one of those that are loose; and selections have
their ends in order. -/
structure Accounted (loose : List Mark) (e : Editor) : Prop extends Anchored e where
  once : e.buffer.marks.names.Nodup
  covered : ∀ mark ∈ e.buffer.marks.names, e.Holds mark ∨ mark ∈ loose
  free : ∀ mark ∈ loose, ¬ e.Holds mark
  ordered : e.Ordered

variable {e after : Editor} {loose : List Mark} {caret : CaretId} {marks : CaretMarks} {mark : Mark}

/-! ### The ends of selections -/

theorem selection?_eq_some_iff {start stop : Nat} : e.selection? caret = some (start, stop) ↔
    ∃ marks, e.carets.lookup caret = some marks ∧ ∃ first last, marks.selection = some (first, last) ∧
      e.markOffset? first = some start ∧ e.markOffset? last = some stop := by
  simp [selection?, Option.bind_eq_some_iff]

/-- Marks that are moved in order leave selections in order. -/
theorem Ordered.of_mono (h : e.Ordered) (hcarets : after.carets = e.carets) {f : Nat → Nat}
    (hmono : ∀ {a b}, a ≤ b → f a ≤ f b)
    (hmarks : ∀ mark, after.markOffset? mark = (e.markOffset? mark).map f) : after.Ordered := by
  intro caret start stop hselection
  obtain ⟨marks, hlookup, first, last, hends, hfirst, hlast⟩ := selection?_eq_some_iff.mp hselection
  rw [hmarks] at hfirst hlast
  obtain ⟨a, ha, rfl⟩ := Option.map_eq_some_iff.mp hfirst
  obtain ⟨b, hb, rfl⟩ := Option.map_eq_some_iff.mp hlast
  exact hmono (h caret a b (selection?_eq_some_iff.mpr ⟨marks, hcarets ▸ hlookup, first, last, hends, ha, hb⟩))

theorem Ordered.of_same (h : e.Ordered) (hsame : ∀ caret, after.selection? caret = e.selection? caret) :
    after.Ordered := fun caret start stop hselection ↦ h caret start stop (hsame caret ▸ hselection)

/-- Every selection has been there before. -/
theorem Ordered.of_entries (h : e.Ordered) (hsound : e.Sound) (hsound' : after.Sound)
    (hbuffer : after.buffer = e.buffer)
    (hentries : ∀ entry ∈ after.carets, entry ∈ e.carets ∨ entry.2.selection = none) : after.Ordered := by
  intro caret start stop hselection
  obtain ⟨marks, hlookup, first, last, hends, hfirst, hlast⟩ := selection?_eq_some_iff.mp hselection
  rw [markOffset?, hbuffer] at hfirst hlast
  rcases hentries _ ((lookup_iff_mem hsound').mp hlookup) with hold | hnone
  · refine h caret start stop (selection?_eq_some_iff.mpr ?_)
    exact ⟨marks, (lookup_iff_mem hsound).mpr hold, first, last, hends, hfirst, hlast⟩
  · rw [hnone] at hends
    cases hends

theorem Selects.ordered {start stop : Nat} (h : Selects caret (start, stop) e after) (he : e.Ordered)
    (hle : start ≤ stop) : after.Ordered := by
  intro other a b hselection
  by_cases hother : other = caret
  · subst hother
    obtain ⟨rfl, rfl⟩ := Prod.mk.inj (Option.some.inj (h.selection.symm.trans hselection))
    exact hle
  · exact he other a b ((h.others other hother).selection ▸ hselection)

/-! ### The marks in the account -/

theorem Accounted.congr (h : e.Accounted loose) {other : List Mark}
    (hsame : ∀ mark, mark ∈ other ↔ mark ∈ loose) : e.Accounted other where
  toAnchored := h.toAnchored
  once := h.once
  covered mark hmark := (h.covered mark hmark).imp_right (hsame mark).mpr
  free mark hmark := h.free mark ((hsame mark).mp hmark)
  ordered := h.ordered

/-- The carets hold what they held, and no mark has come or gone. -/
theorem Accounted.of_names (h : e.Accounted loose) (hanchored : after.Anchored)
    (hnames : after.buffer.marks.names = e.buffer.marks.names) (hcarets : after.carets = e.carets)
    (hordered : after.Ordered) : after.Accounted loose where
  toAnchored := hanchored
  once := hnames ▸ h.once
  covered mark hmark := by
    rw [Holds, hcarets]
    exact h.covered mark (hnames ▸ hmark)
  free mark hmark := by
    rw [Holds, hcarets]
    exact h.free mark hmark
  ordered := hordered

/-- The carets take over loose marks, or let go of some. -/
theorem Accounted.hand_over (h : e.Accounted loose) {other : List Mark} (hanchored : after.Anchored)
    (hbuffer : after.buffer = e.buffer)
    (hcovered : ∀ mark, e.Holds mark ∨ mark ∈ loose → after.Holds mark ∨ mark ∈ other)
    (hfree : ∀ mark ∈ other, ¬ after.Holds mark) (hordered : after.Ordered) : after.Accounted other where
  toAnchored := hanchored
  once := hbuffer ▸ h.once
  covered mark hmark := hcovered mark (h.covered mark (hbuffer ▸ hmark))
  free := hfree
  ordered := hordered

theorem Accounted.of_buffer (h : e.Accounted loose) (hbuffer : after.buffer = e.buffer)
    (hcarets : after.carets = e.carets) (hspawned : after.nextCaret = e.nextCaret) :
    after.Accounted loose :=
  h.of_names (h.toAnchored.of_buffer hbuffer hcarets hspawned) (by rw [hbuffer]) hcarets
    (h.ordered.of_same fun _ ↦ by unfold selection? markOffset?; rw [hbuffer, hcarets])

theorem Accounted.createMark (h : e.Accounted loose) (offset : Nat) :
    (e.createMark offset).2.Accounted ((e.createMark offset).1 :: loose) where
  toAnchored := h.toAnchored.createMark offset
  once := by
    have hnew : (e.createMark offset).1 ∉ e.buffer.marks.names :=
      fun hmem ↦ Nat.lt_irrefl _ (h.issued.lt_of_mem_names hmem)
    show ((e.buffer.marks.create _).2.names).Nodup
    rw [MarkSet.names_create]
    exact List.nodup_append.mpr ⟨h.once, List.nodup_singleton _, fun mark hmark other hother heq ↦
      hnew (List.mem_singleton.mp hother ▸ heq ▸ hmark)⟩
  covered mark hmark := by
    have hcases : mark ∈ e.buffer.marks.names ++ [(e.createMark offset).1] :=
      MarkSet.names_create _ _ ▸ hmark
    rcases List.mem_append.mp hcases with hold | hnew
    · exact (h.covered mark hold).imp_right (List.mem_cons_of_mem _)
    · exact .inr (List.mem_cons.mpr (.inl (List.mem_singleton.mp hnew)))
  free := List.forall_mem_cons.mpr ⟨h.toAnchored.not_holds_of_le (Nat.le_refl _), h.free⟩
  ordered := h.ordered.of_same fun caret ↦ (h.toAnchored.createMark_keeps offset caret).selection

/-- A loose mark that is released is off the account. -/
theorem Accounted.releaseMark (h : e.Accounted (mark :: loose)) : (e.releaseMark mark).Accounted loose where
  toAnchored := h.toAnchored.releaseMark (h.free mark List.mem_cons_self)
  once := by
    show (e.buffer.marks.release mark).names.Nodup
    rw [MarkSet.names_release]
    exact h.once.sublist List.filter_sublist
  covered other hother := by
    have hleft : other ∈ (e.buffer.marks.release mark).names := hother
    rw [MarkSet.names_release, List.mem_filter, decide_eq_true_eq] at hleft
    exact (h.covered other hleft.1).imp_right fun hmem ↦ List.mem_of_ne_of_mem hleft.2 hmem
  free other hother := h.free other (List.mem_cons_of_mem _ hother)
  ordered := h.ordered.of_same fun caret ↦
    (h.toAnchored.releaseMark_keeps (h.free mark List.mem_cons_self) caret).selection

/-! ### As many marks as there are carets and ends of selections -/

theorem length_flatMap_all (carets : List (CaretId × CaretMarks)) : (carets.flatMap (·.2.all)).length =
    carets.length + 2 * carets.countP (·.2.selection.isSome) := by
  induction carets with
  | nil => rfl
  | cons entry rest ih =>
    rw [List.flatMap_cons, List.length_append, ih, CaretMarks.length_all, List.countP_cons,
      List.length_cons]
    cases entry.2.selection.isSome with
    | true => simp only [Bool.toNat_true, if_true]; omega
    | false => simp only [Bool.toNat_false, Bool.false_eq_true, if_false]; omega

theorem Anchored.nodup_flatMap_all (h : e.Anchored) : (e.carets.flatMap (·.2.all)).Nodup := by
  refine List.nodup_flatMap.mpr ⟨h.own, ?_⟩
  have hdistinct : e.carets.Pairwise fun first second ↦ first.1 ≠ second.1 := List.pairwise_map.mp h.distinct
  refine hdistinct.imp_of_mem fun {first second} hfirst hsecond hne mark hmark hmark' ↦ ?_
  exact hne (h.apart first hfirst second hsecond mark hmark hmark')

/-- With nothing on its way, each caret has a mark and each selection two, and there are no others. -/
theorem Accounted.size (h : e.Accounted []) : e.buffer.marks.size =
    e.carets.length + 2 * e.carets.countP (·.2.selection.isSome) := by
  have hperm : e.buffer.marks.names.Perm (e.carets.flatMap (·.2.all)) := by
    refine (List.perm_ext_iff_of_nodup h.once h.toAnchored.nodup_flatMap_all).mpr fun mark ↦ ?_
    rw [List.mem_flatMap]
    refine ⟨fun hmark ↦ (h.covered mark hmark).resolve_right List.not_mem_nil, fun hheld ↦ ?_⟩
    obtain ⟨offset, -, hoffset⟩ := h.live mark hheld
    exact MarkSet.mem_names_of_get? hoffset
  rw [← length_flatMap_all, ← hperm.length_eq, MarkSet.names, List.length_map]
  rfl

/-! ### Carets and selections -/

theorem Accounted.emit (h : e.Accounted loose) (event : EditorEvent) : (e.emit event).Accounted loose :=
  h.of_buffer rfl rfl rfl

theorem Accounted.setHead (h : e.Accounted loose) (caret : CaretId) (offset : Nat) :
    (e.setHead caret offset).2.Accounted loose := by
  unfold Editor.setHead
  split
  · exact h
  · next marks hlookup =>
    have hmarks := (lookup_iff_mem h.toSound).mp hlookup
    have hsame (other : CaretId) : (e.moveCaret caret offset).selection? other = e.selection? other := by
      by_cases hother : other = caret
      · rw [hother]
        exact h.toAnchored.selection?_moveCaret caret offset
      · exact (h.toAnchored.moveCaret_keeps hother offset).selection
    rw [h.toAnchored.moveCaret_eq hmarks] at hsame
    exact h.of_names (h.toAnchored.setMark _ offset) (MarkSet.names_mapOffsets _ _) rfl
      (h.ordered.of_same hsame)

theorem Accounted.moveCaret (h : e.Accounted loose) (caret : CaretId) (offset : Nat) :
    (e.moveCaret caret offset).Accounted loose := by
  have hmoved := h.setHead caret offset
  unfold Editor.moveCaret
  split
  · next he =>
    rw [he] at hmoved
    exact hmoved
  · next he =>
    rw [he] at hmoved
    exact hmoved.emit _

theorem mem_setSelectionMarks (hmem : (caret, marks) ∈ e.carets) (selection : Option (Mark × Mark)) :
    (caret, { marks with selection }) ∈ (e.setSelectionMarks caret selection).carets :=
  List.mem_map.mpr ⟨_, hmem, Prod.ext rfl (if_pos rfl)⟩

/-- What is held stays so when a caret gets other marks for its selection, but for those of the selection
it had. -/
theorem Holds.setSelectionMarks (h : e.Holds mark) (caret : CaretId) (selection : Option (Mark × Mark)) :
    (e.setSelectionMarks caret selection).Holds mark ∨
      ∃ marks, (caret, marks) ∈ e.carets ∧ ∃ ends ∈ marks.selection, mark ∈ [ends.1, ends.2] := by
  obtain ⟨⟨id, marks⟩, hentry, hmark⟩ := h
  by_cases hid : id = caret
  · subst hid
    rcases List.mem_cons.mp hmark with rfl | hends
    · exact .inl ⟨_, mem_setSelectionMarks hentry selection, CaretMarks.head_mem_all _⟩
    · cases hselection : marks.selection with
      | none =>
        rw [hselection] at hends
        cases hends
      | some ends =>
        rw [hselection] at hends
        exact .inr ⟨marks, hentry, ends, hselection, hends⟩
  · exact .inl ⟨(id, marks), List.mem_map.mpr ⟨_, hentry, Prod.ext rfl (if_neg hid)⟩, hmark⟩

theorem Accounted.storeSelection (h : e.Accounted []) (caret : CaretId) (a b : Nat) :
    (e.storeSelection caret a b).Accounted [] := by
  by_cases hmem : caret ∈ e.caretIds
  · have hselects := h.toAnchored.storeSelection_selects hmem a b
    have hanchored := hselects.anchored
    have hordered := hselects.ordered h.ordered (by omega)
    obtain ⟨⟨head, selection⟩, hmarks⟩ := exists_marks hmem
    have hlookup := (lookup_iff_mem h.toSound).mpr hmarks
    unfold Editor.storeSelection at hanchored hordered ⊢
    rw [hlookup] at hanchored hordered ⊢
    cases selection with
    | some ends =>
      exact h.of_names hanchored
        ((MarkSet.names_mapOffsets _ _).trans (MarkSet.names_mapOffsets _ _)) rfl hordered
    | none =>
      have hmarked := (h.createMark (min a b)).createMark (max a b)
      refine hmarked.hand_over hanchored rfl (fun mark hmark ↦ .inl ?_)
        (fun _ hnone ↦ absurd hnone List.not_mem_nil) hordered
      rcases hmark with hheld | hnew
      · refine (hheld.setSelectionMarks caret _).resolve_right ?_
        rintro ⟨marks, hentry, ends, hends, -⟩
        have hlookup' := (lookup_iff_mem h.toSound).mpr hentry
        obtain rfl := Option.some.inj (hlookup.symm.trans hlookup')
        cases hends
      · refine ⟨_, mem_setSelectionMarks hmarks _, ?_⟩
        rcases List.mem_pair.mp hnew with rfl | rfl
        · exact List.mem_cons_of_mem _ (List.mem_pair.mpr (.inr rfl))
        · exact List.mem_cons_of_mem _ (List.mem_pair.mpr (.inl rfl))
  · unfold Editor.storeSelection
    rwa [CaretTable.lookup_eq_none_of_notMem hmem]

theorem Accounted.clearSelection (h : e.Accounted []) (caret : CaretId) :
    (e.clearSelection caret).2.Accounted [] := by
  unfold Editor.clearSelection
  split
  · exact h
  · next first last hfound =>
    obtain ⟨marks, hlookup, hends⟩ := Option.bind_eq_some_iff.mp hfound
    have hmarks := (lookup_iff_mem h.toSound).mp hlookup
    have hdropped : (e.setSelectionMarks caret none).Accounted [first, last] := by
      refine h.hand_over (h.toAnchored.dropSelection caret) rfl (fun mark hmark ↦ ?_)
        (fun mark hmark ↦ h.toAnchored.not_holds_dropSelection hmarks hends hmark) ?_
      · have hheld := hmark.resolve_right List.not_mem_nil
        refine (hheld.setSelectionMarks caret none).imp_right ?_
        rintro ⟨marks', hentry, ends, hends', hmem⟩
        obtain rfl := Option.some.inj (hlookup.symm.trans ((lookup_iff_mem h.toSound).mpr hentry))
        obtain rfl := Option.some.inj (hends.symm.trans hends')
        exact hmem
      · refine h.ordered.of_entries h.toSound (h.toSound.setSelectionMarks caret none) rfl ?_
        refine List.forall_mem_map.mpr fun entry hentry ↦ ?_
        dsimp only
        split
        · exact .inr rfl
        · exact .inl hentry
    exact hdropped.releaseMark.releaseMark

theorem Accounted.setSelection (h : e.Accounted []) (caret : CaretId) (a b : Nat) :
    (e.setSelection caret a b).Accounted [] := by
  unfold Editor.setSelection
  dsimp only
  split
  · exact (h.storeSelection caret a b).emit _
  · exact h.storeSelection caret a b

theorem Accounted.removeSelection (h : e.Accounted []) (caret : CaretId) :
    (e.removeSelection caret).Accounted [] := by
  have hcleared := h.clearSelection caret
  unfold Editor.removeSelection
  split
  · next he =>
    rw [he] at hcleared
    exact hcleared
  · next he =>
    rw [he] at hcleared
    exact hcleared.emit _

theorem Accounted.spawnCaret (h : e.Accounted []) (offset : Nat) : (e.spawnCaret offset).2.Accounted [] := by
  have hmarked := h.createMark offset
  refine hmarked.hand_over (h.toAnchored.spawnCaret offset) rfl (fun mark hmark ↦ .inl ?_)
    (fun _ hnone ↦ absurd hnone List.not_mem_nil)
    (hmarked.ordered.of_entries hmarked.toSound (h.toSound.spawnCaret offset) rfl ?_)
  · rcases hmark with ⟨entry, hentry, hheld⟩ | hnew
    · exact ⟨entry, List.mem_append_left _ hentry, hheld⟩
    · exact ⟨_, List.mem_append_right _ List.mem_cons_self, hnew⟩
  · exact List.forall_mem_append.mpr ⟨fun _ hentry ↦ .inl hentry, List.forall_mem_singleton.mpr (.inr rfl)⟩

/-- A caret that has no selection any more rests on its head alone. -/
theorem mem_clearSelection (hlookup : e.carets.lookup caret = some marks) (hsound : e.Sound) :
    (caret, ⟨marks.head, none⟩) ∈ (e.clearSelection caret).2.carets := by
  have hmarks := (lookup_iff_mem hsound).mp hlookup
  unfold Editor.clearSelection
  split
  · next hnone =>
    have hselection : marks.selection = none := by simpa [hlookup] using hnone
    rwa [← hselection]
  · exact mem_setSelectionMarks hmarks none

theorem Anchored.sublist (h : e.Anchored) {carets : List (CaretId × CaretMarks)}
    (hsub : carets.Sublist e.carets) : Anchored { e with carets } where
  toSound := h.toSound.sublist hsub
  live mark hmark := by
    obtain ⟨entry, hentry, hmem⟩ := hmark
    exact h.live mark ⟨entry, hsub.subset hentry, hmem⟩
  own entry hentry := h.own entry (hsub.subset hentry)
  apart first hfirst second hsecond := h.apart first (hsub.subset hfirst) second (hsub.subset hsecond)

/-- Without a caret that has no selection, its mark is loose. -/
theorem Accounted.dropCaret (h : e.Accounted []) {head : Mark} (hmem : (caret, ⟨head, none⟩) ∈ e.carets) :
    Accounted [head] { e with carets := e.carets.filter (·.1 ≠ caret) } := by
  have hlookup := (lookup_iff_mem h.toSound).mpr hmem
  refine h.hand_over (h.toAnchored.sublist List.filter_sublist) rfl (fun mark hmark ↦ ?_) (fun mark hmark ↦ ?_)
    (h.ordered.of_entries h.toSound (h.toSound.sublist List.filter_sublist) rfl fun entry hentry ↦
      .inl (List.mem_of_mem_filter hentry))
  · obtain ⟨⟨id, marks⟩, hentry, hheld⟩ := hmark.resolve_right List.not_mem_nil
    by_cases hid : id = caret
    · subst hid
      obtain rfl := Option.some.inj (hlookup.symm.trans ((lookup_iff_mem h.toSound).mpr hentry))
      exact .inr hheld
    · exact .inl ⟨_, List.mem_filter.mpr ⟨hentry, decide_eq_true hid⟩, hheld⟩
  · obtain rfl := List.mem_singleton.mp hmark
    rintro ⟨entry, hentry, hheld⟩
    obtain ⟨hentry, hne⟩ := List.mem_filter.mp hentry
    exact of_decide_eq_true hne (h.apart entry hentry _ hmem mark hheld List.mem_cons_self)

theorem Accounted.removeCaret (h : e.Accounted []) (caret : CaretId) :
    (e.removeCaret caret).2.Accounted [] := by
  unfold Editor.removeCaret
  split
  · exact h
  · next marks hlookup =>
    split
    · exact h
    · have hdropped := (h.clearSelection caret).dropCaret (mem_clearSelection hlookup h.toSound)
      exact hdropped.releaseMark.emit _

/-! ### Edits of the text -/

theorem Accounted.edit (h : e.Accounted loose) (edit : TextEdit) {buffer : Buffer}
    (hbuffer : e.buffer.edit edit = buffer) (hanchored : Anchored { e with buffer }) :
    Accounted loose { e with buffer } := by
  subst hbuffer
  refine h.of_names hanchored ?_ rfl
    (h.ordered.of_mono rfl (edit.carry_mono _) (e.buffer.markOffset?_edit edit))
  show (e.buffer.edit edit).marks.names = e.buffer.marks.names
  rw [Buffer.edit_marks, MarkSet.names_mapOffsets]

theorem Rewrite.accounted (hrewrite : Rewrite e after) (h : e.Accounted loose) : after.Accounted loose := by
  cases hrewrite with
  | eraseRange a b => exact h.edit (.erase a b) rfl (h.toAnchored.eraseRange a b)
  | insertText offset s => exact h.edit (.insert offset s) rfl (h.toAnchored.insertText offset s)
  | record registers => exact h.of_buffer rfl rfl rfl

theorem rewrites_accounted (hrewrites : ReflTransGen Rewrite e after) (h : e.Accounted loose) :
    after.Accounted loose := by
  induction hrewrites with
  | refl => exact h
  | tail _ hlast ih => exact hlast.accounted ih

theorem Move.accounted (hmove : Move e after) (h : e.Accounted []) : after.Accounted [] := by
  cases hmove with
  | bell => exact h.of_buffer rfl rfl rfl
  | moveCaret caret offset => exact h.moveCaret caret offset
  | setSelection caret a b => exact h.setSelection caret a b
  | removeSelection caret => exact h.removeSelection caret

/-! ### Editors that are opened -/

theorem bare_accounted (t : Text) : Accounted [] { buffer := { text := t } } where
  toAnchored := bare_anchored t
  once := List.nodup_nil
  covered _ h := absurd h List.not_mem_nil
  free _ h := absurd h List.not_mem_nil
  ordered _ _ _ h := by
    obtain ⟨_, hlookup, -⟩ := selection?_eq_some_iff.mp h
    cases hlookup

theorem Accounted.addSelections (h : e.Accounted []) (selections : List (Nat × (Nat × Nat))) :
    (e.addSelections selections).Accounted [] := by
  induction selections generalizing e with
  | nil => exact h
  | cons selection rest ih =>
    unfold Editor.addSelections
    dsimp only
    split
    · exact ih (h.storeSelection _ _ _)
    · exact ih ((h.spawnCaret _).storeSelection _ _ _)

theorem ofText_accounted (t : Text) : (ofText t).Accounted [] := (bare_accounted t).spawnCaret 0

theorem ofMarked_accounted (m : MarkedText) : (ofMarked m).Accounted [] := by
  have hcarets := List.foldlRecOn (motive := Accounted []) m.carets
    (fun e offset ↦ (e.spawnCaret offset).2) (bare_accounted m.text) fun _ h offset _ ↦
      h.spawnCaret offset
  have hselections := hcarets.addSelections (m.selections.zipIdx.map fun entry ↦ (entry.2, entry.1))
  unfold ofMarked
  dsimp only
  split
  · exact hselections.spawnCaret 0
  · exact hselections

end Editor

/-! ### Spans on their way -/

namespace EditState

variable {s : EditState} {loose : List Mark} {body : Operator}

theorem pinAll_accounted (h : s.editor.Accounted loose) (ranges : List (CaretId × TextRange)) :
    (s.pinAll ranges).2.editor.Accounted ((s.pinAll ranges).1.flatMap PinnedRange.marks ++ loose) := by
  induction ranges generalizing s loose with
  | nil => exact h
  | cons range rest ih =>
    have hpinned := (h.createMark range.2.start).createMark range.2.stop
    refine (ih (s := (s.pin range.1 range.2).2) hpinned).congr fun mark ↦ ?_
    simp only [pinAll, pin, List.flatMap_cons, PinnedRange.marks, List.mem_append, List.mem_cons,
      List.not_mem_nil, or_false]
    grind

theorem unpin_accounted {p : PinnedRange} (h : s.editor.Accounted (p.marks ++ loose)) :
    (s.unpin p).2.editor.Accounted loose :=
  Editor.Accounted.releaseMark (Editor.Accounted.releaseMark h)

theorem operateOn_accounted (hbody : body.Rewrites) (call : ActionCall) (nextMode : Mode) {p : PinnedRange}
    (h : s.editor.Accounted (p.marks ++ loose)) :
    (operateOn call body nextMode s p).2.editor.Accounted loose := by
  have hunpinned := unpin_accounted h
  unfold operateOn
  split
  · next he =>
    rw [he] at hunpinned
    exact hunpinned
  · next range t he =>
    rw [he] at hunpinned
    exact (Editor.rewrites_accounted (hbody.editor t.editor _) hunpinned).moveCaret p.caret _

/-- An operator run on all spans takes marks to hold them and lets go of all of them. -/
theorem operate_accounted (h : s.editor.Accounted []) (hbody : body.Rewrites) (call : ActionCall)
    (ranges : List (CaretId × TextRange)) : (s.operate call body ranges).2.editor.Accounted [] := by
  have hrun (pins : List PinnedRange) (result : Mode × EditState)
      (hresult : result.2.editor.Accounted (pins.flatMap PinnedRange.marks)) :
      (pins.foldl (fun result p ↦ operateOn call body result.1 result.2 p) result).2.editor.Accounted [] := by
    induction pins generalizing result with
    | nil => exact hresult
    | cons p rest ih => exact ih _ (operateOn_accounted hbody call result.1 hresult)
  have hpinned := pinAll_accounted h ranges
  rw [List.append_nil] at hpinned
  exact operate_keeps_editor Editor.Move.accounted (hrun _ _ hpinned)

end EditState

end ModalEdit
