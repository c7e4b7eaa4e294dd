import ModalEdit.Proofs.SoundSessions

/-!
Carets on live marks of their own. An editor is anchored (`Editor.Anchored`) if the marks that its
carets and selections rest on are live, lie in the text, and are used once each. Moving a caret or a
selection then changes nothing but that caret or selection, and an edit of the text carries every
caret along with the text around it. All editors that are built are anchored (`ofMarked_anchored`),
and whatever a user or a command does keeps them so, one lemma per operation.
-/

set_option autoImplicit false
set_option relaxedAutoImplicit false

namespace ModalEdit

open CaretTable (lookup_eq_some_iff_mem lookup_eq_none_of_notMem)

/-- The marks of a caret. -/
def CaretMarks.all (m : CaretMarks) : List Mark :=
  m.head :: m.selection.elim [] fun ends ↦ [ends.1, ends.2]

theorem CaretMarks.head_mem_all (m : CaretMarks) : m.head ∈ m.all := List.mem_cons_self

namespace MarkSet

/-- A mark keeps its place when another is given out. -/
theorem get?_create_of_lt {s : MarkSet} {mark : Mark} (h : mark.serial < s.next) (offset : Nat) :
    (s.create offset).2.get? mark = s.get? mark := by
  refine get?_create_of_ne offset ?_
  rintro rfl
  exact Nat.lt_irrefl _ h

theorem get?_set {s : MarkSet} {mark : Mark} {before : Nat} (h : s.get? mark = some before)
    (offset : Nat) :
    (s.set mark offset).get? mark = some offset := by
  rw [set, get?_mapOffsets, h, Option.map_some, if_pos rfl]

/-- What is found has been given out. -/
theorem Issued.lt_of_get? {s : MarkSet} (h : s.Issued) {mark : Mark} {offset : Nat}
    (hfound : s.get? mark = some offset) : mark.serial < s.next := by
  obtain ⟨before, after, heq, -⟩ := List.lookup_eq_some_iff.mp hfound
  refine h (mark, offset) ?_
  rw [heq]
  exact List.mem_append_right _ List.mem_cons_self

end MarkSet

namespace Editor

/-- A caret or a selection rests on a mark. -/
def Holds (e : Editor) (mark : Mark) : Prop := ∃ entry ∈ e.carets, mark ∈ entry.2.all

/-- A mark is live and lies in the text. -/
def Live (e : Editor) (mark : Mark) : Prop :=
  ∃ offset ≤ e.text.length, e.markOffset? mark = some offset

/-- Carets and selections rest on live marks, each on its own. -/
structure Anchored (e : Editor) : Prop extends Sound e where
  live : ∀ mark, e.Holds mark → e.Live mark
  own : ∀ entry ∈ e.carets, entry.2.all.Nodup
  apart : ∀ first ∈ e.carets, ∀ second ∈ e.carets, ∀ mark ∈ first.2.all, mark ∈ second.2.all →
    first.1 = second.1

variable {e after : Editor} {caret other : CaretId} {marks : CaretMarks} {mark : Mark}

/-! ### What a caret rests on -/

theorem lookup_iff_mem (h : e.Sound) :
    e.carets.lookup caret = some marks ↔ (caret, marks) ∈ e.carets :=
  lookup_eq_some_iff_mem h.distinct

theorem exists_marks (hmem : caret ∈ e.caretIds) : ∃ marks, (caret, marks) ∈ e.carets := by
  obtain ⟨⟨_, marks⟩, hentry, rfl⟩ := List.mem_map.mp hmem
  exact ⟨marks, hentry⟩

theorem caretOffset?_of_lookup (h : e.carets.lookup caret = some marks) :
    e.caretOffset? caret = e.markOffset? marks.head := by
  rw [caretOffset?, h, Option.bind_some]

theorem mem_caretIds_of_caretOffset? {offset : Nat} (h : e.caretOffset? caret = some offset) :
    caret ∈ e.caretIds := by
  obtain ⟨marks, hmarks, -⟩ := Option.bind_eq_some_iff.mp h
  by_contra hnot
  rw [CaretTable.lookup_eq_none_of_notMem hnot] at hmarks
  cases hmarks

theorem selection?_of_lookup_none (h : e.carets.lookup caret = some marks)
    (hnone : marks.selection = none) :
    e.selection? caret = none := by
  simp [selection?, h, hnone]

theorem selection?_of_lookup_some (h : e.carets.lookup caret = some marks) {first last : Mark}
    (hsome : marks.selection = some (first, last)) {start stop : Nat}
    (hstart : e.markOffset? first = some start) (hstop : e.markOffset? last = some stop) :
    e.selection? caret = some (start, stop) := by
  simp [selection?, h, hsome, hstart, hstop]

/-- A caret and its selection are where they were. -/
structure Keeps (caret : CaretId) (before after : Editor) : Prop where
  offset : after.caretOffset? caret = before.caretOffset? caret
  selection : after.selection? caret = before.selection? caret

theorem Keeps.refl (caret : CaretId) (e : Editor) : Keeps caret e e := ⟨rfl, rfl⟩

theorem Keeps.trans {first middle last : Editor} (h₁ : Keeps caret first middle)
    (h₂ : Keeps caret middle last) : Keeps caret first last :=
  ⟨h₂.offset.trans h₁.offset, h₂.selection.trans h₁.selection⟩

/-- A caret whose marks are the same and have not moved is where it was. -/
theorem Keeps.of_eq (hlookup : after.carets.lookup caret = e.carets.lookup caret)
    (hmarks : ∀ marks, e.carets.lookup caret = some marks → ∀ mark ∈ marks.all,
      after.markOffset? mark = e.markOffset? mark) : Keeps caret e after := by
  unfold Editor.markOffset? at hmarks
  constructor
  · unfold caretOffset? markOffset?
    rw [hlookup]
    cases hfound : e.carets.lookup caret with
    | none => rfl
    | some marks => exact hmarks marks hfound _ marks.head_mem_all
  · unfold selection? markOffset?
    rw [hlookup]
    cases hfound : e.carets.lookup caret with
    | none => rfl
    | some marks =>
      obtain ⟨head, selection⟩ := marks
      cases selection with
      | none => rfl
      | some ends =>
        have hfirst := hmarks _ hfound ends.1 (by simp [CaretMarks.all])
        have hlast := hmarks _ hfound ends.2 (by simp [CaretMarks.all])
        simp [hfirst, hlast]

theorem Anchored.exists_caretOffset? (h : e.Anchored) (hmem : caret ∈ e.caretIds) :
    ∃ offset ≤ e.text.length, e.caretOffset? caret = some offset := by
  obtain ⟨marks, hmarks⟩ := exists_marks hmem
  obtain ⟨offset, hle, hoffset⟩ := h.live marks.head ⟨_, hmarks, marks.head_mem_all⟩
  exact ⟨offset, hle, (caretOffset?_of_lookup ((lookup_iff_mem h.toSound).mpr hmarks)).trans
    hoffset⟩

/-- A selection on marks is seen. -/
theorem Anchored.exists_selection? (h : e.Anchored) (hmem : (caret, marks) ∈ e.carets)
    (hstored : marks.selection ≠ none) :
    ∃ start stop, e.selection? caret = some (start, stop) ∧ stop ≤ e.text.length := by
  obtain ⟨⟨first, last⟩, hends⟩ := Option.ne_none_iff_exists'.mp hstored
  have hheld : ∀ mark ∈ [first, last], e.Holds mark := fun mark hmark ↦
    ⟨_, hmem, by simpa [CaretMarks.all, hends] using Or.inr (List.mem_pair.mp hmark)⟩
  obtain ⟨start, -, hstart⟩ := h.live first (hheld _ (List.mem_pair.mpr (.inl rfl)))
  obtain ⟨stop, hle, hstop⟩ := h.live last (hheld _ (List.mem_pair.mpr (.inr rfl)))
  exact ⟨start, stop, selection?_of_lookup_some ((lookup_iff_mem h.toSound).mpr hmem) hends hstart hstop, hle⟩

theorem Anchored.caretOffset?_le (h : e.Anchored) {offset : Nat}
    (hoffset : e.caretOffset? caret = some offset) :
    offset ≤ e.text.length := by
  by_cases hmem : caret ∈ e.caretIds
  · obtain ⟨_, hle, hsame⟩ := h.exists_caretOffset? hmem
    exact Option.some.inj (hsame.symm.trans hoffset) ▸ hle
  · rw [caretOffset?, lookup_eq_none_of_notMem hmem] at hoffset
    cases hoffset

theorem Anchored.lt_of_holds (h : e.Anchored) (hmark : e.Holds mark) :
    mark.serial < e.buffer.marks.next := by
  obtain ⟨offset, -, hoffset⟩ := h.live mark hmark
  exact h.issued.lt_of_get? hoffset

/-- A mark that is given out now is held by no caret. -/
theorem Anchored.not_holds_of_le (h : e.Anchored) (hle : e.buffer.marks.next ≤ mark.serial) :
    ¬ e.Holds mark :=
  fun hmark ↦ Nat.lt_irrefl _ (Nat.lt_of_lt_of_le (h.lt_of_holds hmark) hle)

/-- What leaves the carets as they are keeps them anchored if it keeps the marks of theirs live. -/
theorem Anchored.of_eq (h : e.Anchored) (hsound : after.Sound) (hcarets : after.carets = e.carets)
    (hlive : ∀ mark, e.Holds mark → after.Live mark) : after.Anchored where
  toSound := hsound
  live mark hmark := hlive mark (by rwa [Holds, hcarets] at hmark)
  own := by
    rw [hcarets]
    exact h.own
  apart := by
    rw [hcarets]
    exact h.apart

/-- The text and the marks of the carets are the same. -/
theorem Anchored.of_same (h : e.Anchored) (hsound : after.Sound) (hcarets : after.carets = e.carets)
    (htext : after.text = e.text)
    (hmarks : ∀ mark, e.Holds mark → after.markOffset? mark = e.markOffset? mark) :
    after.Anchored := by
  refine h.of_eq hsound hcarets fun mark hmark ↦ ?_
  obtain ⟨offset, hle, hoffset⟩ := h.live mark hmark
  exact ⟨offset, htext ▸ hle, (hmarks mark hmark).trans hoffset⟩

/-- Neither the text nor the marks nor the carets are concerned. -/
theorem Anchored.of_buffer (h : e.Anchored) (hbuffer : after.buffer = e.buffer)
    (hcarets : after.carets = e.carets) (hspawned : after.nextCaret = e.nextCaret) :
    after.Anchored := by
  refine h.of_same (h.toSound.of_eq ?_ ?_ hcarets hspawned) hcarets ?_ fun mark _ ↦ ?_
  · rw [hbuffer]
    exact h.issued
  · rw [hbuffer]
  · rw [text, hbuffer]
    rfl
  · rw [markOffset?, hbuffer]
    rfl

/-! ### Marks of no caret -/

theorem Anchored.createMark (h : e.Anchored) (offset : Nat) : (e.createMark offset).2.Anchored :=
  h.of_same (h.toSound.createMark offset) rfl rfl fun _ hmark ↦
    MarkSet.get?_create_of_lt (h.lt_of_holds hmark) _

theorem Anchored.releaseMark (h : e.Anchored) (hmark : ¬ e.Holds mark) :
    (e.releaseMark mark).Anchored :=
  h.of_same (h.toSound.releaseMark mark) rfl rfl fun _ hheld ↦
    markOffset?_releaseMark_of_ne fun heq ↦ hmark (heq ▸ hheld)

theorem Anchored.createMark_keeps (h : e.Anchored) (offset : Nat) (caret : CaretId) :
    Keeps caret e (e.createMark offset).2 :=
  .of_eq rfl fun _ hlookup _ hmark ↦ MarkSet.get?_create_of_lt
    (h.lt_of_holds ⟨_, (lookup_iff_mem h.toSound).mp hlookup, hmark⟩) _

theorem Anchored.releaseMark_keeps (h : e.Anchored) (hmark : ¬ e.Holds mark) (caret : CaretId) :
    Keeps caret e (e.releaseMark mark) :=
  .of_eq rfl fun _ hlookup _ hheld ↦ markOffset?_releaseMark_of_ne fun heq ↦
    hmark (heq ▸ ⟨_, (lookup_iff_mem h.toSound).mp hlookup, hheld⟩)

theorem Anchored.emit (h : e.Anchored) (event : EditorEvent) : (e.emit event).Anchored :=
  h.of_buffer rfl rfl rfl

/-! ### Carets that are moved -/

/-- A mark that is set lies in the text, and the others do not move. -/
theorem Anchored.setMark (h : e.Anchored) (mark : Mark) (offset : Nat) :
    Anchored { e with buffer := e.buffer.setMark mark offset } := by
  refine h.of_eq (h.toSound.of_eq (h.issued.set _ _) rfl rfl rfl) rfl fun other hother ↦ ?_
  obtain ⟨before, hle, hbefore⟩ := h.live other hother
  by_cases heq : other = mark
  · subst heq
    exact ⟨_, Nat.min_le_right _ _, MarkSet.get?_set hbefore _⟩
  · exact ⟨before, hle, (MarkSet.get?_set_of_ne heq _).trans hbefore⟩

/-- Setting a mark of one caret leaves the others where they are. -/
theorem Anchored.setMark_keeps (h : e.Anchored) (hmem : (caret, marks) ∈ e.carets)
    (hmark : mark ∈ marks.all) (hne : other ≠ caret) (offset : Nat) :
    Keeps other e { e with buffer := e.buffer.setMark mark offset } := by
  refine .of_eq rfl fun marks' hother mark' hmark' ↦ MarkSet.get?_set_of_ne ?_ _
  rintro rfl
  exact hne (h.apart _ ((lookup_iff_mem h.toSound).mp hother) _ hmem _ hmark' hmark)

theorem setMark_of_live (h : e.Live mark) (offset : Nat) :
    (e.buffer.setMark mark offset).markOffset? mark = some (min offset e.text.length) := by
  obtain ⟨before, -, hbefore⟩ := h
  exact MarkSet.get?_set hbefore _

theorem Anchored.live_of_mem (h : e.Anchored) (hmem : (caret, marks) ∈ e.carets)
    (hmark : mark ∈ marks.all) :
    e.Live mark := h.live mark ⟨_, hmem, hmark⟩

theorem Anchored.moveCaret_eq (h : e.Anchored) (hmem : (caret, marks) ∈ e.carets) (offset : Nat) :
    e.moveCaret caret offset = Editor.emit { e with buffer := e.buffer.setMark marks.head offset }
      (.caretMoved caret (min offset e.text.length)) := by
  unfold Editor.moveCaret setHead
  rw [(lookup_iff_mem h.toSound).mpr hmem]
  simp only [markOffset?, setMark_of_live (h.live_of_mem hmem marks.head_mem_all)]

theorem moveCaret_of_notMem (hmem : caret ∉ e.caretIds) (offset : Nat) :
    e.moveCaret caret offset = e := by
  unfold Editor.moveCaret setHead
  rw [lookup_eq_none_of_notMem hmem]

theorem Anchored.moveCaret (h : e.Anchored) (caret : CaretId) (offset : Nat) :
    (e.moveCaret caret offset).Anchored := by
  by_cases hmem : caret ∈ e.caretIds
  · obtain ⟨marks, hmarks⟩ := exists_marks hmem
    rw [h.moveCaret_eq hmarks]
    exact (h.setMark marks.head offset).emit _
  · rwa [moveCaret_of_notMem hmem]

theorem Anchored.caretOffset?_moveCaret (h : e.Anchored) (hmem : caret ∈ e.caretIds)
    (offset : Nat) :
    (e.moveCaret caret offset).caretOffset? caret = some (min offset e.text.length) := by
  obtain ⟨marks, hmarks⟩ := exists_marks hmem
  rw [h.moveCaret_eq hmarks, ← setMark_of_live (h.live_of_mem hmarks marks.head_mem_all)]
  exact caretOffset?_of_lookup ((lookup_iff_mem h.toSound).mpr hmarks)

theorem Anchored.moveCaret_keeps (h : e.Anchored) (hne : other ≠ caret) (offset : Nat) :
    Keeps other e (e.moveCaret caret offset) := by
  by_cases hmem : caret ∈ e.caretIds
  · obtain ⟨marks, hmarks⟩ := exists_marks hmem
    have hkeeps := h.setMark_keeps hmarks marks.head_mem_all hne offset
    rw [h.moveCaret_eq hmarks]
    exact ⟨hkeeps.offset, hkeeps.selection⟩
  · rw [moveCaret_of_notMem hmem]
    exact .refl other e

/-- A caret leaves its selection where it is. -/
theorem Anchored.selection?_moveCaret (h : e.Anchored) (caret : CaretId) (offset : Nat) :
    (e.moveCaret caret offset).selection? caret = e.selection? caret := by
  by_cases hmem : caret ∈ e.caretIds
  · obtain ⟨⟨head, selection⟩, hmarks⟩ := exists_marks hmem
    have hown := h.own _ hmarks
    have hlookup := (lookup_iff_mem h.toSound).mpr hmarks
    rw [h.moveCaret_eq hmarks]
    cases selection with
    | none =>
      rw [selection?_of_lookup_none hlookup rfl]
      exact selection?_of_lookup_none hlookup rfl
    | some ends =>
      have hkept {mark : Mark} (hmark : mark ∈ [ends.1, ends.2]) :
          (e.buffer.setMark head offset).markOffset? mark = e.buffer.markOffset? mark := by
        refine MarkSet.get?_set_of_ne ?_ _
        rintro rfl
        exact (List.nodup_cons.mp hown).1 hmark
      unfold Editor.selection? Editor.markOffset?
      simp only [Editor.emit, hkept (List.mem_pair.mpr (.inl rfl)),
        hkept (List.mem_pair.mpr (.inr rfl)), hlookup, Option.bind_eq_bind, Option.bind_some]
  · rw [moveCaret_of_notMem hmem]

/-! ### Selections -/

theorem lookup_setSelectionMarks (e : Editor) (caret : CaretId) (selection : Option (Mark × Mark))
    (other : CaretId) : (e.setSelectionMarks caret selection).carets.lookup other =
      (e.carets.lookup other).map fun marks ↦
        if other = caret then { marks with selection } else marks :=
  lookup_map_values (fun id (marks : CaretMarks) ↦
    if id = caret then ({ marks with selection } : CaretMarks) else marks) e.carets other

theorem caretIds_setSelectionMarks (e : Editor) (caret : CaretId)
    (selection : Option (Mark × Mark)) :
    (e.setSelectionMarks caret selection).caretIds = e.caretIds := List.map_map

/-- A caret keeps its head, whatever its selection rests on. -/
theorem caretOffset?_setSelectionMarks (e : Editor) (caret : CaretId)
    (selection : Option (Mark × Mark)) (other : CaretId) :
    (e.setSelectionMarks caret selection).caretOffset? other = e.caretOffset? other := by
  unfold caretOffset?
  rw [lookup_setSelectionMarks]
  cases e.carets.lookup other with
  | none => rfl
  | some marks =>
    show markOffset? _ (if other = caret then { marks with selection } else marks).head = _
    split <;> rfl

theorem selection?_setSelectionMarks_of_ne (e : Editor) (selection : Option (Mark × Mark))
    (hne : other ≠ caret) :
    (e.setSelectionMarks caret selection).selection? other = e.selection? other := by
  unfold selection?
  rw [lookup_setSelectionMarks]
  simp only [if_neg hne, Option.map_id']
  rfl

/-- Other marks for a selection, which are live and of no caret, keep the carets anchored. -/
theorem Anchored.setSelectionMarks (h : e.Anchored) (caret : CaretId) {first last : Mark}
    (hfirst : ¬ e.Holds first) (hlast : ¬ e.Holds last) (hne : first ≠ last)
    (hlive : ∀ mark ∈ [first, last], e.Live mark) :
    (e.setSelectionMarks caret (some (first, last))).Anchored := by
  have hmarks {entry : CaretId × CaretMarks}
      (hentry : entry ∈ (e.setSelectionMarks caret (some (first, last))).carets) :
      ∃ before ∈ e.carets, before.1 = entry.1 ∧ (entry.2 = before.2 ∨
        entry.1 = caret ∧ entry.2.all = [before.2.head, first, last]) := by
    obtain ⟨⟨id, marks⟩, hbefore, rfl⟩ := List.mem_map.mp hentry
    refine ⟨_, hbefore, rfl, ?_⟩
    dsimp only
    split
    · next hid => exact .inr ⟨hid, rfl⟩
    · exact .inl rfl
  refine ⟨h.toSound.setSelectionMarks caret _, ?_, ?_, ?_⟩
  · rintro mark ⟨entry, hentry, hmark⟩
    obtain ⟨before, hbefore, -, hsame | ⟨-, hall⟩⟩ := hmarks hentry
    · exact h.live mark ⟨before, hbefore, hsame ▸ hmark⟩
    · rw [hall] at hmark
      rcases List.mem_cons.mp hmark with rfl | hnew
      · exact h.live _ ⟨before, hbefore, before.2.head_mem_all⟩
      · exact hlive mark hnew
  · intro entry hentry
    obtain ⟨before, hbefore, -, hsame | ⟨-, hall⟩⟩ := hmarks hentry
    · exact hsame ▸ h.own before hbefore
    · have hheld : e.Holds before.2.head := ⟨before, hbefore, before.2.head_mem_all⟩
      rw [hall]
      refine List.nodup_cons.mpr ⟨fun hmem ↦ ?_,
        List.nodup_cons.mpr ⟨fun hmem ↦ ?_, List.nodup_singleton _⟩⟩
      · rcases List.mem_pair.mp hmem with heq | heq
        · exact hfirst (heq ▸ hheld)
        · exact hlast (heq ▸ hheld)
      · exact hne (List.mem_singleton.mp hmem)
  · intro entry hentry other hother mark hmark hmark'
    obtain ⟨before, hbefore, hid, hsame⟩ := hmarks hentry
    obtain ⟨before', hbefore', hid', hsame'⟩ := hmarks hother
    have hold {entry : CaretId × CaretMarks} {before : CaretId × CaretMarks}
        (hbefore : before ∈ e.carets)
        (hheld : e.Holds mark) (hmark : mark ∈ entry.2.all)
        (hsame : entry.2 = before.2 ∨ entry.1 = caret ∧
          entry.2.all = [before.2.head, first, last]) :
        mark ∈ before.2.all := by
      rcases hsame with hsame | ⟨-, hall⟩
      · exact hsame ▸ hmark
      · rw [hall] at hmark
        rcases List.mem_cons.mp hmark with rfl | hnew
        · exact before.2.head_mem_all
        · rcases List.mem_pair.mp hnew with rfl | rfl
          · exact absurd hheld hfirst
          · exact absurd hheld hlast
    by_cases hheld : e.Holds mark
    · rw [← hid, ← hid']
      exact h.apart _ hbefore _ hbefore' mark (hold hbefore hheld hmark hsame)
        (hold hbefore' hheld hmark' hsame')
    · have hnew {entry : CaretId × CaretMarks} {before : CaretId × CaretMarks}
          (hbefore : before ∈ e.carets)
          (hmark : mark ∈ entry.2.all)
          (hsame : entry.2 = before.2 ∨ entry.1 = caret ∧
            entry.2.all = [before.2.head, first, last]) :
          entry.1 = caret := by
        rcases hsame with hsame | ⟨hid, -⟩
        · exact absurd ⟨before, hbefore, hsame ▸ hmark⟩ hheld
        · exact hid
      rw [hnew hbefore hmark hsame, hnew hbefore' hmark' hsame']

/-- Without its selection a caret is as well anchored. -/
theorem Anchored.dropSelection (h : e.Anchored) (caret : CaretId) :
    (e.setSelectionMarks caret none).Anchored := by
  have hmarks {entry : CaretId × CaretMarks}
      (hentry : entry ∈ (e.setSelectionMarks caret none).carets) :
      ∃ before ∈ e.carets, before.1 = entry.1 ∧ entry.2.all.Sublist before.2.all := by
    obtain ⟨⟨id, marks⟩, hbefore, rfl⟩ := List.mem_map.mp hentry
    refine ⟨_, hbefore, rfl, ?_⟩
    dsimp only
    split
    · exact List.Sublist.cons_cons _ (List.nil_sublist _)
    · exact .refl _
  refine ⟨h.toSound.setSelectionMarks caret _, ?_, ?_, ?_⟩
  · rintro mark ⟨entry, hentry, hmark⟩
    obtain ⟨before, hbefore, -, hsub⟩ := hmarks hentry
    exact h.live mark ⟨before, hbefore, hsub.subset hmark⟩
  · intro entry hentry
    obtain ⟨before, hbefore, -, hsub⟩ := hmarks hentry
    exact (h.own before hbefore).sublist hsub
  · intro entry hentry other hother mark hmark hmark'
    obtain ⟨before, hbefore, hid, hsub⟩ := hmarks hentry
    obtain ⟨before', hbefore', hid', hsub'⟩ := hmarks hother
    rw [← hid, ← hid']
    exact h.apart _ hbefore _ hbefore' mark (hsub.subset hmark) (hsub'.subset hmark')

/-- What is left of the marks of a selection when it is dropped. -/
theorem Anchored.not_holds_dropSelection (h : e.Anchored) {ends : Mark × Mark}
    (hmem : (caret, marks) ∈ e.carets) (hends : marks.selection = some ends) {mark : Mark}
    (hmark : mark ∈ [ends.1, ends.2]) : ¬ (e.setSelectionMarks caret none).Holds mark := by
  have hall : marks.all = [marks.head, ends.1, ends.2] := by rw [CaretMarks.all, hends]; rfl
  have hown := h.own _ hmem
  rw [hall] at hown
  rintro ⟨entry, hentry, hheld⟩
  obtain ⟨⟨id, before⟩, hbefore, rfl⟩ := List.mem_map.mp hentry
  dsimp only at hheld
  split at hheld
  · next hid =>
    obtain rfl : before = marks := by
      have hlookup := (lookup_iff_mem h.toSound).mpr hbefore
      rw [hid, (lookup_iff_mem h.toSound).mpr hmem] at hlookup
      exact (Option.some.inj hlookup).symm
    obtain rfl := List.mem_singleton.mp hheld
    exact (List.nodup_cons.mp hown).1 hmark
  · next hid =>
    exact hid (h.apart _ hbefore _ hmem mark hheld (hall ▸ List.mem_cons_of_mem _ hmark))

/-- A caret has a selection, and nothing else is changed. -/
structure Selects (caret : CaretId) (range : Nat × Nat) (before after : Editor) : Prop where
  anchored : after.Anchored
  selection : after.selection? caret = some range
  offset : after.caretOffset? caret = before.caretOffset? caret
  others : ∀ other ≠ caret, Keeps other before after

/-- A selection that is there already is moved. -/
theorem Anchored.setMarks_selects (h : e.Anchored) {head first last : Mark}
    (hmarks : (caret, ⟨head, some (first, last)⟩) ∈ e.carets) (a b : Nat) :
    Selects caret (min a e.text.length, min b e.text.length) e
      { e with buffer := (e.buffer.setMark first a).setMark last b } := by
  have hfirst : first ∈ CaretMarks.all ⟨head, some (first, last)⟩ := by simp [CaretMarks.all]
  have hlast : last ∈ CaretMarks.all ⟨head, some (first, last)⟩ := by simp [CaretMarks.all]
  have hlookup := (lookup_iff_mem h.toSound).mpr hmarks
  have hown : head ≠ first ∧ head ≠ last ∧ first ≠ last := by
    have hnodup := h.own _ hmarks
    simp only [CaretMarks.all, Option.elim_some, List.nodup_cons, List.mem_pair, List.mem_singleton,
      not_or]
      at hnodup
    exact ⟨hnodup.1.1, hnodup.1.2, hnodup.2.1⟩
  have hset := h.setMark first a
  have hstart : ((e.buffer.setMark first a).setMark last b).markOffset? first =
      some (min a e.text.length) :=
    (MarkSet.get?_set_of_ne hown.2.2 _).trans (setMark_of_live (h.live_of_mem hmarks hfirst) a)
  have hstop : ((e.buffer.setMark first a).setMark last b).markOffset? last =
      some (min b e.text.length) := setMark_of_live (hset.live_of_mem hmarks hlast) b
  refine ⟨hset.setMark last b, ?_, ?_, fun other hother ↦ ?_⟩
  · exact selection?_of_lookup_some
      (e := { e with buffer := (e.buffer.setMark first a).setMark last b }) hlookup rfl hstart hstop
  · rw [caretOffset?_of_lookup hlookup]
    refine (caretOffset?_of_lookup
      (e := { e with buffer := (e.buffer.setMark first a).setMark last b }) hlookup).trans ?_
    exact (MarkSet.get?_set_of_ne hown.2.1 _).trans (MarkSet.get?_set_of_ne hown.1 _)
  · exact (h.setMark_keeps hmarks hfirst hother a).trans (hset.setMark_keeps hmarks hlast hother b)

/-- A caret without a selection gets one on new marks. -/
theorem Anchored.newMarks_selects (h : e.Anchored) (hlookup : e.carets.lookup caret = some marks)
    (a b : Nat) :
    Selects caret (min a e.text.length, min b e.text.length) e
      (((e.createMark a).2.createMark b).2.setSelectionMarks caret
        (some ((e.createMark a).1, ((e.createMark a).2.createMark b).1))) := by
  have hcreated := h.createMark a
  generalize hfirst : (e.createMark a).1 = first
  generalize hlast : ((e.createMark a).2.createMark b).1 = last
  generalize hmarked : ((e.createMark a).2.createMark b).2 = marked
  have hnew : e.buffer.marks.next ≤ first.serial ∧ first.serial < last.serial ∧
      e.buffer.marks.next ≤ last.serial := by
    rw [← hfirst, ← hlast]
    exact ⟨Nat.le_refl _, Nat.lt_succ_self _, Nat.le_succ _⟩
  have hstart : marked.markOffset? first = some (min a e.text.length) := by
    rw [← hmarked, ← hfirst]
    exact (MarkSet.get?_create_of_lt (Nat.lt_succ_self _) _).trans
      (markOffset?_createMark h.toSound a)
  have hstop : marked.markOffset? last = some (min b e.text.length) := by
    rw [← hmarked, ← hlast]
    exact markOffset?_createMark hcreated.toSound b
  have hcarets : marked.carets = e.carets := by rw [← hmarked]; rfl
  have htext : marked.text = e.text := by rw [← hmarked]; rfl
  have hanchored : marked.Anchored := hmarked ▸ hcreated.createMark b
  have hkeeps (other : CaretId) : Keeps other e marked :=
    hmarked ▸ (h.createMark_keeps a other).trans (hcreated.createMark_keeps b other)
  have hfree {mark : Mark} (hle : e.buffer.marks.next ≤ mark.serial) : ¬ marked.Holds mark := by
    rw [Holds, hcarets]
    exact h.not_holds_of_le hle
  have hlives : ∀ mark ∈ [first, last], marked.Live mark := by
    intro mark hmark
    rw [Live, htext]
    rcases List.mem_pair.mp hmark with rfl | rfl
    · exact ⟨_, Nat.min_le_right _ _, hstart⟩
    · exact ⟨_, Nat.min_le_right _ _, hstop⟩
  have hne : first ≠ last := by
    rintro rfl
    exact Nat.lt_irrefl _ hnew.2.1
  refine ⟨hanchored.setSelectionMarks caret (hfree hnew.1) (hfree hnew.2.2) hne hlives, ?_, ?_,
    fun other hother ↦ ?_⟩
  · have hfound : (marked.setSelectionMarks caret (some (first, last))).carets.lookup caret =
        some ⟨marks.head, some (first, last)⟩ := by
      rw [lookup_setSelectionMarks, hcarets, hlookup, Option.map_some, if_pos rfl]
    exact selection?_of_lookup_some hfound rfl hstart hstop
  · rw [caretOffset?_setSelectionMarks]
    exact (hkeeps caret).offset
  · exact (hkeeps other).trans ⟨caretOffset?_setSelectionMarks _ _ _ _,
      selection?_setSelectionMarks_of_ne _ _ hother⟩

/-- A selection that is stored lies between its two ends in the text. -/
theorem Anchored.storeSelection_selects (h : e.Anchored) (hmem : caret ∈ e.caretIds) (a b : Nat) :
    Selects caret (min (min a b) e.text.length, min (max a b) e.text.length) e
      (e.storeSelection caret a b) := by
  obtain ⟨⟨head, selection⟩, hmarks⟩ := exists_marks hmem
  have hlookup := (lookup_iff_mem h.toSound).mpr hmarks
  unfold Editor.storeSelection
  rw [hlookup]
  cases selection with
  | some ends => exact h.setMarks_selects hmarks (min a b) (max a b)
  | none => exact h.newMarks_selects hlookup (min a b) (max a b)

theorem Selects.emit {range : Nat × Nat} (h : Selects caret range e after) (event : EditorEvent) :
    Selects caret range e (after.emit event) :=
  ⟨h.anchored.emit event, h.selection, h.offset, fun other hne ↦
    ⟨(h.others other hne).offset, (h.others other hne).selection⟩⟩

theorem Anchored.setSelection_selects (h : e.Anchored) (hmem : caret ∈ e.caretIds) (a b : Nat) :
    Selects caret (min (min a b) e.text.length, min (max a b) e.text.length) e
      (e.setSelection caret a b) := by
  have hstored := h.storeSelection_selects hmem a b
  unfold Editor.setSelection
  dsimp only
  rw [hstored.selection]
  exact hstored.emit _

theorem setSelection_of_notMem (hmem : caret ∉ e.caretIds) (a b : Nat) :
    e.setSelection caret a b = e := by
  have hlookup : e.carets.lookup caret = none := lookup_eq_none_of_notMem hmem
  simp [Editor.setSelection, storeSelection, selection?, hlookup]

theorem Anchored.setSelection (h : e.Anchored) (caret : CaretId) (a b : Nat) :
    (e.setSelection caret a b).Anchored := by
  by_cases hmem : caret ∈ e.caretIds
  · exact (h.setSelection_selects hmem a b).anchored
  · rwa [setSelection_of_notMem hmem]

/-- A caret has no selection any more, and nothing else is changed. -/
structure Deselects (caret : CaretId) (before after : Editor) : Prop where
  anchored : after.Anchored
  selection : after.selection? caret = none
  offset : after.caretOffset? caret = before.caretOffset? caret
  others : ∀ other ≠ caret, Keeps other before after

theorem Anchored.clearSelection_deselects (h : e.Anchored) (caret : CaretId) :
    Deselects caret e (e.clearSelection caret).2 := by
  cases hfound : (e.carets.lookup caret).bind (·.selection) with
  | none =>
    have hsame : (e.clearSelection caret).2 = e := by
      unfold Editor.clearSelection
      rw [hfound]
    have hnone : e.selection? caret = none := by
      unfold Editor.selection?
      cases hlookup : e.carets.lookup caret with
      | none => rfl
      | some marks =>
        rw [hlookup, Option.bind_some] at hfound
        simp [hfound]
    rw [hsame]
    exact ⟨h, hnone, rfl, fun other _ ↦ .refl other e⟩
  | some ends =>
    obtain ⟨marks, hlookup, hends⟩ := Option.bind_eq_some_iff.mp hfound
    have hmarks := (lookup_iff_mem h.toSound).mp hlookup
    have hdropped := h.dropSelection caret
    have hfirst := h.not_holds_dropSelection hmarks hends (List.mem_pair.mpr (.inl rfl))
    have hlast := h.not_holds_dropSelection hmarks hends (List.mem_pair.mpr (.inr rfl))
    have hreleased := hdropped.releaseMark hfirst
    have hsame : (e.clearSelection caret).2 =
        ((e.setSelectionMarks caret none).releaseMark ends.1).releaseMark ends.2 := by
      unfold Editor.clearSelection
      rw [hfound]
    have hkeeps (other : CaretId) : Keeps other (e.setSelectionMarks caret none)
        (((e.setSelectionMarks caret none).releaseMark ends.1).releaseMark ends.2) :=
      (hdropped.releaseMark_keeps hfirst other).trans (hreleased.releaseMark_keeps hlast other)
    have hnone : (e.setSelectionMarks caret none).selection? caret = none := by
      have hfound : (e.setSelectionMarks caret none).carets.lookup caret =
          some ⟨marks.head, none⟩ := by
        rw [lookup_setSelectionMarks, hlookup, Option.map_some, if_pos rfl]
      exact selection?_of_lookup_none hfound rfl
    rw [hsame]
    refine ⟨hreleased.releaseMark hlast, ?_, ?_, fun other hother ↦ ?_⟩
    · exact (hkeeps caret).selection.trans hnone
    · exact (hkeeps caret).offset.trans (caretOffset?_setSelectionMarks _ _ _ _)
    · exact Keeps.trans ⟨caretOffset?_setSelectionMarks _ _ _ _,
        selection?_setSelectionMarks_of_ne _ _ hother⟩ (hkeeps other)

theorem Deselects.emit (h : Deselects caret e after) (event : EditorEvent) :
    Deselects caret e (after.emit event) :=
  ⟨h.anchored.emit event, h.selection, h.offset, fun other hne ↦
    ⟨(h.others other hne).offset, (h.others other hne).selection⟩⟩

theorem Anchored.removeSelection_deselects (h : e.Anchored) (caret : CaretId) :
    Deselects caret e (e.removeSelection caret) := by
  have hcleared := h.clearSelection_deselects caret
  unfold Editor.removeSelection
  split
  · next he =>
    rw [he] at hcleared
    exact hcleared
  · next he =>
    rw [he] at hcleared
    exact hcleared.emit _

theorem Anchored.removeSelection (h : e.Anchored) (caret : CaretId) :
    (e.removeSelection caret).Anchored :=
  (h.removeSelection_deselects caret).anchored

/-! ### Edits of the text -/

theorem offsetAfterErase_le {start stop offset length : Nat} (hle : start ≤ stop)
    (hstop : stop ≤ length) (ho : offset ≤ length) :
    MarkSet.offsetAfterErase start stop offset ≤ length - (stop - start) := by
  unfold MarkSet.offsetAfterErase
  split <;> omega

theorem Anchored.eraseRange (h : e.Anchored) (a b : Nat) : (e.eraseRange a b).2.Anchored := by
  refine h.of_eq (h.toSound.eraseRange a b) rfl fun mark hmark ↦ ?_
  obtain ⟨offset, hle, hoffset⟩ := h.live mark hmark
  have hmoved : (e.eraseRange a b).2.markOffset? mark =
      some (MarkSet.offsetAfterErase (min (min a b) e.text.length) (min (max a b) e.text.length)
        offset) := by
    refine (MarkSet.get?_mapOffsets _ _ _).trans ?_
    rw [show e.buffer.marks.get? mark = some offset from hoffset]
    rfl
  refine ⟨_, ?_, hmoved⟩
  show _ ≤ (e.text.erase a b).length
  rw [Text.length_erase]
  exact offsetAfterErase_le (by omega) (by omega) hle

theorem Anchored.insertText (h : e.Anchored) (offset : Nat) (s : Text) :
    (e.insertText offset s).Anchored := by
  refine h.of_eq (h.toSound.insertText offset s) rfl fun mark hmark ↦ ?_
  obtain ⟨place, hle, hplace⟩ := h.live mark hmark
  have hmoved : (e.insertText offset s).markOffset? mark =
      some (MarkSet.offsetAfterInsert (min offset e.text.length) s.length place) := by
    refine (MarkSet.get?_mapOffsets _ _ _).trans ?_
    rw [show e.buffer.marks.get? mark = some place from hplace]
    rfl
  refine ⟨_, ?_, hmoved⟩
  show _ ≤ (e.text.insert offset s).length
  rw [Text.length_insert, MarkSet.offsetAfterInsert]
  split <;> omega

theorem caretOffset?_insertText (e : Editor) (offset : Nat) (s : Text) (caret : CaretId) :
    (e.insertText offset s).caretOffset? caret =
      (e.caretOffset? caret).map
        (MarkSet.offsetAfterInsert (min offset e.text.length) s.length) := by
  unfold caretOffset?
  show ((e.carets.lookup caret).bind fun marks ↦ (e.buffer.marks.afterInsert _ _).get? marks.head) =
    _
  cases e.carets.lookup caret with
  | none => rfl
  | some marks => exact MarkSet.get?_mapOffsets _ _ _

theorem caretOffset?_eraseRange (e : Editor) (a b : Nat) (caret : CaretId) :
    (e.eraseRange a b).2.caretOffset? caret = (e.caretOffset? caret).map
      (MarkSet.offsetAfterErase (min (min a b) e.text.length) (min (max a b) e.text.length)) := by
  unfold caretOffset?
  show ((e.carets.lookup caret).bind fun marks ↦ (e.buffer.marks.afterErase _ _).get? marks.head) =
    _
  cases e.carets.lookup caret with
  | none => rfl
  | some marks => exact MarkSet.get?_mapOffsets _ _ _

/-! ### Editors that are opened -/

theorem bare_anchored (t : Text) : Anchored { buffer := { text := t } } where
  toSound := bare_sound t
  live _ h := by
    obtain ⟨_, hentry, -⟩ := h
    cases hentry
  own _ h := by cases h
  apart _ h := by cases h

theorem Anchored.spawnCaret (h : e.Anchored) (offset : Nat) : (e.spawnCaret offset).2.Anchored := by
  have hnew : (e.createMark offset).2.Live (e.createMark offset).1 :=
    ⟨_, Nat.min_le_right _ _, markOffset?_createMark h.toSound offset⟩
  have hfree : ¬ e.Holds (e.createMark offset).1 := h.not_holds_of_le (Nat.le_refl _)
  have hcases {entry : CaretId × CaretMarks} (hentry : entry ∈ (e.spawnCaret offset).2.carets) :
      entry ∈ e.carets ∨ entry = (⟨e.nextCaret⟩, { head := (e.createMark offset).1 }) :=
    (List.mem_append.mp hentry).imp id List.mem_singleton.mp
  refine ⟨h.toSound.spawnCaret offset, ?_, ?_, ?_⟩
  · rintro mark ⟨entry, hentry, hmark⟩
    rcases hcases hentry with hold | rfl
    · exact (h.createMark offset).live mark ⟨entry, hold, hmark⟩
    · obtain rfl := List.mem_singleton.mp hmark
      exact hnew
  · intro entry hentry
    rcases hcases hentry with hold | rfl
    · exact h.own entry hold
    · exact List.nodup_singleton _
  · intro first hfirst second hsecond mark hmark hmark'
    rcases hcases hfirst with hold | rfl <;> rcases hcases hsecond with hold' | rfl
    · exact h.apart _ hold _ hold' mark hmark hmark'
    · obtain rfl := List.mem_singleton.mp hmark'
      exact absurd ⟨first, hold, hmark⟩ hfree
    · obtain rfl := List.mem_singleton.mp hmark
      exact absurd ⟨second, hold', hmark'⟩ hfree
    · rfl

theorem Anchored.addSelections (h : e.Anchored) (selections : List (Nat × (Nat × Nat))) :
    (e.addSelections selections).Anchored := by
  have hstore {e : Editor} (h : e.Anchored) (caret : CaretId) (a b : Nat) :
      (e.storeSelection caret a b).Anchored := by
    by_cases hmem : caret ∈ e.caretIds
    · exact (h.storeSelection_selects hmem a b).anchored
    · unfold Editor.storeSelection
      rwa [lookup_eq_none_of_notMem hmem]
  induction selections generalizing e with
  | nil => exact h
  | cons selection rest ih =>
    unfold Editor.addSelections
    dsimp only
    split
    · exact ih (hstore h _ _ _)
    · exact ih (hstore (h.spawnCaret _) _ _ _)

/-- An editor over any text is anchored, with carets and selections anywhere in it. -/
theorem ofMarked_anchored (m : MarkedText) : (ofMarked m).Anchored := by
  have hcarets := List.foldlRecOn (motive := Anchored) m.carets
    (fun e offset ↦ (e.spawnCaret offset).2) (bare_anchored m.text) fun _ h offset _ ↦
      h.spawnCaret offset
  have hselections := hcarets.addSelections (m.selections.zipIdx.map fun entry ↦ (entry.2, entry.1))
  unfold ofMarked
  dsimp only
  split
  · exact hselections.spawnCaret 0
  · exact hselections

end Editor

end ModalEdit
