import Mathlib.Data.List.Pairwise
import ModalEdit.Proofs.CaseTables
import ModalEdit.Proofs.SpanUnion

/-!
Spans of characters mapped at all carets. A span that changes is taken out and its image put back, so that
what stood at its end is then found at its start. A span that begins there grows over the one before it,
and over those that this one had grown over (`Revision.Held`). Mapped again, they stay as they are if the
mapping is idempotent; so the text in the end is that in which all spans have been mapped at once, for an
idempotent mapping or where no span begins at the end of one before it.
-/

set_option autoImplicit false
set_option relaxedAutoImplicit false

namespace ModalEdit

namespace Revision

/-- To map a span takes it out and puts its image in its place, unless that is the same text. -/
def mapping (f : Char → Text) (t : Text) (r : TextRange) : Revision :=
  let old := t.slice r.start r.stop
  let new := old.flatMap f
  let rest := t.erase r.start r.stop
  if new = old then ⟨t, id⟩
  else
    ⟨rest.insert r.start new,
      MarkSet.offsetAfterInsert (min r.start rest.length) new.length ∘
        MarkSet.offsetAfterErase (min (min r.start r.stop) t.length) (min (max r.start r.stop) t.length)⟩

section Mapping

variable {f : Char → Text} {t : Text} {r : TextRange}

theorem length_slice (hle : r.stop ≤ t.length) :
    (t.slice r.start r.stop).length = r.stop - r.start := by
  have hr := r.start_le_stop
  rw [Text.slice, Nat.min_eq_left hr, Nat.max_eq_right hr, List.length_take, List.length_drop]
  omega

theorem mapping_text (hle : r.stop ≤ t.length) : (mapping f t r).text =
    t.take r.start ++ (t.slice r.start r.stop).flatMap f ++ t.drop r.stop := by
  have hr := r.start_le_stop
  have hstart : (t.take r.start).length = r.start :=
    List.length_take_of_le (Nat.le_trans hr hle)
  unfold mapping
  dsimp only
  split
  · next hsame =>
    rw [hsame, Text.slice, Nat.min_eq_left hr, Nat.max_eq_right hr, ← List.drop_take]
    have hfirst : t.take r.start = (t.take r.stop).take r.start := by
      rw [List.take_take, Nat.min_eq_left hr]
    rw [hfirst, List.take_append_drop, List.take_append_drop]
  · show (t.erase r.start r.stop).insert r.start _ = _
    rw [Text.insert, Text.erase, Nat.min_eq_left hr, Nat.max_eq_right hr,
      List.take_left' hstart, List.drop_left' hstart]

theorem mapping_follow_of_le {offset : Nat} (hle : r.stop ≤ t.length) (ho : offset ≤ r.start) :
    (mapping f t r).follow offset = offset := by
  have hr := r.start_le_stop
  have hrest := t.length_erase r.start r.stop
  unfold mapping
  dsimp only
  split
  · rfl
  · simp only [Function.comp_apply, MarkSet.offsetAfterErase, MarkSet.offsetAfterInsert]
    split <;> split <;> omega

theorem mapping_follow_of_gt {offset : Nat} (hle : r.stop ≤ t.length) (ho : r.stop < offset) :
    (mapping f t r).follow offset + (r.stop - r.start) =
      offset + ((t.slice r.start r.stop).flatMap f).length := by
  have hr := r.start_le_stop
  have hrest := t.length_erase r.start r.stop
  unfold mapping
  dsimp only
  split
  · next hsame =>
    rw [hsame, length_slice hle]
    rfl
  · simp only [Function.comp_apply, MarkSet.offsetAfterErase, MarkSet.offsetAfterInsert]
    split <;> split <;> omega

/-- What stood at the end of the span is drawn to its start if the span changes. -/
theorem mapping_follow_stop (hle : r.stop ≤ t.length) :
    (mapping f t r).follow r.stop = r.start ∨ ((mapping f t r).follow r.stop = r.stop ∧
      (t.slice r.start r.stop).flatMap f = t.slice r.start r.stop) := by
  have hr := r.start_le_stop
  have hrest := t.length_erase r.start r.stop
  unfold mapping
  dsimp only
  split
  · next hsame => exact .inr ⟨rfl, hsame⟩
  · refine .inl ?_
    simp only [Function.comp_apply, MarkSet.offsetAfterErase, MarkSet.offsetAfterInsert]
    split <;> split <;> omega

end Mapping

/-! ### Spans that wait -/

/-- Mapping characters again leaves them as they are. -/
def Idempotent (f : Char → Text) : Prop := ∀ c, (f c).flatMap f = f c

/-- A span waits to be mapped. It may have grown at its start, over offsets that are done. -/
structure Held (v : Revision) (t : Text) (f : Char → Text) (done : Nat → Bool) (r : TextRange)
    (first : Nat) : Prop where
  first_le : first ≤ r.start
  start : v.follow r.start = t.placeAt (Text.mapInside done f) first
  stop : v.follow r.stop = t.placeAt (Text.mapInside done f) r.stop
  grown : ∀ offset, first ≤ offset → offset < r.start → done offset = true
  idempotent : first < r.start → Idempotent f

/-- The characters at some offsets have been mapped, and spans at other offsets wait. -/
structure Maps (v : Revision) (t : Text) (f : Char → Text) (done : Nat → Bool)
    (waiting : List TextRange) : Prop where
  text : v.text = t.mapAt done f
  clamps : ∀ offset, v.follow (min offset t.length) = v.follow offset
  apart : ∀ r ∈ waiting, ∀ offset, r.contains offset = true → done offset = false
  held : ∀ r ∈ waiting, r.start < r.stop → r.start < t.length → ∃ first, Held v t f done r first

section Held

variable {v : Revision} {t : Text} {f : Char → Text} {done : Nat → Bool} {q : TextRange} {first : Nat}

/-- The offsets that are done once a span is. -/
def doneWith (done : Nat → Bool) (q : TextRange) (offset : Nat) : Bool := done offset || q.contains offset

theorem mapInside_doneWith_of_outside (hle : first ≤ q.start) {offset : Nat}
    (ho : offset < first ∨ q.stop ≤ offset) :
    Text.mapInside done f offset = Text.mapInside (doneWith done q) f offset := by
  have hnot : q.contains offset = false := TextRange.contains_eq_false_iff.mpr (by omega)
  funext c
  simp only [Text.mapInside, doneWith, hnot, Bool.or_false]

/-- To map the grown span again is to map the span. -/
theorem Held.replaceEachIn_eq (h : Held v t f done q first)
    (hapart : ∀ offset, q.contains offset = true → done offset = false) :
    t.replaceEachIn (Text.mapInside (doneWith done q) f) first q.stop =
      (t.replaceEachIn (Text.mapInside done f) first q.stop).flatMap f := by
  rw [Text.replaceEachIn, Text.replaceEachFrom, Text.replaceEachIn, Text.replaceEachFrom,
    List.flatMap_assoc]
  refine List.flatMap_congr ?_
  rintro ⟨c, offset⟩ hmem
  obtain ⟨hle, hlt, -⟩ := List.mem_zipIdx hmem
  have hstop : offset < q.stop := by
    rw [List.length_take] at hlt
    omega
  simp only [Text.mapInside, doneWith]
  rcases Nat.lt_or_ge offset q.start with hbefore | hwithin
  · have hdone := h.grown offset hle hbefore
    simp only [hdone, Bool.true_or, if_true]
    exact (h.idempotent (Nat.lt_of_le_of_lt hle hbefore) c).symm
  · have hin : q.contains offset = true := by
      simp only [TextRange.contains, Bool.and_eq_true, decide_eq_true_eq]
      omega
    simp only [hapart offset hin, hin, Bool.or_true, if_true, Bool.false_eq_true, if_false,
      List.flatMap_singleton]

theorem Held.carried_eq (h : Held v t f done q first) :
    (v.carried q).start = t.placeAt (Text.mapInside done f) first ∧
      (v.carried q).stop = t.placeAt (Text.mapInside done f) q.stop := by
  have hle := t.placeAt_mono (Text.mapInside done f) (Nat.le_trans h.first_le q.start_le_stop)
  simp only [carried, TextRange.between, h.start, h.stop, Nat.min_eq_left hle, Nat.max_eq_right hle,
    and_self]

theorem Held.placeAt_of_le (h : Held v t f done q first) {offset : Nat} (hle : offset ≤ first) :
    t.placeAt (Text.mapInside (doneWith done q) f) offset = t.placeAt (Text.mapInside done f) offset :=
  Text.placeAt_of_le (fun _ ho ↦ mapInside_doneWith_of_outside h.first_le (.inl ho)) hle

section Next

variable (h : Held v t f done q first) (htext : v.text = t.mapAt done f)
  (hapart : ∀ offset, q.contains offset = true → done offset = false)

include h htext

theorem Held.carried_stop_le : (v.carried q).stop ≤ v.text.length := by
  rw [h.carried_eq.2, htext]
  exact t.placeAt_le_length _ _

theorem Held.slice_carried : v.text.slice (v.carried q).start (v.carried q).stop =
    t.replaceEachIn (Text.mapInside done f) first q.stop := by
  rw [h.carried_eq.1, h.carried_eq.2, htext]
  exact Text.slice_placeAt (Nat.le_trans h.first_le q.start_le_stop)

theorem Held.next_follow_of_le {x offset : Nat}
    (hx : v.follow x = t.placeAt (Text.mapInside done f) offset) (hle : offset ≤ first) :
    (v.next (mapping f) q).follow x = t.placeAt (Text.mapInside (doneWith done q) f) offset := by
  have hmono := t.placeAt_mono (Text.mapInside done f) hle
  show (mapping f v.text (v.carried q)).follow (v.follow x) = _
  rw [hx, h.placeAt_of_le hle, mapping_follow_of_le (h.carried_stop_le htext) (by rwa [h.carried_eq.1])]

include hapart

theorem Held.next_text : (v.next (mapping f) q).text = t.mapAt (doneWith done q) f := by
  have hle := Nat.le_trans h.first_le q.start_le_stop
  have houtside (offset : Nat) (ho : offset < first ∨ q.stop ≤ offset) :
      Text.mapInside done f offset = Text.mapInside (doneWith done q) f offset :=
    mapInside_doneWith_of_outside h.first_le ho
  show (mapping f v.text (v.carried q)).text = _
  rw [mapping_text (h.carried_stop_le htext), h.slice_carried htext, h.carried_eq.1, h.carried_eq.2,
    htext, Text.mapAt, Text.mapAt, Text.replaceEach_of_outside hle houtside, h.replaceEachIn_eq hapart]

/-- The image of the span takes its place, from the same offset on. -/
theorem Held.placeAt_stop : t.placeAt (Text.mapInside (doneWith done q) f) q.stop =
    t.placeAt (Text.mapInside done f) first +
      ((v.text.slice (v.carried q).start (v.carried q).stop).flatMap f).length := by
  rw [Text.placeAt_eq_add (Nat.le_trans h.first_le q.start_le_stop), h.placeAt_of_le (Nat.le_refl _),
    h.replaceEachIn_eq hapart, h.slice_carried htext]

theorem Held.next_follow_of_gt (hne : ∀ c, f c ≠ []) {x offset : Nat}
    (hx : v.follow x = t.placeAt (Text.mapInside done f) offset) (hlt : q.stop < offset)
    (hlength : q.stop < t.length) :
    (v.next (mapping f) q).follow x = t.placeAt (Text.mapInside (doneWith done q) f) offset := by
  have hplace (o : Nat) (c : Char) : Text.mapInside done f o c ≠ [] := by
    unfold Text.mapInside
    split
    · exact hne c
    · exact List.cons_ne_nil c []
  have hbeyond := Text.placeAt_lt hplace hlt hlength
  have hshift := Text.placeAt_of_ge (t := t) (g := Text.mapInside done f)
    (fun o ho ↦ mapInside_doneWith_of_outside h.first_le (.inr ho)) (Nat.le_of_lt hlt)
  have hmono := t.placeAt_mono (Text.mapInside done f) (Nat.le_trans h.first_le q.start_le_stop)
  have hfollow := mapping_follow_of_gt (f := f) (h.carried_stop_le htext)
    (by rwa [h.carried_eq.2] : (v.carried q).stop < t.placeAt (Text.mapInside done f) offset)
  have hstop := h.placeAt_stop htext hapart
  show (mapping f v.text (v.carried q)).follow (v.follow x) = _
  rw [hx]
  rw [h.carried_eq.1, h.carried_eq.2] at hfollow hstop
  omega

/-- What stood at the end of the span is drawn to its start, or keeps its place. -/
theorem Held.next_follow_stop {x : Nat}
    (hx : v.follow x = t.placeAt (Text.mapInside done f) q.stop) :
    (v.next (mapping f) q).follow x = t.placeAt (Text.mapInside (doneWith done q) f) first ∨
      (v.next (mapping f) q).follow x = t.placeAt (Text.mapInside (doneWith done q) f) q.stop := by
  have hmoved : (v.next (mapping f) q).follow x =
      (mapping f v.text (v.carried q)).follow (v.carried q).stop := by
    show (mapping f v.text (v.carried q)).follow (v.follow x) = _
    rw [hx, h.carried_eq.2]
  have hle := h.carried_stop_le htext
  rw [hmoved]
  rcases mapping_follow_stop (f := f) hle with hdrawn | ⟨hkept, hsame⟩
  · left
    rw [hdrawn, h.carried_eq.1, h.placeAt_of_le (Nat.le_refl _)]
  · right
    have hr := (v.carried q).start_le_stop
    rw [hkept, h.placeAt_stop htext hapart, hsame, length_slice hle, ← h.carried_eq.1]
    omega

end Next

section Pair

variable {r : TextRange} {other : Nat} (h : Held v t f done q first) (hr : Held v t f done r other)
  (hqDone : ∀ offset, q.contains offset = true → done offset = false)
  (hrDone : ∀ offset, r.contains offset = true → done offset = false)
  (hdisjoint : ∀ offset, q.contains offset = true → r.contains offset = false)

include h hr hqDone hrDone hdisjoint

/-- Spans that wait stay apart with all that they have grown over. -/
theorem Held.stop_le_or (hq : q.start < q.stop) (hcovers : r.start < r.stop) :
    r.stop ≤ first ∨ q.stop ≤ other := by
  have hbehind (hle : q.stop ≤ r.start) : q.stop ≤ other := by
    refine Nat.le_of_not_lt fun hlt ↦ ?_
    have hin : q.contains (max other q.start) = true :=
      TextRange.contains_iff.mpr ⟨Nat.le_max_right _ _, by omega⟩
    have hgrown := hr.grown (max other q.start) (Nat.le_max_left _ _) (by omega)
    exact absurd hgrown (by rw [hqDone _ hin]; exact Bool.false_ne_true)
  rcases Nat.lt_or_ge r.start q.stop with hlt | hle
  · refine .inl (Nat.le_of_not_lt fun hfirst ↦ ?_)
    have hin : r.contains (max first r.start) = true :=
      TextRange.contains_iff.mpr ⟨Nat.le_max_right _ _, by omega⟩
    rcases Nat.lt_or_ge (max first r.start) q.start with hbefore | hwithin
    · have hgrown := h.grown _ (Nat.le_max_left _ _) hbefore
      exact absurd hgrown (by rw [hrDone _ hin]; exact Bool.false_ne_true)
    · have hqFirst := h.first_le
      have hmeet := hdisjoint _ (TextRange.contains_iff.mpr ⟨hwithin, by omega⟩)
      exact absurd hin (by rw [hmeet]; exact Bool.false_ne_true)
  · exact .inr (hbehind hle)

/-- A span that waits is still held after another has been mapped. Where that one ends at its start, it has
grown over it or not. -/
theorem Held.next (htext : v.text = t.mapAt done f) (hne : ∀ c, f c ≠ []) (hq : q.start < q.stop)
    (hcovers : r.start < r.stop) (hlength : r.start < t.length)
    (hjoin : q.stop = r.start → Idempotent f) :
    ∃ first, Held (v.next (mapping f) q) t f (doneWith done q) r first := by
  have hrFirst := hr.first_le
  have hdone (offset : Nat) (hle : other ≤ offset) (hlt : offset < r.start) :
      doneWith done q offset = true := by
    rw [doneWith, hr.grown offset hle hlt, Bool.true_or]
  rcases h.stop_le_or hr hqDone hrDone hdisjoint hq hcovers with hbefore | hbehind
  · exact ⟨other, hrFirst, h.next_follow_of_le htext hr.start (by omega),
      h.next_follow_of_le htext hr.stop hbefore, hdone, hr.idempotent⟩
  · have hin : q.stop < t.length := by omega
    have hstop := h.next_follow_of_gt htext hqDone hne hr.stop (by omega) hin
    rcases Nat.lt_or_eq_of_le hbehind with hbeyond | hmeets
    · exact ⟨other, hrFirst, h.next_follow_of_gt htext hqDone hne hr.start hbeyond hin, hstop, hdone,
        hr.idempotent⟩
    · rcases h.next_follow_stop htext hqDone (hmeets ▸ hr.start) with hdrawn | hkept
      · refine ⟨first, by have := h.first_le; omega, hdrawn, hstop, fun offset hle hlt ↦ ?_, fun _ ↦ ?_⟩
        · rcases Nat.lt_or_ge offset q.start with hgrown | hwithin
          · rw [doneWith, h.grown offset hle hgrown, Bool.true_or]
          · rcases Nat.lt_or_ge offset q.stop with hlast | hlater
            · rw [doneWith, TextRange.contains_iff.mpr ⟨hwithin, hlast⟩, Bool.or_true]
            · exact hdone offset (by omega) hlt
        · rcases Nat.lt_or_eq_of_le hrFirst with hgrown | hmeet
          · exact hr.idempotent hgrown
          · exact hjoin (hmeets.trans hmeet)
      · exact ⟨other, hrFirst, hmeets ▸ hkept, hstop, hdone, hr.idempotent⟩

end Pair

/-! ### One span after the other -/

section Maps

variable {waiting : List TextRange}

theorem start_maps (t : Text) (f : Char → Text) (ranges : List TextRange) :
    Maps (start t) t f (fun _ ↦ false) ranges where
  text := (Text.replaceEach_eq_self fun _ _ ↦ rfl).symm
  clamps offset := by
    show min (min offset t.length) t.length = min offset t.length
    omega
  apart _ _ _ _ := rfl
  held r _ _ _ := ⟨r.start, Nat.le_refl _, (Text.placeAt_eq_min (fun _ _ ↦ rfl) _).symm,
    (Text.placeAt_eq_min (fun _ _ ↦ rfl) _).symm, fun _ hle hlt ↦ absurd hlt (Nat.not_lt.mpr hle),
    fun hlt ↦ absurd hlt (Nat.lt_irrefl _)⟩

theorem mapping_of_start_eq_stop {r : TextRange} (hr : r.start = r.stop) : mapping f t r = ⟨t, id⟩ := by
  have hnil : t.slice r.start r.stop = [] := by
    rw [Text.slice, hr, Nat.min_self, Nat.max_self, Nat.sub_self, List.take_zero]
  unfold mapping
  rw [hnil]
  rfl

/-- A span without characters changes nothing. -/
theorem Maps.next_of_not_covers (h : Maps v t f done (q :: waiting))
    (hnone : ¬(q.start < q.stop ∧ q.start < t.length)) :
    v.next (mapping f) q = v ∧ ∀ offset, offset < t.length →
      Text.mapInside done f offset = Text.mapInside (doneWith done q) f offset := by
  have hq := q.start_le_stop
  have hsame : v.follow q.start = v.follow q.stop := by
    rcases Nat.lt_or_eq_of_le hq with hlt | heq
    · have hbeyond : min q.start t.length = min q.stop t.length := by omega
      rw [← h.clamps q.start, hbeyond, h.clamps]
    · rw [heq]
  have hempty : (v.carried q).start = (v.carried q).stop := by
    simp only [carried, TextRange.between, hsame, Nat.min_self, Nat.max_self]
  refine ⟨?_, fun offset ho ↦ mapInside_doneWith_of_outside (Nat.le_refl _) (by omega)⟩
  unfold Revision.next
  rw [mapping_of_start_eq_stop hempty]
  rfl

theorem Maps.apart_next (h : Maps v t f done (q :: waiting))
    (hdisjoint : ∀ r ∈ waiting, ∀ offset, q.contains offset = true → r.contains offset = false) :
    ∀ r ∈ waiting, ∀ offset, r.contains offset = true → doneWith done q offset = false := by
  intro r hr offset hin
  have hout : q.contains offset = false := by
    refine Bool.eq_false_iff.mpr fun hq ↦ ?_
    rw [hdisjoint r hr offset hq] at hin
    exact Bool.false_ne_true hin
  rw [doneWith, h.apart r (List.mem_cons_of_mem _ hr) offset hin, hout]
  rfl

theorem Maps.next (h : Maps v t f done (q :: waiting)) (hne : ∀ c, f c ≠ [])
    (hdisjoint : ∀ r ∈ waiting, ∀ offset, q.contains offset = true → r.contains offset = false)
    (hjoin : ∀ r ∈ waiting, q.start < q.stop → r.start < r.stop → q.stop = r.start → Idempotent f) :
    Maps (v.next (mapping f) q) t f (doneWith done q) waiting := by
  have hclamps (offset : Nat) : (v.next (mapping f) q).follow (min offset t.length) =
      (v.next (mapping f) q).follow offset :=
    congrArg (mapping f v.text (v.carried q)).follow (h.clamps offset)
  have hapart := h.apart_next hdisjoint
  by_cases hcovers : q.start < q.stop ∧ q.start < t.length
  · obtain ⟨first, hq⟩ := h.held q List.mem_cons_self hcovers.1 hcovers.2
    have hqDone := h.apart q List.mem_cons_self
    refine ⟨hq.next_text h.text hqDone, hclamps, hapart, fun r hr hlt hlength ↦ ?_⟩
    have hmem : r ∈ q :: waiting := List.mem_cons_of_mem q hr
    obtain ⟨other, hheld⟩ := h.held r hmem hlt hlength
    exact hq.next hheld hqDone (h.apart r hmem) (hdisjoint r hr) h.text hne hcovers.1 hlt hlength
      (hjoin r hr hcovers.1 hlt)
  · obtain ⟨hsame, hinside⟩ := h.next_of_not_covers hcovers
    have hplace := Text.placeAt_congr hinside
    refine ⟨?_, hclamps, hapart, fun r hr hlt hlength ↦ ?_⟩
    · rw [hsame, h.text]
      exact Text.replaceEachFrom_congr fun offset _ ho ↦ hinside offset (by omega)
    · obtain ⟨other, hle, hstart, hstop, hgrown, hidem⟩ :=
        h.held r (List.mem_cons_of_mem _ hr) hlt hlength
      rw [hsame]
      exact ⟨other, hle, by rw [← hplace, hstart], by rw [← hplace, hstop],
        fun offset ho hbefore ↦ by rw [doneWith, hgrown offset ho hbefore, Bool.true_or], hidem⟩

/-- After all spans have been mapped in turn, the characters of their union are mapped. -/
theorem Maps.foldl_next {ranges : List TextRange} (h : Maps v t f done ranges) (hne : ∀ c, f c ≠ [])
    (hdisjoint : ranges.Pairwise fun q r ↦
      ∀ offset, q.contains offset = true → r.contains offset = false)
    (hjoin : ranges.Pairwise fun q r ↦
      q.start < q.stop → r.start < r.stop → q.stop = r.start → Idempotent f) :
    (ranges.foldl (Revision.next (mapping f)) v).text =
      t.mapAt (fun offset ↦ done offset || ranges.any (·.contains offset)) f := by
  induction ranges generalizing v done with
  | nil => simpa only [List.foldl_nil, List.any_nil, Bool.or_false] using h.text
  | cons q waiting ih =>
    obtain ⟨hq, hrest⟩ := List.pairwise_cons.mp hdisjoint
    obtain ⟨hqJoin, hrestJoin⟩ := List.pairwise_cons.mp hjoin
    simpa only [List.foldl_cons, List.any_cons, doneWith, Bool.or_assoc] using
      ih (h.next hne hq hqJoin) hrest hrestJoin

end Maps

end Held

end Revision

namespace Operator

theorem mapCase_revises (f : Char → Text) :
    (mapCase f).Revises .characterwise (Revision.mapping f) := by
  have hmap (e : Editor) (args : OperatorArgs) (hkind : args.range.kind = .characterwise) :
      (mapCase f e args).2 = mapChars f e args.range.start args.range.stop := by
    obtain ⟨caret, ⟨start, stop, kind, hle⟩, register, count⟩ := args
    cases hkind
    rfl
  refine ⟨fun e args hkind ↦ ?_, fun e args hkind ↦ ?_, fun e args hkind ↦ ?_⟩ <;>
    rw [hmap e args hkind]
  · unfold mapChars Revision.mapping
    dsimp only
    split <;> rfl
  · unfold mapChars Revision.mapping
    dsimp only
    split
    · exact (MarkSet.mapOffsets_id _).symm
    · exact MarkSet.mapOffsets_mapOffsets e.buffer.marks (fun _ ↦ MarkSet.offsetAfterErase _ _)
        fun _ ↦ MarkSet.offsetAfterInsert _ _
  · unfold mapChars
    dsimp only
    split <;> rfl

end Operator

namespace EditState

theorem compose_maps_union {s : EditState} (hs : s.editor.Sound) {f : Char → Text}
    (hne : ∀ c, f c ≠ []) (registry : Registry) (command : Command)
    (hkind : ∀ p ∈ s.plannedSpans registry command, p.2.kind = .characterwise)
    (hdisjoint : ((s.plannedSpans registry command).map (·.2)).Pairwise fun q r ↦
      ∀ offset, q.contains offset = true → r.contains offset = false)
    (hjoin : Revision.Idempotent f ∨ ((s.plannedSpans registry command).map (·.2)).Pairwise fun q r ↦
      q.start < q.stop → r.start < r.stop → q.stop ≠ r.start) :
    (s.compose registry command (Operator.mapCase f)).2.text =
      s.text.mapAt (fun offset ↦ (s.plannedSpans registry command).any (·.2.contains offset)) f := by
  have hpairs : ((s.plannedSpans registry command).map (·.2)).Pairwise fun q r ↦
      q.start < q.stop → r.start < r.stop → q.stop = r.start → Revision.Idempotent f := by
    rcases hjoin with hidem | hapart
    · exact List.pairwise_of_forall_mem_list fun _ _ _ _ _ _ _ ↦ hidem
    · exact hapart.imp fun hne hq hr heq ↦ absurd heq (hne hq hr)
  have hunion := (Revision.start_maps s.text f _).foldl_next hne hdisjoint hpairs
  rw [compose_text hs (Operator.mapCase_revises f) registry command hkind, hunion]
  simp only [Bool.false_or, List.any_map, Function.comp_def]

/-- Over spans that share no characters, the case operators change the case of all their characters at
once, each character by itself; to toggle it, no span may begin where one before it ends. -/
theorem compose_changes_case_at_once {s : EditState} (hs : s.editor.Sound) (registry : Registry)
    (command : Command) (hkind : ∀ p ∈ s.plannedSpans registry command, p.2.kind = .characterwise)
    (hdisjoint : ((s.plannedSpans registry command).map (·.2)).Pairwise fun q r ↦
      ∀ offset, q.contains offset = true → r.contains offset = false)
    {body : Operator} {f : Char → Text}
    (hcase : body = .lowercase ∧ f = Unicode.toLower ∨ body = .uppercase ∧ f = Unicode.toUpper ∨
      body = .toggleCase ∧ f = Operator.swapCase ∧
        ((s.plannedSpans registry command).map (·.2)).Pairwise fun q r ↦
          q.start < q.stop → r.start < r.stop → q.stop ≠ r.start) :
    (s.compose registry command body).2.text =
      s.text.mapAt (fun offset ↦ (s.plannedSpans registry command).any (·.2.contains offset)) f := by
  rcases hcase with ⟨rfl, rfl⟩ | ⟨rfl, rfl⟩ | ⟨rfl, rfl, hjoin⟩
  · exact compose_maps_union hs Unicode.toLower_ne_nil registry command hkind hdisjoint
      (.inl Unicode.toLower_idempotent)
  · exact compose_maps_union hs Unicode.toUpper_ne_nil registry command hkind hdisjoint
      (.inl Unicode.toUpper_idempotent)
  · exact compose_maps_union hs Operator.swapCase_ne_nil registry command hkind hdisjoint (.inr hjoin)

/-- Spans of two characters side by side, both in capitals. -/
theorem joined_spans_uppercased :
    let s : EditState := { editor := .ofMarked { text := "abcd\n".toList, carets := [0, 2] } }
    let command : Command :=
      { kind := .operator, action := ActionId.uppercase, argument := some twoRight }
    (s.plannedSpans .standard command).map (·.2) =
        [.between 0 2 .characterwise, .between 2 4 .characterwise] ∧
      (s.compose .standard command .uppercase).2.text = "ABCD\n".toList := by
  intro s command
  have hordered : s.syncCarets.carets.orderedByOffset = [⟨0⟩, ⟨1⟩] :=
    CaretTable.orderedByOffset_of_pairwise (by decide +kernel)
  have hspans : s.plannedSpans .standard command =
      [(⟨0⟩, .between 0 2 .characterwise), (⟨1⟩, .between 2 4 .characterwise)] := by
    rw [plannedSpans_of_get? rfl twoRight_registered, plannedRanges, hordered]
    decide +kernel
  have hs : s.editor.Sound := Editor.ofMarked_sound { text := "abcd\n".toList, carets := [0, 2] }
  have hdisjoint : ((s.plannedSpans .standard command).map (·.2)).Pairwise fun q r ↦
      ∀ offset, q.contains offset = true → r.contains offset = false := by
    rw [hspans]
    refine List.pairwise_pair.mpr fun offset hq ↦ TextRange.contains_eq_false_iff.mpr (.inl ?_)
    exact (TextRange.contains_iff.mp hq).2
  have hboth := compose_changes_case_at_once hs .standard command (by rw [hspans]; decide)
    hdisjoint (.inr (.inl ⟨rfl, rfl⟩))
  rw [hboth, hspans]
  exact ⟨rfl, by decide +kernel⟩

/-- To toggle the case of the same spans toggles that of the first one twice. -/
theorem joined_spans_toggled :
    let s : EditState := { editor := .ofMarked { text := "abcd\n".toList, carets := [0, 2] } }
    let command : Command :=
      { kind := .operator, action := ActionId.toggleCase, argument := some twoRight }
    (s.plannedSpans .standard command).map (·.2) =
        [.between 0 2 .characterwise, .between 2 4 .characterwise] ∧
      (s.compose .standard command .toggleCase).2.text = "abCD\n".toList ∧
      s.text.mapAt (fun offset ↦ (s.plannedSpans .standard command).any (·.2.contains offset))
        Operator.swapCase = "ABCD\n".toList := by
  intro s command
  have hordered : s.syncCarets.carets.orderedByOffset = [⟨0⟩, ⟨1⟩] :=
    CaretTable.orderedByOffset_of_pairwise (by decide +kernel)
  have hspans : s.plannedSpans .standard command =
      [(⟨0⟩, .between 0 2 .characterwise), (⟨1⟩, .between 2 4 .characterwise)] := by
    rw [plannedSpans_of_get? rfl twoRight_registered, plannedRanges, hordered]
    decide +kernel
  have hrun := compose_text (Editor.ofMarked_sound { text := "abcd\n".toList, carets := [0, 2] } :
    s.editor.Sound) (Operator.mapCase_revises Operator.swapCase) .standard command
    (by rw [hspans]; decide)
  rw [show Operator.toggleCase = Operator.mapCase Operator.swapCase from rfl, hrun, hspans]
  exact ⟨rfl, by decide +kernel, by decide +kernel⟩

end EditState

end ModalEdit
