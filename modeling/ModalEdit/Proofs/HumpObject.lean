import ModalEdit.Proofs.CountedSteps
import ModalEdit.Proofs.HumpTiling
import ModalEdit.Proofs.LineEnds
import ModalEdit.TextObject.Hump

/-!
The hump object. A scan stops at the hit that its count asks for, or at the last one
(`Text.nthHit?_succ`), so the motions over humps number the starts before an offset and the ends behind
it (`Text.humpStartFrom?_eq`, `Text.humpEndFrom?_eq`). Where the object's own rule sees no boundary a
letter stands beside the caret, and the hump which that letter is in starts before the caret or ends
behind it, so the scan finds a boundary, and the nearest one without leaving the word
(`Text.exists_start_before`, `Text.exists_end_behind`). So the object goes from a start to an
end, whatever count is given (`TextObject.hump_spans_counted_boundaries`), but for one that does not fit
into a signed number (`TextObject.hump_of_huge_count`).
-/

set_option autoImplicit false
set_option relaxedAutoImplicit false

namespace ModalEdit

open Unicode

namespace Text

/-! ### The scans -/

section Scans

variable {t : Text} {offset : Nat}

theorem nthHit?_succ (isHit : Nat → Bool) (n : Nat) (offsets : List Nat) :
    nthHit? isHit (n + 1) offsets =
      (offsets.filter isHit)[n]?.or (offsets.filter isHit).getLast? := by
  induction offsets generalizing n with
  | nil => rfl
  | cons offset rest ih =>
    rw [nthHit?]
    split
    · next hhit =>
      rw [List.filter_cons_of_pos hhit, List.getLast?_cons]
      cases n with
      | zero => rw [nthHit?]; rfl
      | succ n =>
        rw [ih, List.getElem?_cons_succ, Option.or_assoc]
        cases (rest.filter isHit).getLast? <;> rfl
    · next hmiss => rw [List.filter_cons_of_neg hmiss, ih]

theorem filter_range_lt (n offset : Nat) :
    (List.range n).filter (· < offset) = List.range (min offset n) := by
  rcases Nat.le_total offset n with hle | hle
  · obtain ⟨k, rfl⟩ := Nat.exists_eq_add_of_le hle
    rw [Nat.min_eq_left hle, List.range_add]
    refine filter_eq_front (fun q hq ↦ List.mem_range.mp hq) fun q hq ↦ ?_
    obtain ⟨r, -, rfl⟩ := List.mem_map.mp hq
    omega
  · rw [Nat.min_eq_right hle, List.filter_eq_self]
    exact fun q hq ↦ decide_eq_true (Nat.lt_of_lt_of_le (List.mem_range.mp hq) hle)

theorem filter_range_gt (n offset : Nat) :
    (List.range n).filter (offset < ·) = List.range' (offset + 1) (n - (offset + 1)) := by
  rcases Nat.le_total (offset + 1) n with hle | hle
  · obtain ⟨k, rfl⟩ := Nat.exists_eq_add_of_le hle
    rw [Nat.add_sub_cancel_left, List.range_add, List.range'_eq_map_range]
    refine filter_eq_back (fun q hq ↦ ?_) fun q hq ↦ ?_
    · exact Nat.not_lt.mpr (Nat.le_of_lt_succ (List.mem_range.mp hq))
    · obtain ⟨r, -, rfl⟩ := List.mem_map.mp hq
      omega
  · rw [Nat.sub_eq_zero_of_le hle, List.range'_zero, List.filter_eq_nil_iff]
    intro q hq
    have := List.mem_range.mp hq
    simpa using by omega

/-- Back from an offset the scan goes through the starts before it, the nearest first. -/
theorem humpStartFrom?_eq (h : offset ≤ t.length) (n : Nat) :
    t.humpStartFrom? offset (-(n + 1 : Nat)) =
      (t.humpStarts.filter (· < offset)).reverse[n]?.or (t.humpStarts.filter (· < offset)).head? := by
  have hoffsets : t.offsetsFrom offset (-(n + 1 : Nat)) = (List.range offset).reverse := by
    rw [offsetsFrom, if_neg (by omega), Nat.min_eq_left h]
  have hhits : (t.humpStarts.filter (· < offset)).reverse =
      (List.range offset).reverse.filter t.isHumpStart := by
    rw [humpStarts, places, List.filter_comm, filter_range_lt, Nat.min_eq_left h, List.filter_reverse]
    simp
  rw [humpStartFrom?, hoffsets, Int.natAbs_neg, Int.natAbs_natCast, nthHit?_succ, ← hhits,
    List.getLast?_reverse]

/-- Forward it goes through the ends behind it. -/
theorem humpEndFrom?_eq (t : Text) (offset n : Nat) :
    t.humpEndFrom? offset (n + 1 : Nat) =
      (t.humpEnds.filter (offset < ·))[n]?.or (t.humpEnds.filter (offset < ·)).getLast? := by
  have hoffsets : t.offsetsFrom offset (n + 1 : Nat) =
      List.range' (offset + 1) (t.length - (offset + 1)) := by
    rw [offsetsFrom, if_pos (by omega)]
  have hhits : t.humpEnds.filter (offset < ·) =
      (List.range' (offset + 1) (t.length - (offset + 1))).filter t.isHumpEnd := by
    rw [humpEnds, places, List.filter_comm, filter_range_gt]
    simp
  rw [humpEndFrom?, hoffsets, Int.natAbs_natCast, nthHit?_succ, hhits]

end Scans

/-! ### Places on either side of an offset -/

section Sides

variable {places : List Nat} {offset place : Nat}

/-- The first of the places before an offset is the first of all. -/
theorem head?_filter_lt (hsorted : places.Pairwise (· < ·)) (hne : places.filter (· < offset) ≠ []) :
    (places.filter (· < offset)).head? = places.head? := by
  obtain ⟨q, hq⟩ := List.exists_mem_of_ne_nil _ hne
  obtain ⟨hmem, hlt⟩ := List.mem_filter.mp hq
  cases places with
  | nil => rfl
  | cons first rest =>
    have hfirst : first < offset := by
      refine Nat.lt_of_le_of_lt ?_ (of_decide_eq_true hlt)
      rcases List.mem_cons.mp hmem with rfl | hrest
      · exact Nat.le_refl _
      · exact Nat.le_of_lt ((List.pairwise_cons.mp hsorted).1 q hrest)
    rw [List.filter_cons, if_pos (decide_eq_true hfirst)]
    rfl

/-- Where there is a place before an offset, the count asks for one, and a count of one for the
nearest. -/
theorem exists_nth_before (hsorted : places.Pairwise (· < ·))
    (hplace : IsGreatest {q | q ∈ places ∧ q < offset} place) (n : Nat) :
    ∃ q ∈ places, q < offset ∧ (n = 0 → q = place) ∧
      (places.filter (· < offset)).reverse[n]?.or (places.filter (· < offset)).head? = some q ∧
      (places.filter (· < offset)).reverse[n]?.or places.head? = some q := by
  obtain ⟨hfilter, -⟩ | ⟨hnil, -⟩ := NearestBelow.filter_cases hsorted (.inl hplace)
  · have hne : places.filter (· < offset) ≠ [] := by simp [hfilter]
    have hmem {q : Nat} (hq : q ∈ places.filter (· < offset)) : q ∈ places ∧ q < offset :=
      (List.mem_filter.mp hq).imp_right of_decide_eq_true
    rw [head?_filter_lt hsorted hne]
    cases hnth : (places.filter (· < offset)).reverse[n]? with
    | some q =>
      obtain ⟨hq, hlt⟩ := hmem (List.mem_reverse.mp (List.mem_of_getElem? hnth))
      refine ⟨q, hq, hlt, fun hzero ↦ ?_, rfl, rfl⟩
      subst hzero
      rw [hfilter, List.reverse_append] at hnth
      exact (Option.some.inj hnth).symm
    | none =>
      obtain ⟨hq, hlt⟩ := hmem (List.head_mem hne)
      have hhead : places.head? = some ((places.filter (· < offset)).head hne) := by
        rw [← head?_filter_lt hsorted hne, List.head?_eq_some_head hne]
      refine ⟨_, hq, hlt, fun hzero ↦ ?_, hhead, hhead⟩
      subst hzero
      simp [hfilter] at hnth
  · have hbelow : place ∈ places.filter (· < offset) :=
      List.mem_filter.mpr ⟨hplace.1.1, decide_eq_true hplace.1.2⟩
    rw [hnil] at hbelow
    cases hbelow

/-- The same behind an offset. -/
theorem exists_nth_behind (hsorted : places.Pairwise (· < ·))
    (hplace : IsLeast {q | q ∈ places ∧ offset < q} place) (n : Nat) :
    ∃ q ∈ places, offset < q ∧ (n = 0 → q = place) ∧
      (places.filter (offset < ·))[n]?.or (places.filter (offset < ·)).getLast? = some q ∧
      (places.filter (offset < ·))[n]?.or places.getLast? = some q := by
  have hnearest : NearestAbove places 0 offset place := .inl hplace
  obtain ⟨hfilter, -⟩ | ⟨hnil, -⟩ := hnearest.filter_cases hsorted
  · have hne : places.filter (offset + 1 ≤ ·) ≠ [] := by
      intro hnil
      rw [show places.filter (offset + 1 ≤ ·) = _ from hfilter] at hnil
      cases hnil
    obtain ⟨q, hq, hlt, -, hnth⟩ := exists_nth_or_last hsorted hne n
    have hlast : (places.filter (offset < ·)).getLast? = places.getLast? :=
      getLast?_filter_le hsorted hne
    refine ⟨q, hq, hlt, fun hzero ↦ ?_, hlast ▸ hnth.symm, hnth.symm⟩
    subst hzero
    rw [show places.filter (offset + 1 ≤ ·) = _ from hfilter] at hnth
    exact Option.some.inj hnth
  · have habove : place ∈ places.filter (offset < ·) :=
      List.mem_filter.mpr ⟨hplace.1.1, decide_eq_true hplace.1.2⟩
    rw [hnil] at habove
    cases habove

end Sides

/-! ### Boundaries beside a letter -/

section Boundaries

variable {t : Text} {place : Nat}

def wordCharAt (t : Text) (offset : Nat) : Bool := (t.charAt offset).any CharClass.isWordChar

theorem wordCharAt_of_letterOrDigitAt (h : t.letterOrDigitAt place = true) :
    t.wordCharAt place = true := by
  obtain ⟨c, hc, hmember⟩ := exists_of_letterOrDigitAt h
  rw [wordCharAt, hc, Option.any_some, CharClass.isWordChar]
  exact Bool.or_eq_true_iff.mpr (.inl hmember)

/-- A caret keeps to a word. -/
theorem normalize_of_wordCharAt (h : t.wordCharAt place = true) : t.normalize place false = place := by
  obtain ⟨c, hc, hword⟩ := (Option.any_eq_true _ _).mp h
  refine normalize_of_lt_lineEnd (lt_lineEnd_iff.mpr ⟨c, hc, ?_⟩)
  rintro rfl
  cases hword

variable (hplain : ∀ c ∈ t, PlainlyCased c)
include hplain

/-- From a letter or digit the scan back finds the start of the hump it is in. -/
theorem exists_start_before {last : Nat} (h : t.letterOrDigitAt last = true) :
    ∃ s, IsGreatest {q | q ∈ t.humpStarts ∧ q < last + 1} s ∧
      ∀ place, s ≤ place → place ≤ last → t.letterOrDigitAt place = true := by
  obtain ⟨i, ⟨s, e, hs, he, hle, hge⟩, -⟩ := existsUnique_hump hplain h
  obtain ⟨-, hstart, hstarts⟩ := getElem?_places.mp hs
  obtain ⟨-, -, hends⟩ := getElem?_places.mp he
  refine ⟨s, ⟨⟨List.mem_of_getElem? hs, Nat.lt_succ_of_le hle⟩, fun q hq ↦ Nat.le_of_not_lt fun hlt ↦ ?_⟩,
    fun place hle' hge' ↦ letterOrDigitAt_of_between hplain hs he hle' (Nat.le_trans hge' hge)⟩
  -- a start between would be one more than the humps that have ended allow
  obtain ⟨-, hstart'⟩ := mem_places.mp hq.1
  have hfirst : Nat.count (t.isHumpStart · = true) s < Nat.count (t.isHumpStart · = true) q :=
    Nat.count_strict_mono hstart hlt
  have hsecond : Nat.count (t.isHumpStart · = true) q <
      Nat.count (t.isHumpStart · = true) (last + 1) := Nat.count_strict_mono hstart' hq.2
  have hended := Nat.count_monotone (t.isHumpEnd · = true) hge
  have hcount := count_isHumpStart_succ hplain h
  omega

/-- And the scan forward finds its end. -/
theorem exists_end_behind {offset : Nat} (h : t.letterOrDigitAt (offset + 1) = true) :
    ∃ e, IsLeast {q | q ∈ t.humpEnds ∧ offset < q} e ∧
      ∀ place, offset < place → place ≤ e → t.letterOrDigitAt place = true := by
  obtain ⟨i, ⟨s, e, hs, he, hle, hge⟩, -⟩ := existsUnique_hump hplain h
  obtain ⟨-, hstart, hstarts⟩ := getElem?_places.mp hs
  obtain ⟨-, -, hends⟩ := getElem?_places.mp he
  refine ⟨e, ⟨⟨List.mem_of_getElem? he, hge⟩, fun q hq ↦ Nat.le_of_not_lt fun hlt ↦ ?_⟩,
    fun place hlt hle' ↦ letterOrDigitAt_of_between hplain hs he (Nat.le_trans hle hlt) hle'⟩
  -- the hump has started, so those before it have ended
  obtain ⟨-, hend'⟩ := mem_places.mp hq.1
  have hfirst : Nat.count (t.isHumpStart · = true) s <
      Nat.count (t.isHumpStart · = true) (offset + 1 + 1) :=
    Nat.count_strict_mono hstart (Nat.lt_succ_of_le hle)
  have hended := Nat.count_monotone (t.isHumpEnd · = true) hq.2
  have hbefore : Nat.count (t.isHumpEnd · = true) q < Nat.count (t.isHumpEnd · = true) e :=
    Nat.count_strict_mono hend' hlt
  have hcount := count_isHumpStart_succ hplain h
  change Nat.count _ (offset + 1) ≤ _ at hended
  omega

end Boundaries

end Text

namespace TextObject

section Hump

variable {t : Text} {offset n : Nat} {c : Char}

/-- Where no hump begins by the rule of the object, a letter comes before. -/
theorem exists_letter_before (h : humpBegins (t.charBefore offset) c = false) :
    ∃ last, offset = last + 1 ∧ t.letterOrDigitAt last = true := by
  cases offset with
  | zero => cases h
  | succ last =>
    refine ⟨last, rfl, ?_⟩
    obtain ⟨p, hp, hletter⟩ := (Option.all_eq_false _ _).mp h
    rw [Bool.or_eq_false_iff, Bool.not_eq_false'] at hletter
    rw [Text.letterOrDigitAt, show t.charAt last = some p from hp, Option.any_some, isLetterOrDigit,
      hletter.2, Bool.true_or]

/-- Where none ends a letter comes behind. -/
theorem letterOrDigitAt_succ (h : humpEnds c (t.charAt (offset + 1)) = false) :
    t.letterOrDigitAt (offset + 1) = true := by
  obtain ⟨d, hd, hletter⟩ := (Option.all_eq_false _ _).mp h
  rw [Bool.or_eq_false_iff, Bool.not_eq_false'] at hletter
  rw [Text.letterOrDigitAt, hd, Option.any_some, isLetterOrDigit, hletter.2, Bool.true_or]

variable (hc : t.charAt offset = some c) (hword : CharClass.isWordChar c = true)
include hc hword

theorem humpRange_eq {around : Bool} {count : Int} (hcount : signedCount? (max n 1) = some count) :
    humpRange t offset n around =
      (if humpBegins (t.charBefore offset) c then some offset
        else t.humpStartFrom? offset (-count)).bind fun start ↦
      (if humpEnds c (t.charAt (offset + 1)) then some offset
        else t.humpEndFrom? offset count).bind fun stop ↦
      some (.between (t.normalize start false)
        (if around then t.normalize stop false + 1 else t.normalize stop false) .characterwise) := by
  rw [humpRange, hc]
  simp only [hword, hcount, Option.bind_eq_bind, Option.bind_some, Bool.not_true, Bool.false_eq_true,
    if_false]
  split <;> split <;> rfl

variable (hplain : ∀ c ∈ t, PlainlyCased c)
include hplain

/-- The object starts at the caret or at the start of a hump before it, without leaving the word for a
count of one. -/
theorem exists_start (n : Nat) :
    ∃ s, s ≤ offset ∧ t.wordCharAt s = true ∧
      (if humpBegins (t.charBefore offset) c then some offset
        else t.humpStartFrom? offset (-(n + 1 : Nat))) = some s ∧
      (if humpBegins (t.charBefore offset) c then some offset
        else (t.humpStarts.filter (· < offset)).reverse[n]?.or t.humpStarts.head?) = some s ∧
      (n = 0 → ∀ place, s ≤ place → place ≤ offset → t.wordCharAt place = true) := by
  have hhere : t.wordCharAt offset = true := by rwa [Text.wordCharAt, hc, Option.any_some]
  cases hbegins : humpBegins (t.charBefore offset) c with
  | true =>
    refine ⟨offset, Nat.le_refl _, hhere, rfl, rfl, fun _ place hle hge ↦ ?_⟩
    rwa [Nat.le_antisymm hge hle]
  | false =>
    obtain ⟨last, rfl, hletter⟩ := exists_letter_before hbegins
    obtain ⟨near, hnear, hmembers⟩ := Text.exists_start_before hplain hletter
    obtain ⟨s, hs, hlt, hone, hscan, hspec⟩ :=
      Text.exists_nth_before (t.places_sorted _) hnear n
    have hwithin : last + 1 ≤ t.length := Nat.le_of_lt (Text.lt_length_of_charAt hc)
    rw [Text.humpStartFrom?_eq hwithin]
    refine ⟨s, Nat.le_of_lt hlt, ?_, hscan, hspec, fun hzero place hle hge ↦ ?_⟩
    · have hstart : t.isHumpStart s = true := (Text.mem_places.mp hs).2
      exact Text.wordCharAt_of_letterOrDigitAt (Text.letterOrDigitAt_of_isHumpStart hplain hstart)
    · rcases Nat.eq_or_lt_of_le hge with rfl | hbefore
      · exact hhere
      · exact Text.wordCharAt_of_letterOrDigitAt
          (hmembers place (hone hzero ▸ hle) (Nat.le_of_lt_succ hbefore))

/-- And it stops at the caret or at the end of a hump behind it. -/
theorem exists_stop (n : Nat) :
    ∃ e, offset ≤ e ∧ t.wordCharAt e = true ∧
      (if humpEnds c (t.charAt (offset + 1)) then some offset
        else t.humpEndFrom? offset (n + 1 : Nat)) = some e ∧
      (if humpEnds c (t.charAt (offset + 1)) then some offset
        else (t.humpEnds.filter (offset < ·))[n]?.or t.humpEnds.getLast?) = some e ∧
      (n = 0 → ∀ place, offset ≤ place → place ≤ e → t.wordCharAt place = true) := by
  have hhere : t.wordCharAt offset = true := by rwa [Text.wordCharAt, hc, Option.any_some]
  cases hends : humpEnds c (t.charAt (offset + 1)) with
  | true =>
    refine ⟨offset, Nat.le_refl _, hhere, rfl, rfl, fun _ place hle hge ↦ ?_⟩
    rwa [Nat.le_antisymm hge hle]
  | false =>
    obtain ⟨near, hnear, hmembers⟩ := Text.exists_end_behind hplain (letterOrDigitAt_succ hends)
    obtain ⟨e, he, hlt, hone, hscan, hspec⟩ :=
      Text.exists_nth_behind (t.places_sorted _) hnear n
    rw [Text.humpEndFrom?_eq]
    refine ⟨e, Nat.le_of_lt hlt, ?_, hscan, hspec, fun hzero place hle hge ↦ ?_⟩
    · have hend : t.isHumpEnd e = true := (Text.mem_places.mp he).2
      exact Text.wordCharAt_of_letterOrDigitAt (Text.letterOrDigitAt_of_isHumpEnd hplain hend)
    · rcases Nat.eq_or_lt_of_le hle with rfl | hbehind
      · exact hhere
      · exact Text.wordCharAt_of_letterOrDigitAt (hmembers place hbehind (hone hzero ▸ hge))

/-- On a character of a word the object goes from the caret or the start of the n-th hump before it to
the caret or the end of the n-th hump behind it, or of the outermost if there are not as many; the count
is taken as a signed number of 64 bits. One hump has characters of words only. -/
theorem hump_spans_counted_boundaries (hpos : 1 ≤ n) (hsigned : n < 2 ^ 63) :
    ∃ s e, s ≤ offset ∧ offset ≤ e ∧ e < t.length ∧
      humpRange t offset n false = some (.between s e .characterwise) ∧
      humpRange t offset n true = some (.between s (e + 1) .characterwise) ∧
      (if humpBegins (t.charBefore offset) c then some offset
        else (t.humpStarts.filter (· < offset)).reverse[n - 1]?.or t.humpStarts.head?) = some s ∧
      (if humpEnds c (t.charAt (offset + 1)) then some offset
        else (t.humpEnds.filter (offset < ·))[n - 1]?.or t.humpEnds.getLast?) = some e ∧
      (n = 1 → ∀ place, s ≤ place → place ≤ e → (t.charAt place).any CharClass.isWordChar = true) := by
  obtain ⟨m, rfl⟩ := Nat.exists_eq_add_of_le' hpos
  obtain ⟨s, hle, hs, hstart, hstart', hbefore⟩ := exists_start hc hword hplain m
  obtain ⟨e, hge, he, hstop, hstop', hbehind⟩ := exists_stop hc hword hplain m
  have hrange (around : Bool) : humpRange t offset (m + 1) around =
      some (.between s (if around then e + 1 else e) .characterwise) := by
    have hcount : signedCount? (max (m + 1) 1) = some ((m + 1 : Nat) : Int) := by
      rw [Nat.max_eq_left hpos, signedCount?, if_pos (Nat.lt_of_lt_of_le hsigned (by decide))]
    rw [humpRange_eq hc hword hcount, hstart, hstop, Option.bind_some, Option.bind_some,
      Text.normalize_of_wordCharAt hs, Text.normalize_of_wordCharAt he]
  obtain ⟨d, hd, -⟩ := (Option.any_eq_true _ _).mp he
  refine ⟨s, e, hle, hge, Text.lt_length_of_charAt hd, hrange false, hrange true, hstart', hstop',
    fun hone place hfrom hto ↦ ?_⟩
  have hzero : m = 0 := Nat.succ.inj hone
  rcases Nat.le_total place offset with hplace | hplace
  · exact hbefore hzero place hfrom hplace
  · exact hbehind hzero place hplace hto

end Hump

/-- Two humps from inside an acronym: on both sides the boundary of its own is the first that counts. -/
theorem hump_of_mixed_identifier :
    let t : Text := "getHTTPResponse2_ok".toList
    (∀ c ∈ t, PlainlyCased c) ∧ t.charAt 5 = some 'T' ∧ CharClass.isWordChar 'T' = true ∧
      humpRange t 5 2 false = some (.between 0 14 .characterwise) ∧
      humpRange t 5 2 true = some (.between 0 15 .characterwise) := by
  intro t
  have hplain : ∀ c ∈ t, PlainlyCased c := List.all_iff_forall_prop.mp (by decide +kernel)
  have hword : CharClass.isWordChar 'T' = true := by decide +kernel
  obtain ⟨s, e, -, -, -, hinner, haround, hstart, hstop, -⟩ :=
    hump_spans_counted_boundaries (show t.charAt 5 = some 'T' from rfl) hword hplain
      (show 1 ≤ 2 by decide) (by decide)
  have hs : 0 = s := Option.some.inj (Eq.trans (by decide +kernel) hstart)
  have he : 14 = e := Option.some.inj (Eq.trans (by decide +kernel) hstop)
  subst hs he
  exact ⟨hplain, rfl, hword, hinner, haround⟩

/-- A count that does not fit is refused, and there is no object. -/
theorem hump_of_huge_count :
    let t : Text := "ab".toList
    (∀ c ∈ t, PlainlyCased c) ∧ t.charAt 0 = some 'a' ∧ CharClass.isWordChar 'a' = true ∧
      1 ≤ 2 ^ 63 ∧ humpRange t 0 (2 ^ 63) false = none := by
  intro t
  exact ⟨List.all_iff_forall_prop.mp (by decide +kernel), rfl, by decide +kernel, by decide,
    by decide +kernel⟩

end TextObject

end ModalEdit
