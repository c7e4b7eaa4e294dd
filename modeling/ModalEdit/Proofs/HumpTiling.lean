import Mathlib.Data.Bool.AllAny
import Mathlib.Data.Nat.Count
import ModalEdit.Proofs.WordPlaces
import ModalEdit.Text.Hump

/-!
Humps tile identifiers. The rules for the start and the end of a hump look at different neighbours, but
where one letter or digit follows another, a hump ends at the first just if one starts at the second
(`Text.endsHump_eq_startsHump`), and at the edges of a run of letters and digits both rules hold. So
before an offset there are as many starts as ends, and one start more just where a hump goes on across it
(`Text.count_isHumpStart`). Counting tells the i-th start and the i-th end, and with it that every letter
and digit is between them for one i, and nothing else is (`Text.humps_tile_identifiers`).
-/

set_option autoImplicit false
set_option relaxedAutoImplicit false

namespace ModalEdit

/-- A letter is a capital or a small one and not both, whatever is either is a letter, and no digit is
one. -/
structure PlainlyCased (c : Char) : Prop where
  one_case : Unicode.isAlphabetic c = true → Unicode.isLowercase c = !Unicode.isUppercase c
  letter : Unicode.isUppercase c = true ∨ Unicode.isLowercase c = true →
    Unicode.isAlphabetic c = true
  digit : Unicode.isNumeric c = true → Unicode.isAlphabetic c = false

instance (c : Char) : Decidable (PlainlyCased c) :=
  decidable_of_iff (_ ∧ _ ∧ _) ⟨fun ⟨h, h', h''⟩ ↦ ⟨h, h', h''⟩, fun ⟨h, h', h''⟩ ↦ ⟨h, h', h''⟩⟩

def isLetterOrDigit (c : Char) : Bool := Unicode.isAlphabetic c || Unicode.isNumeric c

namespace PlainlyCased

open Unicode

variable {c : Char}

/-- A letter or digit is a capital, a small letter or a digit, and nothing else of these. -/
theorem member_cases (h : PlainlyCased c) (hmember : isLetterOrDigit c = true) :
    (isUppercase c = true ∧ isLowercase c = false ∧ isAlphabetic c = true ∧ isNumeric c = false) ∨
      (isUppercase c = false ∧ isLowercase c = true ∧ isAlphabetic c = true ∧ isNumeric c = false) ∨
        isUppercase c = false ∧ isLowercase c = false ∧ isAlphabetic c = false ∧
          isNumeric c = true := by
  obtain ⟨hone, hletter, hdigit⟩ := h
  rw [isLetterOrDigit, Bool.or_eq_true] at hmember
  cases hupper : isUppercase c <;> cases hlower : isLowercase c <;> simp_all

/-- Anything else has none of the properties. -/
theorem of_not_member (h : PlainlyCased c) (hother : isLetterOrDigit c = false) :
    isUppercase c = false ∧ isLowercase c = false ∧ isAlphabetic c = false ∧ isNumeric c = false := by
  obtain ⟨halphabetic, hnumeric⟩ := Bool.or_eq_false_iff.mp hother
  have hcase : ¬(isUppercase c = true ∨ isLowercase c = true) := fun hcased ↦ by
    cases halphabetic.symm.trans (h.letter hcased)
  obtain ⟨hupper, hlower⟩ := not_or.mp hcase
  exact ⟨Bool.eq_false_iff.mpr hupper, Bool.eq_false_iff.mpr hlower, halphabetic, hnumeric⟩

end PlainlyCased

namespace Text

open Unicode

/-- Whether there is a letter or digit at an offset. -/
def letterOrDigitAt (t : Text) (offset : Nat) : Bool := (t.charAt offset).any isLetterOrDigit

/-- Where humps start, in ascending order. -/
def humpStarts (t : Text) : List Nat := t.places (t.isHumpStart · = true)

/-- Where humps end, in ascending order. -/
def humpEnds (t : Text) : List Nat := t.places (t.isHumpEnd · = true)

/-! ### The rules beside each other -/

section Rules

variable {c d : Char} {previous next afterNext : Option Char} (hc : PlainlyCased c)
include hc

theorem isLetterOrDigit_of_startsHump (h : startsHump previous c next = true) :
    isLetterOrDigit c = true := by
  by_contra hother
  have hnone := hc.of_not_member (Bool.eq_false_iff.mpr hother)
  simp [startsHump, hnone] at h

theorem isLetterOrDigit_of_endsHump (h : endsHump c next afterNext = true) :
    isLetterOrDigit c = true := by
  by_contra hother
  have hnone := hc.of_not_member (Bool.eq_false_iff.mpr hother)
  simp [endsHump, hnone] at h

variable (hmember : isLetterOrDigit c = true)
include hmember

/-- A letter or digit behind nothing of the kind starts a hump. -/
theorem startsHump_of_edge (hedge : ∀ p ∈ previous, PlainlyCased p ∧ isLetterOrDigit p = false) :
    startsHump previous c next = true := by
  cases previous with
  | none => rcases hc.member_cases hmember with h | h | h <;> simp [startsHump, h]
  | some p =>
    obtain ⟨hp, hother⟩ := hedge p rfl
    have hnone := hp.of_not_member hother
    rcases hc.member_cases hmember with h | h | h <;> simp [startsHump, h, hnone]

/-- A letter or digit before nothing of the kind ends one. -/
theorem endsHump_of_edge (hedge : ∀ n ∈ next, PlainlyCased n ∧ isLetterOrDigit n = false) :
    endsHump c next afterNext = true := by
  cases next with
  | none => rcases hc.member_cases hmember with h | h | h <;> simp [endsHump, h]
  | some n =>
    obtain ⟨hn, hother⟩ := hedge n rfl
    have hnone := hn.of_not_member hother
    rcases hc.member_cases hmember with h | h | h <;> simp [endsHump, h, hnone]

/-- Where two of them meet, a hump ends at the first just if one starts at the second. -/
theorem endsHump_eq_startsHump (hd : PlainlyCased d) (hmember' : isLetterOrDigit d = true) :
    endsHump c (some d) afterNext = startsHump (some c) d afterNext := by
  rcases hc.member_cases hmember with h | h | h <;>
    rcases hd.member_cases hmember' with h' | h' | h' <;>
      simp [startsHump, endsHump, h, h']

end Rules

/-! ### Starts and ends in a text -/

section Places

variable {t : Text} {offset : Nat}

theorem exists_of_letterOrDigitAt (h : t.letterOrDigitAt offset = true) :
    ∃ c, t.charAt offset = some c ∧ isLetterOrDigit c = true :=
  (Option.any_eq_true _ _).mp h

theorem letterOrDigitAt_of_charAt {c : Char} (h : t.charAt offset = some c) :
    t.letterOrDigitAt offset = isLetterOrDigit c := by
  rw [letterOrDigitAt, h]
  rfl

/-- Whether a hump goes on from the character before an offset to the one there. -/
def humpGoesOn (t : Text) : Nat → Bool
  | 0 => false
  | last + 1 => t.letterOrDigitAt last && !t.isHumpEnd last

variable (hplain : ∀ c ∈ t, PlainlyCased c)
include hplain

theorem plainlyCased_of_charAt {c : Char} (h : t.charAt offset = some c) : PlainlyCased c :=
  hplain c (List.mem_of_getElem? h)

theorem letterOrDigitAt_of_isHumpStart (h : t.isHumpStart offset = true) :
    t.letterOrDigitAt offset = true := by
  obtain ⟨c, hc, hstarts⟩ := (Option.any_eq_true _ _).mp h
  rw [letterOrDigitAt_of_charAt hc]
  exact isLetterOrDigit_of_startsHump (plainlyCased_of_charAt hplain hc) hstarts

theorem letterOrDigitAt_of_isHumpEnd (h : t.isHumpEnd offset = true) :
    t.letterOrDigitAt offset = true := by
  obtain ⟨c, hc, hends⟩ := (Option.any_eq_true _ _).mp h
  rw [letterOrDigitAt_of_charAt hc]
  exact isLetterOrDigit_of_endsHump (plainlyCased_of_charAt hplain hc) hends

theorem not_member_of_charAt (h : t.letterOrDigitAt offset = false) :
    ∀ c ∈ t.charAt offset, PlainlyCased c ∧ isLetterOrDigit c = false := fun c hc ↦
  ⟨plainlyCased_of_charAt hplain hc, by rw [← letterOrDigitAt_of_charAt hc, h]⟩

theorem isHumpStart_of_edge (h : t.letterOrDigitAt offset = true)
    (hedge : ∀ last, offset = last + 1 → t.letterOrDigitAt last = false) :
    t.isHumpStart offset = true := by
  obtain ⟨c, hc, hmember⟩ := exists_of_letterOrDigitAt h
  rw [isHumpStart, hc]
  refine startsHump_of_edge (plainlyCased_of_charAt hplain hc) hmember ?_
  cases offset with
  | zero => exact fun p hp ↦ by cases hp
  | succ last => exact not_member_of_charAt hplain (hedge last rfl)

theorem isHumpEnd_of_edge (h : t.letterOrDigitAt offset = true)
    (hedge : t.letterOrDigitAt (offset + 1) = false) : t.isHumpEnd offset = true := by
  obtain ⟨c, hc, hmember⟩ := exists_of_letterOrDigitAt h
  rw [isHumpEnd, hc]
  exact endsHump_of_edge (plainlyCased_of_charAt hplain hc) hmember
    (not_member_of_charAt hplain hedge)

theorem isHumpEnd_eq_isHumpStart_succ (h : t.letterOrDigitAt offset = true)
    (h' : t.letterOrDigitAt (offset + 1) = true) :
    t.isHumpEnd offset = t.isHumpStart (offset + 1) := by
  obtain ⟨c, hc, hmember⟩ := exists_of_letterOrDigitAt h
  obtain ⟨d, hd, hmember'⟩ := exists_of_letterOrDigitAt h'
  rw [isHumpEnd, isHumpStart, hc, hd]
  show endsHump c (some d) _ = startsHump (t.charAt offset) d _
  rw [hc]
  exact endsHump_eq_startsHump (plainlyCased_of_charAt hplain hc) hmember
    (plainlyCased_of_charAt hplain hd) hmember'

/-- Where a hump goes on there is a letter or digit. -/
theorem letterOrDigitAt_of_humpGoesOn (h : t.humpGoesOn offset = true) :
    t.letterOrDigitAt offset = true := by
  cases offset with
  | zero => cases h
  | succ last =>
    obtain ⟨hmember, hgoes⟩ := Bool.and_eq_true_iff.mp h
    by_contra hedge
    rw [isHumpEnd_of_edge hplain hmember (Bool.eq_false_iff.mpr hedge)] at hgoes
    cases hgoes

/-- A hump starts at a letter or digit just if none goes on there. -/
theorem isHumpStart_eq (offset : Nat) :
    t.isHumpStart offset = (t.letterOrDigitAt offset && !t.humpGoesOn offset) := by
  cases hmember : t.letterOrDigitAt offset with
  | false =>
    refine Bool.eq_false_iff.mpr fun hstarts ↦ ?_
    cases hmember.symm.trans (letterOrDigitAt_of_isHumpStart hplain hstarts)
  | true =>
    cases offset with
    | zero => exact isHumpStart_of_edge hplain hmember fun _ h ↦ by cases h
    | succ last =>
      cases hlast : t.letterOrDigitAt last with
      | false =>
        rw [humpGoesOn, hlast]
        exact isHumpStart_of_edge hplain hmember fun _ h ↦ by cases h; exact hlast
      | true =>
        rw [humpGoesOn, hlast, ← isHumpEnd_eq_isHumpStart_succ hplain hlast hmember]
        simp

/-- Before an offset as many humps start as end, but for the one that goes on there. -/
theorem count_isHumpStart (offset : Nat) :
    Nat.count (t.isHumpStart · = true) offset =
      Nat.count (t.isHumpEnd · = true) offset + (t.humpGoesOn offset).toNat := by
  induction offset with
  | zero => rfl
  | succ offset ih =>
    have hgoes : t.humpGoesOn offset = true → t.letterOrDigitAt offset = true :=
      letterOrDigitAt_of_humpGoesOn hplain
    have hends : t.isHumpEnd offset = true → t.letterOrDigitAt offset = true :=
      letterOrDigitAt_of_isHumpEnd hplain
    rw [Nat.count_succ, Nat.count_succ, ih, isHumpStart_eq hplain, humpGoesOn]
    cases hmember : t.letterOrDigitAt offset <;> cases hgoes' : t.humpGoesOn offset <;>
      cases hends' : t.isHumpEnd offset <;> simp_all

end Places

/-! ### The tiling -/

/-- Of the places up to a bound, the one with a number is the one that as many come before. -/
theorem getElem?_filter_range (p : Nat → Prop) [DecidablePred p] {n i place : Nat} :
    ((List.range n).filter (p ·))[i]? = some place ↔
      place < n ∧ p place ∧ Nat.count p place = i := by
  induction n with
  | zero => simp
  | succ n ih =>
    have hlength : ((List.range n).filter (p ·)).length = Nat.count p n :=
      List.countP_eq_length_filter.symm
    have hbefore (hplace : p place) (hlt : place < n) : Nat.count p place < Nat.count p n :=
      Nat.count_strict_mono hplace hlt
    rw [List.range_succ, List.filter_append, List.getElem?_append, hlength, List.filter_singleton]
    by_cases hn : p n <;> split <;> simp only [ih, hn] <;> grind

theorem getElem?_places {t : Text} {p : Nat → Prop} [DecidablePred p] {i place : Nat} :
    (t.places p)[i]? = some place ↔ place < t.length ∧ p place ∧ Nat.count p place = i :=
  getElem?_filter_range p

theorem length_places (t : Text) (p : Nat → Prop) [DecidablePred p] :
    (t.places p).length = Nat.count p t.length :=
  List.countP_eq_length_filter.symm

/-- Starts and ends of intervals that lie one behind the other, apart, and hold just the offsets that
are covered. -/
structure Tiles (starts ends : List Nat) (covered : Nat → Prop) : Prop where
  length_eq : starts.length = ends.length
  start_le_end : ∀ i s e : Nat, starts[i]? = some s → ends[i]? = some e → s ≤ e
  end_lt_start : ∀ i e s : Nat, ends[i]? = some e → starts[i + 1]? = some s → e < s
  exists_unique : ∀ offset, covered offset →
    ∃! i : Nat, ∃ s e : Nat, starts[i]? = some s ∧ ends[i]? = some e ∧ s ≤ offset ∧ offset ≤ e
  covered_of_between : ∀ i s e offset : Nat, starts[i]? = some s → ends[i]? = some e →
    s ≤ offset → offset ≤ e → covered offset

section Tiling

variable {t : Text} {i s e offset : Nat}

theorem humpGoesOn_succ_eq_false (h : t.isHumpEnd offset = true) :
    t.humpGoesOn (offset + 1) = false := by
  rw [humpGoesOn, h, Bool.not_true, Bool.and_false]

theorem letterOrDigitAt_length (t : Text) : t.letterOrDigitAt t.length = false := by
  rw [letterOrDigitAt, charAt, List.getElem?_eq_none (Nat.le_refl _)]
  rfl

variable (hplain : ∀ c ∈ t, PlainlyCased c)
include hplain

theorem count_isHumpStart_succ_of_end (h : t.isHumpEnd offset = true) :
    Nat.count (t.isHumpStart · = true) (offset + 1) =
      Nat.count (t.isHumpEnd · = true) offset + 1 := by
  rw [count_isHumpStart hplain, humpGoesOn_succ_eq_false h, Nat.count_succ_eq_succ_count h]
  rfl

/-- Up to a letter or digit one hump more has started than has ended before it. -/
theorem count_isHumpStart_succ (h : t.letterOrDigitAt offset = true) :
    Nat.count (t.isHumpStart · = true) (offset + 1) =
      Nat.count (t.isHumpEnd · = true) offset + 1 := by
  by_cases hends : t.isHumpEnd offset = true
  · exact count_isHumpStart_succ_of_end hplain hends
  · have hgoes : t.humpGoesOn (offset + 1) = true := by
      rw [humpGoesOn, h, Bool.eq_false_iff.mpr hends]
      rfl
    rw [count_isHumpStart hplain, hgoes, Nat.count_succ_eq_count hends]
    rfl

theorem length_humpStarts : t.humpStarts.length = t.humpEnds.length := by
  have hgoes : t.humpGoesOn t.length = false := by
    by_contra hgoes
    have hmember := letterOrDigitAt_of_humpGoesOn hplain (Bool.not_eq_false _ ▸ hgoes)
    cases hmember.symm.trans t.letterOrDigitAt_length
  rw [humpStarts, humpEnds, length_places, length_places, count_isHumpStart hplain, hgoes]
  rfl

theorem humpStart_le_humpEnd (hs : t.humpStarts[i]? = some s) (he : t.humpEnds[i]? = some e) :
    s ≤ e := by
  obtain ⟨-, -, hstarts⟩ := getElem?_places.mp hs
  obtain ⟨-, hend, hends⟩ := getElem?_places.mp he
  have hcount := count_isHumpStart_succ_of_end hplain hend
  have hbefore : Nat.count (t.isHumpStart · = true) s <
      Nat.count (t.isHumpStart · = true) (e + 1) := by omega
  exact Nat.le_of_lt_succ (Nat.lt_of_count_lt_count hbefore)

theorem humpEnd_lt_humpStart (he : t.humpEnds[i]? = some e) (hs : t.humpStarts[i + 1]? = some s) :
    e < s := by
  obtain ⟨-, -, hends⟩ := getElem?_places.mp he
  obtain ⟨-, hstart, hstarts⟩ := getElem?_places.mp hs
  have hgoes : t.humpGoesOn s = false := by
    rw [isHumpStart_eq hplain, Bool.and_eq_true, Bool.not_eq_true'] at hstart
    exact hstart.2
  have hcount := count_isHumpStart hplain s
  rw [hgoes, Bool.toNat_false] at hcount
  have hbefore : Nat.count (t.isHumpEnd · = true) e < Nat.count (t.isHumpEnd · = true) s := by
    omega
  exact Nat.lt_of_count_lt_count hbefore

/-- The hump that a letter or digit is in is the one that as many have ended before. -/
theorem existsUnique_hump (h : t.letterOrDigitAt offset = true) :
    ∃! i : Nat, ∃ s e : Nat, t.humpStarts[i]? = some s ∧ t.humpEnds[i]? = some e ∧ s ≤ offset ∧ offset ≤ e := by
  have hstarted := count_isHumpStart_succ hplain h
  have hwithin : offset < t.length := by
    obtain ⟨c, hc, -⟩ := exists_of_letterOrDigitAt h
    exact lt_length_of_charAt hc
  have hmore : Nat.count (t.isHumpEnd · = true) offset < t.humpStarts.length := by
    have hall : Nat.count (t.isHumpStart · = true) (offset + 1) ≤
        Nat.count (t.isHumpStart · = true) t.length :=
      Nat.count_monotone _ hwithin
    rw [humpStarts, length_places]
    omega
  refine ⟨Nat.count (t.isHumpEnd · = true) offset, ?_, ?_⟩
  · obtain ⟨s, hs⟩ : ∃ s, t.humpStarts[Nat.count (t.isHumpEnd · = true) offset]? = some s :=
      ⟨_, List.getElem?_eq_getElem hmore⟩
    obtain ⟨e, he⟩ : ∃ e, t.humpEnds[Nat.count (t.isHumpEnd · = true) offset]? = some e :=
      ⟨_, List.getElem?_eq_getElem (length_humpStarts hplain ▸ hmore)⟩
    obtain ⟨-, -, hstarts⟩ := getElem?_places.mp hs
    obtain ⟨-, hend, hends⟩ := getElem?_places.mp he
    have hbefore : Nat.count (t.isHumpStart · = true) s <
        Nat.count (t.isHumpStart · = true) (offset + 1) := by omega
    refine ⟨s, e, hs, he, Nat.le_of_lt_succ (Nat.lt_of_count_lt_count hbefore), ?_⟩
    refine Nat.le_of_not_lt fun hlt ↦ ?_
    have hended : Nat.count (t.isHumpEnd · = true) e < Nat.count (t.isHumpEnd · = true) offset :=
      Nat.count_strict_mono hend hlt
    exact Nat.ne_of_lt hended hends
  · rintro j ⟨s, e, hs, he, hle, hge⟩
    obtain ⟨-, hstart, hstarts⟩ := getElem?_places.mp hs
    obtain ⟨-, -, hends⟩ := getElem?_places.mp he
    have hbefore : Nat.count (t.isHumpStart · = true) s <
        Nat.count (t.isHumpStart · = true) (offset + 1) :=
      Nat.count_strict_mono hstart (Nat.lt_succ_of_le hle)
    have hafter := Nat.count_monotone (t.isHumpEnd · = true) hge
    omega

theorem letterOrDigitAt_of_between (hs : t.humpStarts[i]? = some s) (he : t.humpEnds[i]? = some e)
    (hle : s ≤ offset) (hge : offset ≤ e) : t.letterOrDigitAt offset = true := by
  obtain ⟨-, hstart, hstarts⟩ := getElem?_places.mp hs
  obtain ⟨-, -, hends⟩ := getElem?_places.mp he
  by_contra hother
  have hstarted : Nat.count (t.isHumpStart · = true) s <
      Nat.count (t.isHumpStart · = true) (offset + 1) :=
    Nat.count_strict_mono hstart (Nat.lt_succ_of_le hle)
  have hended := Nat.count_monotone (t.isHumpEnd · = true) hge
  have hgoes : t.humpGoesOn (offset + 1) = false := by
    rw [humpGoesOn, Bool.eq_false_iff.mpr hother, Bool.false_and]
  have hnone : ¬t.isHumpEnd offset = true := fun hend ↦
    hother (letterOrDigitAt_of_isHumpEnd hplain hend)
  have hcount := count_isHumpStart hplain (offset + 1)
  rw [hgoes, Nat.count_succ_eq_count (p := (t.isHumpEnd · = true)) hnone, Bool.toNat_false] at hcount
  omega

/-- In a text whose letters are each a capital or a small one, with no digit among them, the starts and
the ends of humps belong together one by one, and the humps hold every letter and digit once, and
nothing else. -/
theorem humps_tile_identifiers : Tiles t.humpStarts t.humpEnds fun offset ↦
    ∃ c, t.charAt offset = some c ∧ (isAlphabetic c = true ∨ isNumeric c = true) := by
  have hmember (offset : Nat) : t.letterOrDigitAt offset = true ↔
      ∃ c, t.charAt offset = some c ∧ (isAlphabetic c = true ∨ isNumeric c = true) := by
    simp only [letterOrDigitAt, Option.any_eq_true, isLetterOrDigit, Bool.or_eq_true]
  exact {
    length_eq := length_humpStarts hplain
    start_le_end := fun i s e hs he ↦ humpStart_le_humpEnd hplain hs he
    end_lt_start := fun i e s he hs ↦ humpEnd_lt_humpStart hplain he hs
    exists_unique := fun offset h ↦ existsUnique_hump hplain ((hmember offset).mpr h)
    covered_of_between := fun i s e offset hs he hle hge ↦
      (hmember offset).mp (letterOrDigitAt_of_between hplain hs he hle hge) }

end Tiling

/-- An acronym, a number and an underscore between words. -/
theorem humps_of_mixed_identifier :
    let t : Text := "parseHTMLDoc2go_now".toList
    (∀ c ∈ t, PlainlyCased c) ∧ t.humpStarts = [0, 5, 9, 12, 13, 16] ∧
      t.humpEnds = [4, 8, 11, 12, 14, 18] ∧ Tiles t.humpStarts t.humpEnds fun offset ↦
        ∃ c, t.charAt offset = some c ∧ (isAlphabetic c = true ∨ isNumeric c = true) := by
  intro t
  have hplain : ∀ c ∈ t, PlainlyCased c := List.all_iff_forall_prop.mp (by decide +kernel)
  exact ⟨hplain, by decide +kernel, by decide +kernel, humps_tile_identifiers hplain⟩

end Text

end ModalEdit
