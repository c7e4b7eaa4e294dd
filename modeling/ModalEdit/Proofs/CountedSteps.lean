import Mathlib.Data.List.Basic
import Mathlib.Order.Bounds.Defs
import ModalEdit.Text.Word

/-!
Steps that are repeated as often as a count says. Among places in ascending order a step goes to the
nearest one above (`Text.NearestAbove`) or below (`Text.NearestBelow`), and where there is none to a
place of rest; the step repeated then enumerates the places (`Text.iterate_ascending`,
`Text.iterate_descending`).
-/

set_option autoImplicit false
set_option relaxedAutoImplicit false

namespace ModalEdit.Text

/-- The least of some places above an offset; where there are none, the place of rest. -/
def NearestAbove (places : List Nat) (rest offset place : Nat) : Prop :=
  IsLeast {q | q ∈ places ∧ offset < q} place ∨ (∀ q ∈ places, q ≤ offset) ∧ place = rest

/-- The greatest of some places below an offset; where there are none, the start of the text. -/
def NearestBelow (places : List Nat) (offset place : Nat) : Prop :=
  IsGreatest {q | q ∈ places ∧ q < offset} place ∨ (∀ q ∈ places, offset ≤ q) ∧ place = 0

section Places

variable {places : List Nat} {rest offset place : Nat}

theorem nearestAbove_of_passed (hlt : offset < place) (hplace : place ∈ places)
    (hpassed : ∀ q, offset < q → q < place → q ∉ places) : NearestAbove places rest offset place :=
  .inl ⟨⟨hplace, hlt⟩, fun q hq ↦ Nat.le_of_not_lt fun hbefore ↦ hpassed q hq.2 hbefore hq.1⟩

theorem nearestBelow_of_passed (hlt : place < offset) (hplace : place ∈ places)
    (hpassed : ∀ q, place < q → q < offset → q ∉ places) : NearestBelow places offset place :=
  .inl ⟨⟨hplace, hlt⟩, fun q hq ↦ Nat.le_of_not_lt fun hbehind ↦ hpassed q hbehind hq.2 hq.1⟩

theorem nearestBelow_zero (places : List Nat) : NearestBelow places 0 0 :=
  .inr ⟨fun q _ ↦ Nat.zero_le q, rfl⟩

/-- The nearest place below is that of any offset before which no place lies in between. -/
theorem NearestBelow.of_passed {start : Nat} (h : NearestBelow places start place)
    (hle : start ≤ offset) (hpassed : ∀ q, start ≤ q → q < offset → q ∉ places) :
    NearestBelow places offset place := by
  rcases h with ⟨⟨hplace, hlt⟩, hgreatest⟩ | ⟨hnone, hzero⟩
  · refine .inl ⟨⟨hplace, Nat.lt_of_lt_of_le hlt hle⟩, fun q hq ↦ ?_⟩
    exact hgreatest ⟨hq.1, Nat.lt_of_not_le fun hstart ↦ hpassed q hstart hq.2 hq.1⟩
  · refine .inr ⟨fun q hq ↦ Nat.le_of_not_lt fun hlt ↦ hpassed q (hnone q hq) hlt hq, hzero⟩

/-- One offset further the nearest place below is the same, unless that offset is a place itself. The
start of the text may be one. -/
theorem NearestBelow.succ (h : NearestBelow places offset place)
    (hskipped : offset ∈ places → offset = 0) : NearestBelow places (offset + 1) place := by
  by_cases hmem : offset ∈ places
  · obtain rfl := hskipped hmem
    obtain rfl : place = 0 := by
      rcases h with ⟨⟨-, hlt⟩, -⟩ | ⟨-, hzero⟩
      · exact absurd hlt (Nat.not_lt_zero place)
      · exact hzero
    exact nearestBelow_of_passed Nat.one_pos hmem fun q hq hlt ↦ by omega
  · exact h.of_passed (Nat.le_succ offset) fun q hle hlt ↦ Nat.eq_of_le_of_lt_succ hle hlt ▸ hmem

theorem NearestBelow.eq_of_isGreatest {q : Nat} (h : NearestBelow places offset place)
    (hq : IsGreatest {q | q ∈ places ∧ q < offset} q) : place = q := by
  rcases h with hgreatest | ⟨hnone, -⟩
  · exact Nat.le_antisymm (hq.2 hgreatest.1) (hgreatest.2 hq.1)
  · exact absurd (hnone q hq.1.1) (Nat.not_le.mpr hq.1.2)

theorem filter_lt_eq_nil_iff : places.filter (offset < ·) = [] ↔ ∀ q ∈ places, q ≤ offset := by
  simp only [List.filter_eq_nil_iff, decide_eq_true_eq, Nat.not_lt]

theorem filter_gt_eq_nil_iff : places.filter (· < offset) = [] ↔ ∀ q ∈ places, offset ≤ q := by
  simp only [List.filter_eq_nil_iff, decide_eq_true_eq, Nat.not_lt]

section Cut

variable {p : Nat → Prop} [DecidablePred p] {front back : List Nat}

theorem filter_eq_back (hfront : ∀ q ∈ front, ¬p q) (hback : ∀ q ∈ back, p q) :
    (front ++ back).filter (p ·) = back := by
  have hnone : front.filter (p ·) = [] := by
    simpa only [List.filter_eq_nil_iff, decide_eq_true_eq] using hfront
  have hall : back.filter (p ·) = back := by
    simpa only [List.filter_eq_self, decide_eq_true_eq] using hback
  rw [List.filter_append, hnone, hall, List.nil_append]

theorem filter_eq_front (hfront : ∀ q ∈ front, p q) (hback : ∀ q ∈ back, ¬p q) :
    (front ++ back).filter (p ·) = front := by
  have hall : front.filter (p ·) = front := by
    simpa only [List.filter_eq_self, decide_eq_true_eq] using hfront
  have hnone : back.filter (p ·) = [] := by
    simpa only [List.filter_eq_nil_iff, decide_eq_true_eq] using hback
  rw [List.filter_append, hall, hnone, List.append_nil]

end Cut

/-- A place cuts the places in ascending order into those below it and those above. -/
theorem cut_at (hsorted : places.Pairwise (· < ·)) (hmem : place ∈ places) :
    places.filter (· < place) ++ place :: places.filter (place < ·) = places := by
  obtain ⟨below, above, rfl⟩ := List.append_of_mem hmem
  obtain ⟨-, habove, hbelow⟩ := List.pairwise_append.mp hsorted
  have hbelow (q : Nat) (hq : q ∈ below) : q < place := hbelow q hq place List.mem_cons_self
  have habove := (List.pairwise_cons.mp habove).1
  have hfront : (below ++ place :: above).filter (· < place) = below := by
    refine filter_eq_front hbelow (List.forall_mem_cons.mpr ⟨Nat.lt_irrefl _, fun q hq ↦ ?_⟩)
    exact Nat.lt_asymm (habove q hq)
  have hback : (below ++ place :: above).filter (place < ·) = above := by
    rw [List.append_cons]
    refine filter_eq_back (List.forall_mem_append.mpr ⟨fun q hq ↦ Nat.lt_asymm (hbelow q hq), ?_⟩) habove
    exact List.forall_mem_singleton.mpr (Nat.lt_irrefl _)
  rw [hfront, hback]

/-- What is not below an offset is the offset, if it is a place, and what is above. -/
theorem filter_le_eq (hsorted : places.Pairwise (· < ·)) (offset : Nat) :
    places.filter (offset ≤ ·) = if offset ∈ places then offset :: places.filter (offset < ·)
      else places.filter (offset < ·) := by
  split
  · next hmem =>
    calc places.filter (offset ≤ ·)
        = (places.filter (· < offset) ++ offset :: places.filter (offset < ·)).filter (offset ≤ ·) := by
          rw [cut_at hsorted hmem]
      _ = offset :: places.filter (offset < ·) := by
          refine filter_eq_back (fun q hq ↦ ?_) (List.forall_mem_cons.mpr ⟨Nat.le_refl _, fun q hq ↦ ?_⟩)
          · exact Nat.not_le.mpr (of_decide_eq_true (List.mem_filter.mp hq).2)
          · exact Nat.le_of_lt (of_decide_eq_true (List.mem_filter.mp hq).2)
  · next hmem =>
    refine List.filter_congr fun q hq ↦ decide_eq_decide.mpr ⟨fun hle ↦ ?_, Nat.le_of_lt⟩
    exact Nat.lt_of_le_of_ne hle fun heq ↦ hmem (heq ▸ hq)

/-- The last of the places from an offset on is the last of all. -/
theorem getLast?_filter_le (hsorted : places.Pairwise (· < ·)) (hne : places.filter (offset ≤ ·) ≠ []) :
    (places.filter (offset ≤ ·)).getLast? = places.getLast? := by
  obtain ⟨q, hq⟩ := List.exists_mem_of_ne_nil _ hne
  obtain ⟨hmem, hle⟩ := List.mem_filter.mp hq
  obtain rfl | ⟨init, last, rfl⟩ := List.eq_nil_or_concat' places
  · rfl
  · have hlast : offset ≤ last := by
      refine Nat.le_trans (of_decide_eq_true hle) ?_
      rcases List.mem_append.mp hmem with hinit | hlast
      · exact Nat.le_of_lt ((List.pairwise_append.mp hsorted).2.2 q hinit last List.mem_cons_self)
      · exact Nat.le_of_eq (List.mem_singleton.mp hlast)
    rw [List.filter_append, List.filter_cons_of_pos (by simpa using hlast), List.filter_nil,
      List.getLast?_concat, List.getLast?_concat]

/-- Where there is a place from an offset on, the count asks for one, if not for the last of all. -/
theorem exists_nth_or_last (hsorted : places.Pairwise (· < ·)) (hne : places.filter (offset ≤ ·) ≠ [])
    (n : Nat) : ∃ q ∈ places, offset ≤ q ∧
      (places.filter (offset ≤ ·))[n]?.getD ((places.filter (offset ≤ ·)).getLastD offset) = q ∧
      some q = (places.filter (offset ≤ ·))[n]?.or places.getLast? := by
  have hmem {q : Nat} (hq : q ∈ places.filter (offset ≤ ·)) : q ∈ places ∧ offset ≤ q :=
    (List.mem_filter.mp hq).imp_right of_decide_eq_true
  cases hnth : (places.filter (offset ≤ ·))[n]? with
  | some q =>
    obtain ⟨hplace, hle⟩ := hmem (List.mem_of_getElem? hnth)
    exact ⟨q, hplace, hle, rfl, rfl⟩
  | none =>
    have hlast := List.getLast?_eq_some_getLast hne
    obtain ⟨hplace, hle⟩ := hmem (List.getLast_mem hne)
    refine ⟨_, hplace, hle, ?_, ?_⟩
    · rw [Option.getD_none, List.getLastD_eq_getLast?, hlast, Option.getD_some]
    · rw [Option.none_or, ← getLast?_filter_le hsorted hne, hlast]

theorem NearestAbove.filter_cases (hsorted : places.Pairwise (· < ·))
    (h : NearestAbove places rest offset place) :
    places.filter (offset < ·) = place :: places.filter (place < ·) ∧ place ≠ offset ∨
      places.filter (offset < ·) = [] ∧ place = rest := by
  rcases h with ⟨⟨hmem, hlt⟩, hleast⟩ | ⟨hnone, hrest⟩
  · refine .inl ⟨?_, Nat.ne_of_gt hlt⟩
    calc places.filter (offset < ·)
        = (places.filter (· < place) ++ place :: places.filter (place < ·)).filter (offset < ·) := by
          rw [cut_at hsorted hmem]
      _ = place :: places.filter (place < ·) := by
          refine filter_eq_back (fun q hq hbeyond ↦ ?_) (List.forall_mem_cons.mpr ⟨hlt, fun q hq ↦ ?_⟩)
          · obtain ⟨hq, hbelow⟩ := List.mem_filter.mp hq
            exact Nat.not_le.mpr (of_decide_eq_true hbelow) (hleast ⟨hq, hbeyond⟩)
          · exact Nat.lt_trans hlt (of_decide_eq_true (List.mem_filter.mp hq).2)
  · exact .inr ⟨filter_lt_eq_nil_iff.mpr hnone, hrest⟩

theorem NearestBelow.filter_cases (hsorted : places.Pairwise (· < ·))
    (h : NearestBelow places offset place) :
    places.filter (· < offset) = places.filter (· < place) ++ [place] ∧ place ≠ offset ∨
      places.filter (· < offset) = [] ∧ place = 0 := by
  rcases h with ⟨⟨hmem, hlt⟩, hgreatest⟩ | ⟨hnone, hrest⟩
  · refine .inl ⟨?_, Nat.ne_of_lt hlt⟩
    calc places.filter (· < offset)
        = (places.filter (· < place) ++ [place] ++ places.filter (place < ·)).filter (· < offset) := by
          rw [← List.append_cons, cut_at hsorted hmem]
      _ = places.filter (· < place) ++ [place] := by
          refine filter_eq_front (List.forall_mem_append.mpr ⟨fun q hq ↦ ?_, ?_⟩) fun q hq hbefore ↦ ?_
          · exact Nat.lt_trans (of_decide_eq_true (List.mem_filter.mp hq).2) hlt
          · exact List.forall_mem_singleton.mpr hlt
          · obtain ⟨hq, habove⟩ := List.mem_filter.mp hq
            exact Nat.not_le.mpr (of_decide_eq_true habove) (hgreatest ⟨hq, hbefore⟩)
  · exact .inr ⟨filter_gt_eq_nil_iff.mpr hnone, hrest⟩

end Places

/-! ### The step repeated -/

theorem iterate_one (step : Nat → Nat) (offset : Nat) : iterate step 1 offset = step offset := by
  rw [iterate]
  split
  · next heq => exact heq.symm
  · rfl

/-- A step that goes through what lies ahead, one place after the other, and then to rest. -/
structure GoesThrough (step : Nat → Nat) (ahead : Nat → List Nat) (rest : Nat → Nat) : Prop where
  next : ∀ offset, ahead offset = step offset :: ahead (step offset) ∧ step offset ≠ offset ∨
    ahead offset = [] ∧ step offset = rest offset
  rests : ∀ offset, ahead offset = [] → ahead (rest offset) = [] ∧ rest (rest offset) = rest offset

namespace GoesThrough

variable {step rest : Nat → Nat} {ahead : Nat → List Nat}

/-- The step repeated goes to the place that the count asks for; past the last place, to rest. -/
theorem iterate (h : GoesThrough step ahead rest) (count offset : Nat) :
    Text.iterate step (count + 1) offset =
      (ahead offset)[count]?.getD (rest ((ahead offset).getLastD offset)) := by
  induction count generalizing offset with
  | zero =>
    rw [iterate_one]
    rcases h.next offset with ⟨hcons, -⟩ | ⟨hnil, hrest⟩
    · rw [hcons]
      rfl
    · rw [hnil]
      exact hrest
  | succ count ih =>
    rw [Text.iterate]
    rcases h.next offset with ⟨hcons, hne⟩ | ⟨hnil, hrest⟩
    · rw [if_neg hne, ih, hcons, List.getElem?_cons_succ, List.getLastD_cons]
    · obtain ⟨hstays, hrests⟩ := h.rests offset hnil
      have hagain : Text.iterate step (count + 1) (rest offset) = rest offset := by
        rw [ih, hstays]
        exact hrests
      rw [hnil, hrest, hagain, ite_eq_right_iff.mpr Eq.symm]
      rfl

end GoesThrough

section Repeated

variable {places : List Nat} {step : Nat → Nat}

/-- A step to the nearest place above, repeated, goes through the places above in ascending order. -/
theorem iterate_ascending (rest : Nat → Nat) (hsorted : places.Pairwise (· < ·))
    (hstep : ∀ offset, NearestAbove places (rest offset) offset (step offset))
    (hrest : ∀ offset, (∀ q ∈ places, q ≤ offset) →
      (∀ q ∈ places, q ≤ rest offset) ∧ rest (rest offset) = rest offset) (count offset : Nat) :
    iterate step (count + 1) offset = (places.filter (offset < ·))[count]?.getD
      (rest ((places.filter (offset < ·)).getLastD offset)) := by
  have hthrough : GoesThrough step (fun offset ↦ places.filter (offset < ·)) rest := by
    refine ⟨fun offset ↦ (hstep offset).filter_cases hsorted, fun offset hempty ↦ ?_⟩
    simpa only [filter_lt_eq_nil_iff] using hrest offset (filter_lt_eq_nil_iff.mp hempty)
  exact hthrough.iterate count offset

/-- A step to the nearest place below, repeated, goes through the places below in descending order. -/
theorem iterate_descending (hsorted : places.Pairwise (· < ·))
    (hstep : ∀ offset, NearestBelow places offset (step offset)) (count offset : Nat) :
    iterate step (count + 1) offset = (places.filter (· < offset)).reverse[count]?.getD 0 := by
  have hthrough : GoesThrough step (fun offset ↦ (places.filter (· < offset)).reverse) fun _ ↦ 0 := by
    refine ⟨fun offset ↦ ?_, fun _ _ ↦ ⟨by simp, rfl⟩⟩
    rcases (hstep offset).filter_cases hsorted with ⟨hconcat, hne⟩ | ⟨hnil, hzero⟩
    · refine .inl ⟨?_, hne⟩
      rw [hconcat, List.reverse_append, List.reverse_singleton, List.singleton_append]
    · exact .inr ⟨by rw [hnil, List.reverse_nil], hzero⟩
  exact hthrough.iterate count offset

end Repeated

end ModalEdit.Text
