import Mathlib.Data.List.Infix
import Mathlib.Data.List.TakeWhile
import ModalEdit.Editor.Marked

/-!
A marked text that is written and read again. An opening brace begins every marker and occurs nowhere
else in it, so a marker cannot begin in the text and end in what is spliced into it: where the text has
no marker of its own, what is read as a marker is one that was written (`MarkedText.read?_cons_weave`). The
markers are read in the order in which they were written (`MarkedText.parseFrom_weave`), and as the end
of a selection is written before the start of the next, no selection opens inside another
(`MarkedText.Writable.balanced_markers`).
-/

set_option autoImplicit false
set_option relaxedAutoImplicit false

namespace ModalEdit

/-! ### Reading one marker -/

namespace Marker

theorem rest?_eq_some_iff {start s rest : List Char} : rest? start s = some rest ↔ s = start ++ rest := by
  induction start generalizing s with
  | nil => simp [rest?]
  | cons c start ih =>
    cases s with
    | nil => simp [rest?]
    | cons d s =>
      rw [rest?, List.cons_append, List.cons.injEq]
      split
      · next heq => rw [ih, eq_comm (a := d), and_iff_right heq]
      · next hne => exact iff_of_false (fun h ↦ Option.some_ne_none _ h.symm) fun h ↦ hne h.1.symm

theorem rest?_eq_none_iff {start s : List Char} : rest? start s = none ↔ ¬ start <+: s := by
  rw [Option.eq_none_iff_forall_ne_some]
  refine ⟨fun h ⟨rest, heq⟩ ↦ h rest (rest?_eq_some_iff.mpr heq.symm), fun h rest heq ↦ h ⟨rest, ?_⟩⟩
  exact (rest?_eq_some_iff.mp heq).symm

theorem mem_all (marker : Marker) : marker ∈ all := by
  cases marker <;> decide

theorem read?_eq_none_iff {s : List Char} : read? s = none ↔ ∀ marker : Marker, ¬ marker.text <+: s := by
  simp only [read?, List.findSome?_eq_none_iff, Option.map_eq_none_iff, rest?_eq_none_iff, mem_all,
    forall_true_left]

/-- A marker is read as itself, whatever stands behind it. -/
theorem read?_text_append (marker : Marker) (s : List Char) :
    read? (marker.text ++ s) = some (marker, s) := by
  cases marker <;> rfl

/-- An opening brace begins a marker and is nowhere else in it. -/
theorem exists_text_eq_cons (marker : Marker) :
    ∃ body, marker.text = '\x7b' :: body ∧ '\x7b' ∉ body := by
  cases marker <;> exact ⟨_, rfl, by decide⟩

end Marker

namespace MarkedText

open Marker

variable {t : Text} {s : List Char} {offset : Nat} {opened : Option Nat} {markers : List (Nat × Marker)}
  {selections : List (Nat × Nat)}

/-- A text that contains no marker. -/
def Markerless (t : Text) : Prop := ∀ marker : Marker, ¬ marker.text <:+: t

instance (t : Text) : Decidable (Markerless t) :=
  decidable_of_iff (∀ marker ∈ all, ¬ marker.text <:+: t)
    ⟨fun h marker ↦ h marker marker.mem_all, fun h marker _ ↦ h marker⟩

theorem Markerless.tail {c : Char} (h : Markerless (c :: t)) : Markerless t :=
  fun marker hin ↦ h marker (hin.trans (List.suffix_cons c t).isInfix)

/-- What has no opening brace does not begin with a marker. -/
theorem isPrefix_of_isPrefix_splice {rest : List Char} (hbrace : '\x7b' ∉ s) {due : List (Nat × Marker)}
    (h : s <+: due.flatMap (·.2.text) ++ rest) : s <+: rest := by
  cases due with
  | nil => exact h
  | cons first _ =>
    obtain ⟨body, htext, -⟩ := first.2.exists_text_eq_cons
    rw [List.flatMap_cons, htext, List.cons_append, List.cons_append, List.prefix_cons_iff] at h
    rcases h with rfl | ⟨s, rfl, -⟩
    · exact List.nil_prefix
    · exact absurd List.mem_cons_self hbrace

theorem isPrefix_of_isPrefix_weave (hbrace : '\x7b' ∉ s) (h : s <+: weave offset markers t) : s <+: t := by
  induction t generalizing s offset markers with
  | nil =>
    rw [weave, ← List.append_nil (List.flatMap _ _)] at h
    exact isPrefix_of_isPrefix_splice hbrace h
  | cons c t ih =>
    rw [weave] at h
    have h := isPrefix_of_isPrefix_splice hbrace h
    rw [List.prefix_cons_iff] at h ⊢
    refine h.imp_right fun ⟨s', hs, h⟩ ↦ ⟨s', hs, ih ?_ h⟩
    exact fun hmem ↦ hbrace (hs ▸ List.mem_cons_of_mem c hmem)

/-- No marker is read at a character of the text, also where its first characters look like one and
markers are spliced in behind them. -/
theorem read?_cons_weave {c : Char} (h : Markerless (c :: t)) (offset : Nat)
    (markers : List (Nat × Marker)) : read? (c :: weave offset markers t) = none := by
  rw [read?_eq_none_iff]
  intro marker hpre
  obtain ⟨body, htext, hbrace⟩ := marker.exists_text_eq_cons
  rw [htext, List.cons_prefix_cons] at hpre
  refine h marker (List.IsPrefix.isInfix ?_)
  rw [htext, List.cons_prefix_cons]
  exact ⟨hpre.1, isPrefix_of_isPrefix_weave hbrace hpre.2⟩

/-! ### Reading the markers in turn -/

theorem parseFrom_caret : parseFrom offset opened (caret.text ++ s) = do
    let marked ← parseFrom offset opened s
    return { marked with carets := offset :: marked.carets } := by
  have hread := read?_text_append caret s
  rw [parseFrom.eq_def]
  split <;> rename_i heq <;> cases hread.symm.trans heq
  rfl

theorem parseFrom_selectionStart :
    parseFrom offset none (selectionStart.text ++ s) = parseFrom offset (some offset) s := by
  have hread := read?_text_append selectionStart s
  rw [parseFrom.eq_def]
  split <;> rename_i heq <;> cases hread.symm.trans heq
  rfl

theorem parseFrom_selectionEnd {start : Nat} :
    parseFrom offset (some start) (selectionEnd.text ++ s) = do
      let marked ← parseFrom offset none s
      return { marked with selections := (start, offset) :: marked.selections } := by
  have hread := read?_text_append selectionEnd s
  rw [parseFrom.eq_def]
  split <;> rename_i heq <;> cases hread.symm.trans heq
  rfl

theorem parseFrom_nil : parseFrom offset none [] = .ok {} := by
  have hread : read? [] = none := rfl
  rw [parseFrom.eq_def]
  split <;> rename_i heq <;> cases hread.symm.trans heq
  rfl

theorem parseFrom_cons {c : Char} (hread : read? (c :: s) = none) :
    parseFrom offset opened (c :: s) = do
      let marked ← parseFrom (offset + 1) opened s
      return { marked with text := c :: marked.text } := by
  rw [parseFrom.eq_def]
  split <;> rename_i heq <;> cases hread.symm.trans heq
  rfl

/-- Markers in which no selection is opened inside another and each is closed, with the selections that
they delimit. The start of one may stand before them. -/
inductive Balanced : Option Nat → List (Nat × Marker) → List (Nat × Nat) → Prop where
  | done : Balanced none [] []
  | caret {opened : Option Nat} {markers : List (Nat × Marker)} {selections : List (Nat × Nat)}
      (offset : Nat) (h : Balanced opened markers selections) :
      Balanced opened ((offset, .caret) :: markers) selections
  | selectionStart {markers : List (Nat × Marker)} {selections : List (Nat × Nat)} {offset : Nat}
      (h : Balanced (some offset) markers selections) :
      Balanced none ((offset, .selectionStart) :: markers) selections
  | selectionEnd {markers : List (Nat × Marker)} {selections : List (Nat × Nat)} {start offset : Nat}
      (h : Balanced none markers selections) :
      Balanced (some start) ((offset, .selectionEnd) :: markers) ((start, offset) :: selections)

def caretsIn (markers : List (Nat × Marker)) : List Nat :=
  (markers.filter (·.2 = .caret)).map (·.1)

/-- Markers that stand together are read one by one, and then what is behind them. -/
theorem parseFrom_splice {due later : List (Nat × Marker)}
    (hlater : ∀ {opened : Option Nat} {selections : List (Nat × Nat)}, Balanced opened later selections →
      parseFrom offset opened s = .ok ⟨t, caretsIn later, selections⟩)
    (hdue : ∀ marker ∈ due, marker.1 = offset) (h : Balanced opened (due ++ later) selections) :
    parseFrom offset opened (due.flatMap (·.2.text) ++ s) =
      .ok ⟨t, caretsIn (due ++ later), selections⟩ := by
  induction due generalizing opened selections with
  | nil => exact hlater h
  | cons first due ih =>
    obtain ⟨rfl, hdue⟩ := List.forall_mem_cons.mp hdue
    rw [List.flatMap_cons, List.append_assoc]
    cases h with
    | caret _ h => rw [parseFrom_caret, ih hdue h]; rfl
    | selectionStart h => rw [parseFrom_selectionStart, ih hdue h]; rfl
    | selectionEnd h => rw [parseFrom_selectionEnd, ih hdue h]; rfl

theorem lt_of_mem_dropWhile (hsorted : markers.Pairwise (·.1 ≤ ·.1)) {marker : Nat × Marker}
    (hmem : marker ∈ markers.dropWhile (·.1 ≤ offset)) : offset < marker.1 := by
  have hlater := hsorted.sublist (List.dropWhile_sublist (·.1 ≤ offset))
  have hhead := List.head?_dropWhile_not (fun marker : Nat × Marker ↦ decide (marker.1 ≤ offset)) markers
  cases h : markers.dropWhile (·.1 ≤ offset) with
  | nil => rw [h] at hmem; cases hmem
  | cons first later =>
    rw [h] at hmem hlater hhead
    have hfirst : offset < first.1 := by simpa using hhead
    rcases List.mem_cons.mp hmem with rfl | hmem
    · exact hfirst
    · exact hfirst.trans_le (List.rel_of_pairwise_cons hlater hmem)

/-- A text without markers is read as it was before markers were spliced into it, and the markers are
read in their order. -/
theorem parseFrom_weave (hplain : Markerless t) (hsorted : markers.Pairwise (·.1 ≤ ·.1))
    (hwithin : ∀ marker ∈ markers, offset ≤ marker.1 ∧ marker.1 ≤ offset + t.length)
    (h : Balanced opened markers selections) :
    parseFrom offset opened (weave offset markers t) = .ok ⟨t, caretsIn markers, selections⟩ := by
  induction t generalizing offset markers opened selections with
  | nil =>
    have hdue : ∀ marker ∈ markers, marker.1 = offset := by
      intro marker hmem
      have := hwithin marker hmem
      simp only [List.length_nil] at this
      omega
    have hnil : ∀ {opened : Option Nat} {selections : List (Nat × Nat)}, Balanced opened [] selections →
        parseFrom offset opened [] = .ok ⟨[], caretsIn [], selections⟩ := by
      rintro _ _ ⟨⟩
      exact parseFrom_nil
    have hsplice := parseFrom_splice hnil hdue ((List.append_nil markers).symm ▸ h)
    rwa [List.append_nil, List.append_nil] at hsplice
  | cons c t ih =>
    rw [weave]
    set due := markers.takeWhile (·.1 ≤ offset)
    set later := markers.dropWhile (·.1 ≤ offset)
    have hsplit : due ++ later = markers := List.takeWhile_append_dropWhile
    have hdue : ∀ marker ∈ due, marker.1 = offset := by
      intro marker hmem
      have hle : marker.1 ≤ offset := by simpa using List.mem_takeWhile_imp hmem
      exact le_antisymm hle (hwithin marker (hsplit ▸ List.mem_append_left _ hmem)).1
    have hahead : ∀ marker ∈ later, offset < marker.1 := fun marker ↦ lt_of_mem_dropWhile hsorted
    refine hsplit ▸ parseFrom_splice ?_ hdue (hsplit ▸ h)
    intro opened selections h
    rw [parseFrom_cons (read?_cons_weave hplain _ _), ih hplain.tail _ _ h]
    · rfl
    · exact (List.pairwise_append.mp (hsplit ▸ hsorted)).2.1
    · intro marker hmem
      have hle := (hwithin marker (hsplit ▸ List.mem_append_right _ hmem)).2
      have := hahead marker hmem
      rw [List.length_cons] at hle
      omega

/-! ### The order in which markers are written -/

/-- The order of markers: by offset, and at one offset by rank. -/
def Precedes (a b : Nat × Marker) : Prop := a.1 < b.1 ∨ a.1 = b.1 ∧ a.2.rank ≤ b.2.rank

theorem Precedes.antisymm {a b : Nat × Marker} (hab : Precedes a b) (hba : Precedes b a) : a = b := by
  have hrank : a.2.rank = b.2.rank → a.2 = b.2 := by
    cases a.2 <;> cases b.2 <;> decide
  unfold Precedes at hab hba
  exact Prod.ext (by omega) (hrank (by omega))

/-- The two markers of a selection. -/
def delimiters (selection : Nat × Nat) : List (Nat × Marker) :=
  [(selection.1, .selectionStart), (selection.2, .selectionEnd)]

theorem ne_caret_of_mem_delimiters {marker : Nat × Marker}
    (hmem : marker ∈ selections.flatMap delimiters) : marker.2 ≠ .caret := by
  obtain ⟨selection, -, hmem⟩ := List.mem_flatMap.mp hmem
  rcases List.mem_pair.mp hmem with rfl | rfl <;> exact nofun

theorem markers_perm (m : MarkedText) :
    m.markers.Perm (m.selections.flatMap delimiters ++ m.carets.map ((·, Marker.caret))) :=
  List.mergeSort_perm _ _

theorem markers_sorted (m : MarkedText) : m.markers.Pairwise Precedes := by
  have htotal : ∀ a b : Nat × Marker, (a.1 < b.1 || (a.1 == b.1 && a.2.rank ≤ b.2.rank) ||
      (b.1 < a.1 || (b.1 == a.1 && b.2.rank ≤ a.2.rank))) = true := by
    intro a b
    simp only [Bool.or_eq_true, Bool.and_eq_true, decide_eq_true_eq, beq_iff_eq]
    omega
  have htrans : ∀ a b c : Nat × Marker, (a.1 < b.1 || (a.1 == b.1 && a.2.rank ≤ b.2.rank)) = true →
      (b.1 < c.1 || (b.1 == c.1 && b.2.rank ≤ c.2.rank)) = true →
      (a.1 < c.1 || (a.1 == c.1 && a.2.rank ≤ c.2.rank)) = true := by
    intro a b c
    simp only [Bool.or_eq_true, Bool.and_eq_true, decide_eq_true_eq, beq_iff_eq]
    omega
  refine (List.pairwise_mergeSort htrans htotal _).imp fun {a b} h ↦ ?_
  simpa [Precedes] using h

theorem Balanced.of_filter (h : Balanced opened (markers.filter (·.2 ≠ .caret)) selections) :
    Balanced opened markers selections := by
  induction markers generalizing opened selections with
  | nil => exact h
  | cons first markers ih =>
    obtain ⟨offset, marker⟩ := first
    cases marker with
    | caret => exact .caret offset (ih h)
    | selectionStart => cases h with | selectionStart h => exact .selectionStart (ih h)
    | selectionEnd => cases h with | selectionEnd h => exact .selectionEnd (ih h)

theorem balanced_flatMap_delimiters (selections : List (Nat × Nat)) :
    Balanced none (selections.flatMap delimiters) selections := by
  induction selections with
  | nil => exact .done
  | cons _ _ ih => exact .selectionStart (.selectionEnd ih)

/-- What can be written and read again: a text without markers, carets within it, and selections of at
least one character of which none begins before another has ended. -/
structure Writable (m : MarkedText) : Prop where
  markerless : Markerless m.text
  carets_le : ∀ caret ∈ m.carets, caret ≤ m.text.length
  selections_within : ∀ selection ∈ m.selections, selection.1 < selection.2 ∧ selection.2 ≤ m.text.length
  disjoint : m.selections.Pairwise fun a b ↦ a.2 ≤ b.1 ∨ b.2 ≤ a.1

/-- The carets and the selections in ascending order. -/
def ordered (m : MarkedText) : MarkedText where
  text := m.text
  carets := m.carets.mergeSort
  selections := m.selections.mergeSort fun a b ↦ a.1 ≤ b.1

theorem ordered_selections_perm (m : MarkedText) : m.ordered.selections.Perm m.selections :=
  List.mergeSort_perm _ _

theorem caretsIn_markers (m : MarkedText) : caretsIn m.markers = m.ordered.carets := by
  have hperm : (caretsIn m.markers).Perm m.carets := by
    refine ((m.markers_perm.filter _).map _).trans (.of_eq ?_)
    have hselections : (m.selections.flatMap delimiters).filter (·.2 = .caret) = [] :=
      List.filter_eq_nil_iff.mpr fun _ hmem ↦ by simpa using ne_caret_of_mem_delimiters hmem
    have hcarets : (m.carets.map ((·, Marker.caret))).filter (·.2 = .caret) = m.carets.map (·, .caret) := by
      simp [List.filter_eq_self]
    simp [hselections, hcarets, Function.comp_def]
  have hsorted : m.ordered.carets.Pairwise (· ≤ ·) := by
    refine (List.pairwise_mergeSort ?_ ?_ m.carets).imp of_decide_eq_true
    · simp only [decide_eq_true_eq]; omega
    · simp only [Bool.or_eq_true, decide_eq_true_eq]; omega
  refine List.Perm.eq_of_pairwise (fun _ _ _ _ ↦ le_antisymm) ?_ hsorted ?_
  · refine List.pairwise_map.mpr (m.markers_sorted.filter _ |>.imp fun h ↦ ?_)
    exact h.elim le_of_lt fun h ↦ h.1.le
  · exact hperm.trans (List.mergeSort_perm _ _).symm

/-- Of two selections the one that begins first has ended where the other begins. -/
theorem Writable.ordered_pairwise {m : MarkedText} (h : m.Writable) :
    m.ordered.selections.Pairwise fun a b ↦ a.2 ≤ b.1 := by
  have hsorted : m.ordered.selections.Pairwise fun a b ↦ a.1 ≤ b.1 := by
    refine (List.pairwise_mergeSort ?_ ?_ m.selections).imp of_decide_eq_true
    · simp only [decide_eq_true_eq]; omega
    · simp only [Bool.or_eq_true, decide_eq_true_eq]; omega
  have hdisjoint : m.ordered.selections.Pairwise fun a b ↦ a.2 ≤ b.1 ∨ b.2 ≤ a.1 :=
    m.ordered_selections_perm.symm.pairwise h.disjoint fun h ↦ h.symm
  refine (hsorted.and hdisjoint).imp_of_mem fun {a b} ha hb ⟨hle, hab⟩ ↦ ?_
  have := (h.selections_within b (m.ordered_selections_perm.mem_iff.mp hb)).1
  omega

/-- The markers of the selections are written selection by selection, whatever carets stand between. -/
theorem Writable.filter_markers {m : MarkedText} (h : m.Writable) :
    m.markers.filter (·.2 ≠ .caret) = m.ordered.selections.flatMap delimiters := by
  have hperm : (m.markers.filter (·.2 ≠ .caret)).Perm (m.ordered.selections.flatMap delimiters) := by
    refine (m.markers_perm.filter _).trans
      (.trans (.of_eq ?_) (m.ordered_selections_perm.symm.flatMap_right delimiters))
    have hselections : (m.selections.flatMap delimiters).filter (·.2 ≠ .caret) =
        m.selections.flatMap delimiters :=
      List.filter_eq_self.mpr fun _ hmem ↦ by simpa using ne_caret_of_mem_delimiters hmem
    have hcarets : (m.carets.map ((·, Marker.caret))).filter (·.2 ≠ .caret) = [] := by
      simp [List.filter_eq_nil_iff]
    rw [List.filter_append, hselections, hcarets, List.append_nil]
  refine List.Perm.eq_of_pairwise (fun _ _ _ _ ↦ Precedes.antisymm) (m.markers_sorted.filter _) ?_ hperm
  have hlt : ∀ selection ∈ m.ordered.selections, selection.1 < selection.2 := fun selection hmem ↦
    (h.selections_within selection (m.ordered_selections_perm.mem_iff.mp hmem)).1
  refine List.pairwise_flatMap.mpr ⟨fun selection hmem ↦ ?_, ?_⟩
  · exact List.pairwise_pair.mpr (.inl (hlt selection hmem))
  · refine h.ordered_pairwise.imp_of_mem fun {a b} ha hb hle x hx y hy ↦ ?_
    have := hlt a ha
    have := hlt b hb
    -- Where the two touch, the end of the first comes before the start of the second by its rank.
    rcases List.mem_pair.mp hx with rfl | rfl <;> rcases List.mem_pair.mp hy with rfl | rfl <;>
      simp only [Precedes, Marker.rank] <;> omega

theorem Writable.balanced_markers {m : MarkedText} (h : m.Writable) :
    Balanced none m.markers m.ordered.selections :=
  .of_filter (h.filter_markers ▸ balanced_flatMap_delimiters _)

theorem Writable.markers_within {m : MarkedText} (h : m.Writable) :
    ∀ marker ∈ m.markers, marker.1 ≤ m.text.length := by
  intro marker hmem
  rcases List.mem_append.mp (m.markers_perm.mem_iff.mp hmem) with hmem | hmem
  · obtain ⟨selection, hselection, hmem⟩ := List.mem_flatMap.mp hmem
    have := h.selections_within selection hselection
    rcases List.mem_pair.mp hmem with rfl | rfl <;> dsimp only <;> omega
  · obtain ⟨caret, hcaret, rfl⟩ := List.mem_map.mp hmem
    exact h.carets_le caret hcaret

/-- A text that is written with its carets and its selections is read as it was, with the carets and
the selections in ascending order. -/
theorem parse_render_ordered {m : MarkedText} (h : m.Writable) : parse m.render = .ok m.ordered := by
  have hsorted : m.markers.Pairwise (·.1 ≤ ·.1) :=
    m.markers_sorted.imp fun h ↦ h.elim le_of_lt fun h ↦ h.1.le
  have hwithin : ∀ marker ∈ m.markers, 0 ≤ marker.1 ∧ marker.1 ≤ 0 + m.text.length := by
    intro marker hmem
    rw [Nat.zero_add]
    exact ⟨Nat.zero_le _, h.markers_within marker hmem⟩
  rw [parse, render, parseFrom_weave h.markerless hsorted hwithin h.balanced_markers, caretsIn_markers]
  rfl

/-- A text that begins like a marker where markers stand, and two selections that touch there. -/
theorem parse_render_broken_markers :
    parse (render ⟨"\x7bselection\x7b/é\x7d".toList, [14, 10, 10], [(10, 14), (0, 10)]⟩) =
      .ok ⟨"\x7bselection\x7b/é\x7d".toList, [10, 10, 14], [(0, 10), (10, 14)]⟩ := by
  refine (parse_render_ordered ⟨by decide, by decide, by decide, by decide⟩).trans (congrArg Except.ok ?_)
  simp [ordered, List.mergeSort, List.MergeSort.Internal.splitInTwo]

end MarkedText

end ModalEdit
