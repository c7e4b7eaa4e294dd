import Mathlib.Data.List.Basic
import ModalEdit.Operator.Basic

/-!
The case mappings are idempotent: no code point that a table gives is one that it lists
(`toUpper_idempotent`, `toLower_idempotent`). The code points of a table are compared as the bits of one
number (`codeMask`), as to look up each of them among the runs takes too long. Swapping the case of
characters is not idempotent, but like the others it leaves something of every character
(`swapCase_ne_nil`).
-/

set_option autoImplicit false
set_option relaxedAutoImplicit false

namespace ModalEdit.Unicode

/-! ### Sets of code points -/

def CodeRun.members (run : CodeRun) : List Nat :=
  List.range' run.1 ((run.2.1 - run.1) / run.2.2 + 1) run.2.2

theorem CodeRun.mem_members {run : CodeRun} {code : Nat} (h : run.contains code = true) :
    code ∈ run.members := by
  simp only [contains, Bool.and_eq_true, decide_eq_true_eq, beq_iff_eq] at h
  obtain ⟨⟨hfirst, hlast⟩, hstride⟩ := h
  have hsteps := Nat.div_add_mod (code - run.1) run.2.2
  refine List.mem_range'.mpr ⟨(code - run.1) / run.2.2, ?_, by omega⟩
  exact Nat.lt_succ_of_le (Nat.div_le_div_right (Nat.sub_le_sub_right hlast _))

/-- A list of code points as the bits of a number. -/
def codeMask (codes : List Nat) : Nat := codes.foldr (fun code mask ↦ 1 <<< code ||| mask) 0

theorem testBit_codeMask {codes : List Nat} {code : Nat} (h : code ∈ codes) :
    (codeMask codes).testBit code = true := by
  induction codes with
  | nil => exact absurd h List.not_mem_nil
  | cons first rest ih =>
    show (1 <<< first ||| codeMask rest).testBit code = true
    rw [Nat.testBit_or, Bool.or_eq_true]
    rcases List.mem_cons.mp h with rfl | hrest
    · exact .inl (by simp)
    · exact .inr (ih hrest)

theorem notMem_of_codeMask {xs ys : List Nat} (h : codeMask xs &&& codeMask ys = 0) {code : Nat}
    (hx : code ∈ xs) : code ∉ ys := by
  intro hy
  have hbit : (codeMask xs &&& codeMask ys).testBit code = true := by
    rw [Nat.testBit_and, testBit_codeMask hx, testBit_codeMask hy]
    rfl
  rw [h, Nat.zero_testBit] at hbit
  exact Bool.false_ne_true hbit

/-! ### Listed characters and their images -/

section Tables

variable {expansions : List (Nat × List Nat)} {shifts : List (CodeRun × Nat)}

def listed (expansions : List (Nat × List Nat)) (shifts : List (CodeRun × Nat)) : List Nat :=
  expansions.map (·.1) ++ shifts.flatMap (·.1.members)

/-- What the tables give, and zero, which stands in for numbers that are no code points. -/
def images (expansions : List (Nat × List Nat)) (shifts : List (CodeRun × Nat)) : List Nat :=
  0 :: expansions.flatMap (·.2) ++
    shifts.flatMap fun (run, target) ↦ run.members.map fun code ↦ target + (code - run.1)

/-- A character that no table lists stays, and of one that is listed only what the tables give is left. -/
theorem mapCase_cases (expansions : List (Nat × List Nat)) (shifts : List (CodeRun × Nat)) (c : Char) :
    mapCase expansions shifts c = [c] ∨
      ∃ codes : List Nat, (∀ code ∈ codes, code ∈ images expansions shifts) ∧
        mapCase expansions shifts c = codes.map Char.ofNat := by
  unfold mapCase
  split
  · next codes hfind =>
    refine .inr ⟨codes, fun code hcode ↦ ?_, rfl⟩
    exact List.mem_append_left _ (List.mem_cons_of_mem _
      (List.mem_flatMap.mpr ⟨_, List.mem_of_find?_eq_some hfind, hcode⟩))
  · split
    · next run target hfind =>
      have hin : run.contains c.toNat = true :=
        List.find?_some (p := fun s : CodeRun × Nat ↦ s.1.contains c.toNat) hfind
      refine .inr ⟨[target + (c.toNat - run.1)], fun code hcode ↦ ?_, rfl⟩
      rw [List.mem_singleton.mp hcode]
      exact List.mem_append_right _ (List.mem_flatMap.mpr
        ⟨_, List.mem_of_find?_eq_some hfind, List.mem_map.mpr ⟨_, CodeRun.mem_members hin, rfl⟩⟩)
    · exact .inl rfl

/-- A number that is no code point stands for the zero among the images. -/
theorem toNat_ofNat_mem_images {code : Nat} (h : code ∈ images expansions shifts) :
    (Char.ofNat code).toNat ∈ images expansions shifts := by
  by_cases hvalid : code.isValidChar
  · rw [Char.ofNat, dif_pos hvalid]
    exact h
  · rw [Char.ofNat, dif_neg hvalid]
    exact List.mem_append_left _ List.mem_cons_self

/-- A character that the tables do not give is what becomes of itself only. -/
theorem eq_of_mem_mapCase {c d : Char} (hd : d.toNat ∉ images expansions shifts)
    (h : d ∈ mapCase expansions shifts c) : d = c := by
  rcases mapCase_cases expansions shifts c with hstays | ⟨codes, himages, hgives⟩
  · rw [hstays] at h
    exact List.mem_singleton.mp h
  · rw [hgives] at h
    obtain ⟨code, hcode, rfl⟩ := List.mem_map.mp h
    exact absurd (toNat_ofNat_mem_images (himages code hcode)) hd

theorem mapCase_of_notMem_listed {c : Char} (h : c.toNat ∉ listed expansions shifts) :
    mapCase expansions shifts c = [c] := by
  rw [listed, List.mem_append, not_or] at h
  have hexpansion : expansions.find? (fun e ↦ e.1 == c.toNat) = none := by
    refine List.find?_eq_none.mpr fun e he heq ↦ h.1 (List.mem_map.mpr ⟨e, he, beq_iff_eq.mp heq⟩)
  have hshift : shifts.find? (fun s ↦ s.1.contains c.toNat) = none := by
    refine List.find?_eq_none.mpr fun s hs hin ↦ h.2 (List.mem_flatMap.mpr ⟨s, hs, ?_⟩)
    exact CodeRun.mem_members hin
  rw [mapCase, hexpansion, hshift]

theorem mapCase_idempotent (h : ∀ code ∈ images expansions shifts, code ∉ listed expansions shifts)
    (c : Char) : (mapCase expansions shifts c).flatMap (mapCase expansions shifts) =
      mapCase expansions shifts c := by
  rcases mapCase_cases expansions shifts c with hstays | ⟨codes, himages, hgives⟩
  · rw [hstays, List.flatMap_singleton, hstays]
  · have hfixed (code : Nat) (hcode : code ∈ codes) :
        mapCase expansions shifts (Char.ofNat code) = [Char.ofNat code] :=
      mapCase_of_notMem_listed (h _ (toNat_ofNat_mem_images (himages code hcode)))
    rw [hgives, List.flatMap_map, List.flatMap_congr hfixed, List.map_eq_flatMap]

theorem mapCase_ne_nil (h : ∀ e ∈ expansions, e.2 ≠ []) (c : Char) :
    mapCase expansions shifts c ≠ [] := by
  unfold mapCase
  split
  · next codes hfind => simpa using h _ (List.mem_of_find?_eq_some hfind)
  · split <;> exact List.cons_ne_nil _ _

end Tables

/-! ### The two tables -/

theorem toUpper_idempotent (c : Char) : (toUpper c).flatMap toUpper = toUpper c :=
  mapCase_idempotent (fun _ ↦ notMem_of_codeMask (by decide +kernel)) c

theorem toLower_idempotent (c : Char) : (toLower c).flatMap toLower = toLower c :=
  mapCase_idempotent (fun _ ↦ notMem_of_codeMask (by decide +kernel)) c

theorem toUpper_ne_nil (c : Char) : toUpper c ≠ [] := mapCase_ne_nil (by decide +kernel) c

theorem toLower_ne_nil (c : Char) : toLower c ≠ [] := mapCase_ne_nil (by decide +kernel) c

end ModalEdit.Unicode

namespace ModalEdit.Operator

theorem swapCase_ne_nil (c : Char) : swapCase c ≠ [] := by
  unfold swapCase
  split
  · exact Unicode.toLower_ne_nil c
  · split
    · exact Unicode.toUpper_ne_nil c
    · exact List.cons_ne_nil c []

end ModalEdit.Operator
