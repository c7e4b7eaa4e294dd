import Mathlib
import ModalEdit.Proofs.CaseTables
import ModalEdit.Proofs.WrittenKeys

/-!
Keys that were read, written down and read again. No stroke that is read holds a Shift its character
could tell, and none is a closing bracket with a modifier (`Keys.parse_folded`). So the written form is
always read again, and stroke by stroke the same, except that Ctrl makes its letter small
(`KeyStroke.Folded.reread`). A capital with Ctrl is the one stroke that does not come back, and Shift
with Ctrl is read as one: what is written of `<C-S-a>` names `<C-a>`
(`Keys.parse_render_of_parse`).
-/

set_option autoImplicit false
set_option relaxedAutoImplicit false

namespace ModalEdit

namespace Unicode

/-- No other character has a capital that is a closing bracket. -/
theorem eq_of_bracket_mem_toUpper {c : Char} (h : '>' ∈ toUpper c) : c = '>' :=
  (eq_of_mem_mapCase (by decide +kernel) h).symm

end Unicode

/-! ### Names between brackets -/

namespace KeyCode

theorem lookup_names_ne_bracket {name : List Char} {code : KeyCode}
    (h : names.lookup name = some code) : code ≠ char '>' := by
  have hlisted : ∀ entry ∈ names, entry.2 ≠ char '>' := by decide
  obtain ⟨before, after, hnames, -⟩ := List.lookup_eq_some_iff.mp h
  exact hlisted (name, code) (by simp [hnames])

/-- Only a closing bracket names one. -/
theorem bracket_mem_of_ofName? {name : List Char} (h : ofName? name = some (char '>')) :
    '>' ∈ name := by
  unfold ofName? at h
  split at h
  · next hlookup => exact absurd (Option.some.inj h) (lookup_names_ne_bracket hlookup)
  · split at h
    · next c _ =>
      obtain rfl := KeyCode.char.inj (Option.some.inj h)
      exact List.mem_singleton_self _
    · cases h

end KeyCode

namespace Modifiers

/-- The name behind the modifiers is written in the body. -/
theorem mem_of_mem_split (mods : Modifiers) (body : List Char) :
    ∀ c ∈ (mods.split body).2, c ∈ body := by
  fun_induction split mods body with
  | case1 mods letter c rest more _ ih =>
    intro d hd
    exact List.mem_cons_of_mem _ (List.mem_cons_of_mem _ (ih d hd))
  | case2 => intro d hd; exact hd
  | case3 => intro d hd; exact hd

end Modifiers

/-! ### Strokes that were read -/

namespace KeyStroke

/-- A stroke in which Shift is told by the character wherever it can be, and that can be written. -/
structure Folded (s : KeyStroke) : Prop where
  shift : ∀ c, s.code = .char c → s.mods.shift = true → c = ' '
  bracket : s.code = .char '>' → s.mods = {}

/-- A capital with Ctrl: `<C-A>`. -/
def CtrlCapital (s : KeyStroke) : Prop := s.mods.ctrl = true ∧ ∃ c, s.code = .char c ∧ c.isUpper = true

/-- The stroke with the small letter that Ctrl is read with. -/
def lowered (s : KeyStroke) : KeyStroke :=
  match s.code with
  | .char c => if s.mods.ctrl then { s with code := .char c.toLower } else s
  | _ => s

/-- A character that stands for itself. -/
theorem Folded.plain (c : Char) : (char c).Folded where
  shift _ _ h := absurd h Bool.false_ne_true
  bracket _ := rfl

/-- A small letter is no closing bracket. -/
theorem toLower_eq_bracket {c : Char} (h : c.toLower = '>') : c = '>' := by
  by_cases hupper : c.isUpper = true
  · have hlower := c.isLower_toLower_eq_isAlpha
    rw [h, Char.isAlpha, hupper] at hlower
    cases hlower
  · rwa [Char.toLower_eq_of_not_isUpper hupper] at h

/-- Reading a key other than a closing bracket folds what Shift can tell into its character. -/
theorem normalized_folded {code : KeyCode} (hcode : code ≠ .char '>') (mods : Modifiers) :
    (normalized code mods).Folded := by
  cases code with
  | char c =>
    have hc : c ≠ '>' := fun h ↦ hcode (h ▸ rfl)
    unfold normalized
    by_cases hshift : (mods.shift && c != ' ') = true
    · simp only [hshift, if_true]
      refine ⟨fun _ _ h ↦ absurd h Bool.false_ne_true, fun hclose ↦ ?_⟩
      refine absurd (Unicode.eq_of_bracket_mem_toUpper ?_) hc
      rw [← KeyCode.char.inj hclose, List.headD_eq_head?_getD,
        List.head?_eq_some_head (Unicode.toUpper_ne_nil c), Option.getD_some]
      exact List.head_mem _
    · simp only [hshift]
      have hspace (hmods : mods.shift = true) : c = ' ' := by simpa [hmods] using hshift
      by_cases hctrl : mods.ctrl = true
      · simp only [hctrl, if_true]
        refine ⟨fun d hd hmods ↦ ?_, fun hclose ↦ ?_⟩
        · rw [← KeyCode.char.inj hd, hspace hmods]
          rfl
        · exact absurd (toLower_eq_bracket (KeyCode.char.inj hclose)) hc
      · simp only [hctrl]
        exact ⟨fun d hd hmods ↦ KeyCode.char.inj hd ▸ hspace hmods, fun h ↦ absurd h hcode⟩
  | _ => exact ⟨fun _ h _ ↦ (nomatch h), fun h ↦ (nomatch h)⟩

/-- What is written of a folded stroke is read as that stroke, but for a capital with Ctrl. -/
theorem Folded.reread {s : KeyStroke} (hs : s.Folded) : s.reread = .ok s.lowered := by
  obtain ⟨code, mods⟩ := s
  rw [KeyStroke.reread, if_neg fun h ↦ h.2 (hs.bracket h.1)]
  cases code with
  | char c =>
    have hshift : ¬ (mods.shift && c != ' ') = true := by
      intro h
      rw [Bool.and_eq_true, bne_iff_ne] at h
      exact h.2 (hs.shift c rfl h.1)
    simp only [normalized, lowered, hshift]
    rfl
  | _ => rfl

theorem lowered_eq_self_iff (s : KeyStroke) : s.lowered = s ↔ ¬ s.CtrlCapital := by
  obtain ⟨code, mods⟩ := s
  cases code with
  | char c =>
    by_cases hctrl : mods.ctrl = true
    · by_cases hcapital : c.isUpper = true
      · refine iff_of_false (fun h ↦ ?_) fun h ↦ h ⟨hctrl, c, rfl, hcapital⟩
        have hc : c.toLower = c := by simpa [lowered, hctrl] using h
        have := c.isUpper_toLower_eq_false
        rw [hc, hcapital] at this
        cases this
      · refine iff_of_true ?_ fun ⟨_, d, hd, h⟩ ↦ hcapital (KeyCode.char.inj hd ▸ h)
        simp [lowered, hctrl, Char.toLower_eq_of_not_isUpper hcapital]
    · exact iff_of_true (by simp [lowered, hctrl]) fun h ↦ hctrl h.1
  | _ => exact iff_of_true rfl fun ⟨_, _, hd, _⟩ ↦ nomatch hd

/-- What a body without a closing bracket names is folded. -/
theorem ofBracketed_folded {body : List Char} (hbody : '>' ∉ body) {s : KeyStroke}
    (h : ofBracketed body = .ok s) : s.Folded := by
  unfold ofBracketed at h
  split at h
  · cases h
  · split at h
    next mods name hsplit =>
    split at h
    · next code hname =>
      obtain rfl := Except.ok.inj h
      refine normalized_folded ?_ mods
      rintro rfl
      have hmem := Modifiers.mem_of_mem_split {} body '>'
      rw [hsplit] at hmem
      exact hbody (hmem (KeyCode.bracket_mem_of_ofName? hname))
    · cases h

end KeyStroke

/-! ### Keys that were read -/

namespace Keys

/-- A name ends before the first closing bracket. -/
theorem bracket_notMem_untilClose? {text body after : List Char}
    (h : untilClose? text = some (body, after)) : '>' ∉ body := by
  fun_induction untilClose? text generalizing body with
  | case1 => cases h
  | case2 rest =>
    obtain ⟨rfl, -⟩ := Prod.mk.inj (Option.some.inj h)
    exact List.not_mem_nil
  | case3 => cases h
  | case4 c rest hclose hopen ih =>
    obtain ⟨⟨body', after'⟩, hrest, heq⟩ := Option.map_eq_some_iff.mp h
    obtain ⟨rfl, rfl⟩ := Prod.mk.inj heq
    exact List.not_mem_cons_of_ne_of_not_mem (Ne.symm hclose) (ih hrest)

/-- A stroke and what follows it are read one after the other. -/
theorem read_cons_eq_ok {first : Except KeyError KeyStroke} {rest : Except KeyError Keys} {keys : Keys}
    (h : (do let stroke ← first; return stroke :: (← rest)) = Except.ok keys) :
    ∃ stroke strokes, first = .ok stroke ∧ rest = .ok strokes ∧ keys = stroke :: strokes := by
  cases first with
  | error e => cases h
  | ok stroke =>
    cases rest with
    | error e => cases h
    | ok strokes => exact ⟨stroke, strokes, rfl, rfl, (Except.ok.inj h).symm⟩

/-- Every stroke that is read is folded. -/
theorem parse_folded {written : List Char} {keys : Keys} (h : parse written = .ok keys) :
    ∀ s ∈ keys, s.Folded := by
  fun_induction parse written generalizing keys with
  | case1 =>
    obtain rfl := Except.ok.inj h
    exact fun s hs ↦ absurd hs List.not_mem_nil
  | case2 rest body after hclose ih =>
    obtain ⟨stroke, strokes, hstroke, hstrokes, rfl⟩ := read_cons_eq_ok h
    refine List.forall_mem_cons.mpr ⟨?_, ih hstrokes⟩
    exact KeyStroke.ofBracketed_folded (bracket_notMem_untilClose? hclose) hstroke
  | case3 rest _ ih =>
    obtain ⟨stroke, strokes, hstroke, hstrokes, rfl⟩ := @read_cons_eq_ok (.ok (.char '<')) _ _ h
    obtain rfl := Except.ok.inj hstroke
    exact List.forall_mem_cons.mpr ⟨.plain '<', ih hstrokes⟩
  | case4 c rest _ ih =>
    obtain ⟨stroke, strokes, hstroke, hstrokes, rfl⟩ := @read_cons_eq_ok (.ok (.char c)) _ _ h
    obtain rfl := Except.ok.inj hstroke
    exact List.forall_mem_cons.mpr ⟨.plain c, ih hstrokes⟩

/-- Folded strokes are written and read one by one. -/
theorem parse_render_folded {keys : Keys} (h : ∀ s ∈ keys, s.Folded) :
    parse (render keys) = .ok (keys.map KeyStroke.lowered) := by
  rw [parse_render]
  induction keys with
  | nil => rfl
  | cons s rest ih =>
    obtain ⟨hs, hrest⟩ := List.forall_mem_cons.mp h
    rw [List.mapM_cons, hs.reread, ih hrest]
    rfl

/-- Whatever was read can be written and read again, and comes back with each letter that Ctrl is held
with made small. So it comes back as it was exactly if it has no capital with Ctrl. -/
theorem parse_render_of_parse {written : List Char} {keys : Keys} (h : parse written = .ok keys) :
    parse (render keys) = .ok (keys.map KeyStroke.lowered) ∧
      (parse (render keys) = .ok keys ↔ ∀ s ∈ keys, ¬ s.CtrlCapital) := by
  have hread := parse_render_folded (parse_folded h)
  refine ⟨hread, ?_⟩
  calc parse (render keys) = .ok keys
    _ ↔ keys.map KeyStroke.lowered = keys.map id := by rw [hread, Except.ok.injEq, List.map_id]
    _ ↔ ∀ s ∈ keys, s.lowered = s := List.map_inj_left
    _ ↔ ∀ s ∈ keys, ¬ s.CtrlCapital := forall₂_congr fun s _ ↦ s.lowered_eq_self_iff

/-- The chord of the visual block mode, and a capital: both are written as they were read. -/
theorem parse_render_of_parse_block :
    parse "<C-V>j<S-i>".toList =
        .ok [{ code := .char 'v', mods := { ctrl := true } }, .char 'j', .char 'I'] ∧
      parse (render [{ code := .char 'v', mods := { ctrl := true } }, .char 'j', .char 'I']) =
        .ok [{ code := .char 'v', mods := { ctrl := true } }, .char 'j', .char 'I'] := by
  have hread : parse "<C-V>j<S-i>".toList =
      .ok [{ code := .char 'v', mods := { ctrl := true } }, .char 'j', .char 'I'] := by cbv
  exact ⟨hread, (parse_render_of_parse hread).1⟩

/-- With Shift and Ctrl the letter is read as a capital, written as one, and read as a small one. -/
theorem ctrl_shift_comes_back_small :
    parse "<C-S-a>".toList = .ok [{ code := .char 'A', mods := { ctrl := true } }] ∧
      render [{ code := .char 'A', mods := { ctrl := true } }] = "<C-A>".toList ∧
      parse (render [{ code := .char 'A', mods := { ctrl := true } }]) ≠
        .ok [{ code := .char 'A', mods := { ctrl := true } }] := by
  have hread : parse "<C-S-a>".toList = .ok [{ code := .char 'A', mods := { ctrl := true } }] := by
    cbv
  have hagain : parse "<C-A>".toList = .ok [{ code := .char 'a', mods := { ctrl := true } }] := by
    cbv
  refine ⟨hread, rfl, ?_⟩
  show parse "<C-A>".toList ≠ _
  rw [hagain]
  decide

end Keys

end ModalEdit
