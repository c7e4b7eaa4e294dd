import ModalEdit.Key.Notation

/-!
Strokes that can be written down. What is written of a stroke is read as the stroke that its key and
its modifiers normalize to, whatever else is written behind it. Only a closing bracket with a
modifier cannot be written: it ends the name that it should be (`KeyStroke.reread`). So written keys
are read back stroke by stroke (`Keys.parse_render`), and they come back as they were exactly if each
stroke is normalized and none is such a bracket (`Keys.parse_render_eq_ok_iff`).
-/

set_option autoImplicit false
set_option relaxedAutoImplicit false

namespace ModalEdit

/-! ### Names -/

namespace KeyCode

/-- A name has at least one character, and no bracket unless it is one. -/
theorem bracket_notMem_name {code : KeyCode} (hclose : code ≠ char '>') :
    '<' ∉ code.name ∧ '>' ∉ code.name := by
  unfold name
  split
  case h_3 c _ hopen =>
    have hne : '<' ≠ c := fun h ↦ hopen (h ▸ rfl)
    have hne' : '>' ≠ c := fun h ↦ hclose (h ▸ rfl)
    exact ⟨List.not_mem_cons_of_ne_of_not_mem hne List.not_mem_nil,
      List.not_mem_cons_of_ne_of_not_mem hne' List.not_mem_nil⟩
  all_goals exact ⟨by decide, by decide⟩

theorem name_ne_nil (code : KeyCode) : code.name ≠ [] := by
  unfold name
  split <;> exact List.cons_ne_nil _ _

/-- A single character is no listed name. -/
theorem lookup_names_singleton (c : Char) : names.lookup [c] = none := by
  have hlong : ∀ entry ∈ names, entry.1.length ≠ 1 := by decide
  refine List.lookup_eq_none_iff.mpr fun entry hentry ↦ ?_
  rw [bne_iff_ne]
  rintro heq
  exact hlong entry hentry (by rw [← heq]; rfl)

/-- A key is found by the name it is written by. -/
theorem ofName?_name (code : KeyCode) : ofName? code.name = some code := by
  cases code with
  | char c =>
    unfold name
    split
    case h_1 heq => cases heq; decide
    case h_2 heq => cases heq; decide
    case h_3 heq =>
      cases heq
      unfold ofName?
      rw [show [c].map Char.toLower = [c.toLower] from rfl, lookup_names_singleton]
    all_goals next heq => cases heq
  | _ => decide

end KeyCode

namespace Modifiers

theorem bracket_notMem_render (mods : Modifiers) : '<' ∉ mods.render ∧ '>' ∉ mods.render := by
  obtain ⟨_ | _, _ | _, _ | _⟩ := mods <;> decide

/-- No name begins with a modifier. -/
theorem split_name (mods : Modifiers) (code : KeyCode) : mods.split code.name = (mods, code.name) := by
  unfold KeyCode.name
  split <;> rfl

/-- The letters that modifiers are written by are read as these modifiers. -/
theorem split_render (mods : Modifiers) {name : List Char} (hne : name ≠ [])
    (hname : ∀ mods : Modifiers, mods.split name = (mods, name)) :
    ({} : Modifiers).split (mods.render ++ name) = (mods, name) := by
  obtain ⟨c, rest, rfl⟩ := List.exists_cons_of_ne_nil hne
  obtain ⟨_ | _, _ | _, _ | _⟩ := mods <;> exact hname _

end Modifiers

/-! ### A single stroke -/

namespace KeyStroke

/-- What the written form of a stroke is read as. The closing bracket with a modifier ends its own
name, and leaves the letters of the modifiers without a key. -/
def reread (s : KeyStroke) : Except KeyError KeyStroke :=
  if s.code = .char '>' ∧ s.mods ≠ {} then .error (.unknownKey s.mods.render)
  else .ok (normalized s.code s.mods)

theorem ofBracketed_name (mods : Modifiers) (code : KeyCode) :
    ofBracketed (mods.render ++ code.name) = .ok (normalized code mods) := by
  have hne : (mods.render ++ code.name).isEmpty = false := by
    rw [List.isEmpty_eq_false_iff]
    exact List.append_ne_nil_of_right_ne_nil _ code.name_ne_nil
  unfold ofBracketed
  rw [hne, Modifiers.split_render mods code.name_ne_nil fun mods ↦ mods.split_name code]
  simp only [Bool.false_eq_true, if_false, KeyCode.ofName?_name]

theorem ofBracketed_render {mods : Modifiers} (hmods : mods ≠ {}) :
    ofBracketed mods.render = .error (.unknownKey mods.render) := by
  obtain ⟨_ | _, _ | _, _ | _⟩ := mods
  · exact absurd rfl hmods
  all_goals rfl

/-- A stroke comes back as it was exactly if it is normalized and can be written. -/
theorem reread_eq_ok_iff (s : KeyStroke) :
    s.reread = .ok s ↔ normalized s.code s.mods = s ∧ ¬ (s.code = .char '>' ∧ s.mods ≠ {}) := by
  unfold reread
  split
  · next hclose => exact iff_of_false (fun h ↦ nomatch h) fun h ↦ h.2 hclose
  · next hclose => exact ⟨fun h ↦ ⟨Except.ok.inj h, hclose⟩, fun h ↦ congrArg Except.ok h.1⟩

end KeyStroke

/-! ### Written keys -/

namespace Keys

/-- A name without brackets ends at the first closing one. -/
theorem untilClose?_append {body : List Char} (hopen : '<' ∉ body) (hclose : '>' ∉ body)
    (rest : List Char) : untilClose? (body ++ '>' :: rest) = some (body, rest) := by
  induction body with
  | nil => rfl
  | cons c body ih =>
    obtain ⟨hc, hbody⟩ := not_or.mp (mt List.mem_cons.mpr hopen)
    obtain ⟨hc', hbody'⟩ := not_or.mp (mt List.mem_cons.mpr hclose)
    rw [List.cons_append, untilClose?, ih hbody hbody', Option.map_some]
    · exact Ne.symm hc'
    · exact Ne.symm hc

theorem parse_cons_of_ne {c : Char} (hc : c ≠ '<') (rest : List Char) :
    parse (c :: rest) = do return .char c :: (← parse rest) := by
  rw [parse, if_neg hc]

theorem parse_bracketed {body : List Char} (hopen : '<' ∉ body) (hclose : '>' ∉ body)
    (rest : List Char) : parse ('<' :: (body ++ '>' :: rest)) = do
      let stroke ← KeyStroke.ofBracketed body
      return stroke :: (← parse rest) := by
  rw [parse, if_pos rfl]
  split
  · next body' after h =>
    rw [untilClose?_append hopen hclose] at h
    obtain ⟨rfl, rfl⟩ := Prod.mk.inj (Option.some.inj h)
    rfl
  · next h =>
    rw [untilClose?_append hopen hclose] at h
    cases h

/-- Between brackets, a closing one ends the name that it should be. -/
theorem parse_bracketed_close {mods : Modifiers} (hmods : mods ≠ {}) (rest : List Char) :
    parse ('<' :: mods.render ++ ['>', '>'] ++ rest) = .error (.unknownKey mods.render) := by
  obtain ⟨hopen, hclose⟩ := mods.bracket_notMem_render
  rw [show '<' :: mods.render ++ ['>', '>'] ++ rest = '<' :: (mods.render ++ '>' :: ('>' :: rest)) by
    simp, parse_bracketed hopen hclose, KeyStroke.ofBracketed_render hmods]
  rfl

/-- Between brackets, the name of any other key is read. -/
theorem parse_bracketed_name (mods : Modifiers) {code : KeyCode} (hcode : code ≠ .char '>')
    (rest : List Char) : parse ('<' :: mods.render ++ code.name ++ ['>'] ++ rest) = do
      return .normalized code mods :: (← parse rest) := by
  obtain ⟨hopen, hclose⟩ := mods.bracket_notMem_render
  obtain ⟨hopen', hclose'⟩ := KeyCode.bracket_notMem_name hcode
  rw [show '<' :: mods.render ++ code.name ++ ['>'] ++ rest =
    '<' :: (mods.render ++ code.name ++ '>' :: rest) by simp,
    parse_bracketed (by simp [hopen, hopen']) (by simp [hclose, hclose']),
    KeyStroke.ofBracketed_name]
  rfl

/-- A stroke is read the same whatever is written behind it. -/
theorem parse_render_append (s : KeyStroke) (rest : List Char) :
    parse (s.render ++ rest) = do
      let stroke ← s.reread
      return stroke :: (← parse rest) := by
  have hbracketed (hmods : s.code = .char '>' → s.mods ≠ {}) :
      parse ('<' :: s.mods.render ++ s.code.name ++ ['>'] ++ rest) = do
        let stroke ← s.reread
        return stroke :: (← parse rest) := by
    unfold KeyStroke.reread
    by_cases hcode : s.code = .char '>'
    · rw [if_pos ⟨hcode, hmods hcode⟩, hcode, List.append_assoc ('<' :: s.mods.render)]
      exact parse_bracketed_close (hmods hcode) rest
    · rw [if_neg fun h ↦ hcode h.1]
      exact parse_bracketed_name s.mods hcode rest
  unfold KeyStroke.render
  split
  · next c hcode =>
    split
    · next hplain =>
      simp only [KeyStroke.isPlain, Bool.and_eq_true, beq_iff_eq, bne_iff_ne] at hplain
      obtain ⟨⟨hmods, -⟩, hopen⟩ := hplain
      rw [List.singleton_append, parse_cons_of_ne hopen, KeyStroke.reread,
        if_neg fun h ↦ h.2 hmods, hcode, hmods]
      rfl
    · next hplain =>
      refine hbracketed fun hclose hmods ↦ hplain ?_
      obtain rfl := KeyCode.char.inj (hcode.symm.trans hclose)
      simp [KeyStroke.isPlain, hmods]
  · next hcode => exact hbracketed fun hclose ↦ absurd hclose (hcode _)

/-- Written keys are read back stroke by stroke, up to the first that cannot be written. -/
theorem parse_render (keys : Keys) : parse (render keys) = keys.mapM KeyStroke.reread := by
  induction keys with
  | nil => rw [render, List.flatMap_nil, parse, List.mapM_nil]; rfl
  | cons s rest ih =>
    rw [render, List.flatMap_cons, parse_render_append, List.mapM_cons, ← ih]
    rfl

/-- With Ctrl, a closing bracket is written as something that cannot be read. -/
example : parse (render [{ code := .char '>', mods := { ctrl := true } }]) =
    .error (.unknownKey "C-".toList) := by cbv

/-- Strokes that are written down are read back as they were exactly if each is what its key and its
modifiers normalize to, and none is a closing bracket with a modifier. -/
theorem parse_render_eq_ok_iff (keys : Keys) :
    parse (render keys) = .ok keys ↔
      ∀ s ∈ keys, KeyStroke.normalized s.code s.mods = s ∧
        ¬ (s.code = .char '>' ∧ s.mods ≠ {}) := by
  simp only [← KeyStroke.reread_eq_ok_iff]
  rw [parse_render]
  induction keys with
  | nil => exact ⟨fun _ s h ↦ absurd h List.not_mem_nil, fun _ ↦ rfl⟩
  | cons s rest ih =>
    rw [List.mapM_cons, List.forall_mem_cons, ← ih]
    cases s.reread with
    | error e => exact iff_of_false (fun h ↦ nomatch h) fun h ↦ nomatch h.1
    | ok stroke =>
      cases rest.mapM KeyStroke.reread with
      | error e => exact iff_of_false (fun h ↦ nomatch h) fun h ↦ nomatch h.2
      | ok strokes =>
        show Except.ok (stroke :: strokes) = Except.ok (s :: rest) ↔ _
        simp only [Except.ok.injEq, List.cons.injEq]

end Keys

end ModalEdit
