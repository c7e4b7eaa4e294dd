import ModalEdit.Keymap.Default

/-!
What binding leaves as it was. A sequence that is bound has a target that some binding brought in
(`Trie.Targets`, `resolve_target`), and binding sequences that begin with another stroke changes nothing
behind a stroke (`follow_insert_of_ne`). Both carry over from one trie to a whole keymap by one
induction over the bindings (`bindAll_trie_keeps`).
-/

set_option autoImplicit false
set_option relaxedAutoImplicit false

namespace ModalEdit

namespace Trie

/-- Every target in a trie satisfies a condition. -/
def Targets (p : Target → Prop) : Trie → Prop
  | nil => True
  | edge _ target below beside => (∀ t, target = some t → p t) ∧ below.Targets p ∧ beside.Targets p

variable {p : Target → Prop}

theorem path_targets {target : Target} (hp : p target) (key : KeyStroke) (rest : Keys) :
    (path key target rest).Targets p := by
  induction rest generalizing key with
  | nil => exact ⟨fun t ht ↦ Option.some.inj ht ▸ hp, trivial, trivial⟩
  | cons next rest ih => exact ⟨fun t ht ↦ absurd ht (Option.some_ne_none t).symm, ih next, trivial⟩

theorem insertFrom_targets {target : Target} (hp : p target) {t : Trie} (ht : t.Targets p)
    (key : KeyStroke) (rest : Keys) : (insertFrom key rest target t).2.Targets p := by
  induction t generalizing key rest with
  | nil => exact path_targets hp key rest
  | edge k held below beside ihBelow ihBeside =>
    obtain ⟨hheld, hbelow, hbeside⟩ := ht
    unfold insertFrom
    split
    · cases rest with
      | nil =>
        cases held with
        | none => exact ⟨fun t ht ↦ Option.some.inj ht ▸ hp, hbelow, hbeside⟩
        | some existing => exact ⟨hheld, hbelow, hbeside⟩
      | cons next rest => exact ⟨hheld, ihBelow hbelow next rest, hbeside⟩
    · exact ⟨hheld, hbelow, ihBeside hbeside key rest⟩

theorem insert_targets {target : Target} (hp : p target) {t : Trie} (ht : t.Targets p) (keys : Keys) :
    (t.insert keys target).2.Targets p := by
  cases keys with
  | nil => exact ht
  | cons key rest => exact insertFrom_targets hp ht key rest

theorem follow_targets {t : Trie} (ht : t.Targets p) {key : KeyStroke} {held : Option Target}
    {below : Trie} (h : t.follow key = some (held, below)) :
    (∀ target, held = some target → p target) ∧ below.Targets p := by
  induction t with
  | nil => cases h
  | edge k target below' beside _ ih =>
    obtain ⟨htarget, hbelow, hbeside⟩ := ht
    unfold follow at h
    split at h
    · cases h
      exact ⟨htarget, hbelow⟩
    · exact ih hbeside h

theorem longest?_target {t : Trie} (ht : t.Targets p) {buffer : Keys} {consumed : Nat}
    {target : Target} (h : t.longest? buffer = some (consumed, target)) : p target := by
  induction buffer generalizing t consumed with
  | nil => cases h
  | cons key rest ih =>
    unfold longest? at h
    split at h
    · cases h
    · next held below hfollow =>
      obtain ⟨hheld, hbelow⟩ := follow_targets ht hfollow
      split at h
      · next longer hlonger =>
        cases h
        exact ih hbelow hlonger
      · obtain ⟨found, hfound, heq⟩ := Option.map_eq_some_iff.mp h
        cases heq
        exact hheld _ hfound

/-- A buffer that begins with a bound sequence gets a target that was bound. -/
theorem resolve_target {t : Trie} (ht : t.Targets p) {buffer : Keys} {consumed : Nat} {target : Target}
    {ambiguous : Bool} (h : t.resolve buffer = .matched consumed target ambiguous) : p target := by
  unfold resolve at h
  split at h
  · next hlongest =>
    cases h
    exact longest?_target ht hlongest
  · split at h <;> cases h

/-! ### Other beginnings -/

theorem follow_insertFrom_of_ne {key stroke : KeyStroke} (hne : key ≠ stroke) (rest : Keys)
    (target : Target) (t : Trie) : (insertFrom key rest target t).2.follow stroke = t.follow stroke := by
  induction t with
  | nil => cases rest <;> exact if_neg hne
  | edge k held below beside _ ih =>
    by_cases hkey : k = key
    · subst hkey
      unfold insertFrom
      rw [if_pos rfl]
      cases rest with
      | nil => cases held <;> simp only [follow, if_neg hne]
      | cons next rest => simp only [follow, if_neg hne]
    · unfold insertFrom
      rw [if_neg hkey]
      simp only [follow, ih]

theorem follow_insert_of_ne {keys : Keys} {stroke : KeyStroke} (h : keys.head? ≠ some stroke)
    (target : Target) (t : Trie) : (t.insert keys target).2.follow stroke = t.follow stroke := by
  cases keys with
  | nil => rfl
  | cons key rest =>
    refine follow_insertFrom_of_ne (fun heq ↦ h ?_) rest target t
    rw [heq]
    rfl

/-- A stroke that is bound, and with which no longer sequence begins, is taken at once. -/
theorem resolve_of_follow {t : Trie} {stroke : KeyStroke} {target : Target}
    (h : t.follow stroke = some (some target, .nil)) : t.resolve [stroke] = .matched 1 target false := by
  simp only [resolve, longest?, goesBeyond, h, Option.map_some]
  rfl

end Trie

namespace Keymap

theorem trie_setTrie (m : Keymap) (changed mode : MapMode) (t : Trie) :
    (m.setTrie changed t).trie mode = if changed = mode then t else m.trie mode := by
  cases changed <;> cases mode <;> rfl

section Keeps

variable {P : Trie → Prop} {mode : MapMode}

/-- What holds of a trie and is not lost by inserting a binding is not lost by making the binding. -/
theorem bind_trie_keeps {m : Keymap} (h : P (m.trie mode)) (modes : List MapMode) {keys : Keys}
    {target : Target} (hinsert : mode ∈ modes → ∀ t, P t → P (t.insert keys target).2) :
    P ((m.bind modes keys target).2.trie mode) := by
  refine List.foldlRecOn (motive := fun result : BindOutcome × Keymap ↦ P (result.2.trie mode)) _ _ h ?_
  intro result hresult changed hmem
  show P ((result.2.setTrie changed ((result.2.trie changed).insert keys target).2).trie mode)
  rw [trie_setTrie]
  by_cases hchanged : changed = mode
  · subst hchanged
    rw [if_pos rfl]
    exact hinsert hmem _ hresult
  · rw [if_neg hchanged]
    exact hresult

theorem bindAll_trie_keeps {m : Keymap} (h : P (m.trie mode)) {bindings : List Binding}
    (hinsert : ∀ b ∈ bindings, mode ∈ b.modes → ∀ t, P t → P (t.insert b.keys b.target).2) :
    P ((m.bindAll bindings).trie mode) :=
  List.foldlRecOn (motive := fun m : Keymap ↦ P (m.trie mode)) _ _ h
    fun _ hm b hb ↦ bind_trie_keeps hm b.modes (hinsert b hb)

end Keeps

theorem bindAll_append (m : Keymap) (first second : List Binding) :
    m.bindAll (first ++ second) = (m.bindAll first).bindAll second := List.foldl_append

end Keymap

end ModalEdit
