import Mathlib.Data.List.Infix
import ModalEdit.Proofs.KeymapTargets
import ModalEdit.Resolver.Drain

/-!
What a trie says of a buffer, in terms of the sequences that are bound. Looking up a sequence walks to
the edges behind its first strokes and looks up the rest there (`get?_append`). The sequence that is
taken from a buffer is the longest bound one (`longest?_spec`, `get?_of_longest?_eq_none`). A buffer that
a bound sequence goes beyond is told to go on (`goesBeyond_of_get?`); the converse needs that no edge
leads nowhere (`NoDeadEnds`, `exists_get?_of_goesBeyond`), which holds of every trie that was made by
binding (`Keymap.bindAll_noDeadEnds`). What is bound in such a trie was brought in by one of the bindings
(`get?_insert`, `Keymap.exists_binding_of_get?`).
-/

set_option autoImplicit false
set_option relaxedAutoImplicit false

namespace ModalEdit

namespace Trie

/-! ### Walking a path -/

/-- The edges behind all strokes of a buffer, if its path exists. -/
def behind : Trie → Keys → Option Trie
  | t, [] => some t
  | t, key :: rest => (t.follow key).bind fun (_, below) ↦ below.behind rest

@[simp] theorem get?_nil (t : Trie) : t.get? [] = none := by rw [get?]

@[simp] theorem nil_get? (keys : Keys) : nil.get? keys = none := by
  match keys with
  | [] => exact get?_nil nil
  | [_] => rfl
  | _ :: _ :: _ => rfl

theorem get?_singleton (t : Trie) (key : KeyStroke) : t.get? [key] = (t.follow key).bind (·.1) := rfl

theorem get?_cons_of_ne_nil (t : Trie) (key : KeyStroke) {rest : Keys} (h : rest ≠ []) :
    t.get? (key :: rest) = (t.follow key).bind fun (_, below) ↦ below.get? rest := by
  obtain ⟨next, rest, rfl⟩ := List.exists_cons_of_ne_nil h
  rw [get?]

theorem get?_append (t : Trie) (buffer : Keys) {more : Keys} (h : more ≠ []) :
    t.get? (buffer ++ more) = (t.behind buffer).bind (·.get? more) := by
  induction buffer generalizing t with
  | nil => rfl
  | cons key rest ih =>
    rw [List.cons_append, get?_cons_of_ne_nil t key (List.append_ne_nil_of_right_ne_nil rest h),
      behind, Option.bind_assoc]
    simp only [ih]

theorem goesBeyond_eq_any (t : Trie) (buffer : Keys) :
    t.goesBeyond buffer = (t.behind buffer).any (· != nil) := by
  induction buffer generalizing t with
  | nil => rfl
  | cons key rest ih =>
    rw [goesBeyond, behind]
    cases t.follow key with
    | none => rfl
    | some edges => exact ih edges.2

/-- A buffer goes on where a bound sequence does. -/
theorem goesBeyond_of_get? {t : Trie} {buffer more : Keys} {target : Target} (hmore : more ≠ [])
    (h : t.get? (buffer ++ more) = some target) : t.goesBeyond buffer = true := by
  rw [get?_append t buffer hmore] at h
  obtain ⟨edges, hedges, htarget⟩ := Option.bind_eq_some_iff.mp h
  rw [goesBeyond_eq_any, hedges, Option.any_some, bne_iff_ne]
  rintro rfl
  rw [nil_get?] at htarget
  cases htarget

/-- From a buffer that does not go on, whatever follows it, no bound sequence begins that is longer. -/
theorem prefix_or_get?_eq_none {t : Trie} {buffer : Keys} (hbeyond : t.goesBeyond buffer = false)
    {longer later : Keys} (h : longer <+: buffer ++ later) :
    longer <+: buffer ∨ t.get? longer = none := by
  rcases List.prefix_or_prefix_of_prefix h (List.prefix_append buffer later) with hwithin | ⟨more, rfl⟩
  · exact .inl hwithin
  · by_cases hmore : more = []
    · rw [hmore, List.append_nil]
      exact .inl List.prefix_rfl
    · refine .inr (Option.eq_none_iff_forall_ne_some.mpr fun target htarget ↦ ?_)
      rw [goesBeyond_of_get? hmore htarget] at hbeyond
      cases hbeyond

/-! ### The longest bound sequence -/

section Longest

variable {t : Trie} {buffer front : Keys} {n : Nat} {target : Target}

/-- With no sequence found, none that the buffer begins with is bound. -/
theorem get?_of_longest?_eq_none (h : t.longest? buffer = none) (hfront : front <+: buffer) :
    t.get? front = none := by
  induction buffer generalizing t front with
  | nil => rw [List.prefix_nil.mp hfront, get?_nil]
  | cons key rest ih =>
    rcases List.prefix_cons_iff.mp hfront with rfl | ⟨front, rfl, hrest⟩
    · exact get?_nil t
    · cases hfollow : t.follow key with
      | none =>
        by_cases hnil : front = []
        · rw [hnil, get?_singleton, hfollow, Option.bind_none]
        · rw [get?_cons_of_ne_nil t key hnil, hfollow, Option.bind_none]
      | some edges =>
        simp only [longest?, hfollow] at h
        split at h
        · cases h
        · next hlonger =>
          by_cases hnil : front = []
          · rw [hnil, get?_singleton, hfollow, Option.bind_some]
            exact Option.map_eq_none_iff.mp h
          · rw [get?_cons_of_ne_nil t key hnil, hfollow, Option.bind_some]
            exact ih hlonger hrest

/-- The sequence found is bound, and no longer one that the buffer begins with is. -/
theorem longest?_spec (h : t.longest? buffer = some (n, target)) :
    n ≤ buffer.length ∧ t.get? (buffer.take n) = some target ∧
      ∀ front, front <+: buffer → n < front.length → t.get? front = none := by
  induction buffer generalizing t n with
  | nil => cases h
  | cons key rest ih =>
    cases hfollow : t.follow key with
    | none =>
      simp only [longest?, hfollow] at h
      cases h
    | some edges =>
      simp only [longest?, hfollow] at h
      have hlater {front : Keys} (hne : front ≠ []) : t.get? (key :: front) = edges.2.get? front := by
        rw [get?_cons_of_ne_nil t key hne, hfollow, Option.bind_some]
      split at h
      · next k longer hlonger =>
        cases h
        obtain ⟨hle, hget, hnone⟩ := ih hlonger
        have htake : rest.take k ≠ [] := by
          intro hnil
          rw [hnil, get?_nil] at hget
          cases hget
        refine ⟨Nat.succ_le_succ hle, by rw [List.take_succ_cons, hlater htake, hget], ?_⟩
        intro front hfront hlength
        rcases List.prefix_cons_iff.mp hfront with rfl | ⟨front, rfl, hrest⟩
        · exact get?_nil t
        · have hlt : k < front.length := Nat.lt_of_succ_lt_succ hlength
          rw [hlater (List.ne_nil_of_length_pos (Nat.zero_lt_of_lt hlt))]
          exact hnone front hrest hlt
      · next hshort =>
        obtain ⟨found, hfound, heq⟩ := Option.map_eq_some_iff.mp h
        cases heq
        refine ⟨Nat.succ_le_succ (Nat.zero_le _), ?_, ?_⟩
        · rw [List.take_succ_cons, List.take_zero, get?_singleton, hfollow, Option.bind_some]
          exact hfound
        · intro front hfront hlength
          rcases List.prefix_cons_iff.mp hfront with rfl | ⟨front, rfl, hrest⟩
          · exact get?_nil t
          · have hlt : 0 < front.length := Nat.lt_of_succ_lt_succ hlength
            rw [hlater (List.ne_nil_of_length_pos hlt)]
            exact get?_of_longest?_eq_none hshort hrest

theorem resolve_eq_matched {ambiguous : Bool} (h : t.resolve buffer = .matched n target ambiguous) :
    t.longest? buffer = some (n, target) ∧ t.goesBeyond buffer = ambiguous := by
  unfold resolve at h
  split at h
  · next hlongest =>
    cases h
    exact ⟨hlongest, rfl⟩
  · split at h <;> cases h

theorem resolve_eq_unmapped (h : t.resolve buffer = .unmapped) :
    t.longest? buffer = none ∧ (buffer ≠ [] → t.goesBeyond buffer = false) := by
  unfold resolve at h
  split at h
  · cases h
  · next hlongest =>
    split at h
    · cases h
    · next hmore =>
      refine ⟨hlongest, fun hne ↦ ?_⟩
      simpa [hne] using hmore

theorem longest?_eq_none_of_resolve (h : t.resolve buffer = .needMore ∨ t.resolve buffer = .unmapped) :
    t.longest? buffer = none := by
  cases hlongest : t.longest? buffer with
  | none => rfl
  | some found => rcases h with h | h <;> simp only [resolve, hlongest] at h <;> cases h

/-- A buffer waits for more only where it goes on. -/
theorem goesBeyond_of_resolve (h : t.resolve buffer = .needMore ∨
    ∃ consumed target, t.resolve buffer = .matched consumed target true) :
    t.goesBeyond buffer = true := by
  rcases h with h | ⟨consumed, target, h⟩
  · unfold resolve at h
    split at h
    · cases h
    · split at h
      · next hmore => exact (Bool.and_eq_true_iff.mp hmore).2
      · cases h
  · exact (resolve_eq_matched h).2

/-- A buffer that goes on waits for more. -/
theorem resolve_of_goesBeyond (hne : buffer ≠ []) (h : t.goesBeyond buffer = true) :
    t.resolve buffer = .needMore ∨
      ∃ consumed target, t.resolve buffer = .matched consumed target true := by
  unfold resolve
  split
  · next consumed target _ => exact .inr ⟨consumed, target, by rw [h]⟩
  · exact .inl (if_pos (by simpa [hne] using h))

/-- A bound sequence that goes no further is taken whole. -/
theorem resolve_of_get? (hget : t.get? buffer = some target) (h : t.goesBeyond buffer = false) :
    t.resolve buffer = .matched buffer.length target false := by
  cases hlongest : t.longest? buffer with
  | none =>
    rw [get?_of_longest?_eq_none hlongest List.prefix_rfl] at hget
    cases hget
  | some found =>
    obtain ⟨hle, htake, hnone⟩ := longest?_spec hlongest
    have hwhole : found.1 = buffer.length := by
      by_contra hne
      rw [hnone buffer List.prefix_rfl (Nat.lt_of_le_of_ne hle hne)] at hget
      cases hget
    rw [hwhole, List.take_length, hget] at htake
    simp only [resolve, hlongest, h, hwhole, Option.some.inj htake]

end Longest

/-! ### Binding -/

theorem edge_get?_cons (k : KeyStroke) (held : Option Target) (below beside : Trie) (key : KeyStroke)
    (rest : Keys) : (edge k held below beside).get? (key :: rest) =
      if k = key then (if rest = [] then held else below.get? rest) else beside.get? (key :: rest) := by
  by_cases hkey : k = key <;> cases rest <;> simp [get?, follow, hkey]

theorem path_get? (key : KeyStroke) (target : Target) (rest keys : Keys) :
    (path key target rest).get? keys = if keys = key :: rest then some target else none := by
  induction rest generalizing key keys with
  | nil =>
    cases keys with
    | nil => exact get?_nil _
    | cons first others => grind [path, edge_get?_cons, nil_get?]
  | cons next rest ih =>
    cases keys with
    | nil => exact get?_nil _
    | cons first others => grind [path, edge_get?_cons, nil_get?]

theorem get?_insertFrom (key : KeyStroke) (rest : Keys) (target : Target) (t : Trie) (keys : Keys) :
    (insertFrom key rest target t).2.get? keys =
      if keys = key :: rest then some ((t.get? keys).getD target) else t.get? keys := by
  induction t generalizing key rest keys with
  | nil =>
    rw [nil_get?]
    exact path_get? key target rest keys
  | edge k held below beside ihBelow ihBeside =>
    cases keys with
    | nil => simp
    | cons first others =>
      unfold insertFrom
      split
      · cases rest with
        | nil => cases held <;> grind [edge_get?_cons]
        | cons next rest => grind [edge_get?_cons]
      · grind [edge_get?_cons]

/-- Binding a sequence gives it the target if it has none, and nothing to the others. -/
theorem get?_insert (t : Trie) (bound : Keys) (target : Target) (keys : Keys) :
    (t.insert bound target).2.get? keys =
      if keys = bound ∧ bound ≠ [] then some ((t.get? keys).getD target) else t.get? keys := by
  cases bound with
  | nil => simp [insert]
  | cons key rest => simp [insert, get?_insertFrom]

/-! ### Tries without dead ends -/

/-- Where no sequence ends, one goes on. -/
def NoDeadEnds : Trie → Prop
  | nil => True
  | edge _ target below beside => (target = none → below ≠ nil) ∧ below.NoDeadEnds ∧ beside.NoDeadEnds

theorem path_ne_nil (key : KeyStroke) (target : Target) (rest : Keys) : path key target rest ≠ nil := by
  cases rest <;> exact Trie.noConfusion

theorem path_noDeadEnds (key : KeyStroke) (target : Target) (rest : Keys) :
    (path key target rest).NoDeadEnds := by
  induction rest generalizing key with
  | nil => exact ⟨fun h ↦ absurd h (Option.some_ne_none target), trivial, trivial⟩
  | cons next rest ih => exact ⟨fun _ ↦ path_ne_nil next target rest, ih next, trivial⟩

theorem insertFrom_ne_nil (key : KeyStroke) (rest : Keys) (target : Target) (t : Trie) :
    (insertFrom key rest target t).2 ≠ nil := by
  cases t with
  | nil => exact path_ne_nil key target rest
  | edge k held below beside =>
    unfold insertFrom
    split
    · cases rest with
      | nil => cases held <;> exact Trie.noConfusion
      | cons next rest => exact Trie.noConfusion
    · exact Trie.noConfusion

theorem insertFrom_noDeadEnds (target : Target) {t : Trie} (h : t.NoDeadEnds) (key : KeyStroke)
    (rest : Keys) : (insertFrom key rest target t).2.NoDeadEnds := by
  induction t generalizing key rest with
  | nil => exact path_noDeadEnds key target rest
  | edge k held below beside ihBelow ihBeside =>
    obtain ⟨hheld, hbelow, hbeside⟩ := h
    unfold insertFrom
    split
    · cases rest with
      | nil =>
        cases held with
        | none => exact ⟨fun h ↦ absurd h (Option.some_ne_none target), hbelow, hbeside⟩
        | some existing => exact ⟨hheld, hbelow, hbeside⟩
      | cons next rest =>
        exact ⟨fun _ ↦ insertFrom_ne_nil next rest target below, ihBelow hbelow next rest, hbeside⟩
    · exact ⟨hheld, hbelow, ihBeside hbeside key rest⟩

theorem insert_noDeadEnds {t : Trie} (h : t.NoDeadEnds) (keys : Keys) (target : Target) :
    (t.insert keys target).2.NoDeadEnds := by
  cases keys with
  | nil => exact h
  | cons key rest => exact insertFrom_noDeadEnds target h key rest

theorem follow_noDeadEnds {t : Trie} (h : t.NoDeadEnds) {key : KeyStroke} {held : Option Target}
    {below : Trie} (hfollow : t.follow key = some (held, below)) : below.NoDeadEnds := by
  induction t with
  | nil => cases hfollow
  | edge k target below' beside _ ih =>
    unfold follow at hfollow
    split at hfollow
    · cases hfollow
      exact h.2.1
    · exact ih h.2.2 hfollow

theorem behind_noDeadEnds {t edges : Trie} (h : t.NoDeadEnds) {buffer : Keys}
    (hbehind : t.behind buffer = some edges) : edges.NoDeadEnds := by
  induction buffer generalizing t with
  | nil =>
    cases hbehind
    exact h
  | cons key rest ih =>
    obtain ⟨found, hfollow, hrest⟩ := Option.bind_eq_some_iff.mp hbehind
    exact ih (follow_noDeadEnds h hfollow) hrest

/-- Some sequence is bound where there are edges. -/
theorem exists_get?_of_ne_nil {t : Trie} (h : t.NoDeadEnds) (hne : t ≠ nil) :
    ∃ keys target, keys ≠ [] ∧ t.get? keys = some target := by
  induction t with
  | nil => exact absurd rfl hne
  | edge key held below beside ih _ =>
    obtain ⟨hheld, hbelow, -⟩ := h
    have hfollow : (edge key held below beside).follow key = some (held, below) := if_pos rfl
    cases held with
    | some target => exact ⟨[key], target, List.cons_ne_nil key [], by rw [get?_singleton, hfollow]; rfl⟩
    | none =>
      obtain ⟨keys, target, hkeys, htarget⟩ := ih hbelow (hheld rfl)
      refine ⟨key :: keys, target, List.cons_ne_nil key keys, ?_⟩
      rw [get?_cons_of_ne_nil _ key hkeys, hfollow]
      exact htarget

/-- Where a buffer goes on, a bound sequence does. -/
theorem exists_get?_of_goesBeyond {t : Trie} (h : t.NoDeadEnds) {buffer : Keys}
    (hbeyond : t.goesBeyond buffer = true) :
    ∃ more target, more ≠ [] ∧ t.get? (buffer ++ more) = some target := by
  rw [goesBeyond_eq_any, Option.any_eq_true] at hbeyond
  obtain ⟨edges, hedges, hne⟩ := hbeyond
  obtain ⟨more, target, hmore, htarget⟩ :=
    exists_get?_of_ne_nil (behind_noDeadEnds h hedges) (bne_iff_ne.mp hne)
  exact ⟨more, target, hmore, by rw [get?_append t buffer hmore, hedges]; exact htarget⟩

end Trie

namespace Keymap

/-- What a sequence is bound to was brought in by a binding for it. -/
theorem exists_binding_of_get? {bindings : List Binding} {mode : MapMode} {keys : Keys} {target : Target}
    (h : (bindAll {} bindings).get? mode keys = some target) :
    ∃ b ∈ bindings, mode ∈ b.modes ∧ b.keys = keys ∧ b.target = target := by
  have hall : ∀ keys target, ((bindAll {} bindings).trie mode).get? keys = some target →
      ∃ b ∈ bindings, mode ∈ b.modes ∧ b.keys = keys ∧ b.target = target := by
    refine bindAll_trie_keeps (P := fun t ↦ ∀ keys target, t.get? keys = some target →
      ∃ b ∈ bindings, mode ∈ b.modes ∧ b.keys = keys ∧ b.target = target) ?_ ?_
    · intro keys target hget
      have hnil : trie {} mode = .nil := by cases mode <;> rfl
      rw [hnil, Trie.nil_get?] at hget
      cases hget
    · intro b hb hmode t ht keys target hget
      rw [Trie.get?_insert] at hget
      split at hget
      · next hkeys =>
        cases hheld : t.get? keys with
        | none =>
          rw [hheld] at hget
          exact ⟨b, hb, hmode, hkeys.1.symm, Option.some.inj hget⟩
        | some held =>
          rw [hheld] at hget
          obtain rfl : held = target := Option.some.inj hget
          exact ht keys held hheld
      · exact ht keys target hget
  exact hall keys target h

theorem bindAll_noDeadEnds (bindings : List Binding) (mode : MapMode) :
    ((Keymap.bindAll {} bindings).trie mode).NoDeadEnds :=
  bindAll_trie_keeps (P := Trie.NoDeadEnds) (by cases mode <;> trivial)
    fun b _ _ _ h ↦ Trie.insert_noDeadEnds h b.keys b.target

/-- With nothing longer bound, a buffer does not go on. -/
theorem bindAll_goesBeyond_eq_false {bindings : List Binding} {mode : MapMode} {buffer : Keys}
    (h : ∀ more, more ≠ [] → (bindAll {} bindings).get? mode (buffer ++ more) = none) :
    ((bindAll {} bindings).trie mode).goesBeyond buffer = false := by
  by_contra hgoes
  obtain ⟨more, target, hmore, htarget⟩ :=
    Trie.exists_get?_of_goesBeyond (bindAll_noDeadEnds bindings mode) (Bool.not_eq_false _ ▸ hgoes)
  cases (h more hmore).symm.trans htarget

end Keymap

end ModalEdit
