import Mathlib.Data.List.Induction
import ModalEdit.Proofs.FirstBinding

/-!
Bindings made for several modes at once. In each of its modes a binding is one insertion, and in the others
nothing (`Keymap.trie_bind`), so made again it changes nothing at all, down to the edges of the tries
(`Keymap.bind_bind`), and its outcome can be told from what the modes held before
(`Keymap.bind_fst_eq_added_iff`, `Keymap.bind_fst_eq_alreadyBound_iff`). Bindings that agree wherever two of
them meet leave a sequence with the target that any of them has for it (`Keymap.get?_bindAll_eq_some_iff`).
What a trie says of a buffer can be read off the sequences that are bound in it (`Trie.Resolves.unique`), so
the order of such bindings shows neither in what is bound nor in how buffers are taken
(`Keymap.bindAll_steady`).
-/

set_option autoImplicit false
set_option relaxedAutoImplicit false

namespace ModalEdit

namespace Trie

/-! ### Tries with the same sequences -/

section Resolves

variable {bound : Keys → Option Target} {buffer : Keys}

/-- The longest bound beginning of a buffer is one. -/
theorem Resolves.matched_unique {consumed consumed' : Nat} {target target' : Target}
    {ambiguous ambiguous' : Bool} (h : Resolves bound buffer (.matched consumed target ambiguous))
    (h' : Resolves bound buffer (.matched consumed' target' ambiguous')) :
    consumed = consumed' ∧ target = target' ∧ ambiguous = ambiguous' := by
  obtain ⟨hle, hbound, hlonger, hmore⟩ := h
  obtain ⟨hle', hbound', hlonger', hmore'⟩ := h'
  have hnot {n n' : Nat} {found : Target} (hn' : n' ≤ buffer.length)
      (hfound : bound (buffer.take n') = some found)
      (hnone : ∀ front, front <+: buffer → n < front.length → bound front = none) : n' ≤ n := by
    refine Nat.le_of_not_lt fun hlt ↦ ?_
    have hlength : n < (buffer.take n').length := by
      rw [List.length_take]
      omega
    cases hfound.symm.trans (hnone _ (List.take_prefix n' buffer) hlength)
  obtain rfl : consumed = consumed' :=
    Nat.le_antisymm (hnot hle hbound hlonger') (hnot hle' hbound' hlonger)
  exact ⟨rfl, Option.some.inj (hbound.symm.trans hbound'), Bool.eq_iff_iff.mpr (hmore.trans hmore'.symm)⟩

/-- A buffer is taken in one way only. -/
theorem Resolves.unique {r r' : Resolution} (h : Resolves bound buffer r) (h' : Resolves bound buffer r') :
    r = r' := by
  have hnever {consumed : Nat} {target : Target} {ambiguous : Bool}
      (hmatched : Resolves bound buffer (.matched consumed target ambiguous))
      (hnone : ∀ front, front <+: buffer → bound front = none) : False := by
    cases hmatched.2.1.symm.trans (hnone _ (List.take_prefix consumed buffer))
  cases r with
  | matched consumed target ambiguous =>
    cases r' with
    | matched consumed' target' ambiguous' =>
      obtain ⟨rfl, rfl, rfl⟩ := h.matched_unique h'
      rfl
    | needMore => exact (hnever h h'.1).elim
    | unmapped => exact (hnever h h'.1).elim
  | needMore =>
    cases r' with
    | matched consumed' target' ambiguous' => exact (hnever h' h.1).elim
    | needMore => rfl
    | unmapped => exact absurd h.2 h'.2
  | unmapped =>
    cases r' with
    | matched consumed' target' ambiguous' => exact (hnever h' h.1).elim
    | needMore => exact absurd h'.2 h.2
    | unmapped => rfl

/-- Where the same sequences are bound and no edge leads nowhere, every buffer is taken alike. -/
theorem resolve_eq_of_get? {t t' : Trie} (h : t.NoDeadEnds) (h' : t'.NoDeadEnds) (hget : t.get? = t'.get?)
    (buffer : Keys) : t.resolve buffer = t'.resolve buffer := by
  have hresolves := resolve_resolves h buffer
  rw [hget] at hresolves
  exact hresolves.unique (resolve_resolves h' buffer)

end Resolves

/-- A second insertion of a sequence changes nothing, whatever its target. -/
theorem insert_insert (t : Trie) (keys : Keys) (target other : Target) :
    ((t.insert keys target).2.insert keys other).2 = (t.insert keys target).2 := by
  by_cases hnil : keys = []
  · rw [hnil]
    rfl
  · have hheld : (t.insert keys target).2.get? keys = some ((t.get? keys).getD target) := by
      rw [get?_insert, if_pos ⟨rfl, hnil⟩]
    exact insert_of_get? other hheld

end Trie

namespace Keymap

variable {m : Keymap} {modes : List MapMode} {mode : MapMode} {keys : Keys} {target : Target}

/-! ### One binding -/

theorem ext_trie {m m' : Keymap} (h : ∀ mode, m.trie mode = m'.trie mode) : m = m' := by
  obtain ⟨_, _, _, _, _, _⟩ := m
  obtain ⟨_, _, _, _, _, _⟩ := m'
  exact Keymap.mk.injEq .. ▸ ⟨h .normal, h .visual, h .select, h .operatorPending, h .insert, h .commandLine⟩

/-- One mode more is one insertion more. -/
theorem bind_concat (m : Keymap) (modes : List MapMode) (mode : MapMode) (keys : Keys) (target : Target) :
    m.bind (modes ++ [mode]) keys target =
      (combine (m.bind modes keys target).1
          (((m.bind modes keys target).2.trie mode).insert keys target).1,
        (m.bind modes keys target).2.setTrie mode
          (((m.bind modes keys target).2.trie mode).insert keys target).2) := by
  rw [bind, List.foldl_concat]
  rfl

theorem trie_bind (m : Keymap) (modes : List MapMode) (keys : Keys) (target : Target) (mode : MapMode) :
    (m.bind modes keys target).2.trie mode =
      if mode ∈ modes then ((m.trie mode).insert keys target).2 else m.trie mode := by
  induction modes using List.reverseRecOn with
  | nil => rfl
  | append_singleton modes changed ih =>
    rw [bind_concat]
    dsimp only
    rw [trie_setTrie]
    by_cases hchanged : changed = mode
    · subst hchanged
      rw [if_pos rfl, if_pos (List.mem_append_right modes List.mem_cons_self), ih]
      -- a mode that is named twice has the binding already
      split
      case isTrue => exact (m.trie changed).insert_insert keys target target
      case isFalse => rfl
    · have hmem : mode ∈ modes ++ [changed] ↔ mode ∈ modes := by
        rw [List.mem_append, List.mem_singleton]
        exact or_iff_left (Ne.symm hchanged)
      rw [if_neg hchanged, ih]
      exact if_congr hmem.symm rfl rfl

theorem get?_bind (m : Keymap) (modes : List MapMode) (bound : Keys) (target : Target) (mode : MapMode)
    (keys : Keys) : (m.bind modes bound target).2.get? mode keys =
      if mode ∈ modes ∧ keys = bound ∧ bound ≠ [] then some ((m.get? mode keys).getD target)
      else m.get? mode keys := by
  rw [get?, trie_bind, get?]
  by_cases hmode : mode ∈ modes
  · rw [if_pos hmode, Trie.get?_insert]
    exact if_congr (by rw [and_iff_right hmode]) rfl rfl
  · rw [if_neg hmode, if_neg fun h ↦ hmode h.1]

/-- Whatever a binding has come to, made again it leaves the keymap as it is, and so does another target. -/
theorem bind_bind (m : Keymap) (modes : List MapMode) (keys : Keys) (target other : Target) :
    ((m.bind modes keys target).2.bind modes keys other).2 = (m.bind modes keys target).2 := by
  refine ext_trie fun mode ↦ ?_
  rw [trie_bind, trie_bind]
  split
  case isTrue => exact (m.trie mode).insert_insert keys target other
  case isFalse => rfl

/-! ### Its outcome -/

theorem combine_eq_added_iff {first second : BindOutcome} :
    combine first second = .added ↔ first = .added ∨ second = .added := by
  cases first <;> cases second <;> simp [combine]

theorem combine_eq_alreadyBound_iff {first second : BindOutcome} :
    combine first second = .alreadyBound ↔ first = .alreadyBound ∧ second = .alreadyBound := by
  cases first <;> cases second <;> simp [combine]

theorem insert_fst_eq_added_iff : ((m.trie mode).insert keys target).1 = .added ↔
    keys ≠ [] ∧ m.get? mode keys = none := by
  rw [Trie.insert_fst]
  by_cases hnil : keys = []
  · simp [hnil]
  · rw [if_neg hnil, Trie.outcomeOver_eq_added_iff, and_iff_right hnil]
    rfl

theorem insert_fst_eq_alreadyBound_iff : ((m.trie mode).insert keys target).1 = .alreadyBound ↔
    m.get? mode keys = some target := by
  rw [Trie.insert_fst, get?]
  by_cases hnil : keys = []
  · simp [hnil]
  · rw [if_neg hnil]
    cases (m.trie mode).get? keys with
    | none => simp [Trie.outcomeOver]
    | some held => simp [Trie.outcomeOver]

theorem bind_fst_eq_added_iff (m : Keymap) (modes : List MapMode) (keys : Keys) (target : Target) :
    (m.bind modes keys target).1 = .added ↔ keys ≠ [] ∧ ∃ mode ∈ modes, m.get? mode keys = none := by
  induction modes using List.reverseRecOn with
  | nil => simp [bind]
  | append_singleton modes mode ih =>
    rw [bind_concat]
    dsimp only
    simp only [combine_eq_added_iff, ih, insert_fst_eq_added_iff, List.mem_append, List.mem_singleton,
      or_and_right, exists_or, exists_eq_left]
    rw [← and_or_left]
    refine and_congr_right fun hne ↦ ?_
    rw [get?_bind]
    by_cases hmode : mode ∈ modes
    · rw [if_pos ⟨hmode, rfl, hne⟩, or_iff_left (Option.some_ne_none _)]
      exact (or_iff_left_of_imp fun hnone ↦ ⟨mode, hmode, hnone⟩).symm
    · rw [if_neg fun h ↦ hmode h.1]

theorem bind_fst_eq_alreadyBound_iff (m : Keymap) (modes : List MapMode) (keys : Keys) (target : Target) :
    (m.bind modes keys target).1 = .alreadyBound ↔ ∀ mode ∈ modes, m.get? mode keys = some target := by
  induction modes using List.reverseRecOn with
  | nil => simp [bind]
  | append_singleton modes mode ih =>
    rw [bind_concat]
    dsimp only
    rw [combine_eq_alreadyBound_iff, ih, insert_fst_eq_alreadyBound_iff, get?_bind,
      List.forall_mem_append, List.forall_mem_singleton]
    refine and_congr_right fun hall ↦ ?_
    by_cases hmode : mode ∈ modes
    · rw [hall mode hmode]
      split
      case isTrue => rfl
      case isFalse => rfl
    · rw [if_neg fun h ↦ hmode h.1]

/-- In one of the modes at least the sequence stands for nothing, and for the target once it is bound. -/
def Gains (m : Keymap) (modes : List MapMode) (keys : Keys) (target : Target) : Prop :=
  ∃ mode ∈ modes, m.get? mode keys = none ∧ (m.bind modes keys target).2.get? mode keys = some target

/-- In one of the modes at least the sequence stands for another target, or it is empty. -/
def Refuses (m : Keymap) (modes : List MapMode) (keys : Keys) (target : Target) : Prop :=
  (∃ mode ∈ modes, ∃ held, m.get? mode keys = some held ∧ held ≠ target) ∨ keys = [] ∧ modes ≠ []

theorem gains_iff : m.Gains modes keys target ↔ keys ≠ [] ∧ ∃ mode ∈ modes, m.get? mode keys = none := by
  constructor
  · rintro ⟨mode, hmode, hnone, hbound⟩
    refine ⟨?_, mode, hmode, hnone⟩
    rintro rfl
    cases hbound.symm.trans (Trie.get?_nil _)
  · rintro ⟨hne, mode, hmode, hnone⟩
    exact ⟨mode, hmode, hnone, by rw [get?_bind, if_pos ⟨hmode, rfl, hne⟩, hnone, Option.getD_none]⟩

/-- With nothing gained, a binding is refused unless all its modes have it. -/
theorem refuses_iff (h : ¬m.Gains modes keys target) :
    m.Refuses modes keys target ↔ ¬∀ mode ∈ modes, m.get? mode keys = some target := by
  rw [gains_iff, not_and, not_exists] at h
  by_cases hnil : keys = []
  · subst hnil
    have hnone (mode : MapMode) : m.get? mode [] = none := Trie.get?_nil _
    simp only [Refuses, hnone]
    simp [List.eq_nil_iff_forall_not_mem]
  · rw [Refuses, or_iff_left fun hempty ↦ hnil hempty.1, not_forall]
    refine exists_congr fun mode ↦ ?_
    have hheld := h hnil mode
    rw [Classical.not_imp]
    refine and_congr_right fun hmode ↦ ?_
    cases hget : m.get? mode keys with
    | none => exact absurd ⟨hmode, hget⟩ hheld
    | some held => simp

/-- What a binding does: made again it changes nothing more, it leaves the tries of the other modes as
they are, and it is added if a mode gains it, else a conflict if a mode refuses it, else bound already. -/
structure BindsOnce (m : Keymap) (modes : List MapMode) (keys : Keys) (target : Target) : Prop where
  again : ((m.bind modes keys target).2.bind modes keys target).2 = (m.bind modes keys target).2
  elsewhere : ∀ mode, mode ∉ modes → (m.bind modes keys target).2.trie mode = m.trie mode
  added_iff : (m.bind modes keys target).1 = .added ↔ m.Gains modes keys target
  conflict_iff : (m.bind modes keys target).1 = .conflict ↔
    ¬m.Gains modes keys target ∧ m.Refuses modes keys target
  alreadyBound_iff : (m.bind modes keys target).1 = .alreadyBound ↔
    ¬m.Gains modes keys target ∧ ¬m.Refuses modes keys target

theorem bindsOnce (m : Keymap) (modes : List MapMode) (keys : Keys) (target : Target) :
    m.BindsOnce modes keys target := by
  have hadded : (m.bind modes keys target).1 = .added ↔ m.Gains modes keys target :=
    (m.bind_fst_eq_added_iff modes keys target).trans gains_iff.symm
  have hbound := m.bind_fst_eq_alreadyBound_iff modes keys target
  refine ⟨m.bind_bind modes keys target target, fun mode hmode ↦ ?_, hadded, ?_, ?_⟩
  · rw [trie_bind, if_neg hmode]
  · by_cases hgains : m.Gains modes keys target
    · rw [hadded.mpr hgains]
      simp [hgains]
    · rw [refuses_iff hgains, ← hbound]
      have hnot := mt hadded.mp hgains
      cases houtcome : (m.bind modes keys target).1 with
      | added => exact absurd houtcome hnot
      | alreadyBound => simp
      | conflict => simp [hgains]
  · by_cases hgains : m.Gains modes keys target
    · rw [hadded.mpr hgains]
      simp [hgains]
    · rw [refuses_iff hgains, not_not, ← hbound, and_iff_right hgains]

/-! ### Bindings in any order -/

/-- No sequence is given two targets in one mode. -/
def Agree (bindings : List Binding) : Prop :=
  ∀ b ∈ bindings, ∀ b' ∈ bindings, ∀ mode ∈ b.modes, mode ∈ b'.modes → b.keys = b'.keys → b.target = b'.target

instance (bindings : List Binding) : Decidable (Agree bindings) :=
  inferInstanceAs (Decidable (∀ b ∈ bindings, ∀ b' ∈ bindings, ∀ mode ∈ b.modes, mode ∈ b'.modes →
    b.keys = b'.keys → b.target = b'.target))

/-- The binding is for the sequence in the mode, and for this target. -/
def Brings (b : Binding) (mode : MapMode) (keys : Keys) (target : Target) : Prop :=
  mode ∈ b.modes ∧ keys = b.keys ∧ b.keys ≠ [] ∧ b.target = target

/-- What stands for a target keeps it, and what stands for nothing gets the one that is given to it. -/
theorem get?_bindAll_eq_some_iff (m : Keymap) {bindings : List Binding} (h : Agree bindings) (mode : MapMode)
    (keys : Keys) (target : Target) :
    (m.bindAll bindings).get? mode keys = some target ↔
      m.get? mode keys = some target ∨
        m.get? mode keys = none ∧ ∃ b ∈ bindings, Brings b mode keys target := by
  induction bindings generalizing m with
  | nil => simp [bindAll]
  | cons first rest ih =>
    have hrest : Agree rest := fun b hb b' hb' ↦
      h b (List.mem_cons_of_mem first hb) b' (List.mem_cons_of_mem first hb')
    have hstep : m.bindAll (first :: rest) =
        (m.bind first.modes first.keys first.target).2.bindAll rest := rfl
    rw [hstep, ih _ hrest, get?_bind, List.exists_mem_cons_iff]
    by_cases hfirst : mode ∈ first.modes ∧ keys = first.keys ∧ first.keys ≠ []
    · rw [if_pos hfirst]
      cases hheld : m.get? mode keys with
      | some held => simp
      | none =>
        -- all bindings for the sequence in this mode have the target of the first
        have hsame : (Brings first mode keys target ∨ ∃ b ∈ rest, Brings b mode keys target) ↔
            first.target = target := by
          constructor
          · rintro (hbrings | ⟨b, hb, hmode, hkeys, -, htarget⟩)
            · exact hbrings.2.2.2
            · rw [← htarget]
              exact h first List.mem_cons_self b (List.mem_cons_of_mem first hb) mode hfirst.1 hmode
                (hfirst.2.1.symm.trans hkeys)
          · exact fun htarget ↦ .inl ⟨hfirst.1, hfirst.2.1, hfirst.2.2, htarget⟩
        simp [hsame]
    · have hnot : ¬Brings first mode keys target := fun hbrings ↦
        hfirst ⟨hbrings.1, hbrings.2.1, hbrings.2.2.1⟩
      rw [if_neg hfirst, or_iff_right hnot]

theorem get?_bindAll_perm (m : Keymap) {bindings reordered : List Binding} (hperm : bindings.Perm reordered)
    (h : Agree bindings) (mode : MapMode) (keys : Keys) :
    (m.bindAll bindings).get? mode keys = (m.bindAll reordered).get? mode keys := by
  have hreordered : Agree reordered := fun b hb b' hb' ↦
    h b (hperm.mem_iff.mpr hb) b' (hperm.mem_iff.mpr hb')
  refine Option.ext fun target ↦ ?_
  rw [get?_bindAll_eq_some_iff m h, get?_bindAll_eq_some_iff m hreordered]
  refine or_congr_right (and_congr_right fun _ ↦ exists_congr fun b ↦ ?_)
  rw [hperm.mem_iff]

/-- After any bindings one more is made once and for its modes only, and further ones that agree can be
made in any order, for all that is found and for every buffer. -/
theorem bindAll_steady (made : List Binding) :
    (∀ modes keys target, (bindAll {} made).BindsOnce modes keys target) ∧
      ∀ bindings reordered, bindings.Perm reordered → Agree bindings → ∀ mode,
        (∀ keys, ((bindAll {} made).bindAll bindings).get? mode keys =
          ((bindAll {} made).bindAll reordered).get? mode keys) ∧
        ∀ buffer, ((bindAll {} made).bindAll bindings).resolve mode buffer =
          ((bindAll {} made).bindAll reordered).resolve mode buffer := by
  refine ⟨fun modes keys target ↦ bindsOnce _ modes keys target, fun bindings reordered hperm hagree mode ↦ ?_⟩
  have hget := get?_bindAll_perm (bindAll {} made) hperm hagree mode
  have hends (more : List Binding) : (((bindAll {} made).bindAll more).trie mode).NoDeadEnds := by
    rw [← bindAll_append]
    exact bindAll_noDeadEnds (made ++ more) mode
  exact ⟨hget, Trie.resolve_eq_of_get? (hends bindings) (hends reordered) (funext hget)⟩

/-- Two sequences of which one begins the other, bound in two orders: the keymaps take a buffer alike,
though they are not the same. -/
theorem beginnings_bound_in_two_orders :
    let longer : Binding := ⟨[.normal, .visual], Default.typed "gg", .action "top"⟩
    let other : Binding := ⟨[.visual, .select], Default.typed "x", .action "cut"⟩
    let shorter : Binding := ⟨[.visual], Default.typed "g", .remap (Default.typed "x")⟩
    [longer, other, shorter].Perm [other, shorter, longer] ∧ Agree [longer, other, shorter] ∧
      bindAll {} [longer, other, shorter] ≠ bindAll {} [other, shorter, longer] ∧
      (bindAll {} [longer, other, shorter]).resolve .visual (Default.typed "g") =
        (bindAll {} [other, shorter, longer]).resolve .visual (Default.typed "g") ∧
      (bindAll {} [longer, other, shorter]).resolve .visual (Default.typed "g") =
        .matched 1 (.remap (Default.typed "x")) true := by
  intro longer other shorter
  have hperm : [longer, other, shorter].Perm [other, shorter, longer] := by decide
  have hagree : Agree [longer, other, shorter] := by decide
  have hsteady := (bindAll_steady []).2 _ _ hperm hagree .visual
  exact ⟨hperm, hagree, by decide, hsteady.2 _, by decide⟩

end Keymap

end ModalEdit
