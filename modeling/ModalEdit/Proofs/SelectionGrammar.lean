import ModalEdit.Proofs.CommandGrammar

/-!
What is typed with a selection. A key starts it, a count and a target extend it as a command of
their own, and the keys of an operator are a command too, which acts on it. The targets are those by
which a selection and an operator cover the same (`TypedTarget.Selectable`): text objects, and
motions to the end of a word or forward to a character.
-/

set_option autoImplicit false
set_option relaxedAutoImplicit false

namespace ModalEdit

open Resolver (Completes WaitsThrough waitsThrough_count waitsThrough_of_bound completes_of_bound
  completes_of_feed)

/-- The motions to the end of a word and forward to a character. -/
def ActionId.forwardToCharacter : List ActionId := [wordEnd, bigWordEnd, findForward, tillForward]

/-- Whether a target is a text object or one of the motions forward to a character. -/
def Target.selectable : Target → Bool
  | .action id => id ∈ ActionId.forwardToCharacter ∨
      (Registry.standard.get? id).any (·.handler.kind == .textObject)
  | .remap _ => false

/-- A text object, or a motion to the end of a word or forward to a character. -/
def TypedTarget.Selectable (t : TypedTarget) : Prop :=
  t.spec.handler.kind = .textObject ∨ t.spec.id ∈ ActionId.forwardToCharacter

theorem TypedTarget.Selectable.target {t : TypedTarget} (h : t.Selectable) :
    (Target.action t.spec.id).selectable = true := by
  refine decide_eq_true (h.symm.imp id fun hkind ↦ ?_)
  rw [t.registered, Option.any_some, hkind]
  rfl

/-! ### What is bound in the visual modes -/

namespace Keymap

/-- What is bound in the visual modes is in force and goes no further. -/
theorem visual_bindings :
    ∀ b ∈ standardBindings, MapMode.visual ∈ b.modes →
    standard.get? .visual b.keys = some b.target ∧
      (standard.trie .visual).goesBeyond b.keys = false := by
  decide +kernel

/-- The targets are bound in the visual modes as they are in the pending mode, by no digit first. -/
theorem selectable_bindings :
    ∀ b ∈ standardBindings, MapMode.operatorPending ∈ b.modes → b.target.selectable = true →
      MapMode.visual ∈ b.modes ∧ KeyStroke.escape ∉ b.keys ∧
        ∀ first ∈ b.keys.head?, first.digit? = none ∧ first.typedChar? ≠ some '"' := by
  decide +kernel

end Keymap

theorem TypedTarget.Selectable.bound {t : TypedTarget} (h : t.Selectable) :
    Keymap.standard.get? .visual t.keys = some (.action t.spec.id) ∧
      (Keymap.standard.trie .visual).goesBeyond t.keys = false ∧ KeyStroke.escape ∉ t.keys ∧
        ∀ first ∈ t.keys.head?, first.digit? = none ∧ first.typedChar? ≠ some '"' := by
  obtain ⟨b, hb, hmode, hkeys, htarget⟩ := Keymap.exists_binding_of_get? t.bound
  obtain ⟨hvisual, hfirst⟩ := Keymap.selectable_bindings b hb hmode (htarget ▸ h.target)
  obtain ⟨hget, hbeyond⟩ := Keymap.visual_bindings b hb hvisual
  rw [← hkeys, ← htarget]
  exact ⟨hget, hbeyond, hfirst⟩

theorem OperatorKey.visual_bound (o : OperatorKey) :
    Keymap.standard.get? .visual o.keys = some (.action o.action) ∧
      (Keymap.standard.trie .visual).goesBeyond o.keys = false := by
  have hall : ∀ o ∈ all, ∃ b ∈ Keymap.standardBindings, MapMode.visual ∈ b.modes ∧ b.keys = o.keys ∧
      b.target = .action o.action := by
    decide +kernel
  obtain ⟨b, hb, hmode, hkeys, htarget⟩ := hall o o.mem_all
  rw [← hkeys, ← htarget]
  exact Keymap.visual_bindings b hb hmode

/-! ### Commands on their own -/

/-- Before or after an operator, one count is what is kept of it. -/
theorem TypedCount.product?_alone (c : TypedCount) :
    c.product? {} = c.kept? ∧ product? {} c = c.kept? := by
  unfold product? kept?
  by_cases hdigits : c.digits = []
  · rw [if_pos hdigits, if_pos ⟨hdigits, rfl⟩, if_pos ⟨rfl, hdigits⟩]
    exact ⟨rfl, rfl⟩
  · rw [if_neg hdigits, if_neg fun h ↦ hdigits h.1, if_neg fun h ↦ hdigits h.2]
    show some (min (c.value * 1) maxCount) = _ ∧ some (min (1 * c.value) maxCount) = _
    rw [Nat.mul_one, Nat.one_mul]
    exact ⟨rfl, rfl⟩

namespace TypedTarget

variable (t : TypedTarget) (c : TypedCount)

/-- The command of a target with a count and no operator. -/
def command : Command := { t.call with rawCount := c.kept?, argument := none }

/-- In a visual mode a count and a target are a command. -/
theorem completes_command (h : t.Selectable) (kind : SelectionKind) :
    Completes .standard .standard (·.modeOver (.visual kind)) (c.strokes ++ t.strokes) {}
      (.resolved (t.command c)) {} := by
  obtain ⟨hbound, hbeyond, hescape, hfirst⟩ := h.bound
  obtain ⟨keys, spec, argument, hpending, hget, hkind, htakes, htyped⟩ := t
  have hcount : WaitsThrough .standard .standard (·.modeOver (.visual kind)) c.strokes {}
      { pending := { countBefore := c.kept? } } :=
    waitsThrough_count rfl c ⟨rfl, rfl, rfl, rfl, rfl⟩ rfl
  have hne : keys ≠ [] := by
    rintro rfl
    cases hpending.symm.trans (Trie.get?_nil _)
  have hbuffers : Resolver.Buffers { pending := { countBefore := c.kept? } } keys :=
    .of_first rfl rfl hescape hfirst
  have htotal (keys : Keys) : Resolver.counted { pending := { countBefore := c.kept? } }
      (Resolver.typedCall spec keys) = { spec.call with keys, rawCount := c.kept? } := by
    rw [Resolver.counted, c.totalCount_eq {} rfl rfl, c.product?_alone.1]
    rfl
  refine hcount.completes ?_
  cases argument with
  | none =>
    show Completes _ _ _ (keys ++ []) _ (.resolved { spec.call with
      keys := keys ++ [], rawCount := c.kept?, argument := none }) _
    rw [List.append_nil]
    refine completes_of_bound (.visual kind) rfl rfl rfl (fun _ ↦ rfl) hne hbuffers hbound hbeyond
      ?_ rfl
    rw [Resolver.accept_whole, Resolver.acceptAction_of_target hget hkind,
      if_neg (Bool.eq_false_iff.mp htakes)]
    show Resolver.complete _ (Resolver.counted { pending := { countBefore := c.kept? } } _) = _
    rw [htotal]
    rfl
  | some stroke =>
    have hchar : spec.flags.expectsChar = true := htakes
    obtain ⟨char, hstroke⟩ := Option.isSome_iff_exists.mp (htyped stroke rfl)
    have hkeys : WaitsThrough .standard .standard (·.modeOver (.visual kind)) keys
        { pending := { countBefore := c.kept? } }
        { awaitingChar := some { spec.call with keys, rawCount := c.kept? } } := by
      refine waitsThrough_of_bound (.visual kind) rfl rfl rfl (fun _ ↦ rfl) hne hbuffers hbound
        hbeyond ?_
        rfl
      rw [Resolver.accept_whole, Resolver.acceptAction_of_target hget hkind, if_pos hchar]
      show (_, Resolver.mk _ _ (some (Resolver.counted { pending := { countBefore := c.kept? } } _))
        _ _) = _
      rw [htotal]
      rfl
    have hawaiting :
        Resolver.awaitingChar { awaitingChar := some { spec.call with keys, rawCount := c.kept? } } =
          some { spec.call with keys, rawCount := c.kept? } := rfl
    have hcommand :
        TypedTarget.command ⟨keys, spec, some stroke, hpending, hget, hkind, htakes, htyped⟩ c =
          { spec.call with
            char := some char, keys := keys ++ [stroke], rawCount := c.kept?, argument := none } := by
      rw [← hstroke]
      rfl
    rw [hcommand]
    exact hkeys.completes (completes_of_feed rfl rfl
      (Resolver.feed_of_argument _ _ hawaiting hstroke) rfl)

end TypedTarget

/-- The command of an operator with no target. -/
def OperatorKey.command (o : OperatorKey) : Command := { o.call with argument := none }

/-- Where they are bound to it in the visual modes, the keys of an operator are a command. -/
theorem OperatorKey.completes_command_of_bound (o : OperatorKey) {registry : Registry} {keymap : Keymap}
    (hregistered : registry.get? o.action = Registry.standard.get? o.action)
    (hbound : keymap.get? .visual o.keys = some (.action o.action))
    (hbeyond : (keymap.trie .visual).goesBeyond o.keys = false) (kind : SelectionKind) :
    Completes keymap registry (·.modeOver (.visual kind)) o.keys {} (.resolved o.command) {} := by
  obtain ⟨spec, hspec, hkind, -, hcall⟩ := o.registered
  obtain ⟨hescape, hfirst⟩ := o.keys_first
  have hne : o.keys ≠ [] := by cases o <;> exact List.cons_ne_nil _ _
  refine completes_of_bound (.visual kind) rfl rfl rfl (fun _ ↦ rfl) hne
    (.of_first rfl rfl hescape hfirst)
    hbound hbeyond ?_ rfl
  rw [Resolver.accept_whole, Resolver.acceptAction_on_selection (hregistered.trans hspec) hkind _ rfl, hcall]
  rfl

/-- In a visual mode the keys of an operator are a command. -/
theorem OperatorKey.completes_command (o : OperatorKey) (kind : SelectionKind) :
    Completes .standard .standard (·.modeOver (.visual kind)) o.keys {}
      (.resolved o.command) {} :=
  o.completes_command_of_bound rfl o.visual_bound.1 o.visual_bound.2 kind

/-- The key that starts a selection is a command. -/
theorem completes_visualChar : Completes .standard .standard (·.modeOver .normal) [.char 'v'] {}
    (.resolved
      { kind := .other, action := ActionId.visualChar, keys := [.char 'v'], argument := none })
    {} := by
  have hbound : Keymap.standard.get? .normal [.char 'v'] = some (.action ActionId.visualChar) ∧
      (Keymap.standard.trie .normal).goesBeyond [.char 'v'] = false := by decide +kernel
  have hget : Registry.standard.get? ActionId.visualChar =
      some (Builtin.selecting ActionId.visualChar EditState.toggleVisual) :=
    Registry.standard_get?_of_mem (a := Builtin.selecting ActionId.visualChar
      EditState.toggleVisual)
      (by simp [Builtin.actions, Builtin.modeChanges])
  refine completes_of_bound .normal rfl rfl rfl (fun _ ↦ rfl) (List.cons_ne_nil _ _)
    (.of_first rfl rfl (by decide) (by decide)) hbound.1 hbound.2 ?_ rfl
  rw [Resolver.accept_whole, Resolver.acceptAction_of_other hget rfl rfl]
  rfl

end ModalEdit
