import ModalEdit.Proofs.LinewiseCommands

/-!
Text objects typed behind an operator. A count, the keys of an operator and those of an object are the
operator's command over the object (`TextObject.Bound.completes`), which with one caret acts on the span
that the object covers with this count (`Session.ReadsCommands.deletes_object`).
-/

set_option autoImplicit false
set_option relaxedAutoImplicit false

namespace ModalEdit

open Resolver (Completes)

/-- A text object is bound to its keys in the pending mode, and it is there. -/
structure TextObject.Bound (object : TextObject) (keys : Keys) (id : ActionId) (keymap : Keymap)
    (registry : Registry) : Prop where
  bound : keymap.get? .operatorPending keys = some (.action id) ∧
    (keymap.trie .operatorPending).goesBeyond keys = false
  no_escape : KeyStroke.escape ∉ keys
  first : ∀ first ∈ keys.head?, first.digit? = none ∧ first.typedChar? ≠ some '"'
  registered : registry.get? id = some (Builtin.textObject id object)

namespace OperatorKey

/-- The command of an operator over a text object. -/
def objectCommand (o : OperatorKey) (c : TypedCount) (keys : Keys) (id : ActionId)
    (object : TextObject) : Command :=
  (o.opening c).command { (Builtin.textObject id object).call with keys }

variable {o : OperatorKey} {keymap : Keymap} {registry : Registry} {object : TextObject} {keys : Keys}
  {id : ActionId}

/-- A count, the keys of an operator and those of an object are a command. -/
theorem Bound.completes_object (h : o.Bound keymap registry)
    (hobject : object.Bound keys id keymap registry) (c : TypedCount) :
    Completes keymap registry (·.modeOver .normal) (c.strokes ++ o.keys ++ keys) {}
      (.resolved (o.objectCommand c keys id object)) {} := by
  have hne : keys ≠ [] := by
    rintro rfl
    cases hobject.bound.1.symm.trans (Trie.get?_nil _)
  refine (h.waitsThrough c).completes (Resolver.completes_of_bound _ rfl rfl rfl (fun _ ↦ rfl) hne
    (.of_first rfl rfl hobject.no_escape hobject.first) hobject.bound.1 hobject.bound.2 ?_ rfl)
  have hkind : (Builtin.textObject id object).handler.kind = .textObject := rfl
  exact (o.opening c).accept_target hobject.registered (.inr hkind) rfl

theorem objectCommand_count (c : TypedCount) :
    max ((o.opening c).count?.getD 1) 1 = c.limited := by
  rw [← c.getD_kept?, ← c.product?_alone.1]
  rfl

end OperatorKey

namespace Session

variable {s : Session} {caret : CaretId} {offset : Nat} {object : TextObject} {keys : Keys}
  {id : ActionId}

/-- With one caret, the object that is typed behind the operator is taken out of the text. -/
theorem ReadsCommands.deletes_object (h : s.ReadsCommands) (hlone : s.edit.Lone caret offset)
    (hobject : object.Bound keys id s.keymap s.registry) (c : TypedCount) {r : TextRange}
    (hcovers : ∀ ctx : MotionContext, ctx.text = s.editor.text → ctx.offset = offset →
      ctx.count = c.limited → object ctx = some r)
    (hkind : r.kind = .characterwise) (hwithin : r.stop ≤ s.editor.text.length) :
    ∃ after : EditState, s.handleAll (c.strokes ++ OperatorKey.delete.keys ++ keys) =
        (.executed, { s with resolver := {}, edit := after }) ∧
      after.text = s.editor.text.erase r.start r.stop := by
  have haction : (OperatorKey.delete.objectCommand c keys id object).action =
      OperatorKey.delete.action := rfl
  obtain ⟨modes, hcoherent, -, hrun⟩ :=
    h.runs_operator ((h.bindings.bound .delete).completes_object hobject c) haction
  have hprepared := (hlone.withModes modes).prepared
  have hcompose := hprepared.compose (OperatorKey.delete.objectCommand c keys id object)
    OperatorKey.delete.body rfl hobject.registered fun state hstate ↦ by
      refine Operator.range?_of_textObject ?_ ?_ (hcovers _ rfl hstate ?_) _
      · rfl
      · rfl
      · exact OperatorKey.objectCommand_count c
  obtain ⟨e, htext, -, -, hafter, -⟩ := hprepared.syncCarets.operate hcoherent
    OperatorKey.delete.body_rewrites (OperatorKey.delete.objectCommand c keys id object).toActionCall r
  have herased (args : OperatorArgs) (hargs : args.range = r) :
      (OperatorKey.delete.body e args).2.text = e.text.erase r.start r.stop := by
    show (Operator.delete e args).2.text = _
    unfold Operator.delete
    dsimp only
    rw [hargs, hkind]
    rfl
  rw [herased _ (TextRange.within_eq_self hwithin), htext] at hafter
  refine ⟨((EditState.prepared { s.edit with modes }).syncCarets.operate
    (OperatorKey.delete.objectCommand c keys id object).toActionCall OperatorKey.delete.body
    [(caret, r)]).2.unlock (EditState.lock { s.edit with modes }).1, hrun.trans ?_, hafter⟩
  show s.ran {} (((EditState.prepared { s.edit with modes }).compose _ _ _).1,
    ((EditState.prepared { s.edit with modes }).compose _ _ _).2.unlock _) = _
  rw [hcompose]
  rfl

end Session

end ModalEdit
