import ModalEdit.Proofs.BoundSequence
import ModalEdit.Proofs.EscapeLaw
import ModalEdit.Proofs.TextPieces

/-!
Typing in the insert mode. Each character that is typed goes in at every caret, and Backspace takes
one back at every caret (`TakesText.type`, `TakesText.backspace`), which makes the pieces that the
carets cut the text into longer and shorter. So typing puts one copy of what is typed in at each
place where there is a caret, with the caret behind its own, and as many strokes of Backspace undo
it (`typing_inserts_at_carets`).
-/

set_option autoImplicit false
set_option relaxedAutoImplicit false

namespace ModalEdit

/-! ### Bindings -/

namespace Keymap

/-- A stroke with which no binding of a mode begins is bound to nothing. -/
theorem bindAll_resolve_unmapped {bindings : List Binding} {mode : MapMode} {stroke : KeyStroke}
    (h : ∀ b ∈ bindings, mode ∈ b.modes → b.keys.head? ≠ some stroke) :
    (bindAll {} bindings).resolve mode [stroke] = .unmapped := by
  have hnone : ((bindAll {} bindings).trie mode).follow stroke = none := by
    refine bindAll_trie_keeps (P := fun t ↦ t.follow stroke = none) (by cases mode <;> rfl) ?_
    intro b hb hmode t ht
    rw [Trie.follow_insert_of_ne (h b hb hmode)]
    exact ht
  show Trie.resolve _ [stroke] = _
  simp only [Trie.resolve, Trie.longest?, Trie.goesBeyond, hnone]
  rfl

theorem standardBindings_typing : ∀ b ∈ standardBindings, ∀ mode ∈ [MapMode.insert, .select],
    mode ∈ b.modes → b.keys.head?.bind KeyStroke.typedChar? = none := by
  decide +kernel

theorem resolve_char_of_bindings {bindings : List Binding} (hsub : bindings ⊆ standardBindings)
    {mode : MapMode} (htyping : mode ∈ [MapMode.insert, .select]) (c : Char) :
    (bindAll {} bindings).resolve mode [.char c] = .unmapped := by
  refine bindAll_resolve_unmapped fun b hb hmode hhead ↦ ?_
  have hnone := standardBindings_typing b (hsub hb) mode htyping hmode
  rw [hhead] at hnone
  cases hnone

end Keymap

namespace Session

/-- The bindings and actions of the default, with both extensions or without. -/
def StandardBindings (s : Session) : Prop :=
  s.keymap = .standard ∧ s.registry = .standard ∨ s.keymap = .default ∧
    s.registry = Builtin.registry

/-- The session is in the insert mode, and nothing has been reported or typed of a command. -/
structure TakesText (s : Session) : Prop where
  bindings : s.StandardBindings
  idle : s.resolver.hasPending = false
  input : s.resolver.input = []
  mode : s.mode = .insert
  reported : s.editor.reported = []

variable {s : Session}

/-- Plain characters are bound to nothing where they are typed. -/
theorem StandardBindings.resolve_char (h : s.StandardBindings) {mode : MapMode}
    (htyping : mode ∈ [MapMode.insert, .select]) (c : Char) :
    s.keymap.resolve mode [.char c] = .unmapped := by
  rcases h with ⟨h, -⟩ | ⟨h, -⟩
  · rw [h]
    exact Keymap.resolve_char_of_bindings (List.Subset.refl _) htyping c
  · rw [h]
    exact Keymap.resolve_char_of_bindings (List.subset_append_left _ _) htyping c

theorem StandardBindings.resolve_backspace (h : s.StandardBindings) :
    s.keymap.resolve .insert [{ code := .backspace }] =
      .matched 1 (.action ActionId.insertBackspace) false := by
  refine Trie.resolve_of_follow ?_
  rcases h with ⟨h, -⟩ | ⟨h, -⟩
  · rw [h]
    decide +kernel
  · rw [h]
    decide +kernel

theorem StandardBindings.get?_backspace (h : s.StandardBindings) :
    s.registry.get? ActionId.insertBackspace =
    some (Builtin.change ActionId.insertBackspace EditState.backspace) := by
  rcases h with ⟨-, h⟩ | ⟨-, h⟩
  · rw [h]
    exact Registry.standard_get?_of_mem (a := Builtin.change ActionId.insertBackspace
      EditState.backspace)
      (by simp [Builtin.actions, Builtin.typing])
  · rw [h]
    exact Registry.ofList_get?_of_mem (a := Builtin.change ActionId.insertBackspace
      EditState.backspace)
      (by decide +kernel) (by simp [Builtin.actions, Builtin.typing])

end Session

/-! ### One stroke -/

namespace Resolver

variable {keymap : Keymap} {registry : Registry} {stroke : KeyStroke}

/-- A resolver of which nothing is held reads a stroke as a new one does. -/
theorem fresh_of_idle {r : Resolver} (h : r.hasPending = false) (hinput : r.input = []) :
    { r with mapDepth := 0 } = ({} : Resolver) := by
  obtain ⟨hpending, hoperator, hawaiting⟩ := hasPending_eq_false_iff.mp h
  rw [hpending, hoperator, hawaiting, hinput]

theorem takesCounts_of_isTextEntry {mode : Mode} (h : mode.isTextEntry = true) :
    takesCounts mode = false := by
  cases mode <;> first | rfl | cases h

/-- Where text is typed a stroke that is bound to nothing is text. -/
theorem feed_of_unmapped {mode : Mode} (hentry : mode.isTextEntry = true) (hne : stroke ≠ .escape)
    (h : keymap.resolve (.ofMode mode) [stroke] = .unmapped) :
    feed {} stroke mode keymap registry = (.unmapped [stroke], {}) := by
  have hbuffers : buffers {} stroke mode = true := buffers_of_ne hne rfl rfl fun htakes ↦ by
    cases htakes.symm.trans (takesCounts_of_isTextEntry hentry)
  rw [feed_of_buffers keymap registry hbuffers]
  refine buffer_cases (motive := fun result ↦ result = _) {} mode keymap registry stroke ?wait
    ?take ?leave
  case wait =>
    rintro (hmore | ⟨_, _, hmore⟩) <;> cases h.symm.trans hmore
  case take =>
    intro _ _ htake
    cases h.symm.trans htake
  case leave =>
    intro _
    exact giveUp_of_typed (r := push {} stroke) rfl hentry rfl

/-- In the insert mode a stroke that is bound to an action is a command. -/
theorem feed_of_command (hne : stroke ≠ .escape) {id : ActionId} {spec : ActionSpec}
    (h : keymap.resolve .insert [stroke] = .matched 1 (.action id) false)
    (hget : registry.get? id = some spec) (hkind : spec.handler.kind = .other) :
    ∃ command : Command, command.action = spec.id ∧
      feed {} stroke .insert keymap registry = (.resolved command, {}) := by
  have hbuffers : buffers {} stroke .insert = true := buffers_of_ne hne rfl rfl fun htakes ↦ by
    cases htakes
  rw [feed_of_buffers keymap registry hbuffers, buffer_of_matched (r := {}) registry h]
  exact ⟨_, rfl, (accept_whole {} [stroke] id .insert).trans
    (acceptAction_of_other hget hkind rfl [stroke] _)⟩

end Resolver

namespace Session

variable {s : Session}

/-- A stroke that leaves nothing to be read is acted on. -/
theorem handleKey_of_feed (hinput : s.resolver.input = []) (hreported : s.editor.reported = [])
    {stroke : KeyStroke} {outcome : Outcome} {after : Resolver}
    (hfeed : Resolver.feed { s.resolver with mapDepth := 0 } stroke s.mode s.keymap s.registry =
      (outcome, after)) (hafter : after.input = []) :
    (s.handleKey stroke).2 = (s.act (outcome, after)).2 := by
  have hread : (s.pump.enqueue stroke).readNext = (s.act (outcome, after)).2 := by
    rw [pump_of_reported_nil hreported]
    have hqueue : (s.enqueue stroke).resolver.input = [stroke] := by
      rw [enqueue_input, hinput, List.nil_append]
    rw [readNext_of_cons hqueue]
    show ((s.enqueue stroke).act ((s.resolver.enqueue stroke).afterRead.feed stroke s.mode s.keymap
      s.registry)).2 = _
    rw [(Resolver.afterRead_enqueue hinput stroke).2, hfeed]
    rfl
  rw [handleKey_of_read (by rw [hread]; exact hafter), hread]

/-- A character that no binding takes is typed. -/
theorem handleKey_of_unmapped (hidle : s.resolver.hasPending = false) (hinput : s.resolver.input = [])
    (hreported : s.editor.reported = []) (hentry : s.mode.isTextEntry = true) {c : Char}
    (hfree : s.keymap.resolve (.ofMode s.mode) [.char c] = .unmapped) :
    (s.handleKey (.char c)).2 =
      { s with resolver := {}, edit := (s.edit.guarded fun t ↦ t.typeKeys [.char c]).2 } := by
  have hne : KeyStroke.char c ≠ .escape := by simp [KeyStroke.char, KeyStroke.escape]
  have hunlocked : s.edit.syncOperatorMode false = s.edit := by
    refine EditState.syncOperatorMode_of_ne fun hpending ↦ ?_
    rw [show s.mode = .operatorPending from hpending] at hentry
    cases hentry
  have hfeed : Resolver.feed { s.resolver with mapDepth := 0 } (.char c) s.mode s.keymap s.registry =
      (.unmapped [.char c], {}) := by
    rw [Resolver.fresh_of_idle hidle hinput]
    exact Resolver.feed_of_unmapped hentry hne hfree
  have hdone : (s.edit.apply s.registry s.options false (.unmapped [.char c])).2 =
      (s.edit.guarded fun t ↦ t.typeKeys [.char c]).2 := by
    rw [EditState.apply, hunlocked]
    dsimp only
    rw [if_pos (show s.edit.mode.isTextEntry = true from hentry)]
  rw [handleKey_of_feed hinput hreported hfeed rfl]
  exact congrArg (fun edit : EditState ↦ { s with resolver := {}, edit }) hdone

theorem TakesText.entry (h : s.TakesText) : s.mode.isTextEntry = true := by
  rw [h.mode]
  rfl

theorem TakesText.handleKey (h : s.TakesText) {stroke : KeyStroke} {outcome : Outcome}
    (hfeed : Resolver.feed {} stroke .insert s.keymap s.registry = (outcome, {})) :
    (s.handleKey stroke).2 =
      { s with resolver := {}, edit := (s.edit.apply s.registry s.options false outcome).2 } := by
  refine handleKey_of_feed h.input h.reported ?_ rfl
  rwa [Resolver.fresh_of_idle h.idle h.input, h.mode]

/-- What a stroke does with the mode as it is leaves the session ready for more text. -/
theorem TakesText.next (h : s.TakesText) {f : EditState → EditState}
    (hmodes : ∀ t, (f t).modes = t.modes) (hedits : ∀ t, EditState.Edits t (f t)) :
    TakesText { s with resolver := {}, edit := s.edit.guardedChange f } where
  bindings := h.bindings
  idle := rfl
  input := rfl
  mode := (congrArg ModeMachine.mode (hmodes s.edit.prepared)).trans h.mode
  reported := (EditState.guarded_unheard (f := fun t ↦ ((), f t)) s.edit
    (EditState.Steps.edits_orderly (hedits s.edit.prepared))).reported.trans h.reported

theorem TakesText.type (h : s.TakesText) (c : Char) : (s.handleKey (.char c)).2 =
    { s with resolver := {}, edit := s.edit.guardedChange (·.insertAtCarets [c]) } := by
  have hfree : s.keymap.resolve (.ofMode s.mode) [.char c] = .unmapped := by
    rw [h.mode]
    exact h.bindings.resolve_char List.mem_cons_self c
  have htype (t : EditState) (hmode : t.mode = .insert) :
      t.typeKeys [.char c] = (.executed, t.insertAtCarets [c]) := by
    unfold EditState.typeKeys
    rw [hmode]
    rfl
  rw [handleKey_of_unmapped h.idle h.input h.reported h.entry hfree]
  show Session.mk _ _ _ _ _ ((s.edit.prepared.typeKeys [.char c]).2.unlock s.edit.lock.1) = _
  rw [htype s.edit.prepared h.mode]
  rfl

theorem TakesText.backspace (h : s.TakesText) : (s.handleKey { code := .backspace }).2 =
    { s with resolver := {}, edit := s.edit.guardedChange EditState.backspace } := by
  obtain ⟨command, haction, hfeed⟩ :=
    Resolver.feed_of_command (show ({ code := .backspace } : KeyStroke) ≠ .escape by decide)
    h.bindings.resolve_backspace h.bindings.get?_backspace rfl
  have hget : s.registry.get? command.action =
      some (Builtin.change command.action EditState.backspace) := by
    rw [haction]
    exact h.bindings.get?_backspace
  have hunlocked : s.edit.syncOperatorMode false = s.edit := by
    refine EditState.syncOperatorMode_of_ne ?_
    rw [show s.edit.mode = .insert from h.mode]
    exact Mode.noConfusion
  rw [h.handleKey hfeed]
  unfold EditState.apply
  rw [hunlocked]
  show Session.mk _ _ _ _ _ (s.edit.guarded fun t ↦ t.execute s.registry s.options command).2 = _
  rw [funext fun t ↦ EditState.execute_of_change hget t s.options]
  rfl

/-! ### Any number of strokes -/

open EditState (Cut Ready ready_of_ne_nil)

variable {order : List CaretId} {piece : CaretId → Text} {tail : Text}

/-- All that is typed goes to the end of each piece. -/
theorem TakesText.typeAll (h : s.TakesText) (hcut : Cut s.edit order piece tail)
    (hready : Ready order piece s.edit.prepared.syncCarets.carets.orderedByOffset) (typed : Text) :
    (s.handleAll (typed.map .char)).2.TakesText ∧
      Cut (s.handleAll (typed.map .char)).2.edit order (fun caret ↦ piece caret ++ typed) tail := by
  induction typed generalizing s piece with
  | nil => exact ⟨h, hcut.congr fun caret _ ↦ List.append_nil _⟩
  | cons c rest ih =>
    have hmodes (t : EditState) : (t.insertAtCarets [c]).modes = t.modes :=
      EditState.forCarets_modes (fun caret t ↦ by split <;> rfl) t
    have hnext := h.next hmodes fun t ↦ t.insertAtCarets_edits [c]
    have hlonger := ((hcut.withGuard s.edit.lock.2.editor.guard).syncCarets.insertAtCarets hready
      (List.cons_ne_nil c [])).withGuard (s.edit.guardedChange (·.insertAtCarets [c])).editor.guard
    rw [List.map_cons, handleAll_cons, h.type]
    obtain ⟨htakes, hcopies⟩ := ih hnext hlonger
      (ready_of_ne_nil (fun caret _ ↦ List.append_ne_nil_of_right_ne_nil _ (List.cons_ne_nil c []))
        _)
    exact ⟨htakes, hcopies.congr fun caret _ ↦ by simp⟩

/-- As much as was typed can be taken back. -/
theorem TakesText.eraseAll (typed : Text) (h : s.TakesText)
    (hcut : Cut s.edit order (fun caret ↦ piece caret ++ typed) tail) :
    Cut (s.handleAll (List.replicate typed.length { code := .backspace })).2.edit order piece
      tail := by
  induction typed using List.reverseRecOn generalizing s with
  | nil => exact hcut.congr fun caret _ ↦ (List.append_nil _).symm
  | append_singleton front last ih =>
    have hmodes (t : EditState) : t.backspace.modes = t.modes :=
      EditState.forCarets_modes (fun caret t ↦ by split <;> rfl) t
    have hnext := h.next hmodes EditState.backspace_edits
    have hmode : s.edit.prepared.mode ≠ .replace := by
      rw [show s.edit.prepared.mode = .insert from h.mode]
      exact Mode.noConfusion
    have hshorter := ((hcut.withGuard s.edit.lock.2.editor.guard).syncCarets.backspace hmode
      fun caret _ ↦ by simp).withGuard (s.edit.guardedChange EditState.backspace).editor.guard
    have hdropped (caret : CaretId) :
        piece caret ++ front = (piece caret ++ (front ++ [last])).dropLast := by
      rw [← List.append_assoc, List.dropLast_concat]
    rw [List.length_append, List.length_singleton, List.replicate_succ, handleAll_cons, h.backspace]
    exact ih hnext (hshorter.congr fun caret _ ↦ hdropped caret)

end Session

/-- Typed in the insert mode under the default bindings, at carets that may be anywhere and may
meet, plain characters go in once at each place where a caret was. With the carets in the order in
which they then stand, the copy of the `i`-th lies right before it, behind those of the carets
before; and as many strokes of Backspace bring back the text and every caret. -/
theorem Session.typing_inserts_at_carets {s : Session} (hbindings : s.StandardBindings)
    (hidle : s.resolver.hasPending = false) (hinput : s.resolver.input = [])
    (hmode : s.mode = .insert) (hreported : s.editor.reported = []) (hanchored : s.edit.Anchored)
    (typed : Text) :
    let after := (s.handleAll (typed.map .char)).2
    let back := (after.handleAll (List.replicate typed.length { code := .backspace })).2
    (∃ placed : List (CaretId × Nat),
      (placed.map (·.1)).Perm s.editor.caretIds ∧
      (∀ entry ∈ placed, s.editor.caretOffset? entry.1 = some entry.2) ∧
      placed.Pairwise (fun first second ↦ first.2 ≤ second.2) ∧
      after.editor.text = placed.foldr (fun entry t ↦ t.insert entry.2 typed) s.editor.text ∧
      ∀ i (h : i < placed.length),
        after.editor.caretOffset? placed[i].1 = some (placed[i].2 + (i + 1) * typed.length) ∧
        after.editor.text.slice (placed[i].2 + i * typed.length)
          (placed[i].2 + (i + 1) * typed.length) = typed) ∧
    back.editor.text = s.editor.text ∧ back.editor.caretIds.Perm s.editor.caretIds ∧
      ∀ caret, back.editor.caretOffset? caret = s.editor.caretOffset? caret := by
  intro after back
  have htakes : s.TakesText := ⟨hbindings, hidle, hinput, hmode, hreported⟩
  obtain ⟨order, piece, tail, hcut, hready⟩ := EditState.exists_cut hanchored
    (EditState.orderedByOffset_perm (s := s.edit.prepared)
      ⟨hanchored.editor.of_buffer rfl rfl rfl, hanchored.carets.sync _⟩)
  obtain ⟨hafter, hcopies⟩ := htakes.typeAll hcut hready typed
  have hback : EditState.Cut back.edit order piece tail := hafter.eraseAll typed hcopies
  obtain ⟨offset, hoffset, hsorted, hends⟩ := hcut.exists_offsets
  obtain ⟨htext, hplaces⟩ := hcut.same hback
  refine ⟨⟨order.map fun caret ↦ (caret, offset caret), ?_, List.forall_mem_map.mpr hoffset,
    List.pairwise_map.mpr hsorted, ?_, fun i hi ↦ ?_⟩, htext, hback.carets.symm.trans hcut.carets,
    hplaces⟩
  · rw [List.map_map]
    exact (List.map_id order).symm ▸ hcut.carets
  · have hcopied := EditState.foldr_insert order piece [] tail typed (by simpa using hends)
    rw [List.nil_append, List.nil_append, ← hcut.text] at hcopied
    rw [List.foldr_map]
    exact hcopies.text.trans hcopied.symm
  · have hlt : i < order.length := by rwa [List.length_map] at hi
    have hsplit : order = order.take i ++ order[i] :: order.drop (i + 1) := by
      rw [← List.drop_eq_getElem_cons, List.take_append_drop]
    have hcopy := hcut.copies hcopies hsplit (hoffset _ (List.getElem_mem hlt))
    rw [List.length_take, Nat.min_eq_left hlt.le] at hcopy
    rw [List.getElem_map]
    exact hcopy

/-- Two carets that meet and a third each get their own copy. -/
theorem Session.typing_where_carets_meet :
    let s : Session :=
      { keymap := .standard, registry := .standard
        edit :=
          { editor := .ofMarked ⟨"abc\n".toList, [1, 1, 2], []⟩, modes := { mode := .insert } } }
    let typed := "xy".toList
    let after := (s.handleAll (typed.map .char)).2
    let back := (after.handleAll (List.replicate typed.length { code := .backspace })).2
    (s.StandardBindings ∧ s.resolver.hasPending = false ∧ s.resolver.input = [] ∧ s.mode = .insert ∧
      s.editor.reported = [] ∧ s.edit.Anchored) ∧
    (∃ placed : List (CaretId × Nat),
      (placed.map (·.1)).Perm s.editor.caretIds ∧
      (∀ entry ∈ placed, s.editor.caretOffset? entry.1 = some entry.2) ∧
      placed.Pairwise (fun first second ↦ first.2 ≤ second.2) ∧
      after.editor.text = placed.foldr (fun entry t ↦ t.insert entry.2 typed) s.editor.text ∧
      ∀ i (h : i < placed.length),
        after.editor.caretOffset? placed[i].1 = some (placed[i].2 + (i + 1) * typed.length) ∧
        after.editor.text.slice (placed[i].2 + i * typed.length)
          (placed[i].2 + (i + 1) * typed.length) = typed) ∧
    back.editor.text = s.editor.text ∧ back.editor.caretIds.Perm s.editor.caretIds ∧
      ∀ caret, back.editor.caretOffset? caret = s.editor.caretOffset? caret := by
  intro s typed
  have hbindings : s.StandardBindings := .inl ⟨by with_reducible rfl, by with_reducible rfl⟩
  have hreported : s.editor.reported = [] := by
    show Editor.reported (.ofMarked ⟨"abc\n".toList, [1, 1, 2], []⟩) = []
    decide +kernel
  have hanchored : s.edit.Anchored :=
    ⟨Editor.ofMarked_anchored ⟨"abc\n".toList, [1, 1, 2], []⟩, List.nodup_nil⟩
  exact ⟨⟨hbindings, rfl, rfl, rfl, hreported, hanchored⟩,
    typing_inserts_at_carets hbindings rfl rfl rfl hreported hanchored typed⟩

end ModalEdit
