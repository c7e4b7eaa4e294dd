import ModalEdit.Proofs.AttunedInput
import ModalEdit.Proofs.IdleCommands
import ModalEdit.Proofs.Replay
import ModalEdit.Proofs.UnreadStrokes

/-!
Keys that report failure. The answer to a key is that to the last stroke that is read for it, and if nothing
comes of this one it has changed neither the text nor the registers. So what is left is what was done about
the strokes before it. A key that stands for no others is read alone (`Session.feed_leavesOnly`), and of an
operator and one stroke more the operator only waits (`Session.drain_operator`). It is otherwise with `~`,
which stands for a whole command and a motion after it: the command maps the case of characters
(`Session.drain_idle_of_toggled`, `Session.toggling_case_fails_after_edit`). The other ways for a stroke
before the last to do something need a gesture in the middle of a command
(`Session.failed_key_changes_nothing`).
-/

set_option autoImplicit false
set_option relaxedAutoImplicit false

namespace ModalEdit

/-! ### Turns of the reading loop -/

namespace Session

open EditState (SameContent)

variable {s : Session} {stroke : KeyStroke} {rest : Keys}

theorem StandardBindings.exists_bindings (h : s.StandardBindings) :
    ∃ bindings ⊆ Keymap.standardBindings, s.keymap = .bindAll {} bindings := by
  rcases h with ⟨hkeymap, -⟩ | ⟨hkeymap, -⟩
  · exact ⟨_, List.Subset.refl _, hkeymap⟩
  · exact ⟨_, List.subset_append_left _ _, hkeymap⟩

/-- While the resolver waits the mode follows it and nothing else is done. -/
theorem drain_of_pending {after : Resolver} (last : KeyOutcome)
    (hinput : s.resolver.input = stroke :: rest)
    (hfeed : s.resolver.afterRead.feed stroke s.mode s.keymap s.registry = (.pending, after)) :
    s.drain last = { s with
      resolver := after
      edit := s.edit.syncOperatorMode after.operatorPending }.drain .pending := by
  rw [drain_of_cons last hinput, readNext_of_cons hinput, hfeed]
  rfl

/-- If nothing comes of the last stroke to be read, the text and the registers stay. -/
theorem drain_idle (s : Session) (last : KeyOutcome) (hinput : s.resolver.input = stroke :: rest)
    (hread : (s.resolver.afterRead.feed stroke s.mode s.keymap s.registry).2.input = [])
    (hidle : (s.drain last).1.Idle) : SameContent s.edit (s.drain last).2.edit := by
  have hnext : s.drain last =
      s.act (s.resolver.afterRead.feed stroke s.mode s.keymap s.registry) := by
    rw [drain_of_cons last hinput, readNext_of_cons hinput, drain_of_nil _ hread]
  rw [hnext] at hidle ⊢
  exact s.edit.apply_idle hidle

/-- A single stroke that is left to be read hands nothing back, or stands for others. -/
theorem feed_leavesOnly (s : Session) (hbindings : s.StandardBindings)
    (hinput : s.resolver.input = [stroke]) (hgoes : s.resolver.pending.keys ≠ [] →
      (s.keymap.trie (.ofMode s.mode)).goesBeyond s.resolver.pending.keys = true) :
    s.resolver.afterRead.LeavesOnly s.keymap s.mode stroke
      (s.resolver.afterRead.feed stroke s.mode s.keymap s.registry) := by
  obtain ⟨bindings, hsub, hkeymap⟩ := hbindings.exists_bindings
  have hread : s.resolver.afterRead.input = [] := by
    show s.resolver.input.tail = []
    rw [hinput]
    rfl
  rw [hkeymap] at hgoes ⊢
  exact Resolver.feed_leavesOnly hsub hgoes hread

/-- With no operator waiting, waiting changes nothing but the resolver. -/
theorem drain_of_waiting {after : Resolver} (last : KeyOutcome)
    (hinput : s.resolver.input = stroke :: rest)
    (hfeed : s.resolver.afterRead.feed stroke s.mode s.keymap s.registry = (.pending, after))
    (hne : s.mode ≠ .operatorPending) (hnone : after.operator = none) :
    s.drain last = { s with resolver := after }.drain .pending := by
  have hsame : s.edit.syncOperatorMode false = s.edit := EditState.syncOperatorMode_of_ne hne
  rw [drain_of_pending last hinput hfeed, Resolver.operatorPending_of_none hnone, hsame]

/-- An operator has been read and waits, with strokes left to read. -/
structure OperatorWaits (s : Session) (o : OperatorKey) (rest : Keys) : Prop where
  bindings : s.StandardBindings
  mode : s.mode = .operatorPending
  input : s.resolver.input = rest
  unbuffered : s.resolver.Unbuffered
  operator : ∃ call, s.resolver.operator = some call ∧ call.action = o.action

/-- With the last key of an operator to be read next, the operator waits and nothing else is done. -/
theorem drain_operator (hbindings : s.StandardBindings) {o : OperatorKey} {front : Keys}
    (hlast : o.keys = front ++ [o.again]) (hmode : s.mode = .normal)
    (hinput : s.resolver.input = o.again :: rest) (hkeys : s.resolver.pending.keys = front)
    (hchar : s.resolver.awaitingChar = none)
    (hregister : s.resolver.pending.awaitingRegister = false) (hnone : s.resolver.operator = none)
    (last : KeyOutcome) : ∃ waiting : Session, waiting.OperatorWaits o rest ∧
      SameContent s.edit waiting.edit ∧ s.drain last = waiting.drain .pending := by
  have hempty : (s.resolver.afterRead.withKeys []).Unbuffered := ⟨rfl, hchar, hregister⟩
  obtain ⟨call, haction, hfeed⟩ := Resolver.feed_operator hempty (hbindings.bound o) hlast hnone
  have hbuffered : (s.resolver.afterRead.withKeys []).withKeys front = s.resolver.afterRead :=
    Resolver.withKeys_of_eq (r := s.resolver.afterRead) hkeys
  rw [hbuffered, ← hmode] at hfeed
  have hpending : (s.edit.syncOperatorMode true).mode = .operatorPending := by
    have hlegal : s.edit.modes.mode.isLegal .operatorPending s.edit.modes.parent = true := by
      rw [show s.edit.modes.mode = .normal from hmode]
      rfl
    rw [EditState.syncOperatorMode_eq]
    exact ModeMachine.tryTransition_mode_of_legal hlegal
  let waiting : Session := { s with
    resolver := { s.resolver.afterRead.withKeys [] with operator := some call }
    edit := s.edit.syncOperatorMode true }
  have hrest : waiting.resolver.input = rest := by
    show s.resolver.input.tail = rest
    rw [hinput]
    rfl
  exact ⟨waiting, ⟨hbindings, hpending, hrest, ⟨rfl, hchar, hregister⟩, call, rfl, haction⟩,
    s.edit.syncOperatorMode_sameContent true, drain_of_pending last hinput hfeed⟩

/-- If nothing comes of the stroke after an operator, the text and the registers stay. -/
theorem OperatorWaits.drain_idle {o : OperatorKey} {next : KeyStroke} (h : s.OperatorWaits o [next])
    (last : KeyOutcome) (hidle : (s.drain last).1.Idle) : SameContent s.edit (s.drain last).2.edit := by
  have hleaves := s.feed_leavesOnly h.bindings h.input fun hne ↦ absurd h.unbuffered.keys hne
  refine s.drain_idle _ h.input (hleaves.resolve_right ?_) hidle
  rintro ⟨replacement, hreplaces, -⟩
  cases h.mode.symm.trans hreplaces.mode

theorem StandardBindings.right_bound (h : s.StandardBindings) :
    (s.keymap.get? .operatorPending [.char 'l'] = some (.action ActionId.right) ∧
      (s.keymap.trie .operatorPending).goesBeyond [.char 'l'] = false) ∧
      s.registry.get? ActionId.right =
        some (Builtin.motion ActionId.right Motion.right Builtin.exclusive) := by
  rcases h with ⟨hkeymap, hregistry⟩ | ⟨hkeymap, hregistry⟩
  · rw [hkeymap, hregistry]
    exact ⟨by decide +kernel, Registry.standard_get?_of_mem
      (a := Builtin.motion ActionId.right Motion.right Builtin.exclusive)
      (by simp [Builtin.actions, Builtin.motions])⟩
  · rw [hkeymap, hregistry]
    exact ⟨by decide +kernel, Registry.ofList_get?_of_mem
      (a := Builtin.motion ActionId.right Motion.right Builtin.exclusive)
      (by decide +kernel) (by simp [Builtin.actions, Builtin.motions])⟩

/-- No stroke stands for others that does not do so by default. -/
theorem StandardBindings.not_replaces (h : s.StandardBindings) {r : Resolver}
    (hnone : ∀ b ∈ Keymap.Default.remaps, b.keys ≠ [stroke]) (replacement : Keys) :
    ¬ r.Replaces s.keymap s.mode stroke replacement := by
  intro hreplaces
  obtain ⟨bindings, hsub, hkeymap⟩ := h.exists_bindings
  have hbound := hreplaces.bound
  rw [hkeymap] at hbound
  obtain ⟨b, hb, -, hkeys, -⟩ := Keymap.exists_remap_of_get? hsub hbound
  exact hnone b hb hkeys

/-- If nothing comes of the last motion that `~` stands for, the registers stay: the command before it maps
the case of a character. -/
theorem drain_idle_of_toggled (s : Session) (hbindings : s.StandardBindings) (hmode : s.mode = .normal)
    (hinput : s.resolver.input = Keymap.toggledStrokes) (h : s.resolver.Unbuffered)
    (hnone : s.resolver.operator = none) (last : KeyOutcome) (hidle : (s.drain last).1.Idle) :
    (s.drain last).2.editor.registers = s.editor.registers := by
  have hne : s.mode ≠ .operatorPending := by
    rw [hmode]
    exact Mode.noConfusion
  -- the first key of the operator
  have hfirst : s.resolver.afterRead.feed (.char 'g') s.mode s.keymap s.registry =
      (.pending, s.resolver.afterRead.withKeys [.char 'g']) := by
    rw [hmode]
    exact Resolver.feed_operator_first ⟨h.keys, h.awaitingChar, h.awaitingRegister⟩
      (hbindings.bound .toggleCase) rfl
  rw [drain_of_waiting last hinput hfirst hne hnone] at hidle ⊢
  let begun : Session := { s with resolver := s.resolver.afterRead.withKeys [.char 'g'] }
  have hbegun : begun.resolver.input = [.char '~', .char 'l', .char 'l'] := by
    show s.resolver.input.tail = _
    rw [hinput]
    rfl
  -- its second key
  have hlast : OperatorKey.toggleCase.keys = [.char 'g'] ++ [OperatorKey.toggleCase.again] := rfl
  obtain ⟨waiting, hwaits, hsame, hdrain⟩ := begun.drain_operator hbindings hlast hmode hbegun rfl
    h.awaitingChar h.awaitingRegister hnone .pending
  rw [hdrain] at hidle ⊢
  refine Eq.trans ?_ hsame.registers
  obtain ⟨call, hoperator, haction⟩ := hwaits.operator
  obtain ⟨⟨hget, hbeyond⟩, hspec⟩ := hwaits.bindings.right_bound
  obtain ⟨command, hcommand, hfeed⟩ := Resolver.feed_motion (r := waiting.resolver.afterRead)
    ⟨hwaits.unbuffered.keys, hwaits.unbuffered.awaitingChar, hwaits.unbuffered.awaitingRegister⟩
    (by decide) hget hbeyond hspec rfl rfl hoperator
  rw [← hwaits.mode] at hfeed
  -- the motion after it, which has the operator's command run
  have hbody : waiting.registry.get? command.action =
      some (Builtin.operator ActionId.toggleCase Operator.toggleCase {}) := by
    rw [hcommand, haction]
    exact (hwaits.bindings.bound .toggleCase).action
  let done : Session := (waiting.act (.resolved command, waiting.resolver.afterRead.reset)).2
  have hdone : waiting.drain .pending =
      done.drain (waiting.act (.resolved command, waiting.resolver.afterRead.reset)).1 := by
    rw [drain_of_cons .pending hwaits.input, readNext_of_cons hwaits.input, hfeed]
  have hregisters : done.editor.registers = waiting.editor.registers :=
    EditState.apply_registers (Operator.mapCase_keepsRegisters _) waiting.edit waiting.options _ hbody
  have hleft : done.resolver.input = [.char 'l'] := by
    show waiting.resolver.input.tail = _
    rw [hwaits.input]
    rfl
  -- the last motion
  have hleaves := done.feed_leavesOnly hwaits.bindings hleft fun hne ↦ absurd rfl hne
  have hplain : ∀ b ∈ Keymap.Default.remaps, b.keys ≠ [.char 'l'] := by decide
  have hread := hleaves.resolve_right fun ⟨replacement, hreplaces, _⟩ ↦
    StandardBindings.not_replaces (s := done) hwaits.bindings hplain replacement hreplaces
  rw [hdone] at hidle ⊢
  exact (done.drain_idle _ hleft hread hidle).registers.trans hregisters

/-- With a stroke to be read that stands for others, and no operator waiting, if nothing comes of these then
the registers stay, and so does the text if the stroke is not `~`. -/
theorem drain_idle_of_replaced (hbindings : s.StandardBindings) {replacement : Keys}
    (hinput : s.resolver.input = [stroke])
    (hreplaces : s.resolver.afterRead.Replaces s.keymap s.mode stroke replacement)
    (hfeed : s.resolver.afterRead.feed stroke s.mode s.keymap s.registry =
      (.pending, s.resolver.afterRead.replaced replacement))
    (hnone : s.resolver.operator = none) (last : KeyOutcome) (hidle : (s.drain last).1.Idle) :
    SameContent s.edit (s.drain last).2.edit ∨
      stroke = .char '~' ∧ (s.drain last).2.editor.registers = s.editor.registers := by
  obtain ⟨bindings, hsub, hkeymap⟩ := hbindings.exists_bindings
  have hbound := hreplaces.bound
  rw [hkeymap] at hbound
  have hne : s.mode ≠ .operatorPending := by
    rw [hreplaces.mode]
    exact Mode.noConfusion
  let replaying : Session := { s with resolver := s.resolver.afterRead.replaced replacement }
  have hnext : replaying.resolver.input = replacement := by
    show replacement ++ s.resolver.input.tail = replacement
    rw [hinput]
    exact List.append_nil _
  have hdrain : s.drain last = replaying.drain .pending :=
    drain_of_waiting last hinput hfeed hne hnone
  rw [hdrain] at hidle ⊢
  obtain ⟨-, -, ⟨htilde, rfl⟩ | ⟨o, next, honly, rfl⟩⟩ := Keymap.get?_remap hsub hbound
  · refine .inr ⟨List.singleton_inj.mp htilde, ?_⟩
    exact replaying.drain_idle_of_toggled hbindings hreplaces.mode hnext
      ⟨hreplaces.keys, hreplaces.awaitingChar, hreplaces.awaitingRegister⟩ hnone .pending hidle
  · have hlast : o.keys = [] ++ [o.again] := honly
    obtain ⟨waiting, hwaits, hsame, hwaiting⟩ := replaying.drain_operator hbindings hlast hreplaces.mode
      hnext hreplaces.keys hreplaces.awaitingChar hreplaces.awaitingRegister hnone .pending
    rw [hwaiting] at hidle ⊢
    exact .inl (hsame.trans (hwaits.drain_idle .pending hidle))

/-- The stroke is read alone in the normal mode and stands for others. -/
def Expands (s : Session) (stroke : KeyStroke) : Prop :=
  ∃ replacement, s.resolver.Replaces s.keymap s.mode stroke replacement

/-- A key of which nothing comes leaves the text and the registers as they were, unless the buffered
strokes have gone astray or the key stands for others. Then, if no operator waits, it leaves the registers,
and the key is `~` if it does not leave the text. -/
theorem handleKey_idle (hbindings : s.StandardBindings) (hread : s.resolver.input = [])
    (hidle : (s.handleKey stroke).1.Idle) :
    SameContent s.edit (s.handleKey stroke).2.edit ∨ s.pump.Astray ∨ s.pump.Expands stroke ∧
      (s.pump.resolver.operator ≠ none ∨
        stroke = .char '~' ∧ (s.handleKey stroke).2.editor.registers = s.editor.registers) := by
  obtain ⟨edit, dragging, hpump, -, -, htext, hregisters⟩ := s.pump_eq
  have hpumped : SameContent s.edit s.pump.edit := by
    rw [hpump]
    exact ⟨htext, hregisters⟩
  by_cases hastray : s.pump.Astray
  · exact .inr (.inl hastray)
  have hgoes : s.pump.resolver.pending.keys ≠ [] →
      (s.pump.keymap.trie (.ofMode s.pump.mode)).goesBeyond s.pump.resolver.pending.keys = true := by
    intro hne
    by_contra hstops
    exact hastray ⟨hne, Bool.eq_false_iff.mpr hstops⟩
  have hinput : (s.pump.enqueue stroke).resolver.input = [stroke] := by
    rw [enqueue_input, pump_resolver, hread, List.nil_append]
  have hpumpBindings : (s.pump.enqueue stroke).StandardBindings := by
    rw [hpump]
    exact hbindings
  rcases (s.pump.enqueue stroke).feed_leavesOnly hpumpBindings hinput hgoes with
    hdone | ⟨replacement, hreplaces, hfeed⟩
  · exact .inl (hpumped.trans (drain_idle _ .pending hinput hdone hidle))
  have hexpands : s.pump.Expands stroke :=
    ⟨replacement, ⟨hreplaces.keys, hreplaces.awaitingChar, hreplaces.awaitingRegister⟩, hreplaces.mode,
      hreplaces.bound⟩
  by_cases hnone : s.pump.resolver.operator = none
  · rcases drain_idle_of_replaced hpumpBindings hinput hreplaces hfeed hnone .pending hidle with
      hsame | ⟨htilde, hkept⟩
    · exact .inl (hpumped.trans hsame)
    · exact .inr (.inr ⟨hexpands, .inr ⟨htilde, hkept.trans hpumped.registers⟩⟩)
  · exact .inr (.inr ⟨hexpands, .inl hnone⟩)

/-- Whatever has happened to a session, a key that reports neither a command executed nor text typed, be it
cancelled, bound to nothing or waiting for more, leaves the text and the registers as they were, unless
strokes are buffered that do not go on in the mode, or the key stands for others and an operator waits behind
the normal mode, or it is `~`. Where no gesture comes in the middle of a command, the registers are always as
they were, and so is the text but for `~`. -/
theorem failed_key_changes_nothing {s : Session} (h : s.Fresh) (history : List Happening)
    (stroke : KeyStroke) :
    let reached := history.foldl undergo s
    let result := reached.handleKey stroke
    let TextKept := result.2.editor.text = reached.editor.text
    let RegistersKept := result.2.editor.registers = reached.editor.registers
    result.1 ≠ .executed → result.1 ≠ .typed →
      (TextKept ∧ RegistersKept ∨ reached.pump.Astray ∨ reached.pump.Expands stroke ∧
        (reached.pump.resolver.operator ≠ none ∨ stroke = .char '~' ∧ RegistersKept)) ∧
      (s.GesturesApart history →
        RegistersKept ∧ (TextKept ∨ stroke = .char '~' ∧ reached.pump.Expands stroke)) := by
  intro reached result TextKept RegistersKept hexecuted htyped
  obtain ⟨hbindings, hread⟩ := h.foldl_undergo history
  have hkey : TextKept ∧ RegistersKept ∨ reached.pump.Astray ∨ reached.pump.Expands stroke ∧
      (reached.pump.resolver.operator ≠ none ∨ stroke = .char '~' ∧ RegistersKept) :=
    (handleKey_idle hbindings hread ⟨hexecuted, htyped⟩).imp_left fun hsame ↦
      ⟨hsame.text, hsame.registers⟩
  refine ⟨hkey, fun hgestures ↦ ?_⟩
  have hattuned := (h.foldl_undergo_attuned hgestures).pump
  rcases hkey with ⟨htext, hregisters⟩ | hastray | ⟨hexpands, hwaits | ⟨htilde, hregisters⟩⟩
  · exact ⟨hregisters, .inl htext⟩
  · exact absurd hastray hattuned.not_astray
  · obtain ⟨replacement, hreplaces⟩ := hexpands
    exact absurd (hattuned.operator_eq_none hreplaces.mode) hwaits
  · exact ⟨hregisters, .inr ⟨htilde, hexpands⟩⟩

theorem withCaret_fresh (t : Text) (offset : Nat) : (withCaret t offset).Fresh where
  bindings := (withCaret_readsCommands t offset).bindings
  resolver := rfl
  coherent := rfl
  mode := rfl

/-- A motion that has nowhere to go leaves all as it was. -/
theorem motion_at_end_changes_nothing :
    let s := withCaret "a\n".toList 0
    (s.Fresh ∧ (s.handleKey (.char 'l')).1 = .cancelled ∧ s.GesturesApart []) ∧
      (s.handleKey (.char 'l')).2.editor.text = s.editor.text ∧
      (s.handleKey (.char 'l')).2.editor.registers = s.editor.registers := by
  intro s
  have hfresh : s.Fresh := withCaret_fresh _ _
  have hread : (takeTurns 1 .pending (s.pump.enqueue (.char 'l'))).2.resolver.input = [] ∧
      (takeTurns 1 .pending (s.pump.enqueue (.char 'l'))).1 = .cancelled := by
    decide +kernel
  have hcancelled : (s.handleKey (.char 'l')).1 = .cancelled :=
    (congrArg Prod.fst (drain_eq_takeTurns 1 .pending (s.pump.enqueue (.char 'l')) hread.1)).trans hread.2
  have happart : s.GesturesApart [] := fun before _ _ h ↦ by simp at h
  have hlaw := (failed_key_changes_nothing hfresh [] (.char 'l')
    (by rw [List.foldl_nil, hcancelled]; exact KeyOutcome.noConfusion)
    (by rw [List.foldl_nil, hcancelled]; exact KeyOutcome.noConfusion)).2 happart
  exact ⟨⟨hfresh, hcancelled, happart⟩, hlaw.2.resolve_right fun h ↦ absurd h.1 (by decide), hlaw.1⟩

/-- At the end of a line `~` reports failure and has changed the text: what it stands for ends with a
motion that has nowhere to go. -/
theorem toggling_case_fails_after_edit :
    let s := withCaret "a\n".toList 0
    s.Fresh ∧ (s.handleKey (.char '~')).1 = .cancelled ∧
      (s.handleKey (.char '~')).2.editor.text = "A\n".toList ∧
      (s.handleKey (.char '~')).2.editor.text ≠ s.editor.text := by
  intro s
  have hread : (takeTurns 5 .pending (s.pump.enqueue (.char '~'))).2.resolver.input = [] ∧
      (takeTurns 5 .pending (s.pump.enqueue (.char '~'))).1 = .cancelled ∧
      (takeTurns 5 .pending (s.pump.enqueue (.char '~'))).2.editor.text = "A\n".toList ∧
      (takeTurns 5 .pending (s.pump.enqueue (.char '~'))).2.editor.text ≠ s.editor.text := by
    decide +kernel
  have hkey : s.handleKey (.char '~') = takeTurns 5 .pending (s.pump.enqueue (.char '~')) :=
    drain_eq_takeTurns 5 .pending (s.pump.enqueue (.char '~')) hread.1
  rw [hkey]
  exact ⟨withCaret_fresh _ _, hread.2⟩

end Session

end ModalEdit
