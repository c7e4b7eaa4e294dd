import ModalEdit.Proofs.LastingAccounts
import ModalEdit.Proofs.LinewiseCommands
import ModalEdit.Proofs.PartialInput

/-!
What is held of a command fits the mode, as long as gestures come between commands. The mode machine and the
resolver go in lockstep, and what the resolver holds is consistent over the mode under a pending operator
(`Session.Attuned`). Turns of the reading loop and flushes keep this, since a step that does not wait forgets
the command and one that waits leaves that mode as it is (`act_baseMode`). Reports may change the mode, so
they keep it only while nothing is held. The result is on whole runs under the default bindings
(`Fresh.foldl_undergo_attuned`).
-/

set_option autoImplicit false
set_option relaxedAutoImplicit false

namespace ModalEdit

/-- What is bound where operators may be typed places them. -/
theorem Keymap.bindAll_placesOperators {bindings : List Binding} {registry : Registry}
    (h : ∀ b ∈ bindings, ∀ mode ∈ b.modes, b.target.operates registry = true →
      mode = .normal ∨ mode = .visual ∨ mode = .operatorPending) :
    (bindAll {} bindings).PlacesOperators registry := by
  intro mode buffer consumed id ambiguous spec hresolve hget hkind
  obtain ⟨-, htaken, -⟩ := Trie.longest?_spec (Trie.resolve_eq_matched hresolve).1
  obtain ⟨b, hb, hmode, -, htarget⟩ := exists_binding_of_get? htaken
  have hoperates : b.target.operates registry = true := by
    rw [htarget, Target.operates, hget, Option.any_some, hkind]
    rfl
  have hplace := h b hb _ hmode hoperates
  cases mode <;> simp_all [MapMode.ofMode, Mode.takesOperators, Mode.isVisual]

/-- With no operator waiting, the mode under the pending one is left. -/
theorem EditState.syncOperatorMode_mode {s : EditState} (h : s.modes.OnNormal) :
    (s.syncOperatorMode false).mode = if s.mode = .operatorPending then .normal else s.mode := by
  rw [syncOperatorMode_eq, if_neg Bool.false_ne_true]
  by_cases hmode : s.mode = .operatorPending
  · have hparent : s.modes.parent = some .normal := h.trans (if_pos hmode)
    rw [if_pos hmode, if_pos hmode]
    exact congrArg ModeMachine.mode (ModeMachine.leavePending_of_parent hmode hparent Mode.noConfusion)
  · rw [if_neg hmode, if_neg hmode]

namespace Session

variable {s : Session}

/-- The mode itself, or that under a pending operator. -/
def baseMode (s : Session) : Mode := if s.mode = .operatorPending then .normal else s.mode

/-- What is held of a command fits the mode, and nothing has been reported since it was begun. -/
structure Attuned (s : Session) : Prop extends InStep s where
  consistent : s.resolver.Consistent s.keymap s.baseMode
  quiet : s.editor.reported = [] ∨ s.resolver.hasPending = false ∧ s.resolver.input = []

theorem InStep.modeOver (h : s.InStep) : s.resolver.modeOver s.baseMode = s.mode := by
  unfold Resolver.modeOver baseMode
  by_cases hmode : s.mode = .operatorPending
  · rw [if_pos (h.mode.mp hmode), hmode]
  · rw [if_neg (mt h.mode.mpr hmode), if_neg hmode]

/-- While the resolver waits after a step, the mode under a pending operator stays. -/
theorem act_baseMode (h : s.InStep) {after : Resolver}
    (hwaits : Resolver.Waits s.mode (.pending, after)) :
    (s.act (.pending, after)).2.baseMode = s.baseMode := by
  have hstep := act_inStep h hwaits
  cases hpending : after.operatorPending with
  | true =>
    have hafter : (s.act (.pending, after)).2.mode = .operatorPending := hstep.mode.mpr hpending
    rw [baseMode, if_pos hafter, baseMode]
    rcases (hwaits hpending).2 with hmode | hmode
    · rw [if_pos hmode]
    · rw [hmode]
      rfl
  | false =>
    have hedit : (s.act (.pending, after)).2.edit = s.edit.syncOperatorMode false := by
      show (s.edit.apply s.registry s.options after.operatorPending .pending).2 = _
      rw [hpending]
      rfl
    have hne : (s.act (.pending, after)).2.mode ≠ .operatorPending := by
      intro hmode
      cases hpending.symm.trans (hstep.mode.mp hmode)
    rw [baseMode, if_neg hne, mode, hedit, EditState.syncOperatorMode_mode h.onNormal]
    rfl

/-- Acting on a step that fits keeps what is held of a command fitting. -/
theorem act_consistent (h : s.InStep) {result : Outcome × Resolver}
    (hwaits : Resolver.Waits s.mode result) (hsettles : Resolver.Settles s.keymap s.baseMode result) :
    (s.act result).2.resolver.Consistent s.keymap (s.act result).2.baseMode := by
  obtain ⟨outcome, after⟩ := result
  by_cases hpending : outcome = .pending
  · subst hpending
    rw [act_baseMode h hwaits]
    exact hsettles.1
  · exact Resolver.consistent_of_idle (hsettles.2 hpending)

/-- The buffered strokes do not go on in the mode. -/
def Astray (s : Session) : Prop :=
  s.resolver.pending.keys ≠ [] ∧
    (s.keymap.trie (.ofMode s.mode)).goesBeyond s.resolver.pending.keys = false

namespace Attuned

theorem readNext (h : s.Attuned) : s.readNext.Attuned := by
  cases hinput : s.resolver.input with
  | nil => rwa [readNext_of_nil hinput]
  | cons stroke rest =>
    have hread : s.mode = .operatorPending ↔ s.resolver.afterRead.operatorPending = true := h.mode
    have hwaits := Resolver.feed_waits hread h.places stroke
    have hsettles : Resolver.Settles s.keymap s.baseMode
        (s.resolver.afterRead.feed stroke s.mode s.keymap s.registry) := by
      have hconsistent : s.resolver.afterRead.Consistent s.keymap s.baseMode :=
        ⟨h.consistent.withKeys _ _ _, h.consistent.buffered, h.consistent.awaiting⟩
      have hmode : s.resolver.afterRead.modeOver s.baseMode = s.mode := h.modeOver
      rw [← hmode]
      exact Resolver.feed_settles hconsistent stroke
    have hreported : s.editor.reported = [] := by
      refine h.quiet.resolve_right fun hidle ↦ ?_
      cases hinput.symm.trans hidle.2
    rw [readNext_of_cons hinput]
    exact ⟨act_inStep h.toInStep hwaits, act_consistent h.toInStep hwaits hsettles,
      .inl ((act_reported h.orderly _).trans hreported)⟩

theorem flushNext (h : s.Attuned) : s.flushNext.Attuned := by
  have hwaits := Resolver.flush_waits h.mode h.places
  have hsettles : Resolver.Settles s.keymap s.baseMode
      (s.resolver.flush s.mode s.keymap s.registry) := by
    rw [← h.modeOver]
    exact Resolver.flush_settles h.consistent
  refine ⟨act_inStep h.toInStep hwaits, act_consistent h.toInStep hwaits hsettles, ?_⟩
  rcases h.quiet with hnone | hidle
  · exact .inl ((act_reported h.orderly _).trans hnone)
  · have hflush : s.resolver.flush s.mode s.keymap s.registry = (.pending, s.resolver) := by
      refine if_pos ?_
      rw [(Resolver.hasPending_eq_false_iff.mp hidle.1).1]
      rfl
    refine .inr ?_
    rw [Session.flushNext, hflush]
    exact hidle

theorem pump (h : s.Attuned) : s.pump.Attuned := by
  have hstep : s.pump.InStep := pump_inStep h.toInStep <| h.quiet.imp_right fun hidle ↦
    Resolver.operatorPending_of_none (Resolver.hasPending_eq_false_iff.mp hidle.1).2.1
  refine ⟨hstep, ?_, .inl s.pump_reported⟩
  rcases h.quiet with hnone | hidle
  · rw [pump_of_reported_nil hnone]
    exact h.consistent
  · refine Resolver.consistent_of_idle ?_
    rw [pump_resolver]
    exact hidle.1

theorem begin (h : s.Attuned) (c : KeyCall) : (s.begin c).Attuned := by
  cases c with
  | key stroke =>
    have hpumped := h.pump
    exact ⟨⟨hpumped.orderly, hpumped.places, hpumped.mode, hpumped.onNormal⟩,
      ⟨hpumped.consistent.withKeys _ _ _, hpumped.consistent.buffered, hpumped.consistent.awaiting⟩,
      .inl s.pump_reported⟩
  | flush => exact h.flushNext

/-- Whatever happens between two gestures, and gestures while nothing is held of a command, keep what is
held fitting. -/
theorem undergo (h : s.Attuned) (hread : s.resolver.input = []) (happening : Happening)
    (hgesture : ∀ g, happening = .input (.gesture g) → s.resolver.hasPending = false) :
    (s.undergo happening).Attuned := by
  cases happening with
  | input input =>
    cases input with
    | call c =>
      exact call_keeps (P := Attuned) (fun _ c ht ↦ ht.begin c) (fun _ ht ↦ ht.readNext) h c
    | gesture g => exact ⟨⟨h.orderly, h.places, h.mode, h.onNormal⟩, h.consistent,
        .inr ⟨hgesture g rfl, hread⟩⟩
    | pump => exact h.pump
  | eraseRange a b => exact ⟨⟨h.orderly, h.places, h.mode, h.onNormal⟩, h.consistent, h.quiet⟩
  | insertText offset text =>
    exact ⟨⟨h.orderly, h.places, h.mode, h.onNormal⟩, h.consistent, h.quiet⟩

/-- Buffered strokes go on in the mode. -/
theorem not_astray (h : s.Attuned) : ¬ s.Astray := by
  rintro ⟨hne, hstops⟩
  have hgoes := (h.consistent.buffered hne).1
  rw [h.modeOver] at hgoes
  cases hstops.symm.trans hgoes

theorem operator_eq_none (h : s.Attuned) (hmode : s.mode = .normal) : s.resolver.operator = none :=
  Resolver.operator_eq_none h.mode (by rw [hmode]; exact Mode.noConfusion)

end Attuned

/-! ### Whole runs -/

theorem StandardBindings.placesOperators (h : s.StandardBindings) :
    s.keymap.PlacesOperators s.registry := by
  have hbuiltin : ∀ b ∈ Keymap.standardBindings, ∀ mode ∈ b.modes,
      b.target.operates Builtin.registry = true →
        mode = .normal ∨ mode = .visual ∨ mode = .operatorPending := by
    decide +kernel
  rcases h with ⟨hkeymap, hregistry⟩ | ⟨hkeymap, hregistry⟩
  · rw [hkeymap, hregistry]
    exact Keymap.bindAll_placesOperators standardBindings_operate
  · rw [hkeymap, hregistry]
    exact Keymap.bindAll_placesOperators fun b hb ↦ hbuiltin b (List.mem_append_left _ hb)

theorem StandardBindings.undergo (h : s.StandardBindings) (happening : Happening) :
    (s.undergo happening).StandardBindings := by
  have hpump {t : Session} (ht : t.StandardBindings) : t.pump.StandardBindings := by
    obtain ⟨edit, dragging, hpump, -⟩ := t.pump_eq
    rw [hpump]
    exact ht
  have hcall (c : KeyCall) : (s.call c).StandardBindings := by
    refine call_keeps (P := StandardBindings) (fun t c ht ↦ ?_) (fun t ht ↦ ?_) h c
    · cases c with
      | key stroke => exact hpump ht
      | flush => exact ht
    · cases hinput : t.resolver.input with
      | nil => rwa [readNext_of_nil hinput]
      | cons stroke rest =>
        rw [readNext_of_cons hinput]
        exact ht
  cases happening with
  | input input =>
    cases input with
    | call c => exact hcall c
    | gesture g => exact h
    | pump => exact hpump h
  | eraseRange a b => exact h
  | insertText offset text => exact h

theorem undergo_input (hread : s.resolver.input = []) (happening : Happening) :
    (s.undergo happening).resolver.input = [] := by
  cases happening with
  | input input =>
    cases input with
    | call c => exact s.call_input c
    | gesture g => exact hread
    | pump =>
      show s.pump.resolver.input = []
      rwa [pump_resolver]
  | eraseRange a b => exact hread
  | insertText offset text => exact hread

/-- A session in the normal mode with nothing typed yet. -/
structure Fresh (s : Session) : Prop where
  bindings : s.StandardBindings
  resolver : s.resolver = {}
  coherent : s.edit.modes.Coherent
  mode : s.mode = .normal

theorem Fresh.attuned (h : s.Fresh) : s.Attuned := by
  have hne : s.mode ≠ .operatorPending := by
    rw [h.mode]
    exact Mode.noConfusion
  refine ⟨⟨h.bindings.orderly, h.bindings.placesOperators, ⟨fun hmode ↦ absurd hmode hne, ?_⟩,
    h.coherent.onNormal hne⟩, ?_, ?_⟩
  · rw [h.resolver]
    exact nofun
  · rw [h.resolver]
    exact Resolver.consistent_of_idle rfl
  · rw [h.resolver]
    exact .inr ⟨rfl, rfl⟩

/-- All gestures come while nothing is held of a command. -/
def GesturesApart (s : Session) (history : List Happening) : Prop :=
  ∀ before gesture after, history = before ++ .input (.gesture gesture) :: after →
    (before.foldl undergo s).resolver.hasPending = false

theorem Fresh.foldl_undergo (h : s.Fresh) (history : List Happening) :
    (history.foldl undergo s).StandardBindings ∧ (history.foldl undergo s).resolver.input = [] := by
  refine List.foldlRecOn (motive := fun t : Session ↦ t.StandardBindings ∧ t.resolver.input = []) history
    undergo ⟨h.bindings, ?_⟩ fun t ht happening _ ↦
      ⟨ht.1.undergo happening, undergo_input ht.2 happening⟩
  rw [h.resolver]

theorem Fresh.foldl_undergo_attuned (h : s.Fresh) {history : List Happening}
    (hgestures : s.GesturesApart history) : (history.foldl undergo s).Attuned := by
  induction history using List.reverseRecOn with
  | nil => exact h.attuned
  | append_singleton history happening ih =>
    have hbefore : s.GesturesApart history := by
      rintro before gesture after rfl
      exact hgestures before gesture (after ++ [happening]) (by simp)
    rw [List.foldl_append]
    refine (ih hbefore).undergo (h.foldl_undergo history).2 happening ?_
    rintro g rfl
    exact hgestures history g [] rfl

end Session

end ModalEdit
