import ModalEdit.Proofs.OfferedActions
import ModalEdit.Proofs.OperatorLockstep

/-!
What holds through any use of the keys. A session does a few kinds of things to the state of the
commands: it locks the guard, brings the table of the carets in line, lets the mode machine follow
an operator that waits, runs a command that is offered in the mode, takes strokes as text, gives up
a command, and rings the bell. What each of these keeps (`EditState.Enduring`), all calls of a
session keep, with whatever has been put in the place of other strokes (`Session.calls_keep`), if no
reports wait before the first key or those keep it too.
-/

set_option autoImplicit false
set_option relaxedAutoImplicit false

namespace ModalEdit

/-- An action is offered in a mode, or it was in the pending mode, which has just been left. -/
def OfferedAt (mode : Mode) (id : ActionId) : Prop :=
  Offered (.ofMode mode) id ∨ mode = .normal ∧ Offered .operatorPending id

/-- What is offered and waits for nothing is bound, in the mode or in the pending mode that has been
left. -/
theorem OfferedAt.bound {mode : Mode} {id : ActionId} (h : OfferedAt mode id)
    (hnot : ¬ Waiting id) :
    ∃ b ∈ Keymap.standardBindings, b.target = .action id ∧
      (MapMode.ofMode mode ∈ b.modes ∨ mode = .normal ∧ MapMode.operatorPending ∈ b.modes) := by
  rcases h with (⟨b, hb, hmem, htarget⟩ | hwaits) | ⟨hnormal, ⟨b, hb, hmem, htarget⟩ | hwaits⟩
  · exact ⟨b, hb, htarget, .inl hmem⟩
  · exact absurd hwaits hnot
  · exact ⟨b, hb, htarget, .inr ⟨hnormal, hmem⟩⟩
  · exact absurd hwaits hnot

/-! ### Actions -/

/-- An action keeps a property in the modes in which it is allowed, and an operator fits. -/
def ActionSpec.Keeps (P : EditState → Prop) (fits : Operator → Prop)
    (allowed : ActionId → Mode → Prop) (spec : ActionSpec) : Prop :=
  match spec.handler with
  | .motion _ | .textObject _ => True
  | .operator body => fits body
  | .other f => ∀ around command s, P s → allowed spec.id s.mode → P (f around command s)

/-- What motions, text objects and fitting operators keep, and the bell. -/
structure EditState.KeptByCommands (P : EditState → Prop) (fits : Operator → Prop) : Prop where
  bell : ∀ s, P s → P s.bell
  applyMotion : ∀ s call f, P s → P (s.applyMotion call f).2
  selectTextObject : ∀ s call f, P s → P (s.selectTextObject call f).2
  operateOnSelections : ∀ s command body, fits body → P s → P (s.operateOnSelections command body).2
  compose : ∀ s registry command body, fits body → P s →
    (s.mode.isVisual || s.mode.isSelect) = false →
    P (s.compose registry command body).2

section Actions

variable {P : EditState → Prop} {fits : Operator → Prop} {allowed : ActionId → Mode → Prop}

theorem ActionSpec.keeps_of_kind {spec : ActionSpec}
    (h : spec.handler.kind = .motion ∨ spec.handler.kind = .textObject) :
    spec.Keeps P fits allowed := by
  unfold Keeps
  generalize spec.handler = handler at h
  cases handler with
  | motion f => trivial
  | textObject f => trivial
  | operator body => rcases h with h | h <;> cases h
  | other f => rcases h with h | h <;> cases h

theorem Builtin.change_keeps {id : ActionId} {f : EditState → EditState}
    (hf : ∀ s, P s → allowed id s.mode → P (f s)) :
    (change id f).Keeps P fits allowed := fun _ _ ↦ hf

theorem Builtin.selecting_keeps {f : EditState → SelectionKind → EditState}
    (hf : ∀ s kind, P s → P (f s kind)) (id : ActionId) :
    (selecting id f).Keeps P fits allowed := fun _ _ s hs _ ↦ hf s _ hs

theorem Registry.standard_keeps (hoperators : ∀ a ∈ Builtin.operators, ∀ body,
    a.handler = .operator body → fits body) (hchanges :
    ∀ a ∈ Builtin.modeChanges, a.Keeps P fits allowed)
    (htyping : ∀ a ∈ Builtin.typing, a.Keeps P fits allowed)
    (hspecial : ∀ s around command, P s → P (s.specialKey around command)) :
    ∀ a ∈ standard.specs, a.Keeps P fits allowed := by
  have hmotions : ∀ a ∈ Builtin.motions, a.handler.kind = .motion := by decide +kernel
  have hobjects : ∀ a ∈ Builtin.textObjects, a.handler.kind = .textObject := by decide +kernel
  have hextensions : ∀ extension ∈ Extension.all, ∀ a ∈ extension.actions,
      a.handler.kind = .motion ∨ a.handler.kind = .textObject := by decide +kernel
  have hkinds : ∀ a ∈ Builtin.operators, a.handler.kind = .operator := by decide +kernel
  have hfits : ∀ a ∈ Builtin.operators, a.Keeps P fits allowed := by
    intro a ha
    have hbody := hoperators a ha
    have hkind := hkinds a ha
    unfold ActionSpec.Keeps
    generalize a.handler = handler at hbody hkind
    cases handler with
    | operator body => exact hbody body rfl
    | motion f => trivial
    | textObject f => trivial
    | other f => cases hkind
  have hkeys : ∀ a ∈ Builtin.specialKeys, a.Keeps P fits allowed := by
    have hkey (id : ActionId) : (Builtin.special id).Keeps P fits allowed :=
      fun around command s hs _ ↦ hspecial s around command hs
    simp only [Builtin.specialKeys, List.forall_mem_cons, List.not_mem_nil, false_imp_iff,
      implies_true, and_true, hkey]
  refine forall_mem_standard ?_ fun extension hall a ha ↦
    ActionSpec.keeps_of_kind (hextensions extension hall a ha)
  simp only [Builtin.actions, List.forall_mem_append]
  exact ⟨⟨⟨⟨⟨fun a ha ↦ ActionSpec.keeps_of_kind (.inl (hmotions a ha)),
    fun a ha ↦ ActionSpec.keeps_of_kind (.inr (hobjects a ha))⟩, hfits⟩, hchanges⟩, htyping⟩, hkeys⟩

/-- A command keeps what its action keeps. -/
theorem EditState.KeptByCommands.execute (hP : KeptByCommands P fits) {registry : Registry}
    (hactions : ∀ a ∈ registry.specs, a.Keeps P fits allowed) {s : EditState} (h : P s)
    (options : Options) {command : Command} (hallowed : allowed command.action s.mode) :
    P (s.execute registry options command).2 := by
  unfold EditState.execute
  split
  · exact hP.bell s h
  · next spec hget =>
    have hkeeps := hactions spec (List.mem_of_find?_eq_some hget)
    have hid : spec.id = command.action := Registry.id_of_get? hget
    unfold ActionSpec.Keeps at hkeeps
    split
    · exact hP.applyMotion s _ _ h
    · exact hP.selectTextObject s _ _ h
    · next body hhandler =>
      rw [hhandler] at hkeeps
      split
      · exact hP.operateOnSelections s command body hkeeps h
      · next hselecting =>
        exact hP.compose s registry command body hkeeps h (Bool.eq_false_iff.mpr hselecting)
    · next f hhandler =>
      rw [hhandler] at hkeeps
      exact hkeeps _ command s h (hid ▸ hallowed)

end Actions

/-! ### Sessions -/

/-- What all that a session does to the state of the commands keeps. -/
structure EditState.Enduring (P : EditState → Prop) : Prop where
  withGuard : ∀ s guard, P s → P { s with editor := { s.editor with guard } }
  withListener : ∀ s listener, P s → P { s with editor := { s.editor with listener } }
  syncCarets : ∀ s, P s → P s.syncCarets
  waits : ∀ s, P s → s.mode = .normal → P { s with modes := s.modes.tryTransition .operatorPending }
  leaves : ∀ s, P s → s.mode = .operatorPending → s.modes.OnNormal →
    P { s with modes := s.modes.leavePending }
  bell : ∀ s, P s → P s.bell
  cancel : ∀ s, P s → s.modes.Coherent → s.mode ≠ .operatorPending → P s.cancel
  typeKeys : ∀ s keys, P s → s.mode.isTextEntry = true → P (s.typeKeys keys).2
  execute : ∀ s options command, P s → s.modes.Coherent → s.mode ≠ .operatorPending →
    OfferedAt s.mode command.action → P (s.execute .standard options command).2

/-- What reports keep in the normal mode, where they do not lead out of it. -/
def EditState.KeptByReports (P : EditState → Prop) : Prop :=
  ∀ (s : Session) event, P s.edit → s.mode = .normal →
    P (s.handleEvent event).edit ∧ (s.handleEvent event).mode = .normal

namespace EditState.Enduring

theorem and {P Q : EditState → Prop} (hP : Enduring P) (hQ : Enduring Q) :
    Enduring fun s ↦ P s ∧ Q s where
  withGuard s guard h := ⟨hP.withGuard s guard h.1, hQ.withGuard s guard h.2⟩
  withListener s listener h := ⟨hP.withListener s listener h.1, hQ.withListener s listener h.2⟩
  syncCarets s h := ⟨hP.syncCarets s h.1, hQ.syncCarets s h.2⟩
  waits s h hmode := ⟨hP.waits s h.1 hmode, hQ.waits s h.2 hmode⟩
  leaves s h hmode honNormal := ⟨hP.leaves s h.1 hmode honNormal, hQ.leaves s h.2 hmode honNormal⟩
  bell s h := ⟨hP.bell s h.1, hQ.bell s h.2⟩
  cancel s h hcoherent hne := ⟨hP.cancel s h.1 hcoherent hne, hQ.cancel s h.2 hcoherent hne⟩
  typeKeys s keys h hentry := ⟨hP.typeKeys s keys h.1 hentry, hQ.typeKeys s keys h.2 hentry⟩
  execute s options command h hcoherent hne hoffered :=
    ⟨hP.execute s options command h.1 hcoherent hne hoffered,
      hQ.execute s options command h.2 hcoherent hne hoffered⟩

variable {P : EditState → Prop} (hP : Enduring P) {s : EditState}
include hP

theorem prepared (h : P s) : P s.prepared := hP.syncCarets _ (hP.withGuard s _ h)

theorem unlock (h : P s) (token : SuppressionToken) : P (s.unlock token) := hP.withGuard s _ h

theorem guarded {α : Type} (h : P s) (f : EditState → α × EditState)
    (hf : P s.prepared → P (f s.prepared).2) : P (s.guarded f).2 :=
  hP.unlock (s := (f s.prepared).2) (hf (hP.prepared h)) s.lock.1

/-- The pending mode is left once no operator waits, for the normal mode. -/
theorem syncOperatorMode_false (h : P s) (honNormal : s.modes.OnNormal) :
    P (s.syncOperatorMode false) ∧ (s.syncOperatorMode false).modes.Coherent ∧
      (s.syncOperatorMode false).mode ≠ .operatorPending ∧
      ∀ id, Offered (.ofMode s.mode) id → OfferedAt (s.syncOperatorMode false).mode id := by
  refine ⟨?_, syncOperatorMode_coherent honNormal.coherent false,
    syncOperatorMode_settled honNormal.coherent,
    fun id hid ↦ ?_⟩
  · rw [syncOperatorMode_eq]
    by_cases hmode : s.mode = .operatorPending
    · simpa only [if_neg Bool.false_ne_true, if_pos hmode] using hP.leaves s h hmode honNormal
    · simpa only [if_neg Bool.false_ne_true, if_neg hmode] using h
  · rw [syncOperatorMode_eq]
    by_cases hmode : s.mode = .operatorPending
    · refine .inr ⟨?_, by rwa [hmode] at hid⟩
      have hparent : s.modes.parent = some .normal := by
        rw [honNormal]
        exact if_pos hmode
      simp only [if_neg Bool.false_ne_true, if_pos hmode]
      exact congrArg ModeMachine.mode (ModeMachine.leavePending_of_parent hmode hparent
        Mode.noConfusion)
    · refine .inl ?_
      simpa only [if_neg Bool.false_ne_true, if_neg hmode] using hid

/-- What acting on an outcome keeps while no operator waits. -/
theorem apply_settled (h : P s) (honNormal : s.modes.OnNormal) (options : Options)
    {outcome : Outcome} (hoffered : ∀ command, outcome = .resolved command →
      Offered (.ofMode s.mode) command.action) :
    P (s.apply .standard options false outcome).2 := by
  obtain ⟨hsynced, hcoherent, hne, hoffers⟩ := hP.syncOperatorMode_false h honNormal
  have hexecute := hP.execute
  unfold EditState.apply
  generalize s.syncOperatorMode false = synced at hsynced hcoherent hne hoffers
  -- the actions are only looked up, never gone through
  generalize Registry.standard = registry at hexecute ⊢
  cases outcome with
  | pending => exact hsynced
  | resolved command =>
    show P (synced.guarded fun s ↦ s.execute registry options command).2
    exact hP.guarded hsynced _ fun hprepared ↦
      hexecute synced.prepared options command hprepared hcoherent hne
        (hoffers _ (hoffered command rfl))
  | cancelled =>
    exact hP.guarded hsynced (fun s ↦ ((), s.cancel)) fun hprepared ↦
      hP.cancel synced.prepared hprepared hcoherent hne
  | unmapped keys =>
    dsimp only
    split
    · next hentry =>
      show P (synced.guarded fun s ↦ s.typeKeys keys).2
      exact hP.guarded hsynced _ fun hprepared ↦
        hP.typeKeys synced.prepared keys hprepared hentry
    · exact hP.bell synced hsynced

end EditState.Enduring

namespace Session

/-- A session with the standard actions, whatever strokes are put in the place of others, in a state
that has a property. Reports wait only before anything has been typed. -/
structure Governed (P : EditState → Prop) (s : Session) : Prop extends InStep s where
  standard : s.registry = .standard
  offers : s.keymap.Offers
  held : s.resolver.Held
  state : P s.edit
  quiet : s.editor.reported = [] ∨ EditState.KeptByReports P ∧ s.resolver = {} ∧ s.mode = .normal

variable {P : EditState → Prop} (hP : EditState.Enduring P) {s : Session}
include hP

theorem act_state (h : s.Governed P) {result : Outcome × Resolver}
    (hwaits : Resolver.Waits s.mode result) (hanswers : Resolver.Answers s.mode result) :
    P (s.act result).2.edit := by
  cases hpending : result.2.operatorPending with
  | true =>
    rw [act_edit_of_waits hwaits hpending]
    rcases (hwaits hpending).2 with hmode | hmode
    · have hsame : s.edit.modes.tryTransition .operatorPending = s.edit.modes := by
        rcases s.edit.modes.tryTransition_cases .operatorPending with ⟨heq, -⟩ | ⟨-, hne, -⟩
        · exact heq
        · exact absurd hmode hne
      rw [hsame]
      exact h.state
    · exact hP.waits s.edit h.state hmode
  | false =>
    show P (s.edit.apply s.registry s.options result.2.operatorPending result.1).2
    rw [h.standard, hpending]
    exact hP.apply_settled h.state h.onNormal s.options hanswers.command

theorem readNext_governed (h : s.Governed P) : s.readNext.Governed P := by
  cases hinput : s.resolver.input with
  | nil => rwa [readNext_of_nil hinput]
  | cons stroke rest =>
    have hread : s.mode = .operatorPending ↔ s.resolver.afterRead.operatorPending = true := h.mode
    have hwaits := Resolver.feed_waits hread h.places stroke
    have hanswers : Resolver.Answers s.mode (s.resolver.afterRead.feed stroke s.mode s.keymap
        s.registry) := by
      rw [h.standard]
      exact Resolver.feed_answers (r := s.resolver.afterRead) ⟨h.held.operator, h.held.awaitingChar⟩
        h.offers stroke
    have hreported : s.editor.reported = [] := by
      rcases h.quiet with hnone | ⟨-, hidle, -⟩
      · exact hnone
      · rw [hidle] at hinput
        cases hinput
    rw [readNext_of_cons hinput]
    refine ⟨act_inStep h.toInStep hwaits, h.standard, h.offers, hanswers.held,
      act_state hP h hwaits hanswers, ?_⟩
    exact .inl ((act_reported h.orderly _).trans hreported)

theorem flushNext_governed (h : s.Governed P) : s.flushNext.Governed P := by
  have hwaits := Resolver.flush_waits h.mode h.places
  have hanswers : Resolver.Answers s.mode (s.resolver.flush s.mode s.keymap s.registry) := by
    rw [h.standard]
    exact Resolver.flush_answers h.held h.offers
  refine ⟨act_inStep h.toInStep hwaits, h.standard, h.offers, hanswers.held,
    act_state hP h hwaits hanswers, ?_⟩
  rcases h.quiet with hnone | ⟨hkept, hidle, hmode⟩
  · exact .inl ((act_reported h.orderly _).trans hnone)
  · have hflush : s.resolver.flush s.mode s.keymap s.registry = (.pending, {}) := by
      rw [hidle]
      rfl
    refine .inr ⟨hkept, ?_, ?_⟩
    · rw [flushNext, hflush]
      rfl
    · rw [flushNext, hflush]
      have hne : s.edit.mode ≠ .operatorPending := by
        rw [show s.edit.mode = .normal from hmode]
        exact Mode.noConfusion
      show (s.edit.syncOperatorMode false).mode = .normal
      rw [EditState.syncOperatorMode_of_ne hne]
      exact hmode

theorem pump_governed (h : s.Governed P) : s.pump.Governed P := by
  rcases h.quiet with hnone | ⟨hkept, hidle, hmode⟩
  · rwa [pump_of_reported_nil hnone]
  · have hinStep := pump_inStep h.toInStep (Quiet.reported_nil_or (.inr hidle))
    have hreported := s.pump_reported
    obtain ⟨listener, htaken⟩ := s.editor.takeEvents_eq
    have hstate : P s.pump.edit ∧ s.pump.mode = .normal := by
      refine List.foldlRecOn (motive := fun t : Session ↦ P t.edit ∧ t.mode = .normal)
        s.editor.takeEvents.1
        handleEvent ⟨?_, hmode⟩ fun t ht event _ ↦ hkept t event ht.1 ht.2
      show P { s.edit with editor := s.editor.takeEvents.2 }
      rw [htaken]
      exact hP.withListener s.edit listener h.state
    obtain ⟨edit, dragging, hpump, -⟩ := s.pump_eq
    rw [hpump] at hinStep hreported hstate ⊢
    exact ⟨hinStep, h.standard, h.offers, h.held, hstate.1, .inl hreported⟩

theorem begin_governed (h : s.Governed P) (c : KeyCall) : (s.begin c).Governed P := by
  cases c with
  | key stroke =>
    obtain ⟨hinStep, hstandard, hoffers, hheld, hstate, -⟩ := pump_governed hP h
    exact ⟨⟨hinStep.orderly, hinStep.places, hinStep.mode, hinStep.onNormal⟩, hstandard, hoffers,
      ⟨hheld.operator, hheld.awaitingChar⟩, hstate, .inl s.pump_reported⟩
  | flush => exact flushNext_governed hP h

theorem call_governed (h : s.Governed P) (c : KeyCall) : (s.call c).Governed P :=
  call_keeps (P := Governed P) (fun _ c ht ↦ begin_governed hP ht c)
    (fun _ ht ↦ readNext_governed hP ht) h c

/-- What endures in the first state endures through all calls. -/
theorem calls_keep (options : Options) (editor : Editor) (early late : List Remap)
    (h : P { editor }) (hquiet : editor.reported = [] ∨ EditState.KeptByReports P)
    (calls : List KeyCall) :
    (calls.foldl call (opened options editor early late)).Governed P := by
  refine List.foldlRecOn (motive := Governed P) calls call ?_ fun _ ht c _ ↦ call_governed hP ht c
  refine ⟨opened_inStep options editor early late, opened_registry options editor early late,
    opened_offers options editor early late, ?_, ?_, ?_⟩
  · rw [opened_resolver]
    exact Resolver.held_of_none rfl rfl
  · rw [opened_edit]
    exact h
  · rw [Session.editor, mode, opened_edit]
    exact hquiet.imp_right fun hkept ↦ ⟨hkept, opened_resolver options editor early late, rfl⟩

end Session

end ModalEdit
