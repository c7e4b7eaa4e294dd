import ModalEdit.Proofs.ResolverStep
import ModalEdit.Proofs.SessionFrame
import ModalEdit.Proofs.StandardSession

/-!
The mode machine and the resolver go in lockstep: the machine is in the pending mode just while an
operator waits, and it then lies on the normal mode (`Session.InStep`). After a step of the resolver an
operator can only wait if there is nothing to do yet, in the pending mode or in the normal one
(`Resolver.Waits`). So acting on a step keeps the lockstep and does nothing to the editor while an
operator waits (`act_inStep`, `act_edit_of_waits`); turns of the reading loop, flushes and keys are made
of such steps. The result for the sessions with the default bindings is
`keys_keep_operator_mode_in_step`.
-/

set_option autoImplicit false
set_option relaxedAutoImplicit false

namespace ModalEdit

namespace Resolver

/-- If an operator waits after a step then there is nothing to do yet, and the step was taken in the
pending mode or in the normal one. -/
def Waits (mode : Mode) (result : Outcome × Resolver) : Prop :=
  result.2.operatorPending = true →
    result.1 = .pending ∧ (mode = .operatorPending ∨ mode = .normal)

section Waits

variable {mode : Mode} {r : Resolver} {keymap : Keymap} {registry : Registry}

theorem Waits.of_none {result : Outcome × Resolver} (h : result.2.operator = none) :
    Waits mode result := by
  intro hwaits
  cases (operatorPending_of_none h).symm.trans hwaits

/-- An operator that waited before was waiting in the pending mode. -/
theorem Waits.of_kept {after : Resolver} (hmode : mode = .operatorPending ↔ r.operatorPending = true)
    (h : after.operator = r.operator) : Waits mode (.pending, after) := by
  intro hwaits
  have hbefore : r.operatorPending = true := by rwa [operatorPending, ← h]
  exact ⟨rfl, .inl (hmode.mpr hbefore)⟩

theorem operator_eq_none (hmode : mode = .operatorPending ↔ r.operatorPending = true)
    (hne : mode ≠ .operatorPending) : r.operator = none := by
  cases hoperator : r.operator with
  | none => rfl
  | some op => exact absurd (hmode.mpr (by rw [operatorPending, hoperator]; rfl)) hne

theorem acceptAction_waits (hmode : mode = .operatorPending ↔ r.operatorPending = true) (id : ActionId)
    (keys : Keys) (hplace : ∀ spec, registry.get? id = some spec → spec.handler.kind = .operator →
      mode.takesOperators ∨ mode = .operatorPending) :
    Waits mode (r.acceptAction id keys mode registry) := by
  refine acceptAction_cases (motive := Waits mode) r mode registry id keys ?unregistered ?onSelection
    ?waits ?doubled ?mismatched ?awaits ?completes ?refused ?alone
  case unregistered => exact fun _ ↦ .of_none rfl
  case onSelection =>
    intro spec _ _ hvisual
    have hne : mode ≠ .operatorPending := by
      rintro rfl
      cases hvisual
    exact .of_none (operator_eq_none hmode hne)
  case waits =>
    intro spec hget hkind hvisual _ _
    rcases hplace spec hget hkind with (hnormal | hisVisual) | hpending
    · exact ⟨rfl, .inr hnormal⟩
    · rw [hvisual] at hisVisual
      cases hisVisual
    · exact ⟨rfl, .inl hpending⟩
  case doubled => exact fun _ _ _ _ _ _ _ _ ↦ .of_none rfl
  case mismatched => exact fun _ _ _ _ _ _ ↦ .of_none rfl
  case awaits => exact fun _ _ _ ↦ .of_kept hmode rfl
  case completes => exact fun _ _ _ ↦ .of_none rfl
  case refused => exact fun _ _ _ _ ↦ .of_none rfl
  case alone => exact fun _ _ _ hnone ↦ .of_none hnone

theorem accept_waits (hmode : mode = .operatorPending ↔ r.operatorPending = true)
    (hplaces : keymap.PlacesOperators registry) {consumed : Nat} {target : Target} {ambiguous : Bool}
    (hresolve : keymap.resolve (.ofMode mode) r.pending.keys = .matched consumed target ambiguous) :
    Waits mode (r.accept consumed target mode registry) := by
  refine accept_cases (motive := Waits mode) r mode registry consumed target ?expand ?overflow ?action
  case expand => exact fun _ _ _ ↦ .of_kept hmode rfl
  case overflow => exact fun _ _ _ ↦ .of_none rfl
  case action =>
    intro id htarget
    rw [htarget] at hresolve
    have htaken : mode = .operatorPending ↔ (r.takeKeys consumed).operatorPending = true := hmode
    refine acceptAction_waits htaken id _ fun spec hget hkind ↦ ?_
    exact hplaces mode _ consumed id ambiguous spec hresolve hget hkind

theorem giveUp_waits (r : Resolver) (mode : Mode) : Waits mode (r.giveUp mode) := by
  refine giveUp_cases (motive := Waits mode) r mode ?typed ?dropped
  case typed => exact fun _ _ _ _ hnone ↦ .of_none hnone
  case dropped => exact .of_none rfl

theorem feed_waits (hmode : mode = .operatorPending ↔ r.operatorPending = true)
    (hplaces : keymap.PlacesOperators registry) (stroke : KeyStroke) :
    Waits mode (r.feed stroke mode keymap registry) := by
  refine feed_cases (motive := Waits mode) r mode keymap registry stroke ?cancel ?argument ?refused
    ?named ?digit ?mark ?buffered
  case cancel => exact fun _ _ ↦ .of_none rfl
  case argument => exact fun _ _ _ _ ↦ .of_none rfl
  case refused => exact fun _ ↦ .of_none rfl
  case named => exact fun _ _ _ _ ↦ .of_kept hmode rfl
  case digit => exact fun _ _ _ _ _ ↦ .of_kept hmode rfl
  case mark => exact fun _ _ _ _ ↦ .of_kept hmode rfl
  case buffered =>
    intro _
    refine buffer_cases (motive := Waits mode) r mode keymap registry stroke ?wait ?take ?leave
    case wait => exact fun _ ↦ .of_kept hmode rfl
    case take =>
      intro consumed target hresolve
      have hpushed : mode = .operatorPending ↔ (r.push stroke).operatorPending = true := hmode
      exact accept_waits hpushed hplaces hresolve
    case leave => exact fun _ ↦ giveUp_waits (r.push stroke) mode

theorem flush_waits (hmode : mode = .operatorPending ↔ r.operatorPending = true)
    (hplaces : keymap.PlacesOperators registry) : Waits mode (r.flush mode keymap registry) := by
  refine flush_cases (motive := Waits mode) r mode keymap registry ?idle ?take ?leave
  case idle => exact fun _ ↦ .of_kept hmode rfl
  case take => exact fun _ _ _ hresolve ↦ accept_waits hmode hplaces hresolve
  case leave => exact fun _ _ ↦ giveUp_waits r mode

end Waits

end Resolver

namespace ModeMachine

/-- The pending mode lies on the normal one, and no mode on any other. -/
def OnNormal (m : ModeMachine) : Prop :=
  m.parent = if m.mode = .operatorPending then some .normal else none

variable {m : ModeMachine}

theorem OnNormal.coherent (h : m.OnNormal) : m.Coherent := by
  rw [OnNormal] at h
  rw [Coherent]
  by_cases hmode : m.mode = .operatorPending
  · rw [if_pos hmode] at h ⊢
    exact ⟨.normal, h, .inl rfl⟩
  · rwa [if_neg hmode] at h ⊢

theorem Coherent.onNormal (h : m.Coherent) (hmode : m.mode ≠ .operatorPending) : m.OnNormal := by
  rw [OnNormal, if_neg hmode]
  exact h.parent_eq_none hmode

/-- An operator that is typed in the normal mode, or waits already, waits in the pending mode. -/
theorem OnNormal.pends (h : m.OnNormal) (hmode : m.mode = .operatorPending ∨ m.mode = .normal) :
    (m.tryTransition .operatorPending).mode = .operatorPending ∧
      (m.tryTransition .operatorPending).OnNormal := by
  rcases m.tryTransition_cases .operatorPending with ⟨heq, hsame | hrefused⟩ | ⟨heq, hne, -⟩
  · rw [heq]
    exact ⟨hsame, h⟩
  · rcases hmode with hpending | hnormal
    · rw [heq]
      exact ⟨hpending, h⟩
    · rw [hnormal] at hrefused
      cases hrefused
  · have hnormal : m.mode = .normal := hmode.resolve_left hne
    rw [heq, OnNormal, moved_mode, moved_parent, if_pos rfl, if_pos rfl, hnormal]
    exact ⟨rfl, rfl⟩

end ModeMachine

namespace Session

/-- The machine is in the pending mode just while an operator waits, and then over the normal mode; and
what is bound and registered does not upset this. -/
structure InStep (s : Session) : Prop where
  orderly : s.registry.Orderly
  places : s.keymap.PlacesOperators s.registry
  mode : s.mode = .operatorPending ↔ s.resolver.operatorPending = true
  onNormal : s.edit.modes.OnNormal

variable {s : Session}

/-! ### One step -/

/-- While an operator waits there is nothing done but to follow it into the pending mode. -/
theorem act_edit_of_waits {result : Outcome × Resolver} (hwaits : Resolver.Waits s.mode result)
    (hpending : result.2.operatorPending = true) :
    (s.act result).2.edit =
      { s.edit with modes := s.edit.modes.tryTransition .operatorPending } := by
  show (s.edit.apply s.registry s.options result.2.operatorPending result.1).2 = _
  rw [(hwaits hpending).1, hpending]
  rfl

theorem act_inStep (h : s.InStep) {result : Outcome × Resolver}
    (hwaits : Resolver.Waits s.mode result) : (s.act result).2.InStep := by
  cases hpending : result.2.operatorPending with
  | true =>
    have hedit := act_edit_of_waits hwaits hpending
    have hpends := h.onNormal.pends (hwaits hpending).2
    refine ⟨h.orderly, h.places, ⟨fun _ ↦ hpending, fun _ ↦ ?_⟩, ?_⟩
    · show (s.act result).2.edit.modes.mode = .operatorPending
      rw [hedit]
      exact hpends.1
    · rw [hedit]
      exact hpends.2
  | false =>
    have hne := act_settled h.orderly h.onNormal.coherent hpending
    have hcoherent := act_coherent h.orderly h.onNormal.coherent result
    refine ⟨h.orderly, h.places, ⟨fun hmode ↦ absurd hmode hne, fun hwaiting ↦ ?_⟩,
      hcoherent.onNormal hne⟩
    have hnone : result.2.operatorPending = true := hwaiting
    rw [hpending] at hnone
    cases hnone

theorem readNext_inStep (h : s.InStep) : s.readNext.InStep := by
  cases hinput : s.resolver.input with
  | nil => rwa [readNext_of_nil hinput]
  | cons stroke rest =>
    rw [readNext_of_cons hinput]
    have hread : s.mode = .operatorPending ↔ s.resolver.afterRead.operatorPending = true := h.mode
    exact act_inStep h (Resolver.feed_waits hread h.places stroke)

theorem flushNext_inStep (h : s.InStep) : s.flushNext.InStep :=
  act_inStep h (Resolver.flush_waits h.mode h.places)

/-! ### Calls -/

/-- The steps that the resolver takes in a call: the flush, and every turn of the reading loop. -/
inductive StepOf (s : Session) : KeyCall → Session → Session → Prop
  | flush : StepOf s .flush s s.flushNext
  | turn (c : KeyCall) (turns : Nat) :
    StepOf s c (readNext^[turns] (s.begin c)) (readNext^[turns + 1] (s.begin c))

/-- No report waits, or nothing has been typed yet. -/
def Quiet (s : Session) : Prop := s.editor.reported = [] ∨ s.resolver = {}

/-- Reports that come while no operator waits do not upset the lockstep. -/
theorem pump_inStep (h : s.InStep)
    (hquiet : s.editor.reported = [] ∨ s.resolver.operatorPending = false) : s.pump.InStep := by
  rcases hquiet with hnone | hidle
  · rwa [pump_of_reported_nil hnone]
  · have hidlePump : s.pump.resolver.operatorPending = false := by rwa [pump_resolver]
    have hne : s.mode ≠ .operatorPending := by
      intro hmode
      cases hidle.symm.trans (h.mode.mp hmode)
    have hafter : s.pump.mode ≠ .operatorPending := s.pump_steady.settled hne
    have honNormal := (s.pump_steady.coherent h.onNormal.coherent).onNormal hafter
    obtain ⟨edit, dragging, hpump, -⟩ := s.pump_eq
    rw [hpump] at hidlePump hafter honNormal ⊢
    refine ⟨h.orderly, h.places, ⟨fun hmode ↦ absurd hmode hafter, fun hwaits ↦ ?_⟩, honNormal⟩
    rw [hidlePump] at hwaits
    cases hwaits

theorem Quiet.reported_nil_or (h : s.Quiet) :
    s.editor.reported = [] ∨ s.resolver.operatorPending = false :=
  h.imp_right fun hidle ↦ by
    rw [hidle]
    rfl

/-- A call begins in step, and so that no report waits while anything is read. -/
theorem begin_inStep (h : s.InStep ∧ s.Quiet) (c : KeyCall) :
    (s.begin c).InStep ∧ (s.begin c).Quiet := by
  obtain ⟨hstep, hquiet⟩ := h
  cases c with
  | key stroke =>
    have hpumped := pump_inStep hstep hquiet.reported_nil_or
    exact ⟨⟨hpumped.orderly, hpumped.places, hpumped.mode, hpumped.onNormal⟩, .inl s.pump_reported⟩
  | flush =>
    refine ⟨flushNext_inStep hstep, ?_⟩
    rcases hquiet with hnone | hidle
    · refine .inl ?_
      show s.flushNext.editor.reported = []
      rw [flushNext, act_reported hstep.orderly, hnone]
    · refine .inr ?_
      show (s.resolver.flush s.mode s.keymap s.registry).2 = {}
      rw [hidle]
      rfl

theorem readNext_quiet (horderly : s.registry.Orderly) (hquiet : s.Quiet) : s.readNext.Quiet := by
  rcases hquiet with hnone | hidle
  · refine .inl ?_
    rw [readNext_reported horderly, hnone]
  · have hinput : s.resolver.input = [] := by rw [hidle]
    rw [readNext_of_nil hinput]
    exact .inr hidle

theorem readNext_keeps (h : s.InStep ∧ s.Quiet) : s.readNext.InStep ∧ s.readNext.Quiet :=
  ⟨readNext_inStep h.1, readNext_quiet h.1.orderly h.2⟩

/-- While an operator waits after a step, the step has changed neither the editor nor what is known of
the carets. -/
theorem StepOf.edit_of_waits (h : s.InStep ∧ s.Quiet) {c : KeyCall} {before after : Session}
    (hstep : StepOf s c before after) (hwaits : after.resolver.operatorPending = true) :
    after.editor = before.editor ∧ after.edit.carets = before.edit.carets := by
  cases hstep with
  | flush =>
    rw [editor, flushNext, act_edit_of_waits (Resolver.flush_waits h.1.mode h.1.places) hwaits]
    exact ⟨rfl, rfl⟩
  | turn c turns =>
    have hbefore : (readNext^[turns] (s.begin c)).InStep :=
      (Function.Iterate.rec (fun t : Session ↦ t.InStep ∧ t.Quiet) (begin_inStep h c)
        (fun _ ht ↦ readNext_keeps ht) turns).1
    rw [Function.iterate_succ_apply'] at hwaits ⊢
    generalize readNext^[turns] (s.begin c) = t at hbefore hwaits ⊢
    cases hinput : t.resolver.input with
    | nil =>
      rw [readNext_of_nil hinput]
      exact ⟨rfl, rfl⟩
    | cons stroke rest =>
      have hread : t.mode = .operatorPending ↔ t.resolver.afterRead.operatorPending = true :=
        hbefore.mode
      rw [readNext_of_cons hinput] at hwaits ⊢
      rw [editor, act_edit_of_waits (Resolver.feed_waits hread hbefore.places stroke) hwaits]
      exact ⟨rfl, rfl⟩

theorem opened_inStep (options : Options) (editor : Editor) (early late : List Remap) :
    (opened options editor early late).InStep := by
  refine ⟨?_, ?_, ?_, ?_⟩
  · rw [opened_registry]
    exact Registry.standard_orderly
  · rw [opened_registry]
    exact opened_placesOperators options editor early late
  · rw [mode, opened_edit, opened_resolver]
    exact ⟨nofun, nofun⟩
  · rw [opened_edit]
    rfl

/-- However a session with the default bindings, both extensions and any further replacements of
strokes is called, after each call its mode is the pending one just while an operator waits, the pending
mode lies on the normal one, and there is nothing left to read. And no step of the resolver after which
an operator waits changes the editor, with its text, registers and carets, or what is known of the
carets. -/
theorem keys_keep_operator_mode_in_step (options : Options) (editor : Editor)
    (early late : List Remap) (calls : List KeyCall) :
    let s := calls.foldl call (opened options editor early late)
    (s.mode = .operatorPending ↔ s.resolver.operatorPending = true) ∧
      s.edit.modes.parent = (if s.mode = .operatorPending then some .normal else none) ∧
      s.resolver.input = [] ∧
      ∀ c, (∃ turns, s.call c = readNext^[turns] (s.begin c)) ∧
        ∀ before after, StepOf s c before after → after.resolver.operatorPending = true →
          after.editor = before.editor ∧ after.edit.carets = before.edit.carets := by
  intro s
  have hresolver := opened_resolver options editor early late
  have hs : (s.InStep ∧ s.Quiet) ∧ s.resolver.input = [] := by
    refine List.foldlRecOn (motive := fun t ↦ (t.InStep ∧ t.Quiet) ∧ t.resolver.input = []) calls call
      ⟨⟨opened_inStep options editor early late, .inr hresolver⟩, by rw [hresolver]⟩ ?_
    rintro t ⟨ht, -⟩ c -
    exact ⟨call_keeps (P := fun t ↦ t.InStep ∧ t.Quiet) (fun _ c h ↦ begin_inStep h c)
      (fun _ h ↦ readNext_keeps h) ht c, t.call_input c⟩
  obtain ⟨hstep, hinput⟩ := hs
  refine ⟨hstep.1.mode, hstep.1.onNormal, hinput, fun c ↦ ⟨s.exists_call_eq_iterate c, ?_⟩⟩
  intro before after hof hwaits
  exact hof.edit_of_waits hstep hwaits

end Session

end ModalEdit
