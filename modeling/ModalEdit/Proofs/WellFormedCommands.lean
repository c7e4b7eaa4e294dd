import ModalEdit.Proofs.CommandGrammar
import ModalEdit.Proofs.PartialInput

/-!
Every command that a resolver gives is well formed (`Command.WellFormed`): its count is in range, outside
of the visual modes an operator has a motion or text object with the same count, in the visual modes it
has none, and what expects a character has one. A command is put together from an operator and a motion
that wait in the resolver, so what waits there is kept to its kind (`Resolver.Parked`), and each way that
a step can end either waits or gives such a command (`Resolver.Yields`).
-/

set_option autoImplicit false
set_option relaxedAutoImplicit false

namespace ModalEdit

/-- A motion or text object as an operator takes it. -/
structure ActionCall.IsTarget (call : ActionCall) : Prop where
  kind : call.kind = .motion ∨ call.kind = .textObject
  register : call.register = none

namespace Command

def calls (command : Command) : List ActionCall := command.toActionCall :: command.argument.toList

/-- What a command that was typed in a base mode is like. That an argument has none of its own is in its
type. -/
structure WellFormed (base : Mode) (command : Command) : Prop where
  inRange : CountInRange command.rawCount
  count : command.count = command.rawCount.getD 1
  composed : command.kind = .operator → base.isVisual = false →
    ∃ argument, command.argument = some argument ∧ argument.IsTarget ∧
      argument.rawCount = command.rawCount ∧ argument.count = command.count
  onSelection : command.kind = .operator → base.isVisual = true → command.argument = none
  char : ∀ call ∈ command.calls, call.kind = .motion ∨ call.kind = .textObject →
    call.flags.expectsChar = true → call.char.isSome = true

end Command

theorem CountInRange.count_eq {call : ActionCall} (h : CountInRange call.rawCount) :
    call.count = call.rawCount.getD 1 := by
  unfold ActionCall.count
  cases hcount : call.rawCount with
  | none => rfl
  | some n => exact max_eq_left (h n hcount).1

/-- The lines that a doubled operator acts on do not wait for a character. -/
def Registry.LinesAtOnce (registry : Registry) : Prop :=
  ∀ spec, registry.get? ActionId.currentLine = some spec → spec.flags.expectsChar = false

namespace Resolver

/-- An operator that waits is one, and none waits over a visual mode; what waits for its character is a
motion or text object. -/
structure Parked (base : Mode) (r : Resolver) : Prop where
  operator : ∀ op ∈ r.operator, op.kind = .operator
  overVisual : base.isVisual = true → r.operator = none
  awaiting : ∀ call ∈ r.awaitingChar, call.IsTarget

/-- What a step leaves is of its kind, and what it gives is well formed. -/
structure Yields (base : Mode) (result : Outcome × Resolver) : Prop where
  parked : result.2.Parked base
  wellFormed : ∀ command, result.1 = .resolved command → command.WellFormed base

section Yields

variable {keymap : Keymap} {registry : Registry} {base : Mode} {r : Resolver}

theorem parked_of_idle (h : r.hasPending = false) : r.Parked base := by
  obtain ⟨-, hoperator, hawaiting⟩ := hasPending_eq_false_iff.mp h
  constructor <;> simp [hoperator, hawaiting]

theorem Parked.yields_pending {after : Resolver} (h : after.Parked base) : Yields base (.pending, after) :=
  ⟨h, fun _ heq ↦ nomatch heq⟩

theorem Parked.yields_unmapped {after : Resolver} (h : after.Parked base) (keys : Keys) :
    Yields base (.unmapped keys, after) :=
  ⟨h, fun _ heq ↦ nomatch heq⟩

/-- What is kept besides the operator and the motion is of no matter. -/
theorem Parked.of_eq {after : Resolver} (h : r.Parked base) (hoperator : after.operator = r.operator)
    (hawaiting : after.awaitingChar = r.awaitingChar) : after.Parked base :=
  ⟨hoperator ▸ h.operator, fun hvisual ↦ hoperator.trans (h.overVisual hvisual), hawaiting ▸ h.awaiting⟩

/-! ### A finished command -/

/-- A motion or text object with its character completes the operator that waits, or is a command. -/
theorem Parked.complete_yields (h : r.Parked base) {call : ActionCall} (hcall : call.IsTarget)
    (hrange : CountInRange call.rawCount)
    (hchar : call.flags.expectsChar = true → call.char.isSome = true) : Yields base (r.complete call) := by
  refine ⟨parked_of_idle rfl, fun command heq ↦ ?_⟩
  unfold complete at heq
  cases hoperator : r.operator with
  | none =>
    rw [hoperator] at heq
    obtain rfl := Outcome.resolved.inj heq
    have hne : call.kind ≠ .operator := by
      rcases hcall.kind with hkind | hkind <;> rw [hkind] <;> exact nofun
    refine ⟨hrange, hrange.count_eq, fun hkind ↦ absurd hkind hne, fun hkind ↦ absurd hkind hne, ?_⟩
    intro other hmem _
    obtain rfl := List.mem_singleton.mp hmem
    exact hchar
  | some op =>
    rw [hoperator] at heq
    obtain rfl := Outcome.resolved.inj heq
    have hkind : op.kind = .operator := h.operator op hoperator
    refine ⟨hrange, hrange.count_eq, fun _ _ ↦ ⟨call, rfl, hcall, rfl, rfl⟩, fun _ hvisual ↦ ?_, ?_⟩
    · cases hoperator.symm.trans (h.overVisual hvisual)
    · intro other hmem htarget
      rcases List.mem_pair.mp hmem with rfl | rfl
      · rcases htarget with htarget | htarget <;> cases hkind.symm.trans htarget
      · exact hchar

/-- A command without a target is no operator but on a selection. -/
theorem Parked.resolveAlone_yields (h : r.Parked base) (hfits : Fits base r) {call : ActionCall}
    (hkind : call.kind = .operator ∧ base.isVisual = true ∨ call.kind = .other) :
    Yields base (r.resolveAlone call) := by
  refine ⟨h.of_eq rfl rfl, fun command heq ↦ ?_⟩
  obtain rfl := Outcome.resolved.inj heq
  have hrange : CountInRange r.pending.totalCount :=
    PendingInput.totalCount_inRange hfits.beforeInRange hfits.afterInRange
  refine ⟨hrange, hrange.count_eq, fun hoperator hvisual ↦ ?_, fun _ _ ↦ rfl, ?_⟩
  · rcases hkind with ⟨-, hvisual'⟩ | hother
    · cases hvisual.symm.trans hvisual'
    · cases hother.symm.trans hoperator
  · intro other hmem htarget
    obtain rfl := List.mem_singleton.mp hmem
    rcases hkind with ⟨hkind, -⟩ | hkind <;> rcases htarget with htarget | htarget <;>
      cases hkind.symm.trans htarget

/-! ### Taking a sequence or giving it up -/

section Buffer

variable (hlines : registry.LinesAtOnce) (h : r.Parked base) (hfits : Fits base r)
include hlines h hfits

theorem acceptOperator_yields {id : ActionId} {spec : ActionSpec} (hget : registry.get? id = some spec)
    (hkind : spec.handler.kind = .operator) (keys : Keys) :
    Yields base (r.acceptAction id keys (r.modeOver base) registry) := by
  have htotal : CountInRange r.pending.totalCount :=
    PendingInput.totalCount_inRange hfits.beforeInRange hfits.afterInRange
  cases hvisual : (r.modeOver base).isVisual with
  | true =>
    have hnone : r.operator = none := by
      have hne : r.modeOver base ≠ .operatorPending := by
        intro hmode
        rw [hmode] at hvisual
        cases hvisual
      exact operator_eq_none_of_modeOver hne
    rw [acceptAction_on_selection hget hkind keys hvisual]
    rw [modeOver_of_none hnone] at hvisual
    exact h.resolveAlone_yields hfits (.inl ⟨hkind, hvisual⟩)
  | false =>
    rw [acceptAction_of_operator hget hkind keys hvisual]
    cases hoperator : r.operator with
    | none =>
      rw [modeOver_of_none hoperator] at hvisual
      refine Parked.yields_pending ⟨fun op hop ↦ ?_, fun hvisual' ↦ ?_, h.awaiting⟩
      · obtain rfl := Option.some.inj hop
        exact hkind
      · cases hvisual.symm.trans hvisual'
    | some op =>
      dsimp only
      split
      · refine h.complete_yields ⟨.inl rfl, rfl⟩ htotal fun hchar ↦ ?_
        change (((registry.get? ActionId.currentLine).map ActionSpec.flags).getD
          { linewise := true }).expectsChar = true at hchar
        cases hline : registry.get? ActionId.currentLine with
        | none => rw [hline] at hchar; cases hchar
        | some line =>
          rw [hline] at hchar
          cases (hlines line hline).symm.trans hchar
      · exact (parked_of_idle rfl).yields_unmapped keys

theorem acceptAction_yields (id : ActionId) (keys : Keys) :
    Yields base (r.acceptAction id keys (r.modeOver base) registry) := by
  have htotal : CountInRange r.pending.totalCount :=
    PendingInput.totalCount_inRange hfits.beforeInRange hfits.afterInRange
  have htarget : ∀ spec, registry.get? id = some spec →
      spec.handler.kind = .motion ∨ spec.handler.kind = .textObject →
      Yields base (r.acceptAction id keys (r.modeOver base) registry) := by
    intro spec hget hkind
    have hcall : (r.counted (typedCall spec keys)).IsTarget := ⟨hkind, rfl⟩
    rw [acceptAction_of_target hget hkind]
    split
    · refine Parked.yields_pending ⟨h.operator, h.overVisual, fun call hmem ↦ ?_⟩
      obtain rfl := Option.some.inj hmem
      exact hcall
    · next hchar =>
      have hcleared : (r.modifyPending (·.clearCounts)).Parked base := h.of_eq rfl rfl
      exact hcleared.complete_yields hcall htotal fun hexpects ↦ absurd hexpects hchar
  cases hget : registry.get? id with
  | none =>
    rw [acceptAction, hget]
    exact (parked_of_idle rfl).yields_unmapped keys
  | some spec =>
    cases hkind : spec.handler.kind with
    | operator => exact acceptOperator_yields hlines h hfits hget hkind keys
    | motion => exact htarget spec hget (.inl hkind)
    | textObject => exact htarget spec hget (.inr hkind)
    | other =>
      cases hwaits : r.operatorPending with
      | true =>
        rw [acceptAction_refused hget hkind hwaits]
        exact (parked_of_idle rfl).yields_unmapped keys
      | false =>
        have hnone : r.operator = none := by simpa [operatorPending] using hwaits
        rw [acceptAction_of_other hget hkind hnone]
        exact h.resolveAlone_yields hfits (.inr hkind)

theorem accept_yields (consumed : ℕ) (target : Target) :
    Yields base (r.accept consumed target (r.modeOver base) registry) := by
  have htaken : (r.takeKeys consumed).Parked base := h.of_eq rfl rfl
  refine accept_cases (motive := Yields base) r (r.modeOver base) registry consumed target ?expand
    ?overflow ?action
  case expand =>
    intro _ _ _
    refine Parked.yields_pending ?_
    exact htaken.of_eq rfl rfl
  case overflow => exact fun _ _ _ ↦ (parked_of_idle rfl).yields_unmapped _
  case action =>
    intro id _
    exact acceptAction_yields (r := r.takeKeys consumed) hlines htaken (hfits.withKeys [] _ _) id _

end Buffer

theorem Parked.giveUp_yields (h : r.Parked base) (mode : Mode) : Yields base (r.giveUp mode) := by
  refine giveUp_cases (motive := Yields base) r mode ?typed ?dropped
  case typed =>
    intro _ _ _ _ _
    refine Parked.yields_unmapped ?_ _
    exact h.of_eq rfl rfl
  case dropped => exact (parked_of_idle rfl).yields_unmapped _

/-! ### Feeding and flushing -/

section Step

variable (hlines : registry.LinesAtOnce) (h : r.Parked base) (hfits : Fits base r)
include hlines h hfits

theorem feed_yields (stroke : KeyStroke) :
    Yields base (r.feed stroke (r.modeOver base) keymap registry) := by
  have hkept (f : PendingInput → PendingInput) : (r.modifyPending f).Parked base := h.of_eq rfl rfl
  refine feed_cases (motive := Yields base) r (r.modeOver base) keymap registry stroke ?cancel
    ?argument ?refused ?named ?digit ?mark ?buffered
  case cancel => exact fun _ _ ↦ ⟨parked_of_idle rfl, fun _ heq ↦ nomatch heq⟩
  case argument =>
    intro call c hcall _
    have hrest : ({ r with awaitingChar := none } : Resolver).Parked base :=
      ⟨h.operator, h.overVisual, fun _ hnone ↦ nomatch hnone⟩
    have hfull : ({ call with char := some c, keys := call.keys ++ [stroke] } : ActionCall).IsTarget :=
      ⟨(h.awaiting call hcall).kind, (h.awaiting call hcall).register⟩
    have hrange : CountInRange call.rawCount := hfits.awaitingInRange call hcall
    exact hrest.complete_yields hfull hrange fun _ ↦ rfl
  case refused => exact fun _ ↦ (parked_of_idle rfl).yields_unmapped _
  case named => exact fun _ _ _ _ ↦ (hkept _).yields_pending
  case digit => exact fun _ _ _ _ _ ↦ (hkept _).yields_pending
  case mark => exact fun _ _ _ _ ↦ (hkept _).yields_pending
  case buffered =>
    intro _
    have hpushed : (r.push stroke).Parked base := h.of_eq rfl rfl
    refine buffer_cases (motive := Yields base) r (r.modeOver base) keymap registry stroke
      ?wait ?take ?leave
    case wait => exact fun _ ↦ hpushed.yields_pending
    case take =>
      exact fun consumed target _ ↦ accept_yields hlines hpushed (hfits.withKeys _ _ _) consumed target
    case leave => exact fun _ ↦ hpushed.giveUp_yields _

theorem flush_yields : Yields base (r.flush (r.modeOver base) keymap registry) := by
  refine flush_cases (motive := Yields base) r (r.modeOver base) keymap registry ?idle ?take ?leave
  case idle => exact fun _ ↦ h.yields_pending
  case take => exact fun consumed target _ _ ↦ accept_yields hlines h hfits consumed target
  case leave => exact fun _ _ ↦ h.giveUp_yields _

/-! ### Every state of a run -/

theorem Call.run_parked {c : Call} (hmode : c.In (r.modeOver base)) :
    (c.run keymap registry r).Parked base := by
  cases c with
  | feed stroke mode =>
    obtain rfl : mode = r.modeOver base := hmode
    exact (feed_yields hlines h hfits stroke).parked
  | flush mode =>
    obtain rfl : mode = r.modeOver base := hmode
    exact (flush_yields hlines h hfits).parked
  | read => exact h.of_eq rfl rfl
  | reset => exact parked_of_idle rfl
  | clear => exact parked_of_idle rfl

end Step

theorem Reaches.parked (hlines : registry.LinesAtOnce) (h : Reaches keymap registry base r) :
    r.Parked base := by
  induction h with
  | start _ => exact parked_of_idle rfl
  | change _ hidle _ _ => exact parked_of_idle hidle
  | enqueue stroke _ ih => exact ih.of_eq rfl rfl
  | call hreach hmode ih => exact Call.run_parked hlines ih hreach.consistent.toFits hmode

end Yields

theorem standard_linesAtOnce : Registry.standard.LinesAtOnce := by
  intro spec hget
  obtain rfl := Option.some.inj (currentLine_registered.symm.trans hget)
  rfl

/-- Whatever is bound, every command that is given to the strokes and flushes of a run, each in the mode
that it is in, is well formed. -/
theorem resolved_commands_are_wellFormed (keymap : Keymap) {base : Mode} {r : Resolver}
    (h : Reaches keymap .standard base r) (command : Command) :
    (∀ stroke, (r.feed stroke (r.modeOver base) keymap .standard).1 = .resolved command →
      command.WellFormed base) ∧
    ((r.flush (r.modeOver base) keymap .standard).1 = .resolved command → command.WellFormed base) :=
  have hparked := h.parked standard_linesAtOnce
  have hfits := h.consistent.toFits
  ⟨fun stroke ↦ (feed_yields standard_linesAtOnce hparked hfits stroke).wellFormed command,
    (flush_yields standard_linesAtOnce hparked hfits).wellFormed command⟩

/-- The character of `"a2d3fx` completes a motion that an operator waits for: six times forward to the
character, for both. -/
theorem delete_to_character_is_wellFormed :
    let keymap := Keymap.bindAll {} (Keymap.Default.motions ++ Keymap.Default.operators)
    let r := ['"', 'a', '2', 'd', '3', 'f'].foldl
      (fun r c ↦ (r.feed (.char c) (r.modeOver .normal) keymap .standard).2) ({} : Resolver)
    let command : Command :=
      { kind := .operator, action := ActionId.delete, rawCount := some 6, register := some 'a',
        keys := [.char 'd', .char 'f', .char 'x'],
        argument := some
          { kind := .motion, action := ActionId.findForward, rawCount := some 6, char := some 'x',
            flags := { inclusive := true, characterwise := true, expectsChar := true },
            keys := [.char 'f', .char 'x'] } }
    Reaches keymap .standard .normal r ∧
      (r.feed (.char 'x') (r.modeOver .normal) keymap .standard).1 = .resolved command ∧
      command.WellFormed .normal := by
  intro keymap r command
  have hreach : Reaches keymap .standard .normal r :=
    List.foldlRecOn (motive := Reaches keymap .standard .normal) _ _ (.start Mode.noConfusion)
      fun _ ht c _ ↦ .call (c := .feed (.char c) _) ht rfl
  have hresolved : (r.feed (.char 'x') (r.modeOver .normal) keymap .standard).1 = .resolved command := by
    decide +kernel
  exact ⟨hreach, hresolved, (resolved_commands_are_wellFormed keymap hreach command).1 _ hresolved⟩

end Resolver

end ModalEdit
