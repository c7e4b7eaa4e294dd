import ModalEdit.Proofs.OfferedActions
import ModalEdit.Proofs.SessionFrame

/-!
The commands that a key has run. While the input is read, each turn that resolves a command runs it
(`Session.commandsRead`), and a key has run what was so resolved until nothing was left to read
(`Session.commandsOf`). What the turns without a command keep, and each of these commands keeps, holds after
the key (`Session.drain_keeps_through`), and what the key reports done is what the last turn did
(`Session.drain_executed`). A command says of its action what is registered of it, its kind and its flags
(`ActionCall.Registered`): the resolver holds back no other calls (`Resolver.Recalls`).
-/

set_option autoImplicit false
set_option relaxedAutoImplicit false

namespace ModalEdit

/-- The call is of a registered action, with the kind and the flags that are registered of it. -/
def ActionCall.Registered (registry : Registry) (call : ActionCall) : Prop :=
  ∃ spec, registry.get? call.action = some spec ∧ call.kind = spec.handler.kind ∧
    call.flags = spec.flags

def Outcome.command? : Outcome → Option Command
  | .resolved command => some command
  | _ => none

namespace Resolver

/-- What waits for more has been registered so. -/
structure Recalls (registry : Registry) (r : Resolver) : Prop where
  operator : ∀ call ∈ r.operator, call.Registered registry
  awaitingChar : ∀ call ∈ r.awaitingChar, call.Registered registry

/-- A command has been registered so, and what waits for more. -/
structure RecallsIn (registry : Registry) (result : Outcome × Resolver) : Prop where
  command : ∀ command ∈ result.1.command?, command.Registered registry
  recalls : result.2.Recalls registry

section Recalls

variable {registry : Registry} {keymap : Keymap} {mode : Mode} {r after : Resolver}

theorem recalls_of_none (hoperator : r.operator = none) (hawaiting : r.awaitingChar = none) :
    r.Recalls registry := by
  constructor <;> simp [hoperator, hawaiting]

theorem recalls_reset (r : Resolver) : r.reset.Recalls registry := recalls_of_none rfl rfl

theorem RecallsIn.of_none {result : Outcome × Resolver} (hnone : result.1.command? = none)
    (h : result.2.Recalls registry) : RecallsIn registry result where
  command command heq := by
    rw [hnone] at heq
    cases heq
  recalls := h

/-- Only the strokes and counts have changed, and nothing is asked for. -/
theorem Recalls.pending (h : r.Recalls registry) (hoperator : after.operator = r.operator)
    (hawaiting : after.awaitingChar = r.awaitingChar) : RecallsIn registry (.pending, after) :=
  .of_none rfl ⟨hoperator ▸ h.operator, hawaiting ▸ h.awaitingChar⟩

theorem registered_typedCall {id : ActionId} {spec : ActionSpec} (hget : registry.get? id = some spec)
    (keys : Keys) : (typedCall spec keys).Registered registry := by
  have hid : spec.id = id := Registry.id_of_get? hget
  refine ⟨spec, ?_, rfl, rfl⟩
  rwa [← hid] at hget

/-- What is complete goes to the operator that waits, or is a command alone. -/
theorem Recalls.complete (h : r.Recalls registry) {call : ActionCall}
    (hcall : r.operator = none → call.Registered registry) : RecallsIn registry (r.complete call) := by
  refine ⟨fun command heq ↦ ?_, r.recalls_reset⟩
  obtain rfl := Option.some.inj heq
  cases hoperator : r.operator with
  | none => exact hcall hoperator
  | some op => exact h.operator op hoperator

theorem Recalls.resolveAlone (h : r.Recalls registry) {call : ActionCall}
    (hcall : call.Registered registry) : RecallsIn registry (r.resolveAlone call) := by
  refine ⟨fun command heq ↦ ?_, h.operator, h.awaitingChar⟩
  obtain rfl := Option.some.inj heq
  exact hcall

theorem Recalls.acceptAction (h : r.Recalls registry) (id : ActionId) (keys : Keys) :
    RecallsIn registry (r.acceptAction id keys mode registry) := by
  have htyped {spec : ActionSpec} (hget : registry.get? id = some spec) :
      (r.counted (typedCall spec keys)).Registered registry := registered_typedCall hget keys
  refine acceptAction_cases (motive := RecallsIn registry) r mode registry id keys ?unregistered
    ?onSelection ?waits ?doubled ?mismatched ?awaits ?completes ?refused ?alone
  case unregistered => exact fun _ ↦ .of_none rfl r.recalls_reset
  case onSelection => exact fun spec hget _ _ ↦ h.resolveAlone (registered_typedCall hget keys)
  case waits =>
    intro spec hget _ _ _
    refine .of_none rfl ⟨fun call hcall ↦ ?_, h.awaitingChar⟩
    obtain rfl := Option.some.inj hcall
    exact registered_typedCall hget keys
  case doubled =>
    intro spec op lines _ _ _ hoperator _
    refine h.complete fun hnone ↦ ?_
    rw [hoperator] at hnone
    cases hnone
  case mismatched => exact fun _ _ _ _ _ _ ↦ .of_none rfl r.recalls_reset
  case awaits =>
    intro spec hget _
    refine .of_none rfl ⟨h.operator, fun call hcall ↦ ?_⟩
    obtain rfl := Option.some.inj hcall
    exact htyped hget
  case completes =>
    intro spec hget _
    exact Recalls.complete (r := r.modifyPending (·.clearCounts)) ⟨h.operator, h.awaitingChar⟩
      fun _ ↦ htyped hget
  case refused => exact fun _ _ _ _ ↦ .of_none rfl r.recalls_reset
  case alone => exact fun spec hget _ _ ↦ h.resolveAlone (registered_typedCall hget keys)

theorem Recalls.accept (h : r.Recalls registry) (consumed : Nat) (target : Target) :
    RecallsIn registry (r.accept consumed target mode registry) := by
  refine accept_cases (motive := RecallsIn registry) r mode registry consumed target ?expand ?overflow
    ?action
  case expand => exact fun _ _ _ ↦ h.pending rfl rfl
  case overflow => exact fun _ _ _ ↦ .of_none rfl (recalls_of_none rfl rfl)
  case action =>
    exact fun id _ ↦ Recalls.acceptAction (r := r.takeKeys consumed) ⟨h.operator, h.awaitingChar⟩ id _

theorem Recalls.giveUp (h : r.Recalls registry) : RecallsIn registry (r.giveUp mode) := by
  refine giveUp_cases (motive := RecallsIn registry) r mode ?typed ?dropped
  case typed => exact fun _ _ _ _ _ ↦ .of_none rfl ⟨h.operator, h.awaitingChar⟩
  case dropped => exact .of_none rfl r.recalls_reset

theorem Recalls.feed (h : r.Recalls registry) (stroke : KeyStroke) :
    RecallsIn registry (r.feed stroke mode keymap registry) := by
  refine feed_cases (motive := RecallsIn registry) r mode keymap registry stroke ?cancel ?argument
    ?refused ?named ?digit ?mark ?buffered
  case cancel => exact fun _ _ ↦ .of_none rfl r.recalls_reset
  case argument =>
    intro call c hawaiting _
    exact Recalls.complete (r := { r with awaitingChar := none }) ⟨h.operator, fun _ heq ↦ by cases heq⟩
      fun _ ↦ h.awaitingChar call hawaiting
  case refused => exact fun _ ↦ .of_none rfl r.recalls_reset
  case named => exact fun _ _ _ _ ↦ h.pending rfl rfl
  case digit => exact fun _ _ _ _ _ ↦ h.pending rfl rfl
  case mark => exact fun _ _ _ _ ↦ h.pending rfl rfl
  case buffered =>
    intro _
    have hpushed : (r.push stroke).Recalls registry := ⟨h.operator, h.awaitingChar⟩
    refine buffer_cases (motive := RecallsIn registry) r mode keymap registry stroke ?wait ?take ?leave
    case wait => exact fun _ ↦ h.pending rfl rfl
    case take => exact fun consumed target _ ↦ hpushed.accept consumed target
    case leave => exact fun _ ↦ hpushed.giveUp

theorem Recalls.flush (h : r.Recalls registry) :
    RecallsIn registry (r.flush mode keymap registry) := by
  refine flush_cases (motive := RecallsIn registry) r mode keymap registry ?idle ?take ?leave
  case idle => exact fun _ ↦ h.pending rfl rfl
  case take => exact fun consumed target _ _ ↦ h.accept consumed target
  case leave => exact fun _ _ ↦ h.giveUp

end Recalls

end Resolver

/-- Nothing is reported executed but a command. -/
theorem EditState.resolved_of_executed {s t : EditState} {registry : Registry} {options : Options}
    {operatorPending : Bool} {outcome : Outcome}
    (h : s.apply registry options operatorPending outcome = (.executed, t)) :
    ∃ command, outcome = .resolved command := by
  have hdone := congrArg Prod.fst h
  unfold EditState.apply at hdone
  cases outcome with
  | resolved command => exact ⟨command, rfl⟩
  | pending => cases hdone
  | cancelled => cases hdone
  | unmapped keys =>
    dsimp only at hdone
    split at hdone
    · dsimp only at hdone
      generalize (EditState.guarded _ _).1 = dispatch at hdone
      cases dispatch <;> cases hdone
    · cases hdone

namespace Session

variable {s : Session} {stroke : KeyStroke} {rest : Keys}

/-- What the resolver gives for the next stroke of the input. -/
def answer (s : Session) (stroke : KeyStroke) : Outcome × Resolver :=
  s.resolver.afterRead.feed stroke s.mode s.keymap s.registry

/-- The commands that are run while the input is read to its end, the first one first. -/
def commandsRead (s : Session) : List Command :=
  match _h : s.resolver.input with
  | [] => []
  | stroke :: _ => (s.answer stroke).1.command?.toList ++ s.readNext.commandsRead
termination_by (s.resolver.mapsLeft, s.resolver.strokesHeld, s.resolver.input.length)
decreasing_by
  rcases readNext_closer (s := s) (by simp [_h]) with h | ⟨hm, h | ⟨hs, h⟩⟩
  · exact Prod.Lex.left _ _ h
  · exact Prod.Lex.right' _ (Nat.le_of_eq hm) (Prod.Lex.left _ _ h)
  · exact Prod.Lex.right' _ (Nat.le_of_eq hm) (Prod.Lex.right' _ (Nat.le_of_eq hs) h)

/-- The commands that a key runs. -/
def commandsOf (s : Session) (stroke : KeyStroke) : List Command := (s.pump.enqueue stroke).commandsRead

theorem commandsRead_of_nil (h : s.resolver.input = []) : s.commandsRead = [] := by
  rw [commandsRead]
  split
  · rfl
  · next hcons =>
    rw [h] at hcons
    cases hcons

theorem commandsRead_of_cons (h : s.resolver.input = stroke :: rest) :
    s.commandsRead = (s.answer stroke).1.command?.toList ++ s.readNext.commandsRead := by
  rw [commandsRead]
  split
  · next hnil =>
    rw [h] at hnil
    cases hnil
  · next hcons =>
    rw [h] at hcons
    obtain ⟨rfl, -⟩ := List.cons.inj hcons
    rfl

/-- What holds where nothing is left to read, and before a turn if it holds after it, holds always. -/
theorem turn_induction {motive : Session → Prop} (nil : ∀ s, s.resolver.input = [] → motive s)
    (turn : ∀ s stroke rest, s.resolver.input = stroke :: rest → motive s.readNext → motive s)
    (s : Session) : motive s := by
  generalize hstart : s.resolver = start
  induction start using Resolver.wellFounded_closer.induction generalizing s with
  | _ start ih =>
    subst hstart
    by_cases hinput : s.resolver.input = []
    · exact nil s hinput
    · obtain ⟨stroke, rest, hcons⟩ := List.exists_cons_of_ne_nil hinput
      exact turn s stroke rest hcons (ih _ (readNext_closer hinput) s.readNext rfl)

theorem readNext_of_answer (h : s.resolver.input = stroke :: rest) :
    s.readNext = (s.act (s.answer stroke)).2 := readNext_of_cons h

/-- What each turn keeps with the commands that are run holds when nothing is left to read. -/
theorem drain_keeps_through {P : EditState → Prop} (last : KeyOutcome)
    (hact : ∀ t outcome operatorPending, (∀ command ∈ outcome.command?, command ∈ s.commandsRead) → P t →
      P (t.apply s.registry s.options operatorPending outcome).2)
    (h : P s.edit) : P (s.drain last).2.edit := by
  induction s using turn_induction generalizing last with
  | nil s hinput => rwa [drain_of_nil last hinput]
  | turn s stroke rest hinput ih =>
    have hread := commandsRead_of_cons hinput
    rw [drain_of_cons last hinput]
    rw [readNext_of_answer hinput] at hread ih ⊢
    refine ih _ (fun t outcome operatorPending hcommands ↦ ?_) ?_
    · refine hact t outcome operatorPending fun command hcommand ↦ ?_
      rw [hread]
      exact List.mem_append_right _ (hcommands command hcommand)
    · refine hact s.edit _ _ (fun command hcommand ↦ ?_) h
      rw [hread]
      exact List.mem_append_left _ (Option.mem_toList.mpr hcommand)

/-- What is reported executed is the last of the commands that are run. -/
theorem drain_executed {P : EditState → Prop} (last : KeyOutcome)
    (hact : ∀ t outcome operatorPending, P t →
      P (t.apply s.registry s.options operatorPending outcome).2)
    (h : P s.edit) (hinput : s.resolver.input ≠ []) (hdone : (s.drain last).1 = .executed) :
    ∃ t command operatorPending, P t ∧ s.commandsRead.getLast? = some command ∧
      t.apply s.registry s.options operatorPending (.resolved command) =
        (.executed, (s.drain last).2.edit) := by
  induction s using turn_induction generalizing last with
  | nil s hnil => exact absurd hnil hinput
  | turn s stroke rest hcons ih =>
    have hread := commandsRead_of_cons hcons
    rw [drain_of_cons last hcons] at hdone ⊢
    by_cases hlater : s.readNext.resolver.input = []
    · rw [drain_of_nil _ hlater] at hdone ⊢
      have hanswer : s.edit.apply s.registry s.options (s.answer stroke).2.operatorPending
          (s.answer stroke).1 = (.executed, s.readNext.edit) := by
        rw [readNext_of_answer hcons]
        exact Prod.ext hdone rfl
      obtain ⟨command, hcommand⟩ := EditState.resolved_of_executed hanswer
      refine ⟨s.edit, command, _, h, ?_, hcommand ▸ hanswer⟩
      rw [hread, commandsRead_of_nil hlater, hcommand]
      rfl
    · rw [readNext_of_answer hcons] at hread hlater ih hdone ⊢
      obtain ⟨t, command, operatorPending, ht, hlast, happly⟩ := ih _ hact (hact _ _ _ h) hlater hdone
      refine ⟨t, command, operatorPending, ht, ?_, happly⟩
      rw [hread, List.getLast?_append, hlast]
      rfl

/-! ### Registered commands -/

theorem answer_recalls (h : s.resolver.Recalls s.registry) (stroke : KeyStroke) :
    Resolver.RecallsIn s.registry (s.answer stroke) :=
  Resolver.Recalls.feed (r := s.resolver.afterRead) ⟨h.operator, h.awaitingChar⟩ stroke

/-- The commands that are run are registered so, if what waits for more is. -/
theorem commandsRead_registered (h : s.resolver.Recalls s.registry) :
    ∀ command ∈ s.commandsRead, command.Registered s.registry := by
  induction s using turn_induction with
  | nil s hinput =>
    rw [commandsRead_of_nil hinput]
    exact fun _ hmem ↦ absurd hmem List.not_mem_nil
  | turn s stroke rest hinput ih =>
    have hanswer := answer_recalls h stroke
    rw [commandsRead_of_cons hinput]
    rw [readNext_of_answer hinput] at ih ⊢
    intro command hmem
    rcases List.mem_append.mp hmem with hnow | hlater
    · exact hanswer.command command (Option.mem_toList.mp hnow)
    · exact ih hanswer.recalls command hlater

end Session

end ModalEdit
