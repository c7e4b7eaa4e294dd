import ModalEdit.Proofs.ResolverStep
import ModalEdit.Proofs.StandardSession

/-!
Where a command comes from. Whatever strokes are put in the place of others, the action of a command
that the resolver gives in a mode is bound in that mode by default or by an extension, or it has
waited for something since before: an operator for what it acts on, or a motion for its character
(`Offered`). The resolver holds no other actions back (`Resolver.Held`), and a step gives and keeps
only such (`feed_answers`, `flush_answers`).
-/

set_option autoImplicit false
set_option relaxedAutoImplicit false

namespace ModalEdit

/-- An action that waits for more, an operator or one that takes a character. -/
def Waiting (id : ActionId) : Prop :=
  ∃ spec, Registry.standard.get? id = some spec ∧
    (spec.handler.kind = .operator ∨ spec.flags.expectsChar = true)

/-- An action that may be asked for in a mode. -/
def Offered (mode : MapMode) (id : ActionId) : Prop :=
  (∃ b ∈ Keymap.standardBindings, mode ∈ b.modes ∧ b.target = .action id) ∨ Waiting id

/-- Any sequence that is bound in a mode to an action is bound to one that is offered there. -/
def Keymap.Offers (keymap : Keymap) : Prop :=
  ∀ mode buffer consumed id ambiguous,
    keymap.resolve mode buffer = .matched consumed (.action id) ambiguous → Offered mode id

theorem Registry.id_of_get? {r : Registry} {id : ActionId} {spec : ActionSpec}
    (h : r.get? id = some spec) :
    spec.id = id := by
  have := List.find?_some h
  exact eq_of_beq this

theorem Waiting.of_get? {id : ActionId} {spec : ActionSpec}
    (h : Registry.standard.get? id = some spec)
    (hkind : spec.handler.kind = .operator ∨ spec.flags.expectsChar = true) : Waiting spec.id :=
  ⟨spec, Registry.id_of_get? h ▸ h, hkind⟩

namespace Resolver

/-- The resolver holds back no actions but those that wait for more. -/
structure Held (r : Resolver) : Prop where
  operator : ∀ call, r.operator = some call → Waiting call.action
  awaitingChar : ∀ call, r.awaitingChar = some call → Waiting call.action

/-- A command is offered in the mode of the step, and what is held back waits for more. -/
structure Answers (mode : Mode) (result : Outcome × Resolver) : Prop where
  command : ∀ command, result.1 = .resolved command → Offered (.ofMode mode) command.action
  held : result.2.Held

variable {mode : Mode} {r : Resolver} {keymap : Keymap}

theorem Held.answers {outcome : Outcome} (h : r.Held)
    (hnot : ∀ command, outcome ≠ .resolved command) :
    Answers mode (outcome, r) where
  command command heq := absurd heq (hnot command)
  held := h

theorem held_of_none (hoperator : r.operator = none) (hawaiting : r.awaitingChar = none) :
    r.Held where
  operator call h := by
    rw [hoperator] at h
    cases h
  awaitingChar call h := by
    rw [hawaiting] at h
    cases h

theorem held_reset (r : Resolver) : r.reset.Held := held_of_none rfl rfl

/-- Only the strokes and counts have changed, and nothing is asked for. -/
theorem Held.answers_pending (h : r.Held) {after : Resolver}
    (hoperator : after.operator = r.operator) (hawaiting : after.awaitingChar = r.awaitingChar) :
    Answers mode (.pending, after) :=
  Held.answers ⟨fun call hcall ↦ h.operator call (hoperator ▸ hcall),
    fun call hcall ↦ h.awaitingChar call (hawaiting ▸ hcall)⟩ (by simp)

theorem Held.answers_unmapped (h : r.Held) (keys : Keys) :
    Answers mode (.unmapped keys, r) := h.answers (by simp)

/-- What is complete goes to the operator that waits, or is a command alone. -/
theorem complete_answers (h : r.Held) {call : ActionCall}
    (hcall : Offered (.ofMode mode) call.action) :
    Answers mode (r.complete call) := by
  refine ⟨fun command heq ↦ ?_, r.held_reset⟩
  unfold complete at heq
  obtain rfl := Outcome.resolved.inj heq
  cases hoperator : r.operator with
  | none => exact hcall
  | some op => exact .inr (h.operator op hoperator)

theorem resolveAlone_answers (h : r.Held) {call : ActionCall}
    (hcall : Offered (.ofMode mode) call.action) :
    Answers mode (r.resolveAlone call) := by
  refine ⟨fun command heq ↦ ?_, h.operator, h.awaitingChar⟩
  obtain rfl := Outcome.resolved.inj heq
  exact hcall

theorem acceptAction_answers (h : r.Held) {id : ActionId} (hid : Offered (.ofMode mode) id)
    (keys : Keys) :
    Answers mode (r.acceptAction id keys mode .standard) := by
  have hoffered {spec : ActionSpec} (hget : Registry.standard.get? id = some spec) :
      Offered (.ofMode mode) spec.id := Registry.id_of_get? hget ▸ hid
  refine acceptAction_cases (motive := Answers mode) r mode .standard id keys ?unregistered
    ?onSelection
    ?waits ?doubled ?mismatched ?awaits ?completes ?refused ?alone
  case unregistered => exact fun _ ↦ r.held_reset.answers_unmapped keys
  case onSelection => exact fun spec hget _ _ ↦ resolveAlone_answers h (hoffered hget)
  case waits =>
    intro spec hget hkind _ _
    refine Held.answers ⟨fun call hcall ↦ ?_, h.awaitingChar⟩ (by simp)
    obtain rfl := Option.some.inj hcall
    exact .of_get? hget (.inl hkind)
  case doubled =>
    intro spec op lines _ _ _ hoperator _
    refine ⟨fun command heq ↦ ?_, r.held_reset⟩
    unfold complete at heq
    rw [hoperator] at heq
    obtain rfl := Outcome.resolved.inj heq
    exact .inr (h.operator op hoperator)
  case mismatched => exact fun _ _ _ _ _ _ ↦ r.held_reset.answers_unmapped keys
  case awaits =>
    intro spec hget hchar
    refine Held.answers ⟨h.operator, fun call hcall ↦ ?_⟩ (by simp)
    obtain rfl := Option.some.inj hcall
    exact .of_get? hget (.inr hchar)
  case completes =>
    intro spec hget _
    exact complete_answers (r := r.modifyPending (·.clearCounts)) ⟨h.operator, h.awaitingChar⟩
      (hoffered hget)
  case refused => exact fun _ _ _ _ ↦ r.held_reset.answers_unmapped keys
  case alone => exact fun spec hget _ _ ↦ resolveAlone_answers h (hoffered hget)

theorem accept_answers (h : r.Held) (hoffers : keymap.Offers) {consumed : Nat} {target : Target}
    {ambiguous : Bool}
    (hresolve : keymap.resolve (.ofMode mode) r.pending.keys = .matched consumed target ambiguous) :
    Answers mode (r.accept consumed target mode .standard) := by
  have htaken : (r.takeKeys consumed).Held := ⟨h.operator, h.awaitingChar⟩
  refine accept_cases (motive := Answers mode) r mode .standard consumed target ?expand ?overflow
    ?action
  case expand => exact fun _ _ _ ↦ h.answers_pending rfl rfl
  case overflow => exact fun _ _ _ ↦ (held_of_none rfl rfl).answers_unmapped _
  case action =>
    intro id htarget
    rw [htarget] at hresolve
    exact acceptAction_answers htaken (hoffers _ _ _ _ _ hresolve) _

theorem giveUp_answers (h : r.Held) : Answers mode (r.giveUp mode) := by
  refine giveUp_cases (motive := Answers mode) r mode ?typed ?dropped
  case typed => exact fun first rest _ _ _ ↦ Held.answers ⟨h.operator, h.awaitingChar⟩ (by simp)
  case dropped => exact r.held_reset.answers_unmapped _

theorem feed_answers (h : r.Held) (hoffers : keymap.Offers) (stroke : KeyStroke) :
    Answers mode (r.feed stroke mode keymap .standard) := by
  refine feed_cases (motive := Answers mode) r mode keymap .standard stroke ?cancel ?argument
    ?refused
    ?named ?digit ?mark ?buffered
  case cancel => exact fun _ _ ↦ r.held_reset.answers (by simp)
  case argument =>
    intro call c hawaiting _
    refine complete_answers (r := { r with awaitingChar := none })
      ⟨h.operator, fun _ heq ↦ by cases heq⟩ ?_
    exact .inr (h.awaitingChar call hawaiting)
  case refused => exact fun _ ↦ r.held_reset.answers_unmapped _
  case named => exact fun _ _ _ _ ↦ h.answers_pending rfl rfl
  case digit => exact fun _ _ _ _ _ ↦ h.answers_pending rfl rfl
  case mark => exact fun _ _ _ _ ↦ h.answers_pending rfl rfl
  case buffered =>
    intro _
    have hpushed : (r.push stroke).Held := ⟨h.operator, h.awaitingChar⟩
    refine buffer_cases (motive := Answers mode) r mode keymap .standard stroke ?wait ?take ?leave
    case wait => exact fun _ ↦ h.answers_pending rfl rfl
    case take => exact fun consumed target hresolve ↦ accept_answers hpushed hoffers hresolve
    case leave => exact fun _ ↦ giveUp_answers hpushed

theorem flush_answers (h : r.Held) (hoffers : keymap.Offers) :
    Answers mode (r.flush mode keymap .standard) := by
  refine flush_cases (motive := Answers mode) r mode keymap .standard ?idle ?take ?leave
  case idle => exact fun _ ↦ h.answers_pending rfl rfl
  case take => exact fun _ _ _ hresolve ↦ accept_answers h hoffers hresolve
  case leave => exact fun _ _ ↦ giveUp_answers h

end Resolver

/-- What is put in the place of others brings no action into another mode. -/
theorem Session.opened_offers (options : Options) (editor : Editor) (early late : List Remap) :
    (opened options editor early late).keymap.Offers := by
  intro mode buffer consumed id ambiguous hresolve
  let offers (target : Target) : Prop := ∀ id, target = .action id → Offered mode id
  have hstandard {b : Binding} (hb : b ∈ Keymap.standardBindings) (hmode : mode ∈ b.modes)
      (t : Trie)
      (ht : t.Targets offers) : (t.insert b.keys b.target).2.Targets offers :=
    Trie.insert_targets (fun id htarget ↦ .inl ⟨b, hb, hmode, htarget⟩) ht b.keys
  have hremap {remaps : List Remap} {b : Binding} (hb : b ∈ remaps.map Remap.binding) (t : Trie)
      (ht : t.Targets offers) : (t.insert b.keys b.target).2.Targets offers := by
    obtain ⟨r, -, rfl⟩ := List.mem_map.mp hb
    exact Trie.insert_targets (fun id htarget ↦ by cases htarget) ht r.keys
  have htargets : ((opened options editor early late).keymap.trie mode).Targets offers := by
    rw [opened_eq]
    refine Keymap.bindAll_trie_keeps (Keymap.bindAll_trie_keeps ?_ ?_) ?_
    · cases mode <;> trivial
    · exact fun b hb hmem ↦ hstandard (List.mem_append_left _ hb) hmem
    · intro b hb hmem
      rcases List.mem_append.mp hb with hb | hb
      · rcases List.mem_append.mp hb with hb | hb
        · exact hremap hb
        · exact hstandard (List.mem_append_right _ hb) hmem
      · exact hremap hb
  exact Trie.resolve_target htargets hresolve id rfl

end ModalEdit
