import ModalEdit.Proofs.BoundSequence
import ModalEdit.Proofs.PartialInput
import ModalEdit.Proofs.OperatorLockstep

/-!
Keys that give a command, in a session. While the resolver waits, nothing becomes of the keys but
what the resolver holds of them and the mode that follows it (`Session.Over`). So keys on which the
resolver waits and the last of which gives a command have that command run on the editor as it was,
in the mode that it was in (`Session.handleAll_of_completes`).
-/

set_option autoImplicit false
set_option relaxedAutoImplicit false

namespace ModalEdit

namespace Resolver

variable {keymap : Keymap} {registry : Registry} {modeOf : Resolver → Mode} {outcome : Outcome}

/-- What is noted stays noted. -/
theorem mem_readAll {t : Transcript} (h : outcome ∈ t.2) :
    outcome ∈ (readAll keymap registry modeOf t).2 :=
  (readAll_keeps (P := fun t ↦ outcome ∈ t.2) (fun _ _ _ _ _ hmem ↦ List.mem_append_left _ hmem)
    h).1

theorem mem_foldl_typeStroke {t : Transcript} (h : outcome ∈ t.2) (keys : Keys) :
    outcome ∈ (keys.foldl (typeStroke keymap registry modeOf) t).2 :=
  List.foldlRecOn (motive := fun t : Transcript ↦ outcome ∈ t.2) keys _ h fun _ ht _ _ ↦
    mem_readAll ht

end Resolver

namespace ModeMachine

/-- A machine that follows an operator over a mode: while there is one it is in the pending mode
with that mode under it, and else it is in the mode. -/
structure Follows (m : ModeMachine) (base : Mode) (operatorPending : Bool) : Prop where
  coherent : m.Coherent
  pending : operatorPending = true → m.mode = .operatorPending ∧ m.parent = some base
  settled : operatorPending = false → m.mode = base

variable {m : ModeMachine} {base : Mode} {before : Bool}

theorem Follows.mode (h : m.Follows base before) :
    m.mode = if before then .operatorPending else base := by
  cases before with
  | true => exact (h.pending rfl).1
  | false => exact h.settled rfl

/-- Whatever becomes of the operator, the machine follows. -/
theorem Follows.sync (h : m.Follows base before) (hbase : base.takesOperators) (after : Bool) :
    Follows (if after then m.tryTransition .operatorPending
      else if m.mode = .operatorPending then m.leavePending else m) base after := by
  have hne := hbase.ne_operatorPending
  cases after with
  | true =>
    rw [if_pos rfl]
    refine ⟨tryTransition_coherent h.coherent _, fun _ ↦ ?_, Bool.noConfusion⟩
    cases before with
    | true =>
      obtain ⟨hmode, hparent⟩ := h.pending rfl
      have hsame : m.tryTransition .operatorPending = m := by
        rw [tryTransition, transition, if_pos hmode]
        rfl
      rw [hsame]
      exact ⟨hmode, hparent⟩
    | false =>
      have hmode : m.mode = base := h.settled rfl
      have hlegal : m.mode.isLegal .operatorPending m.parent = true := by
        rw [hmode]
        exact (Mode.isLegal_operatorPending hne).mpr hbase
      rw [tryTransition, transition_legal (hmode ▸ hne) hlegal]
      exact ⟨rfl, congrArg some hmode⟩
  | false =>
    rw [if_neg Bool.false_ne_true]
    cases before with
    | true =>
      obtain ⟨hmode, hparent⟩ := h.pending rfl
      rw [if_pos hmode]
      refine ⟨leavePending_coherent h.coherent, Bool.noConfusion, fun _ ↦ ?_⟩
      rw [leavePending_of_parent hmode hparent hne]
      rfl
    | false =>
      have hmode : m.mode = base := h.settled rfl
      rw [if_neg (hmode ▸ hne)]
      exact ⟨h.coherent, Bool.noConfusion, fun _ ↦ hmode⟩

end ModeMachine

namespace Session

open Resolver (typeStroke readAll note WaitsThrough Completes mem_readAll mem_foldl_typeStroke)

/-- What running a command answers and leaves. -/
def ran (s : Session) (after : Resolver) (run : Dispatch × EditState) : KeyOutcome × Session :=
  (.ofDispatch .executed run.1, { s with resolver := after, edit := run.2 })

/-- A session with something else held of the keys, and in another mode. -/
def holding (s : Session) (r : Resolver) (modes : ModeMachine) : Session :=
  { s with resolver := r, edit := { s.edit with modes } }

variable {s : Session} {r after : Resolver} {modes : ModeMachine}

/-- Waiting changes nothing else. -/
theorem holding_act_pending (htakes : s.mode.takesOperators)
    (h : modes.Follows s.mode r.operatorPending) (after : Resolver) :
    ∃ next : ModeMachine, next.Follows s.mode after.operatorPending ∧
      ((s.holding r modes).act (.pending, after)).2 = s.holding after next := by
  refine ⟨_, h.sync htakes after.operatorPending, ?_⟩
  show { s.holding r modes with
    resolver := after, edit := (s.holding r modes).edit.syncOperatorMode after.operatorPending } = _
  rw [EditState.syncOperatorMode_eq]
  rfl

/-- A command is run once the mode is what it was. -/
theorem holding_act_resolved (htakes : s.mode.takesOperators)
    (h : modes.Follows s.mode r.operatorPending) (command : Command)
    (hnone : after.operator = none) :
    ∃ next : ModeMachine, next.Coherent ∧ next.mode = s.mode ∧
      (s.holding r modes).act (.resolved command, after) =
        s.ran after ({ s.edit with modes := next }.guarded fun t ↦
          t.execute s.registry s.options command) := by
  have hfollows := h.sync htakes false
  refine ⟨_, hfollows.coherent, hfollows.settled rfl, ?_⟩
  show s.ran after (((s.holding r modes).edit.syncOperatorMode after.operatorPending).guarded
    fun t ↦ t.execute s.registry s.options command) = _
  rw [Resolver.operatorPending_of_none hnone, EditState.syncOperatorMode_eq]
  rfl

/-- Reading the input, as long as the resolver waits, changes nothing else. -/
theorem holding_drain (htakes : s.mode.takesOperators) (h : modes.Follows s.mode r.operatorPending)
    (last : KeyOutcome) (noted : List Outcome)
    (hwaits : ∀ outcome ∈ (readAll s.keymap s.registry (·.modeOver s.mode) (r, noted)).2,
      outcome = .pending) :
    ∃ next : ModeMachine,
      next.Follows s.mode (readAll s.keymap s.registry (·.modeOver s.mode)
        (r, noted)).1.operatorPending ∧
      ((s.holding r modes).drain last).2 =
        s.holding (readAll s.keymap s.registry (·.modeOver s.mode) (r, noted)).1 next := by
  induction r using Resolver.wellFounded_closer.induction generalizing modes last noted with
  | _ r ih =>
    unfold Resolver.readAll at hwaits ⊢
    cases hinput : r.input with
    | nil =>
      rw [Resolver.drain_of_nil _ _ _ _ _ hinput, drain_of_nil (s := s.holding r modes) last hinput]
      exact ⟨modes, h, rfl⟩
    | cons stroke rest =>
      rw [Resolver.drain_of_cons s.keymap s.registry (fun r _ ↦ r.modeOver s.mode) note noted
        hinput] at hwaits ⊢
      have hturn := readNext_of_cons (s := s.holding r modes) hinput
      have hcloser := Resolver.feed_closer stroke (r.afterRead.modeOver s.mode) s.keymap s.registry
        (show 0 < r.input.length by rw [hinput]; exact Nat.succ_pos _)
      generalize hfed : r.afterRead.feed stroke (r.afterRead.modeOver s.mode) s.keymap s.registry =
        fed at hwaits hcloser ⊢
      obtain ⟨outcome, after⟩ := fed
      obtain rfl : outcome = .pending :=
        hwaits outcome (mem_readAll (t := (after, noted ++ [outcome])) (by simp))
      obtain ⟨next, hnext, hacted⟩ := holding_act_pending htakes h after
      rw [drain_of_cons (s := s.holding r modes) last hinput, hturn]
      have hmode : (s.holding r modes).mode = r.afterRead.modeOver s.mode := h.mode
      rw [hmode]
      show ∃ next, _ ∧ ((((s.holding r modes).act
        (r.afterRead.feed stroke (r.afterRead.modeOver s.mode) s.keymap s.registry)).2).drain _).2 =
          _
      rw [hfed, hacted]
      exact ih after hcloser hnext _ _ hwaits

/-- Keys on which the resolver waits change nothing else. -/
theorem holding_handleAll (htakes : s.mode.takesOperators) (hreported : s.editor.reported = [])
    (h : modes.Follows s.mode r.operatorPending) (keys : Keys) (noted : List Outcome)
    (hwaits : ∀ outcome ∈ (keys.foldl (typeStroke s.keymap s.registry (·.modeOver s.mode)) (r,
      noted)).2,
      outcome = .pending) :
    ∃ next : ModeMachine,
      next.Follows s.mode
        (keys.foldl (typeStroke s.keymap s.registry (·.modeOver s.mode))
          (r, noted)).1.operatorPending ∧
      ((s.holding r modes).handleAll keys).2 =
        s.holding (keys.foldl (typeStroke s.keymap s.registry (·.modeOver s.mode)) (r, noted)).1
          next := by
  induction keys generalizing r modes noted with
  | nil => exact ⟨modes, h, rfl⟩
  | cons stroke rest ih =>
    rw [List.foldl_cons] at hwaits ⊢
    obtain ⟨next, hnext, hdrained⟩ := holding_drain (r := r.enqueue stroke) htakes h .pending noted
      fun outcome hmem ↦ hwaits outcome (mem_foldl_typeStroke hmem rest)
    rw [handleAll_cons, handleKey_snd, pump_of_reported_nil (s := s.holding r modes) hreported,
      show (s.holding r modes).enqueue stroke = s.holding (r.enqueue stroke) modes from rfl,
        hdrained]
    exact ih hnext _ hwaits

/-- Keys that give a command have it run as the session was, in the mode that it was in. -/
theorem handleAll_of_completes (htakes : s.mode.takesOperators) (hcoherent : s.edit.modes.Coherent)
    (hreported : s.editor.reported = []) (hnone : s.resolver.operator = none) {keys : Keys}
    {command : Command} (h : Completes s.keymap s.registry (·.modeOver s.mode) keys s.resolver
      (.resolved command) after)
    (hafter : after.operator = none) :
    ∃ next : ModeMachine, next.Coherent ∧ next.mode = s.mode ∧ s.handleAll keys =
      s.ran after ({ s.edit with modes := next }.guarded fun t ↦
        t.execute s.registry s.options command) := by
  obtain ⟨front, last, middle, rfl, hfront, hinput, hfeed⟩ := h.waits
  have hstart : s.edit.modes.Follows s.mode s.resolver.operatorPending := by
    rw [Resolver.operatorPending_of_none hnone]
    exact ⟨hcoherent, Bool.noConfusion, fun _ ↦ rfl⟩
  have hwaits : (front.foldl (typeStroke s.keymap s.registry (·.modeOver s.mode))
      (s.resolver, [])) =
      (middle, List.replicate front.length .pending) := hfront []
  obtain ⟨modes, hmodes, hheld⟩ :=
    holding_handleAll (r := s.resolver) htakes hreported hstart front []
    fun outcome hmem ↦ List.eq_of_mem_replicate (by rw [hwaits] at hmem; exact hmem)
  rw [hwaits] at hmodes hheld
  obtain ⟨next, hnext, hmode, hacted⟩ := holding_act_resolved htakes hmodes command hafter
  refine ⟨next, hnext, hmode, ?_⟩
  have hpump : (s.holding middle modes).pump = s.holding middle modes :=
    pump_of_reported_nil hreported
  rw [handleAll_concat, show (s.handleAll front).2 = s.holding middle modes from hheld]
  refine handleKey_of_act (by rw [hpump]; exact hinput) ?_ h.read
  rw [hpump, ← hacted]
  show (s.holding middle modes).act ((middle.enqueue last).afterRead.feed last
    (s.holding middle modes).mode s.keymap s.registry) = _
  rw [(Resolver.afterRead_enqueue hinput last).2, ← hfeed,
    show (s.holding middle modes).mode = _ from hmodes.mode]
  rfl

/-- With the default bindings and both extensions, nothing has been typed of a command or reported,
and the mode takes operators. -/
structure TakesCommands (s : Session) : Prop where
  keymap : s.keymap = .standard
  registry : s.registry = .standard
  idle : s.resolver.hasPending = false
  input : s.resolver.input = []
  reported : s.editor.reported = []
  coherent : s.edit.modes.Coherent
  mode : s.mode.takesOperators

/-- Keys that give a command have it run. -/
theorem TakesCommands.handleAll (h : s.TakesCommands) (keys : Keys) (command : Command)
    (hcompletes : Completes .standard .standard (·.modeOver s.mode) keys {} (.resolved command)
      {}) :
    ∃ modes : ModeMachine, modes.Coherent ∧ modes.mode = s.mode ∧ (s.handleAll keys).2 = { s with
      resolver := {}
      edit := ({ s.edit with modes }.guarded fun t ↦ t.execute .standard s.options command).2
        } := by
  have hidle := (Resolver.hasPending_eq_false_iff.mp h.idle).2.1
  have hread := hcompletes.of_idle h.idle h.input
  obtain ⟨modes, hcoherent, hmode, hrun⟩ :=
    handleAll_of_completes h.mode h.coherent h.reported hidle
    (by rw [h.keymap, h.registry]; exact hread) rfl
  have hexecute : (fun t : EditState ↦ t.execute s.registry s.options command) =
      fun t ↦ t.execute .standard s.options command := by rw [h.registry]
  rw [hexecute] at hrun
  exact ⟨modes, hcoherent, hmode, congrArg Prod.snd hrun⟩

end Session

end ModalEdit
