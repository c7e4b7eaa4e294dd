import ModalEdit.Proofs.SessionFrame

/-!
Strokes that are read behind others. A resolver that has more strokes to read than it needs for now
goes through the same steps as one that has not, with the others left over, unless it uses up the
replacements (`feed_parallel`). So a session reads those that come first to the end before the others
(`drain_followedBy`), and one that reads all strokes in one go does what a session does that is given them
one by one (`drain_eq_foldl_handleKey`): what is replayed goes to the front of the input in both.
-/

set_option autoImplicit false
set_option relaxedAutoImplicit false

namespace ModalEdit

namespace Resolver

/-- The same with more strokes to read behind those, and with another number of replacements made. -/
def followedBy (r : Resolver) (rest : Keys) (depth : ℕ) : Resolver :=
  { r with input := r.input ++ rest, mapDepth := depth }

/-- A step gives the same with more strokes to read, and has them left over, unless it uses up the
replacements. -/
def Parallel (rest : Keys) (result result' : Outcome × Resolver) : Prop :=
  0 < result'.2.mapsLeft →
    ∃ depth, result' = (result.1, result.2.followedBy rest depth) ∧ result.2.mapDepth ≤ depth

theorem Parallel.of_eq {rest : Keys} {depth : ℕ} {result result' : Outcome × Resolver}
    (hdepth : result.2.mapDepth ≤ depth) (h : result' = (result.1, result.2.followedBy rest depth)) :
    Parallel rest result result' :=
  fun _ ↦ ⟨depth, h, hdepth⟩

theorem Parallel.ite {rest : Keys} {first second first' second' : Outcome × Resolver} {p : Prop}
    [Decidable p] (hpos : p → Parallel rest first first') (hneg : ¬ p → Parallel rest second second') :
    Parallel rest (if p then first else second) (if p then first' else second') := by
  by_cases h : p
  · rw [if_pos h, if_pos h]
    exact hpos h
  · rw [if_neg h, if_neg h]
    exact hneg h

section FollowedBy

variable (r : Resolver) (rest : Keys) (depth : ℕ) {mode : Mode} {keymap : Keymap} {registry : Registry}

@[simp] theorem followedBy_pending : (r.followedBy rest depth).pending = r.pending := rfl

@[simp] theorem followedBy_operator : (r.followedBy rest depth).operator = r.operator := rfl

@[simp] theorem followedBy_awaitingChar : (r.followedBy rest depth).awaitingChar = r.awaitingChar := rfl

@[simp] theorem followedBy_operatorPending :
    (r.followedBy rest depth).operatorPending = r.operatorPending := rfl

@[simp] theorem followedBy_countDigit? (stroke : KeyStroke) :
    (r.followedBy rest depth).countDigit? stroke = r.countDigit? stroke := rfl

theorem followedBy_replay (keys : Keys) :
    (r.followedBy rest depth).replay keys = (r.replay keys).followedBy rest depth := by
  rw [followedBy, followedBy, replay, replay, List.append_assoc]

theorem followedBy_modifyPending (f : PendingInput → PendingInput) :
    (r.followedBy rest depth).modifyPending f = (r.modifyPending f).followedBy rest depth := rfl

theorem acceptAction_followedBy (id : ActionId) (keys : Keys) :
    (r.followedBy rest depth).acceptAction id keys mode registry =
      ((r.acceptAction id keys mode registry).1,
        (r.acceptAction id keys mode registry).2.followedBy rest depth) := by
  cases hget : registry.get? id with
  | none =>
    simp only [acceptAction, hget]
    rfl
  | some spec =>
    cases hkind : spec.handler.kind with
    | motion =>
      rw [acceptAction_of_target hget (.inl hkind), acceptAction_of_target hget (.inl hkind)]
      split <;> rfl
    | textObject =>
      rw [acceptAction_of_target hget (.inr hkind), acceptAction_of_target hget (.inr hkind)]
      split <;> rfl
    | operator =>
      simp only [acceptAction, hget, ActionSpec.call, hkind, acceptOperator, followedBy_operator]
      split
      · rfl
      · cases r.operator with
        | none => rfl
        | some op =>
          dsimp only
          split <;> rfl
    | other =>
      simp only [acceptAction, hget, ActionSpec.call, hkind, followedBy_operatorPending]
      split <;> rfl

theorem accept_overflow (r : Resolver) (consumed : ℕ) (keys : Keys) (h : maxMapDepth ≤ r.mapDepth) :
    r.accept consumed (.remap keys) mode registry = (.unmapped (r.pending.keys.take consumed),
      { r.takeKeys consumed with mapDepth := r.mapDepth + 1 }.clear) :=
  if_pos (Nat.lt_succ_of_le h)

theorem giveUp_followedBy (mode : Mode) :
    (r.followedBy rest depth).giveUp mode =
      ((r.giveUp mode).1, (r.giveUp mode).2.followedBy rest depth) := by
  by_cases htyped : mode.isTextEntry = true ∧ r.operator = none
  · cases hkeys : r.pending.keys with
    | nil =>
      simp only [giveUp, followedBy_pending, hkeys]
      rfl
    | cons first others =>
      rw [giveUp_of_typed hkeys htyped.1 htyped.2,
        giveUp_of_typed (r := r.followedBy rest depth) hkeys htyped.1 htyped.2,
        followedBy_modifyPending, followedBy_replay]
  · rw [giveUp_of_dropped htyped, giveUp_of_dropped (r := r.followedBy rest depth) htyped]
    rfl

theorem giveUp_mapDepth (mode : Mode) : (r.giveUp mode).2.mapDepth = r.mapDepth :=
  giveUp_cases (motive := fun result ↦ result.2.mapDepth = r.mapDepth) r mode (fun _ _ _ _ _ ↦ rfl) rfl

theorem takeKeys_followedBy (consumed : ℕ) :
    (r.followedBy rest depth).takeKeys consumed = (r.takeKeys consumed).followedBy rest depth := by
  rw [takeKeys, takeKeys, followedBy_modifyPending, followedBy_replay, followedBy_pending]

variable {r rest depth}

/-- An action is taken with the strokes to be read left as they are. -/
theorem accept_action_eq (consumed : ℕ) (id : ActionId) (r : Resolver) :
    r.accept consumed (.action id) mode registry =
      (r.takeKeys consumed).acceptAction id (r.pending.keys.take consumed) mode registry := rfl

variable (hdepth : r.mapDepth ≤ depth)
include hdepth

theorem accept_parallel (consumed : ℕ) (target : Target) :
    Parallel rest (r.accept consumed target mode registry)
      ((r.followedBy rest depth).accept consumed target mode registry) := by
  cases target with
  | action id =>
    rw [accept_action_eq, accept_action_eq, takeKeys_followedBy]
    refine .of_eq ?_ (acceptAction_followedBy _ rest depth id _)
    rw [(acceptAction_held _ _ _ _ _).1]
    exact hdepth
  | remap replacement =>
    intro hleft
    have hspare : depth < maxMapDepth := by
      by_contra hover
      have hused : maxMapDepth ≤ (r.followedBy rest depth).mapDepth := Nat.not_lt.mp hover
      rw [accept_overflow _ consumed replacement hused] at hleft
      simp only [mapsLeft, clear, reset, takeKeys, modifyPending, replay] at hleft
      omega
    rw [accept_remap consumed replacement mode registry (hdepth.trans_lt hspare),
      accept_remap (r := r.followedBy rest depth) consumed replacement mode registry hspare,
      takeKeys_followedBy]
    refine ⟨depth + 1, ?_, Nat.succ_le_succ hdepth⟩
    exact congrArg (Prod.mk Outcome.pending)
      (followedBy_replay { r.takeKeys consumed with mapDepth := r.mapDepth + 1 } rest (depth + 1)
        replacement)

theorem buffer_parallel (stroke : KeyStroke) :
    Parallel rest (r.buffer stroke mode keymap registry)
      ((r.followedBy rest depth).buffer stroke mode keymap registry) := by
  have hwait : Parallel rest (.pending, r.push stroke)
      (.pending, (r.followedBy rest depth).push stroke) :=
    .of_eq hdepth rfl
  unfold buffer
  rw [followedBy_modifyPending, ← push]
  dsimp only [followedBy_pending]
  cases keymap.resolve (.ofMode mode) (r.push stroke).pending.keys with
  | needMore => exact hwait
  | matched consumed target ambiguous =>
    exact .ite (fun _ ↦ hwait) fun _ ↦ accept_parallel (r := r.push stroke) hdepth consumed target
  | unmapped =>
    refine .of_eq ?_ (giveUp_followedBy _ rest depth mode)
    rw [giveUp_mapDepth]
    exact hdepth

theorem feed_parallel (stroke : KeyStroke) :
    Parallel rest (r.feed stroke mode keymap registry)
      ((r.followedBy rest depth).feed stroke mode keymap registry) := by
  unfold feed
  refine .ite (fun _ ↦ .of_eq hdepth rfl) fun _ ↦ ?_
  rw [followedBy_awaitingChar]
  cases r.awaitingChar with
  | some call =>
    dsimp only
    cases argumentChar? stroke with
    | some c => exact .of_eq hdepth rfl
    | none => exact .of_eq hdepth rfl
  | none =>
    dsimp only
    refine .ite (fun _ ↦ ?_) fun _ ↦ .ite (fun _ ↦ ?_) fun _ ↦ buffer_parallel hdepth stroke
    · cases stroke.typedChar?.filter Registers.isValidName with
      | some name => exact .of_eq hdepth rfl
      | none => exact .of_eq hdepth rfl
    · rw [followedBy_countDigit?]
      cases r.countDigit? stroke with
      | some d => exact .of_eq hdepth rfl
      | none => exact .ite (fun _ ↦ .of_eq hdepth rfl) fun _ ↦ buffer_parallel hdepth stroke

end FollowedBy

end Resolver

namespace Session

/-- The same with more strokes to read behind those, and with another number of replacements made. -/
def followedBy (s : Session) (rest : Keys) (depth : ℕ) : Session :=
  { s with resolver := s.resolver.followedBy rest depth }

theorem followedBy_nil (s : Session) (depth : ℕ) :
    s.followedBy [] depth = { s with resolver := { s.resolver with mapDepth := depth } } := by
  rw [followedBy, Resolver.followedBy, List.append_nil]

variable {s : Session} {rest : Keys} {depth : ℕ}

theorem drain_mapsLeft (s : Session) (last : KeyOutcome) :
    (s.drain last).2.resolver.mapsLeft ≤ s.resolver.mapsLeft := by
  refine drain_keeps (P := fun t ↦ t.resolver.mapsLeft ≤ s.resolver.mapsLeft) ?_ last le_rfl
  intro t ht
  by_cases hinput : t.resolver.input = []
  · rwa [readNext_of_nil hinput]
  · rcases readNext_closer hinput with hless | ⟨hsame, -⟩
    · exact hless.le.trans ht
    · exact hsame.le.trans ht

/-- What is done about the first stroke to be read. -/
def turn (s : Session) (stroke : KeyStroke) : KeyOutcome × Session :=
  s.act (s.resolver.afterRead.feed stroke s.mode s.keymap s.registry)

/-- One turn does the same with more strokes to read, and has them left over. -/
theorem turn_followedBy {stroke : KeyStroke} {more : Keys} (hcons : s.resolver.input = stroke :: more)
    (hdepth : s.resolver.mapDepth ≤ depth)
    (hleft : 0 < ((s.followedBy rest depth).turn stroke).2.resolver.mapsLeft) :
    ∃ depth', (s.followedBy rest depth).turn stroke =
        ((s.turn stroke).1, (s.turn stroke).2.followedBy rest depth') ∧
      (s.turn stroke).2.resolver.mapDepth ≤ depth' := by
  have hread : (s.followedBy rest depth).resolver.afterRead =
      s.resolver.afterRead.followedBy rest depth := by
    show { s.resolver with input := (s.resolver.input ++ rest).tail, mapDepth := depth } =
      { s.resolver with input := s.resolver.input.tail ++ rest, mapDepth := depth }
    rw [hcons]
    rfl
  rw [turn, hread] at hleft ⊢
  obtain ⟨depth', hfed, hdepth'⟩ :=
    Resolver.feed_parallel (r := s.resolver.afterRead) hdepth stroke hleft
  refine ⟨depth', ?_, hdepth'⟩
  rw [hfed]
  rfl

theorem drain_of_turn {stroke : KeyStroke} {more : Keys} (hcons : s.resolver.input = stroke :: more)
    (last : KeyOutcome) : s.drain last = (s.turn stroke).2.drain (s.turn stroke).1 := by
  rw [drain_of_cons last hcons, readNext_of_cons hcons]
  rfl

/-- Some turns of the reading loop, with the answer to the last of them. -/
def takeTurns : Nat → KeyOutcome → Session → KeyOutcome × Session
  | 0, last, s => (last, s)
  | turns + 1, last, s =>
    match s.resolver.input with
    | [] => (last, s)
    | stroke :: _ => takeTurns turns (s.turn stroke).1 (s.turn stroke).2

/-- Turns after which nothing is left to be read are all that draining takes. -/
theorem drain_eq_takeTurns (turns : Nat) (last : KeyOutcome) (s : Session)
    (h : (takeTurns turns last s).2.resolver.input = []) : s.drain last = takeTurns turns last s := by
  induction turns generalizing last s with
  | zero => exact drain_of_nil last h
  | succ turns ih =>
    cases hinput : s.resolver.input with
    | nil =>
      rw [drain_of_nil last hinput]
      simp only [takeTurns, hinput]
    | cons stroke rest =>
      simp only [takeTurns, hinput] at h ⊢
      rw [drain_of_turn hinput]
      exact ih _ _ h

/-- With nothing reported and nothing to be read, a key that is handled is read alone. -/
theorem handleKey_eq_drain (hreported : s.editor.reported = []) (hread : s.resolver.input = [])
    (stroke : KeyStroke) (last : KeyOutcome) : s.handleKey stroke = (s.enqueue stroke).drain last := by
  have hinput : (s.enqueue stroke).resolver.input = [stroke] := by
    rw [enqueue_input, hread, List.nil_append]
  show s.pump.pressKey stroke = _
  rw [pump_of_reported_nil hreported, drain_of_turn hinput last]
  exact drain_of_turn hinput .pending

/-- With more strokes to read, those that come before them are read to the end first. -/
theorem drain_followedBy (last : KeyOutcome) (hdepth : s.resolver.mapDepth ≤ depth)
    (hleft : 0 < ((s.followedBy rest depth).drain last).2.resolver.mapsLeft) :
    ∃ depth', (s.followedBy rest depth).drain last =
      ((s.drain last).2.followedBy rest depth').drain (s.drain last).1 := by
  generalize hstart : s.resolver = start at hdepth
  induction start using Resolver.wellFounded_closer.induction generalizing s last depth with
  | _ start ih =>
    subst hstart
    by_cases hinput : s.resolver.input = []
    · rw [drain_of_nil last hinput]
      exact ⟨depth, rfl⟩
    · obtain ⟨stroke, more, hcons⟩ := List.exists_cons_of_ne_nil hinput
      have hcons' : (s.followedBy rest depth).resolver.input = stroke :: (more ++ rest) := by
        show s.resolver.input ++ rest = _
        rw [hcons, List.cons_append]
      rw [drain_of_turn hcons'] at hleft ⊢
      rw [drain_of_turn hcons]
      obtain ⟨depth', hturn, hdepth'⟩ :=
        turn_followedBy hcons hdepth (hleft.trans_le (drain_mapsLeft _ _))
      rw [hturn] at hleft ⊢
      have hcloser : (s.turn stroke).2.resolver.Closer s.resolver := by
        have h := readNext_closer hinput
        rwa [readNext_of_cons hcons] at h
      exact ih _ hcloser _ hleft rfl hdepth'

/-- A key that is handled leaves no report to be dealt with if there was none before. -/
theorem handleKey_quiet (horderly : s.registry.Orderly) (hreported : s.editor.reported = [])
    (stroke : KeyStroke) :
    (s.handleKey stroke).2.registry = s.registry ∧ (s.handleKey stroke).2.editor.reported = [] := by
  rw [handleKey_snd, pump_of_reported_nil hreported]
  refine drain_keeps (P := fun t ↦ t.registry = s.registry ∧ t.editor.reported = []) ?_ .pending
    ⟨rfl, hreported⟩
  rintro t ⟨hregistry, hnone⟩
  refine ⟨?_, ?_⟩
  · cases hinput : t.resolver.input with
    | nil => rwa [readNext_of_nil hinput]
    | cons stroke rest =>
      rw [readNext_of_cons hinput]
      exact hregistry
  · rw [readNext_reported (by rwa [hregistry]), hnone]

/-- The number of replacements apart, the strokes that stand to be read do what they do when they are
handled one by one. -/
theorem drain_eq_foldl_handleKey (horderly : s.registry.Orderly) (hread : s.resolver.input = [])
    (hreported : s.editor.reported = []) (keys : Keys) (last : KeyOutcome)
    (hleft : 0 < ((s.followedBy keys depth).drain last).2.resolver.mapsLeft) :
    ∃ depth', (s.followedBy keys depth).drain last =
      ((keys.foldl (fun (_, s) stroke ↦ s.handleKey stroke) (last, s)).1,
        (keys.foldl (fun (_, s) stroke ↦ s.handleKey stroke) (last, s)).2.followedBy [] depth') := by
  induction keys generalizing s last depth with
  | nil =>
    have hinput : (s.followedBy [] depth).resolver.input = [] := by
      show s.resolver.input ++ [] = []
      rw [hread, List.append_nil]
    rw [drain_of_nil last hinput]
    exact ⟨depth, rfl⟩
  | cons stroke rest ih =>
    have hsplit : s.followedBy (stroke :: rest) depth = (s.enqueue stroke).followedBy rest depth := by
      rw [followedBy, Resolver.followedBy, List.append_cons]
      rfl
    rw [hsplit] at hleft ⊢
    obtain ⟨depth', hdrain⟩ := drain_followedBy (s := s.enqueue stroke) last (Nat.zero_le depth) hleft
    rw [hdrain, ← handleKey_eq_drain hreported hread stroke last] at hleft ⊢
    obtain ⟨hregistry, hquiet⟩ := handleKey_quiet horderly hreported stroke
    exact ih (s := (s.handleKey stroke).2) (by rwa [hregistry]) (s.call_input (.key stroke)) hquiet _
      hleft

end Session

end ModalEdit
