import ModalEdit.Resolver.Drain

/-!
What one step of the resolver can do. Feeding a stroke, flushing, taking a sequence, taking an action
and giving up each have one lemma that lists their outcomes under the conditions in which they arise
(`feed_cases`, `buffer_cases`, `flush_cases`, `accept_cases`, `acceptAction_cases`, `giveUp_cases`).
What holds of all outcomes holds of the step, so an invariant of the resolver needs no look at how a
step is computed.
-/

set_option autoImplicit false
set_option relaxedAutoImplicit false

namespace ModalEdit.Resolver

/-! ### The states a step passes through -/

/-- A stroke joins those that may become a sequence. -/
def push (r : Resolver) (stroke : KeyStroke) : Resolver :=
  r.modifyPending fun p ↦ { p with keys := p.keys ++ [stroke] }

/-- The buffer is emptied, and the strokes behind the ones taken are to be read again. -/
def takeKeys (r : Resolver) (consumed : Nat) : Resolver :=
  (r.modifyPending ({ · with keys := [] })).replay (r.pending.keys.drop consumed)

/-- A stroke that is neither a cancel nor an argument, a register's name, a digit or a register's mark
joins the buffer. -/
def buffers (r : Resolver) (stroke : KeyStroke) (mode : Mode) : Bool :=
  !(stroke.isEscape && r.hasPending) && r.awaitingChar.isNone && !r.pending.awaitingRegister &&
    !(takesCounts mode && r.pending.keys.isEmpty &&
      ((r.countDigit? stroke).isSome || r.startsRegister stroke))

theorem operatorPending_of_none {r : Resolver} (h : r.operator = none) : r.operatorPending = false := by
  rw [operatorPending, h]
  rfl

theorem isEscape_of_ne {stroke : KeyStroke} (h : stroke ≠ .escape) : stroke.isEscape = false :=
  beq_eq_false_iff_ne.mpr h

theorem buffers_of_ne {r : Resolver} {stroke : KeyStroke} {mode : Mode} (hne : stroke ≠ .escape)
    (hawaiting : r.awaitingChar = none) (hregister : r.pending.awaitingRegister = false)
    (hcounts : takesCounts mode = true → r.pending.keys = [] →
      r.countDigit? stroke = none ∧ r.startsRegister stroke = false) :
    r.buffers stroke mode = true := by
  have hnone : (takesCounts mode && r.pending.keys.isEmpty &&
      ((r.countDigit? stroke).isSome || r.startsRegister stroke)) = false := by
    by_cases h : takesCounts mode = true ∧ r.pending.keys = []
    · obtain ⟨hdigit, hmark⟩ := hcounts h.1 h.2
      rw [hdigit, hmark]
      exact Bool.and_false _
    · rw [Bool.and_eq_false_imp]
      intro hboth
      rw [Bool.and_eq_true_iff, List.isEmpty_iff] at hboth
      exact absurd hboth h
  rw [buffers, isEscape_of_ne hne, hawaiting, hregister, hnone]
  rfl

theorem hasPending_eq_false_iff {r : Resolver} :
    r.hasPending = false ↔ r.pending = {} ∧ r.operator = none ∧ r.awaitingChar = none := by
  simp only [hasPending, Bool.or_eq_false_iff, Bool.not_eq_false', PendingInput.isEmpty, beq_iff_eq,
    Option.isSome_eq_false_iff, Option.isNone_iff_eq_none, and_assoc]

@[simp] theorem push_pending (r : Resolver) (stroke : KeyStroke) :
    (r.push stroke).pending = { r.pending with keys := r.pending.keys ++ [stroke] } := rfl

@[simp] theorem takeKeys_input (r : Resolver) (consumed : Nat) :
    (r.takeKeys consumed).input = r.pending.keys.drop consumed ++ r.input := rfl

/-! ### Feeding and flushing -/

section Cases

variable {motive : Outcome × Resolver → Prop} (r : Resolver) (mode : Mode) (keymap : Keymap)
  (registry : Registry)

theorem feed_cases (stroke : KeyStroke)
    (cancel : stroke.isEscape = true → r.hasPending = true → motive (.cancelled, r.reset))
    (argument : ∀ call c, r.awaitingChar = some call → argumentChar? stroke = some c →
      motive ({ r with awaitingChar := none }.complete
        { call with char := some c, keys := call.keys ++ [stroke] }))
    (refused : r.awaitingChar.isSome = true ∨ r.pending.awaitingRegister = true →
      motive (.unmapped [stroke], r.reset))
    (named : ∀ name, r.awaitingChar = none → r.pending.awaitingRegister = true →
      Registers.isValidName name = true → motive (.pending, r.modifyPending (·.setRegister name)))
    (digit : ∀ d, r.awaitingChar = none → takesCounts mode = true → r.pending.keys = [] →
      r.countDigit? stroke = some d →
      motive (.pending, r.modifyPending (·.pushDigit d r.operatorPending)))
    (mark : r.awaitingChar = none → takesCounts mode = true → r.pending.keys = [] →
      r.startsRegister stroke = true →
      motive (.pending, r.modifyPending ({ · with awaitingRegister := true })))
    (buffered : r.buffers stroke mode = true → motive (r.buffer stroke mode keymap registry)) :
    motive (r.feed stroke mode keymap registry) := by
  unfold feed
  split
  · next h => exact cancel (Bool.and_eq_true_iff.mp h).1 (Bool.and_eq_true_iff.mp h).2
  · next hcancel =>
    split
    · next call hcall =>
      split
      · next c hc => exact argument call c hcall hc
      · exact refused (.inl (by simp [hcall]))
    · next hcall =>
      split
      · next hregister =>
        split
        · next name hname =>
          exact named name hcall hregister (Option.filter_eq_some_iff.mp hname).2
        · exact refused (.inr hregister)
      · next hregister =>
        split
        · next hcounts =>
          obtain ⟨htakes, hkeys⟩ := Bool.and_eq_true_iff.mp hcounts
          split
          · next d hd => exact digit d hcall htakes (List.isEmpty_iff.mp hkeys) hd
          · next hd =>
            split
            · next hmark => exact mark hcall htakes (List.isEmpty_iff.mp hkeys) hmark
            · next hmark =>
              refine buffered ?_
              simp [buffers, Bool.eq_false_iff.mpr hcancel, hcall, hregister, hd, hmark]
        · next hcounts =>
          refine buffered ?_
          simp [buffers, Bool.eq_false_iff.mpr hcancel, hcall, hregister,
            Bool.eq_false_iff.mpr hcounts]

theorem feed_of_buffers {r : Resolver} {mode : Mode} {stroke : KeyStroke} (keymap : Keymap)
    (registry : Registry) (h : r.buffers stroke mode = true) :
    r.feed stroke mode keymap registry = r.buffer stroke mode keymap registry := by
  simp only [buffers, Bool.and_eq_true, Bool.not_eq_true', Option.isNone_iff_eq_none] at h
  obtain ⟨⟨⟨hcancel, hcall⟩, hregister⟩, hcounts⟩ := h
  unfold feed
  rw [if_neg (Bool.eq_false_iff.mp hcancel), hcall]
  show (if r.pending.awaitingRegister then _ else _) = _
  rw [if_neg (Bool.eq_false_iff.mp hregister)]
  split
  · next htakes =>
    rw [htakes, Bool.true_and, Bool.or_eq_false_iff] at hcounts
    rw [Option.isSome_eq_false_iff.mp hcounts.1 |> Option.isNone_iff_eq_none.mp]
    exact if_neg (Bool.eq_false_iff.mp hcounts.2)
  · rfl

theorem buffer_cases (stroke : KeyStroke)
    (wait : keymap.resolve (.ofMode mode) (r.push stroke).pending.keys = .needMore ∨
      (∃ consumed target, keymap.resolve (.ofMode mode) (r.push stroke).pending.keys =
        .matched consumed target true) → motive (.pending, r.push stroke))
    (take : ∀ consumed target, keymap.resolve (.ofMode mode) (r.push stroke).pending.keys =
      .matched consumed target false → motive ((r.push stroke).accept consumed target mode registry))
    (leave : keymap.resolve (.ofMode mode) (r.push stroke).pending.keys = .unmapped →
      motive ((r.push stroke).giveUp mode)) :
    motive (r.buffer stroke mode keymap registry) := by
  unfold buffer
  dsimp only
  split
  · next hresolve => exact wait (.inl hresolve)
  · next consumed target ambiguous hresolve =>
    cases ambiguous with
    | true => exact wait (.inr ⟨consumed, target, hresolve⟩)
    | false => exact take consumed target hresolve
  · next hresolve => exact leave hresolve

theorem buffer_of_matched {r : Resolver} {mode : Mode} {keymap : Keymap} {stroke : KeyStroke}
    {consumed : Nat} {target : Target} (registry : Registry)
    (h : keymap.resolve (.ofMode mode) (r.push stroke).pending.keys = .matched consumed target false) :
    r.buffer stroke mode keymap registry = (r.push stroke).accept consumed target mode registry := by
  refine buffer_cases (motive := fun result ↦ result = _) r mode keymap registry stroke
    ?wait ?take ?leave
  case wait =>
    rintro (hmore | ⟨_, _, hmore⟩) <;> rw [h] at hmore <;> cases hmore
  case take =>
    intro _ _ hsame
    rw [h] at hsame
    cases hsame
    rfl
  case leave =>
    intro hleave
    rw [h] at hleave
    cases hleave

theorem flush_cases
    (idle : r.pending.keys = [] → motive (.pending, r))
    (take : ∀ consumed target ambiguous, keymap.resolve (.ofMode mode) r.pending.keys =
      .matched consumed target ambiguous → motive (r.accept consumed target mode registry))
    (leave : r.pending.keys ≠ [] → keymap.resolve (.ofMode mode) r.pending.keys = .needMore ∨
      keymap.resolve (.ofMode mode) r.pending.keys = .unmapped → motive (r.giveUp mode)) :
    motive (r.flush mode keymap registry) := by
  unfold flush
  split
  · next hkeys => exact idle (List.isEmpty_iff.mp hkeys)
  · next hkeys =>
    have hne : r.pending.keys ≠ [] := fun h ↦ hkeys (List.isEmpty_iff.mpr h)
    split
    · next consumed target ambiguous hresolve => exact take consumed target ambiguous hresolve
    · next hresolve => exact leave hne (.inl hresolve)
    · next hresolve => exact leave hne (.inr hresolve)

/-! ### Taking a sequence or giving it up -/

theorem giveUp_cases
    (typed : ∀ first rest, r.pending.keys = first :: rest → mode.isTextEntry = true →
      r.operator = none →
      motive (.unmapped [first], (r.modifyPending ({ · with keys := [] })).replay rest))
    (dropped : motive (.unmapped r.pending.keys, r.reset)) : motive (r.giveUp mode) := by
  unfold giveUp
  split
  · next first rest hkeys =>
    split
    · next h =>
      obtain ⟨hentry, hoperator⟩ := Bool.and_eq_true_iff.mp h
      exact typed first rest hkeys hentry (by simpa [operatorPending] using hoperator)
    · rw [← hkeys]
      exact dropped
  · next hkeys =>
    rw [← hkeys]
    exact dropped

theorem accept_cases (consumed : Nat) (target : Target)
    (expand : ∀ replacement, target = .remap replacement → r.mapDepth < maxMapDepth →
      motive (.pending, { r.takeKeys consumed with mapDepth := r.mapDepth + 1 }.replay replacement))
    (overflow : ∀ replacement, target = .remap replacement → maxMapDepth ≤ r.mapDepth →
      motive (.unmapped (r.pending.keys.take consumed),
        { r.takeKeys consumed with mapDepth := r.mapDepth + 1 }.clear))
    (action : ∀ id, target = .action id →
      motive ((r.takeKeys consumed).acceptAction id (r.pending.keys.take consumed) mode registry)) :
    motive (r.accept consumed target mode registry) := by
  cases target with
  | action id => exact action id rfl
  | remap replacement =>
    show motive (if maxMapDepth < r.mapDepth + 1 then
        (.unmapped (r.pending.keys.take consumed),
          { r.takeKeys consumed with mapDepth := r.mapDepth + 1 }.clear)
      else (.pending, { r.takeKeys consumed with mapDepth := r.mapDepth + 1 }.replay replacement))
    split
    · next h => exact overflow replacement rfl (Nat.lt_succ_iff.mp h)
    · next h => exact expand replacement rfl (Nat.lt_of_succ_le (Nat.not_lt.mp h))

/-- The call that an action makes when its sequence has been typed. -/
def typedCall (spec : ActionSpec) (keys : Keys) : ActionCall := { spec.call with keys }

theorem acceptAction_cases (id : ActionId) (keys : Keys)
    (unregistered : registry.get? id = none → motive (.unmapped keys, r.reset))
    (onSelection : ∀ spec, registry.get? id = some spec → spec.handler.kind = .operator →
      mode.isVisual = true → motive (r.resolveAlone (typedCall spec keys)))
    (waits : ∀ spec, registry.get? id = some spec → spec.handler.kind = .operator →
      mode.isVisual = false → r.operator = none →
      motive (.pending, { r with operator := some (typedCall spec keys) }))
    (doubled : ∀ spec op lines, registry.get? id = some spec → spec.handler.kind = .operator →
      mode.isVisual = false → r.operator = some op → op.action = spec.id → motive (r.complete lines))
    (mismatched : ∀ spec op, registry.get? id = some spec → spec.handler.kind = .operator →
      r.operator = some op → op.action ≠ spec.id → motive (.unmapped keys, r.reset))
    (awaits : ∀ spec, registry.get? id = some spec → spec.flags.expectsChar = true →
      motive (.pending, { r.modifyPending (·.clearCounts) with
        awaitingChar := some (r.counted (typedCall spec keys)) }))
    (completes : ∀ spec, registry.get? id = some spec → spec.flags.expectsChar = false →
      motive ((r.modifyPending (·.clearCounts)).complete (r.counted (typedCall spec keys))))
    (refused : ∀ spec, registry.get? id = some spec → spec.handler.kind = .other →
      r.operatorPending = true → motive (.unmapped keys, r.reset))
    (alone : ∀ spec, registry.get? id = some spec → spec.handler.kind = .other →
      r.operator = none → motive (r.resolveAlone (typedCall spec keys))) :
    motive (r.acceptAction id keys mode registry) := by
  unfold acceptAction
  cases hspec : registry.get? id with
  | none => exact unregistered hspec
  | some spec =>
    have takes : motive
        (if spec.flags.expectsChar then
          (.pending, { r.modifyPending (·.clearCounts) with
            awaitingChar := some (r.counted (typedCall spec keys)) })
        else (r.modifyPending (·.clearCounts)).complete (r.counted (typedCall spec keys))) := by
      split
      · next h => exact awaits spec hspec h
      · next h => exact completes spec hspec (Bool.eq_false_iff.mpr h)
    dsimp only
    split
    · next hkind =>
      show motive (r.acceptOperator (typedCall spec keys) mode registry)
      unfold acceptOperator
      split
      · next hvisual => exact onSelection spec hspec hkind hvisual
      · next hvisual =>
        split
        · next hoperator => exact waits spec hspec hkind (Bool.eq_false_iff.mpr hvisual) hoperator
        · next op hoperator =>
          split
          · next hsame =>
            exact doubled spec op _ hspec hkind (Bool.eq_false_iff.mpr hvisual) hoperator hsame
          · next hother => exact mismatched spec op hspec hkind hoperator hother
    · exact takes
    · exact takes
    · next hkind =>
      show motive (if r.operatorPending then (.unmapped keys, r.reset)
        else r.resolveAlone (typedCall spec keys))
      split
      · next hoperator => exact refused spec hspec hkind hoperator
      · next hoperator =>
        exact alone spec hspec hkind (by simpa [operatorPending] using hoperator)

end Cases

/-- Where it is text the first stroke is given up. -/
theorem giveUp_of_typed {r : Resolver} {first : KeyStroke} {rest : Keys} {mode : Mode}
    (hkeys : r.pending.keys = first :: rest) (hentry : mode.isTextEntry = true)
    (hnone : r.operator = none) :
    r.giveUp mode = (.unmapped [first], (r.modifyPending ({ · with keys := [] })).replay rest) := by
  unfold giveUp
  rw [hkeys]
  exact if_pos (by rw [hentry, operatorPending_of_none hnone]; rfl)

/-- Elsewhere all is given up. -/
theorem giveUp_of_dropped {r : Resolver} {mode : Mode}
    (h : ¬ (mode.isTextEntry = true ∧ r.operator = none)) :
    r.giveUp mode = (.unmapped r.pending.keys, r.reset) := by
  refine giveUp_cases (motive := fun result ↦ result = _) r mode ?typed ?dropped
  case typed => exact fun _ _ _ hentry hnone ↦ absurd ⟨hentry, hnone⟩ h
  case dropped => rfl

theorem acceptAction_of_other {r : Resolver} {registry : Registry} {id : ActionId} {spec : ActionSpec}
    (hget : registry.get? id = some spec) (hkind : spec.handler.kind = .other)
    (hnone : r.operator = none) (keys : Keys) (mode : Mode) :
    r.acceptAction id keys mode registry = r.resolveAlone (typedCall spec keys) := by
  have hidle : ¬ r.operatorPending = true := by
    rw [operatorPending_of_none hnone]
    exact Bool.false_ne_true
  unfold acceptAction
  rw [hget]
  dsimp only
  split
  · next hoperator => exact CommandKind.noConfusion (hkind.symm.trans hoperator)
  · next hmotion => exact CommandKind.noConfusion (hkind.symm.trans hmotion)
  · next hobject => exact CommandKind.noConfusion (hkind.symm.trans hobject)
  · exact if_neg hidle

/-- An operator takes nothing but what it acts over. -/
theorem acceptAction_refused {r : Resolver} {registry : Registry} {id : ActionId} {spec : ActionSpec}
    (hget : registry.get? id = some spec) (hkind : spec.handler.kind = .other)
    (hwaits : r.operatorPending = true) (keys : Keys) (mode : Mode) :
    r.acceptAction id keys mode registry = (.unmapped keys, r.reset) := by
  unfold acceptAction
  rw [hget]
  dsimp only
  split
  · next hoperator => exact CommandKind.noConfusion (hkind.symm.trans hoperator)
  · next hmotion => exact CommandKind.noConfusion (hkind.symm.trans hmotion)
  · next hobject => exact CommandKind.noConfusion (hkind.symm.trans hobject)
  · exact if_pos hwaits

/-- A motion or text object takes the counts and waits for its character, or is complete. -/
theorem acceptAction_of_target {r : Resolver} {registry : Registry} {id : ActionId} {spec : ActionSpec}
    (hget : registry.get? id = some spec)
    (hkind : spec.handler.kind = .motion ∨ spec.handler.kind = .textObject) (keys : Keys) (mode : Mode) :
    r.acceptAction id keys mode registry =
      if spec.flags.expectsChar then
        (.pending, { r.modifyPending (·.clearCounts) with
          awaitingChar := some (r.counted (typedCall spec keys)) })
      else (r.modifyPending (·.clearCounts)).complete (r.counted (typedCall spec keys)) := by
  unfold acceptAction
  rw [hget]
  dsimp only
  split
  · next hoperator =>
    rcases hkind with hmotion | hobject
    · exact CommandKind.noConfusion (hmotion.symm.trans hoperator)
    · exact CommandKind.noConfusion (hobject.symm.trans hoperator)
  · rfl
  · rfl
  · next hother =>
    rcases hkind with hmotion | hobject
    · exact CommandKind.noConfusion (hmotion.symm.trans hother)
    · exact CommandKind.noConfusion (hobject.symm.trans hother)

/-- Outside of the visual modes an operator waits for what it acts on, unless one waits already. -/
theorem acceptAction_of_operator {r : Resolver} {registry : Registry} {id : ActionId} {spec : ActionSpec}
    (hget : registry.get? id = some spec) (hkind : spec.handler.kind = .operator) (keys : Keys)
    {mode : Mode} (hvisual : mode.isVisual = false) :
    r.acceptAction id keys mode registry =
      match r.operator with
      | none => (.pending, { r with operator := some (typedCall spec keys) })
      | some op =>
        if op.action = spec.id then
          let flags := ((registry.get? ActionId.currentLine).map (·.flags)).getD { linewise := true }
          r.complete (r.counted { kind := .motion, action := ActionId.currentLine, flags, keys })
        else (.unmapped keys, r.reset) := by
  have hmode : ¬ mode.isVisual = true := Bool.eq_false_iff.mp hvisual
  unfold acceptAction
  rw [hget]
  dsimp only
  split
  · rw [acceptOperator, if_neg hmode]
    rfl
  · next hmotion => exact CommandKind.noConfusion (hkind.symm.trans hmotion)
  · next hobject => exact CommandKind.noConfusion (hkind.symm.trans hobject)
  · next hother => exact CommandKind.noConfusion (hkind.symm.trans hother)

/-- In the visual modes an operator is a command alone. -/
theorem acceptAction_on_selection {r : Resolver} {registry : Registry} {id : ActionId} {spec : ActionSpec}
    (hget : registry.get? id = some spec) (hkind : spec.handler.kind = .operator) (keys : Keys)
    {mode : Mode} (hvisual : mode.isVisual = true) :
    r.acceptAction id keys mode registry = r.resolveAlone (typedCall spec keys) := by
  unfold acceptAction
  rw [hget]
  dsimp only
  split
  · rw [acceptOperator, if_pos hvisual]
    rfl
  · next hmotion => exact CommandKind.noConfusion (hkind.symm.trans hmotion)
  · next hobject => exact CommandKind.noConfusion (hkind.symm.trans hobject)
  · next hother => exact CommandKind.noConfusion (hkind.symm.trans hother)

/-! ### Strokes that do not join the buffer -/

section Feed

variable {r : Resolver} {mode : Mode} {stroke : KeyStroke} (keymap : Keymap) (registry : Registry)

theorem feed_of_argument {call : ActionCall} {c : Char} (hawaiting : r.awaitingChar = some call)
    (hchar : argumentChar? stroke = some c) :
    r.feed stroke mode keymap registry = { r with awaitingChar := none }.complete
      { call with char := some c, keys := call.keys ++ [stroke] } := by
  have hne : stroke ≠ .escape := by
    rintro rfl
    cases hchar
  unfold feed
  rw [isEscape_of_ne hne, hawaiting]
  dsimp only
  rw [hchar]
  rfl

theorem feed_of_register {name : Char} (hawaiting : r.awaitingChar = none)
    (hregister : r.pending.awaitingRegister = true) (htyped : stroke.typedChar? = some name)
    (hvalid : Registers.isValidName name = true) :
    r.feed stroke mode keymap registry = (.pending, r.modifyPending (·.setRegister name)) := by
  have hne : stroke ≠ .escape := by
    rintro rfl
    cases htyped
  have hname : stroke.typedChar?.filter Registers.isValidName = some name := by
    rw [htyped, Option.filter_some, if_pos hvalid]
  unfold feed
  rw [isEscape_of_ne hne, hawaiting]
  dsimp only
  rw [hregister, hname]
  rfl

section Counts

variable (hawaiting : r.awaitingChar = none) (hregister : r.pending.awaitingRegister = false)
  (htakes : takesCounts mode = true) (hkeys : r.pending.keys = [])
include hawaiting hregister htakes hkeys

theorem feed_of_digit {digit : Nat} (hdigit : r.countDigit? stroke = some digit) :
    r.feed stroke mode keymap registry =
      (.pending, r.modifyPending (·.pushDigit digit r.operatorPending)) := by
  have hne : stroke ≠ .escape := by
    rintro rfl
    cases hdigit
  unfold feed
  rw [isEscape_of_ne hne, hawaiting]
  dsimp only
  rw [hregister, htakes, hkeys, hdigit]
  rfl

theorem feed_of_mark (hdigit : r.countDigit? stroke = none) (hmark : r.startsRegister stroke = true) :
    r.feed stroke mode keymap registry =
      (.pending, r.modifyPending ({ · with awaitingRegister := true })) := by
  have hne : stroke ≠ .escape := by
    rintro rfl
    cases hmark
  unfold feed
  rw [isEscape_of_ne hne, hawaiting]
  dsimp only
  rw [hregister, htakes, hkeys, hdigit, hmark]
  rfl

end Counts

end Feed

end ModalEdit.Resolver
