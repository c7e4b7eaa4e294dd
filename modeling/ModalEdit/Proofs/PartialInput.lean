import ModalEdit.Action.Builtin
import ModalEdit.Proofs.ReplayBudget
import ModalEdit.Proofs.TrieLookup

/-!
What a resolver holds of a command that is not complete fits together. Its strokes are fed in the
pending mode while an operator waits and in a base mode otherwise, and the base mode changes only while
nothing has been typed (`Reaches`). The parts but for the buffered strokes fit (`Fits`) and stay so when
the buffer is emptied; with the buffer they are `Consistent`. A step either waits and stays consistent
or gives an outcome and forgets everything that was typed (`Settles`), which is proved for each way that
a step can end (`acceptAction_settles`, `accept_settles`, `giveUp_settles`) and from these for feeding
and flushing. The result is `partial_input_stays_consistent`.
-/

set_option autoImplicit false
set_option relaxedAutoImplicit false

namespace ModalEdit

/-! ### Counts -/

/-- A count, if there is one, is at least one and within the limit. -/
def CountInRange (count : Option ℕ) : Prop := ∀ n ∈ count, 1 ≤ n ∧ n ≤ maxCount

theorem countInRange_none : CountInRange none := nofun

namespace PendingInput

variable {p : PendingInput}

theorem totalCount_inRange (hbefore : CountInRange p.countBefore) (hafter : CountInRange p.countAfter) :
    CountInRange p.totalCount := by
  have hpos {count : Option ℕ} (h : CountInRange count) : 1 ≤ count.getD 1 := by
    cases count with
    | none => exact le_rfl
    | some n => exact (h n rfl).1
  have hproduct : 1 ≤ p.countBefore.getD 1 * p.countAfter.getD 1 :=
    Nat.mul_pos (hpos hbefore) (hpos hafter)
  unfold totalCount
  split
  · exact countInRange_none
  · intro n hn
    obtain rfl := Option.some.inj hn
    exact ⟨le_min hproduct (by decide), min_le_right _ _⟩

/-- A digit that a count may take, which is no zero at its beginning, leaves it in range. -/
theorem pushDigit_inRange (hbefore : CountInRange p.countBefore) (hafter : CountInRange p.countAfter)
    {digit : ℕ} {operatorActive : Bool} (hdigit : digit ≠ 0 ∨ p.hasCount operatorActive = true) :
    CountInRange (p.pushDigit digit operatorActive).countBefore ∧
      CountInRange (p.pushDigit digit operatorActive).countAfter := by
  have hcount : CountInRange (p.count operatorActive) := by
    cases operatorActive
    · exact hbefore
    · exact hafter
  have hpos : 1 ≤ (p.count operatorActive).getD 0 * 10 + digit := by
    rcases hdigit with hdigit | hsome
    · omega
    · obtain ⟨n, hn⟩ := Option.isSome_iff_exists.mp hsome
      have := (hcount n hn).1
      rw [hn, Option.getD_some]
      omega
  have hvalue : CountInRange (some (min ((p.count operatorActive).getD 0 * 10 + digit) maxCount)) := by
    intro n hn
    obtain rfl := Option.some.inj hn
    exact ⟨le_min hpos (by decide), min_le_right _ _⟩
  cases operatorActive
  · exact ⟨hvalue, hafter⟩
  · exact ⟨hbefore, hvalue⟩

end PendingInput

namespace Resolver

/-! ### Runs -/

/-- The mode in which a stroke is fed: the pending one while an operator waits, or else the base
mode. -/
def modeOver (r : Resolver) (base : Mode) : Mode := if r.operatorPending then .operatorPending else base

/-- A call that needs a mode is made in this one. -/
def Call.In (mode : Mode) : Call → Prop
  | feed _ m => m = mode
  | flush m => m = mode
  | _ => True

/-- The states that a resolver can be in, with the base mode. The base mode is not the pending one, and
it changes only while nothing has been typed of a command. -/
inductive Reaches (keymap : Keymap) (registry : Registry) : Mode → Resolver → Prop
  | start {base : Mode} : base ≠ .operatorPending → Reaches keymap registry base {}
  | change {base next : Mode} {r : Resolver} : Reaches keymap registry base r →
      r.hasPending = false → next ≠ .operatorPending → Reaches keymap registry next r
  | enqueue {base : Mode} {r : Resolver} (stroke : KeyStroke) : Reaches keymap registry base r →
      Reaches keymap registry base (r.enqueue stroke)
  | call {base : Mode} {r : Resolver} {c : Call} : Reaches keymap registry base r →
      c.In (r.modeOver base) → Reaches keymap registry base (c.run keymap registry r)

/-! ### What fits together -/

/-- Apart from the buffered strokes: a count after the operator needs an operator, counts are in range,
and in a base mode that takes no counts nothing is typed before an operator but the strokes. -/
structure Fits (base : Mode) (r : Resolver) : Prop where
  countAfter : r.pending.countAfter.isSome = true → r.operatorPending = true
  beforeInRange : CountInRange r.pending.countBefore
  afterInRange : CountInRange r.pending.countAfter
  operatorInRange : ∀ call ∈ r.operator, CountInRange call.rawCount
  awaitingInRange : ∀ call ∈ r.awaitingChar, CountInRange call.rawCount
  bare : r.operator = none → takesCounts base = false → r.pending.countBefore = none ∧
    r.pending.register = none ∧ r.pending.awaitingRegister = false

/-- Buffered strokes go on in the trie of the mode, and they, a motion that waits for its character and
a register that waits for its name exclude one another. -/
structure Consistent (keymap : Keymap) (base : Mode) (r : Resolver) : Prop extends Fits base r where
  buffered : r.pending.keys ≠ [] →
    (keymap.trie (.ofMode (r.modeOver base))).goesBeyond r.pending.keys = true ∧
      r.awaitingChar = none ∧ r.pending.awaitingRegister = false
  awaiting : r.awaitingChar.isSome = true → r.pending.awaitingRegister = false

/-- A step leaves a consistent state, and if it does not wait then one in which nothing is typed. -/
def Settles (keymap : Keymap) (base : Mode) (result : Outcome × Resolver) : Prop :=
  result.2.Consistent keymap base ∧ (result.1 ≠ .pending → result.2.hasPending = false)

section Settles

variable {keymap : Keymap} {registry : Registry} {base : Mode} {r : Resolver}

theorem modeOver_of_none (h : r.operator = none) (base : Mode) : r.modeOver base = base := by
  rw [modeOver, operatorPending_of_none h]
  exact if_neg Bool.false_ne_true

theorem operator_eq_none_of_modeOver (h : r.modeOver base ≠ .operatorPending) : r.operator = none := by
  by_contra hsome
  refine h (if_pos ?_)
  exact Option.isSome_iff_ne_none.mpr hsome

theorem consistent_of_idle (h : r.hasPending = false) : r.Consistent keymap base := by
  obtain ⟨hpending, hoperator, hawaiting⟩ := hasPending_eq_false_iff.mp h
  constructor
  · constructor <;> simp [hpending, hoperator, hawaiting, countInRange_none]
  · simp [hpending]
  · simp [hpending]

theorem settles_of_idle {result : Outcome × Resolver} (h : result.2.hasPending = false) :
    Settles keymap base result :=
  ⟨consistent_of_idle h, fun _ ↦ h⟩

theorem settles_of_pending {after : Resolver} (h : after.Consistent keymap base) :
    Settles keymap base (.pending, after) :=
  ⟨h, fun hne ↦ absurd rfl hne⟩

/-- A command that takes no argument forgets what was typed if no operator waits. -/
theorem resolveAlone_idle (hoperator : r.operator = none) (hchar : r.awaitingChar = none)
    (call : ActionCall) : (r.resolveAlone call).2.hasPending = false :=
  hasPending_eq_false_iff.mpr ⟨rfl, hoperator, hchar⟩

/-- With the buffer emptied, and no character or register's name awaited, what fits is consistent. -/
theorem Fits.consistent (h : Fits base r) (hkeys : r.pending.keys = [])
    (hregister : r.pending.awaitingRegister = false) : r.Consistent keymap base where
  toFits := h
  buffered hne := absurd hkeys hne
  awaiting _ := hregister

/-- The strokes, buffered or to be read, are not among what fits. -/
theorem Fits.withKeys (h : Fits base r) (keys input : Keys) (mapDepth : ℕ) :
    Fits base { r with pending := { r.pending with keys }, input, mapDepth } :=
  ⟨h.countAfter, h.beforeInRange, h.afterInRange, h.operatorInRange, h.awaitingInRange, h.bare⟩

/-! ### Taking a sequence or giving it up -/

section Buffer

variable (h : Fits base r) (hchar : r.awaitingChar = none)
  (hregister : r.pending.awaitingRegister = false)
include h hchar hregister

theorem acceptAction_settles (hkeys : r.pending.keys = []) (id : ActionId) (keys : Keys) :
    Settles keymap base (r.acceptAction id keys (r.modeOver base) registry) := by
  refine acceptAction_cases (motive := Settles keymap base) r (r.modeOver base) registry id keys
    ?unregistered ?onSelection ?waits ?doubled ?mismatched ?awaits ?completes ?refused ?alone
  case unregistered => exact fun _ ↦ settles_of_idle rfl
  case onSelection =>
    intro spec _ _ hvisual
    have hne : r.modeOver base ≠ .operatorPending := by
      intro hmode
      rw [hmode] at hvisual
      cases hvisual
    have hnone : r.operator = none := operator_eq_none_of_modeOver hne
    exact settles_of_idle (resolveAlone_idle hnone hchar _)
  case waits =>
    intro spec _ _ _ _
    refine settles_of_pending (Fits.consistent ?_ hkeys hregister)
    constructor
    · exact fun _ ↦ rfl
    · exact h.beforeInRange
    · exact h.afterInRange
    · intro call hcall
      obtain rfl := Option.some.inj hcall
      exact countInRange_none
    · exact h.awaitingInRange
    · exact nofun
  case doubled => exact fun _ _ _ _ _ _ _ _ ↦ settles_of_idle rfl
  case mismatched => exact fun _ _ _ _ _ _ ↦ settles_of_idle rfl
  case awaits =>
    intro spec _ _
    refine settles_of_pending (Fits.consistent ?_ hkeys hregister)
    constructor
    · exact nofun
    · exact countInRange_none
    · exact countInRange_none
    · exact h.operatorInRange
    · intro call hcall
      obtain rfl := Option.some.inj hcall
      exact PendingInput.totalCount_inRange h.beforeInRange h.afterInRange
    · exact fun hnone htakes ↦ ⟨rfl, (h.bare hnone htakes).2⟩
  case completes => exact fun _ _ _ ↦ settles_of_idle rfl
  case refused => exact fun _ _ _ _ ↦ settles_of_idle rfl
  case alone => exact fun _ _ _ hnone ↦ settles_of_idle (resolveAlone_idle hnone hchar _)

theorem accept_settles (consumed : ℕ) (target : Target) :
    Settles keymap base (r.accept consumed target (r.modeOver base) registry) := by
  refine accept_cases (motive := Settles keymap base) r (r.modeOver base) registry consumed target
    ?expand ?overflow ?action
  case expand =>
    intro replacement _ _
    exact settles_of_pending (Fits.consistent (h.withKeys [] _ _) rfl hregister)
  case overflow => exact fun _ _ _ ↦ settles_of_idle rfl
  case action =>
    exact fun id _ ↦ acceptAction_settles (r := r.takeKeys consumed) (h.withKeys [] _ _) hchar hregister
      rfl id _

/-- Where a stroke is text there is no count and no register to be forgotten with it. -/
theorem giveUp_settles : Settles keymap base (r.giveUp (r.modeOver base)) := by
  refine giveUp_cases (motive := Settles keymap base) r (r.modeOver base) ?typed ?dropped
  case typed =>
    intro first rest _ hentry hnone
    rw [modeOver_of_none hnone] at hentry
    have htakes : takesCounts base = false := by
      cases base <;> first | rfl | cases hentry
    obtain ⟨hbefore, hname, -⟩ := h.bare hnone htakes
    have hafter : r.pending.countAfter = none := by
      by_contra hsome
      have hwaits := h.countAfter (Option.isSome_iff_ne_none.mpr hsome)
      cases (operatorPending_of_none hnone).symm.trans hwaits
    refine settles_of_idle (hasPending_eq_false_iff.mpr ⟨?_, hnone, hchar⟩)
    show (⟨[], r.pending.countBefore, r.pending.countAfter, r.pending.register,
      r.pending.awaitingRegister⟩ : PendingInput) = {}
    rw [hbefore, hafter, hname, hregister]
  case dropped => exact settles_of_idle rfl

end Buffer

/-! ### Feeding and flushing -/

theorem feed_settles (h : r.Consistent keymap base) (stroke : KeyStroke) :
    Settles keymap base (r.feed stroke (r.modeOver base) keymap registry) := by
  refine feed_cases (motive := Settles keymap base) r (r.modeOver base) keymap registry stroke ?cancel
    ?argument ?refused ?named ?digit ?mark ?buffered
  case cancel => exact fun _ _ ↦ settles_of_idle rfl
  case argument => exact fun _ _ _ _ ↦ settles_of_idle rfl
  case refused => exact fun _ ↦ settles_of_idle rfl
  case named =>
    intro name hchar hname _
    have hkeys : r.pending.keys = [] := by
      by_contra hne
      rw [(h.buffered hne).2.2] at hname
      cases hname
    refine settles_of_pending (Fits.consistent ?_ hkeys rfl)
    refine ⟨h.countAfter, h.beforeInRange, h.afterInRange, h.operatorInRange, h.awaitingInRange, ?_⟩
    intro hnone htakes
    have hmark := (h.bare hnone htakes).2.2
    rw [hname] at hmark
    cases hmark
  case digit =>
    intro d hchar htakes hkeys hd
    obtain ⟨-, hallowed⟩ := Option.filter_eq_some_iff.mp hd
    have hdigit : d ≠ 0 ∨ r.pending.hasCount r.operatorPending = true := by simpa using hallowed
    have hcounts := PendingInput.pushDigit_inRange h.beforeInRange h.afterInRange hdigit
    have hkept : (r.pending.pushDigit d r.operatorPending).keys = r.pending.keys ∧
        (r.pending.pushDigit d r.operatorPending).register = r.pending.register ∧
        (r.pending.pushDigit d r.operatorPending).awaitingRegister = r.pending.awaitingRegister := by
      cases r.operatorPending <;> exact ⟨rfl, rfl, rfl⟩
    refine settles_of_pending ⟨⟨?_, hcounts.1, hcounts.2, h.operatorInRange, h.awaitingInRange, ?_⟩,
      fun hne ↦ absurd (hkept.1.trans hkeys) hne, ?_⟩
    · intro hafter
      cases hoperator : r.operatorPending with
      | true => exact hoperator
      | false =>
        have hcount : (r.pending.pushDigit d r.operatorPending).countAfter.isSome = true := hafter
        rw [hoperator] at hcount
        rw [← hoperator]
        exact h.countAfter hcount
    · intro hnone hbase
      rw [modeOver_of_none (r := r) hnone, hbase] at htakes
      cases htakes
    · intro hawaiting
      exact hkept.2.2.trans (h.awaiting hawaiting)
  case mark =>
    intro hchar htakes hkeys hmark
    have hnone : r.operator = none := by
      simp only [startsRegister, Bool.and_eq_true, Bool.not_eq_true', operatorPending] at hmark
      simpa using hmark.1.2
    refine settles_of_pending ⟨⟨h.countAfter, h.beforeInRange, h.afterInRange, h.operatorInRange,
      h.awaitingInRange, ?_⟩, fun hne ↦ absurd hkeys hne, ?_⟩
    · intro _ hbase
      rw [modeOver_of_none hnone, hbase] at htakes
      cases htakes
    · intro hawaiting
      have hsome : r.awaitingChar.isSome = true := hawaiting
      rw [hchar] at hsome
      cases hsome
  case buffered =>
    intro hbuffers
    simp only [buffers, Bool.and_eq_true, Bool.not_eq_true', Option.isNone_iff_eq_none] at hbuffers
    obtain ⟨⟨⟨-, hchar⟩, hregister⟩, -⟩ := hbuffers
    have hpushed : Fits base (r.push stroke) := h.withKeys _ _ _
    refine buffer_cases (motive := Settles keymap base) r (r.modeOver base) keymap registry stroke
      ?wait ?take ?leave
    case wait =>
      intro hresolve
      exact settles_of_pending ⟨hpushed, fun _ ↦ ⟨Trie.goesBeyond_of_resolve hresolve, hchar, hregister⟩,
        fun _ ↦ hregister⟩
    case take => exact fun consumed target _ ↦ accept_settles hpushed hchar hregister consumed target
    case leave => exact fun _ ↦ giveUp_settles hpushed hchar hregister

theorem flush_settles (h : r.Consistent keymap base) :
    Settles keymap base (r.flush (r.modeOver base) keymap registry) := by
  refine flush_cases (motive := Settles keymap base) r (r.modeOver base) keymap registry ?idle ?take
    ?leave
  case idle => exact fun _ ↦ settles_of_pending h
  case take =>
    intro consumed target ambiguous hresolve
    have hne : r.pending.keys ≠ [] := by
      intro hnil
      rw [hnil] at hresolve
      cases hresolve
    exact accept_settles h.toFits (h.buffered hne).2.1 (h.buffered hne).2.2 consumed target
  case leave => exact fun hne _ ↦ giveUp_settles h.toFits (h.buffered hne).2.1 (h.buffered hne).2.2

/-! ### Every state of a run -/

theorem Call.run_consistent (h : r.Consistent keymap base) {c : Call} (hmode : c.In (r.modeOver base)) :
    (c.run keymap registry r).Consistent keymap base := by
  cases c with
  | feed stroke mode =>
    obtain rfl : mode = r.modeOver base := hmode
    exact (feed_settles h stroke).1
  | flush mode =>
    obtain rfl : mode = r.modeOver base := hmode
    exact (flush_settles h).1
  | read => exact ⟨h.withKeys _ _ _, h.buffered, h.awaiting⟩
  | reset => exact consistent_of_idle rfl
  | clear => exact consistent_of_idle rfl

theorem Reaches.consistent (h : Reaches keymap registry base r) : r.Consistent keymap base := by
  induction h with
  | start _ => exact consistent_of_idle rfl
  | change _ hidle _ _ => exact consistent_of_idle hidle
  | enqueue stroke _ ih => exact ⟨ih.withKeys _ _ _, ih.buffered, ih.awaiting⟩
  | call _ hmode ih => exact Call.run_consistent ih hmode

end Settles

/-- Whatever is bound and registered, in every state that a resolver can reach the buffered strokes are
the beginning of a longer bound sequence, at most one of the buffered strokes, the awaited character and
the awaited register is there, a count after an operator comes with an operator, and all counts are in
range. And what is fed or flushed next either waits, or leaves nothing of a command. -/
theorem partial_input_stays_consistent (bindings : List Binding) (registry : Registry) {base : Mode}
    {r : Resolver} (h : Reaches (Keymap.bindAll {} bindings) registry base r) :
    let keymap := Keymap.bindAll {} bindings
    (r.pending.keys = [] ∨ ∃ more target, more ≠ [] ∧
      keymap.get? (.ofMode (r.modeOver base)) (r.pending.keys ++ more) = some target) ∧
    [!r.pending.keys.isEmpty, r.awaitingChar.isSome, r.pending.awaitingRegister].count true ≤ 1 ∧
    (r.pending.countAfter.isSome = true → r.operator.isSome = true) ∧
    (CountInRange r.pending.countBefore ∧ CountInRange r.pending.countAfter ∧
      (∀ call ∈ r.operator, CountInRange call.rawCount) ∧
      ∀ call ∈ r.awaitingChar, CountInRange call.rawCount) ∧
    (∀ stroke, (r.feed stroke (r.modeOver base) keymap registry).1 ≠ .pending →
      (r.feed stroke (r.modeOver base) keymap registry).2.hasPending = false) ∧
    ((r.flush (r.modeOver base) keymap registry).1 ≠ .pending →
      (r.flush (r.modeOver base) keymap registry).2.hasPending = false) := by
  intro keymap
  have hr : r.Consistent keymap base := h.consistent
  refine ⟨?_, ?_, hr.countAfter, ⟨hr.beforeInRange, hr.afterInRange, hr.operatorInRange,
    hr.awaitingInRange⟩, fun stroke ↦ (feed_settles hr stroke).2, (flush_settles hr).2⟩
  · by_cases hkeys : r.pending.keys = []
    · exact .inl hkeys
    · exact .inr (Trie.exists_get?_of_goesBeyond (Keymap.bindAll_noDeadEnds bindings _)
        (hr.buffered hkeys).1)
  · by_cases hkeys : r.pending.keys = []
    · cases hchar : r.awaitingChar with
      | none => cases r.pending.awaitingRegister <;> simp [hkeys]
      | some call =>
        have hregister := hr.awaiting (by rw [hchar]; rfl)
        simp [hkeys, hregister]
    · obtain ⟨-, hchar, hregister⟩ := hr.buffered hkeys
      rw [hchar, hregister]
      cases r.pending.keys.isEmpty <;> decide

/-- With the operators and text objects bound as by default, the `i` of `2d3i` is the beginning of a
bound sequence, and the stroke after it waits or leaves nothing. -/
theorem object_waits_for_its_letter :
    let keymap := Keymap.bindAll {} (Keymap.Default.operators ++ Keymap.Default.textObjects)
    let registry := Registry.ofList Builtin.operators
    let r := ['2', 'd', '3', 'i'].foldl
      (fun r c ↦ (r.feed (.char c) (r.modeOver .normal) keymap registry).2) ({} : Resolver)
    Reaches keymap registry .normal r ∧ r.pending.keys = [.char 'i'] ∧
      r.pending.countAfter = some 3 ∧ r.operator.isSome = true ∧
      (∃ more target, more ≠ [] ∧
        keymap.get? (.ofMode (r.modeOver .normal)) (r.pending.keys ++ more) = some target) ∧
      ∀ stroke, (r.feed stroke (r.modeOver .normal) keymap registry).1 ≠ .pending →
        (r.feed stroke (r.modeOver .normal) keymap registry).2.hasPending = false := by
  intro keymap registry r
  have hreach : Reaches keymap registry .normal r :=
    List.foldlRecOn (motive := Reaches keymap registry .normal) _ _ (.start Mode.noConfusion)
      fun _ ht c _ ↦ .call (c := .feed (.char c) _) ht rfl
  obtain ⟨hkeys, hafter⟩ : r.pending.keys = [.char 'i'] ∧ r.pending.countAfter = some 3 := by
    decide +kernel
  obtain ⟨hbuffered, -, hoperator, -, hfeed, -⟩ := partial_input_stays_consistent _ registry hreach
  refine ⟨hreach, hkeys, hafter, hoperator (by rw [hafter]; rfl), ?_, hfeed⟩
  exact hbuffered.resolve_left (by rw [hkeys]; exact List.cons_ne_nil _ [])

end Resolver

end ModalEdit
