import Mathlib.Data.Nat.Digits.Defs
import ModalEdit.Proofs.BoundSequence
import ModalEdit.Proofs.PartialInput
import ModalEdit.Proofs.StandardSession

/-!
The grammar of operator commands. What is typed before the target is a register, a count, an operator
and another count (`Opening`), and the target is a motion or text object with its character if it takes
one (`TypedTarget`). Each part leads the resolver from one state to the next and only waits: a register's
name is read after its mark, digits saturate their count, the operator is taken when its keys are
complete. So the whole command is answered once, by its last stroke, and carries the product of the
counts (`operator_command_is_read`).
-/

set_option autoImplicit false
set_option relaxedAutoImplicit false

namespace ModalEdit

/-! ### What is typed -/

/-- The stroke of a decimal digit. -/
def digitStroke (digit : Fin 10) : KeyStroke := .char (Nat.digitChar digit)

/-- A count as it is typed, which begins with no zero. It may be left out. -/
structure TypedCount where
  digits : List (Fin 10) := []
  head_ne_zero : digits.head? ≠ some 0 := by decide

namespace TypedCount

def strokes (c : TypedCount) : Keys := c.digits.map digitStroke

/-- The number that is meant: one if nothing is typed. -/
def value (c : TypedCount) : ℕ :=
  if c.digits = [] then 1 else Nat.ofDigits 10 (c.digits.map Fin.val).reverse

/-- What a resolver keeps of it. -/
def kept? (c : TypedCount) : Option ℕ := if c.digits = [] then none else some (min c.value maxCount)

/-- The count of a command with one count before and one after the operator. -/
def product? (before after : TypedCount) : Option ℕ :=
  if before.digits = [] ∧ after.digits = [] then none
  else some (min (before.value * after.value) maxCount)

end TypedCount

/-- The operators that the normal mode takes. -/
inductive OperatorKey where
  | delete
  | change
  | yank
  | lowercase
  | uppercase
  | toggleCase
  deriving DecidableEq, Repr

namespace OperatorKey

open Keymap.Default (typed)

def all : List OperatorKey := [delete, change, yank, lowercase, uppercase, toggleCase]

theorem mem_all (o : OperatorKey) : o ∈ all := by cases o <;> decide

def keys : OperatorKey → Keys
  | delete => typed "d"
  | change => typed "c"
  | yank => typed "y"
  | lowercase => typed "gu"
  | uppercase => typed "gU"
  | toggleCase => typed "g~"

/-- The key that makes the operator act on lines when it is typed after its keys. -/
def again : OperatorKey → KeyStroke
  | delete => .char 'd'
  | change => .char 'c'
  | yank => .char 'y'
  | lowercase => .char 'u'
  | uppercase => .char 'U'
  | toggleCase => .char '~'

def action : OperatorKey → ActionId
  | delete => ActionId.delete
  | change => ActionId.change
  | yank => ActionId.yank
  | lowercase => ActionId.lowercase
  | uppercase => ActionId.uppercase
  | toggleCase => ActionId.toggleCase

def call (o : OperatorKey) : ActionCall := { kind := .operator, action := o.action, keys := o.keys }

end OperatorKey

/-- What is typed of an operator command before its target. -/
structure Opening where
  register : Option Char := none
  before : TypedCount := {}
  operator : OperatorKey
  after : TypedCount := {}
  register_valid : ∀ name ∈ register, Registers.isValidName name = true

/-- A motion or text object of the pending mode as it is typed, with the stroke for its character if it
takes one. -/
structure TypedTarget where
  keys : Keys
  spec : ActionSpec
  argument : Option KeyStroke := none
  bound : Keymap.standard.get? .operatorPending keys = some (.action spec.id)
  registered : Registry.standard.get? spec.id = some spec
  kind : spec.handler.kind = .motion ∨ spec.handler.kind = .textObject
  takes : spec.flags.expectsChar = argument.isSome
  typed : ∀ stroke ∈ argument, (Resolver.argumentChar? stroke).isSome = true

namespace Opening

def registerStrokes : Option Char → Keys
  | none => []
  | some name => [.char '"', .char name]

def strokes (o : Opening) : Keys :=
  registerStrokes o.register ++ o.before.strokes ++ o.operator.keys ++ o.after.strokes

def count? (o : Opening) : Option ℕ := o.before.product? o.after

/-- The command of the operator over a target. -/
def command (o : Opening) (target : ActionCall) : Command :=
  { o.operator.call with
    rawCount := o.count?
    register := o.register
    keys := o.operator.keys ++ target.keys
    argument := some { target with rawCount := o.count? } }

end Opening

namespace TypedTarget

def strokes (t : TypedTarget) : Keys := t.keys ++ t.argument.toList

/-- The call of the target with nothing but its character. -/
def call (t : TypedTarget) : ActionCall :=
  { t.spec.call with char := t.argument.bind Resolver.argumentChar?, keys := t.strokes }

end TypedTarget

/-- A command without the keys that it was typed with. -/
def Command.withoutKeys (c : Command) : Command :=
  { c with keys := [], argument := c.argument.map ({ · with keys := [] }) }

/-! ### Counts -/

namespace TypedCount

variable (c : TypedCount)

theorem ofDigits_concat (digits : List (Fin 10)) (digit : Fin 10) :
    Nat.ofDigits 10 ((digits ++ [digit]).map Fin.val).reverse =
      Nat.ofDigits 10 (digits.map Fin.val).reverse * 10 + digit.val := by
  rw [List.map_append, List.reverse_append, List.map_singleton, List.reverse_singleton,
    List.singleton_append, Nat.ofDigits_cons]
  exact (Nat.add_comm _ _).trans (congrArg (· + digit.val) (Nat.mul_comm _ _))

theorem ofDigits_pos {digits : List (Fin 10)} (hne : digits ≠ []) (hhead : digits.head? ≠ some 0) :
    1 ≤ Nat.ofDigits 10 (digits.map Fin.val).reverse := by
  induction digits using List.reverseRecOn with
  | nil => exact absurd rfl hne
  | append_singleton front digit ih =>
    rw [ofDigits_concat]
    by_cases hfront : front = []
    · subst hfront
      have hdigit : digit ≠ 0 := fun h ↦ hhead (by rw [h]; rfl)
      have := Fin.pos_iff_ne_zero.mpr hdigit
      omega
    · have hhead' : front.head? ≠ some 0 := by
        rwa [List.head?_append_of_ne_nil front hfront] at hhead
      have := ih hfront hhead'
      omega

theorem one_le_value : 1 ≤ c.value := by
  unfold value
  split
  · exact le_rfl
  · next hne => exact ofDigits_pos hne c.head_ne_zero

/-- Limiting each count before they are multiplied makes no difference. -/
theorem min_mul_min {a b : ℕ} (limit : ℕ) (ha : 1 ≤ a) (hb : 1 ≤ b) :
    min (min a limit * min b limit) limit = min (a * b) limit := by
  rcases Nat.le_total a limit with hale | hlea
  · rcases Nat.le_total b limit with hble | hleb
    · rw [min_eq_left hale, min_eq_left hble]
    · rw [min_eq_left hale, min_eq_right hleb, min_eq_right (Nat.le_mul_of_pos_left limit ha),
        min_eq_right (hleb.trans (Nat.le_mul_of_pos_left b ha))]
  · have hproduct : limit ≤ a * b := hlea.trans (Nat.le_mul_of_pos_right a hb)
    rw [min_eq_right hlea, min_eq_right hproduct]
    rcases Nat.eq_zero_or_pos limit with rfl | hpos
    · rw [Nat.min_zero]
    · exact min_eq_right (Nat.le_mul_of_pos_right limit (le_min hb hpos))

theorem totalCount_eq (before after : TypedCount) {p : PendingInput}
    (hbefore : p.countBefore = before.kept?) (hafter : p.countAfter = after.kept?) :
    p.totalCount = before.product? after := by
  have hproduct := min_mul_min maxCount before.one_le_value after.one_le_value
  unfold PendingInput.totalCount product?
  rw [hbefore, hafter]
  unfold kept?
  by_cases hb : before.digits = [] <;> by_cases ha : after.digits = [] <;>
    simp_all [value]

/-- A digit is added to what is kept, up to the limit. -/
theorem kept?_concat {front : List (Fin 10)} {digit : Fin 10} (hfront : front.head? ≠ some 0)
    (hwhole : (front ++ [digit]).head? ≠ some 0) :
    some (min ((kept? ⟨front, hfront⟩).getD 0 * 10 + digit.val) maxCount) =
      kept? ⟨front ++ [digit], hwhole⟩ := by
  have hne : front ++ [digit] ≠ [] := List.append_ne_nil_of_right_ne_nil _ (List.cons_ne_nil _ _)
  rw [kept?, kept?, if_neg hne, value, value, if_neg hne, ofDigits_concat]
  by_cases hnil : front = []
  · subst hnil
    rfl
  · rw [if_neg hnil, if_neg hnil, Option.getD_some, maxCount]
    dsimp only
    congr 1
    omega

end TypedCount

/-! ### What the standard keymap binds -/

namespace Keymap

/-- In the pending mode every binding is in force and goes no further, has no Escape in it, and but for
the zero alone begins with no digit. -/
theorem operatorPending_bindings :
    ∀ b ∈ standardBindings, MapMode.operatorPending ∈ b.modes →
      standard.get? .operatorPending b.keys = some b.target ∧
        (standard.trie .operatorPending).goesBeyond b.keys = false ∧ KeyStroke.escape ∉ b.keys ∧
        (b.keys = [.char '0'] ∨ ∀ first ∈ b.keys.head?, first.digit? = none) := by
  decide +kernel

theorem operatorPending_get?_of_mem (letters : String) {keys : Keys} {id : ActionId}
    (h : Default.bind letters keys id ∈ standardBindings)
    (hmode : MapMode.operatorPending ∈ MapMode.ofLetters letters.toList) :
    standard.get? .operatorPending keys = some (.action id) :=
  (operatorPending_bindings _ h hmode).1

end Keymap

namespace OperatorKey

/-- The keys of an operator are bound in the normal mode, and go no further. -/
theorem keys_bound (o : OperatorKey) :
    Keymap.standard.get? .normal o.keys = some (.action o.action) ∧
      (Keymap.standard.trie .normal).goesBeyond o.keys = false := by
  have hall : ∀ o ∈ all, Keymap.standard.get? .normal o.keys = some (.action o.action) ∧
      (Keymap.standard.trie .normal).goesBeyond o.keys = false := by
    decide +kernel
  exact hall o o.mem_all

/-- The key to be typed again is bound to the operator in the pending mode. -/
theorem again_bound (o : OperatorKey) :
    Keymap.standard.get? .operatorPending [o.again] = some (.action o.action) := by
  have hall : ∀ o ∈ all, ∃ b ∈ Keymap.standardBindings, MapMode.operatorPending ∈ b.modes ∧
      b.keys = [o.again] ∧ b.target = .action o.action := by
    decide +kernel
  obtain ⟨b, hb, hmode, hkeys, htarget⟩ := hall o o.mem_all
  rw [← hkeys, ← htarget]
  exact (Keymap.operatorPending_bindings b hb hmode).1

theorem registered (o : OperatorKey) : ∃ spec, Registry.standard.get? o.action = some spec ∧
    spec.handler.kind = .operator ∧ spec.id = o.action ∧ Resolver.typedCall spec o.keys = o.call := by
  have hall : ∀ o ∈ all, ∃ spec ∈ Builtin.actions,
      spec.call = { kind := .operator, action := o.action } := by
    decide +kernel
  obtain ⟨spec, hmem, hcall⟩ := hall o o.mem_all
  have hid : spec.id = o.action := congrArg ActionCall.action hcall
  refine ⟨spec, hid ▸ Registry.standard_get?_of_mem hmem, congrArg ActionCall.kind hcall, hid, ?_⟩
  rw [Resolver.typedCall, hcall]
  rfl

theorem keys_first (o : OperatorKey) : KeyStroke.escape ∉ o.keys ∧
    ∀ first ∈ o.keys.head?, first.digit? = none ∧ first.typedChar? ≠ some '"' := by
  cases o <;> decide +kernel

end OperatorKey

/-! ### One part after the other -/

namespace PendingInput

/-- The count of the present phase is replaced. -/
def setCount (p : PendingInput) (count : Option ℕ) (operatorActive : Bool) : PendingInput :=
  if operatorActive then { p with countAfter := count } else { p with countBefore := count }

theorem setCount_count (p : PendingInput) (operatorActive : Bool) :
    p.setCount (p.count operatorActive) operatorActive = p := by
  cases operatorActive <;> rfl

theorem count_setCount (p : PendingInput) (count : Option ℕ) (operatorActive : Bool) :
    (p.setCount count operatorActive).count operatorActive = count := by
  cases operatorActive <;> rfl

@[simp] theorem setCount_keys (p : PendingInput) (count : Option ℕ) (operatorActive : Bool) :
    (p.setCount count operatorActive).keys = p.keys := by
  cases operatorActive <;> rfl

@[simp] theorem setCount_awaitingRegister (p : PendingInput) (count : Option ℕ) (operatorActive : Bool) :
    (p.setCount count operatorActive).awaitingRegister = p.awaitingRegister := by
  cases operatorActive <;> rfl

theorem pushDigit_setCount (p : PendingInput) (count : Option ℕ) (operatorActive : Bool) (digit : ℕ) :
    (p.setCount count operatorActive).pushDigit digit operatorActive =
      p.setCount (some (min (count.getD 0 * 10 + digit) maxCount)) operatorActive := by
  cases operatorActive <;> rfl

end PendingInput

namespace Resolver

theorem digit?_digitStroke (digit : Fin 10) : (digitStroke digit).digit? = some digit.val := by
  revert digit
  decide

theorem takesCounts_modeOver {base : Mode} (h : takesCounts base = true) (r : Resolver) :
    takesCounts (r.modeOver base) = true := by
  unfold modeOver
  split
  · rfl
  · exact h

/-- The state with another count in the present phase. -/
def withCount (r : Resolver) (count : Option ℕ) : Resolver :=
  r.modifyPending (·.setCount count r.operatorPending)

theorem withCount_hasCount (r : Resolver) (count : Option ℕ) :
    (r.withCount count).pending.hasCount r.operatorPending = count.isSome := by
  rw [PendingInput.hasCount, withCount, modifyPending, PendingInput.count_setCount]

/-- Nothing is buffered, read or awaited, so a digit counts. -/
structure TakesDigits (r : Resolver) : Prop where
  input : r.input = []
  mapDepth : r.mapDepth = 0
  keys : r.pending.keys = []
  awaitingChar : r.awaitingChar = none
  awaitingRegister : r.pending.awaitingRegister = false

section Digits

variable {keymap : Keymap} {registry : Registry} {base : Mode} {r : Resolver}

theorem feed_digit (hbase : takesCounts base = true) (h : r.TakesDigits) {digit : Fin 10} {count : Option ℕ}
    (hallowed : digit ≠ 0 ∨ count.isSome = true) :
    (r.withCount count).feed (digitStroke digit) ((r.withCount count).modeOver base) keymap registry =
      (.pending, r.withCount (some (min (count.getD 0 * 10 + digit.val) maxCount))) := by
  have hdigit : (r.withCount count).countDigit? (digitStroke digit) = some digit.val := by
    rw [countDigit?, digit?_digitStroke, Option.filter_some]
    refine if_pos ?_
    show (digit.val != 0 || (r.withCount count).pending.hasCount r.operatorPending) = true
    rw [withCount_hasCount, Bool.or_eq_true_iff, bne_iff_ne, Fin.val_ne_zero_iff]
    exact hallowed
  have hregister : (r.withCount count).pending.awaitingRegister = false :=
    (PendingInput.setCount_awaitingRegister _ _ _).trans h.awaitingRegister
  have hkeys : (r.withCount count).pending.keys = [] := (PendingInput.setCount_keys _ _ _).trans h.keys
  rw [feed_of_digit (r := r.withCount count) keymap registry h.awaitingChar hregister
    (takesCounts_modeOver hbase _) hkeys hdigit]
  show (_, { r with
    pending := (r.pending.setCount count r.operatorPending).pushDigit _ r.operatorPending }) = _
  rw [PendingInput.pushDigit_setCount]
  rfl

/-- Typing a count keeps its value within the limit. -/
theorem waitsThrough_count (hbase : takesCounts base = true) (c : TypedCount) (h : r.TakesDigits)
    (hcount : r.pending.count r.operatorPending = none) :
    WaitsThrough keymap registry (·.modeOver base) c.strokes r (r.withCount c.kept?) := by
  obtain ⟨digits, hhead⟩ := c
  induction digits using List.reverseRecOn with
  | nil =>
    have hsame : r.withCount none = r := by
      rw [withCount, modifyPending, ← hcount, PendingInput.setCount_count]
    show WaitsThrough _ _ _ [] r (r.withCount none)
    rw [hsame]
    exact leads_nil r
  | append_singleton front digit ih =>
    have hfront : front.head? ≠ some 0 := by
      by_cases hnil : front = []
      · rw [hnil]
        intro hzero
        cases hzero
      · rwa [List.head?_append_of_ne_nil front hnil] at hhead
    have hallowed : digit ≠ 0 ∨ (TypedCount.kept? ⟨front, hfront⟩).isSome = true := by
      by_cases hnil : front = []
      · subst hnil
        exact .inl fun h ↦ hhead (by rw [h]; rfl)
      · exact .inr (by rw [TypedCount.kept?, if_neg hnil]; rfl)
    have hlast : WaitsThrough keymap registry (·.modeOver base) [digitStroke digit]
        (r.withCount (TypedCount.kept? ⟨front, hfront⟩))
        (r.withCount (TypedCount.kept? ⟨front ++ [digit], hhead⟩)) := by
      rw [← TypedCount.kept?_concat hfront hhead]
      exact leads_of_feed h.input h.mapDepth (feed_digit hbase h hallowed) h.input
    rw [TypedCount.strokes, List.map_append]
    exact (ih hfront).append hlast

end Digits

end Resolver

open Resolver (Leads WaitsThrough Completes leads_nil leads_of_feed completes_of_feed completes_of_bound
  waitsThrough_of_bound)

/-- The call of the motion over lines. -/
def linesCall (keys : Keys) : ActionCall :=
  { kind := .motion, action := ActionId.currentLine, flags := Builtin.linewise, keys }

theorem currentLine_registered : Registry.standard.get? ActionId.currentLine =
    some (Builtin.motion ActionId.currentLine Motion.currentLine Builtin.linewise) :=
  Registry.standard_get?_of_mem
    (a := Builtin.motion ActionId.currentLine Motion.currentLine Builtin.linewise)
    (by simp [Builtin.actions, Builtin.motions])

/-- The key of the motion over lines. -/
def TypedTarget.lines : TypedTarget where
  keys := [.char '_']
  spec := Builtin.motion ActionId.currentLine Motion.currentLine Builtin.linewise
  bound := Keymap.operatorPending_get?_of_mem "NVO" (by decide +kernel) (by decide)
  registered := currentLine_registered
  kind := .inl rfl
  takes := rfl
  typed _ h := by cases h

namespace Opening

/-- The state that an opening leads to. -/
def state (o : Opening) : Resolver where
  pending := { register := o.register, countBefore := o.before.kept?, countAfter := o.after.kept? }
  operator := some o.operator.call

section Standard

variable {register : Option Char}

theorem waitsThrough_register (hvalid : ∀ name ∈ register, Registers.isValidName name = true) :
    WaitsThrough .standard .standard (·.modeOver .normal) (registerStrokes register) {}
      { pending := { register } } := by
  cases register with
  | none => exact leads_nil {}
  | some name =>
    have hmark : WaitsThrough .standard .standard (·.modeOver .normal) [.char '"'] {}
        { pending := { awaitingRegister := true } } :=
      leads_of_feed rfl rfl (Resolver.feed_of_mark _ _ rfl rfl rfl rfl rfl rfl) rfl
    have hname : WaitsThrough .standard .standard (·.modeOver .normal) [.char name]
        { pending := { awaitingRegister := true } } { pending := { register := some name } } :=
      leads_of_feed rfl rfl (Resolver.feed_of_register _ _ rfl rfl rfl (hvalid name rfl)) rfl
    exact hmark.append hname

theorem waitsThrough_operator (o : OperatorKey) (countBefore : Option ℕ) :
    WaitsThrough .standard .standard (·.modeOver .normal) o.keys
      { pending := { register, countBefore } }
      { pending := { register, countBefore }, operator := some o.call } := by
  obtain ⟨hget, hbeyond⟩ := o.keys_bound
  obtain ⟨spec, hspec, hkind, -, hcall⟩ := o.registered
  obtain ⟨hescape, hfirst⟩ := o.keys_first
  have hne : o.keys ≠ [] := by cases o <;> exact List.cons_ne_nil _ _
  refine waitsThrough_of_bound _ rfl rfl rfl (fun _ ↦ rfl) hne (.of_first rfl rfl hescape hfirst) hget
    hbeyond ?_ rfl
  rw [Resolver.accept_whole, Resolver.acceptAction_of_operator hspec hkind _ rfl, hcall]
  rfl

end Standard

variable (o : Opening)

theorem waitsThrough_strokes :
    WaitsThrough .standard .standard (·.modeOver .normal) o.strokes {} o.state := by
  have hbefore : WaitsThrough .standard .standard (·.modeOver .normal) o.before.strokes
      { pending := { register := o.register } }
      { pending := { register := o.register, countBefore := o.before.kept? } } :=
    Resolver.waitsThrough_count rfl o.before ⟨rfl, rfl, rfl, rfl, rfl⟩ rfl
  have hafter : WaitsThrough .standard .standard (·.modeOver .normal) o.after.strokes
      { pending := { register := o.register, countBefore := o.before.kept? },
        operator := some o.operator.call } o.state :=
    Resolver.waitsThrough_count rfl o.after ⟨rfl, rfl, rfl, rfl, rfl⟩ rfl
  exact (((waitsThrough_register o.register_valid).append hbefore).append
    (waitsThrough_operator o.operator o.before.kept?)).append hafter

theorem state_counted (call : ActionCall) :
    o.state.counted call = { call with rawCount := o.count? } := by
  rw [Resolver.counted, TypedCount.totalCount_eq o.before o.after rfl rfl]
  rfl

/-- What is bound in the pending mode joins the buffer, but for a zero that goes on a count. -/
theorem state_buffers {keys : Keys} {target : Target}
    (hget : Keymap.standard.get? .operatorPending keys = some target)
    (hzero : o.after.digits ≠ [] → keys ≠ [.char '0']) :
    o.state.Buffers keys ∧ (Keymap.standard.trie .operatorPending).goesBeyond keys = false := by
  obtain ⟨b, hb, hmode, rfl, -⟩ := Keymap.exists_binding_of_get? hget
  obtain ⟨-, hbeyond, hescape, hfirst⟩ := Keymap.operatorPending_bindings b hb hmode
  refine ⟨⟨rfl, rfl, hescape, fun first hmem ↦ ⟨?_, ?_⟩⟩, hbeyond⟩
  · rcases hfirst with hkeys | hfirst
    · have hafter : o.after.digits = [] := by
        by_contra hne
        exact hzero hne hkeys
      rw [hkeys] at hmem
      cases hmem
      show Option.filter (fun d ↦ d != 0 || o.after.kept?.isSome) (some 0) = none
      rw [TypedCount.kept?, if_pos hafter]
      rfl
    · rw [Resolver.countDigit?, hfirst first hmem]
      rfl
  · show (first.typedChar? == some '"' && false && o.register.isNone) = false
    rw [Bool.and_false, Bool.false_and]

/-- The state in which a target waits for its character. -/
def awaiting (o : Opening) (call : ActionCall) : Resolver where
  pending := { register := o.register }
  operator := some o.operator.call
  awaitingChar := some { call with rawCount := o.count? }

section Target

variable {keys : Keys} {spec : ActionSpec} {registry : Registry}
  (hget : registry.get? spec.id = some spec)
  (hkind : spec.handler.kind = .motion ∨ spec.handler.kind = .textObject)
include hget hkind

theorem accept_target (hchar : spec.flags.expectsChar = false) :
    (o.state.withKeys keys).accept keys.length (.action spec.id) .operatorPending registry =
      (.resolved (o.command { spec.call with keys }), {}) := by
  rw [Resolver.accept_whole, Resolver.acceptAction_of_target hget hkind,
    if_neg (Bool.eq_false_iff.mp hchar)]
  show Resolver.complete _ (o.state.counted _) = _
  rw [state_counted]
  rfl

theorem accept_awaiting (hchar : spec.flags.expectsChar = true) :
    (o.state.withKeys keys).accept keys.length (.action spec.id) .operatorPending registry =
      (.pending, o.awaiting { spec.call with keys }) := by
  rw [Resolver.accept_whole, Resolver.acceptAction_of_target hget hkind, if_pos hchar]
  show (_, { o.state.modifyPending (·.clearCounts) with
    awaitingChar := some (o.state.counted { spec.call with keys }) }) = _
  rw [state_counted]
  rfl

end Target

/-- The target completes the command. -/
theorem completes_target (t : TypedTarget) (hzero : o.after.digits ≠ [] → t.keys ≠ [.char '0']) :
    Completes .standard .standard (·.modeOver .normal) t.strokes o.state (.resolved (o.command t.call)) {} := by
  obtain ⟨keys, spec, argument, hbound, hget, hkind, htakes, htyped⟩ := t
  obtain ⟨hbuffers, hbeyond⟩ := o.state_buffers hbound hzero
  have hne : keys ≠ [] := by
    rintro rfl
    cases hbound.symm.trans (Trie.get?_nil _)
  cases argument with
  | none =>
    show Completes _ _ _ (keys ++ []) _ (.resolved (o.command { spec.call with keys := keys ++ [] })) _
    rw [List.append_nil]
    exact completes_of_bound _ rfl rfl rfl (fun _ ↦ rfl) hne hbuffers hbound hbeyond
      (o.accept_target hget hkind htakes) rfl
  | some stroke =>
    obtain ⟨c, hc⟩ := Option.isSome_iff_exists.mp (htyped stroke rfl)
    have hcall : TypedTarget.call ⟨keys, spec, some stroke, hbound, hget, hkind, htakes, htyped⟩ =
        { spec.call with char := some c, keys := keys ++ [stroke] } := by
      rw [← hc]
      rfl
    have hkeys : WaitsThrough .standard .standard (·.modeOver .normal) keys o.state
        (o.awaiting { spec.call with keys }) :=
      waitsThrough_of_bound _ rfl rfl rfl (fun _ ↦ rfl) hne hbuffers hbound hbeyond
        (o.accept_awaiting hget hkind htakes) rfl
    have hawaiting : (o.awaiting { spec.call with keys }).awaitingChar =
        some { spec.call with keys, rawCount := o.count? } := rfl
    rw [hcall]
    exact hkeys.completes (completes_of_feed rfl rfl (Resolver.feed_of_argument _ _ hawaiting hc) rfl)

theorem leads_target (t : TypedTarget) (hzero : o.after.digits ≠ [] → t.keys ≠ [.char '0']) :
    Leads .standard .standard (·.modeOver .normal) t.strokes o.state
      (List.replicate (t.strokes.length - 1) .pending ++ [.resolved (o.command t.call)]) {} :=
  (o.completes_target t hzero).leads

/-- The operator's key typed again completes the command over lines. -/
theorem completes_again :
    Completes .standard .standard (·.modeOver .normal) [o.operator.again] o.state
      (.resolved (o.command (linesCall [o.operator.again]))) {} := by
  have hbound := o.operator.again_bound
  obtain ⟨spec, hspec, hkind, hid, -⟩ := o.operator.registered
  have hzero : o.after.digits ≠ [] → [o.operator.again] ≠ [.char '0'] :=
    fun _ ↦ by cases o.operator <;> decide
  obtain ⟨hbuffers, hbeyond⟩ := o.state_buffers hbound hzero
  refine completes_of_bound _ rfl rfl rfl (fun _ ↦ rfl) (List.cons_ne_nil _ _) hbuffers hbound hbeyond ?_ rfl
  rw [Resolver.accept_whole, Resolver.acceptAction_of_operator hspec hkind _ rfl]
  show (if o.operator.action = spec.id then
      Resolver.complete _ (o.state.counted _) else _) = _
  rw [if_pos hid.symm, currentLine_registered, state_counted]
  rfl

theorem leads_again :
    Leads .standard .standard (·.modeOver .normal) [o.operator.again] o.state
      [.resolved (o.command (linesCall [o.operator.again]))] {} :=
  o.completes_again.leads

end Opening

/-- In the normal mode an idle resolver answers every stroke of an operator command but the last with
waiting, and the last with the one command that is meant: over the target, with the register, and with
the product of the counts within the limit. It is then idle again. The operator's key typed again stands
for the motion over lines. -/
theorem operator_command_is_read {r : Resolver} (hidle : r.hasPending = false) (hinput : r.input = [])
    (o : Opening) :
    (∀ t : TypedTarget, (o.after.digits ≠ [] → t.keys ≠ [.char '0']) →
      Leads .standard .standard (·.modeOver .normal) (o.strokes ++ t.strokes) r
        (List.replicate ((o.strokes ++ t.strokes).length - 1) .pending ++ [.resolved (o.command t.call)])
        {}) ∧
    ∃ doubled lines : Command, doubled.withoutKeys = lines.withoutKeys ∧
      Leads .standard .standard (·.modeOver .normal) (o.strokes ++ [o.operator.again]) r
        (List.replicate o.strokes.length .pending ++ [.resolved doubled]) {} ∧
      Leads .standard .standard (·.modeOver .normal) (o.strokes ++ [.char '_']) r
        (List.replicate o.strokes.length .pending ++ [.resolved lines]) {} := by
  have htyped {target : Keys} {outcomes : List Outcome} (hne : target ≠ [])
      (h : Leads .standard .standard (·.modeOver .normal) target o.state outcomes {}) :
      Leads .standard .standard (·.modeOver .normal) (o.strokes ++ target) r
        (List.replicate o.strokes.length .pending ++ outcomes) {} :=
    (Leads.append o.waitsThrough_strokes h).of_idle (List.append_ne_nil_of_right_ne_nil _ hne) hidle
      hinput
  refine ⟨fun t hzero ↦ ?_, o.command (linesCall [o.operator.again]),
    o.command TypedTarget.lines.call, rfl, htyped (List.cons_ne_nil _ _) o.leads_again,
    htyped (List.cons_ne_nil _ _) (o.leads_target .lines fun _ ↦ by decide)⟩
  have hne : t.strokes ≠ [] := by
    intro hnil
    have hget := t.bound
    rw [(List.append_eq_nil_iff.mp hnil).1] at hget
    cases hget.symm.trans (Trie.get?_nil _)
  have hlength : (o.strokes ++ t.strokes).length - 1 = o.strokes.length + (t.strokes.length - 1) := by
    rw [List.length_append, Nat.add_sub_assoc (List.length_pos_of_ne_nil hne)]
  rw [hlength, ← List.replicate_append_replicate, List.append_assoc]
  exact htyped hne (o.leads_target t hzero)

/-- By `"a2d3fx` what is before the sixth `x` is deleted with it, into the register `a`. -/
theorem delete_to_sixth_found :
    ({} : Resolver).hasPending = false ∧
      Leads .standard .standard (·.modeOver .normal) (Keymap.Default.typed "\"a2d3fx") {}
        (List.replicate 6 .pending ++ [.resolved {
          kind := .operator, action := ActionId.delete, rawCount := some 6, register := some 'a'
          keys := Keymap.Default.typed "dfx"
          argument := some {
            kind := .motion, action := ActionId.findForward, rawCount := some 6, char := some 'x'
            flags := { Builtin.inclusive with expectsChar := true }
            keys := Keymap.Default.typed "fx" } }])
        {} := by
  let o : Opening := {
    register := some 'a', before := { digits := [2] }, operator := .delete, after := { digits := [3] }
    register_valid := by
      rintro name ⟨⟩
      rfl }
  let t : TypedTarget := {
    keys := [.char 'f'], argument := some (.char 'x')
    spec := Builtin.motion ActionId.findForward (Motion.find .forward false)
      { Builtin.inclusive with expectsChar := true }
    bound := Keymap.operatorPending_get?_of_mem "NVO" (by decide +kernel) (by decide)
    registered := Registry.standard_get?_of_mem
      (a := Builtin.motion ActionId.findForward (Motion.find .forward false)
        { Builtin.inclusive with expectsChar := true })
      (by simp [Builtin.actions, Builtin.motions])
    kind := .inl rfl
    takes := rfl
    typed := by
      rintro stroke ⟨⟩
      rfl }
  exact ⟨rfl, (operator_command_is_read (r := {}) rfl rfl o).1 t fun _ ↦ by decide⟩

end ModalEdit
