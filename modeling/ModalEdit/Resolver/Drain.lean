import ModalEdit.Resolver.Basic

/-!
Reading the input until it is empty. Every stroke that is fed either uses up one of the replacements that
are left between two strokes from outside, or leaves fewer strokes to be read and buffered, or moves one
from the input to the buffer; so the input runs dry whatever the bindings are and whatever modes the
strokes are fed in.
-/

set_option autoImplicit false

namespace ModalEdit

theorem Trie.longest?_pos {t : Trie} {keys : Keys} {consumed : Nat} {target : Target}
    (h : t.longest? keys = some (consumed, target)) : 0 < consumed := by
  cases keys with
  | nil => simp [longest?] at h
  | cons key rest =>
    simp only [longest?] at h
    split at h
    · simp at h
    · split at h
      · cases h; omega
      · next found _ _ _ _ =>
        cases found with
        | none => simp at h
        | some found => simp only [Option.map_some, Option.some.injEq, Prod.mk.injEq] at h; omega

theorem Trie.consumed_pos {t : Trie} {keys : Keys} {consumed : Nat} {target : Target} {ambiguous : Bool}
    (h : t.resolve keys = .matched consumed target ambiguous) : 0 < consumed := by
  unfold resolve at h
  split at h
  · next hl => cases h; exact longest?_pos hl
  · split at h <;> simp at h

namespace Resolver

/-- The replacements that are left. -/
def mapsLeft (r : Resolver) : Nat := maxMapDepth - r.mapDepth

/-- The strokes that are to be read or buffered. -/
def strokesHeld (r : Resolver) : Nat := r.input.length + r.pending.keys.length

/-- A step from one state to another that brings the input nearer to its end. -/
def Closer (after before : Resolver) : Prop :=
  after.mapsLeft < before.mapsLeft ∨
    after.mapsLeft = before.mapsLeft ∧
      (after.strokesHeld < before.strokesHeld ∨
        after.strokesHeld = before.strokesHeld ∧ after.input.length < before.input.length)

theorem closer_of_fewer {after before : Resolver} (hd : after.mapDepth = before.mapDepth)
    (h : after.strokesHeld < before.strokesHeld) : Closer after before :=
  .inr ⟨by simp [mapsLeft, hd], .inl h⟩

/-- What a command takes leaves the depth, and of the strokes no more than those that are yet to be
read. -/
theorem complete_held (r : Resolver) (call : ActionCall) :
    (r.complete call).2.mapDepth = r.mapDepth ∧ (r.complete call).2.strokesHeld ≤ r.strokesHeld := by
  simp [complete, reset, strokesHeld]

theorem resolveAlone_held (r : Resolver) (call : ActionCall) :
    (r.resolveAlone call).2.mapDepth = r.mapDepth ∧
      (r.resolveAlone call).2.strokesHeld ≤ r.strokesHeld := by
  simp [resolveAlone, strokesHeld]

theorem acceptAction_held (r : Resolver) (id : ActionId) (keys : Keys) (mode : Mode)
    (registry : Registry) :
    (r.acceptAction id keys mode registry).2.mapDepth = r.mapDepth ∧
      (r.acceptAction id keys mode registry).2.strokesHeld ≤ r.strokesHeld := by
  unfold acceptAction
  split
  · simp [reset, strokesHeld]
  · dsimp only
    split
    · unfold acceptOperator
      split
      · exact resolveAlone_held _ _
      · split
        · simp [strokesHeld]
        · split
          · exact complete_held _ _
          · simp [reset, strokesHeld]
    · split
      · simp [modifyPending, strokesHeld, PendingInput.clearCounts]
      · simp [complete, reset, strokesHeld, modifyPending]
    · split
      · simp [modifyPending, strokesHeld, PendingInput.clearCounts]
      · simp [complete, reset, strokesHeld, modifyPending]
    · split
      · simp [reset, strokesHeld]
      · exact resolveAlone_held _ _

/-- Taking a sequence is a step nearer the end from any state with one stroke more to read. -/
theorem accept_closer {r before : Resolver} {consumed : Nat} (target : Target) (mode : Mode)
    (registry : Registry) (hc : 0 < consumed) (hk : 0 < r.pending.keys.length)
    (hd : r.mapDepth = before.mapDepth) (hs : r.strokesHeld ≤ before.strokesHeld) :
    Closer (r.accept consumed target mode registry).2 before := by
  unfold accept
  cases target with
  | action id =>
    dsimp only
    have h := acceptAction_held ((r.modifyPending ({ · with keys := [] })).replay
      (r.pending.keys.drop consumed)) id (r.pending.keys.take consumed) mode registry
    refine closer_of_fewer (h.1.trans hd) (Nat.lt_of_le_of_lt h.2 ?_)
    simp only [strokesHeld, replay, modifyPending, List.length_append, List.length_drop,
      List.length_nil] at hs ⊢
    omega
  | remap replacement =>
    dsimp only
    split
    · next hlimit =>
      simp only [modifyPending, replay] at hlimit
      refine .inr ⟨?_, .inl ?_⟩
      · simp only [mapsLeft, clear, reset, modifyPending, replay]
        omega
      · simp only [strokesHeld, clear, reset, modifyPending, replay, List.length_nil] at hs ⊢
        omega
    · next hlimit =>
      simp only [modifyPending, replay] at hlimit
      refine .inl ?_
      simp only [mapsLeft, modifyPending, replay]
      omega

theorem giveUp_closer {r before : Resolver} (mode : Mode) (hk : 0 < r.pending.keys.length)
    (hd : r.mapDepth = before.mapDepth) (hs : r.strokesHeld ≤ before.strokesHeld) :
    Closer (r.giveUp mode).2 before := by
  unfold giveUp
  split
  · next first rest hkeys =>
    split
    · refine closer_of_fewer hd ?_
      simp only [strokesHeld, modifyPending, replay, List.length_append, List.length_nil, hkeys,
        List.length_cons] at hs ⊢
      omega
    · refine closer_of_fewer hd ?_
      simp only [strokesHeld, reset, List.length_nil] at hs ⊢
      omega
  · next hkeys => simp [hkeys] at hk

theorem buffer_closer {r before : Resolver} (stroke : KeyStroke) (mode : Mode) (keymap : Keymap)
    (registry : Registry) (hd : r.mapDepth = before.mapDepth)
    (hs : r.strokesHeld + 1 = before.strokesHeld) (hi : r.input.length < before.input.length) :
    Closer (r.buffer stroke mode keymap registry).2 before := by
  have hkeys : (r.pending.keys ++ [stroke]).length = r.pending.keys.length + 1 := by simp
  have held : (r.modifyPending fun p ↦ { p with keys := p.keys ++ [stroke] }).strokesHeld =
      before.strokesHeld := by
    simp only [strokesHeld, modifyPending, hkeys] at hs ⊢
    omega
  have waits : Closer (r.modifyPending fun p ↦ { p with keys := p.keys ++ [stroke] }) before :=
    .inr ⟨by simp [mapsLeft, modifyPending, hd], .inr ⟨held, hi⟩⟩
  have pos : 0 < (r.modifyPending fun p ↦ { p with keys := p.keys ++ [stroke] }).pending.keys.length := by
    simp [modifyPending]
  unfold buffer
  dsimp only
  split
  · exact waits
  · next h =>
    split
    · exact waits
    · exact accept_closer _ _ _ (Trie.consumed_pos h) pos hd (Nat.le_of_eq held)
  · exact giveUp_closer _ pos hd (Nat.le_of_eq held)

/-- The state once the first stroke of the input is read. -/
def afterRead (r : Resolver) : Resolver := { r with input := r.input.tail }

theorem feed_closer {r : Resolver} (stroke : KeyStroke) (mode : Mode) (keymap : Keymap)
    (registry : Registry) (h : 0 < r.input.length) :
    Closer (r.afterRead.feed stroke mode keymap registry).2 r := by
  have hi : r.afterRead.input.length < r.input.length := by
    simp only [afterRead, List.length_tail]
    omega
  have hs : r.afterRead.strokesHeld + 1 = r.strokesHeld := by
    simp only [strokesHeld, afterRead, List.length_tail]
    omega
  have forgets : Closer r.afterRead.reset r := by
    refine closer_of_fewer rfl ?_
    simp only [strokesHeld, reset, List.length_nil] at hs ⊢
    omega
  have keeps {f : PendingInput → PendingInput} (hf : (f r.pending).keys = r.pending.keys) :
      Closer (r.afterRead.modifyPending f) r := by
    refine closer_of_fewer rfl ?_
    have : (r.afterRead.modifyPending f).strokesHeld = r.afterRead.strokesHeld := by
      simp [strokesHeld, modifyPending, afterRead, hf]
    omega
  have buffers : Closer (r.afterRead.buffer stroke mode keymap registry).2 r :=
    buffer_closer stroke mode keymap registry rfl hs hi
  unfold feed
  split
  · exact forgets
  · split
    · split
      · refine closer_of_fewer rfl ?_
        simp only [complete, strokesHeld, reset, List.length_nil] at hs ⊢
        omega
      · exact forgets
    · split
      · split
        · exact keeps (by simp [PendingInput.setRegister])
        · exact forgets
      · split
        · split
          · exact keeps (by unfold PendingInput.pushDigit; dsimp only; split <;> rfl)
          · split
            · exact keeps rfl
            · exact buffers
        · exact buffers

/-- Reads the input to its end. Each stroke is fed in the mode that the other state calls for, and that
state takes note of the outcome. -/
def drain {σ : Type} (keymap : Keymap) (registry : Registry) (modeOf : Resolver → σ → Mode)
    (act : Resolver → Outcome → σ → σ) (r : Resolver) (s : σ) : Resolver × σ :=
  match _h : r.input with
  | [] => (r, s)
  | stroke :: _ =>
    let fed := r.afterRead.feed stroke (modeOf r.afterRead s) keymap registry
    drain keymap registry modeOf act fed.2 (act fed.2 fed.1 s)
termination_by (r.mapsLeft, r.strokesHeld, r.input.length)
decreasing_by
  rcases feed_closer stroke (modeOf r.afterRead s) keymap registry (r := r) (by simp [_h]) with
    h | ⟨hm, h | ⟨hs, h⟩⟩
  · exact Prod.Lex.left _ _ h
  · exact Prod.Lex.right' _ (Nat.le_of_eq hm) (Prod.Lex.left _ _ h)
  · exact Prod.Lex.right' _ (Nat.le_of_eq hm) (Prod.Lex.right' _ (Nat.le_of_eq hs) h)

end Resolver

end ModalEdit
