import ModalEdit.Proofs.ReplayBudget

/-!
What a resolver answers while it reads. Reading the input takes turns until nothing is left of it
(`drain_of_nil`, `drain_of_cons`), so what every turn keeps holds in the end (`drain_keeps_to_end`). A
stroke from outside is read to the end before the next one comes (`typeStroke`), and what is still
buffered can be flushed and read on (`flushOnce`); the outcomes are noted in order. A flush that finds
something buffered is a step nearer to the end of the input, as a fed stroke is, so flushing again and
again empties the buffer whatever is bound (`exists_flushes_empty`).
-/

set_option autoImplicit false
set_option relaxedAutoImplicit false

namespace ModalEdit

namespace Resolver

section Drain

variable {σ : Type} (keymap : Keymap) (registry : Registry) (modeOf : Resolver → σ → Mode)
  (act : Resolver → Outcome → σ → σ) {r : Resolver} (s : σ)

theorem drain_of_nil (h : r.input = []) : r.drain keymap registry modeOf act s = (r, s) := by
  rw [drain]
  split
  · rfl
  · next hcons =>
    rw [h] at hcons
    cases hcons

theorem drain_of_cons {stroke : KeyStroke} {rest : Keys} (h : r.input = stroke :: rest) :
    r.drain keymap registry modeOf act s =
      (r.afterRead.feed stroke (modeOf r.afterRead s) keymap registry).2.drain keymap registry
        modeOf act (act (r.afterRead.feed stroke (modeOf r.afterRead s) keymap registry).2
          (r.afterRead.feed stroke (modeOf r.afterRead s) keymap registry).1 s) := by
  rw [drain]
  split
  · next hnil =>
    rw [h] at hnil
    cases hnil
  · next hcons =>
    rw [h] at hcons
    obtain ⟨rfl, -⟩ := List.cons.inj hcons
    rfl

/-- What each turn keeps holds when nothing is left to read. -/
theorem drain_keeps_to_end {P : Resolver → σ → Prop}
    (hstep : ∀ r s stroke rest, r.input = stroke :: rest → P r s →
      P (r.afterRead.feed stroke (modeOf r.afterRead s) keymap registry).2
        (act (r.afterRead.feed stroke (modeOf r.afterRead s) keymap registry).2
          (r.afterRead.feed stroke (modeOf r.afterRead s) keymap registry).1 s))
    (h : P r s) :
    P (r.drain keymap registry modeOf act s).1 (r.drain keymap registry modeOf act s).2 ∧
      (r.drain keymap registry modeOf act s).1.input = [] := by
  induction r using wellFounded_closer.induction generalizing s with
  | _ r ih =>
    cases hinput : r.input with
    | nil =>
      rw [drain_of_nil keymap registry modeOf act s hinput]
      exact ⟨h, hinput⟩
    | cons stroke rest =>
      rw [drain_of_cons keymap registry modeOf act s hinput]
      refine ih _ ?_ _ (hstep r s stroke rest hinput h)
      exact feed_closer stroke (modeOf r.afterRead s) keymap registry
        (by rw [hinput]; exact Nat.succ_pos _)

end Drain

/-! ### Outcomes in order -/

/-- A resolver, and the outcomes it has given, oldest first. -/
abbrev Transcript := Resolver × List Outcome

def note (_ : Resolver) (outcome : Outcome) (noted : List Outcome) : List Outcome := noted ++ [outcome]

section Typing

variable (keymap : Keymap) (registry : Registry) (modeOf : Resolver → Mode)

/-- Reads the input to its end. -/
def readAll (t : Transcript) : Transcript :=
  t.1.drain keymap registry (fun r _ ↦ modeOf r) note t.2

/-- Takes a stroke from outside and reads the input to its end. -/
def typeStroke (t : Transcript) (stroke : KeyStroke) : Transcript :=
  readAll keymap registry modeOf (t.1.enqueue stroke, t.2)

/-- Takes buffered strokes for what they are, and reads to the end what is left over. -/
def flushOnce (t : Transcript) : Transcript :=
  let (outcome, r) := t.1.flush (modeOf t.1) keymap registry
  readAll keymap registry modeOf (r, t.2 ++ [outcome])

variable {keymap registry modeOf}

theorem readAll_keeps {P : Transcript → Prop}
    (hstep : ∀ r noted stroke rest, r.input = stroke :: rest → P (r, noted) →
      P ((r.afterRead.feed stroke (modeOf r.afterRead) keymap registry).2,
        noted ++ [(r.afterRead.feed stroke (modeOf r.afterRead) keymap registry).1]))
    {t : Transcript} (h : P t) :
    P (readAll keymap registry modeOf t) ∧ (readAll keymap registry modeOf t).1.input = [] :=
  drain_keeps_to_end keymap registry (fun r _ ↦ modeOf r) note t.2
    (P := fun r noted ↦ P (r, noted)) hstep h

/-- A stroke that comes when nothing is left to read is the next to be fed. -/
theorem afterRead_enqueue {r : Resolver} (hinput : r.input = []) (stroke : KeyStroke) :
    (r.enqueue stroke).input = [stroke] ∧ (r.enqueue stroke).afterRead = { r with mapDepth := 0 } := by
  have henqueued : (r.enqueue stroke).input = [stroke] := by rw [enqueue, hinput]; rfl
  refine ⟨henqueued, ?_⟩
  rw [afterRead, henqueued, List.tail_cons, ← hinput]
  rfl

/-- A stroke that leaves nothing to read gives one outcome. -/
theorem typeStroke_of_read {r after : Resolver} {stroke : KeyStroke} {outcome : Outcome}
    (hinput : r.input = [])
    (hfeed : { r with mapDepth := 0 }.feed stroke (modeOf { r with mapDepth := 0 }) keymap registry =
      (outcome, after)) (hafter : after.input = []) (noted : List Outcome) :
    typeStroke keymap registry modeOf (r, noted) stroke = (after, noted ++ [outcome]) := by
  obtain ⟨henqueued, hread⟩ := afterRead_enqueue hinput stroke
  unfold typeStroke readAll
  rw [drain_of_cons keymap registry _ _ _ henqueued, hread]
  dsimp only
  rw [hfeed]
  exact drain_of_nil keymap registry _ _ _ hafter

/-! ### Flushing ends -/

theorem flush_closer {r : Resolver} (mode : Mode) (h : r.pending.keys ≠ []) :
    Closer (r.flush mode keymap registry).2 r := by
  have hpos : 0 < r.pending.keys.length := List.length_pos_of_ne_nil h
  refine flush_cases (motive := fun result ↦ Closer result.2 r) r mode keymap registry ?idle ?take ?leave
  case idle => exact fun hnil ↦ absurd hnil h
  case take =>
    intro consumed target ambiguous hresolve
    exact accept_closer target mode registry (Trie.consumed_pos hresolve) hpos rfl le_rfl
  case leave => exact fun _ _ ↦ giveUp_closer mode hpos rfl le_rfl

/-- Flushing again and again, something is buffered only finitely often, whatever is bound. -/
theorem exists_flushes_empty (t : Transcript) :
    ∃ flushes, ((flushOnce keymap registry modeOf)^[flushes] t).1.pending.keys = [] := by
  obtain ⟨r, noted⟩ := t
  induction r using wellFounded_closer.transGen.induction generalizing noted with
  | _ r ih =>
    by_cases hkeys : r.pending.keys = []
    · exact ⟨0, hkeys⟩
    · have hflush : Closer (r.flush (modeOf r) keymap registry).2 r := flush_closer (modeOf r) hkeys
      have hread : Relation.TransGen Closer (flushOnce keymap registry modeOf (r, noted)).1 r := by
        refine (readAll_keeps (P := fun t ↦ Relation.TransGen Closer t.1 r) ?_ (.single hflush)).1
        intro mid _ stroke rest hinput hmid
        refine .head ?_ hmid
        exact feed_closer stroke _ keymap registry (by rw [hinput]; exact Nat.succ_pos _)
      obtain ⟨flushes, hempty⟩ := ih _ hread (flushOnce keymap registry modeOf (r, noted)).2
      exact ⟨flushes + 1, hempty⟩

end Typing

end Resolver

end ModalEdit
