import ModalEdit.Proofs.Transcript
import ModalEdit.Proofs.TrieLookup

/-!
Typing a bound sequence stroke by stroke. As long as more strokes are to come the sequence goes on and
the resolver waits (`feed_of_prefix`); the last stroke completes it, and if nothing longer is bound it is
taken whole (`feed_of_bound`). What typing strokes answers, from one state to another, is written as a
relation that can be composed (`Leads`, `WaitsThrough`, `Completes`).
-/

set_option autoImplicit false
set_option relaxedAutoImplicit false

namespace ModalEdit.Resolver

/-- The state with other strokes buffered. -/
def withKeys (r : Resolver) (keys : Keys) : Resolver := r.modifyPending ({ · with keys })

@[simp] theorem withKeys_keys (r : Resolver) (keys : Keys) : (r.withKeys keys).pending.keys = keys := rfl

theorem withKeys_of_eq {r : Resolver} {keys : Keys} (h : r.pending.keys = keys) :
    r.withKeys keys = r := by
  rw [← h]
  rfl

theorem withKeys_push (r : Resolver) (keys : Keys) (stroke : KeyStroke) :
    (r.withKeys keys).push stroke = r.withKeys (keys ++ [stroke]) := rfl

/-- A state in which the strokes of a sequence are buffered: no character and no register's name is
awaited, and the first stroke is neither a digit of a count nor the mark of a register. -/
structure Buffers (r : Resolver) (keys : Keys) : Prop where
  awaitingChar : r.awaitingChar = none
  awaitingRegister : r.pending.awaitingRegister = false
  noEscape : KeyStroke.escape ∉ keys
  first : ∀ first ∈ keys.head?, r.countDigit? first = none ∧ r.startsRegister first = false

theorem Buffers.of_first {r : Resolver} {keys : Keys} (hawaiting : r.awaitingChar = none)
    (hregister : r.pending.awaitingRegister = false) (hescape : KeyStroke.escape ∉ keys)
    (hfirst : ∀ first ∈ keys.head?, first.digit? = none ∧ first.typedChar? ≠ some '"') :
    r.Buffers keys := by
  refine ⟨hawaiting, hregister, hescape, fun first hmem ↦ ?_⟩
  obtain ⟨hdigit, hmark⟩ := hfirst first hmem
  rw [countDigit?, hdigit, startsRegister, beq_eq_false_iff_ne.mpr hmark]
  exact ⟨rfl, rfl⟩

section Bound

variable {keymap : Keymap} {registry : Registry} {mode : Mode} {r : Resolver} {front more : Keys}
  {stroke : KeyStroke} {target : Target}

theorem Buffers.buffers (h : r.Buffers (front ++ stroke :: more)) (mode : Mode) :
    (r.withKeys front).buffers stroke mode = true := by
  refine buffers_of_ne ?_ h.awaitingChar h.awaitingRegister fun _ hnil ↦ ?_
  · rintro rfl
    exact h.noEscape (List.mem_append_right front List.mem_cons_self)
  · obtain rfl : front = [] := hnil
    exact h.first stroke rfl

theorem Buffers.fresh {keys : Keys} (h : r.Buffers keys) : Buffers { r with mapDepth := 0 } keys :=
  ⟨h.awaitingChar, h.awaitingRegister, h.noEscape, h.first⟩

/-- With more of a sequence to come, a stroke waits. -/
theorem feed_of_prefix (registry : Registry) (h : r.Buffers (front ++ stroke :: more))
    (hmore : more ≠ []) (hget : keymap.get? (.ofMode mode) (front ++ stroke :: more) = some target) :
    (r.withKeys front).feed stroke mode keymap registry =
      (.pending, r.withKeys (front ++ [stroke])) := by
  rw [feed_of_buffers keymap registry (h.buffers mode)]
  rw [List.append_cons] at hget
  have hne : front ++ [stroke] ≠ [] := List.append_ne_nil_of_right_ne_nil _ (List.cons_ne_nil _ _)
  have hwaits := Trie.resolve_of_goesBeyond hne (Trie.goesBeyond_of_get? hmore hget)
  refine buffer_cases (motive := fun result ↦ result = _) (r.withKeys front) mode keymap registry stroke
    ?wait ?take ?leave
  case wait => exact fun _ ↦ rfl
  case take =>
    intro consumed found hresolve
    rcases hwaits with hmore | ⟨_, _, hmore⟩ <;> cases hresolve.symm.trans hmore
  case leave =>
    intro hresolve
    rcases hwaits with hmore | ⟨_, _, hmore⟩ <;> cases hresolve.symm.trans hmore

/-- The last stroke of a sequence that goes no further takes it. -/
theorem feed_of_bound (registry : Registry) (h : r.Buffers (front ++ [stroke]))
    (hget : keymap.get? (.ofMode mode) (front ++ [stroke]) = some target)
    (hbeyond : (keymap.trie (.ofMode mode)).goesBeyond (front ++ [stroke]) = false) :
    (r.withKeys front).feed stroke mode keymap registry =
      (r.withKeys (front ++ [stroke])).accept (front ++ [stroke]).length target mode registry := by
  rw [feed_of_buffers keymap registry (h.buffers mode), ← withKeys_push]
  exact buffer_of_matched registry (Trie.resolve_of_get? hget hbeyond)

/-- A whole buffer that stands for an action is given to it. -/
theorem accept_whole (r : Resolver) (keys : Keys) (id : ActionId) (mode : Mode) :
    (r.withKeys keys).accept keys.length (.action id) mode registry =
      (r.withKeys []).acceptAction id keys mode registry := by
  unfold accept
  dsimp only
  rw [withKeys_keys, List.take_length, List.drop_length]
  rfl

/-- A whole buffer that stands for other strokes leaves these to be read. -/
theorem accept_whole_remap (r : Resolver) (keys replacement : Keys) (mode : Mode)
    (h : r.mapDepth < maxMapDepth) :
    (r.withKeys keys).accept keys.length (.remap replacement) mode registry =
      (.pending, { r.withKeys [] with mapDepth := r.mapDepth + 1 }.replay replacement) := by
  rw [accept_remap (r := r.withKeys keys) _ _ _ _ h, takeKeys, withKeys_keys, List.drop_length]
  rfl

end Bound

/-! ### What typing answers -/

section Leads

variable (keymap : Keymap) (registry : Registry) (modeOf : Resolver → Mode)

/-- Typing strokes leads from one state to another, and these are the outcomes. -/
def Leads (strokes : Keys) (r : Resolver) (outcomes : List Outcome) (after : Resolver) : Prop :=
  ∀ noted, strokes.foldl (typeStroke keymap registry modeOf) (r, noted) = (after, noted ++ outcomes)

/-- Typing strokes leads from one state to another, and each of them waits. -/
def WaitsThrough (strokes : Keys) (r after : Resolver) : Prop :=
  Leads keymap registry modeOf strokes r (List.replicate strokes.length .pending) after

/-- Typing strokes waits until the last of them, which is fed with nothing else to be read and leaves nothing to
be read. -/
structure Completes (strokes : Keys) (r : Resolver) (outcome : Outcome) (after : Resolver) : Prop where
  waits : ∃ front last middle, strokes = front ++ [last] ∧ WaitsThrough keymap registry modeOf front r middle ∧
    middle.input = [] ∧ { middle with mapDepth := 0 }.feed last (modeOf { middle with mapDepth := 0 }) keymap
      registry = (outcome, after)
  read : after.input = []

variable {keymap registry modeOf} {first second keys : Keys} {r middle after : Resolver}
  {answers answers' : List Outcome} {outcome : Outcome} {stroke : KeyStroke} {target : Target}

theorem leads_nil (r : Resolver) : Leads keymap registry modeOf [] r [] r :=
  fun noted ↦ by rw [List.foldl_nil, List.append_nil]

theorem Leads.append (h : Leads keymap registry modeOf first r answers middle)
    (h' : Leads keymap registry modeOf second middle answers' after) :
    Leads keymap registry modeOf (first ++ second) r (answers ++ answers') after := by
  intro noted
  rw [List.foldl_append, h, h', List.append_assoc]

theorem WaitsThrough.append (h : WaitsThrough keymap registry modeOf first r middle)
    (h' : WaitsThrough keymap registry modeOf second middle after) :
    WaitsThrough keymap registry modeOf (first ++ second) r after := by
  rw [WaitsThrough, List.length_append, ← List.replicate_append_replicate]
  exact Leads.append h h'

/-- A resolver of which nothing is held is as good as a new one. -/
theorem Leads.of_idle (h : Leads keymap registry modeOf first {} answers after) (hne : first ≠ [])
    (hidle : r.hasPending = false) (hinput : r.input = []) :
    Leads keymap registry modeOf first r answers after := by
  obtain ⟨stroke, rest, rfl⟩ := List.exists_cons_of_ne_nil hne
  obtain ⟨hpending, hoperator, hawaiting⟩ := hasPending_eq_false_iff.mp hidle
  have henqueue : r.enqueue stroke = enqueue {} stroke := by
    rw [enqueue, enqueue, hinput, hpending, hoperator, hawaiting]
  intro noted
  rw [← h noted, List.foldl_cons, List.foldl_cons, typeStroke, typeStroke, henqueue]

/-- A stroke that is fed to a resolver with nothing to read, and leaves nothing to read. -/
theorem leads_of_feed (hinput : r.input = []) (hdepth : r.mapDepth = 0)
    (hfeed : r.feed stroke (modeOf r) keymap registry = (outcome, after)) (hafter : after.input = []) :
    Leads keymap registry modeOf [stroke] r [outcome] after := by
  have hfresh : { r with mapDepth := 0 } = r := by rw [← hdepth]
  exact fun noted ↦ typeStroke_of_read hinput (by rw [hfresh]; exact hfeed) hafter noted

theorem Completes.leads (h : Completes keymap registry modeOf keys r outcome after) :
    Leads keymap registry modeOf keys r (List.replicate (keys.length - 1) .pending ++ [outcome]) after := by
  obtain ⟨front, last, middle, rfl, hfront, hinput, hfeed⟩ := h.waits
  rw [List.length_append, List.length_singleton, Nat.add_sub_cancel]
  exact Leads.append hfront (typeStroke_of_read hinput hfeed h.read)

theorem WaitsThrough.completes (h : WaitsThrough keymap registry modeOf first r middle)
    (h' : Completes keymap registry modeOf second middle outcome after) :
    Completes keymap registry modeOf (first ++ second) r outcome after := by
  obtain ⟨front, last, held, rfl, hfront, hfeed⟩ := h'.waits
  exact ⟨⟨first ++ front, last, held, (List.append_assoc _ _ _).symm, h.append hfront, hfeed⟩, h'.read⟩

theorem completes_of_feed (hinput : r.input = []) (hdepth : r.mapDepth = 0)
    (hfeed : r.feed stroke (modeOf r) keymap registry = (outcome, after)) (hafter : after.input = []) :
    Completes keymap registry modeOf [stroke] r outcome after := by
  have hfresh : { r with mapDepth := 0 } = r := by rw [← hdepth]
  exact ⟨⟨[], stroke, r, rfl, leads_nil r, hinput, by rw [hfresh]; exact hfeed⟩, hafter⟩

/-- A resolver of which nothing is held completes what a new one does. -/
theorem Completes.of_idle (h : Completes keymap registry modeOf keys {} outcome after)
    (hidle : r.hasPending = false) (hinput : r.input = []) :
    Completes keymap registry modeOf keys r outcome after := by
  obtain ⟨front, last, middle, rfl, hfront, hfeed⟩ := h.waits
  refine ⟨?_, h.read⟩
  by_cases hnil : front = []
  · subst hnil
    obtain rfl : ({} : Resolver) = middle := congrArg Prod.fst (hfront [])
    obtain ⟨hpending, hoperator, hawaiting⟩ := hasPending_eq_false_iff.mp hidle
    have hfresh : ({ r with mapDepth := 0 } : Resolver) = {} := by
      obtain ⟨_, _, _, _, _⟩ := r
      cases hpending
      cases hoperator
      cases hawaiting
      cases hinput
      rfl
    exact ⟨[], last, r, rfl, leads_nil r, hinput, by rw [hfresh]; exact hfeed.2⟩
  · exact ⟨front, last, middle, rfl, Leads.of_idle hfront hnil hidle hinput, hfeed⟩

section Sequence

variable (mode : Mode) (hinput : r.input = []) (hdepth : r.mapDepth = 0) (hkeys : r.pending.keys = [])
  (hmode : ∀ keys, modeOf (r.withKeys keys) = mode)
include hinput hdepth hkeys hmode

theorem waitsThrough_prefix (h : r.Buffers (first ++ second)) (hsecond : second ≠ [])
    (hget : keymap.get? (.ofMode mode) (first ++ second) = some target) :
    WaitsThrough keymap registry modeOf first r (r.withKeys first) := by
  induction first using List.reverseRecOn generalizing second with
  | nil =>
    rw [withKeys_of_eq hkeys]
    exact leads_nil r
  | append_singleton front stroke ih =>
    rw [List.append_assoc] at h hget
    have hfront := ih h (List.append_ne_nil_of_left_ne_nil (List.cons_ne_nil _ _) _) hget
    have hlast : WaitsThrough keymap registry modeOf [stroke] (r.withKeys front)
        (r.withKeys (front ++ [stroke])) := by
      refine leads_of_feed hinput hdepth ?_ hinput
      rw [hmode]
      exact feed_of_prefix registry h hsecond hget
    exact hfront.append hlast

/-- Typing a bound sequence that goes no further waits until its last stroke, which takes it. -/
theorem completes_of_bound (hne : keys ≠ []) (h : r.Buffers keys)
    (hget : keymap.get? (.ofMode mode) keys = some target)
    (hbeyond : (keymap.trie (.ofMode mode)).goesBeyond keys = false)
    (haccept : (r.withKeys keys).accept keys.length target mode registry = (outcome, after))
    (hafter : after.input = []) : Completes keymap registry modeOf keys r outcome after := by
  obtain ⟨front, last, rfl⟩ := keys.eq_nil_or_concat'.resolve_left hne
  have hfront : WaitsThrough keymap registry modeOf front r (r.withKeys front) :=
    waitsThrough_prefix mode hinput hdepth hkeys hmode h (List.cons_ne_nil _ _) hget
  refine hfront.completes (completes_of_feed hinput hdepth ?_ hafter)
  rw [hmode, feed_of_bound registry h hget hbeyond]
  exact haccept

/-- A bound sequence that leaves the resolver waiting waits all the way. -/
theorem waitsThrough_of_bound (hne : keys ≠ []) (h : r.Buffers keys)
    (hget : keymap.get? (.ofMode mode) keys = some target)
    (hbeyond : (keymap.trie (.ofMode mode)).goesBeyond keys = false)
    (haccept : (r.withKeys keys).accept keys.length target mode registry = (.pending, after))
    (hafter : after.input = []) : WaitsThrough keymap registry modeOf keys r after := by
  have hleads := (completes_of_bound mode hinput hdepth hkeys hmode hne h hget hbeyond haccept hafter).leads
  rwa [← List.replicate_succ', Nat.sub_add_cancel (List.length_pos_of_ne_nil hne)] at hleads

end Sequence

end Leads

end ModalEdit.Resolver
