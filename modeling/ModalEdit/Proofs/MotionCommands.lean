import ModalEdit.Proofs.LinewiseCommands
import ModalEdit.Proofs.SelectionSteps

/-!
Motions typed with a count. Under the default bindings a count and the key of a motion are the motion's
command (`MotionKey.Bound.completes`). In the normal mode such a command takes every caret by itself to
where the motion leads from there, with the column that the caret then aims at (`MotionKey.step`), and
leaves the session ready for the next one (`Session.ReadsCommands.moves`).
-/

set_option autoImplicit false
set_option relaxedAutoImplicit false

namespace ModalEdit

open Resolver (WaitsThrough Completes)

/-- The motions of the normal mode by characters, by lines and by words. -/
inductive MotionKey where
  | left
  | right
  | down
  | up
  | wordForward (big : Bool)
  | wordBackward (big : Bool)
  | wordEnd (big : Bool)
  | wordEndBackward (big : Bool)
  deriving DecidableEq, Repr

namespace MotionKey

open Keymap.Default (typed)

def all : List MotionKey :=
  [left, right, down, up, wordForward false, wordForward true, wordBackward false, wordBackward true,
    wordEnd false, wordEnd true, wordEndBackward false, wordEndBackward true]

theorem mem_all (m : MotionKey) : m ∈ all := by
  cases m with
  | left | right | down | up => decide
  | wordForward big | wordBackward big | wordEnd big | wordEndBackward big => cases big <;> decide

def keys : MotionKey → Keys
  | left => typed "h"
  | right => typed "l"
  | down => typed "j"
  | up => typed "k"
  | wordForward big => typed (if big then "W" else "w")
  | wordBackward big => typed (if big then "B" else "b")
  | wordEnd big => typed (if big then "E" else "e")
  | wordEndBackward big => typed (if big then "gE" else "ge")

def action : MotionKey → ActionId
  | left => ActionId.left
  | right => ActionId.right
  | down => ActionId.down
  | up => ActionId.up
  | wordForward big => if big then ActionId.bigWordForward else ActionId.wordForward
  | wordBackward big => if big then ActionId.bigWordBackward else ActionId.wordBackward
  | wordEnd big => if big then ActionId.bigWordEnd else ActionId.wordEnd
  | wordEndBackward big => if big then ActionId.bigWordEndBackward else ActionId.wordEndBackward

def motion : MotionKey → Motion
  | left => Motion.left
  | right => Motion.right
  | down => Motion.down
  | up => Motion.up
  | wordForward big => Motion.wordForward big
  | wordBackward big => Motion.wordBackward big
  | wordEnd big => Motion.wordEnd big
  | wordEndBackward big => Motion.wordEndBackward big

/-- Whether the motion goes by lines and keeps the column that a caret aims at. -/
def isVertical (m : MotionKey) : Bool := m = down || m = up

def flags : MotionKey → CommandFlags
  | down | up => { Builtin.linewise with vertical := true }
  | wordEnd _ | wordEndBackward _ => Builtin.inclusive
  | left | right | wordForward _ | wordBackward _ => Builtin.exclusive

theorem flags_vertical (m : MotionKey) : m.flags.vertical = m.isVertical := by cases m <;> rfl

theorem flags_stickyEol (m : MotionKey) : m.flags.stickyEol = false := by cases m <;> rfl

def spec (m : MotionKey) : ActionSpec := Builtin.motion m.action m.motion m.flags

theorem spec_mem (m : MotionKey) : m.spec ∈ Builtin.actions := by
  have hmotions : m.spec ∈ Builtin.motions := by
    cases m with
    | left | right | down | up => simp [Builtin.motions, spec, action, motion, flags]
    | wordForward big | wordBackward big | wordEnd big | wordEndBackward big =>
      cases big <;> simp [Builtin.motions, spec, action, motion, flags]
  simp only [Builtin.actions, List.mem_append, hmotions, true_or]

/-- The command of the motion with a count. -/
def command (m : MotionKey) (c : TypedCount) : Command :=
  { m.spec.call with rawCount := c.kept?, keys := m.keys, argument := none }

def call (m : MotionKey) (c : TypedCount) : ActionCall := (m.command c).toActionCall

theorem call_count (m : MotionKey) (c : TypedCount) : (m.call c).count = c.limited := c.getD_kept?

/-! ### The keys -/

section Keys

variable {keymap : Keymap} {registry : Registry}

/-- A motion is bound to its keys and is there. -/
structure Bound (m : MotionKey) (keymap : Keymap) (registry : Registry) : Prop where
  keys : keymap.get? .normal m.keys = some (.action m.action) ∧
    (keymap.trie .normal).goesBeyond m.keys = false
  action : registry.get? m.action = some m.spec

theorem keys_first (m : MotionKey) : m.keys ≠ [] ∧ KeyStroke.escape ∉ m.keys ∧
    ∀ first ∈ m.keys.head?, first.digit? = none ∧ first.typedChar? ≠ some '"' := by
  have hall : ∀ m ∈ all, m.keys ≠ [] ∧ KeyStroke.escape ∉ m.keys ∧
      ∀ first ∈ m.keys.head?, first.digit? = none ∧ first.typedChar? ≠ some '"' := by
    decide +kernel
  exact hall m m.mem_all

/-- A count and the keys of a motion are a command. -/
theorem Bound.completes {m : MotionKey} (h : m.Bound keymap registry) (c : TypedCount) :
    Completes keymap registry (·.modeOver .normal) (c.strokes ++ m.keys) {}
      (.resolved (m.command c)) {} := by
  obtain ⟨hne, hescape, hfirst⟩ := m.keys_first
  have hcount : WaitsThrough keymap registry (·.modeOver .normal) c.strokes {}
      { pending := { countBefore := c.kept? } } :=
    Resolver.waitsThrough_count rfl c ⟨rfl, rfl, rfl, rfl, rfl⟩ rfl
  have htotal : Resolver.counted { pending := { countBefore := c.kept? } }
      (Resolver.typedCall m.spec m.keys) = m.call c := by
    rw [Resolver.counted, c.totalCount_eq {} rfl rfl, c.product?_alone.1]
    rfl
  have hchar : m.spec.flags.expectsChar = false := by cases m <;> rfl
  refine hcount.completes (Resolver.completes_of_bound .normal rfl rfl rfl (fun _ ↦ rfl) hne
    (.of_first rfl rfl hescape hfirst) h.keys.1 h.keys.2 ?_ rfl)
  rw [Resolver.accept_whole, Resolver.acceptAction_of_target h.action (.inl rfl),
    if_neg (Bool.eq_false_iff.mp hchar)]
  show Resolver.complete _ (Resolver.counted { pending := { countBefore := c.kept? } } _) = _
  rw [htotal]
  rfl

end Keys

end MotionKey

theorem Session.StandardBindings.boundMotion {s : Session} (h : s.StandardBindings) (m : MotionKey) :
    m.Bound s.keymap s.registry := by
  have hstandard : ∀ m ∈ MotionKey.all,
      Keymap.standard.get? .normal m.keys = some (.action m.action) ∧
        (Keymap.standard.trie .normal).goesBeyond m.keys = false := by
    decide +kernel
  have hdefault : ∀ m ∈ MotionKey.all,
      Keymap.default.get? .normal m.keys = some (.action m.action) ∧
        (Keymap.default.trie .normal).goesBeyond m.keys = false := by
    decide +kernel
  rcases h with ⟨hkeymap, hregistry⟩ | ⟨hkeymap, hregistry⟩
  · rw [hkeymap, hregistry]
    exact ⟨hstandard m m.mem_all, Registry.standard_get?_of_mem (a := m.spec) m.spec_mem⟩
  · rw [hkeymap, hregistry]
    exact ⟨hdefault m m.mem_all,
      Registry.ofList_get?_of_mem (a := m.spec) (by decide +kernel) m.spec_mem⟩

/-! ### What a motion does to a caret -/

namespace EditState

variable {s t : EditState} {caret : CaretId}

/-- What is known of a caret, where it is now. -/
def remembered (s : EditState) (caret : CaretId) : Option CaretState :=
  (s.caretOffset? caret).map (CaretTable.placed (s.carets.get? caret))

theorem remembered_eq_none (hmem : caret ∉ s.editor.caretIds) : s.remembered caret = none := by
  have hnone : s.editor.carets.lookup caret = none := CaretTable.lookup_eq_none_of_notMem hmem
  rw [remembered, caretOffset?, Editor.caretOffset?, hnone]
  rfl

theorem remembered_offset (s : EditState) (caret : CaretId) :
    (s.remembered caret).map (·.offset) = s.caretOffset? caret := by
  rw [remembered, Option.map_map]
  exact congrFun Option.map_id _

/-- A caret that is where it is remembered to be. -/
theorem remembered_of_view {state : CaretState} (hoffset : (s.view caret).offset? = some state.offset)
    (hstate : (s.view caret).state? = some state) : s.remembered caret = some state := by
  have hstands : s.caretOffset? caret = some state.offset := hoffset
  have hknown : s.carets.get? caret = some state := hstate
  rw [remembered, hstands, hknown]
  rfl

/-- A caret that is there is remembered where it is once the table is in line. -/
theorem exists_remembered (h : s.Anchored) (hmem : caret ∈ s.editor.caretIds) :
    ∃ state, s.remembered caret = some state ∧ (s.syncCarets.view caret).offset? = some state.offset ∧
      (s.syncCarets.view caret).state? = some state := by
  obtain ⟨offset, -, hoffset⟩ := h.editor.exists_caretOffset? hmem
  have hstands : s.caretOffset? caret = some offset := hoffset
  refine ⟨CaretTable.placed (s.carets.get? caret) offset, ?_, ?_, ?_⟩
  · rw [remembered, hstands]
    rfl
  · rw [view_syncCarets h.editor hmem hstands]
    rfl
  · rw [view_syncCarets h.editor hmem hstands]

theorem remembered_syncCarets (h : s.Anchored) (caret : CaretId) :
    s.syncCarets.remembered caret = s.remembered caret := by
  by_cases hmem : caret ∈ s.editor.caretIds
  · obtain ⟨state, hstate, hoffset, hknown⟩ := exists_remembered h hmem
    rw [hstate]
    exact remembered_of_view hoffset hknown
  · rw [remembered_eq_none hmem]
    exact remembered_eq_none hmem

/-- Where what is done for a caret touches no other, visits to others leave it as it is. -/
theorem exists_foldl_visits {α : Type} {f : CaretId → α → EditState → α × EditState}
    (start : EditState) (htouches : ∀ caret a t, t.Anchored → Touches caret t (f caret a t).2)
    {carets : List CaretId} (hnodup : carets.Nodup) (hsub : carets ⊆ start.editor.caretIds)
    (hnot : caret ∉ carets) (a : α) (h : Stays start s) :
    ∃ b t, carets.foldl (fun (a, s) caret ↦ f caret a s) (a, s) = (b, t) ∧ Stays start t ∧
      t.view caret = s.view caret := by
  obtain ⟨hstays, -, hleft⟩ := foldl_visits (P := fun _ ↦ True) (Q := fun _ ↦ True) start htouches
    (fun _ _ _ _ _ _ ↦ trivial) hnodup hsub a h fun _ _ ↦ trivial
  exact ⟨_, _, rfl, hstays, hleft caret hnot⟩

/-- A caret ends as its own visit leaves it, and is come to as it was. -/
theorem foldCarets_at {α : Type} (h : s.Anchored) {f : CaretId → α → EditState → α × EditState} (a : α)
    (htouches : ∀ caret a t, t.Anchored → Touches caret t (f caret a t).2)
    (hmem : caret ∈ s.editor.caretIds) :
    ∃ b t, Stays s t ∧ t.view caret = s.syncCarets.view caret ∧
      (s.foldCarets a f).2.view caret = (f caret b t).2.view caret := by
  have hperm := orderedByOffset_perm h
  obtain ⟨front, rest, hsplit⟩ := List.append_of_mem (hperm.symm.subset hmem)
  have hnodup := hperm.nodup_iff.mpr h.editor.distinct
  have hsub := hperm.subset
  rw [hsplit] at hnodup hsub
  obtain ⟨hfront, hcons, hdisjoint⟩ := List.nodup_append.mp hnodup
  obtain ⟨hlater, hrest⟩ := List.nodup_cons.mp hcons
  have hbefore : caret ∉ front := fun hin ↦ hdisjoint caret hin caret List.mem_cons_self rfl
  obtain ⟨b, t, hcome, hthere, hsame⟩ := exists_foldl_visits s htouches hfront
    (fun _ hin ↦ hsub (List.mem_append_left _ hin)) hbefore a (syncCarets_stays h)
  obtain ⟨_, u, hgo, -, hleft⟩ := exists_foldl_visits s htouches hrest
    (fun _ hin ↦ hsub (List.mem_append_right _ (List.mem_cons_of_mem _ hin))) hlater
    (f caret b t).1 (hthere.trans (htouches caret b t hthere.anchored).toStays)
  have hrun : (s.foldCarets a f).2 = u := by
    unfold foldCarets
    dsimp only
    rw [hsplit, List.foldl_append, List.foldl_cons, hcome]
    exact congrArg Prod.snd hgo
  exact ⟨b, t, hthere, hsame, hrun ▸ hleft⟩

/-- What a motion makes of what is known of a caret. -/
def afterMotion (s : EditState) (call : ActionCall) (f : Motion) (caret : CaretId)
    (state : CaretState) : CaretState :=
  let ctx := s.motionContext call caret state
  match f ctx with
  | none => state
  | some destination =>
    { state with offset := s.text.normalize destination ctx.allowEnd, goal := goalAfter call ctx.goal }

theorem afterMotion_congr (htext : t.text = s.text) (hmode : t.mode = s.mode) (call : ActionCall)
    (f : Motion) (caret : CaretId) : t.afterMotion call f caret = s.afterMotion call f caret := by
  funext state
  have hcontext : t.motionContext call caret state = s.motionContext call caret state := by
    unfold motionContext goalFor
    rw [htext, hmode]
  rw [afterMotion, afterMotion, hcontext, htext]

/-- Where no selection is shown, the motion of one caret is that. -/
theorem applyMotionTo_view (h : t.Anchored) (hmem : caret ∈ t.editor.caretIds)
    (hmode : (t.mode.isVisual || t.mode.isSelect) = false) {state : CaretState}
    (hoffset : (t.view caret).offset? = some state.offset) (hstate : (t.view caret).state? = some state)
    (call : ActionCall) (f : Motion) (done : Bool) :
    ((applyMotionTo call f caret done t).2.view caret).offset? =
        some (t.afterMotion call f caret state).offset ∧
      ((applyMotionTo call f caret done t).2.view caret).state? =
        some (t.afterMotion call f caret state) := by
  have hknown : t.carets.get? caret = some state := hstate
  unfold applyMotionTo afterMotion
  rw [hknown]
  dsimp only
  cases f (t.motionContext call caret state) with
  | none => exact ⟨hoffset, hstate⟩
  | some destination =>
    dsimp only
    generalize (t.motionContext call caret state).allowEnd = allowEnd
    have hmoved := (moveCaret_touches h caret (t.text.normalize destination allowEnd)).toStays
    have hplain (f : CaretState → CaretState) :
        (((t.moveCaret caret (t.text.normalize destination allowEnd)).modifyCaret caret f).mode.isVisual ||
          ((t.moveCaret caret (t.text.normalize destination allowEnd)).modifyCaret caret f).mode.isSelect) =
            false := by
      rw [show ((t.moveCaret caret _).modifyCaret caret f).mode = t.mode from hmoved.mode, hmode]
    rw [showSelection, if_neg (Bool.eq_false_iff.mp (hplain _)), view_modifyCaret, view_moveCaret h hmem,
      hstate, Nat.min_eq_left (t.text.normalize_le_length destination allowEnd)]
    exact ⟨rfl, rfl⟩

/-- A motion takes each caret by itself. -/
theorem applyMotion_remembered (h : s.Anchored) (hmode : (s.mode.isVisual || s.mode.isSelect) = false)
    (call : ActionCall) (f : Motion) :
    Stays s (s.applyMotion call f).2 ∧ ∀ caret, (s.applyMotion call f).2.remembered caret =
      (s.remembered caret).map (s.afterMotion call f caret) := by
  have htouches (caret : CaretId) (done : Bool) (t : EditState) (ht : t.Anchored) :=
    applyMotionTo_touches ht call f caret done
  have hstays := (foldCarets_visits (P := fun _ ↦ True) (Q := fun _ ↦ True) h false htouches
    (fun _ _ ↦ trivial) fun _ _ _ _ _ _ ↦ trivial).1
  have hvisited (caret : CaretId) : (s.foldCarets false (applyMotionTo call f)).2.remembered caret =
      (s.remembered caret).map (s.afterMotion call f caret) := by
    by_cases hmem : caret ∈ s.editor.caretIds
    · obtain ⟨done, t, ht, hview, hlast⟩ := foldCarets_at h false htouches hmem
      obtain ⟨state, hstate, hoffset, hknown⟩ := exists_remembered h hmem
      rw [← hview] at hoffset hknown
      obtain ⟨hplace, hafter⟩ := applyMotionTo_view ht.anchored (by rwa [ht.ids])
        (by rwa [ht.mode]) hoffset hknown call f done
      rw [← hlast] at hplace hafter
      rw [remembered_of_view hplace hafter, hstate, afterMotion_congr ht.text ht.mode]
      rfl
    · rw [remembered_eq_none hmem]
      exact remembered_eq_none (by rwa [hstays.ids])
  unfold applyMotion finish
  generalize s.foldCarets false (applyMotionTo call f) = moved at hstays hvisited
  obtain ⟨_ | _, moved⟩ := moved
  · exact ⟨⟨⟨hstays.anchored.editor.of_buffer rfl rfl rfl, hstays.anchored.carets⟩, hstays.text,
      hstays.modes, hstays.ids⟩, hvisited⟩
  · exact ⟨hstays, hvisited⟩

end EditState

/-! ### Motions as they are typed -/

namespace MotionKey

/-- What the motion looks at in the normal mode. -/
def context (m : MotionKey) (c : TypedCount) (t : Text) (caret : CaretId) (state : CaretState) :
    MotionContext where
  text := t
  caret := caret
  offset := state.offset
  goal := (if m.isVertical then state.goal else none).getD (.cell (t.visualColumn state.offset))
  command := m.call c
  mode := .normal
  operatorPending := false

/-- What the motion makes of what is known of a caret in the normal mode. Only a motion by lines leaves
the caret with a column to aim at; a motion that fails leaves all as it was. -/
def step (m : MotionKey) (c : TypedCount) (t : Text) (caret : CaretId) (state : CaretState) : CaretState :=
  match m.motion (m.context c t caret state) with
  | none => state
  | some destination =>
    { state with
      offset := t.normalize destination false
      goal := if m.isVertical then some (m.context c t caret state).goal else none }

theorem afterMotion_eq {s : EditState} (h : s.mode = .normal) (m : MotionKey) (c : TypedCount)
    (caret : CaretId) : s.afterMotion (m.call c) m.motion caret = m.step c s.text caret := by
  funext state
  have hgoal : s.goalFor (m.call c) state = (m.context c s.text caret state).goal := by
    unfold EditState.goalFor context
    rw [show (m.call c).flags.vertical = m.isVertical from m.flags_vertical]
    cases state.goal with
    | none => rw [ite_self]; rfl
    | some goal => cases m.isVertical <;> rfl
  have hcontext : s.motionContext (m.call c) caret state = m.context c s.text caret state := by
    unfold EditState.motionContext
    rw [hgoal, h]
    rfl
  have hafter (goal : GoalColumn) :
      EditState.goalAfter (m.call c) goal = if m.isVertical then some goal else none := by
    unfold EditState.goalAfter
    rw [show (m.call c).flags.stickyEol = false from m.flags_stickyEol,
      show (m.call c).flags.vertical = m.isVertical from m.flags_vertical]
    rfl
  unfold EditState.afterMotion step
  rw [hcontext]
  dsimp only
  rw [hafter]
  rfl

end MotionKey

namespace Session

variable {s : Session}

/-- A count and the keys of a motion take every caret by itself, and leave the session ready for the next
command. -/
theorem ReadsCommands.moves (h : s.ReadsCommands) (hanchored : s.edit.Anchored) (m : MotionKey)
    (c : TypedCount) :
    let after := (s.handleAll (c.strokes ++ m.keys)).2
    after.ReadsCommands ∧ after.edit.Anchored ∧ after.editor.text = s.editor.text ∧
      ∀ caret, after.edit.remembered caret =
        (s.edit.remembered caret).map (m.step c s.editor.text caret) := by
  have hbound := h.bindings.boundMotion m
  have hread := (hbound.completes c).of_idle h.idle h.input
  rw [← h.mode] at hread
  obtain ⟨modes, hcoherent, hmode, hrun⟩ := handleAll_of_completes (.inl h.mode) h.coherent h.reported
    (Resolver.hasPending_eq_false_iff.mp h.idle).2.1 hread rfl
  replace hmode : modes.mode = .normal := hmode.trans h.mode
  -- The command is run with the guard locked, on the table in line with the editor.
  generalize hready : EditState.prepared { s.edit with modes } = ready
  have hready' : ready.Anchored := by
    rw [← hready]
    exact ⟨hanchored.editor.of_buffer rfl rfl rfl, hanchored.carets.sync _⟩
  have hnormal : ready.mode = .normal := by
    rw [← hready]
    exact hmode
  have hexecute : ready.execute s.registry s.options (m.command c) =
      ready.applyMotion (m.call c) m.motion := by
    unfold EditState.execute
    rw [show (m.command c).action = m.action from rfl, hbound.action]
    rfl
  obtain ⟨hstays, hcarets⟩ := EditState.applyMotion_remembered hready' (by rw [hnormal]; rfl) (m.call c)
    m.motion
  have hreported := (ready.applyMotion_moves (m.call c) m.motion).edits.edits_orderly.editor.reported
    (by rw [← hready]; exact EditState.prepared_isLocked _)
  have hguarded : (EditState.guarded { s.edit with modes } fun t ↦
      t.execute s.registry s.options (m.command c)).2 =
        (ready.applyMotion (m.call c) m.motion).2.unlock (EditState.lock { s.edit with modes }).1 := by
    rw [← hexecute, ← hready]
    rfl
  generalize hmoved : (ready.applyMotion (m.call c) m.motion).2 = moved at *
  have hafter : (s.handleAll (c.strokes ++ m.keys)).2 = { s with
      resolver := {}, edit := moved.unlock (EditState.lock { s.edit with modes }).1 } := by
    rw [hrun, ran, hguarded]
  rw [hafter]
  have hremembered (caret : CaretId) : ready.remembered caret = s.edit.remembered caret := by
    rw [← hready]
    exact EditState.remembered_syncCarets (s := (EditState.lock { s.edit with modes }).2)
      ⟨hanchored.editor.of_buffer rfl rfl rfl, hanchored.carets⟩ caret
  have htext : ready.text = s.editor.text := by
    rw [← hready]
    rfl
  refine ⟨⟨h.bindings, rfl, rfl, ?_, ?_, ?_⟩, ?_, ?_, fun caret ↦ ?_⟩
  · refine hreported.trans ?_
    rw [← hready]
    exact h.reported
  · show moved.modes.Coherent
    rw [hstays.modes, ← hready]
    exact hcoherent
  · exact hstays.mode.trans hnormal
  · exact ⟨hstays.anchored.editor.of_buffer rfl rfl rfl, hstays.anchored.carets⟩
  · exact hstays.text.trans htext
  · show moved.remembered caret = _
    rw [hcarets caret, hremembered, MotionKey.afterMotion_eq hnormal, htext]

end Session

end ModalEdit
