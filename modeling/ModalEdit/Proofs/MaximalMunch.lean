import Mathlib.Data.Nat.Find
import ModalEdit.Action.Builtin
import ModalEdit.Proofs.Transcript
import ModalEdit.Proofs.TrieLookup

/-!
Where text is typed, strokes are cut into bound sequences by the longest match. The cut is defined on the
whole list of strokes (`munch`): at each place the longest bound sequence is taken, or a single stroke
if none is bound. The resolver sees one stroke at a time and holds back those that may become a longer
sequence. What it holds and what it has still to read are owed; a step either owes the same as before
and waits, or gives the outcome that the longest match begins with, whatever strokes come later
(`Emits`, `feed_emits`, `flush_emits`). The result is `text_entry_is_longest_match`.
-/

set_option autoImplicit false
set_option relaxedAutoImplicit false

namespace ModalEdit

/-! ### The longest match -/

namespace Outcome

/-- The command of an action with nothing typed for it but its keys. -/
def plain (spec : ActionSpec) (keys : Keys) : Outcome :=
  .resolved { Resolver.typedCall spec keys with argument := none }

/-- The strokes that an outcome accounts for. -/
def keys : Outcome → Keys
  | resolved command => command.keys
  | unmapped keys => keys
  | pending | cancelled => []

end Outcome

section Munch

variable (bound : Keys → Option ActionSpec)

/-- The length of the longest bound sequence that strokes begin with, zero if there is none. -/
def longestBound (strokes : Keys) : ℕ :=
  Nat.findGreatest (fun n ↦ (bound (strokes.take n)).isSome = true) strokes.length

/-- Strokes cut by the longest match. A stroke with which no bound sequence begins stands alone. -/
def munch : Keys → List Outcome
  | [] => []
  | stroke :: rest =>
    let n := longestBound bound (stroke :: rest)
    match bound ((stroke :: rest).take n) with
    | some spec => .plain spec ((stroke :: rest).take n) :: munch (rest.drop (n - 1))
    | none => .unmapped [stroke] :: munch rest
termination_by strokes => strokes.length

variable {bound} {front rest : Keys} {spec : ActionSpec}

theorem longestBound_append (hspec : bound front = some spec)
    (hlongest : ∀ longer, longer <+: front ++ rest → front.length < longer.length →
      bound longer = none) :
    longestBound bound (front ++ rest) = front.length := by
  refine Nat.findGreatest_eq_iff.mpr ⟨?_, fun _ ↦ ?_, fun n hlt hle ↦ ?_⟩
  · rw [List.length_append]
    exact Nat.le_add_right _ _
  · rw [List.take_left, hspec]
    rfl
  · rw [hlongest _ (List.take_prefix n _) (by rw [List.length_take]; omega)]
    exact Bool.false_ne_true

theorem munch_of_longest (hne : front ≠ []) (hspec : bound front = some spec)
    (hlongest : ∀ longer, longer <+: front ++ rest → front.length < longer.length →
      bound longer = none) :
    munch bound (front ++ rest) = .plain spec front :: munch bound rest := by
  have hlength := longestBound_append hspec hlongest
  obtain ⟨stroke, tail, rfl⟩ := List.exists_cons_of_ne_nil hne
  rw [List.cons_append] at hlength ⊢
  rw [munch]
  rw [hlength, ← List.cons_append, List.take_left, hspec, List.length_cons, Nat.add_sub_cancel,
    List.drop_left]

theorem munch_of_unbound {stroke : KeyStroke}
    (h : ∀ front, front <+: stroke :: rest → bound front = none) :
    munch bound (stroke :: rest) = .unmapped [stroke] :: munch bound rest := by
  rw [munch]
  rw [h _ (List.take_prefix _ _)]

end Munch

/-! ### Plain bindings -/

/-- Whether a target is a registered action that is a command by itself: no operator, and none that
waits for a character. -/
def Target.isPlain (registry : Registry) : Target → Bool
  | .action id => (registry.get? id).any fun spec ↦ spec.handler.kind == .other ||
      (spec.handler.kind == .motion || spec.handler.kind == .textObject) && !spec.flags.expectsChar
  | .remap _ => false

theorem Target.isPlain_iff {registry : Registry} {target : Target} :
    target.isPlain registry = true ↔ ∃ id spec, target = .action id ∧ registry.get? id = some spec ∧
      (spec.handler.kind = .other ∨
        (spec.handler.kind = .motion ∨ spec.handler.kind = .textObject) ∧
          spec.flags.expectsChar = false) := by
  cases target <;> simp [isPlain, Option.any_eq_true]

/-- All that is bound in a mode is plain. -/
def Keymap.BindsPlainly (keymap : Keymap) (registry : Registry) (mode : MapMode) : Prop :=
  ∀ keys target, keymap.get? mode keys = some target → target.isPlain registry = true

theorem Keymap.bindAll_bindsPlainly {bindings : List Binding} {registry : Registry} {mode : MapMode}
    (h : ∀ b ∈ bindings, mode ∈ b.modes → b.target.isPlain registry = true) :
    (Keymap.bindAll {} bindings).BindsPlainly registry mode := by
  intro keys target hget
  obtain ⟨b, hb, hmode, -, rfl⟩ := exists_binding_of_get? hget
  exact h b hb hmode

/-! ### Steps of the resolver -/

namespace Resolver

/-- A resolver with nothing but strokes. -/
def ofStrokes (keys input : Keys) (mapDepth : ℕ) : Resolver := { pending := { keys }, input, mapDepth }

@[simp] theorem ofStrokes_keys (keys input : Keys) (mapDepth : ℕ) :
    (ofStrokes keys input mapDepth).pending.keys = keys := rfl

/-- The action that a sequence is bound to, if it is registered. -/
def boundAction (keymap : Keymap) (registry : Registry) (mode : MapMode) (keys : Keys) :
    Option ActionSpec :=
  match keymap.get? mode keys with
  | some (.action id) => registry.get? id
  | _ => none

/-- An outcome accounts for the strokes that it leaves fewer owed than before, and is what the longest
match gives for them before these later strokes; or it waits and leaves as many. -/
def Emits (bound : Keys → Option ActionSpec) (later owed : Keys) (outcome : Outcome) (left : Keys) :
    Prop :=
  outcome = .pending ∧ left = owed ∨
    outcome ≠ .pending ∧ owed = outcome.keys ++ left ∧
      munch bound (owed ++ later) = outcome :: munch bound (left ++ later)

section Steps

variable {keymap : Keymap} {registry : Registry} {mode : Mode} {keys input : Keys} {depth : ℕ}

theorem accept_ofStrokes {id : ActionId} {spec : ActionSpec} (hget : registry.get? id = some spec)
    (hplain : spec.handler.kind = .other ∨
      (spec.handler.kind = .motion ∨ spec.handler.kind = .textObject) ∧ spec.flags.expectsChar = false)
    (n : ℕ) :
    (ofStrokes keys input depth).accept n (.action id) mode registry =
      (.plain spec (keys.take n), ofStrokes [] (keys.drop n ++ input) depth) := by
  show (ofStrokes [] (keys.drop n ++ input) depth).acceptAction id (keys.take n) mode registry = _
  rcases hplain with hkind | ⟨hkind, hchar⟩
  · rw [acceptAction_of_other hget hkind rfl]
    rfl
  · rw [acceptAction_of_target hget hkind, if_neg (Bool.eq_false_iff.mp hchar)]
    rfl

theorem giveUp_ofStrokes (hmode : mode.isTextEntry = true) (first : KeyStroke) (rest : Keys) :
    (ofStrokes (first :: rest) input depth).giveUp mode =
      (.unmapped [first], ofStrokes [] (rest ++ input) depth) := giveUp_of_typed rfl hmode rfl

/-- Where text is typed every stroke but Escape joins the buffer. -/
theorem feed_ofStrokes (hmode : mode.isTextEntry = true) {stroke : KeyStroke} (hne : stroke ≠ .escape) :
    (ofStrokes keys input depth).feed stroke mode keymap registry =
      (ofStrokes keys input depth).buffer stroke mode keymap registry := by
  have htakes : takesCounts mode = false := by cases mode <;> first | rfl | cases hmode
  refine feed_of_buffers keymap registry (buffers_of_ne hne rfl rfl fun h ↦ ?_)
  rw [htakes] at h
  cases h

theorem boundAction_of_get?_eq_none {mode : MapMode} (h : keymap.get? mode keys = none) :
    boundAction keymap registry mode keys = none := by
  rw [boundAction, h]

/-- Taking a bound sequence is right if no longer one begins there. -/
theorem accept_emits {mapMode : MapMode} (hplain : keymap.BindsPlainly registry mapMode) {buffer : Keys}
    {n : ℕ} {target : Target} (hle : n ≤ buffer.length)
    (hget : keymap.get? mapMode (buffer.take n) = some target) {later : Keys}
    (hnone : ∀ longer, longer <+: buffer ++ (input ++ later) → n < longer.length →
      keymap.get? mapMode longer = none) :
    ∃ outcome, (ofStrokes buffer input depth).accept n target mode registry =
        (outcome, ofStrokes [] (buffer.drop n ++ input) depth) ∧
      Emits (boundAction keymap registry mapMode) later (buffer ++ input) outcome
        (buffer.drop n ++ input) := by
  obtain ⟨id, spec, rfl, hspec, hkind⟩ := Target.isPlain_iff.mp (hplain _ target hget)
  have hbound : boundAction keymap registry mapMode (buffer.take n) = some spec := by
    rw [boundAction, hget]
    exact hspec
  have hne : buffer.take n ≠ [] := by
    intro hnil
    rw [hnil] at hget
    exact absurd (Trie.get?_nil _) (Option.ne_none_iff_exists'.mpr ⟨_, hget⟩)
  have hsplit : buffer ++ input = buffer.take n ++ (buffer.drop n ++ input) := by
    rw [← List.append_assoc, List.take_append_drop]
  refine ⟨.plain spec (buffer.take n), accept_ofStrokes hspec hkind n,
    .inr ⟨Outcome.noConfusion, hsplit, ?_⟩⟩
  rw [hsplit, List.append_assoc]
  refine munch_of_longest hne hbound fun longer hlonger hlength ↦ boundAction_of_get?_eq_none ?_
  rw [← List.append_assoc, ← hsplit, List.append_assoc] at hlonger
  rw [List.length_take_of_le hle] at hlength
  exact hnone longer hlonger hlength

/-- Giving up the first stroke is right if no bound sequence begins with it. -/
theorem giveUp_emits {mapMode : MapMode} (hmode : mode.isTextEntry = true) {buffer later : Keys}
    (hne : buffer ≠ [])
    (hnone : ∀ longer, longer <+: buffer ++ (input ++ later) → keymap.get? mapMode longer = none) :
    ∃ outcome rest, (ofStrokes buffer input depth).giveUp mode = (outcome, ofStrokes [] rest depth) ∧
      Emits (boundAction keymap registry mapMode) later (buffer ++ input) outcome rest := by
  obtain ⟨first, rest, rfl⟩ := List.exists_cons_of_ne_nil hne
  refine ⟨_, _, giveUp_ofStrokes hmode first rest, .inr ⟨Outcome.noConfusion, rfl, ?_⟩⟩
  rw [List.append_assoc, List.append_assoc]
  exact munch_of_unbound fun front hfront ↦ boundAction_of_get?_eq_none (hnone front hfront)

section Emits

variable (hmode : mode.isTextEntry = true) (hplain : keymap.BindsPlainly registry (.ofMode mode))
include hmode hplain

theorem feed_emits {stroke : KeyStroke} (hne : stroke ≠ .escape) (later : Keys) :
    ∃ outcome keys' input', (ofStrokes keys input depth).feed stroke mode keymap registry =
        (outcome, ofStrokes keys' input' depth) ∧
      Emits (boundAction keymap registry (.ofMode mode)) later (keys ++ stroke :: input) outcome
        (keys' ++ input') := by
  rw [feed_ofStrokes hmode hne, List.append_cons]
  refine buffer_cases (motive := fun result ↦ ∃ outcome keys' input',
    result = (outcome, ofStrokes keys' input' depth) ∧
      Emits (boundAction keymap registry (.ofMode mode)) later (keys ++ [stroke] ++ input) outcome
        (keys' ++ input'))
    (ofStrokes keys input depth) mode keymap registry stroke ?wait ?take ?leave
  case wait => exact fun _ ↦ ⟨.pending, keys ++ [stroke], input, rfl, .inl ⟨rfl, rfl⟩⟩
  case take =>
    intro n target hresolve
    obtain ⟨hlongest, hbeyond⟩ := Trie.resolve_eq_matched hresolve
    obtain ⟨hle, hget, hnone⟩ := Trie.longest?_spec hlongest
    have hlater (longer : Keys) (hlonger : longer <+: keys ++ [stroke] ++ (input ++ later))
        (hlength : n < longer.length) : keymap.get? (.ofMode mode) longer = none :=
      (Trie.prefix_or_get?_eq_none hbeyond hlonger).elim (hnone longer · hlength) id
    obtain ⟨outcome, haccept, hemits⟩ := accept_emits hplain hle hget hlater
    exact ⟨outcome, [], _, haccept, hemits⟩
  case leave =>
    intro hresolve
    obtain ⟨hlongest, hbeyond⟩ := Trie.resolve_eq_unmapped hresolve
    have hbuffer : keys ++ [stroke] ≠ [] := List.append_ne_nil_of_right_ne_nil _ (List.cons_ne_nil _ _)
    have hlater (longer : Keys) (hlonger : longer <+: keys ++ [stroke] ++ (input ++ later)) :
        keymap.get? (.ofMode mode) longer = none :=
      (Trie.prefix_or_get?_eq_none (hbeyond hbuffer) hlonger).elim
        (Trie.get?_of_longest?_eq_none hlongest) id
    obtain ⟨outcome, rest, hgiveUp, hemits⟩ := giveUp_emits hmode hbuffer hlater
    exact ⟨outcome, [], rest, hgiveUp, hemits⟩

/-- What flushing does is right if nothing comes later. -/
theorem flush_emits :
    ∃ outcome keys' input', (ofStrokes keys [] depth).flush mode keymap registry =
        (outcome, ofStrokes keys' input' depth) ∧
      Emits (boundAction keymap registry (.ofMode mode)) [] keys outcome (keys' ++ input') := by
  have hself {front : Keys} (h : front <+: keys ++ ([] ++ [])) : front <+: keys := by
    rwa [List.append_nil, List.append_nil] at h
  refine flush_cases (motive := fun result ↦ ∃ outcome keys' input',
    result = (outcome, ofStrokes keys' input' depth) ∧
      Emits (boundAction keymap registry (.ofMode mode)) [] keys outcome (keys' ++ input'))
    (ofStrokes keys [] depth) mode keymap registry ?idle ?take ?leave
  case idle => exact fun _ ↦ ⟨.pending, keys, [], rfl, .inl ⟨rfl, List.append_nil keys⟩⟩
  case take =>
    intro n target ambiguous hresolve
    rw [ofStrokes_keys] at hresolve
    obtain ⟨hle, hget, hnone⟩ := Trie.longest?_spec (Trie.resolve_eq_matched hresolve).1
    obtain ⟨outcome, haccept, hemits⟩ :=
      accept_emits hplain hle hget fun longer hlonger ↦ hnone longer (hself hlonger)
    rw [List.append_nil keys] at hemits
    exact ⟨outcome, [], _, haccept, hemits⟩
  case leave =>
    intro hne hresolve
    rw [ofStrokes_keys] at hne hresolve
    have hlongest := Trie.longest?_eq_none_of_resolve hresolve
    obtain ⟨outcome, rest, hgiveUp, hemits⟩ :=
      giveUp_emits hmode hne fun longer hlonger ↦ Trie.get?_of_longest?_eq_none hlongest (hself hlonger)
    rw [List.append_nil] at hemits
    exact ⟨outcome, [], rest, hgiveUp, hemits⟩

end Emits

end Steps

/-! ### Runs -/

section Runs

variable {bound : Keys → Option ActionSpec} {all later owed left : Keys} {noted : List Outcome}

/-- What has been noted accounts for all strokes but those that are owed, and is what the longest match
gives for them, whatever the strokes that come later make of those that are owed. -/
structure Owes (bound : Keys → Option ActionSpec) (all later : Keys) (noted : List Outcome)
    (owed : Keys) : Prop where
  keys : noted.flatMap Outcome.keys ++ owed = all
  cut : noted.filter (· ≠ .pending) ++ munch bound (owed ++ later) = munch bound (all ++ later)

theorem Owes.step (h : Owes bound all later noted owed) {outcome : Outcome}
    (hemits : Emits bound later owed outcome left) : Owes bound all later (noted ++ [outcome]) left := by
  rcases hemits with ⟨rfl, rfl⟩ | ⟨hne, hkeys, hcut⟩
  · constructor
    · rw [List.flatMap_append, List.append_assoc]
      exact h.keys
    · rw [List.filter_append, List.append_assoc]
      exact h.cut
  · have hsingle : [outcome].filter (· ≠ .pending) = [outcome] :=
      List.filter_eq_self.mpr fun other hother ↦ by
        rw [List.mem_singleton.mp hother]
        exact decide_eq_true hne
    constructor
    · rw [List.flatMap_append, List.flatMap_singleton, List.append_assoc, ← hkeys]
      exact h.keys
    · rw [List.filter_append, hsingle, List.append_assoc, List.singleton_append, ← hcut]
      exact h.cut

/-- A resolver that holds nothing but strokes, and what it has answered for all the others. -/
def Reads (bound : Keys → Option ActionSpec) (all later : Keys) (t : Transcript) : Prop :=
  ∃ keys input depth, t.1 = ofStrokes keys input depth ∧ Owes bound all later t.2 (keys ++ input)

variable {keymap : Keymap} {registry : Registry} {mode : Mode} {t : Transcript}
  (hmode : mode.isTextEntry = true) (hplain : keymap.BindsPlainly registry (.ofMode mode))
include hmode hplain

theorem readAll_reads (hescape : KeyStroke.escape ∉ all)
    (h : Reads (boundAction keymap registry (.ofMode mode)) all later t) :
    Reads (boundAction keymap registry (.ofMode mode)) all later
        (readAll keymap registry (fun _ ↦ mode) t) ∧
      (readAll keymap registry (fun _ ↦ mode) t).1.input = [] := by
  refine readAll_keeps ?_ h
  rintro r noted stroke rest hinput ⟨keys, input, depth, hr, howes⟩
  dsimp only at hr howes
  subst hr
  obtain rfl : input = stroke :: rest := hinput
  have hne : stroke ≠ .escape := by
    rintro rfl
    refine hescape ?_
    rw [← howes.keys]
    simp
  obtain ⟨outcome, keys', input', hfeed, hemits⟩ := feed_emits hmode hplain hne later
  rw [show (ofStrokes keys (stroke :: rest) depth).afterRead = ofStrokes keys rest depth from rfl, hfeed]
  exact ⟨keys', input', depth, rfl, howes.step hemits⟩

theorem typeStroke_reads {stroke : KeyStroke} (hescape : KeyStroke.escape ∉ all ++ [stroke])
    (hinput : t.1.input = [])
    (h : Reads (boundAction keymap registry (.ofMode mode)) all (stroke :: later) t) :
    Reads (boundAction keymap registry (.ofMode mode)) (all ++ [stroke]) later
        (typeStroke keymap registry (fun _ ↦ mode) t stroke) ∧
      (typeStroke keymap registry (fun _ ↦ mode) t stroke).1.input = [] := by
  obtain ⟨r, noted⟩ := t
  obtain ⟨keys, input, depth, hr, howes⟩ := h
  dsimp only at hr howes hinput
  subst hr
  obtain rfl : input = [] := hinput
  refine readAll_reads hmode hplain hescape ⟨keys, [stroke], 0, rfl, ?_, ?_⟩
  · rw [← howes.keys]
    simp
  · rw [List.append_assoc, List.append_assoc]
    have hcut := howes.cut
    rwa [List.append_nil] at hcut

theorem foldl_typeStroke_reads (strokes : Keys) (hescape : KeyStroke.escape ∉ all ++ strokes)
    (hinput : t.1.input = [])
    (h : Reads (boundAction keymap registry (.ofMode mode)) all strokes t) :
    Reads (boundAction keymap registry (.ofMode mode)) (all ++ strokes) []
        (strokes.foldl (typeStroke keymap registry fun _ ↦ mode) t) ∧
      (strokes.foldl (typeStroke keymap registry fun _ ↦ mode) t).1.input = [] := by
  induction strokes generalizing all t with
  | nil =>
    rw [List.append_nil]
    exact ⟨h, hinput⟩
  | cons stroke rest ih =>
    rw [List.append_cons] at hescape ⊢
    obtain ⟨hreads, hread⟩ := typeStroke_reads hmode hplain
      (fun hmem ↦ hescape (List.mem_append_left rest hmem)) hinput h
    exact ih hescape hread hreads

theorem flushOnce_reads (hescape : KeyStroke.escape ∉ all) (hinput : t.1.input = [])
    (h : Reads (boundAction keymap registry (.ofMode mode)) all [] t) :
    Reads (boundAction keymap registry (.ofMode mode)) all []
        (flushOnce keymap registry (fun _ ↦ mode) t) ∧
      (flushOnce keymap registry (fun _ ↦ mode) t).1.input = [] := by
  obtain ⟨r, noted⟩ := t
  obtain ⟨keys, input, depth, hr, howes⟩ := h
  dsimp only at hr howes hinput
  subst hr
  obtain rfl : input = [] := hinput
  rw [List.append_nil] at howes
  obtain ⟨outcome, keys', input', hflush, hemits⟩ := flush_emits hmode hplain
  unfold flushOnce
  dsimp only
  rw [hflush]
  exact readAll_reads hmode hplain hescape ⟨keys', input', depth, rfl, howes.step hemits⟩

end Runs

/-- Where text is typed and all that is bound is plain, strokes without an Escape that are typed to an
idle resolver, and flushed until nothing is buffered, are cut by the longest match, and none of them is
lost, doubled or moved. -/
theorem text_entry_is_longest_match {keymap : Keymap} {registry : Registry} {mode : Mode} {r : Resolver}
    {strokes : Keys} (hmode : mode.isTextEntry = true)
    (hplain : keymap.BindsPlainly registry (.ofMode mode)) (hidle : r.hasPending = false)
    (hinput : r.input = []) (hescape : KeyStroke.escape ∉ strokes) :
    let typed := strokes.foldl (typeStroke keymap registry fun _ ↦ mode) (r, [])
    let flushed := fun flushes ↦ (flushOnce keymap registry fun _ ↦ mode)^[flushes] typed
    (∃ flushes, (flushed flushes).1.pending.keys = []) ∧
      ∀ flushes, (flushed flushes).1.pending.keys = [] →
        (flushed flushes).2.filter (· ≠ .pending) =
            munch (boundAction keymap registry (.ofMode mode)) strokes ∧
          (flushed flushes).2.flatMap Outcome.keys = strokes := by
  intro typed flushed
  refine ⟨exists_flushes_empty typed, fun flushes hempty ↦ ?_⟩
  obtain ⟨hpending, hoperator, hawaiting⟩ := hasPending_eq_false_iff.mp hidle
  have hr : r = ofStrokes [] [] r.mapDepth := by
    cases r
    simp_all [ofStrokes]
  have hstart : Reads (boundAction keymap registry (.ofMode mode)) [] strokes (r, []) :=
    ⟨[], [], r.mapDepth, hr, rfl, rfl⟩
  have hflushed (n : ℕ) : Reads (boundAction keymap registry (.ofMode mode)) strokes [] (flushed n) ∧
      (flushed n).1.input = [] := by
    induction n with
    | zero => exact foldl_typeStroke_reads hmode hplain strokes hescape hinput hstart
    | succ n ih =>
      show Reads _ _ _ ((flushOnce keymap registry fun _ ↦ mode)^[n + 1] typed) ∧
        ((flushOnce keymap registry fun _ ↦ mode)^[n + 1] typed).1.input = []
      rw [Function.iterate_succ_apply']
      exact flushOnce_reads hmode hplain hescape ih.2 ih.1
  obtain ⟨⟨keys, input, depth, hreads, howes⟩, hread⟩ := hflushed flushes
  rw [hreads] at hempty hread
  obtain rfl : keys = [] := hempty
  obtain rfl : input = [] := hread
  have hcut := howes.cut
  have hkeys := howes.keys
  rw [List.append_nil, List.append_nil, munch, List.append_nil, List.append_nil] at hcut
  rw [List.append_nil, List.append_nil] at hkeys
  exact ⟨hcut, hkeys⟩

/-- With `jk`, `jklm` and `lx` bound, typing `jklx` waits for an `m` that does not come; `jk` is taken,
and what was read beyond it is `lx`. -/
theorem unfinished_binding_is_cut_in_two :
    let keymap := Keymap.bindAll {} [
      Keymap.Default.bind "I" (Keymap.Default.typed "jk") ActionId.insertTab,
      Keymap.Default.bind "I" (Keymap.Default.typed "jklm") ActionId.insertNewline,
      Keymap.Default.bind "I" (Keymap.Default.typed "lx") ActionId.insertBackspace]
    let registry := Registry.ofList Builtin.typing
    let strokes := Keymap.Default.typed "jklx"
    let typed := strokes.foldl (typeStroke keymap registry fun _ ↦ .insert) ({}, [])
    Mode.insert.isTextEntry = true ∧ keymap.BindsPlainly registry .insert ∧ KeyStroke.escape ∉ strokes ∧
      ∃ flushes, ((flushOnce keymap registry fun _ ↦ .insert)^[flushes] typed).2.filter (· ≠ .pending) =
        [.plain (Builtin.change ActionId.insertTab EditState.typeTab) (Keymap.Default.typed "jk"),
          .plain (Builtin.change ActionId.insertBackspace EditState.backspace)
            (Keymap.Default.typed "lx")] := by
  intro keymap registry strokes typed
  have hplain : keymap.BindsPlainly registry .insert := Keymap.bindAll_bindsPlainly (by decide +kernel)
  have hescape : KeyStroke.escape ∉ strokes := by decide +kernel
  have hcut : munch (boundAction keymap registry .insert) strokes =
      [.plain (Builtin.change ActionId.insertTab EditState.typeTab) (Keymap.Default.typed "jk"),
        .plain (Builtin.change ActionId.insertBackspace EditState.backspace)
          (Keymap.Default.typed "lx")] := by
    decide +kernel
  obtain ⟨⟨flushes, hempty⟩, hflushed⟩ :=
    text_entry_is_longest_match (r := {}) (show Mode.insert.isTextEntry = true from rfl) hplain rfl rfl
      hescape
  exact ⟨rfl, hplain, hescape, flushes, (hflushed flushes hempty).1.trans hcut⟩

end Resolver

end ModalEdit
