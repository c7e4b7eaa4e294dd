import ModalEdit.Proofs.BoundSequence
import ModalEdit.Proofs.Replay
import ModalEdit.Proofs.StandardSession

/-!
A sequence that stands for other strokes does what they do. Its strokes wait without doing anything
until the last one puts the others in their place (`handleAll_eq_drain`); these are read in one go, which
is the same as typing them (`drain_eq_foldl_handleKey`). Only the number of replacements made differs, and
it matters only if they are used up (`remap_is_transparent`).
-/

set_option autoImplicit false
set_option relaxedAutoImplicit false

namespace ModalEdit.Session

open Keymap.Default (typed)

/-- Nothing has been reported, and nothing is buffered, to be read or waiting for a character or a
register's name. A count, a register and an operator may have been typed. -/
structure AtRest (s : Session) : Prop where
  reported : s.editor.reported = []
  input : s.resolver.input = []
  keys : s.resolver.pending.keys = []
  awaitingChar : s.resolver.awaitingChar = none
  awaitingRegister : s.resolver.pending.awaitingRegister = false
  mode : s.mode = .operatorPending ↔ s.resolver.operatorPending = true

variable {s : Session}

/-- With the mode in step, waiting does nothing. -/
theorem act_of_pending {r : Resolver} (hmode : s.mode = .operatorPending ↔ r.operatorPending = true) :
    s.act (.pending, r) = (.pending, { s with resolver := r }) := by
  have hsynced : s.edit.syncOperatorMode r.operatorPending = s.edit := by
    rw [EditState.syncOperatorMode_eq]
    cases hoperator : r.operatorPending with
    | true =>
      have hpends : s.edit.modes.mode = .operatorPending := hmode.mpr hoperator
      rw [if_pos rfl, ModeMachine.tryTransition, ModeMachine.transition, if_pos hpends]
      rfl
    | false =>
      have hother : ¬ s.edit.mode = .operatorPending := by
        intro hpends
        rw [hmode.mp hpends] at hoperator
        cases hoperator
      rw [if_neg Bool.false_ne_true, if_neg hother]
  show (KeyOutcome.pending,
    { s with resolver := r, edit := s.edit.syncOperatorMode r.operatorPending }) = _
  rw [hsynced]

/-- A stroke on which the resolver waits does nothing, and then what it has to read is read. -/
theorem handleKey_of_pending (hreported : s.editor.reported = []) (hread : s.resolver.input = [])
    {stroke : KeyStroke} {after : Resolver}
    (hfeed : { s.resolver with mapDepth := 0 }.feed stroke s.mode s.keymap s.registry =
      (.pending, after))
    (hmode : s.mode = .operatorPending ↔ after.operatorPending = true) :
    s.handleKey stroke = { s with resolver := after }.drain .pending := by
  have hinput : (s.enqueue stroke).resolver.input = [stroke] := by
    rw [enqueue_input, hread, List.nil_append]
  have hafterRead : (s.enqueue stroke).resolver.afterRead = { s.resolver with mapDepth := 0 } := by
    rw [Resolver.afterRead, hinput, List.tail_cons, ← hread]
    rfl
  have hturn : (s.enqueue stroke).turn stroke = (.pending, { s with resolver := after }) := by
    rw [turn, hafterRead]
    show (s.enqueue stroke).act
      ({ s.resolver with mapDepth := 0 }.feed stroke s.mode s.keymap s.registry) = _
    rw [hfeed]
    exact act_of_pending hmode
  rw [handleKey_eq_drain hreported hread stroke .pending, drain_of_turn hinput, hturn]

section Bound

variable {front more lhs rhs : Keys} {target : Target} (hrest : s.AtRest)
include hrest

/-- The strokes of a sequence are buffered as long as more of them are to come. -/
theorem foldl_handleKey_prefix (hbuffers : s.resolver.Buffers (front ++ more)) (hmore : more ≠ [])
    (hget : s.keymap.get? (.ofMode s.mode) (front ++ more) = some target) :
    ∃ depth, front.foldl (fun (_, s) stroke ↦ s.handleKey stroke) (.pending, s) =
      (.pending, { s with resolver := { s.resolver.withKeys front with mapDepth := depth } }) := by
  induction front using List.reverseRecOn generalizing more with
  | nil => exact ⟨s.resolver.mapDepth, by rw [Resolver.withKeys_of_eq hrest.keys]; rfl⟩
  | append_singleton front stroke ih =>
    rw [List.append_assoc] at hbuffers hget
    obtain ⟨depth, hfront⟩ :=
      ih hbuffers (List.append_ne_nil_of_left_ne_nil (List.cons_ne_nil _ _) _) hget
    have hfeed := Resolver.feed_of_prefix s.registry hbuffers.fresh hmore hget
    refine ⟨0, ?_⟩
    rw [List.foldl_append, hfront, List.foldl_cons, List.foldl_nil]
    dsimp only
    rw [handleKey_of_pending
      (s := { s with resolver := { s.resolver.withKeys front with mapDepth := depth } })
      hrest.reported hrest.input hfeed hrest.mode]
    exact drain_of_nil .pending hrest.input

theorem handleAll_eq_drain (hbuffers : s.resolver.Buffers lhs)
    (hget : s.keymap.get? (.ofMode s.mode) lhs = some (.remap rhs))
    (hbeyond : (s.keymap.trie (.ofMode s.mode)).goesBeyond lhs = false) :
    s.handleAll lhs = (s.followedBy rhs 1).drain .pending := by
  have hne : lhs ≠ [] := by
    rintro rfl
    cases hget.symm.trans (Trie.get?_nil _)
  obtain ⟨front, last, rfl⟩ := lhs.eq_nil_or_concat'.resolve_left hne
  obtain ⟨depth, hfront⟩ := foldl_handleKey_prefix hrest hbuffers (List.cons_ne_nil last []) hget
  have hfeed := Resolver.feed_of_bound s.registry hbuffers.fresh hget hbeyond
  rw [Resolver.accept_whole_remap _ _ _ _ (show 0 < maxMapDepth by decide)] at hfeed
  have hreplayed : Resolver.replay { Resolver.withKeys { s.resolver with mapDepth := 0 } [] with
      mapDepth := 1 } rhs = s.resolver.followedBy rhs 1 := by
    rw [Resolver.withKeys_of_eq (r := { s.resolver with mapDepth := 0 }) hrest.keys, Resolver.replay,
      Resolver.followedBy, hrest.input, List.append_nil, List.nil_append]
  rw [handleAll, List.foldl_append, hfront, List.foldl_cons, List.foldl_nil]
  dsimp only
  rw [handleKey_of_pending
    (s := { s with resolver := { s.resolver.withKeys front with mapDepth := depth } })
    hrest.reported hrest.input hfeed hrest.mode]
  exact congrArg (fun r ↦ drain { s with resolver := r } .pending) hreplayed

end Bound

/-- Whatever is bound, and whatever count, register or operator has been typed before, the strokes of a
sequence that stands for others have the same outcome as these and lead to the same session but for the
number of replacements made, if these are not used up. -/
theorem remap_is_transparent {bindings : List Binding} {lhs rhs : Keys}
    (hregistry : s.registry = Builtin.registry) (hkeymap : s.keymap = .bindAll {} bindings)
    (hrest : s.AtRest) (hget : s.keymap.get? (.ofMode s.mode) lhs = some (.remap rhs))
    (hlonger : ∀ more, more ≠ [] → s.keymap.get? (.ofMode s.mode) (lhs ++ more) = none)
    (hescape : KeyStroke.escape ∉ lhs)
    (hfirst : ∀ first ∈ lhs.head?, first.digit? = none ∧ first.typedChar? ≠ some '"')
    (hdepth : (s.handleAll lhs).2.resolver.mapDepth < maxMapDepth) :
    ∃ depth, s.handleAll lhs = ((s.handleAll rhs).1,
      { (s.handleAll rhs).2 with
        resolver := { (s.handleAll rhs).2.resolver with mapDepth := depth } }) := by
  have hbeyond : (s.keymap.trie (.ofMode s.mode)).goesBeyond lhs = false := by
    rw [hkeymap] at hlonger ⊢
    exact Keymap.bindAll_goesBeyond_eq_false hlonger
  have hbuffers : s.resolver.Buffers lhs :=
    .of_first hrest.awaitingChar hrest.awaitingRegister hescape hfirst
  have hdrain := handleAll_eq_drain hrest hbuffers hget hbeyond
  have hleft : 0 < ((s.followedBy rhs 1).drain .pending).2.resolver.mapsLeft := by
    rw [← hdrain]
    exact Nat.sub_pos_of_lt hdepth
  have horderly : s.registry.Orderly := by
    rw [hregistry]
    exact Registry.builtin_orderly
  obtain ⟨depth, hsame⟩ :=
    drain_eq_foldl_handleKey horderly hrest.input hrest.reported rhs .pending hleft
  refine ⟨depth, ?_⟩
  rw [hdrain, hsame, followedBy_nil]
  rfl

/-- With `x` bound to `dl` it deletes characters as `dl` does, also after a count. -/
theorem x_deletes_characters :
    let bindings := [Keymap.Default.remap "x" "dl", Keymap.Default.bind "N" (typed "d") ActionId.delete,
      Keymap.Default.bind "O" (typed "l") ActionId.right]
    let s : Session := {
      keymap := .bindAll {} bindings
      resolver := { pending := { countBefore := some 2 } }
      edit := { editor := Editor.ofText "abc".toList } }
    s.AtRest ∧ (s.handleAll (typed "x")).2.resolver.mapDepth < maxMapDepth ∧
      ∃ depth, s.handleAll (typed "x") = ((s.handleAll (typed "dl")).1,
        { (s.handleAll (typed "dl")).2 with
          resolver := { (s.handleAll (typed "dl")).2.resolver with mapDepth := depth } }) := by
  intro bindings s
  have hrest : s.AtRest := ⟨rfl, rfl, rfl, rfl, rfl, by decide⟩
  -- three turns: the replacement, the operator, and its motion
  let replaced := (s.enqueue (.char 'x')).turn (.char 'x')
  let waiting := replaced.2.turn (.char 'd')
  let deleted := waiting.2.turn (.char 'l')
  obtain ⟨hreplaced, hwaiting, hdeleted, hleft⟩ :
      replaced.2.resolver.input = [.char 'd', .char 'l'] ∧ waiting.2.resolver.input = [.char 'l'] ∧
        deleted.2.resolver.input = [] ∧ deleted.2.resolver.mapDepth < maxMapDepth := by
    decide +kernel
  have hdone : s.handleAll (typed "x") = deleted := by
    have hinput : (s.enqueue (.char 'x')).resolver.input = [.char 'x'] := rfl
    show s.handleKey (.char 'x') = deleted
    rw [handleKey_eq_drain rfl rfl _ .pending, drain_of_turn hinput, drain_of_turn hreplaced,
      drain_of_turn hwaiting, drain_of_nil _ hdeleted]
  have hdepth : (s.handleAll (typed "x")).2.resolver.mapDepth < maxMapDepth := by
    rw [hdone]
    exact hleft
  have hget : s.keymap.get? (.ofMode s.mode) (typed "x") = some (.remap (typed "dl")) := by
    decide +kernel
  have hlonger (more : Keys) (hmore : more ≠ []) :
      s.keymap.get? (.ofMode s.mode) (typed "x" ++ more) = none := by
    refine Option.eq_none_iff_forall_ne_some.mpr fun target htarget ↦ hmore ?_
    obtain ⟨b, hb, -, hkeys, -⟩ := Keymap.exists_binding_of_get? htarget
    have hall : ∀ b ∈ bindings, typed "x" <+: b.keys → b.keys.length = 1 := by decide +kernel
    have hlength := hall b hb (hkeys ▸ List.prefix_append _ more)
    rw [hkeys, List.length_append] at hlength
    exact List.length_eq_zero_iff.mp (Nat.add_left_cancel hlength)
  have hregistry : s.registry = Builtin.registry := by
    dsimp only [s]
  exact ⟨hrest, hdepth, remap_is_transparent (s := s) hregistry rfl hrest hget hlonger
    (by decide +kernel) (by decide +kernel) hdepth⟩

end ModalEdit.Session
