import ModalEdit.Proofs.InsertTyping
import ModalEdit.Proofs.MotionCommands
import ModalEdit.Proofs.OperatorAgreement
import ModalEdit.Proofs.ShownSelections
import ModalEdit.Proofs.UnreadStrokes

/-!
Changing over between the visual and the select mode of characters. A visual selection takes in the
character under its caret and a select one does not, so the caret is taken across that character as the
mode changes (`EditState.headFrom`). Each change leaves the fixed end and the text
(`EditState.SelectsAlone.toggle`), and so does each stroke of the key that is bound to it
(`Session.Toggles.press`). The same characters stay selected through one stroke and through two, and the
caret comes back to where it was, exactly if the caret is on a character of its line at or behind the
fixed end, or the fixed end is at the end of the text (`Session.toggling_keeps_selection_iff`). Drawn
back from its fixed end, a selection loses the character at that end
(`Session.selecting_back_loses_letter`).
-/

set_option autoImplicit false
set_option relaxedAutoImplicit false

namespace ModalEdit

/-- The visual or the select mode of characters. -/
def Mode.ofCharacters (select : Bool) : Mode := if select then .select .character else .visual .character

namespace Mode

variable (select : Bool)

theorem ofCharacters_selectionKind? : (ofCharacters select).selectionKind? = some .character := by
  cases select <;> rfl

theorem ofCharacters_isSelect : (ofCharacters select).isSelect = select := by
  cases select <;> rfl

theorem ofCharacters_ne_operatorPending : ofCharacters select ≠ .operatorPending := by
  cases select <;> exact Mode.noConfusion

theorem ofCharacters_isLegal (parent : Option Mode) :
    (ofCharacters select).isLegal (ofCharacters !select) parent = true := by
  cases select <;> rfl

end Mode

/-! ### Where the caret goes -/

namespace Span

variable {t : Text} {offset : Nat}

/-- The ends of a selection of characters. -/
theorem selection_characters (h : offset ≤ t.length) (anchor : Nat) (select : Bool) :
    ((selection t anchor offset .character select false).start,
      (selection t anchor offset .character select false).stop) =
      (min anchor offset, min (max anchor offset + if select then 0 else 1) t.length) := by
  cases select with
  | true =>
    simp only [selection, TextRange.between, Bool.false_eq_true, if_false, if_true, Prod.mk.injEq]
    omega
  | false =>
    simp only [selection, TextRange.between, Bool.false_eq_true, if_false, Prod.mk.injEq]
    omega

end Span

namespace EditState

/-- Where a selection's caret goes as the mode changes over, from the ends of the selection. -/
def headFrom (t : Text) (anchor offset : Nat) (toSelect : Bool) : Nat :=
  headAcross t { offset, selectionStart := some anchor } toSelect

theorem headAcross_of_start {t : Text} {state : CaretState} {anchor : Nat}
    (h : state.selectionStart = some anchor) (toSelect : Bool) :
    headAcross t state toSelect = headFrom t anchor state.offset toSelect := by
  unfold headFrom headAcross
  rw [h]

section Head

variable {t : Text} {anchor offset : Nat}

theorem headFrom_true :
    headFrom t anchor offset true = if anchor ≤ offset then Span.inclusiveEnd t offset else offset := rfl

theorem headFrom_false :
    headFrom t anchor offset false = if anchor < offset then offset - 1 else offset := rfl

theorem headFrom_le (h : offset ≤ t.length) (toSelect : Bool) :
    headFrom t anchor offset toSelect ≤ t.length := by
  cases toSelect with
  | true =>
    rw [headFrom_true]
    split
    · by_cases hon : ∃ c ≠ '\n', t.charAt offset = some c
      · obtain ⟨c, hne, hc⟩ := hon
        rw [Span.inclusiveEnd_eq_succ hne hc]
        exact (List.getElem?_eq_some_iff.mp hc).1
      · rwa [Span.inclusiveEnd_eq_self hon]
    · exact h
  | false =>
    rw [headFrom_false]
    split <;> omega

/-- There and back, the ends of the selection stay and the caret returns just if it is on a character of
its line at or behind the fixed end, or the fixed end is at the end of the text. -/
theorem headFrom_keeps_iff (h : offset ≤ t.length) {there back : Nat}
    (hthere : headFrom t anchor offset true = there) (hback : headFrom t anchor there false = back) :
    ((min anchor there, min (max anchor there) t.length) =
        (min anchor offset, min (max anchor offset + 1) t.length) ∧
      (min anchor back, min (max anchor back + 1) t.length) =
        (min anchor offset, min (max anchor offset + 1) t.length) ∧ back = offset) ↔
    (anchor ≤ offset ∧ ∃ c ≠ '\n', t.charAt offset = some c) ∨ t.length ≤ anchor := by
  rw [headFrom_true] at hthere
  rw [headFrom_false] at hback
  by_cases hbehind : anchor ≤ offset
  · rw [if_pos hbehind] at hthere
    by_cases hon : ∃ c ≠ '\n', t.charAt offset = some c
    · obtain ⟨c, hne, hc⟩ := hon
      have hlt : offset < t.length := (List.getElem?_eq_some_iff.mp hc).1
      rw [Span.inclusiveEnd_eq_succ hne hc] at hthere
      have hkept : back = offset := by
        rw [← hback, ← hthere, if_pos (by omega), Nat.add_sub_cancel]
      refine iff_of_true ⟨?_, ?_, hkept⟩ (.inl ⟨hbehind, c, hne, hc⟩)
      · rw [← hthere, Prod.mk.injEq]
        omega
      · rw [hkept]
    · rw [Span.inclusiveEnd_eq_self hon] at hthere
      simp only [hon, and_false, false_or, Prod.mk.injEq]
      split at hback <;> omega
  · rw [if_neg hbehind] at hthere
    rw [if_neg (by omega)] at hback
    simp only [hbehind, false_and, false_or, Prod.mk.injEq]
    omega

end Head

/-! ### One caret that selects -/

/-- The one caret shows the characters selected from a fixed end, in the visual or in the select mode. -/
structure SelectsAlone (s : EditState) (caret : CaretId) (select : Bool) (anchor offset : Nat) : Prop
    extends Lone s caret offset where
  coherent : s.modes.Coherent
  mode : s.mode = .ofCharacters select
  shows : (s.view caret).Shows s.text .character select anchor offset

variable {s : EditState} {caret : CaretId} {select : Bool} {anchor offset : Nat}

theorem SelectsAlone.withGuard (h : s.SelectsAlone caret select anchor offset) (guard : SuppressionGuard) :
    SelectsAlone { s with editor := { s.editor with guard } } caret select anchor offset :=
  ⟨h.toLone.withGuard guard, h.coherent, h.mode, h.shows⟩

theorem SelectsAlone.syncCarets (h : s.SelectsAlone caret select anchor offset) :
    s.syncCarets.SelectsAlone caret select anchor offset := by
  refine ⟨h.toLone.syncCarets, h.coherent, h.mode, ?_⟩
  rw [view_syncCarets_of_starts h.toAnchored h.mem h.shows.toStarts]
  exact h.shows

theorem SelectsAlone.prepared (h : s.SelectsAlone caret select anchor offset) :
    s.prepared.SelectsAlone caret select anchor offset :=
  (h.withGuard s.lock.2.editor.guard).syncCarets

/-- The caret alone shows the selection from its fixed end. -/
theorem Lone.updateSelections_shows (h : s.Lone caret offset) {kind : SelectionKind}
    (hkind : s.mode.selectionKind? = some kind) (hstarts : (s.view caret).Starts anchor offset) :
    (s.updateSelections.view caret).Shows s.text kind s.mode.isSelect anchor offset := by
  have hsynced : (s.syncCarets.view caret).Starts anchor offset := by
    rwa [view_syncCarets_of_starts h.toAnchored h.mem hstarts]
  rw [updateSelections, h.forCarets]
  exact updateSelection_shows h.syncCarets.toAnchored h.syncCarets.mem hkind hsynced

/-- Shown in its mode, the one caret selects from its fixed end. -/
theorem Lone.updateSelections_selectsAlone (h : s.Lone caret offset) (hcoherent : s.modes.Coherent)
    (hmode : s.mode = .ofCharacters select) (hstarts : (s.view caret).Starts anchor offset) :
    s.updateSelections.SelectsAlone caret select anchor offset ∧ s.updateSelections.text = s.text := by
  have hkind : s.mode.selectionKind? = some .character :=
    (congrArg Mode.selectionKind? hmode).trans (Mode.ofCharacters_selectionKind? _)
  have hshows := h.updateSelections_shows hkind hstarts
  rw [hmode, Mode.ofCharacters_isSelect] at hshows
  have hdone : Stays s s.updateSelections := by
    rw [updateSelections, h.forCarets]
    exact (syncCarets_stays h.toAnchored).trans
      (updateSelection_touches h.syncCarets.toAnchored caret).toStays
  refine ⟨⟨h.of_stays hdone hshows.stands, ?_, hdone.mode.trans hmode, ?_⟩, hdone.text⟩
  · rwa [hdone.modes]
  · rwa [hdone.text]

theorem toggleVisualSelect_of_mode (hmode : s.mode = .ofCharacters select) :
    s.toggleVisualSelect = s.changeSelectionMode (.ofCharacters !select) !select := by
  cases select <;> (unfold toggleVisualSelect; rw [hmode]; rfl)

/-- Changing over takes the caret across the character under it and leaves the fixed end. -/
theorem SelectsAlone.toggle (h : s.SelectsAlone caret select anchor offset) :
    s.toggleVisualSelect.SelectsAlone caret (!select) anchor (headFrom s.text anchor offset !select) ∧
      s.toggleVisualSelect.text = s.text := by
  have hsynced := h.toLone.syncCarets
  have hstarts : (s.syncCarets.view caret).Starts anchor offset := by
    rw [view_syncCarets_of_starts h.toAnchored h.mem h.shows.toStarts]
    exact h.shows.toStarts
  obtain ⟨-, state, hstate, hoffset, hanchor⟩ := id hstarts
  have hhead := headAcross_of_start (t := s.text) hanchor (!select)
  rw [hoffset] at hhead
  have hle : headFrom s.text anchor offset (!select) ≤ s.text.length := headFrom_le h.toLone.le (!select)
  generalize headFrom s.text anchor offset (!select) = head at hhead hle
  rw [toggleVisualSelect_of_mode h.mode]
  unfold changeSelectionMode
  rw [h.toLone.forCarets, show s.syncCarets.carets.get? caret = some state from hstate]
  dsimp only
  rw [show headAcross s.syncCarets.text state (!select) = head from hhead, hoffset]
  generalize hmoved : (if head = offset then s.syncCarets else s.syncCarets.moveCaret caret head) = moved
  obtain ⟨hstays, hmovedStarts⟩ : Stays s moved ∧ (moved.view caret).Starts anchor head := by
    rw [← hmoved]
    split
    · next hsame =>
      rw [hsame]
      exact ⟨syncCarets_stays h.toAnchored, hstarts⟩
    · have hat := moveCaret_starts hsynced.toAnchored hsynced.mem hstarts head
      rw [show min head s.syncCarets.text.length = head from Nat.min_eq_left hle] at hat
      exact ⟨(syncCarets_stays h.toAnchored).trans
        (moveCaret_touches hsynced.toAnchored caret head).toStays, hat⟩
  rw [setMode_snd]
  generalize hmodes : moved.modes.tryTransition (.ofCharacters !select) = modes
  have hmode : modes.mode = .ofCharacters !select := by
    rw [← hmodes, hstays.modes]
    refine ModeMachine.tryTransition_mode_of_legal ?_
    rw [show s.modes.mode = .ofCharacters select from h.mode]
    exact Mode.ofCharacters_isLegal select _
  have hcoherent : modes.Coherent := by
    rw [← hmodes]
    exact ModeMachine.tryTransition_coherent (hstays.modes ▸ h.coherent) _
  have hlone : Lone { moved with modes } caret head :=
    (h.toLone.of_stays hstays hmovedStarts.stands).withModes modes
  obtain ⟨hselects, htext⟩ := hlone.updateSelections_selectsAlone hcoherent hmode hmovedStarts
  exact ⟨hselects, htext.trans hstays.text⟩

end EditState

/-! ### The key -/

namespace Resolver

/-- A stroke that is bound to an action alone is read as its command, with the count and the register that
have been typed before it. -/
theorem feed_of_alone {r : Resolver} {keymap : Keymap} {registry : Registry} {mode : Mode}
    {stroke : KeyStroke} {id : ActionId} {spec : ActionSpec} (hunbuffered : r.Unbuffered)
    (hoperator : r.operator = none) (hescape : stroke ≠ .escape) (hdigit : stroke.digit? = none)
    (hmark : stroke.typedChar? ≠ some '"')
    (hfollow : (keymap.trie (.ofMode mode)).follow stroke = some (some (.action id), .nil))
    (hget : registry.get? id = some spec) (hkind : spec.handler.kind = .other) :
    r.feed stroke mode keymap registry = r.resolveAlone (typedCall spec [stroke]) := by
  have hbuffers : r.Buffers ([] ++ [stroke]) := by
    refine .of_first hunbuffered.awaitingChar hunbuffered.awaitingRegister ?_ ?_
    · exact fun hmem ↦ hescape (List.mem_singleton.mp hmem).symm
    · rintro first hfirst
      obtain rfl := Option.some.inj hfirst
      exact ⟨hdigit, hmark⟩
  have hbound : keymap.get? (.ofMode mode) ([] ++ [stroke]) = some (.action id) := by
    show (keymap.trie (.ofMode mode)).get? [stroke] = _
    rw [Trie.get?_singleton, hfollow]
    rfl
  have hbeyond : (keymap.trie (.ofMode mode)).goesBeyond ([] ++ [stroke]) = false := by
    show (keymap.trie (.ofMode mode)).goesBeyond [stroke] = false
    simp only [Trie.goesBeyond, hfollow]
    rfl
  have hread := feed_of_bound registry hbuffers hbound hbeyond
  rw [accept_whole, withKeys_of_eq hunbuffered.keys] at hread
  exact hread.trans (acceptAction_of_other hget hkind hoperator [stroke] mode)

end Resolver

/-- The stroke that changes over. -/
def toggleStroke : KeyStroke := { code := .char 'g', mods := { ctrl := true } }

namespace Session

/-- One caret selects characters with nothing buffered or to be read, and a stroke changes over. -/
structure Toggles (s : Session) (caret : CaretId) (select : Bool) (anchor offset : Nat) : Prop
    extends EditState.SelectsAlone s.edit caret select anchor offset where
  unbuffered : s.resolver.Unbuffered
  operator : s.resolver.operator = none
  input : s.resolver.input = []
  reported : s.editor.reported = []
  registry : s.registry = .standard
  bound : ∀ select, (s.keymap.trie (.ofMode (.ofCharacters select))).follow toggleStroke =
    some (some (.action ActionId.toggleVisualSelect), .nil)

variable {s : Session} {caret : CaretId} {select : Bool} {anchor offset : Nat}

theorem Toggles.registered (h : s.Toggles caret select anchor offset) :
    s.registry.get? ActionId.toggleVisualSelect =
      some (Builtin.change ActionId.toggleVisualSelect EditState.toggleVisualSelect) := by
  rw [h.registry]
  exact Registry.standard_get?_of_mem
    (a := Builtin.change ActionId.toggleVisualSelect EditState.toggleVisualSelect)
    (by simp [Builtin.actions, Builtin.modeChanges])

theorem Toggles.feed (h : s.Toggles caret select anchor offset) :
    Resolver.feed { s.resolver with mapDepth := 0 } toggleStroke s.mode s.keymap s.registry =
      Resolver.resolveAlone { s.resolver with mapDepth := 0 } (Resolver.typedCall
        (Builtin.change ActionId.toggleVisualSelect EditState.toggleVisualSelect) [toggleStroke]) := by
  refine Resolver.feed_of_alone ⟨h.unbuffered.keys, h.unbuffered.awaitingChar, h.unbuffered.awaitingRegister⟩
    h.operator (by decide) rfl (by decide) ?_ h.registered rfl
  rw [show s.mode = .ofCharacters select from h.mode]
  exact h.bound select

theorem Toggles.handleKey (h : s.Toggles caret select anchor offset) :
    (s.handleKey toggleStroke).2 = { s with
      resolver := { s.resolver with mapDepth := 0, pending := {} }
      edit := s.edit.guardedChange EditState.toggleVisualSelect } := by
  have hsettled : s.edit.syncOperatorMode false = s.edit := by
    refine EditState.syncOperatorMode_of_ne ?_
    rw [h.mode]
    exact Mode.ofCharacters_ne_operatorPending select
  have hdone (command : Command) (haction : command.action = ActionId.toggleVisualSelect) :
      (s.edit.apply s.registry s.options s.resolver.operatorPending (.resolved command)).2 =
        s.edit.guardedChange EditState.toggleVisualSelect := by
    have hget := h.registered
    rw [← haction] at hget
    unfold EditState.apply
    rw [Resolver.operatorPending_of_none h.operator, hsettled]
    show (s.edit.guarded fun t ↦ t.execute s.registry s.options command).2 = _
    rw [funext fun t ↦ EditState.execute_of_change hget t s.options]
    rfl
  rw [handleKey_of_feed h.input h.reported h.feed h.input]
  exact congrArg (Session.mk _ _ _ _ _) (hdone _ rfl)

/-- The stroke changes over, and the session is ready for the next one. -/
theorem Toggles.press (h : s.Toggles caret select anchor offset) :
    (s.handleKey toggleStroke).2.Toggles caret (!select) anchor
        (EditState.headFrom s.editor.text anchor offset !select) ∧
      (s.handleKey toggleStroke).2.editor.text = s.editor.text := by
  obtain ⟨htoggled, htext⟩ := h.toSelectsAlone.prepared.toggle
  have horderly : EditState.Orderly s.edit.prepared s.edit.prepared.toggleVisualSelect :=
    s.edit.prepared.toggleVisualSelect_moves.rearranges.orderly
  rw [h.handleKey]
  exact ⟨⟨htoggled.withGuard _, ⟨rfl, h.unbuffered.awaitingChar, rfl⟩, h.operator, h.input,
    (EditState.guarded_unheard (f := fun t ↦ ((), t.toggleVisualSelect)) s.edit horderly).reported.trans
      h.reported, h.registry, h.bound⟩, htext⟩

/-! ### Sessions with one caret -/

/-- Whatever keys have led one caret into the visual mode of characters, if nothing is left of them to be
completed the stroke changes over. -/
theorem exists_toggles (options : Options) {editor : Editor} (hanchored : editor.Anchored)
    (hnone : ∀ caret, editor.selection? caret = none) {early late : List Remap}
    (hremaps : ∀ r ∈ early ++ late, r.keys.head? ≠ some toggleStroke) {calls : List KeyCall}
    (hs : calls.foldl call (opened options editor early late) = s) (hids : s.editor.caretIds = [caret])
    (hmode : s.mode = .visual .character) (hread : s.resolver.Unbuffered) :
    ∃ anchor offset, s.Toggles caret false anchor offset := by
  have hgoverned : s.Governed EditState.Agrees := by
    rw [← hs]
    exact calls_keep EditState.agrees_enduring options editor early late
      (.inl (.of_unselected hanchored hnone)) (.inr EditState.agrees_kept_by_reports) calls
  have hkept : s.keymap = (opened options editor early late).keymap ∧ s.resolver.input = [] := by
    rw [← hs]
    refine List.foldlRecOn (motive := fun t : Session ↦ t.keymap = _ ∧ t.resolver.input = []) calls call
      ⟨rfl, by rw [opened_resolver]⟩ fun t ht c _ ↦
        ⟨(t.undergo_keymap (.input (.call c))).trans ht.1, t.call_input c⟩
  have hne : s.mode ≠ .operatorPending := by
    rw [hmode]
    exact Mode.noConfusion
  have hreported : s.editor.reported = [] := by
    rcases hgoverned.quiet with hquiet | ⟨-, -, hnormal⟩
    · exact hquiet
    · cases hmode.symm.trans hnormal
  have hbound (select : Bool) : (s.keymap.trie (.ofMode (.ofCharacters select))).follow toggleStroke =
      some (some (.action ActionId.toggleVisualSelect), .nil) := by
    rw [hkept.1]
    refine opened_follow options editor ?_ (by decide +kernel) fun r hr _ ↦ hremaps r hr
    cases select <;> decide +kernel
  have hkind : s.edit.mode.selectionKind? = some .character := by
    rw [show s.edit.mode = _ from hmode]
    rfl
  have hselecting := hgoverned.state.selecting hkind
  obtain ⟨anchor, offset, hshows⟩ := hselecting.shown caret (hids ▸ List.mem_singleton_self caret)
  rw [show s.edit.mode.isSelect = false by rw [show s.edit.mode = _ from hmode]; rfl] at hshows
  exact ⟨anchor, offset, ⟨⟨⟨hselecting.toAnchored, hids, hshows.stands⟩, hselecting.coherent, hmode, hshows⟩,
    hread, Resolver.operator_eq_none hgoverned.mode hne, hkept.2, hreported, hgoverned.standard, hbound⟩⟩

end Session

theorem CaretView.Starts.unique {v : CaretView} {anchor offset anchor' offset' : Nat}
    (h : v.Starts anchor offset) (h' : v.Starts anchor' offset') : anchor = anchor' ∧ offset = offset' := by
  obtain ⟨-, state, hstate, hoffset, hanchor⟩ := h
  obtain ⟨-, state', hstate', hoffset', hanchor'⟩ := h'
  obtain rfl := Option.some.inj (hstate.symm.trans hstate')
  exact ⟨Option.some.inj (hanchor.symm.trans hanchor'), hoffset.symm.trans hoffset'⟩

/-- What a caret shows selected of characters, from a fixed end to where it is. -/
theorem CaretView.Shows.selection_characters {v : CaretView} {t : Text} {select : Bool}
    {anchor offset : Nat} (h : v.Shows t .character select anchor offset) (hle : offset ≤ t.length) :
    v.selection? = some (min anchor offset, min (max anchor offset + if select then 0 else 1) t.length) := by
  rw [h.selection, Span.selection_characters hle]

/-- However the keys have led one caret to select characters visually, one stroke of `<C-g>` changes over to
the select mode and another one back, and neither changes the text. The caret goes across the character
under it; the same characters stay selected both times, and the caret comes back to where it was, if and
only if it is on a character of its line at or behind the fixed end of the selection, or that end is at the
end of the text. -/
theorem Session.toggling_keeps_selection_iff (options : Options) (editor : Editor)
    (hanchored : editor.Anchored) (hnone : ∀ caret, editor.selection? caret = none) (early late : List Remap)
    (hremaps : ∀ r ∈ early ++ late, r.keys.head? ≠ some toggleStroke) (calls : List KeyCall) (s : Session)
    (hs : calls.foldl call (opened options editor early late) = s) (caret : CaretId)
    (hids : s.editor.caretIds = [caret]) (hmode : s.mode = .visual .character)
    (hread : s.resolver.Unbuffered) :
    let first := (s.handleKey toggleStroke).2
    let second := (first.handleKey toggleStroke).2
    (first.mode = .select .character ∧ second.mode = .visual .character) ∧
    (first.editor.text = s.editor.text ∧ second.editor.text = s.editor.text) ∧
    ∃ anchor offset,
      let there := EditState.headFrom s.editor.text anchor offset true
      let back := EditState.headFrom s.editor.text anchor there false
      (s.edit.view caret).Shows s.editor.text .character false anchor offset ∧
      (first.edit.view caret).Shows s.editor.text .character true anchor there ∧
      (second.edit.view caret).Shows s.editor.text .character false anchor back ∧
      ((first.editor.selection? caret = s.editor.selection? caret ∧
          second.editor.selection? caret = s.editor.selection? caret ∧
          second.editor.caretOffset? caret = s.editor.caretOffset? caret) ↔
        (anchor ≤ offset ∧ ∃ c ≠ '\n', s.editor.text.charAt offset = some c) ∨
          s.editor.text.length ≤ anchor) := by
  intro first second
  obtain ⟨anchor, offset, htoggles⟩ := exists_toggles options hanchored hnone hremaps hs hids hmode hread
  obtain ⟨hfirst, hfirstText⟩ := htoggles.press
  obtain ⟨hsecond, hsecondText⟩ := hfirst.press
  replace hsecondText : second.editor.text = s.editor.text := hsecondText.trans hfirstText
  refine ⟨⟨hfirst.mode, hsecond.mode⟩, ⟨hfirstText, hsecondText⟩, anchor, offset, ?_⟩
  intro there back
  have hle : offset ≤ s.editor.text.length := htoggles.le
  have hthere : there ≤ s.editor.text.length := EditState.headFrom_le hle true
  have hback : back ≤ s.editor.text.length := EditState.headFrom_le hthere false
  have hshown : (s.edit.view caret).Shows s.editor.text .character false anchor offset := htoggles.shows
  have hthereShown : (first.edit.view caret).Shows s.editor.text .character true anchor there := by
    rw [← show first.edit.text = s.editor.text from hfirstText]
    exact hfirst.shows
  have hbackShown : (second.edit.view caret).Shows s.editor.text .character false anchor back := by
    have hplace : EditState.headFrom first.editor.text anchor there false = back := by rw [hfirstText]
    rw [← show second.edit.text = s.editor.text from hsecondText, ← hplace]
    exact hsecond.shows
  refine ⟨hshown, hthereShown, hbackShown, ?_⟩
  rw [show s.editor.selection? caret = _ from hshown.selection_characters hle,
    show first.editor.selection? caret = _ from hthereShown.selection_characters hthere,
    show second.editor.selection? caret = _ from hbackShown.selection_characters hback,
    show s.editor.caretOffset? caret = _ from hshown.stands,
    show second.editor.caretOffset? caret = _ from hbackShown.stands]
  simp only [Bool.false_eq_true, if_false, if_true, Nat.add_zero, Option.some.injEq]
  exact EditState.headFrom_keeps_iff hle rfl rfl

/-! ### Selections drawn forward and back -/

namespace MotionKey

open Resolver (Completes)

theorem visual_bound (m : MotionKey) : Keymap.standard.get? .visual m.keys = some (.action m.action) ∧
    (Keymap.standard.trie .visual).goesBeyond m.keys = false := by
  have hall : ∀ m ∈ all, Keymap.standard.get? .visual m.keys = some (.action m.action) ∧
      (Keymap.standard.trie .visual).goesBeyond m.keys = false := by
    decide +kernel
  exact hall m m.mem_all

/-- Where characters are selected, the keys of a motion are its command. -/
theorem completes_visual (m : MotionKey) :
    Completes .standard .standard (·.modeOver (.visual .character)) m.keys {} (.resolved (m.command {}))
      {} := by
  obtain ⟨hne, hescape, hfirst⟩ := m.keys_first
  have hget : Registry.standard.get? m.action = some m.spec :=
    Registry.standard_get?_of_mem (a := m.spec) m.spec_mem
  have hchar : m.spec.flags.expectsChar = false := by cases m <;> rfl
  refine Resolver.completes_of_bound (.visual .character) rfl rfl rfl (fun _ ↦ rfl) hne
    (.of_first rfl rfl hescape hfirst) m.visual_bound.1 m.visual_bound.2 ?_ rfl
  rw [Resolver.accept_whole, Resolver.acceptAction_of_target hget (.inl rfl),
    if_neg (Bool.eq_false_iff.mp hchar)]
  rfl

end MotionKey

namespace Session

variable {s : Session} {caret : CaretId} {anchor offset : Nat}

/-- A motion takes the caret of a selection along. -/
theorem Extends.runMotion (h : s.Extends caret anchor offset) (m : MotionKey) {destination : Nat}
    (hmoves : ∀ ctx : MotionContext, ctx.text = s.editor.text → ctx.offset = offset →
      ctx.command = m.call {} → ctx.mode = .visual .character → ctx.operatorPending = false →
        m.motion ctx = some destination) :
    (s.handleAll m.keys).2.Extends caret anchor
        (min (s.editor.text.normalize destination false) s.editor.text.length) ∧
      (s.handleAll m.keys).2.editor.text = s.editor.text := by
  obtain ⟨modes, hcoherent, hsame, hrun⟩ := h.handleAll m.keys (m.command {}) (by
    rw [show s.mode = .visual .character from h.selects.mode]
    exact m.completes_visual)
  have hget : Registry.standard.get? (m.command {}).action = some m.spec :=
    Registry.standard_get?_of_mem (a := m.spec) m.spec_mem
  have hexecute (t : EditState) : t.execute .standard s.options (m.command {}) =
      t.applyMotion (m.call {}) m.motion := by
    unfold EditState.execute
    rw [hget]
    rfl
  have hselects : (EditState.prepared { s.edit with modes }).Selects caret anchor offset :=
    (h.selects.withModes hcoherent hsame).prepared
  rw [hrun, funext hexecute]
  obtain ⟨hextends, htext, -⟩ := h.extends_of_run (f := fun t ↦ t.applyMotion (m.call {}) m.motion)
    (EditState.applyMotion_moves _ _ _) (hselects.applyMotion (m.call {}) fun state hoffset ↦
      hmoves _ rfl hoffset rfl hselects.mode rfl)
  exact ⟨hextends, htext⟩

/-- Four letters, with the caret at the third. -/
def fourLetters : Editor := .ofMarked ⟨"abcd\n".toList, [2], []⟩

theorem fourLetters_anchored : fourLetters.Anchored := Editor.ofMarked_anchored _

theorem fourLetters_selection? (caret : CaretId) : fourLetters.selection? caret = none := by
  have hunselected : fourLetters.Unselected := by
    unfold Editor.Unselected
    decide +kernel
  exact hunselected.selection? caret

/-- What the keys of a selection that a motion draws leave of four letters. -/
def afterKeys (m : MotionKey) : Session :=
  ((.char 'v' :: m.keys).map KeyCall.key).foldl call (opened {} fourLetters [] [])

theorem afterKeys_extends (m : MotionKey) {destination : Nat}
    (hmoves : ∀ ctx : MotionContext, ctx.text = fourLetters.text → ctx.offset = 2 →
      ctx.command = m.call {} → ctx.mode = .visual .character → ctx.operatorPending = false →
        m.motion ctx = some destination)
    (hplace : min (fourLetters.text.normalize destination false) fourLetters.text.length = destination) :
    (afterKeys m).Extends ⟨0⟩ 2 destination ∧ (afterKeys m).editor.text = fourLetters.text := by
  generalize hopened : opened {} fourLetters [] [] = s
  have hedit : s.edit = { editor := fourLetters } := by rw [← hopened, opened_edit]
  have htext : s.editor.text = fourLetters.text := by rw [Session.editor, hedit]
  have hmode : s.mode = .normal := by
    rw [Session.mode, hedit]
    rfl
  have hlone : s.edit.Lone ⟨0⟩ 2 := by
    rw [hedit]
    exact ⟨⟨fourLetters_anchored, List.nodup_nil⟩, by decide +kernel, by decide +kernel⟩
  have htakes : s.TakesCommands := by
    refine ⟨?_, ?_, ?_, ?_, ?_, ?_, .inl hmode⟩
    · rw [← hopened, opened_keymap]
    · rw [← hopened, opened_registry]
    · rw [← hopened, opened_resolver]
      rfl
    · rw [← hopened, opened_resolver]
    · rw [Session.editor, hedit]
      decide +kernel
    · rw [hedit]
      rfl
  obtain ⟨hstarted, hsame, -⟩ := htakes.startSelection hmode hlone
  rw [htext] at hsame
  have hmoved := hstarted.runMotion m (by rw [hsame]; exact hmoves)
  rw [hsame, hplace] at hmoved
  have hrun : afterKeys m = ((s.handleAll [.char 'v']).2.handleAll m.keys).2 := by
    rw [handleAll_snd, handleAll_snd, afterKeys, hopened, List.foldl_map]
    rfl
  rw [hrun]
  exact hmoved

theorem afterKeys_right : (afterKeys .right).Extends ⟨0⟩ 2 3 ∧
    (afterKeys .right).editor.text = fourLetters.text := by
  refine afterKeys_extends .right (fun ctx htext hoffset hcommand hmode hpending ↦ ?_) (by decide +kernel)
  have hplace : fourLetters.text.right 2 1 false = 3 := by decide +kernel
  show ctx.moved (ctx.text.right ctx.offset ctx.command.count ctx.allowEnd) = _
  rw [MotionContext.allowEnd, MotionContext.moved, htext, hoffset, hcommand, hmode, hpending]
  exact congrArg (fun place ↦ if place = 2 then none else some place) hplace

theorem afterKeys_left : (afterKeys .left).Extends ⟨0⟩ 2 1 ∧
    (afterKeys .left).editor.text = fourLetters.text := by
  refine afterKeys_extends .left (fun ctx htext hoffset hcommand _ _ ↦ ?_) (by decide +kernel)
  have hplace : fourLetters.text.left 2 1 = 1 := by decide +kernel
  show ctx.moved (ctx.text.left ctx.offset ctx.command.count) = _
  rw [MotionContext.moved, htext, hoffset, hcommand]
  exact congrArg (fun place ↦ if place = 2 then none else some place) hplace

theorem Extends.unbuffered (h : s.Extends caret anchor offset) : s.resolver.Unbuffered := by
  obtain ⟨hpending, -, hchar⟩ := Resolver.hasPending_eq_false_iff.mp h.idle
  exact ⟨by rw [hpending], hchar, by rw [hpending]⟩

/-- Two letters stay selected that have been selected forward. -/
theorem selecting_forward_keeps_letters :
    let s := afterKeys .right
    let first := (s.handleKey toggleStroke).2
    let second := (first.handleKey toggleStroke).2
    (fourLetters.Anchored ∧ (∀ caret, fourLetters.selection? caret = none) ∧
      s.editor.caretIds = [⟨0⟩] ∧ s.mode = .visual .character ∧ s.resolver.Unbuffered) ∧
    first.mode = .select .character ∧ second.mode = .visual .character ∧
      s.editor.selection? ⟨0⟩ = some (2, 4) ∧ first.editor.selection? ⟨0⟩ = some (2, 4) ∧
        second.editor.selection? ⟨0⟩ = some (2, 4) ∧ second.editor.caretOffset? ⟨0⟩ = some 3 := by
  intro s first second
  obtain ⟨hextends, htext⟩ := afterKeys_right
  have hids : s.editor.caretIds = [⟨0⟩] := hextends.selects.ids
  have hvisual : s.mode = .visual .character := hextends.selects.mode
  have hread : s.resolver.Unbuffered := hextends.unbuffered
  obtain ⟨hmodes, -, anchor, offset, hshows, -, -, hiff⟩ := toggling_keeps_selection_iff {} fourLetters
    fourLetters_anchored fourLetters_selection? [] [] (fun _ hr ↦ absurd hr List.not_mem_nil) _ s rfl ⟨0⟩
    hids hvisual hread
  obtain ⟨rfl, rfl⟩ := hshows.toStarts.unique hextends.selects.starts
  rw [show s.editor.text = fourLetters.text from htext] at hshows hiff
  have hselected : s.editor.selection? ⟨0⟩ = some (2, 4) :=
    (hshows.selection_characters (by decide +kernel)).trans (by decide +kernel)
  obtain ⟨hfirst, hsecond, hplace⟩ := hiff.mpr (.inl ⟨by decide, 'd', by decide, by decide +kernel⟩)
  exact ⟨⟨fourLetters_anchored, fourLetters_selection?, hids, hvisual, hread⟩, hmodes.1, hmodes.2, hselected,
    hfirst.trans hselected, hsecond.trans hselected, hplace.trans hshows.stands⟩

/-- Of two letters that have been selected back from the third, that one is no longer selected in the
select mode. -/
theorem selecting_back_loses_letter :
    let s := afterKeys .left
    let first := (s.handleKey toggleStroke).2
    (s.editor.caretIds = [⟨0⟩] ∧ s.mode = .visual .character ∧ s.resolver.Unbuffered) ∧
      first.mode = .select .character ∧ s.editor.selection? ⟨0⟩ = some (1, 3) ∧
        first.editor.selection? ⟨0⟩ = some (1, 2) := by
  intro s first
  obtain ⟨hextends, htext⟩ := afterKeys_left
  have hids : s.editor.caretIds = [⟨0⟩] := hextends.selects.ids
  have hvisual : s.mode = .visual .character := hextends.selects.mode
  have hread : s.resolver.Unbuffered := hextends.unbuffered
  obtain ⟨anchor, offset, htoggles⟩ := exists_toggles {} fourLetters_anchored fourLetters_selection?
    (fun _ hr ↦ absurd hr List.not_mem_nil) (s := s) rfl hids hvisual hread
  obtain ⟨rfl, rfl⟩ := htoggles.shows.toStarts.unique hextends.selects.starts
  obtain ⟨hfirst, hsame⟩ := htoggles.press
  have hbefore := htoggles.shows
  have hafter := hfirst.shows
  rw [show s.edit.text = fourLetters.text from htext] at hbefore
  rw [show first.edit.text = fourLetters.text from hsame.trans htext,
    show s.editor.text = fourLetters.text from htext] at hafter
  exact ⟨⟨hids, hvisual, hread⟩, hfirst.mode,
    (hbefore.selection_characters (by decide +kernel)).trans (by decide +kernel),
    (hafter.selection_characters (by decide +kernel)).trans (by decide +kernel)⟩

end Session

end ModalEdit
