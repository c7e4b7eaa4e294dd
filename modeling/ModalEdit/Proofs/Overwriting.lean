import Mathlib.Data.Nat.Find
import ModalEdit.Proofs.InsertTyping
import ModalEdit.Proofs.TextReplacement
import ModalEdit.Proofs.WordPlaces

/-!
Typing in the replace mode. The carets are gone through from the start of the document to its end, each
takes the character at it out and puts the typed one in (`EditState.Moved.overwrite`), and before a line
feed or at the end it only puts it in (`EditState.Moved.insert`). What is taken out draws a caret right
behind it to where the typed character then goes in, so that caret types over the same place again, and
draws back the first one (`Text.leads`). From left to right the text is so typed over at every caret but
the second of each such pair (`EditState.Overwriting`), and the carets end behind what they have typed but
for both of the pair, which end where they were (`Session.replace_mode_types_over_carets`).
-/

set_option autoImplicit false
set_option relaxedAutoImplicit false

namespace ModalEdit

namespace Text

/-! ### The text typed over -/

/-- Whether there is a character at an offset that may be typed over. -/
def overwritable (t : Text) (offset : Nat) : Bool := (t.charAt offset).any (· != '\n')

/-- A character in the place of those at some offsets, and before the line feeds there. -/
def typeOver (chosen : Nat → Bool) (c : Char) (offset : Nat) (old : Char) : Text :=
  if chosen offset then if old = '\n' then [c, old] else [c] else [old]

/-- The text typed over at some offsets, of which the end may be one. -/
def typedOver (t : Text) (chosen : Nat → Bool) (c : Char) : Text :=
  t.replaceEach (typeOver chosen c) ++ if chosen t.length then [c] else []

/-- Whether the caret at an offset draws the one right behind it to itself, as it does unless it was itself
drawn. -/
def leads (t : Text) (stands : Nat → Bool) : Nat → Bool
  | 0 => stands 0 && stands 1 && t.overwritable 0
  | offset + 1 =>
    stands (offset + 1) && stands (offset + 2) && t.overwritable (offset + 1) && !leads t stands offset

/-- Whether the caret at an offset is drawn to the one before. -/
def follows (t : Text) (stands : Nat → Bool) : Nat → Bool
  | 0 => false
  | offset + 1 => t.leads stands offset

/-- Whether the text is typed over at an offset. -/
def takesOver (t : Text) (stands : Nat → Bool) (offset : Nat) : Bool :=
  stands offset && !t.follows stands offset

/-- Where the caret at an offset ends: behind what it has typed, unless it is one of a pair. -/
def placeOver (t : Text) (stands : Nat → Bool) (c : Char) (offset : Nat) : Nat :=
  t.placeAt (typeOver (t.takesOver stands) c) offset +
    if t.leads stands offset || t.follows stands offset then 0 else 1

/-- What is typed at an offset is found at its place. -/
theorem charAt_typedOver {t : Text} {chosen : Nat → Bool} {offset : Nat} (hover : chosen offset = true)
    (hle : offset ≤ t.length) (c : Char) :
    (t.typedOver chosen c).charAt (t.placeAt (typeOver chosen c) offset) = some c := by
  have hsplit : t.typedOver chosen c = replaceEach (t.take offset) (typeOver chosen c) ++
      (replaceEachFrom offset (t.drop offset) (typeOver chosen c) ++ if chosen t.length then [c] else []) := by
    rw [typedOver, replaceEach_split t _ offset, List.append_assoc]
  obtain ⟨rest, hrest⟩ : ∃ rest, (replaceEachFrom offset (t.drop offset) (typeOver chosen c) ++
      if chosen t.length then [c] else []) = c :: rest := by
    rcases Nat.lt_or_eq_of_le hle with hlt | rfl
    · rw [List.drop_eq_getElem_cons hlt, replaceEachFrom_cons, typeOver, hover, if_pos rfl]
      split
      · exact ⟨_, rfl⟩
      · exact ⟨_, rfl⟩
    · rw [List.drop_length, if_pos hover]
      exact ⟨_, rfl⟩
  rw [hsplit, hrest, charAt, placeAt, List.getElem?_append_right (Nat.le_refl _), Nat.sub_self]
  rfl

section Pairs

variable {t : Text} {stands : Nat → Bool} {offset : Nat}

theorem leads_eq (t : Text) (stands : Nat → Bool) (offset : Nat) : t.leads stands offset =
    (stands offset && stands (offset + 1) && t.overwritable offset && !t.follows stands offset) := by
  cases offset with
  | zero => rw [leads, follows, Bool.not_false, Bool.and_true]
  | succ offset => rw [leads, follows]

theorem leads_iff : t.leads stands offset = true ↔ stands offset = true ∧ stands (offset + 1) = true ∧
    t.overwritable offset = true ∧ t.follows stands offset = false := by
  rw [leads_eq, Bool.and_eq_true, Bool.and_eq_true, Bool.and_eq_true, Bool.not_eq_true', and_assoc,
    and_assoc]

/-- No caret that is drawn draws another. -/
theorem leads_of_follows (h : t.follows stands offset = true) : t.leads stands offset = false := by
  rw [leads_eq, h, Bool.not_true, Bool.and_false]

theorem follows_of_leads (h : ∀ other < offset, t.leads stands other = false) :
    t.follows stands offset = false := by
  cases offset with
  | zero => rfl
  | succ offset => exact h offset (Nat.lt_succ_self offset)

/-- There are no pairs just if no caret stands right behind one at a character that may be typed over. -/
theorem leads_eq_false_iff : (∀ offset, t.leads stands offset = false) ↔
    ∀ offset, stands offset = true → stands (offset + 1) = true → t.overwritable offset = false := by
  constructor
  · intro hnone offset hstands hnext
    refine Bool.eq_false_iff.mpr fun hover ↦ Bool.eq_false_iff.mp (hnone offset) ?_
    exact leads_iff.mpr ⟨hstands, hnext, hover, follows_of_leads fun other _ ↦ hnone other⟩
  · intro hfree offset
    refine Bool.eq_false_iff.mpr fun hleads ↦ ?_
    obtain ⟨hstands, hnext, hover, -⟩ := leads_iff.mp hleads
    cases hover.symm.trans (hfree offset hstands hnext)

theorem takesOver_eq_stands (h : t.follows stands offset = false) :
    t.takesOver stands offset = stands offset := by
  rw [takesOver, h, Bool.not_false, Bool.and_true]

/-- Without pairs the text is typed over at every caret, which ends behind its own. -/
theorem placeOver_of_free (h : ∀ offset, t.leads stands offset = false) (c : Char) :
    t.takesOver stands = stands ∧
      ∀ offset, t.placeOver stands c offset = t.placeAt (typeOver stands c) offset + 1 := by
  have hfollows (offset : Nat) : t.follows stands offset = false := follows_of_leads fun other _ ↦ h other
  have htakes : t.takesOver stands = stands := funext fun offset ↦ takesOver_eq_stands (hfollows offset)
  refine ⟨htakes, fun offset ↦ ?_⟩
  rw [placeOver, htakes, h, hfollows]
  rfl

/-- The first caret of the first pair does not. -/
theorem exists_placeOver_ne (h : t.leads stands offset = true) (c : Char) :
    ∃ first, stands first = true ∧
      t.placeOver stands c first ≠ t.placeAt (typeOver stands c) first + 1 := by
  have hexists : ∃ first, t.leads stands first = true := ⟨offset, h⟩
  let first := Nat.find hexists
  have hleads : t.leads stands first = true := Nat.find_spec hexists
  have hbefore (other : Nat) (hlt : other < first) : t.leads stands other = false :=
    Bool.eq_false_iff.mpr (Nat.find_min hexists hlt)
  have hsame : t.placeAt (typeOver (t.takesOver stands) c) first = t.placeAt (typeOver stands c) first := by
    refine placeAt_of_le (fun other hlt ↦ ?_) (Nat.le_refl first)
    have htakes : t.takesOver stands other = stands other :=
      takesOver_eq_stands (follows_of_leads fun earlier he ↦ hbefore earlier (he.trans hlt))
    unfold typeOver
    rw [htakes]
  refine ⟨first, (leads_iff.mp hleads).1, ?_⟩
  rw [placeOver, hleads, hsame]
  exact Nat.ne_of_lt (Nat.lt_succ_self _)

end Pairs

/-! ### From left to right -/

/-- What the text has become before an offset. A line feed behind it lets its end be an offset like the
others. -/
def typedUpTo (t : Text) (stands : Nat → Bool) (c : Char) (p : Nat) : Text :=
  replaceEach ((t ++ ['\n']).take p) (typeOver (t.takesOver stands) c)

section Prefixes

variable {t : Text} {stands : Nat → Bool} {c ch : Char} {p : Nat}

theorem overwritable_eq (h : (t ++ ['\n'])[p]? = some ch) : t.overwritable p = (ch != '\n') := by
  rcases Nat.lt_or_ge p t.length with hlt | hge
  · rw [List.getElem?_append_left hlt] at h
    rw [overwritable, charAt, h, Option.any_some]
  · rw [overwritable, charAt, List.getElem?_eq_none hge]
    rw [List.getElem?_append_right hge] at h
    rw [List.mem_singleton.mp (List.mem_of_getElem? h)]
    rfl

theorem typedUpTo_succ (stands : Nat → Bool) (c : Char) (h : (t ++ ['\n'])[p]? = some ch) :
    t.typedUpTo stands c (p + 1) = t.typedUpTo stands c p ++ typeOver (t.takesOver stands) c p ch := by
  have hspan : ((t ++ ['\n']).drop p).take (p + 1 - p) = [ch] := by
    obtain ⟨hlt, rfl⟩ := List.getElem?_eq_some_iff.mp h
    rw [Nat.add_sub_cancel_left, List.drop_eq_getElem_cons hlt, List.take_succ_cons, List.take_zero]
  rw [typedUpTo, replaceEach_take_eq_append (Nat.le_succ p), replaceEachIn, hspan]
  exact congrArg _ (List.append_nil _)

theorem length_typedUpTo (hle : p ≤ t.length) : (t.typedUpTo stands c p).length =
    t.placeAt (typeOver (t.takesOver stands) c) p := by
  rw [typedUpTo, List.take_append_of_le_length hle]
  rfl

/-- Of a pair the first caret types and the second one does not, and both end where they stood. -/
theorem typedUpTo_pair {next : Char} (hleads : t.leads stands p = true) (hch : (t ++ ['\n'])[p]? = some ch)
    (hnext : (t ++ ['\n'])[p + 1]? = some next) (hle : p + 1 ≤ t.length) :
    t.typedUpTo stands c (p + 2) = t.typedUpTo stands c p ++ [c, next] ∧
      t.placeOver stands c p = (t.typedUpTo stands c p).length ∧
      t.placeOver stands c (p + 1) = (t.typedUpTo stands c p).length + 1 := by
  obtain ⟨hstands, -, hover, hfollows⟩ := leads_iff.mp hleads
  rw [overwritable_eq hch] at hover
  have htakes : t.takesOver stands p = true := (takesOver_eq_stands hfollows).trans hstands
  have hkept : t.takesOver stands (p + 1) = false := by
    rw [takesOver, follows, hleads, Bool.not_true, Bool.and_false]
  have hfirst : t.typedUpTo stands c (p + 1) = t.typedUpTo stands c p ++ [c] := by
    rw [typedUpTo_succ stands c hch, typeOver, htakes, if_pos rfl, if_neg (bne_iff_ne.mp hover)]
  refine ⟨?_, ?_, ?_⟩
  · rw [typedUpTo_succ stands c hnext, hfirst, typeOver, hkept, if_neg Bool.false_ne_true,
      List.append_assoc]
    rfl
  · rw [placeOver, hleads, length_typedUpTo (Nat.le_of_succ_le hle)]
    rfl
  · rw [placeOver, follows, hleads, Bool.or_true, if_pos rfl, Nat.add_zero, ← length_typedUpTo hle, hfirst,
      List.length_append, List.length_singleton]

theorem typedUpTo_end (t : Text) (stands : Nat → Bool) (c : Char) :
    t.typedUpTo stands c (t.length + 1) = t.typedOver (t.takesOver stands) c ++ ['\n'] := by
  have hend : (t ++ ['\n'])[t.length]? = some '\n' := by
    rw [List.getElem?_append_right (Nat.le_refl _), Nat.sub_self]
    rfl
  rw [typedUpTo_succ stands c hend, typedUpTo, List.take_left, typedOver, typeOver, List.append_assoc]
  split <;> rfl

end Prefixes

end Text

namespace EditState

/-! ### One caret -/

/-- A caret is at a place, and the others are where a function of offsets takes them. -/
structure Moved (caret : CaretId) (place : Nat) (f : Nat → Nat) (s t : EditState) : Prop where
  anchored : t.Anchored
  ids : t.editor.caretIds = s.editor.caretIds
  self : t.caretOffset? caret = some place
  others : ∀ other ≠ caret, t.caretOffset? other = (s.caretOffset? other).map f

/-- Where what stood at a place is when the character at an offset has made room for another. -/
def drawnTo (offset place : Nat) : Nat := if place = offset + 1 then offset else place

theorem drawnTo_of_ne {offset place : Nat} (h : place ≠ offset + 1) : drawnTo offset place = place := if_neg h

section Visit

variable {s : EditState} {caret : CaretId} {offset place : Nat} {c : Char}

/-- A caret that is moved when the editor has been edited. -/
theorem Moved.of_edited {e : Editor} {f : Nat → Nat} (h : s.Anchored) (he : e.Anchored)
    (hids : e.caretIds = s.editor.caretIds) (hmem : caret ∈ s.editor.caretIds)
    (hle : place ≤ e.text.length)
    (hshift : ∀ other, e.caretOffset? other = (s.caretOffset? other).map f) :
    ({ s with editor := e }.moveCaret caret place).text = e.text ∧
      Moved caret place f s ({ s with editor := e }.moveCaret caret place) := by
  have hedited : EditState.Anchored { s with editor := e } := ⟨he, h.carets⟩
  have htouches := moveCaret_touches hedited caret place
  refine ⟨htouches.text, htouches.anchored, htouches.ids.trans hids, ?_, fun other hne ↦ ?_⟩
  · refine (he.caretOffset?_moveCaret (hids ▸ hmem) place).trans ?_
    rw [Nat.min_eq_left hle]
  · exact (congrArg CaretView.offset? (htouches.others other hne)).trans (hshift other)

variable (h : s.Anchored) (hmem : caret ∈ s.editor.caretIds) (hstands : s.caretOffset? caret = some offset)
include h hmem hstands

/-- Before a line feed and at the end the character goes in. -/
theorem Moved.insert (hfree : s.text.overwritable offset = false) :
    (s.overwriteAt c caret).text = s.text.take offset ++ c :: s.text.drop offset ∧
      Moved caret (offset + 1) (MarkSet.offsetAfterInsert offset 1) s (s.overwriteAt c caret) := by
  have hle : offset ≤ s.editor.text.length := h.editor.caretOffset?_le hstands
  have hfree : ((s.text.charAt offset).any (· != '\n')) = false := hfree
  have hvisit : s.overwriteAt c caret =
      { s with editor := s.editor.insertText offset [c] }.moveCaret caret (offset + 1) := by
    rw [overwriteAt, hstands]
    dsimp only
    rw [hfree, Bool.and_false, if_neg Bool.false_ne_true]
  have hlength : offset + 1 ≤ (s.editor.insertText offset [c]).text.length := by
    show _ ≤ (s.editor.text.take offset ++ [c] ++ s.editor.text.drop offset).length
    simp only [List.length_append, List.length_take, List.length_drop, List.length_singleton]
    omega
  rw [hvisit]
  obtain ⟨htext, hmoved⟩ := Moved.of_edited h (h.editor.insertText offset [c]) rfl hmem hlength fun other ↦ by
    rw [s.editor.caretOffset?_insertText, Nat.min_eq_left hle]
    rfl
  refine ⟨htext.trans ?_, hmoved⟩
  show s.editor.text.take offset ++ [c] ++ s.editor.text.drop offset = _
  rw [List.append_assoc]
  rfl

/-- Elsewhere the one there makes room for it, so that a caret right behind is drawn to it. -/
theorem Moved.overwrite (hc : c ≠ '\n') (hover : s.text.overwritable offset = true) :
    (s.overwriteAt c caret).text = s.text.take offset ++ c :: s.text.drop (offset + 1) ∧
      Moved caret (offset + 1) (drawnTo offset) s
        (s.overwriteAt c caret) := by
  have hover : ((s.text.charAt offset).any (· != '\n')) = true := hover
  have hlt : offset + 1 ≤ s.editor.text.length := by
    obtain ⟨ch, hch, -⟩ := (Option.any_eq_true _ _).mp hover
    exact Text.lt_length_of_charAt hch
  let e : Editor := (s.editor.eraseRange offset (offset + 1)).2
  have herased : e.text = s.text.take offset ++ s.text.drop (offset + 1) := by
    show s.text.erase offset (offset + 1) = _
    rw [Text.erase, Nat.min_eq_left (Nat.le_succ offset), Nat.max_eq_right (Nat.le_succ offset)]
  have hlength : offset ≤ e.text.length := by
    rw [herased, List.length_append, List.length_take, List.length_drop]
    show offset ≤ min offset s.editor.text.length + (s.editor.text.length - (offset + 1))
    omega
  have hvisit : s.overwriteAt c caret = { s with editor := e.insertText offset [c] }.moveCaret caret
      (offset + 1) := by
    rw [overwriteAt, hstands]
    dsimp only
    rw [hover, bne_iff_ne.mpr hc, Bool.and_self, if_pos rfl]
  have hinserted : (e.insertText offset [c]).text = s.text.take offset ++ c :: s.text.drop (offset + 1) := by
    have hfront : (s.text.take offset).length = offset := List.length_take_of_le (Nat.le_of_lt hlt)
    show e.text.take offset ++ [c] ++ e.text.drop offset = _
    rw [herased, List.take_left' hfront, List.drop_left' hfront, List.append_assoc]
    rfl
  have hroom : offset + 1 ≤ (e.insertText offset [c]).text.length := by
    rw [hinserted, List.length_append, List.length_cons, List.length_take]
    show _ ≤ min offset s.editor.text.length + _
    omega
  have hshift (other : CaretId) : (e.insertText offset [c]).caretOffset? other =
      (s.caretOffset? other).map (drawnTo offset) := by
    rw [e.caretOffset?_insertText, s.editor.caretOffset?_eraseRange, Option.map_map,
      Nat.min_eq_left (Nat.le_succ offset), Nat.max_eq_right (Nat.le_succ offset), Nat.min_eq_left hlt,
      Nat.min_eq_left (Nat.le_of_lt hlt), Nat.min_eq_left hlength]
    refine congrArg (Option.map · (s.caretOffset? other)) (funext fun place ↦ ?_)
    simp only [Function.comp_apply, drawnTo, MarkSet.offsetAfterErase, MarkSet.offsetAfterInsert,
      List.length_singleton]
    split_ifs <;> omega
  obtain ⟨htext, hmoved⟩ := Moved.of_edited h
    ((h.editor.eraseRange offset (offset + 1)).insertText offset [c]) rfl hmem hroom hshift
  rw [hvisit]
  exact ⟨htext.trans hinserted, hmoved⟩

section Sealed

variable {front rest : Text} {ch : Char} (hlength : offset = front.length)
  (htext : s.text ++ ['\n'] = front ++ ch :: rest)
include hlength htext

omit hmem in
/-- With a line feed behind the text there is always a character at the caret. -/
theorem parts_at_caret : s.text.overwritable offset = (ch != '\n') ∧ s.text.take offset = front ∧
    s.text.drop offset ++ ['\n'] = ch :: rest := by
  have hle : offset ≤ s.text.length := h.editor.caretOffset?_le hstands
  refine ⟨Text.overwritable_eq ?_, ?_, ?_⟩
  · rw [htext, hlength, List.getElem?_append_right (Nat.le_refl _), Nat.sub_self]
    rfl
  · rw [← List.take_append_of_le_length hle, htext, List.take_left' hlength.symm]
  · rw [← List.drop_append_of_le_length hle, htext, List.drop_left' hlength.symm]

theorem Moved.at_feed (hch : ch = '\n') :
    (s.overwriteAt c caret).text ++ ['\n'] = front ++ c :: ch :: rest ∧
      Moved caret (offset + 1) (MarkSet.offsetAfterInsert offset 1) s (s.overwriteAt c caret) := by
  obtain ⟨hover, hfront, hbehind⟩ := parts_at_caret h hstands hlength htext
  rw [hch, bne_self_eq_false] at hover
  obtain ⟨hafter, hmoved⟩ := Moved.insert (c := c) h hmem hstands hover
  refine ⟨?_, hmoved⟩
  rw [hafter, hfront, List.append_assoc, List.cons_append, hbehind]

theorem Moved.at_other (hc : c ≠ '\n') (hch : ch ≠ '\n') :
    (s.overwriteAt c caret).text ++ ['\n'] = front ++ c :: rest ∧
      Moved caret (offset + 1) (drawnTo offset) s
        (s.overwriteAt c caret) := by
  obtain ⟨hover, hfront, hbehind⟩ := parts_at_caret h hstands hlength htext
  rw [bne_iff_ne.mpr hch] at hover
  obtain ⟨hafter, hmoved⟩ := Moved.overwrite h hmem hstands hc hover
  refine ⟨?_, hmoved⟩
  have hrest : s.text.drop (offset + 1) ++ ['\n'] = rest := by
    rw [← List.drop_drop, ← List.drop_append_of_le_length, hbehind]
    · rfl
    · obtain ⟨old, hold, -⟩ := (Option.any_eq_true _ _).mp hover
      have hlt := Text.lt_length_of_charAt hold
      rw [List.length_drop]
      omega
  rw [hafter, hfront, List.append_assoc, List.cons_append, hrest]

/-- The caret right behind is drawn, types over the character that was just typed, and draws the first one
back. -/
theorem Moved.at_pair {second : CaretId} (hmemsecond : second ∈ s.editor.caretIds) (hne : second ≠ caret)
    (hsecond : s.caretOffset? second = some (offset + 1)) (hc : c ≠ '\n') (hch : ch ≠ '\n') :
    ((s.overwriteAt c caret).overwriteAt c second).text ++ ['\n'] = front ++ c :: rest ∧
      ((s.overwriteAt c caret).overwriteAt c second).caretOffset? caret = some offset ∧
      Moved caret (offset + 1) (drawnTo offset) s (s.overwriteAt c caret) ∧
      Moved second (offset + 1) (drawnTo offset) (s.overwriteAt c caret)
        ((s.overwriteAt c caret).overwriteAt c second) := by
  obtain ⟨hafter, hmoved⟩ := Moved.at_other h hmem hstands hlength htext hc hch
  have hdrawn : (s.overwriteAt c caret).caretOffset? second = some offset := by
    rw [hmoved.others second hne, hsecond, Option.map_some, drawnTo, if_pos rfl]
  obtain ⟨hafter', hmoved'⟩ := Moved.at_other hmoved.anchored (hmoved.ids.symm ▸ hmemsecond) hdrawn hlength
    hafter hc hc
  have hback : ((s.overwriteAt c caret).overwriteAt c second).caretOffset? caret = some offset := by
    rw [hmoved'.others caret hne.symm, hmoved.self, Option.map_some, drawnTo, if_pos rfl]
  exact ⟨hafter', hback, hmoved, hmoved'⟩

end Sealed

end Visit

/-! ### All carets -/

/-- The carets that stand from an offset on, in their order. -/
structure Waiting (offset : CaretId → Nat) (stands : Nat → Bool) (p : Nat) (visits : List CaretId) :
    Prop where
  sorted : visits.Pairwise fun first second ↦ offset first < offset second
  from_le : ∀ caret ∈ visits, p ≤ offset caret
  stands_iff : ∀ place, p ≤ place → (stands place = true ↔ ∃ caret ∈ visits, offset caret = place)

namespace Waiting

variable {offset : CaretId → Nat} {stands : Nat → Bool} {p : Nat} {visits : List CaretId} {caret : CaretId}

theorem pass (h : Waiting offset stands p visits) (hnone : stands p = false) :
    Waiting offset stands (p + 1) visits where
  sorted := h.sorted
  from_le caret hcaret := by
    refine Nat.lt_of_le_of_ne (h.from_le caret hcaret) fun heq ↦ ?_
    cases hnone.symm.trans ((h.stands_iff p (Nat.le_refl p)).mpr ⟨caret, hcaret, heq.symm⟩)
  stands_iff place hle := h.stands_iff place (Nat.le_of_succ_le hle)

theorem exists_head (h : Waiting offset stands p visits) (hstands : stands p = true) :
    ∃ caret rest, visits = caret :: rest ∧ offset caret = p := by
  obtain ⟨caret, hcaret, hat⟩ := (h.stands_iff p (Nat.le_refl p)).mp hstands
  cases hvisits : visits with
  | nil => rw [hvisits] at hcaret; cases hcaret
  | cons first rest =>
    refine ⟨first, rest, rfl, ?_⟩
    rw [hvisits] at h hcaret
    rcases List.mem_cons.mp hcaret with rfl | hrest
    · exact hat
    · have hlt := (List.pairwise_cons.mp h.sorted).1 caret hrest
      have hle := h.from_le first List.mem_cons_self
      omega

theorem next (h : Waiting offset stands p (caret :: visits)) (hat : offset caret = p) :
    Waiting offset stands (p + 1) visits where
  sorted := (List.pairwise_cons.mp h.sorted).2
  from_le other hother := hat ▸ (List.pairwise_cons.mp h.sorted).1 other hother
  stands_iff place hle := by
    rw [h.stands_iff place (Nat.le_of_succ_le hle)]
    constructor
    · rintro ⟨other, hother, rfl⟩
      rcases List.mem_cons.mp hother with rfl | hrest
      · omega
      · exact ⟨other, hrest, rfl⟩
    · rintro ⟨other, hother, rfl⟩
      exact ⟨other, List.mem_cons_of_mem _ hother, rfl⟩

theorem notMem (h : Waiting offset stands p (caret :: visits)) : caret ∉ visits := fun hmem ↦
  Nat.lt_irrefl _ ((List.pairwise_cons.mp h.sorted).1 caret hmem)

end Waiting

/-- The text is typed over up to an offset, where no caret is drawn back, and the carets that stood before
it are where they end. -/
structure Overwriting (t : Text) (offset : CaretId → Nat) (stands : Nat → Bool) (c : Char) (p : Nat)
    (visits : List CaretId) (s : EditState) : Prop where
  anchored : s.Anchored
  waiting : Waiting offset stands p visits
  visits_mem : ∀ caret ∈ visits, caret ∈ s.editor.caretIds
  follows : t.follows stands p = false
  text : s.text ++ ['\n'] = t.typedUpTo stands c p ++ (t ++ ['\n']).drop p
  ahead : ∀ caret ∈ visits,
    s.caretOffset? caret = some ((t.typedUpTo stands c p).length + (offset caret - p))
  behind : ∀ caret ∈ s.editor.caretIds, caret ∉ visits →
    s.caretOffset? caret = some (t.placeOver stands c (offset caret)) ∧
      t.placeOver stands c (offset caret) ≤ (t.typedUpTo stands c p).length

namespace Overwriting

variable {t : Text} {offset : CaretId → Nat} {stands : Nat → Bool} {c ch : Char} {p : Nat}
  {visits : List CaretId} {caret : CaretId} {s : EditState}

/-- Where no caret stands the text stays. -/
theorem pass (h : Overwriting t offset stands c p visits s) (hch : (t ++ ['\n'])[p]? = some ch)
    (hnone : stands p = false) : Overwriting t offset stands c (p + 1) visits s := by
  have hup : t.typedUpTo stands c (p + 1) = t.typedUpTo stands c p ++ [ch] := by
    rw [Text.typedUpTo_succ stands c hch, Text.typeOver, Text.takesOver, hnone, Bool.false_and,
      if_neg Bool.false_ne_true]
  have hlength : (t.typedUpTo stands c (p + 1)).length = (t.typedUpTo stands c p).length + 1 := by
    rw [hup, List.length_append, List.length_singleton]
  have hdrop : (t ++ ['\n']).drop p = ch :: (t ++ ['\n']).drop (p + 1) := Text.drop_of_charAt hch
  refine ⟨h.anchored, h.waiting.pass hnone, h.visits_mem, ?_, ?_, fun caret hcaret ↦ ?_,
    fun caret hcaret hdone ↦ ?_⟩
  · rw [Text.follows, Text.leads_eq, hnone, Bool.false_and, Bool.false_and, Bool.false_and]
  · rw [h.text, hup, hdrop, List.append_assoc]
    rfl
  · have hle := (h.waiting.pass hnone).from_le caret hcaret
    rw [h.ahead caret hcaret, hlength]
    congr 1
    omega
  · obtain ⟨hplace, hle⟩ := h.behind caret hcaret hdone
    exact ⟨hplace, by omega⟩

/-- The first of the carets that wait stands at the end of what has been typed over. -/
theorem stands_at (h : Overwriting t offset stands c p (caret :: visits) s) (hat : offset caret = p) :
    s.caretOffset? caret = some (t.typedUpTo stands c p).length := by
  rw [h.ahead caret List.mem_cons_self, hat, Nat.sub_self, Nat.add_zero]

theorem text_at (h : Overwriting t offset stands c p visits s) (hch : (t ++ ['\n'])[p]? = some ch) :
    s.text ++ ['\n'] = t.typedUpTo stands c p ++ ch :: (t ++ ['\n']).drop (p + 1) := by
  rw [h.text, Text.drop_of_charAt hch]

theorem takesOver_at (h : Overwriting t offset stands c p (caret :: visits) s) (hat : offset caret = p) :
    t.takesOver stands p = true := by
  rw [Text.takesOver_eq_stands h.follows]
  exact (h.waiting.stands_iff p (Nat.le_refl p)).mpr ⟨caret, List.mem_cons_self, hat⟩

theorem offset_le (h : Overwriting t offset stands c p visits s) (hcaret : caret ∈ visits) :
    offset caret ≤ t.length := by
  have hwithin : _ ≤ s.text.length := h.anchored.editor.caretOffset?_le (h.ahead caret hcaret)
  have hfrom := h.waiting.from_le caret hcaret
  have hlength := congrArg List.length h.text
  simp only [List.length_append, List.length_drop, List.length_singleton] at hlength
  omega

/-- The next carets have taken their places, and what stood behind them has moved along. -/
theorem advance {u : EditState} (taken : List CaretId) {q : Nat} {f : Nat → Nat}
    (h : Overwriting t offset stands c p (taken ++ visits) s) (hanchored : u.Anchored)
    (hids : u.editor.caretIds = s.editor.caretIds) (hwaiting : Waiting offset stands q visits)
    (hfollows : t.follows stands q = false)
    (htext : u.text ++ ['\n'] = t.typedUpTo stands c q ++ (t ++ ['\n']).drop q)
    (hgrows : (t.typedUpTo stands c p).length ≤ (t.typedUpTo stands c q).length)
    (htaken : ∀ caret ∈ taken, u.caretOffset? caret = some (t.placeOver stands c (offset caret)) ∧
      t.placeOver stands c (offset caret) ≤ (t.typedUpTo stands c q).length)
    (hothers : ∀ caret ∉ taken, u.caretOffset? caret = (s.caretOffset? caret).map f)
    (hfixed : ∀ place ≤ (t.typedUpTo stands c p).length, f place = place)
    (hahead : ∀ caret ∈ visits, f ((t.typedUpTo stands c p).length + (offset caret - p)) =
      (t.typedUpTo stands c q).length + (offset caret - q)) :
    Overwriting t offset stands c q visits u where
  anchored := hanchored
  waiting := hwaiting
  visits_mem caret hcaret := hids ▸ h.visits_mem caret (List.mem_append_right _ hcaret)
  follows := hfollows
  text := htext
  ahead caret hcaret := by
    have hnot : caret ∉ taken := fun hmem ↦
      Nat.lt_irrefl _ ((List.pairwise_append.mp h.waiting.sorted).2.2 caret hmem caret hcaret)
    rw [hothers caret hnot, h.ahead caret (List.mem_append_right _ hcaret), Option.map_some,
      hahead caret hcaret]
  behind caret hcaret hdone := by
    by_cases hmem : caret ∈ taken
    · exact htaken caret hmem
    · obtain ⟨hbefore, hend⟩ := h.behind caret (hids ▸ hcaret) fun hvisit ↦
        (List.mem_append.mp hvisit).elim hmem hdone
      rw [hothers caret hmem, hbefore, Option.map_some, hfixed _ hend]
      exact ⟨rfl, Nat.le_trans hend hgrows⟩

/-- Before a line feed a caret lets the character in. -/
theorem visit_feed (h : Overwriting t offset stands c p (caret :: visits) s)
    (hch : (t ++ ['\n'])[p]? = some ch) (hat : offset caret = p) (hfeed : ch = '\n') :
    Overwriting t offset stands c (p + 1) visits (s.overwriteAt c caret) := by
  have hwaiting := h.waiting.next hat
  have hle : p ≤ t.length := hat ▸ h.offset_le List.mem_cons_self
  have hfree : t.leads stands p = false := by
    rw [Text.leads_eq, Text.overwritable_eq hch, hfeed, bne_self_eq_false, Bool.and_false, Bool.false_and]
  obtain ⟨htext, hmoved⟩ := Moved.at_feed (c := c) h.anchored (h.visits_mem caret List.mem_cons_self)
    (h.stands_at hat) rfl (h.text_at hch) hfeed
  have hup : t.typedUpTo stands c (p + 1) = t.typedUpTo stands c p ++ [c, ch] := by
    rw [Text.typedUpTo_succ stands c hch, Text.typeOver, h.takesOver_at hat, if_pos rfl, if_pos hfeed]
  have hlength : (t.typedUpTo stands c (p + 1)).length = (t.typedUpTo stands c p).length + 2 := by
    rw [hup, List.length_append, List.length_cons, List.length_singleton]
  have hplace : t.placeOver stands c p = (t.typedUpTo stands c p).length + 1 := by
    rw [Text.placeOver, hfree, h.follows, Text.length_typedUpTo hle]
    rfl
  refine h.advance [caret] hmoved.anchored hmoved.ids hwaiting hfree ?_ (by omega)
    (List.forall_mem_singleton.mpr ?_)
    (fun other hother ↦ hmoved.others other (List.ne_of_not_mem_cons hother))
    (fun place hplace ↦ ?_) (fun other hother ↦ ?_)
  · rw [htext, hup, List.append_assoc]
    rfl
  · rw [hat, hplace]
    exact ⟨hmoved.self, by omega⟩
  · rw [MarkSet.offsetAfterInsert, if_neg (by omega)]
  · have hlater := hwaiting.from_le other hother
    rw [MarkSet.offsetAfterInsert, if_pos (by omega), hlength]
    omega

/-- Over another character a caret types, and draws no other. -/
theorem visit_other (h : Overwriting t offset stands c p (caret :: visits) s) (hc : c ≠ '\n')
    (hch : (t ++ ['\n'])[p]? = some ch) (hat : offset caret = p) (hfeed : ch ≠ '\n')
    (hfree : t.leads stands p = false) :
    Overwriting t offset stands c (p + 1) visits (s.overwriteAt c caret) := by
  have hwaiting := h.waiting.next hat
  have hle : p ≤ t.length := hat ▸ h.offset_le List.mem_cons_self
  obtain ⟨htext, hmoved⟩ := Moved.at_other h.anchored (h.visits_mem caret List.mem_cons_self)
    (h.stands_at hat) rfl (h.text_at hch) hc hfeed
  have hup : t.typedUpTo stands c (p + 1) = t.typedUpTo stands c p ++ [c] := by
    rw [Text.typedUpTo_succ stands c hch, Text.typeOver, h.takesOver_at hat, if_pos rfl, if_neg hfeed]
  have hlength : (t.typedUpTo stands c (p + 1)).length = (t.typedUpTo stands c p).length + 1 := by
    rw [hup, List.length_append, List.length_singleton]
  have hplace : t.placeOver stands c p = (t.typedUpTo stands c p).length + 1 := by
    rw [Text.placeOver, hfree, h.follows, Text.length_typedUpTo hle]
    rfl
  have hlater : ∀ other ∈ visits, p + 1 < offset other := fun other hother ↦ by
    refine Nat.lt_of_le_of_ne (hwaiting.from_le other hother) fun heq ↦ ?_
    refine Bool.eq_false_iff.mp hfree (Text.leads_iff.mpr ⟨?_, ?_, ?_, h.follows⟩)
    · exact (h.waiting.stands_iff p (Nat.le_refl p)).mpr ⟨caret, List.mem_cons_self, hat⟩
    · exact (hwaiting.stands_iff (p + 1) (Nat.le_refl _)).mpr ⟨other, hother, heq.symm⟩
    · rw [Text.overwritable_eq hch]
      exact bne_iff_ne.mpr hfeed
  refine h.advance [caret] hmoved.anchored hmoved.ids hwaiting hfree ?_ (by omega)
    (List.forall_mem_singleton.mpr ?_)
    (fun other hother ↦ hmoved.others other (List.ne_of_not_mem_cons hother))
    (fun place hplace ↦ drawnTo_of_ne (by omega)) (fun other hother ↦ ?_)
  · rw [htext, hup, List.append_assoc]
    rfl
  · rw [hat, hplace]
    exact ⟨hmoved.self, by omega⟩
  · have hlater := hlater other hother
    rw [drawnTo_of_ne (by omega), hlength]
    omega

/-- A caret that draws the one behind it is drawn back by that, which leaves both where they were. -/
theorem visit_pair {second : CaretId} (h : Overwriting t offset stands c p (caret :: second :: visits) s)
    (hc : c ≠ '\n') (hch : (t ++ ['\n'])[p]? = some ch) (hat : offset caret = p)
    (hsecond : offset second = p + 1) (hleads : t.leads stands p = true) :
    Overwriting t offset stands c (p + 2) visits ((s.overwriteAt c caret).overwriteAt c second) := by
  have hwaiting := (h.waiting.next hat).next hsecond
  obtain ⟨hmem, hmemrest⟩ := List.forall_mem_cons.mp h.visits_mem
  obtain ⟨hmemsecond, -⟩ := List.forall_mem_cons.mp hmemrest
  have hne : second ≠ caret := fun heq ↦ h.waiting.notMem (heq ▸ List.mem_cons_self)
  have hle : p + 1 ≤ t.length := hsecond ▸ h.offset_le (List.mem_cons_of_mem _ List.mem_cons_self)
  have hfeed : ch ≠ '\n' := by
    have hover := (Text.leads_iff.mp hleads).2.2.1
    rw [Text.overwritable_eq hch] at hover
    exact bne_iff_ne.mp hover
  obtain ⟨next, hnext⟩ : ∃ next, (t ++ ['\n'])[p + 1]? = some next :=
    ⟨_, List.getElem?_eq_getElem (by rw [List.length_append, List.length_singleton]; omega)⟩
  have hahead : s.caretOffset? second = some ((t.typedUpTo stands c p).length + 1) := by
    rw [h.ahead second (List.mem_cons_of_mem _ List.mem_cons_self), hsecond, Nat.add_sub_cancel_left]
  obtain ⟨htext, hback, hmoved, hmoved'⟩ := Moved.at_pair h.anchored hmem (h.stands_at hat) rfl
    (h.text_at hch) hmemsecond hne hahead hc hfeed
  obtain ⟨hup, hfirstplace, hsecondplace⟩ := Text.typedUpTo_pair (c := c) hleads hch hnext hle
  have hlength : (t.typedUpTo stands c (p + 2)).length = (t.typedUpTo stands c p).length + 2 := by
    rw [hup, List.length_append, List.length_cons, List.length_singleton]
  have hothers (other : CaretId) (hother : other ∉ [caret, second]) :
      ((s.overwriteAt c caret).overwriteAt c second).caretOffset? other =
        (s.caretOffset? other).map
          (drawnTo (t.typedUpTo stands c p).length ∘ drawnTo (t.typedUpTo stands c p).length) := by
    rw [hmoved'.others other (List.ne_of_not_mem_cons (List.not_mem_of_not_mem_cons hother)),
      hmoved.others other (List.ne_of_not_mem_cons hother), Option.map_map]
  refine h.advance [caret, second] hmoved'.anchored (hmoved'.ids.trans hmoved.ids) hwaiting
    (Text.leads_of_follows hleads) ?_ (by omega)
    (List.forall_mem_cons.mpr ⟨?_, List.forall_mem_singleton.mpr ?_⟩)
    hothers (fun place hplace ↦ ?_) (fun other hother ↦ ?_)
  · rw [htext, hup, List.append_assoc, Text.drop_of_charAt hnext]
    rfl
  · rw [hat, hfirstplace]
    exact ⟨hback, by omega⟩
  · rw [hsecond, hsecondplace]
    exact ⟨hmoved'.self, by omega⟩
  · have hplace : drawnTo (t.typedUpTo stands c p).length place = place := drawnTo_of_ne (by omega)
    rw [Function.comp_apply, hplace, hplace]
  · have hfar := hwaiting.from_le other hother
    have hplace (further : Nat) (h : 1 < further) : drawnTo (t.typedUpTo stands c p).length
        ((t.typedUpTo stands c p).length + further) = (t.typedUpTo stands c p).length + further :=
      drawnTo_of_ne (by omega)
    rw [Function.comp_apply, hplace _ (by omega), hplace _ (by omega), hlength]
    omega

/-- One visit after the other the whole text is typed over. -/
theorem run (h : Overwriting t offset stands c p visits s) (hc : c ≠ '\n') (hle : p ≤ t.length + 1) :
    Overwriting t offset stands c (t.length + 1) []
      (visits.foldl (fun s caret ↦ s.overwriteAt c caret) s) := by
  obtain ⟨n, hn⟩ : ∃ n, t.length + 1 - p = n := ⟨_, rfl⟩
  induction n using Nat.strongRecOn generalizing p visits s with
  | ind n ih =>
    rcases Nat.lt_or_ge t.length p with hend | hwithin
    · obtain rfl : p = t.length + 1 := by omega
      have hnone : visits = [] := List.eq_nil_iff_forall_not_mem.mpr fun caret hcaret ↦ by
        have := h.waiting.from_le caret hcaret
        have := h.offset_le hcaret
        omega
      rw [hnone] at h ⊢
      exact h
    obtain ⟨ch, hch⟩ : ∃ ch, (t ++ ['\n'])[p]? = some ch :=
      ⟨_, List.getElem?_eq_getElem (by rw [List.length_append, List.length_singleton]; omega)⟩
    cases hstands : stands p with
    | false => exact ih _ (by omega) (h.pass hch hstands) (by omega) rfl
    | true =>
      obtain ⟨caret, rest, rfl, hat⟩ := h.waiting.exists_head hstands
      rw [List.foldl_cons]
      cases hleads : t.leads stands p with
      | false =>
        by_cases hfeed : ch = '\n'
        · exact ih _ (by omega) (h.visit_feed hch hat hfeed) (by omega) rfl
        · exact ih _ (by omega) (h.visit_other hc hch hat hfeed hleads) (by omega) rfl
      | true =>
        have hnext := (Text.leads_iff.mp hleads).2.1
        obtain ⟨second, rest, rfl, hsecond⟩ := (h.waiting.next hat).exists_head hnext
        have hlast := h.offset_le (List.mem_cons_of_mem _ List.mem_cons_self)
        rw [List.foldl_cons]
        exact ih (t.length + 1 - (p + 2)) (by omega) (h.visit_pair hc hch hat hsecond hleads) (by omega) rfl

end Overwriting

/-- Whether a caret stands at a place. -/
def standsAt (s : EditState) (place : Nat) : Bool :=
  s.editor.caretIds.any fun caret ↦ s.caretOffset? caret == some place

/-- No two carets stand at one place. -/
def Apart (s : EditState) : Prop := ∀ first ∈ s.editor.caretIds, ∀ second ∈ s.editor.caretIds,
  s.caretOffset? first = s.caretOffset? second → first = second

section All

variable {s : EditState} {c : Char}

theorem orderedByOffset_sorted (h : s.Anchored) {offset : CaretId → Nat}
    (hoffset : ∀ caret ∈ s.editor.caretIds, s.caretOffset? caret = some (offset caret)) :
    s.syncCarets.carets.orderedByOffset.Pairwise fun first second ↦ offset first ≤ offset second := by
  have hknown : ∀ entry ∈ s.syncCarets.carets.entries, entry.2.offset = offset entry.1 := by
    intro entry hentry
    have hlive : (entry.1, entry.2.offset) ∈ s.liveCarets :=
      (CaretTable.sync_perm h.carets (liveCarets_nodup h.editor)).subset
        (List.mem_map.mpr ⟨entry, hentry, rfl⟩)
    obtain ⟨caret, hcaret, hat⟩ := List.mem_filterMap.mp hlive
    rw [hoffset caret hcaret] at hat
    obtain ⟨rfl, hsame⟩ := Prod.mk.inj (Option.some.inj hat)
    exact hsame.symm
  rw [CaretTable.orderedByOffset, List.pairwise_map]
  refine (List.pairwise_mergeSort ?_ ?_ _).imp_of_mem fun hfirst hsecond hle ↦ ?_
  · intro a b c hab hbc
    exact decide_eq_true ((of_decide_eq_true hab).trans (of_decide_eq_true hbc))
  · intro a b
    rw [Bool.or_eq_true, decide_eq_true_eq, decide_eq_true_eq]
    exact Nat.le_total _ _
  · rw [← hknown _ (List.mem_mergeSort.mp hfirst), ← hknown _ (List.mem_mergeSort.mp hsecond)]
    exact of_decide_eq_true hle

theorem overwriteAt_caretIds (s : EditState) (c : Char) (caret : CaretId) :
    (s.overwriteAt c caret).editor.caretIds = s.editor.caretIds := by
  rw [overwriteAt]
  split
  · rfl
  · exact (congrArg (List.map Prod.fst) (Editor.moveCaret_carets _ caret _)).trans
      (by dsimp only; split <;> rfl)

theorem foldl_overwriteAt_caretIds (s : EditState) (c : Char) (visits : List CaretId) :
    (visits.foldl (fun s caret ↦ s.overwriteAt c caret) s).editor.caretIds = s.editor.caretIds :=
  List.foldlRecOn (motive := fun t : EditState ↦ t.editor.caretIds = s.editor.caretIds) visits _ rfl
    fun t ht caret _ ↦ (t.overwriteAt_caretIds c caret).trans ht

/-- At the start all carets wait. -/
theorem overwriting_start (h : s.Anchored) (hapart : s.Apart) {offset : CaretId → Nat} (c : Char)
    (hoffset : ∀ caret ∈ s.editor.caretIds, s.caretOffset? caret = some (offset caret)) :
    Overwriting s.text offset s.standsAt c 0 s.syncCarets.carets.orderedByOffset s.syncCarets := by
  have hperm := orderedByOffset_perm h
  have hnodup := hperm.nodup_iff.mpr h.editor.distinct
  have hstrict : s.syncCarets.carets.orderedByOffset.Pairwise fun first second ↦
      offset first < offset second := by
    refine ((orderedByOffset_sorted h hoffset).and hnodup).imp_of_mem fun hfirst hsecond hboth ↦ ?_
    refine Nat.lt_of_le_of_ne hboth.1 fun heq ↦ hboth.2 ?_
    refine hapart _ (hperm.subset hfirst) _ (hperm.subset hsecond) ?_
    rw [hoffset _ (hperm.subset hfirst), hoffset _ (hperm.subset hsecond), heq]
  have hwaiting : Waiting offset s.standsAt 0 s.syncCarets.carets.orderedByOffset := by
    refine ⟨hstrict, fun caret _ ↦ Nat.zero_le _, fun place _ ↦ ?_⟩
    rw [standsAt, List.any_eq_true]
    constructor
    · rintro ⟨caret, hcaret, hat⟩
      rw [hoffset caret hcaret, beq_iff_eq] at hat
      exact ⟨caret, hperm.symm.subset hcaret, Option.some.inj hat⟩
    · rintro ⟨caret, hcaret, hat⟩
      refine ⟨caret, hperm.subset hcaret, ?_⟩
      rw [hoffset caret (hperm.subset hcaret), hat, beq_self_eq_true]
  refine ⟨h.syncCarets, hwaiting, fun caret hcaret ↦ hperm.subset hcaret, rfl, rfl, fun caret hcaret ↦ ?_,
    fun caret hcaret hdone ↦ absurd (hperm.symm.subset hcaret) hdone⟩
  rw [Nat.sub_zero, show (s.text.typedUpTo s.standsAt c 0).length = 0 from rfl, Nat.zero_add]
  exact hoffset caret (hperm.subset hcaret)

/-- All carets type over their places, but for the second ones of the pairs. -/
theorem forCarets_overwriteAt (h : s.Anchored) (hapart : s.Apart) (hc : c ≠ '\n') :
    (s.forCarets (overwriteAt c)).text = s.text.typedOver (s.text.takesOver s.standsAt) c ∧
      ∀ caret place, s.caretOffset? caret = some place →
        (s.forCarets (overwriteAt c)).caretOffset? caret =
          some (s.text.placeOver s.standsAt c place) := by
  have hoffset : ∀ caret ∈ s.editor.caretIds,
      s.caretOffset? caret = some ((s.caretOffset? caret).getD 0) := fun caret hcaret ↦ by
    obtain ⟨place, -, hplace⟩ := h.editor.exists_caretOffset? hcaret
    rw [show s.caretOffset? caret = some place from hplace]
    rfl
  have hrun := (overwriting_start h hapart c hoffset).run hc (Nat.zero_le _)
  have hids := foldl_overwriteAt_caretIds s.syncCarets c s.syncCarets.carets.orderedByOffset
  refine ⟨?_, fun caret place hplace ↦ ?_⟩
  · have htext := hrun.text
    rw [Text.typedUpTo_end, List.drop_of_length_le (by rw [List.length_append]; rfl), List.append_nil]
      at htext
    exact List.append_cancel_right htext
  · have hcaret : caret ∈ s.editor.caretIds := Editor.mem_caretIds_of_caretOffset? hplace
    have hend := (hrun.behind caret (hids ▸ hcaret) List.not_mem_nil).1
    rw [hplace] at hend
    exact hend

end All

end EditState

namespace Session

section ReplaceMode

variable {s : Session} (hbindings : s.StandardBindings) (hidle : s.resolver.hasPending = false)
  (hinput : s.resolver.input = []) (hmode : s.mode = .replace) (hreported : s.editor.reported = [])
  (hanchored : s.edit.Anchored) (hapart : s.edit.Apart) {c : Char} (hc : c ≠ '\n')
include hbindings hidle hinput hmode hreported hanchored hapart hc

theorem handleKey_types_over :
    (s.handleKey (.char c)).2.editor.text =
        s.editor.text.typedOver (s.editor.text.takesOver s.edit.standsAt) c ∧
      ∀ caret place, s.editor.caretOffset? caret = some place →
        (s.handleKey (.char c)).2.editor.caretOffset? caret =
          some (s.editor.text.placeOver s.edit.standsAt c place) := by
  have hentry : s.mode.isTextEntry = true := by
    rw [hmode]
    rfl
  have hfree : s.keymap.resolve (.ofMode s.mode) [.char c] = .unmapped := by
    rw [hmode]
    exact hbindings.resolve_char List.mem_cons_self c
  have htype (u : EditState) (hmode : u.mode = .replace) :
      u.typeKeys [.char c] = (.executed, u.forCarets (EditState.overwriteAt c)) := by
    unfold EditState.typeKeys
    rw [hmode]
    rfl
  have hafter : (s.handleKey (.char c)).2 = { s with
      resolver := {}, edit := s.edit.guardedChange (·.forCarets (EditState.overwriteAt c)) } := by
    rw [handleKey_of_unmapped hidle hinput hreported hentry hfree]
    show Session.mk _ _ _ _ _ ((s.edit.prepared.typeKeys [.char c]).2.unlock s.edit.lock.1) = _
    rw [htype s.edit.prepared hmode]
    rfl
  rw [hafter]
  exact EditState.forCarets_overwriteAt (s := s.edit.prepared)
    ⟨hanchored.editor.of_buffer rfl rfl rfl, hanchored.carets.sync _⟩ hapart hc

/-- With carets at pairwise distinct places, a plain character that is typed in the replace mode is typed
over the text at every caret but the second ones of the pairs, and the carets end behind theirs, those of the
pairs where they were. So it goes over the text at every caret, with the caret behind it, just if no caret
stands right behind one at a character that may be typed over. -/
theorem replace_mode_types_over_carets :
    let after : Session := (s.handleKey (.char c)).2
    let t := s.editor.text
    let stands := s.edit.standsAt
    (after.editor.text = t.typedOver (t.takesOver stands) c ∧
      ∀ caret place, s.editor.caretOffset? caret = some place →
        after.editor.caretOffset? caret = some (t.placeOver stands c place)) ∧
    ((after.editor.text = t.typedOver stands c ∧
      ∀ caret place, s.editor.caretOffset? caret = some place →
        after.editor.caretOffset? caret = some (t.placeAt (Text.typeOver stands c) place + 1)) ↔
      ∀ place, stands place = true → stands (place + 1) = true → t.overwritable place = false) := by
  intro after t stands
  obtain ⟨htext, hplaces⟩ :=
    handleKey_types_over hbindings hidle hinput hmode hreported hanchored hapart hc
  refine ⟨⟨htext, hplaces⟩, ?_⟩
  rw [← Text.leads_eq_false_iff]
  constructor
  · rintro ⟨-, hbehind⟩ place
    refine Bool.eq_false_iff.mpr fun hleads ↦ ?_
    obtain ⟨first, hstands, hne⟩ := Text.exists_placeOver_ne hleads c
    obtain ⟨caret, -, hat⟩ := List.any_eq_true.mp hstands
    have hfirst : s.editor.caretOffset? caret = some first := beq_iff_eq.mp hat
    exact hne (Option.some.inj ((hplaces caret first hfirst).symm.trans (hbehind caret first hfirst)))
  · intro hnone
    obtain ⟨htakes, hends⟩ := Text.placeOver_of_free hnone c
    refine ⟨htext.trans (by rw [htakes]), fun caret place hplace ↦ ?_⟩
    rw [hplaces caret place hplace, hends]

end ReplaceMode

/-- A text with carets in it, in the replace mode under the standard bindings. -/
def replacing (t : Text) (places : List Nat) : Session where
  keymap := .standard
  registry := .standard
  edit := { editor := .ofMarked ⟨t, places, []⟩, modes := { mode := .replace } }

theorem replacing_bindings (t : Text) (places : List Nat) : (replacing t places).StandardBindings := by
  unfold replacing
  exact .inl ⟨by with_reducible rfl, by with_reducible rfl⟩

theorem replacing_anchored (t : Text) (places : List Nat) : (replacing t places).edit.Anchored :=
  ⟨Editor.ofMarked_anchored ⟨t, places, []⟩, List.nodup_nil⟩

/-- Over a letter, before a line feed and at the end. -/
theorem three_carets_type_over :
    let s := replacing "ab\nc".toList [0, 2, 4]
    let after := (s.handleKey (.char 'x')).2
    (s.StandardBindings ∧ s.resolver.hasPending = false ∧ s.resolver.input = [] ∧ s.mode = .replace ∧
      s.editor.reported = [] ∧ s.edit.Anchored ∧ s.edit.Apart ∧ 'x' ≠ '\n') ∧
    after.editor.text = "xbx\ncx".toList ∧ after.editor.caretOffset? ⟨0⟩ = some 1 ∧
      after.editor.caretOffset? ⟨1⟩ = some 3 ∧ after.editor.caretOffset? ⟨2⟩ = some 6 := by
  intro s after
  have hbindings : s.StandardBindings := replacing_bindings _ _
  have hreported : s.editor.reported = [] := by decide +kernel
  have hanchored : s.edit.Anchored := replacing_anchored _ _
  have hapart : s.edit.Apart := by
    unfold EditState.Apart
    decide +kernel
  obtain ⟨⟨htext, hplaces⟩, -⟩ := replace_mode_types_over_carets hbindings rfl rfl rfl hreported hanchored
    hapart (show 'x' ≠ '\n' by decide)
  refine ⟨⟨hbindings, rfl, rfl, rfl, hreported, hanchored, hapart, by decide⟩,
    htext.trans (by decide +kernel), ?_, ?_, ?_⟩
  · exact (hplaces ⟨0⟩ 0 (by decide +kernel)).trans (by decide +kernel)
  · exact (hplaces ⟨1⟩ 2 (by decide +kernel)).trans (by decide +kernel)
  · exact (hplaces ⟨2⟩ 4 (by decide +kernel)).trans (by decide +kernel)

/-- A caret right behind one at a letter types over that letter again, and draws that caret back. -/
theorem adjacent_carets_type_over_one :
    let s := replacing "ab\n".toList [0, 1]
    let after := (s.handleKey (.char 'x')).2
    s.editor.text.typedOver s.edit.standsAt 'x' = "xx\n".toList ∧
      after.editor.text = "xb\n".toList ∧ after.editor.text ≠ s.editor.text.typedOver s.edit.standsAt 'x' ∧
      after.editor.caretOffset? ⟨0⟩ = some 0 ∧ after.editor.caretOffset? ⟨1⟩ = some 1 := by
  intro s after
  have hapart : s.edit.Apart := by
    unfold EditState.Apart
    decide +kernel
  obtain ⟨htext, hplaces⟩ := handleKey_types_over (s := s) (replacing_bindings _ _) rfl rfl rfl
    (by decide +kernel) (replacing_anchored _ _) hapart (show 'x' ≠ '\n' by decide)
  have hafter : after.editor.text = "xb\n".toList := htext.trans (by decide +kernel)
  exact ⟨by decide +kernel, hafter, fun heq ↦ absurd (hafter.symm.trans heq) (by decide +kernel),
    (hplaces ⟨0⟩ 0 (by decide +kernel)).trans (by decide +kernel),
    (hplaces ⟨1⟩ 1 (by decide +kernel)).trans (by decide +kernel)⟩

end Session

end ModalEdit
