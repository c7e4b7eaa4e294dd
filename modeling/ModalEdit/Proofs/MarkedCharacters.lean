import Mathlib.Data.List.Nodup
import Mathlib.Data.List.TakeDrop
import ModalEdit.Proofs.Marks

/-!
Marks follow the characters they stand on. An edit moves every mark by one monotone map of offsets
(`TextEdit.carry`), so marks stay within the text and keep their order. To say which character is which
after any number of edits, the edits are made once more on characters that carry the offset they had at
first (`TracedText.edit`): a mark stands on the same one until that is taken out, or text comes in right
at the mark and pushes it away (`Buffer.marks_follow_characters`).
-/

set_option autoImplicit false
set_option relaxedAutoImplicit false

namespace ModalEdit

/-- A change of the text, at any offsets. -/
inductive TextEdit where
  | insert (offset : Nat) (s : Text)
  | erase (x y : Nat)
  deriving DecidableEq, Repr

/-- Characters with the offsets that they had at first; one that was put in later had none. -/
abbrev TracedText := List (Char × Option Nat)

def Text.traced (t : Text) : TracedText := t.zipIdx.map fun (c, offset) ↦ (c, some offset)

namespace TracedText

/-- The offsets at first of the characters that are still there. -/
def origins (traced : TracedText) : List Nat := traced.filterMap (·.2)

def edit (traced : TracedText) : TextEdit → TracedText
  | .insert offset s => traced.take offset ++ s.map (·, none) ++ traced.drop offset
  | .erase x y => traced.take (min x y) ++ traced.drop (max x y)

def editAll (traced : TracedText) (edits : List TextEdit) : TracedText := edits.foldl edit traced

end TracedText

namespace TextEdit

/-- Where an edit of a text of this length takes the marks at an offset. -/
def carry (length : Nat) : TextEdit → Nat → Nat
  | insert offset s => MarkSet.offsetAfterInsert (min offset length) s.length
  | erase x y => MarkSet.offsetAfterErase (min (min x y) length) (min (max x y) length)

def newLength (length : Nat) : TextEdit → Nat
  | insert _ s => length + s.length
  | erase x y => length - (min (max x y) length - min (min x y) length)

/-- The edit puts no text in right at an offset. -/
def Spares (length offset : Nat) : TextEdit → Prop
  | insert place s => s = [] ∨ offset ≠ min place length
  | erase _ _ => True

instance (length offset : Nat) : ∀ edit : TextEdit, Decidable (edit.Spares length offset)
  | insert _ _ => inferInstanceAs (Decidable (_ ∨ _))
  | erase _ _ => inferInstanceAs (Decidable True)

/-! ### The offsets of marks -/

theorem carry_mono (edit : TextEdit) (length : Nat) {a b : Nat} (h : a ≤ b) :
    edit.carry length a ≤ edit.carry length b := by
  cases edit with
  | insert offset s =>
    simp only [carry, MarkSet.offsetAfterInsert]
    split <;> split <;> omega
  | erase x y =>
    simp only [carry, MarkSet.offsetAfterErase]
    split <;> split <;> omega

theorem carry_le (edit : TextEdit) {length offset : Nat} (h : offset ≤ length) :
    edit.carry length offset ≤ edit.newLength length := by
  cases edit with
  | insert place s =>
    simp only [carry, newLength, MarkSet.offsetAfterInsert]
    split <;> omega
  | erase x y =>
    simp only [carry, newLength, MarkSet.offsetAfterErase]
    split <;> omega

/-- What is put in and taken out again leaves every offset as it was. -/
theorem carry_erase_insert (length offset o : Nat) (s : Text) :
    (erase (min offset length) (min offset length + s.length)).carry (length + s.length)
      ((insert offset s).carry length o) = o := by
  simp only [carry, MarkSet.offsetAfterInsert, MarkSet.offsetAfterErase]
  split <;> split <;> omega

end TextEdit

/-! ### The characters -/

namespace TracedText

variable {traced : TracedText}

/-- No character comes back once it is taken out. -/
theorem origins_edit_sublist (traced : TracedText) (edit : TextEdit) :
    (traced.edit edit).origins.Sublist traced.origins := by
  cases edit with
  | insert offset s =>
    have hnew : (s.map fun c ↦ (c, (none : Option Nat))).filterMap (·.2) = [] := by
      simp
    have heq : (traced.edit (.insert offset s)).origins = traced.origins := by
      rw [origins, edit, List.filterMap_append, List.filterMap_append, hnew,
        List.append_nil, ← List.filterMap_append, List.take_append_drop, origins]
    rw [heq]
  | erase x y =>
    have hdrop : (traced.drop (max x y)).Sublist (traced.drop (min x y)) :=
      List.drop_sublist_drop_left traced (by omega)
    have hall := (List.Sublist.refl (traced.take (min x y))).append hdrop
    rw [List.take_append_drop] at hall
    exact hall.filterMap _

/-- A character that is still there was not in the span taken out. -/
theorem lt_or_le_of_mem_origins {x y offset origin : Nat} {c : Char}
    (hnodup : traced.origins.Nodup) (h : traced[offset]? = some (c, some origin))
    (hmem : origin ∈ (traced.edit (.erase x y)).origins) : offset < min x y ∨ max x y ≤ offset := by
  rcases Nat.lt_or_ge offset (min x y) with hbefore | hstart
  · exact .inl hbefore
  rcases Nat.lt_or_ge offset (max x y) with hstop | hafter
  · obtain ⟨hlt, hget⟩ := List.getElem?_eq_some_iff.mp h
    have hsplit : traced.origins = origins (traced.take offset) ++
        origin :: origins (traced.drop (offset + 1)) := by
      have hcut : traced = traced.take offset ++ (c, some origin) :: traced.drop (offset + 1) := by
        rw [← hget, ← List.drop_eq_getElem_cons hlt, List.take_append_drop]
      exact (congrArg origins hcut).trans (by simp [origins])
    have htake : (traced.take (min x y)).Sublist (traced.take offset) :=
      (List.take_prefix_take_left hstart).sublist
    have hdrop : (traced.drop (max x y)).Sublist (traced.drop (offset + 1)) :=
      List.drop_sublist_drop_left traced hstop
    have hothers := ((htake.append hdrop).filterMap (·.2)).subset hmem
    rw [List.filterMap_append] at hothers
    rw [hsplit] at hnodup
    exact absurd hothers (List.nodup_cons.mp (List.nodup_middle.mp hnodup)).1
  · exact .inr hafter

/-- The character at an offset is found where a mark there is taken. -/
theorem getElem?_edit (edit : TextEdit) {offset origin : Nat} {c : Char}
    (hnodup : traced.origins.Nodup) (h : traced[offset]? = some (c, some origin))
    (hmem : origin ∈ (traced.edit edit).origins) (hspares : edit.Spares traced.length offset) :
    (traced.edit edit)[edit.carry traced.length offset]? = some (c, some origin) := by
  have hlt := (List.getElem?_eq_some_iff.mp h).1
  cases edit with
  | insert place s =>
    have hne : s = [] ∨ offset ≠ min place traced.length := hspares
    simp only [TextEdit.carry, TracedText.edit, MarkSet.offsetAfterInsert]
    rcases Nat.lt_trichotomy offset (min place traced.length) with hbefore | hat | hafter
    · rw [if_neg (by omega), List.append_assoc,
        List.getElem?_append_left (by rw [List.length_take]; omega),
        List.getElem?_take_of_lt (by omega), h]
    · obtain rfl := hne.resolve_right (· hat)
      rw [if_neg (by omega), List.map_nil, List.append_nil, List.take_append_drop, h]
    · have hlength : (traced.take place ++ s.map (·, none)).length = place + s.length := by
        rw [List.length_append, List.length_take, List.length_map]
        omega
      rw [if_pos hafter, List.getElem?_append_right (by omega), hlength, List.getElem?_drop, ← h]
      congr 1
      omega
  | erase x y =>
    simp only [TextEdit.carry, TracedText.edit, MarkSet.offsetAfterErase]
    rcases lt_or_le_of_mem_origins hnodup h hmem with hbefore | hafter
    · rw [if_neg (by omega), List.getElem?_append_left (by rw [List.length_take]; omega),
        List.getElem?_take_of_lt (by omega), ← h]
      congr 1
      omega
    · have hlength : (traced.take (min x y)).length = min x y := by
        rw [List.length_take]
        omega
      rw [if_pos (by omega), List.getElem?_append_right (by omega), hlength, List.getElem?_drop, ← h]
      congr 1
      omega

theorem origins_editAll_sublist (edits : List TextEdit) (traced : TracedText) :
    (traced.editAll edits).origins.Sublist traced.origins := by
  induction edits generalizing traced with
  | nil => exact List.Sublist.refl _
  | cons edit rest ih => exact (ih (traced.edit edit)).trans (traced.origins_edit_sublist edit)

end TracedText

namespace Text

theorem map_fst_traced (t : Text) : t.traced.map (·.1) = t := by
  rw [traced, List.map_map]
  exact List.zipIdx_map_fst 0 t

theorem getElem?_traced {t : Text} {offset : Nat} {c : Char} (h : t[offset]? = some c) :
    t.traced[offset]? = some (c, some offset) := by
  simp [traced, h]

theorem nodup_origins_traced (t : Text) : t.traced.origins.Nodup := by
  have heq : t.traced.origins = List.range' 0 t.length := by
    rw [traced, TracedText.origins, List.filterMap_map, ← List.zipIdx_map_snd 0 t]
    exact congrFun (List.filterMap_eq_map (f := Prod.snd)) t.zipIdx
  rw [heq]
  exact List.nodup_range'

theorem slice_insert (t : Text) (offset : Nat) (s : Text) :
    (t.insert offset s).slice (min offset t.length) (min offset t.length + s.length) = s := by
  have hlength : (t.take offset).length = min offset t.length := List.length_take
  rw [slice, Nat.min_eq_left (Nat.le_add_right _ _), Nat.max_eq_right (Nat.le_add_right _ _),
    Nat.add_sub_cancel_left, ← hlength, Text.insert, List.append_assoc, List.drop_left, List.take_left]

theorem erase_insert (t : Text) (offset : Nat) (s : Text) :
    (t.insert offset s).erase (min offset t.length) (min offset t.length + s.length) = t := by
  have hlength : (t.take offset).length = min offset t.length := List.length_take
  rw [erase, Nat.min_eq_left (Nat.le_add_right _ _), Nat.max_eq_right (Nat.le_add_right _ _),
    ← hlength, Text.insert, List.append_assoc, List.take_left, ← List.append_assoc,
    ← List.length_append, List.drop_left, List.take_append_drop]

end Text

/-! ### Buffers -/

namespace Buffer

variable {b : Buffer} {mark : Mark}

def edit (b : Buffer) : TextEdit → Buffer
  | .insert offset s => b.insert offset s
  | .erase x y => (b.erase x y).2

def editAll (b : Buffer) (edits : List TextEdit) : Buffer := edits.foldl edit b

/-- Every live mark is within the text. -/
def Within (b : Buffer) : Prop := ∀ entry ∈ b.marks.live, entry.2 ≤ b.text.length

theorem edit_marks (b : Buffer) (edit : TextEdit) :
    (b.edit edit).marks = b.marks.mapOffsets fun _ ↦ edit.carry b.text.length := by
  cases edit <;> rfl

theorem length_edit (b : Buffer) (edit : TextEdit) :
    (b.edit edit).text.length = edit.newLength b.text.length := by
  cases edit with
  | insert offset s => exact Text.length_insert b.text s offset
  | erase x y => exact Text.length_erase b.text x y

theorem markOffset?_edit (b : Buffer) (edit : TextEdit) (mark : Mark) :
    (b.edit edit).markOffset? mark = (b.markOffset? mark).map (edit.carry b.text.length) := by
  rw [markOffset?, edit_marks, MarkSet.get?_mapOffsets]
  rfl

/-- The text is that of the characters traced. -/
theorem map_fst_edit {traced : TracedText} (h : traced.map (·.1) = b.text) (edit : TextEdit) :
    (traced.edit edit).map (·.1) = (b.edit edit).text := by
  cases edit with
  | insert offset s =>
    simp [TracedText.edit, Buffer.edit, insert, Text.insert, ← h, List.map_take, List.map_drop,
      Function.comp_def]
  | erase x y =>
    simp [TracedText.edit, Buffer.edit, erase, Text.erase, ← h, List.map_take, List.map_drop]

/-! ### What can be done to a buffer -/

theorem Within.edit (h : b.Within) (edit : TextEdit) : (b.edit edit).Within := by
  rw [Within, edit_marks, length_edit]
  exact List.forall_mem_map.mpr fun entry hentry ↦ edit.carry_le (h entry hentry)

theorem Within.createMark (h : b.Within) (offset : Nat) : (b.createMark offset).2.Within :=
  List.forall_mem_append.mpr ⟨h, List.forall_mem_singleton.mpr (Nat.min_le_right _ _)⟩

theorem Within.setMark (h : b.Within) (mark : Mark) (offset : Nat) : (b.setMark mark offset).Within := by
  refine List.forall_mem_map.mpr fun entry hentry ↦ ?_
  dsimp only
  split
  · exact Nat.min_le_right _ _
  · exact h entry hentry

theorem Within.releaseMark (h : b.Within) (mark : Mark) : (b.releaseMark mark).Within :=
  fun entry hentry ↦ h entry (List.mem_filter.mp hentry).1

end Buffer

/-- What the owner of a buffer can ask of it. -/
inductive BufferCall where
  | edit (edit : TextEdit)
  | createMark (offset : Nat)
  | setMark (mark : Mark) (offset : Nat)
  | releaseMark (mark : Mark)
  deriving DecidableEq, Repr

namespace Buffer

variable {b : Buffer} {mark : Mark}

def call (b : Buffer) : BufferCall → Buffer
  | .edit edit => b.edit edit
  | .createMark offset => (b.createMark offset).2
  | .setMark mark offset => b.setMark mark offset
  | .releaseMark mark => b.releaseMark mark

/-- The buffer that calls make of a new one over a text. -/
def reached (t : Text) (calls : List BufferCall) : Buffer := calls.foldl call { text := t }

theorem Within.call (h : b.Within) (call : BufferCall) : (b.call call).Within := by
  cases call with
  | edit edit => exact h.edit edit
  | createMark offset => exact h.createMark offset
  | setMark mark offset => exact h.setMark mark offset
  | releaseMark mark => exact h.releaseMark mark

theorem reached_within (t : Text) (calls : List BufferCall) : (reached t calls).Within :=
  List.foldlRecOn (motive := Within) calls call (fun _ h ↦ absurd h List.not_mem_nil)
    fun _ h call _ ↦ h.call call

theorem Within.le (h : b.Within) {offset : Nat} (hmark : b.markOffset? mark = some offset) :
    offset ≤ b.text.length := by
  obtain ⟨before, after, hlive, -⟩ := List.lookup_eq_some_iff.mp hmark
  exact h (mark, offset) (hlive ▸ List.mem_append_right before List.mem_cons_self)

/-! ### A run of edits -/

theorem Within.editAll (h : b.Within) (edits : List TextEdit) : (b.editAll edits).Within :=
  List.foldlRecOn (motive := Within) edits Buffer.edit h fun _ h edit _ ↦ h.edit edit

/-- Edits neither make marks nor drop them. -/
theorem isSome_markOffset?_editAll (b : Buffer) (edits : List TextEdit) (mark : Mark) :
    ((b.editAll edits).markOffset? mark).isSome = (b.markOffset? mark).isSome := by
  induction edits generalizing b with
  | nil => rfl
  | cons edit rest ih => exact (ih (b.edit edit)).trans (by rw [markOffset?_edit, Option.isSome_map])

/-- Marks keep their order. -/
theorem markOffset?_editAll_mono {first second : Mark} (edits : List TextEdit) {a c x y : Nat}
    (hfirst : b.markOffset? first = some a) (hsecond : b.markOffset? second = some c) (h : a ≤ c)
    (hx : (b.editAll edits).markOffset? first = some x)
    (hy : (b.editAll edits).markOffset? second = some y) : x ≤ y := by
  induction edits generalizing b a c with
  | nil =>
    obtain rfl := Option.some.inj (hfirst.symm.trans hx)
    obtain rfl := Option.some.inj (hsecond.symm.trans hy)
    exact h
  | cons edit rest ih =>
    exact ih (b := b.edit edit) (by rw [markOffset?_edit, hfirst, Option.map_some])
      (by rw [markOffset?_edit, hsecond, Option.map_some]) (edit.carry_mono b.text.length h) hx hy

/-- No edit of the run puts text in right where the mark is by then. -/
def Undisturbed (mark : Mark) : Buffer → List TextEdit → Prop
  | _, [] => True
  | b, edit :: rest =>
    (∀ offset ∈ b.markOffset? mark, edit.Spares b.text.length offset) ∧
      Undisturbed mark (b.edit edit) rest

instance Undisturbed.decidable (mark : Mark) : ∀ b edits, Decidable (Undisturbed mark b edits)
  | _, [] => inferInstanceAs (Decidable True)
  | b, edit :: rest =>
    have := Undisturbed.decidable mark (b.edit edit) rest
    inferInstanceAs (Decidable (_ ∧ _))

/-- The characters of the text after a run of edits, each with the offset it had before the run. -/
def tracedThrough (b : Buffer) (edits : List TextEdit) : TracedText :=
  b.text.traced.editAll edits

theorem map_fst_tracedThrough (b : Buffer) (edits : List TextEdit) :
    (b.tracedThrough edits).map (·.1) = (b.editAll edits).text := by
  have hrun : ∀ (b : Buffer) (traced : TracedText), traced.map (·.1) = b.text →
      (traced.editAll edits).map (·.1) = (b.editAll edits).text := by
    induction edits with
    | nil => exact fun b traced h ↦ h
    | cons edit rest ih => exact fun b traced h ↦ ih (b.edit edit) _ (map_fst_edit h edit)
  exact hrun b b.text.traced b.text.map_fst_traced

/-- A mark on a character stays on it through a run. -/
theorem getElem?_editAll (edits : List TextEdit) {traced : TracedText} {offset origin : Nat} {c : Char}
    (htext : traced.map (·.1) = b.text) (hnodup : traced.origins.Nodup)
    (h : traced[offset]? = some (c, some origin)) (hmark : b.markOffset? mark = some offset)
    (hmem : origin ∈ (traced.editAll edits).origins)
    (hundisturbed : Undisturbed mark b edits) :
    ∃ now, (b.editAll edits).markOffset? mark = some now ∧
      (traced.editAll edits)[now]? = some (c, some origin) := by
  induction edits generalizing b traced offset with
  | nil => exact ⟨offset, hmark, h⟩
  | cons edit rest ih =>
    have hlength : traced.length = b.text.length := by rw [← htext, List.length_map]
    have hthere : origin ∈ (traced.edit edit).origins :=
      (TracedText.origins_editAll_sublist rest _).subset hmem
    have hspares : edit.Spares traced.length offset := by
      rw [hlength]
      exact hundisturbed.1 offset hmark
    refine ih (b := b.edit edit) (map_fst_edit htext edit)
      (hnodup.sublist (traced.origins_edit_sublist edit))
      (traced.getElem?_edit edit hnodup h hthere hspares) ?_ hmem hundisturbed.2
    rw [markOffset?_edit, hmark, Option.map_some, hlength]

/-- Text that is put in and taken out again leaves the text and all marks as they were. -/
theorem erase_insert (b : Buffer) (offset : Nat) (s : Text) :
    (b.insert offset s).erase (min offset b.text.length) (min offset b.text.length + s.length) = (s, b) := by
  have hmarks : ((b.insert offset s).edit
      (.erase (min offset b.text.length) (min offset b.text.length + s.length))).marks = b.marks := by
    have hinsert : b.insert offset s = b.edit (.insert offset s) := rfl
    rw [edit_marks, hinsert, edit_marks, MarkSet.mapOffsets_mapOffsets, length_edit]
    simp only [TextEdit.newLength, TextEdit.carry_erase_insert, MarkSet.mapOffsets_id]
  exact Prod.ext (b.text.slice_insert offset s)
    (congrArg₂ Buffer.mk (b.text.erase_insert offset s) hmarks)

/-- Marks follow their characters. Whatever was done to a buffer before, through any run of edits
every live mark stays live and within the text, and marks keep their order; a mark on a character that is
still there afterwards is on it still, if no text came in right at the mark; and text that is put in and taken
out again leaves no trace. -/
theorem marks_follow_characters (t : Text) (calls : List BufferCall) (edits : List TextEdit) :
    let b := reached t calls
    let after := b.editAll edits
    let traced := b.tracedThrough edits
    (∀ mark, (after.markOffset? mark).isSome = (b.markOffset? mark).isSome ∧
      ∀ offset, after.markOffset? mark = some offset → offset ≤ after.text.length) ∧
    (∀ first second a c x y, b.markOffset? first = some a → b.markOffset? second = some c → a ≤ c →
      after.markOffset? first = some x → after.markOffset? second = some y → x ≤ y) ∧
    (traced.map (·.1) = after.text ∧ traced.origins.Nodup ∧
      ∀ mark offset c, b.markOffset? mark = some offset → b.text[offset]? = some c →
        offset ∈ traced.origins → Undisturbed mark b edits →
          ∃ now, after.markOffset? mark = some now ∧ traced[now]? = some (c, some offset)) ∧
    (∀ offset s, let start := min offset after.text.length
      (after.insert offset s).erase start (start + s.length) = (s, after)) := by
  intro b after traced
  have hwithin : after.Within := (reached_within t calls).editAll edits
  refine ⟨fun mark ↦ ⟨b.isSome_markOffset?_editAll edits mark, fun offset ↦ hwithin.le⟩,
    fun first second a c x y ha hc h hx hy ↦ markOffset?_editAll_mono edits ha hc h hx hy,
    ⟨b.map_fst_tracedThrough edits,
      b.text.nodup_origins_traced.sublist (TracedText.origins_editAll_sublist edits _),
      fun mark offset c hmark hchar hthere hundisturbed ↦ ?_⟩,
    fun offset s ↦ after.erase_insert offset s⟩
  exact getElem?_editAll edits b.text.map_fst_traced b.text.nodup_origins_traced
    (Text.getElem?_traced hchar) hmark hthere hundisturbed

/-- The mark before `b` goes with it, whatever comes in and out before it and right behind it. -/
theorem mark_goes_with_its_character :
    let b := reached "abc".toList [.createMark 1]
    let edits : List TextEdit := [.insert 0 "xy".toList, .erase 1 0, .insert 3 "z".toList]
    ∃ now, (b.editAll edits).markOffset? ⟨0⟩ = some now ∧ (b.tracedThrough edits)[now]? = some ('b', some 1) :=
  (marks_follow_characters "abc".toList [.createMark 1]
    [.insert 0 "xy".toList, .erase 1 0, .insert 3 "z".toList]).2.2.1.2.2 ⟨0⟩ 1 'b'
      (by decide) (by decide) (by decide) (by decide)

end Buffer

end ModalEdit
