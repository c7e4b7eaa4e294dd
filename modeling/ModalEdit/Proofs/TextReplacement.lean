import Mathlib.Data.List.Basic
import Mathlib.Tactic.Conv
import ModalEdit.Buffer.Basic

/-!
A text with something else in place of each character (`Text.replaceEach`): nothing where characters are
taken out (`Text.without`), their images where some are mapped (`Text.mapAt`). What stood at an offset is
found behind what has become of the characters before it (`Text.placeAt`), so the new text is cut there
(`take_placeAt`, `drop_placeAt`). To replace one span otherwise is to splice it at these places
(`replaceEach_of_outside`), and the offsets beyond it move along (`placeAt_of_le`, `placeAt_of_ge`).
-/

set_option autoImplicit false
set_option relaxedAutoImplicit false

namespace ModalEdit.Text

/-- A text that begins at an offset, with what a function of offset and character says in place of each
character. -/
def replaceEachFrom (start : Nat) (t : Text) (g : Nat → Char → Text) : Text :=
  (t.zipIdx start).flatMap fun (c, offset) ↦ g offset c

def replaceEach (t : Text) (g : Nat → Char → Text) : Text := replaceEachFrom 0 t g

/-- The text without the characters at some offsets. -/
def without (t : Text) (gone : Nat → Bool) : Text := (t.zipIdx.filter fun p ↦ !gone p.2).map (·.1)

/-- Nothing in place of the characters at some offsets. -/
def leaveOut (gone : Nat → Bool) (offset : Nat) (c : Char) : Text := if gone offset then [] else [c]

/-- Their images in place of the characters at some offsets. -/
def mapInside (inside : Nat → Bool) (f : Char → Text) (offset : Nat) (c : Char) : Text :=
  if inside offset then f c else [c]

/-- The text with the characters at some offsets mapped, each by itself. -/
def mapAt (t : Text) (inside : Nat → Bool) (f : Char → Text) : Text := t.replaceEach (mapInside inside f)

/-- Where that which stood at an offset is found in the new text. -/
def placeAt (t : Text) (g : Nat → Char → Text) (offset : Nat) : Nat :=
  (replaceEach (t.take offset) g).length

/-- What has become of the span from an offset up to another. -/
def replaceEachIn (t : Text) (g : Nat → Char → Text) (a b : Nat) : Text :=
  replaceEachFrom a ((t.drop a).take (b - a)) g

section Replace

variable {t : Text} {g h : Nat → Char → Text} {a b : Nat}

@[simp] theorem replaceEachFrom_nil (start : Nat) (g : Nat → Char → Text) :
    replaceEachFrom start [] g = [] := rfl

theorem replaceEachFrom_cons (start : Nat) (old : Char) (rest : Text) (g : Nat → Char → Text) :
    replaceEachFrom start (old :: rest) g = g start old ++ replaceEachFrom (start + 1) rest g := by
  rw [replaceEachFrom, List.zipIdx_cons, List.flatMap_cons]
  rfl

/-- Only what is said of the offsets of the text matters. -/
theorem replaceEachFrom_congr {start : Nat}
    (heq : ∀ offset, start ≤ offset → offset < start + t.length → g offset = h offset) :
    replaceEachFrom start t g = replaceEachFrom start t h := by
  refine List.flatMap_congr fun (c, offset) hmem ↦ ?_
  obtain ⟨hle, hlt, -⟩ := List.mem_zipIdx hmem
  exact congrFun (heq offset hle hlt) c

theorem placeAt_congr (heq : ∀ offset, offset < t.length → g offset = h offset) (offset : Nat) :
    t.placeAt g offset = t.placeAt h offset := by
  refine congrArg List.length (replaceEachFrom_congr fun o _ hlt ↦ heq o ?_)
  rw [List.length_take] at hlt
  omega

theorem replaceEachFrom_split (start : Nat) (t : Text) (g : Nat → Char → Text) (n : Nat) :
    replaceEachFrom start t g =
      replaceEachFrom start (t.take n) g ++ replaceEachFrom (start + n) (t.drop n) g := by
  rcases Nat.le_total t.length n with hle | hle
  · rw [List.take_of_length_le hle, List.drop_of_length_le hle, replaceEachFrom_nil, List.append_nil]
  · conv_lhs => rw [← List.take_append_drop n t]
    rw [replaceEachFrom, List.zipIdx_append, List.flatMap_append, List.length_take, Nat.min_eq_left hle]
    rfl

theorem replaceEach_split (t : Text) (g : Nat → Char → Text) (a : Nat) :
    t.replaceEach g = replaceEach (t.take a) g ++ replaceEachFrom a (t.drop a) g := by
  have hsplit := replaceEachFrom_split 0 t g a
  rwa [Nat.zero_add] at hsplit

theorem take_placeAt (t : Text) (g : Nat → Char → Text) (a : Nat) :
    (t.replaceEach g).take (t.placeAt g a) = replaceEach (t.take a) g := by
  rw [replaceEach_split t g a, placeAt, List.take_left]

theorem drop_placeAt (t : Text) (g : Nat → Char → Text) (a : Nat) :
    (t.replaceEach g).drop (t.placeAt g a) = replaceEachFrom a (t.drop a) g := by
  rw [replaceEach_split t g a, placeAt, List.drop_left]

theorem replaceEach_take_eq_append (hab : a ≤ b) :
    replaceEach (t.take b) g = replaceEach (t.take a) g ++ t.replaceEachIn g a b := by
  rw [replaceEach_split (t.take b) g a, List.take_take, Nat.min_eq_left hab, replaceEachIn,
    List.drop_take]

theorem placeAt_eq_add (hab : a ≤ b) :
    t.placeAt g b = t.placeAt g a + (t.replaceEachIn g a b).length := by
  rw [placeAt, replaceEach_take_eq_append hab, List.length_append]
  rfl

theorem placeAt_mono (t : Text) (g : Nat → Char → Text) {a b : Nat} (hab : a ≤ b) :
    t.placeAt g a ≤ t.placeAt g b := by
  rw [placeAt_eq_add hab]
  exact Nat.le_add_right _ _

/-- Where something comes in place of every character, what stood further on is found further on. -/
theorem placeAt_lt (hne : ∀ offset c, g offset c ≠ []) (hab : a < b) (hlt : a < t.length) :
    t.placeAt g a < t.placeAt g b := by
  have hspan : ((t.drop a).take (b - a)) ≠ [] := by
    rw [← List.length_pos_iff, List.length_take, List.length_drop]
    omega
  obtain ⟨c, rest, hcons⟩ := List.exists_cons_of_ne_nil hspan
  have hpos : 0 < (t.replaceEachIn g a b).length := by
    rw [replaceEachIn, hcons, replaceEachFrom_cons, List.length_append]
    exact Nat.add_pos_left (List.length_pos_iff.mpr (hne a c)) _
  rw [placeAt_eq_add (Nat.le_of_lt hab)]
  omega

theorem placeAt_le_length (t : Text) (g : Nat → Char → Text) (a : Nat) :
    t.placeAt g a ≤ (t.replaceEach g).length := by
  rw [replaceEach_split t g a, List.length_append]
  exact Nat.le_add_right _ _

theorem placeAt_length (t : Text) (g : Nat → Char → Text) :
    t.placeAt g t.length = (t.replaceEach g).length := by
  rw [placeAt, List.take_length]

/-- Behind a character that stays, one stands in its place. -/
theorem placeAt_succ {offset : Nat} (hlt : offset < t.length) (hself : ∀ c, g offset c = [c]) :
    t.placeAt g (offset + 1) = t.placeAt g offset + 1 := by
  rw [placeAt_eq_add (Nat.le_add_right offset 1), replaceEachIn, Nat.add_sub_cancel_left,
    List.drop_eq_getElem_cons hlt]
  show _ + (g offset t[offset] ++ []).length = _
  rw [hself]
  rfl

theorem placeAt_min_length (t : Text) (g : Nat → Char → Text) (a : Nat) :
    t.placeAt g (min a t.length) = t.placeAt g a := by
  rw [placeAt, ← List.take_eq_take_min]
  rfl

/-- Between the places of two offsets there is what has become of their span. -/
theorem slice_placeAt (hab : a ≤ b) :
    (t.replaceEach g).slice (t.placeAt g a) (t.placeAt g b) = t.replaceEachIn g a b := by
  have hle := placeAt_mono t g hab
  rw [slice, Nat.min_eq_left hle, Nat.max_eq_right hle, ← List.drop_take, take_placeAt,
    replaceEach_take_eq_append hab, placeAt, List.drop_left]

/-- A text in which each character is replaced by itself. -/
theorem replaceEachFrom_eq_self {start : Nat}
    (hself : ∀ offset c, start ≤ offset → offset < start + t.length → g offset c = [c]) :
    replaceEachFrom start t g = t := by
  have hcopy : replaceEachFrom start t g = (t.zipIdx start).flatMap fun (c, _) ↦ [c] := by
    refine List.flatMap_congr fun (c, offset) hmem ↦ ?_
    obtain ⟨hle, hlt, -⟩ := List.mem_zipIdx hmem
    exact hself offset c hle hlt
  rw [hcopy, ← List.map_eq_flatMap]
  exact List.zipIdx_map_fst start t

theorem replaceEach_eq_self (hself : ∀ offset c, g offset c = [c]) : t.replaceEach g = t :=
  replaceEachFrom_eq_self fun offset c _ _ ↦ hself offset c

theorem placeAt_eq_min (hself : ∀ offset c, g offset c = [c]) (offset : Nat) :
    t.placeAt g offset = min offset t.length := by
  rw [placeAt, replaceEach_eq_self hself, List.length_take]

/-- With nothing left out, everything is in its place. -/
theorem placeAt_leaveOut_none {offset : Nat} (hle : offset ≤ t.length) :
    t.placeAt (leaveOut fun _ ↦ false) offset = offset :=
  (placeAt_eq_min (fun _ _ ↦ rfl) offset).trans (Nat.min_eq_left hle)

theorem without_eq_replaceEach (t : Text) (gone : Nat → Bool) :
    t.without gone = t.replaceEach (leaveOut gone) := by
  rw [without, replaceEach, replaceEachFrom]
  induction t.zipIdx with
  | nil => rfl
  | cons p rest ih =>
    rw [List.filter_cons, List.flatMap_cons, ← ih]
    cases hgone : gone p.2 <;> simp [leaveOut, hgone]

/-! ### One span otherwise -/

/-- Before the first offset that is treated otherwise, everything stays in its place. -/
theorem placeAt_of_le (heq : ∀ offset, offset < a → g offset = h offset) {offset : Nat}
    (hle : offset ≤ a) : t.placeAt h offset = t.placeAt g offset := by
  refine congrArg List.length (replaceEachFrom_congr fun o _ hlt ↦ (heq o ?_).symm)
  rw [List.length_take] at hlt
  omega

/-- A text with one span treated otherwise is the text as it was before, with the span's place taken by
what then becomes of it. -/
theorem replaceEach_of_outside (hab : a ≤ b)
    (heq : ∀ offset, offset < a ∨ b ≤ offset → g offset = h offset) :
    t.replaceEach h = (t.replaceEach g).take (t.placeAt g a) ++
      t.replaceEachIn h a b ++ (t.replaceEach g).drop (t.placeAt g b) := by
  have hbefore : replaceEach (t.take a) g = replaceEach (t.take a) h := by
    refine replaceEachFrom_congr fun offset _ hlt ↦ heq offset (.inl ?_)
    rw [List.length_take] at hlt
    omega
  have hbehind : replaceEachFrom b (t.drop b) g = replaceEachFrom b (t.drop b) h :=
    replaceEachFrom_congr fun offset hle _ ↦ heq offset (.inr hle)
  rw [take_placeAt, drop_placeAt, hbefore, hbehind, ← replaceEach_take_eq_append hab,
    ← replaceEach_split t h b]

/-- Behind the span, everything moves by as much as the span has grown. -/
theorem placeAt_of_ge (heq : ∀ offset, b ≤ offset → g offset = h offset) {offset : Nat}
    (hle : b ≤ offset) :
    t.placeAt h offset + t.placeAt g b = t.placeAt g offset + t.placeAt h b := by
  have hsame : t.replaceEachIn g b offset = t.replaceEachIn h b offset :=
    replaceEachFrom_congr fun o hle _ ↦ heq o hle
  have hg : t.placeAt g offset = t.placeAt g b + (t.replaceEachIn g b offset).length :=
    placeAt_eq_add hle
  have hh : t.placeAt h offset = t.placeAt h b + (t.replaceEachIn h b offset).length :=
    placeAt_eq_add hle
  rw [hg, hh, hsame]
  omega

end Replace

end ModalEdit.Text
