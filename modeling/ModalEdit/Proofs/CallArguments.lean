import Mathlib.Data.Bool.AllAny
import ModalEdit.Proofs.ArgumentBounds

/-!
The argument object on calls. A call is a name with a list of arguments, each again a name or a call, to
any depth (`TextObject.IsArguments`). Its text is balanced, so wherever an argument of the list is cut its
delimiters are found: from a character of its name (`TextObject.Call.IsWritten.boundsAt?_head`), from the
comma before it (`TextObject.Call.IsWritten.boundsAt?_comma`), and for the last one from the bracket
behind it (`TextObject.Call.IsWritten.boundsAt?_close`). The loop of a count goes from a comma to the next
delimiter and stays at the bracket (`TextObject.Call.IsWritten.lastArgumentEnd?`), so a counted inner
argument ends where the last of that many arguments does (`TextObject.inner_argument_spans_counted`).
-/

set_option autoImplicit false
set_option relaxedAutoImplicit false

namespace ModalEdit.TextObject

/-! ### Calls as they are written -/

/-- A letter or digit of ASCII, or a character that may stand for a letter in a name. -/
def isPlainNamePart (c : Char) : Bool := c.isAlphanum || c == '_' || c == '$'

structure IsName (name : Text) : Prop where
  ne_nil : name ≠ []
  part : ∀ c ∈ name, isPlainNamePart c = true
  start : ∀ c ∈ name.head?, c.isDigit = false

instance (name : Text) : Decidable (IsName name) :=
  decidable_of_iff (name ≠ [] ∧ name.all isPlainNamePart = true ∧
      name.head?.all (fun c ↦ decide (c.isDigit = false)) = true)
    ⟨fun ⟨hne, hpart, hstart⟩ ↦ ⟨hne, List.all_eq_true.mp hpart, fun c hc ↦
      of_decide_eq_true ((Option.all_eq_true _ _).mp hstart c hc)⟩,
    fun h ↦ ⟨h.ne_nil, List.all_eq_true.mpr h.part, (Option.all_eq_true _ _).mpr fun c hc ↦
      decide_eq_true (h.start c hc)⟩⟩

/-- What may stand between the brackets of a call: a name, a call, or such behind a blank, and several of
these with commas between them. -/
inductive IsArguments : Text → Prop
  | name {n : Text} (hname : IsName n) : IsArguments n
  | call {n inner : Text} (hname : IsName n) (hinner : IsArguments inner) :
      IsArguments (n ++ '(' :: (inner ++ [')']))
  | blank {s : Text} (hs : IsArguments s) : IsArguments (' ' :: s)
  | more {first rest : Text} (hfirst : IsArguments first) (hrest : IsArguments rest) :
      IsArguments (first ++ ',' :: rest)

/-- One argument of a list: the blanks before it, its name, and the arguments that it is called with. -/
structure CallArgument where
  blanks : Nat
  head : Text
  called : Option Text

namespace CallArgument

def text (a : CallArgument) : Text :=
  a.head ++ a.called.elim [] fun inner ↦ '(' :: (inner ++ [')'])

def written (a : CallArgument) : Text := List.replicate a.blanks ' ' ++ a.text

structure IsWritten (a : CallArgument) : Prop where
  head : IsName a.head
  called : ∀ inner ∈ a.called, IsArguments inner

end CallArgument

/-- A call in a text. -/
structure Call where
  before : Text
  name : Text
  args : List CallArgument
  after : Text

namespace Call

def listText (args : List CallArgument) : Text := [','].intercalate (args.map CallArgument.written)

def text (c : Call) : Text := c.before ++ (c.name ++ '(' :: (listText c.args ++ ')' :: c.after))

/-- Where the bracket of the list is. -/
def bracket (c : Call) : Nat := c.before.length + c.name.length

/-- Where the i-th argument ends. -/
def argumentStop (c : Call) (i : Nat) : Nat := c.bracket + 1 + (listText (c.args.take (i + 1))).length

/-- Where the i-th argument begins, behind the blanks before it. -/
def argumentStart (c : Call) (i : Nat) : Nat :=
  c.argumentStop i - (c.args[i]?.elim 0 fun a ↦ a.text.length)

/-- The call begins a line, without a quote before it, and something is behind it. -/
structure IsWritten (c : Call) : Prop where
  before_feed : c.before.getLast? = some '\n'
  before_unquoted : ∀ d ∈ c.before, isQuote d = false
  name : IsName c.name
  args : ∀ a ∈ c.args, a.IsWritten
  after : c.after ≠ []

end Call

/-! ### Their texts are balanced -/

section Characters

variable {c : Char}

theorem lt_of_isAlphanum (h : c.isAlphanum = true) : c.toNat < 128 := by
  have hlast : c.val ≤ 'Z'.val ∨ c.val ≤ 'z'.val ∨ c.val ≤ '9'.val := by
    obtain halpha | hdigit := (Bool.or_eq_true _ _).mp h
    · obtain hupper | hlower := (Bool.or_eq_true _ _).mp halpha
      · exact .inl (of_decide_eq_true hupper).2
      · exact .inr (.inl (of_decide_eq_true ((Bool.and_eq_true _ _).mp hlower).2))
    · exact .inr (.inr (of_decide_eq_true ((Bool.and_eq_true _ _).mp hdigit).2))
  rcases hlast with hle | hle | hle <;> exact Nat.lt_of_le_of_lt hle (by decide)

/-- The characters of plain names are told by their codes. -/
theorem of_isPlainNamePart {p : Char → Prop} (h : isPlainNamePart c = true)
    (hcodes : ∀ n < 128, isPlainNamePart (Char.ofNat n) = true → p (Char.ofNat n)) : p c := by
  have hlt : c.toNat < 128 := by
    have hcases := h
    rw [isPlainNamePart, Bool.or_eq_true, Bool.or_eq_true, beq_iff_eq, beq_iff_eq] at hcases
    rcases hcases with (halphanum | rfl) | rfl
    · exact lt_of_isAlphanum halphanum
    all_goals decide
  rw [← Char.ofNat_toNat c] at h ⊢
  exact hcodes _ hlt h

instance (c : Char) : Decidable (IsOrdinary c) :=
  decidable_of_iff (_ ∧ _ ∧ _) ⟨fun ⟨h, h', h''⟩ ↦ ⟨h, h', h''⟩, fun ⟨h, h', h''⟩ ↦ ⟨h, h', h''⟩⟩

variable (h : isPlainNamePart c = true)
include h

theorem isOrdinary_of_isPlainNamePart : IsOrdinary c ∧ c ≠ ',' :=
  of_isPlainNamePart (p := fun c ↦ IsOrdinary c ∧ c ≠ ',') h (by decide +kernel)

theorem isNamePart_of_isPlainNamePart : isNamePart c = true ∧ Unicode.isWhiteSpace c = false :=
  of_isPlainNamePart (p := fun c ↦ isNamePart c = true ∧ Unicode.isWhiteSpace c = false) h
    (by decide +kernel)

theorem isNameStart_of_isPlainNamePart : c.isDigit = false → isNameStart c = true :=
  of_isPlainNamePart (p := fun c ↦ c.isDigit = false → isNameStart c = true) h (by decide +kernel)

end Characters

section Texts

variable {name s : Text}

/-- A name has no commas, and nor has a part of it. -/
theorem IsName.segment (h : IsName name) (hs : s ⊆ name) : Segment s :=
  .of_chars fun _ hc ↦ isOrdinary_of_isPlainNamePart (h.part _ (hs hc))

theorem IsArguments.balanced (h : IsArguments s) : Balanced s := by
  induction h with
  | name hname => exact (hname.segment (List.Subset.refl _)).balanced
  | call hname _ ih => exact (hname.segment (List.Subset.refl _)).balanced.append (.group ih .nil)
  | blank _ ih => exact .char (by decide) ih
  | more _ _ ihfirst ihrest => exact ihfirst.append (.char (by decide) ihrest)

theorem Balanced.isQuote_eq_false (h : Balanced s) : ∀ c ∈ s, isQuote c = false := by
  induction h with
  | nil => exact fun c hc ↦ absurd hc List.not_mem_nil
  | char hc _ ih => exact List.forall_mem_cons.mpr ⟨hc.quote, ih⟩
  | group _ _ ihinner ih =>
    refine List.forall_mem_cons.mpr ⟨by decide, fun c hc ↦ ?_⟩
    obtain hc | hc := List.mem_append.mp hc
    · exact ihinner c hc
    · exact List.forall_mem_cons.mpr ⟨by decide, ih⟩ c hc

end Texts

namespace CallArgument

variable {a : CallArgument}

theorem segment_blanks (k : Nat) : Segment (List.replicate k ' ') :=
  .of_chars fun c hc ↦ by
    rw [List.eq_of_mem_replicate hc]
    decide

theorem IsWritten.segment_called (h : a.IsWritten) :
    Segment (a.called.elim [] fun inner ↦ '(' :: (inner ++ [')'])) := by
  cases hcalled : a.called with
  | none => exact .nil
  | some inner => exact .group (h.called inner hcalled).balanced .nil

theorem IsWritten.segment (h : a.IsWritten) : Segment a.written :=
  (segment_blanks a.blanks).append ((h.head.segment (List.Subset.refl _)).append h.segment_called)

theorem IsWritten.text_ne_nil (h : a.IsWritten) : a.text ≠ [] :=
  List.append_ne_nil_of_left_ne_nil h.head.ne_nil _

theorem IsWritten.written_ne_nil (h : a.IsWritten) : a.written ≠ [] :=
  List.append_ne_nil_of_right_ne_nil _ h.text_ne_nil

end CallArgument

namespace Call

/-! ### One argument among the others -/

/-- Arguments with the commas behind them. -/
def frontText (front : List CallArgument) : Text := front.flatMap fun a ↦ a.written ++ [',']

/-- Arguments with the commas before them. -/
def backText (back : List CallArgument) : Text := back.flatMap fun a ↦ ',' :: a.written

section Split

variable {front back : List CallArgument}

theorem frontText_cons (a : CallArgument) (front : List CallArgument) :
    frontText (a :: front) = a.written ++ ',' :: frontText front := by
  rw [frontText, List.flatMap_cons, List.append_assoc, List.singleton_append, frontText]

theorem backText_cons (a : CallArgument) (back : List CallArgument) :
    backText (a :: back) = ',' :: (a.written ++ backText back) := by
  rw [backText, List.flatMap_cons, List.cons_append, backText]

theorem listText_cons (a : CallArgument) (back : List CallArgument) :
    listText (a :: back) = a.written ++ backText back := by
  induction back generalizing a with
  | nil =>
    rw [listText, List.map_singleton, List.intercalate_singleton, backText, List.flatMap_nil,
      List.append_nil]
  | cons b back ih =>
    rw [listText, List.map_cons, List.map_cons, List.intercalate_cons_cons, ← List.map_cons, ← listText,
      ih, backText_cons, List.append_assoc, List.singleton_append]

theorem listText_append (front : List CallArgument) (a : CallArgument) (back : List CallArgument) :
    listText (front ++ a :: back) = frontText front ++ (a.written ++ backText back) := by
  induction front with
  | nil => exact listText_cons a back
  | cons x front ih =>
    have hne : (front ++ a :: back).map CallArgument.written ≠ [] := by
      rw [List.map_append]
      exact List.append_ne_nil_of_right_ne_nil _ (List.cons_ne_nil _ _)
    rw [listText, List.cons_append, List.map_cons, List.intercalate_cons_of_ne_nil hne, ← listText, ih,
      frontText_cons, List.append_assoc, List.singleton_append, List.append_assoc, List.cons_append]

theorem isFront_frontText (h : ∀ a ∈ front, a.IsWritten) : IsFront (frontText front) := by
  induction front with
  | nil => exact ⟨.nil, fun c hc ↦ by cases hc⟩
  | cons a front ih =>
    obtain ⟨ha, hfront⟩ := List.forall_mem_cons.mp h
    rw [frontText_cons]
    refine ⟨ha.segment.balanced.append (.char (by decide) (ih hfront).balanced), fun c hc ↦ ?_⟩
    rw [List.getLast?_append_of_ne_nil _ (List.cons_ne_nil _ _), List.getLast?_cons, Option.mem_some] at hc
    cases hlast : (frontText front).getLast? with
    | none => rw [← hc, hlast, Option.getD_none]
    | some d => rw [← hc, hlast, Option.getD_some, (ih hfront).comma d hlast]

theorem isBack_backText (h : ∀ a ∈ back, a.IsWritten) : IsBack (backText back) := by
  induction back with
  | nil => exact ⟨.nil, fun c hc ↦ by cases hc⟩
  | cons a back ih =>
    obtain ⟨ha, hback⟩ := List.forall_mem_cons.mp h
    rw [backText_cons]
    exact ⟨.char (by decide) (ha.segment.balanced.append (ih hback).balanced),
      fun c hc ↦ (Option.some.inj hc).symm⟩

theorem argumentStop_eq {c : Call} {a : CallArgument} (hargs : c.args = front ++ a :: back) :
    c.argumentStop front.length =
      c.bracket + 1 + (frontText front).length + a.written.length := by
  rw [argumentStop, hargs, List.take_append, List.take_of_length_le (Nat.le_succ _),
    Nat.add_sub_cancel_left, List.take_succ_cons, List.take_zero, listText_append]
  simp only [List.length_append, backText, List.flatMap_nil, List.length_nil]
  omega

/-- The comma behind an argument, or the bracket behind the last one, is counted with the text before it. -/
theorem argumentStop_eq_add_frontText {c : Call} {a : CallArgument} (hargs : c.args = front ++ a :: back) :
    c.argumentStop front.length = c.bracket + (frontText (front ++ [a])).length := by
  rw [argumentStop_eq hargs]
  simp only [frontText, List.flatMap_append, List.flatMap_singleton, List.length_append,
    List.length_singleton]
  omega

theorem argumentStart_eq {c : Call} {a : CallArgument} (hargs : c.args = front ++ a :: back) :
    c.argumentStart front.length =
      c.bracket + 1 + (frontText front).length + a.blanks := by
  rw [argumentStart, argumentStop_eq hargs, hargs, List.getElem?_append_right (Nat.le_refl _),
    Nat.sub_self]
  simp only [List.getElem?_cons_zero, Option.elim_some, CallArgument.written, List.length_append,
    List.length_replicate]
  omega

theorem argumentStart_le_argumentStop (c : Call) (i : Nat) : c.argumentStart i ≤ c.argumentStop i :=
  Nat.sub_le _ _

theorem argumentStop_mono (c : Call) {i k : Nat} (h : i ≤ k) : c.argumentStop i ≤ c.argumentStop k := by
  have hprefix : (listText (c.args.take (i + 1))).length ≤
      (listText (c.args.take (i + 1) ++ (c.args.drop (i + 1)).take (k - i))).length := by
    cases c.args.take (i + 1) with
    | nil => exact Nat.zero_le _
    | cons a front =>
      rw [List.cons_append, listText_cons, listText_cons, backText, backText, List.flatMap_append]
      simp only [List.length_append]
      omega
  rw [← List.take_add, show i + 1 + (k - i) = k + 1 by omega] at hprefix
  exact Nat.add_le_add_left hprefix _

end Split

/-! ### The search in the list -/

/-- Behind a comma, and at the end of the list, a turn of the count goes on from the delimiter. -/
theorem lastArgumentEnd?_succ {t : Text} {position : Int} {b : ArgumentBounds} {m : Nat}
    (hbounds : boundsAt? t position = some b)
    (h : charAtInt t b.left = ',' ∨ b.rightBracket ≤ b.right + 1) (inner : Bool) :
    TextObject.lastArgumentEnd? t inner (m + 1) position =
      TextObject.lastArgumentEnd? t inner m b.right := by
  have houter : (b.outer t).2 = b.right := by
    obtain hcomma | hlast := h
    · rw [ArgumentBounds.outer, if_pos hcomma]
    · have hnone : ¬(b.right + 1 < b.rightBracket ∧ charAtInt t b.right = ',') :=
        fun hmore ↦ Int.not_lt.mpr hlast hmore.1
      rw [ArgumentBounds.outer, if_neg hnone, apply_ite Prod.snd, ite_self]
  rw [TextObject.lastArgumentEnd?, hbounds, Option.bind_eq_bind, Option.bind_some, apply_ite Prod.snd,
    houter]
  exact congrArg _ (ite_self _)

section Search

variable {c : Call} {front back : List CallArgument} {a : CallArgument} (hc : c.IsWritten)
include hc

theorem IsWritten.balanced : Balanced (listText c.args) := by
  cases hargs : c.args with
  | nil => exact .nil
  | cons a back =>
    obtain ⟨ha, hback⟩ := List.forall_mem_cons.mp (hargs ▸ hc.args)
    rw [listText_cons]
    exact ha.segment.balanced.append (isBack_backText hback).balanced

theorem IsWritten.named : nameBefore c.text c.bracket = true := by
  obtain ⟨front, hbefore⟩ := List.getLast?_eq_some_iff.mp hc.before_feed
  cases hname : c.name with
  | nil => exact absurd hname hc.name.ne_nil
  | cons first rest =>
    have hpart : ∀ d ∈ first :: rest, isPlainNamePart d = true := hname ▸ hc.name.part
    have hdigit : first.isDigit = false := hc.name.start first (by rw [hname]; rfl)
    have hreads : Reads c.text c.before.length (first :: rest) := hname ▸ reads_middle c.before c.name _
    have hfeed : Reads c.text front.length ['\n'] := by
      rw [text, hbefore, List.append_assoc]
      exact reads_middle front ['\n'] _
    have hlength : (c.before.length : Int) = front.length + 1 := by
      rw [hbefore, List.length_append]
      rfl
    rw [bracket, Int.natCast_add, hname]
    have hstart := isNameStart_of_isPlainNamePart (hpart first List.mem_cons_self) hdigit
    refine nameBefore_of_reads hreads hstart (fun d hd ↦ isNamePart_of_isPlainNamePart (hpart d hd))
      (by omega) ?_
    rw [hlength, Int.add_sub_cancel, hfeed.head]
    decide +kernel

theorem IsWritten.unquoted (j : Int) (hj : 0 ≤ j) (hle : j ≤ c.bracket + 1 + (listText c.args).length) :
    isQuote (charAtInt c.text j) = false := by
  obtain ⟨j, rfl⟩ := Int.eq_ofNat_of_zero_le hj
  have hbracket : c.bracket = c.before.length + c.name.length := rfl
  have hlt : j < (c.before ++ (c.name ++ '(' :: (listText c.args ++ [')']))).length := by
    simp only [List.length_append, List.length_cons, List.length_nil]
    omega
  have hreads := reads_middle [] (c.before ++ (c.name ++ '(' :: (listText c.args ++ [')']))) c.after j hlt
  have htext : [] ++ (c.before ++ (c.name ++ '(' :: (listText c.args ++ [')'])) ++ c.after) = c.text := by
    simp only [text, List.append_assoc, List.cons_append, List.nil_append]
  rw [htext, List.length_nil, Int.natCast_zero, Int.zero_add] at hreads
  have hunquoted : ∀ d ∈ c.before ++ (c.name ++ '(' :: (listText c.args ++ [')'])), isQuote d = false :=
    List.forall_mem_append.mpr ⟨hc.before_unquoted, ((hc.name.segment (List.Subset.refl _)).balanced.append
      (.group hc.balanced .nil)).isQuote_eq_false⟩
  rw [hreads]
  exact hunquoted _ (List.getElem_mem hlt)

/-- The list of the call stands where the search needs it. -/
theorem IsWritten.callAt : CallAt c.text c.bracket (listText c.args) := by
  have htext : c.text = (c.before ++ c.name) ++ (('(' :: (listText c.args ++ [')'])) ++ c.after) := by
    simp only [text, List.append_assoc, List.cons_append, List.nil_append]
  have hbracket : c.bracket = (c.before ++ c.name).length := List.length_append.symm
  have hname := List.length_pos_of_ne_nil hc.name.ne_nil
  have hafter := List.length_pos_of_ne_nil hc.after
  refine ⟨?_, ?_, ?_, hc.named, hc.unquoted⟩
  · rw [htext, hbracket]
    exact reads_middle _ _ _
  · rw [hbracket, List.length_append]
    omega
  · rw [htext, hbracket]
    simp only [List.length_append, List.length_cons, List.length_nil]
    omega

section Cut

variable (hargs : c.args = front ++ a :: back)
include hargs

theorem IsWritten.split : (∀ b ∈ front, b.IsWritten) ∧ a.IsWritten ∧ ∀ b ∈ back, b.IsWritten := by
  obtain ⟨hfront, hrest⟩ := List.forall_mem_append.mp (hargs ▸ hc.args)
  exact ⟨hfront, List.forall_mem_cons.mp hrest⟩

theorem IsWritten.callAt_cut {u v : Text} (hcut : a.written = u ++ v) :
    CallAt c.text c.bracket (frontText front ++ (u ++ (v ++ backText back))) := by
  have hcall := hc.callAt
  rwa [hargs, listText_append, hcut, List.append_assoc] at hcall

/-- What stands behind an argument. -/
theorem IsWritten.reads_behind : Reads c.text (c.argumentStop front.length) (backText back ++ [')']) := by
  have hreads := (hc.callAt_cut hargs (List.append_nil a.written).symm).reads_v
  rw [List.nil_append] at hreads
  rw [argumentStop_eq hargs]
  push_cast
  exact hreads

/-- The bounds of an argument, from where it is cut. -/
theorem IsWritten.boundsAround? {u v : Text} (hcut : a.written = u ++ v) (hu : Segment u) (hv : Segment v)
    {left : Int} (hleft : left = c.bracket + (frontText front).length + u.length) :
    TextObject.boundsAround? c.text left (left + 1) =
      some ⟨c.bracket + (frontText front).length, c.argumentStop front.length,
        c.argumentStop front.length + (backText back).length⟩ := by
  obtain ⟨hfront, ha, hback⟩ := hc.split hargs
  have hbounds := (hc.callAt_cut hargs hcut).boundsAround? (isFront_frontText hfront) hu hv
    (isBack_backText hback) (hcut ▸ ha.written_ne_nil)
  have hstop : (c.argumentStop front.length : Int) = c.bracket + 1 +
      (frontText front).length + u.length + v.length := by
    rw [argumentStop_eq hargs, hcut, List.length_append]
    push_cast
    omega
  rw [hstop, hleft]
  rwa [show (c.bracket + 1 + (frontText front).length + u.length : Int) =
    c.bracket + (frontText front).length + u.length + 1 by omega] at hbounds ⊢

omit hc in
theorem argumentStop_le : (c.argumentStop front.length : Int) ≤
    c.bracket + 1 + (listText c.args).length := by
  rw [argumentStop_eq hargs, hargs, listText_append]
  simp only [List.length_append]
  omega

/-- Behind the delimiter and the blanks the argument begins. -/
theorem IsWritten.scanAhead_blanks {limit : Int} (hlimit : c.argumentStart front.length ≤ limit) :
    scanAhead c.text Unicode.isWhiteSpace (c.bracket + (frontText front).length + 1) limit =
      c.argumentStart front.length := by
  obtain ⟨-, ha, -⟩ := hc.split hargs
  have hstart := argumentStart_eq hargs
  have hreads : Reads c.text (c.bracket + (frontText front).length + 1) a.written := by
    have hcut := (hc.callAt_cut hargs (List.nil_append a.written).symm).reads_v.left
    rwa [List.length_nil, show (c.bracket + 1 + (frontText front).length + (0 : Nat) : Int) =
      c.bracket + (frontText front).length + 1 by omega] at hcut
  have hblanks : ∀ d ∈ List.replicate a.blanks ' ', Unicode.isWhiteSpace d = true := fun d hd ↦ by
    rw [List.eq_of_mem_replicate hd]
    decide
  have htext := hreads.right
  rw [List.length_replicate] at htext
  rw [scanAhead_pass hblanks hreads.left (by rw [List.length_replicate]; omega), List.length_replicate,
    scanAhead_of_stop fun _ ↦ ?_]
  · omega
  · cases hhead : a.head with
    | nil => exact absurd hhead ha.head.ne_nil
    | cons first rest =>
      have hpart := ha.head.part first (hhead ▸ List.mem_cons_self)
      rw [CallArgument.text, hhead] at htext
      rw [htext.head]
      exact (isNamePart_of_isPlainNamePart hpart).2

/-- From a character of its name the delimiters of the argument are found. -/
theorem IsWritten.boundsAt?_head {j : Nat} (hj : j < a.head.length) :
    TextObject.boundsAt? c.text (c.argumentStart front.length + j : Nat) =
      some ⟨c.bracket + (frontText front).length, c.argumentStop front.length,
        c.argumentStop front.length + (backText back).length⟩ := by
  obtain ⟨-, ha, -⟩ := hc.split hargs
  have hstart := argumentStart_eq hargs
  have hcut (k : Nat) : a.written = (List.replicate a.blanks ' ' ++ a.head.take k) ++
      (a.head.drop k ++ a.called.elim [] fun inner ↦ '(' :: (inner ++ [')'])) := by
    rw [List.append_assoc, ← List.append_assoc (a.head.take k), List.take_append_drop]
    rfl
  have hlength (k : Nat) (hk : k ≤ a.head.length) :
      (List.replicate a.blanks ' ' ++ a.head.take k).length = a.blanks + k := by
    rw [List.length_append, List.length_replicate, List.length_take_of_le hk]
  have hchar : charAtInt c.text (c.argumentStart front.length + j : Nat) = a.head[j] := by
    have hreads := (hc.callAt_cut hargs (hcut j)).reads_v
    rw [List.drop_eq_getElem_cons hj, hlength j (Nat.le_of_lt hj)] at hreads
    rw [hstart, ← hreads.head]
    congr 1
    omega
  have hordinary : IsOrdinary a.head[j] :=
    (isOrdinary_of_isPlainNamePart (ha.head.part _ (List.getElem_mem hj))).1
  rw [hc.callAt.boundsAt?_eq, hchar, if_pos hordinary.closing]
  · refine hc.boundsAround? hargs (hcut (j + 1))
      ((CallArgument.segment_blanks _).append (ha.head.segment (List.take_subset _ _)))
        ((ha.head.segment (List.drop_subset _ _)).append ha.segment_called) ?_
    rw [hlength (j + 1) hj, hstart]
    omega
  · have hle := argumentStop_le hargs
    have hwritten := congrArg List.length (hcut j)
    rw [List.length_append, hlength j (Nat.le_of_lt hj)] at hwritten
    rw [argumentStop_eq hargs] at hle
    omega

end Cut

theorem IsWritten.charAtInt_comma {b : CallArgument} {others : List CallArgument}
    (hargs : c.args = front ++ a :: b :: others) :
    charAtInt c.text (c.argumentStop front.length) = ',' := by
  have hreads := hc.reads_behind hargs
  rw [backText_cons] at hreads
  exact hreads.head

/-- From the comma behind an argument those of the next one are. -/
theorem IsWritten.boundsAt?_comma {b : CallArgument} {others : List CallArgument}
    (hargs : c.args = front ++ a :: b :: others) :
    TextObject.boundsAt? c.text (c.argumentStop front.length) =
      some ⟨c.argumentStop front.length, c.argumentStop (front.length + 1),
        c.argumentStop (front.length + 1) + (backText others).length⟩ := by
  have hnext : c.args = (front ++ [a]) ++ b :: others := by
    rw [hargs, List.append_assoc, List.singleton_append]
  have hfront : (c.argumentStop front.length : Int) = c.bracket + (frontText (front ++ [a])).length :=
    congrArg Nat.cast (argumentStop_eq_add_frontText hargs)
  have hbounds : TextObject.boundsAround? c.text (c.argumentStop front.length)
      (c.argumentStop front.length + 1) = _ :=
    hc.boundsAround? hnext (List.nil_append _).symm .nil (hc.split hnext).2.1.segment
      (by rw [List.length_nil]; omega)
  rw [hc.callAt.boundsAt?_eq (argumentStop_le hargs), hc.charAtInt_comma hargs,
    if_pos (by decide), hbounds, ← hfront, List.length_append, List.length_singleton]

/-- From the bracket behind the last one its own are. -/
theorem IsWritten.boundsAt?_close (hargs : c.args = front ++ [a]) :
    TextObject.boundsAt? c.text (c.argumentStop front.length) =
      some ⟨c.bracket + (frontText front).length, c.argumentStop front.length,
        c.argumentStop front.length⟩ := by
  have hclose : charAtInt c.text (c.argumentStop front.length) = ')' := (hc.reads_behind hargs).head
  have hbounds := hc.boundsAround? hargs (List.append_nil _).symm (hc.split hargs).2.1.segment .nil rfl
  have hleft : (c.argumentStop front.length : Int) - 1 =
      c.bracket + (frontText front).length + a.written.length := by
    rw [argumentStop_eq hargs]
    omega
  rw [← hleft, Int.sub_add_cancel] at hbounds
  rw [hc.callAt.boundsAt?_eq (argumentStop_le hargs), hclose, if_neg (by decide), hbounds,
    backText, List.flatMap_nil, List.length_nil, Int.natCast_zero, Int.add_zero]

/-- The loop of a count takes the next argument while there is one. -/
theorem IsWritten.lastArgumentEnd? (hargs : c.args = front ++ a :: back) (inner : Bool) (m : Nat) :
    TextObject.lastArgumentEnd? c.text inner m (c.argumentStop front.length) =
      some ((c.argumentStop (min (front.length + m) (front.length + back.length)) : Nat) : Int) := by
  -- A turn moves the place where the list is cut behind the next argument, so the cut is general.
  induction m generalizing front a back with
  | zero => rw [TextObject.lastArgumentEnd?, Nat.add_zero, Nat.min_eq_left (Nat.le_add_right _ _)]
  | succ m ih =>
    cases back with
    | nil =>
      rw [lastArgumentEnd?_succ (hc.boundsAt?_close hargs) (.inr (Int.le_add_one (Int.le_refl _))) inner,
        ih hargs, List.length_nil, Nat.add_zero, Nat.min_eq_right (Nat.le_add_right _ _),
        Nat.min_eq_right (Nat.le_add_right _ _)]
    | cons b others =>
      have hnext : c.args = (front ++ [a]) ++ b :: others := by
        rw [hargs, List.append_assoc, List.singleton_append]
      have hrest := ih hnext
      rw [List.length_append, List.length_singleton] at hrest
      rw [lastArgumentEnd?_succ (hc.boundsAt?_comma hargs) (.inl (hc.charAtInt_comma hargs)) inner, hrest,
        List.length_cons, Nat.add_assoc, Nat.add_comm 1 m, Nat.add_assoc, Nat.add_comm 1 others.length]

end Search

end Call

/-- A counted object, from the ends of its first argument and the end of its last one. -/
theorem argumentRange_of_bounds {t : Text} {offset count start first stop : Nat} {b : ArgumentBounds}
    {inner : Bool} (hbounds : boundsAt? t offset = some b)
    (hends : (if inner then b.inner t else b.outer t) = ((start : Int), (first : Int)))
    (hstop : lastArgumentEnd? t inner (max count 1 - 1) first = some (stop : Int)) (hle : start ≤ stop) :
    argumentRange t offset count inner = some (.between start stop .characterwise) := by
  rw [argumentRange, hbounds, Option.bind_eq_bind, Option.bind_some, hends]
  dsimp only
  rw [hstop, Option.bind_eq_bind, Option.bind_some, if_neg (by omega), Int.toNat_natCast,
    Int.toNat_natCast, Nat.max_eq_left hle]
  rfl

/-- A counted inner argument reaches from the start of the argument around the caret to the end of the
last of that many, or of the last one of the list. -/
theorem inner_argument_spans_counted (c : Call) (hc : c.IsWritten) {i j n : Nat} {a : CallArgument}
    (ha : c.args[i]? = some a) (hj : j < a.head.length) (hn : 1 ≤ n) :
    ∃ r, argumentRange c.text (c.argumentStart i + j) n true = some r ∧ r.start = c.argumentStart i ∧
      r.stop = c.argumentStop (min (i + n - 1) (c.args.length - 1)) ∧ r.kind = .characterwise := by
  obtain ⟨hi, hget⟩ := List.getElem?_eq_some_iff.mp ha
  have hargs : c.args = c.args.take i ++ a :: c.args.drop (i + 1) := by
    rw [← hget, ← List.drop_eq_getElem_cons hi, List.take_append_drop]
  have hfront : (c.args.take i).length = i := List.length_take_of_le (Nat.le_of_lt hi)
  have hlast : min (i + (max n 1 - 1)) (i + (c.args.drop (i + 1)).length) =
      min (i + n - 1) (c.args.length - 1) := by
    rw [List.length_drop]
    omega
  have hbounds := hc.boundsAt?_head hargs hj
  have hstart := hc.scanAhead_blanks hargs (Int.ofNat_le.mpr (c.argumentStart_le_argumentStop _))
  have hstop := hc.lastArgumentEnd? hargs true (max n 1 - 1)
  rw [hfront] at hbounds hstart hstop
  rw [hlast] at hstop
  have hle : c.argumentStart i ≤ c.argumentStop (min (i + n - 1) (c.args.length - 1)) :=
    Nat.le_trans (c.argumentStart_le_argumentStop i) (c.argumentStop_mono (by omega))
  exact ⟨_, argumentRange_of_bounds hbounds (Prod.ext hstart rfl) hstop hle, Nat.min_eq_left hle,
    Nat.max_eq_right hle, rfl⟩

/-- Two arguments from the second one on, which is a call with a call in it. -/
theorem two_arguments_from_nested_call :
    let nested : CallArgument := ⟨1, "g".toList, some "b, h(x,  y)".toList⟩
    let c : Call := ⟨"x = 1\n".toList, "f".toList,
      [⟨0, "a0".toList, none⟩, nested, ⟨2, "$c".toList, none⟩, ⟨0, "d".toList, none⟩], "\nz".toList⟩
    c.text = "x = 1\nf(a0, g(b, h(x,  y)),  $c,d)\nz".toList ∧ c.IsWritten ∧
      c.args[1]? = some nested ∧ 0 < nested.head.length ∧ 1 ≤ 2 ∧
        ∃ r, argumentRange c.text 12 2 true = some r ∧ r.start = 12 ∧ r.stop = 31 ∧
          r.kind = .characterwise := by
  intro nested c
  have hplain {a : CallArgument} (hhead : IsName a.head) (hcalled : a.called = none) : a.IsWritten :=
    ⟨hhead, fun inner h ↦ by cases hcalled ▸ h⟩
  have hpair : IsArguments "x,  y".toList :=
    .more (.name (n := "x".toList) (by decide)) (.blank (.blank (.name (n := "y".toList) (by decide))))
  have hinner : IsArguments "b, h(x,  y)".toList :=
    .more (.name (n := "b".toList) (by decide)) (.blank (.call (n := "h".toList) (by decide) hpair))
  have hnested : nested.IsWritten := ⟨by decide, fun inner h ↦ Option.some.inj h ▸ hinner⟩
  have hargs : ∀ a ∈ c.args, a.IsWritten := by
    intro a ha
    simp only [c, List.mem_cons, List.not_mem_nil, or_false] at ha
    obtain rfl | rfl | rfl | rfl := ha
    · exact hplain (by decide) rfl
    · exact hnested
    · exact hplain (by decide) rfl
    · exact hplain (by decide) rfl
  have hwritten : c.IsWritten := ⟨rfl, List.all_iff_forall_prop.mp (by decide), by decide, hargs, by decide⟩
  obtain ⟨r, hrange, hstart, hstop, hkind⟩ := inner_argument_spans_counted c hwritten (i := 1) (j := 0)
    (n := 2) (a := nested) rfl (by decide) (by decide)
  have hat : c.argumentStart 1 = 12 := by decide +kernel
  have hend : c.argumentStop 2 = 31 := by decide +kernel
  rw [hat] at hrange hstart
  exact ⟨by decide +kernel, hwritten, rfl, by decide, by decide, r, hrange, hstart, hstop.trans hend, hkind⟩

end ModalEdit.TextObject
