import Mathlib.Data.List.DropRight
import ModalEdit.Proofs.Marks
import ModalEdit.Register

/-!
Registers told by what was put into them. A call stores its text under a letter or without one, or it goes
to `"_` and is lost. The last yank, the deletions from the newest on, the text of a letter and what was
stored last are each read off the list of calls (`RegisterCall.lastYank`, `RegisterCall.deletions`,
`RegisterCall.letterContent`, `RegisterCall.lastStored`). One more call changes each of them as it changes
the registers (`Registers.Recalls.perform`), so whatever the calls, every name stands for what they tell
of it (`Registers.foldl_perform_toldBy`).
-/

set_option autoImplicit false
set_option relaxedAutoImplicit false

namespace ModalEdit

/-- A call that hands a text to the registers. -/
inductive RegisterCall where
  | yank (target : Option Char) (content : RegisterContent)
  | delete (target : Option Char) (content : RegisterContent)
  deriving DecidableEq, Repr

namespace RegisterCall

def target : RegisterCall → Option Char
  | yank target _ => target
  | delete target _ => target

def content : RegisterCall → RegisterContent
  | yank _ content => content
  | delete _ content => content

def isYank : RegisterCall → Bool
  | yank .. => true
  | delete .. => false

/-- The text of the call goes nowhere. -/
def isLost (call : RegisterCall) : Bool := call.target = some Registers.blackHole

/-- The letter of the register that a call writes. -/
def letter? (call : RegisterCall) : Option Char := call.target.filter Char.isAlpha

/-- The text is stored, and not under a letter. -/
def isUnlettered (call : RegisterCall) : Bool := !call.isLost && call.letter?.isNone

/-- A call writes the register of a small letter, by that letter or by the capital. -/
def writes (small : Char) (call : RegisterCall) : Bool := call.letter?.any (·.toLower = small)

def byCapital (call : RegisterCall) : Bool := call.letter?.any Char.isUpper

/-! ### What the calls tell, the earliest first -/

def lastYank (calls : List RegisterCall) : Option RegisterContent :=
  (calls.filter fun call ↦ call.isUnlettered && call.isYank).getLast?.map content

/-- The newest first. -/
def deletions (calls : List RegisterCall) : List RegisterContent :=
  (calls.filter fun call ↦ call.isUnlettered && !call.isYank).reverse.map content

/-- The last write by the small letter, if there is one, and all writes by the capital after it. -/
def sources (small : Char) (calls : List RegisterCall) : List RegisterCall :=
  let written := calls.filter (writes small)
  (written.rdropWhile byCapital).getLast?.toList ++ written.rtakeWhile byCapital

/-- The texts of these writes one behind the other, of the kind of the first. -/
def letterContent (small : Char) (calls : List RegisterCall) : Option RegisterContent :=
  (sources small calls).head?.map fun first ↦
    { text := (sources small calls).flatMap (·.content.text), kind := first.content.kind }

/-- What the last call that was not lost has stored: its text, or all that its letter stands for. -/
def lastStored (calls : List RegisterCall) : Option RegisterContent :=
  (calls.filter fun call ↦ !call.isLost).getLast?.bind fun call ↦
    match call.letter? with
    | some letter => letterContent letter.toLower calls
    | none => some call.content

/-! ### One more call -/

section Concat

variable {calls : List RegisterCall} {call : RegisterCall} {small letter : Char}

theorem filter_concat (p : RegisterCall → Bool) (calls : List RegisterCall) (call : RegisterCall) :
    (calls ++ [call]).filter p = if p call then calls.filter p ++ [call] else calls.filter p := by
  rw [List.filter_append, List.filter_singleton]
  cases p call with
  | true => rfl
  | false => exact List.append_nil _

theorem lastYank_concat (calls : List RegisterCall) (call : RegisterCall) :
    lastYank (calls ++ [call]) =
      if call.isUnlettered && call.isYank then some call.content else lastYank calls := by
  rw [lastYank, filter_concat]
  split
  case isTrue => rw [List.getLast?_concat, Option.map_some]
  case isFalse => rfl

theorem deletions_concat (calls : List RegisterCall) (call : RegisterCall) :
    deletions (calls ++ [call]) =
      if call.isUnlettered && !call.isYank then call.content :: deletions calls else deletions calls := by
  rw [deletions, filter_concat]
  split
  case isTrue => rw [List.reverse_concat, List.map_cons, ← deletions]
  case isFalse => rfl

theorem sources_concat (small : Char) (calls : List RegisterCall) (call : RegisterCall) :
    sources small (calls ++ [call]) =
      if call.writes small then if call.byCapital then sources small calls ++ [call] else [call]
      else sources small calls := by
  rw [sources, filter_concat]
  split
  case isTrue =>
    split
    case isTrue hcapital =>
      rw [List.rdropWhile_concat_pos _ _ _ hcapital, List.rtakeWhile_concat_pos _ _ _ hcapital,
        ← List.append_assoc, ← sources]
    case isFalse hsmall =>
      rw [List.rdropWhile_concat_neg _ _ _ hsmall, List.rtakeWhile_concat_neg _ _ _ hsmall,
        List.getLast?_concat]
      rfl
  case isFalse => rfl

theorem letterContent_concat_of_not_writes (h : ¬call.writes small = true) :
    letterContent small (calls ++ [call]) = letterContent small calls := by
  rw [letterContent, sources_concat, if_neg h, ← letterContent]

theorem letterContent_concat (h : call.letter? = some letter) :
    letterContent letter.toLower (calls ++ [call]) =
      some (match letterContent letter.toLower calls with
        | some existing =>
          if letter.isUpper then { existing with text := existing.text ++ call.content.text }
          else call.content
        | none => call.content) := by
  have hwrites : call.writes letter.toLower = true := by
    rw [writes, h]
    exact decide_eq_true rfl
  have hcapital : call.byCapital = letter.isUpper := by rw [byCapital, h, Option.any_some]
  rw [letterContent, sources_concat, if_pos hwrites, hcapital, letterContent]
  cases letter.isUpper <;> cases sources letter.toLower calls <;> simp

/-- A call that names no letter stores its own text. -/
theorem lastStored_concat_of_isUnlettered (h : call.isUnlettered = true) :
    lastStored (calls ++ [call]) = some call.content := by
  obtain ⟨hlost, hletter⟩ := Bool.and_eq_true_iff.mp h
  rw [lastStored, filter_concat, if_pos hlost, List.getLast?_concat, Option.bind_some,
    Option.isNone_iff_eq_none.mp hletter]

theorem lastStored_concat_of_letter (h : call.letter? = some letter) :
    lastStored (calls ++ [call]) = letterContent letter.toLower (calls ++ [call]) := by
  have hlost : (!call.isLost) = true := by
    rw [Bool.not_eq_true', isLost, decide_eq_false_iff_not]
    intro htarget
    rw [letter?, htarget] at h
    cases h
  rw [lastStored, filter_concat, if_pos hlost, List.getLast?_concat, Option.bind_some, h]

theorem letter?_eq_none_of_isLost (h : call.isLost = true) : call.letter? = none := by
  rw [letter?, of_decide_eq_true h]
  rfl

theorem letterContent_concat_of_letter?_eq_none (h : call.letter? = none) :
    letterContent small (calls ++ [call]) = letterContent small calls :=
  letterContent_concat_of_not_writes (by simp [writes, h])

theorem lastStored_concat_of_isLost (h : call.isLost = true) :
    lastStored (calls ++ [call]) = lastStored calls := by
  have hletter := letter?_eq_none_of_isLost h
  rw [lastStored, filter_concat, if_neg (by simp [h])]
  simp only [letterContent_concat_of_letter?_eq_none hletter]
  rfl

end Concat

end RegisterCall

namespace Registers

open RegisterCall

variable {r : Registers} {calls : List RegisterCall} {call : RegisterCall} {letter : Char}

def perform (r : Registers) : RegisterCall → Registers
  | .yank target content => r.recordYank target content
  | .delete target content => r.recordDelete target content

/-! ### What one call does -/

theorem perform_eq (r : Registers) (call : RegisterCall) :
    r.perform call =
      if call.isLost then r
      else match call.letter? with
        | some letter => r.writeNamed letter call.content
        | none => { r with
            unnamed := some call.content
            lastYank := if call.isYank then some call.content else r.lastYank
            deleted :=
              if call.isYank then r.deleted else (call.content :: r.deleted).take deletedLimit } := by
  simp only [isLost, decide_eq_true_eq]
  cases call with
  | yank => rfl
  | delete => rfl

theorem lookup_writeNamed (r : Registers) (letter small : Char) (content : RegisterContent) :
    (r.writeNamed letter content).named.lookup small =
      if small = letter.toLower then some (r.written letter content) else r.named.lookup small := by
  rw [writeNamed, lookup_cons_eq_ite]
  split
  case isTrue => rfl
  case isFalse hother =>
    refine lookup_filter_of_forall (fun _ ↦ ?_) r.named
    exact bne_iff_ne.mpr hother

/-! ### What any calls do -/

/-- The registers are as the calls tell. -/
structure Recalls (r : Registers) (calls : List RegisterCall) : Prop where
  lastYank : r.lastYank = RegisterCall.lastYank calls
  deleted : r.deleted = (deletions calls).take deletedLimit
  named : ∀ small, r.named.lookup small = letterContent small calls
  unnamed : r.unnamed = lastStored calls

theorem Recalls.written (h : r.Recalls calls) (hletter : call.letter? = some letter) :
    some (r.written letter call.content) = letterContent letter.toLower (calls ++ [call]) := by
  rw [letterContent_concat hletter, ← h.named]
  rfl

theorem Recalls.concat_of_isLost (h : r.Recalls calls) (hlost : call.isLost = true) :
    r.Recalls (calls ++ [call]) := by
  have hletter := letter?_eq_none_of_isLost hlost
  have hother : call.isUnlettered = false := by rw [isUnlettered, hlost]; rfl
  refine ⟨?_, ?_, fun small ↦ ?_, ?_⟩
  · rw [lastYank_concat, hother]
    exact h.lastYank
  · rw [deletions_concat, hother]
    exact h.deleted
  · rw [letterContent_concat_of_letter?_eq_none hletter]
    exact h.named small
  · rw [lastStored_concat_of_isLost hlost]
    exact h.unnamed

theorem Recalls.writeNamed (h : r.Recalls calls) (hletter : call.letter? = some letter) :
    (r.writeNamed letter call.content).Recalls (calls ++ [call]) := by
  have hother : call.isUnlettered = false := by rw [isUnlettered, hletter, Bool.and_comm]; rfl
  refine ⟨?_, ?_, fun small ↦ ?_, ?_⟩
  · rw [lastYank_concat, hother]
    exact h.lastYank
  · rw [deletions_concat, hother]
    exact h.deleted
  · rw [lookup_writeNamed]
    split
    case isTrue hsmall =>
      rw [hsmall]
      exact h.written hletter
    case isFalse hsmall =>
      have hnot : ¬call.writes small = true := by
        rw [writes, hletter, Option.any_some, decide_eq_true_eq]
        exact Ne.symm hsmall
      rw [letterContent_concat_of_not_writes hnot]
      exact h.named small
  · rw [lastStored_concat_of_letter hletter]
    exact h.written hletter

theorem Recalls.perform (h : r.Recalls calls) (call : RegisterCall) :
    (r.perform call).Recalls (calls ++ [call]) := by
  rw [perform_eq]
  cases hlost : call.isLost with
  | true => exact h.concat_of_isLost hlost
  | false =>
    cases hletter : call.letter? with
    | some letter => exact h.writeNamed hletter
    | none =>
      have hunlettered : call.isUnlettered = true := by rw [isUnlettered, hlost, hletter]; rfl
      refine ⟨?_, ?_, fun small ↦ ?_, ?_⟩
      · rw [lastYank_concat, hunlettered, ← h.lastYank]
        rfl
      · rw [deletions_concat, hunlettered]
        cases call.isYank with
        | true => exact h.deleted
        | false =>
          -- the oldest of ten deletions is dropped here, and it was the last of nine there
          show (call.content :: r.deleted).take deletedLimit =
            (call.content :: deletions calls).take deletedLimit
          rw [h.deleted, deletedLimit, List.take_succ_cons, List.take_succ_cons, List.take_take]
          rfl
      · rw [letterContent_concat_of_letter?_eq_none hletter]
        exact h.named small
      · rw [lastStored_concat_of_isUnlettered hunlettered]
        rfl

theorem foldl_perform_recalls (calls : List RegisterCall) :
    (calls.foldl Registers.perform {}).Recalls calls := by
  induction calls using List.reverseRecOn with
  | nil => exact ⟨rfl, rfl, fun _ ↦ rfl, rfl⟩
  | append_singleton calls call ih =>
    rw [List.foldl_concat]
    exact ih.perform call

/-! ### What the names stand for -/

theorem get?_of_isAlpha (r : Registers) (h : letter.isAlpha = true) :
    r.get? (some letter) = r.named.lookup letter.toLower := by
  have hquote : letter ≠ '"' := by
    rintro rfl
    exact absurd h (by decide)
  have hzero : letter ≠ '0' := by
    rintro rfl
    exact absurd h (by decide)
  have hfirst : 'A'.val ≤ letter.val ∨ 'a'.val ≤ letter.val :=
    ((Bool.or_eq_true _ _).mp h).imp (fun hupper ↦ (of_decide_eq_true hupper).1)
      fun hlower ↦ of_decide_eq_true ((Bool.and_eq_true _ _).mp hlower).1
  have hdigit : ¬letter.isDigit = true := by
    intro hdigit
    have hlast : letter.val ≤ '9'.val := of_decide_eq_true ((Bool.and_eq_true _ _).mp hdigit).2
    rcases hfirst with hfirst | hfirst
    · exact absurd (UInt32.le_trans hfirst hlast) (by decide)
    · exact absurd (UInt32.le_trans hfirst hlast) (by decide)
  rw [get?, if_neg hquote, if_neg hzero, if_neg hdigit, if_pos h]

theorem get?_of_digit (r : Registers) {digit : Char} (h1 : '1' ≤ digit) (h9 : digit ≤ '9') :
    r.get? (some digit) = r.deleted[digit.toNat - '1'.toNat]? := by
  have hquote : digit ≠ '"' := by
    rintro rfl
    exact absurd h1 (by decide)
  have hzero : digit ≠ '0' := by
    rintro rfl
    exact absurd h1 (by decide)
  have hzero_le : '0'.val ≤ digit.val := UInt32.le_trans (by decide) h1
  have hdigit : digit.isDigit = true :=
    (Bool.and_eq_true _ _).mpr ⟨decide_eq_true hzero_le, decide_eq_true h9⟩
  rw [get?, if_neg hquote, if_neg hzero, if_pos hdigit]

/-- Each name stands for what the calls tell of it: `"0` for the last yank, the digits from `"1` on for the
deletions, a letter of either case for the text of the small one, and no name or the quote for what was
stored last. A text that goes to `"_` leaves all as it is. -/
structure ToldBy (r : Registers) (calls : List RegisterCall) : Prop where
  lost : ∀ content, r.recordYank (some '_') content = r ∧ r.recordDelete (some '_') content = r
  yank : r.get? (some '0') = RegisterCall.lastYank calls
  deletion : ∀ digit, '1' ≤ digit → digit ≤ '9' →
    r.get? (some digit) = (deletions calls)[digit.toNat - '1'.toNat]?
  letter : ∀ letter, letter.isAlpha = true → r.get? (some letter) = letterContent letter.toLower calls
  unnamed : ∀ name ∈ [none, some '"'], r.get? name = lastStored calls

theorem foldl_perform_toldBy (calls : List RegisterCall) :
    (calls.foldl Registers.perform {}).ToldBy calls := by
  have hrecalls := foldl_perform_recalls calls
  refine ⟨fun _ ↦ ⟨rfl, rfl⟩, hrecalls.lastYank, fun digit h1 h9 ↦ ?_, fun letter hletter ↦ ?_, ?_⟩
  · have hplace : digit.toNat - '1'.toNat < deletedLimit := by
      have hle : digit.toNat ≤ '9'.toNat := h9
      have htoNat : '9'.toNat = 57 ∧ '1'.toNat = 49 := ⟨rfl, rfl⟩
      rw [deletedLimit]
      omega
    rw [get?_of_digit _ h1 h9, hrecalls.deleted, List.getElem?_take_of_lt hplace]
  · rw [get?_of_isAlpha _ hletter]
    exact hrecalls.named _
  · simp only [List.forall_mem_cons]
    exact ⟨hrecalls.unnamed, hrecalls.unnamed, List.forall_mem_nil _⟩

example :
    let calls : List RegisterCall := [
      .delete (some 'a') ⟨"x".toList, .characterwise⟩, .yank (some 'A') ⟨"y\n".toList, .linewise⟩,
      .delete none ⟨"z".toList, .characterwise⟩, .yank (some '_') ⟨"w".toList, .characterwise⟩]
    (calls.foldl Registers.perform {}).get? (some 'a') = some ⟨"xy\n".toList, .characterwise⟩ ∧
      (calls.foldl Registers.perform {}).get? none = some ⟨"z".toList, .characterwise⟩ := by decide

end Registers

end ModalEdit
