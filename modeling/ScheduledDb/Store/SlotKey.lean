import Mathlib.Data.Int.Notation
import Mathlib.Data.List.TakeWhile
import ScheduledDb.Core.Int64

/-!
# Slot keys as text

Slot commands carry their key as text: `Store` prints it with `fmt.Sprintf("%d", key)` and the
state machine reads it back with `fmt.Sscanf(id, "%d", &key)`.  The scanner is lenient: it skips
leading spaces (not newlines), accepts a sign, and stops at the first character that is no digit,
so that several texts name one key.  `scanKey_printKey` says that what is printed is read back.
-/

namespace ScheduledDb

open Machine Nat

/-- `fmt.Sprintf("%d", key)` -/
def printKey (key : ℤ) : String := toString key

/-- The space characters of package `fmt`. -/
def isScanSpace (c : Char) : Bool :=
  let n := c.toNat
  (0x9 ≤ n && n ≤ 0xd) || n = 0x20 || n = 0x85 || n = 0xa0 || n = 0x1680 ||
    (0x2000 ≤ n && n ≤ 0x200a) || n = 0x2028 || n = 0x2029 || n = 0x202f || n = 0x205f ||
    n = 0x3000

/-- `SkipSpace` of `Sscanf`: a line end is an error. -/
def skipSpace : List Char → Option (List Char)
  | [] => some []
  | '\n' :: _ => none
  | '\r' :: '\n' :: _ => none
  | c :: cs => if isScanSpace c then skipSpace cs else some (c :: cs)

/-- The digits after the sign, and `strconv.ParseInt` of the token. -/
def scanDigits (negative : Bool) (cs : List Char) : Option ℤ :=
  let digits := cs.takeWhile Char.isDigit
  if digits = [] then none
  else
    let n : ℤ := Nat.ofDigitChars 10 digits 0
    let key := if negative then -n else n
    if InRange key then some key else none

/-- `fmt.Sscanf(text, "%d", &key)`; `none` is an error. -/
def scanKey (text : String) : Option ℤ :=
  match skipSpace text.toList with
  | none => none
  | some ('-' :: cs) => scanDigits true cs
  | some ('+' :: cs) => scanDigits false cs
  | some cs => scanDigits false cs

/-- `strconv.ParseInt(text, 10, 64)`; `none` is an error. -/
def parseInt64 (text : String) : Option ℤ :=
  match text.toList with
  | '-' :: digits => decimal true digits
  | '+' :: digits => decimal false digits
  | digits => decimal false digits
where
  /-- The digits after the sign. -/
  decimal (negative : Bool) (digits : List Char) : Option ℤ :=
    if digits ≠ [] ∧ digits.all Char.isDigit = true then scanDigits negative digits else none

lemma takeWhile_toDigits (n : ℕ) : (toDigits 10 n).takeWhile Char.isDigit = toDigits 10 n := by
  rw [List.takeWhile_eq_self_iff]
  intro c hc
  exact isDigit_of_mem_toDigits (by decide) (by decide) hc

lemma scanDigits_toDigits (negative : Bool) (n : ℕ) :
    scanDigits negative (toDigits 10 n)
      = if InRange (if negative then -(n : ℤ) else n) then some (if negative then -(n : ℤ) else n)
        else none := by
  simp only [scanDigits, takeWhile_toDigits, toDigits_ne_nil, if_false,
    ofDigitChars_ten_toDigits]

lemma digit_bounds {c : Char} (h : c.isDigit = true) : 48 ≤ c.toNat ∧ c.toNat ≤ 57 := by
  simp only [Char.isDigit, Bool.and_eq_true, decide_eq_true_eq] at h
  exact ⟨h.1, h.2⟩

/-- A digit is no space. -/
lemma skipSpace_digit {c : Char} (cs : List Char) (h : c.isDigit = true) :
    skipSpace (c :: cs) = some (c :: cs) := by
  have hb := digit_bounds h
  have hspace : isScanSpace c = false := by
    simp only [isScanSpace, Bool.or_eq_false_iff, Bool.and_eq_false_iff, decide_eq_false_iff_not]
    omega
  unfold skipSpace
  split
  · rename_i heq
    simp at heq
  · rename_i heq
    obtain ⟨rfl, -⟩ := List.cons.inj heq
    simp at h
  · rename_i heq
    obtain ⟨rfl, -⟩ := List.cons.inj heq
    simp at h
  · rename_i heq
    obtain ⟨rfl, rfl⟩ := List.cons.inj heq
    simp [hspace]

lemma skipSpace_minus (cs : List Char) : skipSpace ('-' :: cs) = some ('-' :: cs) := rfl

/-- A printed natural number, with nothing in front. -/
lemma scan_toDigits (n : ℕ) :
    scanKey (String.ofList (toDigits 10 n)) = scanDigits false (toDigits 10 n) := by
  rw [scanKey, String.toList_ofList]
  cases hd : toDigits 10 n with
  | nil => exact absurd hd toDigits_ne_nil
  | cons c cs =>
    have hc : c.isDigit = true := by
      refine isDigit_of_mem_toDigits (b := 10) (n := n) (by decide) (by decide) ?_
      rw [hd]
      exact List.mem_cons_self
    rw [skipSpace_digit cs hc]
    split
    · rename_i heq
      simp at heq
    · rename_i heq
      obtain ⟨rfl, -⟩ := List.cons.inj (Option.some.inj heq)
      simp at hc
    · rename_i heq
      obtain ⟨rfl, -⟩ := List.cons.inj (Option.some.inj heq)
      simp at hc
    · rename_i heq
      rw [← Option.some.inj heq]

lemma toList_printKey (key : ℤ) :
    (printKey key).toList =
      if 0 ≤ key then toDigits 10 key.toNat else '-' :: toDigits 10 (-key).toNat := by
  rw [printKey, Int.toString_eq_repr, Int.repr_eq_if]
  split_ifs
  · rw [← toString_eq_repr, toString_eq_ofList_toDigits, String.toList_ofList]
  · rw [String.toList_append, ← toString_eq_repr, toString_eq_ofList_toDigits,
      String.toList_ofList]
    simp

/-- **Scanning a printed key gives it back**, or nothing if it does not fit into 64 bits. -/
theorem scanKey_printKey_eq (key : ℤ) :
    scanKey (printKey key) = if InRange key then some key else none := by
  have htext := toList_printKey key
  by_cases hsign : 0 ≤ key
  · rw [if_pos hsign] at htext
    have hlist : printKey key = String.ofList (toDigits 10 key.toNat) := by
      rw [← htext, String.ofList_toList]
    have hnat : ((key.toNat : ℕ) : ℤ) = key := Int.toNat_of_nonneg hsign
    rw [hlist, scan_toDigits, scanDigits_toDigits]
    simp only [Bool.false_eq_true, if_false, hnat]
  · have hnat : (((-key).toNat : ℕ) : ℤ) = -key := Int.toNat_of_nonneg (by omega)
    rw [if_neg hsign] at htext
    rw [scanKey, htext, skipSpace_minus]
    simp only [scanDigits_toDigits, if_true, hnat, Int.neg_neg]

lemma scanKey_printKey {key : ℤ} (h : InRange key) : scanKey (printKey key) = some key := by
  rw [scanKey_printKey_eq, if_pos h]

lemma decimal_toDigits (negative : Bool) (n : ℕ) :
    parseInt64.decimal negative (toDigits 10 n) = scanDigits negative (toDigits 10 n) := by
  have hall : (toDigits 10 n).all Char.isDigit = true := by
    rw [List.all_eq_true]
    exact fun c hc => isDigit_of_mem_toDigits (by decide) (by decide) hc
  rw [parseInt64.decimal, if_pos ⟨toDigits_ne_nil, hall⟩]

/-- `ParseInt` reads a printed key too. -/
lemma parseInt64_printKey {key : ℤ} (h : InRange key) : parseInt64 (printKey key) = some key := by
  rw [parseInt64, toList_printKey]
  by_cases hsign : 0 ≤ key
  · have hnat : ((key.toNat : ℕ) : ℤ) = key := Int.toNat_of_nonneg hsign
    rw [if_pos hsign]
    have hread : parseInt64.decimal false (toDigits 10 key.toNat) = some key := by
      rw [decimal_toDigits, scanDigits_toDigits]
      simp only [Bool.false_eq_true, if_false, hnat, if_pos h]
    have hdigit : ∀ c ∈ toDigits 10 key.toNat, c.isDigit = true := fun c hc =>
      isDigit_of_mem_toDigits (by decide) (by decide) hc
    split
    · rename_i heq
      have hminus := hdigit '-' (by rw [heq]; exact List.mem_cons_self)
      simp at hminus
    · rename_i heq
      have hplus := hdigit '+' (by rw [heq]; exact List.mem_cons_self)
      simp at hplus
    · exact hread
  · have hnat : (((-key).toNat : ℕ) : ℤ) = -key := Int.toNat_of_nonneg (by omega)
    rw [if_neg hsign]
    simp only [decimal_toDigits, scanDigits_toDigits, if_true, hnat, Int.neg_neg, if_pos h]

/-- A scanned key fits into 64 bits. -/
lemma inRange_of_scanKey {text : String} {key : ℤ} (h : scanKey text = some key) : InRange key := by
  have hdigits : ∀ {negative : Bool} {cs : List Char}, scanDigits negative cs = some key →
      InRange key := by
    intro negative cs hscan
    simp only [scanDigits] at hscan
    split_ifs at hscan <;> simp_all
  unfold scanKey at h
  split at h
  · cases h
  · exact hdigits h
  · exact hdigits h
  · exact hdigits h

/-- The key is not empty text. -/
lemma printKey_ne_empty (key : ℤ) : printKey key ≠ "" := by
  intro hempty
  have hlist := toList_printKey key
  rw [hempty] at hlist
  split_ifs at hlist
  · exact toDigits_ne_nil hlist.symm
  · cases hlist

end ScheduledDb
