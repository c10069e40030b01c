import Mathlib.Data.List.DropRight
import ScheduledDb.Store.SlotKey

/-!
# Reading the memory limit

`ParseMemoryLimit` of `cmd/scheduled-db` reads texts such as `2GB`.  `Denotes` says which number a
text stands for: a positive integer, or one that is followed by white space and a unit in any letter
case.  The function asks for the unit in any case, but takes it away only if it is in upper or in
lower case, and does so for one after the other; and it multiplies in 64 bits.  Its value is the one
that is denoted exactly if the text does not run into one of these three (`parse_exact_iff`).

A text is the list of its characters; a byte that belongs to none is the character that Go puts in
its place, which is no digit, no white space and no letter of a unit.
-/

namespace ScheduledDb

open Machine

/-! ## Functions of package `strings` -/

/-- `strings.TrimSpace`; the white space of package `unicode` is that of package `fmt`. -/
def trimSpace (s : List Char) : List Char := (s.dropWhile isScanSpace).rdropWhile isScanSpace

def trimSuffix (s suffix : List Char) : List Char :=
  if suffix <:+ s then s.take (s.length - suffix.length) else s

/-- `unicode.ToUpper`, as far as it matters for the units.  No character but the ASCII letters
becomes one of theirs. -/
structure CaseMapping where
  upper : Char → Char
  ascii : ∀ c, c.toNat < 128 → upper c = c.toUpper
  foreign : ∀ c, 128 ≤ c.toNat → upper c ∉ ['G', 'M', 'K', 'B']

lemma toNat_toUpper (c : Char) :
    c.toUpper.toNat = if 97 ≤ c.toNat ∧ c.toNat ≤ 122 then c.toNat - 32 else c.toNat := by
  unfold Char.toUpper
  by_cases hlower : 'a'.val ≤ c.val ∧ c.val ≤ 'z'.val
  · have hlow : 97 ≤ c.toNat := hlower.1
    have hhigh : c.toNat ≤ 122 := hlower.2
    have hshift : ('A'.val - 'a'.val).toNat = 4294967264 := by decide
    rw [dif_pos hlower, if_pos ⟨hlow, hhigh⟩, Char.toNat, UInt32.toNat_add, hshift]
    change (c.toNat + 4294967264) % 4294967296 = _
    omega
  · have hother : ¬ (97 ≤ c.toNat ∧ c.toNat ≤ 122) := hlower
    rw [dif_neg hlower, if_neg hother]

variable {c : Char} {k : ℤ} {text unit : List Char}

/-- What is not ASCII does not become a letter of a unit. -/
lemma toUpper_foreign (hc : 128 ≤ c.toNat) : c.toUpper ∉ ['G', 'M', 'K', 'B'] := by
  intro hmem
  have hnat := toNat_toUpper c
  rw [if_neg (by omega)] at hnat
  have hsmall : c.toUpper.toNat < 128 := by
    simp only [List.mem_cons, List.not_mem_nil, or_false] at hmem
    rcases hmem with h | h | h | h <;> rw [h] <;> decide
  omega

/-- The letters of ASCII, and no others. -/
def asciiCase : CaseMapping where
  upper := Char.toUpper
  ascii _ _ := rfl
  foreign _ := toUpper_foreign

/-! ## The function -/

/-- The factor of the unit at the end, and what is before it. -/
def splitUnit (mapping : CaseMapping) (value : List Char) : ℤ × List Char :=
  if "GB".toList <:+ value.map mapping.upper then
    (1024 * 1024 * 1024, trimSuffix (trimSuffix value "GB".toList) "gb".toList)
  else if "MB".toList <:+ value.map mapping.upper then
    (1024 * 1024, trimSuffix (trimSuffix value "MB".toList) "mb".toList)
  else if "KB".toList <:+ value.map mapping.upper then
    (1024, trimSuffix (trimSuffix value "KB".toList) "kb".toList)
  else (1, value)

/-- `ParseMemoryLimit`; `numError` has the messages of `strconv.ParseInt`. -/
def parseMemoryLimit (mapping : CaseMapping) (numError : List Char → String) (value : String) :
    Except String ℤ :=
  let value := trimSpace value.toList
  if value = [] then .error "empty memory limit value"
  else
    let multiplier := (splitUnit mapping value).1
    let value := trimSpace (splitUnit mapping value).2
    match parseInt64 (String.ofList value) with
    | none => .error ("invalid memory limit format: " ++ numError value)
    | some num =>
      if num ≤ 0 then .error "memory limit must be positive"
      else .ok (wrap64 (num * multiplier))

/-! ## What a text denotes -/

/-- The units, and their spellings below. -/
inductive MemoryUnit where
  | gb | mb | kb
  deriving DecidableEq

namespace MemoryUnit

def letters : MemoryUnit → List Char
  | gb => ['G', 'B']
  | mb => ['M', 'B']
  | kb => ['K', 'B']

def lowercase : MemoryUnit → List Char
  | gb => ['g', 'b']
  | mb => ['m', 'b']
  | kb => ['k', 'b']

def size : MemoryUnit → ℤ
  | gb => 1024 * 1024 * 1024
  | mb => 1024 * 1024
  | kb => 1024

/-- The unit in any letter case. -/
def Spelled (u : MemoryUnit) (text : List Char) : Prop := text.map Char.toUpper = u.letters

end MemoryUnit

open MemoryUnit

/-- The text is the positive integer `k`, as `ParseInt` reads it, and white space. -/
def Reads (text : List Char) (k : ℤ) : Prop :=
  ∃ number space, text = number ++ space ∧ (∀ c ∈ space, isScanSpace c = true) ∧
    parseInt64 (String.ofList number) = some k ∧ 0 < k

/-- **The number that a text stands for**, without the white space around it. -/
def Denotes (value : String) (n : ℤ) : Prop :=
  (parseInt64 (String.ofList (trimSpace value.toList)) = some n ∧ 0 < n) ∨
    ∃ (text unit : List Char) (u : MemoryUnit) (k : ℤ), trimSpace value.toList = text ++ unit ∧
      u.Spelled unit ∧ Reads text k ∧
      n = k * u.size ∧ n < 9223372036854775808

/-- The unit is neither in upper nor in lower case. -/
def MixedCase (value : String) : Prop :=
  ∃ (text unit : List Char) (u : MemoryUnit) (k : ℤ), trimSpace value.toList = text ++ unit ∧
    u.Spelled unit ∧ unit ≠ u.letters ∧
    unit ≠ u.lowercase ∧ Reads text k ∧ k * u.size < 9223372036854775808

/-- The unit is there twice, in lower case and then in upper case. -/
def TwoUnits (value : String) : Prop :=
  ∃ (text : List Char) (u : MemoryUnit) (k : ℤ),
    trimSpace value.toList = text ++ u.lowercase ++ u.letters ∧ Reads text k

/-- The product does not fit into 64 bits. -/
def TooLarge (value : String) : Prop :=
  ∃ (text unit : List Char) (u : MemoryUnit) (k : ℤ), trimSpace value.toList = text ++ unit ∧
    (unit = u.letters ∨ unit = u.lowercase) ∧ Reads text k ∧ 9223372036854775808 ≤ k * u.size

/-! ## Characters -/

/-- A character of a number. -/
def IsNumeral (c : Char) : Prop := c = '-' ∨ c = '+' ∨ c.isDigit = true

lemma not_isScanSpace_of_isNumeral (h : IsNumeral c) : isScanSpace c = false := by
  rcases h with rfl | rfl | hdigit
  · decide
  · decide
  · have hbounds := digit_bounds hdigit
    simp only [isScanSpace, Bool.or_eq_false_iff, Bool.and_eq_false_iff, decide_eq_false_iff_not]
    omega

lemma isNumeral_of_scanDigits {negative : Bool} {digits : List Char}
    (h : parseInt64.decimal negative digits = some k) :
    digits ≠ [] ∧ ∀ c ∈ digits, c.isDigit = true := by
  unfold parseInt64.decimal at h
  split_ifs at h with hdigits
  exact ⟨hdigits.1, List.all_eq_true.mp hdigits.2⟩

/-- A text that is a number has signs and digits only. -/
lemma isNumeral_of_parseInt64 (h : parseInt64 (String.ofList text) = some k) :
    text ≠ [] ∧ ∀ c ∈ text, IsNumeral c := by
  unfold parseInt64 at h
  rw [String.toList_ofList] at h
  split at h
  · obtain ⟨-, hdigits⟩ := isNumeral_of_scanDigits h
    exact ⟨by simp, List.forall_mem_cons.mpr ⟨.inl rfl, fun c hc => .inr (.inr (hdigits c hc))⟩⟩
  · obtain ⟨-, hdigits⟩ := isNumeral_of_scanDigits h
    exact ⟨by simp,
      List.forall_mem_cons.mpr ⟨.inr (.inl rfl), fun c hc => .inr (.inr (hdigits c hc))⟩⟩
  · obtain ⟨hne, hdigits⟩ := isNumeral_of_scanDigits h
    exact ⟨hne, fun c hc => .inr (.inr (hdigits c hc))⟩

lemma inRange_of_parseInt64 {text : String} (h : parseInt64 text = some k) : InRange k := by
  have hdecimal : ∀ {negative : Bool} {digits : List Char},
      parseInt64.decimal negative digits = some k → InRange k := by
    intro negative digits hread
    simp only [parseInt64.decimal, scanDigits] at hread
    split_ifs at hread <;> simp_all
  unfold parseInt64 at h
  split at h
  · exact hdecimal h
  · exact hdecimal h
  · exact hdecimal h

/-- The letters that become `B` are in no number. -/
lemma letter_of_toUpper_eq (h : c.toUpper = 'B') : ¬ IsNumeral c ∧ isScanSpace c = false := by
  have hnat := toNat_toUpper c
  rw [h, show 'B'.toNat = 66 from rfl] at hnat
  have hc : c.toNat = 66 ∨ c.toNat = 98 := by
    split_ifs at hnat <;> omega
  constructor
  · rintro (rfl | rfl | hdigit)
    · exact absurd hc (by decide)
    · exact absurd hc (by decide)
    · have hbounds := digit_bounds hdigit
      omega
  · simp only [isScanSpace, Bool.or_eq_false_iff, Bool.and_eq_false_iff, decide_eq_false_iff_not]
    omega

/-! ## Numbers and white space -/

/-- The text does not begin with white space. -/
def NoLead (text : List Char) : Prop := ∀ c ∈ text.head?, isScanSpace c = false

lemma dropWhile_of_noLead (h : NoLead text) : text.dropWhile isScanSpace = text := by
  cases text with
  | nil => rfl
  | cons c text => rw [List.dropWhile_cons_of_neg (by simp [h c rfl])]

lemma noLead_trimSpace {s : List Char} (h : trimSpace s = text ++ unit) : NoLead text := by
  intro c hc
  obtain ⟨rest, rfl⟩ : ∃ rest, text = c :: rest := by
    cases text with
    | nil => cases hc
    | cons c' rest => exact ⟨rest, by rw [Option.some.inj hc]⟩
  obtain ⟨tail, htail⟩ := List.rdropWhile_prefix isScanSpace (s.dropWhile isScanSpace)
  have hcons : s.dropWhile isScanSpace = c :: (rest ++ unit ++ tail) := by
    rw [← htail, ← trimSpace, h]
    simp
  have hhead := List.head_dropWhile_not isScanSpace (l := s) (by simp [hcons])
  simpa [hcons] using hhead

lemma trimSpace_of_noLead (h : NoLead text) : trimSpace text = text.rdropWhile isScanSpace := by
  rw [trimSpace, dropWhile_of_noLead h]

lemma trimSpace_trimSpace (s : List Char) : trimSpace (trimSpace s) = trimSpace s := by
  have hlead : NoLead (trimSpace s) := noLead_trimSpace (List.append_nil _).symm
  rw [trimSpace_of_noLead hlead, trimSpace, List.rdropWhile_idempotent]

/-- White space at the end is taken away, and what ends in a number is left. -/
lemma rdropWhile_append {number space : List Char} (hspace : ∀ c ∈ space, isScanSpace c = true)
    (hnumber : ∀ c ∈ number, IsNumeral c) : (number ++ space).rdropWhile isScanSpace = number := by
  have hrev : ∀ c ∈ space.reverse, isScanSpace c = true := fun c hc =>
    hspace c (List.mem_reverse.mp hc)
  have hself : number.rdropWhile isScanSpace = number := by
    rw [List.rdropWhile_eq_self_iff]
    intro hne
    simp [not_isScanSpace_of_isNumeral (hnumber _ (List.getLast_mem hne))]
  rw [List.rdropWhile, List.reverse_append, List.dropWhile_append_of_pos hrev]
  exact hself

/-- **What is read** is a number and white space. -/
lemma reads_iff (h : NoLead text) (k : ℤ) :
    Reads text k ↔ parseInt64 (String.ofList (trimSpace text)) = some k ∧ 0 < k := by
  rw [trimSpace_of_noLead h]
  constructor
  · rintro ⟨number, space, rfl, hspace, hread, hpos⟩
    rw [rdropWhile_append hspace (isNumeral_of_parseInt64 hread).2]
    exact ⟨hread, hpos⟩
  · rintro ⟨hread, hpos⟩
    exact ⟨_, _, List.rdropWhile_append_rtakeWhile.symm, fun c hc => List.mem_rtakeWhile_imp hc,
      hread, hpos⟩

lemma Reads.pos (h : Reads text k) : 0 < k := by
  obtain ⟨-, -, -, -, -, hpos⟩ := h
  exact hpos

lemma Reads.unique (hlead : NoLead text) {k' : ℤ} (h : Reads text k) (h' : Reads text k') :
    k = k' := by
  rw [reads_iff hlead] at h h'
  exact Option.some.inj (h.1.symm.trans h'.1)

/-- No letter of a unit is in a text that is read. -/
lemma Reads.no_letter (h : Reads text k) (hc : c ∈ text) : c.toUpper ≠ 'B' := by
  obtain ⟨number, space, rfl, hspace, hread, -⟩ := h
  intro hupper
  obtain ⟨hletter, hspace'⟩ := letter_of_toUpper_eq hupper
  obtain hnumber | hblank := List.mem_append.mp hc
  · exact hletter ((isNumeral_of_parseInt64 hread).2 c hnumber)
  · rw [hspace c hblank] at hspace'
    cases hspace'

/-! ## Units -/

namespace MemoryUnit

variable (u : MemoryUnit) {text unit : List Char}

lemma spelled_letters : u.Spelled u.letters := by cases u <;> rfl

lemma spelled_lowercase : u.Spelled u.lowercase := by cases u <;> rfl

lemma letters_ne_lowercase : u.letters ≠ u.lowercase := by cases u <;> decide

lemma size_pos : 0 < u.size := by cases u <;> decide

variable {u}

lemma Spelled.length (h : u.Spelled unit) : unit.length = 2 := by
  have hletters : u.letters.length = 2 := by cases u <;> rfl
  rw [← hletters, ← h, List.length_map]

/-- The last letter of a unit is a `B`. -/
lemma Spelled.exists_B (h : u.Spelled unit) : ∃ c ∈ unit, c.toUpper = 'B' := by
  have hmem : 'B' ∈ unit.map Char.toUpper := by
    rw [h]
    cases u <;> decide
  exact List.mem_map.mp hmem

/-- A text with a unit at its end is no number. -/
lemma Spelled.not_reads (h : u.Spelled unit) {k : ℤ} : ¬ Reads (text ++ unit) k := by
  intro hreads
  obtain ⟨c, hc, hB⟩ := h.exists_B
  exact hreads.no_letter (List.mem_append_right text hc) hB

/-- **A text ends in one unit at most.** -/
lemma Spelled.unique {u' : MemoryUnit} {text' unit' : List Char} (h : u.Spelled unit)
    (h' : u'.Spelled unit') (heq : text ++ unit = text' ++ unit') :
    text = text' ∧ unit = unit' ∧ u = u' := by
  obtain ⟨htext, rfl⟩ := List.append_inj' heq (h.length.trans h'.length.symm)
  refine ⟨htext, rfl, ?_⟩
  have hletters : u.letters = u'.letters := h.symm.trans h'
  cases u <;> cases u' <;> first | rfl | exact absurd hletters (by decide)

end MemoryUnit

variable (mapping : CaseMapping)

lemma CaseMapping.upper_eq_iff {x : Char} (hx : x ∈ ['G', 'M', 'K', 'B']) (c : Char) :
    mapping.upper c = x ↔ c.toUpper = x := by
  obtain hascii | hforeign := Nat.lt_or_ge c.toNat 128
  · rw [mapping.ascii c hascii]
  · have hleft : mapping.upper c ≠ x := fun h => mapping.foreign c hforeign (h ▸ hx)
    have hright : c.toUpper ≠ x := fun h => toUpper_foreign hforeign (h ▸ hx)
    exact iff_of_false hleft hright

lemma CaseMapping.map_upper_eq_iff {letters : List Char}
    (hletters : ∀ x ∈ letters, x ∈ ['G', 'M', 'K', 'B']) (text : List Char) :
    text.map mapping.upper = letters ↔ text.map Char.toUpper = letters := by
  induction text generalizing letters with
  | nil => rfl
  | cons c text ih =>
    cases letters with
    | nil => simp
    | cons x letters =>
      obtain ⟨hx, hrest⟩ := List.forall_mem_cons.mp hletters
      simp only [List.map_cons, List.cons.injEq, mapping.upper_eq_iff hx, ih hrest]

/-- `strings.HasSuffix(strings.ToUpper(value), …)` -/
lemma suffix_upper_iff (u : MemoryUnit) (value : List Char) :
    u.letters <:+ value.map mapping.upper ↔ ∃ text unit, value = text ++ unit ∧ u.Spelled unit := by
  have hletters : ∀ x ∈ u.letters, x ∈ ['G', 'M', 'K', 'B'] := by cases u <;> simp [letters]
  rw [List.suffix_map_iff]
  constructor
  · rintro ⟨unit, ⟨text, rfl⟩, heq⟩
    exact ⟨text, unit, rfl, (mapping.map_upper_eq_iff hletters unit).mp heq.symm⟩
  · rintro ⟨text, unit, rfl, hunit⟩
    exact ⟨unit, List.suffix_append text unit,
      ((mapping.map_upper_eq_iff hletters unit).mpr hunit).symm⟩

/-! ## Taking the unit away -/

lemma trimSuffix_append (text suffix : List Char) : trimSuffix (text ++ suffix) suffix = text := by
  rw [trimSuffix, if_pos (List.suffix_append text suffix), List.length_append, Nat.add_sub_cancel,
    List.take_left]

/-- Another ending of the same length is left. -/
lemma trimSuffix_append_of_ne {suffix : List Char} (hlength : unit.length = suffix.length)
    (hne : unit ≠ suffix) : trimSuffix (text ++ unit) suffix = text ++ unit := by
  refine if_neg ?_
  rintro ⟨front, heq⟩
  exact hne (List.append_inj' heq hlength.symm).2.symm

namespace MemoryUnit

variable (u : MemoryUnit)

/-- The two `TrimSuffix` of a unit. -/
def strip (value : List Char) : List Char := trimSuffix (trimSuffix value u.letters) u.lowercase

lemma length_letters_eq : u.letters.length = u.lowercase.length :=
  u.spelled_letters.length.trans u.spelled_lowercase.length.symm

lemma strip_letters {text : List Char} (h : ¬ u.lowercase <:+ text) :
    u.strip (text ++ u.letters) = text := by
  rw [strip, trimSuffix_append, trimSuffix, if_neg h]

lemma strip_lowercase (text : List Char) : u.strip (text ++ u.lowercase) = text := by
  rw [strip, trimSuffix_append_of_ne u.length_letters_eq.symm u.letters_ne_lowercase.symm,
    trimSuffix_append]

lemma strip_mixed {text unit : List Char} (h : u.Spelled unit) (hupper : unit ≠ u.letters)
    (hlower : unit ≠ u.lowercase) : u.strip (text ++ unit) = text ++ unit := by
  have hletters : unit.length = u.letters.length := h.length.trans u.spelled_letters.length.symm
  rw [strip, trimSuffix_append_of_ne hletters hupper,
    trimSuffix_append_of_ne (hletters.trans u.length_letters_eq) hlower]

end MemoryUnit

lemma splitUnit_eq (value : List Char) :
    splitUnit mapping value =
      if gb.letters <:+ value.map mapping.upper then (gb.size, gb.strip value)
      else if mb.letters <:+ value.map mapping.upper then (mb.size, mb.strip value)
      else if kb.letters <:+ value.map mapping.upper then (kb.size, kb.strip value)
      else (1, value) := rfl

lemma splitUnit_of_spelled {u : MemoryUnit} (h : u.Spelled unit) :
    splitUnit mapping (text ++ unit) = (u.size, u.strip (text ++ unit)) := by
  have hends : ∀ u' : MemoryUnit, u'.letters <:+ (text ++ unit).map mapping.upper ↔ u = u' := by
    intro u'
    rw [suffix_upper_iff]
    constructor
    · rintro ⟨text', unit', heq, h'⟩
      exact (h.unique h' heq).2.2
    · rintro rfl
      exact ⟨text, unit, rfl, h⟩
  simp only [splitUnit_eq, hends]
  cases u <;> rfl

lemma splitUnit_of_none {value : List Char}
    (h : ∀ (u : MemoryUnit) text unit, value = text ++ unit → ¬ u.Spelled unit) :
    splitUnit mapping value = (1, value) := by
  have hends : ∀ u : MemoryUnit, ¬ u.letters <:+ value.map mapping.upper := by
    intro u hsuffix
    obtain ⟨text, unit, heq, hunit⟩ := (suffix_upper_iff mapping u value).mp hsuffix
    exact h u text unit heq hunit
  rw [splitUnit_eq, if_neg (hends gb), if_neg (hends mb), if_neg (hends kb)]

/-- **When the function succeeds**, and with which value. -/
lemma parseMemoryLimit_eq_ok_iff (numError : List Char → String) (value : String) (n : ℤ) :
    parseMemoryLimit mapping numError value = .ok n ↔
      ∃ k, (parseInt64 (String.ofList (trimSpace
          (splitUnit mapping (trimSpace value.toList)).2)) = some k ∧ 0 < k) ∧
        n = wrap64 (k * (splitUnit mapping (trimSpace value.toList)).1) := by
  unfold parseMemoryLimit
  generalize trimSpace value.toList = t
  by_cases hempty : t = []
  · subst hempty
    simp [splitUnit, trimSpace, parseInt64, parseInt64.decimal]
  · simp only [hempty, if_false]
    cases hread : parseInt64 (String.ofList (trimSpace (splitUnit mapping t).2)) with
    | none => simp
    | some num =>
      obtain hpos | hnonpos := Int.lt_or_le 0 num
      · simp [hpos, Int.not_le.mpr hpos, eq_comm]
      · simp [hnonpos, Int.not_lt.mpr hnonpos]

/-! ## Exactness -/

section Exact

variable {value : String} {text unit : List Char} {u : MemoryUnit}
  (htrim : trimSpace value.toList = text ++ unit) (hunit : u.Spelled unit)

include htrim hunit

lemma denotes_iff (n : ℤ) :
    Denotes value n ↔ ∃ k, Reads text k ∧ n = k * u.size ∧ n < 9223372036854775808 := by
  constructor
  · rintro (⟨hread, -⟩ | ⟨text', unit', u', k, htrim', hunit', hreads, hn, hlt⟩)
    · -- the letters of the unit are not read
      obtain ⟨c, hc, hB⟩ := hunit.exists_B
      rw [htrim] at hread
      exact absurd ((isNumeral_of_parseInt64 hread).2 c (List.mem_append_right text hc))
        (letter_of_toUpper_eq hB).1
    · obtain ⟨rfl, -, rfl⟩ := hunit.unique hunit' (htrim.symm.trans htrim')
      exact ⟨k, hreads, hn, hlt⟩
  · rintro ⟨k, hreads, hn, hlt⟩
    exact .inr ⟨text, unit, u, k, htrim, hunit, hreads, hn, hlt⟩

lemma mixedCase_iff :
    MixedCase value ↔ (unit ≠ u.letters ∧ unit ≠ u.lowercase) ∧
      ∃ k, Reads text k ∧ k * u.size < 9223372036854775808 := by
  constructor
  · rintro ⟨text', unit', u', k, htrim', hunit', hupper, hlower, hreads, hlt⟩
    obtain ⟨rfl, rfl, rfl⟩ := hunit.unique hunit' (htrim.symm.trans htrim')
    exact ⟨⟨hupper, hlower⟩, k, hreads, hlt⟩
  · rintro ⟨⟨hupper, hlower⟩, k, hreads, hlt⟩
    exact ⟨text, unit, u, k, htrim, hunit, hupper, hlower, hreads, hlt⟩

lemma twoUnits_iff :
    TwoUnits value ↔ unit = u.letters ∧ ∃ front k, text = front ++ u.lowercase ∧ Reads front k := by
  constructor
  · rintro ⟨front, u', k, htrim', hreads⟩
    obtain ⟨rfl, rfl, rfl⟩ := hunit.unique u'.spelled_letters (htrim.symm.trans htrim')
    exact ⟨rfl, front, k, rfl, hreads⟩
  · rintro ⟨rfl, front, k, rfl, hreads⟩
    exact ⟨front, u, k, htrim, hreads⟩

lemma tooLarge_iff :
    TooLarge value ↔ (unit = u.letters ∨ unit = u.lowercase) ∧
      ∃ k, Reads text k ∧ 9223372036854775808 ≤ k * u.size := by
  constructor
  · rintro ⟨text', unit', u', k, htrim', hcase, hreads, hle⟩
    have hunit' : u'.Spelled unit' := by
      rcases hcase with rfl | rfl
      · exact u'.spelled_letters
      · exact u'.spelled_lowercase
    obtain ⟨rfl, rfl, rfl⟩ := hunit.unique hunit' (htrim.symm.trans htrim')
    exact ⟨hcase, k, hreads, hle⟩
  · rintro ⟨hcase, k, hreads, hle⟩
    exact ⟨text, unit, u, k, htrim, hcase, hreads, hle⟩

/-- The value, if the unit is taken away and `front` is left. -/
lemma parseMemoryLimit_of_strip (numError : List Char → String) {front : List Char}
    (hstrip : u.strip (text ++ unit) = front) (hlead : NoLead front) (n : ℤ) :
    parseMemoryLimit mapping numError value = .ok n ↔
      ∃ k, Reads front k ∧ n = wrap64 (k * u.size) := by
  simp only [parseMemoryLimit_eq_ok_iff, htrim, splitUnit_of_spelled mapping hunit, hstrip,
    reads_iff hlead]

/-- A unit that is taken away leaves nothing to be wrong but the product. -/
lemma exact_of_strip (numError : List Char → String) (hstrip : u.strip (text ++ unit) = text) :
    (∀ n, parseMemoryLimit mapping numError value = .ok n ↔ Denotes value n) ↔
      ¬ ∃ k, Reads text k ∧ 9223372036854775808 ≤ k * u.size := by
  have hlead := noLead_trimSpace htrim
  simp only [parseMemoryLimit_of_strip mapping htrim hunit numError hstrip hlead,
    denotes_iff htrim hunit]
  constructor
  · rintro hexact ⟨k, hreads, hle⟩
    obtain ⟨k', hreads', hk', hlt⟩ := (hexact (wrap64 (k * u.size))).mp ⟨k, hreads, rfl⟩
    rw [hreads'.unique hlead hreads] at hk'
    omega
  · intro hsmall n
    refine exists_congr fun k => and_congr_right fun hreads => ?_
    have hlt : k * u.size < 9223372036854775808 := by
      refine Int.not_le.mp fun hle => hsmall ⟨k, hreads, hle⟩
    have hpos : 0 < k * u.size := Int.mul_pos hreads.pos u.size_pos
    rw [wrap64_of_mem ⟨by omega, hlt⟩]
    omega

/-- A unit that stays cannot be read. -/
lemma exact_of_mixed (numError : List Char → String) (hupper : unit ≠ u.letters)
    (hlower : unit ≠ u.lowercase) :
    (∀ n, parseMemoryLimit mapping numError value = .ok n ↔ Denotes value n) ↔
      ¬ ∃ k, Reads text k ∧ k * u.size < 9223372036854775808 := by
  have hwhole : NoLead (text ++ unit) := noLead_trimSpace (htrim.trans (List.append_nil _).symm)
  have hletter : ∀ k, ¬ Reads (text ++ unit) k := fun k => hunit.not_reads
  simp only [parseMemoryLimit_of_strip mapping htrim hunit numError
    (u.strip_mixed hunit hupper hlower) hwhole, denotes_iff htrim hunit, hletter]
  constructor
  · rintro hexact ⟨k, hreads, hlt⟩
    obtain ⟨-, hfalse, -⟩ := (hexact _).mpr ⟨k, hreads, rfl, hlt⟩
    exact hfalse
  · intro hnone n
    refine iff_of_false (by simp) ?_
    rintro ⟨k, hreads, rfl, hlt⟩
    exact hnone ⟨k, hreads, hlt⟩

omit hunit in
/-- Two units are taken away, where a number with one of them is no number. -/
lemma exact_of_two (numError : List Char → String) {front : List Char}
    (htext : text = front ++ u.lowercase) (hupper : unit = u.letters) :
    (∀ n, parseMemoryLimit mapping numError value = .ok n ↔ Denotes value n) ↔
      ¬ ∃ k, Reads front k := by
  subst htext hupper
  have hfront : NoLead front := by
    rw [List.append_assoc] at htrim
    exact noLead_trimSpace htrim
  have hstrip : u.strip (front ++ u.lowercase ++ u.letters) = front := by
    rw [strip, trimSuffix_append, trimSuffix_append]
  have hletter : ∀ k, ¬ Reads (front ++ u.lowercase) k := fun k => u.spelled_lowercase.not_reads
  simp only [parseMemoryLimit_of_strip mapping htrim u.spelled_letters numError hstrip
    hfront, denotes_iff htrim u.spelled_letters, hletter]
  constructor
  · rintro hexact ⟨k, hreads⟩
    obtain ⟨-, hfalse, -⟩ := (hexact _).mp ⟨k, hreads, rfl⟩
    exact hfalse
  · intro hnone n
    refine iff_of_false ?_ (by simp)
    rintro ⟨k, hreads, -⟩
    exact hnone ⟨k, hreads⟩

/-- Texts that end in a unit. -/
lemma exact_iff_of_spelled (numError : List Char → String) :
    (∀ n, parseMemoryLimit mapping numError value = .ok n ↔ Denotes value n) ↔
      ¬ MixedCase value ∧ ¬ TwoUnits value ∧ ¬ TooLarge value := by
  rw [mixedCase_iff htrim hunit, twoUnits_iff htrim hunit, tooLarge_iff htrim hunit]
  by_cases hupper : unit = u.letters
  · by_cases htwo : u.lowercase <:+ text
    · obtain ⟨front, htext⟩ := htwo
      rw [exact_of_two mapping htrim numError htext.symm hupper]
      have hletter : ∀ k, ¬ Reads text k := by
        rw [← htext]
        exact fun k => u.spelled_lowercase.not_reads
      have hsame : (∃ front' k, text = front' ++ u.lowercase ∧ Reads front' k)
          ↔ ∃ k, Reads front k := by
        simp only [← htext, List.append_cancel_right_eq, exists_and_left, exists_eq_left']
      simp only [hsame, hupper, hletter, ne_eq, not_true, false_and, exists_false, and_false,
        not_false_eq_true, true_and, and_true]
    · have hfront : ¬ ∃ front k, text = front ++ u.lowercase ∧ Reads front k := by
        rintro ⟨front, k, rfl, -⟩
        exact htwo (List.suffix_append front _)
      have hstrip : u.strip (text ++ unit) = text := by rw [hupper, u.strip_letters htwo]
      rw [exact_of_strip mapping htrim hunit numError hstrip]
      simp only [hupper, hfront, ne_eq, not_true, false_and, and_false, not_false_eq_true, true_or,
        true_and]
  · by_cases hlower : unit = u.lowercase
    · have hstrip : u.strip (text ++ unit) = text := by rw [hlower, u.strip_lowercase]
      rw [exact_of_strip mapping htrim hunit numError hstrip]
      simp only [hlower, u.letters_ne_lowercase.symm, ne_eq, not_true, false_and, and_false,
        not_false_eq_true, or_true, true_and]
    · rw [exact_of_mixed mapping htrim hunit numError hupper hlower]
      simp only [hupper, hlower, ne_eq, not_false_eq_true, and_self, true_and, false_and, or_self,
        and_true]

end Exact

/-- A text without a unit is read as it is. -/
lemma exact_of_none (numError : List Char → String) {value : String}
    (h : ∀ (u : MemoryUnit) text unit, trimSpace value.toList = text ++ unit → ¬ u.Spelled unit)
    (n : ℤ) : parseMemoryLimit mapping numError value = .ok n ↔ Denotes value n := by
  rw [parseMemoryLimit_eq_ok_iff, splitUnit_of_none mapping h, trimSpace_trimSpace]
  constructor
  · rintro ⟨k, ⟨hread, hpos⟩, rfl⟩
    rw [Int.mul_one, wrap64_of_mem (inRange_of_parseInt64 hread)]
    exact .inl ⟨hread, hpos⟩
  · rintro (⟨hread, hpos⟩ | ⟨text, unit, u, k, htrim, hunit, -⟩)
    · refine ⟨n, ⟨hread, hpos⟩, ?_⟩
      rw [Int.mul_one, wrap64_of_mem (inRange_of_parseInt64 hread)]
    · exact absurd hunit (h u text unit htrim)

/-- **`ParseMemoryLimit` is exact**, that is, it succeeds on the texts that denote a number and
returns that number, on every text but those with a unit in mixed case, with a unit in lower case
before one in upper case, or with a product that 64 bits do not hold.  What is denoted is
positive. -/
theorem parse_exact_iff (numError : List Char → String) (value : String) :
    ((∀ n, parseMemoryLimit mapping numError value = .ok n ↔ Denotes value n) ↔
      ¬ MixedCase value ∧ ¬ TwoUnits value ∧ ¬ TooLarge value) ∧
    ∀ n, Denotes value n → 0 < n := by
  constructor
  · by_cases hends : ∃ (u : MemoryUnit) (text unit : List Char),
        trimSpace value.toList = text ++ unit ∧ u.Spelled unit
    · obtain ⟨u, text, unit, htrim, hunit⟩ := hends
      exact exact_iff_of_spelled mapping htrim hunit numError
    · have hnone : ∀ (u : MemoryUnit) text unit, trimSpace value.toList = text ++ unit →
          ¬ u.Spelled unit := fun u text unit htrim hunit => hends ⟨u, text, unit, htrim, hunit⟩
      refine iff_of_true (exact_of_none mapping numError hnone) ⟨?_, ?_, ?_⟩
      · rintro ⟨text, unit, u, k, htrim, hunit, -⟩
        exact hnone u text unit htrim hunit
      · rintro ⟨text, u, k, htrim, -⟩
        exact hnone u _ _ htrim u.spelled_letters
      · rintro ⟨text, unit, u, k, htrim, rfl | rfl, -⟩
        · exact hnone u _ _ htrim u.spelled_letters
        · exact hnone u _ _ htrim u.spelled_lowercase
  · rintro n (⟨-, hpos⟩ | ⟨text, unit, u, k, -, -, hreads, rfl, -⟩)
    · exact hpos
    · exact Int.mul_pos hreads.pos u.size_pos

example : parseMemoryLimit asciiCase (fun _ => "") " +2 gb\t" = .ok 2147483648 := by decide

/-- **Three texts**: one that denotes a number and is refused, one that denotes none and is
accepted, and one whose value is no positive number. -/
theorem parse_not_exact :
    (Denotes "1Gb" 1073741824 ∧
      parseMemoryLimit asciiCase (fun _ => "invalid syntax") "1Gb"
        = .error "invalid memory limit format: invalid syntax") ∧
    ((∀ n, ¬ Denotes "1gbGB" n) ∧
      parseMemoryLimit asciiCase (fun _ => "") "1gbGB" = .ok 1073741824) ∧
    parseMemoryLimit asciiCase (fun _ => "") "17179869184GB" = .ok 0 := by
  refine ⟨⟨.inr ⟨['1'], ['G', 'b'], .gb, 1, by decide, by rfl, ?_, by decide, by decide⟩,
    by decide⟩, ⟨fun n => ?_, by decide⟩, by decide⟩
  · exact ⟨['1'], [], by rfl, by simp, by decide, by decide⟩
  · have htrim : trimSpace "1gbGB".toList = ['1'] ++ gb.lowercase ++ gb.letters := by decide
    rw [denotes_iff htrim gb.spelled_letters]
    rintro ⟨k, hreads, -⟩
    exact gb.spelled_lowercase.not_reads hreads

end ScheduledDb
