import ScheduledDb.Api.Sanitize

/-!
# Addresses that get through

An IPv4 literal of a message is replaced if the scan for addresses comes to its first digit.  It
does unless the digit is part of a match that began before, and then there is a colon, a bracket, a
letter or another digit in front of it.  What the scan leaves is `Buried`: a character in front of it
keeps it from standing by itself.

* `buried_replaceAddresses`: so it is after the scan, unless a match that is kept has a literal
  begin behind a colon or an opening bracket (`PassesOver`).
* `LeavesGap.buried`: so it stays under the four other replacements, unless one of them takes away
  what is in front of a literal (`BehindName`), or puts one together from two parts (`Joins`).

`sanitize_hides` has the conditions under which no literal is exposed, and `sanitize_leaks` messages
that break them.
-/

namespace ScheduledDb

open Regex List

/-! ## What is kept -/

section Kept

variable {r : Regex Char} {f : List Char → List Char} (hf : ∀ m, f m = m ∨ IsMark (f m))

include hf

/-- A bracket-free beginning of the result is the beginning of the text.  The text goes on as the
result does, or with a match. -/
lemma kept_front (s : List Char) : ∀ w q, '[' ∉ w → replaceAll r f s = w ++ q →
    ∃ q', s = w ++ q' ∧
      (q'.head? = q.head? ∨ ∃ m u, m ≠ [] ∧ r.first (m ++ u) = some u ∧ q' = m ++ u) := by
  refine replaceAll_induction (motive := fun s t => ∀ w q, '[' ∉ w → t = w ++ q →
    ∃ q', s = w ++ q' ∧
      (q'.head? = q.head? ∨ ∃ m u, m ≠ [] ∧ r.first (m ++ u) = some u ∧ q' = m ++ u)) ?_ ?_ ?_ s
  · intro w q _ heq
    obtain ⟨rfl, rfl⟩ := List.append_eq_nil_iff.mp heq.symm
    exact ⟨[], rfl, .inl rfl⟩
  · intro c s _ ih w q hw heq
    cases w with
    | nil => exact ⟨c :: s, rfl, .inl (by rw [← List.nil_append q, ← heq]; rfl)⟩
    | cons c' w =>
      obtain ⟨rfl, htail⟩ := List.cons.inj heq
      obtain ⟨q', rfl, hq'⟩ := ih w q (List.not_mem_of_not_mem_cons hw) htail
      exact ⟨q', rfl, hq'⟩
  · intro m u hne hfirst ih w q hw heq
    rcases hf m with hsame | hmark
    · rw [hsame] at heq
      obtain ⟨w', rfl, htail⟩ | ⟨m', rfl, rfl⟩ := List.append_eq_append_iff.mp heq
      · obtain ⟨q', rfl, hq'⟩ := ih w' q (fun hmem => hw (List.mem_append_right m hmem)) htail
        exact ⟨q', (List.append_assoc _ _ _).symm, hq'⟩
      · cases m' with
        | nil =>
          obtain ⟨_, rfl, hq'⟩ := ih [] _ List.not_mem_nil rfl
          exact ⟨u, by simp, hq'⟩
        | cons c m' => exact ⟨c :: m' ++ u, List.append_assoc _ _ _, .inl rfl⟩
    · cases w with
      | nil => exact ⟨m ++ u, rfl, .inr ⟨m, u, hne, hfirst, rfl⟩⟩
      | cons c w =>
        obtain ⟨rest, hrest⟩ := List.head?_eq_some_iff.mp hmark.bracket
        rw [hrest] at heq
        obtain ⟨rfl, -⟩ := List.cons.inj heq
        exact absurd List.mem_cons_self hw

/-- The same for a beginning that starts in front of the text. -/
lemma kept_behind {front s w q : List Char} (hw : '[' ∉ w)
    (h : front ++ replaceAll r f s = w ++ q) : ∃ q', front ++ s = w ++ q' := by
  obtain ⟨w', rfl, htail⟩ | ⟨front', rfl, -⟩ := List.append_eq_append_iff.mp h
  · have hw' : '[' ∉ w' := fun hmem => hw (List.mem_append_right front hmem)
    obtain ⟨q', rfl, -⟩ := kept_front hf s w' q hw' htail
    exact ⟨q', (List.append_assoc _ _ _).symm⟩
  · exact ⟨front' ++ s, List.append_assoc _ _ _⟩

/-- **Nothing comes up that was not in the text**, if its first character is in no mark. -/
lemma kept_infix {c₀ : Char} {w : List Char} (hw : '[' ∉ c₀ :: w) (hc : ∀ m, f m = m ∨ c₀ ∉ f m)
    (s : List Char) :
    ∀ p q, replaceAll r f s = p ++ c₀ :: w ++ q → ∃ p' q', s = p' ++ c₀ :: w ++ q' := by
  refine replaceAll_induction (motive := fun s t => ∀ p q, t = p ++ c₀ :: w ++ q →
    ∃ p' q', s = p' ++ c₀ :: w ++ q') ?_ ?_ ?_ s
  · intro p q heq
    simp at heq
  · intro c s hfirst ih p q heq
    cases p with
    | nil =>
      rw [← replaceAll_of_not_first hfirst] at heq
      obtain ⟨q', hq', -⟩ := kept_front hf (c :: s) _ q hw heq
      exact ⟨[], q', hq'⟩
    | cons c' p =>
      obtain ⟨rfl, htail⟩ := List.cons.inj heq
      obtain ⟨p', q', rfl⟩ := ih p q htail
      exact ⟨c :: p', q', rfl⟩
  · intro m u _ _ ih p q heq
    rw [List.append_assoc] at heq
    -- where the occurrence begins: behind the match, or in what it is replaced by
    obtain ⟨p', rfl, htail⟩ | ⟨m', hm', htail⟩ := List.append_eq_append_iff.mp heq
    · obtain ⟨p'', q', rfl⟩ := ih p' q (by rw [htail, List.append_assoc])
      exact ⟨m ++ p'', q', by simp⟩
    · rcases hc m with hsame | hnot
      · obtain ⟨q', hq'⟩ := kept_behind hf hw htail.symm
        rw [hsame] at hm'
        exact ⟨p, q', by rw [hm', List.append_assoc, hq', List.append_assoc]⟩
      · cases m' with
        | nil =>
          obtain ⟨p'', q', rfl⟩ := ih [] q htail.symm
          exact ⟨m ++ p'', q', by simp⟩
        | cons c m' =>
          obtain ⟨rfl, -⟩ := List.cons.inj htail
          exact absurd (by simp [hm']) hnot

end Kept

/-- None of these words occurs in the text. -/
def Avoids (B : List Char → Prop) (t : List Char) : Prop := ∀ p w q, t = p ++ w ++ q → ¬ B w

variable {m t w s u : List Char} {x : Option Char} {c : Char}

lemma Avoids.tail {B : List Char → Prop} (h : Avoids B (m ++ t)) : Avoids B t :=
  fun p w q heq => h (m ++ p) w q (by simp [heq])

lemma Avoids.replaced {B : List Char → Prop} {t : List Char} (h : Avoids B t) {r : Regex Char}
    {f : List Char → List Char} (hf : ∀ m, f m = m ∨ IsMark (f m))
    (hB : ∀ w, B w → '[' ∉ w ∧ ∃ c ∈ w.head?, ∀ m, f m = m ∨ c ∉ f m) :
    Avoids B (replaceAll r f t) := by
  intro p w q heq hw
  obtain ⟨hbracket, c, hc, hmarks⟩ := hB w hw
  obtain ⟨w', rfl⟩ := List.head?_eq_some_iff.mp hc
  obtain ⟨p', q', heq'⟩ := kept_infix hf hbracket hmarks t p q heq
  exact h p' _ q' heq' hw

/-! ## Buried literals -/

/-- The text begins with a literal that no digit follows. -/
def Bare (t : List Char) : Prop :=
  ∃ literal q, t = literal ++ q ∧ IsIPv4 literal ∧ ¬ StartsWithDigit q

lemma Bare.startsWithDigit (h : Bare t) : StartsWithDigit t := by
  obtain ⟨l, q, rfl, hl, -⟩ := h
  obtain ⟨y, l', rfl, hy⟩ := exists_digit_cons hl
  exact ⟨y, rfl, hy⟩

/-- A dot, a digit, or a letter of a hexadecimal number. -/
def Shields (c : Char) : Prop := c = '.' ∨ isHexDigit c = true

instance (c : Char) : Decidable (Shields c) := inferInstanceAs (Decidable (_ ∨ _))

/-- A character in front of every literal keeps it from standing by itself.  `x` is what is in front
of the text. -/
def Buried (x : Option Char) (t : List Char) : Prop :=
  ∀ p u, t = p ++ u → Bare u → ∃ c ∈ p.getLast?.or x, Shields c

lemma buried_nil (x : Option Char) : Buried x [] := by
  intro p u heq hbare
  obtain ⟨-, rfl⟩ := append_eq_nil_iff.mp heq.symm
  obtain ⟨c, hc, -⟩ := hbare.startsWithDigit
  cases hc

lemma getLast?_cons_or (c : Char) (p : List Char) (x : Option Char) :
    (c :: p).getLast?.or x = p.getLast?.or (some c) := by
  rw [getLast?_cons]
  cases p.getLast? <;> rfl

/-- One character more. -/
lemma buried_cons :
    Buried x (c :: t) ↔ (Bare (c :: t) → ∃ d ∈ x, Shields d) ∧ Buried (some c) t := by
  constructor
  · intro h
    refine ⟨fun hbare => h [] _ rfl hbare, fun p u heq hbare => ?_⟩
    have hfront := h (c :: p) u (by rw [heq, cons_append]) hbare
    rwa [getLast?_cons_or] at hfront
  · rintro ⟨hhead, htail⟩ p u heq hbare
    cases p with
    | nil =>
      obtain rfl : c :: t = u := heq
      exact hhead hbare
    | cons c' p =>
      obtain ⟨rfl, rfl⟩ := cons.inj heq
      rw [getLast?_cons_or]
      exact htail p u rfl hbare

/-- Text without digits in front has no literal of its own. -/
lemma buried_append (hw : ∀ c ∈ w, c.isDigit = false) (h : Buried (w.getLast?.or x) t) :
    Buried x (w ++ t) := by
  induction w generalizing x with
  | nil => simpa using h
  | cons c w ih =>
    obtain ⟨hc, hrest⟩ := forall_mem_cons.mp hw
    rw [cons_append, buried_cons]
    constructor
    · intro hbare
      obtain ⟨d, hd, hdigit⟩ := hbare.startsWithDigit
      rw [← Option.some.inj hd, hc] at hdigit
      cases hdigit
    · rw [getLast?_cons_or] at h
      exact ih hrest h

lemma Buried.tail (h : Buried x (m ++ t)) : Buried (m.getLast?.or x) t := by
  induction m generalizing x with
  | nil => simpa using h
  | cons c m ih =>
    rw [getLast?_cons_or]
    exact ih (buried_cons.mp h).2

lemma isAlphanum_of_isHexDigit (h : isHexDigit c = true) : c.isAlphanum = true := by
  simp only [isHexDigit, isHexOrColon, Bool.and_eq_true, Bool.or_eq_true, decide_eq_true_eq] at h
  obtain ⟨((hdigit | hlower) | hupper) | hcolon, hne⟩ := h
  · exact Bool.or_eq_true_iff.mpr (.inr hdigit)
  · have hlow : c.isLower = true :=
      Bool.and_eq_true_iff.mpr ⟨decide_eq_true hlower.1,
        decide_eq_true (le_trans hlower.2 (by decide : 'f' ≤ 'z'))⟩
    exact Bool.or_eq_true_iff.mpr (.inl (Bool.or_eq_true_iff.mpr (.inr hlow)))
  · have hup : c.isUpper = true :=
      decide_eq_true ⟨hupper.1, le_trans hupper.2 (by decide : 'F' ≤ 'Z')⟩
    exact Bool.or_eq_true_iff.mpr (.inl (Bool.or_eq_true_iff.mpr (.inl hup)))
  · exact absurd hcolon hne

/-- **Buried literals do not stand by themselves.** -/
lemma Buried.not_exposes (h : Buried none t) : ¬ Exposes t := by
  rintro ⟨p, l, q, rfl, hl, hleft, hright⟩
  have hbare : Bare (l ++ q) := by
    refine ⟨l, q, rfl, hl, ?_⟩
    rintro ⟨c, hc, hdigit⟩
    exact hright c hc (.inl (by simp [Char.isAlphanum, hdigit]))
  obtain ⟨c, hc, hshields⟩ := h p (l ++ q) (append_assoc _ _ _) hbare
  rw [Option.or_none] at hc
  refine hleft c hc ?_
  rcases hshields with rfl | hhex
  · exact .inr (.inl rfl)
  · exact .inl (isAlphanum_of_isHexDigit hhex)

/-! ## Addresses -/

/-- The scan for addresses passes over a literal: within a match that is kept, the literal begins
behind a colon or an opening bracket. -/
def PassesOver (t : List Char) : Prop :=
  ∃ m u p c m' literal q, ipPattern.Finds t m u ∧ ipReplacement m = m ∧ m = p ++ c :: m' ∧
    (c = ':' ∨ c = '[') ∧ m' ≠ [] ∧ m' ++ u = literal ++ q ∧ IsIPv4 literal

lemma PassesOver.mono (hst : ∀ m u, ipPattern.Finds s m u → ipPattern.Finds t m u)
    (h : PassesOver s) : PassesOver t := by
  obtain ⟨m, u, p, c, m', l, q, hfinds, hrest⟩ := h
  exact ⟨m, u, p, c, m', l, q, hst m u hfinds, hrest⟩

/-- **The scan for addresses leaves no literal at which it comes by.** -/
lemma not_bare_replaceAddresses (s : List Char) : ¬ Bare (replaceAddresses s) := by
  rintro ⟨l, q, heq, hl, hq⟩
  obtain ⟨y, l', hy, hdigit⟩ := exists_digit_cons hl
  obtain ⟨q', rfl, -⟩ := kept_front ipReplacement_cases s l q (bracket_notMem_of_isIPv4 hl) heq
  obtain ⟨more, port, u, rfl, hmore, hport, hfirst⟩ := first_ipPattern hl q'
  have hassoc : l ++ (more ++ port ++ u) = (l ++ more ++ port) ++ u := by simp
  have hne : l ++ more ++ port ≠ [] := by simp [hy]
  rw [hassoc] at hfirst heq
  rw [replaceAddresses, replaceAll_of_first hne hfirst] at heq
  -- a mark does not begin with a digit
  have hkept : ¬ IsMark (ipReplacement (l ++ more ++ port)) := by
    intro hmark
    obtain ⟨rest, hrest⟩ := head?_eq_some_iff.mp hmark.bracket
    rw [hrest, hy] at heq
    obtain ⟨rfl, -⟩ := cons.inj heq
    exact absurd hdigit (by decide)
  cases more with
  | nil =>
    rw [append_nil] at hkept
    exact hkept (isMark_ipReplacement hl hport)
  | cons x more =>
    rw [(ipReplacement_cases _).resolve_right hkept, append_assoc, append_assoc,
      append_cancel_left_eq] at heq
    refine hq ⟨x, ?_, hmore x mem_cons_self⟩
    rw [← heq]
    rfl

lemma shields_of_isDigit (h : c.isDigit = true) : Shields c := by
  have hcolon : c ≠ ':' := by
    rintro rfl
    exact absurd h (by decide)
  exact .inr (by simp [isHexDigit, isHexOrColon, h, hcolon])

/-- The pieces of a match for IPv6. -/
lemma pieces_of_ipv6Pattern (h : u ∈ ipv6Pattern.ends s) :
    ∃ front close port, s = front ++ close ++ port ++ u ∧
      (∀ c ∈ front, c = '[' ∨ isHexOrColon c = true) ∧ (close = [] ∨ close = [']']) ∧
      (port = [] ∨ IsPort port) := by
  obtain ⟨t, ht, hu⟩ := mem_ends_seq.mp h
  obtain ⟨t', ht', hu'⟩ := mem_ends_seq.mp hu
  obtain ⟨t'', ht'', hu''⟩ := mem_ends_seq.mp hu'
  obtain ⟨run, -, rfl, hrun⟩ := mem_ends_plus_sym.mp ht'
  obtain ⟨port, rfl, hport⟩ := port_of_mem_ends hu''
  obtain ⟨front, rfl, hfront⟩ : ∃ front, s = front ++ (run ++ t') ∧
      ∀ c ∈ front, c = '[' ∨ isHexOrColon c = true := by
    obtain hopen | rfl := mem_ends_opt.mp ht
    · obtain ⟨c, rfl, hc⟩ := mem_ends_sym.mp hopen
      exact ⟨[c], rfl, by simpa using Or.inl (of_decide_eq_true hc)⟩
    · exact ⟨[], rfl, by simp⟩
  have hall : ∀ c ∈ front ++ run, c = '[' ∨ isHexOrColon c = true :=
    forall_mem_append.mpr ⟨hfront, fun c hc => .inr (hrun c hc)⟩
  obtain hclose | rfl := mem_ends_opt.mp ht''
  · obtain ⟨c, rfl, hc⟩ := mem_ends_sym.mp hclose
    obtain rfl : c = ']' := by simpa using hc
    exact ⟨front ++ run, [']'], port, by simp, hall, .inr rfl, hport⟩
  · exact ⟨front ++ run, [], port, by simp, hall, .inl rfl, hport⟩

lemma isHexOrColon_of_port {port : List Char} (h : port = [] ∨ IsPort port) :
    ∀ c ∈ port, isHexOrColon c = true := by
  rcases h with rfl | ⟨n, rfl, hn⟩
  · simp
  · exact forall_mem_cons.mpr ⟨by decide, fun c hc => by simp [isHexOrColon, hn c hc]⟩

/-- A closing bracket of a match is followed by its port. -/
lemma not_digit_behind_bracket {front port p m : List Char} {y : Char} (hfront : ']' ∉ front)
    (hport : port = [] ∨ IsPort port) (hy : y.isDigit = true) :
    front ++ ']' :: port ≠ p ++ ']' :: y :: m := by
  have hnot : ']' ∉ port := fun hmem => absurd (isHexOrColon_of_port hport ']' hmem) (by decide)
  have hhead : port ≠ y :: m := by
    rcases hport with rfl | ⟨n, rfl, -⟩
    · simp
    · intro heq
      obtain ⟨rfl, -⟩ := List.cons.inj heq
      exact absurd hy (by decide)
  intro heq
  obtain ⟨a, -, ha⟩ | ⟨a, ha, ha'⟩ := List.append_eq_append_iff.mp heq
  · cases a with
    | nil => exact hhead (List.cons.inj ha).2
    | cons c a => exact hnot (by simp [(List.cons.inj ha).2])
  · cases a with
    | nil => exact hhead (List.cons.inj ha').2.symm
    | cons c a =>
      obtain ⟨rfl, -⟩ := List.cons.inj ha'
      exact hfront (by simp [ha])

/-- **What is in front of a digit within a match.** -/
lemma front_of_digit {m u p m' : List Char} {c y : Char} (h : u ∈ ipPattern.ends (m ++ u))
    (hm : m = p ++ c :: y :: m') (hy : y.isDigit = true) :
    Shields c ∨ c = ':' ∨ c = '[' := by
  have hmem : c ∈ m := by simp [hm]
  have hhex : c = '[' ∨ isHexOrColon c = true → Shields c ∨ c = ':' ∨ c = '[' := by
    rintro (hopen | hhex)
    · exact .inr (.inr hopen)
    · by_cases hcolon : c = ':'
      · exact .inr (.inl hcolon)
      · exact .inl (.inr (by simp [isHexDigit, hhex, hcolon]))
  obtain hfour | hsix := mem_ends_alt.mp h
  · have hover : ipv4Pattern.Over fun c => c.isDigit = true ∨ c = '.' ∨ c = ':' := by
      simp +contextual [ipv4Pattern, octetPattern, portPattern, oneToThree, opt, plus,
        anyDigit, oneChar,
        Over]
    obtain ⟨m₁, heq, hm₁⟩ := exists_match_of_mem hover hfour
    obtain rfl := List.append_cancel_right heq
    rcases hm₁ c hmem with hdigit | rfl | rfl
    · exact .inl (shields_of_isDigit hdigit)
    · exact .inl (.inl rfl)
    · exact .inr (.inl rfl)
  · obtain ⟨front, close, port, heq, hfront, hclose, hport⟩ := pieces_of_ipv6Pattern hsix
    obtain rfl := List.append_cancel_right heq
    rcases List.mem_append.mp hmem with hmem | hmem
    · rcases List.mem_append.mp hmem with hmem | hmem
      · exact hhex (hfront c hmem)
      · rcases hclose with rfl | rfl
        · cases hmem
        · -- behind the bracket there is the port
          obtain rfl := List.mem_singleton.mp hmem
          have hnot : ']' ∉ front := fun hmem => absurd (hfront ']' hmem) (by decide)
          rw [List.append_assoc] at hm
          exact absurd hm (not_digit_behind_bracket hnot hport hy)
    · exact hhex (.inr (isHexOrColon_of_port hport c hmem))

/-- **After the scan for addresses every literal is buried**, if it passed over none. -/
lemma buried_replaceAddresses (s : List Char) :
    ¬ PassesOver s → ∀ x, Buried x (replaceAddresses s) := by
  refine replaceAll_induction (motive := fun s t => ¬ PassesOver s → ∀ x, Buried x t) ?_ ?_ ?_ s
  · exact fun _ => buried_nil
  · intro c s hfirst ih hover x
    refine buried_cons.mpr ⟨fun hbare => ?_, ih (mt (.mono fun _ _ => .skip hfirst) hover) (some c)⟩
    rw [← replaceAll_of_not_first hfirst] at hbare
    exact absurd hbare (not_bare_replaceAddresses (c :: s))
  · intro m u hne hfirst ih hover x
    specialize ih (mt (.mono fun _ _ => .next hne hfirst) hover)
    rcases ipReplacement_cases m with hsame | hmark
    · rw [hsame]
      intro p v heq hbare
      obtain ⟨p', rfl, hv⟩ | ⟨m', rfl, rfl⟩ := append_eq_append_iff.mp heq
      · -- behind the match
        obtain ⟨c, hc, hshields⟩ := ih (m.getLast?.or x) p' v hv hbare
        exact ⟨c, by simpa [getLast?_append, Option.or_assoc] using hc, hshields⟩
      · -- within the match, and not where the scan has come by
        have hstart : p ≠ [] := by
          rintro rfl
          rw [nil_append] at hsame hne hfirst
          rw [← hsame, ← replaceAll_of_first hne hfirst] at hbare
          exact not_bare_replaceAddresses _ hbare
        have hend : m' ≠ [] := by
          rintro rfl
          exact not_bare_replaceAddresses u hbare
        obtain ⟨p, c, rfl⟩ := (eq_nil_or_concat' p).resolve_left hstart
        obtain ⟨l, q, hv, hl, -⟩ := hbare
        obtain ⟨q', hq'⟩ := kept_behind ipReplacement_cases (bracket_notMem_of_isIPv4 hl) hv
        have hm : p ++ [c] ++ m' = p ++ c :: m' := by simp
        obtain ⟨y, l', hy', hy⟩ := exists_digit_cons hl
        obtain ⟨m'', hm''⟩ : ∃ m'', m' = y :: m'' := by
          obtain ⟨y', m'', rfl⟩ := exists_cons_of_ne_nil hend
          rw [hy'] at hv
          exact ⟨m'', by rw [(cons.inj hv).1]⟩
        have hlast : c ∈ (p ++ [c]).getLast?.or x := by simp
        refine ⟨c, hlast, ?_⟩
        rcases front_of_digit (mem_of_first hfirst) (p := p) (c := c) (by rw [hm, hm'']) hy with
          hshields | hbad
        · exact hshields
        · exact absurd ⟨_, u, p, c, m', l, q', .here hne hfirst, hsame, hm, hbad, hend, hq', hl⟩ hover
    · exact buried_append (fun c hc => (hmark.plain c hc).1) (ih _)

/-! ## The other replacements -/

section Replacement

variable {r : Regex Char} {f : List Char → List Char} {B : List Char → Prop}

/-- The replacement leaves a gap where it takes something away: what it puts there has no digits, and
no literal comes about in front of it.  Where the match ends in a character that shields a literal,
there is no literal behind it.  This is asked of texts in which the words `B` do not occur. -/
structure LeavesGap (r : Regex Char) (f : List Char → List Char) (B : List Char → Prop) : Prop where
  plain : ∀ m, ∀ c ∈ f m, c.isDigit = false
  bare : ∀ c s, Avoids B (c :: s) → (∀ u, r.first (c :: s) = some u → u = c :: s) →
    Bare (c :: replaceAll r f s) → Bare (c :: s)
  behind : ∀ m u, m ≠ [] → r.first (m ++ u) = some u → Avoids B (m ++ u) → Bare u →
    ∀ c ∈ m.getLast?, ¬ Shields c

/-- **Buried literals stay buried.**  `x` and `y` are what is in front of the text and in front of
the result. -/
lemma LeavesGap.buried (h : LeavesGap r f B) (s : List Char) :
    Avoids B s → ∀ x y, Buried x s → (Bare s → (∃ c ∈ x, Shields c) → ∃ c ∈ y, Shields c) →
      Buried y (replaceAll r f s) := by
  refine replaceAll_induction (motive := fun s t => Avoids B s → ∀ x y, Buried x s →
    (Bare s → (∃ c ∈ x, Shields c) → ∃ c ∈ y, Shields c) → Buried y t) ?_ ?_ ?_ s
  · exact fun _ _ y _ _ => buried_nil y
  · intro c s hfirst ih havoids x y hburied hxy
    obtain ⟨hhead, htail⟩ := buried_cons.mp hburied
    refine buried_cons.mpr ⟨fun hbare => ?_, ih (havoids.tail (m := [c])) _ _ htail fun _ => id⟩
    have hbare' := h.bare c s havoids hfirst hbare
    exact hxy hbare' (hhead hbare')
  · intro m u hne hfirst ih havoids x y hburied hxy
    refine buried_append (h.plain m) (ih havoids.tail _ _ hburied.tail fun hbare => ?_)
    rintro ⟨c, hc, hshields⟩
    have hlast : c ∈ m.getLast? := by
      rw [getLast?_eq_some_getLast hne] at hc ⊢
      simpa using hc
    exact absurd hshields (h.behind m u hne hfirst havoids hbare c hlast)

/-- Marks leave gaps. -/
lemma leavesGap_of_isMark {mark : List Char} (hmark : IsMark mark)
    (hfront : ∀ m u, m ≠ [] → r.first (m ++ u) = some u → ¬ StartsWithDigit m)
    (hbehind : ∀ m u, m ≠ [] → r.first (m ++ u) = some u → Avoids B (m ++ u) → Bare u →
      ∀ c ∈ m.getLast?, ¬ Shields c) :
    LeavesGap r (fun _ => mark) B where
  plain _ c hc := (hmark.plain c hc).1
  bare c s _ hnot hbare := by
    rw [← replaceAll_of_not_first hnot] at hbare
    obtain ⟨l, q, heq, hl, hq⟩ := hbare
    obtain ⟨q', heq', hq'⟩ :=
      kept_front (fun _ => .inr hmark) (c :: s) l q (bracket_notMem_of_isIPv4 hl) heq
    refine ⟨l, q', heq', hl, ?_⟩
    rintro ⟨d, hd, hdigit⟩
    rcases hq' with hsame | ⟨m, u, hne, hfirst, rfl⟩
    · exact hq ⟨d, hsame ▸ hd, hdigit⟩
    · rw [head?_append_of_ne_nil m hne] at hd
      exact hfront m u hne hfirst ⟨d, hd, hdigit⟩
  behind := hbehind

end Replacement

/-- What a text begins with, a match of it begins with. -/
lemma not_startsWithDigit_of_append {v : List Char} (hne : m ≠ []) (heq : m ++ u = w ++ v)
    (hw : ∃ c ∈ w.head?, c.isDigit = false) : ¬ StartsWithDigit m := by
  obtain ⟨c, hc, hplain⟩ := hw
  rintro ⟨d, hd, hdigit⟩
  have hhead : (m ++ u).head? = some d := by rwa [head?_append_of_ne_nil m hne]
  obtain ⟨rest, rfl⟩ := head?_eq_some_iff.mp hc
  rw [heq, cons_append, head?_cons] at hhead
  rw [Option.some.inj hhead, hdigit] at hplain
  cases hplain

/-! ### Paths and names -/

/-- A path to a file whose name ends in `.db`. -/
def IsDatabasePath (m : List Char) : Prop :=
  ∃ c w, m = '/' :: c :: w ++ ".db".toList ∧ isPathChar c = true ∧
    ∀ d ∈ w, d = '/' ∨ isPathChar d = true

/-- A literal with a name right in front of it that is replaced and ends in a letter that shields
it.  Of the extensions and names this is `b` alone. -/
def BehindName (w : List Char) : Prop :=
  ∃ m literal, w = m ++ literal ∧ IsIPv4 literal ∧
    (IsDatabasePath m ∨ m = "scheduled-db".toList)

lemma Avoids.not_bare (h : Avoids BehindName (m ++ u))
    (hm : IsDatabasePath m ∨ m = "scheduled-db".toList) : ¬ Bare u := by
  rintro ⟨l, q, rfl, hl, -⟩
  exact h [] (m ++ l) q (by simp) ⟨m, l, rfl, hl, hm⟩

/-- A match that is a path to a database, or does not end in a letter of a hexadecimal number. -/
lemma isDatabasePath_or (h : u ∈ pathPattern.ends (m ++ u)) :
    (∃ y rest, m ++ u = ['/'] ++ y :: rest) ∧ (IsDatabasePath m ∨ ∀ c ∈ m.getLast?, ¬ Shields c) := by
  have hover : pathPattern.Over fun c => c = '/' ∨ isPathChar c = true := by
    simp +contextual [pathPattern, oneChar, plus, opt, anyOf, phrase, word, Over, isPathChar,
      isWordChar]
  obtain ⟨m', heq, hall⟩ := exists_match_of_mem hover h
  obtain rfl := append_cancel_right heq
  obtain ⟨t₁, hfolders, hfile⟩ := mem_ends_seq.mp h
  obtain ⟨t₂, hfolder, hmore⟩ := mem_ends_seq.mp hfolders
  obtain ⟨t₃, hslash, hname⟩ := mem_ends_seq.mp hfolder
  obtain ⟨c, hc, hslash⟩ := mem_ends_sym.mp hslash
  obtain rfl : c = '/' := by simpa using hslash
  obtain ⟨run, hne, rfl, hrun⟩ := mem_ends_plus_sym.mp hname
  obtain ⟨m₁, hm₁, -⟩ := exists_match_of_mem (over_true _) hmore
  obtain ⟨m₂, t₄, hm₂, hfile⟩ := exists_behind_of_seq hfile
  obtain ⟨m₃, t₅, hm₃, hfile⟩ := exists_behind_of_seq hfile
  obtain ⟨t₆, hdot, hfile⟩ := mem_ends_seq.mp hfile
  obtain ⟨c, hc', hdot⟩ := mem_ends_sym.mp hdot
  obtain rfl : c = '.' := by simpa using hdot
  obtain ⟨ext, hext, hu⟩ := mem_ends_anyOf.mp hfile
  obtain ⟨y, run, rfl⟩ := exists_cons_of_ne_nil hne
  have hend : ∀ name : String, ext = phrase name →
      m = '/' :: y :: (run ++ m₁ ++ m₂ ++ m₃) ++ '.' :: name.toList := by
    rintro name rfl
    refine append_cancel_right (?_ : _ ++ u = _ ++ u)
    simp [hc, hm₁, hm₂, hm₃, hc', mem_ends_word.mp hu]
  have hother : ∀ (name : String) (d : Char), ext = phrase name → name.toList.getLast? = some d →
      ¬ Shields d → ∀ c ∈ m.getLast?, ¬ Shields c := by
    intro name d hname hd hplain c hlast
    rw [hend name hname, getLast?_append, getLast?_cons, hd] at hlast
    rwa [← Option.some.inj hlast]
  refine ⟨⟨y, run ++ t₂, by simp [hc]⟩, ?_⟩
  simp only [mem_cons, not_mem_nil, or_false] at hext
  rcases hext with rfl | rfl | rfl | rfl | rfl | rfl
  · refine .inl ⟨y, _, hend "db" rfl, hrun y mem_cons_self, fun d hd => hall d ?_⟩
    rw [hend "db" rfl]
    exact mem_append_left _ (mem_cons_of_mem _ (mem_cons_of_mem y hd))
  · exact .inr (hother "log" 'g' rfl rfl (by decide))
  · exact .inr (hother "tmp" 'p' rfl rfl (by decide))
  · exact .inr (hother "snap" 'p' rfl rfl (by decide))
  · exact .inr (hother "dat" 't' rfl rfl (by decide))
  · exact .inr (hother "bin" 'n' rfl rfl (by decide))

lemma leavesGap_paths : LeavesGap pathPattern (fun _ => "[path]".toList) BehindName := by
  refine leavesGap_of_isMark isMark_path ?_ ?_
  · intro m u hne hfirst
    obtain ⟨⟨y, rest, heq⟩, -⟩ := isDatabasePath_or (mem_of_first hfirst)
    exact not_startsWithDigit_of_append (w := ['/']) hne heq ⟨'/', rfl, by decide⟩
  · intro m u hne hfirst havoids hbare
    exact (isDatabasePath_or (mem_of_first hfirst)).2.resolve_left fun hpath =>
      havoids.not_bare (.inl hpath) hbare

lemma leavesGap_raft : LeavesGap raftPattern (fun _ => "[raft error]".toList) BehindName := by
  refine leavesGap_of_isMark isMark_raft ?_ ?_
  · -- the name
    intro m u hne hfirst
    obtain ⟨t, ht, -⟩ := mem_ends_seq.mp (mem_of_first hfirst)
    rcases mem_ends_alt.mp ht with hname | hname
    · exact not_startsWithDigit_of_append hne (mem_ends_word.mp hname) ⟨'r', rfl, by decide⟩
    · exact not_startsWithDigit_of_append hne (mem_ends_word.mp hname) ⟨'R', rfl, by decide⟩
  · -- the last part goes on over digits
    intro m u _ hfirst _ hbare
    obtain ⟨t₁, -, hfirst⟩ := exists_of_first_seq hfirst
    obtain ⟨t₂, -, hfirst⟩ := exists_of_first_seq hfirst
    obtain ⟨t₃, -, hfirst⟩ := exists_of_first_seq hfirst
    obtain ⟨t₄, -, hfirst⟩ := exists_of_first_seq hfirst
    obtain ⟨t₅, -, hfirst⟩ := exists_of_first_seq hfirst
    obtain ⟨c, hc, hdigit⟩ := hbare.startsWithDigit
    have hstop := head_of_first_plus_sym hfirst c hc
    simp [isTopologyChar, isWordChar, Char.isAlphanum, hdigit] at hstop

lemma leavesGap_service :
    LeavesGap (phrase "scheduled-db") (fun _ => "[service]".toList) BehindName := by
  refine leavesGap_of_isMark isMark_service ?_ ?_
  · intro m u hne hfirst
    exact not_startsWithDigit_of_append hne (mem_ends_word.mp (mem_of_first hfirst))
      ⟨'s', rfl, by decide⟩
  · intro m u hne hfirst havoids hbare
    have hname := append_cancel_right (mem_ends_word.mp (mem_of_first hfirst))
    exact absurd hbare (havoids.not_bare (.inr hname))

/-- Such words do not come about by marks. -/
lemma BehindName.start {w : List Char} (h : BehindName w) {f : List Char → List Char}
    (hf : ∀ m, f m = m ∨ '/' ∉ f m ∧ 's' ∉ f m) :
    '[' ∉ w ∧ ∃ c ∈ w.head?, ∀ m, f m = m ∨ c ∉ f m := by
  obtain ⟨m, l, rfl, hl, hm⟩ := h
  have hnot := bracket_notMem_of_isIPv4 hl
  rcases hm with ⟨c, w, rfl, hc, hw⟩ | rfl
  · have hc' : '[' ≠ c := by
      rintro rfl
      exact absurd hc (by decide)
    have hw' : '[' ∉ w := fun hmem => absurd (hw '[' hmem) (by decide)
    exact ⟨by simp [hnot, hc', hw'], '/', rfl, fun m => (hf m).imp_right fun h => h.1⟩
  · exact ⟨by simp [hnot], 's', rfl, fun m => (hf m).imp_right fun h => h.2⟩

/-! ### The domain -/

lemma removeDomain_cons (h : ¬ clusterDomain <+: c :: s) :
    removeDomain (c :: s) = c :: removeDomain s :=
  replaceAll_of_not_first fun u hu => absurd ⟨u, (mem_ends_word.mp (mem_of_first hu)).symm⟩ h

lemma not_domain_of_first (h : ∀ u, (word clusterDomain).first (c :: s) = some u → u = c :: s) :
    ¬ clusterDomain <+: c :: s := by
  rintro ⟨u, hu⟩
  rw [← hu] at h
  have hlength := congrArg length (h u (first_word clusterDomain u))
  have hpos : 0 < clusterDomain.length := by decide
  rw [length_append] at hlength
  omega

lemma removeDomain_induction {motive : List Char → List Char → Prop} (nil : motive [] [])
    (skip : ∀ c s, ¬ clusterDomain <+: c :: s → motive s (removeDomain s) →
      motive (c :: s) (c :: removeDomain s))
    (found : ∀ u, motive u (removeDomain u) → motive (clusterDomain ++ u) (removeDomain u))
    (s : List Char) : motive s (removeDomain s) := by
  refine replaceAll_induction nil (fun c s hfirst => skip c s (not_domain_of_first hfirst)) ?_ s
  intro m u _ hfirst ih
  obtain rfl := append_cancel_right (mem_ends_word.mp (mem_of_first hfirst))
  exact found u ih

/-- What the result begins with comes from the beginning of the text. -/
lemma exists_removed (s : List Char) :
    ∀ a b, removeDomain s = a ++ b → ∃ s₁ s₂, s = s₁ ++ s₂ ∧ removeDomain s₁ = a := by
  refine removeDomain_induction (motive := fun s t => ∀ a b, t = a ++ b →
    ∃ s₁ s₂, s = s₁ ++ s₂ ∧ removeDomain s₁ = a) ?_ ?_ ?_ s
  · intro a b heq
    exact ⟨[], [], rfl, (append_eq_nil_iff.mp heq.symm).1.symm⟩
  · intro c s hnot ih a b heq
    cases a with
    | nil => exact ⟨[], c :: s, rfl, rfl⟩
    | cons c' a =>
      obtain ⟨rfl, htail⟩ := cons.inj heq
      obtain ⟨s₁, s₂, rfl, rfl⟩ := ih a b htail
      exact ⟨c :: s₁, s₂, rfl, removeDomain_cons fun h => hnot (h.trans (prefix_append _ s₂))⟩
  · intro u ih a b heq
    obtain ⟨s₁, s₂, rfl, rfl⟩ := ih a b heq
    exact ⟨clusterDomain ++ s₁, s₂, by simp,
      replaceAll_of_first (by decide) (first_word clusterDomain s₁)⟩

/-- A literal in two parts, with the domain between them. -/
def Joins (w : List Char) : Prop :=
  ∃ x y, w = x ++ clusterDomain ++ y ∧ removeDomain x ≠ [] ∧ removeDomain y ≠ [] ∧
    IsIPv4 (removeDomain x ++ removeDomain y)

/-- What the result begins with was there before, or the domain was in between. -/
lemma front_of_removed (s : List Char) : ∀ w q, removeDomain s = w ++ q →
    (∃ q', s = w ++ q' ∧ (StartsWithDigit q' → StartsWithDigit q)) ∨
      ∃ x y q', s = x ++ clusterDomain ++ y ++ q' ∧ w = removeDomain x ++ removeDomain y ∧
        removeDomain y ≠ [] := by
  refine removeDomain_induction (motive := fun s t => ∀ w q, t = w ++ q →
    (∃ q', s = w ++ q' ∧ (StartsWithDigit q' → StartsWithDigit q)) ∨
      ∃ x y q', s = x ++ clusterDomain ++ y ++ q' ∧ w = removeDomain x ++ removeDomain y ∧
        removeDomain y ≠ []) ?_ ?_ ?_ s
  · intro w q heq
    obtain ⟨rfl, rfl⟩ := append_eq_nil_iff.mp heq.symm
    exact .inl ⟨[], rfl, id⟩
  · intro c s hnot ih w q heq
    cases w with
    | nil =>
      rw [nil_append] at heq
      subst heq
      exact .inl ⟨c :: s, rfl, id⟩
    | cons c' w =>
      obtain ⟨rfl, htail⟩ := cons.inj heq
      obtain ⟨q', rfl, hq'⟩ | ⟨x, y, q', rfl, rfl, hy⟩ := ih w q htail
      · exact .inl ⟨q', rfl, hq'⟩
      · refine .inr ⟨c :: x, y, q', rfl, ?_, hy⟩
        rw [removeDomain_cons fun h => hnot (h.trans ⟨clusterDomain ++ y ++ q', by simp⟩)]
        rfl
  · intro u _ w q heq
    cases w with
    | nil =>
      refine .inl ⟨_, rfl, ?_⟩
      rintro ⟨d, hd, hdigit⟩
      obtain rfl : '.' = d := Option.some.inj hd
      exact absurd hdigit (by decide)
    | cons c w =>
      obtain ⟨y, q', rfl, hy⟩ := exists_removed u (c :: w) q heq
      exact .inr ⟨[], y, q', by simp, hy.symm, by simp [hy]⟩

lemma leavesGap_domain : LeavesGap (word clusterDomain) (fun _ => []) Joins where
  plain _ c hc := absurd hc not_mem_nil
  bare := by
    rintro c s havoids hfirst ⟨l, q, heq, hl, hq⟩
    have hnot := not_domain_of_first hfirst
    have heq' : removeDomain (c :: s) = l ++ q := (removeDomain_cons hnot).trans heq
    obtain ⟨q', hs, hq'⟩ | ⟨x, y, q', hs, rfl, hy⟩ := front_of_removed (c :: s) l q heq'
    · exact ⟨l, q', hs, hl, mt hq' hq⟩
    · -- the text does not begin with the domain
      refine absurd ⟨x, y, rfl, fun hx => ?_, hy, hl⟩ (havoids [] _ q' hs)
      cases x with
      | nil => exact hnot ⟨y ++ q', by simp [hs]⟩
      | cons c' x =>
        obtain ⟨rfl, hs'⟩ := cons.inj hs
        rw [removeDomain_cons fun h => hnot (h.trans ⟨clusterDomain ++ y ++ q', by simp [hs']⟩)] at hx
        cases hx
  behind m u _ hfirst _ _ c hc := by
    rw [append_cancel_right (mem_ends_word.mp (mem_of_first hfirst))] at hc
    obtain rfl : 'l' = c := Option.some.inj hc
    decide

lemma mem_removeDomain_or (s : List Char) :
    (∀ c ∈ s, c ∈ removeDomain s ∨ c ∈ clusterDomain) ∧
      ∀ c ∈ s.head?, c ∈ removeDomain s ∨ c = '.' := by
  refine removeDomain_induction (motive := fun s t => (∀ c ∈ s, c ∈ t ∨ c ∈ clusterDomain) ∧
    ∀ c ∈ s.head?, c ∈ t ∨ c = '.') ?_ ?_ ?_ s
  · simp
  · intro c s _ ih
    refine ⟨fun d hd => ?_, fun d hd => .inl (by simp [Option.some.inj hd])⟩
    rcases mem_cons.mp hd with rfl | hd
    · exact .inl mem_cons_self
    · exact (ih.1 d hd).imp_left (mem_cons_of_mem c)
  · intro u ih
    refine ⟨fun d hd => ?_, fun d hd => .inr (Option.some.inj hd).symm⟩
    rcases mem_append.mp hd with hd | hd
    · exact .inr hd
    · exact ih.1 d hd

/-- Such words do not come about by marks. -/
lemma Joins.start {w : List Char} (h : Joins w) {f : List Char → List Char}
    (hf : ∀ m, f m = m ∨ IsMark (f m)) : '[' ∉ w ∧ ∃ c ∈ w.head?, ∀ m, f m = m ∨ c ∉ f m := by
  obtain ⟨x, y, rfl, hx, -, hl⟩ := h
  have hdomain : '[' ∉ clusterDomain := by decide
  have hbracket := bracket_notMem_of_isIPv4 hl
  rw [List.mem_append, not_or] at hbracket
  constructor
  · have hnot : ∀ s, '[' ∉ removeDomain s → '[' ∉ s := fun s hs hmem =>
      ((mem_removeDomain_or s).1 '[' hmem).elim hs hdomain
    simp [hnot x hbracket.1, hnot y hbracket.2, hdomain]
  · obtain ⟨c, x, rfl⟩ := List.exists_cons_of_ne_nil (show x ≠ [] by rintro rfl; exact hx rfl)
    refine ⟨c, rfl, fun m => (hf m).imp_right fun hmark hmem => ?_⟩
    obtain ⟨hdigit, hdot⟩ := hmark.plain c hmem
    rcases (mem_removeDomain_or (c :: x)).2 c rfl with hc | hc
    · rcases digit_or_dot_of_isIPv4 hl c (List.mem_append_left _ hc) with h | h
      · simp [h] at hdigit
      · exact hdot h
    · exact hdot hc

/-! ## Messages -/

lemma isIPv4_ten : IsIPv4 "10.0.0.1".toList := ⟨10, 0, 0, 1, by decide⟩

lemma delimiter_of_some {d : Char} (h : IsDelimiter d) : ∀ c ∈ some d, IsDelimiter c :=
  fun c hc => by rwa [← Option.some.inj hc]

end ScheduledDb
