import Mathlib.Data.List.TakeWhile
import Mathlib.Tactic.Lemma

/-!
# Regular expressions with preferences

Leftmost-first matching, as Perl and RE2 have it.  A match at the front of a text leaves a rest; an
expression may leave several, and `ends` lists them in the order in which a backtracking matcher
would find them: the first alternative before the second, more iterations before fewer, or the other
way round if the repetition is lazy.  The first of them is the match.  An iteration that consumes
nothing is not made.

`replaceAll` goes through a text from left to right, replaces each match by what a function makes of
it, and goes on behind it; empty matches are left aside.  Facts about its result are proved by
`replaceAll_induction`.
-/

/-- Patterns over an alphabet of which only tests are known. -/
inductive Regex (α : Type) where
  | eps
  | sym (p : α → Bool)
  | seq (a b : Regex α)
  | alt (a b : Regex α)
  | star (greedy : Bool) (a : Regex α)

namespace Regex

open List

variable {α : Type}

/-- At most `n` iterations. -/
def iterate (step : List α → List (List α)) (greedy : Bool) : ℕ → List α → List (List α)
  | 0, s => [s]
  | n + 1, s =>
    let more := ((step s).filter fun u => u.length < s.length).flatMap (iterate step greedy n)
    if greedy then more ++ [s] else s :: more

/-- What is left of a text behind the matches at its front, the preferred match first. -/
def ends : Regex α → List α → List (List α)
  | eps, s => [s]
  | sym _, [] => []
  | sym p, c :: s => if p c then [s] else []
  | seq a b, s => (a.ends s).flatMap b.ends
  | alt a b, s => a.ends s ++ b.ends s
  | star greedy a, s => iterate a.ends greedy s.length s

/-- What is left behind the match at the front of a text. -/
def first (r : Regex α) (s : List α) : Option (List α) := (r.ends s).head?

/-! ## Derived forms -/

/-- `a+` -/
def plus (a : Regex α) : Regex α := seq a (star true a)

/-- `a?` -/
def opt (a : Regex α) : Regex α := alt a eps

/-- `a{1,3}` -/
def oneToThree (a : Regex α) : Regex α := seq a (opt (seq a (opt a)))

/-- The text `w`. -/
def word [DecidableEq α] : List α → Regex α
  | [] => eps
  | c :: w => seq (sym (· = c)) (word w)

/-- One of several expressions. -/
def anyOf : List (Regex α) → Regex α
  | [] => sym fun _ => false
  | a :: l => alt a (anyOf l)

/-! ## The ends of a match -/

section Ends

variable {a b : Regex α} {p : α → Bool} {s u : List α} {step : List α → List (List α)} {n : ℕ}
  {greedy : Bool} {P : α → Prop}

@[simp] lemma mem_ends_eps : u ∈ (eps : Regex α).ends s ↔ u = s := mem_singleton

@[simp] lemma mem_ends_sym : u ∈ (sym p).ends s ↔ ∃ c, s = c :: u ∧ p c = true := by
  cases s with
  | nil => simp [ends]
  | cons c s =>
    rw [ends]
    constructor
    · intro hu
      split_ifs at hu with hc
      · exact ⟨c, by rw [mem_singleton.mp hu], hc⟩
      · cases hu
    · rintro ⟨c', heq, hc⟩
      obtain ⟨rfl, rfl⟩ := cons.inj heq
      rw [if_pos hc]
      exact mem_singleton_self s

@[simp] lemma mem_ends_seq : u ∈ (seq a b).ends s ↔ ∃ t ∈ a.ends s, u ∈ b.ends t :=
  mem_flatMap

@[simp] lemma mem_ends_alt : u ∈ (alt a b).ends s ↔ u ∈ a.ends s ∨ u ∈ b.ends s :=
  mem_append

@[simp] lemma mem_ends_opt : u ∈ (opt a).ends s ↔ u ∈ a.ends s ∨ u = s := by
  rw [opt, mem_ends_alt, mem_ends_eps]

@[simp] lemma mem_ends_word [DecidableEq α] {w : List α} : u ∈ (word w).ends s ↔ s = w ++ u := by
  induction w generalizing s with
  | nil => simp [word, eq_comm]
  | cons c w ih => simp [word, ih]

@[simp] lemma mem_ends_anyOf {l : List (Regex α)} : u ∈ (anyOf l).ends s ↔ ∃ r ∈ l, u ∈ r.ends s := by
  induction l with
  | nil => simp [anyOf]
  | cons r l ih => simp [anyOf, ih]

lemma mem_iterate_succ :
    u ∈ iterate step greedy (n + 1) s ↔
      u = s ∨ ∃ t ∈ step s, t.length < s.length ∧ u ∈ iterate step greedy n t := by
  cases greedy <;> simp [iterate, and_assoc, or_comm]

/-- Every symbol that the expression consumes has the property. -/
def Over (P : α → Prop) : Regex α → Prop
  | eps => True
  | sym p => ∀ c, p c = true → P c
  | seq a b => a.Over P ∧ b.Over P
  | alt a b => a.Over P ∧ b.Over P
  | star _ a => a.Over P

lemma over_true (r : Regex α) : r.Over fun _ => True := by
  induction r with
  | eps => trivial
  | sym p => exact fun _ _ => trivial
  | seq a b iha ihb => exact ⟨iha, ihb⟩
  | alt a b iha ihb => exact ⟨iha, ihb⟩
  | star greedy a ih => exact ih

/-- The match in front of an end. -/
lemma exists_match_of_iterate (h : ∀ s, ∀ u ∈ step s, ∃ m, s = m ++ u ∧ ∀ c ∈ m, P c)
    (hu : u ∈ iterate step greedy n s) : ∃ m, s = m ++ u ∧ ∀ c ∈ m, P c := by
  induction n generalizing s with
  | zero => exact ⟨[], by rw [mem_singleton.mp hu, nil_append], by simp⟩
  | succ n ih =>
    obtain rfl | ⟨t, ht, -, hu'⟩ := mem_iterate_succ.mp hu
    · exact ⟨[], rfl, by simp⟩
    · obtain ⟨m, rfl, hm⟩ := h s t ht
      obtain ⟨m', rfl, hm'⟩ := ih hu'
      exact ⟨m ++ m', by rw [append_assoc], forall_mem_append.mpr ⟨hm, hm'⟩⟩

/-- **A match is at the front** of the text, and has symbols that the expression consumes. -/
lemma exists_match_of_mem {r : Regex α} (hr : r.Over P) (h : u ∈ r.ends s) :
    ∃ m, s = m ++ u ∧ ∀ c ∈ m, P c := by
  induction r generalizing s u with
  | eps => exact ⟨[], by rw [mem_ends_eps.mp h, nil_append], by simp⟩
  | sym p =>
    obtain ⟨c, rfl, hc⟩ := mem_ends_sym.mp h
    exact ⟨[c], rfl, by simpa using hr c hc⟩
  | seq a b iha ihb =>
    obtain ⟨t, ht, hu⟩ := mem_ends_seq.mp h
    obtain ⟨m, rfl, hm⟩ := iha hr.1 ht
    obtain ⟨m', rfl, hm'⟩ := ihb hr.2 hu
    exact ⟨m ++ m', by rw [append_assoc], forall_mem_append.mpr ⟨hm, hm'⟩⟩
  | alt a b iha ihb => exact (mem_ends_alt.mp h).elim (iha hr.1) (ihb hr.2)
  | star greedy a ih => exact exists_match_of_iterate (fun _ _ => ih hr) h

/-- The second part of a sequence is matched behind the first. -/
lemma exists_behind_of_seq (h : u ∈ (seq a b).ends s) : ∃ m t, s = m ++ t ∧ u ∈ b.ends t := by
  obtain ⟨t, ht, hu⟩ := mem_ends_seq.mp h
  obtain ⟨m, hm, -⟩ := exists_match_of_mem a.over_true ht
  exact ⟨m, t, hm, hu⟩

/-- The ends of a repeated symbol. -/
lemma mem_iterate_sym (hn : s.length ≤ n) :
    u ∈ iterate (sym p).ends greedy n s ↔
      ∃ run, s = run ++ u ∧ ∀ c ∈ run, p c = true := by
  induction n generalizing s with
  | zero =>
    obtain rfl := length_eq_zero_iff.mp (Nat.le_zero.mp hn)
    rw [iterate, mem_singleton]
    constructor
    · rintro rfl
      exact ⟨[], rfl, by simp⟩
    · rintro ⟨run, heq, -⟩
      exact (append_eq_nil_iff.mp heq.symm).2
  | succ n ih =>
    rw [mem_iterate_succ]
    constructor
    · rintro (rfl | ⟨t, ht, -, hu⟩)
      · exact ⟨[], rfl, by simp⟩
      · obtain ⟨c, rfl, hc⟩ := mem_ends_sym.mp ht
        obtain ⟨run, rfl, hrun⟩ := (ih (Nat.le_of_succ_le_succ hn)).mp hu
        exact ⟨c :: run, rfl, forall_mem_cons.mpr ⟨hc, hrun⟩⟩
    · rintro ⟨run, rfl, hrun⟩
      cases run with
      | nil => exact .inl rfl
      | cons c run =>
        obtain ⟨hc, hrest⟩ := forall_mem_cons.mp hrun
        exact .inr ⟨run ++ u, mem_ends_sym.mpr ⟨c, rfl, hc⟩, Nat.lt_succ_self _,
          (ih (Nat.le_of_succ_le_succ hn)).mpr ⟨run, rfl, hrest⟩⟩

@[simp] lemma mem_ends_star_sym :
    u ∈ (star greedy (sym p)).ends s ↔ ∃ run, s = run ++ u ∧ ∀ c ∈ run, p c = true :=
  mem_iterate_sym (Nat.le_refl _)

@[simp] lemma mem_ends_plus_sym :
    u ∈ (plus (sym p)).ends s ↔ ∃ run, run ≠ [] ∧ s = run ++ u ∧ ∀ c ∈ run, p c = true := by
  rw [plus, mem_ends_seq]
  constructor
  · rintro ⟨t, ht, hu⟩
    obtain ⟨c, rfl, hc⟩ := mem_ends_sym.mp ht
    obtain ⟨run, rfl, hrun⟩ := mem_ends_star_sym.mp hu
    exact ⟨c :: run, by simp, rfl, forall_mem_cons.mpr ⟨hc, hrun⟩⟩
  · rintro ⟨run, hne, rfl, hrun⟩
    cases run with
    | nil => exact absurd rfl hne
    | cons c run =>
      obtain ⟨hc, hrest⟩ := forall_mem_cons.mp hrun
      exact ⟨run ++ u, mem_ends_sym.mpr ⟨c, rfl, hc⟩, mem_ends_star_sym.mpr ⟨run, rfl, hrest⟩⟩

end Ends

/-! ## The first match -/

section First

variable {a b : Regex α} {p : α → Bool} {s t u : List α}

lemma mem_of_first {r : Regex α} (h : r.first s = some u) : u ∈ r.ends s := mem_of_head? h

/-- The match of a sequence begins with some match of its first part, and has the preferred match
of the second part behind it. -/
lemma exists_of_first_seq (h : (seq a b).first s = some u) :
    ∃ t ∈ a.ends s, b.first t = some u := by
  rw [first, ends] at h
  generalize a.ends s = l at h
  induction l with
  | nil => simp at h
  | cons t l ih =>
    rw [flatMap_cons] at h
    cases hb : b.ends t with
    | nil =>
      rw [hb, nil_append] at h
      obtain ⟨t', ht', hu⟩ := ih h
      exact ⟨t', mem_cons_of_mem t ht', hu⟩
    | cons v vs =>
      rw [hb, cons_append, head?_cons] at h
      refine ⟨t, mem_cons_self, ?_⟩
      rw [first, hb, head?_cons, h]

lemma first_seq_of_first (ha : a.first s = some t) (hb : b.first t = some u) :
    (seq a b).first s = some u := by
  obtain ⟨ts, hts⟩ := head?_eq_some_iff.mp ha
  obtain ⟨us, hus⟩ := head?_eq_some_iff.mp hb
  rw [first, ends, hts, flatMap_cons, hus, cons_append, head?_cons]

lemma first_word [DecidableEq α] (w u : List α) : (word w).first (w ++ u) = some u := by
  have hmem : u ∈ (word w).ends (w ++ u) := mem_ends_word.mpr rfl
  cases hends : (word w).ends (w ++ u) with
  | nil => simp [hends] at hmem
  | cons v vs =>
    have hv : v ∈ (word w).ends (w ++ u) := by simp [hends]
    rw [first, hends, head?_cons, append_cancel_left (mem_ends_word.mp hv)]

/-- The first part has no choice. -/
lemma ends_seq_of_ends (ha : a.ends s = [t]) : (seq a b).ends s = b.ends t := by
  rw [ends, ha, flatMap_cons, flatMap_nil, append_nil]

lemma first_alt_of_first (ha : a.first s = some u) : (alt a b).first s = some u := by
  obtain ⟨us, hus⟩ := head?_eq_some_iff.mp ha
  rw [first, ends, hus, cons_append, head?_cons]

/-- Something is always left behind an optional part. -/
lemma exists_first_opt (a : Regex α) (s : List α) : ∃ u, (opt a).first s = some u := by
  cases ha : a.ends s with
  | nil => exact ⟨s, by simp [first, opt, ends, ha]⟩
  | cons u us => exact ⟨u, by simp [first, opt, ends, ha]⟩

/-- **A greedy repetition of a symbol goes on as long as it can.** -/
lemma first_star_sym (p : α → Bool) (s : List α) :
    (star true (sym p)).first s = some (s.dropWhile p) := by
  have hlist : ∀ n, s.length ≤ n →
      (iterate (sym p).ends true n s).head? = some (s.dropWhile p) := by
    intro n hn
    induction n generalizing s with
    | zero =>
      obtain rfl := length_eq_zero_iff.mp (Nat.le_zero.mp hn)
      rfl
    | succ n ih =>
      cases s with
      | nil => simp [iterate, ends]
      | cons c s =>
        specialize ih s (Nat.le_of_succ_le_succ hn)
        by_cases hc : p c = true
        · simp [iterate, ends, hc, ih]
        · simp [iterate, ends, hc]
  exact hlist s.length (Nat.le_refl _)

/-- Behind a greedy run of a symbol there is no more of it. -/
lemma head_of_first_plus_sym (h : (plus (sym p)).first s = some u) :
    ∀ c ∈ u.head?, p c = false := by
  obtain ⟨t, -, hstar⟩ := exists_of_first_seq h
  rw [first_star_sym, Option.some.injEq] at hstar
  subst hstar
  intro c hc
  have hne : t.dropWhile p ≠ [] := by
    intro hnil
    rw [hnil] at hc
    cases hc
  have hhead := head_dropWhile_not p (l := t) hne
  rw [head?_eq_some_head hne] at hc
  rwa [Option.some.inj hc] at hhead

end First

/-! ## Replacing -/

section Replace

variable (r : Regex α) (f : List α → List α)

/-- The match at the front. -/
def find (s : List α) : Option (List α) := (r.first s).map fun u => s.take (s.length - u.length)

/-- The text behind the next `skip` symbols, with its matches replaced. -/
def replaceFrom : ℕ → List α → List α
  | _, [] => []
  | skip + 1, _ :: s => replaceFrom skip s
  | 0, c :: s =>
    match r.find (c :: s) with
    | some (c' :: m) => f (c' :: m) ++ replaceFrom m.length s
    | _ => c :: replaceFrom 0 s

def replaceAll (s : List α) : List α := replaceFrom r f 0 s

/-- Going through a text one comes to a match, with a text behind it. -/
inductive Finds : List α → List α → List α → Prop where
  | here {m u : List α} : m ≠ [] → r.first (m ++ u) = some u → Finds (m ++ u) m u
  | skip {c : α} {s m u : List α} : (∀ v, r.first (c :: s) = some v → v = c :: s) →
      Finds s m u → Finds (c :: s) m u
  | next {m u m' u' : List α} : m ≠ [] → r.first (m ++ u) = some u → Finds u m' u' →
      Finds (m ++ u) m' u'

variable {r f} {s m u : List α}

lemma replaceFrom_eq (skip : ℕ) (s : List α) :
    replaceFrom r f skip s = replaceAll r f (s.drop skip) := by
  induction s generalizing skip with
  | nil => simp [replaceFrom, replaceAll]
  | cons c s ih =>
    cases skip with
    | zero => rfl
    | succ skip => rw [replaceFrom, ih, drop_succ_cons]

lemma Finds.isInfix (h : r.Finds s m u) : m <:+: s := by
  induction h with
  | here _ _ => exact (prefix_append _ _).isInfix
  | skip _ _ ih => exact ih.trans (suffix_cons _ _).isInfix
  | next _ _ _ ih => exact ih.trans (suffix_append _ _).isInfix

lemma replaceAll_of_first (hm : m ≠ []) (h : r.first (m ++ u) = some u) :
    replaceAll r f (m ++ u) = f m ++ replaceAll r f u := by
  cases m with
  | nil => exact absurd rfl hm
  | cons c m =>
    have hfind : r.find (c :: (m ++ u)) = some (c :: m) := by
      rw [← cons_append, find, h, Option.map_some, length_append, Nat.add_sub_cancel,
        take_left]
    rw [cons_append, replaceAll, replaceFrom, hfind]
    simp only [replaceFrom_eq, drop_left]

/-- A symbol at which no match begins stays. -/
lemma replaceAll_of_not_first {c : α} (h : ∀ u, r.first (c :: s) = some u → u = c :: s) :
    replaceAll r f (c :: s) = c :: replaceAll r f s := by
  have hfind : r.find (c :: s) = none ∨ r.find (c :: s) = some [] := by
    cases hfirst : r.first (c :: s) with
    | none => simp [find, hfirst]
    | some u => simp [find, hfirst, h u hfirst]
  rw [replaceAll, replaceFrom]
  rcases hfind with hfind | hfind <;> simp [hfind, replaceAll]

/-- **Induction along a replacement**: the next symbol stays, or the text begins with a match. -/
lemma replaceAll_induction {motive : List α → List α → Prop} (nil : motive [] [])
    (skip : ∀ c s, (∀ u, r.first (c :: s) = some u → u = c :: s) →
      motive s (replaceAll r f s) → motive (c :: s) (c :: replaceAll r f s))
    (found : ∀ m u, m ≠ [] → r.first (m ++ u) = some u →
      motive u (replaceAll r f u) → motive (m ++ u) (f m ++ replaceAll r f u))
    (s : List α) : motive s (replaceAll r f s) := by
  induction hn : s.length using Nat.strong_induction_on generalizing s with
  | _ n ih =>
    cases s with
    | nil => exact nil
    | cons c s =>
      by_cases hfirst : ∀ u, r.first (c :: s) = some u → u = c :: s
      · rw [replaceAll_of_not_first hfirst]
        exact skip c s hfirst (ih s.length (by simp [← hn]) s rfl)
      · obtain ⟨u, hu⟩ := not_forall.mp hfirst
        obtain ⟨hu, hne⟩ := Classical.not_imp.mp hu
        obtain ⟨m, hm, -⟩ := exists_match_of_mem r.over_true (mem_of_first hu)
        have hnil : m ≠ [] := by
          rintro rfl
          exact hne hm.symm
        have hshort : u.length < n := by
          have hlength := congrArg length hm
          rw [length_append] at hlength
          have hpos := length_pos_iff.mpr hnil
          omega
        rw [hm] at hu ⊢
        rw [replaceAll_of_first hnil hu]
        exact found m u hnil hu (ih u.length hshort u rfl)

end Replace

end Regex
