import Mathlib.Algebra.BigOperators.Group.Multiset.Basic
import Mathlib.Algebra.Order.Group.Nat
import Mathlib.Data.Finmap
import Mathlib.Data.List.Sort

/-!
# Finite maps

A map over the values of a finite map, what looking up after an update gives, by cases on the key,
the entries as a list, in the order of the keys, and sums over the values.
-/

/-- The elements of a multiset in order. -/
def Multiset.sortedList {α : Type*} [LinearOrder α] (s : Multiset α) : List α :=
  Quot.liftOn s (fun l => l.insertionSort (· ≤ ·)) fun l l' (h : l.Perm l') =>
    List.Perm.eq_of_sortedLE List.sortedLE_insertionSort List.sortedLE_insertionSort
      (((List.perm_insertionSort _ l).trans h).trans (List.perm_insertionSort _ l').symm)

lemma Multiset.mem_sortedList {α : Type*} [LinearOrder α] (s : Multiset α) (a : α) :
    a ∈ s.sortedList ↔ a ∈ s := by
  induction s using Quot.inductionOn with
  | _ l => exact (List.perm_insertionSort _ l).mem_iff

lemma Multiset.nodup_sortedList {α : Type*} [LinearOrder α] {s : Multiset α} (h : s.Nodup) :
    s.sortedList.Nodup := by
  induction s using Quot.inductionOn with
  | _ l => exact (List.perm_insertionSort _ l).nodup_iff.mpr h

lemma Multiset.coe_sortedList {α : Type*} [LinearOrder α] (s : Multiset α) :
    (s.sortedList : Multiset α) = s := by
  induction s using Quot.inductionOn with
  | _ l => exact Multiset.coe_eq_coe.mpr (List.perm_insertionSort _ l)

namespace Finmap

variable {α β γ : Type*} [DecidableEq α] {m : Finmap fun _ : α => β} {a' a : α} {b : β}

/-- Apply a function to every value. -/
def mapValues (f : β → γ) (m : Finmap fun _ : α => β) : Finmap fun _ : α => γ where
  entries := m.entries.map fun x => ⟨x.1, f x.2⟩
  nodupKeys := by
    rw [← Multiset.nodup_keys, Multiset.keys, Multiset.map_map]
    exact Multiset.nodup_keys.mpr m.nodupKeys

lemma lookup_mapValues (f : β → γ) (m : Finmap fun _ : α => β) (a : α) :
    (m.mapValues f).lookup a = (m.lookup a).map f := by
  ext c
  rw [← Option.mem_def, mem_lookup_iff, Option.map_eq_some_iff]
  simp only [mapValues, Multiset.mem_map]
  constructor
  · rintro ⟨⟨a', b⟩, hmem, heq⟩
    obtain ⟨rfl, hb⟩ := Sigma.mk.inj heq
    exact ⟨b, mem_lookup_iff.mpr hmem, eq_of_heq hb⟩
  · rintro ⟨b, hb, rfl⟩
    exact ⟨⟨a, b⟩, mem_lookup_iff.mp hb, rfl⟩

/-- Mapping with a function that leaves the values alone changes nothing. -/
lemma mapValues_eq_self {f : β → β} (h : ∀ a b, m.lookup a = some b → f b = b) :
    m.mapValues f = m := by
  refine ext_lookup fun a => ?_
  rw [lookup_mapValues]
  cases hb : m.lookup a with
  | none => rfl
  | some b => rw [Option.map_some, h a b hb]

lemma lookup_insert_ite (m : Finmap fun _ : α => β) (a a' : α) (b : β) :
    (m.insert a b).lookup a' = if a' = a then some b else m.lookup a' := by
  split_ifs with h
  · rw [h, lookup_insert]
  · exact lookup_insert_of_ne m h

lemma lookup_erase_ite (m : Finmap fun _ : α => β) (a a' : α) :
    (m.erase a).lookup a' = if a' = a then none else m.lookup a' := by
  split_ifs with h
  · rw [h, lookup_erase]
  · exact lookup_erase_ne h

/-- What is found after an insertion is the new value, or was there before. -/
lemma lookup_of_insert {b' : β} (h : (m.insert a b).lookup a' = some b') :
    (a' = a ∧ b' = b) ∨ m.lookup a' = some b' := by
  rw [lookup_insert_ite] at h
  split_ifs at h with ha
  · exact Or.inl ⟨ha, (Option.some.inj h).symm⟩
  · exact Or.inr h

lemma lookup_of_erase (h : (m.erase a).lookup a' = some b) : m.lookup a' = some b := by
  rw [lookup_erase_ite] at h
  split_ifs at h
  exact h

section Named

variable {name : β → α} {m : Finmap fun _ : α => β}
  (h : ∀ a b, m.lookup a = some b → name b = a)
include h

/-- Values that are stored under their own names still are after such an insertion. -/
lemma named_insert {a : α} {b : β} (hb : name b = a) (a' : α) (b' : β)
    (h' : (m.insert a b).lookup a' = some b') : name b' = a' := by
  rcases lookup_of_insert h' with ⟨rfl, rfl⟩ | hold
  · exact hb
  · exact h a' b' hold

lemma named_erase (a a' : α) (b : β) (h' : (m.erase a).lookup a' = some b) : name b = a' :=
  h a' b (lookup_of_erase h')

end Named

/-- The entries in the order of their keys. -/
def sortedEntries [LinearOrder α] (m : Finmap fun _ : α => β) : List (Σ _ : α, β) :=
  m.keys.val.sortedList.filterMap fun a => (m.lookup a).map fun b => ⟨a, b⟩

lemma mem_sortedEntries [LinearOrder α] (m : Finmap fun _ : α => β) (a : α) (b : β) :
    (⟨a, b⟩ : Σ _ : α, β) ∈ m.sortedEntries ↔ m.lookup a = some b := by
  simp only [sortedEntries, List.mem_filterMap, Multiset.mem_sortedList, Option.map_eq_some_iff]
  constructor
  · rintro ⟨a', _, b', hb', heq⟩
    cases heq
    exact hb'
  · intro h
    refine ⟨a, ?_, b, h, rfl⟩
    exact Finmap.mem_keys.mpr (Finmap.mem_of_lookup_eq_some h)

/-- What holds of all entries. -/
lemma forall_mem_sortedEntries [LinearOrder α] (m : Finmap fun _ : α => β) (P : α → β → Prop) :
    (∀ x ∈ m.sortedEntries, P x.1 x.2) ↔ ∀ a b, m.lookup a = some b → P a b := by
  constructor
  · exact fun h a b hb => h ⟨a, b⟩ ((m.mem_sortedEntries a b).mpr hb)
  · exact fun h x hx => h x.1 x.2 ((m.mem_sortedEntries x.1 x.2).mp hx)

/-- Counting entries is counting keys. -/
lemma countP_sortedEntries [LinearOrder α] (m : Finmap fun _ : α => β) (p : β → Bool) :
    m.sortedEntries.countP (fun x => p x.2) = (m.keys.filter fun a => (m.lookup a).any p).card := by
  have hany : ∀ a : α, ((((m.lookup a).map fun b => (⟨a, b⟩ : Σ _ : α, β)).map
      fun x => p x.2).getD false) = (m.lookup a).any p := by
    intro a
    cases m.lookup a <;> rfl
  have hkeys := congrArg (Multiset.countP fun a => (m.lookup a).any p = true)
    m.keys.val.coe_sortedList
  rw [Multiset.coe_countP] at hkeys
  simp only [sortedEntries, List.countP_filterMap, hany]
  rw [Finset.card_def, Finset.filter_val, ← Multiset.countP_eq_card_filter, ← hkeys]
  simp

lemma nodup_sortedEntries [LinearOrder α] (m : Finmap fun _ : α => β) : m.sortedEntries.Nodup := by
  refine (Multiset.nodup_sortedList m.keys.nodup).filterMap fun a a' x hx hx' => ?_
  obtain ⟨b, _, rfl⟩ := Option.map_eq_some_iff.mp hx
  obtain ⟨b', _, heq⟩ := Option.map_eq_some_iff.mp hx'
  exact (congrArg Sigma.fst heq).symm

/-- The map of a list of entries that has one value for each key. -/
lemma lookup_toFinmap_of_mem_iff {l : List (Σ _ : α, β)} {f : α → Option β}
    (h : ∀ a b, (⟨a, b⟩ : Σ _ : α, β) ∈ l ↔ f a = some b) (a : α) : l.toFinmap.lookup a = f a := by
  rw [dlookup_list_toFinmap]
  cases hl : l.dlookup a with
  | some b => exact ((h a b).mp (List.of_mem_dlookup hl)).symm
  | none =>
    rw [List.dlookup_eq_none] at hl
    cases hf : f a with
    | none => rfl
    | some b => exact absurd (List.mem_keys_of_mem ((h a b).mpr hf)) hl

/-! ## Sums over the values -/

section Total

variable {M : Type*} [AddCommMonoid M] (g : β → M) {a : α} {m : Finmap fun _ : α => β} {b : β}

/-- The sum of `g` over the values. -/
def total (m : Finmap fun _ : α => β) : M := (m.entries.map fun x => g x.2).sum

lemma total_insert (b : β) (h : m.lookup a = none) : total g (m.insert a b) = total g m + g b := by
  rw [total, entries_insert_of_notMem (lookup_eq_none.mp h), Multiset.map_cons, Multiset.sum_cons,
    add_comm, total]

/-- Splitting off one value. -/
lemma total_erase (h : m.lookup a = some b) : total g m = total g (m.erase a) + g b := by
  rw [← total_insert g b (lookup_erase a m)]
  congr 1
  refine ext_lookup fun a' => ?_
  by_cases ha : a' = a
  · subst ha
    rw [lookup_insert, h]
  · rw [lookup_insert_of_ne _ ha, lookup_erase_ne ha]

/-- An insertion adds at most the new value. -/
lemma total_insert_le [PartialOrder M] [IsOrderedAddMonoid M] (hg : ∀ b, 0 ≤ g b)
    (m : Finmap fun _ : α => β) (a : α) (b : β) : total g (m.insert a b) ≤ total g m + g b := by
  cases h : m.lookup a with
  | none => rw [total_insert g b h]
  | some old =>
    have herase : total g (m.insert a b) = total g (m.erase a) + g b := by
      rw [total_erase g (lookup_insert (b := b) m)]
      congr 2
      refine ext_lookup fun a' => ?_
      by_cases ha : a' = a
      · subst ha
        rw [lookup_erase, lookup_erase]
      · rw [lookup_erase_ne ha, lookup_erase_ne ha, lookup_insert_of_ne _ ha]
    rw [herase, total_erase g h]
    exact add_le_add_left (le_add_of_nonneg_right (hg old)) _

/-- The sum depends on what `g` makes of the values only. -/
lemma total_congr {m' : Finmap fun _ : α => β} (h : ∀ a, (m'.lookup a).map g = (m.lookup a).map g) :
    total g m' = total g m := by
  have hmap : m'.mapValues g = m.mapValues g :=
    ext_lookup fun a => by rw [lookup_mapValues, lookup_mapValues, h a]
  have hsum : ∀ m : Finmap fun _ : α => β, total g m = total id (m.mapValues g) := by
    intro m
    simp [total, mapValues]
  rw [hsum, hsum, hmap]

omit [DecidableEq α] in
/-- Counting the entries. -/
lemma card_keys (m : Finmap fun _ : α => β) : m.keys.card = total (fun _ => 1) m := by
  simp [total, keys, Finset.card, Multiset.keys]

lemma card_keys_insert (b : β) (h : m.lookup a = none) :
    (m.insert a b).keys.card = m.keys.card + 1 := by
  rw [card_keys, card_keys, total_insert _ b h]

lemma card_keys_insert_le (m : Finmap fun _ : α => β) (a : α) (b : β) :
    (m.insert a b).keys.card ≤ m.keys.card + 1 := by
  rw [card_keys, card_keys]
  exact total_insert_le _ (fun _ => Nat.zero_le 1) m a b

lemma card_keys_erase (h : m.lookup a = some b) : m.keys.card = (m.erase a).keys.card + 1 := by
  rw [card_keys, card_keys, total_erase _ h]

end Total

end Finmap
