import ScheduledDb.Core.FiniteMap

/-!
# JSON trees, and records that are read back from them

A JSON text as the tree it stands for.  A record is written as a `struct`, one member for each field
under the field's tag; a member may be left out (`omitempty`).  A reader looks members up by their
tags; a member that is missing, or `null`, leaves the zero value in the field.

`field_struct` is the rule for reading a field of a record that has been written, `readList_writeList`
and `readMap_writeMap` those for lists and maps.  A value that is not looked into is kept as its own
text (`raw`).
-/

inductive Json where
  | null
  | bool (b : Bool)
  | num (n : ℤ)
  | str (s : String)
  | raw (text : String)
  | arr (elems : List Json)
  | obj (members : List (String × Json))

namespace Json

variable {α β κ : Type} {fields : List (String × Option Json)} {write : α → Json}
  {read : Json → Option β} {f : α → β}

/-! ## Records -/

/-- A record; the members that are `none` are left out. -/
def struct (fields : List (String × Option Json)) : Json :=
  obj (fields.filterMap fun field => field.2.map fun j => (field.1, j))

/-- Read the member under a tag. -/
def field (j : Json) (tag : String) (read : Json → Option α) : Option α :=
  match j with
  | null => read null
  | obj members => read ((members.lookup tag).getD null)
  | _ => none

lemma lookup_filterMap (tag : String) (h : (fields.map Prod.fst).Nodup) :
    (fields.filterMap fun field => field.2.map fun j => (field.1, j)).lookup tag
      = (fields.lookup tag).join := by
  induction fields with
  | nil => rfl
  | cons field fields ih =>
    obtain ⟨name, value⟩ := field
    obtain ⟨hname, hrest⟩ := List.nodup_cons.mp h
    specialize ih hrest
    by_cases htag : tag = name
    · subst htag
      -- the tag does not occur again
      have hnone : fields.lookup tag = none := by
        rw [List.lookup_eq_none_iff]
        intro p hp
        rw [bne_iff_ne]
        rintro rfl
        exact hname (List.mem_map.mpr ⟨p, hp, rfl⟩)
      cases value with
      | none => simpa [hnone] using ih
      | some j => simp
    · have hne : (tag == name) = false := by simpa using htag
      cases value with
      | none | some j => simpa [List.lookup_cons, hne] using ih

/-- **Reading a field of a record** that has been written. -/
lemma field_struct (h : (fields.map Prod.fst).Nodup) (tag : String) (read : Json → Option α) :
    (struct fields).field tag read = read ((fields.lookup tag).join.getD null) := by
  rw [struct, field, lookup_filterMap tag h]

/-! ## Fields -/

def readInt : Json → Option ℤ
  | null => some 0
  | num n => some n
  | _ => none

def readString : Json → Option String
  | null => some ""
  | str s => some s
  | _ => none

/-- A pointer: `null` is `nil`. -/
def readPtr (read : Json → Option α) : Json → Option (Option α)
  | null => some none
  | j => (read j).map some

def omitInt (n : ℤ) : Option Json := if n = 0 then none else some (num n)

def omitString (s : String) : Option Json := if s = "" then none else some (str s)

@[simp] lemma readInt_num (n : ℤ) : readInt (num n) = some n := rfl

@[simp] lemma readString_str (s : String) : readString (str s) = some s := rfl

@[simp] lemma readInt_omitInt (n : ℤ) : readInt ((omitInt n).getD null) = some n := by
  unfold omitInt
  split_ifs with h
  · rw [h]
    rfl
  · rfl

@[simp] lemma readString_omitString (s : String) :
    readString ((omitString s).getD null) = some s := by
  unfold omitString
  split_ifs with h
  · rw [h]
    rfl
  · rfl

/-- A pointer to a value that is not written as `null`. -/
lemma readPtr_map {o : Option α} (hnull : ∀ a, write a ≠ null)
    (h : ∀ a, read (write a) = some (f a)) :
    readPtr read ((o.map write).getD null) = some (o.map f) := by
  cases o with
  | none => rfl
  | some a =>
    have hptr : readPtr read (write a) = (read (write a)).map some := by
      cases hw : write a with
      | null => exact absurd hw (hnull a)
      | _ => rfl
    rw [Option.map_some, Option.getD_some, hptr, h, Option.map_some, Option.map_some]

@[simp] lemma readPtr_num (o : Option ℤ) : readPtr readInt ((o.map num).getD null) = some o := by
  cases o <;> rfl

/-! ## Lists -/

/-- An empty list may be a `nil` slice. -/
def writeList (isNil : Bool) (write : α → Json) (l : List α) : Json :=
  if l.isEmpty && isNil then null else arr (l.map write)

def omitList (write : α → Json) (l : List α) : Option Json :=
  if l.isEmpty then none else some (arr (l.map write))

def readList (read : Json → Option α) : Json → Option (List α)
  | null => some []
  | arr elems => elems.mapM read
  | _ => none

lemma mapM_map {γ : Type} {read : γ → Option β} {write : α → γ} {l : List α}
    (h : ∀ a ∈ l, read (write a) = some (f a)) : (l.map write).mapM read = some (l.map f) := by
  induction l with
  | nil => rfl
  | cons a l ih =>
    have hfirst := h a List.mem_cons_self
    have hrest := ih fun a' ha' => h a' (List.mem_cons_of_mem a ha')
    simp [hfirst, hrest]

lemma readList_writeList (h : ∀ a, read (write a) = some (f a)) (isNil : Bool) (l : List α) :
    readList read (writeList isNil write l) = some (l.map f) := by
  unfold writeList
  split_ifs with hnil
  · have hempty : l = [] := by
      rw [Bool.and_eq_true, List.isEmpty_iff] at hnil
      exact hnil.1
    rw [hempty]
    rfl
  · exact mapM_map fun a _ => h a

lemma readList_omitList (h : ∀ a, read (write a) = some (f a)) (l : List α) :
    readList read ((omitList write l).getD null) = some (l.map f) := by
  unfold omitList
  split_ifs with hnil
  · rw [List.isEmpty_iff] at hnil
    rw [hnil]
    rfl
  · exact mapM_map fun a _ => h a

/-! ## Maps -/

section Maps

variable [DecidableEq κ] [LinearOrder κ] {key : String → Option κ} {text : κ → String}

/-- A map, in the order of its keys. -/
def writeMap (text : κ → String) (write : κ → β → Json) (m : Finmap fun _ : κ => β) : Json :=
  obj (m.sortedEntries.map fun entry => (text entry.1, write entry.1 entry.2))

/-- One entry of a map. -/
def readEntry (key : String → Option κ) (read : Json → Option β) (member : String × Json) :
    Option (Σ _ : κ, β) := do
  let k ← key member.1
  let v ← read member.2
  return ⟨k, v⟩

def readMap (key : String → Option κ) (read : Json → Option β) :
    Json → Option (Finmap fun _ : κ => β)
  | null => some ∅
  | obj members => (members.mapM (readEntry key read)).map List.toFinmap
  | _ => none

/-- **Reading a map** whose keys and values can be read back. -/
lemma readMap_writeMap {write : κ → β → Json} {read : Json → Option β} {f : β → β}
    {m : Finmap fun _ : κ => β} (hkey : ∀ k v, m.lookup k = some v → key (text k) = some k)
    (hvalue : ∀ k v, m.lookup k = some v → read (write k v) = some (f v)) :
    readMap key read (writeMap text write m) = some (m.mapValues f) := by
  have hentries : (m.sortedEntries.map fun entry => (text entry.1, write entry.1 entry.2)).mapM
      (readEntry key read) = some (m.sortedEntries.map fun entry => ⟨entry.1, f entry.2⟩) := by
    refine mapM_map fun ⟨k, v⟩ hmem => ?_
    have hlook := (m.mem_sortedEntries k v).mp hmem
    simp [readEntry, hkey k v hlook, hvalue k v hlook]
  rw [writeMap, readMap, hentries, Option.map_some, Option.some.injEq]
  refine Finmap.ext_lookup fun k => ?_
  rw [Finmap.lookup_mapValues]
  refine Finmap.lookup_toFinmap_of_mem_iff (f := fun k => (m.lookup k).map f) (fun k' v => ?_) k
  simp only [List.mem_map, Option.map_eq_some_iff]
  constructor
  · rintro ⟨⟨k'', v'⟩, hmem, heq⟩
    cases heq
    exact ⟨v', (m.mem_sortedEntries k'' v').mp hmem, rfl⟩
  · rintro ⟨v', hlook, rfl⟩
    exact ⟨⟨k', v'⟩, (m.mem_sortedEntries k' v').mpr hlook, rfl⟩

/-- A set, as the map of its members to `true`. -/
def writeSet (text : κ → String) (s : Finset κ) : Json :=
  obj (s.val.sortedList.map fun k => (text k, bool true))

def readBool : Json → Option Bool
  | null => some false
  | bool b => some b
  | _ => none

def readSet (key : String → Option κ) : Json → Option (Finset κ)
  | null => some ∅
  | obj members =>
    (members.mapM (readEntry key readBool)).map fun entries =>
      ((entries.filter (·.2)).map (·.1)).toFinset
  | _ => none

lemma readSet_writeSet {s : Finset κ} (hkey : ∀ k ∈ s, key (text k) = some k) :
    readSet key (writeSet text s) = some s := by
  have hentries : (s.val.sortedList.map fun k => (text k, bool true)).mapM
      (readEntry key readBool) = some (s.val.sortedList.map fun k => ⟨k, true⟩) := by
    refine mapM_map fun k hmem => ?_
    simp [readEntry, hkey k ((Multiset.mem_sortedList s.val k).mp hmem), readBool]
  rw [writeSet, readSet, hentries, Option.map_some, Option.some.injEq]
  ext k
  simp [Multiset.mem_sortedList]

end Maps

end Json
