import ScheduledDb.Store.Codec

/-!
# The cold store on disk

`store/cold_store.go` keeps archived slots in a bbolt database, as JSON under the eight bytes of the
key.  The state machine sees it as a map from keys to slots (`FSM.coldStore`), and that is what it
is: the bytes of a key determine it (`ofBytes_itob`), each of the two operations that write does to
the database what `insert` and `erase` do to the map (`Represents.step`), and so does every sequence
of them (`Represents.run`), also over restarts, which find the bucket of the run before.

bbolt is a map from byte strings to values, its transactions are atomic, and it does not fail.
-/

namespace ScheduledDb

open Machine Finmap

/-! ## Keys as bytes -/

/-- The bytes of a key, the highest first.  `>>` keeps the sign, `byte` keeps the low eight bits. -/
def itob (v : ℤ) : List UInt8 :=
  [UInt8.ofInt (v >>> (56 : ℕ)), UInt8.ofInt (v >>> (48 : ℕ)), UInt8.ofInt (v >>> (40 : ℕ)),
    UInt8.ofInt (v >>> (32 : ℕ)), UInt8.ofInt (v >>> (24 : ℕ)), UInt8.ofInt (v >>> (16 : ℕ)),
    UInt8.ofInt (v >>> (8 : ℕ)), UInt8.ofInt v]

/-- The 64-bit integer that has the given bytes. -/
def ofBytes (bytes : List UInt8) : ℤ := wrap64 (bytes.foldl (fun n b => n * 256 + (b.toNat : ℤ)) 0)

lemma toNat_ofInt (x : ℤ) : ((UInt8.ofInt x).toNat : ℤ) = x % 256 := by
  have hnonneg : 0 ≤ x % 256 := Int.emod_nonneg x (by decide)
  simp [UInt8.ofInt, hnonneg]

/-- **No byte of a key is lost.** -/
lemma ofBytes_itob {v : ℤ} (hv : InRange v) : ofBytes (itob v) = v := by
  have hdigits : (itob v).foldl (fun n b => n * 256 + (b.toNat : ℤ)) 0
      = v % 18446744073709551616 := by
    simp only [itob, List.foldl_cons, List.foldl_nil, toNat_ofInt, Int.shiftRight_eq_div_pow]
    omega
  obtain ⟨hlow, hhigh⟩ := hv
  rw [ofBytes, hdigits]
  unfold wrap64
  omega

lemma itob_inj {v w : ℤ} (hv : InRange v) (hw : InRange w) : itob v = itob w ↔ v = w := by
  refine ⟨fun h => ?_, fun h => by rw [h]⟩
  rw [← ofBytes_itob hv, h, ofBytes_itob hw]

/-! ## The store -/

def coldSlotBucket : String := "cold_slots"

abbrev Bucket := Finmap fun _ : List UInt8 => Json

/-- An open database, with its buckets. -/
structure BoltColdSlotStore where
  db : Finmap fun _ : String => Bucket

/-- `NewBoltColdSlotStore` on the database that is in the data directory: the bucket is created if
it is not there. -/
def newBoltColdSlotStore (db : Finmap fun _ : String => Bucket) : BoltColdSlotStore where
  db := if coldSlotBucket ∈ db then db else db.insert coldSlotBucket ∅

namespace BoltColdSlotStore

variable (b : BoltColdSlotStore)

/-- `PutColdSlot`; `none` is a `nil` pointer, which is written as `null`.  `isNil` says whether an
empty list of jobs is a `nil` slice. -/
def putColdSlot (key : ℤ) (data : Option SlotData) (isNil : Bool) :
    BoltColdSlotStore × Option String :=
  let serialized := (data.map (SlotData.encode isNil)).getD .null
  match b.db.lookup coldSlotBucket with
  | none => (b, some "cold slots bucket not found")
  | some bucket => (⟨b.db.insert coldSlotBucket (bucket.insert (itob key) serialized)⟩, none)

/-- `GetColdSlot`; `unmarshalError` is the message of the JSON library. -/
def getColdSlot (key : ℤ) (unmarshalError : String) : Except String (Option SlotData) :=
  match b.db.lookup coldSlotBucket with
  | none => .error "cold slots bucket not found"
  | some bucket =>
    match bucket.lookup (itob key) with
    | none => .ok none
    | some data =>
      match SlotData.decode data with
      | none => .error s!"failed to unmarshal cold slot {key}: {unmarshalError}"
      | some slotData => .ok (some slotData)

def deleteColdSlot (key : ℤ) : BoltColdSlotStore × Option String :=
  match b.db.lookup coldSlotBucket with
  | none => (b, none)
  | some bucket => (⟨b.db.insert coldSlotBucket (bucket.erase (itob key))⟩, none)

/-! ## Runs -/

/-- A call of the store, or a restart: the store is closed and opened again. -/
inductive Call where
  | put (key : ℤ) (data : SlotData) (isNil : Bool)
  | get (key : ℤ)
  | delete (key : ℤ)
  | reopen

/-- The keys of a call are 64-bit integers. -/
def Call.KeyInRange : Call → Prop
  | .put key _ _ => InRange key
  | .get key => InRange key
  | .delete key => InRange key
  | .reopen => True

def step (b : BoltColdSlotStore) : Call → BoltColdSlotStore
  | .put key data isNil => (b.putColdSlot key (some data) isNil).1
  | .get _ => b
  | .delete key => (b.deleteColdSlot key).1
  | .reopen => newBoltColdSlotStore b.db

def run (b : BoltColdSlotStore) (calls : List Call) : BoltColdSlotStore := calls.foldl step b

/-- The same call on the map that the state machine has in place of the store. -/
def Call.onMap (m : Finmap fun _ : ℤ => SlotData) : Call → Finmap fun _ : ℤ => SlotData
  | .put key data _ => m.insert key data
  | .get _ => m
  | .delete key => m.erase key
  | .reopen => m

/-! ## The store is a map -/

/-- The bucket is there, and under each key it has the slot that the map has. -/
structure Represents (b : BoltColdSlotStore) (m : Finmap fun _ : ℤ => SlotData) : Prop where
  bucket : coldSlotBucket ∈ b.db
  get : ∀ key, InRange key → ∀ err, b.getColdSlot key err = .ok (m.lookup key)

variable {b} {m : Finmap fun _ : ℤ => SlotData} {key : ℤ} {call : Call} {calls : List Call}

lemma Represents.lookup_bucket (h : b.Represents m) :
    ∃ bucket, b.db.lookup coldSlotBucket = some bucket :=
  mem_iff.mp h.bucket

lemma represents_new : (newBoltColdSlotStore ∅).Represents ∅ := by
  have hnew : newBoltColdSlotStore ∅ = ⟨insert coldSlotBucket ∅ ∅⟩ := by
    rw [newBoltColdSlotStore, if_neg notMem_empty]
  rw [hnew]
  exact ⟨by simp, fun key _ err => by simp [getColdSlot]⟩

/-- **A slot that is put** is found under its own key only. -/
lemma Represents.put (h : b.Represents m) (hkey : InRange key) (data : SlotData) (isNil : Bool) :
    (b.putColdSlot key (some data) isNil).1.Represents (m.insert key data) := by
  obtain ⟨bucket, hbucket⟩ := h.lookup_bucket
  refine ⟨by simp [putColdSlot, hbucket], fun key' hkey' err => ?_⟩
  have hget := h.get key' hkey' err
  rw [lookup_insert_ite]
  simp only [getColdSlot, hbucket] at hget
  simp only [putColdSlot, hbucket, getColdSlot, lookup_insert, lookup_insert_ite,
    itob_inj hkey' hkey]
  split_ifs with hsame
  · simp [SlotData.decode_encode]
  · exact hget

/-- **A slot that is deleted** is gone, and no other. -/
lemma Represents.delete (h : b.Represents m) (hkey : InRange key) :
    (b.deleteColdSlot key).1.Represents (m.erase key) := by
  obtain ⟨bucket, hbucket⟩ := h.lookup_bucket
  refine ⟨by simp [deleteColdSlot, hbucket], fun key' hkey' err => ?_⟩
  have hget := h.get key' hkey' err
  rw [lookup_erase_ite]
  simp only [getColdSlot, hbucket] at hget
  simp only [deleteColdSlot, hbucket, getColdSlot, lookup_insert, lookup_erase_ite,
    itob_inj hkey' hkey]
  split_ifs with hsame
  · rfl
  · exact hget

/-- A restart finds the bucket, and leaves it. -/
lemma Represents.reopen (h : b.Represents m) : (newBoltColdSlotStore b.db).Represents m := by
  have hsame : newBoltColdSlotStore b.db = b := by rw [newBoltColdSlotStore, if_pos h.bucket]
  rwa [hsame]

/-- A call does to the file what it does to the map. -/
lemma Represents.step (h : b.Represents m) (hkey : call.KeyInRange) :
    (b.step call).Represents (call.onMap m) := by
  cases call with
  | put key data isNil => exact h.put hkey data isNil
  | get key => exact h
  | delete key => exact h.delete hkey
  | reopen => exact h.reopen

/-- So does a whole run. -/
lemma Represents.run (h : b.Represents m) (hkeys : ∀ call ∈ calls, call.KeyInRange) :
    (b.run calls).Represents (calls.foldl Call.onMap m) := by
  induction calls generalizing b m with
  | nil => exact h
  | cons call calls ih =>
    obtain ⟨hkey, hrest⟩ := List.forall_mem_cons.mp hkeys
    exact ih (h.step hkey) hrest

/-! ## The latest slot -/

/-- The call is about the key, and writes. -/
def Call.Writes (key : ℤ) : Call → Prop
  | .put key' _ _ => key' = key
  | .delete key' => key' = key
  | _ => False

/-- The latest `PutColdSlot` under the key was of this slot, and no `DeleteColdSlot` followed. -/
def LatestPut (calls : List Call) (key : ℤ) (data : SlotData) : Prop :=
  ∃ before isNil after, calls = before ++ .put key data isNil :: after ∧
    ∀ call ∈ after, ¬ call.Writes key

lemma lookup_onMap_of_not_writes (h : ¬ call.Writes key) (m : Finmap fun _ : ℤ => SlotData) :
    (call.onMap m).lookup key = m.lookup key := by
  cases call with
  | put key' data isNil => exact lookup_insert_of_ne m (Ne.symm h)
  | delete key' => exact lookup_erase_ne (Ne.symm h)
  | get _ => rfl
  | reopen => rfl

lemma lookup_foldl_of_not_writes (h : ∀ call ∈ calls, ¬ call.Writes key)
    (m : Finmap fun _ : ℤ => SlotData) : (calls.foldl Call.onMap m).lookup key = m.lookup key := by
  induction calls generalizing m with
  | nil => rfl
  | cons call calls ih =>
    obtain ⟨hcall, hrest⟩ := List.forall_mem_cons.mp h
    rw [List.foldl_cons, ih hrest, lookup_onMap_of_not_writes hcall]

/-- What the map holds after a run is what was put last. -/
lemma lookup_foldl_eq_some_iff (calls : List Call) (key : ℤ) (data : SlotData) :
    (calls.foldl Call.onMap ∅).lookup key = some data ↔ LatestPut calls key data := by
  constructor
  · -- from the end of the run back to the last call that writes the key
    intro h
    induction calls using List.reverseRecOn with
    | nil => simp at h
    | append_singleton calls call ih =>
      rw [List.foldl_append, List.foldl_cons, List.foldl_nil] at h
      by_cases hwrites : call.Writes key
      · cases call with
        | put key' data' isNil =>
          subst hwrites
          obtain rfl : data' = data := by simpa [Call.onMap] using h
          exact ⟨calls, isNil, [], rfl, by simp⟩
        | delete key' =>
          subst hwrites
          simp [Call.onMap] at h
        | get _ => exact hwrites.elim
        | reopen => exact hwrites.elim
      · rw [lookup_onMap_of_not_writes hwrites] at h
        obtain ⟨before, isNil, after, rfl, hafter⟩ := ih h
        refine ⟨before, isNil, after ++ [call], by simp, fun call' hcall' => ?_⟩
        obtain hmem | hlast := List.mem_append.mp hcall'
        · exact hafter call' hmem
        · rwa [List.mem_singleton.mp hlast]
  · rintro ⟨before, isNil, after, rfl, hafter⟩
    rw [List.foldl_append, List.foldl_cons, lookup_foldl_of_not_writes hafter]
    exact lookup_insert _

/-- **The cold store is a map over 64-bit keys.**  After any sequence of calls on a store that was
opened empty, `GetColdSlot` returns the slot of the latest `PutColdSlot` under the key that no
`DeleteColdSlot` followed, or `nil` if there is none; and `itob` is injective. -/
theorem getColdSlot_run_iff (calls : List Call) (hkeys : ∀ call ∈ calls, call.KeyInRange) :
    (∀ key, InRange key → ∃ found,
      (∀ err, ((newBoltColdSlotStore ∅).run calls).getColdSlot key err = .ok found) ∧
      (∀ data, found = some data ↔ LatestPut calls key data) ∧
      (found = none ↔ ∀ data, ¬ LatestPut calls key data)) ∧
    Set.InjOn itob {v | InRange v} := by
  constructor
  · intro key hkey
    have hrun := represents_new.run hkeys
    refine ⟨_, hrun.get key hkey, lookup_foldl_eq_some_iff calls key, ?_⟩
    simp only [← lookup_foldl_eq_some_iff, Option.eq_none_iff_forall_ne_some]
  · intro v hv w hw h
    exact (itob_inj hv hw).mp h

/-- Keys `-1` and `255` have the same last byte.  The second slot is deleted again, and the first
one is still there after a restart. -/
theorem getColdSlot_negative_key :
    let slot : SlotData := ⟨-1, -10, -1, ["a"]⟩
    let calls := [.put (-1) slot false, .put 255 ⟨255, 2550, 2559, []⟩ true, .get 255, .delete 255,
      .reopen]
    let b := (newBoltColdSlotStore ∅).run calls
    (itob (-1)).getLast? = (itob 255).getLast? ∧ b.getColdSlot (-1) "" = .ok (some slot) ∧
      b.getColdSlot 255 "" = .ok none := by
  intro slot calls b
  have hkeys : ∀ call ∈ calls, call.KeyInRange := by simp [calls, Call.KeyInRange, InRange]
  have hget := (getColdSlot_run_iff calls hkeys).1
  have hput : LatestPut calls (-1) slot :=
    ⟨[], false, _, rfl, by simp [Call.Writes]⟩
  have hdeleted : ∀ data, ¬ LatestPut calls 255 data := by
    intro data hlatest
    rw [← lookup_foldl_eq_some_iff] at hlatest
    simp [calls, Call.onMap] at hlatest
  refine ⟨by decide, ?_, ?_⟩
  · obtain ⟨found, hfound, hsome, -⟩ := hget (-1) (by decide)
    rw [hfound, (hsome slot).mpr hput]
  · obtain ⟨found, hfound, -, hnone⟩ := hget 255 (by decide)
    rw [hfound, hnone.mpr hdeleted]

end BoltColdSlotStore

end ScheduledDb
