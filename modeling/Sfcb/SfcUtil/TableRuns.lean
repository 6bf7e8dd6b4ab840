import Sfcb.SfcUtil.HashTable
import Sfcb.Lib.Pool
import Mathlib.Data.List.Induction

/-!
# What a hash table is for

A hash table is a finite map from classes of keys to pairs: keys that compare equal are in
one class, and the hash function has to agree on them. `Refines` relates a table to such a
map, whatever its buckets are at the moment. Each operation keeps it and answers as the map
would, so a table answers any number of calls as the map does, through every rehash, and what
it gives back to the deallocators is what the map gives up.
-/

namespace Sfcb.SfcUtil

open Sfcb.Lib Sfcb.Lib.Buckets

variable {κ β ι : Type}

/-- A call of a table's function. `walk` is a caller's loop over all the pairs. -/
inductive Call (κ β : Type) where
  | put (pairRoom arrayRoom : Bool) (key : κ) (value : β)
  | get (key : κ)
  | containsKey (key : κ)
  | containsValue (value : β)
  | remove (arrayRoom : Bool) (key : κ)
  | removeAll (arrayRoom : Bool)
  | rehash (arrayRoom : Bool) (numOfBuckets : Nat)
  | isEmpty
  | size
  | walk

/-- What a call returns, and what it has given back. -/
inductive Answer (κ β : Type) where
  | status (code : Int) (released : Released κ β)
  | value (value : Option β)
  | flag (flag : Bool)
  | released (released : Released κ β)
  | count (count : Nat)
  | pairs (pairs : List (KeyValuePair κ β))

namespace HashTable

variable [DecidableEq κ] [DecidableEq β]

/-- A call of the table. -/
def call (t : HashTable κ β) : Call κ β → HashTable κ β × Answer κ β
  | .put pairRoom arrayRoom key value =>
    let r := t.hashTablePut pairRoom arrayRoom key value
    (r.1, .status r.2.1 r.2.2)
  | .get key => (t, .value (t.hashTableGet key))
  | .containsKey key => (t, .flag (t.hashTableContainsKey key))
  | .containsValue value => (t, .flag (t.hashTableContainsValue value))
  | .remove arrayRoom key =>
    let r := t.hashTableRemove arrayRoom key
    (r.1, .released r.2)
  | .removeAll arrayRoom =>
    let r := t.hashTableRemoveAll arrayRoom
    (r.1, .released r.2)
  | .rehash arrayRoom numOfBuckets =>
    (t.hashTableRehash arrayRoom numOfBuckets, .released .none)
  | .isEmpty => (t, .flag t.hashTableIsEmpty)
  | .size => (t, .count t.hashTableSize)
  | .walk => (t, .pairs (t.walk (t.numOfElements + 1) t.hashTableGetFirst))

/-- The table after some calls, and the answers to them. -/
def calls (t : HashTable κ β) : List (Call κ β) → HashTable κ β × List (Answer κ β)
  | [] => (t, [])
  | c :: cs =>
    let r := t.call c
    let s := r.1.calls cs
    (s.1, r.2 :: s.2)

end HashTable

/-- How a table's keys and values are compared, and whether it owns them. -/
structure Keying (κ β ι : Type) where
  cls : κ → ι
  valuecmp : β → β → Int
  keyDeallocator : Bool
  valueDeallocator : Bool

/-- The map: the pair of a class of keys. -/
abbrev PairMap (κ β ι : Type) : Type := Table ι (KeyValuePair κ β)

namespace PairMap

variable [DecidableEq ι]

/-- What the map gives up when it is emptied. -/
def released (key : Keying κ β ι) (m : PairMap κ β ι) : Released κ β :=
  .ofPairs key.keyDeallocator key.valueDeallocator (m.entries.map (·.2))

variable [DecidableEq κ] [DecidableEq β]

/-- A call of the map. There is room for a new pair or not; buckets there are none. -/
def call (key : Keying κ β ι) (m : PairMap κ β ι) : Call κ β → PairMap κ β ι × Answer κ β
  | .put pairRoom _ k v =>
    match m.lookup (key.cls k) with
    | some pair =>
      (m.insert (key.cls k) ⟨k, v⟩,
        .status 0 (.ofChange key.keyDeallocator key.valueDeallocator pair ⟨k, v⟩))
    | none =>
      if pairRoom then (m.insert (key.cls k) ⟨k, v⟩, .status 0 .none)
      else (m, .status (-1) .none)
  | .get k => (m, .value ((m.lookup (key.cls k)).map (·.value)))
  | .containsKey k => (m, .flag (m.lookup (key.cls k)).isSome)
  | .containsValue v => (m, .flag (m.entries.any fun e => key.valuecmp v e.2.value == 0))
  | .remove _ k =>
    match m.lookup (key.cls k) with
    | some pair =>
      (m.erase (key.cls k),
        .released (.ofPairs key.keyDeallocator key.valueDeallocator [pair]))
    | none => (m, .released .none)
  | .removeAll _ => (∅, .released (released key m))
  | .rehash _ _ => (m, .released .none)
  | .isEmpty => (m, .flag m.entries.isEmpty)
  | .size => (m, .count m.entries.length)
  | .walk => (m, .pairs (m.entries.map (·.2)))

/-- The map after some calls, and the answers to them. -/
def calls (key : Keying κ β ι) (m : PairMap κ β ι) :
    List (Call κ β) → PairMap κ β ι × List (Answer κ β)
  | [] => (m, [])
  | c :: cs =>
    let r := call key m c
    let s := calls key r.1 cs
    (s.1, r.2 :: s.2)

end PairMap

/-- The same answer. The order of pairs is the table's own. -/
def Answer.Agrees : Answer κ β → Answer κ β → Prop
  | .pairs ps, .pairs qs => ps.Perm qs
  | .released r, .released s => r.keys.Perm s.keys ∧ r.values.Perm s.values
  | a, b => a = b

theorem Answer.Agrees.of_eq {a b : Answer κ β} (h : a = b) : a.Agrees b := by
  subst h
  cases a with
  | pairs ps => exact .rfl
  | released r => exact ⟨.rfl, .rfl⟩
  | _ => rfl

/-- The table holds the map: every pair is in the chain of its key, and the pairs are those
of the map. Its functions are those of the keying. -/
structure Refines (key : Keying κ β ι) (t : HashTable κ β) (m : PairMap κ β ι) : Prop where
  cmp : ∀ k l, t.keycmp k l = 0 ↔ key.cls k = key.cls l
  hash : ∀ k l, key.cls k = key.cls l → t.hashFunction k = t.hashFunction l
  valuecmp : t.valuecmp = key.valuecmp
  keyDeallocator : t.keyDeallocator = key.keyDeallocator
  valueDeallocator : t.valueDeallocator = key.valueDeallocator
  positive : 0 < t.numOfBuckets
  buckets : t.bucketArray.length = t.numOfBuckets
  elements : t.numOfElements = t.bucketArray.flatten.length
  homed : Homed (fun pair => t.hashValue pair.key) t.bucketArray
  holds : Holds (fun pair => key.cls pair.key) t.bucketArray.flatten m

namespace Refines

variable {key : Keying κ β ι} {t : HashTable κ β} {m : PairMap κ β ι} {k : κ} {v : β}

section Find

variable {before after : List (KeyValuePair κ β)} {pair : KeyValuePair κ β}

theorem hashValue_lt (h : Refines key t m) (k : κ) : t.hashValue k < t.bucketArray.length := by
  rw [h.buckets]
  exact Nat.mod_lt _ h.positive

theorem hashValue_congr (h : Refines key t m) {k l : κ} (hkl : key.cls k = key.cls l) :
    t.hashValue k = t.hashValue l := by
  unfold HashTable.hashValue
  rw [h.hash k l hkl]

/-- A pair that the walk along a chain finds is the pair of its class, and the only one. -/
theorem find_eq_some [DecidableEq ι] (h : Refines key t m) (hfind : t.find k = some (before, pair, after)) :
    bucket t.bucketArray (t.hashValue k) = before ++ pair :: after ∧
      key.cls pair.key = key.cls k ∧ m.lookup (key.cls k) = some pair := by
  obtain ⟨hchain, hcmp⟩ := locate_eq_some hfind
  have hcls : key.cls k = key.cls pair.key := (h.cmp k pair.key).mp (beq_iff_eq.mp hcmp)
  have hmem : pair ∈ bucket t.bucketArray (t.hashValue k) := by
    rw [hchain]
    exact List.mem_append_right _ (.head _)
  obtain ⟨rest, hflat, _⟩ := flatten_split (h.hashValue_lt k)
  have hpair := h.holds.lookup (hflat.mem_iff.mpr (List.mem_append_left _ hmem))
  rw [hcls]
  exact ⟨hchain, rfl, hpair⟩

/-- If the walk finds nothing, there is no pair of that class anywhere. -/
theorem find_eq_none [DecidableEq ι] (h : Refines key t m) (hfind : t.find k = none) :
    m.lookup (key.cls k) = none := by
  apply h.holds.lookup_eq_none
  intro pair hpair hcls
  have hmem := h.homed.mem_bucket hpair
  rw [h.hashValue_congr hcls] at hmem
  have hcmp := locate_eq_none hfind pair hmem
  rw [beq_eq_false_iff_ne] at hcmp
  exact hcmp ((h.cmp k pair.key).mpr hcls.symm)

end Find

/-! ## Looking up -/

theorem hashTableGet [DecidableEq ι] (h : Refines key t m) (k : κ) :
    t.hashTableGet k = (m.lookup (key.cls k)).map (·.value) := by
  unfold HashTable.hashTableGet
  cases hfind : t.find k with
  | none => rw [h.find_eq_none hfind]; rfl
  | some r =>
    obtain ⟨_, _, hlookup⟩ := h.find_eq_some hfind
    rw [hlookup]
    rfl

theorem hashTableContainsKey [DecidableEq ι] (h : Refines key t m) (k : κ) :
    t.hashTableContainsKey k = (m.lookup (key.cls k)).isSome := by
  unfold HashTable.hashTableContainsKey
  rw [h.hashTableGet k, Option.isSome_map]

/-- The pairs of the map are those of the table. -/
theorem pairs (h : Refines key t m) : t.bucketArray.flatten.Perm (m.entries.map (·.2)) := by
  have hmap := h.holds.map fun e => e.2
  rw [List.map_map] at hmap
  rw [← List.map_id t.bucketArray.flatten]
  exact hmap

theorem hashTableContainsValue (h : Refines key t m) (v : β) :
    t.hashTableContainsValue v = m.entries.any fun e => key.valuecmp v e.2.value == 0 := by
  have hany := h.pairs.any_eq (f := fun pair => key.valuecmp v pair.value == 0)
  rw [List.any_flatten, List.any_map] at hany
  unfold HashTable.hashTableContainsValue
  rw [h.valuecmp]
  exact hany

theorem hashTableSize (h : Refines key t m) : t.hashTableSize = m.entries.length :=
  h.elements.trans h.holds.length

theorem hashTableIsEmpty (h : Refines key t m) : t.hashTableIsEmpty = m.entries.isEmpty := by
  have hsize : t.numOfElements = m.entries.length := h.hashTableSize
  unfold HashTable.hashTableIsEmpty
  rw [hsize]
  cases m.entries <;> rfl

/-! ## Changes -/

section Changes

variable {t' : HashTable κ β}

/-- A change of the array keeps the functions. -/
theorem of_array (h : Refines key t m) {n : Nat} {array : List (List (KeyValuePair κ β))}
    {elements : Nat} {m' : PairMap κ β ι} (hn : 0 < n) (hlength : array.length = n)
    (helements : elements = array.flatten.length)
    (hhomed : Homed (fun pair => (t.hashFunction pair.key).toNat % n) array)
    (hholds : Holds (fun pair => key.cls pair.key) array.flatten m') :
    Refines key
      { t with bucketArray := array, numOfBuckets := n, numOfElements := elements } m' where
  cmp := h.cmp
  hash := h.hash
  valuecmp := h.valuecmp
  keyDeallocator := h.keyDeallocator
  valueDeallocator := h.valueDeallocator
  positive := hn
  buckets := hlength
  elements := helements
  homed := hhomed
  holds := hholds

theorem hashTableCreate (key : Keying κ β ι) {keycmp : κ → κ → Int} {hashFunction : κ → UInt64}
    {n : Nat} (hn : 0 < n) (hcmp : ∀ k l, keycmp k l = 0 ↔ key.cls k = key.cls l)
    (hhash : ∀ k l, key.cls k = key.cls l → hashFunction k = hashFunction l) :
    Refines key (SfcUtil.hashTableCreate n keycmp key.valuecmp hashFunction key.keyDeallocator
      key.valueDeallocator) ∅ where
  cmp := hcmp
  hash := hhash
  valuecmp := rfl
  keyDeallocator := rfl
  valueDeallocator := rfl
  positive := hn
  buckets := List.length_replicate
  elements := by simp [SfcUtil.hashTableCreate]
  homed := homed_replicate _ n
  holds := by
    rw [SfcUtil.hashTableCreate, List.flatten_replicate_nil]
    exact holds_nil _

theorem setIdealRatio (h : Refines key t m) (idealRatio lower upper : Nat) :
    Refines key (t.setIdealRatio idealRatio lower upper) m where
  cmp := h.cmp
  hash := h.hash
  valuecmp := h.valuecmp
  keyDeallocator := h.keyDeallocator
  valueDeallocator := h.valueDeallocator
  positive := h.positive
  buckets := h.buckets
  elements := h.elements
  homed := h.homed
  holds := h.holds

theorem idealNumOfBuckets_pos (t : HashTable κ β) : 0 < t.calculateIdealNumOfBuckets := by
  unfold HashTable.calculateIdealNumOfBuckets
  split <;> exact nextProbablePrime_pos _

/-- A new array has the same pairs. -/
theorem hashTableRehash (h : Refines key t m) (arrayRoom : Bool) (n : Nat) :
    Refines key (t.hashTableRehash arrayRoom n) m := by
  have hpos : 0 < if n = 0 then t.calculateIdealNumOfBuckets else n := by
    split
    · exact idealNumOfBuckets_pos t
    · omega
  unfold HashTable.hashTableRehash
  generalize (if n = 0 then t.calculateIdealNumOfBuckets else n) = size at hpos
  dsimp only
  split
  · exact h
  · split
    · have hhome : ∀ pair ∈ t.bucketArray.flatten, (t.hashFunction pair.key).toNat % size <
          (List.replicate size ([] : List (KeyValuePair κ β))).length := by
        intro pair _
        rw [List.length_replicate]
        exact Nat.mod_lt _ hpos
      have hperm := pushAll_perm hhome
      rw [List.flatten_replicate_nil, List.append_nil] at hperm
      apply h.of_array hpos
      · rw [length_pushAll, List.length_replicate]
      · exact h.elements.trans hperm.length_eq.symm
      · exact (homed_replicate _ size).pushAll _
      · exact h.holds.perm hperm.symm
    · exact h

/-- The chain of a key is changed. -/
theorem of_modify (h : Refines key t m) {f : List (KeyValuePair κ β) → List (KeyValuePair κ β)}
    {elements : Nat} {m' : PairMap κ β ι}
    (hhomed : ∀ pair ∈ f (bucket t.bucketArray (t.hashValue k)),
      t.hashValue pair.key = t.hashValue k)
    (helements : elements = (t.bucketArray.modify (t.hashValue k) f).flatten.length)
    (hholds : Holds (fun pair => key.cls pair.key)
      (t.bucketArray.modify (t.hashValue k) f).flatten m') :
    Refines key
      { t with bucketArray := t.bucketArray.modify (t.hashValue k) f, numOfElements := elements }
      m' :=
  h.of_array h.positive ((List.length_modify _ _ _).trans h.buckets) helements
    (h.homed.modify hhomed) hholds

variable [DecidableEq ι]

/-- A pair takes the place of the one of its class. -/
theorem replaced (h : Refines key t m) {before after : List (KeyValuePair κ β)}
    {pair : KeyValuePair κ β} (hfind : t.find k = some (before, pair, after)) (v : β) :
    Refines key
      { t with
        bucketArray :=
          t.bucketArray.modify (t.hashValue k) fun _ => before ++ ⟨k, v⟩ :: after }
      (m.insert (key.cls k) ⟨k, v⟩) := by
  obtain ⟨hchain, hcls, _⟩ := h.find_eq_some hfind
  obtain ⟨rest, hold, hnew⟩ := flatten_split (h.hashValue_lt k)
  rw [hchain] at hold
  have hold : t.bucketArray.flatten.Perm (pair :: (before ++ after ++ rest)) :=
    hold.trans (List.perm_middle.append_right rest)
  have hnew : (t.bucketArray.modify (t.hashValue k) fun _ => before ++ ⟨k, v⟩ :: after).flatten.Perm
      (⟨k, v⟩ :: (before ++ after ++ rest)) :=
    (hnew _).trans (List.perm_middle.append_right rest)
  apply h.of_modify
  · intro x hx
    cases List.mem_append.mp hx with
    | inl hx => exact h.homed _ x (hchain ▸ List.mem_append_left _ hx)
    | inr hx =>
      cases hx with
      | head => rfl
      | tail _ hx => exact h.homed _ x (hchain ▸ List.mem_append_right _ (.tail _ hx))
  · rw [h.elements, hold.length_eq, hnew.length_eq]
    rfl
  · exact (h.holds.replace (e := ⟨k, v⟩) hold hcls).perm hnew.symm

/-- A pair of a new class comes in front of its chain. -/
theorem added (h : Refines key t m) (hfind : t.find k = none) (v : β) :
    Refines key
      { t with
        bucketArray := t.bucketArray.modify (t.hashValue k) (⟨k, v⟩ :: ·)
        numOfElements := t.numOfElements + 1 }
      (m.insert (key.cls k) ⟨k, v⟩) := by
  obtain ⟨rest, hold, hnew⟩ := flatten_split (h.hashValue_lt k)
  have hnew := (hnew (⟨k, v⟩ :: ·)).trans (hold.symm.cons _)
  apply h.of_modify
  · intro x hx
    cases hx with
    | head => rfl
    | tail _ hx => exact h.homed _ x hx
  · rw [h.elements, hnew.length_eq]
    rfl
  · exact (h.holds.insert (e := ⟨k, v⟩) (h.find_eq_none hfind)).perm hnew.symm

/-- The pair of a class is taken out of its chain. -/
theorem taken (h : Refines key t m) {before after : List (KeyValuePair κ β)}
    {pair : KeyValuePair κ β} (hfind : t.find k = some (before, pair, after)) :
    Refines key
      { t with
        bucketArray := t.bucketArray.modify (t.hashValue k) fun _ => before ++ after
        numOfElements := t.numOfElements - 1 }
      (m.erase (key.cls k)) := by
  obtain ⟨hchain, hcls, _⟩ := h.find_eq_some hfind
  obtain ⟨rest, hold, hnew⟩ := flatten_split (h.hashValue_lt k)
  have hnew := hnew fun _ => before ++ after
  rw [hchain] at hold
  have hold : t.bucketArray.flatten.Perm (pair :: (before ++ after ++ rest)) :=
    hold.trans (List.perm_middle.append_right rest)
  apply h.of_modify
  · intro x hx
    cases List.mem_append.mp hx with
    | inl hx => exact h.homed _ x (hchain ▸ List.mem_append_left _ hx)
    | inr hx => exact h.homed _ x (hchain ▸ List.mem_append_right _ (.tail _ hx))
  · rw [h.elements, hold.length_eq, hnew.length_eq]
    rfl
  · rw [← hcls]
    exact (h.holds.erase hold).perm hnew.symm

end Changes

/-! ## The walk over all the pairs -/

section Walk

variable {iter : Option (HashTableIterator κ β)}

/-- The pairs that an iterator has not passed, its own among them. -/
def pending (t : HashTable κ β) : Option (HashTableIterator κ β) → List (KeyValuePair κ β)
  | none => []
  | some iter => iter.pair :: iter.next ++ (t.bucketArray.drop (iter.bucket + 1)).flatten

theorem drop_flatten (b : List (List (KeyValuePair κ β))) (i : Nat) :
    (b.drop i).flatten = bucket b i ++ (b.drop (i + 1)).flatten := by
  by_cases hi : i < b.length
  · rw [List.drop_eq_getElem_cons hi, List.flatten_cons]
    simp [bucket, hi]
  · rw [List.drop_of_length_le (by omega), List.drop_of_length_le (by omega)]
    simp [bucket, Nat.le_of_not_lt hi]

theorem pending_nextFrom (left i : Nat) (chain : List (KeyValuePair κ β))
    (hleft : t.bucketArray.length ≤ i + left + 1) :
    pending t (t.nextFrom i left chain) = chain ++ (t.bucketArray.drop (i + 1)).flatten := by
  induction left generalizing i chain with
  | zero =>
    cases chain with
    | cons pair next => rfl
    | nil =>
      rw [List.drop_of_length_le (by omega)]
      rfl
  | succ left ih =>
    cases chain with
    | cons pair next => rfl
    | nil =>
      unfold HashTable.nextFrom
      rw [ih _ _ (by omega), ← drop_flatten]
      rfl

theorem pending_firstFrom (left i : Nat) (hleft : t.bucketArray.length ≤ i + left) :
    pending t (t.firstFrom i left) = (t.bucketArray.drop i).flatten := by
  induction left generalizing i with
  | zero =>
    rw [List.drop_of_length_le (by omega)]
    rfl
  | succ left ih =>
    unfold HashTable.firstFrom
    rw [drop_flatten]
    split
    · rename_i pair next hchain
      rw [hchain]
      rfl
    · rename_i hchain
      rw [ih _ (by omega), hchain]
      rfl

/-- A walk with enough rounds passes everything that is left. -/
theorem walk_eq_pending (hbuckets : t.bucketArray.length = t.numOfBuckets) (rounds : Nat)
    (hrounds : (pending t iter).length ≤ rounds) : t.walk rounds iter = pending t iter := by
  induction rounds generalizing iter with
  | zero =>
    cases iter with
    | none => rfl
    | some iter => exact absurd hrounds (Nat.not_succ_le_zero _)
  | succ rounds ih =>
    cases iter with
    | none => rfl
    | some iter =>
      have hnext : pending t (t.hashTableGetNext iter) =
          iter.next ++ (t.bucketArray.drop (iter.bucket + 1)).flatten := by
        apply pending_nextFrom
        omega
      unfold HashTable.walk
      rw [ih (hnext ▸ Nat.le_of_succ_le_succ hrounds), hnext]
      rfl

theorem walk_first (h : Refines key t m) :
    t.walk (t.numOfElements + 1) t.hashTableGetFirst = t.bucketArray.flatten := by
  have hfirst : pending t t.hashTableGetFirst = t.bucketArray.flatten :=
    pending_firstFrom _ 0 (by rw [h.buckets, Nat.zero_add])
  rw [walk_eq_pending h.buckets, hfirst]
  rw [hfirst, ← h.elements]
  exact Nat.le_succ _

end Walk

/-! ## Calls -/

section Calls

/-- What is given back does not depend on an order. -/
theorem ofPairs_perm {keyDeallocator valueDeallocator : Bool}
    {xs ys : List (KeyValuePair κ β)} (h : xs.Perm ys) :
    (Answer.released (.ofPairs keyDeallocator valueDeallocator xs)).Agrees
      (.released (.ofPairs keyDeallocator valueDeallocator ys)) := by
  constructor
  · cases keyDeallocator with
    | false => exact .rfl
    | true => exact h.map _
  · cases valueDeallocator with
    | false => exact .rfl
    | true => exact h.map _

variable [DecidableEq κ] [DecidableEq β]

theorem agrees_released (h : Refines key t m) (arrayRoom : Bool) :
    ((t.call (.removeAll arrayRoom)).2).Agrees (.released (PairMap.released key m)) := by
  unfold HashTable.call HashTable.hashTableRemoveAll PairMap.released
  rw [h.keyDeallocator, h.valueDeallocator]
  exact ofPairs_perm h.pairs

theorem removeAll (h : Refines key t m) (arrayRoom : Bool) :
    Refines key (t.call (.removeAll arrayRoom)).1 ∅ := by
  unfold HashTable.call HashTable.hashTableRemoveAll
  have hflat : (t.bucketArray.map fun _ => ([] : List (KeyValuePair κ β))).flatten = [] := by
    rw [List.map_const', List.flatten_replicate_nil]
  apply hashTableRehash
  apply h.of_array h.positive
  · rw [List.length_map, h.buckets]
  · rw [hflat]
    rfl
  · rw [List.map_const']
    exact homed_replicate _ _
  · rw [hflat]
    exact holds_nil _

variable [DecidableEq ι]

theorem put (h : Refines key t m) (pairRoom arrayRoom : Bool) (k : κ) (v : β) :
    Refines key (t.call (.put pairRoom arrayRoom k v)).1
        (m.call key (.put pairRoom arrayRoom k v)).1 ∧
      (t.call (.put pairRoom arrayRoom k v)).2 = (m.call key (.put pairRoom arrayRoom k v)).2 := by
  unfold HashTable.call PairMap.call HashTable.hashTablePut
  cases hfind : t.find k with
  | some r =>
    obtain ⟨before, pair, after⟩ := r
    obtain ⟨_, _, hlookup⟩ := h.find_eq_some hfind
    simp only [hfind, hlookup]
    refine ⟨h.replaced hfind v, ?_⟩
    rw [h.keyDeallocator, h.valueDeallocator]
  | none =>
    simp only [hfind, h.find_eq_none hfind]
    cases pairRoom with
    | false => exact ⟨h, rfl⟩
    | true =>
      simp only [if_true]
      -- the new pair may be the one that makes the table grow
      split
      · exact ⟨(h.added hfind v).hashTableRehash arrayRoom 0, rfl⟩
      · exact ⟨h.added hfind v, rfl⟩

theorem remove (h : Refines key t m) (arrayRoom : Bool) (k : κ) :
    Refines key (t.call (.remove arrayRoom k)).1 (m.call key (.remove arrayRoom k)).1 ∧
      (t.call (.remove arrayRoom k)).2 = (m.call key (.remove arrayRoom k)).2 := by
  unfold HashTable.call PairMap.call HashTable.hashTableRemove
  cases hfind : t.find k with
  | some r =>
    obtain ⟨before, pair, after⟩ := r
    obtain ⟨_, _, hlookup⟩ := h.find_eq_some hfind
    simp only [hfind, hlookup, ← h.keyDeallocator, ← h.valueDeallocator]
    split
    · exact ⟨(h.taken hfind).hashTableRehash arrayRoom 0, rfl⟩
    · exact ⟨h.taken hfind, rfl⟩
  | none =>
    simp only [hfind, h.find_eq_none hfind]
    exact ⟨h, trivial⟩

/-- One call is answered as the map answers it. -/
theorem call (h : Refines key t m) (c : Call κ β) :
    Refines key (t.call c).1 (m.call key c).1 ∧ ((t.call c).2).Agrees (m.call key c).2 := by
  cases c with
  | put pairRoom arrayRoom k v =>
    obtain ⟨hnext, hanswer⟩ := h.put pairRoom arrayRoom k v
    exact ⟨hnext, .of_eq hanswer⟩
  | get k => exact ⟨h, .of_eq (congrArg Answer.value (h.hashTableGet k))⟩
  | containsKey k => exact ⟨h, .of_eq (congrArg Answer.flag (h.hashTableContainsKey k))⟩
  | containsValue v => exact ⟨h, .of_eq (congrArg Answer.flag (h.hashTableContainsValue v))⟩
  | remove arrayRoom k =>
    obtain ⟨hnext, hanswer⟩ := h.remove arrayRoom k
    exact ⟨hnext, .of_eq hanswer⟩
  | removeAll arrayRoom => exact ⟨h.removeAll arrayRoom, h.agrees_released arrayRoom⟩
  | rehash arrayRoom n => exact ⟨h.hashTableRehash arrayRoom n, .of_eq rfl⟩
  | isEmpty => exact ⟨h, .of_eq (congrArg Answer.flag h.hashTableIsEmpty)⟩
  | size => exact ⟨h, .of_eq (congrArg Answer.count h.hashTableSize)⟩
  | walk =>
    have hwalk : (t.call .walk).2 = .pairs t.bucketArray.flatten :=
      congrArg Answer.pairs h.walk_first
    exact ⟨h, hwalk ▸ h.pairs⟩

/-- Any calls are. -/
theorem calls (h : Refines key t m) (cs : List (Call κ β)) :
    Refines key (t.calls cs).1 (m.calls key cs).1 ∧
      List.Forall₂ Answer.Agrees (t.calls cs).2 (m.calls key cs).2 := by
  induction cs generalizing t m with
  | nil => exact ⟨h, .nil⟩
  | cons c cs ih =>
    obtain ⟨hnext, hanswer⟩ := h.call c
    obtain ⟨hlast, hanswers⟩ := ih hnext
    exact ⟨hlast, .cons hanswer hanswers⟩

end Calls

/-! ## Puts -/

section Puts

variable [DecidableEq ι]

/-- The pair that some puts leave for a class: the last one. -/
def lastPut (key : Keying κ β ι) (ps : List (κ × β)) (i : ι) : Option (KeyValuePair κ β) :=
  (ps.reverse.find? fun p => key.cls p.1 = i).map fun p => ⟨p.1, p.2⟩

theorem lastPut_append (key : Keying κ β ι) (ps : List (κ × β)) (p : κ × β) (i : ι) :
    lastPut key (ps ++ [p]) i =
      if key.cls p.1 = i then some ⟨p.1, p.2⟩ else lastPut key ps i := by
  unfold lastPut
  rw [List.reverse_append, List.reverse_singleton, List.singleton_append]
  by_cases hi : key.cls p.1 = i
  · rw [List.find?_cons_of_pos (by simpa using hi), if_pos hi]
    rfl
  · rw [List.find?_cons_of_neg (by simpa using hi), if_neg hi]

variable [DecidableEq κ] [DecidableEq β]

/-- Some puts into an empty table leave the last pair of each class. -/
theorem puts (h : Refines key t ∅) (ps : List (κ × β)) :
    ∃ m, Refines key (ps.foldl (fun t p => (t.hashTablePut true true p.1 p.2).1) t) m ∧
      ∀ i, m.lookup i = lastPut key ps i := by
  induction ps using List.reverseRecOn with
  | nil => exact ⟨∅, h, fun i => rfl⟩
  | append_singleton ps p ih =>
    obtain ⟨m, hm, hlookup⟩ := ih
    refine ⟨m.insert (key.cls p.1) ⟨p.1, p.2⟩, ?_, ?_⟩
    · rw [List.foldl_append]
      have hput := (hm.put true true p.1 p.2).1
      unfold HashTable.call PairMap.call at hput
      cases hfound : m.lookup (key.cls p.1) with
      | some pair => simpa [hfound] using hput
      | none => simpa [hfound] using hput
    · intro i
      rw [lastPut_append]
      by_cases hi : key.cls p.1 = i
      · rw [if_pos hi, hi, AList.lookup_insert]
      · rw [if_neg hi, AList.lookup_insert_ne (Ne.symm hi), hlookup i]

end Puts

end Refines

/-- From an empty table on, any calls are answered as a finite map from classes of keys to
pairs answers them: through every rehash, whatever the limits for it are, and whatever there is
room for. -/
theorem answers_agree (key : Keying κ β ι) [DecidableEq κ] [DecidableEq β] [DecidableEq ι]
    {keycmp : κ → κ → Int} {hashFunction : κ → UInt64} {n : Nat} (hn : 0 < n)
    (hcmp : ∀ k l, keycmp k l = 0 ↔ key.cls k = key.cls l)
    (hhash : ∀ k l, key.cls k = key.cls l → hashFunction k = hashFunction l)
    (idealRatio lower upper : Nat) (cs : List (Call κ β)) :
    List.Forall₂ Answer.Agrees
      (((hashTableCreate n keycmp key.valuecmp hashFunction key.keyDeallocator
        key.valueDeallocator).setIdealRatio idealRatio lower upper).calls cs).2
      (PairMap.calls key ∅ cs).2 :=
  (((Refines.hashTableCreate key hn hcmp hhash).setIdealRatio idealRatio lower upper).calls cs).2

/-- Numbers that are told apart by their last digit. -/
def digitKeying : Keying Nat Nat Nat := ⟨(· % 10), fun v w => v - w, true, true⟩

/-- With a lower limit of two and an upper limit of four pairs for each bucket. -/
theorem answers_agree_digits :
    let cs : List (Call Nat Nat) :=
      [.put true true 13 1, .put true true 4 2, .put true true 3 5, .rehash true 7, .remove true 4,
        .get 33, .walk]
    List.Forall₂ Answer.Agrees
      (((hashTableCreate 2 (fun k l => ((k % 10 : Nat) : Int) - (l % 10 : Nat)) digitKeying.valuecmp
        (fun k => UInt64.ofNat (k % 10)) true true).setIdealRatio 3 2 4).calls cs).2
      (PairMap.calls digitKeying ∅ cs).2 := by
  intro cs
  refine answers_agree digitKeying (by decide) (fun k l => ?_) (fun k l h => ?_) 3 2 4 cs
  · show ((k % 10 : Nat) : Int) - (l % 10 : Nat) = 0 ↔ k % 10 = l % 10
    omega
  · exact congrArg UInt64.ofNat h

/-! ## What a table owns -/

section Ownership

/-- The pairs that a table holds. -/
def HashTable.pairs (t : HashTable κ β) : List (KeyValuePair κ β) := t.bucketArray.flatten

section Parts

variable {α : Type} {key : Keying κ β ι} {t : HashTable κ β} {m : PairMap κ β ι}

theorem Refines.parts (h : Refines key t m) (f : KeyValuePair κ β → α) :
    (t.pairs.map f).Perm (m.entries.map fun e => f e.2) := by
  have hmap := h.pairs.map f
  rwa [List.map_map] at hmap

/-- The entry of a class, and the others. -/
theorem parts_split [DecidableEq ι] {i : ι} {pair : KeyValuePair κ β} {f : KeyValuePair κ β → α}
    (hm : m.lookup i = some pair) :
    (m.entries.map fun e => f e.2).Perm (f pair :: (m.erase i).entries.map fun e => f e.2) := by
  obtain ⟨xs, ys, hentries, herase⟩ := Table.entries_split hm
  rw [hentries, herase, List.map_append, List.map_append, List.map_cons]
  exact List.perm_middle

/-- One object takes the place of another, or of itself. -/
theorem changed_perm [DecidableEq α] (a b : α) (rest : List α) :
    ((b :: rest) ++ if a ≠ b then [a] else []).Perm ((a :: rest) ++ if b ≠ a then [b] else []) := by
  by_cases hab : a = b
  · subst hab
    exact .rfl
  · rw [if_pos hab, if_pos (Ne.symm hab)]
    have hswap : ((b :: rest) ++ [a]).Perm (a :: b :: rest) := List.perm_append_comm
    have hmove : (b :: rest).Perm (rest ++ [b]) := (List.perm_append_singleton b rest).symm
    exact hswap.trans (hmove.cons a)

end Parts

variable [DecidableEq κ] [DecidableEq β]

/-- What a call has given back. -/
def Answer.givenBack : Answer κ β → Released κ β
  | .status _ r => r
  | .released r => r
  | _ => .none

namespace HashTable

/-- What a call hands over. A key or a value that the table holds at this place already is not
handed over again, and nothing is when there is no room for a pair. -/
def takes (t : HashTable κ β) : Call κ β → Released κ β
  | .put pairRoom _ k v =>
    match t.find k with
    | some (_, pair, _) => .ofChange true true ⟨k, v⟩ pair
    | none => if pairRoom then ⟨[k], [v]⟩ else .none
  | _ => .none

/-- What some calls hand over. -/
def taken (t : HashTable κ β) : List (Call κ β) → Released κ β
  | [] => .none
  | c :: cs =>
    (t.takes c).append ((t.call c).1.taken cs)

end HashTable

/-- Either the keys or the values: a part of a pair, and that part of what is given back. -/
structure Part {α : Type} [DecidableEq α] (f : KeyValuePair κ β → α)
    (g : Released κ β → List α) : Prop where
  ofPairs : ∀ ps, g (.ofPairs true true ps) = ps.map f
  ofChange : ∀ p q, g (.ofChange true true p q) = if f p ≠ f q then [f p] else []
  append : ∀ r s, g (r.append s) = g r ++ g s

theorem keysPart : Part (fun pair : KeyValuePair κ β => pair.key) Released.keys where
  ofPairs := fun _ => rfl
  ofChange := fun p q => by simp [Released.ofChange]
  append := fun _ _ => rfl

theorem valuesPart : Part (fun pair : KeyValuePair κ β => pair.value) Released.values where
  ofPairs := fun _ => rfl
  ofChange := fun p q => by simp [Released.ofChange]
  append := fun _ _ => rfl

variable {α : Type} [DecidableEq α] {f : KeyValuePair κ β → α} {g : Released κ β → List α}

variable [DecidableEq ι] {key : Keying κ β ι} {t : HashTable κ β} {m : PairMap κ β ι}

omit [DecidableEq α] in
/-- A call that leaves the map as it is. -/
theorem Refines.owned_still (h : Refines key t m) {c : Call κ β} (hsame : (m.call key c).1 = m)
    (hback : g (t.call c).2.givenBack = []) (htakes : g (t.takes c) = []) :
    ((t.call c).1.pairs.map f ++ g (t.call c).2.givenBack).Perm
      (t.pairs.map f ++ g (t.takes c)) := by
  rw [hback, htakes, List.append_nil, List.append_nil]
  have hnext := (h.call c).1
  rw [hsame] at hnext
  exact (hnext.parts f).trans (h.parts f).symm

/-- A pair is put: beside the others, or in the place of one of them. -/
theorem Refines.owned_put (h : Refines key t m) (hpart : Part f g)
    (hk : key.keyDeallocator = true) (hv : key.valueDeallocator = true)
    (pairRoom arrayRoom : Bool) (k : κ) (v : β) :
    ((t.call (.put pairRoom arrayRoom k v)).1.pairs.map f ++
        g (t.call (.put pairRoom arrayRoom k v)).2.givenBack).Perm
      (t.pairs.map f ++ g (t.takes (.put pairRoom arrayRoom k v))) := by
  obtain ⟨hnext, hanswer⟩ := h.put pairRoom arrayRoom k v
  refine ((hnext.parts f).append_right _).trans (.trans ?_ ((h.parts f).symm.append_right _))
  rw [hanswer]
  have hnone : g .none = [] := hpart.ofPairs []
  cases hfind : t.find k with
  | some r =>
    obtain ⟨before, pair, after⟩ := r
    obtain ⟨_, _, hlookup⟩ := h.find_eq_some hfind
    simp only [HashTable.takes, hfind, PairMap.call, hlookup, hk, hv, Answer.givenBack,
      hpart.ofChange, AList.entries_insert, List.map_cons]
    exact (changed_perm (f pair) (f ⟨k, v⟩) _).trans ((parts_split hlookup).symm.append_right _)
  | none =>
    have hlookup := h.find_eq_none hfind
    simp only [HashTable.takes, hfind, PairMap.call, hlookup]
    cases pairRoom with
    | false => exact .rfl
    | true =>
      have hnew : g ⟨[k], [v]⟩ = [f ⟨k, v⟩] := hpart.ofPairs [⟨k, v⟩]
      simp only [if_true, Answer.givenBack, hnone, hnew, List.append_nil]
      rw [AList.entries_insert_of_notMem (AList.lookup_eq_none.mp hlookup), List.map_cons]
      exact (List.perm_append_singleton _ _).symm

/-- What a call makes of the pairs, and what it has given back and taken. -/
theorem Refines.owned (h : Refines key t m) (hpart : Part f g) (hk : key.keyDeallocator = true)
    (hv : key.valueDeallocator = true) (c : Call κ β) :
    ((t.call c).1.pairs.map f ++ g (t.call c).2.givenBack).Perm
      (t.pairs.map f ++ g (t.takes c)) := by
  have hnone : g .none = [] := hpart.ofPairs []
  cases c with
  | put pairRoom arrayRoom k v => exact h.owned_put hpart hk hv pairRoom arrayRoom k v
  | remove arrayRoom k =>
    obtain ⟨hnext, hanswer⟩ := h.remove arrayRoom k
    refine ((hnext.parts f).append_right _).trans (.trans ?_ ((h.parts f).symm.append_right _))
    have htakes : g (t.takes (.remove arrayRoom k)) = [] := hnone
    rw [hanswer, htakes, List.append_nil]
    unfold PairMap.call
    cases hlookup : m.lookup (key.cls k) with
    | none =>
      simp only [hlookup, Answer.givenBack, hnone, List.append_nil]
      exact .rfl
    | some pair =>
      simp only [hlookup, Answer.givenBack, hk, hv, hpart.ofPairs]
      exact List.perm_append_comm.trans (parts_split hlookup).symm
  | removeAll arrayRoom =>
    have hback : g (t.call (.removeAll arrayRoom)).2.givenBack = t.pairs.map f := by
      have hall : (t.call (.removeAll arrayRoom)).2.givenBack =
        .ofPairs t.keyDeallocator t.valueDeallocator t.pairs := rfl
      rw [hall, h.keyDeallocator, hk, h.valueDeallocator, hv]
      exact hpart.ofPairs _
    have htakes : g (t.takes (.removeAll arrayRoom)) = [] := hnone
    have hempty := ((h.removeAll arrayRoom).parts f).length_eq
    rw [hback, htakes, List.append_nil, List.length_eq_zero_iff.mp hempty]
    exact .rfl
  | _ => exact h.owned_still rfl hnone hnone

/-- What a table holds and what it has given back are what it held and has taken. -/
theorem Refines.owned_calls (h : Refines key t m) (hpart : Part f g)
    (hk : key.keyDeallocator = true) (hv : key.valueDeallocator = true) (cs : List (Call κ β)) :
    ((t.calls cs).1.pairs.map f ++ (t.calls cs).2.flatMap fun a => g a.givenBack).Perm
      (t.pairs.map f ++ g (t.taken cs)) := by
  induction cs generalizing t m with
  | nil =>
    have hnone : g .none = [] := hpart.ofPairs []
    rw [HashTable.taken, hnone]
    exact .rfl
  | cons c cs ih =>
    have hone := h.owned hpart hk hv c
    have hrest := ih (h.call c).1
    rw [HashTable.taken, hpart.append, ← List.append_assoc]
    -- what the first call has given back is moved past the rest of the run, and back again
    have hpast := (List.perm_append_comm_assoc _ _ _).trans
      ((hrest.append_left (g (t.call c).2.givenBack)).trans (List.perm_append_comm_assoc _ _ _))
    rw [← List.append_assoc ((t.call c).1.pairs.map f)] at hpast
    exact hpast.trans (hone.append_right _)

/-- A table that owns its keys and values neither loses one nor gives one back twice: the
objects that it holds and those that it has given back are together those that it has taken. -/
theorem held_and_given_back (key : Keying κ β ι) (hk : key.keyDeallocator = true)
    (hv : key.valueDeallocator = true) {keycmp : κ → κ → Int} {hashFunction : κ → UInt64}
    {n : Nat} (hn : 0 < n) (hcmp : ∀ k l, keycmp k l = 0 ↔ key.cls k = key.cls l)
    (hhash : ∀ k l, key.cls k = key.cls l → hashFunction k = hashFunction l)
    (cs : List (Call κ β)) :
    let t := hashTableCreate n keycmp key.valuecmp hashFunction key.keyDeallocator
      key.valueDeallocator
    let held := (t.calls cs).1.pairs
    let givenBack := (t.calls cs).2.map Answer.givenBack
    (held.map (·.key) ++ givenBack.flatMap (·.keys)).Perm (t.taken cs).keys ∧
      (held.map (·.value) ++ givenBack.flatMap (·.values)).Perm (t.taken cs).values := by
  intro t held givenBack
  have h := Refines.hashTableCreate key hn hcmp hhash
  have hempty : t.pairs = [] := List.flatten_replicate_nil
  have hkeys := h.owned_calls keysPart hk hv cs
  have hvalues := h.owned_calls valuesPart hk hv cs
  rw [hempty] at hkeys hvalues
  rw [List.flatMap_map, List.flatMap_map]
  exact ⟨hkeys, hvalues⟩

/-- The key 13 is given back for 3, and 1 for 5. -/
theorem held_and_given_back_digits :
    let t : HashTable Nat Nat :=
      hashTableCreate 2 (fun k l => ((k % 10 : Nat) : Int) - (l % 10 : Nat)) digitKeying.valuecmp
        (fun k => UInt64.ofNat (k % 10)) true true
    let cs : List (Call Nat Nat) := [.put true true 13 1, .put true true 4 2, .put true true 3 5]
    let held := (t.calls cs).1.pairs
    let givenBack := (t.calls cs).2.map Answer.givenBack
    (held.map (·.key) ++ givenBack.flatMap (·.keys)).Perm [13, 4, 3] ∧
      (held.map (·.value) ++ givenBack.flatMap (·.values)).Perm [1, 2, 5] := by
  intro t cs held givenBack
  refine held_and_given_back digitKeying rfl rfl (by decide) (fun k l => ?_) (fun k l h => ?_) cs
  · show ((k % 10 : Nat) : Int) - (l % 10 : Nat) = 0 ↔ k % 10 = l % 10
    omega
  · exact congrArg UInt64.ofNat h

end Ownership

end Sfcb.SfcUtil
