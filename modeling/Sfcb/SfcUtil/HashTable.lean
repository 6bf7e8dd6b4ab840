import Sfcb.Lib.Buckets
import Mathlib.Algebra.Ring.Nat

/-!
# The hash table

`hashtable.c` keeps pairs of a key and a value in chains, one for each rest that a hash value
can leave. A pair is found by its hash value and then by comparing keys along the chain. The
table gets a new array when there are more than fifteen pairs for each chain, and whenever it
is emptied.

Keys and values are pointers. Two of them may compare equal and still be different objects,
and a table that owns what is put into it gives back what it no longer holds. What an
operation gives back is part of its result here. `malloc` may fail, and then an operation is
told so: `pairRoom` stands for the room of a new pair, `arrayRoom` for that of a new array.

Mirroring notes:
- There are fewer than 2 ^ 31 buckets, as the loops over them count in an `int`, and the limits
  of the load are numbers that a `float` has exactly.
-/

namespace Sfcb.SfcUtil

open Sfcb.Lib.Buckets

/-- A key and its value. -/
structure KeyValuePair (κ β : Type) where
  key : κ
  value : β
deriving DecidableEq, Repr

/-- The table. The thresholds are whole numbers; the code divides floats, which are exact up
to 2^24 pairs. Its loops over the buckets count with an `int`: there are fewer than 2^31. -/
structure HashTable (κ β : Type) where
  numOfBuckets : Nat
  numOfElements : Nat
  bucketArray : List (List (KeyValuePair κ β))
  idealRatio : Nat
  lowerRehashThreshold : Nat
  upperRehashThreshold : Nat
  keycmp : κ → κ → Int
  valuecmp : β → β → Int
  hashFunction : κ → UInt64
  keyDeallocator : Bool
  valueDeallocator : Bool

/-- What goes back to the deallocators. -/
structure Released (κ β : Type) where
  keys : List κ
  values : List β
deriving DecidableEq, Repr

namespace Released

variable {κ β : Type}

def none : Released κ β := ⟨[], []⟩

/-- The pairs that a table no longer holds, if it has the deallocators for them. -/
def ofPairs (keyDeallocator valueDeallocator : Bool) (pairs : List (KeyValuePair κ β)) :
    Released κ β :=
  ⟨if keyDeallocator then pairs.map (·.key) else [],
    if valueDeallocator then pairs.map (·.value) else []⟩

/-- A pair gets another key and another value, if they are other objects. -/
def ofChange [DecidableEq κ] [DecidableEq β] (keyDeallocator valueDeallocator : Bool)
    (pair new : KeyValuePair κ β) : Released κ β :=
  ⟨if pair.key ≠ new.key ∧ keyDeallocator then [pair.key] else [],
    if pair.value ≠ new.value ∧ valueDeallocator then [pair.value] else []⟩

def append (r s : Released κ β) : Released κ β := ⟨r.keys ++ s.keys, r.values ++ s.values⟩

end Released

section Primes

/-- `isProbablePrime`: an odd number without a small odd divisor. The walk is over the
divisors from 3 to 49. -/
def isProbablePrime (oddNumber : Nat) : Bool := go oddNumber 3 24
where
  go (oddNumber i : Nat) : Nat → Bool
    | 0 => true
    | left + 1 =>
      if oddNumber = i then true
      else if oddNumber % i = 0 then false
      else go oddNumber (i + 2) left

/-- The product of the odd numbers below 51. What leaves the rest 1 has none of them as a
divisor. -/
def oddProduct : Nat := 3 * 5 * 7 * 9 * 11 * 13 * 15 * 17 * 19 * 21 * 23 * 25 * 27 * 29 * 31 *
  33 * 35 * 37 * 39 * 41 * 43 * 45 * 47 * 49

theorem go_of_rest_one {n i left : Nat} (hi : 1 < i)
    (h : ∀ j, j < left → n % (i + 2 * j) = 1) : isProbablePrime.go n i left = true := by
  induction left generalizing i with
  | zero => rfl
  | succ left ih =>
    have hrest : n % i = 1 := by simpa using h 0 (by omega)
    unfold isProbablePrime.go
    split
    · rfl
    · rw [if_neg (by omega)]
      apply ih (by omega)
      intro j hj
      have := h (j + 1) (by omega)
      rwa [show i + 2 * (j + 1) = i + 2 + 2 * j by omega] at this

theorem isProbablePrime_of_rest_one {n : Nat} (h : n % oddProduct = 1) :
    isProbablePrime n = true := by
  apply go_of_rest_one (by omega)
  intro j hj
  have hdvd : (3 + 2 * j) ∣ oddProduct := by
    have : ∀ j < 24, (3 + 2 * j) ∣ oddProduct := by decide
    exact this j hj
  rw [← Nat.mod_mod_of_dvd n hdvd, h]
  exact Nat.mod_eq_of_lt (by omega)

/-- How far it is from a number to the next multiple of `m`. -/
def gap (m n : Nat) : Nat := (m - n % m) % m

theorem gap_lt {m n : Nat} (hpos : 0 < m) (hm : m % 2 = 0) (hn : n % 2 = 0)
    (h : n % m ≠ 0) : gap m (n + 2) < gap m n := by
  have hlt : n % m < m := Nat.mod_lt n hpos
  have heven : n % m % 2 = 0 := by
    rw [Nat.mod_mod_of_dvd n (Nat.dvd_of_mod_eq_zero hm)]
    exact hn
  have hnext : (n + 2) % m = (n % m + 2) % m := (Nat.mod_add_mod n m 2).symm
  unfold gap
  rw [hnext, Nat.mod_eq_of_lt (show m - n % m < m by omega)]
  by_cases hend : n % m + 2 < m
  · rw [Nat.mod_eq_of_lt hend, Nat.mod_eq_of_lt (show m - (n % m + 2) < m by omega)]
    omega
  · rw [show n % m + 2 = m by omega, Nat.mod_self, Nat.sub_zero, Nat.mod_self]
    omega

/-- A multiple of the product is in sight, and one more than it would pass. -/
theorem gap_lt_of_not_prime {n : Nat} (hodd : n % 2 = 1) (h : isProbablePrime n = false) :
    gap (2 * oddProduct) (n + 2 - 1) < gap (2 * oddProduct) (n - 1) := by
  rw [show n + 2 - 1 = n - 1 + 2 by omega]
  apply gap_lt (by decide) (Nat.mul_mod_right 2 _) (by omega)
  intro hzero
  have hrest : n % oddProduct = 1 := by
    obtain ⟨q, hq⟩ := Nat.dvd_of_mod_eq_zero hzero
    have hn : n = oddProduct * (2 * q) + 1 :=
      calc n = n - 1 + 1 := by omega
        _ = oddProduct * (2 * q) + 1 := by rw [hq, ← Nat.mul_assoc, Nat.mul_comm oddProduct 2]
    rw [hn, Nat.mul_add_mod]
    decide
  rw [isProbablePrime_of_rest_one hrest] at h
  cases h

theorem odd_add_two {n : Nat} (hodd : n % 2 = 1) : (n + 2) % 2 = 1 :=
  (Nat.add_mod_right n 2).trans hodd

theorem odd_or_one (n : Nat) : (n ||| 1) % 2 = 1 := Nat.or_mod_two_eq_one.mpr (.inr rfl)

/-- The loop of `calculateIdealNumOfBuckets`: up to the first odd number that passes. -/
def nextProbablePrime (n : Nat) (hodd : n % 2 = 1) : Nat :=
  if _h : isProbablePrime n then n else nextProbablePrime (n + 2) (odd_add_two hodd)
termination_by gap (2 * oddProduct) (n - 1)
decreasing_by exact gap_lt_of_not_prime hodd (Bool.eq_false_iff.mpr _h)

theorem nextProbablePrime_pos {n : Nat} (hodd : n % 2 = 1) : 0 < nextProbablePrime n hodd := by
  induction n, hodd using nextProbablePrime.induct with
  | case1 n hodd hprime =>
    unfold nextProbablePrime
    rw [dif_pos hprime]
    omega
  | case2 n hodd hprime ih =>
    unfold nextProbablePrime
    rw [dif_neg hprime]
    exact ih

end Primes

section Operations

variable {κ β : Type}

/-- `HashTableCreate`, and the functions that are set before the table is used. -/
def hashTableCreate (numOfBuckets : Nat) (keycmp : κ → κ → Int) (valuecmp : β → β → Int)
    (hashFunction : κ → UInt64) (keyDeallocator valueDeallocator : Bool) : HashTable κ β where
  numOfBuckets := numOfBuckets
  numOfElements := 0
  bucketArray := List.replicate numOfBuckets []
  idealRatio := 3
  lowerRehashThreshold := 0
  upperRehashThreshold := 15
  keycmp := keycmp
  valuecmp := valuecmp
  hashFunction := hashFunction
  keyDeallocator := keyDeallocator
  valueDeallocator := valueDeallocator

namespace HashTable

variable (t : HashTable κ β)

/-- `HashTableSetIdealRatio`. The tables of the source all have the limits that they are made
with. -/
def setIdealRatio (idealRatio lowerRehashThreshold upperRehashThreshold : Nat) : HashTable κ β :=
  { t with idealRatio, lowerRehashThreshold, upperRehashThreshold }

/-- The chain that a key belongs to. -/
def hashValue (key : κ) : Nat := (t.hashFunction key).toNat % t.numOfBuckets

/-- The walk along the chain, up to the first pair with a key that compares equal. -/
def find (key : κ) :
    Option (List (KeyValuePair κ β) × KeyValuePair κ β × List (KeyValuePair κ β)) :=
  locate (fun pair => t.keycmp key pair.key == 0) (bucket t.bucketArray (t.hashValue key))

/-- `HashTableGet`. -/
def hashTableGet (key : κ) : Option β := (t.find key).map fun r => r.2.1.value

/-- `HashTableContainsKey`. -/
def hashTableContainsKey (key : κ) : Bool := (t.hashTableGet key).isSome

/-- `HashTableContainsValue`. -/
def hashTableContainsValue (value : β) : Bool :=
  t.bucketArray.any fun chain => chain.any fun pair => t.valuecmp value pair.value == 0

/-- `calculateIdealNumOfBuckets`. A number below five becomes five, and another is made odd. -/
def calculateIdealNumOfBuckets : Nat :=
  if t.numOfElements / t.idealRatio < 5 then nextProbablePrime 5 rfl
  else nextProbablePrime (t.numOfElements / t.idealRatio ||| 1) (odd_or_one _)

/-- `HashTableRehash`. The pairs are taken chain by chain, and each is put in front of its new
chain. -/
def hashTableRehash (arrayRoom : Bool) (numOfBuckets : Nat) : HashTable κ β :=
  let numOfBuckets := if numOfBuckets = 0 then t.calculateIdealNumOfBuckets else numOfBuckets
  if numOfBuckets = t.numOfBuckets then t
  else if arrayRoom then
    { t with
      bucketArray := pushAll (fun pair => (t.hashFunction pair.key).toNat % numOfBuckets)
        (List.replicate numOfBuckets []) t.bucketArray.flatten
      numOfBuckets := numOfBuckets }
  else t

/-- `HashTablePut`. It asserts that neither the key nor the value is null. -/
def hashTablePut [DecidableEq κ] [DecidableEq β] (pairRoom arrayRoom : Bool)
    (key : κ) (value : β) : HashTable κ β × Int × Released κ β :=
  match t.find key with
  | some (before, pair, after) =>
    ({ t with
        bucketArray :=
          t.bucketArray.modify (t.hashValue key) fun _ => before ++ ⟨key, value⟩ :: after },
      0, .ofChange t.keyDeallocator t.valueDeallocator pair ⟨key, value⟩)
  | none =>
    if pairRoom then
      let t := { t with
        bucketArray := t.bucketArray.modify (t.hashValue key) (⟨key, value⟩ :: ·)
        numOfElements := t.numOfElements + 1 }
      -- elementToBucketRatio > upperRehashThreshold
      if t.idealRatio < t.upperRehashThreshold ∧
          t.upperRehashThreshold * t.numOfBuckets < t.numOfElements then
        (t.hashTableRehash arrayRoom 0, 0, .none)
      else (t, 0, .none)
    else (t, -1, .none)

/-- `HashTableRemove`. -/
def hashTableRemove (arrayRoom : Bool) (key : κ) : HashTable κ β × Released κ β :=
  match t.find key with
  | some (before, pair, after) =>
    let released := .ofPairs t.keyDeallocator t.valueDeallocator [pair]
    let t := { t with
      bucketArray := t.bucketArray.modify (t.hashValue key) fun _ => before ++ after
      numOfElements := t.numOfElements - 1 }
    -- elementToBucketRatio < lowerRehashThreshold
    if 0 < t.lowerRehashThreshold ∧ t.numOfElements < t.lowerRehashThreshold * t.numOfBuckets then
      (t.hashTableRehash arrayRoom 0, released)
    else (t, released)
  | none => (t, .none)

/-- `HashTableRemoveAll`. -/
def hashTableRemoveAll (arrayRoom : Bool) : HashTable κ β × Released κ β :=
  let released := .ofPairs t.keyDeallocator t.valueDeallocator t.bucketArray.flatten
  let t := { t with bucketArray := t.bucketArray.map fun _ => [], numOfElements := 0 }
  (t.hashTableRehash arrayRoom 5, released)

/-- `HashTableIsEmpty`. -/
def hashTableIsEmpty : Bool := t.numOfElements == 0

/-- `HashTableSize`. -/
def hashTableSize : Nat := t.numOfElements

end HashTable

/-- `HashTableIterator`: a bucket, a pair of its chain and what comes after it there. -/
structure HashTableIterator (κ β : Type) where
  bucket : Nat
  pair : KeyValuePair κ β
  next : List (KeyValuePair κ β)
deriving DecidableEq, Repr

namespace HashTable

variable (t : HashTable κ β)

/-- The loop of `hashTableGetFirst`, with so many buckets left. -/
def firstFrom (index : Nat) : Nat → Option (HashTableIterator κ β)
  | 0 => none
  | left + 1 =>
    match bucket t.bucketArray index with
    | pair :: next => some ⟨index, pair, next⟩
    | [] => firstFrom (index + 1) left

/-- `hashTableGetFirst`. -/
def hashTableGetFirst : Option (HashTableIterator κ β) := t.firstFrom 0 t.numOfBuckets

/-- The loop of `hashTableGetNext`, with so many buckets after this one. -/
def nextFrom (index : Nat) : Nat → List (KeyValuePair κ β) → Option (HashTableIterator κ β)
  | _, pair :: next => some ⟨index, pair, next⟩
  | 0, [] => none
  | left + 1, [] => nextFrom (index + 1) left (bucket t.bucketArray (index + 1))

/-- `hashTableGetNext`. -/
def hashTableGetNext (iter : HashTableIterator κ β) : Option (HashTableIterator κ β) :=
  t.nextFrom iter.bucket (t.numOfBuckets - iter.bucket - 1) iter.next

/-- The loop of a caller over all the pairs, which makes at most so many rounds. -/
def walk : Nat → Option (HashTableIterator κ β) → List (KeyValuePair κ β)
  | _, none => []
  | 0, some _ => []
  | rounds + 1, some iter => iter.pair :: walk rounds (t.hashTableGetNext iter)

end HashTable

end Operations

end Sfcb.SfcUtil
