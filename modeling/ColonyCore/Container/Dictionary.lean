/-
  ColonyCore.Container.Dictionary
  **THE HASH TABLE (`Cpl/Container/HashTable_.cpp`, `Cpl/Container/Dictionary.h`).**

  A dictionary is an array of bucket lists.  The buckets are `DList`s, so the items'
  links and owner marks are those of `Container.LinkedLists`; what is added is the cached
  bucket index `m_hashCode_` of each item and the counter `m_numItems` of each table.

  The owner mark of an item in a dictionary is the address of its BUCKET.  The address of
  the `Dictionary` object itself, which `isInDictionary` compares it with, is a third kind
  of address.

    • `Tables` — the state of any number of dictionaries over one pool of items,
    • `call`, `run` — the calls, with `find`, enumeration and `isInDictionary` among them,
    • `BagStep` — what each call is documented to do to the sets of contained items.
-/
import Mathlib.Data.BitVec
import ColonyCore.Container.LinkedLists

namespace ColonyCore.Container

open Function

/-! ## §1. The tables. -/

/-- The objects whose addresses occur as owner marks. -/
inductive DictObject (D : Type)
  | dictionary (d : D)
  | bucket (d : D) (i : Nat)
  deriving DecidableEq

/-- The dictionaries `D`, the items `ι` with their keys `κ`, and the hash functions.
    `hashKey d raw` is `hashKey( keystart, keylen, m_numBuckets )`. -/
structure DictSetup (D ι κ : Type) where
  numBuckets : D → Nat
  getKey : ι → κ
  getRawKey : κ → List UInt8
  compareKey : κ → κ → Int
  compare_iff : ∀ a b, compareKey a b = 0 ↔ getRawKey a = getRawKey b
  hashKey : D → List UInt8 → Nat
  hashKey_lt : ∀ d raw, hashKey d raw < numBuckets d

/-- The address of `m_buckets[i]`.  It is computed from the array alone: an index beyond the
    array is still an address, and `DList::remove` compares it before it looks at the list. -/
abbrev bucketAddr {D : Type} (d : D) (i : Nat) : ListAddr Empty (DictObject D) :=
  .dlist (.bucket d i)

/-- The state of all dictionaries; `w` is the width of `unsigned long`. -/
structure Tables (D ι : Type) (w : Nat) where
  mem : LinkMemory ι (ListAddr Empty (DictObject D))
  hashCode : ι → Nat
  numItems : D → BitVec w

namespace Tables

variable {D ι κ : Type} {w : Nat}

/-- Constructed items, buckets and dictionaries. -/
def constructed : Tables D ι w where
  mem := .constructed
  hashCode _ := 0
  numItems _ := 0#w

section Queries

variable (S : DictSetup D ι κ)

/-- The bucket index of a key. -/
def index (d : D) (key : κ) : Nat := S.hashKey d (S.getRawKey key)

variable (t : Tables D ι w)

/-- `for ( i..; i < m_numBuckets; i++ ) if ( m_buckets[i].first() ) return it;` -/
def firstFrom (d : D) (i : Nat) : Option ι :=
  (List.range' i (S.numBuckets d - i)).findSome? fun j => t.mem.first (bucketAddr d j)

/-- `HashTable_::first`. -/
def first (d : D) : Option ι :=
  if t.numItems d ≠ 0#w then t.firstFrom S d 0 else none

/-- `HashTable_::next`. -/
def next (d : D) (current : ι) : Option ι :=
  match t.mem.next current with
  | some nextPtr => some nextPtr
  | none => t.firstFrom S d (t.hashCode current + 1)

/-- The loop of `find` over one bucket. -/
def findLoop (t : Tables D ι w) (key : κ) : Nat → Option ι → Option (Option ι)
  | _, none => some none
  | 0, some _ => none
  | fuel + 1, some x =>
    if S.compareKey (S.getKey x) key = 0 then some (some x)
    else findLoop t key fuel (t.mem.next x)

/-- `HashTable_::find`. -/
def find (fuel : Nat) (t : Tables D ι w) (d : D) (key : κ) : Option (Option ι) :=
  t.findLoop S key fuel (t.mem.first (bucketAddr d (index S d key)))

variable [DecidableEq D]

/-- `Dictionary::isInDictionary`: the owner mark against the address of the DICTIONARY. -/
def isInDictionary (d : D) (node : ι) : Bool :=
  Item.isInContainer_ t.mem node (.dlist (.dictionary d))

end Queries

section Updates

variable [DecidableEq D] [DecidableEq ι] (S : DictSetup D ι κ)

/-- `HashTable_::insert`. -/
def insert (t : Tables D ι w) (d : D) (node : ι) : Option (Tables D ι w) :=
  let i := index S d (S.getKey node)
  (DList.put t.mem (bucketAddr d i) node).map fun mem =>
    { mem := mem
      hashCode := update t.hashCode node i
      numItems := update t.numItems d (t.numItems d + 1#w) }

/-- `HashTable_::removeItem`. -/
def removeItem (t : Tables D ι w) (d : D) (node : ι) : Option ι × Tables D ι w :=
  match DList.remove t.mem (bucketAddr d (t.hashCode node)) node with
  | (true, mem) =>
    (some node, { t with mem := mem, numItems := update t.numItems d (t.numItems d - 1#w) })
  | (false, mem) => (none, { t with mem := mem })

/-- `Dictionary::remove`. -/
def remove (fuel : Nat) (t : Tables D ι w) (d : D) (key : κ) :
    Option (Option ι × Tables D ι w) :=
  (t.find S fuel d key).map fun
    | some node => t.removeItem d node
    | none => (none, t)

/-- `Dictionary::getFirst`. -/
def getFirst (t : Tables D ι w) (d : D) : Option ι × Tables D ι w :=
  match t.first S d with
  | some node => t.removeItem d node
  | none => (none, t)

/-- `Dictionary::clearTheDictionary`. -/
def clearTheDictionary (d : D) : Nat → Tables D ι w → Option (Tables D ι w)
  | 0, _ => none
  | fuel + 1, t =>
    match t.getFirst S d with
    | (some _, t) => clearTheDictionary d fuel t
    | (none, t) => some t

/-- The copy loop of `Dictionary::move`. -/
def moveLoop (src dst : D) : Nat → Tables D ι w → Option (Tables D ι w)
  | 0, _ => none
  | fuel + 1, t =>
    match t.getFirst S src with
    | (some node, t) => (t.insert S dst node).bind (moveLoop src dst fuel)
    | (none, t) => some t

/-- `Dictionary::move`. -/
def move (fuel : Nat) (t : Tables D ι w) (src dst : D) : Option (Tables D ι w) :=
  (clearTheDictionary S dst fuel t).bind (moveLoop S src dst fuel)

end Updates

end Tables

/-! ## §2. Calls. -/

inductive DictOp (D ι κ : Type)
  | insert (d : D) (node : ι)
  | remove (d : D) (key : κ)
  | removeItem (d : D) (node : ι)
  | getFirst (d : D)
  | move (src dst : D)
  | clearTheDictionary (d : D)
  | find (d : D) (key : κ)
  | enumerate (d : D)
  | isInDictionary (d : D) (node : ι)

inductive DictAnswer (ι : Type)
  | void
  | flag (b : Bool)
  | item (x : Option ι)
  | items (xs : List ι)
  deriving DecidableEq

/-- One call.  `enumerate` is the client's loop over `first()` and `next()`. -/
def Tables.call {D ι κ : Type} {w : Nat} [DecidableEq D] [DecidableEq ι] (S : DictSetup D ι κ)
    (fuel : Nat) (t : Tables D ι w) : DictOp D ι κ → Option (DictAnswer ι × Tables D ι w)
  | .insert d node => (t.insert S d node).map fun t => (.void, t)
  | .remove d key => (t.remove S fuel d key).map fun r => (.item r.1, r.2)
  | .removeItem d node =>
    some (.flag (t.removeItem d node).1.isSome, (t.removeItem d node).2)
  | .getFirst d => some (.item (t.getFirst S d).1, (t.getFirst S d).2)
  | .move src dst => (t.move S fuel src dst).map fun t => (.void, t)
  | .clearTheDictionary d => (Tables.clearTheDictionary S d fuel t).map fun t => (.void, t)
  | .find d key => (t.find S fuel d key).map fun x => (.item x, t)
  | .enumerate d =>
    (LinkedSeq.walk (t.next S d) fuel (t.first S d)).map fun xs => (.items xs, t)
  | .isInDictionary d node => some (.flag (t.isInDictionary d node), t)

/-! ## §3. Keyed bags. -/

/-- Which dictionary each item is in. -/
abbrev Bag (D ι : Type) := ι → Option D

/-- What a search by key may answer. -/
def Bag.Finds {D ι κ : Type} (S : DictSetup D ι κ) (b : Bag D ι) (d : D) (key : κ) :
    Option ι → Prop
  | some x => b x = some d ∧ S.getRawKey (S.getKey x) = S.getRawKey key
  | none => ∀ x, b x = some d → S.getRawKey (S.getKey x) ≠ S.getRawKey key

/-- What a search for any item may answer. -/
def Bag.Picks {D ι : Type} (b : Bag D ι) (d : D) : Option ι → Prop
  | some x => b x = some d
  | none => ∀ x, b x ≠ some d

section Steps

variable {D ι κ : Type} [DecidableEq D] [DecidableEq ι]

/-- The bag without an item that was found. -/
def Bag.without (b : Bag D ι) : Option ι → Bag D ι
  | some x => update b x none
  | none => b

def Bag.clear (b : Bag D ι) (d : D) : Bag D ι := fun x => if b x = some d then none else b x

/-- A dictionary moved to itself is cleared first. -/
def Bag.move (b : Bag D ι) (src dst : D) : Bag D ι := fun x =>
  if b.clear dst x = some src then some dst else b.clear dst x

/-- **The keyed bag**: the answers a call may give, and the contained items after it.
    Which of several items with one key is found is left open. -/
def BagStep (S : DictSetup D ι κ) (b : Bag D ι) :
    DictOp D ι κ → DictAnswer ι → Bag D ι → Prop
  | .insert d node, ans, b' => ans = .void ∧ b' = update b node (some d)
  | .remove d key, ans, b' => ∃ x, b.Finds S d key x ∧ ans = .item x ∧ b' = b.without x
  | .removeItem d node, ans, b' =>
    ans = .flag (decide (b node = some d))
      ∧ b' = if b node = some d then update b node none else b
  | .getFirst d, ans, b' => ∃ x, b.Picks d x ∧ ans = .item x ∧ b' = b.without x
  | .move src dst, ans, b' => ans = .void ∧ b' = b.move src dst
  | .clearTheDictionary d, ans, b' => ans = .void ∧ b' = b.clear d
  | .find d key, ans, b' => (∃ x, b.Finds S d key x ∧ ans = .item x) ∧ b' = b
  | .enumerate d, ans, b' =>
    (∃ xs : List ι, xs.Nodup ∧ (∀ x, x ∈ xs ↔ b x = some d) ∧ ans = .items xs) ∧ b' = b
  | .isInDictionary d node, ans, b' => ans = .flag (decide (b node = some d)) ∧ b' = b

/-- **A run follows the bag**: every call returns, with an answer of the bag. -/
def FollowsBag {w : Nat} (S : DictSetup D ι κ) (fuel : Nat) :
    Bag D ι → Tables D ι w → List (DictOp D ι κ) → Prop
  | _, _, [] => True
  | b, t, op :: ops => ∃ ans t' b', t.call S fuel op = some (ans, t') ∧ BagStep S b op ans b'
      ∧ FollowsBag S fuel b' t' ops

end Steps

end ColonyCore.Container
