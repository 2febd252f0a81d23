/-
  ColonyCore.Container.AvlTree
  **THE AVL TREE OF A MAP**, over a heap of nodes linked by pointers.

  A node is found by its address, `root` being the helper node of the tree itself.
  Every function is the source's, with the heap before and after; `none` is a FAULT: a
  null pointer followed, the array `comparisons` written beyond its end, a node put in
  two containers, or (for the loops over pointers that have no bound of their own) a
  loop that runs longer than `fuel`.

  The functions come in mirror images.  Each pair is one definition with the side as
  argument, under which its members are named as in the source.
-/
import ColonyCore.Lib.AvlShape

namespace ColonyCore.Container

open AvlShape

/-! ## §1. The nodes. -/

/-- `&m_root`, or the address of an item. -/
inductive Addr (ι : Type) where
  | root
  | item (i : ι)
deriving DecidableEq

/-- The links of a `MapItem`.  `inList` tells whether `m_inListPtr_` is this tree. -/
structure MapItem (ι : Type) where
  parent : Option (Addr ι)
  left : Option (Addr ι)
  right : Option (Addr ι)
  balance : Balance
  isNotRoot : Bool
  inList : Bool

namespace MapItem

variable {ι : Type}

/-- `getLeft` and `getRight`. -/
def child (n : MapItem ι) : Side → Option (Addr ι)
  | .left => n.left
  | .right => n.right

/-- `setLeft` and `setRight`. -/
def setChild (n : MapItem ι) (s : Side) (p : Option (Addr ι)) : MapItem ι :=
  match s with
  | .left => { n with left := p }
  | .right => { n with right := p }

/-- `initialize`. -/
def initialized (n : MapItem ι) (parent : Option (Addr ι)) : MapItem ι :=
  { n with parent := parent, isNotRoot := true, balance := .even, left := none, right := none }

/-- A node in no container. -/
def detached : MapItem ι := ⟨none, none, none, .even, true, false⟩

end MapItem

/-- The nodes of a program: the helper node of the tree and every item. -/
@[ext] structure Heap (ι : Type) where
  node : Addr ι → MapItem ι

instance {ι : Type} : CoeFun (Heap ι) fun _ => Addr ι → MapItem ι := ⟨Heap.node⟩

namespace Heap

variable {ι : Type} [DecidableEq ι]

variable (h : Heap ι)

/-- The node at `x` changes. -/
def modify (x : Addr ι) (f : MapItem ι → MapItem ι) : Heap ι :=
  ⟨Function.update h.node x (f (h x))⟩

def setChild (s : Side) (x : Addr ι) (p : Option (Addr ι)) : Heap ι :=
  h.modify x (·.setChild s p)

def setParent (x : Addr ι) (p : Option (Addr ι)) : Heap ι :=
  h.modify x ({ · with parent := p })

def setBalance (x : Addr ι) (b : Balance) : Heap ι :=
  h.modify x ({ · with balance := b })

/-- `setParent` of a pointer that may be null. -/
def setParent? (p : Option (Addr ι)) (parent : Addr ι) : Heap ι :=
  match p with
  | some x => h.setParent x (some parent)
  | none => h

/-- `initialize`. -/
def initialized (x : Addr ι) (parent : Option (Addr ι)) : Heap ι :=
  h.modify x (·.initialized parent)

/-- `Item::insert_`: a second container is a fatal error. -/
def insert_ (x : Addr ι) : Option (Heap ι) :=
  if (h x).inList then none else some (h.modify x ({ · with inList := true }))

/-- `Item::remove_`. -/
def remove_ (x : Addr ι) : Heap ι := h.modify x ({ · with inList := false })

/-! ## §2. Rotations. -/

/-- `rotateLeft` and `rotateRight`: the child on the side AWAY from the rotation takes
the place of the node. -/
def rotate (s : Side) (h : Heap ι) (nodePtr : Addr ι) : Option (Heap ι × Addr ι) := do
  let tempPtr ← (h nodePtr).child s.other
  let h := h.setChild s.other nodePtr ((h tempPtr).child s)
  let h := h.setChild s tempPtr (some nodePtr)
  let parentPtr ← (h nodePtr).parent
  let h := if (h parentPtr).child s = some nodePtr then h.setChild s parentPtr (some tempPtr)
    else h.setChild s.other parentPtr (some tempPtr)
  let h := h.setParent? ((h nodePtr).child s.other) nodePtr
  let h := h.setParent tempPtr (h nodePtr).parent
  let h := h.setParent nodePtr (some tempPtr)
  return (h, tempPtr)

def rotateLeft (nodePtr : Addr ι) : Option (Heap ι × Addr ι) := rotate .left h nodePtr

def rotateRight (nodePtr : Addr ι) : Option (Heap ι × Addr ι) := rotate .right h nodePtr

/-- The balances of the node and of its child after a double rotation, from that of
the grandchild. -/
def doubleBalance (s : Side) (grandChild : Balance) : Balance × Balance :=
  if grandChild = s.heavy then (s.other.heavy, .even)
  else if grandChild = .even then (.even, .even)
  else (.even, s.heavy)

/-- `grewLeft` and `grewRight`: the subtree on side `s` of a node that leans there has
become taller.  Returns `taller`. -/
def grew (s : Side) (h : Heap ι) (curPtr : Addr ι) : Option (Heap ι × Bool) := do
  let childPtr ← (h curPtr).child s
  if (h childPtr).balance = s.heavy then
    let h := h.setBalance curPtr .even
    let h := h.setBalance childPtr .even
    let (h, _) ← rotate s.other h curPtr
    return (h, false)
  else if (h childPtr).balance = .even then
    return (h, true)
  else
    let grandChildPtr ← (h childPtr).child s.other
    let balances := doubleBalance s (h grandChildPtr).balance
    let h := h.setBalance curPtr balances.1
    let h := h.setBalance childPtr balances.2
    let h := h.setBalance grandChildPtr .even
    let (h, newRootPtr) ← rotate s h childPtr
    let h := h.setChild s curPtr (some newRootPtr)
    let h := h.setParent newRootPtr (some curPtr)
    let (h, _) ← rotate s.other h curPtr
    return (h, false)

def grewLeft (curPtr : Addr ι) : Option (Heap ι × Bool) := grew .left h curPtr

def grewRight (curPtr : Addr ι) : Option (Heap ι × Bool) := grew .right h curPtr

/-- `rightShorter` and `leftShorter`: the subtree on the other side of a node that leans
to side `s` has become shorter.  Returns `shorter`. -/
def otherShorter (s : Side) (h : Heap ι) (parentPtr : Addr ι) : Option (Heap ι × Bool) := do
  let childPtr ← (h parentPtr).child s
  if (h childPtr).balance = s.heavy then
    let (h, _) ← rotate s.other h parentPtr
    let h := h.setBalance parentPtr .even
    let h := h.setBalance childPtr .even
    return (h, true)
  else if (h childPtr).balance = .even then
    let (h, _) ← rotate s.other h parentPtr
    let h := h.setBalance parentPtr s.heavy
    let h := h.setBalance childPtr s.other.heavy
    return (h, false)
  else
    let grandChildPtr ← (h childPtr).child s.other
    let balances := doubleBalance s (h grandChildPtr).balance
    let h := h.setBalance parentPtr balances.1
    let h := h.setBalance childPtr balances.2
    let h := h.setBalance grandChildPtr .even
    let (h, _) ← rotate s h childPtr
    let (h, _) ← rotate s.other h parentPtr
    return (h, true)

def rightShorter (parentPtr : Addr ι) : Option (Heap ι × Bool) :=
  otherShorter .left h parentPtr

def leftShorter (parentPtr : Addr ι) : Option (Heap ι × Bool) :=
  otherShorter .right h parentPtr

end Heap

/-! ## §3. Keys. -/

/-- The keys of the items, and `compareKey` with the `int` it returns. -/
structure Keys (ι κ : Type) where
  key : ι → κ
  compareKey : κ → κ → Int

/-- `nodePtr->getKey().compareKey( key )`; the helper node answers -1. -/
def Keys.compare {ι κ : Type} (K : Keys ι κ) : Addr ι → κ → Int
  | .root, _ => -1
  | .item i, k => K.compareKey (K.key i) k

/-- The conversion to `int8_t`. -/
def toInt8 (x : Int) : Int := (x + 128) % 256 - 128

/-- `OPTION_CPL_CONTAINER_AVLTREE_MAX_TREE_DEPTH`. -/
def MAX_TREE_DEPTH : Nat := 32

namespace Heap

variable {ι κ : Type}

/-! ## §4. Searching. -/

/-- `find`, from `nodePtr` on. -/
def findFrom (K : Keys ι κ) (h : Heap ι) (key : κ) :
    Nat → Option (Addr ι) → Option (Option (Addr ι))
  | _, none => some none
  | 0, some _ => none
  | fuel + 1, some nodePtr =>
    let comparison := toInt8 (K.compare nodePtr key)
    if comparison > 0 then findFrom K h key fuel (h nodePtr).left
    else if comparison = 0 then some (some nodePtr)
    else findFrom K h key fuel (h nodePtr).right

def find (K : Keys ι κ) (fuel : Nat) (h : Heap ι) (key : κ) : Option (Option (Addr ι)) :=
  findFrom K h key fuel (h .root).left

/-- The last node on a side, from `nodePtr` on. -/
def extreme (s : Side) (h : Heap ι) : Nat → Addr ι → Option (Addr ι)
  | 0, _ => none
  | fuel + 1, nodePtr =>
    match (h nodePtr).child s with
    | none => some nodePtr
    | some next => extreme s h fuel next

/-- `first` and `last`. -/
def endmost (s : Side) (fuel : Nat) (h : Heap ι) : Option (Option (Addr ι)) :=
  match (h .root).left with
  | none => some none
  | some top => (extreme s h fuel top).map some

variable (fuel : Nat)

def first (h : Heap ι) : Option (Option (Addr ι)) := endmost .left fuel h

def last (h : Heap ι) : Option (Option (Addr ι)) := endmost .right fuel h

variable [DecidableEq ι]

/-! ## §5. Inserting. -/

/-- The first loop of `insert`: the way down from `curPtr`, with `comparisons` as a
stack that has `slots` free places.  Ends with `none` at an item with an equal key, and
else with the new node linked below its parent. -/
def insertSearch (K : Keys ι κ) (newNode : ι) (h : Heap ι) :
    Nat → Addr ι → List Int → Option (Option (Heap ι × Addr ι × List Int))
  | 0, _, _ => none
  | slots + 1, curPtr, comparisons =>
    let result := K.compare curPtr (K.key newNode)
    let comparison := if result < 0 then -1 else if result > 0 then 1 else 0
    if comparison > 0 then
      match (h curPtr).left with
      | none => some (some (h.setChild .left curPtr (some (.item newNode)), curPtr,
          comparison :: comparisons))
      | some next => insertSearch K newNode h slots next (comparison :: comparisons)
    else if comparison < 0 then
      match (h curPtr).right with
      | none => some (some (h.setChild .right curPtr (some (.item newNode)), curPtr,
          comparison :: comparisons))
      | some next => insertSearch K newNode h slots next (comparison :: comparisons)
    else some none

/-- The switch of `insert` over a node whose subtree on side `s` has become taller. -/
def insertBalance (s : Side) (h : Heap ι) (curPtr : Addr ι) : Option (Heap ι × Bool) :=
  if (h curPtr).balance = s.heavy then grew s h curPtr
  else if (h curPtr).balance = .even then some (h.setBalance curPtr s.heavy, true)
  else some (h.setBalance curPtr .even, false)

/-- The second loop of `insert`: the way up, while the subtree is `taller` and there are
comparisons left. -/
def insertClimb (h : Heap ι) (curPtr : Addr ι) (taller : Bool) : List Int → Option (Heap ι)
  | [] => some h
  | comparison :: comparisons => do
      let nxtPtr := (h curPtr).parent
      let (h, taller) ← if comparison > 0 then insertBalance .left h curPtr
        else if comparison < 0 then insertBalance .right h curPtr
        else some (h, taller)
      if taller ∧ comparisons ≠ [] then
        let nextPtr ← nxtPtr
        insertClimb h nextPtr taller comparisons
      else return h

/-- `insert`. -/
def insert (K : Keys ι κ) (h : Heap ι) (newNode : ι) : Option (Heap ι × Bool) :=
  match (h .root).left with
  | none => do
      let h := h.initialized (.item newNode) (some .root)
      let h := h.setChild .left .root (some (.item newNode))
      let h ← h.insert_ (.item newNode)
      return (h, true)
  | some top => do
      match ← insertSearch K newNode h MAX_TREE_DEPTH top [] with
      | none => return (h, false)
      | some (h, curPtr, comparisons) =>
        let h := h.initialized (.item newNode) (some curPtr)
        let h ← insertClimb h curPtr false comparisons
        let h ← h.insert_ (.item newNode)
        return (h, true)

/-! ## §6. Removing. -/

/-- The loop of `exchangeWithPrev`: `prevPtr` and `prev_is_child`. -/
def findPrev (h : Heap ι) : Nat → Addr ι → Bool → Option (Addr ι × Bool)
  | 0, _, _ => none
  | fuel + 1, prevPtr, prevIsChild =>
    match (h prevPtr).right with
    | none => some (prevPtr, prevIsChild)
    | some next => findPrev h fuel next false

/-- `exchangeWithPrev`: the node and its predecessor change places. -/
def exchangeWithPrev (h : Heap ι) (nodePtr : Addr ι) : Option (Heap ι) := do
  let leftPtr ← (h nodePtr).left
  let rightPtr := (h nodePtr).right
  let parentPtr ← (h nodePtr).parent
  let nodeSide := if (h parentPtr).left = some nodePtr then Side.left else .right
  let balance := (h nodePtr).balance
  let (prevPtr, prevIsChild) ← findPrev h fuel leftPtr true
  let h := h.setChild .left nodePtr (h prevPtr).left
  let h := h.setChild .right nodePtr (h prevPtr).right
  let h := h.setBalance nodePtr (h prevPtr).balance
  let h := h.setParent nodePtr (if prevIsChild then some prevPtr else (h prevPtr).parent)
  let h := h.setChild .left prevPtr (some (if prevIsChild then nodePtr else leftPtr))
  let h := h.setChild .right prevPtr rightPtr
  let h := h.setParent prevPtr (some parentPtr)
  let h := h.setBalance prevPtr balance
  -- the node is the left child of its predecessor, or the right child of the parent it had
  let nodeParentPtr ← (h nodePtr).parent
  let h := h.setChild (if prevIsChild then .left else .right) nodeParentPtr (some nodePtr)
  let prevParentPtr ← (h prevPtr).parent
  let h := h.setChild nodeSide prevParentPtr (some prevPtr)
  let prevLeftPtr ← (h prevPtr).left
  let h := h.setParent prevLeftPtr (some prevPtr)
  let h := h.setParent? (h prevPtr).right prevPtr
  let h := h.setParent? (h nodePtr).left nodePtr
  let h := h.setParent? (h nodePtr).right nodePtr
  return h

/-- The switch of `removeItem` over a node whose subtree on side `s` has become
shorter. -/
def removeBalance (s : Side) (h : Heap ι) (parentPtr : Addr ι) : Option (Heap ι × Bool) :=
  if (h parentPtr).balance = s.heavy then some (h.setBalance parentPtr .even, true)
  else if (h parentPtr).balance = .even then some (h.setBalance parentPtr s.other.heavy, false)
  else otherShorter s.other h parentPtr

/-- The loop of `removeItem`: the way up, while the subtree is shorter. -/
def removeClimb : Nat → Heap ι → Addr ι → Side → Option (Heap ι)
  | 0, _, _, _ => none
  | fuel + 1, h, parentPtr, side =>
    if (h parentPtr).isNotRoot then do
      let nxtPtr ← (h parentPtr).parent
      let nextSide := if (h nxtPtr).left = some parentPtr then Side.left else .right
      let (h, shorter) ← removeBalance side h parentPtr
      if shorter then removeClimb fuel h nxtPtr nextSide else return h
    else some h

/-- The second half of `removeItem`, over a node that has at most one child. -/
def removeNode (h : Heap ι) (node : ι) : Option (Heap ι × Bool) := do
  let parentPtr ← (h (.item node)).parent
  let childPtr := if (h (.item node)).left ≠ none then (h (.item node)).left
    else if (h (.item node)).right ≠ none then (h (.item node)).right
    else none
  let side := if (h parentPtr).left = some (.item node) then Side.left else .right
  let h := h.setChild side parentPtr childPtr
  let h := h.setParent? childPtr parentPtr
  let h ← removeClimb fuel h parentPtr side
  let h := h.initialized (.item node) none
  let h := h.remove_ (.item node)
  return (h, true)

/-- `removeItem`; the flag tells whether the node is returned. -/
def removeItem (h : Heap ι) (node : ι) : Option (Heap ι × Bool) :=
  if (h (.item node)).inList then do
    let h ← if (h (.item node)).left ≠ none ∧ (h (.item node)).right ≠ none
      then exchangeWithPrev fuel h (.item node) else some h
    removeNode fuel h node
  else some (h, false)

/-- An empty tree, and items in no container. -/
def empty : Heap ι where
  node
    | .root => { MapItem.detached with isNotRoot := false }
    | .item _ => MapItem.detached

end Heap

end ColonyCore.Container
