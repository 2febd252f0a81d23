/-
  ColonyCore.Container.LinkedLists
  **THE LINKS OF `SList.h`, `DList.h` AND `Item.cpp`.**

  An item carries `m_nextPtr_`, `m_prevPtr_` and the owner mark `m_inListPtr_`; a list
  object is a head and a tail pointer.  Every operation is the pointer code of the source:

    • a dereference of a null pointer is `none`,
    • a loop takes fuel, one unit a round,
    • a removed item KEEPS its links; only the owner mark is cleared.

  A double insert is reported through `FatalError` and `insert_` returns false; the
  caller then does nothing.
-/
import ColonyCore.Lib.LinkedSeq
import ColonyCore.Container.ListSpec

namespace ColonyCore.Container

open Function

/-- The link fields of the items `ι` and the end pointers of the lists `κ`. -/
structure LinkMemory (ι κ : Type) where
  nextPtr : ι → Option ι
  prevPtr : ι → Option ι
  inListPtr : ι → Option κ
  headPtr : κ → Option ι
  tailPtr : κ → Option ι

namespace LinkMemory

variable {ι κ : Type}

/-- Constructed items and lists: all pointers are null. -/
def constructed : LinkMemory ι κ where
  nextPtr _ := none
  prevPtr _ := none
  inListPtr _ := none
  headPtr _ := none
  tailPtr _ := none

variable (m : LinkMemory ι κ)

/-- `first()`, also `head()` and `top()`. -/
def first (l : κ) : Option ι := m.headPtr l

/-- `last()`, also `tail()`. -/
def last (l : κ) : Option ι := m.tailPtr l

/-- `next( item )`. -/
def next (item : ι) : Option ι := m.nextPtr item

/-- `previous( item )` of a `DList`. -/
def previous (item : ι) : Option ι := m.prevPtr item

variable [DecidableEq ι] [DecidableEq κ]

@[simp] def setNext (x : ι) (p : Option ι) : LinkMemory ι κ :=
  { m with nextPtr := update m.nextPtr x p }

@[simp] def setPrev (x : ι) (p : Option ι) : LinkMemory ι κ :=
  { m with prevPtr := update m.prevPtr x p }

@[simp] def setInList (x : ι) (l : Option κ) : LinkMemory ι κ :=
  { m with inListPtr := update m.inListPtr x l }

@[simp] def setHead (l : κ) (p : Option ι) : LinkMemory ι κ :=
  { m with headPtr := update m.headPtr l p }

@[simp] def setTail (l : κ) (p : Option ι) : LinkMemory ι κ :=
  { m with tailPtr := update m.tailPtr l p }

end LinkMemory

/-! ## §1. `Item`. -/

namespace Item

variable {ι κ : Type} [DecidableEq ι] [DecidableEq κ]

/-- `Item::insert_`: false is the double insert. -/
def insert_ (m : LinkMemory ι κ) (item : ι) (newContainer : κ) : Bool × LinkMemory ι κ :=
  match m.inListPtr item with
  | some _ => (false, m)
  | none => (true, m.setInList item (some newContainer))

/-- `Item::isInContainer_`. -/
def isInContainer_ (m : LinkMemory ι κ) (item : ι) (container : κ) : Bool :=
  decide (m.inListPtr item = some container)

/-- `Item::remove_`: the null pointer is allowed. -/
def remove_ (m : LinkMemory ι κ) : Option ι → LinkMemory ι κ
  | some item => m.setInList item none
  | none => m

end Item

/-- `find( item )`. -/
def LinkMemory.find {ι κ : Type} [DecidableEq κ] (m : LinkMemory ι κ) (l : κ) (item : ι) : Bool :=
  Item.isInContainer_ m item l

/-! ## §2. What both kinds of lists have in common. -/

section Common

variable {ι κ : Type}

/-- `while ( get() ) ;` -/
def drainLoop (get : LinkMemory ι κ → Option ι × LinkMemory ι κ) :
    Nat → LinkMemory ι κ → Option (LinkMemory ι κ)
  | 0, _ => none
  | fuel + 1, m =>
    match get m with
    | (none, m) => some m
    | (some _, m) => drainLoop get fuel m

/-- `while ( (nextPtr=get()) ) dst.put( *nextPtr );` -/
def moveLoop (get : LinkMemory ι κ → Option ι × LinkMemory ι κ)
    (put : LinkMemory ι κ → ι → Option (LinkMemory ι κ)) :
    Nat → LinkMemory ι κ → Option (LinkMemory ι κ)
  | 0, _ => none
  | fuel + 1, m =>
    match get m with
    | (none, m) => some m
    | (some x, m) => (put m x).bind (moveLoop get put fuel)

end Common

/-! ## §3. `SList`. -/

namespace SList

variable {ι κ : Type} [DecidableEq ι]

/-- The search loop of `remove` and `insertBefore`: the item before `target`, or `none` if
    the list ends without it. -/
def locate (m : LinkMemory ι κ) (target : ι) :
    Nat → Option ι → Option ι → Option (Option (Option ι))
  | _, none, _ => some none
  | 0, some _, _ => none
  | fuel + 1, some nxt, prv =>
    if nxt = target then some (some prv)
    else locate m target fuel (m.next nxt) (some nxt)

variable [DecidableEq κ]

/-- `SList::get`. -/
def get (m : LinkMemory ι κ) (l : κ) : Option ι × LinkMemory ι κ :=
  match m.headPtr l with
  | some x =>
    let m := m.setHead l (m.nextPtr x)
    let m := match m.headPtr l with
      | none => m.setTail l none
      | some _ => m
    (some x, Item.remove_ m (some x))
  | none => (none, Item.remove_ m none)

/-- `SList::put`, also `putLast`. -/
def put (m : LinkMemory ι κ) (l : κ) (item : ι) : Option (LinkMemory ι κ) :=
  match Item.insert_ m item l with
  | (false, m) => some m
  | (true, m) =>
    let linked := match m.headPtr l with
      | some _ => (m.tailPtr l).map fun tail => m.setNext tail (some item)
      | none => some (m.setHead l (some item))
    linked.map fun m => (m.setNext item none).setTail l (some item)

/-- `SList::putFirst`, also `push`. -/
def putFirst (m : LinkMemory ι κ) (l : κ) (item : ι) : LinkMemory ι κ :=
  match Item.insert_ m item l with
  | (false, m) => m
  | (true, m) =>
    match m.headPtr l with
    | some head => (m.setNext item (some head)).setHead l (some item)
    | none => ((m.setTail l (some item)).setHead l (some item)).setNext item none

variable (fuel : Nat)

/-- `SList::remove`. -/
def remove (m : LinkMemory ι κ) (l : κ) (item : ι) :
    Option (Bool × LinkMemory ι κ) :=
  if Item.isInContainer_ m item l then
    (locate m item fuel (m.first l) none).map fun
      | none => (false, m)
      | some prv =>
        let nxt := m.nextPtr item
        let m := match prv with
          | some p =>
            let m := m.setNext p nxt
            match nxt with
            | none => m.setTail l (some p)
            | some _ => m
          | none =>
            let m := m.setHead l nxt
            match nxt with
            | none => m.setTail l none
            | some _ => m
        (true, Item.remove_ m (some item))
  else some (false, m)

/-- `SList::getLast`. -/
def getLast (m : LinkMemory ι κ) (l : κ) : Option (Option ι × LinkMemory ι κ) :=
  match m.tailPtr l with
  | some x => (remove fuel m l x).map fun r => (some x, r.2)
  | none => some (none, m)

/-- `SList::insertAfter`. -/
def insertAfter (m : LinkMemory ι κ) (l : κ) (after item : ι) : LinkMemory ι κ :=
  match Item.insert_ m item l with
  | (false, m) => m
  | (true, m) =>
    let m := m.setNext item (m.nextPtr after)
    let m := match m.nextPtr item with
      | none => m.setTail l (some item)
      | some _ => m
    m.setNext after (some item)

/-- `SList::insertBefore`: an item that is not found leaves only the owner mark behind. -/
def insertBefore (m : LinkMemory ι κ) (l : κ) (before item : ι) :
    Option (LinkMemory ι κ) :=
  match Item.insert_ m item l with
  | (false, m) => some m
  | (true, m) =>
    (locate m before fuel (m.first l) none).map fun
      | none => m
      | some prv =>
        let m := m.setNext item (some before)
        match prv with
        | some p => m.setNext p (some item)
        | none => m.setHead l (some item)

/-- `SList::clearTheList`. -/
def clearTheList (m : LinkMemory ι κ) (l : κ) : Option (LinkMemory ι κ) :=
  drainLoop (get · l) fuel m

/-- `SList::move`. -/
def move (m : LinkMemory ι κ) (src dst : κ) : Option (LinkMemory ι κ) :=
  (clearTheList fuel m dst).bind (moveLoop (get · src) (put · dst) fuel)

end SList

/-! ## §4. `DList`. -/

namespace DList

variable {ι κ : Type} [DecidableEq ι] [DecidableEq κ]

/-- `DList::remove`. -/
def remove (m : LinkMemory ι κ) (l : κ) (item : ι) : Bool × LinkMemory ι κ :=
  if Item.isInContainer_ m item l then
    let nxt := m.nextPtr item
    let m := match m.prevPtr item with
      | some p =>
        let m := m.setNext p nxt
        match nxt with
        | none => m.setTail l (some p) -- Case: Remove tail object
        | some n => m.setPrev n (some p) -- Case: Remove intermediate object
      | none =>
        let m := m.setHead l nxt
        match nxt with
        | none => m.setTail l none -- Case: Remove last object
        | some n => m.setPrev n none -- Case: Remove Head object
    (true, Item.remove_ m (some item))
  else (false, m)

/-- `DList::get`, also `getFirst` and `pop`. -/
def get (m : LinkMemory ι κ) (l : κ) : Option ι × LinkMemory ι κ :=
  match m.headPtr l with
  | some x => (some x, (remove m l x).2)
  | none => (none, m)

/-- `DList::getLast`. -/
def getLast (m : LinkMemory ι κ) (l : κ) : Option ι × LinkMemory ι κ :=
  match m.tailPtr l with
  | some x => (some x, (remove m l x).2)
  | none => (none, m)

/-- `DList::putFirst`, also `push`. -/
def putFirst (m : LinkMemory ι κ) (l : κ) (item : ι) : LinkMemory ι κ :=
  match Item.insert_ m item l with
  | (false, m) => m
  | (true, m) =>
    let m := match m.headPtr l with
      | some head => ((m.setNext item (some head)).setPrev head (some item)).setHead l (some item)
      | none => ((m.setTail l (some item)).setHead l (some item)).setNext item none
    m.setPrev item none

/-- `DList::put`, also `putLast`. -/
def put (m : LinkMemory ι κ) (l : κ) (item : ι) : Option (LinkMemory ι κ) :=
  match Item.insert_ m item l with
  | (false, m) => some m
  | (true, m) =>
    let linked := match m.headPtr l with
      | some _ =>
        (m.tailPtr l).map fun tail => (m.setNext tail (some item)).setPrev item (some tail)
      | none => some ((m.setHead l (some item)).setPrev item none)
    linked.map fun m => (m.setNext item none).setTail l (some item)

/-- `DList::insertAfter`. -/
def insertAfter (m : LinkMemory ι κ) (l : κ) (after item : ι) : LinkMemory ι κ :=
  match Item.insert_ m item l with
  | (false, m) => m
  | (true, m) =>
    let nxt := m.nextPtr after
    let m := ((m.setNext item nxt).setPrev item (some after)).setNext after (some item)
    match nxt with
    | none => m.setTail l (some item)
    | some n => m.setPrev n (some item)

/-- `DList::insertBefore`. -/
def insertBefore (m : LinkMemory ι κ) (l : κ) (before item : ι) : LinkMemory ι κ :=
  match Item.insert_ m item l with
  | (false, m) => m
  | (true, m) =>
    let prv := m.prevPtr before
    let m := ((m.setPrev item prv).setNext item (some before)).setPrev before (some item)
    match prv with
    | none => m.setHead l (some item)
    | some p => m.setNext p (some item)

/-- `DList::clearTheList`. -/
def clearTheList (fuel : Nat) (m : LinkMemory ι κ) (l : κ) : Option (LinkMemory ι κ) :=
  drainLoop (get · l) fuel m

/-- `DList::move`. -/
def move (fuel : Nat) (m : LinkMemory ι κ) (src dst : κ) : Option (LinkMemory ι κ) :=
  (clearTheList fuel m dst).bind (moveLoop (get · src) (put · dst) fuel)

end DList

/-! ## §5. Calls. -/

namespace LinkMemory

variable {σ δ ι : Type} [DecidableEq σ] [DecidableEq δ] [DecidableEq ι]

/-- The call of a `void` function. -/
def void (m : LinkMemory ι (ListAddr σ δ)) :
    ListAnswer ι × LinkMemory ι (ListAddr σ δ) := (.void, m)

def flag (r : Bool × LinkMemory ι (ListAddr σ δ)) :
    ListAnswer ι × LinkMemory ι (ListAddr σ δ) := (.flag r.1, r.2)

def item (r : Option ι × LinkMemory ι (ListAddr σ δ)) :
    ListAnswer ι × LinkMemory ι (ListAddr σ δ) := (.item r.1, r.2)

/-- **One call**, on the code of the list's own kind. -/
def call (fuel : Nat) (m : LinkMemory ι (ListAddr σ δ)) :
    ListOp σ δ ι → Option (ListAnswer ι × LinkMemory ι (ListAddr σ δ))
  | .put (.slist l) x => (SList.put m (.slist l) x).map void
  | .put (.dlist l) x => (DList.put m (.dlist l) x).map void
  | .putFirst (.slist l) x => some (void (SList.putFirst m (.slist l) x))
  | .putFirst (.dlist l) x => some (void (DList.putFirst m (.dlist l) x))
  | .insertBefore (.slist l) r x => (SList.insertBefore fuel m (.slist l) r x).map void
  | .insertBefore (.dlist l) r x => some (void (DList.insertBefore m (.dlist l) r x))
  | .insertAfter (.slist l) r x => some (void (SList.insertAfter m (.slist l) r x))
  | .insertAfter (.dlist l) r x => some (void (DList.insertAfter m (.dlist l) r x))
  | .remove (.slist l) x => (SList.remove fuel m (.slist l) x).map flag
  | .remove (.dlist l) x => some (flag (DList.remove m (.dlist l) x))
  | .get (.slist l) => some (item (SList.get m (.slist l)))
  | .get (.dlist l) => some (item (DList.get m (.dlist l)))
  | .getLast (.slist l) => (SList.getLast fuel m (.slist l)).map item
  | .getLast (.dlist l) => some (item (DList.getLast m (.dlist l)))
  | .moveSList src dst => (SList.move fuel m (.slist src) (.slist dst)).map void
  | .moveDList src dst => (DList.move fuel m (.dlist src) (.dlist dst)).map void
  | .clearTheList (.slist l) => (SList.clearTheList fuel m (.slist l)).map void
  | .clearTheList (.dlist l) => (DList.clearTheList fuel m (.dlist l)).map void

/-- A sequence of calls: the answers and the memory at the end. -/
def run (fuel : Nat) (m : LinkMemory ι (ListAddr σ δ)) :
    List (ListOp σ δ ι) → Option (List (ListAnswer ι) × LinkMemory ι (ListAddr σ δ))
  | [] => some ([], m)
  | op :: ops =>
    (m.call fuel op).bind fun r => (r.2.run fuel ops).map fun t => (r.1 :: t.1, t.2)

end LinkMemory

end ColonyCore.Container
