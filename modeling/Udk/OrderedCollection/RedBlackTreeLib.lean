import Udk.RedBlackTree

/-!
# BaseOrderedCollectionRedBlackTreeLib

The ordered collection as the library keeps it: nodes in memory that link to their
parent and children.  Reading or writing through a pointer that is `NULL` or was
released is a fault, and so are a failed `ASSERT` and a loop that runs out of fuel.

The source writes every loop body twice, once for each mirror image.  Here the body
is written for a `Side`; the branch that the source takes for a left child is the
one for `Side.left`.
-/

namespace Udk
namespace OrderedCollection

open RedBlack

/-- Address of a node. -/
abbrev NodeId := Nat

/-- A node pointer; `none` is `NULL`. -/
abbrev Ptr := Option NodeId

/-- `RED_BLACK_TREE_NODE`. -/
structure Node (α : Type) where
  userStruct : α
  parent : Ptr
  left : Ptr
  right : Ptr
  color : Color
deriving DecidableEq

namespace Node

variable {α : Type}

def child (s : Side) (node : Node α) : Ptr :=
  match s with
  | .left => node.left
  | .right => node.right

def setChild (s : Side) (p : Ptr) (node : Node α) : Node α :=
  match s with
  | .left => { node with left := p }
  | .right => { node with right := p }

/-- The branch taken for a child: the left one if it is the left child. -/
def sideOf (p : Ptr) (node : Node α) : Side :=
  if p == node.left then .left else .right

def setParent (p : Ptr) (node : Node α) : Node α :=
  { node with parent := p }

def setColor (c : Color) (node : Node α) : Node α :=
  { node with color := c }

end Node

/-- The nodes in memory. -/
abbrev Heap (α : Type) := NodeId → Option (Node α)

inductive Fault where
  | nullPointer
  | dangling
  | assertFailed
  | outOfFuel
deriving DecidableEq

/-- `ASSERT`. -/
def assert (condition : Bool) : Except Fault Unit :=
  if condition then .ok () else .error .assertFailed

namespace Heap

variable {α : Type}

/-- The node behind a pointer. -/
def deref (h : Heap α) : Ptr → Except Fault (Node α)
  | none => .error .nullPointer
  | some i =>
      match h i with
      | none => .error .dangling
      | some node => .ok node

/-- Change a field of the node behind a pointer. -/
def store (h : Heap α) (p : Ptr) (f : Node α → Node α) : Except Fault (Heap α) :=
  match p with
  | none => .error .nullPointer
  | some i =>
      match h i with
      | none => .error .dangling
      | some node => .ok (Function.update h i (some (f node)))

/-- `FreePool`. -/
def free (h : Heap α) : Ptr → Except Fault (Heap α)
  | none => .error .nullPointer
  | some i =>
      match h i with
      | none => .error .dangling
      | some _ => .ok (Function.update h i none)

end Heap

/-- `RED_BLACK_TREE`. -/
structure Collection (α : Type) (κ : Type) where
  root : Ptr
  userStructCompare : α → α → Int
  keyCompare : κ → α → Int

/-- `RETURN_STATUS` of an insertion. -/
inductive ReturnStatus where
  | success
  | outOfResources
  | alreadyStarted
deriving DecidableEq

variable {α : Type} {κ : Type}

section Walk

variable (h : Heap α)

/-- `NodeIsNullOrBlack`. -/
def nodeIsNullOrBlack (p : Ptr) : Except Fault Bool :=
  match p with
  | none => .ok true
  | some _ => do
      let node ← h.deref p
      return node.color == .black

/-- The loop of `OrderedCollectionFind`; `examined` counts the nodes compared with the key. -/
def findLoop (h : Heap α) (keyCompare : κ → α → Int) (standaloneKey : κ) :
    Nat → Ptr → Nat → Except Fault (Ptr × Nat)
  | 0, _, _ => .error .outOfFuel
  | _ + 1, none, examined => .ok (none, examined)
  | fuel + 1, some i, examined => do
      let node ← h.deref (some i)
      let result := keyCompare standaloneKey node.userStruct
      if result = 0 then return (some i, examined + 1)
      else
        findLoop h keyCompare standaloneKey fuel
          (if result < 0 then node.left else node.right) (examined + 1)

/-- `OrderedCollectionFind`, with the number of nodes it examines. -/
def orderedCollectionFind (fuel : Nat) (tree : Collection α κ) (standaloneKey : κ) :
    Except Fault (Ptr × Nat) :=
  findLoop h tree.keyCompare standaloneKey fuel tree.root 0

/-- Follow the links of one side to their end. -/
def descend (h : Heap α) (s : Side) : Nat → Ptr → Except Fault Ptr
  | 0, _ => .error .outOfFuel
  | fuel + 1, walk => do
      let node ← h.deref walk
      if (node.child s).isNone then return walk
      else descend h s fuel (node.child s)

/-- Ascend as long as we are our parent's child on side `s`. -/
def ascend (h : Heap α) (s : Side) : Nat → Ptr → Ptr → Except Fault Ptr
  | 0, _, _ => .error .outOfFuel
  | _ + 1, _, none => .ok none
  | fuel + 1, child, walk => do
      let node ← h.deref walk
      if child == node.child s then ascend h s fuel walk node.parent
      else return walk

/-- The node next to a node, on side `s`. -/
def neighbour (s : Side) (fuel : Nat) (p : Ptr) : Except Fault Ptr :=
  match p with
  | none => .ok none
  | some _ => do
      let node ← h.deref p
      if (node.child s).isSome then descend h s.other fuel (node.child s)
      else ascend h s fuel p node.parent

/-- `OrderedCollectionNext`. -/
def orderedCollectionNext (fuel : Nat) (node : Ptr) : Except Fault Ptr :=
  neighbour h .right fuel node

/-- `OrderedCollectionPrev`. -/
def orderedCollectionPrev (fuel : Nat) (node : Ptr) : Except Fault Ptr :=
  neighbour h .left fuel node

/-- The outermost node on side `s`. -/
def outermost (s : Side) (fuel : Nat) (tree : Collection α κ) : Except Fault Ptr :=
  if tree.root.isNone then .ok none
  else descend h s fuel tree.root

/-- `OrderedCollectionMin`. -/
def orderedCollectionMin (fuel : Nat) (tree : Collection α κ) : Except Fault Ptr :=
  outermost h .left fuel tree

/-- `OrderedCollectionMax`. -/
def orderedCollectionMax (fuel : Nat) (tree : Collection α κ) : Except Fault Ptr :=
  outermost h .right fuel tree

end Walk

section Validate

variable (h : Heap α)

/-- `RedBlackTreeRecursiveCheck`. -/
def redBlackTreeRecursiveCheck : Nat → Ptr → Except Fault UInt32
  | 0, _ => .error .outOfFuel
  | _ + 1, none => .ok 1
  | fuel + 1, some i => do
      let node ← h.deref (some i)
      if node.color == .red then
        assert (← nodeIsNullOrBlack h node.left)
        assert (← nodeIsNullOrBlack h node.right)
      let leftHeight ← redBlackTreeRecursiveCheck fuel node.left
      let rightHeight ← redBlackTreeRecursiveCheck fuel node.right
      assert (leftHeight == rightHeight)
      return (if node.color == .black then 1 else 0) + leftHeight

/-- One of the two loops of `RedBlackTreeValidate` that check the order; `inOrder` is
the condition on the result of a comparison. -/
def checkOrder (s : Side) (walkFuel : Nat) (compare : α → α → Int) (inOrder : Int → Bool) :
    Nat → Ptr → UInt32 → Except Fault UInt32
  | 0, _, _ => .error .outOfFuel
  | fuel + 1, last, count => do
      let node ← neighbour h s walkFuel last
      if node.isNone then return count
      else
        let result := compare (← h.deref last).userStruct (← h.deref node).userStruct
        assert (inOrder result)
        checkOrder s walkFuel compare inOrder fuel node (count + 1)

/-- `RedBlackTreeValidate`. -/
def redBlackTreeValidate (fuel : Nat) (tree : Collection α κ) : Except Fault Unit := do
  assert (← nodeIsNullOrBlack h tree.root)
  let _ ← redBlackTreeRecursiveCheck h fuel tree.root
  let first ← orderedCollectionMin h fuel tree
  let forwardCount ← checkOrder h .right fuel tree.userStructCompare (fun result => result < 0)
    fuel first (if first.isSome then 1 else 0)
  let last ← orderedCollectionMax h fuel tree
  let backwardCount ← checkOrder h .left fuel tree.userStructCompare (fun result => 0 < result)
    fuel last (if last.isSome then 1 else 0)
  assert (forwardCount == backwardCount)

/-- `OrderedCollectionInit`; `allocated` says whether the allocation succeeds. -/
def orderedCollectionInit (pcdValidateOrderedCollection : Bool) (fuel : Nat) (allocated : Bool)
    (userStructCompare : α → α → Int) (keyCompare : κ → α → Int) :
    Except Fault (Option (Collection α κ)) := do
  if allocated then
    let tree : Collection α κ := ⟨none, userStructCompare, keyCompare⟩
    if pcdValidateOrderedCollection then
      redBlackTreeValidate h fuel tree
    return some tree
  else return none

end Validate

section Rotate

/-- Let the parent of `old`, or the root pointer when there is none, point to `new`. -/
def replaceChild (h : Heap α) (parent old new newRoot : Ptr) : Except Fault (Heap α × Ptr) :=
  match parent with
  | none => .ok (h, new)
  | some _ => do
      let node ← h.deref parent
      let h ← h.store parent (Node.setChild (node.sideOf old) new)
      return (h, newRoot)

/-- `child->Parent = parent`, for a child that is not `NULL`. -/
def adopt (h : Heap α) (child parent : Ptr) : Except Fault (Heap α) :=
  if child.isSome then h.store child (Node.setParent parent) else .ok h

/-- Rotate around `pivot` towards side `s`. -/
def rotate (s : Side) (h : Heap α) (pivot newRoot : Ptr) : Except Fault (Heap α × Ptr) := do
  let node ← h.deref pivot
  let parent := node.parent
  let child := node.child s.other
  let grandChild := (← h.deref child).child s
  let h ← h.store pivot (Node.setChild s.other grandChild)
  let h ← adopt h grandChild pivot
  let h ← h.store child (Node.setParent parent)
  let (h, newRoot) ← replaceChild h parent pivot child newRoot
  let h ← h.store child (Node.setChild s pivot)
  let h ← h.store pivot (Node.setParent child)
  return (h, newRoot)

/-- `RedBlackTreeRotateRight`. -/
def redBlackTreeRotateRight (h : Heap α) (pivot newRoot : Ptr) : Except Fault (Heap α × Ptr) :=
  rotate .right h pivot newRoot

/-- `RedBlackTreeRotateLeft`. -/
def redBlackTreeRotateLeft (h : Heap α) (pivot newRoot : Ptr) : Except Fault (Heap α × Ptr) :=
  rotate .left h pivot newRoot

end Rotate

section Insert

/-- Look for a collision, with the last node examined and the last comparison. -/
def findCollision (h : Heap α) (compare : α → α → Int) (userStruct : α) :
    Nat → Ptr → Ptr → Int → Except Fault (Ptr × Ptr × Int)
  | 0, _, _, _ => .error .outOfFuel
  | _ + 1, none, parent, result => .ok (none, parent, result)
  | fuel + 1, some i, parent, _ => do
      let node ← h.deref (some i)
      let result := compare userStruct node.userStruct
      if result = 0 then return (some i, parent, result)
      else
        findCollision h compare userStruct fuel
          (if result < 0 then node.left else node.right) (some i) result

/-- Make the node of a child on the inner side the outer one, by a rotation around its
parent.  The result is the new pair of node and parent. -/
def straighten (s : Side) (h : Heap α) (tmp parent grandParent newRoot : Ptr) :
    Except Fault (Heap α × Ptr × Ptr × Ptr) := do
  if tmp == (← h.deref parent).child s.other then
    let (h, newRoot) ← rotate s h parent newRoot
    let newParent := (← h.deref parent).parent
    assert (grandParent == (← h.deref newParent).parent)
    return (h, parent, newParent, newRoot)
  else return (h, tmp, parent, newRoot)

/-- The loop of an insertion that restores property #3. -/
def insertLoop : Nat → Heap α → Ptr → Ptr → Ptr → Except Fault (Heap α × Ptr)
  | 0, _, _, _, _ => .error .outOfFuel
  | fuel + 1, h, tmp, parent, newRoot => do
      if tmp == newRoot then return (h, newRoot)
      else if (← h.deref parent).color != .red then return (h, newRoot)
      else
        let grandParent := (← h.deref parent).parent
        let grandParentNode ← h.deref grandParent
        let s := grandParentNode.sideOf parent
        let uncle := grandParentNode.child s.other
        if !(← nodeIsNullOrBlack h uncle) then
          let h ← h.store parent (Node.setColor .black)
          let h ← h.store uncle (Node.setColor .black)
          let h ← h.store grandParent (Node.setColor .red)
          insertLoop fuel h grandParent (← h.deref grandParent).parent newRoot
        else
          let (h, tmp, parent, newRoot) ← straighten s h tmp parent grandParent newRoot
          let h ← h.store parent (Node.setColor .black)
          let h ← h.store grandParent (Node.setColor .red)
          let (h, newRoot) ← rotate s.other h grandParent newRoot
          insertLoop fuel h tmp parent newRoot

/-- Link a new node at `tmp` and restore the tree; the result is the new root. -/
def linkNode (fuel : Nat) (h : Heap α) (root : Ptr) (tmp : NodeId) (parent : Ptr) (result : Int)
    (userStruct : α) : Except Fault (Heap α × Ptr) :=
  match parent with
  | none =>
      .ok (Function.update h tmp (some ⟨userStruct, none, none, none, .black⟩), some tmp)
  | some _ => do
      let h : Heap α := Function.update h tmp (some ⟨userStruct, parent, none, none, .red⟩)
      let h ← h.store parent
        (Node.setChild (if result < 0 then .left else .right) (some tmp))
      let (h, newRoot) ← insertLoop fuel h (some tmp) parent root
      let h ← h.store newRoot (Node.setColor .black)
      return (h, newRoot)

/-- What an insertion returns: the status, the node reported back and the collection. -/
structure InsertResult (α : Type) (κ : Type) where
  status : ReturnStatus
  node : Ptr
  heap : Heap α
  tree : Collection α κ

/-- `OrderedCollectionInsert` once the place is found, up to its label `Done`. -/
def insertAt (fuel : Nat) (allocatePool : Ptr) (h : Heap α) (tree : Collection α κ)
    (userStruct : α) (tmp parent : Ptr) (result : Int) : Except Fault (InsertResult α κ) :=
  if tmp.isSome then .ok ⟨.alreadyStarted, tmp, h, tree⟩
  else
    match allocatePool with
    | none => .ok ⟨.outOfResources, none, h, tree⟩
    | some tmp => do
        let (h, newRoot) ← linkNode fuel h tree.root tmp parent result userStruct
        return ⟨.success, some tmp, h, { tree with root := newRoot }⟩

/-- `OrderedCollectionInsert`; `allocatePool` is what the allocation returns. -/
def orderedCollectionInsert (pcdValidateOrderedCollection : Bool) (fuel : Nat)
    (allocatePool : Ptr) (h : Heap α) (tree : Collection α κ) (userStruct : α) :
    Except Fault (InsertResult α κ) := do
  let (tmp, parent, result) ←
    findCollision h tree.userStructCompare userStruct fuel tree.root none 0
  let done ← insertAt fuel allocatePool h tree userStruct tmp parent result
  if pcdValidateOrderedCollection then
    redBlackTreeValidate done.heap fuel done.tree
  return done

end Insert

section Delete

/-- A tree without the unlinked node: its root, the unique child of the unlinked node,
the position of that node's parent, and its color. -/
structure Unlinked (α : Type) where
  heap : Heap α
  newRoot : Ptr
  child : Ptr
  parent : Ptr
  colorOfUnlinked : Color

/-- Unlink a node that has at most one child. -/
def unlinkNode (h : Heap α) (root p : Ptr) (node : Node α) : Except Fault (Unlinked α) := do
  let child := if node.left.isSome then node.left else node.right
  let h ← adopt h child node.parent
  let (h, newRoot) ← replaceChild h node.parent p child root
  return ⟨h, newRoot, child, node.parent, node.color⟩

/-- Unlink the successor of a node with two children: the successor, its child and its
parent. -/
def unlinkSuccessor (fuel : Nat) (h : Heap α) (origRightChild : Ptr) :
    Except Fault (Heap α × Ptr × Ptr × Ptr) := do
  let right ← h.deref origRightChild
  if right.left.isNone then return (h, origRightChild, right.right, origRightChild)
  else
    let toRelink ← descend h .left fuel right.left
    let relink ← h.deref toRelink
    let parent := relink.parent
    let child := relink.right
    let h ← h.store parent (Node.setChild .left child)
    let h ← adopt h child parent
    let h ← h.store toRelink (Node.setChild .right origRightChild)
    let h ← h.store origRightChild (Node.setParent toRelink)
    return (h, toRelink, child, parent)

/-- Put the successor of a node with two children into its place. -/
def relinkSuccessor (fuel : Nat) (h : Heap α) (root p : Ptr) (node : Node α) :
    Except Fault (Unlinked α) := do
  let (h, toRelink, child, parent) ← unlinkSuccessor fuel h node.right
  let h ← h.store toRelink (Node.setChild .left node.left)
  let h ← h.store node.left (Node.setParent toRelink)
  let colorOfUnlinked := (← h.deref toRelink).color
  let h ← h.store toRelink (Node.setColor (← h.deref p).color)
  let h ← h.store toRelink (Node.setParent node.parent)
  let (h, newRoot) ← replaceChild h node.parent p toRelink root
  return ⟨h, newRoot, child, parent, colorOfUnlinked⟩

/-- Make the sibling black, by a rotation around the parent. -/
def blackenSibling (s : Side) (h : Heap α) (parent sibling newRoot : Ptr) :
    Except Fault (Heap α × Ptr × Ptr) := do
  if (← h.deref sibling).color == .red then
    let h ← h.store sibling (Node.setColor .black)
    let h ← h.store parent (Node.setColor .red)
    let (h, newRoot) ← rotate s h parent newRoot
    let sibling := (← h.deref parent).child s.other
    assert sibling.isSome
    return (h, sibling, newRoot)
  else return (h, sibling, newRoot)

/-- Make the outer nephew red, by a rotation around the sibling. -/
def reddenNephew (s : Side) (h : Heap α) (parent sibling near far newRoot : Ptr) :
    Except Fault (Heap α × Ptr × Ptr × Ptr) := do
  if ← nodeIsNullOrBlack h far then
    let h ← h.store near (Node.setColor .black)
    let h ← h.store sibling (Node.setColor .red)
    let (h, newRoot) ← rotate s.other h sibling newRoot
    let sibling := (← h.deref parent).child s.other
    let far := (← h.deref sibling).child s.other
    return (h, sibling, far, newRoot)
  else return (h, sibling, far, newRoot)

/-- The rest of a round, with a black sibling: the next child, its parent and the root. -/
def settle (s : Side) (h : Heap α) (parent sibling newRoot : Ptr) :
    Except Fault (Heap α × Ptr × Ptr × Ptr) := do
  let siblingNode ← h.deref sibling
  assert (siblingNode.color == .black)
  let near := siblingNode.child s
  let far := siblingNode.child s.other
  let nearBlack ← nodeIsNullOrBlack h near
  let bothBlack ← (if nearBlack then nodeIsNullOrBlack h far else .ok false)
  if bothBlack then
    let h ← h.store sibling (Node.setColor .red)
    return (h, parent, (← h.deref parent).parent, newRoot)
  else
    let (h, sibling, far, newRoot) ← reddenNephew s h parent sibling near far newRoot
    assert far.isSome
    assert ((← h.deref far).color == .red)
    assert sibling.isSome
    assert ((← h.deref sibling).color == .black)
    let h ← h.store sibling (Node.setColor (← h.deref parent).color)
    let h ← h.store parent (Node.setColor .black)
    let h ← h.store far (Node.setColor .black)
    let (h, newRoot) ← rotate s h parent newRoot
    return (h, newRoot, parent, newRoot)

/-- One round of the loop of a deletion. -/
def deleteRound (h : Heap α) (child parent newRoot : Ptr) :
    Except Fault (Heap α × Ptr × Ptr × Ptr) := do
  let parentNode ← h.deref parent
  let s := parentNode.sideOf child
  let sibling := parentNode.child s.other
  assert sibling.isSome
  let (h, sibling, newRoot) ← blackenSibling s h parent sibling newRoot
  settle s h parent sibling newRoot

/-- The loop of a deletion that carries the surplus black up; the last child and the root. -/
def deleteLoop : Nat → Heap α → Ptr → Ptr → Ptr → Except Fault (Heap α × Ptr × Ptr)
  | 0, _, _, _, _ => .error .outOfFuel
  | fuel + 1, h, child, parent, newRoot => do
      if child == newRoot then return (h, child, newRoot)
      else if !(← nodeIsNullOrBlack h child) then return (h, child, newRoot)
      else
        let (h, child, parent, newRoot) ← deleteRound h child parent newRoot
        deleteLoop fuel h child parent newRoot

/-- Repair the tree once a node of the given color is unlinked. -/
def repair (fuel : Nat) (h : Heap α) (u : Unlinked α) : Except Fault (Heap α × Ptr) :=
  if u.colorOfUnlinked == .black then do
    let (h, child, newRoot) ← deleteLoop fuel h u.child u.parent u.newRoot
    let h ← (if child.isSome then h.store child (Node.setColor .black) else .ok h)
    return (h, newRoot)
  else .ok (h, u.newRoot)

/-- What a deletion returns: the user structure of the node and the collection. -/
structure DeleteResult (α : Type) (κ : Type) where
  userStruct : α
  heap : Heap α
  tree : Collection α κ

/-- `OrderedCollectionDelete`. -/
def orderedCollectionDelete (pcdValidateOrderedCollection : Bool) (fuel : Nat) (h : Heap α)
    (tree : Collection α κ) (p : Ptr) : Except Fault (DeleteResult α κ) := do
  let node ← h.deref p
  let unlinked ←
    (if node.left.isNone || node.right.isNone then unlinkNode h tree.root p node
    else relinkSuccessor fuel h tree.root p node)
  let h ← unlinked.heap.free p
  let (h, newRoot) ← repair fuel h unlinked
  let tree := { tree with root := newRoot }
  if pcdValidateOrderedCollection then
    redBlackTreeValidate h fuel tree
  return ⟨node.userStruct, h, tree⟩

end Delete

end OrderedCollection
end Udk
