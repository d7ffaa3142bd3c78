import LinuxProgramming.BinaryTree.Unlink

/-!
Contract: exactly when `delete` removes a key, locking ignored.

Owns:
- the descent of `delete` along the search path of the key;
- `Removable`, the condition under which the node with the key is removed and
  the tree stays a search tree with correct parent pointers;
- the equivalence of the two.

Does not own: the lock discipline.

`delete` goes wrong at every node that is not a right child with a left child
only. Without a left child it dereferences `NULL`; as a left child it is replaced
in both child fields of its parent; with two children the root of its right
subtree keeps it as parent.
-/

namespace LinuxProgramming.BinaryTree

open LinuxProgramming.Library

/-! ### Descent -/

/-- The node a call is for has an allocated parent and grandparent, if any. -/
def AboveAllocated (store : Store) (parent : Ptr) : Prop :=
  ∀ above, parent = some above → ∃ node, store.node above = some node ∧
    ∀ next, node.parent = some next → ∃ nextNode, store.node next = some nextNode

/-- `delete` at one node, with the mutex calls gone. -/
theorem delete_ignored {fuel : Nat} {store : Store} {addr : Addr} {node : BtNode} {key : Int}
    (allocated : store.node addr = some node) (above : AboveAllocated store node.parent) :
    delete ignored (fuel + 1) (some addr) key ⟨store, ()⟩ =
      (if key < node.key then
        if node.lChild = none then pure 0
        else
          attempt (lockNode ignored node.lChild)
            (unlockAll ignored [node.parent, some addr]) do
            let _ ← delete ignored fuel node.lChild key
            pure 0
      else if key = node.key then deleteHere ignored fuel (some addr)
      else
        if node.rChild = none then pure 0
        else
          attempt (lockNode ignored node.rChild)
            (unlockAll ignored [node.parent, some addr]) do
            let _ ← delete ignored fuel node.rChild key
            pure 0) ⟨store, ()⟩ := by
  rw [delete, load_bind allocated, attempt_zero (ifRoot_ignored (lockNode_ignored ⟨_, allocated⟩))]
  have grandparent : ∃ ptr, grandparentOf node.parent (⟨store, ()⟩ : World Unit) =
        .ok (ptr, ⟨store, ()⟩) ∧
      ∀ addr, ptr = some addr → ∃ found, store.node addr = some found := by
    rw [grandparentOf]
    cases parent : node.parent with
    | none => exact ⟨none, rfl, by rintro _ ⟨⟩⟩
    | some next =>
        obtain ⟨nextNode, nextAllocated, upper⟩ := above next parent
        refine ⟨nextNode.parent, ?_, upper⟩
        rw [if_neg (by simp)]
        exact bind_ok (load_ok nextAllocated)
  obtain ⟨ptr, ran, upper⟩ := grandparent
  rw [bind_ok ran,
    attempt_zero (unlessNull_ignored fun target is => lockNode_ignored (upper target is))]

theorem AboveAllocated.child {store : Store} {parent : Ptr} {addr : Addr} {node : BtNode}
    (above : AboveAllocated store parent) (allocated : store.node addr = some node)
    (isParent : node.parent = parent) : AboveAllocated store (some addr) := by
  rintro _ ⟨⟩
  refine ⟨node, allocated, ?_⟩
  intro next isNext
  obtain ⟨nextNode, found, _⟩ := above next (isParent ▸ isNext)
  exact ⟨nextNode, found⟩

section Descent

variable {store : Store} {parent : Ptr} {addr child : Addr} {nodeKey nodeValue key : Int}
  {left right : Tree} {fuel : Nat}
  (shape : TreeAt store parent (.node addr nodeKey nodeValue left right))
  (above : AboveAllocated store parent)

include shape above

/-- The result of the recursive call is dropped. -/
theorem delete_left (less : key < nodeKey) (childAt : left.root = some child) :
    delete ignored (fuel + 1) (some addr) key ⟨store, ()⟩ =
      (do let _ ← delete ignored fuel (some child) key; pure 0 : Prog Unit Int)
        ⟨store, ()⟩ := by
  obtain ⟨here, leftShape, rightShape⟩ := shape
  obtain ⟨childNode, childAllocated, _⟩ := leftShape.root_allocated childAt
  rw [delete_ignored here above]
  dsimp only
  rw [if_pos less, childAt, if_neg (by simp),
    attempt_zero (lockNode_ignored ⟨_, childAllocated⟩)]

theorem delete_right (greater : nodeKey < key) (childAt : right.root = some child) :
    delete ignored (fuel + 1) (some addr) key ⟨store, ()⟩ =
      (do let _ ← delete ignored fuel (some child) key; pure 0 : Prog Unit Int)
        ⟨store, ()⟩ := by
  obtain ⟨here, leftShape, rightShape⟩ := shape
  obtain ⟨childNode, childAllocated, _⟩ := rightShape.root_allocated childAt
  rw [delete_ignored here above]
  dsimp only
  rw [if_neg (by omega), if_neg (by omega), childAt, if_neg (by simp),
    attempt_zero (lockNode_ignored ⟨_, childAllocated⟩)]

theorem delete_here (same : key = nodeKey) :
    delete ignored (fuel + 1) (some addr) key ⟨store, ()⟩ =
      deleteHere ignored fuel (some addr) ⟨store, ()⟩ := by
  rw [delete_ignored shape.1 above]
  dsimp only
  rw [if_neg (by omega), if_pos same]

end Descent

/-- An absent key: the store is not touched. -/
theorem delete_absent {store : Store} {parent : Ptr} {tree : Tree} {fuel : Nat} {addr : Addr}
    {key : Int} (shape : TreeAt store parent tree) (above : AboveAllocated store parent)
    (rootAt : tree.root = some addr) (absent : tree.find? key = none)
    (enough : tree.height ≤ fuel) :
    delete ignored fuel (some addr) key ⟨store, ()⟩ = .ok (0, ⟨store, ()⟩) := by
  induction tree generalizing parent addr fuel with
  | nil => cases rootAt
  | node label nodeKey nodeValue left right leftHypothesis rightHypothesis =>
      cases rootAt
      obtain ⟨fuel, rfl⟩ : ∃ less, fuel = less + 1 :=
        Nat.exists_eq_succ_of_ne_zero (by simp only [LabelledTree.height] at enough; omega)
      simp only [LabelledTree.height, Nat.add_le_add_iff_right, Nat.max_le] at enough
      simp only [LabelledTree.find?] at absent
      have next := above.child shape.1 rfl
      split_ifs at absent with less greater
      · cases childAt : left.root with
        | none =>
            rw [delete_ignored shape.1 above]
            dsimp only
            rw [if_pos less, if_pos childAt]
            rfl
        | some child =>
            rw [delete_left shape above less childAt,
              bind_ok (leftHypothesis shape.2.1 next childAt absent enough.1)]
            rfl
      · cases childAt : right.root with
        | none =>
            rw [delete_ignored shape.1 above]
            dsimp only
            rw [if_neg less, if_neg (by omega), if_pos childAt]
            rfl
        | some child =>
            rw [delete_right shape above greater childAt,
              bind_ok (rightHypothesis shape.2.2 next childAt absent enough.2)]
            rfl

/-! ### The field of the parent that holds the node -/

/-- The right child for `true`, the left child for `false`. -/
def BtNode.child (node : BtNode) : Bool → Ptr
  | false => node.lChild
  | true => node.rChild

def BtNode.setChild (node : BtNode) (child : Ptr) : Bool → BtNode
  | false => { node with lChild := child }
  | true => { node with rChild := child }

theorem BtNode.setChild_of_child (node : BtNode) {side : Bool} {child : Ptr}
    (here : node.child side = child) : node.setChild child side = node := by
  subst here
  cases side <;> rfl

/-- The tree hangs on one side of its parent, if there is one, and on no other. -/
def Hangs (store : Store) (side : Bool) (parent : Ptr) (tree : Tree) : Prop :=
  ∀ addr, parent = some addr → addr ∉ tree.labels ∧
    ∃ node, store.node addr = some node ∧ node.child side = tree.root ∧
      node.child (!side) ≠ tree.root

section Hangs

variable {store : Store} {parent : Ptr} {addr child : Addr} {nodeKey nodeValue : Int}
  {left right : Tree} (nodeAt : NodeAt store parent addr nodeKey nodeValue left right)

include nodeAt

theorem NodeAt.roots_ne (childAt : left.root = some child) : left.root ≠ right.root := by
  intro same
  exact nodeAt.apart (LabelledTree.root_mem_labels childAt)
    (LabelledTree.root_mem_labels (same ▸ childAt))

theorem NodeAt.hangsLeft (childAt : left.root = some child) :
    Hangs store false (some addr) left := by
  rintro _ ⟨⟩
  exact ⟨nodeAt.notLeft, _, nodeAt.here, rfl, (nodeAt.roots_ne childAt).symm⟩

theorem NodeAt.hangsRight (childAt : right.root = some child) :
    Hangs store true (some addr) right := by
  rintro _ ⟨⟩
  refine ⟨nodeAt.notRight, _, nodeAt.here, rfl, ?_⟩
  intro same
  exact nodeAt.roots_ne (same.trans childAt) same

theorem NodeAt.target {above : Addr} {side : Bool} (at_ : parent = some above)
    (hangs : Hangs store side parent (.node addr nodeKey nodeValue left right)) :
    ∃ parentNode, Target store above addr parentNode nodeKey nodeValue left right ∧
      parentNode.child side = some addr ∧ parentNode.child (!side) ≠ some addr := by
  subst at_
  obtain ⟨notMember, parentNode, allocated, here, only⟩ := hangs above rfl
  simp only [LabelledTree.labels, List.mem_cons, List.mem_append, not_or] at notMember
  exact ⟨parentNode, ⟨nodeAt, allocated, notMember.1, notMember.2.1, notMember.2.2⟩, here, only⟩

end Hangs

/-! ### The nodes that are removed -/

/-- If there is a node with the key, it is a right child with a left child and
no right child. -/
def Removable (key : Int) : Bool → Tree → Prop
  | _, .nil => True
  | side, .node _ nodeKey _ left right =>
      if key < nodeKey then Removable key false left
      else if nodeKey < key then Removable key true right
      else side = true ∧ left ≠ .nil ∧ right = .nil

/-- What replacing `tree` by `tree'` below its parent does to the store. -/
structure Replaced (store store' : Store) (side : Bool) (parent : Ptr) (tree tree' : Tree) :
    Prop where
  shape : TreeAt store' parent tree'
  outside : ∀ other ∉ tree.labels, some other ≠ parent → store'.node other = store.node other
  above : ∀ addr node, parent = some addr → store.node addr = some node →
    store'.node addr = some (node.setChild tree'.root side)

/-- Nothing outside the tree was touched, its parent included. -/
theorem Replaced.of_frame {store store' : Store} {side : Bool} {parent : Ptr} {tree tree' : Tree}
    (hangs : Hangs store side parent tree) (sameRoot : tree'.root = tree.root)
    (shape : TreeAt store' parent tree')
    (frame : ∀ other ∉ tree.labels, store'.node other = store.node other) :
    Replaced store store' side parent tree tree' where
  shape := shape
  outside other notMember _ := frame other notMember
  above := by
    intro upper upperNode isParent allocated
    obtain ⟨notMember, _, allocated', here, _⟩ := hangs upper isParent
    rw [allocated] at allocated'
    cases allocated'
    rw [frame upper notMember, allocated, sameRoot]
    exact congrArg some (upperNode.setChild_of_child here).symm

section Replaced

variable {store store' : Store} {side : Bool} {parent : Ptr} {addr : Addr}
  {nodeKey nodeValue : Int} {left right : Tree}
  (nodeAt : NodeAt store parent addr nodeKey nodeValue left right)
  (hangs : Hangs store side parent (.node addr nodeKey nodeValue left right))

include nodeAt hangs

/-- A replacement below the left child of a node, seen from the parent of the
node: only the node itself was touched outside the subtree. -/
theorem Replaced.ofLeft {left' : Tree}
    (replaced : Replaced store store' false (some addr) left left') :
    Replaced store store' side parent (.node addr nodeKey nodeValue left right)
      (.node addr nodeKey nodeValue left' right) := by
  refine Replaced.of_frame hangs (by rfl) ?_ ?_
  · refine ⟨replaced.above addr _ rfl nodeAt.here, replaced.shape, ?_⟩
    apply nodeAt.rightShape.frame
    intro other member
    apply replaced.outside other (fun inLeft => nodeAt.apart inLeft member)
    rintro ⟨⟩
    exact nodeAt.notRight member
  · intro other member
    simp only [LabelledTree.labels, List.mem_cons, List.mem_append, not_or] at member
    exact replaced.outside other member.2.1 (by simp [member.1])

theorem Replaced.ofRight {right' : Tree}
    (replaced : Replaced store store' true (some addr) right right') :
    Replaced store store' side parent (.node addr nodeKey nodeValue left right)
      (.node addr nodeKey nodeValue left right') := by
  refine Replaced.of_frame hangs (by rfl) ?_ ?_
  · refine ⟨replaced.above addr _ rfl nodeAt.here, ?_, replaced.shape⟩
    apply nodeAt.leftShape.frame
    intro other member
    apply replaced.outside other (fun inRight => nodeAt.apart member inRight)
    rintro ⟨⟩
    exact nodeAt.notLeft member
  · intro other member
    simp only [LabelledTree.labels, List.mem_cons, List.mem_append, not_or] at member
    exact replaced.outside other member.2.2 (by simp [member.1])

end Replaced

/-- Another parent for the root of a tree. -/
theorem TreeAt.reparent {store store' : Store} {parent parent' : Ptr} {tree : Tree}
    {start : Addr} {node : BtNode} (shape : TreeAt store parent tree)
    (distinct : tree.labels.Nodup) (rootAt : tree.root = some start)
    (allocated : store.node start = some node)
    (moved : store'.node start = some { node with parent := parent' })
    (same : ∀ other ∈ tree.labels, other ≠ start → store'.node other = store.node other) :
    TreeAt store' parent' tree := by
  cases tree with
  | nil => cases rootAt
  | node label key value left right =>
      cases rootAt
      have nodeAt := NodeAt.of_shape shape distinct
      rw [nodeAt.here] at allocated
      cases allocated
      refine ⟨moved, nodeAt.leftShape.frame ?_, nodeAt.rightShape.frame ?_⟩
      · intro other member
        apply same other (by simp [LabelledTree.labels, member])
        rintro rfl
        exact nodeAt.notLeft member
      · intro other member
        apply same other (by simp [LabelledTree.labels, member])
        rintro rfl
        exact nodeAt.notRight member

/-- At a right child with a left child only, the left child takes its place. -/
theorem deleteHere_removes {store : Store} {parent addr : Addr} {key value : Int} {left : Tree}
    {fuel : Nat} (nodeAt : NodeAt store (some parent) addr key value left .nil)
    (hangs : Hangs store true (some parent) (.node addr key value left .nil))
    (notEmpty : left ≠ .nil) :
    ∃ store', deleteHere ignored fuel (some addr) ⟨store, ()⟩ = .ok (0, ⟨store', ()⟩) ∧
      Replaced store store' true (some parent) (.node addr key value left .nil) left := by
  obtain ⟨child, childAt⟩ := LabelledTree.exists_root notEmpty
  obtain ⟨childNode, childAllocated, _⟩ := nodeAt.leftShape.root_allocated childAt
  obtain ⟨parentNode, target, here, only⟩ := nodeAt.target rfl hangs
  obtain ⟨apart, notChild⟩ := target.leftApart (LabelledTree.root_mem_labels childAt)
  have linked : parentNode.replaceChild addr (some child) =
      parentNode.setChild (some child) true :=
    if_neg only
  have linkedAgain : (parentNode.setChild (some child) true).replaceChild addr (some child) =
      parentNode.setChild (some child) true :=
    if_neg only
  refine ⟨_, target.onlyLeft childAt childAllocated rfl, ?_, ?_, ?_⟩
  · apply nodeAt.leftShape.reparent nodeAt.leftDistinct childAt childAllocated
    · exact Store.unlinked_left apart notChild
    · intro other member different
      obtain ⟨notAddr, notParent⟩ := target.leftApart member
      rw [Store.unlinked_other notAddr notParent different, Store.write_other _ _ notParent]
  · intro other outside notParent
    apply onlyLeft_other childAt outside
    rintro rfl
    exact notParent rfl
  · rintro _ node ⟨⟩ allocated
    rw [target.parentAllocated] at allocated
    cases allocated
    rw [Store.unlinked_parent target.notSelf, linked, linkedAgain, childAt]

/-- The node with the key goes and the rest of the tree is rebuilt around it. -/
theorem delete_removable {store : Store} {parent : Ptr} {side : Bool} {tree : Tree} {fuel : Nat}
    {start : Addr} {key : Int} (shape : TreeAt store parent tree)
    (distinct : tree.labels.Nodup) (above : AboveAllocated store parent)
    (hangs : Hangs store side parent tree) (rootAt : tree.root = some start)
    (present : tree.find? key ≠ none) (removable : Removable key side tree)
    (notRoot : parent = none → ∀ node, store.node start = some node → node.key ≠ key)
    (enough : tree.height ≤ fuel) :
    ∃ code store', delete ignored fuel (some start) key ⟨store, ()⟩ =
        .ok (code, ⟨store', ()⟩) ∧
      Replaced store store' side parent tree (tree.spliceLeft key) := by
  induction tree generalizing parent side start fuel with
  | nil => cases rootAt
  | node addr nodeKey nodeValue left right leftHypothesis rightHypothesis =>
      cases rootAt
      have nodeAt := NodeAt.of_shape shape distinct
      obtain ⟨fuel, rfl⟩ : ∃ less, fuel = less + 1 :=
        Nat.exists_eq_succ_of_ne_zero (by simp only [LabelledTree.height] at enough; omega)
      simp only [LabelledTree.height, Nat.add_le_add_iff_right, Nat.max_le] at enough
      rw [Removable] at removable
      rw [LabelledTree.find?] at present
      rw [LabelledTree.spliceLeft]
      have next := above.child shape.1 rfl
      split_ifs at removable present ⊢ with less greater
      · obtain ⟨child, childAt⟩ : ∃ child, left.root = some child :=
          LabelledTree.exists_root (by rintro rfl; exact present rfl)
        obtain ⟨code, store', ran, replaced⟩ := leftHypothesis nodeAt.leftShape
          nodeAt.leftDistinct next (nodeAt.hangsLeft childAt) childAt present removable
          (by rintro ⟨⟩) enough.1
        refine ⟨0, store', ?_, replaced.ofLeft nodeAt hangs⟩
        rw [delete_left shape above less childAt, bind_ok ran]
        rfl
      · obtain ⟨child, childAt⟩ : ∃ child, right.root = some child :=
          LabelledTree.exists_root (by rintro rfl; exact present rfl)
        obtain ⟨code, store', ran, replaced⟩ := rightHypothesis nodeAt.rightShape
          nodeAt.rightDistinct next (nodeAt.hangsRight childAt) childAt present removable
          (by rintro ⟨⟩) enough.2
        refine ⟨0, store', ?_, replaced.ofRight nodeAt hangs⟩
        rw [delete_right shape above greater childAt, bind_ok ran]
        rfl
      · have same : key = nodeKey := by omega
        obtain ⟨rfl, notEmpty, rfl⟩ := removable
        cases parent with
        | none => exact absurd same.symm (notRoot rfl _ nodeAt.here)
        | some parent =>
            obtain ⟨store', ran, replaced⟩ := deleteHere_removes nodeAt hangs notEmpty
            refine ⟨0, store', ?_, replaced⟩
            rw [delete_here shape above same]
            exact ran

/-! ### The nodes that are not -/

/-- Some node below `start` has the same child twice or a child with another
parent. -/
def Faulty (store : Store) (start : Addr) : Prop :=
  ∃ upper node lower lowerNode, Relation.ReflTransGen (Child store) start upper ∧
    store.node upper = some node ∧ store.node lower = some lowerNode ∧
    (node.lChild = some lower ∧ node.rChild = some lower ∨
      Child store upper lower ∧ lowerNode.parent ≠ some upper)

theorem Faulty.lift {store : Store} {upper start : Addr} (child : Child store upper start)
    (faulty : Faulty store start) : Faulty store upper := by
  obtain ⟨last, node, lower, lowerNode, path, found⟩ := faulty
  exact ⟨last, node, lower, lowerNode, .head child path, found⟩

/-- The nodes below the root of a tree make up subtrees. -/
theorem TreeAt.reach {store : Store} {parent : Ptr} {tree : Tree} {start addr : Addr}
    (shape : TreeAt store parent tree) (distinct : tree.labels.Nodup)
    (rootAt : tree.root = some start)
    (path : Relation.ReflTransGen (Child store) start addr) :
    ∃ parent' key value left right, NodeAt store parent' addr key value left right := by
  induction path with
  | refl =>
      cases tree with
      | nil => cases rootAt
      | node label key value left right =>
          cases rootAt
          exact ⟨_, _, _, _, _, NodeAt.of_shape shape distinct⟩
  | tail path child inductionHypothesis =>
      obtain ⟨_, _, _, left, right, nodeAt⟩ := inductionHypothesis
      obtain ⟨node, allocated, isChild⟩ := child
      rw [nodeAt.here] at allocated
      cases allocated
      rcases isChild with isLeft | isRight
      · cases left with
        | nil => cases isLeft
        | node label key value left right =>
            cases isLeft
            exact ⟨_, _, _, _, _, NodeAt.of_shape nodeAt.leftShape nodeAt.leftDistinct⟩
      · cases right with
        | nil => cases isRight
        | node label key value left right =>
            cases isRight
            exact ⟨_, _, _, _, _, NodeAt.of_shape nodeAt.rightShape nodeAt.rightDistinct⟩

theorem Represents.not_faulty {store : Store} {root : Addr} {tree : Tree}
    (represents : Represents store root tree) : ¬ Faulty store root := by
  rintro ⟨upper, node, lower, lowerNode, path, allocated, lowerAllocated, fault⟩
  obtain ⟨_, _, _, left, right, nodeAt⟩ :=
    represents.shape.reach represents.distinct represents.rootAt path
  rw [nodeAt.here] at allocated
  cases allocated
  rcases fault with ⟨isLeft, isRight⟩ | ⟨⟨node, allocated, isChild⟩, other⟩
  · exact nodeAt.roots_ne isLeft (isLeft.trans isRight.symm)
  · rw [nodeAt.here] at allocated
    cases allocated
    have isParent : lowerNode.parent = some upper := by
      rcases isChild with isLeft | isRight
      · obtain ⟨found, foundAt, parent⟩ := nodeAt.leftShape.root_allocated isLeft
        rw [lowerAllocated] at foundAt
        cases foundAt
        exact parent
      · obtain ⟨found, foundAt, parent⟩ := nodeAt.rightShape.root_allocated isRight
        rw [lowerAllocated] at foundAt
        cases foundAt
        exact parent
    exact other isParent

/-- A fault at or below the node above the tree; outside the tree only that node
has changed. -/
structure Broken (store store' : Store) (parent : Addr) (tree : Tree) : Prop where
  outside : ∀ other ∉ tree.labels, other ≠ parent → store'.node other = store.node other
  faulty : Faulty store' parent

/-- A fault at or below a node of a tree, seen from the parent of its root. -/
theorem Broken.lift {store store' : Store} {side : Bool} {parent addr : Addr}
    {nodeKey nodeValue : Int} {left right subtree : Tree}
    (broken : Broken store store' addr subtree)
    (hangs : Hangs store side (some parent) (.node addr nodeKey nodeValue left right))
    (inside : ∀ other ∈ subtree.labels,
      other ∈ (LabelledTree.node addr nodeKey nodeValue left right : Tree).labels) :
    Broken store store' parent (.node addr nodeKey nodeValue left right) where
  outside := by
    intro other member _
    apply broken.outside other (fun below => member (inside other below))
    rintro rfl
    exact member List.mem_cons_self
  faulty := by
    obtain ⟨notMember, node, allocated, here, _⟩ := hangs parent rfl
    refine broken.faulty.lift ⟨node, ?_, ?_⟩
    · rw [broken.outside parent (fun below => notMember (inside parent below)), allocated]
      rintro rfl
      exact notMember List.mem_cons_self
    · cases side with
      | false => exact .inl here
      | true => exact .inr here

/-- A left child with a left child only is replaced in both child fields of its
parent. -/
theorem deleteHere_twice {store : Store} {parent addr : Addr} {key value : Int} {left : Tree}
    {fuel : Nat} (nodeAt : NodeAt store (some parent) addr key value left .nil)
    (hangs : Hangs store false (some parent) (.node addr key value left .nil))
    (notEmpty : left ≠ .nil) :
    ∃ store', deleteHere ignored fuel (some addr) ⟨store, ()⟩ = .ok (0, ⟨store', ()⟩) ∧
      Broken store store' parent (.node addr key value left .nil) := by
  obtain ⟨child, childAt⟩ := LabelledTree.exists_root notEmpty
  obtain ⟨childNode, childAllocated, _⟩ := nodeAt.leftShape.root_allocated childAt
  obtain ⟨parentNode, target, here, only⟩ := nodeAt.target rfl hangs
  obtain ⟨apart, notChild⟩ := target.leftApart (LabelledTree.root_mem_labels childAt)
  have linked : parentNode.replaceChild addr (some child) =
      parentNode.setChild (some child) false :=
    if_pos here
  have linkedTwice : (parentNode.setChild (some child) false).replaceChild addr (some child) =
      (parentNode.setChild (some child) false).setChild (some child) true :=
    if_neg (by rintro ⟨⟩; exact apart rfl)
  refine ⟨_, target.onlyLeft childAt childAllocated rfl, ?_, ?_⟩
  · intro other outside notParent
    exact onlyLeft_other childAt outside notParent
  · refine ⟨parent, _, child, _, .refl, Store.unlinked_parent target.notSelf,
      Store.unlinked_left apart notChild, .inl ?_⟩
    rw [linked, linkedTwice]
    exact ⟨rfl, rfl⟩

theorem TreeAt.child_mem {store : Store} {parent : Ptr} {tree : Tree} {upper lower : Addr}
    (shape : TreeAt store parent tree) (member : upper ∈ tree.labels)
    (child : Child store upper lower) : lower ∈ tree.labels := by
  induction tree generalizing parent with
  | nil => cases member
  | node label key value left right leftHypothesis rightHypothesis =>
      obtain ⟨here, leftShape, rightShape⟩ := shape
      simp only [LabelledTree.labels, List.mem_cons, List.mem_append] at member ⊢
      rcases member with rfl | member | member
      · obtain ⟨node, allocated, isChild⟩ := child
        rw [here] at allocated
        cases allocated
        rcases isChild with isLeft | isRight
        · exact .inr (.inl (LabelledTree.root_mem_labels isLeft))
        · exact .inr (.inr (LabelledTree.root_mem_labels isRight))
      · exact .inr (.inl (leftHypothesis leftShape member))
      · exact .inr (.inr (rightHypothesis rightShape member))

/-- A child stays one if the node keeps its left pointer and, where it has one,
its right pointer. -/
theorem Child.kept {store store' : Store} {upper lower : Addr}
    (child : Child store upper lower)
    (pointers : ∀ node, store.node upper = some node → ∃ node', store'.node upper = some node' ∧
      node'.lChild = node.lChild ∧ (node.rChild = none ∨ node'.rChild = node.rChild)) :
    Child store' upper lower := by
  obtain ⟨node, allocated, isLeft | isRight⟩ := child
  · obtain ⟨node', found, sameLeft, -⟩ := pointers node allocated
    exact ⟨node', found, .inl (sameLeft.trans isLeft)⟩
  · obtain ⟨node', found, -, noRight | sameRight⟩ := pointers node allocated
    · rw [noRight] at isRight
      cases isRight
    · exact ⟨node', found, .inr (sameRight.trans isRight)⟩

/-- A path below the root survives if the child pointers of the tree do. -/
theorem TreeAt.path_mono {store store' : Store} {parent : Ptr} {tree : Tree}
    {start last : Addr} (shape : TreeAt store parent tree) (rootAt : tree.root = some start)
    (kept : ∀ upper ∈ tree.labels, ∀ lower, Child store upper lower → Child store' upper lower)
    (path : Relation.ReflTransGen (Child store) start last) :
    Relation.ReflTransGen (Child store') start last := by
  suffices last ∈ tree.labels ∧ Relation.ReflTransGen (Child store') start last from this.2
  induction path with
  | refl => exact ⟨LabelledTree.root_mem_labels rootAt, .refl⟩
  | tail _ child inductionHypothesis =>
      obtain ⟨member, path⟩ := inductionHypothesis
      exact ⟨shape.child_mem member child, path.tail (kept _ member _ child)⟩

section Hung

variable {store : Store} {addr parent child sibling last : Addr} {node : BtNode}
  {childNode lastNode parentNode childNode' : BtNode}
  (lastAllocated : store.node last = some lastNode)
  (childAllocated : store.node child = some childNode) (noRight : lastNode.rChild = none)
  (childIs : childNode' = if child = last then { lastNode with rChild := some sibling }
    else childNode)
  (lastNotAddr : last ≠ addr) (lastNotParent : last ≠ parent) (childNotAddr : child ≠ addr)
  (childNotParent : child ≠ parent)

include childIs lastNotAddr lastNotParent childNotAddr childNotParent

/-- The last node of the left subtree has the right subtree below it. -/
theorem Store.hung_last :
    ∃ node', (((store.write last { lastNode with rChild := some sibling }).write addr
        node).unlinked addr parent child parentNode childNode').node last = some node' ∧
      node'.lChild = lastNode.lChild ∧ node'.rChild = some sibling := by
  by_cases same : child = last
  · rw [if_pos same] at childIs
    subst same childIs
    exact ⟨_, Store.unlinked_left childNotAddr childNotParent, rfl, rfl⟩
  · refine ⟨{ lastNode with rChild := some sibling }, ?_, rfl, rfl⟩
    rw [Store.unlinked_other lastNotAddr lastNotParent (Ne.symm same),
      Store.write_other _ _ lastNotAddr, Store.write_same]

include lastAllocated childAllocated noRight

/-- The nodes of the left subtree keep their children. -/
theorem Store.hung_kept {upper lower : Addr} (notAddr : upper ≠ addr) (notParent : upper ≠ parent)
    (isChild : Child store upper lower) :
    Child (((store.write last { lastNode with rChild := some sibling }).write addr
      node).unlinked addr parent child parentNode childNode') upper lower := by
  apply isChild.kept
  intro node allocated
  by_cases isLast : upper = last
  · subst isLast
    rw [lastAllocated] at allocated
    cases allocated
    obtain ⟨node', found, sameLeft, -⟩ :=
      Store.hung_last childIs lastNotAddr lastNotParent childNotAddr childNotParent
    exact ⟨node', found, sameLeft, .inl noRight⟩
  · by_cases isFirst : upper = child
    · subst isFirst
      rw [if_neg isLast] at childIs
      subst childIs
      rw [childAllocated] at allocated
      cases allocated
      exact ⟨_, Store.unlinked_left childNotAddr childNotParent, rfl, .inr rfl⟩
    · refine ⟨node, ?_, rfl, .inr rfl⟩
      rw [Store.unlinked_other notAddr notParent isFirst, Store.write_other _ _ notAddr,
        Store.write_other _ _ isLast, allocated]

end Hung

/-- With two children the root of the right subtree gets a new place but keeps
the deleted node as its parent. -/
theorem deleteHere_stale {store : Store} {parent addr : Addr} {key value : Int}
    {left right : Tree} {fuel : Nat} {side : Bool}
    (nodeAt : NodeAt store (some parent) addr key value left right)
    (hangs : Hangs store side (some parent) (.node addr key value left right))
    (ordered : (LabelledTree.node addr key value left right : Tree).Ordered)
    (leftNotEmpty : left ≠ .nil) (rightNotEmpty : right ≠ .nil) (enough : left.height ≤ fuel) :
    ∃ store', deleteHere ignored fuel (some addr) ⟨store, ()⟩ = .ok (0, ⟨store', ()⟩) ∧
      Broken store store' parent (.node addr key value left right) := by
  obtain ⟨child, childAt⟩ := LabelledTree.exists_root leftNotEmpty
  obtain ⟨sibling, siblingAt⟩ := LabelledTree.exists_root rightNotEmpty
  obtain ⟨childNode, childAllocated, _⟩ := nodeAt.leftShape.root_allocated childAt
  obtain ⟨siblingNode, siblingAllocated, siblingParent⟩ :=
    nodeAt.rightShape.root_allocated siblingAt
  obtain ⟨parentNode, target, here, only⟩ := nodeAt.target rfl hangs
  obtain ⟨last, lastNode, childNode', lastMember, lastAllocated, path, noRight, childNode'_eq,
    ran⟩ := target.both childAt childAllocated siblingAt ordered enough
  have childMember := LabelledTree.root_mem_labels childAt
  have siblingMember := LabelledTree.root_mem_labels siblingAt
  have inLeft {other : Addr} (member : other ∈ left.labels) :
      other ≠ addr ∧ other ≠ parent ∧ other ≠ sibling := by
    obtain ⟨notAddr, notParent⟩ := target.leftApart member
    refine ⟨notAddr, notParent, ?_⟩
    rintro rfl
    exact nodeAt.apart member siblingMember
  obtain ⟨childNotAddr, childNotParent, childNotSibling⟩ := inLeft childMember
  obtain ⟨lastNotAddr, lastNotParent, lastNotSibling⟩ := inLeft lastMember
  let hung := (store.write last { lastNode with rChild := some sibling }).write addr
    ⟨key, value, some parent, some child, some last⟩
  let final := hung.unlinked addr parent child parentNode childNode'
  have hungOther {other : Addr} (notAddr : other ≠ addr) (notLast : other ≠ last) :
      hung.node other = store.node other := by
    rw [Store.write_other _ _ notAddr, Store.write_other _ _ notLast]
  have finalLast : ∃ node, final.node last = some node ∧ node.lChild = lastNode.lChild ∧
      node.rChild = some sibling :=
    Store.hung_last childNode'_eq lastNotAddr lastNotParent childNotAddr childNotParent
  have kept : ∀ upper ∈ left.labels, ∀ lower, Child store upper lower →
      Child final upper lower := by
    intro upper member lower isChild
    obtain ⟨notAddr, notParent, -⟩ := inLeft member
    exact Store.hung_kept lastAllocated childAllocated noRight childNode'_eq lastNotAddr
      lastNotParent childNotAddr childNotParent notAddr notParent isChild
  obtain ⟨siblingNotAddr, siblingNotParent⟩ := target.rightApart siblingMember
  have finalSibling : final.node sibling = some siblingNode := by
    rw [Store.unlinked_other siblingNotAddr siblingNotParent childNotSibling.symm,
      hungOther siblingNotAddr lastNotSibling.symm, siblingAllocated]
  have firstStep : Child final parent child := by
    refine ⟨_, Store.unlinked_parent target.notSelf, ?_⟩
    rw [BtNode.replaceChild]
    split
    · exact .inl rfl
    · exact .inr rfl
  refine ⟨final, ran, ?_, ?_⟩
  · intro other member notParent
    simp only [LabelledTree.labels, List.mem_cons, List.mem_append, not_or] at member
    have notChild : other ≠ child := by
      rintro rfl
      exact member.2.1 childMember
    have notLast : other ≠ last := by
      rintro rfl
      exact member.2.1 lastMember
    rw [Store.unlinked_other member.1 notParent notChild, hungOther member.1 notLast]
  · obtain ⟨node, found, -, isSibling⟩ := finalLast
    refine ⟨last, node, sibling, siblingNode,
      .head firstStep (nodeAt.leftShape.path_mono childAt kept path), found, finalSibling,
      .inr ⟨⟨node, found, .inr isSibling⟩, ?_⟩⟩
    rw [siblingParent]
    rintro ⟨⟩
    exact lastNotAddr rfl

/-- At a node that is not a right child with a left child only, the call fails
or breaks the tree. -/
theorem deleteHere_unremovable {store : Store} {parent addr : Addr} {key value : Int}
    {left right : Tree} {fuel : Nat} {side : Bool}
    (nodeAt : NodeAt store (some parent) addr key value left right)
    (hangs : Hangs store side (some parent) (.node addr key value left right))
    (ordered : (LabelledTree.node addr key value left right : Tree).Ordered)
    (enough : left.height ≤ fuel)
    (unremovable : ¬ (side = true ∧ left ≠ .nil ∧ right = .nil)) :
    deleteHere ignored fuel (some addr) ⟨store, ()⟩ = .error .nullDereference ∨
      ∃ store', deleteHere ignored fuel (some addr) ⟨store, ()⟩ = .ok (0, ⟨store', ()⟩) ∧
        Broken store store' parent (.node addr key value left right) := by
  obtain ⟨parentNode, target, here, only⟩ := nodeAt.target rfl hangs
  by_cases leftEmpty : left = .nil
  · subst leftEmpty
    exact .inl (target.noLeft rfl)
  · by_cases rightEmpty : right = .nil
    · subst rightEmpty
      cases side with
      | false => exact .inr (deleteHere_twice nodeAt hangs leftEmpty)
      | true => exact absurd ⟨rfl, leftEmpty, rfl⟩ unremovable
    · exact .inr (deleteHere_stale nodeAt hangs ordered leftEmpty rightEmpty enough)

theorem delete_unremovable {store : Store} {parent : Addr} {side : Bool} {tree : Tree}
    {fuel : Nat} {start : Addr} {key : Int} (shape : TreeAt store (some parent) tree)
    (distinct : tree.labels.Nodup) (ordered : tree.Ordered)
    (above : AboveAllocated store (some parent)) (hangs : Hangs store side (some parent) tree)
    (rootAt : tree.root = some start) (unremovable : ¬ Removable key side tree)
    (enough : tree.height ≤ fuel) :
    delete ignored fuel (some start) key ⟨store, ()⟩ = .error .nullDereference ∨
      ∃ code store', delete ignored fuel (some start) key ⟨store, ()⟩ =
          .ok (code, ⟨store', ()⟩) ∧ Broken store store' parent tree := by
  induction tree generalizing parent side start fuel with
  | nil => cases rootAt
  | node addr nodeKey nodeValue left right leftHypothesis rightHypothesis =>
      cases rootAt
      have nodeAt := NodeAt.of_shape shape distinct
      obtain ⟨fuel, rfl⟩ : ∃ less, fuel = less + 1 :=
        Nat.exists_eq_succ_of_ne_zero (by simp only [LabelledTree.height] at enough; omega)
      simp only [LabelledTree.height, Nat.add_le_add_iff_right, Nat.max_le] at enough
      rw [Removable] at unremovable
      have next := above.child shape.1 rfl
      split_ifs at unremovable with less greater
      · obtain ⟨child, childAt⟩ : ∃ child, left.root = some child :=
          LabelledTree.exists_root (by rintro rfl; exact unremovable trivial)
        rw [delete_left shape above less childAt]
        rcases leftHypothesis nodeAt.leftShape nodeAt.leftDistinct ordered.1 next
          (nodeAt.hangsLeft childAt) childAt unremovable enough.1 with
          stopped | ⟨code, store', ran, broken⟩
        · exact .inl (bind_error stopped)
        · exact .inr ⟨0, store', bind_ok ran,
            broken.lift hangs fun other member => by simp [LabelledTree.labels, member]⟩
      · obtain ⟨child, childAt⟩ : ∃ child, right.root = some child :=
          LabelledTree.exists_root (by rintro rfl; exact unremovable trivial)
        rw [delete_right shape above greater childAt]
        rcases rightHypothesis nodeAt.rightShape nodeAt.rightDistinct ordered.2.1 next
          (nodeAt.hangsRight childAt) childAt unremovable enough.2 with
          stopped | ⟨code, store', ran, broken⟩
        · exact .inl (bind_error stopped)
        · exact .inr ⟨0, store', bind_ok ran,
            broken.lift hangs fun other member => by simp [LabelledTree.labels, member]⟩
      · rw [delete_here shape above (by omega)]
        rcases deleteHere_unremovable nodeAt hangs ordered enough.1 unremovable with
          stopped | ⟨store', ran, broken⟩
        · exact .inl stopped
        · exact .inr ⟨0, store', ran, broken⟩

/-! ### The equivalence -/

/-- The node with the key, if any, has no right child. -/
theorem Removable.noRightChild {key : Int} {side : Bool} {tree : Tree}
    (removable : Removable key side tree) : tree.NoRightChild key := by
  induction tree generalizing side with
  | nil => rintro label nodeKey value left right ⟨⟩
  | node addr nodeKey value left right leftHypothesis rightHypothesis =>
      intro label key' value' left' right' found
      rw [LabelledTree.subtree?] at found
      rw [Removable] at removable
      split_ifs at found removable
      · exact leftHypothesis removable label key' value' left' right' found
      · exact rightHypothesis removable label key' value' left' right' found
      · cases found
        exact removable.2.2

/-- `delete(root, key)` ends and leaves a search tree with correct parent
pointers for the old pairs but the one of the key, and nothing has changed if
there was none. -/
def DeleteCorrect (fuel : Nat) (store : Store) (root : Addr) (tree : Tree) (key : Int) : Prop :=
  ∃ code store', delete ignored fuel (some root) key ⟨store, ()⟩ = .ok (code, ⟨store', ()⟩) ∧
    (∃ tree' : Tree, Represents store' root tree' ∧ tree'.Ordered ∧
      ∀ other stored, (other, stored) ∈ tree'.entries ↔
        (other, stored) ∈ tree.entries ∧ other ≠ key) ∧
    (key ∉ tree.keys → store' = store)

section DeleteCorrect

variable {store : Store} {root : Addr} {tree : Tree} {key : Int} {fuel : Nat}
  (represents : Represents store root tree) (ordered : tree.Ordered)
  (enough : tree.height ≤ fuel)

include represents ordered enough

theorem DeleteCorrect.of_absent (absent : tree.find? key = none) :
    DeleteCorrect fuel store root tree key := by
  refine ⟨0, store, delete_absent represents.shape (by rintro _ ⟨⟩) represents.rootAt absent
    enough, ⟨tree, represents, ordered, ?_⟩, fun _ => rfl⟩
  intro other stored
  refine ⟨fun member => ⟨member, ?_⟩, And.left⟩
  rintro rfl
  exact (LabelledTree.find?_eq_none_iff ordered).mp absent
    (LabelledTree.mem_keys_of_mem_entries member)

theorem DeleteCorrect.of_removable (present : tree.find? key ≠ none)
    (notRoot : ∀ node, store.node root = some node → node.key ≠ key)
    (removable : Removable key false tree) : DeleteCorrect fuel store root tree key := by
  obtain ⟨code, store', ran, replaced⟩ :=
    delete_removable represents.shape represents.distinct (by rintro _ ⟨⟩) (by rintro _ ⟨⟩)
      represents.rootAt present removable (fun _ => notRoot) enough
  refine ⟨code, store', ran, ⟨tree.spliceLeft key, ⟨replaced.shape, ?_, ?_⟩,
    LabelledTree.ordered_spliceLeft ordered, ?_⟩, ?_⟩
  · have rootAt := represents.rootAt
    cases tree with
    | nil => cases rootAt
    | node addr nodeKey value left right =>
        cases rootAt
        have different := notRoot _ represents.shape.1
        dsimp only at different
        rw [LabelledTree.spliceLeft]
        split_ifs
        · rfl
        · rfl
        · omega
  · exact (LabelledTree.labels_spliceLeft tree).nodup represents.distinct
  · intro other stored
    exact LabelledTree.mem_entries_spliceLeft ordered removable.noRightChild
  · intro absent
    exact absurd ((LabelledTree.find?_eq_none_iff ordered).mpr absent) present

/-- Past the root the key of a node that is not removable breaks the call. -/
theorem DeleteCorrect.removable
    (notRoot : ∀ node, store.node root = some node → node.key ≠ key)
    (correct : DeleteCorrect fuel store root tree key) : Removable key false tree := by
  obtain ⟨code, store', ran, ⟨tree', represents', _⟩, _⟩ := correct
  by_contra unremovable
  obtain ⟨shape, rootAt, distinct⟩ := represents
  cases tree with
  | nil => cases rootAt
  | node addr nodeKey value left right =>
      cases rootAt
      have nodeAt := NodeAt.of_shape shape distinct
      have different := notRoot _ nodeAt.here
      dsimp only at different
      obtain ⟨fuel, rfl⟩ : ∃ less, fuel = less + 1 :=
        Nat.exists_eq_succ_of_ne_zero (by simp only [LabelledTree.height] at enough; omega)
      simp only [LabelledTree.height, Nat.add_le_add_iff_right, Nat.max_le] at enough
      have above : AboveAllocated store none := by rintro _ ⟨⟩
      have next : AboveAllocated store (some root) := above.child nodeAt.here rfl
      -- the recursive call either fails or leaves a fault below the root
      have outcome : delete ignored (fuel + 1) (some root) key ⟨store, ()⟩ =
            .error .nullDereference ∨
          ∃ store', delete ignored (fuel + 1) (some root) key ⟨store, ()⟩ =
            .ok (0, ⟨store', ()⟩) ∧ Faulty store' root := by
        rw [Removable] at unremovable
        split_ifs at unremovable with less greater
        · obtain ⟨child, childAt⟩ : ∃ child, left.root = some child :=
            LabelledTree.exists_root (by rintro rfl; exact unremovable trivial)
          rw [delete_left shape above less childAt]
          rcases delete_unremovable nodeAt.leftShape nodeAt.leftDistinct ordered.1 next
            (nodeAt.hangsLeft childAt) childAt unremovable enough.1 with
            stopped | ⟨code, store', ran, broken⟩
          · exact .inl (bind_error stopped)
          · exact .inr ⟨store', bind_ok ran, broken.faulty⟩
        · obtain ⟨child, childAt⟩ : ∃ child, right.root = some child :=
            LabelledTree.exists_root (by rintro rfl; exact unremovable trivial)
          rw [delete_right shape above greater childAt]
          rcases delete_unremovable nodeAt.rightShape nodeAt.rightDistinct ordered.2.1 next
            (nodeAt.hangsRight childAt) childAt unremovable enough.2 with
            stopped | ⟨code, store', ran, broken⟩
          · exact .inl (bind_error stopped)
          · exact .inr ⟨store', bind_ok ran, broken.faulty⟩
        · omega
      rcases outcome with stopped | ⟨store'', ran', faulty⟩
      · rw [stopped] at ran
        cases ran
      · rw [ran'] at ran
        cases ran
        exact represents'.not_faulty faulty

end DeleteCorrect

/-- For every search tree with correct parent pointers and every key but the
root's: `delete` does what it is for exactly when the node with the key, if
there is one, is a right child with a left child and no right child. -/
theorem deleteCorrect_iff_removable (store : Store) (root : Addr) (tree : Tree) (key : Int)
    (fuel : Nat) (represents : Represents store root tree) (ordered : tree.Ordered)
    (notRoot : ∀ node, store.node root = some node → node.key ≠ key)
    (enough : tree.height ≤ fuel) :
    DeleteCorrect fuel store root tree key ↔ Removable key false tree := by
  refine ⟨DeleteCorrect.removable represents ordered enough notRoot, fun removable => ?_⟩
  by_cases absent : tree.find? key = none
  · exact DeleteCorrect.of_absent represents ordered enough absent
  · exact DeleteCorrect.of_removable represents ordered enough absent notRoot removable

/-- The root 100 with the right child 120, which has the left child 110. -/
def bentStore : Store :=
  ((Store.empty.write 0 ⟨100, 0, none, none, some 1⟩).write 1
    ⟨120, 6, some 0, some 2, none⟩).write 2 ⟨110, 7, some 1, none, none⟩

def bentTree : Tree := .node 0 100 0 .nil (.node 1 120 6 (.node 2 110 7 .nil .nil) .nil)

theorem deleteCorrect_iff_removable_bent : DeleteCorrect 3 bentStore 0 bentTree 120 :=
  (deleteCorrect_iff_removable bentStore 0 bentTree 120 3
    ⟨⟨rfl, trivial, rfl, ⟨rfl, trivial, trivial⟩, trivial⟩, rfl, by decide⟩ (by decide)
    (by rintro _ ⟨⟩; decide) (by decide)).mpr (by simp [Removable, bentTree])

/-- The root 100 with the leaf 50 on its left. -/
def leafStore : Store :=
  (Store.empty.write 0 ⟨100, 0, none, some 1, none⟩).write 1 ⟨50, 5, some 0, none, none⟩

def leafTree : Tree := .node 0 100 0 (.node 1 50 5 .nil .nil) .nil

theorem leafStore_represents : Represents leafStore 0 leafTree :=
  ⟨⟨rfl, ⟨rfl, trivial, trivial⟩, trivial⟩, rfl, by decide⟩

/-- Deleting a leaf dereferences `NULL`. -/
theorem delete_leaf_dereferences_null :
    Represents leafStore 0 leafTree ∧ leafTree.Ordered ∧
      (∀ node, leafStore.node 0 = some node → node.key ≠ 50) ∧
      delete ignored 2 (some 0) 50 ⟨leafStore, ()⟩ = .error .nullDereference ∧
      ¬ DeleteCorrect 2 leafStore 0 leafTree 50 := by
  have stopped : delete ignored 2 (some 0) 50 ⟨leafStore, ()⟩ = .error .nullDereference := rfl
  refine ⟨leafStore_represents, by decide, by rintro _ ⟨⟩; decide, stopped, ?_⟩
  rintro ⟨code, store', ran, _⟩
  rw [stopped] at ran
  cases ran

end LinuxProgramming.BinaryTree
