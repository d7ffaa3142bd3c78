import LinuxProgramming.BinaryTree.Shape

/-!
Contract: what `delete` does at the node that holds the key, when locking is
ignored.

Owns:
- the exact store after `replaceInParent`, `rehang`, `unlink` and `deleteHere`;
- the null dereference at a node without left child.

Does not own: the descent to the node, or which trees the stores hold.
-/

namespace LinuxProgramming.BinaryTree

open LinuxProgramming.Library

theorem Store.write_allocated (store : Store) (addr : Addr) (written : BtNode) {other : Addr}
    (allocated : ∃ node, store.node other = some node) :
    ∃ node, (store.write addr written).node other = some node := by
  by_cases same : other = addr
  · exact ⟨written, by rw [same, Store.write_same]⟩
  · exact allocated.imp fun node found => (store.write_other written same).trans found

/-- The parent's node after `replaceInParent`: the left child is replaced when
it is the node, the right child in every other case. -/
def BtNode.replaceChild (parent : BtNode) (addr : Addr) (child : Ptr) : BtNode :=
  if parent.lChild = some addr then { parent with lChild := child }
  else { parent with rChild := child }

theorem replaceInParent_eval {store : Store} {addr parent : Addr} {node parentNode : BtNode}
    (allocated : store.node addr = some node) (isParent : node.parent = some parent)
    (parentAllocated : store.node parent = some parentNode) (child : Ptr) :
    replaceInParent (some addr) child (⟨store, ()⟩ : World Unit) =
      .ok ((), ⟨store.write parent (parentNode.replaceChild addr child), ()⟩) := by
  rw [replaceInParent, load_bind allocated, isParent,
    load_bind parentAllocated, BtNode.replaceChild]
  split
  · exact assign_ok parentAllocated _
  · exact assign_ok parentAllocated _

/-- Without a left child the first assignment of the common end dereferences
`NULL`. -/
theorem unlink_null {store : Store} {addr : Addr} {node : BtNode}
    (allocated : store.node addr = some node) (noLeft : node.lChild = none) :
    unlink ignored (some addr) ⟨store, ()⟩ = .error .nullDereference := by
  rw [unlink, load_bind allocated, noLeft]
  rfl

/-- The store after `unlink` at a node with a left child. -/
def Store.unlinked (store : Store) (addr parent left : Addr) (parentNode leftNode : BtNode) :
    Store :=
  ((store.write left { leftNode with parent := some parent }).write parent
    (parentNode.replaceChild addr (some left))).erase addr

section Unlinked

variable {store : Store} {addr parent left other : Addr} {parentNode leftNode : BtNode}

theorem Store.unlinked_other (notAddr : other ≠ addr) (notParent : other ≠ parent)
    (notLeft : other ≠ left) :
    (store.unlinked addr parent left parentNode leftNode).node other = store.node other := by
  rw [Store.unlinked, Store.erase_other _ notAddr, Store.write_other _ _ notParent,
    Store.write_other _ _ notLeft]

theorem Store.unlinked_left (notAddr : left ≠ addr) (notParent : left ≠ parent) :
    (store.unlinked addr parent left parentNode leftNode).node left =
      some { leftNode with parent := some parent } := by
  rw [Store.unlinked, Store.erase_other _ notAddr, Store.write_other _ _ notParent,
    Store.write_same]

theorem Store.unlinked_parent (notAddr : parent ≠ addr) :
    (store.unlinked addr parent left parentNode leftNode).node parent =
      some (parentNode.replaceChild addr (some left)) := by
  rw [Store.unlinked, Store.erase_other _ notAddr, Store.write_same]

end Unlinked

theorem unlink_eval {store : Store} {addr parent left : Addr}
    {node parentNode leftNode : BtNode} (allocated : store.node addr = some node)
    (isLeft : node.lChild = some left) (isParent : node.parent = some parent)
    (leftAllocated : store.node left = some leftNode)
    (parentAllocated : store.node parent = some parentNode)
    (rightAllocated : ∀ right, node.rChild = some right →
      ∃ rightNode, store.node right = some rightNode)
    (notLeft : addr ≠ left) (notAbove : parent ≠ left) :
    unlink ignored (some addr) ⟨store, ()⟩ =
      .ok (0, ⟨store.unlinked addr parent left parentNode leftNode, ()⟩) := by
  let moved := store.write left { leftNode with parent := some parent }
  let relinked := moved.write parent (parentNode.replaceChild addr (some left))
  have nodeMoved : moved.node addr = some node := (store.write_other _ notLeft).trans allocated
  have parentMoved : moved.node parent = some parentNode :=
    (store.write_other _ notAbove).trans parentAllocated
  have still {other : Addr} (before : ∃ found, store.node other = some found) :
      ∃ found, relinked.node other = some found :=
    Store.write_allocated _ _ _ (Store.write_allocated _ _ _ before)
  obtain ⟨lastNode, lastAllocated⟩ := still ⟨node, allocated⟩
  rw [unlink, load_bind allocated, isLeft, isParent,
    assign_bind leftAllocated,
    bind_ok (replaceInParent_eval nodeMoved isParent parentMoved (some left)),
    attempt_zero (unlockNode_ignored (still ⟨parentNode, parentAllocated⟩)),
    attempt_zero (unlessNull_ignored
      (by rintro _ ⟨⟩; exact unlockNode_ignored (still ⟨leftNode, leftAllocated⟩))),
    attempt_zero (unlessNull_ignored
      (fun right isRight => unlockNode_ignored (still (rightAllocated right isRight)))),
    attempt_zero (destroy_ignored ⟨_, lastAllocated⟩)]
  rfl

/-! ### Hanging the right subtree below the left child -/

/-- One child pointer is followed. -/
def Child (store : Store) (above below : Addr) : Prop :=
  ∃ node, store.node above = some node ∧
    (node.lChild = some below ∨ node.rChild = some below)

/-- Where the loop stops when every key it meets is smaller than `rKey`: at the
last node of the right spine, which gets `right` as its right child, while the
node being deleted gets that last node as its right child. -/
theorem rehang_eval {store : Store} {addr : Addr} {self : BtNode} {above : Ptr} {tree : Tree}
    {start : Addr} {fuel : Nat} {rKey : Int}
    (selfAllocated : store.node addr = some self) (outside : addr ∉ tree.labels)
    (shape : TreeAt store above tree) (rootAt : tree.root = some start)
    (smaller : ∀ key ∈ tree.keys, ¬ rKey < key) (enough : tree.height ≤ fuel) :
    ∃ last lastNode, last ∈ tree.labels ∧ store.node last = some lastNode ∧
      lastNode.rChild = none ∧
      Relation.ReflTransGen (Child store) start last ∧
      rehang ignored fuel (some addr) (some start) rKey ⟨store, ()⟩ =
        .ok (none, ⟨(store.write last { lastNode with rChild := self.rChild }).write addr
          { self with rChild := some last }, ()⟩) := by
  induction tree generalizing above start fuel with
  | nil => cases rootAt
  | node label nodeKey nodeValue left right leftHypothesis rightHypothesis =>
      cases rootAt
      obtain ⟨here, leftShape, rightShape⟩ := shape
      simp only [LabelledTree.labels, List.mem_cons, List.mem_append, not_or] at outside
      simp only [LabelledTree.keys_node, List.mem_append, List.mem_cons] at smaller
      obtain ⟨fuel, rfl⟩ : ∃ less, fuel = less + 1 :=
        Nat.exists_eq_succ_of_ne_zero (by simp only [LabelledTree.height] at enough; omega)
      simp only [LabelledTree.height, Nat.add_le_add_iff_right, Nat.max_le] at enough
      cases rightRoot : right.root with
      | none =>
          refine ⟨label, _, by simp [LabelledTree.labels], here, rightRoot, .refl, ?_⟩
          have notHere := outside.1
          rw [rehang, load_bind here,
            load_bind selfAllocated]
          dsimp only
          rw [if_neg (smaller nodeKey (.inr (.inl rfl))), rightRoot, if_neg (by simp),
            assign_bind here]
          rw [assign_bind ((store.write_other _ notHere).trans
            selfAllocated)]
          rfl
      | some next =>
          obtain ⟨nextNode, nextAllocated, nextParent⟩ := rightShape.root_allocated rightRoot
          obtain ⟨last, lastNode, member, lastAllocated, noRight, path, ran⟩ :=
            rightHypothesis outside.2.2 rightShape rightRoot
              (fun key member => smaller key (.inr (.inr member))) enough.2
          refine ⟨last, lastNode, by simp [LabelledTree.labels, member], lastAllocated, noRight,
            .head ⟨_, here, .inr rightRoot⟩ path, ?_⟩
          rw [rehang, load_bind here,
            load_bind selfAllocated]
          dsimp only
          rw [if_neg (smaller nodeKey (.inr (.inl rfl))), rightRoot, if_pos (by simp),
            attempt_zero (lockNode_ignored ⟨_, nextAllocated⟩),
            load_bind nextAllocated, nextParent,
            bind_ok (unlockNode_ignored ⟨_, here⟩)]
          exact ran

/-! ### At the node that holds the key -/

section DeleteHere

variable {store : Store} {parent addr : Addr} {parentNode : BtNode} {key value : Int}
  {left right : Tree} {fuel : Nat}

/-- The node to delete is a child of `parent`, outside its subtree. -/
structure Target (store : Store) (parent addr : Addr) (parentNode : BtNode)
    (key value : Int) (left right : Tree) : Prop where
  nodeAt : NodeAt store (some parent) addr key value left right
  parentAllocated : store.node parent = some parentNode
  notSelf : parent ≠ addr
  notLeft : parent ∉ left.labels
  notRight : parent ∉ right.labels

variable (target : Target store parent addr parentNode key value left right)

include target

/-- The nodes below are neither the node to delete nor its parent. -/
theorem Target.leftApart {other : Addr} (member : other ∈ left.labels) :
    other ≠ addr ∧ other ≠ parent := by
  constructor
  · rintro rfl
    exact target.nodeAt.notLeft member
  · rintro rfl
    exact target.notLeft member

theorem Target.rightApart {other : Addr} (member : other ∈ right.labels) :
    other ≠ addr ∧ other ≠ parent := by
  constructor
  · rintro rfl
    exact target.nodeAt.notRight member
  · rintro rfl
    exact target.notRight member

/-- The locking that precedes every case. -/
theorem Target.deleteHere_eq :
    deleteHere ignored fuel (some addr) ⟨store, ()⟩ =
      (if left.root ≠ none ∧ right.root ≠ none then do
        let child ← load right.root
        match ← rehang ignored fuel (some addr) left.root child.key with
        | some retval => pure retval
        | none => unlink ignored (some addr)
      else if left.root ≠ none then do
        replaceInParent (some addr) left.root
        unlink ignored (some addr)
      else do
        replaceInParent (some addr) right.root
        unlink ignored (some addr)) ⟨store, ()⟩ := by
  have lockChild {tree : Tree} (shape : TreeAt store (some addr) tree) :
      unlessNull tree.root (lockNode ignored) ⟨store, ()⟩ = .ok (0, ⟨store, ()⟩) := by
    apply unlessNull_ignored
    intro child isChild
    obtain ⟨node, allocated, _⟩ := shape.root_allocated isChild
    exact lockNode_ignored ⟨node, allocated⟩
  rewrite [deleteHere, load_bind target.nodeAt.here,
    attempt_zero (lockChild target.nodeAt.leftShape),
    attempt_zero (lockChild target.nodeAt.rightShape)]
  rfl

/-- Without a left child `delete` dereferences `NULL`. -/
theorem Target.noLeft (empty : left.root = none) :
    deleteHere ignored fuel (some addr) ⟨store, ()⟩ = .error .nullDereference := by
  have here := target.nodeAt.here
  have moved := (store.write_other
    (parentNode.replaceChild addr right.root) target.notSelf.symm).trans here
  rw [target.deleteHere_eq, if_neg (by simp [empty]), if_neg (by simp [empty]),
    bind_ok (replaceInParent_eval here rfl target.parentAllocated _)]
  exact unlink_null moved empty

/-- With a left child only, the parent is rewired twice. -/
theorem Target.onlyLeft {child : Addr} {childNode : BtNode} (isLeft : left.root = some child)
    (childAllocated : store.node child = some childNode) (noRight : right.root = none) :
    deleteHere ignored fuel (some addr) ⟨store, ()⟩ =
      .ok (0, ⟨(store.write parent (parentNode.replaceChild addr (some child))).unlinked addr
        parent child (parentNode.replaceChild addr (some child)) childNode, ()⟩) := by
  have here := target.nodeAt.here
  obtain ⟨childNotAddr, childNotParent⟩ :=
    target.leftApart (LabelledTree.root_mem_labels isLeft)
  rw [target.deleteHere_eq, if_neg (by simp [noRight]), if_pos (by simp [isLeft]),
    isLeft, bind_ok (replaceInParent_eval here rfl target.parentAllocated _)]
  exact unlink_eval ((store.write_other _ target.notSelf.symm).trans here) isLeft rfl
    ((store.write_other _ childNotParent).trans childAllocated) (Store.write_same ..)
    (by simp [noRight]) childNotAddr.symm childNotParent.symm

omit target in
/-- What that leaves alone. -/
theorem onlyLeft_other {child other : Addr} {childNode : BtNode}
    (isLeft : left.root = some child)
    (outside : other ∉ (LabelledTree.node addr key value left right : Tree).labels)
    (notParent : other ≠ parent) :
    ((store.write parent (parentNode.replaceChild addr (some child))).unlinked addr parent child
      (parentNode.replaceChild addr (some child)) childNode).node other = store.node other := by
  simp only [LabelledTree.labels, List.mem_cons, List.mem_append, not_or] at outside
  have notChild : other ≠ child := by
    rintro rfl
    exact outside.2.1 (LabelledTree.root_mem_labels isLeft)
  rw [Store.unlinked_other outside.1 notParent notChild, Store.write_other _ _ notParent]

/-- With both children the right subtree hangs below the last node of the left
subtree's right spine, but its root keeps the deleted node as its parent. -/
theorem Target.both {child sibling : Addr} {childNode : BtNode}
    (isLeft : left.root = some child) (childAllocated : store.node child = some childNode)
    (isRight : right.root = some sibling)
    (ordered : (LabelledTree.node addr key value left right : Tree).Ordered)
    (enough : left.height ≤ fuel) :
    ∃ last lastNode childNode', last ∈ left.labels ∧ store.node last = some lastNode ∧
      Relation.ReflTransGen (Child store) child last ∧ lastNode.rChild = none ∧
      childNode' = (if child = last then { lastNode with rChild := some sibling }
        else childNode) ∧
      deleteHere ignored fuel (some addr) ⟨store, ()⟩ =
        .ok (0, ⟨((store.write last { lastNode with rChild := some sibling }).write addr
          ⟨key, value, some parent, some child, some last⟩).unlinked addr parent child parentNode
            childNode', ()⟩) := by
  obtain ⟨leftOrdered, rightOrdered, below, above⟩ := ordered
  have here := target.nodeAt.here
  obtain ⟨siblingNode, siblingAllocated, _⟩ := target.nodeAt.rightShape.root_allocated isRight
  have siblingKey : siblingNode.key ∈ right.keys := by
    cases right with
    | nil => cases isRight
    | node label rightKey rightValue rightLeft rightRight =>
        cases isRight
        have stored := target.nodeAt.rightShape.1
        rw [siblingAllocated] at stored
        cases stored
        simp
  have smaller : ∀ other ∈ left.keys, ¬ siblingNode.key < other := by
    intro other otherMember
    have := below other otherMember
    have := above _ siblingKey
    omega
  obtain ⟨last, lastNode, member, lastAllocated, noRight, path, ran⟩ :=
    rehang_eval here target.nodeAt.notLeft target.nodeAt.leftShape isLeft smaller enough
  obtain ⟨childNotAddr, childNotParent⟩ :=
    target.leftApart (LabelledTree.root_mem_labels isLeft)
  have lastNotParent := (target.leftApart member).2
  simp only [isLeft, isRight] at ran
  let hung := (store.write last { lastNode with rChild := some sibling }).write addr
    ⟨key, value, some parent, some child, some last⟩
  have hungAddr : hung.node addr = some ⟨key, value, some parent, some child, some last⟩ :=
    Store.write_same ..
  have hungChild : hung.node child =
      some (if child = last then { lastNode with rChild := some sibling } else childNode) := by
    rw [Store.write_other _ _ childNotAddr]
    split
    case isTrue same => rw [same, Store.write_same]
    case isFalse different => rw [Store.write_other _ _ different, childAllocated]
  have hungParent : hung.node parent = some parentNode := by
    rw [Store.write_other _ _ target.notSelf, Store.write_other _ _ lastNotParent.symm,
      target.parentAllocated]
  have hungLast : ∃ node, hung.node last = some node :=
    Store.write_allocated _ _ _ ⟨_, Store.write_same ..⟩
  refine ⟨last, lastNode, _, member, lastAllocated, path, noRight, rfl, ?_⟩
  rw [target.deleteHere_eq, if_pos (by simp [isLeft, isRight]), isRight,
    load_bind siblingAllocated, isLeft, bind_ok ran]
  exact unlink_eval hungAddr rfl rfl hungChild hungParent (by rintro _ ⟨⟩; exact hungLast)
    childNotAddr.symm childNotParent.symm

end DeleteHere

end LinuxProgramming.BinaryTree
