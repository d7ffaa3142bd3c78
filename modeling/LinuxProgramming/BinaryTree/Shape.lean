import LinuxProgramming.Library.SearchTree
import LinuxProgramming.BinaryTree.Model

/-!
Contract: which stores hold which trees, and how each primitive of the program
acts on a store that holds one.

Owns:
- `TreeAt` and `Represents`: the nodes of a tree, with correct child and parent
  pointers, at pairwise distinct addresses;
- the frame rules of `TreeAt`;
- evaluation rules for dereference, assignment and mutex calls.

Does not own: `add`, `delete` and `lookup`.
-/

namespace LinuxProgramming.BinaryTree

open LinuxProgramming.Library

abbrev Tree := LabelledTree Addr Int Int

/-- The nodes of `tree` are in the store; the parent of its root is `parent`. -/
def TreeAt (store : Store) : Ptr → Tree → Prop
  | _, .nil => True
  | parent, .node addr key value left right =>
      store.node addr = some ⟨key, value, parent, left.root, right.root⟩ ∧
        TreeAt store (some addr) left ∧ TreeAt store (some addr) right

/-- A whole tree: the root has no parent and no node occurs twice. -/
structure Represents (store : Store) (root : Addr) (tree : Tree) : Prop where
  shape : TreeAt store none tree
  rootAt : tree.root = some root
  distinct : tree.labels.Nodup

theorem TreeAt.allocated {store : Store} {parent : Ptr} {tree : Tree}
    (shape : TreeAt store parent tree) {addr : Addr} (member : addr ∈ tree.labels) :
    ∃ node, store.node addr = some node := by
  induction tree generalizing parent with
  | nil => cases member
  | node label key value left right leftHypothesis rightHypothesis =>
      obtain ⟨here, leftShape, rightShape⟩ := shape
      simp only [LabelledTree.labels, List.mem_cons, List.mem_append] at member
      rcases member with rfl | member | member
      · exact ⟨_, here⟩
      · exact leftHypothesis leftShape member
      · exact rightHypothesis rightShape member

/-- A tree only depends on its own nodes. -/
theorem TreeAt.frame {store store' : Store} {parent : Ptr} {tree : Tree}
    (shape : TreeAt store parent tree)
    (same : ∀ addr ∈ tree.labels, store'.node addr = store.node addr) :
    TreeAt store' parent tree := by
  induction tree generalizing parent with
  | nil => trivial
  | node label key value left right leftHypothesis rightHypothesis =>
      obtain ⟨here, leftShape, rightShape⟩ := shape
      simp only [LabelledTree.labels, List.forall_mem_cons, List.forall_mem_append] at same
      obtain ⟨sameHere, sameLeft, sameRight⟩ := same
      exact ⟨sameHere.trans here, leftHypothesis leftShape sameLeft,
        rightHypothesis rightShape sameRight⟩

/-- The address of a root that is not null. -/
theorem TreeAt.root_allocated {store : Store} {parent : Ptr} {tree : Tree}
    (shape : TreeAt store parent tree) {addr : Addr} (root : tree.root = some addr) :
    ∃ node, store.node addr = some node ∧ node.parent = parent := by
  cases tree with
  | nil => cases root
  | node label key value left right =>
      cases root
      exact ⟨_, shape.1, rfl⟩

/-- The facts about one node that every case of the induction uses. -/
structure NodeAt (store : Store) (parent : Ptr) (label : Addr) (nodeKey nodeValue : Int)
    (left right : Tree) : Prop where
  here : store.node label = some ⟨nodeKey, nodeValue, parent, left.root, right.root⟩
  leftShape : TreeAt store (some label) left
  rightShape : TreeAt store (some label) right
  notLeft : label ∉ left.labels
  notRight : label ∉ right.labels
  leftDistinct : left.labels.Nodup
  rightDistinct : right.labels.Nodup
  apart : left.labels.Disjoint right.labels

theorem NodeAt.of_shape {store : Store} {parent : Ptr} {label : Addr} {nodeKey nodeValue : Int}
    {left right : Tree}
    (shape : TreeAt store parent (.node label nodeKey nodeValue left right))
    (distinct : (LabelledTree.node label nodeKey nodeValue left right : Tree).labels.Nodup) :
    NodeAt store parent label nodeKey nodeValue left right := by
  simp only [LabelledTree.labels, List.nodup_cons, List.nodup_append', List.mem_append,
    not_or] at distinct
  obtain ⟨⟨notLeft, notRight⟩, leftDistinct, rightDistinct, apart⟩ := distinct
  exact ⟨shape.1, shape.2.1, shape.2.2, notLeft, notRight, leftDistinct, rightDistinct, apart⟩

/-! ### Stores -/

@[simp] theorem Store.write_same (store : Store) (addr : Addr) (node : BtNode) :
    (store.write addr node).node addr = some node :=
  Function.update_self ..

theorem Store.write_other (store : Store) {addr other : Addr} (node : BtNode)
    (different : other ≠ addr) : (store.write addr node).node other = store.node other :=
  Function.update_of_ne different ..

@[simp] theorem Store.erase_same (store : Store) (addr : Addr) :
    (store.erase addr).node addr = none :=
  Function.update_self ..

theorem Store.erase_other (store : Store) {addr other : Addr} (different : other ≠ addr) :
    (store.erase addr).node other = store.node other :=
  Function.update_of_ne different ..

theorem Store.ne_of_allocated {store : Store} {addr other : Addr} {node : BtNode}
    (allocated : store.node addr = some node) (unused : store.node other = none) :
    addr ≠ other := by
  rintro rfl
  rw [allocated] at unused
  cases unused

/-! ### Evaluation -/

section Evaluation

variable {Locks : Type} {α β : Type} {store : Store} {locks : Locks} {world world' : World Locks}
  {addr : Addr} {node : BtNode}

theorem bind_ok {program : Prog Locks α} {next : α → Prog Locks β} {result : α}
    (ran : program world = .ok (result, world')) :
    (program >>= next) world = next result world' := by
  show (program world).bind _ = _
  rw [ran]
  rfl

theorem bind_error {program : Prog Locks α} {next : α → Prog Locks β} {reason : Stop}
    (stopped : program world = .error reason) :
    (program >>= next) world = .error reason := by
  show (program world).bind _ = _
  rw [stopped]
  rfl

theorem load_ok (allocated : store.node addr = some node) :
    load (some addr) (⟨store, locks⟩ : World Locks) = .ok (node, ⟨store, locks⟩) := by
  simp only [load, allocated]

theorem load_bind (allocated : store.node addr = some node) (next : BtNode → Prog Locks β) :
    (load (some addr) >>= next) ⟨store, locks⟩ = next node ⟨store, locks⟩ :=
  bind_ok (load_ok allocated)

theorem assign_ok (allocated : store.node addr = some node) (change : BtNode → BtNode) :
    assign (some addr) change (⟨store, locks⟩ : World Locks) =
      .ok ((), ⟨store.write addr (change node), locks⟩) := by
  simp only [assign, allocated]

theorem assign_bind (allocated : store.node addr = some node) (change : BtNode → BtNode)
    (next : Unit → Prog Locks β) :
    (assign (some addr) change >>= next) ⟨store, locks⟩ =
      next () ⟨store.write addr (change node), locks⟩ :=
  bind_ok (assign_ok allocated change)

theorem attempt_zero {call : Prog Locks Int} {failed : Int → Prog Locks α}
    {next : Prog Locks α} (ran : call world = .ok (0, world')) :
    attempt call failed next world = next world' :=
  bind_ok ran

end Evaluation

/-! ### Ignored locking -/

section Ignored

variable {store : Store} {addr : Addr}

theorem mutexCall_ignored (allocated : ∃ node, store.node addr = some node) :
    mutexCall (fun _ locks => .ok (0, locks)) (some addr) (⟨store, ()⟩ : World Unit) =
      .ok (0, ⟨store, ()⟩) := by
  obtain ⟨node, allocated⟩ := allocated
  simp only [mutexCall, allocated]

theorem lockNode_ignored (allocated : ∃ node, store.node addr = some node) :
    lockNode ignored (some addr) ⟨store, ()⟩ = .ok (0, ⟨store, ()⟩) :=
  mutexCall_ignored allocated

theorem unlockNode_ignored (allocated : ∃ node, store.node addr = some node) :
    unlockNode ignored (some addr) ⟨store, ()⟩ = .ok (0, ⟨store, ()⟩) :=
  mutexCall_ignored allocated

theorem init_ignored (allocated : ∃ node, store.node addr = some node) :
    mutexCall ignored.init (some addr) ⟨store, ()⟩ = .ok (0, ⟨store, ()⟩) :=
  mutexCall_ignored allocated

theorem destroy_ignored (allocated : ∃ node, store.node addr = some node) :
    mutexCall ignored.destroy (some addr) ⟨store, ()⟩ = .ok (0, ⟨store, ()⟩) :=
  mutexCall_ignored allocated

/-- A mutex call that may be skipped, on a pointer that is null or valid. -/
theorem unlessNull_ignored {ptr : Ptr} {call : Ptr → Prog Unit Int}
    (runs : ∀ target, ptr = some target → call (some target) ⟨store, ()⟩ = .ok (0, ⟨store, ()⟩)) :
    unlessNull ptr call ⟨store, ()⟩ = .ok (0, ⟨store, ()⟩) := by
  cases ptr with
  | none => rfl
  | some target => exact runs target rfl

/-- The mutex call on entry that only the root makes. -/
theorem ifRoot_ignored {condition : Prop} [Decidable condition] {call : Prog Unit Int}
    (runs : call ⟨store, ()⟩ = .ok (0, ⟨store, ()⟩)) :
    (if condition then call else pure 0) ⟨store, ()⟩ = .ok (0, ⟨store, ()⟩) := by
  split
  · exact runs
  · rfl

end Ignored

end LinuxProgramming.BinaryTree
