import LinuxProgramming.BinaryTree.Delete
import LinuxProgramming.BinaryTree.Locks
import LinuxProgramming.Library.TransitionSystem

/-!
Contract: whole sessions of `add`, `delete` and `lookup` calls on one tree, when locking is
ignored.

Owns:
- the map that the calls so far make, and the answer each call should give;
- which calls are allowed in a state of the store;
- the refinement of the map by the tree in every reachable state.

Does not own: what a `delete` that is not allowed does to the store.
-/

namespace LinuxProgramming.BinaryTree

open LinuxProgramming.Library

/-! ### The map -/

/-- What a call makes of the map. -/
def Call.update : Call → (Int → Option Int) → Int → Option Int
  | .add key value, stored => Function.update stored key (some value)
  | .delete key, stored => Function.update stored key none
  | .lookup _ _, stored => stored

/-- What a call should return. -/
def Call.answer : Call → (Int → Option Int) → Int
  | .add _ _, _ => 0
  | .delete _, _ => 0
  | .lookup key _, stored => if (stored key).isSome then 0 else -1

/-! ### Sessions -/

/-- The store, and the map that the calls so far have made. -/
structure Session where
  store : Store
  stored : Int → Option Int

section Sessions

variable (allocator : Allocator) (root : Addr)

/-- One call, with the fuel it gets; `none` where it does not return. -/
def act : Nat × Call → Session → Option Session
  | (fuel, call), session =>
      match call.run ignored allocator fuel root ⟨session.store, ()⟩ with
      | .ok (_, world) => some ⟨world.store, call.update session.stored⟩
      | .error _ => none

/-- Not the key of the root; and the node that holds the key, if there is one, can be removed. -/
def Call.Safe (tree : Tree) : Call → Prop
  | .add _ _ => True
  | .delete key => (∀ value left right, tree ≠ .node root key value left right) ∧
      Removable key false tree
  | .lookup _ _ => True

/-- The call is safe, and has fuel for the nodes of the tree and one more. -/
def Allowed : Nat × Call → Session → Prop
  | (fuel, call), session => ∃ tree : Tree, Represents session.store root tree ∧
      call.Safe root tree ∧ tree.labels.length < fuel

/-- After `initialize`. -/
def Started (session : Session) : Prop :=
  (∃ store, (∃ node, store.node root = some node) ∧
    initializeTree ignored (some root) ⟨store, ()⟩ = .ok (0, ⟨session.store, ()⟩)) ∧
  session.stored = mapAfter []

/-- All sessions whose calls are allowed. -/
def sessions : TransitionSystem Session :=
  labelledWhen (Started root) (act allocator root) (Allowed root)

/-- The store holds a search tree for the map. -/
def Refines (session : Session) : Prop :=
  ∃ tree : Tree, Represents session.store root tree ∧ tree.Ordered ∧
    ∀ key, tree.find? key = session.stored key

end Sessions

/-! ### One call -/

section Calls

variable {allocator : Allocator} {root : Addr} {session : Session} {tree other : Tree}
  {store : Store} {fuel : Nat} {key : Int}

/-- There is one tree below a node. -/
theorem TreeAt.unique {parent parent' : Ptr} (shape : TreeAt store parent tree)
    (again : TreeAt store parent' other) (sameRoot : tree.root = other.root) : tree = other := by
  induction tree generalizing parent parent' other with
  | nil =>
      cases other with
      | nil => rfl
      | node => cases sameRoot
  | node addr nodeKey value left right leftHypothesis rightHypothesis =>
      cases other with
      | nil => cases sameRoot
      | node addr' nodeKey' value' left' right' =>
          cases sameRoot
          obtain ⟨here, leftShape, rightShape⟩ := shape
          obtain ⟨here', leftShape', rightShape'⟩ := again
          have nodes := Option.some.inj (here.symm.trans here')
          simp only [BtNode.mk.injEq] at nodes
          obtain ⟨rfl, rfl, -, leftRoot, rightRoot⟩ := nodes
          rw [leftHypothesis leftShape leftShape' leftRoot,
            rightHypothesis rightShape rightShape' rightRoot]

theorem Represents.unique (represents : Represents store root tree)
    (again : Represents store root other) : tree = other :=
  represents.shape.unique again.shape (represents.rootAt.trans again.rootAt.symm)

/-- A search tree is a map: it has the pairs of its keys. -/
theorem find?_congr {tree tree' : Tree} (ordered : tree.Ordered) (ordered' : tree'.Ordered)
    {wanted : Int}
    (entries : ∀ stored, (wanted, stored) ∈ tree'.entries ↔ (wanted, stored) ∈ tree.entries) :
    tree'.find? wanted = tree.find? wanted := by
  apply Option.ext
  intro stored
  rw [LabelledTree.find?_eq_some_iff ordered', LabelledTree.find?_eq_some_iff ordered, entries]

/-- The recursive result is dropped, so a `delete` that returns returns 0. -/
theorem delete_returns_zero (represents : Represents store root tree)
    (notRoot : ∀ value left right, tree ≠ .node root key value left right) {code : Int}
    {world : World Unit}
    (ran : delete ignored fuel (some root) key ⟨store, ()⟩ = .ok (code, world)) : code = 0 := by
  obtain ⟨shape, rootAt, -⟩ := represents
  have above : AboveAllocated store none := by rintro _ ⟨⟩
  have dropped : ∀ child, (do let _ ← delete ignored (fuel - 1) (some child) key; pure 0 :
      Prog Unit Int) ⟨store, ()⟩ = .ok (code, world) → code = 0 := by
    intro child ended
    cases inner : delete ignored (fuel - 1) (some child) key ⟨store, ()⟩ with
    | error reason =>
        rw [bind_error inner] at ended
        cases ended
    | ok result =>
        rw [bind_ok inner] at ended
        cases ended
        rfl
  cases tree with
  | nil => cases rootAt
  | node addr nodeKey value left right =>
      cases rootAt
      cases fuel with
      | zero => cases ran
      | succ fuel =>
          have different : key ≠ nodeKey := by
            rintro rfl
            exact notRoot value left right rfl
          by_cases less : key < nodeKey
          · cases childAt : left.root with
            | some child =>
                exact dropped child ((delete_left shape above less childAt).symm.trans ran)
            | none =>
                rw [delete_ignored shape.1 above] at ran
                dsimp only at ran
                rw [if_pos less, if_pos childAt] at ran
                cases ran
                rfl
          · have greater : nodeKey < key := by omega
            cases childAt : right.root with
            | some child =>
                exact dropped child ((delete_right shape above greater childAt).symm.trans ran)
            | none =>
                rw [delete_ignored shape.1 above] at ran
                dsimp only at ran
                rw [if_neg less, if_neg different, if_pos childAt] at ran
                cases ran
                rfl

/-- An allowed call answers as the map does, and the tree follows the map. -/
theorem act_refines (refines : Refines root session) {call : Call}
    (allowed : Allowed root (fuel, call) session) :
    ∃ store', call.run ignored allocator fuel root ⟨session.store, ()⟩ =
        .ok (call.answer session.stored, ⟨store', ()⟩) ∧
      Refines root ⟨store', call.update session.stored⟩ := by
  obtain ⟨tree, represents, ordered, map⟩ := refines
  obtain ⟨again, represents', safe, enough⟩ := allowed
  obtain rfl := represents.unique represents'
  have height := tree.height_le_length_labels
  have stores : Stores fuel session.store root tree session.stored :=
    .of_represents represents ordered map (height.trans enough.le)
  cases call with
  | add key value =>
      obtain ⟨store', tree', ran, stores', -, -⟩ := add_stores allocator stores enough key value
      exact ⟨store', ran, tree', stores'.represents, stores'.ordered, stores'.map⟩
  | lookup key value =>
      exact ⟨session.store, stores.lookup key value, tree, represents, ordered, map⟩
  | delete key =>
      obtain ⟨notRoot, removable⟩ := safe
      have correct : DeleteCorrect fuel session.store root tree key := by
        by_cases absent : tree.find? key = none
        · exact .of_absent represents ordered (height.trans enough.le) absent
        · refine .of_removable represents ordered (height.trans enough.le) absent ?_ removable
          intro node allocated sameKey
          cases tree with
          | nil => exact absent rfl
          | node addr nodeKey value left right =>
              have atRoot := represents.rootAt
              cases atRoot
              rw [represents.shape.1] at allocated
              cases allocated
              exact notRoot value left right (by rw [← sameKey])
      obtain ⟨code, store', ran, ⟨tree', represents'', ordered', entries⟩, -⟩ := correct
      obtain rfl := delete_returns_zero represents notRoot ran
      refine ⟨store', ran, tree', represents'', ordered', ?_⟩
      intro wanted
      simp only [Call.update, Function.update_apply]
      split_ifs with same
      · subst same
        rw [LabelledTree.find?_eq_none_iff ordered']
        intro member
        obtain ⟨⟨_, held⟩, isEntry, rfl⟩ := List.mem_map.mp member
        exact ((entries _ _).mp isEntry).2 rfl
      · rw [← map]
        apply find?_congr ordered ordered'
        intro held
        rw [entries, and_iff_left same]

end Calls

/-! ### Runs -/

theorem started_refines {root : Addr} {session : Session} (started : Started root session) :
    Refines root session := by
  obtain ⟨⟨store, ⟨node, allocated⟩, ran⟩, stored⟩ := started
  obtain ⟨store', ran', stores⟩ := initializeTree_stores allocated 1 Nat.one_pos
  rw [ran] at ran'
  cases ran'
  exact ⟨_, stores.represents, stores.ordered, fun key => stored ▸ stores.map key⟩

theorem sessions_inductive (allocator : Allocator) (root : Addr) :
    (sessions allocator root).Inductive (Refines root) where
  init _ started := started_refines started
  step := by
    rintro before after refines ⟨⟨fuel, call⟩, allowed, acted⟩
    obtain ⟨store', ran, refines'⟩ := act_refines refines allowed
    rw [act, ran] at acted
    cases acted
    exact refines'

/-- A tree that has just been initialised. -/
def newSession : Session := ⟨oneNode.write 0 ⟨100, 0, none, none, none⟩, mapAfter []⟩

theorem newSession_represents :
    Represents newSession.store 0 (.node 0 100 0 .nil .nil) :=
  ⟨⟨rfl, trivial, trivial⟩, rfl, by simp [LabelledTree.labels]⟩

end LinuxProgramming.BinaryTree
