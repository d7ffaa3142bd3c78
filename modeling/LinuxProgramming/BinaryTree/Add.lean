import LinuxProgramming.BinaryTree.Shape

/-!
Contract: what `initializeTree`, `add` and `lookup` do to a tree when locking is
ignored.

Owns:
- the refinement of `add` by insertion into the tree, and of `lookup` by search;
- runs of any sequence of `add` calls after `initializeTree`.

Does not own: `delete`, or the lock discipline.
-/

namespace LinuxProgramming.BinaryTree

open LinuxProgramming.Library

section Steps

variable {allocator : Allocator} {fuel : Nat} {store : Store} {addr : Addr} {node : BtNode}
  {key value : Int}

/-- `add` at one node, with the mutex calls gone. -/
theorem add_ignored (allocated : store.node addr = some node)
    (parentAllocated : ∀ parent, node.parent = some parent →
      ∃ parentNode, store.node parent = some parentNode) :
    add ignored allocator (fuel + 1) (some addr) key value ⟨store, ()⟩ =
      (if key < node.key then
        if node.lChild = none then
          addLeaf ignored allocator (some addr) key value fun tmp node =>
            { node with lChild := tmp }
        else
          attempt (lockNode ignored node.lChild) (unlockAll ignored [some addr]) <|
            add ignored allocator fuel node.lChild key value
      else if key = node.key then do
        assign (some addr) fun node => { node with value := value }
        unlockNode ignored (some addr)
      else
        if node.rChild = none then
          addLeaf ignored allocator (some addr) key value fun tmp node =>
            { node with rChild := tmp }
        else
          attempt (lockNode ignored node.rChild) (unlockAll ignored [some addr]) <|
            add ignored allocator fuel node.rChild key value) ⟨store, ()⟩ := by
  have parentLocked : unlessNull node.parent (lockNode ignored) ⟨store, ()⟩ =
      .ok (0, ⟨store, ()⟩) :=
    unlessNull_ignored fun parent isParent => lockNode_ignored (parentAllocated parent isParent)
  rw [add, load_bind allocated, attempt_zero (ifRoot_ignored (lockNode_ignored ⟨node, allocated⟩)),
    attempt_zero parentLocked]

/-- The store after `addLeaf`. -/
def Store.withLeaf (store : Store) (allocator : Allocator) (addr : Addr) (key value : Int)
    (linked : BtNode) : Store :=
  (store.write (allocator.malloc store) ⟨key, value, some addr, none, none⟩).write addr linked

theorem addLeaf_ignored (allocated : store.node addr = some node)
    (link : Ptr → BtNode → BtNode) :
    addLeaf ignored allocator (some addr) key value link ⟨store, ()⟩ =
      .ok (0, ⟨store.withLeaf allocator addr key value
        (link (some (allocator.malloc store)) node), ()⟩) := by
  have apart : addr ≠ allocator.malloc store :=
    Store.ne_of_allocated allocated (allocator.fresh store)
  let grown := store.write (allocator.malloc store) ⟨key, value, some addr, none, none⟩
  have stillAllocated : grown.node addr = some node :=
    (store.write_other _ apart).trans allocated
  have leafAllocated : grown.node (allocator.malloc store) =
      some ⟨key, value, some addr, none, none⟩ :=
    store.write_same _ _
  have allocatedLeaf : allocate allocator ⟨key, value, some addr, none, none⟩ ⟨store, ()⟩ =
      .ok (some (allocator.malloc store), ⟨grown, ()⟩) := rfl
  rw [addLeaf, bind_ok allocatedLeaf, attempt_zero (init_ignored ⟨_, leafAllocated⟩),
    assign_bind stillAllocated]
  exact unlockNode_ignored ⟨_, Store.write_same ..⟩

theorem Store.withLeaf_other (linked : BtNode) {other : Addr} (notHere : other ≠ addr)
    (notLeaf : other ≠ allocator.malloc store) :
    (store.withLeaf allocator addr key value linked).node other = store.node other :=
  (Store.write_other _ _ notHere).trans (Store.write_other _ _ notLeaf)

theorem Store.withLeaf_leaf (linked : BtNode) (apart : allocator.malloc store ≠ addr) :
    (store.withLeaf allocator addr key value linked).node (allocator.malloc store) =
      some ⟨key, value, some addr, none, none⟩ :=
  (Store.write_other _ _ apart).trans (Store.write_same ..)

theorem Store.withLeaf_here (linked : BtNode) :
    (store.withLeaf allocator addr key value linked).node addr = some linked :=
  Store.write_same ..

end Steps

/-- What `add` achieves on the subtree it is called for: the tree becomes
`tree.insert`, and nothing outside the subtree changes but the new leaf. -/
structure Added (allocator : Allocator) (store : Store) (parent : Ptr) (tree : Tree)
    (key value : Int) (store' : Store) : Prop where
  shape : TreeAt store' parent (tree.insert (allocator.malloc store) key value)
  frame : ∀ addr, addr ∉ tree.labels → addr ≠ allocator.malloc store →
    store'.node addr = store.node addr

section Added

variable {allocator : Allocator} {store store' : Store} {parent : Ptr} {label : Addr}
  {nodeKey nodeValue key value : Int} {left right : Tree}

/-- A node that `malloc` returns is not one of the tree's. -/
theorem TreeAt.not_fresh {tree : Tree} (shape : TreeAt store parent tree) {addr : Addr}
    (member : addr ∈ tree.labels) : addr ≠ allocator.malloc store := by
  obtain ⟨node, allocated⟩ := shape.allocated member
  exact Store.ne_of_allocated allocated (allocator.fresh store)

variable (nodeAt : NodeAt store parent label nodeKey nodeValue left right)

include nodeAt

theorem NodeAt.label_ne_fresh (allocator : Allocator) : label ≠ allocator.malloc store :=
  Store.ne_of_allocated nodeAt.here (allocator.fresh store)

/-- A new leaf as the left child. -/
theorem Added.leafLeft (less : key < nodeKey) (empty : left = .nil) :
    Added allocator store parent (.node label nodeKey nodeValue left right) key value
      (store.withLeaf allocator label key value
        ⟨nodeKey, nodeValue, parent, some (allocator.malloc store), right.root⟩) := by
  subst empty
  have notFresh := nodeAt.label_ne_fresh allocator
  constructor
  · rw [LabelledTree.insert, if_pos less]
    refine ⟨Store.withLeaf_here _, ⟨Store.withLeaf_leaf _ notFresh.symm, trivial, trivial⟩, ?_⟩
    apply nodeAt.rightShape.frame
    intro other member
    apply Store.withLeaf_other
    · rintro rfl
      exact nodeAt.notRight member
    · exact nodeAt.rightShape.not_fresh member
  · intro other outside notLeaf
    simp only [LabelledTree.labels, List.mem_cons, not_or] at outside
    exact Store.withLeaf_other _ outside.1 notLeaf

/-- A new leaf as the right child. -/
theorem Added.leafRight (greater : nodeKey < key) (empty : right = .nil) :
    Added allocator store parent (.node label nodeKey nodeValue left right) key value
      (store.withLeaf allocator label key value
        ⟨nodeKey, nodeValue, parent, left.root, some (allocator.malloc store)⟩) := by
  subst empty
  have notFresh := nodeAt.label_ne_fresh allocator
  constructor
  · rw [LabelledTree.insert, if_neg (by omega), if_pos greater]
    refine ⟨Store.withLeaf_here _, ?_, Store.withLeaf_leaf _ notFresh.symm, trivial, trivial⟩
    apply nodeAt.leftShape.frame
    intro other member
    apply Store.withLeaf_other
    · rintro rfl
      exact nodeAt.notLeft member
    · exact nodeAt.leftShape.not_fresh member
  · intro other outside notLeaf
    simp only [LabelledTree.labels, List.mem_cons, not_or] at outside
    exact Store.withLeaf_other _ outside.1 notLeaf

/-- A change of the left subtree. -/
theorem Added.inLeft (less : key < nodeKey) {child : Addr} (root : left.root = some child)
    (added : Added allocator store (some label) left key value store') :
    Added allocator store parent (.node label nodeKey nodeValue left right) key value store' := by
  have notFresh := nodeAt.label_ne_fresh allocator
  constructor
  · rw [LabelledTree.insert, if_pos less]
    refine ⟨?_, added.shape, ?_⟩
    · rw [added.frame label nodeAt.notLeft notFresh, nodeAt.here,
        LabelledTree.root_insert _ _ _ root, root]
    · apply nodeAt.rightShape.frame
      intro other member
      exact added.frame other (fun inLeft => nodeAt.apart inLeft member)
        (nodeAt.rightShape.not_fresh member)
  · intro other outside notLeaf
    simp only [LabelledTree.labels, List.mem_cons, List.mem_append, not_or] at outside
    exact added.frame other outside.2.1 notLeaf

/-- A change of the right subtree. -/
theorem Added.inRight (greater : nodeKey < key) {child : Addr} (root : right.root = some child)
    (added : Added allocator store (some label) right key value store') :
    Added allocator store parent (.node label nodeKey nodeValue left right) key value store' := by
  have notFresh := nodeAt.label_ne_fresh allocator
  constructor
  · rw [LabelledTree.insert, if_neg (by omega), if_pos greater]
    refine ⟨?_, ?_, added.shape⟩
    · rw [added.frame label nodeAt.notRight notFresh, nodeAt.here,
        LabelledTree.root_insert _ _ _ root, root]
    · apply nodeAt.leftShape.frame
      intro other member
      exact added.frame other (fun inRight => nodeAt.apart member inRight)
        (nodeAt.leftShape.not_fresh member)
  · intro other outside notLeaf
    simp only [LabelledTree.labels, List.mem_cons, List.mem_append, not_or] at outside
    exact added.frame other outside.2.2 notLeaf

/-- The key is already there. -/
theorem Added.overwrite (same : key = nodeKey) :
    Added allocator store parent (.node label nodeKey nodeValue left right) key value
      (store.write label ⟨nodeKey, value, parent, left.root, right.root⟩) := by
  constructor
  · rw [LabelledTree.insert, if_neg (by omega), if_neg (by omega)]
    refine ⟨Store.write_same .., ?_, ?_⟩
    · apply nodeAt.leftShape.frame
      intro other member
      apply Store.write_other
      rintro rfl
      exact nodeAt.notLeft member
    · apply nodeAt.rightShape.frame
      intro other member
      apply Store.write_other
      rintro rfl
      exact nodeAt.notRight member
  · intro other outside _
    simp only [LabelledTree.labels, List.mem_cons, not_or] at outside
    exact Store.write_other _ _ outside.1

end Added

/-- `add` refines insertion. The induction is on the tree: each recursive call
is for a child, on the same store. -/
theorem add_refines (allocator : Allocator) {store : Store} {parent : Ptr} {tree : Tree}
    {fuel : Nat} {addr : Addr} (key value : Int) (shape : TreeAt store parent tree)
    (distinct : tree.labels.Nodup) (rootAt : tree.root = some addr)
    (parentAllocated : ∀ above, parent = some above → ∃ node, store.node above = some node)
    (enough : tree.height ≤ fuel) :
    ∃ store', add ignored allocator fuel (some addr) key value ⟨store, ()⟩ =
        .ok (0, ⟨store', ()⟩) ∧
      Added allocator store parent tree key value store' := by
  induction tree generalizing parent addr fuel with
  | nil => cases rootAt
  | node label nodeKey nodeValue left right leftHypothesis rightHypothesis =>
      cases rootAt
      have nodeAt := NodeAt.of_shape shape distinct
      have ownParent : ∀ above, some label = some above → ∃ node, store.node above = some node := by
        rintro above ⟨⟩
        exact ⟨_, nodeAt.here⟩
      obtain ⟨fuel, rfl⟩ : ∃ less, fuel = less + 1 :=
        Nat.exists_eq_succ_of_ne_zero (by simp only [LabelledTree.height] at enough; omega)
      simp only [LabelledTree.height, Nat.add_le_add_iff_right, Nat.max_le] at enough
      rw [add_ignored nodeAt.here parentAllocated]
      dsimp only
      rcases lt_trichotomy key nodeKey with less | same | greater
      · rw [if_pos less]
        cases leftRoot : left.root with
        | none =>
            have empty : left = .nil := by
              cases left with
              | nil => rfl
              | node => cases leftRoot
            rw [if_pos rfl, addLeaf_ignored nodeAt.here, leftRoot]
            exact ⟨_, rfl, Added.leafLeft nodeAt less empty⟩
        | some child =>
            obtain ⟨childNode, allocated, _⟩ := nodeAt.leftShape.root_allocated leftRoot
            rw [if_neg (by simp), attempt_zero (lockNode_ignored ⟨_, allocated⟩)]
            obtain ⟨store', ran, added⟩ :=
              leftHypothesis nodeAt.leftShape nodeAt.leftDistinct leftRoot ownParent enough.1
            exact ⟨store', ran, Added.inLeft nodeAt less leftRoot added⟩
      · rw [if_neg (by omega), if_pos same, assign_bind nodeAt.here,
          unlockNode_ignored ⟨_, Store.write_same ..⟩]
        exact ⟨_, rfl, Added.overwrite nodeAt same⟩
      · rw [if_neg (by omega), if_neg (by omega)]
        cases rightRoot : right.root with
        | none =>
            have empty : right = .nil := by
              cases right with
              | nil => rfl
              | node => cases rightRoot
            rw [if_pos rfl, addLeaf_ignored nodeAt.here, rightRoot]
            exact ⟨_, rfl, Added.leafRight nodeAt greater empty⟩
        | some child =>
            obtain ⟨childNode, allocated, _⟩ := nodeAt.rightShape.root_allocated rightRoot
            rw [if_neg (by simp), attempt_zero (lockNode_ignored ⟨_, allocated⟩)]
            obtain ⟨store', ran, added⟩ :=
              rightHypothesis nodeAt.rightShape nodeAt.rightDistinct rightRoot ownParent enough.2
            exact ⟨store', ran, Added.inRight nodeAt greater rightRoot added⟩

/-! ### Lookup -/

/-- `lookup` at one node, with the mutex calls gone. -/
theorem lookup_ignored {fuel : Nat} {store : Store} {addr : Addr} {node : BtNode}
    {key value : Int} (allocated : store.node addr = some node) :
    lookup ignored (fuel + 1) (some addr) key value ⟨store, ()⟩ =
      (if key < node.key then
        if node.lChild = none then pure (-1)
        else
          attempt (lockNode ignored node.lChild) (unlockAll ignored [some addr]) <|
            lookup ignored fuel node.lChild key value
      else if node.key < key then
        if node.rChild = none then pure (-1)
        else
          attempt (lockNode ignored node.rChild) (unlockAll ignored [some addr]) <|
            lookup ignored fuel node.rChild key value
      else pure 0) ⟨store, ()⟩ := by
  have unlocked := unlockNode_ignored ⟨node, allocated⟩
  rw [lookup, load_bind allocated,
    attempt_zero (ifRoot_ignored (lockNode_ignored ⟨node, allocated⟩)),
    attempt_zero (ifRoot_ignored unlocked)]
  split
  · rfl
  · split
    · rfl
    · exact attempt_zero unlocked

/-- `lookup` refines search: it changes nothing, returns 0 when the key is
found and -1 otherwise. -/
theorem lookup_refines {store : Store} {parent : Ptr} {tree : Tree} {fuel : Nat} {addr : Addr}
    (key value : Int) (shape : TreeAt store parent tree) (rootAt : tree.root = some addr)
    (enough : tree.height ≤ fuel) :
    lookup ignored fuel (some addr) key value ⟨store, ()⟩ =
      .ok (if (tree.find? key).isSome then 0 else -1, ⟨store, ()⟩) := by
  induction tree generalizing parent addr fuel with
  | nil => cases rootAt
  | node label nodeKey nodeValue left right leftHypothesis rightHypothesis =>
      cases rootAt
      obtain ⟨here, leftShape, rightShape⟩ := shape
      obtain ⟨fuel, rfl⟩ : ∃ less, fuel = less + 1 :=
        Nat.exists_eq_succ_of_ne_zero (by simp only [LabelledTree.height] at enough; omega)
      simp only [LabelledTree.height, Nat.add_le_add_iff_right, Nat.max_le] at enough
      rw [lookup_ignored here, LabelledTree.find?]
      dsimp only
      by_cases less : key < nodeKey
      · rw [if_pos less, if_pos less]
        cases leftRoot : left.root with
        | none =>
            cases left with
            | nil => rfl
            | node => cases leftRoot
        | some child =>
            obtain ⟨childNode, allocated, _⟩ := leftShape.root_allocated leftRoot
            rw [if_neg (by simp), attempt_zero (lockNode_ignored ⟨_, allocated⟩)]
            exact leftHypothesis leftShape leftRoot enough.1
      · rw [if_neg less, if_neg less]
        by_cases greater : nodeKey < key
        · rw [if_pos greater, if_pos greater]
          cases rightRoot : right.root with
          | none =>
              cases right with
              | nil => rfl
              | node => cases rightRoot
          | some child =>
              obtain ⟨childNode, allocated, _⟩ := rightShape.root_allocated rightRoot
              rw [if_neg (by simp), attempt_zero (lockNode_ignored ⟨_, allocated⟩)]
              exact rightHypothesis rightShape rightRoot enough.2
        · rw [if_neg greater, if_neg greater]
          rfl

/-! ### Sequences of calls -/

/-- `add(root, key, value)` for each pair in turn, with the results. -/
def addAll {Locks : Type} (mutexes : Mutexes Locks) (allocator : Allocator) (fuel : Nat)
    (root : Ptr) : List (Int × Int) → Prog Locks (List Int)
  | [] => pure []
  | call :: rest => do
      let retval ← add mutexes allocator fuel root call.1 call.2
      let retvals ← addAll mutexes allocator fuel root rest
      pure (retval :: retvals)

/-- `initializeTree(root)`, then the `add` calls. -/
def build {Locks : Type} (mutexes : Mutexes Locks) (allocator : Allocator) (fuel : Nat)
    (root : Ptr) (calls : List (Int × Int)) : Prog Locks (List Int) := do
  let _ ← initializeTree mutexes root
  addAll mutexes allocator fuel root calls

/-- 100 is sent to 0, then each call updates its key. -/
def mapAfter (calls : List (Int × Int)) : Int → Option Int :=
  calls.foldl (fun stored call => Function.update stored call.1 (some call.2))
    (Function.update (fun _ => none) 100 (some 0))

/-- A store holds a search tree for a map, and `lookup` answers accordingly. -/
structure Stores (fuel : Nat) (store : Store) (root : Addr) (tree : Tree)
    (stored : Int → Option Int) : Prop where
  represents : Represents store root tree
  ordered : tree.Ordered
  nodupKeys : tree.keys.Nodup
  map : ∀ key, tree.find? key = stored key
  lookup : ∀ key value, BinaryTree.lookup ignored fuel (some root) key value ⟨store, ()⟩ =
    .ok (if (stored key).isSome then 0 else -1, ⟨store, ()⟩)

theorem Stores.of_represents {fuel : Nat} {store : Store} {root : Addr} {tree : Tree}
    {stored : Int → Option Int} (represents : Represents store root tree)
    (ordered : tree.Ordered) (map : ∀ key, tree.find? key = stored key)
    (enough : tree.height ≤ fuel) : Stores fuel store root tree stored where
  represents := represents
  ordered := ordered
  nodupKeys := ordered.keys_nodup
  map := map
  lookup key value := by
    rw [← map]
    exact lookup_refines key value represents.shape represents.rootAt enough

/-- One `add` on a whole tree updates the map at one key and moves no node. -/
theorem add_stores (allocator : Allocator) {fuel : Nat} {store : Store} {root : Addr}
    {tree : Tree} {stored : Int → Option Int} (stores : Stores fuel store root tree stored)
    (enough : tree.labels.length < fuel) (key value : Int) :
    ∃ store' tree', add ignored allocator fuel (some root) key value ⟨store, ()⟩ =
        .ok (0, ⟨store', ()⟩) ∧
      Stores fuel store' root tree' (Function.update stored key (some value)) ∧
      (∀ turns found, tree.nodeAt turns = some found → tree'.nodeAt turns = some found) ∧
      tree'.labels.length ≤ tree.labels.length + 1 := by
  obtain ⟨shape, rootAt, distinct⟩ := stores.represents
  have height := tree.height_le_length_labels
  obtain ⟨store', ran, added⟩ :=
    add_refines allocator key value shape distinct rootAt (by simp) (height.trans enough.le)
  have unused : allocator.malloc store ∉ tree.labels := fun member =>
    shape.not_fresh member rfl
  have grown := LabelledTree.length_labels_insert (allocator.malloc store) key value tree
  have height' := (tree.insert (allocator.malloc store) key value).height_le_length_labels
  refine ⟨store', _, ran, Stores.of_represents ⟨added.shape, ?_, ?_⟩ ?_ ?_ ?_, ?_, grown⟩
  · exact LabelledTree.root_insert _ _ _ rootAt
  · exact LabelledTree.nodup_labels_insert _ _ _ distinct unused
  · exact LabelledTree.ordered_insert _ _ _ stores.ordered
  · intro other
    rw [LabelledTree.find?_insert, stores.map, Function.update_apply]
  · omega
  · intro turns found
    exact LabelledTree.nodeAt_insert _ _ _

theorem initializeTree_stores {store : Store} {root : Addr} {node : BtNode}
    (allocated : store.node root = some node) (fuel : Nat) (enough : 0 < fuel) :
    ∃ store', initializeTree ignored (some root) ⟨store, ()⟩ = .ok (0, ⟨store', ()⟩) ∧
      Stores fuel store' root (.node root 100 0 .nil .nil) (mapAfter []) := by
  refine ⟨store.write root ⟨100, 0, none, none, none⟩, ?_, ?_⟩
  · rw [initializeTree, assign_bind allocated, attempt_zero (init_ignored ⟨_, Store.write_same ..⟩)]
    rfl
  · have represents : Represents (store.write root ⟨100, 0, none, none, none⟩) root
        (.node root 100 0 .nil .nil) :=
      ⟨⟨Store.write_same .., trivial, trivial⟩, rfl, by simp [LabelledTree.labels]⟩
    apply Stores.of_represents represents
    · simp [LabelledTree.Ordered]
    · intro key
      simp only [LabelledTree.find?, mapAfter, List.foldl_nil, Function.update_apply]
      split_ifs <;> first | rfl | omega
    · simp only [LabelledTree.height]
      omega

/-- The induction over a sequence of calls; `stored` is the map so far. -/
theorem addAll_stores (allocator : Allocator) {fuel : Nat} {root : Addr}
    (calls : List (Int × Int)) {store : Store} {tree : Tree} {stored : Int → Option Int}
    (stores : Stores fuel store root tree stored)
    (enough : tree.labels.length + calls.length ≤ fuel) :
    ∃ store' tree', addAll ignored allocator fuel (some root) calls ⟨store, ()⟩ =
        .ok (calls.map fun _ => 0, ⟨store', ()⟩) ∧
      Stores fuel store' root tree'
        (calls.foldl (fun stored call => Function.update stored call.1 (some call.2)) stored) ∧
      tree'.labels.length ≤ tree.labels.length + calls.length := by
  induction calls generalizing store tree stored with
  | nil => exact ⟨store, tree, rfl, stores, Nat.le_refl _⟩
  | cons call rest inductionHypothesis =>
      simp only [List.length_cons] at enough
      obtain ⟨store₁, tree₁, ran, stores₁, _, grown⟩ :=
        add_stores allocator stores (by omega) call.1 call.2
      obtain ⟨store₂, tree₂, ranRest, stores₂, bound⟩ := inductionHypothesis stores₁ (by omega)
      refine ⟨store₂, tree₂, ?_, stores₂, by simp only [List.length_cons]; omega⟩
      rw [addAll, bind_ok ran, bind_ok ranRest]
      rfl

/-- For every sequence of `add` calls on the root after `initializeTree`: every
call returns 0 and the store then holds a search tree with correct parent
pointers and distinct keys for the updated map, which `lookup` decides; and
whatever the next call is, it changes the map at its own key only and leaves
every existing node at its position. -/
theorem add_sequence_correct (allocator : Allocator) (store : Store) (root : Addr)
    (allocated : ∃ node, store.node root = some node) (calls : List (Int × Int)) (fuel : Nat)
    (enough : calls.length + 1 < fuel) :
    ∃ store' tree,
      build ignored allocator fuel (some root) calls ⟨store, ()⟩ =
        .ok (calls.map fun _ => 0, ⟨store', ()⟩) ∧
      Stores fuel store' root tree (mapAfter calls) ∧
      ∀ key value, ∃ store'' tree',
        add ignored allocator fuel (some root) key value ⟨store', ()⟩ =
          .ok (0, ⟨store'', ()⟩) ∧
        Stores fuel store'' root tree' (Function.update (mapAfter calls) key (some value)) ∧
        ∀ turns found, tree.nodeAt turns = some found → tree'.nodeAt turns = some found := by
  obtain ⟨node, allocated⟩ := allocated
  obtain ⟨store₀, started, stores₀⟩ :=
    initializeTree_stores allocated fuel (by omega)
  obtain ⟨store₁, tree₁, ran, stores₁, bound⟩ :=
    addAll_stores allocator calls stores₀ (by simp [LabelledTree.labels]; omega)
  refine ⟨store₁, tree₁, ?_, stores₁, ?_⟩
  · rw [build, bind_ok started]
    exact ran
  · intro key value
    simp only [LabelledTree.labels, List.length_cons, List.length_append, List.length_nil]
      at bound
    obtain ⟨store₂, tree₂, ranNext, stores₂, kept, _⟩ :=
      add_stores allocator stores₁ (by omega) key value
    exact ⟨store₂, tree₂, ranNext, stores₂, kept⟩

/-- A `malloc` that returns the first address above all nodes. -/
def bumpAllocator : Allocator where
  malloc store := store.bound
  fresh store := store.unused store.bound (Nat.le_refl _)

/-- The store with one uninitialised node at address 0. -/
def oneNode : Store where
  node := Function.update (fun _ => none) 0 (some ⟨7, 7, some 7, none, none⟩)
  bound := 1
  unused _ above := Function.update_of_ne (Nat.ne_of_gt above) ..

theorem add_sequence_correct_three :
    ∃ store' tree,
      build ignored bumpAllocator 5 (some 0) [(50, 1), (70, 2), (50, 3)] ⟨oneNode, ()⟩ =
        .ok ([0, 0, 0], ⟨store', ()⟩) ∧
      Stores 5 store' 0 tree (mapAfter [(50, 1), (70, 2), (50, 3)]) ∧
      mapAfter [(50, 1), (70, 2), (50, 3)] 50 = some 3 := by
  obtain ⟨store', tree, ran, stores, _⟩ :=
    add_sequence_correct bumpAllocator oneNode 0 ⟨_, rfl⟩ [(50, 1), (70, 2), (50, 3)] 5
      (by decide)
  exact ⟨store', tree, ran, stores, by decide⟩

end LinuxProgramming.BinaryTree
