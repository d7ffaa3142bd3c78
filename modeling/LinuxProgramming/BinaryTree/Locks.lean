import LinuxProgramming.Library.PartialCorrectness
import LinuxProgramming.BinaryTree.Add

/-!
Contract: which calls keep the lock discipline of the tree when one thread uses
default mutexes.

Owns:
- what the mutex calls do to the set of held mutexes;
- the mutexes that stay held in every call that leaves the root;
- the exact condition for sessions of any length.

Does not own: what the calls do to the tree when locking is ignored.

`add` locks the parent of every node but the root, `delete` the grandparent;
both are held already. `lookup` unlocks each node but the root on entry and never
releases the root. `delete` never releases the node it was called for.
-/

namespace LinuxProgramming.BinaryTree

open LinuxProgramming.Library

/-- The mutexes one thread holds. -/
abbrev Held := Addr → Bool

def noneHeld : Held := fun _ => false

/-- The outcome of a mutex call: the store is not touched. -/
def OnLocks (store : Store) (post : Int → Held → Prop) (retval : Int) (world : World Held) :
    Prop :=
  world.store = store ∧ post retval world.locks

/-! ### Calls that return -/

section Primitives

variable {store : Store} {held : Held} {ptr : Ptr}

theorem load_returns :
    Returns (load ptr) (⟨store, held⟩ : World Held) fun node world =>
      world = ⟨store, held⟩ ∧ ∃ addr, ptr = some addr ∧ store.node addr = some node := by
  intro node world ran
  cases ptr with
  | none => cases ran
  | some addr =>
      simp only [load] at ran
      split at ran
      · cases ran
      · cases ran
        exact ⟨rfl, addr, rfl, by assumption⟩

theorem assign_returns {change : BtNode → BtNode} :
    Returns (assign ptr change) (⟨store, held⟩ : World Held) fun _ world =>
      ∃ addr node, ptr = some addr ∧ store.node addr = some node ∧
        world = ⟨store.write addr (change node), held⟩ := by
  intro result world ran
  cases ptr with
  | none => cases ran
  | some addr =>
      simp only [assign] at ran
      split at ran
      · cases ran
      · cases ran
        exact ⟨addr, _, rfl, by assumption, rfl⟩

theorem mutexCall_returns {call : Addr → Held → Except Stop (Int × Held)}
    {post : Int → Held → Prop}
    (spec : ∀ addr retval held', ptr = some addr → call addr held = .ok (retval, held') →
      post retval held') :
    Returns (mutexCall call ptr) (⟨store, held⟩ : World Held) (OnLocks store post) := by
  intro retval world ran
  cases ptr with
  | none => cases ran
  | some addr =>
      simp only [mutexCall] at ran
      split at ran
      · cases ran
      · split at ran
        · cases ran
        case h_2 ran' =>
          cases ran
          exact ⟨rfl, spec addr _ _ rfl ran'⟩

/-- Locking returns 0, takes the mutex and releases nothing. -/
theorem lockNode_returns :
    Returns (lockNode defaultMutexes ptr) (⟨store, held⟩ : World Held) <|
      OnLocks store fun retval held' => retval = 0 ∧
        ∀ mutex, ptr = some mutex ∨ held mutex = true → held' mutex = true := by
  apply mutexCall_returns
  intro addr retval held' isAddr ran
  simp only [defaultMutexes] at ran
  split at ran
  · cases ran
  · cases ran
    refine ⟨rfl, ?_⟩
    rintro mutex (isMutex | isHeld)
    · rw [isAddr] at isMutex
      cases isMutex
      exact Function.update_self ..
    · rw [Function.update_apply, isHeld]
      split <;> rfl

theorem lockNode_holds {mutex : Addr} (stands : ptr = some mutex ∨ held mutex = true) :
    Returns (lockNode defaultMutexes ptr) (⟨store, held⟩ : World Held) <|
      OnLocks store fun retval held' => retval = 0 ∧ held' mutex = true := by
  refine lockNode_returns.mono fun _ _ locked => ?_
  exact ⟨locked.1, locked.2.1, locked.2.2 mutex stands⟩

/-- Unlocking returns 0 and releases the one mutex. -/
theorem unlockNode_returns :
    Returns (unlockNode defaultMutexes ptr) (⟨store, held⟩ : World Held) <|
      OnLocks store fun retval held' => retval = 0 ∧
        ∀ mutex, ptr ≠ some mutex → held mutex = true → held' mutex = true := by
  apply mutexCall_returns
  intro addr retval held' isAddr ran
  simp only [defaultMutexes] at ran
  split at ran
  · cases ran
    refine ⟨rfl, ?_⟩
    intro mutex different isHeld
    rw [Function.update_of_ne, isHeld]
    rintro rfl
    exact different isAddr
  · cases ran

theorem unlockNode_holds {mutex : Addr} (other : ptr ≠ some mutex) (isHeld : held mutex = true) :
    Returns (unlockNode defaultMutexes ptr) (⟨store, held⟩ : World Held) <|
      OnLocks store fun retval held' => retval = 0 ∧ held' mutex = true := by
  refine unlockNode_returns.mono fun _ _ unlocked => ?_
  exact ⟨unlocked.1, unlocked.2.1, unlocked.2.2 mutex other isHeld⟩

/-- A mutex that is held cannot be destroyed. -/
theorem destroy_returns {addr : Addr} (isHeld : held addr = true) :
    Returns (mutexCall defaultMutexes.destroy (some addr)) (⟨store, held⟩ : World Held) <|
      OnLocks store fun retval held' => retval = ebusy ∧ held' = held := by
  apply mutexCall_returns
  rintro _ retval held' ⟨⟩ ran
  simp only [defaultMutexes, isHeld, if_true] at ran
  cases ran
  exact ⟨rfl, rfl⟩

theorem unlessNull_returns {call : Ptr → Prog Held Int} {post : Held → Prop}
    (skipped : post held)
    (called : ∀ addr, ptr = some addr → Returns (call (some addr)) ⟨store, held⟩
      (OnLocks store fun retval held' => retval = 0 ∧ post held')) :
    Returns (unlessNull ptr call) (⟨store, held⟩ : World Held)
      (OnLocks store fun retval held' => retval = 0 ∧ post held') := by
  cases ptr with
  | none => exact .of_ok rfl ⟨rfl, rfl, skipped⟩
  | some addr =>
      rw [unlessNull, if_neg (by simp)]
      exact called addr rfl

/-- A call that returns 0 whenever it returns: only the success branch counts. -/
theorem attempt_returns {α : Type} {call : Prog Held Int} {failed : Int → Prog Held α}
    {next : Prog Held α} {post : α → World Held → Prop} (middle : Held → Prop)
    (called : Returns call ⟨store, held⟩
      (OnLocks store fun retval held' => retval = 0 ∧ middle held'))
    (rest : ∀ held', middle held' → Returns next ⟨store, held'⟩ post) :
    Returns (attempt call failed next) (⟨store, held⟩ : World Held) post := by
  refine called.bind ?_
  rintro retval ⟨store', held'⟩ ⟨rfl, rfl, holds⟩
  rw [if_pos rfl]
  exact rest held' holds

/-- The mutex call on entry that depends on whether the node is the root. -/
theorem entry_returns {condition : Prop} [Decidable condition] {call : Prog Held Int}
    {post : Held → Prop} (skipped : ¬ condition → post held)
    (called : condition → Returns call ⟨store, held⟩
      (OnLocks store fun retval held' => retval = 0 ∧ post held')) :
    Returns (if condition then call else pure 0) (⟨store, held⟩ : World Held)
      (OnLocks store fun retval held' => retval = 0 ∧ post held') :=
  .ite called fun fails => .pure ⟨rfl, rfl, skipped fails⟩

/-- Locking a mutex that is held never returns. -/
theorem lockNode_deadlock {addr : Addr} (isHeld : held addr = true)
    (allocated : ∃ node, store.node addr = some node) :
    lockNode defaultMutexes (some addr) (⟨store, held⟩ : World Held) = .error .deadlock := by
  obtain ⟨node, allocated⟩ := allocated
  simp only [lockNode, mutexCall, allocated, defaultMutexes, isHeld, if_true]

end Primitives

/-! ### `lookup` below the root -/

/-- Below the root `lookup` never releases a mutex of a node above. -/
theorem lookup_returns {store : Store} {held : Held} {above upper : Addr} {tree : Tree}
    {fuel : Nat} {start : Addr} {key value : Int} (shape : TreeAt store (some above) tree)
    (rootAt : tree.root = some start) (outside : upper ∉ tree.labels)
    (isHeld : held upper = true) :
    Returns (lookup defaultMutexes fuel (some start) key value) (⟨store, held⟩ : World Held)
      fun _ world => world.locks upper = true := by
  induction tree generalizing above held fuel start with
  | nil => cases rootAt
  | node addr nodeKey nodeValue left right leftHypothesis rightHypothesis =>
      cases rootAt
      obtain ⟨here, leftShape, rightShape⟩ := shape
      simp only [LabelledTree.labels, List.mem_cons, List.mem_append, not_or] at outside
      obtain ⟨notHere, notLeft, notRight⟩ := outside
      have apart : (some addr : Ptr) ≠ some upper := by
        rintro ⟨⟩
        exact notHere rfl
      cases fuel with
      | zero => exact .of_error rfl
      | succ fuel =>
          rw [lookup]
          refine load_returns.bind ?_
          rintro node _ ⟨rfl, _, ⟨⟩, allocated⟩
          rw [here] at allocated
          cases allocated
          dsimp only
          refine attempt_returns (· upper = true)
            (entry_returns (fun _ => isHeld) (by rintro ⟨⟩)) ?_
          intro held isHeld
          refine attempt_returns (· upper = true) (entry_returns (by simp) fun _ =>
            unlockNode_holds apart isHeld) ?_
          intro held isHeld
          refine .ite (fun less => .ite (fun _ => .pure isHeld) fun notNull => ?_)
            fun _ => .ite (fun greater => .ite (fun _ => .pure isHeld) fun notNull => ?_)
              fun _ => ?_
          · obtain ⟨child, childAt⟩ := Option.ne_none_iff_exists'.mp notNull
            rw [childAt]
            refine attempt_returns _ lockNode_returns ?_
            intro held' kept
            exact leftHypothesis leftShape childAt notLeft (kept upper (.inr isHeld))
          · obtain ⟨child, childAt⟩ := Option.ne_none_iff_exists'.mp notNull
            rw [childAt]
            refine attempt_returns _ lockNode_returns ?_
            intro held' kept
            exact rightHypothesis rightShape childAt notRight (kept upper (.inr isHeld))
          · refine attempt_returns _ unlockNode_returns ?_
            intro held' kept
            exact .pure (kept upper apart isHeld)

/-! ### `delete` -/

/-- What the loop and the end of `delete` keep of the node being deleted: its
parent and left child, and that no field points to the node itself. -/
structure Self (store : Store) (addr : Addr) (parent lChild : Ptr) (node : BtNode) : Prop where
  allocated : store.node addr = some node
  parentIs : node.parent = parent
  lChildIs : node.lChild = lChild
  rChildOther : node.rChild ≠ some addr

/-- An assignment to another node. -/
theorem Self.write {store : Store} {addr other : Addr} {parent lChild : Ptr} {node : BtNode}
    (self : Self store addr parent lChild node) (different : some other ≠ some addr)
    (written : BtNode) : Self (store.write other written) addr parent lChild node where
  allocated := by
    rw [Store.write_other, self.allocated]
    rintro rfl
    exact different rfl
  parentIs := self.parentIs
  lChildIs := self.lChildIs
  rChildOther := self.rChildOther

section Delete

variable {store : Store} {held : Held} {addr : Addr} {parent lChild : Ptr} {node : BtNode}
  {fuel : Nat}

/-- The loop never releases the node being deleted. -/
theorem rehang_returns {above : Ptr} {tree : Tree} {start : Addr} {rKey : Int}
    (self : Self store addr parent lChild node) (shape : TreeAt store above tree)
    (rootAt : tree.root = some start) (outside : addr ∉ tree.labels)
    (isHeld : held addr = true) :
    Returns (rehang defaultMutexes fuel (some addr) (some start) rKey)
      (⟨store, held⟩ : World Held) fun result world => result = none ∧
        world.locks addr = true ∧ ∃ node', Self world.store addr parent lChild node' := by
  induction tree generalizing above held fuel start with
  | nil => cases rootAt
  | node label nodeKey nodeValue left right leftHypothesis rightHypothesis =>
      cases rootAt
      obtain ⟨here, leftShape, rightShape⟩ := shape
      simp only [LabelledTree.labels, List.mem_cons, List.mem_append, not_or] at outside
      obtain ⟨notHere, notLeft, notRight⟩ := outside
      have apart : (some label : Ptr) ≠ some addr := by
        rintro ⟨⟩
        exact notHere rfl
      -- one turn of the loop: the child is locked and the current node released
      have descend {child : Ptr} {childAddr : Addr} {subtree : Tree} {fuel : Nat}
          {abandon : Int → Prog Held (Option Int)} {complain : BtNode → Prog Held Unit}
          (childAt : child = some childAddr) (childShape : TreeAt store (some label) subtree)
          (isRoot : subtree.root = some childAddr)
          (rest : ∀ {held' : Held}, held' addr = true →
            Returns (rehang defaultMutexes fuel (some addr) (some childAddr) rKey)
              (⟨store, held'⟩ : World Held) fun result world => result = none ∧
                world.locks addr = true ∧
                ∃ node', Self world.store addr parent lChild node') :
          Returns (attempt (lockNode defaultMutexes child) abandon do
              let next ← load child
              let retval ← unlockNode defaultMutexes next.parent
              if retval ≠ 0 then complain next
              rehang defaultMutexes fuel (some addr) child rKey)
            (⟨store, held⟩ : World Held) fun result world => result = none ∧
              world.locks addr = true ∧ ∃ node', Self world.store addr parent lChild node' := by
        subst childAt
        refine attempt_returns _ lockNode_returns ?_
        intro held' kept
        refine load_returns.bind ?_
        rintro next _ ⟨rfl, _, ⟨⟩, nextAllocated⟩
        obtain ⟨found, foundAt, foundParent⟩ := childShape.root_allocated isRoot
        rw [nextAllocated] at foundAt
        cases foundAt
        rw [foundParent]
        refine unlockNode_returns.bind ?_
        rintro retval ⟨store', held''⟩ ⟨rfl, rfl, kept'⟩
        exact rest (kept' addr apart (kept addr (.inr isHeld)))
      cases fuel with
      | zero => exact .of_error rfl
      | succ fuel =>
          rw [rehang]
          refine load_returns.bind ?_
          rintro current _ ⟨rfl, _, ⟨⟩, allocated⟩
          rw [here] at allocated
          cases allocated
          refine load_returns.bind ?_
          rintro own _ ⟨rfl, _, ⟨⟩, allocated⟩
          rw [self.allocated] at allocated
          cases allocated
          dsimp only
          refine .ite (fun less => .ite (fun notNull => ?_) fun _ => ?_)
            fun notLess => .ite (fun notNull => ?_) fun _ => ?_
          · obtain ⟨child, childAt⟩ := Option.ne_none_iff_exists'.mp notNull
            exact descend childAt leftShape childAt
              (leftHypothesis leftShape childAt notLeft)
          · refine assign_returns.bind ?_
            rintro _ _ ⟨_, _, ⟨⟩, _, rfl⟩
            refine assign_returns.bind ?_
            rintro _ _ ⟨sibling, _, isSibling, _, rfl⟩
            have notSibling : (some sibling : Ptr) ≠ some addr :=
              isSibling ▸ self.rChildOther
            exact .pure ⟨rfl, isHeld, _, (self.write apart _).write notSibling _⟩
          · obtain ⟨child, childAt⟩ := Option.ne_none_iff_exists'.mp notNull
            exact descend childAt rightShape childAt
              (rightHypothesis rightShape childAt notRight)
          · refine assign_returns.bind ?_
            rintro _ _ ⟨_, _, ⟨⟩, _, rfl⟩
            refine assign_returns.bind ?_
            rintro _ _ ⟨_, own, ⟨⟩, ownAllocated, rfl⟩
            have moved := self.write apart
            rw [(moved _).allocated] at ownAllocated
            cases ownAllocated
            exact .pure ⟨rfl, isHeld, _, Store.write_same .., self.parentIs, self.lChildIs,
              apart⟩

theorem replaceInParent_returns {child : Ptr} (self : Self store addr parent lChild node)
    (parentOther : parent ≠ some addr) :
    Returns (replaceInParent (some addr) child) (⟨store, held⟩ : World Held) fun _ world =>
      world.locks = held ∧ Self world.store addr parent lChild node := by
  rw [replaceInParent]
  refine load_returns.bind ?_
  rintro own _ ⟨rfl, _, ⟨⟩, allocated⟩
  rw [self.allocated] at allocated
  cases allocated
  refine load_returns.bind ?_
  rintro parentNode _ ⟨rfl, upper, isParent, _⟩
  rw [isParent]
  have apart : (some upper : Ptr) ≠ some addr := by
    rw [← isParent, self.parentIs]
    exact parentOther
  refine .ite (fun _ => ?_) fun _ => ?_
  · refine assign_returns.mono ?_
    rintro _ _ ⟨_, _, ⟨⟩, _, rfl⟩
    exact ⟨rfl, self.write apart _⟩
  · refine assign_returns.mono ?_
    rintro _ _ ⟨_, _, ⟨⟩, _, rfl⟩
    exact ⟨rfl, self.write apart _⟩

/-- The common end never releases the node: its mutex, still held, cannot be
destroyed. -/
theorem unlink_returns (self : Self store addr parent lChild node)
    (parentOther : parent ≠ some addr) (lChildOther : lChild ≠ some addr)
    (isHeld : held addr = true) :
    Returns (unlink defaultMutexes (some addr)) (⟨store, held⟩ : World Held) fun _ world =>
      world.locks addr = true := by
  rw [unlink]
  refine load_returns.bind ?_
  rintro own _ ⟨rfl, _, ⟨⟩, allocated⟩
  rw [self.allocated] at allocated
  cases allocated
  rw [self.parentIs, self.lChildIs]
  refine assign_returns.bind ?_
  rintro _ _ ⟨child, _, rfl, _, rfl⟩
  refine (replaceInParent_returns (self.write lChildOther _) parentOther).bind ?_
  rintro _ ⟨store', held'⟩ ⟨rfl, self⟩
  refine attempt_returns _ unlockNode_returns ?_
  intro held' kept
  have isHeld := kept addr parentOther isHeld
  refine attempt_returns (· addr = true) (unlessNull_returns isHeld ?_) ?_
  · rintro _ ⟨⟩
    exact unlockNode_holds lChildOther isHeld
  intro held' isHeld
  refine attempt_returns (· addr = true) (unlessNull_returns isHeld ?_) ?_
  · intro right isRight
    exact unlockNode_holds (isRight ▸ self.rChildOther) isHeld
  intro held' isHeld
  refine (destroy_returns isHeld).bind ?_
  rintro retval ⟨store', held'⟩ ⟨rfl, rfl, rfl⟩
  rw [if_neg (by decide)]
  exact .pure isHeld

/-- `delete` at the node that holds the key never releases the node. -/
theorem deleteHere_returns {key value : Int} {left right : Tree}
    (nodeAt : NodeAt store parent addr key value left right) (parentOther : parent ≠ some addr)
    (isHeld : held addr = true) :
    Returns (deleteHere defaultMutexes fuel (some addr)) (⟨store, held⟩ : World Held)
      fun _ world => world.locks addr = true := by
  have leftOther : left.root ≠ some addr :=
    fun same => nodeAt.notLeft (LabelledTree.root_mem_labels same)
  have rightOther : right.root ≠ some addr :=
    fun same => nodeAt.notRight (LabelledTree.root_mem_labels same)
  have self : Self store addr parent left.root _ := ⟨nodeAt.here, rfl, rfl, rightOther⟩
  have lockChild {child : Ptr} {held : Held} (isHeld : held addr = true) :
      Returns (unlessNull child (lockNode defaultMutexes)) (⟨store, held⟩ : World Held)
        (OnLocks store fun retval held' => retval = 0 ∧ held' addr = true) :=
    unlessNull_returns isHeld fun _ _ => lockNode_holds (.inr isHeld)
  rw [deleteHere]
  refine load_returns.bind ?_
  rintro own _ ⟨rfl, _, ⟨⟩, allocated⟩
  rw [nodeAt.here] at allocated
  cases allocated
  dsimp only
  refine attempt_returns (· addr = true) (lockChild isHeld) ?_
  intro held isHeld
  refine attempt_returns (· addr = true) (lockChild isHeld) ?_
  intro held isHeld
  refine .ite (fun both => ?_) fun _ => .ite (fun _ => ?_) fun _ => ?_
  · obtain ⟨child, childAt⟩ := Option.ne_none_iff_exists'.mp both.1
    rw [childAt] at self leftOther ⊢
    refine load_returns.bind ?_
    rintro sibling _ ⟨rfl, _⟩
    refine (rehang_returns self nodeAt.leftShape childAt nodeAt.notLeft isHeld).bind ?_
    rintro _ ⟨store', held'⟩ ⟨rfl, isHeld, _, self⟩
    exact unlink_returns self parentOther leftOther isHeld
  · refine (replaceInParent_returns self parentOther).bind ?_
    rintro _ ⟨store', held'⟩ ⟨rfl, self⟩
    exact unlink_returns self parentOther leftOther isHeld
  · refine (replaceInParent_returns self parentOther).bind ?_
    rintro _ ⟨store', held'⟩ ⟨rfl, self⟩
    exact unlink_returns self parentOther leftOther isHeld

end Delete

/-! ### Deadlocks -/

section Deadlock

variable {store : Store} {held : Held} {allocator : Allocator} {addr upper root : Addr}
  {node upperNode rootNode : BtNode} {fuel : Nat} {key value : Int}

/-- Below the root `add` locks the parent, which the caller holds. -/
theorem add_stuck (allocated : store.node addr = some node) (isParent : node.parent = some upper)
    (upperAllocated : store.node upper = some upperNode) (isHeld : held upper = true) :
    Returns (add defaultMutexes allocator fuel (some addr) key value)
      (⟨store, held⟩ : World Held) fun _ _ => False := by
  cases fuel with
  | zero => exact .of_error rfl
  | succ fuel =>
      apply Returns.of_error
      rw [add, load_bind allocated, isParent, attempt_zero (by rw [if_neg (by simp)]; rfl)]
      apply bind_error
      rw [unlessNull, if_neg (by simp)]
      exact lockNode_deadlock isHeld ⟨_, upperAllocated⟩

/-- Two steps below the root `delete` locks the root, which is held. -/
theorem delete_stuck (allocated : store.node addr = some node)
    (isParent : node.parent = some upper) (upperAllocated : store.node upper = some upperNode)
    (isGrandparent : upperNode.parent = some root)
    (rootAllocated : store.node root = some rootNode) (isHeld : held root = true) :
    Returns (delete defaultMutexes fuel (some addr) key) (⟨store, held⟩ : World Held)
      fun _ _ => False := by
  cases fuel with
  | zero => exact .of_error rfl
  | succ fuel =>
      have grandparent : grandparentOf (some upper) (⟨store, held⟩ : World Held) =
          .ok (some root, ⟨store, held⟩) := by
        rw [grandparentOf, if_neg (by simp), load_bind upperAllocated, isGrandparent]
        rfl
      apply Returns.of_error
      rw [delete, load_bind allocated, isParent, attempt_zero (by rw [if_neg (by simp)]; rfl),
        bind_ok grandparent]
      apply bind_error
      rw [unlessNull, if_neg (by simp)]
      exact lockNode_deadlock isHeld ⟨_, rootAllocated⟩

end Deadlock

/-! ### Calls that leave a mutex locked -/

section Root

variable {store : Store} {held : Held} {root addr : Addr} {nodeKey nodeValue key value : Int}
  {left right : Tree} {fuel : Nat}

/-- One step below the root `delete` returns, if at all, with a mutex held. -/
theorem delete_child_returns {rootNode : BtNode}
    (nodeAt : NodeAt store (some root) addr nodeKey nodeValue left right)
    (rootAllocated : store.node root = some rootNode) (isRoot : rootNode.parent = none)
    (notSelf : root ≠ addr) (rootHeld : held root = true) (addrHeld : held addr = true) :
    Returns (delete defaultMutexes fuel (some addr) key) (⟨store, held⟩ : World Held)
      fun _ world => ∃ mutex, world.locks mutex = true := by
  have descend {child : Ptr} {subtree : Tree} {failed : Int → Prog Held Int} {fuel : Nat}
      (childAt : subtree.root = child) (notNull : ¬ child = none)
      (shape : TreeAt store (some addr) subtree) :
      Returns (attempt (lockNode defaultMutexes child) failed do
          let _ ← delete defaultMutexes fuel child key
          pure 0)
        (⟨store, held⟩ : World Held) fun _ world => ∃ mutex, world.locks mutex = true := by
    obtain ⟨start, rfl⟩ := Option.ne_none_iff_exists'.mp notNull
    obtain ⟨childNode, childAllocated, isParent⟩ := shape.root_allocated childAt
    refine attempt_returns _ lockNode_returns ?_
    intro held' kept
    exact (delete_stuck childAllocated isParent nodeAt.here rfl rootAllocated
      (kept root (.inr rootHeld))).bind fun _ _ impossible => impossible.elim
  cases fuel with
  | zero => exact .of_error rfl
  | succ fuel =>
      have grandparent : grandparentOf (some root) (⟨store, held⟩ : World Held) =
          .ok (none, ⟨store, held⟩) := by
        rw [grandparentOf, if_neg (by simp), load_bind rootAllocated, isRoot]
        rfl
      rw [delete]
      refine load_returns.bind ?_
      rintro own _ ⟨rfl, _, ⟨⟩, allocated⟩
      rw [nodeAt.here] at allocated
      cases allocated
      dsimp only
      refine attempt_returns (· = held) (entry_returns (fun _ => rfl) (by rintro ⟨⟩)) ?_
      rintro _ rfl
      refine .of_eq (bind_ok grandparent) (.of_eq (attempt_zero rfl) ?_)
      refine .ite (fun _ => .ite (fun _ => .pure ⟨addr, addrHeld⟩) fun notNull => ?_)
        fun _ => .ite (fun _ => ?_)
          fun _ => .ite (fun _ => .pure ⟨addr, addrHeld⟩) fun notNull => ?_
      · exact descend rfl notNull nodeAt.leftShape
      · exact (deleteHere_returns nodeAt (by rintro ⟨⟩; exact notSelf rfl) addrHeld).mono
          fun _ _ held => ⟨addr, held⟩
      · exact descend rfl notNull nodeAt.rightShape

variable (nodeAt : NodeAt store none root nodeKey nodeValue left right)

include nodeAt

/-- On entry the operations read the node they are given, and lock it if it is the root. -/
theorem enterRoot_returns {α : Type} {failed : Int → Prog Held α} {next : BtNode → Prog Held α}
    {post : α → World Held → Prop}
    (rest : ∀ held, held root = true →
      Returns (next ⟨nodeKey, nodeValue, none, left.root, right.root⟩)
        (⟨store, held⟩ : World Held) post) :
    Returns (do
        let node ← load (some root)
        attempt (if node.parent = none then lockNode defaultMutexes (some root) else pure 0)
          failed (next node))
      (⟨store, noneHeld⟩ : World Held) post := by
  refine load_returns.bind ?_
  rintro own _ ⟨rfl, _, ⟨⟩, allocated⟩
  rw [nodeAt.here] at allocated
  cases allocated
  dsimp only
  exact attempt_returns (· root = true) (entry_returns (by simp) fun _ =>
    lockNode_holds (.inl rfl)) rest

/-- No `delete` gives back all mutexes. -/
theorem delete_root_returns :
    Returns (delete defaultMutexes fuel (some root) key) (⟨store, noneHeld⟩ : World Held)
      fun _ world => ∃ mutex, world.locks mutex = true := by
  have descend {child : Ptr} {subtree : Tree} {failed : Int → Prog Held Int} {fuel : Nat}
      {held : Held} (childAt : subtree.root = child) (notNull : ¬ child = none)
      (shape : TreeAt store (some root) subtree) (distinct : subtree.labels.Nodup)
      (outside : root ∉ subtree.labels) (isHeld : held root = true) :
      Returns (attempt (lockNode defaultMutexes child) failed do
          let _ ← delete defaultMutexes fuel child key
          pure 0)
        (⟨store, held⟩ : World Held) fun _ world => ∃ mutex, world.locks mutex = true := by
    cases subtree with
    | nil => exact absurd childAt.symm notNull
    | node label _ _ _ _ =>
        subst childAt
        have childAt := NodeAt.of_shape shape distinct
        have notSelf : root ≠ label := by
          rintro rfl
          exact outside List.mem_cons_self
        refine attempt_returns _ lockNode_returns ?_
        intro held' kept
        refine (delete_child_returns childAt nodeAt.here rfl notSelf
          (kept root (.inr isHeld)) (kept label (.inl rfl))).bind ?_
        intro _ _ held
        exact .pure held
  cases fuel with
  | zero => exact .of_error rfl
  | succ fuel =>
      rw [delete]
      refine enterRoot_returns nodeAt fun held isHeld => ?_
      refine .of_eq (bind_ok rfl) (.of_eq (attempt_zero rfl) ?_)
      refine .ite (fun _ => .ite (fun _ => .pure ⟨root, isHeld⟩) fun notNull => ?_)
        fun _ => .ite (fun _ => ?_)
          fun _ => .ite (fun _ => .pure ⟨root, isHeld⟩) fun notNull => ?_
      · exact descend rfl notNull nodeAt.leftShape nodeAt.leftDistinct nodeAt.notLeft isHeld
      · exact (deleteHere_returns nodeAt (by rintro ⟨⟩) isHeld).mono
          fun _ _ held => ⟨root, held⟩
      · exact descend rfl notNull nodeAt.rightShape nodeAt.rightDistinct nodeAt.notRight isHeld

/-- A `lookup` of another key than the root's never releases the root. -/
theorem lookup_root_returns (different : key ≠ nodeKey) :
    Returns (lookup defaultMutexes fuel (some root) key value) (⟨store, noneHeld⟩ : World Held)
      fun _ world => world.locks root = true := by
  cases fuel with
  | zero => exact .of_error rfl
  | succ fuel =>
      rw [lookup]
      refine enterRoot_returns nodeAt fun held isHeld => ?_
      refine attempt_returns (· root = true) (entry_returns (fun _ => isHeld) (by simp)) ?_
      intro held isHeld
      refine .ite (fun _ => .ite (fun _ => .pure isHeld) fun notNull => ?_)
        fun notLess => .ite (fun _ => .ite (fun _ => .pure isHeld) fun notNull => ?_)
          fun notGreater =>
            absurd (le_antisymm (not_lt.mp notGreater) (not_lt.mp notLess)) different
      · obtain ⟨child, childAt⟩ := Option.ne_none_iff_exists'.mp notNull
        rw [childAt]
        refine attempt_returns _ lockNode_returns ?_
        intro held' kept
        exact lookup_returns nodeAt.leftShape childAt nodeAt.notLeft (kept root (.inr isHeld))
      · obtain ⟨child, childAt⟩ := Option.ne_none_iff_exists'.mp notNull
        rw [childAt]
        refine attempt_returns _ lockNode_returns ?_
        intro held' kept
        exact lookup_returns nodeAt.rightShape childAt nodeAt.notRight (kept root (.inr isHeld))

/-- An `add` whose search path goes on below the root blocks. -/
theorem add_root_returns {allocator : Allocator} (different : key ≠ nodeKey)
    (leftPath : key < nodeKey → left.root ≠ none)
    (rightPath : nodeKey < key → right.root ≠ none) :
    Returns (add defaultMutexes allocator fuel (some root) key value)
      (⟨store, noneHeld⟩ : World Held) fun _ _ => False := by
  have descend {child : Ptr} {subtree : Tree} {failed : Int → Prog Held Int} {fuel : Nat}
      {held : Held} (childAt : subtree.root = child) (notNull : ¬ child = none)
      (shape : TreeAt store (some root) subtree) (isHeld : held root = true) :
      Returns (attempt (lockNode defaultMutexes child) failed
          (add defaultMutexes allocator fuel child key value))
        (⟨store, held⟩ : World Held) fun _ _ => False := by
    obtain ⟨start, rfl⟩ := Option.ne_none_iff_exists'.mp notNull
    obtain ⟨childNode, childAllocated, isParent⟩ := shape.root_allocated childAt
    refine attempt_returns _ lockNode_returns ?_
    intro held' kept
    exact add_stuck childAllocated isParent nodeAt.here (kept root (.inr isHeld))
  cases fuel with
  | zero => exact .of_error rfl
  | succ fuel =>
      rw [add]
      refine enterRoot_returns nodeAt fun held isHeld => ?_
      dsimp only
      refine .of_eq (attempt_zero rfl) ?_
      refine .ite (fun less => .ite (fun isNull => absurd isNull (leftPath less)) fun notNull => ?_)
        fun notLess => .ite (fun same => absurd same different)
          fun _ => .ite (fun isNull => absurd isNull (rightPath (by omega))) fun notNull => ?_
      · exact descend rfl notNull nodeAt.leftShape isHeld
      · exact descend rfl notNull nodeAt.rightShape isHeld

end Root

/-! ### Sessions -/

inductive Call where
  | add (key value : Int)
  | delete (key : Int)
  | lookup (key value : Int)
deriving DecidableEq, Repr

/-- The call on the root of the tree. -/
def Call.run {Locks : Type} (mutexes : Mutexes Locks) (allocator : Allocator) (fuel : Nat)
    (root : Addr) : Call → Prog Locks Int
  | .add key value => BinaryTree.add mutexes allocator fuel (some root) key value
  | .delete key => BinaryTree.delete mutexes fuel (some root) key
  | .lookup key value => BinaryTree.lookup mutexes fuel (some root) key value

/-- Calls made one after the other by a single thread, starting without any
mutex: each only locks mutexes it does not hold, only unlocks mutexes it holds,
and returns holding none. -/
def Disciplined (allocator : Allocator) (fuel : Nat) (root : Addr) : Store → List Call → Prop
  | _, [] => True
  | store, call :: rest =>
      ∃ retval store', call.run defaultMutexes allocator fuel root ⟨store, noneHeld⟩ =
          .ok (retval, ⟨store', noneHeld⟩) ∧
        Disciplined allocator fuel root store' rest

/-- What decides whether a call goes below the root. -/
structure RootView where
  key : Int
  leftEmpty : Bool
  rightEmpty : Bool
deriving DecidableEq, Repr

def BtNode.rootView (node : BtNode) : RootView :=
  ⟨node.key, node.lChild.isNone, node.rChild.isNone⟩

/-- The search path of an `add` or a `lookup` ends at the root, and a `lookup`
finds its key there. -/
def RootView.allows (view : RootView) : Call → Prop
  | .add key _ =>
      key = view.key ∨ key < view.key ∧ view.leftEmpty = true ∨
        view.key < key ∧ view.rightEmpty = true
  | .delete _ => False
  | .lookup key _ => key = view.key

/-- The root after an allowed call. -/
def RootView.after (view : RootView) : Call → RootView
  | .add key _ =>
      if key < view.key then { view with leftEmpty := false }
      else if view.key < key then { view with rightEmpty := false }
      else view
  | .delete _ => view
  | .lookup _ _ => view

def RootView.allowsAll : RootView → List Call → Prop
  | _, [] => True
  | view, call :: rest => view.allows call ∧ (view.after call).allowsAll rest

section Allowed

variable {store : Store} {held : Held} {addr : Addr} {node : BtNode}

theorem lockNode_free (allocated : store.node addr = some node) (free : held addr = false) :
    lockNode defaultMutexes (some addr) ⟨store, held⟩ =
      .ok (0, ⟨store, Function.update held addr true⟩) := by
  simp [lockNode, mutexCall, allocated, defaultMutexes, free]

theorem unlockNode_held (allocated : store.node addr = some node) (isHeld : held addr = true) :
    unlockNode defaultMutexes (some addr) ⟨store, held⟩ =
      .ok (0, ⟨store, Function.update held addr false⟩) := by
  simp [unlockNode, mutexCall, allocated, defaultMutexes, isHeld]

theorem release_root :
    Function.update (Function.update noneHeld addr true) addr false = noneHeld := by
  rw [Function.update_idem]
  exact Function.update_eq_self addr noneHeld

/-- A new leaf below a node that is locked; the node is released. -/
theorem addLeaf_default (allocator : Allocator) (allocated : store.node addr = some node)
    (key value : Int) (link : Ptr → BtNode → BtNode) :
    addLeaf defaultMutexes allocator (some addr) key value link
        ⟨store, Function.update noneHeld addr true⟩ =
      .ok (0, ⟨store.withLeaf allocator addr key value
        (link (some (allocator.malloc store)) node), noneHeld⟩) := by
  have apart : addr ≠ allocator.malloc store :=
    Store.ne_of_allocated allocated (allocator.fresh store)
  let grown := store.write (allocator.malloc store) ⟨key, value, some addr, none, none⟩
  have stillAllocated : grown.node addr = some node :=
    (store.write_other _ apart).trans allocated
  have leafAllocated :
      grown.node (allocator.malloc store) = some ⟨key, value, some addr, none, none⟩ :=
    store.write_same _ _
  have unchanged : Function.update (Function.update noneHeld addr true)
      (allocator.malloc store) false = Function.update noneHeld addr true := by
    apply Function.update_eq_self_iff.mpr
    rw [Function.update_of_ne apart.symm]
    rfl
  have leafReady : mutexCall defaultMutexes.init (some (allocator.malloc store))
      ⟨grown, Function.update noneHeld addr true⟩ =
        .ok (0, ⟨grown, Function.update noneHeld addr true⟩) := by
    simp only [mutexCall, leafAllocated, defaultMutexes, unchanged]
  have allocatedLeaf : allocate allocator ⟨key, value, some addr, none, none⟩
      (⟨store, Function.update noneHeld addr true⟩ : World Held) =
        .ok (some (allocator.malloc store), ⟨grown, Function.update noneHeld addr true⟩) := rfl
  rw [addLeaf, bind_ok allocatedLeaf, attempt_zero leafReady, assign_bind stillAllocated,
    unlockNode_held (Store.write_same ..) (Function.update_self ..), release_root]
  rfl

end Allowed

section Session

variable {allocator : Allocator} {store : Store} {root : Addr} {tree : Tree} {node : BtNode}
  {fuel : Nat} {call : Call}
  (represents : Represents store root tree) (allocated : store.node root = some node)

include represents allocated

/-- An allowed call returns with all mutexes free. -/
theorem Represents.run_allowed (allocator : Allocator) (allowed : node.rootView.allows call)
    (enough : 0 < fuel) :
    ∃ retval store' tree' node',
      call.run defaultMutexes allocator fuel root ⟨store, noneHeld⟩ =
        .ok (retval, ⟨store', noneHeld⟩) ∧
      Represents store' root tree' ∧ store'.node root = some node' ∧
      node'.rootView = node.rootView.after call := by
  obtain ⟨shape, rootAt, distinct⟩ := represents
  cases tree with
  | nil => cases rootAt
  | node label nodeKey nodeValue left right =>
      cases rootAt
      have nodeAt := NodeAt.of_shape shape distinct
      rw [nodeAt.here] at allocated
      cases allocated
      obtain ⟨fuel, rfl⟩ := Nat.exists_eq_succ_of_ne_zero enough.ne'
      let tree : Tree := .node root nodeKey nodeValue left right
      have entered : (if (none : Ptr) = none then lockNode defaultMutexes (some root) else pure 0)
          ⟨store, noneHeld⟩ = .ok (0, ⟨store, Function.update noneHeld root true⟩) := by
        rw [if_pos rfl]
        exact lockNode_free nodeAt.here rfl
      have represents_of_added {key value : Int} {store' : Store}
          (added : Added allocator store none tree key value store') :
          Represents store' root (tree.insert (allocator.malloc store) key value) :=
        ⟨added.shape, LabelledTree.root_insert _ _ _ rfl,
          LabelledTree.nodup_labels_insert _ _ _ distinct
            fun member => shape.not_fresh member rfl⟩
      cases call with
      | delete key => cases allowed
      | lookup key value =>
          have same : key = nodeKey := allowed
          refine ⟨0, store, tree, _, ?_, ⟨shape, rfl, distinct⟩, nodeAt.here, rfl⟩
          rw [Call.run, BinaryTree.lookup, load_bind nodeAt.here, attempt_zero entered]
          dsimp only
          rw [attempt_zero (by rw [if_neg (by simp)]; rfl), if_neg (by omega), if_neg (by omega),
            attempt_zero (unlockNode_held nodeAt.here (Function.update_self ..)), release_root]
          rfl
      | add key value =>
          simp only [Call.run]
          rw [BinaryTree.add, load_bind nodeAt.here, attempt_zero entered]
          dsimp only
          rw [attempt_zero rfl]
          rcases allowed with same | ⟨less, leftEmpty⟩ | ⟨greater, rightEmpty⟩
          · have same : key = nodeKey := same
            have notLess : ¬ key < nodeKey := same.not_lt
            have notGreater : ¬ nodeKey < key := same.not_gt
            rw [if_neg notLess, if_pos same, assign_bind nodeAt.here,
              unlockNode_held (Store.write_same ..) (Function.update_self ..), release_root]
            exact ⟨0, _, _, _, rfl, represents_of_added (Added.overwrite nodeAt same),
              Store.write_same .., ((if_neg notLess).trans (if_neg notGreater)).symm⟩
          · have leftNull : left.root = none := Option.isNone_iff_eq_none.mp leftEmpty
            have less : key < nodeKey := less
            rw [if_pos less, if_pos leftNull, addLeaf_default _ nodeAt.here]
            exact ⟨0, _, _, _, rfl, represents_of_added
              (Added.leafLeft nodeAt less (LabelledTree.root_eq_none.mp leftNull)),
              Store.withLeaf_here _, (if_pos less).symm⟩
          · have rightNull : right.root = none := Option.isNone_iff_eq_none.mp rightEmpty
            have greater : nodeKey < key := greater
            have notLess : ¬ key < nodeKey := by omega
            rw [if_neg notLess, if_neg (by omega), if_pos rightNull,
              addLeaf_default _ nodeAt.here]
            exact ⟨0, _, _, _, rfl, represents_of_added
              (Added.leafRight nodeAt greater (LabelledTree.root_eq_none.mp rightNull)),
              Store.withLeaf_here _, ((if_neg notLess).trans (if_pos greater)).symm⟩

/-- A call that is not allowed does not return with all mutexes free. -/
theorem Represents.allows_of_run {retval : Int} {store' : Store}
    (ran : call.run defaultMutexes allocator fuel root ⟨store, noneHeld⟩ =
      .ok (retval, ⟨store', noneHeld⟩)) : node.rootView.allows call := by
  obtain ⟨shape, rootAt, distinct⟩ := represents
  cases tree with
  | nil => cases rootAt
  | node label nodeKey nodeValue left right =>
      cases rootAt
      have nodeAt := NodeAt.of_shape shape distinct
      rw [nodeAt.here] at allocated
      cases allocated
      by_contra forbidden
      cases call with
      | delete key =>
          obtain ⟨mutex, isHeld⟩ := delete_root_returns nodeAt retval _ ran
          cases isHeld
      | lookup key value => cases lookup_root_returns nodeAt forbidden retval _ ran
      | add key value =>
          simp only [RootView.allows, BtNode.rootView, not_or, not_and] at forbidden
          obtain ⟨different, leftPath, rightPath⟩ := forbidden
          refine (add_root_returns nodeAt different ?_ ?_ retval _ ran).elim
          · intro less isNull
            exact leftPath less (Option.isNone_iff_eq_none.mpr isNull)
          · intro greater isNull
            exact rightPath greater (Option.isNone_iff_eq_none.mpr isNull)

end Session

/-- For every tree and every sequence of calls on its root by one thread: the
lock discipline is kept throughout exactly when no call goes below the root, no
key is deleted, and only the root's key is looked up. -/
theorem disciplined_iff_allowsAll (allocator : Allocator) (fuel : Nat) (enough : 0 < fuel)
    (store : Store) (root : Addr) (tree : Tree) (represents : Represents store root tree)
    (node : BtNode) (allocated : store.node root = some node) (calls : List Call) :
    Disciplined allocator fuel root store calls ↔ node.rootView.allowsAll calls := by
  induction calls generalizing store tree node with
  | nil => exact Iff.rfl
  | cons call rest inductionHypothesis =>
      constructor
      · rintro ⟨retval, store', ran, disciplined⟩
        have allowed := represents.allows_of_run allocated ran
        obtain ⟨retval', store'', tree', node', ran', represents', allocated', view⟩ :=
          represents.run_allowed allocated allocator allowed enough
        rw [ran'] at ran
        cases ran
        refine ⟨allowed, ?_⟩
        rw [← view]
        exact (inductionHypothesis _ _ represents' _ allocated').mp disciplined
      · rintro ⟨allowed, allowedRest⟩
        obtain ⟨retval, store', tree', node', ran, represents', allocated', view⟩ :=
          represents.run_allowed allocated allocator allowed enough
        rw [← view] at allowedRest
        exact ⟨retval, store', ran,
          (inductionHypothesis _ _ represents' _ allocated').mpr allowedRest⟩

/-- The root after `initializeTree`, without children. -/
def bareRoot : Store := Store.empty.write 0 ⟨100, 0, none, none, none⟩

theorem bareRoot_represents : Represents bareRoot 0 (.node 0 100 0 .nil .nil) :=
  ⟨⟨rfl, trivial, trivial⟩, rfl, by decide⟩

theorem disciplined_iff_allowsAll_bareRoot :
    Disciplined bumpAllocator 1 0 bareRoot [.add 50 5, .add 120 6, .lookup 100 0] :=
  (disciplined_iff_allowsAll bumpAllocator 1 (by decide) bareRoot 0 _ bareRoot_represents _ rfl
    _).mpr (by simp [RootView.allowsAll, RootView.allows, RootView.after, BtNode.rootView])

/-- Looking up a key that is absent returns with the root still locked, so that
the next call of the same thread blocks. -/
theorem lookup_keeps_root_locked :
    lookup defaultMutexes 1 (some 0) 50 0 ⟨bareRoot, noneHeld⟩ =
        .ok (-1, ⟨bareRoot, Function.update noneHeld 0 true⟩) ∧
      lookup defaultMutexes 1 (some 0) 50 0 ⟨bareRoot, Function.update noneHeld 0 true⟩ =
        .error .deadlock ∧
      ¬ Disciplined bumpAllocator 1 0 bareRoot [.lookup 50 0] := by
  have ran : lookup defaultMutexes 1 (some 0) 50 0 ⟨bareRoot, noneHeld⟩ =
      .ok (-1, ⟨bareRoot, Function.update noneHeld 0 true⟩) := rfl
  refine ⟨ran, rfl, ?_⟩
  rintro ⟨retval, store', ran', _⟩
  rw [Call.run, ran] at ran'
  injection ran' with same
  injection same with _ same
  injection same with _ same
  have := congrFun same 0
  revert this
  decide

end LinuxProgramming.BinaryTree
