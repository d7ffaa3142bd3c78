import Mathlib.Data.Option.Basic
import Mathlib.Logic.Function.Basic

/-!
Contract: the threaded binary tree of `binary_tree.c`, statement by statement.

Owns:
- the store of `bt_node`s, `malloc`, `free` and dereference;
- the interface of the mutexes, so that one translation of the code serves the
  statements that ignore locking and those that are about it;
- `initializeTree`, `add`, `delete` and `lookup`.

Does not own: tree shapes or any fact about the functions.
-/

namespace LinuxProgramming.BinaryTree

abbrev Addr := Nat

/-- A `bt_node *`; `none` is `NULL`. -/
abbrev Ptr := Option Addr

/-- `bt_node` without its mutex, which the node's address identifies. -/
structure BtNode where
  key : Int
  value : Int
  parent : Ptr
  lChild : Ptr
  rChild : Ptr
deriving DecidableEq, Repr

/-- The nodes that are allocated; all of them lie below `bound`. -/
structure Store where
  node : Addr → Option BtNode
  bound : Addr
  unused : ∀ addr, bound ≤ addr → node addr = none

def Store.empty : Store := ⟨fun _ => none, 0, fun _ _ => rfl⟩

def Store.write (store : Store) (addr : Addr) (node : BtNode) : Store where
  node := Function.update store.node addr (some node)
  bound := max store.bound (addr + 1)
  unused := by
    intro other above
    have different : other ≠ addr :=
      Nat.ne_of_gt (Nat.le_trans (Nat.le_max_right store.bound (addr + 1)) above)
    rw [Function.update_of_ne different]
    exact store.unused other (Nat.le_trans (Nat.le_max_left _ _) above)

def Store.erase (store : Store) (addr : Addr) : Store where
  node := Function.update store.node addr none
  bound := store.bound
  unused := by
    intro other above
    by_cases same : other = addr
    · rw [same, Function.update_self]
    · rw [Function.update_of_ne same]
      exact store.unused other above

/-- A `malloc` that succeeds: it may return any address that is not in use. -/
structure Allocator where
  malloc : Store → Addr
  fresh : ∀ store : Store, store.node (malloc store) = none

/-- Why a call does not return. -/
inductive Stop where
  | nullDereference
  | danglingDereference
  | deadlock
  | unlockNotHeld
  | outOfFuel
deriving DecidableEq, Repr

/-- The mutex calls: each returns its `int` result or stops the thread. -/
structure Mutexes (Locks : Type) where
  init : Addr → Locks → Except Stop (Int × Locks)
  lock : Addr → Locks → Except Stop (Int × Locks)
  unlock : Addr → Locks → Except Stop (Int × Locks)
  destroy : Addr → Locks → Except Stop (Int × Locks)

/-- Every call returns 0 and does nothing. -/
def ignored : Mutexes Unit where
  init _ locks := .ok (0, locks)
  lock _ locks := .ok (0, locks)
  unlock _ locks := .ok (0, locks)
  destroy _ locks := .ok (0, locks)

/-- `EBUSY`. -/
def ebusy : Int := 16

/-- Default mutexes used by one thread, with the set of those it holds. Locking
a mutex again blocks for good; unlocking one that is not held is undefined; a
mutex that is held cannot be destroyed. -/
def defaultMutexes : Mutexes (Addr → Bool) where
  init addr held := .ok (0, Function.update held addr false)
  lock addr held :=
    if held addr then .error .deadlock else .ok (0, Function.update held addr true)
  unlock addr held :=
    if held addr then .ok (0, Function.update held addr false) else .error .unlockNotHeld
  destroy addr held := if held addr then .ok (ebusy, held) else .ok (0, held)

structure World (Locks : Type) where
  store : Store
  locks : Locks

/-- A computation over the store and the mutexes. -/
abbrev Prog (Locks : Type) := StateT (World Locks) (Except Stop)

section Program

variable {Locks : Type}

def stop {α : Type} (reason : Stop) : Prog Locks α := fun _ => .error reason

/-- `*ptr`. -/
def load : Ptr → Prog Locks BtNode
  | none => stop .nullDereference
  | some addr => fun world =>
      match world.store.node addr with
      | none => .error .danglingDereference
      | some node => .ok (node, world)

/-- An assignment to fields of `*ptr`. -/
def assign (ptr : Ptr) (change : BtNode → BtNode) : Prog Locks Unit :=
  match ptr with
  | none => stop .nullDereference
  | some addr => fun world =>
      match world.store.node addr with
      | none => .error .danglingDereference
      | some node => .ok ((), { world with store := world.store.write addr (change node) })

/-- `malloc(sizeof(bt_node))` and the assignments that fill the node. -/
def allocate (allocator : Allocator) (node : BtNode) : Prog Locks Ptr := fun world =>
  .ok (some (allocator.malloc world.store),
    { world with store := world.store.write (allocator.malloc world.store) node })

/-- `free(ptr)`. -/
def release (ptr : Ptr) : Prog Locks Unit :=
  match ptr with
  | none => pure ()
  | some addr => fun world => .ok ((), { world with store := world.store.erase addr })

/-- A mutex call on `&(ptr->lock)`. -/
def mutexCall (call : Addr → Locks → Except Stop (Int × Locks)) (ptr : Ptr) : Prog Locks Int :=
  match ptr with
  | none => stop .nullDereference
  | some addr => fun world =>
      match world.store.node addr with
      | none => .error .danglingDereference
      | some _ =>
          match call addr world.locks with
          | .error reason => .error reason
          | .ok (retval, locks) => .ok (retval, { world with locks := locks })

/-- `retval = call; if (retval != 0) { failed }`, then `next`. -/
def attempt {α : Type} (call : Prog Locks Int) (failed : Int → Prog Locks α)
    (next : Prog Locks α) : Prog Locks α := do
  let retval ← call
  if retval = 0 then next else failed retval

/-- `if (ptr != NULL) retval = call(ptr)`, with 0 when the call is skipped. -/
def unlessNull (ptr : Ptr) (call : Ptr → Prog Locks Int) : Prog Locks Int :=
  if ptr = none then pure 0 else call ptr

variable (mutexes : Mutexes Locks) (allocator : Allocator)

/-- `pthread_mutex_lock(&(ptr->lock))`. -/
def lockNode (ptr : Ptr) : Prog Locks Int := mutexCall mutexes.lock ptr

/-- `pthread_mutex_unlock(&(ptr->lock))`. -/
def unlockNode (ptr : Ptr) : Prog Locks Int := mutexCall mutexes.unlock ptr

/-- Unlock each node in turn, ignoring the results, and return `retval`. -/
def unlockAll {α : Type} : List Ptr → α → Prog Locks α
  | [], retval => pure retval
  | ptr :: rest, retval => do
      let _ ← unlockNode mutexes ptr
      unlockAll rest retval

/-- `initialize`. -/
def initializeTree (tree : Ptr) : Prog Locks Int := do
  assign tree fun node =>
    { node with parent := none, lChild := none, rChild := none, key := 100, value := 0 }
  attempt (mutexCall mutexes.init tree) pure (pure 0)

/-- The leaf `add` hangs below `tree`; `link` stores its address in one of the
children of `tree`. The unlocking that ends `add` is included. -/
def addLeaf (tree : Ptr) (key value : Int) (link : Ptr → BtNode → BtNode) : Prog Locks Int := do
  let tmp ← allocate allocator
    { key := key, value := value, parent := tree, lChild := none, rChild := none }
  attempt (mutexCall mutexes.init tmp)
    (fun retval => do
      release tmp
      unlockAll mutexes [tree] retval)
    do
      assign tree (link tmp)
      unlockNode mutexes tree

/-- `add`. The comment at the second locking call says that it unlocks the
parent; the call locks it. -/
def add : Nat → Ptr → Int → Int → Prog Locks Int
  | 0, _, _, _ => stop .outOfFuel
  | fuel + 1, tree, key, value => do
      let node ← load tree
      attempt (if node.parent = none then lockNode mutexes tree else pure 0) pure do
      attempt (unlessNull node.parent (lockNode mutexes)) (unlockAll mutexes [tree]) do
      if key < node.key then
        if node.lChild = none then
          addLeaf mutexes allocator tree key value fun tmp node => { node with lChild := tmp }
        else
          attempt (lockNode mutexes node.lChild) (unlockAll mutexes [tree]) do
          add fuel node.lChild key value
      else if key = node.key then do
        assign tree fun node => { node with value := value }
        unlockNode mutexes tree
      else
        if node.rChild = none then
          addLeaf mutexes allocator tree key value fun tmp node => { node with rChild := tmp }
        else
          attempt (lockNode mutexes node.rChild) (unlockAll mutexes [tree]) do
          add fuel node.rChild key value

/-- `if (tree->parent->l_child == tree) tree->parent->l_child = child; else
tree->parent->r_child = child;`. -/
def replaceInParent (tree child : Ptr) : Prog Locks Unit := do
  let node ← load tree
  let parent ← load node.parent
  if parent.lChild = tree then assign node.parent fun parent => { parent with lChild := child }
  else assign node.parent fun parent => { parent with rChild := child }

/-- The loop of `delete` that hangs the right subtree of `tree` below its left
child; `some retval` is a return from the middle of the loop. In the branch that
ends on the right the source assigns `tree->r_child = tmp` where the other
branch assigns `tree->r_child->parent = tmp`. -/
def rehang : Nat → Ptr → Ptr → Int → Prog Locks (Option Int)
  | 0, _, _, _ => stop .outOfFuel
  | fuel + 1, tree, tmp, rKey => do
      let node ← load tmp
      let self ← load tree
      let abandon (retval : Int) : Prog Locks (Option Int) :=
        unlockAll mutexes ([self.parent, tree, self.lChild, self.rChild] ++
          if tmp ≠ self.lChild ∧ tmp ≠ self.rChild then [tmp] else []) (some retval)
      let descend (child : Ptr) : Prog Locks (Option Int) :=
        attempt (lockNode mutexes child) abandon do
          let next ← load child
          let retval ← unlockNode mutexes next.parent
          if retval ≠ 0 then
            unlockAll mutexes ([self.parent, tree] ++
              (if next.parent ≠ self.lChild then [self.lChild] else []) ++
              (if next.parent ≠ self.rChild then [self.rChild] else []) ++ [child]) ()
          rehang fuel tree child rKey
      if rKey < node.key then
        if node.lChild ≠ none then descend node.lChild
        else do
          assign tmp fun node => { node with lChild := self.rChild }
          assign self.rChild fun node => { node with parent := tmp }
          pure none
      else
        if node.rChild ≠ none then descend node.rChild
        else do
          assign tmp fun node => { node with rChild := self.rChild }
          assign tree fun node => { node with rChild := tmp }
          pure none

/-- The common end of `delete`: unlink `tree` from its parent, release the
locks, destroy the mutex and free the node. -/
def unlink (tree : Ptr) : Prog Locks Int := do
  let node ← load tree
  assign node.lChild fun child => { child with parent := node.parent }
  replaceInParent tree node.lChild
  attempt (unlockNode mutexes node.parent) (unlockAll mutexes [node.lChild, node.rChild]) do
  attempt (unlessNull node.lChild (unlockNode mutexes)) (unlockAll mutexes [node.rChild]) do
  attempt (unlessNull node.rChild (unlockNode mutexes)) pure do
  attempt (mutexCall mutexes.destroy tree) pure do
  release tree
  pure 0

/-- `delete` at the node that holds the key. -/
def deleteHere (fuel : Nat) (tree : Ptr) : Prog Locks Int := do
  let node ← load tree
  attempt (unlessNull node.lChild (lockNode mutexes))
    (unlockAll mutexes [node.parent, tree]) do
  attempt (unlessNull node.rChild (lockNode mutexes))
    (unlockAll mutexes [node.parent, tree]) do
  if node.lChild ≠ none ∧ node.rChild ≠ none then do
    let right ← load node.rChild
    match ← rehang mutexes fuel tree node.lChild right.key with
    | some retval => pure retval
    | none => unlink mutexes tree
  else if node.lChild ≠ none then do
    replaceInParent tree node.lChild
    unlink mutexes tree
  else do
    replaceInParent tree node.rChild
    unlink mutexes tree

/-- `tree->parent->parent`, or `NULL` when `tree->parent` is. -/
def grandparentOf (parent : Ptr) : Prog Locks Ptr :=
  if parent = none then pure none
  else do
    let node ← load parent
    pure node.parent

/-- `delete`. The comment at the second locking call says that it unlocks the
grandparent; the call locks it. The result of the recursive calls is dropped. -/
def delete : Nat → Ptr → Int → Prog Locks Int
  | 0, _, _ => stop .outOfFuel
  | fuel + 1, tree, key => do
      let node ← load tree
      attempt (if node.parent = none then lockNode mutexes tree else pure 0) pure do
      let grandparent ← grandparentOf node.parent
      attempt (unlessNull grandparent (lockNode mutexes))
        (unlockAll mutexes [node.parent, tree]) do
      if key < node.key then
        if node.lChild = none then pure 0
        else
          attempt (lockNode mutexes node.lChild) (unlockAll mutexes [node.parent, tree]) do
            let _ ← delete fuel node.lChild key
            pure 0
      else if key = node.key then deleteHere mutexes fuel tree
      else
        if node.rChild = none then pure 0
        else
          attempt (lockNode mutexes node.rChild) (unlockAll mutexes [node.parent, tree]) do
            let _ ← delete fuel node.rChild key
            pure 0

/-- `lookup`. The value is an argument the function never looks at. The comment
at the first unlocking call says that it unlocks the parent; the call unlocks
the node itself. -/
def lookup : Nat → Ptr → Int → Int → Prog Locks Int
  | 0, _, _, _ => stop .outOfFuel
  | fuel + 1, tree, key, value => do
      let node ← load tree
      attempt (if node.parent = none then lockNode mutexes tree else pure 0) pure do
      attempt (if node.parent ≠ none then unlockNode mutexes tree else pure 0)
        (unlockAll mutexes [tree]) do
      if key < node.key then
        if node.lChild = none then pure (-1)
        else
          attempt (lockNode mutexes node.lChild) (unlockAll mutexes [tree]) do
          lookup fuel node.lChild key value
      else if node.key < key then
        if node.rChild = none then pure (-1)
        else
          attempt (lockNode mutexes node.rChild) (unlockAll mutexes [tree]) do
          lookup fuel node.rChild key value
      else attempt (unlockNode mutexes tree) pure (pure 0)

end Program

end LinuxProgramming.BinaryTree
