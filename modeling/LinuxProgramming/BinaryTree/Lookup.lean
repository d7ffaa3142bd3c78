import LinuxProgramming.BinaryTree.Locks

/-!
Contract: what `lookup` answers, with locking left out.

Owns:
- `LookupCorrect`, the answer that the comment at `lookup` announces for a pair;
- the answer `lookup` gives, and the exact condition under which it is that one.

Does not own: the mutexes `lookup` locks and unlocks.
-/

namespace LinuxProgramming.BinaryTree

open LinuxProgramming.Library

/-- 0 if a node of the tree holds the key with the value, and -1 otherwise. -/
def LookupCorrect (tree : Tree) (key value retval : Int) : Prop :=
  (retval = 0 ↔ (key, value) ∈ tree.entries) ∧ (retval ≠ 0 → retval = -1)

section Lookup

variable {store : Store} {addr : Addr} {tree : Tree} {key value : Int} {fuel : Nat}

/-- The answer depends on the key alone. -/
theorem lookup_answers_key (represents : Represents store addr tree) (ordered : tree.Ordered)
    (key value : Int) (enough : tree.height ≤ fuel) :
    lookup ignored fuel (some addr) key value ⟨store, ()⟩ =
      .ok (if key ∈ tree.keys then 0 else -1, ⟨store, ()⟩) := by
  have present : (tree.find? key).isSome ↔ key ∈ tree.keys := by
    rw [Option.isSome_iff_ne_none, Ne, LabelledTree.find?_eq_none_iff ordered, not_not]
  rw [lookup_refines key value represents.shape represents.rootAt enough]
  simp only [present]

/-- In a search tree a key has one value at most. -/
theorem value_unique (ordered : tree.Ordered) {stored other : Int}
    (first : (key, stored) ∈ tree.entries) (second : (key, other) ∈ tree.entries) :
    stored = other := by
  rw [← LabelledTree.find?_eq_some_iff ordered] at first second
  exact Option.some.inj (first.symm.trans second)

theorem lookupCorrect_of_absent (absent : key ∉ tree.keys) : LookupCorrect tree key value (-1) := by
  refine ⟨iff_of_false (by decide) fun member => ?_, fun _ => rfl⟩
  exact absent (LabelledTree.mem_keys_of_mem_entries member)

theorem lookupCorrect_zero_iff : LookupCorrect tree key value 0 ↔ (key, value) ∈ tree.entries := by
  rw [LookupCorrect, and_iff_left fun nonzero => absurd rfl nonzero]
  exact iff_true_left rfl

end Lookup

/-- For every search tree and every pair: `lookup` leaves the tree as it is and
returns, and what it returns is the announced answer exactly if no node holds the
key with another value. -/
theorem lookup_correct_iff (store : Store) (addr : Addr) (tree : Tree)
    (represents : Represents store addr tree) (ordered : tree.Ordered) (key value : Int)
    (fuel : Nat) (enough : tree.height ≤ fuel) :
    ∃ retval, lookup ignored fuel (some addr) key value ⟨store, ()⟩ =
        .ok (retval, ⟨store, ()⟩) ∧
      (LookupCorrect tree key value retval ↔
        ∀ stored, (key, stored) ∈ tree.entries → stored = value) := by
  refine ⟨_, lookup_answers_key represents ordered key value enough, ?_⟩
  by_cases present : key ∈ tree.keys
  · rw [if_pos present, lookupCorrect_zero_iff]
    obtain ⟨⟨_, held⟩, member, rfl⟩ := List.mem_map.mp present
    constructor
    · intro asked stored other
      exact value_unique ordered other asked
    · intro same
      exact same held member ▸ member
  · rw [if_neg present]
    refine iff_of_true (lookupCorrect_of_absent present) fun stored member => ?_
    exact absurd (LabelledTree.mem_keys_of_mem_entries member) present

theorem lookup_correct_iff_bareRoot :
    ∃ retval, lookup ignored 1 (some 0) 100 0 ⟨bareRoot, ()⟩ = .ok (retval, ⟨bareRoot, ()⟩) ∧
      (LookupCorrect (.node 0 100 0 .nil .nil) 100 0 retval ↔
        ∀ stored, (100, stored) ∈ (LabelledTree.node 0 100 0 .nil .nil : Tree).entries →
          stored = 0) :=
  lookup_correct_iff bareRoot 0 (.node 0 100 0 .nil .nil) bareRoot_represents (by decide) 100 0 1
    (by decide)

/-- The root that `initialize` leaves holds 100 with the value 0, and the pair
of 100 and 7 is found. -/
theorem lookup_ignores_value :
    lookup ignored 1 (some 0) 100 7 ⟨bareRoot, ()⟩ = .ok (0, ⟨bareRoot, ()⟩) ∧
      ¬ LookupCorrect (.node 0 100 0 .nil .nil) 100 7 0 := by
  refine ⟨rfl, fun correct => ?_⟩
  have member : ((100 : Int), (7 : Int)) ∈
      (LabelledTree.node 0 100 0 .nil .nil : Tree).entries := correct.1.mp rfl
  exact absurd member (by decide)

end LinuxProgramming.BinaryTree
