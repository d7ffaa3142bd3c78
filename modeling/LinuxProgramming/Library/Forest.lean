import Mathlib.Data.List.Basic
import Mathlib.Data.List.Flatten
import Mathlib.Data.List.Nodup
import Mathlib.Data.List.Perm.Subperm

/-!
Contract: forests that are given by a list of roots and the children of every
node, inside a structure that may have cycles elsewhere.

Owns:
- `Reaches`, the nodes at a depth below the roots, and `Below`, descendants;
- `IsForest`, which says that no reachable node has two places;
- the depth-first listing, and what it lists, how often and in which order;
- a bound on the depth by the number of nodes.

Does not own: any data structure that holds a forest.
-/

namespace LinuxProgramming.Library.Forest

universe u

variable {α : Type u} (roots : List α) (children : α → List α)

/-- A node that lies `depth` steps below a root. -/
inductive Reaches : α → Nat → Prop where
  | root {node : α} (member : node ∈ roots) : Reaches node 0
  | child {parent node : α} {depth : Nat} (above : Reaches parent depth)
      (member : node ∈ children parent) : Reaches node (depth + 1)

/-- A node that lies `steps` steps below another one. -/
inductive Below : α → Nat → α → Prop where
  | refl (node : α) : Below node 0 node
  | step {top parent node : α} {steps : Nat} (above : Below top steps parent)
      (member : node ∈ children parent) : Below top (steps + 1) node

/-- No reachable node stands in two places. -/
structure IsForest : Prop where
  rootsNodup : roots.Nodup
  childrenNodup : ∀ parent depth, Reaches roots children parent depth → (children parent).Nodup
  rootsOnTop : ∀ parent depth, Reaches roots children parent depth →
    ∀ node ∈ roots, node ∉ children parent
  oneParent : ∀ left right leftDepth rightDepth, Reaches roots children left leftDepth →
    Reaches roots children right rightDepth → ∀ node ∈ children left, node ∈ children right →
    left = right

/-- Every node before its children, with its depth; the nodes deeper than `fuel` levels
are left out. -/
def listing : Nat → Nat → List α → List (α × Nat)
  | 0, _, _ => []
  | fuel + 1, depth, nodes =>
      nodes.flatMap fun node => (node, depth) :: listing fuel (depth + 1) (children node)

section Paths

variable {roots children} {top parent node : α} {depth steps : Nat}

theorem Below.head (member : parent ∈ children top) (below : Below children parent steps node) :
    Below children top (steps + 1) node := by
  induction below with
  | refl => exact .step (.refl top) member
  | step _ last inductionHypothesis => exact .step inductionHypothesis last

/-- The first step on the way down. -/
theorem Below.cases_head (below : Below children top (steps + 1) node) :
    ∃ child ∈ children top, Below children child steps node := by
  induction steps generalizing node with
  | zero =>
      obtain ⟨⟩ | ⟨above, last⟩ := below
      cases above
      exact ⟨node, last, .refl node⟩
  | succ steps inductionHypothesis =>
      obtain ⟨⟩ | ⟨above, last⟩ := below
      obtain ⟨child, member, rest⟩ := inductionHypothesis above
      exact ⟨child, member, .step rest last⟩

theorem Reaches.descend (reaches : Reaches roots children top depth)
    (below : Below children top steps node) : Reaches roots children node (depth + steps) := by
  induction below with
  | refl => exact reaches
  | step _ last inductionHypothesis => exact .child inductionHypothesis last

/-- Every reachable node lies below a root. -/
theorem Reaches.exists_root (reaches : Reaches roots children node depth) :
    ∃ root ∈ roots, Below children root depth node := by
  induction reaches with
  | root member => exact ⟨_, member, .refl _⟩
  | child _ member inductionHypothesis =>
      obtain ⟨root, isRoot, below⟩ := inductionHypothesis
      exact ⟨root, isRoot, .step below member⟩

end Paths

namespace IsForest

variable {roots children} (forest : IsForest roots children)

include forest

/-- A node has one depth. -/
theorem depth_unique {node : α} {depth depth' : Nat} (reaches : Reaches roots children node depth)
    (reaches' : Reaches roots children node depth') : depth = depth' := by
  induction reaches generalizing depth' with
  | root member =>
      cases reaches' with
      | root _ => rfl
      | child above member' => exact absurd member' (forest.rootsOnTop _ _ above _ member)
  | child above member inductionHypothesis =>
      cases reaches' with
      | root member' => exact absurd member (forest.rootsOnTop _ _ above _ member')
      | child above' member' =>
          have same := forest.oneParent _ _ _ _ above above' _ member member'
          subst same
          rw [inductionHypothesis above']

/-- Two nodes that lie equally far above a third one are the same. -/
theorem top_unique {left right node : α} {leftDepth rightDepth steps : Nat}
    (leftReaches : Reaches roots children left leftDepth)
    (rightReaches : Reaches roots children right rightDepth)
    (leftBelow : Below children left steps node) (rightBelow : Below children right steps node) :
    left = right := by
  induction steps generalizing node with
  | zero =>
      cases leftBelow
      cases rightBelow
      rfl
  | succ steps inductionHypothesis =>
      obtain ⟨⟩ | ⟨leftAbove, leftLast⟩ := leftBelow
      obtain ⟨⟩ | ⟨rightAbove, rightLast⟩ := rightBelow
      have same := forest.oneParent _ _ _ _ (leftReaches.descend leftAbove)
        (rightReaches.descend rightAbove) _ leftLast rightLast
      subst same
      exact inductionHypothesis leftAbove rightAbove

/-- Distinct nodes, one for each level down to `depth`. -/
theorem exists_path {node : α} {depth : Nat} (reaches : Reaches roots children node depth) :
    ∃ path : List α, path.length = depth + 1 ∧ path.Nodup ∧
      ∀ member ∈ path, ∃ level ≤ depth, Reaches roots children member level := by
  induction reaches with
  | root member => exact ⟨[_], rfl, List.nodup_singleton _, by
      simpa using Reaches.root member⟩
  | @child parent node depth above member inductionHypothesis =>
      obtain ⟨path, length, nodup, levels⟩ := inductionHypothesis
      have reaches : Reaches roots children node (depth + 1) := .child above member
      refine ⟨node :: path, by rw [List.length_cons, length], ?_, ?_⟩
      · refine List.nodup_cons.mpr ⟨fun inPath => ?_, nodup⟩
        obtain ⟨level, low, reaches'⟩ := levels node inPath
        have := forest.depth_unique reaches reaches'
        omega
      · intro other inPath
        obtain rfl | later := List.mem_cons.mp inPath
        · exact ⟨depth + 1, Nat.le_refl _, reaches⟩
        · obtain ⟨level, low, reaches'⟩ := levels other later
          exact ⟨level, by omega, reaches'⟩

/-- A forest of finitely many nodes is less deep than it has nodes. -/
theorem depth_lt {all : List α}
    (inside : ∀ node depth, Reaches roots children node depth → node ∈ all) {node : α}
    {depth : Nat} (reaches : Reaches roots children node depth) : depth < all.length := by
  obtain ⟨path, length, nodup, levels⟩ := forest.exists_path reaches
  have subset : path ⊆ all := fun member inPath => by
    obtain ⟨level, -, reaches'⟩ := levels member inPath
    exact inside member level reaches'
  have := (nodup.subperm subset).length_le
  omega

end IsForest

/-! ### The listing -/

/-- Nodes of one level, listed with fuel for everything below them. -/
structure Level (roots : List α) (children : α → List α) (fuel depth : Nat) (nodes : List α) :
    Prop where
  nodup : nodes.Nodup
  reached : ∀ node ∈ nodes, Reaches roots children node depth
  deep : ∀ node level, Reaches roots children node level → level < depth + fuel

section Listing

variable {roots children}

theorem Level.ofChildren {fuel depth : Nat} {nodes : List α} (forest : IsForest roots children)
    (level : Level roots children (fuel + 1) depth nodes) {node : α} (member : node ∈ nodes) :
    Level roots children fuel (depth + 1) (children node) where
  nodup := forest.childrenNodup node depth (level.reached node member)
  reached := fun _ inChildren => .child (level.reached node member) inChildren
  deep := fun other height reaches => by
    have := level.deep other height reaches
    omega

theorem Level.ofRoots {fuel : Nat} (forest : IsForest roots children)
    (deep : ∀ node level, Reaches roots children node level → level < fuel) :
    Level roots children fuel 0 roots where
  nodup := forest.rootsNodup
  reached := fun _ member => .root member
  deep := fun node level reaches => by
    rw [Nat.zero_add]
    exact deep node level reaches

/-- The listing has the nodes and what lies below them, each with its depth. -/
theorem mem_listing (forest : IsForest roots children) {fuel depth : Nat} {nodes : List α}
    (level : Level roots children fuel depth nodes) {node : α} {height : Nat} :
    (node, height) ∈ listing children fuel depth nodes ↔
      ∃ top ∈ nodes, ∃ steps, Below children top steps node ∧ height = depth + steps := by
  induction fuel generalizing depth nodes with
  | zero =>
      refine ⟨(fun member => nomatch member), ?_⟩
      rintro ⟨top, member, -⟩
      exact absurd (level.deep top depth (level.reached top member)) (Nat.lt_irrefl _)
  | succ fuel inductionHypothesis =>
      simp only [listing, List.mem_flatMap, List.mem_cons, Prod.mk.injEq]
      constructor
      · rintro ⟨top, member, ⟨rfl, rfl⟩ | later⟩
        · exact ⟨node, member, 0, .refl node, rfl⟩
        · obtain ⟨child, isChild, steps, below, rfl⟩ :=
            (inductionHypothesis (level.ofChildren forest member)).mp later
          exact ⟨top, member, steps + 1, below.head isChild, by omega⟩
      · rintro ⟨top, member, steps, below, rfl⟩
        refine ⟨top, member, ?_⟩
        cases steps with
        | zero =>
            cases below
            exact .inl ⟨rfl, rfl⟩
        | succ steps =>
            obtain ⟨child, isChild, below⟩ := below.cases_head
            exact .inr ((inductionHypothesis (level.ofChildren forest member)).mpr
              ⟨child, isChild, steps, below, by omega⟩)

/-- No node is listed twice. -/
theorem listing_nodup (forest : IsForest roots children) {fuel depth : Nat} {nodes : List α}
    (level : Level roots children fuel depth nodes) :
    ((listing children fuel depth nodes).map Prod.fst).Nodup := by
  induction fuel generalizing depth nodes with
  | zero => exact List.nodup_nil
  | succ fuel inductionHypothesis =>
      -- Whatever is listed under a node lies below it.
      have under {top node : α} (member : top ∈ nodes)
          (listed : node ∈ top ::
            (listing children fuel (depth + 1) (children top)).map Prod.fst) :
          ∃ steps, Below children top steps node := by
        obtain rfl | later := List.mem_cons.mp listed
        · exact ⟨0, .refl _⟩
        · obtain ⟨⟨other, height⟩, inListing, rfl⟩ := List.mem_map.mp later
          obtain ⟨child, isChild, steps, below, -⟩ :=
            (mem_listing forest (level.ofChildren forest member)).mp inListing
          exact ⟨steps + 1, below.head isChild⟩
      simp only [listing, List.map_flatMap, List.map_cons]
      refine List.nodup_flatMap.mpr ⟨?_, ?_⟩
      · intro top member
        refine List.nodup_cons.mpr
          ⟨fun again => ?_, inductionHypothesis (level.ofChildren forest member)⟩
        obtain ⟨⟨other, height⟩, inListing, rfl⟩ := List.mem_map.mp again
        obtain ⟨child, isChild, steps, below, -⟩ :=
          (mem_listing forest (level.ofChildren forest member)).mp inListing
        have reaches := level.reached _ member
        have := forest.depth_unique reaches (reaches.descend (below.head isChild))
        omega
      · refine level.nodup.imp_of_mem fun {left right} leftIn rightIn different => ?_
        intro node inLeft inRight
        obtain ⟨leftSteps, leftBelow⟩ := under leftIn inLeft
        obtain ⟨rightSteps, rightBelow⟩ := under rightIn inRight
        have leftReaches := level.reached left leftIn
        have rightReaches := level.reached right rightIn
        have same : leftSteps = rightSteps := by
          have := forest.depth_unique (leftReaches.descend leftBelow)
            (rightReaches.descend rightBelow)
          omega
        subst same
        exact different (forest.top_unique leftReaches rightReaches leftBelow rightBelow)

/-- What lies below a node is listed in one piece, right behind it. -/
theorem listing_subtree (forest : IsForest roots children) {fuel depth : Nat} {nodes : List α}
    (level : Level roots children fuel depth nodes) {top : α} {height : Nat}
    (listed : (top, height) ∈ listing children fuel depth nodes) :
    ∃ earlier inside later, listing children fuel depth nodes =
        earlier ++ (top, height) :: (inside ++ later) ∧
      ∀ node below, (node, below) ∈ inside ↔
        ∃ steps, Below children top (steps + 1) node ∧ below = height + (steps + 1) := by
  induction fuel generalizing depth nodes with
  | zero => cases listed
  | succ fuel inductionHypothesis =>
      obtain ⟨node, member, inBlock⟩ := List.mem_flatMap.mp listed
      obtain ⟨before, after, rfl⟩ := List.append_of_mem member
      simp only [listing, List.flatMap_append, List.flatMap_cons]
      obtain same | later := List.mem_cons.mp inBlock
      · cases same
        refine ⟨_, listing children fuel (height + 1) (children top), _, rfl, ?_⟩
        intro other below
        rw [mem_listing forest (level.ofChildren forest member)]
        constructor
        · rintro ⟨child, isChild, steps, path, rfl⟩
          exact ⟨steps, path.head isChild, by omega⟩
        · rintro ⟨steps, path, rfl⟩
          obtain ⟨child, isChild, path⟩ := path.cases_head
          exact ⟨child, isChild, steps, path, by omega⟩
      · obtain ⟨earlier, inside, behind, split, exactly⟩ :=
          inductionHypothesis (level.ofChildren forest member) later
        refine ⟨before.flatMap (fun node => (node, depth) ::
            listing children fuel (depth + 1) (children node)) ++ (node, depth) :: earlier,
          inside, behind ++ after.flatMap fun node => (node, depth) ::
            listing children fuel (depth + 1) (children node), ?_, exactly⟩
        rw [split]
        simp only [List.append_assoc, List.cons_append]

end Listing

end LinuxProgramming.Library.Forest
