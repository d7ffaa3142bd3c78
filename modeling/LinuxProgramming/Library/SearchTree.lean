import Mathlib.Order.Basic
import Mathlib.Data.List.Nodup
import Mathlib.Tactic

/-!
Contract: binary trees whose nodes carry a label, a key and a value, and the
search trees among them.

Owns:
- `LabelledTree`, its labels, in-order entries and node positions;
- `Ordered`, search, and insertion below the last node of a search path;
- the laws that make insertion an update of the map a search tree stores.

Does not own: any machine representation. A label stands for whatever
identifies a node; insertion never changes the label or position of a node.
-/

namespace LinuxProgramming.Library

universe u v w

/-- A binary tree with a label, a key and a value at each node. -/
inductive LabelledTree (ι : Type u) (κ : Type v) (υ : Type w) where
  | nil
  | node (label : ι) (key : κ) (value : υ) (left right : LabelledTree ι κ υ)
deriving DecidableEq, Repr

namespace LabelledTree

variable {ι : Type u} {κ : Type v} {υ : Type w}

def root : LabelledTree ι κ υ → Option ι
  | nil => none
  | node label _ _ _ _ => some label

def labels : LabelledTree ι κ υ → List ι
  | nil => []
  | node label _ _ left right => label :: (left.labels ++ right.labels)

/-- The key-value pairs, from left to right. -/
def entries : LabelledTree ι κ υ → List (κ × υ)
  | nil => []
  | node _ key value left right => left.entries ++ (key, value) :: right.entries

def keys (tree : LabelledTree ι κ υ) : List κ := tree.entries.map Prod.fst

def height : LabelledTree ι κ υ → Nat
  | nil => 0
  | node _ _ _ left right => max left.height right.height + 1

section Nodes

variable (label : ι) (key : κ) (value : υ) (left right : LabelledTree ι κ υ)

theorem labels_nil : (nil : LabelledTree ι κ υ).labels = [] := rfl

theorem labels_node : (node label key value left right).labels =
    label :: (left.labels ++ right.labels) := rfl

theorem entries_nil : (nil : LabelledTree ι κ υ).entries = [] := rfl

theorem entries_node : (node label key value left right).entries =
    left.entries ++ (key, value) :: right.entries := rfl

theorem height_node : (node label key value left right).height =
    max left.height right.height + 1 := rfl

end Nodes

@[simp] theorem keys_nil : (nil : LabelledTree ι κ υ).keys = [] := rfl

@[simp] theorem keys_node (label : ι) (key : κ) (value : υ) (left right : LabelledTree ι κ υ) :
    (node label key value left right).keys = left.keys ++ key :: right.keys := by
  simp [keys, entries_node]

theorem height_le_length_labels (tree : LabelledTree ι κ υ) :
    tree.height ≤ tree.labels.length := by
  induction tree with
  | nil => exact Nat.le_refl _
  | node label key value left right leftHypothesis rightHypothesis =>
      simp only [height_node, labels_node, List.length_cons, List.length_append]
      omega

theorem root_mem_labels {tree : LabelledTree ι κ υ} {label : ι} (root : tree.root = some label) :
    label ∈ tree.labels := by
  cases tree with
  | nil => cases root
  | node label' key value left right =>
      cases root
      exact List.mem_cons_self

theorem root_eq_none {tree : LabelledTree ι κ υ} : tree.root = none ↔ tree = nil := by
  cases tree with
  | nil => exact ⟨fun _ => rfl, fun _ => rfl⟩
  | node label key value left right => exact ⟨nofun, nofun⟩

theorem exists_root {tree : LabelledTree ι κ υ} (notEmpty : tree ≠ nil) :
    ∃ label, tree.root = some label := by
  cases tree with
  | nil => exact absurd rfl notEmpty
  | node label key value left right => exact ⟨label, rfl⟩

theorem mem_keys_of_mem_entries {tree : LabelledTree ι κ υ} {key : κ} {value : υ}
    (member : (key, value) ∈ tree.entries) : key ∈ tree.keys :=
  List.mem_map.mpr ⟨(key, value), member, rfl⟩

/-- The node a sequence of turns leads to; `true` turns right. -/
def nodeAt : LabelledTree ι κ υ → List Bool → Option (ι × κ)
  | nil, _ => none
  | node label key _ _ _, [] => some (label, key)
  | node _ _ _ left _, false :: turns => left.nodeAt turns
  | node _ _ _ _ right, true :: turns => right.nodeAt turns

/-! ### Search trees -/

/-- Keys to the left are smaller, keys to the right are larger. -/
def Ordered [LT κ] : LabelledTree ι κ υ → Prop
  | nil => True
  | node _ key _ left right =>
      left.Ordered ∧ right.Ordered ∧ (∀ other ∈ left.keys, other < key) ∧
        ∀ other ∈ right.keys, key < other

instance [LT κ] [DecidableLT κ] : (tree : LabelledTree ι κ υ) → Decidable tree.Ordered
  | nil => isTrue trivial
  | node _ key _ left right =>
      have := instDecidableOrderedOfDecidableLT left
      have := instDecidableOrderedOfDecidableLT right
      inferInstanceAs (Decidable (left.Ordered ∧ right.Ordered ∧
        (∀ other ∈ left.keys, other < key) ∧ ∀ other ∈ right.keys, key < other))

variable [LinearOrder κ]

/-- The value found on the search path of a key. -/
def find? : LabelledTree ι κ υ → κ → Option υ
  | nil, _ => none
  | node _ key value left right, wanted =>
      if wanted < key then left.find? wanted
      else if key < wanted then right.find? wanted
      else some value

/-- Overwrite the value of a key, or hang a node with label `fresh` where the
search path of the key leaves the tree. -/
def insert (fresh : ι) (wanted : κ) (stored : υ) : LabelledTree ι κ υ → LabelledTree ι κ υ
  | nil => node fresh wanted stored nil nil
  | node label key value left right =>
      if wanted < key then node label key value (left.insert fresh wanted stored) right
      else if key < wanted then node label key value left (right.insert fresh wanted stored)
      else node label key stored left right

section Insert

variable (fresh : ι) (wanted : κ) (stored : υ)

theorem insert_nil :
    (nil : LabelledTree ι κ υ).insert fresh wanted stored = node fresh wanted stored nil nil := rfl

theorem insert_node (label : ι) (key : κ) (value : υ) (left right : LabelledTree ι κ υ) :
    (node label key value left right).insert fresh wanted stored =
      if wanted < key then node label key value (left.insert fresh wanted stored) right
      else if key < wanted then node label key value left (right.insert fresh wanted stored)
      else node label key stored left right := rfl

theorem find?_nil : (nil : LabelledTree ι κ υ).find? wanted = none := rfl

theorem find?_node (label : ι) (key : κ) (value : υ) (left right : LabelledTree ι κ υ) :
    (node label key value left right).find? wanted =
      if wanted < key then left.find? wanted
      else if key < wanted then right.find? wanted
      else some value := rfl

theorem mem_keys_insert {tree : LabelledTree ι κ υ} {other : κ} :
    other ∈ (tree.insert fresh wanted stored).keys ↔ other = wanted ∨ other ∈ tree.keys := by
  induction tree with
  | nil => simp [insert_nil]
  | node label key value left right leftHypothesis rightHypothesis =>
      rw [insert_node]
      split
      · simp only [keys_node, List.mem_append, List.mem_cons, leftHypothesis]
        grind
      · split
        · simp only [keys_node, List.mem_append, List.mem_cons, rightHypothesis]
          grind
        · have same : wanted = key := by order
          simp only [keys_node, List.mem_append, List.mem_cons, same]
          grind

theorem ordered_insert {tree : LabelledTree ι κ υ} (ordered : tree.Ordered) :
    (tree.insert fresh wanted stored).Ordered := by
  induction tree with
  | nil => simp [insert_nil, Ordered]
  | node label key value left right leftHypothesis rightHypothesis =>
      obtain ⟨leftOrdered, rightOrdered, below, above⟩ := ordered
      rw [insert_node]
      split
      case isTrue less =>
        refine ⟨leftHypothesis leftOrdered, rightOrdered, ?_, above⟩
        intro other member
        rcases (mem_keys_insert fresh wanted stored).mp member with rfl | old
        · exact less
        · exact below other old
      case isFalse =>
        split
        case isTrue greater =>
          refine ⟨leftOrdered, rightHypothesis rightOrdered, below, ?_⟩
          intro other member
          rcases (mem_keys_insert fresh wanted stored).mp member with rfl | old
          · exact greater
          · exact above other old
        case isFalse => exact ⟨leftOrdered, rightOrdered, below, above⟩

/-- Insertion updates the stored map at one key. -/
theorem find?_insert (tree : LabelledTree ι κ υ) (other : κ) :
    (tree.insert fresh wanted stored).find? other =
      if other = wanted then some stored else tree.find? other := by
  induction tree with
  | nil =>
      simp only [insert_nil, find?_node, find?_nil]
      split_ifs <;> first | rfl | (exfalso; order)
  | node label key value left right leftHypothesis rightHypothesis =>
      rw [insert_node]
      split_ifs with less greater same <;>
        simp only [find?_node, leftHypothesis, rightHypothesis] <;>
        split_ifs <;> first | rfl | (exfalso; order)

theorem mem_labels_insert {tree : LabelledTree ι κ υ} {label : ι}
    (member : label ∈ (tree.insert fresh wanted stored).labels) :
    label = fresh ∨ label ∈ tree.labels := by
  induction tree with
  | nil => simpa [insert_nil, labels_node, labels_nil] using member
  | node other key value left right leftHypothesis rightHypothesis =>
      rw [insert_node] at member
      split at member
      · simp only [labels_node, List.mem_cons, List.mem_append] at member ⊢
        grind
      · split at member
        · simp only [labels_node, List.mem_cons, List.mem_append] at member ⊢
          grind
        · exact .inr member

theorem nodup_labels_insert {tree : LabelledTree ι κ υ} (distinct : tree.labels.Nodup)
    (unused : fresh ∉ tree.labels) : (tree.insert fresh wanted stored).labels.Nodup := by
  induction tree with
  | nil => simp [insert_nil, labels_node, labels_nil]
  | node other key value left right leftHypothesis rightHypothesis =>
      simp only [labels_node, List.mem_cons, List.mem_append, List.nodup_cons, List.nodup_append',
        not_or] at distinct unused
      obtain ⟨⟨notLeft, notRight⟩, leftDistinct, rightDistinct, apart⟩ := distinct
      obtain ⟨notRoot, unusedLeft, unusedRight⟩ := unused
      rw [insert_node]
      split_ifs
      · simp only [labels_node, List.nodup_cons, List.nodup_append', List.mem_append, not_or]
        refine ⟨⟨?_, notRight⟩, leftHypothesis leftDistinct unusedLeft, rightDistinct, ?_⟩
        · intro member
          rcases mem_labels_insert fresh wanted stored member with same | old
          · exact notRoot same.symm
          · exact notLeft old
        · intro label member inRight
          rcases mem_labels_insert fresh wanted stored member with rfl | old
          · exact unusedRight inRight
          · exact apart old inRight
      · simp only [labels_node, List.nodup_cons, List.nodup_append', List.mem_append, not_or]
        refine ⟨⟨notLeft, ?_⟩, leftDistinct, rightHypothesis rightDistinct unusedRight, ?_⟩
        · intro member
          rcases mem_labels_insert fresh wanted stored member with same | old
          · exact notRoot same.symm
          · exact notRight old
        · intro label inLeft member
          rcases mem_labels_insert fresh wanted stored member with rfl | old
          · exact unusedLeft inLeft
          · exact apart inLeft old
      · simp only [labels_node, List.nodup_cons, List.nodup_append', List.mem_append, not_or]
        exact ⟨⟨notLeft, notRight⟩, leftDistinct, rightDistinct, apart⟩

theorem length_labels_insert (tree : LabelledTree ι κ υ) :
    (tree.insert fresh wanted stored).labels.length ≤ tree.labels.length + 1 := by
  induction tree with
  | nil => simp [insert_nil, labels_node, labels_nil]
  | node other key value left right leftHypothesis rightHypothesis =>
      rw [insert_node]
      split_ifs <;> simp only [labels_node, List.length_cons, List.length_append] <;> omega

theorem root_insert {tree : LabelledTree ι κ υ} {label : ι} (root : tree.root = some label) :
    (tree.insert fresh wanted stored).root = some label := by
  cases tree with
  | nil => cases root
  | node other key value left right =>
      rw [insert_node]
      split_ifs <;> exact root

/-- No node moves: what was at a position is still there. -/
theorem nodeAt_insert {tree : LabelledTree ι κ υ} {turns : List Bool} {found : ι × κ}
    (at_ : tree.nodeAt turns = some found) :
    (tree.insert fresh wanted stored).nodeAt turns = some found := by
  induction tree generalizing turns with
  | nil => cases at_
  | node label key value left right leftHypothesis rightHypothesis =>
      rw [insert_node]
      split_ifs
      all_goals
        cases turns with
        | nil => exact at_
        | cons turn rest =>
            cases turn
            · first | exact at_ | exact leftHypothesis at_
            · first | exact at_ | exact rightHypothesis at_

end Insert

/-! ### The map of a search tree -/

theorem mem_entries_of_find? {tree : LabelledTree ι κ υ} {key : κ} {value : υ}
    (found : tree.find? key = some value) : (key, value) ∈ tree.entries := by
  induction tree with
  | nil => cases found
  | node label other stored left right leftHypothesis rightHypothesis =>
      simp only [find?_node] at found
      simp only [entries_node, List.mem_append, List.mem_cons]
      split_ifs at found
      · exact .inl (leftHypothesis found)
      · exact .inr (.inr (rightHypothesis found))
      · have same : key = other := by order
        cases found
        exact .inr (.inl (by rw [same]))

/-- Search finds exactly the stored pairs. -/
theorem find?_eq_some_iff {tree : LabelledTree ι κ υ} (ordered : tree.Ordered) {key : κ}
    {value : υ} : tree.find? key = some value ↔ (key, value) ∈ tree.entries := by
  refine ⟨mem_entries_of_find?, ?_⟩
  induction tree with
  | nil => simp [entries_nil, find?_nil]
  | node label other stored left right leftHypothesis rightHypothesis =>
      obtain ⟨leftOrdered, rightOrdered, below, above⟩ := ordered
      simp only [entries_node, List.mem_append, List.mem_cons, find?_node]
      rintro (member | same | member)
      · have less := below key (mem_keys_of_mem_entries member)
        rw [if_pos less]
        exact leftHypothesis leftOrdered member
      · cases same
        simp
      · have greater := above key (mem_keys_of_mem_entries member)
        rw [if_neg (by order), if_pos greater]
        exact rightHypothesis rightOrdered member

theorem find?_eq_none_iff {tree : LabelledTree ι κ υ} (ordered : tree.Ordered) {key : κ} :
    tree.find? key = none ↔ key ∉ tree.keys := by
  constructor
  · intro absent member
    obtain ⟨⟨_, value⟩, stored, rfl⟩ := List.mem_map.mp member
    rw [(find?_eq_some_iff ordered).mpr stored] at absent
    cases absent
  · intro absent
    cases found : tree.find? key with
    | none => rfl
    | some value => exact absurd (mem_keys_of_mem_entries (mem_entries_of_find? found)) absent

/-- The keys of a search tree are strictly increasing from left to right. -/
theorem Ordered.keys_sorted {tree : LabelledTree ι κ υ} (ordered : tree.Ordered) :
    tree.keys.Pairwise (· < ·) := by
  induction tree with
  | nil => exact .nil
  | node label key value left right leftHypothesis rightHypothesis =>
      obtain ⟨leftOrdered, rightOrdered, below, above⟩ := ordered
      rw [keys_node, List.pairwise_append, List.pairwise_cons]
      refine ⟨leftHypothesis leftOrdered, ⟨above, rightHypothesis rightOrdered⟩, ?_⟩
      intro smaller left_ larger right_
      rcases List.mem_cons.mp right_ with rfl | right_
      · exact below smaller left_
      · exact (below smaller left_).trans (above larger right_)

theorem Ordered.keys_nodup {tree : LabelledTree ι κ υ} (ordered : tree.Ordered) :
    tree.keys.Nodup :=
  ordered.keys_sorted.imp ne_of_lt

/-! ### Removing a node without right child -/

/-- The subtree whose root holds a key, on the search path of the key. -/
def subtree? : LabelledTree ι κ υ → κ → Option (LabelledTree ι κ υ)
  | nil, _ => none
  | node label key value left right, wanted =>
      if wanted < key then left.subtree? wanted
      else if key < wanted then right.subtree? wanted
      else some (node label key value left right)

/-- Put the left subtree of the node with a key in the place of the node. -/
def spliceLeft (wanted : κ) : LabelledTree ι κ υ → LabelledTree ι κ υ
  | nil => nil
  | node label key value left right =>
      if wanted < key then node label key value (left.spliceLeft wanted) right
      else if key < wanted then node label key value left (right.spliceLeft wanted)
      else left

/-- The node with a key, if there is one, has no right child. -/
def NoRightChild (tree : LabelledTree ι κ υ) (wanted : κ) : Prop :=
  ∀ label key value left right, tree.subtree? wanted = some (node label key value left right) →
    right = nil

section SpliceLeft

variable {wanted : κ} {label : ι} {key : κ} {value : υ} {left right : LabelledTree ι κ υ}

theorem subtree?_node : (node label key value left right).subtree? wanted =
    if wanted < key then left.subtree? wanted
    else if key < wanted then right.subtree? wanted
    else some (node label key value left right) := rfl

theorem spliceLeft_nil : (nil : LabelledTree ι κ υ).spliceLeft wanted = nil := rfl

theorem spliceLeft_node : (node label key value left right).spliceLeft wanted =
    if wanted < key then node label key value (left.spliceLeft wanted) right
    else if key < wanted then node label key value left (right.spliceLeft wanted)
    else left := rfl

theorem NoRightChild.inLeft (noRight : (node label key value left right).NoRightChild wanted)
    (less : wanted < key) : left.NoRightChild wanted := by
  intro label' key' value' left' right' found
  apply noRight label' key' value' left' right'
  rw [subtree?_node, if_pos less]
  exact found

theorem NoRightChild.inRight (noRight : (node label key value left right).NoRightChild wanted)
    (greater : key < wanted) : right.NoRightChild wanted := by
  intro label' key' value' left' right' found
  apply noRight label' key' value' left' right'
  rw [subtree?_node, if_neg (by order), if_pos greater]
  exact found

theorem NoRightChild.here (noRight : (node label key value left right).NoRightChild wanted)
    (notLess : ¬ wanted < key) (notGreater : ¬ key < wanted) : right = nil :=
  noRight label key value left right (by rw [subtree?_node, if_neg notLess, if_neg notGreater])

/-- Exactly the pair of the key goes. -/
theorem mem_entries_spliceLeft {tree : LabelledTree ι κ υ} (ordered : tree.Ordered)
    (noRight : tree.NoRightChild wanted) {other : κ} {stored : υ} :
    (other, stored) ∈ (tree.spliceLeft wanted).entries ↔
      (other, stored) ∈ tree.entries ∧ other ≠ wanted := by
  induction tree with
  | nil => simp [spliceLeft_nil, entries_nil]
  | node label key value left right leftHypothesis rightHypothesis =>
      obtain ⟨leftOrdered, rightOrdered, below, above⟩ := ordered
      have leftKeys (member : (other, stored) ∈ left.entries) : other < key :=
        below other (mem_keys_of_mem_entries member)
      have rightKeys (member : (other, stored) ∈ right.entries) : key < other :=
        above other (mem_keys_of_mem_entries member)
      rw [spliceLeft_node]
      split_ifs with less greater
      · simp only [entries_node, List.mem_append, List.mem_cons, Prod.mk.injEq,
          leftHypothesis leftOrdered (noRight.inLeft less)]
        constructor
        · rintro (⟨member, different⟩ | ⟨rfl, rfl⟩ | member)
          · exact ⟨.inl member, different⟩
          · exact ⟨.inr (.inl ⟨rfl, rfl⟩), less.ne'⟩
          · exact ⟨.inr (.inr member), (less.trans (rightKeys member)).ne'⟩
        · rintro ⟨member | same | member, different⟩
          · exact .inl ⟨member, different⟩
          · exact .inr (.inl same)
          · exact .inr (.inr member)
      · simp only [entries_node, List.mem_append, List.mem_cons, Prod.mk.injEq,
          rightHypothesis rightOrdered (noRight.inRight greater)]
        constructor
        · rintro (member | ⟨rfl, rfl⟩ | ⟨member, different⟩)
          · exact ⟨.inl member, ((leftKeys member).trans greater).ne⟩
          · exact ⟨.inr (.inl ⟨rfl, rfl⟩), greater.ne⟩
          · exact ⟨.inr (.inr member), different⟩
        · rintro ⟨member | same | member, different⟩
          · exact .inl member
          · exact .inr (.inl same)
          · exact .inr (.inr ⟨member, different⟩)
      · have same : wanted = key := by order
        have empty := noRight.here less greater
        subst empty same
        simp only [entries_node, entries_nil, List.mem_append, List.mem_cons, List.not_mem_nil,
          or_false, Prod.mk.injEq]
        constructor
        · intro member
          exact ⟨.inl member, (leftKeys member).ne⟩
        · rintro ⟨member | ⟨rfl, _⟩, different⟩
          · exact member
          · exact absurd rfl different

theorem mem_keys_of_mem_spliceLeft {tree : LabelledTree ι κ υ} {other : κ}
    (member : other ∈ (tree.spliceLeft wanted).keys) : other ∈ tree.keys := by
  induction tree with
  | nil => exact member
  | node label key value left right leftHypothesis rightHypothesis =>
      rw [spliceLeft_node] at member
      split_ifs at member <;>
        simp only [keys_node, List.mem_append, List.mem_cons] at member ⊢ <;> tauto

theorem ordered_spliceLeft {tree : LabelledTree ι κ υ} (ordered : tree.Ordered) :
    (tree.spliceLeft wanted).Ordered := by
  induction tree with
  | nil => trivial
  | node label key value left right leftHypothesis rightHypothesis =>
      obtain ⟨leftOrdered, rightOrdered, below, above⟩ := ordered
      rw [spliceLeft_node]
      split_ifs
      · exact ⟨leftHypothesis leftOrdered, rightOrdered,
          fun other member => below other (mem_keys_of_mem_spliceLeft member), above⟩
      · exact ⟨leftOrdered, rightHypothesis rightOrdered, below,
          fun other member => above other (mem_keys_of_mem_spliceLeft member)⟩
      · exact leftOrdered

theorem labels_spliceLeft (tree : LabelledTree ι κ υ) :
    (tree.spliceLeft wanted).labels.Sublist tree.labels := by
  induction tree with
  | nil => exact .slnil
  | node label key value left right leftHypothesis rightHypothesis =>
      rw [spliceLeft_node]
      split_ifs
      · exact (leftHypothesis.append (List.Sublist.refl _)).cons_cons label
      · exact ((List.Sublist.refl _).append rightHypothesis).cons_cons label
      · exact (List.sublist_append_left _ _).cons label

end SpliceLeft

end LabelledTree

end LinuxProgramming.Library
