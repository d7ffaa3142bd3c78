import LinuxProgramming.Library.KeyedList

/-!
Contract: finite trees of named entries, and positions in them.

Owns:
- `FileTree`: directories with named entries, and other files;
- positions, with the parent of a position, and lookup of a position;
- induction over the entries of a directory;
- the listings of a tree in preorder and in postorder: each lists every position
  of the tree once.

Does not own: pathnames, links, or what the data in the tree means.
-/

namespace LinuxProgramming.Library

universe u v w

/-- A directory with its data and entries, or any other file. -/
inductive FileTree (ν : Type u) (δ : Type v) (ℓ : Type w) where
  | leaf (content : ℓ)
  | dir (info : δ) (entries : List (ν × FileTree ν δ ℓ))

/-- A position in a tree: the names that lead to it, the last one first, so that
the parent is the tail and the parent of the root is the root. -/
abbrev Position (ν : Type u) := List ν

namespace FileTree

variable {ν : Type u} {δ : Type v} {ℓ : Type w}

def IsDir : FileTree ν δ ℓ → Prop
  | leaf _ => False
  | dir _ _ => True

instance : (tree : FileTree ν δ ℓ) → Decidable tree.IsDir
  | leaf _ => inferInstanceAs (Decidable False)
  | dir _ _ => inferInstanceAs (Decidable True)

def names : FileTree ν δ ℓ → List ν
  | leaf _ => []
  | dir _ entries => entries.map Prod.fst

/-- Induction on a tree: what holds of all entries of a directory holds of the
directory. -/
theorem induction {motive : FileTree ν δ ℓ → Prop} (leaf : ∀ content, motive (leaf content))
    (dir : ∀ info entries, (∀ entry ∈ entries, motive entry.2) → motive (dir info entries))
    (tree : FileTree ν δ ℓ) : motive tree :=
  @FileTree.rec ν δ ℓ motive (fun entries => ∀ entry ∈ entries, motive entry.2)
    (fun entry => motive entry.2) leaf dir nofun
    (fun _ _ head tail => List.forall_mem_cons.mpr ⟨head, tail⟩) (fun _ _ child => child) tree

/-! ### Listings -/

mutual

/-- Every file of a tree that stands at `position`, each directory before its
entries. -/
def preorder (position : Position ν) :
    FileTree ν δ ℓ → List (Position ν × FileTree ν δ ℓ)
  | leaf content => [(position, leaf content)]
  | dir info entries => (position, dir info entries) :: preorderEntries position entries

def preorderEntries (position : Position ν) :
    List (ν × FileTree ν δ ℓ) → List (Position ν × FileTree ν δ ℓ)
  | [] => []
  | (name, child) :: rest => preorder (name :: position) child ++ preorderEntries position rest

end

mutual

/-- The same files, each directory after its entries. -/
def postorder (position : Position ν) :
    FileTree ν δ ℓ → List (Position ν × FileTree ν δ ℓ)
  | leaf content => [(position, leaf content)]
  | dir info entries => postorderEntries position entries ++ [(position, dir info entries)]

def postorderEntries (position : Position ν) :
    List (ν × FileTree ν δ ℓ) → List (Position ν × FileTree ν δ ℓ)
  | [] => []
  | (name, child) :: rest => postorder (name :: position) child ++ postorderEntries position rest

end

theorem preorderEntries_eq (position : Position ν) (entries : List (ν × FileTree ν δ ℓ)) :
    preorderEntries position entries =
      entries.flatMap fun entry => preorder (entry.1 :: position) entry.2 := by
  induction entries with
  | nil => rfl
  | cons entry rest inductionHypothesis =>
      rw [preorderEntries, inductionHypothesis, List.flatMap_cons]

theorem postorderEntries_eq (position : Position ν) (entries : List (ν × FileTree ν δ ℓ)) :
    postorderEntries position entries =
      entries.flatMap fun entry => postorder (entry.1 :: position) entry.2 := by
  induction entries with
  | nil => rfl
  | cons entry rest inductionHypothesis =>
      rw [postorderEntries, inductionHypothesis, List.flatMap_cons]

/-- Both listings hold the same files. -/
theorem postorder_perm (position : Position ν) (tree : FileTree ν δ ℓ) :
    (postorder position tree).Perm (preorder position tree) := by
  induction tree using induction generalizing position with
  | leaf content => exact List.Perm.refl _
  | dir info entries inductionHypothesis =>
      rw [postorder, preorder, postorderEntries_eq, preorderEntries_eq]
      have entriesPerm :
          (entries.flatMap fun entry => postorder (entry.1 :: position) entry.2).Perm
            (entries.flatMap fun entry => preorder (entry.1 :: position) entry.2) :=
        List.Perm.flatMap_left entries fun entry member =>
          inductionHypothesis entry member (entry.1 :: position)
      exact (entriesPerm.append_right _).trans List.perm_append_comm

/-- Whatever is listed stands at or below the position of the tree. -/
theorem below_of_mem_preorder {tree found : FileTree ν δ ℓ} {base position : Position ν}
    (listed : (position, found) ∈ preorder base tree) : ∃ below, position = below ++ base := by
  induction tree using induction generalizing base with
  | leaf content =>
      rw [preorder, List.mem_singleton] at listed
      cases listed
      exact ⟨[], rfl⟩
  | dir info entries inductionHypothesis =>
      rw [preorder, preorderEntries_eq] at listed
      rcases List.mem_cons.mp listed with same | inside
      · cases same
        exact ⟨[], rfl⟩
      · obtain ⟨entry, member, inside⟩ := List.mem_flatMap.mp inside
        obtain ⟨below, rfl⟩ := inductionHypothesis entry member inside
        exact ⟨below ++ [entry.1], by rw [List.append_assoc, List.singleton_append]⟩

theorem self_mem_preorder (position : Position ν) (tree : FileTree ν δ ℓ) :
    (position, tree) ∈ preorder position tree := by
  cases tree with
  | leaf content => exact List.mem_singleton.mpr rfl
  | dir info entries => exact List.mem_cons_self

/-- A listing holds the entries of every directory it holds. -/
theorem entry_mem_preorder {tree : FileTree ν δ ℓ} {base position : Position ν} {info : δ}
    {entries : List (ν × FileTree ν δ ℓ)}
    (listed : (position, dir info entries) ∈ preorder base tree)
    {entry : ν × FileTree ν δ ℓ} (member : entry ∈ entries) :
    (entry.1 :: position, entry.2) ∈ preorder base tree := by
  induction tree using induction generalizing base with
  | leaf content =>
      rw [preorder, List.mem_singleton] at listed
      cases listed
  | dir info' entries' inductionHypothesis =>
      rw [preorder, preorderEntries_eq] at listed ⊢
      rcases List.mem_cons.mp listed with same | below
      · cases same
        exact List.mem_cons_of_mem _
          (List.mem_flatMap.mpr ⟨entry, member, self_mem_preorder _ _⟩)
      · obtain ⟨entry', member', below⟩ := List.mem_flatMap.mp below
        exact List.mem_cons_of_mem _
          (List.mem_flatMap.mpr ⟨entry', member', inductionHypothesis entry' member' below⟩)

variable [DecidableEq ν]

/-- The entry of a directory with a name. -/
def child? : FileTree ν δ ℓ → ν → Option (FileTree ν δ ℓ)
  | leaf _, _ => none
  | dir _ entries, name => (entries.find? fun entry => entry.1 = name).map Prod.snd

/-- What is at a position below the root of the tree. -/
def at? (tree : FileTree ν δ ℓ) : Position ν → Option (FileTree ν δ ℓ)
  | [] => some tree
  | name :: parent => (tree.at? parent).bind fun above => above.child? name

@[simp] theorem at?_nil (tree : FileTree ν δ ℓ) : tree.at? [] = some tree := rfl

theorem at?_cons (tree : FileTree ν δ ℓ) (name : ν) (parent : Position ν) :
    tree.at? (name :: parent) = (tree.at? parent).bind fun above => above.child? name := rfl

theorem isDir_of_child? {tree child : FileTree ν δ ℓ} {name : ν}
    (found : tree.child? name = some child) : tree.IsDir := by
  cases tree with
  | leaf content => cases found
  | dir info entries => trivial

theorem mem_names_of_child? {tree child : FileTree ν δ ℓ} {name : ν}
    (found : tree.child? name = some child) : name ∈ tree.names := by
  cases tree with
  | leaf content => cases found
  | dir info entries =>
      obtain ⟨entry, foundEntry, _⟩ := Option.map_eq_some_iff.mp found
      have same : entry.1 = name := by simpa using List.find?_some foundEntry
      exact List.mem_map.mpr ⟨entry, List.mem_of_find?_eq_some foundEntry, same⟩

theorem exists_child? {tree : FileTree ν δ ℓ} {name : ν} (member : name ∈ tree.names) :
    ∃ child, tree.child? name = some child := by
  cases tree with
  | leaf content => cases member
  | dir info entries =>
      obtain ⟨entry, stored, rfl⟩ := List.mem_map.mp member
      cases found : entries.find? fun other => other.1 = entry.1 with
      | none =>
          have absent := List.find?_eq_none.mp found entry stored
          simp at absent
      | some other => exact ⟨other.2, by rw [child?, found]; rfl⟩

/-- With distinct names, every entry is the one found under its name. -/
theorem child?_of_mem {info : δ} {entries : List (ν × FileTree ν δ ℓ)}
    (distinct : (entries.map Prod.fst).Nodup) {name : ν} {child : FileTree ν δ ℓ}
    (member : (name, child) ∈ entries) : (dir info entries).child? name = some child := by
  have found := KeyedList.find?_key Prod.fst distinct member
  rw [child?, found]
  rfl

/-- Every position on the way to a position of the tree is a directory. -/
theorem exists_parent {tree found : FileTree ν δ ℓ} {name : ν} {parent : Position ν}
    (located : tree.at? (name :: parent) = some found) :
    ∃ above, tree.at? parent = some above ∧ above.child? name = some found ∧ above.IsDir := by
  obtain ⟨above, aboveAt, child⟩ := Option.bind_eq_some_iff.mp located
  exact ⟨above, aboveAt, child, isDir_of_child? child⟩

theorem at?_append (tree : FileTree ν δ ℓ) (below above : Position ν) :
    tree.at? (below ++ above) = (tree.at? above).bind fun found => found.at? below := by
  induction below with
  | nil => cases located : tree.at? above <;> simp [located]
  | cons name parent inductionHypothesis =>
      rw [List.cons_append, at?_cons, inductionHypothesis, Option.bind_assoc]
      rfl

/-- A tree lists whatever can be found in it. -/
theorem mem_preorder {tree found : FileTree ν δ ℓ} {position : Position ν}
    (located : tree.at? position = some found) : (position, found) ∈ preorder [] tree := by
  induction position generalizing found with
  | nil =>
      cases located
      exact self_mem_preorder _ _
  | cons name parent inductionHypothesis =>
      obtain ⟨above, aboveAt, child, isDir⟩ := exists_parent located
      cases above with
      | leaf content => cases isDir
      | dir info entries =>
          obtain ⟨entry, foundEntry, rfl⟩ := Option.map_eq_some_iff.mp child
          have same : entry.1 = name := by simpa using List.find?_some foundEntry
          rw [← same]
          exact entry_mem_preorder (inductionHypothesis aboveAt)
            (List.mem_of_find?_eq_some foundEntry)

/-- The entries of every directory have different names. -/
def UniqueNames (tree : FileTree ν δ ℓ) : Prop :=
  ∀ position found, tree.at? position = some found → found.names.Nodup

namespace UniqueNames

theorem at? {tree found : FileTree ν δ ℓ} {position : Position ν} (unique : tree.UniqueNames)
    (located : tree.at? position = some found) : found.UniqueNames := by
  intro below inside insideAt
  apply unique (below ++ position) inside
  rw [at?_append, located]
  exact insideAt

variable {info : δ} {entries : List (ν × FileTree ν δ ℓ)}

theorem child? (unique : (dir info entries).UniqueNames) {entry : ν × FileTree ν δ ℓ}
    (member : entry ∈ entries) : (dir info entries).child? entry.1 = some entry.2 :=
  child?_of_mem (unique [] _ rfl) member

theorem entry (unique : (dir info entries).UniqueNames) {entry : ν × FileTree ν δ ℓ}
    (member : entry ∈ entries) : entry.2.UniqueNames := by
  have located : (dir info entries).at? [entry.1] = some entry.2 := unique.child? member
  exact unique.at? located

end UniqueNames

theorem at?_of_mem_preorder {tree found : FileTree ν δ ℓ} {base below : Position ν}
    (unique : tree.UniqueNames) (listed : (below ++ base, found) ∈ preorder base tree) :
    tree.at? below = some found := by
  induction tree using induction generalizing base below with
  | leaf content =>
      rw [preorder, List.mem_singleton, Prod.mk.injEq] at listed
      obtain ⟨here, rfl⟩ := listed
      rw [List.append_left_eq_self.mp here]
      rfl
  | dir info entries inductionHypothesis =>
      rw [preorder, preorderEntries_eq] at listed
      rcases List.mem_cons.mp listed with same | inside
      · rw [Prod.mk.injEq] at same
        obtain ⟨here, rfl⟩ := same
        rw [List.append_left_eq_self.mp here]
        rfl
      · obtain ⟨entry, member, inside⟩ := List.mem_flatMap.mp inside
        obtain ⟨inner, split⟩ := below_of_mem_preorder inside
        rw [split] at inside
        have located := inductionHypothesis entry member (unique.entry member) inside
        have outer : below = inner ++ [entry.1] := by
          rw [List.append_cons] at split
          exact List.append_cancel_right split
        rw [outer, at?_append, at?_cons, at?_nil]
        show ((dir info entries).child? entry.1).bind _ = _
        rw [unique.child? member]
        exact located

theorem mem_preorder_iff {tree found : FileTree ν δ ℓ} {position : Position ν}
    (unique : tree.UniqueNames) :
    (position, found) ∈ preorder [] tree ↔ tree.at? position = some found :=
  ⟨fun listed => at?_of_mem_preorder unique (by rwa [List.append_nil]), mem_preorder⟩

/-- No position is listed twice. -/
theorem preorder_nodup {tree : FileTree ν δ ℓ} (unique : tree.UniqueNames) (base : Position ν) :
    ((preorder base tree).map Prod.fst).Nodup := by
  induction tree using induction generalizing base with
  | leaf content => exact List.nodup_singleton _
  | dir info entries inductionHypothesis =>
      rw [preorder, preorderEntries_eq, List.map_cons, List.map_flatMap, List.nodup_cons,
        List.nodup_flatMap]
      refine ⟨?_, fun entry member => inductionHypothesis entry member (unique.entry member) _, ?_⟩
      · intro inside
        obtain ⟨entry, member, inside⟩ := List.mem_flatMap.mp inside
        obtain ⟨⟨position, found⟩, listed, rfl⟩ := List.mem_map.mp inside
        obtain ⟨below, split⟩ := below_of_mem_preorder listed
        have longer := congrArg List.length split
        simp only [List.length_append, List.length_cons] at longer
        omega
      · have different : entries.Pairwise fun first second => first.1 ≠ second.1 :=
          List.pairwise_map.mp (unique [] _ rfl)
        refine different.imp fun {first second} apart position inFirst inSecond => ?_
        obtain ⟨⟨_, found⟩, listed, rfl⟩ := List.mem_map.mp inFirst
        obtain ⟨⟨_, found'⟩, listed', rfl⟩ := List.mem_map.mp inSecond
        obtain ⟨below, split⟩ := below_of_mem_preorder listed
        obtain ⟨below', split'⟩ := below_of_mem_preorder listed'
        have joined : below ++ [first.1] ++ base = below' ++ [second.1] ++ base := by
          rw [List.append_assoc, List.append_assoc, List.singleton_append,
            List.singleton_append, ← split, ← split']
        have last := (List.append_inj' (List.append_cancel_right joined) rfl).2
        exact apart (List.head_eq_of_cons_eq last)

end FileTree

end LinuxProgramming.Library
