import LinuxProgramming.Allocator.Blocks
import Mathlib.Data.Set.Lattice
import Mathlib.Order.Interval.Set.LinearOrder

/-!
Contract: where blocks lie, apart from what is stored in them.

Owns:
- `Placed`: blocks inside the heap, large enough for a header and pairwise disjoint;
- `covered`, the bytes of some blocks;
- cutting a block in two, and joining two that touch.

Does not own: the list, or any program.
-/

namespace LinuxProgramming.Allocator

open LinuxProgramming.Library

/-- The blocks lie between the bottom of the heap and `brk` and have no byte in common. -/
structure Placed (process : Process) (brk : Nat) (blocks : List Block) : Prop where
  inside : ∀ block ∈ blocks, process.bottom ≤ block.addr ∧ block.stop ≤ brk
  large : ∀ block ∈ blocks, MIN_SIZE ≤ block.size
  disjoint : blocks.Pairwise Block.Disjoint

/-- The bytes of the blocks, their size words included. -/
def covered (blocks : List Block) : Set Nat :=
  ⋃ block ∈ blocks, Set.Ico block.addr block.stop

/-- The one block ends where the other starts. -/
def Block.Touches (left right : Block) : Prop :=
  left.stop = right.addr

instance (left right : Block) : Decidable (left.Touches right) :=
  inferInstanceAs (Decidable (_ = _))

/-- The first `size` bytes of a block. -/
def Block.front (block : Block) (size : Nat) : Block :=
  ⟨block.addr, size⟩

/-- What is left behind them and a size word. -/
def Block.rest (block : Block) (size : Nat) : Block :=
  ⟨block.addr + size + WORD_SIZE, block.size - size - WORD_SIZE⟩

/-- Two blocks that touch as one, which gains the second size word. -/
def Block.join (left right : Block) : Block :=
  ⟨left.addr, left.size + (right.size + WORD_SIZE)⟩

section Cover

variable {block left right : Block} {blocks others : List Block} {size : Nat}

@[simp] theorem covered_nil : covered [] = ∅ := by
  simp [covered]

@[simp] theorem covered_cons :
    covered (block :: blocks) = Set.Ico block.addr block.stop ∪ covered blocks := by
  simp [covered]

@[simp] theorem covered_append : covered (blocks ++ others) = covered blocks ∪ covered others := by
  induction blocks with
  | nil => simp
  | cons first rest inductionHypothesis =>
      rw [List.cons_append, covered_cons, covered_cons, inductionHypothesis, Set.union_assoc]

/-- Cutting a block leaves every byte covered. -/
theorem covered_cut (room : size + MSG_SIZE ≤ block.size) :
    Set.Ico (block.front size).addr (block.front size).stop ∪
      Set.Ico (block.rest size).addr (block.rest size).stop = Set.Ico block.addr block.stop := by
  have middle : (block.front size).stop = (block.rest size).addr := by
    simp only [Block.front, Block.rest, Block.stop]
    omega
  have finish : (block.rest size).stop = block.stop := by
    rw [MSG_SIZE] at room
    simp only [Block.rest, Block.stop, WORD_SIZE]
    omega
  rw [middle, finish]
  apply Set.Ico_union_Ico_eq_Ico
  · simp only [Block.front, Block.rest]
    omega
  · rw [← finish]
    simp only [Block.stop]
    omega

theorem Block.stop_join (touches : left.Touches right) : (left.join right).stop = right.stop := by
  unfold Block.Touches Block.stop at touches
  simp only [Block.join, Block.stop]
  omega

theorem covered_join (touches : left.Touches right) :
    Set.Ico (left.join right).addr (left.join right).stop =
      Set.Ico left.addr left.stop ∪ Set.Ico right.addr right.stop := by
  rw [Block.stop_join touches, touches]
  symm
  apply Set.Ico_union_Ico_eq_Ico
  · rw [← touches, Block.stop]
    omega
  · rw [Block.stop]
    omega

end Cover

namespace Placed

variable {process : Process} {brk : Nat} {blocks others : List Block} {block left right : Block}
  {size : Nat}

theorem perm (placed : Placed process brk blocks) (same : blocks.Perm others) :
    Placed process brk others where
  inside block member := placed.inside block (same.mem_iff.mpr member)
  large block member := placed.large block (same.mem_iff.mpr member)
  disjoint := (same.pairwise_iff Or.symm).mp placed.disjoint

theorem raise {higher : Nat} (placed : Placed process brk blocks) (grown : brk ≤ higher) :
    Placed process higher blocks where
  inside block member := (placed.inside block member).imp_right fun high => high.trans grown
  large := placed.large
  disjoint := placed.disjoint

theorem tail (placed : Placed process brk (block :: blocks)) : Placed process brk blocks where
  inside other member := placed.inside other (List.mem_cons_of_mem _ member)
  large other member := placed.large other (List.mem_cons_of_mem _ member)
  disjoint := placed.disjoint.tail

/-- A block that fits and meets no other joins them. -/
theorem cons (placed : Placed process brk blocks)
    (inside : process.bottom ≤ block.addr ∧ block.stop ≤ brk) (large : MIN_SIZE ≤ block.size)
    (disjoint : ∀ other ∈ blocks, block.Disjoint other) :
    Placed process brk (block :: blocks) where
  inside := List.forall_mem_cons.mpr ⟨inside, placed.inside⟩
  large := List.forall_mem_cons.mpr ⟨large, placed.large⟩
  disjoint := .cons disjoint placed.disjoint

/-- A block can be cut where both parts have room for a header. -/
theorem cut (placed : Placed process brk (block :: blocks)) (large : MIN_SIZE ≤ size)
    (room : size + MSG_SIZE ≤ block.size) :
    Placed process brk (block.front size :: block.rest size :: blocks) := by
  obtain ⟨low, high⟩ := placed.inside block List.mem_cons_self
  have apart := (List.pairwise_cons.mp placed.disjoint).1
  simp only [Block.stop, MSG_SIZE, WORD_SIZE, MIN_SIZE, Block.Disjoint] at high room large apart
  have restPlaced : Placed process brk (block.rest size :: blocks) := by
    apply placed.tail.cons
    · simp only [Block.rest, Block.stop, WORD_SIZE]
      omega
    · simp only [Block.rest, WORD_SIZE, MIN_SIZE, MSG_SIZE]
      omega
    · intro other member
      have := apart other member
      simp only [Block.rest, Block.Disjoint, Block.stop, WORD_SIZE]
      omega
  apply restPlaced.cons
  · simp only [Block.front, Block.stop, WORD_SIZE]
    omega
  · simp only [Block.front, MIN_SIZE, MSG_SIZE, WORD_SIZE]
    omega
  · intro other member
    rcases List.mem_cons.mp member with rfl | member
    · left
      simp only [Block.front, Block.rest, Block.stop]
      omega
    · have := apart other member
      simp only [Block.front, Block.Disjoint, Block.stop, WORD_SIZE]
      omega

/-- Two blocks that touch can be joined. -/
theorem join (placed : Placed process brk (left :: right :: blocks))
    (touches : left.Touches right) : Placed process brk (left.join right :: blocks) := by
  obtain ⟨low, -⟩ := placed.inside left List.mem_cons_self
  obtain ⟨-, high⟩ := placed.inside right (by simp)
  have large := placed.large left List.mem_cons_self
  have leftApart := (List.pairwise_cons.mp placed.disjoint).1
  have rightApart := (List.pairwise_cons.mp placed.disjoint.tail).1
  apply placed.tail.tail.cons
  · rw [Block.stop_join touches]
    exact ⟨low, high⟩
  · exact large.trans (Nat.le_add_right _ _)
  · intro other member
    have first := leftApart other (List.mem_cons_of_mem _ member)
    have second := rightApart other member
    unfold Block.Disjoint at first second ⊢
    rw [Block.stop_join touches]
    simp only [Block.Touches, Block.stop, WORD_SIZE] at touches first second ⊢
    simp only [Block.join]
    omega

/-- Blocks with room for a header have headers that do not overlap. -/
theorem apart (placed : Placed process brk blocks) : (blocks.map Block.addr).Pairwise Apart := by
  rw [List.pairwise_map]
  apply placed.disjoint.imp_of_mem
  intro left right leftIn rightIn disjoint
  have leftLarge := placed.large left leftIn
  have rightLarge := placed.large right rightIn
  simp only [Block.Disjoint, Block.stop, MIN_SIZE, MSG_SIZE, WORD_SIZE]
    at disjoint leftLarge rightLarge
  unfold Apart
  rw [MSG_SIZE]
  omega

theorem start_inside (placed : Placed process brk blocks) (member : block ∈ blocks) :
    process.bottom ≤ block.addr ∧ block.addr + MSG_SIZE ≤ brk := by
  obtain ⟨low, high⟩ := placed.inside block member
  have large := placed.large block member
  simp only [Block.stop, MIN_SIZE, MSG_SIZE, WORD_SIZE] at high large ⊢
  omega

/-- No block starts where another one or the list head does. -/
theorem nodup (placed : Placed process brk blocks) :
    (process.head :: blocks.map Block.addr).Nodup := by
  have headBelow := process.headBelow
  rw [List.nodup_cons]
  constructor
  · intro isBlock
    obtain ⟨block, member, same⟩ := List.mem_map.mp isBlock
    have low := (placed.inside block member).1
    rw [MSG_SIZE] at headBelow
    omega
  · apply placed.apart.imp
    intro left right apart same
    rw [same, Apart, MSG_SIZE] at apart
    omega

/-- The headers of some blocks are apart from the bytes of the others. -/
theorem header_apart (placed : Placed process brk (blocks ++ others)) :
    ∀ other ∈ blocks, ∀ used ∈ others,
      used.stop ≤ other.addr ∨ other.addr + MSG_SIZE ≤ used.addr := by
  intro other otherIn used usedIn
  have disjoint := (List.pairwise_append.mp placed.disjoint).2.2 other otherIn used usedIn
  have large := placed.large other (List.mem_append_left _ otherIn)
  simp only [Block.Disjoint, Block.stop, MIN_SIZE, MSG_SIZE, WORD_SIZE] at disjoint large ⊢
  omega

theorem of_append (placed : Placed process brk (blocks ++ others)) : Placed process brk blocks where
  inside block member := placed.inside block (List.mem_append_left _ member)
  large block member := placed.large block (List.mem_append_left _ member)
  disjoint := (List.pairwise_append.mp placed.disjoint).1

end Placed

theorem mem_nodesOf (process : Process) (blocks : List Block) :
    ∀ node ∈ process.head :: blocks.map Block.addr, node ∈ nodesOf process blocks := by
  intro node member
  rcases List.mem_cons.mp member with isHead | isBlock
  · exact Or.inl isHead
  · obtain ⟨block, blockIn, same⟩ := List.mem_map.mp isBlock
    exact Or.inr ⟨block, blockIn, same⟩

/-- A member first, the others after it. -/
theorem perm_front (before after others : List Block) (block : Block) :
    ((before ++ block :: after) ++ others).Perm (block :: (before ++ after ++ others)) := by
  rw [List.append_assoc, List.cons_append, List.append_assoc]
  exact List.perm_middle

/-! ### Well-formed heaps -/

section WellFormed

variable {process : Process} {heap : Heap} {free live : List Block}

theorem WellFormed.placed (wellFormed : WellFormed process heap free live) :
    Placed process heap.brk (free ++ live) :=
  ⟨wellFormed.inside, wellFormed.large, wellFormed.disjoint⟩

theorem WellFormed.brk_lt (wellFormed : WellFormed process heap free live) :
    heap.brk < SIZE_RANGE := by
  have brkFits := wellFormed.brkFits
  have limitFits := process.limitFits
  rw [SIZE_RANGE]
  omega

/-- The head of the list and blocks that start below the break are at addresses. -/
theorem WellFormed.nodes_lt (wellFormed : WellFormed process heap free live)
    {blocks : List Block} (below : ∀ block ∈ blocks, block.addr ≤ heap.brk) :
    ∀ node ∈ nodesOf process blocks, node < SIZE_RANGE := by
  have headBelow := process.headBelow
  have bottomBelow := wellFormed.bottomBelow
  have brkLt := wellFormed.brk_lt
  rintro node (rfl | ⟨block, member, rfl⟩)
  · omega
  · exact (below block member).trans_lt brkLt

theorem WellFormed.start_le (wellFormed : WellFormed process heap free live) :
    ∀ block ∈ free, block.addr ≤ heap.brk := by
  intro block member
  exact (Nat.le_add_right _ _).trans (wellFormed.placed.of_append.start_inside member).2

theorem WellFormed.addr_lt (wellFormed : WellFormed process heap free live) :
    ∀ node ∈ nodesOf process free, node < SIZE_RANGE :=
  wellFormed.nodes_lt wellFormed.start_le

/-- More memory behind the blocks. -/
theorem WellFormed.raise {higher : Nat} (wellFormed : WellFormed process heap free live)
    (grown : heap.brk ≤ higher) (fits : higher ≤ process.limit) :
    WellFormed process { heap with brk := higher } free live :=
  { wellFormed with
    bottomBelow := wellFormed.bottomBelow.trans grown
    brkFits := fits
    inside := (wellFormed.placed.raise grown).inside }

/-- Headers that hold, and blocks that are placed, make a well-formed heap. -/
theorem WellFormed.of_holds {nodes : Set Nat} {headers : Headers}
    (holds : Holds process heap nodes headers)
    (list : headers.IsList process.head (free.map Block.addr))
    (known : ∀ node ∈ process.head :: free.map Block.addr, node ∈ nodes)
    (sizes : ∀ block ∈ free, headers block.addr .block_size = block.size)
    (headSize : headers process.head .block_size = 0)
    (liveSizes : ∀ block ∈ live, headersOf heap.memory block.addr .block_size = block.size)
    (placed : Placed process heap.brk (free ++ live))
    (sorted : free.Pairwise fun left right => left.addr < right.addr) :
    WellFormed process heap free live where
  bottomBelow := holds.bottomBelow
  brkFits := holds.brkFits
  inside := placed.inside
  large := placed.large
  disjoint := placed.disjoint
  sorted := sorted
  freeList := FreeList.of_holds holds list known sizes
  liveSizes := liveSizes
  headSize := (holds.shows _ (known _ List.mem_cons_self) _).trans headSize

/-- The headers at some of the blocks, and at places between them. -/
theorem WellFormed.holds_some (wellFormed : WellFormed process heap free live)
    {blocks : List Block}
    (inside : ∀ block ∈ blocks, process.bottom ≤ block.addr ∧ block.addr + MSG_SIZE ≤ heap.brk)
    (apart : (blocks.map Block.addr).Pairwise Apart) :
    Holds process heap (nodesOf process blocks) (headersOf heap.memory) := by
  have headBelow := process.headBelow
  refine ⟨wellFormed.bottomBelow, wellFormed.brkFits, ?_, ?_, fun _ _ _ => rfl⟩
  · rintro node (isHead | ⟨block, member, rfl⟩)
    · exact Or.inl isHead
    · exact Or.inr (inside block member)
  · rintro left (rfl | ⟨leftBlock, leftIn, rfl⟩) right (rfl | ⟨rightBlock, rightIn, rfl⟩) different
    · exact absurd rfl different
    · exact Or.inl (headBelow.trans (inside rightBlock rightIn).1)
    · exact Or.inr (headBelow.trans (inside leftBlock leftIn).1)
    · have symmetric : Std.Symm Apart := ⟨fun _ _ => Or.symm⟩
      exact apart.forall (List.mem_map_of_mem leftIn) (List.mem_map_of_mem rightIn) different

end WellFormed

section Frame

variable {process : Process} {heap heap' : Heap} {blocks : List Block} {block : Block}

/-- A block apart from the headers that change keeps its bytes. -/
theorem Within.bytes_of_disjoint (within : Within (nodesOf process blocks) heap heap')
    (low : process.bottom ≤ block.addr)
    (apart : ∀ other ∈ blocks, block.stop ≤ other.addr ∨ other.addr + MSG_SIZE ≤ block.addr)
    {place : Nat} (from_ : block.addr ≤ place) (below : place < block.stop) :
    heap'.memory place = heap.memory place := by
  have headBelow := process.headBelow
  apply within.bytes
  rintro node (rfl | ⟨other, member, rfl⟩)
  · right
    omega
  · have := apart other member
    omega

/-- It keeps its size word. -/
theorem Within.size_of_disjoint (within : Within (nodesOf process blocks) heap heap')
    (low : process.bottom ≤ block.addr) (high : block.stop ≤ process.limit)
    (apart : ∀ other ∈ blocks, block.stop ≤ other.addr ∨ other.addr + MSG_SIZE ≤ block.addr) :
    headersOf heap'.memory block.addr .block_size =
      headersOf heap.memory block.addr .block_size := by
  have limitFits := process.limitFits
  have isAddress : block.addr < SIZE_RANGE := by
    rw [Block.stop] at high
    rw [SIZE_RANGE]
    omega
  unfold headersOf
  rw [addrOf_block_size isAddress]
  apply ByteMemory.read_congr
  intro place from_ below
  apply within.bytes_of_disjoint low apart from_
  unfold Block.stop
  omega

end Frame

/-! ### What may change -/

/-- The bytes at all other places stay. -/
def ChangesOnly (places : Set Nat) (before after : Heap) : Prop :=
  ∀ place, place ∉ places → after.memory place = before.memory place

/-- The bytes of a block, the links of the list head and of free blocks, and the size word of
a free block that ends where the block starts. -/
def Writable (process : Process) (free : List Block) (chosen : Block) : Set Nat :=
  {place | (chosen.addr ≤ place ∧ place < chosen.stop) ∨
    (∃ node ∈ process.head :: free.map Block.addr,
      node + WORD_SIZE ≤ place ∧ place < node + MSG_SIZE) ∨
    ∃ front ∈ free, front.Touches chosen ∧ front.addr ≤ place ∧ place < front.addr + WORD_SIZE}

section Changes

variable {process : Process} {first second third heap heap' : Heap} {places others : Set Nat}
  {blocks free : List Block} {chosen : Block}

theorem ChangesOnly.trans (after : ChangesOnly places second third)
    (before : ChangesOnly places first second) : ChangesOnly places first third :=
  fun place outside => (after place outside).trans (before place outside)

theorem ChangesOnly.mono (changes : ChangesOnly places first second) (more : places ⊆ others) :
    ChangesOnly others first second :=
  fun place outside => changes place fun inside => outside (more inside)

theorem Writable.mono {kept : List Block} (fewer : ∀ block ∈ kept, block ∈ free) :
    Writable process kept chosen ⊆ Writable process free chosen := by
  rintro place (inside | ⟨node, member, links⟩ | ⟨front, member, touches, word⟩)
  · exact Or.inl inside
  · refine Or.inr (Or.inl ⟨node, ?_, links⟩)
    rcases List.mem_cons.mp member with rfl | isBlock
    · exact List.mem_cons_self
    · obtain ⟨block, blockIn, rfl⟩ := List.mem_map.mp isBlock
      exact List.mem_cons_of_mem _ (List.mem_map_of_mem (fewer block blockIn))
  · exact Or.inr (Or.inr ⟨front, fewer front member, touches, word⟩)

/-- Where a size word is read as before, its bytes are as before. -/
theorem word_bytes {node place : Nat} (isAddress : node < SIZE_RANGE)
    (same : headersOf heap'.memory node .block_size = headersOf heap.memory node .block_size)
    (from_ : node ≤ place) (below : place < node + WORD_SIZE) :
    heap'.memory place = heap.memory place := by
  unfold headersOf at same
  rw [addrOf_block_size isAddress] at same
  exact ByteMemory.read_inj same place from_ below

/-- Headers change only in these places if each of them lies in the block or belongs to a
free one, and its size word is as before or is that of a block in front. -/
theorem Within.changesOnly (within : Within (nodesOf process blocks) heap heap')
    (addresses : ∀ node ∈ nodesOf process blocks, node < SIZE_RANGE)
    (headSame : headersOf heap'.memory process.head .block_size =
      headersOf heap.memory process.head .block_size)
    (each : ∀ block ∈ blocks,
      (chosen.addr ≤ block.addr ∧ block.addr + MSG_SIZE ≤ chosen.stop) ∨
      ∃ other ∈ free, other.addr = block.addr ∧ (other.Touches chosen ∨
        headersOf heap'.memory block.addr .block_size =
          headersOf heap.memory block.addr .block_size)) :
    ChangesOnly (Writable process free chosen) heap heap' := by
  intro place outside
  by_cases inHeader : ∃ node ∈ nodesOf process blocks, node ≤ place ∧ place < node + MSG_SIZE
  · obtain ⟨node, nodeIn, from_, below⟩ := inHeader
    have isAddress := addresses node nodeIn
    -- no place behind the size word can be outside
    have inWord : node ∈ process.head :: free.map Block.addr → place < node + WORD_SIZE := by
      intro member
      by_contra behind
      exact outside (Or.inr (Or.inl ⟨node, member, Nat.le_of_not_lt behind, below⟩))
    rcases nodeIn with rfl | ⟨block, member, rfl⟩
    · exact word_bytes isAddress headSame from_ (inWord List.mem_cons_self)
    · rcases each block member with inside | ⟨other, otherIn, sameAddr, touches | same⟩
      · exfalso
        apply outside
        left
        omega
      · exfalso
        have word := inWord (List.mem_cons_of_mem _ (sameAddr ▸ List.mem_map_of_mem otherIn))
        rw [← sameAddr] at from_ word
        exact outside (Or.inr (Or.inr ⟨other, otherIn, touches, from_, word⟩))
      · have word := inWord (List.mem_cons_of_mem _ (sameAddr ▸ List.mem_map_of_mem otherIn))
        exact word_bytes isAddress same from_ word
  · apply within.bytes
    intro node nodeIn
    by_contra inside
    apply inHeader
    refine ⟨node, nodeIn, ?_⟩
    omega

end Changes

end LinuxProgramming.Allocator
