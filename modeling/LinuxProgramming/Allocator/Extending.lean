import LinuxProgramming.Allocator.Growth

/-!
Contract: whether the block that `my_malloc` gets by extending the heap is large enough.

Owns:
- the size of the last block after growth, for every request a `size_t` can hold;
- when that block has room for the request and lies below the break.

Does not own: whether the block overlaps a live one.
-/

namespace LinuxProgramming.Allocator

open LinuxProgramming.Library

/-- The block at `ptr` has room for `size` bytes, so that the difference of the two does not
wrap around, and lies below the break with its header. -/
def HasRoom (heap : Heap) (ptr size : Nat) : Prop :=
  size ≤ headersOf heap.memory ptr .block_size ∧
    ptr + WORD_SIZE + headersOf heap.memory ptr .block_size ≤ heap.brk

/-- Growth raises the break and finds a block with room, which `my_malloc` goes on with. A
request that can hold the header of a block is also served, with a block that has room. -/
def ExtendsEnough (process : Process) (heap : Heap) (free : List Block) (fuel size : Nat) : Prop :=
  ∃ ptr heap₁, growHeap process size heap = .ok (ptr, heap₁) ∧
    heap₁.brk = heap.brk + amount size ∧ HasRoom heap₁ ptr size ∧
    myMalloc process fuel size heap = takeBlock process ptr size heap₁ ∧
    (Ordinary process heap free size →
      ∃ heap₂, takeBlock process ptr size heap₁ = .ok (ptr, heap₂) ∧ heap₂.brk = heap₁.brk ∧
        HasRoom heap₂ ptr size)

/-- The new space counts as large enough for the request and its header. -/
structure AmountFits (process : Process) (heap : Heap) (free : List Block) (size : Nat) : Prop where
  noWrap : size + MEM_INC_SIZE < SIZE_RANGE
  room : lastNode process free + MSG_SIZE * WORD_SIZE = heap.brk ∨
    size % MEM_INC_SIZE ≤ MEM_INC_SIZE - WORD_SIZE

section Extending

variable {process : Process} {heap : Heap} {free live : List Block} {size fuel : Nat}

/-- For the largest requests the amount wraps around to nothing. -/
theorem amount_eq_zero (isSize : size < SIZE_RANGE) (wraps : SIZE_RANGE ≤ size + MEM_INC_SIZE) :
    amount size = 0 := by
  unfold amount
  rw [SIZE_RANGE, MEM_INC_SIZE] at *
  omega

variable (wellFormed : WellFormed process heap free live)
  (noneFits : ∀ block ∈ free, block.size < size)
  (raised : heap.brk + amount size ≤ process.limit)

include wellFormed in
/-- The last node of the list, be it a block or the head, lies below the break. -/
theorem lastNode_below : lastNode process free + WORD_SIZE +
    headersOf heap.memory (lastNode process free) .block_size ≤ heap.brk := by
  rcases List.eq_nil_or_concat' free with rfl | ⟨before, last, rfl⟩
  · have headBelow := process.headBelow
    have bottomBelow := wellFormed.bottomBelow
    have headSize := wellFormed.headSize
    show process.head + WORD_SIZE + headersOf heap.memory process.head .block_size ≤ heap.brk
    rw [MSG_SIZE] at headBelow
    rw [headSize, WORD_SIZE]
    omega
  · rw [lastNode_concat, wellFormed.freeList.sizes last (by simp)]
    exact (wellFormed.placed.of_append.inside last (by simp)).2

include wellFormed noneFits in
/-- Before growth it has no room for the request, unless nothing is requested. -/
theorem lastNode_small (some_ : 0 < size) :
    headersOf heap.memory (lastNode process free) .block_size < size := by
  rcases List.eq_nil_or_concat' free with rfl | ⟨before, last, rfl⟩
  · show headersOf heap.memory process.head .block_size < size
    rw [wellFormed.headSize]
    exact some_
  · rw [lastNode_concat, wellFormed.freeList.sizes last (by simp)]
    exact noneFits last (by simp)

include wellFormed raised in
/-- The block that gains the new space. -/
theorem growHeap_gains (test : lastNode process free + MSG_SIZE * WORD_SIZE = heap.brk) :
    ∃ heap₁, growHeap process size heap = .ok (lastNode process free, heap₁) ∧
      heap₁.brk = heap.brk + amount size ∧
      headersOf heap₁.memory (lastNode process free) .block_size =
        headersOf heap.memory (lastNode process free) .block_size + amount size := by
  have higher := wellFormed.raise (Nat.le_add_right heap.brk (amount size)) raised
  have holds := higher.holds_some (fun _ => higher.placed.of_append.start_inside)
    higher.placed.of_append.apart
  have known := mem_nodesOf process free
  obtain ⟨heap₁, headers₁, ran, within, holds₁, -, newSize, -⟩ :=
    growHeap_join (sbrk_raises wellFormed.bottomBelow raised) holds wellFormed.freeList.list known
      wellFormed.headSize test
  have below := lastNode_below wellFormed
  have limitFits := process.limitFits
  refine ⟨heap₁, ran, within.brk, ?_⟩
  have lastIn : lastNode process free ∈ nodesOf process free := known _ List.getLastD_mem_cons
  rw [← Nat.mod_eq_of_lt (a := headersOf heap.memory (lastNode process free) .block_size +
    amount size) (b := SIZE_RANGE)]
  · exact (holds₁.shows _ lastIn .block_size).trans newSize
  · rw [SIZE_RANGE]
    omega

include wellFormed in
/-- Without new space there is no place for a block of its own. -/
theorem growHeap_faults (nothing : amount size = 0)
    (test : lastNode process free + MSG_SIZE * WORD_SIZE ≠ heap.brk) :
    growHeap process size heap = .error .fault := by
  have limitFits := process.limitFits
  have brkFits := wellFormed.brkFits
  have headBelow := process.headBelow
  have bottomBelow := wellFormed.bottomBelow
  have placed := wellFormed.placed.of_append
  have holds := wellFormed.holds_some (fun _ => placed.start_inside) placed.apart
  have known := mem_nodesOf process free
  have raises : sbrk process ((amount size : Int).bmod SIZE_RANGE) heap =
      .ok (some heap.brk, heap) := by
    rw [nothing]
    exact sbrk_zero bottomBelow brkFits
  have same : ({ heap with brk := heap.brk + amount size } : Heap) = heap := by
    rw [nothing, Nat.add_zero]
  have unchanged : Holds process { heap with brk := heap.brk + amount size }
      (nodesOf process free) (headersOf heap.memory) := by
    rw [same]
    exact holds
  have notTaken :=
    (test_eq unchanged wellFormed.freeList.list known wellFormed.headSize).not.mpr test
  have outside : ¬ Accessible process heap (addrOf heap.brk .block_size) := by
    rw [addrOf_block_size wellFormed.brk_lt]
    simp only [Accessible, WORD_SIZE, MSG_SIZE] at headBelow ⊢
    omega
  obtain ⟨-, lastIn⟩ := last_known wellFormed.freeList.list known
  unfold growHeap
  rw [bind_ok raises]
  dsimp only
  rw [bind_ok (holds.load (known _ List.mem_cons_self) .prev),
    bind_ok (holds.load (known _ List.mem_cons_self) .block_size), if_neg notTaken]
  apply bind_stop
  apply bind_stop
  unfold store
  rw [if_neg outside]

include wellFormed noneFits raised in
/-- Growth finds a block with room only if the amount fits. -/
theorem fits_of_hasRoom (isSize : size < SIZE_RANGE) {ptr : Nat} {heap₁ : Heap}
    (ran : growHeap process size heap = .ok (ptr, heap₁)) (room : HasRoom heap₁ ptr size) :
    AmountFits process heap free size := by
  by_cases noWrap : size + MEM_INC_SIZE < SIZE_RANGE
  · refine ⟨noWrap, ?_⟩
    by_cases test : lastNode process free + MSG_SIZE * WORD_SIZE = heap.brk
    · exact Or.inl test
    · right
      have added := amount_eq noWrap
      have some_ : MSG_SIZE ≤ amount size := by
        rw [added, MEM_INC_SIZE, MSG_SIZE]
        omega
      obtain ⟨heap', ran', -, wellFormed'⟩ := growHeap_appends wellFormed raised some_ test
      obtain ⟨rfl, rfl⟩ := Prod.mk.inj (Except.ok.inj (ran'.symm.trans ran))
      have newSize : headersOf heap'.memory heap.brk .block_size = amount size - WORD_SIZE :=
        wellFormed'.freeList.sizes ⟨heap.brk, amount size - WORD_SIZE⟩ (by simp)
      have enough := room.1
      rw [newSize, added, MEM_INC_SIZE, WORD_SIZE] at enough
      rw [MEM_INC_SIZE, WORD_SIZE]
      omega
  · exfalso
    have nothing := amount_eq_zero isSize (Nat.le_of_not_lt noWrap)
    by_cases test : lastNode process free + MSG_SIZE * WORD_SIZE = heap.brk
    · obtain ⟨heap', ran', -, newSize⟩ := growHeap_gains wellFormed raised test
      rw [ran'] at ran
      cases ran
      have some_ : 0 < size := by
        rw [SIZE_RANGE, MEM_INC_SIZE] at noWrap
        omega
      have small := lastNode_small wellFormed noneFits some_
      have enough := room.1
      rw [newSize, nothing] at enough
      omega
    · rw [growHeap_faults wellFormed nothing test] at ran
      cases ran

omit wellFormed noneFits raised in
/-- The first of the live blocks has room if it is large enough. -/
theorem hasRoom_of_live {ptr taken : Nat}
    (wellFormed : WellFormed process heap free (⟨ptr, taken⟩ :: live)) (enough : size ≤ taken) :
    HasRoom heap ptr size := by
  have isTaken : headersOf heap.memory ptr .block_size = taken :=
    wellFormed.liveSizes ⟨ptr, taken⟩ List.mem_cons_self
  refine ⟨isTaken.symm ▸ enough, ?_⟩
  rw [isTaken]
  exact (wellFormed.inside ⟨ptr, taken⟩ (by simp)).2

omit wellFormed noneFits raised in
/-- Where the live blocks lie does not matter for the list. -/
theorem WellFormed.forget (wellFormed : WellFormed process heap free live) :
    WellFormed process heap free [] :=
  { wellFormed with
    inside := fun block member => wellFormed.inside block
      (List.mem_append_left live (List.append_nil free ▸ member))
    large := fun block member => wellFormed.large block
      (List.mem_append_left live (List.append_nil free ▸ member))
    disjoint := by
      rw [List.append_nil]
      exact wellFormed.placed.of_append.disjoint
    liveSizes := by simp }

omit wellFormed noneFits raised in
/-- A last block can gain the new space even if it does not end at the break, as far as the
other free blocks are concerned. -/
theorem placed_alone {before : List Block} {last : Block}
    (wellFormed : WellFormed process heap (before ++ [last]) []) :
    Placed process (heap.brk + amount size)
      ((before ++ [⟨last.addr, last.size + amount size⟩]) ++ []) := by
  have placed := wellFormed.placed.of_append
  obtain ⟨low, high⟩ := placed.inside last (by simp)
  have large := placed.large last (by simp)
  have moved := placed.perm (List.perm_append_singleton last before)
  rw [List.append_nil]
  apply Placed.perm _ (List.perm_append_singleton _ before).symm
  apply (moved.tail.raise (Nat.le_add_right heap.brk (amount size))).cons
  · rw [Block.stop] at high ⊢
    exact ⟨low, by dsimp only; omega⟩
  · exact large.trans (Nat.le_add_right _ _)
  · intro other member
    have disjoint := (List.pairwise_cons.mp moved.disjoint).1 other member
    have order := (List.pairwise_append.mp wellFormed.sorted).2.2 other member last
      (List.mem_singleton_self last)
    simp only [Block.Disjoint, Block.stop] at disjoint ⊢
    omega

include wellFormed noneFits raised in
/-- If the amount fits, growth finds a block with room, and a request of ordinary size is
served from it. -/
theorem hasRoom_of_fits (enough : free.length < fuel) (fits : AmountFits process heap free size) :
    ExtendsEnough process heap free fuel size := by
  have added := amount_eq fits.noWrap
  have grows := myMalloc_grows wellFormed noneFits enough
  have more : size ≤ amount size := by
    rw [added, MEM_INC_SIZE]
    omega
  have some_ : MSG_SIZE ≤ amount size := by
    rw [added, MEM_INC_SIZE, MSG_SIZE]
    omega
  by_cases test : lastNode process free + MSG_SIZE * WORD_SIZE = heap.brk
  · obtain ⟨heap₁, ran₁, brk₁, newSize⟩ := growHeap_gains wellFormed raised test
    have below := lastNode_below wellFormed
    refine ⟨lastNode process free, heap₁, ran₁, brk₁, ⟨?_, ?_⟩, ?_, ?_⟩
    · rw [newSize]
      omega
    · rw [newSize, brk₁]
      omega
    · rw [grows, bind_ok ran₁]
    · intro ordinary
      rcases List.eq_nil_or_concat' free with rfl | ⟨before, last, rfl⟩
      · exact absurd test (ordinary.noHead rfl)
      · rw [lastNode_concat] at test ran₁ ⊢
        obtain ⟨heap₁', ran₁', -, wellFormed₁⟩ :=
          growHeap_joins raised wellFormed.forget (placed_alone wellFormed.forget) test
        obtain ⟨-, rfl⟩ := Prod.mk.inj (Except.ok.inj (ran₁'.symm.trans ran₁))
        obtain ⟨heap₂, free₂, taken, ran₂, brk₂, enough_, wellFormed₂, -⟩ :=
          takeBlock_live wellFormed₁ (by dsimp only; omega) (Or.inl ordinary.large)
        exact ⟨heap₂, ran₂, brk₂, hasRoom_of_live wellFormed₂ enough_⟩
  · have room := fits.room.resolve_left test
    rw [MEM_INC_SIZE, WORD_SIZE] at room
    have fitsBlock : size ≤ amount size - WORD_SIZE := by
      rw [added, MEM_INC_SIZE, WORD_SIZE]
      omega
    obtain ⟨heap₁, ran₁, within₁, wellFormed₁⟩ := growHeap_appends wellFormed raised some_ test
    have newSize : headersOf heap₁.memory heap.brk .block_size = amount size - WORD_SIZE :=
      wellFormed₁.freeList.sizes ⟨heap.brk, amount size - WORD_SIZE⟩ (by simp)
    refine ⟨heap.brk, heap₁, ran₁, within₁.brk, ⟨newSize.symm ▸ fitsBlock, ?_⟩, ?_, ?_⟩
    · rw [newSize]
      exact (wellFormed₁.inside ⟨heap.brk, amount size - WORD_SIZE⟩ (by simp)).2
    · rw [grows, bind_ok ran₁]
    · intro ordinary
      obtain ⟨heap₂, free₂, taken, ran₂, brk₂, enough_, wellFormed₂, -⟩ :=
        takeBlock_live wellFormed₁ fitsBlock (Or.inl ordinary.large)
      exact ⟨heap₂, ran₂, brk₂, hasRoom_of_live wellFormed₂ enough_⟩

end Extending

/-- A process that has not asked for memory yet. -/
def freshHeap : Heap where
  memory := writeHeader 0 0 0 0 fun _ => 0
  brk := 4096

theorem freshHeap_wellFormed : WellFormed smallProcess freshHeap [] [] where
  bottomBelow := by decide
  brkFits := by decide
  inside := by decide
  large := by decide
  disjoint := by decide
  sorted := by decide
  freeList := by
    constructor
    · exact .cons_cons ⟨by decide +kernel, by decide +kernel⟩ (.singleton _)
    · decide
  liveSizes := by decide
  headSize := by decide +kernel

end LinuxProgramming.Allocator
