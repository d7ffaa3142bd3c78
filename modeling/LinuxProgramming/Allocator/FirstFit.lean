import LinuxProgramming.Allocator.Growth

/-!
Contract: `my_malloc` when a free block is large enough.

Owns:
- that the search finds the lowest such block;
- that nothing is lost: the block and the new list cover what the old list covered.

Does not own: heap growth, or requests too small for the header of a block.
-/

namespace LinuxProgramming.Allocator

open LinuxProgramming.Library

/-! ### The call -/

section Call

variable {process : Process} {heap : Heap} {free before after live : List Block} {block : Block}
  {size fuel : Nat}

/-- The first block that is large enough, with what stands before and behind it. -/
theorem exists_first (some_ : ∃ block ∈ free, size ≤ block.size) :
    ∃ before block after, free = before ++ block :: after ∧ size ≤ block.size ∧
      ∀ other ∈ before, other.size < size := by
  obtain ⟨block, member, large⟩ := some_
  have found : (free.find? fun other => decide (size ≤ other.size)).isSome :=
    List.find?_isSome.mpr ⟨block, member, decide_eq_true large⟩
  obtain ⟨first, isFirst⟩ := Option.isSome_iff_exists.mp found
  obtain ⟨fits, before, after, whole, small⟩ := List.find?_eq_some_iff_append.mp isFirst
  refine ⟨before, first, after, whole, of_decide_eq_true fits, ?_⟩
  intro other inBefore
  simpa using small other inBefore

/-- In a sorted list the first block that fits is the lowest. -/
theorem first_lowest (wellFormed : WellFormed process heap (before ++ block :: after) live)
    (small : ∀ other ∈ before, other.size < size) :
    ∀ other ∈ before ++ block :: after, size ≤ other.size → block.addr ≤ other.addr := by
  intro other member large
  have sorted := wellFormed.sorted
  rw [List.pairwise_append, List.pairwise_cons] at sorted
  rcases List.mem_append.mp member with earlier | later
  · exact absurd large (Nat.not_le.mpr (small other earlier))
  · rcases List.mem_cons.mp later with rfl | later
    · exact Nat.le_refl _
    · exact Nat.le_of_lt (sorted.2.1.1 other later)

/-- The call takes the block its search finds. -/
theorem myMalloc_finds (wellFormed : WellFormed process heap (before ++ block :: after) live)
    (fits : size ≤ block.size) (small : ∀ other ∈ before, other.size < size)
    (enough : before.length < fuel) :
    myMalloc process fuel size heap = takeBlock process block.addr size heap := by
  have placed := wellFormed.placed.of_append
  have holds := wellFormed.holds_some (fun _ => placed.start_inside) placed.apart
  have sizes := wellFormed.freeList.sizes
  have known := mem_nodesOf process (before ++ block :: after)
  have distinct := wellFormed.nodup
  have list : (headersOf heap.memory).IsList process.head
      ([] ++ (before ++ block :: after).map Block.addr) := wellFormed.freeList.list
  have first : headersOf heap.memory process.head .next =
      ((before ++ block :: after).map Block.addr).headD process.head := list.next_left
  have inBefore : ∀ node ∈ before.map Block.addr ++ [block.addr],
      node ∈ (before ++ block :: after).map Block.addr := by
    intro node member
    rw [List.map_append, List.map_cons]
    rcases List.mem_append.mp member with earlier | isBlock
    · exact List.mem_append_left _ earlier
    · rw [List.mem_singleton.mp isBlock]
      exact List.mem_append_right _ List.mem_cons_self
  have found : findBlock process size fuel
      (((before ++ block :: after).map Block.addr).headD process.head) heap =
        .ok (block.addr, heap) := by
    rw [List.map_append, List.map_cons] at list ⊢
    apply findBlock_some holds list
    · intro node member
      exact known node (List.mem_cons_of_mem _ (inBefore node member))
    · intro isHead
      exact (List.nodup_cons.mp distinct).1 (inBefore _ isHead)
    · intro node member
      obtain ⟨other, otherIn, rfl⟩ := List.mem_map.mp member
      rw [sizes other (List.mem_append_left _ otherIn)]
      exact small other otherIn
    · rw [sizes block (by simp)]
      exact fits
    · rwa [List.length_map]
  have notHead : block.addr ≠ process.head := by
    intro isHead
    apply (List.nodup_cons.mp distinct).1
    rw [← isHead]
    exact List.mem_map_of_mem (by simp)
  rw [myMalloc_eq, bind_ok (holds.load (known _ List.mem_cons_self) .next), first, bind_ok found,
    if_neg notHead]
  rfl

theorem covered_front (before after : List Block) (block : Block) :
    covered (block :: (before ++ after)) = covered (before ++ block :: after) := by
  simp only [covered_cons, covered_append]
  exact Set.union_left_comm _ _ _

theorem covered_rest (before after : List Block) (room : size + MSG_SIZE ≤ block.size) :
    covered (block.front size :: (before ++ block.rest size :: after)) =
      covered (before ++ block :: after) := by
  simp only [covered_cons, covered_append, ← covered_cut room]
  rw [Set.union_left_comm, Set.union_assoc]

end Call

/-- A request that some free block can serve gets the lowest such block: its first `size`
bytes if a header fits behind them, and else all of it. Nothing else changes, and the block
and the new list cover what the old list covered. -/
theorem myMalloc_firstFit (process : Process) (heap : Heap) (free live : List Block)
    (size fuel : Nat) (wellFormed : WellFormed process heap free live) (large : MIN_SIZE ≤ size)
    (some_ : ∃ block ∈ free, size ≤ block.size) (enough : free.length < fuel) :
    ∃ before block after heap', free = before ++ block :: after ∧
      size ≤ block.size ∧ (∀ other ∈ free, size ≤ other.size → block.addr ≤ other.addr) ∧
      myMalloc process fuel size heap = .ok (block.addr, heap') ∧ heap'.brk = heap.brk ∧
      (size + MSG_SIZE ≤ block.size →
        MIN_SIZE ≤ (block.rest size).size ∧
        WellFormed process heap' (before ++ block.rest size :: after) (block.front size :: live) ∧
        covered (block.front size :: (before ++ block.rest size :: after)) = covered free) ∧
      (block.size < size + MSG_SIZE →
        WellFormed process heap' (before ++ after) (block :: live) ∧
        covered (block :: (before ++ after)) = covered free) := by
  obtain ⟨before, block, after, rfl, fits, small⟩ := exists_first some_
  have shorter : before.length < fuel := by
    rw [List.length_append] at enough
    omega
  have finds := myMalloc_finds wellFormed fits small shorter
  have lowest := first_lowest wellFormed small
  by_cases room : size + MSG_SIZE ≤ block.size
  · obtain ⟨heap', ran, within, after_⟩ := takeBlock_cut wellFormed large room
    refine ⟨before, block, after, heap', rfl, fits, lowest, finds.trans ran, within.brk, ?_,
      fun little => absurd room (Nat.not_le.mpr little)⟩
    intro _
    exact ⟨after_.large (block.rest size) (by simp), after_, covered_rest before after room⟩
  · obtain ⟨heap', ran, within, after_⟩ :=
      takeBlock_all wellFormed fits (Nat.not_le.mp room)
    refine ⟨before, block, after, heap', rfl, fits, lowest, finds.trans ran, within.brk,
      fun large => absurd large room, ?_⟩
    intro _
    exact ⟨after_, covered_front before after block⟩

/-- Of a free block of 184 bytes a request of 100 leaves 76. -/
theorem myMalloc_firstFit_hundred :
    ∃ before block after heap', [⟨4120, 184⟩] = before ++ block :: after ∧
      100 ≤ block.size ∧
      (∀ other ∈ [(⟨4120, 184⟩ : Block)], 100 ≤ other.size → block.addr ≤ other.addr) ∧
      myMalloc smallProcess 2 100 (smallHeap 184) = .ok (block.addr, heap') ∧
      heap'.brk = (smallHeap 184).brk ∧
      (100 + MSG_SIZE ≤ block.size →
        MIN_SIZE ≤ (block.rest 100).size ∧
        WellFormed smallProcess heap' (before ++ block.rest 100 :: after)
          [block.front 100, ⟨4096, 16⟩] ∧
        covered (block.front 100 :: (before ++ block.rest 100 :: after)) =
          covered [⟨4120, 184⟩]) ∧
      (block.size < 100 + MSG_SIZE →
        WellFormed smallProcess heap' (before ++ after) [block, ⟨4096, 16⟩] ∧
        covered (block :: (before ++ after)) = covered [⟨4120, 184⟩]) :=
  myMalloc_firstFit smallProcess (smallHeap 184) [⟨4120, 184⟩] [⟨4096, 16⟩] 100 2
    smallHeap_reaching (by decide) (by decide) (by decide)

end LinuxProgramming.Allocator
