import LinuxProgramming.Allocator.Placement

/-!
Contract: a block of a well-formed heap taken off the list, in whole or in part.

Owns:
- the heap afterwards, in which the block is live;
- the order of the list, and the size words of the live blocks.

Does not own: how the block was found, or requests too small for the header of a block.
-/

namespace LinuxProgramming.Allocator

open LinuxProgramming.Library

section Taking

variable {process : Process} {heap : Heap} {before after live : List Block} {block : Block}
  {size : Nat}

/-- The rest of a block takes its place in the order. -/
theorem sorted_rest (wellFormed : WellFormed process heap (before ++ block :: after) live)
    (room : size + MSG_SIZE ≤ block.size) :
    (before ++ block.rest size :: after).Pairwise fun left right => left.addr < right.addr := by
  have sorted := wellFormed.sorted
  rw [List.pairwise_append, List.pairwise_cons] at sorted ⊢
  obtain ⟨sortedBefore, ⟨behind, sortedAfter⟩, across⟩ := sorted
  refine ⟨sortedBefore, ⟨?_, sortedAfter⟩, ?_⟩
  · intro other member
    have later := behind other member
    have disjoint : block.Disjoint other := by
      have placed := wellFormed.placed.of_append.disjoint
      rw [List.pairwise_append, List.pairwise_cons] at placed
      exact placed.2.1.1 other member
    simp only [Block.Disjoint, Block.stop, Block.rest, MSG_SIZE, WORD_SIZE] at disjoint room ⊢
    omega
  · intro earlier earlierIn other member
    have first := across earlier earlierIn block List.mem_cons_self
    rcases List.mem_cons.mp member with rfl | member
    · simp only [Block.rest]
      omega
    · exact across earlier earlierIn other (List.mem_cons_of_mem _ member)

/-- Live blocks keep their size words where only headers apart from them change. -/
theorem liveSizes_of_within {free blocks : List Block} {heap' : Heap}
    (wellFormed : WellFormed process heap free live)
    (within : Within (nodesOf process blocks) heap heap')
    (apart : ∀ other ∈ blocks, ∀ used ∈ live,
      used.stop ≤ other.addr ∨ other.addr + MSG_SIZE ≤ used.addr) :
    ∀ used ∈ live, headersOf heap'.memory used.addr .block_size = used.size := by
  intro used member
  obtain ⟨low, high⟩ := wellFormed.inside used (List.mem_append_right _ member)
  rw [within.size_of_disjoint low (high.trans wellFormed.brkFits) fun other otherIn =>
    apart other otherIn used member]
  exact wellFormed.liveSizes used member

/-- A block with too little left over is taken whole. -/
theorem takeBlock_all (wellFormed : WellFormed process heap (before ++ block :: after) live)
    (fits : size ≤ block.size) (little : block.size < size + MSG_SIZE) :
    ∃ heap', takeBlock process block.addr size heap = .ok (block.addr, heap') ∧
      Within (nodesOf process (before ++ block :: after)) heap heap' ∧
      WellFormed process heap' (before ++ after) (block :: live) := by
  have placed := wellFormed.placed
  have holds := wellFormed.holds_some (fun _ => placed.of_append.start_inside)
    placed.of_append.apart
  have sizes := wellFormed.freeList.sizes
  have blockSize : headersOf heap.memory block.addr .block_size = block.size :=
    sizes block (by simp)
  have kept : (before ++ after).Sublist (before ++ block :: after) :=
    (List.sublist_cons_self block after).append_left before
  have list := wellFormed.freeList.list
  have distinct := wellFormed.nodup
  have known := mem_nodesOf process (before ++ block :: after)
  have knownKept : ∀ node ∈ process.head :: (before ++ after).map Block.addr,
      node ∈ nodesOf process (before ++ block :: after) := by
    intro node member
    exact known node (((kept.map Block.addr).cons_cons process.head).subset member)
  rw [List.map_append, List.map_cons] at list distinct known
  obtain ⟨heap', headers', ran, within, holds', list', same⟩ :=
    takeBlock_whole holds list distinct known (fits.trans (Nat.le_of_eq blockSize.symm))
      (blockSize ▸ little)
  rw [← List.map_append] at list'
  refine ⟨heap', ran, within, WellFormed.of_holds holds' list' knownKept ?_ ?_ ?_ ?_ ?_⟩
  · intro other member
    rw [same]
    exact sizes other (kept.subset member)
  · exact (same _).trans wellFormed.headSize
  · rw [List.forall_mem_cons]
    constructor
    · exact (holds'.shows _ (known _ (by simp)) _).trans ((same _).trans blockSize)
    · exact liveSizes_of_within wellFormed within placed.header_apart
  · rw [within.brk]
    exact placed.perm ((perm_front before after live block).trans List.perm_middle.symm)
  · exact wellFormed.sorted.sublist kept

/-- Of a larger block the front is taken, and the rest is a block of the list. -/
theorem takeBlock_cut (wellFormed : WellFormed process heap (before ++ block :: after) live)
    (large : MIN_SIZE ≤ size) (room : size + MSG_SIZE ≤ block.size) :
    ∃ heap', takeBlock process block.addr size heap = .ok (block.addr, heap') ∧
      Within (nodesOf process (before ++ block.front size :: block.rest size :: after)) heap heap' ∧
      WellFormed process heap' (before ++ block.rest size :: after) (block.front size :: live) := by
  have cut := (wellFormed.placed.perm (perm_front before after live block)).cut large room
  have placed : Placed process heap.brk
      ((before ++ block.front size :: block.rest size :: after) ++ live) := by
    apply cut.perm
    have second := (perm_front before after live (block.rest size)).symm.cons (block.front size)
    exact second.trans (perm_front before (block.rest size :: after) live (block.front size)).symm
  have holds := wellFormed.holds_some (fun _ => placed.of_append.start_inside)
    placed.of_append.apart
  have sizes := wellFormed.freeList.sizes
  have blockSize : headersOf heap.memory block.addr .block_size = block.size :=
    sizes block (by simp)
  have known := mem_nodesOf process (before ++ block.front size :: block.rest size :: after)
  have list := wellFormed.freeList.list
  have oldDistinct := wellFormed.nodup
  have distinct := placed.of_append.nodup
  rw [List.map_append, List.map_cons] at list oldDistinct
  rw [List.map_append, List.map_cons, List.map_cons] at known distinct
  have frontAddr : (block.front size).addr = block.addr := rfl
  rw [frontAddr] at known distinct
  have moved := perm_inserted process.head block.addr (block.rest size).addr
    (before.map Block.addr) (after.map Block.addr)
  have fresh := (List.nodup_cons.mp (moved.nodup_iff.mp distinct)).1
  have knownOld : ∀ node ∈ process.head :: (before.map Block.addr ++ block.addr ::
      after.map Block.addr), node ∈ nodesOf process
        (before ++ block.front size :: block.rest size :: after) :=
    fun node member => known node (moved.mem_iff.mpr (List.mem_cons_of_mem _ member))
  have kept : (before.map Block.addr ++ (block.rest size).addr :: after.map Block.addr).Sublist
      (before.map Block.addr ++ block.addr :: (block.rest size).addr :: after.map Block.addr) :=
    (List.sublist_cons_self _ _).append_left _
  obtain ⟨heap', headers', ran, within, holds', list', frontSize, restSize, others⟩ :=
    takeBlock_split holds list oldDistinct knownOld (known (block.rest size).addr (by simp)) fresh
      rfl (blockSize ▸ room)
  rw [blockSize] at restSize
  have absent : block.addr ∉ process.head ::
      (before.map Block.addr ++ after.map Block.addr) := by
    have around : ((process.head :: before.map Block.addr) ++ block.addr ::
      after.map Block.addr).Nodup := oldDistinct
    exact (List.nodup_cons.mp (List.nodup_middle.mp around)).1
  have unchanged : ∀ node ∈ process.head :: (before.map Block.addr ++ after.map Block.addr),
      headers' node .block_size = headersOf heap.memory node .block_size := by
    intro node member
    apply others
    · rintro rfl
      exact absent member
    · rintro rfl
      have old : (before.map Block.addr ++ after.map Block.addr).Sublist
          (before.map Block.addr ++ block.addr :: after.map Block.addr) :=
        (List.sublist_cons_self _ _).append_left _
      exact fresh ((old.cons_cons process.head).subset member)
  have oldSizes : ∀ other ∈ before ++ after, headers' other.addr .block_size = other.size := by
    intro other member
    have inMap : other.addr ∈ before.map Block.addr ++ after.map Block.addr := by
      rw [← List.map_append]
      exact List.mem_map_of_mem member
    rw [unchanged _ (List.mem_cons_of_mem _ inMap)]
    exact sizes other (mem_middle.mpr (Or.inr member))
  refine ⟨heap', ran, within, WellFormed.of_holds holds' ?_ ?_ ?_ ?_ ?_ ?_ ?_⟩
  · rw [List.map_append, List.map_cons]
    exact list'
  · intro node member
    rw [List.map_append, List.map_cons] at member
    exact known node ((kept.cons_cons process.head).subset member)
  · intro other member
    rcases mem_middle.mp member with rfl | old
    · exact restSize
    · exact oldSizes other old
  · exact (unchanged _ List.mem_cons_self).trans wellFormed.headSize
  · rw [List.forall_mem_cons]
    constructor
    · exact (holds'.shows block.addr (knownOld block.addr (by simp)) .block_size).trans frontSize
    · exact liveSizes_of_within wellFormed within placed.header_apart
  · rw [within.brk]
    apply cut.perm
    exact ((perm_front before after live (block.rest size)).symm.cons (block.front size)).trans
      List.perm_middle.symm
  · exact sorted_rest wellFormed room

/-- Headers on the list change only their links, as far as they are not in the block. -/
theorem changesOnly_taken {free free' blocks kept live' : List Block} {chosen : Block}
    {heap' : Heap} (before_ : WellFormed process heap free live)
    (after_ : WellFormed process heap' free' live')
    (within : Within (nodesOf process blocks) heap heap')
    (each : ∀ other ∈ blocks, (chosen.addr ≤ other.addr ∧ other.addr + MSG_SIZE ≤ chosen.stop) ∨
      (other ∈ kept ∧ other ∈ free ∧ other ∈ free'))
    (addresses : ∀ node ∈ nodesOf process blocks, node < SIZE_RANGE) :
    ChangesOnly (Writable process kept chosen) heap heap' := by
  apply within.changesOnly addresses (after_.headSize.trans before_.headSize.symm)
  intro other member
  rcases each other member with inside | ⟨isKept, wasFree, isFree⟩
  · exact Or.inl inside
  · refine Or.inr ⟨other, isKept, rfl, Or.inr ?_⟩
    rw [after_.freeList.sizes other isFree, before_.freeList.sizes other wasFree]

/-- What else holds once the block at the start of `chosen` is handed out: the list is what
was kept of it, and perhaps a block in the rest of `chosen`. -/
structure Handed (process : Process) (heap heap' : Heap) (kept free' : List Block) (chosen : Block)
    (taken : Nat) : Prop where
  inside : taken ≤ chosen.size
  members : ∀ other ∈ free',
    other ∈ kept ∨ (chosen.addr ≤ other.addr ∧ other.stop ≤ chosen.stop)
  length : free'.length ≤ kept.length + 1
  changes : ChangesOnly (Writable process kept chosen) heap heap'

/-- A block that is large enough becomes a live one, if the request can hold the header of a
block or leaves no room for another one. -/
theorem takeBlock_live (wellFormed : WellFormed process heap (before ++ block :: after) live)
    (fits : size ≤ block.size) (safe : MIN_SIZE ≤ size ∨ block.size < size + MSG_SIZE) :
    ∃ heap' free' taken, takeBlock process block.addr size heap = .ok (block.addr, heap') ∧
      heap'.brk = heap.brk ∧ size ≤ taken ∧
      WellFormed process heap' free' (⟨block.addr, taken⟩ :: live) ∧
      Handed process heap heap' (before ++ after) free' block taken := by
  have kept : ∀ other ∈ before ++ after, other ∈ before ++ block :: after :=
    fun other member => mem_middle.mpr (Or.inr member)
  have large := wellFormed.placed.large block (by simp)
  have header : block.addr + MSG_SIZE ≤ block.stop := by
    simp only [MIN_SIZE, MSG_SIZE, WORD_SIZE, Block.stop] at large ⊢
    omega
  by_cases room : size + MSG_SIZE ≤ block.size
  · have largeRequest := safe.resolve_right (Nat.not_lt.mpr room)
    obtain ⟨heap', ran, within, after_⟩ := takeBlock_cut wellFormed largeRequest room
    have restInside : block.addr ≤ (block.rest size).addr ∧
        (block.rest size).addr + MSG_SIZE ≤ block.stop ∧ (block.rest size).stop = block.stop := by
      simp only [Block.rest, Block.stop, MSG_SIZE, WORD_SIZE] at room ⊢
      omega
    have inCut : ∀ other ∈ before ++ block.front size :: block.rest size :: after,
        other = block.front size ∨ other = block.rest size ∨ other ∈ before ++ after := by
      intro other member
      rcases mem_middle.mp member with isFront | later
      · exact Or.inl isFront
      · exact Or.inr (mem_middle.mp later)
    refine ⟨heap', _, size, ran, within.brk, Nat.le_refl size, after_, fits, ?_, ?_, ?_⟩
    · intro other member
      rcases mem_middle.mp member with rfl | old
      · exact Or.inr ⟨restInside.1, Nat.le_of_eq restInside.2.2⟩
      · exact Or.inl old
    · simp only [List.length_append, List.length_cons]
      omega
    · apply changesOnly_taken wellFormed after_ within
      · intro other member
        rcases inCut other member with rfl | rfl | old
        · exact Or.inl ⟨Nat.le_refl block.addr, header⟩
        · exact Or.inl ⟨restInside.1, restInside.2.1⟩
        · refine Or.inr ⟨old, kept other old, ?_⟩
          exact mem_middle.mpr (Or.inr old)
      · apply wellFormed.nodes_lt
        intro other member
        have high := (wellFormed.placed.of_append.inside block (by simp)).2
        rcases inCut other member with rfl | rfl | old
        · exact wellFormed.start_le block (by simp)
        · rw [MSG_SIZE] at restInside
          omega
        · exact wellFormed.start_le other (kept other old)
  · obtain ⟨heap', ran, within, after_⟩ := takeBlock_all wellFormed fits (Nat.not_le.mp room)
    refine ⟨heap', _, block.size, ran, within.brk, fits, after_, Nat.le_refl _, ?_, ?_, ?_⟩
    · exact fun other member => Or.inl member
    · exact Nat.le_succ _
    · apply changesOnly_taken wellFormed after_ within
      · intro other member
        rcases mem_middle.mp member with rfl | old
        · exact Or.inl ⟨Nat.le_refl _, header⟩
        · exact Or.inr ⟨old, kept other old, old⟩
      · exact wellFormed.addr_lt

end Taking

end LinuxProgramming.Allocator
