import LinuxProgramming.Allocator.Serving

/-!
Contract: what `my_free` makes of the bytes that the user has stored at the pointer returned
by `my_malloc`.

Owns:
- `my_free` on a block with any size word;
- that the list afterwards tells the size words apart;
- which contents give the same allocator state.

Does not own: stores outside the bytes that were asked for.
-/

namespace LinuxProgramming.Allocator

open LinuxProgramming.Library

/-- The user stores `count` bytes at `ptr`. -/
def storeBytes (ptr count : Nat) (content : Nat → UInt8) (heap : Heap) : Heap :=
  { heap with memory := fun place =>
      if ptr ≤ place ∧ place < ptr + count then content (place - ptr) else heap.memory place }

/-- The allocator cannot tell the two heaps apart: the break, the list with its sizes and the
size words of the live blocks are the same. -/
structure SameState (process : Process) (live : List Block) (left right : Heap) : Prop where
  brk : left.brk = right.brk
  list : ∀ free, WalksThrough process left.memory free ↔ WalksThrough process right.memory free
  sizes : ∀ used ∈ live, headersOf left.memory used.addr .block_size =
    headersOf right.memory used.addr .block_size

/-! ### The list tells the size words apart -/

section Injective

variable {before after rest others : List Block} {addr size other : Nat} {left right : Block}

theorem absorb_injective {block : Block} (leftFits : left.size < SIZE_RANGE)
    (rightFits : right.size < SIZE_RANGE)
    (same : (left.absorb block).size = (right.absorb block).size) : left.size = right.size := by
  simp only [Block.absorb, SIZE_RANGE] at *
  omega

theorem absorbed_injective {block : Block} (leftFits : left.size < SIZE_RANGE)
    (rightFits : right.size < SIZE_RANGE)
    (same : (block.absorb left).size = (block.absorb right).size) : left.size = right.size := by
  simp only [Block.absorb, SIZE_RANGE] at *
  omega

theorem mergeFirst_injective (sizeFits : size < SIZE_RANGE) (otherFits : other < SIZE_RANGE)
    (same : mergeFirst (⟨addr, size⟩ :: after) = mergeFirst (⟨addr, other⟩ :: after)) :
    size = other := by
  cases after with
  | nil =>
      have blocks : [(⟨addr, size⟩ : Block)] = [⟨addr, other⟩] := same
      simpa using blocks
  | cons next rest =>
      rw [mergeFirst_cons_cons, mergeFirst_cons_cons] at same
      have lengths := congrArg List.length same
      split at same
      · split at same
        · have sizes := congrArg Block.size (List.cons.inj same).1
          exact absorb_injective sizeFits otherFits sizes
        · simp_all
      · split at same
        · simp_all
        · simpa using same

/-- The first block of the result starts where the block did, and its size is a word. -/
theorem mergeFirst_cons (block : Block) (after : List Block) (fits : block.size < SIZE_RANGE) :
    ∃ merged behind, mergeFirst (block :: after) = merged :: behind ∧ merged.addr = block.addr ∧
      merged.size < SIZE_RANGE := by
  cases after with
  | nil => exact ⟨block, [], rfl, rfl, fits⟩
  | cons next rest =>
      rw [mergeFirst_cons_cons]
      split
      · exact ⟨_, rest, rfl, rfl, Nat.mod_lt _ (by decide)⟩
      · exact ⟨block, next :: rest, rfl, rfl, fits⟩

theorem mergeInto_injective (sameAddr : left.addr = right.addr) (leftFits : left.size < SIZE_RANGE)
    (rightFits : right.size < SIZE_RANGE)
    (same : mergeInto before (left :: rest) = mergeInto before (right :: others)) :
    left :: rest = right :: others := by
  rcases List.eq_nil_or_concat' before with rfl | ⟨start, front, rfl⟩
  · exact same
  · rw [mergeInto_concat, mergeInto_concat, mergeFirst_cons_cons, mergeFirst_cons_cons] at same
    have inner := List.append_cancel_left same
    -- the block in front looks only at where the block behind it starts
    have meets : front.Meets left ↔ front.Meets right := by
      unfold Block.Meets
      rw [sameAddr]
    by_cases met : front.Meets left
    · rw [if_pos met, if_pos (meets.mp met)] at inner
      obtain ⟨absorbed, sameRest⟩ := List.cons.inj inner
      have sameSize := absorbed_injective leftFits rightFits (congrArg Block.size absorbed)
      cases left
      cases right
      simp_all
    · rw [if_neg met, if_neg (meets.not.mp met)] at inner
      exact (List.cons.inj inner).2

theorem coalesce_injective (sizeFits : size < SIZE_RANGE) (otherFits : other < SIZE_RANGE)
    (same : coalesce before ⟨addr, size⟩ after = coalesce before ⟨addr, other⟩ after) :
    size = other := by
  obtain ⟨first, behind, isFirst, firstAddr, firstFits⟩ :=
    mergeFirst_cons ⟨addr, size⟩ after sizeFits
  obtain ⟨second, behind₂, isSecond, secondAddr, secondFits⟩ :=
    mergeFirst_cons ⟨addr, other⟩ after otherFits
  unfold coalesce at same
  rw [isFirst, isSecond] at same
  have inner := mergeInto_injective (firstAddr.trans secondAddr.symm) firstFits secondFits same
  rw [← isFirst, ← isSecond] at inner
  exact mergeFirst_injective sizeFits otherFits inner

end Injective

/-! ### The user's bytes -/

section Storing

variable {process : Process} {heap heap' : Heap} {free live : List Block} {block : Block}

/-- Bytes inside a live block belong to no other block and to no header. -/
theorem WellFormed.change_inside (wellFormed : WellFormed process heap free (block :: live))
    (brk : heap'.brk = heap.brk)
    (outside : ∀ place, place < block.addr ∨ block.stop ≤ place →
      heap'.memory place = heap.memory place) :
    WellFormed process heap' free live := by
  have headBelow := process.headBelow
  have limitFits := process.limitFits
  have brkFits := wellFormed.brkFits
  have placed := wellFormed.placed.perm (List.perm_middle :
    (free ++ block :: live).Perm (block :: (free ++ live)))
  obtain ⟨low, -⟩ := placed.inside block List.mem_cons_self
  have unchanged : ∀ node, (node + MSG_SIZE ≤ block.addr ∨ block.stop ≤ node) →
      node + MSG_SIZE ≤ heap.brk → ∀ field,
      headersOf heap'.memory node field = headersOf heap.memory node field := by
    intro node apart below field
    have small := field.offset_le
    have word : addrOf node field = node + field.offset := by
      apply addrOf_of_lt
      rw [SIZE_RANGE]
      omega
    unfold headersOf
    rw [word]
    apply ByteMemory.read_congr
    intro place from_ upTo
    apply outside
    omega
  have atHead := unchanged process.head (Or.inl (headBelow.trans low))
    (headBelow.trans wellFormed.bottomBelow)
  have atBlock : ∀ other ∈ free ++ live, ∀ field, headersOf heap'.memory other.addr field =
      headersOf heap.memory other.addr field := by
    intro other member
    have disjoint := (List.pairwise_cons.mp placed.disjoint).1 other member
    have large := placed.large other (List.mem_cons_of_mem _ member)
    have inside := placed.start_inside (List.mem_cons_of_mem _ member)
    apply unchanged other.addr _ inside.2
    simp only [Block.Disjoint, Block.stop, MIN_SIZE, MSG_SIZE, WORD_SIZE] at disjoint large ⊢
    omega
  have atNode : ∀ node ∈ process.head :: free.map Block.addr, ∀ field,
      headersOf heap'.memory node field = headersOf heap.memory node field := by
    intro node member
    rcases List.mem_cons.mp member with rfl | isBlock
    · exact atHead
    · obtain ⟨other, otherIn, rfl⟩ := List.mem_map.mp isBlock
      exact atBlock other (List.mem_append_left _ otherIn)
  have rest := placed.tail
  exact {
    bottomBelow := brk ▸ wellFormed.bottomBelow
    brkFits := brk ▸ brkFits
    inside := brk ▸ rest.inside
    large := rest.large
    disjoint := rest.disjoint
    sorted := wellFormed.sorted
    freeList := {
      list := wellFormed.freeList.list.congr (fun node member => atNode node member .next)
        fun node member => atNode node member .prev
      sizes := fun other member => (atBlock other (List.mem_append_left _ member) _).trans
        (wellFormed.freeList.sizes other member) }
    liveSizes := fun other member => (atBlock other (List.mem_append_right _ member) _).trans
      (wellFormed.liveSizes other (List.mem_cons_of_mem _ member))
    headSize := (atHead _).trans wellFormed.headSize }

/-- `my_free` takes the word it finds for the size of the block, whatever it is. -/
theorem myFree_word {before after : List Block} {ptr taken fuel : Nat}
    (wellFormed : WellFormed process heap (before ++ after) (⟨ptr, taken⟩ :: live))
    (below : ∀ other ∈ before, other.addr ≤ ptr) (above : ∀ other ∈ after, ptr < other.addr)
    (enough : before.length < fuel) (brk : heap'.brk = heap.brk)
    (outside : ∀ place, place < ptr ∨ Block.stop ⟨ptr, taken⟩ ≤ place →
      heap'.memory place = heap.memory place) :
    ∃ heap'' first last, myFree process fuel ptr heap' = .ok ((), heap'') ∧
      coalesce before ⟨ptr, headersOf heap'.memory ptr .block_size⟩ after = first ++ [last] ∧
      WalksThrough process heap''.memory (first ++ [last]) ∧
      heap''.brk = trimmed process heap.brk last ∧
      ∀ used ∈ live, headersOf heap''.memory used.addr .block_size = used.size := by
  have changed := wellFormed.change_inside brk outside
  have placed := wellFormed.placed_inserted
  rw [← brk] at placed
  have holds := changed.holds_some (fun _ => placed.of_append.start_inside) placed.of_append.apart
  have known := mem_nodesOf process (before ++ ⟨ptr, taken⟩ :: after)
  have moved : (process.head :: (before ++ (⟨ptr, taken⟩ : Block) :: after).map Block.addr).Perm
      (ptr :: process.head :: (before ++ after).map Block.addr) := by
    rw [List.map_append, List.map_append, List.map_cons]
    exact (List.perm_middle.cons process.head).trans (List.Perm.swap _ _ _)
  obtain ⟨fresh, distinct⟩ := List.nodup_cons.mp (moved.nodup_iff.mp placed.of_append.nodup)
  generalize isWord : headersOf heap'.memory ptr .block_size = word
  have sameAddrs : (before ++ (⟨ptr, word⟩ : Block) :: after).map Block.addr =
      (before ++ (⟨ptr, taken⟩ : Block) :: after).map Block.addr := by
    simp only [List.map_append, List.map_cons]
  have freshWord : Block.addr ⟨ptr, word⟩ ∉ process.head :: (before ++ after).map Block.addr :=
    fresh
  obtain ⟨heap₁, headers₁, ran₁, within₁, holds₁, list₁, sizes₁, -⟩ :=
    insertBlock_spec holds changed.freeList.list distinct freshWord
      (fun node member => known node (moved.mem_iff.mpr (List.mem_cons_of_mem _ member)))
      (known ptr (by simp)) isWord changed.freeList.sizes below above enough
  have addrs := coalesce_addrs before ⟨ptr, word⟩ after
  rw [sameAddrs] at addrs
  rcases List.eq_nil_or_concat' (coalesce before ⟨ptr, word⟩ after) with
    empty | ⟨first, last, whole⟩
  · exact absurd empty (coalesce_ne_nil before _ after)
  · rw [whole] at list₁ sizes₁ addrs
    have knownAfter : ∀ node ∈ process.head :: (first ++ [last]).map Block.addr,
        node ∈ nodesOf process (before ++ ⟨ptr, taken⟩ :: after) :=
      fun node member => known node ((addrs.cons_cons process.head).subset member)
    have trims := trimBreak_spec holds₁ list₁ knownAfter (sizes₁ last (by simp))
    rw [within₁.brk, brk] at trims
    have freeList : FreeList process heap₁.memory (first ++ [last]) :=
      FreeList.of_holds holds₁ list₁ knownAfter sizes₁
    refine ⟨{ heap₁ with brk := trimmed process heap.brk last }, first, last, ?_, whole,
      ⟨freeList, ?_⟩, rfl, ?_⟩
    · unfold myFree
      rw [bind_ok ran₁, trims]
    · intro isBlock
      exact (List.nodup_cons.mp placed.of_append.nodup).1 (addrs.subset isBlock)
    · intro used isLive
      obtain ⟨low, high⟩ := placed.inside used (List.mem_append_right _ isLive)
      have kept := within₁.size_of_disjoint low (high.trans changed.brkFits) fun other otherIn =>
        placed.header_apart other otherIn used isLive
      exact kept.trans (changed.liveSizes used isLive)

/-- The word at the start of the block, as far as the user has stored it. -/
theorem storeBytes_word {ptr count : Nat} (isAddress : ptr < SIZE_RANGE)
    (first second : Nat → UInt8) (heap : Heap) :
    headersOf (storeBytes ptr count first heap).memory ptr .block_size =
        headersOf (storeBytes ptr count second heap).memory ptr .block_size ↔
      ∀ index < min count WORD_SIZE, first index = second index := by
  unfold headersOf
  rw [addrOf_block_size isAddress]
  have stored : ∀ (content : Nat → UInt8) (index : Nat), index < count →
      (storeBytes ptr count content heap).memory (ptr + index) = content index := by
    intro content index small
    unfold storeBytes
    dsimp only
    rw [if_pos ⟨by omega, by omega⟩, Nat.add_sub_cancel_left]
  constructor
  · intro same index small
    have bytes := ByteMemory.read_inj same (ptr + index) (by omega) (by omega)
    rwa [stored first index (by omega), stored second index (by omega)] at bytes
  · intro same
    apply ByteMemory.read_congr
    intro place from_ below
    obtain ⟨index, rfl⟩ := Nat.exists_eq_add_of_le from_
    by_cases inside : index < count
    · rw [stored first index inside, stored second index inside]
      exact same index (by omega)
    · unfold storeBytes
      dsimp only
      rw [if_neg (by omega), if_neg (by omega)]

/-- Two contents of the block leave the same state exactly if they agree in the size word. -/
theorem sameState_iff {ptr taken size fuel : Nat}
    (wellFormed : WellFormed process heap free (⟨ptr, taken⟩ :: live)) (room : size ≤ taken)
    (enough : free.length < fuel) (first second : Nat → UInt8) :
    ∃ left right, myFree process fuel ptr (storeBytes ptr size first heap) = .ok ((), left) ∧
      myFree process fuel ptr (storeBytes ptr size second heap) = .ok ((), right) ∧
      (SameState process live left right ↔
        ∀ index < min size WORD_SIZE, first index = second index) := by
  obtain ⟨before, after, rfl, below, above⟩ := exists_place wellFormed.sorted ptr
  have shorter : before.length < fuel := by
    rw [List.length_append] at enough
    omega
  have outside : ∀ (content : Nat → UInt8) (place : Nat),
      place < ptr ∨ Block.stop ⟨ptr, taken⟩ ≤ place →
      (storeBytes ptr size content heap).memory place = heap.memory place := by
    intro content place apart
    unfold storeBytes
    rw [Block.stop] at apart
    dsimp only at apart ⊢
    rw [if_neg (by omega)]
  have brk : ∀ content : Nat → UInt8, (storeBytes ptr size content heap).brk = heap.brk :=
    fun _ => rfl
  have isAddress : ptr < SIZE_RANGE := by
    have high : ptr + WORD_SIZE + taken ≤ heap.brk := (wellFormed.inside ⟨ptr, taken⟩ (by simp)).2
    have brkLt := wellFormed.brk_lt
    omega
  have wordFits : ∀ content : Nat → UInt8,
      headersOf (storeBytes ptr size content heap).memory ptr .block_size < SIZE_RANGE :=
    fun _ => ByteMemory.read_lt _ _ _
  obtain ⟨left, firstL, lastL, ranL, listL, walksL, brkL, sizesL⟩ :=
    myFree_word wellFormed below above shorter (brk first) (outside first)
  obtain ⟨right, firstR, lastR, ranR, listR, walksR, brkR, sizesR⟩ :=
    myFree_word wellFormed below above shorter (brk second) (outside second)
  refine ⟨left, right, ranL, ranR, ?_⟩
  rw [← storeBytes_word isAddress first second heap]
  constructor
  · intro same
    have sameList := ((same.list _).mp walksL).unique walksR
    rw [← listL, ← listR] at sameList
    exact coalesce_injective (wordFits first) (wordFits second) sameList
  · intro sameWord
    rw [sameWord, listR] at listL
    obtain ⟨sameFirst, sameLast⟩ := List.append_inj' listL rfl
    have isLast : lastR = lastL := List.singleton_inj.mp sameLast
    subst sameFirst isLast
    refine ⟨brkL.trans brkR.symm, ?_, ?_⟩
    · intro others
      constructor
      · intro walks
        rw [walks.unique walksL]
        exact walksR
      · intro walks
        rw [walks.unique walksR]
        exact walksL
    · intro used isLive
      rw [sizesL used isLive, sizesR used isLive]

end Storing

/-- The user's bytes do not matter: whatever is stored in the bytes that were asked for,
`my_free` leaves the same state. -/
def ContentsDoNotMatter (process : Process) (heap : Heap) (live : List Block) (fuel size : Nat) :
    Prop :=
  ∀ ptr heap₁, myMalloc process fuel size heap = .ok (ptr, heap₁) →
    ∀ first second left right, myFree process fuel ptr (storeBytes ptr size first heap₁) =
        .ok ((), left) →
      myFree process fuel ptr (storeBytes ptr size second heap₁) = .ok ((), right) →
      SameState process live left right

theorem hundred_served : Served smallProcess (smallHeap 184) [⟨4120, 184⟩] 100 :=
  .found [] ⟨4120, 184⟩ [] rfl (by decide) (by decide) (by decide)

end LinuxProgramming.Allocator
