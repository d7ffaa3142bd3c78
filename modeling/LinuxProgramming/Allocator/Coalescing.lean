import LinuxProgramming.Allocator.Free
import LinuxProgramming.Allocator.Growth

/-!
Contract: `my_free` up to the break, on a well-formed heap.

Owns:
- where a block goes in a list sorted by address;
- that coalescing keeps the blocks placed and sorted, and covers the same bytes;
- which blocks are merged, and which stay as they are.

Does not own: the break.
-/

namespace LinuxProgramming.Allocator

open LinuxProgramming.Library

/-! ### Blocks below the break -/

section Blocks

variable {process : Process} {brk : Nat} {blocks others before after : List Block}
  {block left right : Block}

/-- Below the break a `size_t` can tell where a block ends. -/
theorem Placed.meets_iff (placed : Placed process brk blocks) (fits : brk < SIZE_RANGE)
    (member : left ∈ blocks) : left.Meets right ↔ left.Touches right := by
  have high := (placed.inside left member).2
  unfold Block.Meets Block.Touches
  rw [Nat.mod_eq_of_lt (high.trans_lt fits)]

/-- There it can also hold the size of both. -/
theorem Placed.absorb_eq (placed : Placed process brk blocks) (fits : brk < SIZE_RANGE)
    (member : right ∈ blocks) (touches : left.Touches right) :
    left.absorb right = left.join right := by
  have high := (placed.inside right member).2
  unfold Block.absorb Block.join
  rw [Nat.mod_eq_of_lt]
  unfold Block.Touches Block.stop at touches
  rw [Block.stop] at high
  omega

/-- Merging the first two blocks leaves the blocks placed and covers the same bytes. -/
theorem mergeFirst_placed (fits : brk < SIZE_RANGE)
    (placed : Placed process brk (blocks ++ others)) :
    Placed process brk (mergeFirst blocks ++ others) ∧
      covered (mergeFirst blocks) = covered blocks := by
  match blocks, placed with
  | [], placed => exact ⟨placed, rfl⟩
  | [_], placed => exact ⟨placed, rfl⟩
  | left :: right :: rest, placed =>
      rw [mergeFirst_cons_cons]
      by_cases meets : left.Meets right
      · have touches := (placed.meets_iff fits List.mem_cons_self).mp meets
        rw [if_pos meets, placed.absorb_eq fits (by simp) touches]
        refine ⟨placed.join touches, ?_⟩
        rw [covered_cons, covered_cons, covered_cons, covered_join touches, Set.union_assoc]
      · rw [if_neg meets]
        exact ⟨placed, rfl⟩

/-- No block changes where it starts. -/
theorem mergeFirst_addrs (blocks : List Block) :
    ((mergeFirst blocks).map Block.addr).Sublist (blocks.map Block.addr) := by
  match blocks with
  | [] => exact List.Sublist.refl _
  | [_] => exact List.Sublist.refl _
  | left :: right :: rest =>
      rw [mergeFirst_cons_cons]
      by_cases meets : left.Meets right
      · rw [if_pos meets]
        exact (List.sublist_cons_self _ _).cons_cons left.addr
      · rw [if_neg meets]

theorem mergeInto_placed (fits : brk < SIZE_RANGE)
    (placed : Placed process brk (before ++ blocks ++ others)) :
    Placed process brk (mergeInto before blocks ++ others) ∧
      covered (mergeInto before blocks) = covered (before ++ blocks) := by
  rcases List.eq_nil_or_concat' before with rfl | ⟨first, front, rfl⟩
  · exact ⟨placed, rfl⟩
  · have moved : (first ++ [front] ++ blocks ++ others).Perm
        ((front :: blocks) ++ (first ++ others)) := by
      simp only [List.append_assoc]
      rw [← List.append_assoc [front]]
      exact List.perm_append_comm_assoc first _ others
    obtain ⟨merged, sameBytes⟩ := mergeFirst_placed fits (placed.perm moved)
    rw [mergeInto_concat]
    constructor
    · apply merged.perm
      rw [List.append_assoc]
      exact List.perm_append_comm_assoc _ first others
    · rw [covered_append, sameBytes, List.append_assoc, covered_append]
      rfl

theorem mergeInto_addrs (before blocks : List Block) :
    ((mergeInto before blocks).map Block.addr).Sublist ((before ++ blocks).map Block.addr) := by
  rcases List.eq_nil_or_concat' before with rfl | ⟨first, front, rfl⟩
  · exact List.Sublist.refl _
  · rw [mergeInto_concat, List.append_assoc, List.map_append, List.map_append]
    exact (mergeFirst_addrs (front :: blocks)).append_left _

/-- Coalescing leaves the blocks placed and covers the same bytes. -/
theorem coalesce_placed (fits : brk < SIZE_RANGE)
    (placed : Placed process brk ((before ++ block :: after) ++ others)) :
    Placed process brk (coalesce before block after ++ others) ∧
      covered (coalesce before block after) = covered (before ++ block :: after) := by
  have moved : ((before ++ block :: after) ++ others).Perm
      ((block :: after) ++ (before ++ others)) := by
    rw [List.append_assoc]
    exact List.perm_append_comm_assoc before _ others
  obtain ⟨behind, sameBehind⟩ := mergeFirst_placed fits (placed.perm moved)
  have placed₁ : Placed process brk (before ++ mergeFirst (block :: after) ++ others) := by
    apply behind.perm
    rw [List.append_assoc]
    exact List.perm_append_comm_assoc _ before others
  obtain ⟨whole, sameWhole⟩ := mergeInto_placed fits placed₁
  refine ⟨whole, ?_⟩
  rw [coalesce, sameWhole, covered_append, sameBehind, covered_append]

theorem coalesce_addrs (before : List Block) (block : Block) (after : List Block) :
    ((coalesce before block after).map Block.addr).Sublist
      ((before ++ block :: after).map Block.addr) := by
  apply (mergeInto_addrs before (mergeFirst (block :: after))).trans
  rw [List.map_append, List.map_append]
  exact (mergeFirst_addrs (block :: after)).append_left _

/-- In a sorted list there is one place for an address. -/
theorem exists_place {free : List Block}
    (sorted : free.Pairwise fun left right => left.addr < right.addr) (addr : Nat) :
    ∃ before after, free = before ++ after ∧ (∀ other ∈ before, other.addr ≤ addr) ∧
      ∀ other ∈ after, addr < other.addr := by
  induction free with
  | nil => exact ⟨[], [], rfl, by simp, by simp⟩
  | cons first rest inductionHypothesis =>
      obtain ⟨behind, sortedRest⟩ := List.pairwise_cons.mp sorted
      by_cases above : addr < first.addr
      · refine ⟨[], first :: rest, rfl, by simp, ?_⟩
        rw [List.forall_mem_cons]
        exact ⟨above, fun other member => above.trans (behind other member)⟩
      · obtain ⟨before, after, rfl, low, high⟩ := inductionHypothesis sortedRest
        refine ⟨first :: before, after, rfl, ?_, high⟩
        rw [List.forall_mem_cons]
        exact ⟨Nat.le_of_not_lt above, low⟩

end Blocks

/-! ### The heap afterwards -/

section Insertion

variable {process : Process} {heap : Heap} {before after live : List Block} {block : Block}
  {fuel : Nat}

/-- A block that goes into the list stands among the free ones. -/
theorem WellFormed.placed_inserted
    (wellFormed : WellFormed process heap (before ++ after) (block :: live)) :
    Placed process heap.brk ((before ++ block :: after) ++ live) :=
  wellFormed.placed.perm (List.perm_middle.trans (perm_front before after live block).symm)

/-- With the block the list is still sorted. -/
theorem sorted_inserted (wellFormed : WellFormed process heap (before ++ after) (block :: live))
    (below : ∀ other ∈ before, other.addr ≤ block.addr)
    (above : ∀ other ∈ after, block.addr < other.addr) :
    (before ++ block :: after).Pairwise fun left right => left.addr < right.addr := by
  have distinct := wellFormed.placed_inserted.of_append.nodup
  have sorted := wellFormed.sorted
  rw [List.map_append, List.map_cons] at distinct
  have fresh := (List.nodup_cons.mp (List.nodup_middle.mp (List.nodup_cons.mp distinct).2)).1
  rw [List.pairwise_append] at sorted
  rw [List.pairwise_append, List.pairwise_cons]
  refine ⟨sorted.1, ⟨above, sorted.2.1⟩, ?_⟩
  intro left leftIn right rightIn
  rcases List.mem_cons.mp rightIn with rfl | isAfter
  · apply Nat.lt_of_le_of_ne (below left leftIn)
    intro same
    apply fresh
    rw [← same]
    exact List.mem_append_left _ (List.mem_map_of_mem leftIn)
  · exact sorted.2.2 left leftIn right isAfter

/-- The insertion leaves a well-formed heap, and the size words of all blocks but the one
inserted and the one in front of it. -/
theorem insertBlock_wellFormed
    (wellFormed : WellFormed process heap (before ++ after) (block :: live))
    (below : ∀ other ∈ before, other.addr ≤ block.addr)
    (above : ∀ other ∈ after, block.addr < other.addr) (enough : before.length < fuel) :
    ∃ heap', insertBlock process fuel block.addr heap = .ok ((), heap') ∧
      Within (nodesOf process (before ++ block :: after)) heap heap' ∧
      WellFormed process heap' (coalesce before block after) live ∧
      ∀ node ∈ nodesOf process (before ++ block :: after), node ≠ block.addr →
        (∀ front ∈ before.getLast?, front.Touches block → node ≠ front.addr) →
        headersOf heap'.memory node .block_size = headersOf heap.memory node .block_size := by
  have placed := wellFormed.placed_inserted
  have holds := wellFormed.holds_some (fun _ => placed.of_append.start_inside)
    placed.of_append.apart
  have known := mem_nodesOf process (before ++ block :: after)
  have sorted := sorted_inserted wellFormed below above
  have moved : (process.head :: (before ++ block :: after).map Block.addr).Perm
      (block.addr :: process.head :: (before ++ after).map Block.addr) := by
    rw [List.map_append, List.map_append, List.map_cons]
    exact (List.perm_middle.cons process.head).trans (List.Perm.swap _ _ _)
  obtain ⟨fresh, distinct⟩ := List.nodup_cons.mp (moved.nodup_iff.mp placed.of_append.nodup)
  obtain ⟨heap', headers', ran, within, holds', list, sizes, same⟩ :=
    insertBlock_spec holds wellFormed.freeList.list distinct fresh
      (fun node member => known node (moved.mem_iff.mpr (List.mem_cons_of_mem _ member)))
      (known block.addr (by simp)) (wellFormed.liveSizes block List.mem_cons_self)
      wellFormed.freeList.sizes below above enough
  have addrs := (coalesce_addrs before block after).cons_cons process.head
  have frontIs : ∀ front ∈ before.getLast?, front.Meets block ↔ front.Touches block := by
    intro front isFront
    apply placed.meets_iff wellFormed.brk_lt
    have inBefore := List.mem_of_mem_getLast? isFront
    simp [inBefore]
  have headSame : headers' process.head .block_size =
      headersOf heap.memory process.head .block_size := by
    apply same
    · intro isBlock
      apply fresh
      rw [← isBlock]
      exact List.mem_cons_self
    · intro front isFront _ isHead
      apply (List.nodup_cons.mp distinct).1
      rw [isHead, List.map_append]
      exact List.mem_append_left _ (List.mem_map_of_mem (List.mem_of_mem_getLast? isFront))
  refine ⟨heap', ran, within, WellFormed.of_holds holds' list ?_ sizes ?_ ?_ ?_ ?_, ?_⟩
  · intro node member
    exact known node (addrs.subset member)
  · exact headSame.trans wellFormed.headSize
  · intro used isLive
    obtain ⟨low, high⟩ := placed.inside used (List.mem_append_right _ isLive)
    rw [within.size_of_disjoint low (high.trans wellFormed.brkFits) fun other otherIn =>
      placed.header_apart other otherIn used isLive]
    exact wellFormed.liveSizes used (List.mem_cons_of_mem _ isLive)
  · rw [within.brk]
    exact (coalesce_placed wellFormed.brk_lt placed).1
  · have sortedAddrs := List.pairwise_map.mpr sorted
    exact List.pairwise_map.mp (sortedAddrs.sublist (coalesce_addrs before block after))
  · intro node nodeIn notBlock notFront
    rw [← same node notBlock fun front isFront meets =>
      notFront front isFront ((frontIs front isFront).mp meets)]
    exact holds'.shows node nodeIn .block_size

end Insertion

/-! ### What is merged -/

/-- The one block is the other one together with the blocks in front of and behind it that it
touches. -/
structure MergedWith (free : List Block) (block merged : Block) : Prop where
  front : ∀ left ∈ free, left.Touches block → merged.addr = left.addr
  first : (∀ left ∈ free, ¬ left.Touches block) → merged.addr = block.addr
  next : ∀ right ∈ free, block.Touches right → merged.stop = right.stop
  last : (∀ right ∈ free, ¬ block.Touches right) → merged.stop = block.stop

section Merging

variable {process : Process} {brk : Nat} {before after : List Block} {block : Block}

/-- A block does not reach past another one. -/
theorem Block.Disjoint.not_touches {left middle right : Block} (disjoint : left.Disjoint middle)
    (first : left.addr < middle.addr) (second : middle.addr < right.addr) :
    ¬ left.Touches right := by
  unfold Block.Disjoint Block.stop at disjoint
  unfold Block.Touches Block.stop
  omega

/-- The block behind is merged if it is touched, and no other. -/
theorem mergeFirst_touched (placed : Placed process brk (block :: after)) (fits : brk < SIZE_RANGE)
    (sorted : (block :: after).Pairwise fun left right => left.addr < right.addr) :
    ∃ merged behind, mergeFirst (block :: after) = merged :: behind ∧ merged.addr = block.addr ∧
      (∀ right ∈ after, block.Touches right → merged.stop = right.stop) ∧
      ((∀ right ∈ after, ¬ block.Touches right) → merged.stop = block.stop) ∧
      ∀ other, other ∈ behind ↔ other ∈ after ∧ ¬ block.Touches other := by
  match after, placed, sorted with
  | [], placed, sorted =>
      refine ⟨block, [], rfl, rfl, ?_, fun _ => rfl, ?_⟩
      · simp
      · simp
  | next :: rest, placed, sorted =>
      have order := (List.pairwise_cons.mp sorted).1 next List.mem_cons_self
      have orderRest := (List.pairwise_cons.mp (List.pairwise_cons.mp sorted).2).1
      have disjoint := (List.pairwise_cons.mp placed.disjoint).1 next List.mem_cons_self
      have restApart : ∀ right ∈ rest, ¬ block.Touches right :=
        fun right member => disjoint.not_touches order (orderRest right member)
      have nextIff : block.Meets next ↔ block.Touches next :=
        placed.meets_iff fits List.mem_cons_self
      rw [mergeFirst_cons_cons]
      by_cases touches : block.Touches next
      · rw [if_pos (nextIff.mpr touches), placed.absorb_eq fits (by simp) touches]
        refine ⟨_, rest, rfl, rfl, ?_, ?_, ?_⟩
        · rw [List.forall_mem_cons]
          exact ⟨fun _ => Block.stop_join touches,
            fun right member again => absurd again (restApart right member)⟩
        · intro none_
          exact absurd touches (none_ next List.mem_cons_self)
        · intro other
          constructor
          · intro member
            exact ⟨List.mem_cons_of_mem _ member, restApart other member⟩
          · rintro ⟨member, apart⟩
            rcases List.mem_cons.mp member with rfl | inRest
            · exact absurd touches apart
            · exact inRest
      · have noneTouched : ∀ right ∈ next :: rest, ¬ block.Touches right :=
          List.forall_mem_cons.mpr ⟨touches, restApart⟩
        rw [if_neg (nextIff.not.mpr touches)]
        refine ⟨block, next :: rest, rfl, rfl, ?_, fun _ => rfl, ?_⟩
        · intro right member again
          exact absurd again (noneTouched right member)
        · intro other
          exact (and_iff_left_of_imp (noneTouched other)).symm

/-- The block in front is merged if it touches, and no other. -/
theorem mergeInto_touched (placed : Placed process brk (before ++ block :: after))
    (fits : brk < SIZE_RANGE)
    (sorted : (before ++ block :: after).Pairwise fun left right => left.addr < right.addr) :
    ∃ kept merged, mergeInto before (block :: after) = kept ++ merged :: after ∧
      merged.stop = block.stop ∧
      (∀ left ∈ before, left.Touches block → merged.addr = left.addr) ∧
      ((∀ left ∈ before, ¬ left.Touches block) → merged.addr = block.addr) ∧
      ∀ other, other ∈ kept ↔ other ∈ before ∧ ¬ other.Touches block := by
  rcases List.eq_nil_or_concat' before with rfl | ⟨first, front, rfl⟩
  · refine ⟨[], block, rfl, rfl, ?_, fun _ => rfl, ?_⟩
    · simp
    · simp
  · have frontIn : front ∈ first ++ [front] ++ block :: after := by simp
    have order := (List.pairwise_append.mp sorted).2.2 front (by simp) block List.mem_cons_self
    have orderFirst := (List.pairwise_append.mp (List.pairwise_append.mp sorted).1).2.2
    have disjoint := (List.pairwise_append.mp placed.of_append.disjoint).2.2
    have firstApart : ∀ left ∈ first, ¬ left.Touches block := by
      intro left member
      have alone := List.mem_singleton_self front
      have first := orderFirst left member front alone
      exact (disjoint left member front alone).not_touches first order
    have frontIff : front.Meets block ↔ front.Touches block := placed.meets_iff fits frontIn
    rw [mergeInto_concat, mergeFirst_cons_cons]
    by_cases touches : front.Touches block
    · rw [if_pos (frontIff.mpr touches), placed.absorb_eq fits (by simp) touches]
      refine ⟨first, _, rfl, Block.stop_join touches, ?_, ?_, ?_⟩
      · intro left member again
        rcases List.mem_append.mp member with inFirst | isFront
        · exact absurd again (firstApart left inFirst)
        · rw [List.mem_singleton.mp isFront]
          rfl
      · intro none_
        exact absurd touches (none_ front (by simp))
      · intro other
        constructor
        · intro member
          exact ⟨List.mem_append_left _ member, firstApart other member⟩
        · rintro ⟨member, apart⟩
          rcases List.mem_append.mp member with inFirst | isFront
          · exact inFirst
          · exact absurd (List.mem_singleton.mp isFront ▸ touches) apart
    · have noneTouches : ∀ left ∈ first ++ [front], ¬ left.Touches block := by
        intro left member
        rcases List.mem_append.mp member with inFirst | isFront
        · exact firstApart left inFirst
        · rw [List.mem_singleton.mp isFront]
          exact touches
      rw [if_neg (frontIff.not.mpr touches)]
      refine ⟨first ++ [front], block, by simp, rfl, ?_, fun _ => rfl, ?_⟩
      · intro left member again
        exact absurd again (noneTouches left member)
      · intro other
        exact (and_iff_left_of_imp (noneTouches other)).symm

/-- A block is merged with those it touches, and all others stay. -/
theorem coalesce_touched (placed : Placed process brk (before ++ block :: after))
    (fits : brk < SIZE_RANGE)
    (sorted : (before ++ block :: after).Pairwise fun left right => left.addr < right.addr) :
    ∃ merged, MergedWith (before ++ after) block merged ∧
      ∀ other, other ∈ coalesce before block after ↔ other = merged ∨
        (other ∈ before ++ after ∧ ¬ other.Touches block ∧ ¬ block.Touches other) := by
  have behindPlaced := placed.perm (List.perm_append_comm : (before ++ block :: after).Perm _)
  have sortedParts := List.pairwise_append.mp sorted
  have orderBefore : ∀ left ∈ before, left.addr < block.addr :=
    fun left member => sortedParts.2.2 left member block List.mem_cons_self
  have orderAfter : ∀ right ∈ after, block.addr < right.addr :=
    (List.pairwise_cons.mp sortedParts.2.1).1
  have noneInFront : ∀ left ∈ before, ¬ block.Touches left := by
    intro left member
    have := orderBefore left member
    unfold Block.Touches Block.stop
    omega
  have noneBehind : ∀ right ∈ after, ¬ right.Touches block := by
    intro right member
    have := orderAfter right member
    unfold Block.Touches Block.stop
    omega
  obtain ⟨second, behind, isMerged, sameAddr, next, last, isBehind⟩ :=
    mergeFirst_touched behindPlaced.of_append fits sortedParts.2.1
  have placed₁ : Placed process brk (before ++ second :: behind) := by
    have merged := (mergeFirst_placed fits behindPlaced).1
    rw [isMerged] at merged
    exact merged.perm List.perm_append_comm
  have sorted₁ :
      (before ++ second :: behind).Pairwise fun left right => left.addr < right.addr := by
    have addrs : ((before ++ second :: behind).map Block.addr).Sublist
        ((before ++ block :: after).map Block.addr) := by
      rw [List.map_append, List.map_append, ← isMerged]
      exact (mergeFirst_addrs _).append_left _
    exact List.pairwise_map.mp ((List.pairwise_map.mpr sorted).sublist addrs)
  obtain ⟨kept, merged, whole, sameStop, front, first, isKept⟩ :=
    mergeInto_touched placed₁ fits sorted₁
  unfold Block.Touches at front first isKept
  rw [sameAddr] at front first isKept
  rw [← sameStop] at next last
  refine ⟨merged, ⟨?_, ?_, ?_, ?_⟩, ?_⟩
  · intro left member touches
    rcases List.mem_append.mp member with inBefore | inAfter
    · exact front left inBefore touches
    · exact absurd touches (noneBehind left inAfter)
  · intro none_
    exact first fun left member => none_ left (List.mem_append_left _ member)
  · intro right member touches
    rcases List.mem_append.mp member with inBefore | inAfter
    · exact absurd touches (noneInFront right inBefore)
    · exact next right inAfter touches
  · intro none_
    exact last fun right member => none_ right (List.mem_append_right _ member)
  · intro other
    rw [coalesce, isMerged, whole, List.mem_append, List.mem_cons, List.mem_append, isKept,
      isBehind]
    constructor
    · rintro (⟨inBefore, apart⟩ | isOther | ⟨inAfter, apart⟩)
      · exact Or.inr ⟨Or.inl inBefore, apart, noneInFront other inBefore⟩
      · exact Or.inl isOther
      · exact Or.inr ⟨Or.inr inAfter, noneBehind other inAfter, apart⟩
    · rintro (isOther | ⟨inBefore | inAfter, front_, behind_⟩)
      · exact Or.inr (Or.inl isOther)
      · exact Or.inl ⟨inBefore, front_⟩
      · exact Or.inr (Or.inr ⟨inAfter, behind_⟩)

/-- The merged block contains the block. -/
theorem MergedWith.around {free : List Block} {merged : Block}
    (mergedWith : MergedWith free block merged) :
    merged.addr ≤ block.addr ∧ block.stop ≤ merged.stop := by
  constructor
  · by_cases some_ : ∃ front ∈ free, front.Touches block
    · obtain ⟨front, frontIn, touches⟩ := some_
      rw [mergedWith.front front frontIn touches, ← touches, Block.stop]
      omega
    · apply Nat.le_of_eq
      apply mergedWith.first
      intro front frontIn touches
      exact some_ ⟨front, frontIn, touches⟩
  · by_cases some_ : ∃ next ∈ free, block.Touches next
    · obtain ⟨next, nextIn, touches⟩ := some_
      rw [mergedWith.next next nextIn touches, touches, Block.stop]
      omega
    · apply Nat.le_of_eq
      symm
      apply mergedWith.last
      intro next nextIn touches
      exact some_ ⟨next, nextIn, touches⟩

theorem MergedWith.unique {free : List Block} {merged other : Block}
    (mergedWith : MergedWith free block merged) (again : MergedWith free block other) :
    merged = other := by
  have sameAddr : merged.addr = other.addr := by
    by_cases some_ : ∃ front ∈ free, front.Touches block
    · obtain ⟨front, frontIn, touches⟩ := some_
      rw [mergedWith.front front frontIn touches, again.front front frontIn touches]
    · have none_ : ∀ left ∈ free, ¬ left.Touches block :=
        fun left leftIn touches => some_ ⟨left, leftIn, touches⟩
      rw [mergedWith.first none_, again.first none_]
  have sameStop : merged.stop = other.stop := by
    by_cases some_ : ∃ next ∈ free, block.Touches next
    · obtain ⟨next, nextIn, touches⟩ := some_
      rw [mergedWith.next next nextIn touches, again.next next nextIn touches]
    · have none_ : ∀ right ∈ free, ¬ block.Touches right :=
        fun right rightIn touches => some_ ⟨right, rightIn, touches⟩
      rw [mergedWith.last none_, again.last none_]
  cases merged
  cases other
  simp only [Block.stop] at sameAddr sameStop
  simp only [Block.mk.injEq]
  omega

/-- If no free blocks touched before, none touch the merged one. -/
theorem MergedWith.apart {free free' : List Block} {merged : Block}
    (mergedWith : MergedWith free block merged)
    (members : ∀ other, other ∈ free' ↔ other = merged ∨
      (other ∈ free ∧ ¬ other.Touches block ∧ ¬ block.Touches other))
    (apart : ∀ left ∈ free, ∀ right ∈ free, ¬ left.Touches right) :
    ∀ left ∈ free', ∀ right ∈ free', ¬ left.Touches right := by
  obtain ⟨low, high⟩ := mergedWith.around
  have notInto : ∀ left ∈ free, ¬ left.Touches block → ¬ left.Touches merged := by
    intro left member notTouches touches
    by_cases some_ : ∃ front ∈ free, front.Touches block
    · obtain ⟨front, frontIn, frontTouches⟩ := some_
      apply apart left member front frontIn
      unfold Block.Touches at touches ⊢
      rw [touches, mergedWith.front front frontIn frontTouches]
    · apply notTouches
      unfold Block.Touches at touches ⊢
      rw [touches, mergedWith.first]
      intro front frontIn frontTouches
      exact some_ ⟨front, frontIn, frontTouches⟩
  have notOut : ∀ right ∈ free, ¬ block.Touches right → ¬ merged.Touches right := by
    intro right member notTouches touches
    by_cases some_ : ∃ next ∈ free, block.Touches next
    · obtain ⟨next, nextIn, nextTouches⟩ := some_
      apply apart next nextIn right member
      unfold Block.Touches at touches ⊢
      rw [← touches, mergedWith.next next nextIn nextTouches]
    · apply notTouches
      unfold Block.Touches at touches ⊢
      rw [← touches, mergedWith.last]
      intro next nextIn nextTouches
      exact some_ ⟨next, nextIn, nextTouches⟩
  intro left leftIn right rightIn
  rcases (members left).mp leftIn with rfl | ⟨leftOld, notFront, -⟩
  · rcases (members right).mp rightIn with rfl | ⟨rightOld, -, notBehind⟩
    · rw [Block.stop, WORD_SIZE] at high
      unfold Block.Touches
      omega
    · exact notOut right rightOld notBehind
  · rcases (members right).mp rightIn with rfl | ⟨rightOld, -, -⟩
    · exact notInto left leftOld notFront
    · exact apart left leftOld right rightOld

end Merging

/-- A block given back is merged with the free blocks it touches, if there are any, and the
others stay as they are. The list is well formed again and covers the block's bytes besides
the old ones, and no free blocks touch if none did before. -/
theorem insertBlock_coalesces (process : Process) (heap : Heap) (free live : List Block)
    (block : Block) (fuel : Nat) (wellFormed : WellFormed process heap free (block :: live))
    (enough : free.length < fuel) :
    ∃ heap' free' merged, insertBlock process fuel block.addr heap = .ok ((), heap') ∧
      heap'.brk = heap.brk ∧ WellFormed process heap' free' live ∧
      covered free' = covered free ∪ Set.Ico block.addr block.stop ∧
      MergedWith free block merged ∧
      (∀ other, other ∈ free' ↔ other = merged ∨
        (other ∈ free ∧ ¬ other.Touches block ∧ ¬ block.Touches other)) ∧
      ((∀ left ∈ free, ∀ right ∈ free, ¬ left.Touches right) →
        ∀ left ∈ free', ∀ right ∈ free', ¬ left.Touches right) := by
  obtain ⟨before, after, rfl, below, above⟩ := exists_place wellFormed.sorted block.addr
  have placed := wellFormed.placed_inserted
  have shorter : before.length < fuel := by
    rw [List.length_append] at enough
    omega
  obtain ⟨heap', ran, within, wellFormed', -⟩ :=
    insertBlock_wellFormed wellFormed below above shorter
  obtain ⟨merged, mergedWith, members⟩ :=
    coalesce_touched placed.of_append wellFormed.brk_lt (sorted_inserted wellFormed below above)
  refine ⟨heap', _, merged, ran, within.brk, wellFormed', ?_, mergedWith, members,
    mergedWith.apart members⟩
  rw [(coalesce_placed wellFormed.brk_lt placed).2]
  simp only [covered_append, covered_cons]
  rw [Set.union_left_comm, Set.union_comm]

/-- The block at 4096 ends where the free block at 4120 starts. -/
theorem insertBlock_coalesces_behind :
    ∃ heap' free' merged, insertBlock smallProcess 2 4096 (smallHeap 184) = .ok ((), heap') ∧
      heap'.brk = (smallHeap 184).brk ∧ WellFormed smallProcess heap' free' [] ∧
      covered free' = covered [⟨4120, 184⟩] ∪ Set.Ico 4096 (Block.stop ⟨4096, 16⟩) ∧
      MergedWith [⟨4120, 184⟩] ⟨4096, 16⟩ merged ∧
      (∀ other, other ∈ free' ↔ other = merged ∨
        (other ∈ [(⟨4120, 184⟩ : Block)] ∧ ¬ other.Touches ⟨4096, 16⟩ ∧
          ¬ Block.Touches ⟨4096, 16⟩ other)) ∧
      ((∀ left ∈ [(⟨4120, 184⟩ : Block)], ∀ right ∈ [(⟨4120, 184⟩ : Block)],
          ¬ left.Touches right) →
        ∀ left ∈ free', ∀ right ∈ free', ¬ left.Touches right) :=
  insertBlock_coalesces smallProcess (smallHeap 184) [⟨4120, 184⟩] [] ⟨4096, 16⟩ 2
    smallHeap_reaching (by decide)

end LinuxProgramming.Allocator
