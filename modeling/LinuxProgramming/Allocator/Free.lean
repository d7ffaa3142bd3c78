import LinuxProgramming.Allocator.Placement

/-!
Contract: the statements of `my_free` on headers, for a block with any size word.

Owns:
- the search for the place of the block;
- what linking and merging change, field by field;
- the list they leave.

Does not own: well-formed heaps, or the break.
-/

namespace LinuxProgramming.Allocator

open LinuxProgramming.Library

section Free

variable {process : Process} {heap : Heap} {nodes : Set Nat} {headers : Headers}

/-! ### The search -/

/-- The search passes the nodes below the block and stops at the first one above it. -/
theorem findPosition_spec (holds : Holds process heap nodes headers) {ptr : Nat}
    {skipped : List Nat} :
    ∀ {before after : List Nat} {fuel : Nat},
      headers.IsList process.head (before ++ (skipped ++ after)) →
      (∀ node ∈ skipped ++ after, node ∈ nodes ∧ node ≠ process.head) →
      (∀ node ∈ skipped, node ≤ ptr) → (∀ node ∈ after, ptr < node) → skipped.length < fuel →
      findPosition process ptr fuel ((skipped ++ after).headD process.head) heap =
        .ok (after.headD process.head, heap) := by
  induction skipped with
  | nil =>
      intro before after fuel list known below above enough
      obtain ⟨fuel, rfl⟩ := Nat.exists_eq_add_one_of_ne_zero (Nat.ne_zero_of_lt enough)
      cases after with
      | nil =>
          show findPosition process ptr (fuel + 1) process.head heap = _
          rw [findPosition, if_pos rfl]
          rfl
      | cons first rest =>
          show findPosition process ptr (fuel + 1) first heap = _
          rw [findPosition, if_neg (known first List.mem_cons_self).2,
            if_pos (above first List.mem_cons_self)]
          rfl
  | cons node rest inductionHypothesis =>
      intro before after fuel list known below above enough
      obtain ⟨fuel, rfl⟩ := Nat.exists_eq_add_one_of_ne_zero (Nat.ne_zero_of_lt enough)
      obtain ⟨nodeIn, notHead⟩ := known node List.mem_cons_self
      have cut : headers.IsList process.head (before ++ node :: (rest ++ after)) := list
      have further : headers.IsList process.head ((before ++ [node]) ++ (rest ++ after)) := by
        rw [← List.append_cons]
        exact list
      have notAbove := Nat.not_lt.mpr (below node List.mem_cons_self)
      show findPosition process ptr (fuel + 1) node heap = _
      rw [findPosition, if_neg notHead, if_neg notAbove, bind_ok (holds.load nodeIn .next),
        cut.at_member.2]
      apply inductionHypothesis further
      · intro other member
        exact known other (List.mem_cons_of_mem _ member)
      · intro other member
        exact below other (List.mem_cons_of_mem _ member)
      · exact above
      · exact Nat.lt_of_succ_lt_succ enough

/-! ### The test for a neighbour -/

/-- The one block ends where the other starts, as far as a `size_t` can tell. -/
def Block.Meets (left right : Block) : Prop :=
  left.stop % SIZE_RANGE = right.addr

instance (left right : Block) : Decidable (left.Meets right) :=
  inferInstanceAs (Decidable (_ = _))

/-- Two blocks as one, with the size that a `size_t` can hold. -/
def Block.absorb (left right : Block) : Block :=
  ⟨left.addr, (left.size + (right.size + WORD_SIZE)) % SIZE_RANGE⟩

/-- The list head is no neighbour. -/
theorem adjoins_head (process : Process) (heap : Heap) (block target : Nat) :
    adjoins process process.head block target heap = .ok (false, heap) := by
  unfold adjoins
  rw [if_pos rfl]
  rfl

theorem adjoins_spec (holds : Holds process heap nodes headers) {left right : Block}
    {neighbour : Nat} (notHead : neighbour ≠ process.head) (leftIn : left.addr ∈ nodes)
    (leftSize : headers left.addr .block_size = left.size) :
    adjoins process neighbour left.addr right.addr heap =
      .ok (decide (left.Meets right), heap) := by
  have same : left.addr + left.size + WORD_SIZE = left.stop := Nat.add_right_comm _ _ _
  unfold adjoins blockEnd
  rw [if_neg notHead, bind_ok (bind_ok (holds.load leftIn .block_size)), leftSize, same]
  rfl

/-! ### The block behind -/

/-- The first block merged with the second one if that is where it ends. -/
def mergeFirst : List Block → List Block
  | left :: right :: rest =>
      if left.Meets right then left.absorb right :: rest else left :: right :: rest
  | blocks => blocks

theorem mergeFirst_cons_cons (left right : Block) (rest : List Block) :
    mergeFirst (left :: right :: rest) =
      if left.Meets right then left.absorb right :: rest else left :: right :: rest :=
  rfl

/-- Half of the list: the block is linked to what is behind it. -/
def Headers.IsHalf (headers : Headers) (head : Nat) (before : List Block) (ptr : Nat)
    (behind : List Block) : Prop :=
  Ring.Half (fun node => headers node .next) (fun node => headers node .prev) head
    (before.map Block.addr) ptr (behind.map Block.addr)

section Behind

variable {before after : List Block} {block next : Block}

/-- Without a merge the block is linked to what was found. -/
theorem joinNext_links (holds : Holds process heap nodes headers)
    (list : headers.IsList process.head ((before ++ after).map Block.addr))
    (fresh : block.addr ∉ process.head :: (before ++ after).map Block.addr)
    (known : ∀ node ∈ process.head :: (before ++ after).map Block.addr, node ∈ nodes)
    (blockIn : block.addr ∈ nodes) {tmp_p : Nat}
    (isNext : tmp_p = (after.map Block.addr).headD process.head)
    (notMet : adjoins process tmp_p block.addr tmp_p heap = .ok (false, heap)) :
    ∃ heap' headers', joinNext process block.addr tmp_p heap = .ok ((), heap') ∧
      Within nodes heap heap' ∧ Holds process heap' nodes headers' ∧
      headers'.IsHalf process.head before block.addr after ∧
      ∀ node, headers' node .block_size = headers node .block_size := by
  rw [List.map_append] at list fresh known
  have nextIn : tmp_p ∈ process.head :: (before.map Block.addr ++ after.map Block.addr) :=
    isNext ▸ Ring.right_mem _ _ _
  have notBlock : ∀ node ∈ process.head :: (before.map Block.addr ++ after.map Block.addr),
      node ≠ block.addr := by
    rintro node member rfl
    exact fresh member
  obtain ⟨heap₁, ran₁, within₁, holds₁⟩ :=
    holds.store blockIn .next (holds.lt_range (known tmp_p nextIn))
  obtain ⟨heap₂, ran₂, within₂, holds₂⟩ :=
    holds₁.store (known tmp_p nextIn) .prev (holds.lt_range blockIn)
  refine ⟨heap₂, _, ?_, within₂.trans within₁, holds₂, ?_, ?_⟩
  · unfold joinNext
    rw [bind_ok notMet]
    show (store process block.addr .next tmp_p >>= _) heap = _
    rw [bind_ok ran₁]
    exact ran₂
  · apply Ring.half list
    · rw [← isNext]
      constructor
      · simp [Headers.set]
      · simp [Headers.set]
    · intro node member
      simp [Headers.set, notBlock node member]
    · intro node member different
      rw [← isNext] at different
      simp [Headers.set, different]
  · intro node
    simp [Headers.set]

/-- With a merge the block behind leaves the list, and its bytes join the block. -/
theorem joinNext_merges (holds : Holds process heap nodes headers)
    (list : headers.IsList process.head ((before ++ next :: after).map Block.addr))
    (distinct : (process.head :: (before ++ next :: after).map Block.addr).Nodup)
    (fresh : block.addr ∉ process.head :: (before ++ next :: after).map Block.addr)
    (known : ∀ node ∈ process.head :: (before ++ next :: after).map Block.addr, node ∈ nodes)
    (blockIn : block.addr ∈ nodes) (blockSize : headers block.addr .block_size = block.size)
    (nextSize : headers next.addr .block_size = next.size)
    (met : adjoins process next.addr block.addr next.addr heap = .ok (true, heap)) :
    ∃ heap' headers', joinNext process block.addr next.addr heap = .ok ((), heap') ∧
      Within nodes heap heap' ∧ Holds process heap' nodes headers' ∧
      headers'.IsHalf process.head before block.addr after ∧
      headers' block.addr .block_size = (block.absorb next).size ∧
      ∀ node, node ≠ block.addr → headers' node .block_size = headers node .block_size := by
  rw [List.map_append, List.map_cons] at list distinct fresh known
  have nextIn : next.addr ∈ nodes := known _ (by simp)
  have rightIn : headers next.addr .next ∈ nodes := known _ list.next_mem
  have notBlock : ∀ node ∈ process.head :: (before.map Block.addr ++ next.addr ::
      after.map Block.addr), node ≠ block.addr := by
    rintro node member rfl
    exact fresh member
  have nextNotBlock := notBlock next.addr (by simp)
  have rightNotBlock := notBlock _ list.next_mem
  have absent : next.addr ∉ process.head :: (before.map Block.addr ++ after.map Block.addr) := by
    have around : ((process.head :: before.map Block.addr) ++ next.addr ::
      after.map Block.addr).Nodup := distinct
    exact (List.nodup_cons.mp (List.nodup_middle.mp around)).1
  have isRight : headers next.addr .next = (after.map Block.addr).headD process.head :=
    list.at_member.2
  have kept : ∀ node ∈ process.head :: (before.map Block.addr ++ after.map Block.addr),
      node ≠ block.addr := by
    intro node member
    apply notBlock
    exact ((List.sublist_cons_self _ _).append_left _ |>.cons_cons _).subset member
  have sizeLt : (headers block.addr .block_size + (headers next.addr .block_size + WORD_SIZE)) %
      SIZE_RANGE < SIZE_RANGE := Nat.mod_lt _ (by decide)
  obtain ⟨heap₁, ran₁, within₁, holds₁⟩ := holds.store blockIn .next (holds.lt_field nextIn .next)
  have loadSize₁ := holds₁.load nextIn .block_size
  have loadBlock₁ := holds₁.load blockIn .block_size
  obtain ⟨heap₂, ran₂, within₂, holds₂⟩ := holds₁.store blockIn .block_size sizeLt
  have loadNext₂ := holds₂.load nextIn .next
  obtain ⟨heap₃, ran₃, within₃, holds₃⟩ := holds₂.store rightIn .prev (holds.lt_range blockIn)
  simp only [Headers.set, nextNotBlock, false_and, and_false, if_false, reduceCtorEq]
    at loadSize₁ loadBlock₁ loadNext₂
  refine ⟨heap₃, _, ?_, within₃.trans (within₂.trans within₁), holds₃, ?_, ?_, ?_⟩
  · unfold joinNext
    rw [bind_ok met]
    show (load process next.addr .next >>= _) heap = _
    rw [bind_ok (holds.load nextIn .next), bind_ok ran₁, bind_ok loadSize₁, bind_ok loadBlock₁,
      bind_ok ran₂, bind_ok loadNext₂]
    exact ran₃
  · apply Ring.half_replace list absent
    · rw [← isRight]
      constructor
      · simp [Headers.set]
      · simp [Headers.set]
    · intro node member
      simp [Headers.set, kept node member]
    · intro node member different
      rw [← isRight] at different
      simp [Headers.set, different]
  · simp [Headers.set, Block.absorb, blockSize, nextSize]
  · intro node different
    simp [Headers.set, different]

/-- The first step of the insertion, with or without a merge. -/
theorem joinNext_spec (holds : Holds process heap nodes headers)
    (list : headers.IsList process.head ((before ++ after).map Block.addr))
    (distinct : (process.head :: (before ++ after).map Block.addr).Nodup)
    (fresh : block.addr ∉ process.head :: (before ++ after).map Block.addr)
    (known : ∀ node ∈ process.head :: (before ++ after).map Block.addr, node ∈ nodes)
    (blockIn : block.addr ∈ nodes) (blockSize : headers block.addr .block_size = block.size)
    (sizes : ∀ other ∈ after, headers other.addr .block_size = other.size) :
    ∃ heap' headers' merged behind,
      joinNext process block.addr ((after.map Block.addr).headD process.head) heap =
        .ok ((), heap') ∧
      mergeFirst (block :: after) = merged :: behind ∧ merged.addr = block.addr ∧
      behind.Sublist after ∧ Within nodes heap heap' ∧ Holds process heap' nodes headers' ∧
      headers'.IsHalf process.head before block.addr behind ∧
      headers' block.addr .block_size = merged.size ∧
      ∀ node, node ≠ block.addr → headers' node .block_size = headers node .block_size := by
  cases after with
  | nil =>
      obtain ⟨heap', headers', ran, within, holds', half, same⟩ :=
        joinNext_links holds list fresh known blockIn rfl (adjoins_head process heap _ _)
      exact ⟨heap', headers', block, [], ran, rfl, rfl, List.Sublist.refl _, within, holds', half,
        (same _).trans blockSize, fun node _ => same node⟩
  | cons next rest =>
      have notHead : next.addr ≠ process.head := by
        intro isHead
        apply (List.nodup_cons.mp distinct).1
        rw [← isHead]
        exact List.mem_map_of_mem (by simp)
      have test : adjoins process next.addr block.addr next.addr heap =
          .ok (decide (block.Meets next), heap) :=
        adjoins_spec holds notHead blockIn blockSize
      by_cases meets : block.Meets next
      · rw [decide_eq_true meets] at test
        obtain ⟨heap', headers', ran, within, holds', half, newSize, same⟩ :=
          joinNext_merges holds list distinct fresh known blockIn blockSize
            (sizes next List.mem_cons_self) test
        exact ⟨heap', headers', block.absorb next, rest, ran, if_pos meets, rfl,
          List.sublist_cons_self _ _, within, holds', half, newSize, same⟩
      · rw [decide_eq_false meets] at test
        obtain ⟨heap', headers', ran, within, holds', half, same⟩ :=
          joinNext_links holds list fresh known blockIn rfl test
        exact ⟨heap', headers', block, next :: rest, ran, if_neg meets, rfl, List.Sublist.refl _,
          within, holds', half, (same _).trans blockSize, fun node _ => same node⟩

end Behind

/-! ### The block in front -/

section Front

variable {before behind : List Block} {front block : Block}

/-- Without a merge the block is linked to what is in front of it. -/
theorem joinFront_links (holds : Holds process heap nodes headers)
    (half : headers.IsHalf process.head before block.addr behind)
    (distinct : (process.head :: (before ++ behind).map Block.addr).Nodup)
    (fresh : block.addr ∉ process.head :: (before ++ behind).map Block.addr)
    (known : ∀ node ∈ process.head :: (before ++ behind).map Block.addr, node ∈ nodes)
    (blockIn : block.addr ∈ nodes) {tmp_front_p : Nat}
    (isFront : tmp_front_p = (before.map Block.addr).getLastD process.head)
    (notMet : adjoins process tmp_front_p tmp_front_p block.addr heap = .ok (false, heap)) :
    ∃ heap' headers', joinFront process block.addr tmp_front_p heap = .ok ((), heap') ∧
      Within nodes heap heap' ∧ Holds process heap' nodes headers' ∧
      headers'.IsList process.head ((before ++ block :: behind).map Block.addr) ∧
      ∀ node, headers' node .block_size = headers node .block_size := by
  rw [List.map_append] at distinct fresh known
  have frontIn : tmp_front_p ∈ nodes := known _ (isFront ▸ Ring.left_mem _ _ _)
  obtain ⟨heap₁, ran₁, within₁, holds₁⟩ := holds.store blockIn .prev (holds.lt_range frontIn)
  obtain ⟨heap₂, ran₂, within₂, holds₂⟩ := holds₁.store frontIn .next (holds.lt_range blockIn)
  refine ⟨heap₂, _, ?_, within₂.trans within₁, holds₂, ?_, ?_⟩
  · unfold joinFront
    rw [bind_ok notMet]
    show (store process block.addr .prev tmp_front_p >>= _) heap = _
    rw [bind_ok ran₁]
    exact ran₂
  · rw [List.map_append, List.map_cons]
    apply half.close distinct fresh
    · rw [← isFront]
      constructor
      · simp [Headers.set]
      · simp [Headers.set]
    · intro node different
      rw [← isFront] at different
      simp [Headers.set, different]
    · intro node different
      simp [Headers.set, different]
  · intro node
    simp [Headers.set]

/-- Then it is a block of its own, and all sizes stay. -/
theorem joinFront_apart (holds : Holds process heap nodes headers)
    (half : headers.IsHalf process.head before block.addr behind)
    (distinct : (process.head :: (before ++ behind).map Block.addr).Nodup)
    (fresh : block.addr ∉ process.head :: (before ++ behind).map Block.addr)
    (known : ∀ node ∈ process.head :: (before ++ behind).map Block.addr, node ∈ nodes)
    (blockIn : block.addr ∈ nodes) (blockSize : headers block.addr .block_size = block.size)
    (sizes : ∀ other ∈ before ++ behind, headers other.addr .block_size = other.size)
    (notMet : adjoins process ((before.map Block.addr).getLastD process.head)
      ((before.map Block.addr).getLastD process.head) block.addr heap = .ok (false, heap)) :
    ∃ heap' headers',
      joinFront process block.addr ((before.map Block.addr).getLastD process.head) heap =
        .ok ((), heap') ∧
      Within nodes heap heap' ∧ Holds process heap' nodes headers' ∧
      headers'.IsList process.head ((before ++ block :: behind).map Block.addr) ∧
      (∀ other ∈ before ++ block :: behind, headers' other.addr .block_size = other.size) ∧
      ∀ node, headers' node .block_size = headers node .block_size := by
  obtain ⟨heap', headers', ran, within, holds', list, same⟩ :=
    joinFront_links holds half distinct fresh known blockIn rfl notMet
  refine ⟨heap', headers', ran, within, holds', list, ?_, same⟩
  intro other member
  rw [same]
  rcases mem_middle.mp member with rfl | old
  · exact blockSize
  · exact sizes other old

/-- With a merge the bytes of the block join the block in front. -/
theorem joinFront_merges (holds : Holds process heap nodes headers)
    (half : headers.IsHalf process.head (before ++ [front]) block.addr behind)
    (fresh : block.addr ∉ process.head :: (before ++ [front] ++ behind).map Block.addr)
    (known : ∀ node ∈ process.head :: (before ++ [front] ++ behind).map Block.addr, node ∈ nodes)
    (blockIn : block.addr ∈ nodes) (blockSize : headers block.addr .block_size = block.size)
    (frontSize : headers front.addr .block_size = front.size)
    (met : adjoins process front.addr front.addr block.addr heap = .ok (true, heap)) :
    ∃ heap' headers', joinFront process block.addr front.addr heap = .ok ((), heap') ∧
      Within nodes heap heap' ∧ Holds process heap' nodes headers' ∧
      headers'.IsList process.head ((before ++ [front] ++ behind).map Block.addr) ∧
      headers' front.addr .block_size = (front.absorb block).size ∧
      ∀ node, node ≠ front.addr → headers' node .block_size = headers node .block_size := by
  rw [List.map_append] at fresh known
  have frontIn : front.addr ∈ nodes := known _ (by simp)
  have isFront : ((before ++ [front]).map Block.addr).getLastD process.head = front.addr :=
    getLastD_addr before front process.head
  have blockNotFront : block.addr ≠ front.addr := by
    intro same
    apply fresh
    rw [same]
    simp
  have isRight : headers block.addr .next = (behind.map Block.addr).headD process.head := by
    obtain ⟨_, _, -, linked, -⟩ := half
    exact linked.1
  have rightIn : headers block.addr .next ∈ nodes := known _ (isRight ▸ Ring.right_mem _ _ _)
  have sizeLt : (headers front.addr .block_size + (headers block.addr .block_size + WORD_SIZE)) %
      SIZE_RANGE < SIZE_RANGE := Nat.mod_lt _ (by decide)
  obtain ⟨heap₁, ran₁, within₁, holds₁⟩ := holds.store frontIn .block_size sizeLt
  have loadNext₁ := holds₁.load blockIn .next
  obtain ⟨heap₂, ran₂, within₂, holds₂⟩ := holds₁.store frontIn .next (holds.lt_field blockIn .next)
  have loadNext₂ := holds₂.load blockIn .next
  obtain ⟨heap₃, ran₃, within₃, holds₃⟩ := holds₂.store rightIn .prev (holds.lt_range frontIn)
  simp only [Headers.set, blockNotFront, false_and, if_false] at loadNext₁ loadNext₂
  refine ⟨heap₃, _, ?_, within₃.trans (within₂.trans within₁), holds₃, ?_, ?_, ?_⟩
  · unfold joinFront
    rw [bind_ok met]
    show (load process block.addr .block_size >>= _) heap = _
    rw [bind_ok (holds.load blockIn .block_size), bind_ok (holds.load frontIn .block_size),
      bind_ok ran₁, bind_ok loadNext₁, bind_ok ran₂, bind_ok loadNext₂]
    exact ran₃
  · rw [List.map_append]
    apply half.skip
    · rw [isFront, ← isRight]
      constructor
      · simp [Headers.set]
      · simp [Headers.set]
    · intro node different
      rw [isFront] at different
      simp [Headers.set, different]
    · intro node different
      rw [← isRight] at different
      simp [Headers.set, different]
  · simp [Headers.set, Block.absorb, blockSize, frontSize]
  · intro node different
    simp [Headers.set, different]

end Front

/-! ### The insertion -/

/-- Blocks and those behind them, the last of the former merged with the first of the latter
if that is where it ends. -/
def mergeInto (before blocks : List Block) : List Block :=
  match before.getLast? with
  | none => blocks
  | some front => before.dropLast ++ mergeFirst (front :: blocks)

/-- A block put between others and merged with its neighbours where it meets them. -/
def coalesce (before : List Block) (block : Block) (after : List Block) : List Block :=
  mergeInto before (mergeFirst (block :: after))

@[simp] theorem mergeInto_concat (before : List Block) (front : Block) (blocks : List Block) :
    mergeInto (before ++ [front]) blocks = before ++ mergeFirst (front :: blocks) := by
  simp [mergeInto]

/-- There is always a block left. -/
theorem coalesce_ne_nil (before : List Block) (block : Block) (after : List Block) :
    coalesce before block after ≠ [] := by
  have first : ∀ (block : Block) (rest : List Block), mergeFirst (block :: rest) ≠ [] := by
    intro block rest
    cases rest with
    | nil => simp [mergeFirst]
    | cons next rest =>
        rw [mergeFirst_cons_cons]
        split
        · simp
        · simp
  unfold coalesce
  rcases List.eq_nil_or_concat' before with rfl | ⟨start, front, rfl⟩
  · exact first block after
  · rw [mergeInto_concat]
    simp [first]

section Insertion

variable {before behind after : List Block} {block : Block}

/-- The second step of the insertion, with or without a merge. -/
theorem joinFront_spec (holds : Holds process heap nodes headers)
    (half : headers.IsHalf process.head before block.addr behind)
    (distinct : (process.head :: (before ++ behind).map Block.addr).Nodup)
    (fresh : block.addr ∉ process.head :: (before ++ behind).map Block.addr)
    (known : ∀ node ∈ process.head :: (before ++ behind).map Block.addr, node ∈ nodes)
    (blockIn : block.addr ∈ nodes) (blockSize : headers block.addr .block_size = block.size)
    (sizes : ∀ other ∈ before ++ behind, headers other.addr .block_size = other.size) :
    ∃ heap' headers',
      joinFront process block.addr ((before.map Block.addr).getLastD process.head) heap =
        .ok ((), heap') ∧
      Within nodes heap heap' ∧ Holds process heap' nodes headers' ∧
      headers'.IsList process.head ((mergeInto before (block :: behind)).map Block.addr) ∧
      (∀ other ∈ mergeInto before (block :: behind),
        headers' other.addr .block_size = other.size) ∧
      ∀ node, (∀ front ∈ before.getLast?, front.Meets block → node ≠ front.addr) →
        headers' node .block_size = headers node .block_size := by
  have apart := joinFront_apart holds half distinct fresh known blockIn blockSize sizes
  rcases List.eq_nil_or_concat' before with rfl | ⟨first, front, rfl⟩
  · obtain ⟨heap', headers', ran, within, holds', list, sizes', same⟩ :=
      apart (adjoins_head process heap _ _)
    exact ⟨heap', headers', ran, within, holds', list, sizes', fun node _ => same node⟩
  · have isFront : ((first ++ [front]).map Block.addr).getLastD process.head = front.addr :=
      getLastD_addr first front process.head
    have notHead : front.addr ≠ process.head := by
      intro isHead
      apply (List.nodup_cons.mp distinct).1
      rw [← isHead]
      exact List.mem_map_of_mem (by simp)
    have frontSize := sizes front (by simp)
    have test : adjoins process front.addr front.addr block.addr heap =
        .ok (decide (front.Meets block), heap) := adjoins_spec holds notHead
      (known front.addr (List.mem_cons_of_mem _ (List.mem_map_of_mem (by simp)))) frontSize
    rw [isFront] at apart ⊢
    rw [mergeInto_concat]
    by_cases meets : front.Meets block
    · rw [decide_eq_true meets] at test
      obtain ⟨heap', headers', ran, within, holds', list, newSize, same⟩ :=
        joinFront_merges holds half fresh known blockIn blockSize frontSize test
      have merged : mergeFirst (front :: block :: behind) = front.absorb block :: behind :=
        if_pos meets
      have frontFresh : front.addr ∉ (first ++ behind).map Block.addr := by
        rw [List.append_assoc, List.singleton_append, List.map_append, List.map_cons] at distinct
        rw [List.map_append]
        exact (List.nodup_cons.mp (List.nodup_middle.mp (List.nodup_cons.mp distinct).2)).1
      rw [merged]
      refine ⟨heap', headers', ran, within, holds', ?_, ?_, ?_⟩
      · have sameAddrs : (first ++ front.absorb block :: behind).map Block.addr =
            (first ++ [front] ++ behind).map Block.addr := by
          simp [Block.absorb]
        rw [sameAddrs]
        exact list
      · intro other member
        rcases mem_middle.mp member with rfl | old
        · exact newSize
        · rw [same]
          · apply sizes other
            rw [List.append_assoc]
            exact ((List.sublist_append_right [front] behind).append_left first).subset old
          · intro sameAddr
            apply frontFresh
            rw [← sameAddr]
            exact List.mem_map_of_mem old
      · intro node notFront
        exact same node (notFront front (by simp) meets)
    · rw [decide_eq_false meets] at test
      have kept : mergeFirst (front :: block :: behind) = front :: block :: behind := if_neg meets
      obtain ⟨heap', headers', ran, within, holds', list, sizes', same⟩ := apart test
      rw [kept]
      rw [List.append_assoc, List.singleton_append] at list sizes'
      exact ⟨heap', headers', ran, within, holds', list, sizes', fun node _ => same node⟩

/-- The insertion puts the block in its place and merges it with the neighbours it meets. -/
theorem insertBlock_spec {fuel : Nat} (holds : Holds process heap nodes headers)
    (list : headers.IsList process.head ((before ++ after).map Block.addr))
    (distinct : (process.head :: (before ++ after).map Block.addr).Nodup)
    (fresh : block.addr ∉ process.head :: (before ++ after).map Block.addr)
    (known : ∀ node ∈ process.head :: (before ++ after).map Block.addr, node ∈ nodes)
    (blockIn : block.addr ∈ nodes) (blockSize : headers block.addr .block_size = block.size)
    (sizes : ∀ other ∈ before ++ after, headers other.addr .block_size = other.size)
    (below : ∀ other ∈ before, other.addr ≤ block.addr)
    (above : ∀ other ∈ after, block.addr < other.addr) (enough : before.length < fuel) :
    ∃ heap' headers', insertBlock process fuel block.addr heap = .ok ((), heap') ∧
      Within nodes heap heap' ∧ Holds process heap' nodes headers' ∧
      headers'.IsList process.head ((coalesce before block after).map Block.addr) ∧
      (∀ other ∈ coalesce before block after, headers' other.addr .block_size = other.size) ∧
      ∀ node, node ≠ block.addr →
        (∀ front ∈ before.getLast?, front.Meets block → node ≠ front.addr) →
        headers' node .block_size = headers node .block_size := by
  have cut : headers.IsList process.head (before.map Block.addr ++ after.map Block.addr) := by
    rwa [← List.map_append]
  have whole : headers.IsList process.head
      ([] ++ (before.map Block.addr ++ after.map Block.addr)) := cut
  have first : headers process.head .next =
      (before.map Block.addr ++ after.map Block.addr).headD process.head := whole.next_left
  have found : findPosition process block.addr fuel
      ((before.map Block.addr ++ after.map Block.addr).headD process.head) heap =
        .ok ((after.map Block.addr).headD process.head, heap) := by
    apply findPosition_spec holds whole
    · intro node member
      rw [← List.map_append] at member
      refine ⟨known node (List.mem_cons_of_mem _ member), ?_⟩
      rintro rfl
      exact (List.nodup_cons.mp distinct).1 member
    · intro node member
      obtain ⟨other, otherIn, rfl⟩ := List.mem_map.mp member
      exact below other otherIn
    · intro node member
      obtain ⟨other, otherIn, rfl⟩ := List.mem_map.mp member
      exact above other otherIn
    · rwa [List.length_map]
  have nextIn : (after.map Block.addr).headD process.head ∈ nodes := by
    apply known
    rw [List.map_append]
    exact Ring.right_mem _ _ _
  obtain ⟨heap₁, headers₁, merged, behind, ran₁, isMerged, sameAddr, kept, within₁, holds₁, half,
    mergedSize, same₁⟩ := joinNext_spec holds list distinct fresh known blockIn blockSize
      fun other member => sizes other (List.mem_append_right _ member)
  have keptNodes := ((kept.append_left before).map Block.addr).cons_cons process.head
  rw [← sameAddr] at half fresh blockIn mergedSize
  have sizes₁ : ∀ other ∈ before ++ behind, headers₁ other.addr .block_size = other.size := by
    intro other member
    have old := (kept.append_left before).subset member
    rw [same₁, sizes other old]
    intro isBlock
    apply fresh
    rw [sameAddr, ← isBlock]
    exact List.mem_cons_of_mem _ (List.mem_map_of_mem old)
  obtain ⟨heap₂, headers₂, ran₂, within₂, holds₂, list₂, sizes₂, same₂⟩ :=
    joinFront_spec holds₁ half (distinct.sublist keptNodes)
      (fun member => fresh (keptNodes.subset member))
      (fun node member => known node (keptNodes.subset member)) blockIn mergedSize sizes₁
  rw [sameAddr] at ran₂
  refine ⟨heap₂, headers₂, ?_, within₂.trans within₁, holds₂, ?_, ?_, ?_⟩
  · unfold insertBlock
    rw [bind_ok (holds.load (known _ List.mem_cons_self) .next), first, bind_ok found,
      bind_ok (holds.load nextIn .prev), cut.prev_right, bind_ok ran₁]
    exact ran₂
  · rw [coalesce, isMerged]
    exact list₂
  · rw [coalesce, isMerged]
    exact sizes₂
  · intro node notBlock notFront
    rw [same₂ node, same₁ node notBlock]
    intro front isFront meets
    apply notFront front isFront
    rw [Block.Meets, sameAddr] at meets
    exact meets

end Insertion

end Free

end LinuxProgramming.Allocator
