import LinuxProgramming.Allocator.Contents
import LinuxProgramming.Allocator.Extending
import LinuxProgramming.Allocator.SmallRequests
import LinuxProgramming.Library.TransitionSystem

/-!
Contract: whole runs of a program that uses `my_malloc` and `my_free` and stores bytes in the
blocks it has been given.

Owns:
- `Session`, the actions of such a program, and which of them are allowed;
- the frame of each call: the bytes of the other live blocks;
- the heap in every reachable session.

Does not own: stores into the size word of a block, which the returned pointer points to.
-/

namespace LinuxProgramming.Allocator

open LinuxProgramming.Library

/-- The heap, the blocks in use, and what the program has last stored at each address since
the block there was handed out. -/
structure Session where
  heap : Heap
  live : List Block
  stored : Nat → Option UInt8

/-- What the program does next; `fuel` bounds the search of a call. -/
inductive Action where
  | malloc (fuel size : Nat)
  | free (fuel : Nat) (block : Block)
  | store (block : Block) (index : Nat) (value : UInt8)

/-- The program forgets what it has stored in a block. -/
def forget (block : Block) (stored : Nat → Option UInt8) : Nat → Option UInt8 := fun place =>
  if block.addr ≤ place ∧ place < block.stop then none else stored place

/-- A byte at `index` behind the pointer to a block. -/
def storeByte (block : Block) (index : Nat) (value : UInt8) (heap : Heap) : Heap :=
  storeBytes (block.addr + index) 1 (fun _ => value) heap

section Sessions

variable (process : Process)

/-- One action; `none` where a call does not return. -/
def act : Action → Session → Option Session
  | .malloc fuel size, session =>
      match myMalloc process fuel size session.heap with
      | .ok (ptr, heap) =>
          some { session with
            heap := heap
            live := ⟨ptr, headersOf heap.memory ptr .block_size⟩ :: session.live }
      | .error _ => none
  | .free fuel block, session =>
      match myFree process fuel block.addr session.heap with
      | .ok (_, heap) =>
          some ⟨heap, session.live.erase block, forget block session.stored⟩
      | .error _ => none
  | .store block index value, session =>
      some { session with
        heap := storeByte block index value session.heap
        stored := Function.update session.stored (block.addr + index) (some value) }

/-- The request is one that is served, the block given back is in use and leaves nothing to
trim, the byte stored lies in a block in use and behind its size word. -/
def Allowed : Action → Session → Prop
  | .malloc fuel size, session => ∃ free, WalksThrough process session.heap.memory free ∧
      Served process session.heap free size ∧ free.length < fuel
  | .free fuel block, session => block ∈ session.live ∧
      ∃ free, WalksThrough process session.heap.memory free ∧
        NothingToTrim session.heap free block ∧ free.length < fuel
  | .store block index _, session => block ∈ session.live ∧ WORD_SIZE ≤ index ∧
      index < WORD_SIZE + block.size

/-- A program that has not stored anything yet, on a well-formed heap. -/
def Started (session : Session) : Prop :=
  (∃ free, WellFormed process session.heap free session.live) ∧
    session.stored = fun _ => none

/-- All runs whose actions are allowed. -/
def sessions : TransitionSystem Session :=
  labelledWhen (Started process) (act process) (Allowed process)

/-- The heap is well formed, and every byte is what the program has last stored there. -/
structure Consistent (session : Session) : Prop where
  wellFormed : ∃ free, WellFormed process session.heap free session.live
  kept : ∀ place value, session.stored place = some value →
    session.heap.memory place = value ∧
      ∃ block ∈ session.live, block.addr + WORD_SIZE ≤ place ∧ place < block.stop

end Sessions

/-! ### The bytes of the other blocks -/

section Frame

variable {process : Process} {heap heap' : Heap} {free free' live others : List Block}
  {chosen block used : Block} {size fuel taken place : Nat}

/-- The order of the live blocks does not matter. -/
theorem WellFormed.reorder (wellFormed : WellFormed process heap free live)
    (same : live.Perm others) : WellFormed process heap free others := by
  have all := same.append_left free
  exact {
    bottomBelow := wellFormed.bottomBelow
    brkFits := wellFormed.brkFits
    inside := fun block member => wellFormed.inside block (all.mem_iff.mpr member)
    large := fun block member => wellFormed.large block (all.mem_iff.mpr member)
    disjoint := (all.pairwise_iff Or.symm).mp wellFormed.disjoint
    sorted := wellFormed.sorted
    freeList := wellFormed.freeList
    liveSizes := fun block member => wellFormed.liveSizes block (same.mem_iff.mpr member)
    headSize := wellFormed.headSize }

/-- A live block is apart from every free one. -/
theorem WellFormed.live_apart (wellFormed : WellFormed process heap free live)
    (isFree : block ∈ free) (isLive : used ∈ live) : block.Disjoint used :=
  (List.pairwise_append.mp wellFormed.disjoint).2.2 block isFree used isLive

/-- No byte of a block in use is one that serving a request may change. -/
theorem not_writable (wellFormed : WellFormed process heap free live)
    (isChosen : IsChosen heap free size chosen)
    (after_ : WellFormed process heap' free' (⟨chosen.addr, taken⟩ :: live))
    (isLive : used ∈ live) (from_ : used.addr ≤ place) (below : place < used.stop) :
    place ∉ Writable process free chosen := by
  have headBelow := process.headBelow
  have bottom := (wellFormed.inside used (List.mem_append_right _ isLive)).1
  have usedLarge := wellFormed.large used (List.mem_append_right _ isLive)
  have takenLarge := after_.large ⟨chosen.addr, taken⟩ (by simp)
  have takenApart : Block.Disjoint ⟨chosen.addr, taken⟩ used :=
    (List.pairwise_cons.mp (List.pairwise_append.mp after_.disjoint).2.1).1 used isLive
  have different : used.addr ≠ chosen.addr := by
    simp only [Block.Disjoint, Block.stop, MIN_SIZE, MSG_SIZE, WORD_SIZE] at *
    omega
  have chosenApart := isChosen.disjoint wellFormed (List.mem_append_right _ isLive) different
  rintro (inside | ⟨node, member, links⟩ | ⟨front, isFree, -, word⟩)
  · omega
  · rcases List.mem_cons.mp member with rfl | isBlock
    · omega
    · obtain ⟨block, isFree, rfl⟩ := List.mem_map.mp isBlock
      have apart := wellFormed.live_apart isFree isLive
      have large := wellFormed.large block (List.mem_append_left _ isFree)
      simp only [Block.Disjoint, Block.stop, MIN_SIZE, MSG_SIZE, WORD_SIZE] at *
      omega
  · have apart := wellFormed.live_apart isFree isLive
    simp only [Block.Disjoint, Block.stop, WORD_SIZE] at *
    omega

/-- Giving a block back where nothing is to be trimmed. -/
theorem myFree_keeps (wellFormed : WellFormed process heap free (block :: live))
    (enough : free.length < fuel) (nothing : NothingToTrim heap free block) :
    ∃ heap' free', myFree process fuel block.addr heap = .ok ((), heap') ∧
      WellFormed process heap' free' live ∧
      ∀ used ∈ live, ∀ place, used.addr ≤ place → place < used.stop →
        heap'.memory place = heap.memory place := by
  obtain ⟨before, after, rfl, below, above⟩ := exists_place wellFormed.sorted block.addr
  have placed := wellFormed.placed_inserted
  have shorter : before.length < fuel := by
    rw [List.length_append] at enough
    omega
  obtain ⟨heap₁, ran₁, within₁, wellFormed₁, -⟩ :=
    insertBlock_wellFormed wellFormed below above shorter
  obtain ⟨brk, trims⟩ := trimBreak_keeps wellFormed₁ (coalesce_ne_nil before _ after)
  have ran : myFree process fuel block.addr heap = .ok ((), { heap₁ with brk := brk }) := by
    unfold myFree
    rw [bind_ok ran₁, trims]
  obtain ⟨heap₂, first, last, ran₂, sameBrk, wellFormed₂, members⟩ :=
    myFree_spec wellFormed enough
  -- the break is where it was
  have unchanged : trimmed process heap.brk last = heap₂.brk := by
    rw [← sameBrk, trimmed_eq wellFormed₂]
    by_cases stops : last.stop = heap₂.brk
    · have small := nothing last ((members last).mp (by simp)) (stops.trans sameBrk)
      rw [if_pos stops, Nat.div_eq_of_lt small, Nat.zero_mul, Nat.sub_zero]
    · exact if_neg stops
  rw [unchanged] at ran₂
  have results := Except.ok.inj (ran.symm.trans ran₂)
  have same : heap₁.memory = heap₂.memory := congrArg (fun result => result.2.memory) results
  refine ⟨heap₂, first ++ [last], ran₂, wellFormed₂, ?_⟩
  intro used isLive place from_ inside
  have apart : ∀ other ∈ before ++ block :: after,
      used.stop ≤ other.addr ∨ other.addr + MSG_SIZE ≤ used.addr :=
    fun other otherIn => placed.header_apart other otherIn used isLive
  have low := (placed.inside used (List.mem_append_right _ isLive)).1
  rw [← same]
  exact within₁.bytes_of_disjoint low apart from_ inside

/-- A byte behind the size word of a block in use. -/
theorem WellFormed.storeByte (wellFormed : WellFormed process heap free (block :: live))
    {index : Nat} (behind : WORD_SIZE ≤ index) (inside : index < WORD_SIZE + block.size)
    (value : UInt8) :
    WellFormed process (storeByte block index value heap) free (block :: live) := by
  have outside : ∀ place, place < block.addr ∨ block.stop ≤ place →
      (Allocator.storeByte block index value heap).memory place = heap.memory place := by
    intro place apart
    refine if_neg fun stored => ?_
    simp only [Block.stop, WORD_SIZE] at apart inside stored
    omega
  have others : WellFormed process (Allocator.storeByte block index value heap) free live :=
    wellFormed.change_inside rfl outside
  have sizeSame : headersOf (Allocator.storeByte block index value heap).memory block.addr
      .block_size = headersOf heap.memory block.addr .block_size := by
    have limitFits := process.limitFits
    have brkFits := wellFormed.brkFits
    have high := (wellFormed.inside block (by simp)).2
    unfold headersOf
    rw [addrOf_block_size (by simp only [Block.stop, SIZE_RANGE, WORD_SIZE] at *; omega)]
    apply ByteMemory.read_congr
    intro place from_ below
    refine if_neg fun stored => ?_
    omega
  exact {
    bottomBelow := wellFormed.bottomBelow
    brkFits := wellFormed.brkFits
    inside := wellFormed.inside
    large := wellFormed.large
    disjoint := wellFormed.disjoint
    sorted := wellFormed.sorted
    freeList := others.freeList
    liveSizes := by
      intro used member
      rcases List.mem_cons.mp member with rfl | isLive
      · exact sizeSame.trans (wellFormed.liveSizes used List.mem_cons_self)
      · exact others.liveSizes used isLive
    headSize := others.headSize }

end Frame

/-! ### Runs -/

section Runs

variable {process : Process} {session : Session} {fuel size index : Nat} {block : Block}

/-- A request that is served gets a block apart from those in use, and no byte that the
program has stored changes. -/
theorem malloc_sound (consistent : Consistent process session)
    (allowed : Allowed process (.malloc fuel size) session) :
    ∃ after, act process (.malloc fuel size) session = some after ∧ Consistent process after ∧
      ∃ given, after.live = given :: session.live ∧ size ≤ given.size ∧
        ∀ other ∈ session.live, given.Disjoint other := by
  obtain ⟨free, wellFormed⟩ := consistent.wellFormed
  obtain ⟨listed, walks, served, enough⟩ := allowed
  obtain rfl := walks.unique wellFormed.walksThrough
  obtain ⟨chosen, heap', free', taken, ran, isChosen, room, wellFormed', handed⟩ :=
    myMalloc_serves wellFormed served enough
  have word : headersOf heap'.memory chosen.addr .block_size = taken :=
    wellFormed'.liveSizes ⟨chosen.addr, taken⟩ List.mem_cons_self
  have apart := (List.pairwise_cons.mp (List.pairwise_append.mp wellFormed'.disjoint).2.1).1
  refine ⟨⟨heap', ⟨chosen.addr, taken⟩ :: session.live, session.stored⟩, ?_, ⟨⟨free', wellFormed'⟩,
    ?_⟩, ⟨chosen.addr, taken⟩, rfl, room, apart⟩
  · rw [act, ran]
    dsimp only
    rw [word]
  · intro place value isStored
    obtain ⟨same, used, isLive, from_, below⟩ := consistent.kept place value isStored
    have outside := not_writable wellFormed isChosen wellFormed' isLive (by omega) below
    exact ⟨(handed.changes place outside).trans same, used, List.mem_cons_of_mem _ isLive, from_,
      below⟩

/-- A block that is given back takes nothing from the others. -/
theorem free_sound (consistent : Consistent process session)
    (allowed : Allowed process (.free fuel block) session) :
    ∃ after, act process (.free fuel block) session = some after ∧ Consistent process after := by
  obtain ⟨free, wellFormed⟩ := consistent.wellFormed
  obtain ⟨isLive, listed, walks, nothing, enough⟩ := allowed
  obtain rfl := walks.unique wellFormed.walksThrough
  have front := wellFormed.reorder (List.perm_cons_erase isLive)
  obtain ⟨heap', free', ran, wellFormed', bytes⟩ := myFree_keeps front enough nothing
  refine ⟨⟨heap', session.live.erase block, forget block session.stored⟩, ?_, ⟨free', wellFormed'⟩,
    ?_⟩
  · rw [act, ran]
  · intro place value isStored
    change forget block session.stored place = some value at isStored
    have notForgotten : ¬ (block.addr ≤ place ∧ place < block.stop) := by
      intro inside
      rw [forget, if_pos inside] at isStored
      cases isStored
    rw [forget, if_neg notForgotten] at isStored
    obtain ⟨same, used, usedLive, from_, below⟩ := consistent.kept place value isStored
    have other : used ≠ block := by
      rintro rfl
      exact notForgotten ⟨by omega, below⟩
    have kept := (List.mem_erase_of_ne other).mpr usedLive
    exact ⟨(bytes used kept place (by omega) below).trans same, used, kept, from_, below⟩

/-- A byte that is stored stays until the block is given back, and disturbs no other. -/
theorem store_sound {value : UInt8} (consistent : Consistent process session)
    (allowed : Allowed process (.store block index value) session) :
    ∃ after, act process (.store block index value) session = some after ∧
      Consistent process after := by
  obtain ⟨free, wellFormed⟩ := consistent.wellFormed
  obtain ⟨isLive, behind, inside⟩ := allowed
  have front := wellFormed.reorder (List.perm_cons_erase isLive)
  have stored := (front.storeByte behind inside value).reorder (List.perm_cons_erase isLive).symm
  refine ⟨_, rfl, ⟨free, stored⟩, ?_⟩
  intro place other isStored
  dsimp only at isStored ⊢
  by_cases here : place = block.addr + index
  · subst here
    rw [Function.update_self] at isStored
    cases isStored
    refine ⟨if_pos ⟨Nat.le_refl _, Nat.lt_succ_self _⟩, block, isLive, by omega, ?_⟩
    rw [Block.stop]
    omega
  · rw [Function.update_of_ne here] at isStored
    obtain ⟨same, rest⟩ := consistent.kept place other isStored
    refine ⟨(if_neg ?_).trans same, rest⟩
    omega

/-- What is allowed succeeds and leaves a consistent session. -/
theorem act_sound (consistent : Consistent process session) {action : Action}
    (allowed : Allowed process action session) :
    ∃ after, act process action session = some after ∧ Consistent process after := by
  cases action with
  | malloc fuel size =>
      obtain ⟨after, acted, consistent', -⟩ := malloc_sound consistent allowed
      exact ⟨after, acted, consistent'⟩
  | free fuel block => exact free_sound consistent allowed
  | store block index value => exact store_sound consistent allowed

theorem sessions_inductive (process : Process) :
    (sessions process).Inductive (Consistent process) where
  init := by
    rintro session ⟨wellFormed, nothing⟩
    refine ⟨wellFormed, fun place value isStored => ?_⟩
    rw [nothing] at isStored
    cases isStored
  step := by
    rintro before after consistent ⟨action, allowed, acted⟩
    obtain ⟨next, acted', consistent'⟩ := act_sound consistent allowed
    cases acted.symm.trans acted'
    exact consistent'

end Runs

/-- The start on a fresh heap. -/
def freshSession : Session := ⟨freshHeap, [], fun _ => none⟩

theorem freshSession_started : Started smallProcess freshSession :=
  ⟨⟨[], freshHeap_wellFormed⟩, rfl⟩

theorem freshSession_allows : Allowed smallProcess (.malloc 1 100) freshSession :=
  ⟨[], freshHeap_wellFormed.walksThrough,
    .extended (by decide) (by decide) ⟨by decide, by decide, by decide, by decide⟩, by decide⟩

end LinuxProgramming.Allocator
