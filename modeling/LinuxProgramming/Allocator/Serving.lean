import LinuxProgramming.Allocator.FirstFit
import LinuxProgramming.Allocator.Trimming

/-!
Contract: the requests that `my_malloc` serves, from the list or by extending the heap.

Owns:
- `Served`, which requests these are;
- the heap afterwards, and which bytes have changed;
- the bytes that `my_free` changes when the block is given back.

Does not own: requests whose split overwrites the header in use, or growth that goes wrong.
-/

namespace LinuxProgramming.Allocator

open LinuxProgramming.Library

/-- The request is served by the first free block that is large enough, where it can hold the
header of a block or leaves no room for another one, or by growth under `GrowthFits`. -/
inductive Served (process : Process) (heap : Heap) (free : List Block) (size : Nat) : Prop
  | found (before : List Block) (block : Block) (after : List Block)
      (whole : free = before ++ block :: after) (fits : size ≤ block.size)
      (small : ∀ other ∈ before, other.size < size)
      (safe : MIN_SIZE ≤ size ∨ block.size < size + MSG_SIZE)
  | extended (noneFits : ∀ block ∈ free, block.size < size)
      (raised : heap.brk + amount size ≤ process.limit) (fits : GrowthFits process heap free size)

/-- The block a request is taken from: a free one, or what growth makes of the end of the
heap. -/
def IsChosen (heap : Heap) (free : List Block) (size : Nat) (chosen : Block) : Prop :=
  chosen ∈ free ∨ IsGrown heap free size chosen

section Serving

variable {process : Process} {heap heap' : Heap} {free free' live : List Block}
  {chosen : Block} {size fuel taken : Nat}

theorem Handed.mono {kept : List Block} (handed : Handed process heap heap' kept free' chosen taken)
    (fewer : kept.Sublist free) : Handed process heap heap' free free' chosen taken where
  inside := handed.inside
  members other member := (handed.members other member).imp_left fun old => fewer.subset old
  length := handed.length.trans (Nat.succ_le_succ fewer.length_le)
  changes := handed.changes.mono (Writable.mono fun _ old => fewer.subset old)

/-- A request that is served gets the start of the chosen block, which is live from then on. -/
theorem myMalloc_serves (wellFormed : WellFormed process heap free live)
    (served : Served process heap free size) (enough : free.length < fuel) :
    ∃ chosen heap' free' taken, myMalloc process fuel size heap = .ok (chosen.addr, heap') ∧
      IsChosen heap free size chosen ∧ size ≤ taken ∧
      WellFormed process heap' free' (⟨chosen.addr, taken⟩ :: live) ∧
      Handed process heap heap' free free' chosen taken := by
  cases served with
  | found before block after whole fits small safe =>
      subst whole
      have shorter : before.length < fuel := by
        rw [List.length_append] at enough
        omega
      obtain ⟨heap', free', taken, ran, -, enough_, wellFormed', handed⟩ :=
        takeBlock_live wellFormed fits safe
      refine ⟨block, heap', free', taken, ?_, Or.inl (by simp), enough_, wellFormed',
        handed.mono ((List.sublist_cons_self block after).append_left before)⟩
      rw [myMalloc_finds wellFormed fits small shorter]
      exact ran
  | extended noneFits raised fits =>
      obtain ⟨chosen, heap', free', taken, kept, ran, -, isGrown, -, enough_, wellFormed', fewer,
        handed⟩ := myMalloc_grown wellFormed noneFits raised enough fits
      exact ⟨chosen, heap', free', taken, ran, Or.inr isGrown, enough_, wellFormed',
        handed.mono fewer⟩

/-- Giving the block back changes the same places only. -/
theorem myFree_changes (wellFormed : WellFormed process heap' free' (⟨chosen.addr, taken⟩ :: live))
    (handed : Handed process heap heap' free free' chosen taken) (enough : free'.length < fuel) :
    ∃ heap'', myFree process fuel chosen.addr heap' = .ok ((), heap'') ∧
      ChangesOnly (Writable process free chosen) heap' heap'' := by
  obtain ⟨before, after, rfl, below, above⟩ := exists_place wellFormed.sorted chosen.addr
  have placed := wellFormed.placed_inserted
  have shorter : before.length < fuel := by
    rw [List.length_append] at enough
    omega
  obtain ⟨heap₁, ran₁, within₁, wellFormed₁, sizes₁⟩ :=
    insertBlock_wellFormed wellFormed below above shorter
  obtain ⟨brk, trims⟩ := trimBreak_keeps wellFormed₁ (coalesce_ne_nil before _ after)
  have holds := wellFormed.holds_some (fun _ => placed.of_append.start_inside)
    placed.of_append.apart
  have distinct := (List.nodup_cons.mp wellFormed.nodup).2
  have large := wellFormed.large ⟨chosen.addr, taken⟩ (by simp)
  have header : chosen.addr + MSG_SIZE ≤ chosen.stop := by
    have inside := handed.inside
    simp only [MIN_SIZE, MSG_SIZE, WORD_SIZE, Block.stop] at large ⊢
    omega
  have changes : ChangesOnly (Writable process free chosen) heap' heap₁ := by
    apply within₁.changesOnly (fun _ => holds.lt_range)
      (wellFormed₁.headSize.trans wellFormed.headSize.symm)
    intro other member
    rcases mem_middle.mp member with rfl | old
    · exact Or.inl ⟨Nat.le_refl _, header⟩
    · rcases handed.members other old with isFree | ⟨low, high⟩
      · refine Or.inr ⟨other, isFree, rfl, ?_⟩
        by_cases touches : other.Touches chosen
        · exact Or.inl touches
        · right
          have otherNode := mem_nodesOf process _ _ (List.mem_cons_of_mem _
            (List.mem_map_of_mem member))
          apply sizes₁ _ otherNode
          · intro same
            have fresh := (List.nodup_cons.mp placed.of_append.nodup).2
            rw [List.map_append, List.map_cons] at fresh
            apply (List.nodup_cons.mp (List.nodup_middle.mp fresh)).1
            rw [← same, ← List.map_append]
            exact List.mem_map_of_mem old
          · rintro front isFront frontTouches same
            have frontIn := List.mem_append_left after (List.mem_of_mem_getLast? isFront)
            have isOther := List.inj_on_of_nodup_map distinct old frontIn same
            exact touches (isOther ▸ frontTouches)
      · left
        have otherLarge := wellFormed.large other (List.mem_append_left _ old)
        simp only [MIN_SIZE, MSG_SIZE, WORD_SIZE, Block.stop] at otherLarge high ⊢
        omega
  refine ⟨{ heap₁ with brk := brk }, ?_, changes⟩
  unfold myFree
  rw [bind_ok ran₁, trims]

end Serving

end LinuxProgramming.Allocator
