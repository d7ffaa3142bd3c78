import Mathlib.Data.List.Nodup

/-!
Contract: parts of a whole of which something is taken, over any type of items.

Owns:
- what is taken from the parts one after the other;
- when that is a first part of the whole: nothing may be taken behind a gap.

Does not own: why less than a whole part is taken.
-/

namespace LinuxProgramming.Library.Gather

universe u

variable {α : Type u}

/-- A part, and how many items are taken from its start. -/
structure Share (α : Type u) where
  part : List α
  count : Nat

def Share.taken (share : Share α) : List α := share.part.take share.count

/-- All items of the part are taken. -/
def Share.Complete (share : Share α) : Prop := share.part.length ≤ share.count

theorem Share.taken_complete {share : Share α} (complete : share.Complete) :
    share.taken = share.part :=
  List.take_of_length_le complete

theorem Share.taken_eq_nil_iff {share : Share α} :
    share.taken = [] ↔ share.part.length = 0 ∨ share.count = 0 := by
  rw [taken, List.take_eq_nil_iff, List.length_eq_zero_iff, or_comm]

def whole (shares : List (Share α)) : List α := shares.flatMap Share.part

def taken (shares : List (Share α)) : List α := shares.flatMap Share.taken

/-- Nothing is taken from a part behind one that is not complete. -/
def NoGap (shares : List (Share α)) : Prop :=
  shares.Pairwise fun first second => first.Complete ∨ second.taken = []

theorem mem_whole_of_mem_taken {shares : List (Share α)} {item : α}
    (member : item ∈ taken shares) : item ∈ whole shares := by
  obtain ⟨share, isShare, isTaken⟩ := List.mem_flatMap.mp member
  exact List.mem_flatMap.mpr ⟨share, isShare, List.mem_of_mem_take isTaken⟩

/-- The sizes alone decide whether there is a gap. -/
theorem noGap_iff_sizes (shares : List (Share α)) :
    NoGap shares ↔ (shares.map fun share => (share.part.length, share.count)).Pairwise
      fun first second => first.1 ≤ first.2 ∨ second.1 = 0 ∨ second.2 = 0 := by
  rw [List.pairwise_map, NoGap]
  simp only [Share.Complete, Share.taken_eq_nil_iff]

/-- An item from behind a part that is not complete does not continue what is taken of it. -/
theorem not_prefix_behind_gap {part rest items : List α} {item : α} {count : Nat}
    (inside : count < part.length) (foreign : item ∉ part) :
    ¬ part.take count ++ item :: items <+: part ++ rest := by
  rintro ⟨tail, same⟩
  have split : part = part.take count ++ part[count] :: part.drop (count + 1) := by
    rw [← List.drop_eq_getElem_cons inside, List.take_append_drop]
  have behind : part.take count ++ (item :: items ++ tail) =
      part.take count ++ (part[count] :: part.drop (count + 1) ++ rest) := by
    rw [← List.append_assoc, same, ← List.append_assoc, ← split]
  have sameItem := (List.cons.inj (List.append_cancel_left behind)).1
  exact foreign (sameItem ▸ List.getElem_mem inside)

/-- Distinct items are taken from the start of the whole if and only if there is no gap. -/
theorem taken_prefix_iff {shares : List (Share α)} (distinct : (whole shares).Nodup) :
    taken shares <+: whole shares ↔ NoGap shares := by
  induction shares with
  | nil => simp [taken, whole, NoGap]
  | cons share rest inductionHypothesis =>
      have takenCons : taken (share :: rest) = share.taken ++ taken rest := List.flatMap_cons
      have wholeCons : whole (share :: rest) = share.part ++ whole rest := List.flatMap_cons
      rw [wholeCons, List.nodup_append] at distinct
      obtain ⟨_, distinctRest, apart⟩ := distinct
      rw [takenCons, wholeCons, NoGap, List.pairwise_cons]
      by_cases complete : share.Complete
      · rw [Share.taken_complete complete, List.prefix_append_right_inj,
          inductionHypothesis distinctRest]
        exact (and_iff_right fun _ _ => Or.inl complete).symm
      · cases takenRest : taken rest with
        | nil =>
            have nothing : ∀ other ∈ rest, other.taken = [] := List.flatMap_eq_nil_iff.mp takenRest
            rw [List.append_nil]
            refine iff_of_true ?_ ⟨fun other member => Or.inr (nothing other member), ?_⟩
            · exact (List.take_prefix _ _).trans (List.prefix_append _ _)
            · refine List.pairwise_of_forall_mem_list fun first _ second member => ?_
              exact Or.inr (nothing second member)
        | cons item items =>
            have inRest : item ∈ whole rest :=
              mem_whole_of_mem_taken (takenRest ▸ List.mem_cons_self)
            refine iff_of_false ?_ ?_
            · exact not_prefix_behind_gap (Nat.lt_of_not_le complete)
                fun inPart => apart item inPart item inRest rfl
            · intro noGap
              have nothing : taken rest = [] := List.flatMap_eq_nil_iff.mpr fun other member =>
                (noGap.1 other member).resolve_left complete
              rw [takenRest] at nothing
              cases nothing

end LinuxProgramming.Library.Gather
