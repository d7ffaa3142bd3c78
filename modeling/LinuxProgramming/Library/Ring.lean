import Mathlib.Data.List.Chain

/-!
Contract: circular doubly linked lists through a head, over any type of nodes.

Owns:
- `Ring`: following `next` from the head leads through the members and back, and
  `prev` the other way;
- what the neighbours of a member are, and that the links determine the members;
- linking a node in and unlinking one, by the links that change;
- linking a node in from behind, in two steps.

Does not own: where the links are stored.
-/

namespace LinuxProgramming.Library

universe u

variable {α : Type u}

/-- `next` leads from one node to the other, and `prev` back. -/
def Linked (next prev : α → α) (left right : α) : Prop :=
  next left = right ∧ prev right = left

/-- The members of the list behind `head`, in order. -/
def Ring (next prev : α → α) (head : α) (members : List α) : Prop :=
  (head :: members ++ [head]).IsChain (Linked next prev)

namespace Ring

variable {next prev next' prev' : α → α} {head member : α} {before after : List α}

/-- What comes after a cut, up to the head. -/
theorem head?_behind (head : α) (after : List α) :
    (after ++ [head]).head? = some (after.headD head) := by
  cases after with
  | nil => rfl
  | cons first rest => rfl

/-- A ring is cut between any two neighbours. -/
theorem cut_iff :
    Ring next prev head (before ++ after) ↔
      (head :: before).IsChain (Linked next prev) ∧
      (after ++ [head]).IsChain (Linked next prev) ∧
      Linked next prev (before.getLastD head) (after.headD head) := by
  unfold Ring
  rw [← List.cons_append, List.append_assoc, List.isChain_append]
  have left : (head :: before).getLast? = some (before.getLastD head) :=
    (List.getLast?_cons).trans (congrArg some List.getLastD_eq_getLast?.symm)
  rw [left, head?_behind]
  simp only [Option.mem_some_iff, forall_eq']

theorem next_left (ring : Ring next prev head (before ++ after)) :
    next (before.getLastD head) = after.headD head :=
  (cut_iff.mp ring).2.2.1

theorem prev_right (ring : Ring next prev head (before ++ after)) :
    prev (after.headD head) = before.getLastD head :=
  (cut_iff.mp ring).2.2.2

/-- The neighbours of a member. -/
theorem at_member (ring : Ring next prev head (before ++ member :: after)) :
    prev member = before.getLastD head ∧ next member = after.headD head := by
  constructor
  · exact ring.prev_right
  · rw [List.append_cons] at ring
    have found := ring.next_left
    rwa [List.getLastD_concat] at found

/-- The links determine the members. -/
theorem unique {members others : List α} (ring : Ring next prev head members)
    (other : Ring next prev head others) (notMember : head ∉ members) (notOther : head ∉ others) :
    members = others := by
  -- two ways from one node back to the head
  have same : ∀ (start : α) (left right : List α),
      (start :: left ++ [head]).IsChain (Linked next prev) →
      (start :: right ++ [head]).IsChain (Linked next prev) →
      head ∉ left → head ∉ right → left = right := by
    intro start left
    induction left generalizing start with
    | nil =>
        intro right leftChain rightChain _ notRight
        cases right with
        | nil => rfl
        | cons node rest =>
            have toHead := (List.isChain_cons_cons.mp leftChain).1.1
            have toNode := (List.isChain_cons_cons.mp rightChain).1.1
            exact absurd (toHead.symm.trans toNode ▸ List.mem_cons_self) notRight
    | cons node rest inductionHypothesis =>
        intro right leftChain rightChain notLeft notRight
        obtain ⟨⟨toNode, -⟩, leftRest⟩ := List.isChain_cons_cons.mp leftChain
        cases right with
        | nil =>
            have toHead := (List.isChain_cons_cons.mp rightChain).1.1
            exact absurd (toHead.symm.trans toNode ▸ List.mem_cons_self) notLeft
        | cons first behind =>
            obtain ⟨⟨toFirst, -⟩, rightRest⟩ := List.isChain_cons_cons.mp rightChain
            obtain rfl : node = first := toNode.symm.trans toFirst
            rw [inductionHypothesis node behind leftRest rightRest
              (fun isHead => notLeft (List.mem_cons_of_mem _ isHead))
              (fun isHead => notRight (List.mem_cons_of_mem _ isHead))]
  exact same head members others ring other notMember notOther

/-- A ring only depends on the links of its nodes. -/
theorem congr {members : List α} (ring : Ring next prev head members)
    (sameNext : ∀ node ∈ head :: members, next' node = next node)
    (samePrev : ∀ node ∈ head :: members, prev' node = prev node) :
    Ring next' prev' head members := by
  have known : ∀ node ∈ head :: members ++ [head], node ∈ head :: members := by
    intro node nodeIn
    rcases List.mem_append.mp nodeIn with inMembers | isHead
    · exact inMembers
    · rw [List.mem_singleton.mp isHead]
      exact List.mem_cons_self
  apply List.IsChain.imp_of_mem_imp _ ring
  rintro node other nodeIn otherIn ⟨toOther, toNode⟩
  exact ⟨(sameNext node (known node nodeIn)).trans toOther,
    (samePrev other (known other otherIn)).trans toNode⟩

theorem headD_mem (head : α) (after : List α) : after.headD head ∈ after ++ [head] := by
  cases after with
  | nil => exact List.mem_singleton_self head
  | cons first rest => exact List.mem_cons_self

theorem left_mem (head : α) (before after : List α) :
    before.getLastD head ∈ head :: (before ++ after) :=
  List.mem_append_left after List.getLastD_mem_cons

theorem right_mem (head : α) (before after : List α) :
    after.headD head ∈ head :: (before ++ after) := by
  rcases List.mem_append.mp (headD_mem head after) with inAfter | isHead
  · exact List.mem_cons_of_mem _ (List.mem_append_right _ inAfter)
  · rw [List.mem_singleton.mp isHead]
    exact List.mem_cons_self

/-- Unlinking a member changes one link on each side. -/
theorem unlink (ring : Ring next prev head (before ++ member :: after))
    (absent : member ∉ head :: (before ++ after))
    (nextLeft : next' (prev member) = next member)
    (prevRight : prev' (next member) = prev member)
    (nextElsewhere : ∀ node ∈ head :: (before ++ after), node ≠ prev member →
      next' node = next node)
    (prevElsewhere : ∀ node ∈ head :: (before ++ after), node ≠ next member →
      prev' node = prev node) :
    Ring next' prev' head (before ++ after) := by
  obtain ⟨prevMember, nextMember⟩ := ring.at_member
  obtain ⟨left, right, -⟩ := cut_iff.mp ring
  have behind : (after ++ [head]).IsChain (Linked next prev) := right.tail
  -- a link between two other nodes is neither the one to the member nor the one from it
  have frame {nodes : List α} (known : ∀ node ∈ nodes, node ∈ head :: (before ++ after))
      (chain : nodes.IsChain (Linked next prev)) : nodes.IsChain (Linked next' prev') := by
    apply chain.imp_of_mem_imp
    rintro node other nodeIn otherIn ⟨toOther, toNode⟩
    constructor
    · rw [nextElsewhere node (known node nodeIn), toOther]
      rintro rfl
      apply absent
      have same : other = member := by
        rw [← toOther, prevMember]
        exact ring.next_left
      exact same ▸ known other otherIn
    · rw [prevElsewhere other (known other otherIn), toNode]
      rintro rfl
      apply absent
      have same : node = member := by
        rw [← toNode, nextMember]
        have cutBehind : Ring next prev head ((before ++ [member]) ++ after) := by
          rwa [← List.append_cons]
        rw [cutBehind.prev_right, List.getLastD_concat]
      exact same ▸ known node nodeIn
  apply cut_iff.mpr
  refine ⟨frame ?_ left, frame ?_ behind, ?_⟩
  · intro node nodeIn
    rcases List.mem_cons.mp nodeIn with rfl | inBefore
    · exact List.mem_cons_self
    · exact List.mem_cons_of_mem _ (List.mem_append_left _ inBefore)
  · intro node nodeIn
    rcases List.mem_append.mp nodeIn with inAfter | isHead
    · exact List.mem_cons_of_mem _ (List.mem_append_right _ inAfter)
    · rw [List.mem_singleton.mp isHead]
      exact List.mem_cons_self
  · rw [prevMember, nextMember] at nextLeft
    rw [prevMember, nextMember] at prevRight
    exact ⟨nextLeft, prevRight⟩

/-- Linking a node in sets its own links and one link on each side. -/
theorem insert (ring : Ring next prev head (before ++ after))
    (distinct : (head :: (before ++ after)).Nodup)
    (nextLeft : next' (before.getLastD head) = member)
    (prevMember : prev' member = before.getLastD head)
    (nextMember : next' member = after.headD head)
    (prevRight : prev' (after.headD head) = member)
    (nextElsewhere : ∀ node ∈ head :: (before ++ after), node ≠ before.getLastD head →
      next' node = next node)
    (prevElsewhere : ∀ node ∈ head :: (before ++ after), node ≠ after.headD head →
      prev' node = prev node) :
    Ring next' prev' head (before ++ member :: after) := by
  obtain ⟨left, right, toRight, -⟩ := cut_iff.mp ring
  -- no link on either side leads to the right neighbour
  have frame {nodes : List α} (known : ∀ node ∈ nodes, node ∈ head :: (before ++ after))
      (notRight : after.headD head ∉ nodes.tail)
      (chain : nodes.IsChain (Linked next prev)) : nodes.IsChain (Linked next' prev') := by
    apply chain.imp_of_mem_tail_imp
    rintro node other nodeIn otherIn ⟨toOther, toNode⟩
    have otherNotRight : other ≠ after.headD head := by
      rintro rfl
      exact notRight otherIn
    constructor
    · rw [nextElsewhere node (known node nodeIn), toOther]
      rintro rfl
      exact otherNotRight (toOther.symm.trans toRight)
    · rw [prevElsewhere other (known other (List.mem_of_mem_tail otherIn)) otherNotRight, toNode]
  have leftPart : (head :: before).IsChain (Linked next' prev') := by
    apply frame _ _ left
    · intro node nodeIn
      exact List.mem_append_left after nodeIn
    · intro inBefore
      rcases List.mem_append.mp (headD_mem head after) with inAfter | isHead
      · have apart := (List.nodup_append.mp (List.nodup_cons.mp distinct).2).2.2
        exact apart _ inBefore _ inAfter rfl
      · rw [List.mem_singleton.mp isHead] at inBefore
        exact (List.nodup_cons.mp distinct).1 (List.mem_append_left _ inBefore)
  have rightPart : (after ++ [head]).IsChain (Linked next' prev') := by
    apply frame _ _ right
    · intro node nodeIn
      rcases List.mem_append.mp nodeIn with inAfter | isHead
      · exact List.mem_cons_of_mem _ (List.mem_append_right _ inAfter)
      · rw [List.mem_singleton.mp isHead]
        exact List.mem_cons_self
    · cases after with
      | nil => exact List.not_mem_nil
      | cons first rest =>
          intro again
          rcases List.mem_append.mp again with inRest | isHead
          · have behind := (List.nodup_append.mp (List.nodup_cons.mp distinct).2).2.1
            exact (List.nodup_cons.mp behind).1 inRest
          · apply (List.nodup_cons.mp distinct).1
            rw [← List.mem_singleton.mp isHead]
            exact List.mem_append_right _ List.mem_cons_self
  apply cut_iff.mpr
  refine ⟨leftPart, ?_, nextLeft, prevMember⟩
  rw [List.cons_append, List.isChain_cons]
  refine ⟨?_, rightPart⟩
  intro node isFirst
  rw [head?_behind] at isFirst
  rw [← Option.mem_some_iff.mp isFirst]
  exact ⟨nextMember, prevRight⟩

/-- A node linked to what is to come behind it, while the ring still passes it by: the links
between its neighbours are those of a ring, apart from the two that are to lead to it. -/
def Half (next prev : α → α) (head : α) (before : List α) (member : α) (after : List α) : Prop :=
  ∃ next₀ prev₀ : α → α, Ring next₀ prev₀ head (before ++ after) ∧
    Linked next prev member (after.headD head) ∧
    (∀ node ∈ head :: (before ++ after), node ≠ before.getLastD head → next node = next₀ node) ∧
    ∀ node ∈ head :: (before ++ after), node ≠ after.headD head → prev node = prev₀ node

/-- Linking a node to what is behind a place of the ring. -/
theorem half (ring : Ring next prev head (before ++ after))
    (linked : Linked next' prev' member (after.headD head))
    (nextElsewhere : ∀ node ∈ head :: (before ++ after), next' node = next node)
    (prevElsewhere : ∀ node ∈ head :: (before ++ after), node ≠ after.headD head →
      prev' node = prev node) : Half next' prev' head before member after :=
  ⟨next, prev, ring, linked, fun node nodeIn _ => nextElsewhere node nodeIn, prevElsewhere⟩

open Classical in
/-- Linking a node to what is behind a member, which thereby leaves the ring. -/
theorem half_replace {replaced : α} (ring : Ring next prev head (before ++ replaced :: after))
    (absent : replaced ∉ head :: (before ++ after))
    (linked : Linked next' prev' member (after.headD head))
    (nextElsewhere : ∀ node ∈ head :: (before ++ after), next' node = next node)
    (prevElsewhere : ∀ node ∈ head :: (before ++ after), node ≠ after.headD head →
      prev' node = prev node) : Half next' prev' head before member after := by
  obtain ⟨prevReplaced, nextReplaced⟩ := ring.at_member
  refine ⟨fun node => if node = before.getLastD head then after.headD head else next node,
    fun node => if node = after.headD head then before.getLastD head else prev node, ?_, linked,
    ?_, ?_⟩
  · apply unlink ring absent
    · rw [prevReplaced, nextReplaced]
      exact if_pos rfl
    · rw [prevReplaced, nextReplaced]
      exact if_pos rfl
    · intro node _ different
      rw [prevReplaced] at different
      exact if_neg different
    · intro node _ different
      rw [nextReplaced] at different
      exact if_neg different
  · intro node nodeIn different
    exact (nextElsewhere node nodeIn).trans (if_neg different).symm
  · intro node nodeIn different
    exact (prevElsewhere node nodeIn different).trans (if_neg different).symm

/-- The node becomes a member. -/
theorem Half.close (half : Half next prev head before member after)
    (distinct : (head :: (before ++ after)).Nodup) (fresh : member ∉ head :: (before ++ after))
    (linked : Linked next' prev' (before.getLastD head) member)
    (nextElsewhere : ∀ node, node ≠ before.getLastD head → next' node = next node)
    (prevElsewhere : ∀ node, node ≠ member → prev' node = prev node) :
    Ring next' prev' head (before ++ member :: after) := by
  obtain ⟨next₀, prev₀, ring, ⟨toRight, toMember⟩, sameNext, samePrev⟩ := half
  have notMember : ∀ node ∈ head :: (before ++ after), node ≠ member := by
    rintro node nodeIn rfl
    exact fresh nodeIn
  have leftIn := left_mem head before after
  have rightIn := right_mem head before after
  apply insert ring distinct linked.1 linked.2
  · rw [nextElsewhere member (notMember _ leftIn).symm, toRight]
  · rw [prevElsewhere _ (notMember _ rightIn), toMember]
  · intro node nodeIn different
    rw [nextElsewhere node different, sameNext node nodeIn different]
  · intro node nodeIn different
    rw [prevElsewhere node (notMember node nodeIn), samePrev node nodeIn different]

/-- Its neighbours are linked to each other. -/
theorem Half.skip (half : Half next prev head before member after)
    (linked : Linked next' prev' (before.getLastD head) (after.headD head))
    (nextElsewhere : ∀ node, node ≠ before.getLastD head → next' node = next node)
    (prevElsewhere : ∀ node, node ≠ after.headD head → prev' node = prev node) :
    Ring next' prev' head (before ++ after) := by
  obtain ⟨next₀, prev₀, ring, -, sameNext, samePrev⟩ := half
  apply ring.congr
  · intro node nodeIn
    by_cases isLeft : node = before.getLastD head
    · rw [isLeft, linked.1, ring.next_left]
    · rw [nextElsewhere node isLeft, sameNext node nodeIn isLeft]
  · intro node nodeIn
    by_cases isRight : node = after.headD head
    · rw [isRight, linked.2, ring.prev_right]
    · rw [prevElsewhere node isRight, samePrev node nodeIn isRight]

end Ring

end LinuxProgramming.Library
