import Mathlib.Data.List.Basic
import Mathlib.Data.List.Nodup
import Mathlib.Logic.Function.Basic

/-!
Contract: singly linked lists in memory, over any type of items.

Owns:
- cells with a link that may be null, and the list of cells from one link to another;
- that the cells of a list that ends are distinct;
- how a list changes when its last link is set, a cell is unlinked, or one is put in front.

Does not own: how a program finds the cells that it changes.
-/

namespace LinuxProgramming.Library

universe u

/-- A link: the address of a cell, or null. -/
abbrev Link := Option Nat

structure Cell (α : Type u) where
  item : α
  next : Link

/-- The cells that are allocated. -/
abbrev Cells (α : Type u) := Nat → Option (Cell α)

namespace Cells

variable {α : Type u} {cells changed : Cells α}

/-- The cells, with their addresses, on the way from one link to another. -/
def Segment (cells : Cells α) : Link → List (Nat × α) → Link → Prop
  | start, [], stop => start = stop
  | start, (address, item) :: rest, stop =>
      start = some address ∧
        ∃ next, cells address = some ⟨item, next⟩ ∧ Segment cells next rest stop

/-- A link stands for a list of items. -/
def Represents (cells : Cells α) (start : Link) (items : List α) : Prop :=
  ∃ nodes, Segment cells start nodes none ∧ nodes.map Prod.snd = items

@[simp]
theorem segment_nil {start stop : Link} : Segment cells start [] stop ↔ start = stop := Iff.rfl

theorem segment_cons {start stop : Link} {address : Nat} {item : α} {rest : List (Nat × α)} :
    Segment cells start ((address, item) :: rest) stop ↔
      start = some address ∧
        ∃ next, cells address = some ⟨item, next⟩ ∧ Segment cells next rest stop :=
  Iff.rfl

theorem segment_append {start stop : Link} (before after : List (Nat × α)) :
    Segment cells start (before ++ after) stop ↔
      ∃ middle, Segment cells start before middle ∧ Segment cells middle after stop := by
  induction before generalizing start with
  | nil => simp
  | cons node rest inductionHypothesis =>
      obtain ⟨address, item⟩ := node
      simp only [List.cons_append, segment_cons, inductionHypothesis]
      constructor
      · intro whole
        obtain ⟨isStart, next, found, middle, first, second⟩ := whole
        exact ⟨middle, ⟨isStart, next, found, first⟩, second⟩
      · intro parts
        obtain ⟨middle, ⟨isStart, next, found, first⟩, second⟩ := parts
        exact ⟨isStart, next, found, middle, first, second⟩

/-- A memory that agrees on the cells of a segment has it too. -/
theorem segment_congr {start stop : Link} {nodes : List (Nat × α)}
    (agree : ∀ node ∈ nodes, changed node.1 = cells node.1)
    (segment : Segment cells start nodes stop) : Segment changed start nodes stop := by
  induction nodes generalizing start with
  | nil => exact segment
  | cons node rest inductionHypothesis =>
      obtain ⟨address, item⟩ := node
      obtain ⟨isStart, next, found, segmentRest⟩ := segment
      have agreeRest : ∀ node ∈ rest, changed node.1 = cells node.1 :=
        fun node member => agree node (List.mem_cons_of_mem _ member)
      refine ⟨isStart, next, ?_, inductionHypothesis agreeRest segmentRest⟩
      rw [agree _ List.mem_cons_self, found]

/-- Two lists that end and begin with one link are the same. -/
theorem segment_unique {start : Link} {first second : List (Nat × α)}
    (isFirst : Segment cells start first none) (isSecond : Segment cells start second none) :
    first = second := by
  induction first generalizing start second with
  | nil =>
      cases second with
      | nil => rfl
      | cons node rest =>
          obtain ⟨isStart, _⟩ := isSecond
          rw [segment_nil.mp isFirst] at isStart
          cases isStart
  | cons node rest inductionHypothesis =>
      obtain ⟨address, item⟩ := node
      obtain ⟨rfl, next, found, segmentRest⟩ := isFirst
      cases second with
      | nil => cases isSecond
      | cons other others =>
          obtain ⟨otherAddress, otherItem⟩ := other
          obtain ⟨same, otherNext, otherFound, otherRest⟩ := isSecond
          cases same
          rw [found] at otherFound
          cases otherFound
          rw [inductionHypothesis segmentRest otherRest]

/-- A list that ends passes no cell twice. -/
theorem addresses_nodup {start : Link} {nodes : List (Nat × α)}
    (segment : Segment cells start nodes none) : (nodes.map Prod.fst).Nodup := by
  induction nodes generalizing start with
  | nil => exact List.nodup_nil
  | cons node rest inductionHypothesis =>
      obtain ⟨address, item⟩ := node
      have whole := segment
      obtain ⟨rfl, next, found, segmentRest⟩ := segment
      rw [List.map_cons, List.nodup_cons]
      refine ⟨?_, inductionHypothesis segmentRest⟩
      intro again
      -- From the second visit on the list would be as long as from the first.
      obtain ⟨⟨other, otherItem⟩, member, rfl⟩ := List.mem_map.mp again
      obtain ⟨before, after, rfl⟩ := List.append_of_mem member
      obtain ⟨middle, _, fromOther⟩ := (segment_append before _).mp segmentRest
      have isOther : middle = some other := fromOther.1
      have same := segment_unique whole (isOther ▸ fromOther)
      have lengths := congrArg List.length same
      simp only [List.length_cons, List.length_append] at lengths
      omega

theorem allocated_of_mem {start stop : Link} {nodes : List (Nat × α)}
    (segment : Segment cells start nodes stop) {node : Nat × α} (member : node ∈ nodes) :
    cells node.1 ≠ none := by
  obtain ⟨before, after, rfl⟩ := List.append_of_mem member
  obtain ⟨middle, _, fromNode⟩ := (segment_append before _).mp segment
  obtain ⟨_, next, found, _⟩ := fromNode
  rw [found]
  exact Option.some_ne_none _

/-- The last link of a list is set: then the list goes on to where the link leads. -/
theorem segment_setLast {start : Link} {before : List (Nat × α)} {address : Nat} {item : α}
    (segment : Segment cells start (before ++ [(address, item)]) none) (link : Link) :
    cells address = some ⟨item, none⟩ ∧
      Segment (Function.update cells address (some ⟨item, link⟩)) start
        (before ++ [(address, item)]) link := by
  have distinct := addresses_nodup segment
  rw [List.map_append, List.map_singleton, List.nodup_append] at distinct
  obtain ⟨_, _, apart⟩ := distinct
  obtain ⟨middle, first, isMiddle, last, found, ends⟩ := (segment_append before _).mp segment
  obtain rfl : last = none := ends
  refine ⟨found, (segment_append before _).mpr ⟨middle, ?_, isMiddle, link, ?_, rfl⟩⟩
  · refine segment_congr (fun node member => Function.update_of_ne ?_ _ _) first
    exact apart node.1 (List.mem_map_of_mem member) address (List.mem_singleton_self _)
  · exact Function.update_self _ _ _

/-- A memory in which another cell has changed. -/
theorem segment_update {start stop : Link} {nodes : List (Nat × α)} {address : Nat}
    (segment : Segment cells start nodes stop) (absent : address ∉ nodes.map Prod.fst)
    (cell : Option (Cell α)) : Segment (Function.update cells address cell) start nodes stop := by
  refine segment_congr (fun node member => Function.update_of_ne ?_ _ _) segment
  rintro rfl
  exact absent (List.mem_map_of_mem member)

/-- The cell in front of another takes over its link, and the other is freed. -/
theorem segment_unlink {start : Link} {before after : List (Nat × α)} {front gone : Nat}
    {item other : α}
    (segment : Segment cells start (before ++ (front, item) :: (gone, other) :: after) none) :
    ∃ next, cells front = some ⟨item, some gone⟩ ∧ cells gone = some ⟨other, next⟩ ∧
      Segment (Function.update (Function.update cells front (some ⟨item, next⟩)) gone none) start
        (before ++ (front, item) :: after) none := by
  have distinct := addresses_nodup segment
  simp only [List.map_append, List.map_cons, List.nodup_append, List.nodup_cons,
    List.mem_cons, not_or] at distinct
  obtain ⟨_, ⟨frontNew, goneNew, _⟩, apart⟩ := distinct
  obtain ⟨middle, first, isMiddle, link, frontFound, isGone, next, goneFound, second⟩ :=
    (segment_append before _).mp segment
  subst isGone
  refine ⟨next, frontFound, goneFound, (segment_append before _).mpr
    ⟨middle, ?_, isMiddle, next, ?_, ?_⟩⟩
  · refine segment_congr (fun node member => ?_) first
    have elsewhere := apart node.1 (List.mem_map_of_mem member)
    rw [Function.update_of_ne (elsewhere gone (Or.inr (Or.inl rfl))),
      Function.update_of_ne (elsewhere front (Or.inl rfl))]
  · rw [Function.update_of_ne frontNew.1, Function.update_self]
  · refine segment_congr (fun node member => ?_) second
    have address := List.mem_map_of_mem (f := Prod.fst) member
    have notGone : node.1 ≠ gone := fun same => goneNew (same ▸ address)
    have notFront : node.1 ≠ front := fun same => frontNew.2 (same ▸ address)
    rw [Function.update_of_ne notGone, Function.update_of_ne notFront]

/-- A new cell in front of a list. -/
theorem represents_push {start : Link} {items : List α} {address : Nat}
    (represents : Represents cells start items) (free : cells address = none) (item : α) :
    Represents (Function.update cells address (some ⟨item, start⟩)) (some address)
      (item :: items) := by
  obtain ⟨nodes, segment, rfl⟩ := represents
  refine ⟨(address, item) :: nodes, ⟨rfl, start, Function.update_self _ _ _, ?_⟩, rfl⟩
  refine segment_congr (fun node member => Function.update_of_ne ?_ _ _) segment
  intro same
  exact allocated_of_mem segment member (same ▸ free)

end Cells

end LinuxProgramming.Library
