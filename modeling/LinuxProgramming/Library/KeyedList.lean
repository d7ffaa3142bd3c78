import Mathlib.Data.Int.Interval
import Mathlib.Data.List.Nodup
import Mathlib.Data.List.Perm.Basic

/-!
Contract: lists of items with distinct keys.

Owns:
- the item found under a key, and what is left when it or all under a key are taken out;
- how many items there can be with keys from a range.

Does not own: any particular items.
-/

namespace LinuxProgramming.Library.KeyedList

universe u v

variable {α : Type u} {κ : Type v}

/-- The item that is found, in front of the others. -/
theorem perm_of_find? {items : List α} {test : α → Bool} {item : α}
    (found : items.find? test = some item) : items.Perm (item :: items.eraseP test) := by
  obtain ⟨matching, before, after, rfl, others⟩ := List.find?_eq_some_iff_append.mp found
  have erased : (item :: after).eraseP test = after := List.eraseP_cons_of_pos matching
  rw [List.eraseP_append_right _ (by simpa using others), erased]
  exact List.perm_middle

/-- Every item is the one found under its key. -/
theorem find?_key [DecidableEq κ] (key : α → κ) {items : List α}
    (distinct : (items.map key).Nodup) {item : α} (member : item ∈ items) :
    (items.find? fun other => key other = key item) = some item := by
  cases found : items.find? fun other => key other = key item with
  | none =>
      have missing := List.find?_eq_none.mp found item member
      simp at missing
  | some other =>
      have same : key other = key item := by simpa using List.find?_some found
      rw [List.inj_on_of_nodup_map distinct (List.mem_of_find?_eq_some found) member same]

/-- What is found when the items under one key are gone. -/
theorem find?_filter_key_ne [DecidableEq κ] (key : α → κ) (items : List α) (gone wanted : κ) :
    (items.filter fun item => key item ≠ gone).find? (fun item => key item = wanted) =
      if wanted = gone then none else items.find? fun item => key item = wanted := by
  rw [List.find?_filter]
  split
  case isTrue same =>
    subst same
    apply List.find?_eq_none.mpr
    intro item _
    simp
  case isFalse other =>
    congr 1
    funext item
    by_cases hit : key item = wanted
    · simp [hit, other]
    · simp [hit]

/-- There are no more items than keys. -/
theorem length_le_of_nodup (key : α → Int) {items : List α} {limit : Int} (nonneg : 0 ≤ limit)
    (distinct : (items.map key).Nodup)
    (range : ∀ item ∈ items, 0 < key item ∧ key item ≤ limit) :
    (items.length : Int) ≤ limit := by
  have inside : (items.map key).toFinset ⊆ Finset.Icc 1 limit := by
    intro value member
    obtain ⟨item, isItem, rfl⟩ := List.mem_map.mp (List.mem_toFinset.mp member)
    exact Finset.mem_Icc.mpr (range item isItem)
  have card := Finset.card_le_card inside
  rw [List.toFinset_card_of_nodup distinct, List.length_map, Int.card_Icc] at card
  omega

end LinuxProgramming.Library.KeyedList
