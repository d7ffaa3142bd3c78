import Mathlib.Data.List.Chain
import Mathlib.Logic.Function.Basic
import Mathlib.Order.Defs.Unbundled

/-!
Contract: a value that is carried from one key of a list to the next, and stored at each.

Owns:
- the store after such a run, and what a run leaves as it was;
- runs that keep the store, over any order in which a step only goes up;
- the run over truth values in which a key keeps what was not carried to it.

Does not own: any particular kind of value or key.
-/

namespace LinuxProgramming.Library.Accumulation

universe u v

variable {κ : Type u} {α β : Type v} [DecidableEq κ]

/-- At each key the stored value and the carried one are combined; the result is stored there
and carried on. -/
def accumulate (combine : α → α → α) : List κ → α → (κ → α) → κ → α
  | [], _, store => store
  | key :: rest, carried, store =>
      accumulate combine rest (combine (store key) carried)
        (Function.update store key (combine (store key) carried))

variable {combine : α → α → α}

theorem accumulate_cons (key : κ) (rest : List κ) (carried : α) (store : κ → α) :
    accumulate combine (key :: rest) carried store =
      accumulate combine rest (combine (store key) carried)
        (Function.update store key (combine (store key) carried)) := rfl

theorem accumulate_other {keys : List κ} {other : κ} (absent : other ∉ keys) (carried : α)
    (store : κ → α) : accumulate combine keys carried store other = store other := by
  induction keys generalizing carried store with
  | nil => rfl
  | cons key rest inductionHypothesis =>
      rw [List.mem_cons, not_or] at absent
      obtain ⟨different, later⟩ := absent
      rw [accumulate_cons, inductionHypothesis later, Function.update_of_ne different]

/-- A map that respects the combinations takes one run to the other. -/
theorem accumulate_map {combine' : β → β → β} (image : α → β)
    (respects : ∀ stored carried,
      image (combine stored carried) = combine' (image stored) (image carried))
    (keys : List κ) (carried : α) (store : κ → α) (key : κ) :
    image (accumulate combine keys carried store key) =
      accumulate combine' keys (image carried) (image ∘ store) key := by
  induction keys generalizing carried store with
  | nil => rfl
  | cons first rest inductionHypothesis =>
      rw [accumulate_cons, accumulate_cons, inductionHypothesis, respects, Function.comp_update,
        respects]
      rfl

/-- A value that nothing changes is stored everywhere. -/
theorem accumulate_absorbed {keys : List κ} {key : κ} (member : key ∈ keys) {carried : α}
    (absorbs : ∀ stored, combine stored carried = carried) (store : κ → α) :
    accumulate combine keys carried store key = carried := by
  induction keys generalizing store with
  | nil => exact absurd member List.not_mem_nil
  | cons first rest inductionHypothesis =>
      rw [accumulate_cons, absorbs]
      by_cases later : key ∈ rest
      · exact inductionHypothesis later _
      · rw [accumulate_other later]
        obtain rfl : key = first := (List.mem_cons.mp member).resolve_right later
        exact Function.update_self ..

/-! ### Runs that keep the store -/

section Order

variable (below : α → α → Prop) [IsPartialOrder α below]

theorem below_accumulate (up : ∀ stored carried, below stored (combine stored carried))
    (keys : List κ) (carried : α) (store : κ → α) (key : κ) :
    below (store key) (accumulate combine keys carried store key) := by
  induction keys generalizing carried store with
  | nil => exact refl_of below (store key)
  | cons first rest inductionHypothesis =>
      refine trans_of below ?_ (inductionHypothesis _ _)
      by_cases same : key = first
      · rw [same, Function.update_self]
        exact up _ _
      · rw [Function.update_of_ne same]
        exact refl_of below (store key)

/-- A run in which every step goes up keeps the store exactly if each key keeps its value with
what the one in front of it had. -/
theorem accumulate_keeps_iff (up : ∀ stored carried, below stored (combine stored carried))
    (keys : List κ) (carried : α) (store : κ → α) :
    (∀ key ∈ keys, accumulate combine keys carried store key = store key) ↔
      List.IsChain (fun before stored => combine stored before = stored)
        (carried :: keys.map store) := by
  induction keys generalizing carried with
  | nil => exact iff_of_true (fun key member => absurd member List.not_mem_nil) (.singleton _)
  | cons first rest inductionHypothesis =>
      rw [List.map_cons, List.isChain_cons_cons, ← inductionHypothesis, List.forall_mem_cons,
        accumulate_cons]
      constructor
      · rintro ⟨kept, later⟩
        have above := below_accumulate below up rest (combine (store first) carried)
          (Function.update store first (combine (store first) carried)) first
        rw [kept, Function.update_self] at above
        have unchanged := antisymm_of below above (up (store first) carried)
        rw [unchanged, Function.update_eq_self] at later
        exact ⟨unchanged, later⟩
      · rintro ⟨unchanged, later⟩
        rw [unchanged, Function.update_eq_self]
        refine ⟨?_, later⟩
        by_cases again : first ∈ rest
        · exact later first again
        · exact accumulate_other again _ _

end Order

/-! ### What was not carried -/

/-- A key keeps what was not carried to it. -/
def without (stored carried : Bool) : Bool := stored && !carried

theorem accumulate_without_cons_false (first : κ) (rest : List κ) (store : κ → Bool) :
    accumulate without (first :: rest) false store =
      accumulate without rest (store first) store := by
  have kept : without (store first) false = store first := Bool.and_true (store first)
  rw [accumulate_cons, kept, Function.update_eq_self]

theorem accumulate_without_cons_true (first : κ) (rest : List κ) (store : κ → Bool) :
    accumulate without (first :: rest) true store =
      accumulate without rest false (Function.update store first false) := by
  have cleared : without (store first) true = false := Bool.and_false (store first)
  rw [accumulate_cons, cleared]

theorem accumulate_without_nothing {keys : List κ} {store : κ → Bool}
    (nothing : ∀ key ∈ keys, store key = false) :
    accumulate without keys false store = store := by
  induction keys with
  | nil => rfl
  | cons first rest inductionHypothesis =>
      obtain ⟨here, later⟩ := List.forall_mem_cons.mp nothing
      rw [accumulate_without_cons_false, here]
      exact inductionHypothesis later

/-- No key is met twice in a row: a run that leaves nothing at its keys has found nothing
there, and what is carried into it from a key stays at this key. The induction is on the
keys, for both at once. -/
theorem accumulate_without_leaves (keys : List κ) (store : κ → Bool) :
    (keys.IsChain (· ≠ ·) → (∀ key ∈ keys, accumulate without keys false store key = false) →
      ∀ key ∈ keys, store key = false) ∧
    ∀ before, (before :: keys).IsChain (· ≠ ·) → store before = true →
      (∀ key ∈ keys, accumulate without keys true store key = false) →
      accumulate without keys true store before = true := by
  induction keys generalizing store with
  | nil =>
      refine ⟨fun _ _ key member => absurd member List.not_mem_nil, ?_⟩
      exact fun before _ full _ => full
  | cons first rest inductionHypothesis =>
      constructor
      · intro different leaves
        rw [accumulate_without_cons_false] at leaves
        obtain ⟨here, later⟩ := List.forall_mem_cons.mp leaves
        cases stored : store first with
        | false =>
            rw [stored] at later
            have found := (inductionHypothesis store).1 different.tail later
            exact List.forall_mem_cons.mpr ⟨stored, found⟩
        | true =>
            rw [stored] at here later
            have stays := (inductionHypothesis store).2 first different stored later
            exact absurd (here.symm.trans stays) Bool.false_ne_true
      · intro before different full leaves
        rw [accumulate_without_cons_true] at leaves ⊢
        obtain ⟨distinct, different'⟩ := List.isChain_cons_cons.mp different
        have full' : Function.update store first false before = true := by
          rw [Function.update_of_ne distinct]
          exact full
        by_cases again : before ∈ rest
        · have found := (inductionHypothesis (Function.update store first false)).1
            different'.tail (List.forall_mem_cons.mp leaves).2 before again
          exact absurd (found.symm.trans full') Bool.false_ne_true
        · rw [accumulate_other again]
          exact full'

theorem cleared_iff {first : κ} {rest : List κ} {store : κ → Bool} :
    (∀ key ∈ rest, Function.update store first false key = false) ↔
      ∀ key ∈ rest, key ≠ first → store key = false := by
  refine forall₂_congr fun key _ => ?_
  by_cases same : key = first
  · rw [same, Function.update_self]
    exact iff_of_true rfl fun different => absurd rfl different
  · rw [Function.update_of_ne same]
    exact ⟨fun nothing _ => nothing, fun nothing => nothing same⟩

/-- What is carried into a run is taken away at its first key. If the other keys have nothing,
then nothing is left. -/
theorem accumulate_without_clears {first : κ} {rest : List κ} {store : κ → Bool}
    (nothing : ∀ key ∈ rest, key ≠ first → store key = false) :
    ∀ key ∈ first :: rest, accumulate without (first :: rest) true store key = false := by
  have cleared := cleared_iff.mpr nothing
  rw [accumulate_without_cons_true, accumulate_without_nothing cleared]
  exact List.forall_mem_cons.mpr ⟨Function.update_self .., cleared⟩

theorem accumulate_without_clears_iff {first : κ} {rest : List κ} {store : κ → Bool}
    (different : (first :: rest).IsChain (· ≠ ·)) :
    (∀ key ∈ first :: rest, accumulate without (first :: rest) true store key = false) ↔
      ∀ key ∈ rest, key ≠ first → store key = false := by
  refine ⟨fun leaves => cleared_iff.mp ?_, accumulate_without_clears⟩
  rw [accumulate_without_cons_true] at leaves
  exact (accumulate_without_leaves rest _).1 different.tail (List.forall_mem_cons.mp leaves).2

end LinuxProgramming.Library.Accumulation
