import LinuxProgramming.Library.RelayRuns

/-!
Contract: relays without the bytes: where each one is and how much there is in each stream.

Owns:
- the stages of a relay, and what can be reached of them in a run in which no call fails;
- one rule for each call, and for what comes and goes outside.

Does not own: any particular run.
-/

namespace LinuxProgramming.Library

namespace Relays

/-- A turn with the number of bytes that are left to be written. -/
inductive Stage where
  | selecting
  | reading (port : Port) (also : Bool)
  | writing (port : Port) (also : Bool) (left : Nat)
  | exited
deriving DecidableEq, Repr

def Stage.next (also : Bool) : Stage :=
  if also then reading .second false else selecting

def Turn.stage {α : Type} : Turn α → Stage
  | selecting => .selecting
  | reading port also => .reading port also
  | writing port also buf => .writing port also buf.length
  | exited _ => .exited

theorem Turn.stage_next {α : Type} (also : Bool) :
    (Turn.next also : Turn α).stage = Stage.next also := by
  cases also <;> rfl

variable {Name Stream : Type} [DecidableEq Name] [DecidableEq Stream]

/-- Some clean run leads to these stages and these numbers of bytes, with every stream
open. -/
def CanReach (α : Type) (network : Network Name Stream) (stages : Name → Stage)
    (load : Stream → Nat) : Prop :=
  ∃ state : State Name Stream α, (cleanSystem network).Reachable state ∧
    (∀ name, (state.turn name).stage = stages name) ∧
    (∀ stream, (state.queue stream).length = load stream) ∧
    ∀ stream, state.ended stream = false

namespace CanReach

variable {α : Type} {network : Network Name Stream} {stages : Name → Stage}
  {load : Stream → Nat} {name : Name} {stream : Stream} {port : Port} {also : Bool}
  {count left : Nat}

theorem started (α : Type) (network : Network Name Stream) :
    CanReach α network (fun _ => .selecting) (fun _ => 0) :=
  ⟨Relays.started, .of_init rfl, fun _ => rfl, fun _ => rfl, fun _ => rfl⟩

omit [DecidableEq Stream] in
theorem stage_goto {state : State Name Stream α}
    (staged : ∀ name, (state.turn name).stage = stages name) (turn : Turn α) (other : Name) :
    ((state.goto name turn).turn other).stage = Function.update stages name turn.stage other := by
  rw [State.goto_turn, Function.update_apply]
  split
  · rfl
  · exact staged other

variable (name) in
theorem select (reach : CanReach α network stages load) (waits : stages name = .selecting)
    (ready : 0 < load ((network.relay name).source .first)) :
    CanReach α network (Function.update stages name
      (.reading .first (decide (0 < load ((network.relay name).source .second))))) load := by
  obtain ⟨state, reachable, staged, loaded, open_⟩ := reach
  have readable (port : Port) : state.Readable ((network.relay name).source port) ↔
      0 < load ((network.relay name).source port) := by
    rw [State.Readable, open_, ← loaded, List.length_pos_iff]
    exact or_iff_left (by decide)
  have place : state.turn name = .selecting := by
    have stage := (staged name).trans waits
    cases turn : state.turn name <;> rw [turn] at stage <;> cases stage
  have called : call network name 0 state = some (state.goto name (.reading .first
      (decide (state.Readable ((network.relay name).source .second))))) := by
    rw [call, place]
    exact if_pos ((readable .first).mpr ready)
  refine ⟨_, reachable.tail ⟨.call name 0, trivial, called⟩, fun other => ?_, loaded, open_⟩
  rw [stage_goto staged]
  simp only [Turn.stage, readable .second]

variable (name count) in
theorem read (reach : CanReach α network stages load) (reads : stages name = .reading port also)
    (positive : 0 < count) (small : count ≤ (network.relay name).bufSize)
    (fits : count ≤ load ((network.relay name).source port)) :
    CanReach α network (Function.update stages name (.writing port also count))
      (Function.update load ((network.relay name).source port)
        (load ((network.relay name).source port) - count)) := by
  obtain ⟨state, reachable, staged, loaded, open_⟩ := reach
  have place : state.turn name = .reading port also := by
    have stage := (staged name).trans reads
    cases turn : state.turn name <;> rw [turn] at stage <;> cases stage
    rfl
  rw [← loaded] at fits
  have bytes : state.queue ((network.relay name).source port) ≠ [] :=
    List.length_pos_iff.mp (Nat.lt_of_lt_of_le positive fits)
  have called : call network name count state =
      some ((state.take ((network.relay name).source port) count).goto name
        (.writing port also ((state.queue ((network.relay name).source port)).take count))) := by
    rw [call, place]
    dsimp only
    rw [if_neg bytes, if_pos ⟨positive, small, fits⟩]
  refine ⟨_, reachable.tail ⟨.call name count, trivial, called⟩, fun other => ?_, fun stream => ?_,
    open_⟩
  · have staged' : ∀ other, ((state.take ((network.relay name).source port) count).turn
        other).stage = stages other := staged
    rw [stage_goto staged', Turn.stage, List.length_take_of_le fits]
  · show ((state.take _ count).queue stream).length = _
    rw [State.take_queue, Function.update_apply]
    split
    · rw [List.length_drop, loaded]
    · exact loaded stream

variable (name count) in
theorem write (reach : CanReach α network stages load)
    (writes : stages name = .writing port also left) (positive : 0 < count) (fits : count ≤ left)
    (room : ∀ capacity, network.capacity ((network.relay name).sink port) = some capacity →
      load ((network.relay name).sink port) + count ≤ capacity) :
    CanReach α network
      (Function.update stages name
        (if count = left then .next also else .writing port also (left - count)))
      (Function.update load ((network.relay name).sink port)
        (load ((network.relay name).sink port) + count)) := by
  obtain ⟨state, reachable, staged, loaded, open_⟩ := reach
  obtain ⟨buf, place, rfl⟩ :
      ∃ buf, state.turn name = .writing port also buf ∧ buf.length = left := by
    have stage := (staged name).trans writes
    cases turn : state.turn name <;> rw [turn] at stage <;> cases stage
    exact ⟨_, rfl, rfl⟩
  have called : call network name count state =
      some ((state.put ((network.relay name).sink port) (buf.take count)).goto name
        (if count = buf.length then .next also else .writing port also (buf.drop count))) := by
    rw [call, place]
    refine if_pos ⟨positive, fits, fun capacity bounded => ?_⟩
    rw [loaded]
    exact room capacity bounded
  refine ⟨_, reachable.tail ⟨.call name count, trivial, called⟩, fun other => ?_, fun stream => ?_,
    open_⟩
  · have staged' : ∀ other, ((state.put ((network.relay name).sink port) (buf.take count)).turn
        other).stage = stages other := staged
    rw [stage_goto staged']
    split
    · rw [Turn.stage_next]
    · rw [Turn.stage, List.length_drop]
  · show ((state.put _ _).queue stream).length = _
    rw [State.put_queue, Function.update_apply]
    split
    · rw [List.length_append, loaded, List.length_take_of_le fits]
    · exact loaded stream

variable (stream count) in
theorem arrive [Inhabited α] (reach : CanReach α network stages load)
    (outside : network.writer stream = none)
    (room : ∀ capacity, network.capacity stream = some capacity → load stream + count ≤ capacity) :
    CanReach α network stages (Function.update load stream (load stream + count)) := by
  obtain ⟨state, reachable, staged, loaded, open_⟩ := reach
  have stepped : step network (.arrive stream (List.replicate count default)) state =
      some (state.put stream (List.replicate count default)) := by
    refine if_pos ⟨outside, open_ stream, fun capacity bounded => ?_⟩
    rw [loaded, List.length_replicate]
    exact room capacity bounded
  refine ⟨_, reachable.tail ⟨.arrive stream (List.replicate count default), trivial, stepped⟩,
    staged, fun other => ?_, open_⟩
  rw [State.put_queue, Function.update_apply]
  split
  · rw [List.length_append, loaded, List.length_replicate]
  · exact loaded other

variable (stream count) in
theorem accept (reach : CanReach α network stages load)
    (outside : network.reader stream = none) (fits : count ≤ load stream) :
    CanReach α network stages (Function.update load stream (load stream - count)) := by
  obtain ⟨state, reachable, staged, loaded, open_⟩ := reach
  have stepped : step network (.accept stream count) state = some (state.take stream count) :=
    if_pos ⟨outside, (loaded stream).symm ▸ fits⟩
  refine ⟨_, reachable.tail ⟨.accept stream count, trivial, stepped⟩, staged, fun other => ?_,
    open_⟩
  rw [State.take_queue, Function.update_apply]
  split
  · rw [List.length_drop, loaded]
  · exact loaded other

/-! #### Chunks -/

variable (name count) in
/-- A relay that waits gets so many bytes from outside and is about to write them. -/
theorem fetch [Inhabited α] (reach : CanReach α network stages load)
    (waits : stages name = .selecting)
    (outside : network.writer ((network.relay name).source .first) = none)
    (unbounded : network.capacity ((network.relay name).source .first) = none)
    (empty : load ((network.relay name).source .first) = 0) (positive : 0 < count)
    (small : count ≤ (network.relay name).bufSize) :
    CanReach α network (Function.update stages name (.writing .first
      (decide (0 < load ((network.relay name).source .second))) count)) load := by
  have apart : (network.relay name).source .second ≠ (network.relay name).source .first :=
    fun same => nomatch network.source_injective name same
  have arrived : CanReach α network stages
      (Function.update load ((network.relay name).source .first) count) := by
    have bytes := reach.arrive _ count outside fun capacity bounded => by
      rw [unbounded] at bounded
      cases bounded
    rwa [empty, Nat.zero_add] at bytes
  have selected := arrived.select name waits (by rw [Function.update_self]; exact positive)
  rw [Function.update_of_ne apart] at selected
  have done_ := selected.read name count (Function.update_self ..) positive small
    (by rw [Function.update_self])
  rw [Function.update_self, Function.update_idem, Function.update_idem, Nat.sub_self] at done_
  have restored : Function.update load ((network.relay name).source .first) 0 = load :=
    Function.update_eq_self_iff.mpr empty.symm
  rwa [restored] at done_

variable (name) in
/-- A relay brings one byte of its second direction outside and waits again. -/
theorem deliver (reach : CanReach α network stages load)
    (reads : stages name = .reading .second false)
    (bytes : 0 < load ((network.relay name).source .second))
    (outside : network.reader ((network.relay name).sink .second) = none)
    (empty : load ((network.relay name).sink .second) = 0)
    (room : ∀ capacity, network.capacity ((network.relay name).sink .second) = some capacity →
      0 < capacity) :
    CanReach α network (Function.update stages name .selecting)
      (Function.update load ((network.relay name).source .second)
        (load ((network.relay name).source .second) - 1)) := by
  have apart : (network.relay name).sink .second ≠ (network.relay name).source .second := by
    intro same
    rw [same, network.reader_source] at outside
    cases outside
  have carried := reach.read name 1 reads Nat.one_pos (network.bufSize_pos name) bytes
  have left (capacity : Nat)
      (bounded : network.capacity ((network.relay name).sink .second) = some capacity) :
      Function.update load ((network.relay name).source .second)
        (load ((network.relay name).source .second) - 1)
        ((network.relay name).sink .second) + 1 ≤ capacity := by
    rw [Function.update_of_ne apart, empty]
    exact room capacity bounded
  have brought := carried.write name 1 (Function.update_self ..) Nat.one_pos (Nat.le_refl 1)
    left
  rw [Function.update_of_ne apart, empty, if_pos rfl, Function.update_idem] at brought
  have done_ := brought.accept _ 1 outside (by rw [Function.update_self])
  rw [Function.update_self, Function.update_idem] at done_
  have restored : Function.update (Function.update load ((network.relay name).source .second)
      (load ((network.relay name).source .second) - 1)) ((network.relay name).sink .second)
      (0 + 1 - 1) = Function.update load ((network.relay name).source .second)
        (load ((network.relay name).source .second) - 1) := by
    rw [Function.update_eq_self_iff, Function.update_of_ne apart, empty]
  rwa [restored] at done_

end CanReach

end Relays

end LinuxProgramming.Library
