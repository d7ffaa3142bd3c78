import LinuxProgramming.Library.Relays
import LinuxProgramming.Library.Rounds
import LinuxProgramming.Library.WaitGraph

/-!
Contract: runs of relays in which no call fails.

Owns:
- what has been made sure of before each call of a relay;
- that nothing is lost in such a run, and what each end of a relay says;
- where a relay can be blocked, and how long it can go on.

Does not own: the loop itself, or any particular network.
-/

namespace LinuxProgramming.Library

namespace Relays

variable {Name Stream α : Type} [DecidableEq Name] [DecidableEq Stream]
  (network : Network Name Stream)

/-! ### Runs in which no call fails -/

/-- What happens if no call fails and no connection is reset. A relay that writes where
nobody reads any more is killed by the signal for it. -/
def Clean (action : Action Name Stream α) (state : State Name Stream α) : Prop :=
  match action with
  | .fail _ => False
  | .reset _ _ => False
  | .kill name => ∃ port also buf reader, state.turn name = .writing port also buf ∧
      network.reader ((network.relay name).sink port) = some reader ∧
      (state.turn reader).isExited = true
  | _ => True

def cleanSystem : TransitionSystem (State Name Stream α) :=
  labelledWhen (· = started) (step network) (Clean network)

/-- What a relay in its loop has made sure of. -/
def Settled (state : State Name Stream α) (name : Name) : Prop :=
  match state.turn name with
  | .selecting => True
  | .reading port also => state.Readable ((network.relay name).source port) ∧
      (also = true → port = .first ∧ state.Readable ((network.relay name).source .second))
  | .writing port also buf => buf ≠ [] ∧
      (also = true → port = .first ∧ state.Readable ((network.relay name).source .second))
  | .exited (some port) => state.queue ((network.relay name).source port) = [] ∧
      state.ended ((network.relay name).source port) = true ∧
      ∀ direction, state.written ((network.relay name).sink direction) =
        state.taken ((network.relay name).source direction)
  | .exited none => ∃ port reader, network.reader ((network.relay name).sink port) = some reader ∧
      (state.turn reader).isExited = true

/-- Nothing has been lost. -/
structure Lossless (state : State Name Stream α) : Prop where
  sound : Sound network state
  unreported : ∀ stream, state.short stream = false
  whole : ∀ stream, state.taken stream ++ state.queue stream = state.written stream
  settled : ∀ name, Settled network state name

section Clean

variable {network} {state before after : State Name Stream α} {name other : Name} {port : Port}
  {stream : Stream}

/-- What a relay sees of a step that is not its own. -/
structure Onward (network : Network Name Stream) (name : Name)
    (before after : State Name Stream α) : Prop where
  turn : after.turn name = before.turn name
  queue : ∀ port, ∃ symbols, after.queue ((network.relay name).source port) =
      before.queue ((network.relay name).source port) ++ symbols ∧
    (before.ended ((network.relay name).source port) = true → symbols = [])
  ended : ∀ port, before.ended ((network.relay name).source port) = true →
    after.ended ((network.relay name).source port) = true
  taken : ∀ port, after.taken ((network.relay name).source port) =
    before.taken ((network.relay name).source port)
  written : ∀ port, after.written ((network.relay name).sink port) =
    before.written ((network.relay name).sink port)
  exited : ∀ other, (before.turn other).isExited = true → (after.turn other).isExited = true

namespace Onward

variable {middle : State Name Stream α}

omit [DecidableEq Name] [DecidableEq Stream] in
theorem readable (onward : Onward network name before after)
    (isReadable : before.Readable ((network.relay name).source port)) :
    after.Readable ((network.relay name).source port) := by
  obtain ⟨symbols, queue, _⟩ := onward.queue port
  rcases isReadable with bytes | closed
  · left
    rw [queue]
    exact fun empty => bytes (List.append_eq_nil_iff.mp empty).1
  · exact .inr (onward.ended port closed)

omit [DecidableEq Name] [DecidableEq Stream] in
theorem trans (first : Onward network name before middle)
    (second : Onward network name middle after) : Onward network name before after where
  turn := second.turn.trans first.turn
  queue port := by
    obtain ⟨symbols, queue, closed⟩ := first.queue port
    obtain ⟨symbols', queue', closed'⟩ := second.queue port
    refine ⟨symbols ++ symbols', by rw [queue', queue, List.append_assoc], fun ended => ?_⟩
    rw [closed ended, closed' (first.ended port ended), List.append_nil]
  ended port closed := second.ended port (first.ended port closed)
  taken port := (second.taken port).trans (first.taken port)
  written port := (second.written port).trans (first.written port)
  exited other left := second.exited other (first.exited other left)

omit [DecidableEq Name] [DecidableEq Stream] in
/-- Steps of others keep what a relay has made sure of. -/
theorem settled (onward : Onward network name before after)
    (holds : Settled network before name) : Settled network after name := by
  rw [Settled] at holds ⊢
  rw [onward.turn]
  cases place : before.turn name with
  | selecting => trivial
  | reading port also =>
      rw [place] at holds
      exact ⟨onward.readable holds.1,
        fun more => ⟨(holds.2 more).1, onward.readable (holds.2 more).2⟩⟩
  | writing port also buf =>
      rw [place] at holds
      exact ⟨holds.1, fun more => ⟨(holds.2 more).1, onward.readable (holds.2 more).2⟩⟩
  | exited atEnd =>
      rw [place] at holds
      cases atEnd with
      | none =>
          obtain ⟨port, reader, reads, left⟩ := holds
          exact ⟨port, reader, reads, onward.exited reader left⟩
      | some port =>
          obtain ⟨empty, closed, all⟩ := holds
          obtain ⟨symbols, queue, nothing⟩ := onward.queue port
          refine ⟨by rw [queue, empty, nothing closed]; rfl, onward.ended port closed,
            fun direction => ?_⟩
          rw [onward.written, onward.taken]
          exact all direction

omit [DecidableEq Stream] in
theorem goto (different : name ≠ other) (stays : (state.turn other).isExited = false)
    (turn : Turn α) : Onward network name state (state.goto other turn) where
  turn := by rw [State.goto_turn, if_neg different]
  queue port := ⟨[], (List.append_nil _).symm, fun _ => rfl⟩
  ended _ closed := closed
  taken _ := rfl
  written _ := rfl
  exited third left := by
    rw [State.goto_turn, if_neg]
    · exact left
    · rintro rfl
      rw [stays] at left
      cases left

omit [DecidableEq Stream] in
theorem exit (different : name ≠ other) (atEnd : Option Port) :
    Onward network name state (exit network state other atEnd) where
  turn := by rw [exit_turn, if_neg different]
  queue port := ⟨[], (List.append_nil _).symm, fun _ => rfl⟩
  ended _ closed := Bool.or_eq_true_iff.mpr (.inl closed)
  taken _ := rfl
  written _ := rfl
  exited third left := by
    rw [exit_turn]
    split
    · rfl
    · exact left

omit [DecidableEq Name] in
theorem take (others : ∀ port, (network.relay name).source port ≠ stream) (count : Nat) :
    Onward network name state (state.take stream count) where
  turn := rfl
  queue port := ⟨[], by rw [State.take_queue, if_neg (others port), List.append_nil], fun _ => rfl⟩
  ended _ closed := closed
  taken port := by rw [State.take_taken, if_neg (others port)]
  written _ := rfl
  exited _ left := left

omit [DecidableEq Name] in
theorem put (others : ∀ port, (network.relay name).sink port ≠ stream)
    (isOpen : state.ended stream = false) (symbols : List α) :
    Onward network name state (state.put stream symbols) where
  turn := rfl
  queue port := by
    rw [State.put_queue]
    split
    case isTrue same =>
      exact ⟨symbols, by rw [same], fun closed => by rw [same, isOpen] at closed; cases closed⟩
    case isFalse => exact ⟨[], (List.append_nil _).symm, fun _ => rfl⟩
  ended _ closed := closed
  taken _ := rfl
  written port := by rw [State.put_written, if_neg (others port)]
  exited _ left := left

omit [DecidableEq Name] in
theorem close (stream : Stream) : Onward network name state (state.close stream) where
  turn := rfl
  queue port := ⟨[], (List.append_nil _).symm, fun _ => rfl⟩
  ended port closed := by
    rw [State.close_ended, closed, ite_self]
  taken _ := rfl
  written _ := rfl
  exited _ left := left

end Onward

/-- A call of another relay. -/
theorem Onward.call (sound : Sound network state) (different : name ≠ other) {count : Nat}
    (called : call network other count state = some after) : Onward network name state after := by
  cases call_cases called with
  | selected place => exact .goto different (by rw [place]; rfl) _
  | atEnd => exact .exit different _
  | @fetched port _ place =>
      have stays : ((state.take ((network.relay other).source port) count).turn other).isExited =
          false := congrArg Turn.isExited place
      exact (Onward.take (fun direction => network.source_ne different direction port) count).trans
        (.goto different stays _)
  | @stored port _ buf place =>
      have stays : ((state.put ((network.relay other).sink port) (buf.take count)).turn
          other).isExited = false := congrArg Turn.isExited place
      have isOpen : state.ended ((network.relay other).sink port) = false :=
        (sound.ended _ other (network.writer_sink other port)).trans stays
      exact (Onward.put (fun direction => network.sink_ne different direction port) isOpen _).trans
        (.goto different stays _)

/-- A clean step that is not the relay's own. -/
theorem Onward.step (sound : Sound network state) {action : Action Name Stream α}
    (clean : Clean network action state) (notMine : ∀ count, action ≠ .call name count)
    (notMe : action ≠ .kill name) (stepped : step network action state = some after) :
    Onward network name state after := by
  cases action with
  | call other count =>
      have different : name ≠ other := by
        rintro rfl
        exact notMine count rfl
      exact .call sound different stepped
  | fail other => cases clean
  | kill other =>
      have different : name ≠ other := by
        rintro rfl
        exact notMe rfl
      obtain ⟨_, rfl⟩ := Option.ite_none_left_eq_some.mp stepped |>.imp_right Option.some.inj
      exact .exit different _
  | arrive stream symbols =>
      obtain ⟨⟨outside, isOpen, _⟩, rfl⟩ :=
        Option.ite_none_right_eq_some.mp stepped |>.imp_right Option.some.inj
      refine .put (fun port same => ?_) isOpen symbols
      rw [← same, network.writer_sink] at outside
      cases outside
  | finish stream =>
      obtain ⟨_, rfl⟩ := Option.ite_none_right_eq_some.mp stepped |>.imp_right Option.some.inj
      exact .close stream
  | accept stream count =>
      obtain ⟨⟨outside, _⟩, rfl⟩ :=
        Option.ite_none_right_eq_some.mp stepped |>.imp_right Option.some.inj
      refine .take (fun port same => ?_) count
      rw [← same, network.reader_source] at outside
      cases outside
  | reset stream kept => cases clean

/-! #### A relay's own calls -/

/-- What a call has made sure of for the next one. -/
theorem Lossless.settled_call (lossless : Lossless network state) {count : Nat}
    (called : call network name count state = some after) : Settled network after name := by
  have here := lossless.settled name
  rw [Settled] at here
  cases call_cases called with
  | selected place ready second =>
      rw [Settled, State.goto_turn, if_pos rfl]
      exact ⟨ready, second⟩
  | @atEnd port _ place empty closed =>
      rw [Settled, exit_turn, if_pos rfl]
      refine ⟨empty, Bool.or_eq_true_iff.mpr (.inl closed), fun direction => ?_⟩
      have passed := lossless.sound.lossless name direction (lossless.unreported _)
        (by rw [place]; rfl)
      rw [place, Turn.carried_reading, List.append_nil] at passed
      exact passed
  | @fetched port _ place positive fits =>
      rw [place] at here
      rw [Settled, State.goto_turn, if_pos rfl]
      refine ⟨fun nothing => ?_, fun more => ⟨(here.2 more).1, ?_⟩⟩
      · have long := congrArg List.length nothing
        rw [List.length_take, List.length_nil] at long
        omega
      · have isFirst := (here.2 more).1
        subst isFirst
        have apart : (network.relay name).source .second ≠ (network.relay name).source .first :=
          fun same => nomatch network.source_injective name same
        show (state.take _ count).queue _ ≠ [] ∨ _
        rw [State.take_queue, if_neg apart]
        exact (here.2 more).2
  | @stored port also buf place positive fits =>
      rw [place] at here
      -- what is ready stays ready
      have ready (turn : Turn α) (second : state.Readable ((network.relay name).source .second)) :
          ((state.put ((network.relay name).sink port) (buf.take count)).goto name turn).Readable
            ((network.relay name).source .second) := by
        rcases second with bytes | closed
        · left
          show (state.put _ _).queue _ ≠ []
          rw [State.put_queue]
          split
          case isTrue same =>
            intro empty
            rw [same] at bytes
            exact bytes (List.append_eq_nil_iff.mp empty).1
          case isFalse => exact bytes
        · exact .inr closed
      rw [Settled, State.goto_turn, if_pos rfl]
      by_cases all : count = buf.length
      · rw [if_pos all]
        cases also with
        | false => trivial
        | true => exact ⟨ready _ (here.2 rfl).2, nofun⟩
      · rw [if_neg all]
        refine ⟨fun nothing => ?_, fun more => ⟨(here.2 more).1, ready _ (here.2 more).2⟩⟩
        have long := List.drop_eq_nil_iff.mp nothing
        omega

section Whole

variable (whole : ∀ stream, state.taken stream ++ state.queue stream = state.written stream)

include whole

omit [DecidableEq Name] in
theorem whole_take (source : Stream) (count : Nat) (stream : Stream) :
    (state.take source count).taken stream ++ (state.take source count).queue stream =
      state.written stream := by
  rw [State.take_taken, State.take_queue]
  split
  case isTrue same => rw [List.append_assoc, List.take_append_drop, ← same, whole]
  case isFalse => exact whole stream

omit [DecidableEq Name] in
theorem whole_put (sink : Stream) (symbols : List α) (stream : Stream) :
    state.taken stream ++ (state.put sink symbols).queue stream =
      (state.put sink symbols).written stream := by
  rw [State.put_queue, State.put_written]
  split
  case isTrue same => rw [← List.append_assoc, same, whole]
  case isFalse => exact whole stream

/-- Read and still there is what was written; a clean step keeps it so. -/
theorem whole_step {action : Action Name Stream α} (clean : Clean network action state)
    (stepped : step network action state = some after) (stream : Stream) :
    after.taken stream ++ after.queue stream = after.written stream := by
  cases action with
  | call name count =>
      cases call_cases stepped with
      | selected => exact whole stream
      | atEnd => exact whole stream
      | fetched => exact whole_take whole _ count stream
      | stored => exact whole_put whole _ _ stream
  | fail name => cases clean
  | kill name =>
      obtain ⟨_, rfl⟩ := Option.ite_none_left_eq_some.mp stepped |>.imp_right Option.some.inj
      exact whole stream
  | arrive source symbols =>
      obtain ⟨_, rfl⟩ := Option.ite_none_right_eq_some.mp stepped |>.imp_right Option.some.inj
      exact whole_put whole _ _ stream
  | finish source =>
      obtain ⟨_, rfl⟩ := Option.ite_none_right_eq_some.mp stepped |>.imp_right Option.some.inj
      exact whole stream
  | accept source count =>
      obtain ⟨_, rfl⟩ := Option.ite_none_right_eq_some.mp stepped |>.imp_right Option.some.inj
      exact whole_take whole _ count stream
  | reset source kept => cases clean

end Whole

/-- A clean step reports no write. -/
theorem unreported_step {action : Action Name Stream α} (clean : Clean network action state)
    (stepped : step network action state = some after) : after.short = state.short := by
  cases action with
  | call name count => cases call_cases stepped <;> rfl
  | fail name => cases clean
  | kill name =>
      obtain ⟨_, rfl⟩ := Option.ite_none_left_eq_some.mp stepped |>.imp_right Option.some.inj
      rfl
  | arrive source symbols =>
      obtain ⟨_, rfl⟩ := Option.ite_none_right_eq_some.mp stepped |>.imp_right Option.some.inj
      rfl
  | finish source =>
      obtain ⟨_, rfl⟩ := Option.ite_none_right_eq_some.mp stepped |>.imp_right Option.some.inj
      rfl
  | accept source count =>
      obtain ⟨_, rfl⟩ := Option.ite_none_right_eq_some.mp stepped |>.imp_right Option.some.inj
      rfl
  | reset source kept => cases clean

/-- The step lemma for what each relay has made sure of. -/
theorem Lossless.settled_step (lossless : Lossless network state) {action : Action Name Stream α}
    (clean : Clean network action state) (stepped : step network action state = some after)
    (name : Name) : Settled network after name := by
  by_cases mine : ∃ count, action = .call name count
  · obtain ⟨count, rfl⟩ := mine
    exact lossless.settled_call stepped
  by_cases killed : action = .kill name
  · subst killed
    obtain ⟨port, also, buf, reader, _, reads, left⟩ := clean
    obtain ⟨_, rfl⟩ := Option.ite_none_left_eq_some.mp stepped |>.imp_right Option.some.inj
    rw [Settled, exit_turn, if_pos rfl]
    refine ⟨port, reader, reads, ?_⟩
    rw [exit_turn]
    split
    · rfl
    · exact left
  · have onward := Onward.step lossless.sound clean (fun count same => mine ⟨count, same⟩) killed
      stepped
    exact onward.settled (lossless.settled name)

variable (network) in
/-- Nothing is lost in a run in which no call fails. -/
theorem lossless_inductive : (cleanSystem network).Inductive (Lossless (α := α) network) where
  init := by
    rintro state rfl
    exact ⟨started_sound, fun _ => rfl, fun _ => rfl, fun _ => trivial⟩
  step := by
    rintro before after lossless ⟨action, clean, stepped⟩
    exact {
      sound := lossless.sound.step stepped
      unreported := fun stream => by
        rw [unreported_step clean stepped]
        exact lossless.unreported stream
      whole := whole_step lossless.whole clean stepped
      settled := lossless.settled_step clean stepped }

/-! #### Where a relay is blocked -/

/-- No call of the relay goes on. -/
def Blocked (network : Network Name Stream) (state : State Name Stream α) (name : Name) : Prop :=
  ∀ count, call network name count state = none

/-- A relay is blocked in `select`, where neither direction is ready, or in a `write`
without room, or it has ended. -/
theorem Lossless.blocked_iff (lossless : Lossless network state) (name : Name) :
    Blocked network state name ↔
      (state.turn name = .selecting ∧
        ∀ port, ¬ state.Readable ((network.relay name).source port)) ∨
      (∃ port also buf, state.turn name = .writing port also buf ∧
        ¬ Room network state ((network.relay name).sink port) 1) ∨
      ∃ atEnd, state.turn name = .exited atEnd := by
  have here := lossless.settled name
  rw [Settled] at here
  unfold Blocked
  cases place : state.turn name with
  | selecting =>
      have calls (count : Nat) : call network name count state =
          if state.Readable ((network.relay name).source .first) then
            some (state.goto name (.reading .first
              (decide (state.Readable ((network.relay name).source .second)))))
          else if state.Readable ((network.relay name).source .second) then
            some (state.goto name (.reading .second false)) else none := by
        rw [Relays.call, place]
      constructor
      · intro blocked
        left
        have none_ := (calls 0).symm.trans (blocked 0)
        refine ⟨rfl, fun port => ?_⟩
        split at none_
        · cases none_
        split at none_
        · cases none_
        case isFalse first second =>
          cases port with
          | first => exact first
          | second => exact second
      · rintro (⟨_, waits⟩ | ⟨_, _, _, isWriting, _⟩ | ⟨_, isExited⟩)
        · intro count
          rw [calls, if_neg (waits .first), if_neg (waits .second)]
        · cases isWriting
        · cases isExited
  | reading port also =>
      rw [place] at here
      refine iff_of_false (fun blocked => ?_) ?_
      · have none_ := blocked 1
        rw [Relays.call, place] at none_
        dsimp only at none_
        rcases here.1 with bytes | closed
        · have long := List.length_pos_iff.mpr bytes
          have room := network.bufSize_pos name
          rw [if_neg bytes, if_pos ⟨Nat.one_pos, room, long⟩] at none_
          cases none_
        · by_cases empty : state.queue ((network.relay name).source port) = []
          · rw [if_pos empty, if_pos closed] at none_
            cases none_
          · have long := List.length_pos_iff.mpr empty
            have room := network.bufSize_pos name
            rw [if_neg empty, if_pos ⟨Nat.one_pos, room, long⟩] at none_
            cases none_
      · rintro (⟨isSelecting, _⟩ | ⟨_, _, _, isWriting, _⟩ | ⟨_, isExited⟩)
        · cases isSelecting
        · cases isWriting
        · cases isExited
  | writing port also buf =>
      rw [place] at here
      have long := List.length_pos_iff.mpr here.1
      have calls (count : Nat) (fits : ¬ (0 < count ∧ count ≤ buf.length ∧
          Room network state ((network.relay name).sink port) count)) :
          call network name count state = none := by
        rw [Relays.call, place]
        exact if_neg fits
      constructor
      · intro blocked
        refine .inr (.inl ⟨port, also, buf, rfl, fun room => ?_⟩)
        have none_ := blocked 1
        rw [Relays.call, place] at none_
        dsimp only at none_
        rw [if_pos ⟨Nat.one_pos, long, room⟩] at none_
        cases none_
      · rintro (⟨isSelecting, _⟩ | ⟨_, _, _, isWriting, full⟩ | ⟨_, isExited⟩)
        · cases isSelecting
        · cases isWriting
          intro count
          apply calls
          rintro ⟨positive, _, room⟩
          exact full fun capacity bounded => (Nat.add_le_add_left positive _).trans
            (room capacity bounded)
        · cases isExited
  | exited atEnd =>
      refine iff_of_true (fun count => ?_) (.inr (.inr ⟨atEnd, rfl⟩))
      rw [Relays.call, place]

/-! #### How long relays can go on -/

section Measure

/-- The calls of a turn that are left, apart from those for the bytes. -/
def Turn.weight : Turn α → Nat
  | .selecting => 3
  | .reading .first _ => 2
  | .reading .second _ => 1
  | .writing _ _ _ => 3
  | .exited _ => 0

/-- The bytes a relay carries, each with what is left of its way. -/
def work (network : Network Name Stream) (rank : Stream → Nat) (name : Name) (turn : Turn α) :
    Nat :=
  turn.weight +
    ((4 * rank ((network.relay name).sink .first) + 1) * (turn.carried .first).length +
      (4 * rank ((network.relay name).sink .second) + 1) * (turn.carried .second).length)

/-- A bound for the calls that are left. `rank` says how many relays a stream is away
from the outside. -/
def callsLeft [Fintype Name] [Fintype Stream] (network : Network Name Stream)
    (rank : Stream → Nat) (state : State Name Stream α) : Nat :=
  ∑ stream, 4 * rank stream * (state.queue stream).length +
    ∑ name, work network rank name (state.turn name)

omit [DecidableEq Name] [DecidableEq Stream] in
theorem work_of_idle {rank : Stream → Nat} {turn : Turn α} (nothing : turn.carried = fun _ => []) :
    work network rank name turn = turn.weight := by
  rw [work, nothing]
  rfl

omit [DecidableEq Name] [DecidableEq Stream] in
theorem work_writing {rank : Stream → Nat} (port : Port) (also : Bool) (buf : List α) :
    work network rank name (.writing port also buf) =
      3 + (4 * rank ((network.relay name).sink port) + 1) * buf.length := by
  rw [work, Turn.carried_writing, Turn.carried_writing]
  cases port <;> simp [Turn.weight]

variable [Fintype Name] [Fintype Stream] {rank : Stream → Nat}

omit [DecidableEq Stream] [Fintype Stream] in
/-- A change of one turn. -/
theorem sum_work_goto (network : Network Name Stream) (rank : Stream → Nat)
    (state : State Name Stream α) (name : Name) (turn : Turn α) :
    ∑ other, work network rank other ((state.goto name turn).turn other) +
        work network rank name (state.turn name) =
      ∑ other, work network rank other (state.turn other) + work network rank name turn := by
  have others : ∀ other, other ≠ name →
      work network rank other ((state.goto name turn).turn other) =
        work network rank other (state.turn other) := by
    intro other different
    rw [State.goto_turn, if_neg different]
  have sums := sum_add_eq_sum_add name others
  rwa [State.goto_turn, if_pos rfl] at sums

omit [DecidableEq Name] [Fintype Name] in
/-- A change of one queue. -/
theorem sum_queue (rank : Stream → Nat) (state after : State Name Stream α) {source : Stream}
    (others : ∀ stream, stream ≠ source → after.queue stream = state.queue stream) :
    ∑ stream, 4 * rank stream * (after.queue stream).length +
        4 * rank source * (state.queue source).length =
      ∑ stream, 4 * rank stream * (state.queue stream).length +
        4 * rank source * (after.queue source).length := by
  have same : ∀ stream, stream ≠ source → 4 * rank stream * (after.queue stream).length =
      4 * rank stream * (state.queue stream).length := by
    intro stream different
    rw [others stream different]
  exact sum_add_eq_sum_add source same

omit [DecidableEq Stream] in
theorem callsLeft_goto (network : Network Name Stream) (rank : Stream → Nat)
    (state : State Name Stream α) (name : Name) (turn : Turn α) :
    callsLeft network rank (state.goto name turn) + work network rank name (state.turn name) =
      callsLeft network rank state + work network rank name turn := by
  have works := sum_work_goto network rank state name turn
  rw [callsLeft, callsLeft]
  show ∑ stream, 4 * rank stream * (state.queue stream).length + _ + _ = _
  omega

omit [DecidableEq Name] in
theorem callsLeft_take (network : Network Name Stream) (rank : Stream → Nat)
    (state : State Name Stream α) {source : Stream} {count : Nat}
    (fits : count ≤ (state.queue source).length) :
    callsLeft network rank (state.take source count) + 4 * rank source * count =
      callsLeft network rank state := by
  have queues := sum_queue rank state (state.take source count)
    fun stream (different : stream ≠ source) => by rw [State.take_queue, if_neg different]
  obtain ⟨rest, length⟩ := Nat.exists_eq_add_of_le fits
  rw [State.take_queue, if_pos rfl, List.length_drop, length, Nat.add_sub_cancel_left,
    Nat.mul_add] at queues
  rw [callsLeft, callsLeft]
  show _ + ∑ other, work network rank other (state.turn other) + _ = _
  omega

omit [DecidableEq Name] in
theorem callsLeft_put (network : Network Name Stream) (rank : Stream → Nat)
    (state : State Name Stream α) (sink : Stream) (symbols : List α) :
    callsLeft network rank (state.put sink symbols) =
      callsLeft network rank state + 4 * rank sink * symbols.length := by
  have queues := sum_queue rank state (state.put sink symbols)
    fun stream (different : stream ≠ sink) => by rw [State.put_queue, if_neg different]
  rw [State.put_queue, if_pos rfl, List.length_append, Nat.mul_add] at queues
  rw [callsLeft, callsLeft]
  show _ + ∑ other, work network rank other (state.turn other) = _
  omega

/-- Every call of a relay brings a byte on its way, or the relay to its end. -/
theorem callsLeft_lt
    (descends : ∀ name port, rank ((network.relay name).sink port) <
      rank ((network.relay name).source port)) {count : Nat}
    (called : call network name count state = some after) :
    callsLeft network rank after < callsLeft network rank state := by
  cases call_cases called with
  | @selected port also place =>
      have left := callsLeft_goto network rank state name (.reading port also)
      rw [place, work_of_idle rfl, work_of_idle rfl] at left
      have less : (Turn.reading port also : Turn α).weight < (Turn.selecting : Turn α).weight := by
        cases port <;> simp [Turn.weight]
      omega
  | @atEnd port also place =>
      have left := callsLeft_goto network rank state name (.exited (some port))
      rw [place, work_of_idle rfl, work_of_idle rfl] at left
      have less : (Turn.exited (some port) : Turn α).weight <
          (Turn.reading port also : Turn α).weight := by
        cases port <;> simp [Turn.weight]
      show callsLeft network rank (state.goto name (.exited (some port))) < _
      omega
  | @fetched port also place positive fits =>
      have taken := callsLeft_take network rank state fits
      have left := callsLeft_goto network rank
        (state.take ((network.relay name).source port) count) name
        (.writing port also ((state.queue ((network.relay name).source port)).take count))
      have place' : (state.take ((network.relay name).source port) count).turn name =
          .reading port also := place
      rw [place', work_of_idle rfl, work_writing, List.length_take_of_le fits, Nat.add_mul,
        Nat.one_mul] at left
      -- a byte loses more of its way than the turn gains
      have lower := Nat.mul_le_mul_right count (Nat.mul_le_mul_left 4 (descends name port))
      rw [Nat.mul_succ, Nat.add_mul] at lower
      have begins : 1 ≤ (Turn.reading port also : Turn α).weight := by
        cases port <;> simp [Turn.weight]
      omega
  | @stored port also buf place positive fits =>
      obtain ⟨rest, length⟩ := Nat.exists_eq_add_of_le fits
      have put := callsLeft_put network rank state ((network.relay name).sink port)
        (buf.take count)
      rw [List.length_take_of_le fits] at put
      have left := callsLeft_goto network rank
        (state.put ((network.relay name).sink port) (buf.take count)) name
        (if count = buf.length then .next also else .writing port also (buf.drop count))
      have place' : (state.put ((network.relay name).sink port) (buf.take count)).turn name =
          .writing port also buf := place
      rw [place', work_writing, length, Nat.mul_add, Nat.add_mul _ 1 count, Nat.add_mul _ 1 rest,
        Nat.one_mul, Nat.one_mul] at left
      split at left
      case isTrue all =>
        have short : (Turn.next also : Turn α).weight ≤ 3 := by
          cases also
          · exact Nat.le_refl 3
          · exact Nat.le_add_left 1 2
        rw [work_of_idle (funext (Turn.carried_next also))] at left
        rw [length, if_pos all]
        omega
      case isFalse some_ =>
        rw [work_writing, List.length_drop, length, Nat.add_sub_cancel_left, Nat.add_mul,
          Nat.one_mul] at left
        rw [length, if_neg some_]
        omega

end Measure

/-! #### Ends of relays -/

/-- An end is for good. -/
theorem exited_step (sound : Sound network state) {action : Action Name Stream α}
    (clean : Clean network action state) (stepped : step network action state = some after)
    {atEnd : Option Port} (left : state.turn name = .exited atEnd) :
    after.turn name = .exited atEnd := by
  by_cases mine : ∃ count, action = .call name count
  · obtain ⟨count, rfl⟩ := mine
    cases call_cases stepped with
    | selected place => rw [left] at place; cases place
    | atEnd place => rw [left] at place; cases place
    | fetched place => rw [left] at place; cases place
    | stored place => rw [left] at place; cases place
  by_cases killed : action = .kill name
  · subst killed
    obtain ⟨port, also, buf, _, isWriting, _⟩ := clean
    rw [left] at isWriting
    cases isWriting
  · have onward := Onward.step sound clean (fun count same => mine ⟨count, same⟩) killed stepped
    exact onward.turn.trans left

/-- A relay that has just found the end of a stream was reading it. -/
theorem exited_cases (sound : Sound network state) {action : Action Name Stream α}
    (clean : Clean network action state) (stepped : step network action state = some after)
    (left : after.turn name = .exited (some port)) :
    state.turn name = .exited (some port) ∨
      ∃ also, state.turn name = .reading port also ∧
        state.ended ((network.relay name).source port) = true := by
  by_cases mine : ∃ count, action = .call name count
  · obtain ⟨count, rfl⟩ := mine
    cases call_cases stepped with
    | selected => rw [State.goto_turn, if_pos rfl] at left; cases left
    | @atEnd _ also place _ closed =>
        rw [exit_turn, if_pos rfl] at left
        cases left
        exact .inr ⟨also, place, closed⟩
    | fetched => rw [State.goto_turn, if_pos rfl] at left; cases left
    | @stored _ also =>
        rw [State.goto_turn, if_pos rfl] at left
        split at left
        · cases also <;> cases left
        · cases left
  by_cases killed : action = .kill name
  · subst killed
    obtain ⟨_, rfl⟩ := Option.ite_none_left_eq_some.mp stepped |>.imp_right Option.some.inj
    rw [exit_turn, if_pos rfl] at left
    cases left
  · have onward := Onward.step sound clean (fun count same => mine ⟨count, same⟩) killed stepped
    exact .inl (onward.turn.symm.trans left)

omit [DecidableEq Name] [DecidableEq Stream] in
/-- Where a relay found the end of a stream, it had passed on everything. -/
theorem Lossless.hop_atEnd (lossless : Lossless network state)
    (left : state.turn name = .exited (some port)) :
    state.written ((network.relay name).sink port) =
      state.written ((network.relay name).source port) := by
  have here := lossless.settled name
  rw [Settled, left] at here
  obtain ⟨empty, _, all⟩ := here
  rw [all port, ← lossless.whole, empty, List.append_nil]

omit [DecidableEq Name] [DecidableEq Stream] in
/-- So has a relay that waits where nothing is left. -/
theorem Lossless.hop_idle (lossless : Lossless network state)
    (waits : state.turn name = .selecting)
    (empty : ¬ state.Readable ((network.relay name).source port)) :
    state.written ((network.relay name).sink port) =
      state.written ((network.relay name).source port) := by
  have passed := lossless.sound.lossless name port (lossless.unreported _) (by rw [waits]; rfl)
  rw [waits, Turn.carried_selecting, List.append_nil] at passed
  have nothing : state.queue ((network.relay name).source port) = [] :=
    not_not.mp fun bytes => empty (.inl bytes)
  rw [passed, ← lossless.whole, nothing, List.append_nil]

end Clean

end Relays

end LinuxProgramming.Library
