import LinuxProgramming.Library.CInt
import LinuxProgramming.Library.Ranges

/-!
Contract: the sequence server `sysvmsgserver` on System V message queues.

Owns:
- the request loop, with everything that ends it;
- which request sequences its limit test is sound for;
- a request for which the test overflows.

Does not own: the client, or the queues themselves.
-/

namespace LinuxProgramming.Messages

open LinuxProgramming.Library
open CInt

def RESP_MT_FAILURE : Int := 1

def RESP_MT_DATA : Int := 2

/-- `struct request_msg`; its type is not used. -/
structure RequestMsg where
  client_id : Int
  seq_length : Int
deriving DecidableEq, Repr

/-- `struct response_msg`. -/
structure ResponseMsg where
  mtype : Int
  seq_num : Int
deriving DecidableEq, Repr

/-- What an iteration meets: `msgrcv` interrupted by a signal or failing, or a request,
for which the `fork` succeeds or not. -/
inductive Received where
  | interrupted
  | failed
  | message (req : RequestMsg) (forks : Bool)
deriving DecidableEq, Repr

/-- One request, the counter before and after it, and the type of the response. -/
structure Handled where
  req : RequestMsg
  client_seq_num : Int
  mtype : Int
  seq_num : Int
deriving DecidableEq, Repr

/-- The limit test and what depends on it. -/
def handle (req : RequestMsg) (seq_num : Int) : Handled :=
  if wrap (seq_num + req.seq_length) < INT_MAX then
    ⟨req, seq_num, RESP_MT_DATA, wrap (seq_num + req.seq_length)⟩
  else ⟨req, seq_num, RESP_MT_FAILURE, 0⟩

/-- What the child sends to `req.client_id`. -/
def Handled.response (handled : Handled) : ResponseMsg :=
  ⟨handled.mtype, handled.client_seq_num⟩

/-- The loop of `main`: every request it handles. After a failing `fork` the last one
gets no response. -/
def requestLoop : List Received → Int → List Handled
  | [], _ => []
  | .interrupted :: rest, seq_num => requestLoop rest seq_num
  | .failed :: _, _ => []
  | .message req forks :: rest, seq_num =>
      let handled := handle req seq_num
      if forks then handled :: requestLoop rest handled.seq_num else [handled]

/-- The requests the loop comes to. -/
def requests : List Received → List RequestMsg
  | [] => []
  | .interrupted :: rest => requests rest
  | .failed :: _ => []
  | .message req forks :: rest => if forks then req :: requests rest else [req]

/-- The numbers a request asks for, from the counter on. -/
def Handled.range (handled : Handled) : Range :=
  ⟨handled.client_seq_num, handled.req.seq_length⟩

/-- What the limit test is there for. -/
structure Sound (run : List Handled) : Prop where
  noOverflow : ∀ handled ∈ run, IsInt (handled.client_seq_num + handled.req.seq_length)
  nonneg : ∀ handled ∈ run, 0 ≤ handled.client_seq_num ∧ 0 ≤ handled.seq_num
  /-- Between failures, granted ranges are disjoint and end below `INT_MAX`. -/
  granted : ∀ part, part <:+: run → (∀ handled ∈ part, handled.mtype = RESP_MT_DATA) →
    (part.map Handled.range).Pairwise Range.Disjoint ∧
      ∀ handled ∈ part, handled.range.finish < INT_MAX

/-- No request exceeds what is left up to `INT_MAX`, where `total` numbers were granted
since the last failure. -/
def Within : Int → List RequestMsg → Prop
  | _, [] => True
  | total, req :: rest =>
      total + req.seq_length ≤ INT_MAX ∧
        Within (if total + req.seq_length < INT_MAX then total + req.seq_length else 0) rest

instance decidableWithin : ∀ total reqs, Decidable (Within total reqs)
  | _, [] => isTrue trivial
  | total, req :: rest =>
      have := decidableWithin
        (if total + req.seq_length < INT_MAX then total + req.seq_length else 0) rest
      inferInstanceAs (Decidable (_ ∧ _))

/-! ### One request -/

/-- Below the limit the test does what it says. -/
theorem handle_within {req : RequestMsg} {seq_num : Int} (nonneg : 0 ≤ seq_num)
    (length : 0 ≤ req.seq_length) (within : seq_num + req.seq_length ≤ INT_MAX) :
    handle req seq_num =
      if seq_num + req.seq_length < INT_MAX then
        ⟨req, seq_num, RESP_MT_DATA, seq_num + req.seq_length⟩
      else ⟨req, seq_num, RESP_MT_FAILURE, 0⟩ := by
  rw [handle, wrap_of_nonneg (by omega) within]

/-- The counter after a request below the limit is the total of `Within`. -/
theorem handle_seq_num {req : RequestMsg} {seq_num : Int} (nonneg : 0 ≤ seq_num)
    (length : 0 ≤ req.seq_length) (within : seq_num + req.seq_length ≤ INT_MAX) :
    (handle req seq_num).seq_num =
      if seq_num + req.seq_length < INT_MAX then seq_num + req.seq_length else 0 := by
  rw [handle_within nonneg length within]
  split <;> rfl

theorem total_nonneg {total length : Int} (nonneg : 0 ≤ total) (lengthNonneg : 0 ≤ length) :
    0 ≤ if total + length < INT_MAX then total + length else 0 := by
  split <;> omega

theorem handle_client_seq_num (req : RequestMsg) (seq_num : Int) :
    (handle req seq_num).client_seq_num = seq_num ∧ (handle req seq_num).req = req := by
  rw [handle]
  split <;> exact ⟨rfl, rfl⟩

/-! ### All requests -/

/-- The requests one after the other. -/
def handleAll : List RequestMsg → Int → List Handled
  | [], _ => []
  | req :: rest, seq_num => handle req seq_num :: handleAll rest (handle req seq_num).seq_num

theorem requestLoop_eq (received : List Received) (seq_num : Int) :
    requestLoop received seq_num = handleAll (requests received) seq_num := by
  induction received generalizing seq_num with
  | nil => rfl
  | cons first rest inductionHypothesis =>
      match first with
      | .interrupted => exact inductionHypothesis seq_num
      | .failed => rfl
      | .message req true => exact congrArg _ (inductionHypothesis _)
      | .message req false => rfl

section Run

variable {reqs : List RequestMsg} {seq_num : Int}

/-- The counter and the sum of the limit test over a run. -/
theorem handleAll_bounds (nonneg : 0 ≤ seq_num) (lengths : ∀ req ∈ reqs, 0 ≤ req.seq_length)
    (within : Within seq_num reqs) :
    ∀ handled ∈ handleAll reqs seq_num,
      IsInt (handled.client_seq_num + handled.req.seq_length) ∧
        0 ≤ handled.client_seq_num ∧ 0 ≤ handled.seq_num := by
  induction reqs generalizing seq_num with
  | nil => exact fun _ member => by cases member
  | cons req rest inductionHypothesis =>
      have length := lengths req List.mem_cons_self
      obtain ⟨fits, later⟩ := within
      have next := handle_seq_num nonneg length fits
      have nextNonneg := total_nonneg nonneg length
      obtain ⟨before, same⟩ := handle_client_seq_num req seq_num
      intro handled member
      obtain rfl | inRest := List.mem_cons.mp member
      · rw [before, same, next]
        exact ⟨⟨by rw [INT_MIN]; omega, fits⟩, nonneg, nextNonneg⟩
      · rw [next] at inRest
        exact inductionHypothesis nextNonneg
          (fun other inList => lengths other (List.mem_cons_of_mem _ inList)) later handled inRest

/-- Until the first failure, the granted ranges lie one behind the other. -/
theorem prefix_granted (nonneg : 0 ≤ seq_num) (lengths : ∀ req ∈ reqs, 0 ≤ req.seq_length)
    (within : Within seq_num reqs) {part : List Handled}
    (starts : part <+: handleAll reqs seq_num)
    (data : ∀ handled ∈ part, handled.mtype = RESP_MT_DATA) :
    (part.map Handled.range).Pairwise Range.Before ∧
      ∀ handled ∈ part, seq_num ≤ handled.range.first ∧ handled.range.finish < INT_MAX := by
  induction reqs generalizing seq_num part with
  | nil =>
      rw [List.prefix_nil.mp starts]
      exact ⟨.nil, fun _ member => by cases member⟩
  | cons req rest inductionHypothesis =>
      cases part with
      | nil => exact ⟨.nil, fun _ member => by cases member⟩
      | cons handled others =>
          obtain ⟨rfl, othersStart⟩ := List.cons_prefix_cons.mp starts
          have length := lengths req List.mem_cons_self
          obtain ⟨fits, later⟩ := within
          have granted := data _ List.mem_cons_self
          have below : seq_num + req.seq_length < INT_MAX := by
            by_contra reached
            rw [handle_within nonneg length fits, if_neg reached] at granted
            have failed : RESP_MT_FAILURE = RESP_MT_DATA := granted
            exact absurd failed (by decide)
          rw [handle_within nonneg length fits, if_pos below] at othersStart ⊢
          rw [if_pos below] at later
          obtain ⟨ordered, bounds⟩ := inductionHypothesis (Int.add_nonneg nonneg length)
            (fun other inList => lengths other (List.mem_cons_of_mem _ inList)) later othersStart
            fun other inList => data other (List.mem_cons_of_mem _ inList)
          constructor
          · refine .cons ?_ ordered
            intro range inRanges
            obtain ⟨other, inList, rfl⟩ := List.mem_map.mp inRanges
            exact (bounds other inList).1
          · intro other member
            obtain rfl | inList := List.mem_cons.mp member
            · exact ⟨Int.le_refl _, below⟩
            · obtain ⟨above, ends⟩ := bounds other inList
              exact ⟨(Int.le_add_of_nonneg_right length).trans above, ends⟩

/-- A part of a run without failures is a prefix of a later run. -/
theorem infix_granted (nonneg : 0 ≤ seq_num) (lengths : ∀ req ∈ reqs, 0 ≤ req.seq_length)
    (within : Within seq_num reqs) {part : List Handled}
    (inside : part <:+: handleAll reqs seq_num)
    (data : ∀ handled ∈ part, handled.mtype = RESP_MT_DATA) :
    (part.map Handled.range).Pairwise Range.Before ∧
      ∀ handled ∈ part, handled.range.finish < INT_MAX := by
  have ofPrefix {reqs : List RequestMsg} {seq_num : Int} (nonneg : 0 ≤ seq_num)
      (lengths : ∀ req ∈ reqs, 0 ≤ req.seq_length) (within : Within seq_num reqs)
      (starts : part <+: handleAll reqs seq_num) :
      (part.map Handled.range).Pairwise Range.Before ∧
        ∀ handled ∈ part, handled.range.finish < INT_MAX :=
    (prefix_granted nonneg lengths within starts data).imp_right fun bounds handled member =>
      (bounds handled member).2
  induction reqs generalizing seq_num with
  | nil => exact ofPrefix nonneg lengths within (List.infix_nil.mp inside ▸ List.prefix_refl _)
  | cons req rest inductionHypothesis =>
      obtain starts | later := List.infix_cons_iff.mp inside
      · exact ofPrefix nonneg lengths within starts
      · have length := lengths req List.mem_cons_self
        rw [handle_seq_num nonneg length within.1] at later
        exact inductionHypothesis (total_nonneg nonneg length)
          (fun other inList => lengths other (List.mem_cons_of_mem _ inList)) within.2 later

/-- Without overflow, no request exceeds what is left. -/
theorem Within.of_noOverflow (nonneg : 0 ≤ seq_num)
    (lengths : ∀ req ∈ reqs, 0 ≤ req.seq_length)
    (noOverflow : ∀ handled ∈ handleAll reqs seq_num,
      IsInt (handled.client_seq_num + handled.req.seq_length)) : Within seq_num reqs := by
  induction reqs generalizing seq_num with
  | nil => trivial
  | cons req rest inductionHypothesis =>
      have length := lengths req List.mem_cons_self
      obtain ⟨before, same⟩ := handle_client_seq_num req seq_num
      have first := noOverflow _ List.mem_cons_self
      rw [before, same] at first
      refine ⟨first.2, inductionHypothesis (total_nonneg nonneg length)
        (fun other inList => lengths other (List.mem_cons_of_mem _ inList)) ?_⟩
      intro handled member
      rw [← handle_seq_num nonneg length first.2] at member
      exact noOverflow handled (List.mem_cons_of_mem _ member)

/-- Where a request exceeds what is left, the addition wraps around: the request is
granted, and the counter becomes negative. -/
theorem exists_negative (nonneg : 0 ≤ seq_num) (isInt : seq_num ≤ INT_MAX)
    (lengths : ∀ req ∈ reqs, 0 ≤ req.seq_length ∧ req.seq_length ≤ INT_MAX)
    (exceeds : ¬ Within seq_num reqs) :
    ∃ handled ∈ handleAll reqs seq_num, handled.mtype = RESP_MT_DATA ∧ handled.seq_num < 0 := by
  induction reqs generalizing seq_num with
  | nil => exact absurd trivial exceeds
  | cons req rest inductionHypothesis =>
      obtain ⟨length, isIntLength⟩ := lengths req List.mem_cons_self
      by_cases fits : seq_num + req.seq_length ≤ INT_MAX
      · have next := handle_seq_num nonneg length fits
        have smaller : (handle req seq_num).seq_num ≤ INT_MAX := by
          rw [next]
          split
          · exact fits
          · decide
        obtain ⟨handled, member, negative⟩ := inductionHypothesis
          (next ▸ total_nonneg nonneg length) smaller
          (fun other inList => lengths other (List.mem_cons_of_mem _ inList))
          (fun within => exceeds ⟨fits, next ▸ within⟩)
        exact ⟨handled, List.mem_cons_of_mem _ member, negative⟩
      · have wrapped : wrap (seq_num + req.seq_length) < 0 := by
          simp only [INT_MAX] at isInt isIntLength fits
          rw [wrap, Int.bmod_def]
          omega
        have below : wrap (seq_num + req.seq_length) < INT_MAX :=
          wrapped.trans (by decide)
        refine ⟨_, List.mem_cons_self, ?_⟩
        rw [handle, if_pos below]
        exact ⟨rfl, wrapped⟩

end Run

/-- The limit test is sound for exactly the sequences of requests of which none asks for
more than `INT_MAX` less what was granted since the last failure. -/
theorem requestLoop_sound (received : List Received)
    (lengths : ∀ req ∈ requests received, 0 ≤ req.seq_length ∧ req.seq_length ≤ INT_MAX) :
    Sound (requestLoop received 0) ↔ Within 0 (requests received) := by
  have nonneg : ∀ req ∈ requests received, 0 ≤ req.seq_length := fun req member =>
    (lengths req member).1
  rw [requestLoop_eq]
  constructor
  · intro sound
    exact .of_noOverflow (Int.le_refl 0) nonneg sound.noOverflow
  · intro within
    have bounds := handleAll_bounds (Int.le_refl 0) nonneg within
    refine ⟨fun handled member => (bounds handled member).1,
      fun handled member => (bounds handled member).2, ?_⟩
    intro part inside data
    obtain ⟨ordered, ends⟩ := infix_granted (Int.le_refl 0) nonneg within inside data
    exact ⟨ordered.imp Range.Before.disjoint, ends⟩

/-- A request that exhausts the numbers, and two after the failure. -/
theorem requestLoop_sound_exhausted :
    Sound (requestLoop [.message ⟨7, 10⟩ true, .interrupted, .message ⟨8, 2147483637⟩ true,
      .message ⟨7, 5⟩ true, .message ⟨8, 0⟩ true] 0) :=
  (requestLoop_sound _ (by decide)).mpr (by decide)

/-- A request for `INT_MAX` numbers after one for a single number: the sum overflows, the
request is granted and the counter is negative. -/
theorem requestLoop_overflows :
    requestLoop [.message ⟨7, 1⟩ true, .message ⟨8, INT_MAX⟩ true] 0 =
        [⟨⟨7, 1⟩, 0, RESP_MT_DATA, 1⟩, ⟨⟨8, INT_MAX⟩, 1, RESP_MT_DATA, INT_MIN⟩] ∧
      ¬ Sound (requestLoop [.message ⟨7, 1⟩ true, .message ⟨8, INT_MAX⟩ true] 0) := by
  have run : requestLoop [.message ⟨7, 1⟩ true, .message ⟨8, INT_MAX⟩ true] 0 =
      [⟨⟨7, 1⟩, 0, RESP_MT_DATA, 1⟩, ⟨⟨8, INT_MAX⟩, 1, RESP_MT_DATA, INT_MIN⟩] := by
    decide
  refine ⟨run, fun sound => ?_⟩
  rw [run] at sound
  exact absurd (sound.noOverflow _ (List.mem_cons_of_mem _ List.mem_cons_self)) (by decide)

end LinuxProgramming.Messages
