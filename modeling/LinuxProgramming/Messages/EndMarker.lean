import LinuxProgramming.Messages.FileTransfer
import Mathlib.Data.List.Basic

/-!
Contract: the child of `svmsg_file_server` when its `read` and `msgsnd` may fail.

Owns:
- `serverRequest` for every outcome of each of its calls, and what it sends;
- for which outcomes the end message follows the whole file.

Does not own: the client and its queue. A `msgsnd` that waits for room simply takes
its outcome later.
-/

namespace LinuxProgramming.Messages.FileTransfer

/-- How a `read` goes: it fails, or it is short of `RESP_MSG_SIZE` and of the end of the
file by as much as `upTo count` says, which is at least one byte. -/
inductive ReadOutcome where
  | failed
  | upTo (count : Nat)
deriving DecidableEq, Repr

/-- How a `msgsnd` goes. `killed` is the `SIGALRM` of `alarm(10)`, for which no handler
is installed. -/
inductive SendOutcome where
  | sent
  | failed
  | killed
deriving DecidableEq, Repr

/-- The outcomes of all calls of one child: those of the loop by iteration, and those of
the messages that the two ends of the function send. -/
structure Outcomes where
  read : Nat → ReadOutcome
  msgsnd : Nat → SendOutcome
  msgsndFailure : SendOutcome
  msgsndEnd : SendOutcome

/-- The outcomes from the next iteration on. -/
def Outcomes.next (outcomes : Outcomes) : Outcomes where
  read iteration := outcomes.read (iteration + 1)
  msgsnd iteration := outcomes.msgsnd (iteration + 1)
  msgsndFailure := outcomes.msgsndFailure
  msgsndEnd := outcomes.msgsndEnd

/-- The most that a `read` takes. -/
def ReadOutcome.size : ReadOutcome → Nat
  | .failed => 0
  | .upTo count => min RESP_MSG_SIZE (count + 1)

/-- The messages of the loop, with `rest` before it in the file, and whether the child
is alive after it. -/
def sendLoop (outcomes : Outcomes) (rest : List UInt8) : List Message × Bool :=
  match outcomes.read 0 with
  | .failed => ([], true)
  | .upTo count =>
      let numRead := min RESP_MSG_SIZE (count + 1)
      if rest = [] then ([], true)
      else
        match outcomes.msgsnd 0 with
        | .killed => ([], false)
        | .failed => ([], true)
        | .sent =>
            let later := sendLoop outcomes.next (rest.drop numRead)
            (⟨RESP_MT_DATA, rest.take numRead⟩ :: later.1, later.2)
termination_by rest.length
decreasing_by
  have := List.length_pos_of_ne_nil ‹rest ≠ []›
  simp only [List.length_drop, RESP_MSG_SIZE]
  omega

def SendOutcome.send (outcome : SendOutcome) (message : Message) : List Message :=
  if outcome = .sent then [message] else []

/-- What the child sends for a request; `file` is `none` if it cannot be opened. -/
def serverRequest (outcomes : Outcomes) (file : Option (List UInt8)) : List Message :=
  match file with
  | none => outcomes.msgsndFailure.send ⟨RESP_MT_FAILURE, couldntOpen⟩
  | some bytes =>
      let loop := sendLoop outcomes bytes
      if loop.2 then loop.1 ++ outcomes.msgsndEnd.send ⟨RESP_MT_END, []⟩ else loop.1

/-- No call fails, and every `read` takes what there is. -/
def allSucceed : Outcomes where
  read _ := .upTo RESP_MSG_SIZE
  msgsnd _ := .sent
  msgsndFailure := .sent
  msgsndEnd := .sent

theorem sendLoop_allSucceed (rest : List UInt8) :
    (sendLoop allSucceed rest).1 ++ [⟨RESP_MT_END, []⟩] = replies rest ∧
      (sendLoop allSucceed rest).2 = true := by
  induction rest using replies.induct with
  | case1 => simp [sendLoop, allSucceed, replies_nil]
  | case2 rest nonempty inductionHypothesis =>
      have unfolded : sendLoop allSucceed rest =
          (⟨RESP_MT_DATA, rest.take RESP_MSG_SIZE⟩ ::
              (sendLoop allSucceed (rest.drop RESP_MSG_SIZE)).1,
            (sendLoop allSucceed (rest.drop RESP_MSG_SIZE)).2) := by
        rw [sendLoop.eq_def]
        exact if_neg nonempty
      rw [replies_cons nonempty, ← inductionHypothesis.1, unfolded]
      exact ⟨rfl, inductionHypothesis.2⟩

/-- Such a child sends what the client is answered. -/
theorem serverRequest_allSucceed (file : Option (List UInt8)) :
    serverRequest allSucceed file = answer file := by
  cases file with
  | none => rfl
  | some bytes =>
      obtain ⟨sent, alive⟩ := sendLoop_allSucceed bytes
      simp only [serverRequest, alive, if_true]
      exact sent

/-! ### What the end message promises -/

/-- The bytes of the data messages. -/
def payloads (sent : List Message) : List UInt8 :=
  (sent.filter fun message => message.mtype = RESP_MT_DATA).flatMap Message.data

/-- An end message is sent only after the whole file. -/
def Truthful (file : Option (List UInt8)) (sent : List Message) : Prop :=
  ∀ before message after, sent = before ++ message :: after → message.mtype = RESP_MT_END →
    file = some (payloads before)

/-- Iteration `iteration` goes well. -/
def Outcomes.Succeeds (outcomes : Outcomes) (iteration : Nat) : Prop :=
  outcomes.read iteration ≠ .failed ∧ outcomes.msgsnd iteration = .sent

/-- The most that the first iterations read, all in all. -/
def Outcomes.taken (outcomes : Outcomes) (iterations : Nat) : Nat :=
  ((List.range iterations).map fun iteration => (outcomes.read iteration).size).sum

/-- The child gets through `length` bytes, or is killed on the way. -/
def Outcomes.GetsThrough (outcomes : Outcomes) (length : Nat) : Prop :=
  ∃ iterations, (∀ iteration < iterations, outcomes.Succeeds iteration) ∧
    (length ≤ outcomes.taken iterations ∨
      outcomes.read iterations ≠ .failed ∧ outcomes.msgsnd iterations = .killed)

theorem Outcomes.taken_succ (outcomes : Outcomes) (iterations : Nat) :
    outcomes.taken (iterations + 1) = (outcomes.read 0).size + outcomes.next.taken iterations := by
  simp only [taken, List.range_succ_eq_map, List.map_cons, List.map_map, List.sum_cons]
  rfl

/-- The first iteration is over, and the others have the rest to get through. -/
theorem Outcomes.getsThrough_iff (outcomes : Outcomes) (length : Nat) :
    outcomes.GetsThrough length ↔
      length = 0 ∨ outcomes.read 0 ≠ .failed ∧
        (outcomes.msgsnd 0 = .killed ∨
          outcomes.msgsnd 0 = .sent ∧
            outcomes.next.GetsThrough (length - (outcomes.read 0).size)) := by
  constructor
  · rintro ⟨iterations, succeed, through⟩
    cases iterations with
    | zero =>
        rcases through with whole | ⟨notFailed, killed⟩
        · exact .inl (Nat.le_zero.mp whole)
        · exact .inr ⟨notFailed, .inl killed⟩
    | succ iterations =>
        obtain ⟨notFailed, sent⟩ := succeed 0 (Nat.succ_pos _)
        rw [taken_succ] at through
        refine .inr ⟨notFailed, .inr ⟨sent, iterations, fun iteration below =>
          succeed (iteration + 1) (Nat.succ_lt_succ below), ?_⟩⟩
        exact through.imp_left fun whole => by omega
  · rintro (empty | ⟨notFailed, killed | ⟨sent, iterations, succeed, through⟩⟩)
    · exact ⟨0, fun iteration below => absurd below (Nat.not_lt_zero _),
        .inl (Nat.le_of_eq empty)⟩
    · exact ⟨0, fun iteration below => absurd below (Nat.not_lt_zero _), .inr ⟨notFailed, killed⟩⟩
    · refine ⟨iterations + 1, ?_, ?_⟩
      · intro iteration below
        cases iteration with
        | zero => exact ⟨notFailed, sent⟩
        | succ iteration => exact succeed iteration (Nat.lt_of_succ_lt_succ below)
      · rw [taken_succ]
        exact through.imp_left fun whole => by omega

/-! ### The loop -/

theorem sendLoop_data (outcomes : Outcomes) (rest : List UInt8) :
    ∀ message ∈ (sendLoop outcomes rest).1, message.mtype = RESP_MT_DATA := by
  fun_induction sendLoop outcomes rest with
  | case1 | case2 | case3 | case4 => exact fun message member => absurd member List.not_mem_nil
  | case5 outcomes rest count read numRead nonempty sent later inductionHypothesis =>
      exact List.forall_mem_cons.mpr ⟨rfl, inductionHypothesis⟩

theorem payloads_cons (data : List UInt8) (sent : List Message) :
    payloads (⟨RESP_MT_DATA, data⟩ :: sent) = data ++ payloads sent := by
  simp [payloads]

/-- A child that is alive after the loop has sent the whole file exactly if it has got
through it. -/
theorem sendLoop_whole_iff (outcomes : Outcomes) (rest : List UInt8) :
    ((sendLoop outcomes rest).2 = true → payloads (sendLoop outcomes rest).1 = rest) ↔
      outcomes.GetsThrough rest.length := by
  rw [Outcomes.getsThrough_iff, List.length_eq_zero_iff]
  fun_induction sendLoop outcomes rest with
  | case1 outcomes rest failed => simp [failed, payloads, eq_comm]
  | case2 outcomes count read => simp [payloads]
  | case3 outcomes rest count read nonempty killed => simp [read, killed]
  | case4 outcomes rest count read nonempty failed =>
      simp [failed, payloads, nonempty, Ne.symm nonempty]
  | case5 outcomes rest count read numRead nonempty sent later inductionHypothesis =>
      have length : (rest.drop numRead).length = rest.length - (outcomes.read 0).size := by
        rw [List.length_drop, read]
        rfl
      have through := (outcomes.next.getsThrough_iff (rest.drop numRead).length).symm
      rw [List.length_eq_zero_iff, length] at through
      rw [length] at inductionHypothesis
      have split : payloads (⟨RESP_MT_DATA, rest.take numRead⟩ :: later.1) = rest ↔
          payloads later.1 = rest.drop numRead := by
        have parts := List.take_append_drop numRead rest
        rw [payloads_cons]
        constructor
        · intro whole
          exact List.append_cancel_left (whole.trans parts.symm)
        · intro remainder
          rw [remainder, parts]
      rw [split, or_iff_right nonempty, and_iff_right (by simp [read]), sent,
        or_iff_right (by simp), and_iff_right rfl]
      exact inductionHypothesis.trans through

/-- Without an end message nothing is promised. -/
theorem truthful_of_data (file : Option (List UInt8)) {sent : List Message}
    (data : ∀ message ∈ sent, message.mtype = RESP_MT_DATA) : Truthful file sent := by
  rintro before message after rfl isEnd
  have isData := data message (List.mem_append_right before List.mem_cons_self)
  exact absurd (isData.symm.trans isEnd) (by decide)

theorem truthful_end_iff (file : Option (List UInt8)) {sent : List Message}
    (data : ∀ message ∈ sent, message.mtype = RESP_MT_DATA) :
    Truthful file (sent ++ [⟨RESP_MT_END, []⟩]) ↔ file = some (payloads sent) := by
  constructor
  · intro truthful
    exact truthful sent _ [] rfl rfl
  · intro whole before message after split isEnd
    cases List.eq_nil_or_concat after with
    | inl none_ =>
        rw [none_] at split
        rw [whole, List.append_inj_left' split rfl]
    | inr more =>
        -- an end message before the last one would be among those of the loop
        obtain ⟨others, last, rfl⟩ := more
        rw [List.concat_eq_append, ← List.cons_append, ← List.append_assoc] at split
        exact truthful_of_data file data before message others
          (List.append_inj_left' split rfl) isEnd

/-- The end message follows the whole file for exactly the outcomes with which every
call succeeds until the file is through, the child is killed before, or the end message
is not sent. -/
theorem serverRequest_truthful_iff (outcomes : Outcomes) (file : Option (List UInt8)) :
    Truthful file (serverRequest outcomes file) ↔
      ∀ bytes, file = some bytes →
        outcomes.msgsndEnd ≠ .sent ∨ outcomes.GetsThrough bytes.length := by
  cases file with
  | none =>
      refine iff_of_true ?_ (by simp)
      rintro before message after split isEnd
      have member : message ∈ serverRequest outcomes none :=
        split ▸ List.mem_append_right before List.mem_cons_self
      rw [serverRequest, SendOutcome.send] at member
      split at member
      · rw [List.mem_singleton.mp member] at isEnd
        exact absurd isEnd (by decide)
      · cases member
  | some bytes =>
      have data := sendLoop_data outcomes bytes
      have whole := sendLoop_whole_iff outcomes bytes
      simp only [Option.some.injEq, forall_eq', ← whole, serverRequest, SendOutcome.send]
      by_cases ends : outcomes.msgsndEnd = .sent
      · rw [if_pos ends, or_iff_right (not_not_intro ends)]
        split
        case isTrue alive =>
          rw [truthful_end_iff _ data, Option.some.injEq, eq_comm]
          exact ⟨fun all _ => all, fun all => all alive⟩
        case isFalse killed =>
          exact iff_of_true (truthful_of_data _ data) fun alive => absurd alive killed
      · rw [if_neg ends, List.append_nil, ite_self]
        exact iff_of_true (truthful_of_data _ data) (.inl ends)

/-- A `read` that fails at once: the client is told that a file of one byte is empty. -/
theorem readError_ends_transfer :
    serverRequest ⟨fun _ => .failed, fun _ => .sent, .sent, .sent⟩ (some [65]) =
        [⟨RESP_MT_END, []⟩] ∧
      ¬ Truthful (some [65])
        (serverRequest ⟨fun _ => .failed, fun _ => .sent, .sent, .sent⟩ (some [65])) := by
  have sent : serverRequest ⟨fun _ => .failed, fun _ => .sent, .sent, .sent⟩ (some [65]) =
      [⟨RESP_MT_END, []⟩] := by
    simp [serverRequest, sendLoop, SendOutcome.send]
  refine ⟨sent, fun truthful => ?_⟩
  rw [sent] at truthful
  exact absurd (truthful [] _ [] rfl rfl) (by decide)

end LinuxProgramming.Messages.FileTransfer
