import LinuxProgramming.Library.CBuffer

/-!
Contract: the command string of the remote shell server.

Owns:
- `handle_request` with every outcome of its calls, from any contents of its buffer;
- exactly when the command does not depend on the buffer before the request arrived;
- the client, which supplies the terminator, and the command for its requests.

Does not own: how the shell executes the command, and `accept` and `fork` in the server.
-/

namespace LinuxProgramming.Sockets.ShellServer

open LinuxProgramming.Library

abbrev Errno := Nat

/-- `BUF_SIZE` of the server. -/
def BUF_SIZE : Nat := 1024

/-- The array `buf`. -/
structure Buffer where
  bytes : List UInt8
  length_eq : bytes.length = BUF_SIZE

/-- What the calls of `handle_request` give; `recv` delivers bytes. -/
structure Calls where
  dupStdout : Except Errno Unit
  dupStderr : Except Errno Unit
  recv : Except Errno (List UInt8)

/-- The calls for a request that arrives. -/
def Calls.delivers (request : List UInt8) : Calls := ⟨.ok (), .ok (), .ok request⟩

inductive Outcome where
  /-- `perror` of "dup cfd for stdout". -/
  | dupStdoutFails
  /-- `perror` of "dup cfd for stderr". -/
  | dupStderrFails
  | recvFails
  /-- The string that `my_system` is called with. -/
  | runs (command : List UInt8)
deriving DecidableEq, Repr

/-- The array after `recv`, which stores no more than fits. -/
def received (buf : Buffer) (delivered : List UInt8) : List UInt8 :=
  delivered.take BUF_SIZE ++ buf.bytes.drop (delivered.take BUF_SIZE).length

/-- `handle_request`, up to the call of `my_system`. -/
def handleRequest (calls : Calls) (buf : Buffer) : Outcome :=
  match calls.dupStdout with
  | .error _ => .dupStdoutFails
  | .ok () =>
      match calls.dupStderr with
      | .error _ => .dupStderrFails
      | .ok () =>
          match calls.recv with
          | .error _ => .recvFails
          | .ok delivered =>
              .runs (CBuffer.string 0 ((received buf delivered).set (BUF_SIZE - 1) 0))

/-- What the client sends for what it has read: the last byte is replaced. -/
def message (line : List UInt8) : List UInt8 := line.set (line.length - 1) 0

inductive Sending where
  /-- `perror` of "Failed to read". -/
  | readFails
  | endOfInput
  | sends (request : List UInt8)
deriving DecidableEq, Repr

/-- The client from its `read` to its `send`. -/
def sendRequest (read : Except Errno (List UInt8)) : Sending :=
  match read with
  | .error _ => .readFails
  | .ok line => if line = [] then .endOfInput else .sends (message line)

/-! ### The command -/

/-- A request is the command if it ends where the server writes its terminator, or in front
of a null byte that happens to be there. -/
def EndsIn (buf : Buffer) (request : List UInt8) : Prop :=
  request.length = BUF_SIZE - 1 ∨ buf.bytes[request.length]? = some 0

/-- The bytes of the array behind a short request. -/
theorem received_set {request : List UInt8} (short : request.length ≤ BUF_SIZE - 1)
    (buf : Buffer) :
    (received buf request).set (BUF_SIZE - 1) 0 =
      request ++ (buf.bytes.drop request.length).set (BUF_SIZE - 1 - request.length) 0 := by
  have whole : request.take BUF_SIZE = request :=
    List.take_of_length_le (Nat.le_trans short (Nat.sub_le _ _))
  rw [received, whole, List.set_append_right _ _ short]

theorem getElem?_behind {request : List UInt8} (short : request.length ≤ BUF_SIZE - 1)
    (buf : Buffer) :
    ((buf.bytes.drop request.length).set (BUF_SIZE - 1 - request.length) 0)[0]? =
      if request.length = BUF_SIZE - 1 then some 0 else buf.bytes[request.length]? := by
  have room : request.length < buf.bytes.length := by
    rw [buf.length_eq]
    exact Nat.lt_of_le_of_lt short (by decide)
  by_cases full : request.length = BUF_SIZE - 1
  · rw [if_pos full, full, Nat.sub_self, List.getElem?_set_self]
    rw [List.length_drop, ← full]
    omega
  · rw [if_neg full, List.getElem?_set_ne (by omega), List.getElem?_drop, Nat.add_zero]

/-- The command consists of the request and of what stands behind it. -/
theorem handleRequest_delivers {request : List UInt8}
    (short : request.length ≤ BUF_SIZE - 1) (noNull : (0 : UInt8) ∉ request) (buf : Buffer) :
    handleRequest (.delivers request) buf =
      .runs (request ++ CBuffer.string 0
        ((buf.bytes.drop request.length).set (BUF_SIZE - 1 - request.length) 0)) := by
  rw [← CBuffer.string_append noNull, ← received_set short buf]
  rfl

theorem handleRequest_runs_iff {request : List UInt8}
    (short : request.length ≤ BUF_SIZE - 1) (noNull : (0 : UInt8) ∉ request) (buf : Buffer) :
    handleRequest (.delivers request) buf = .runs request ↔ EndsIn buf request := by
  rw [handleRequest_delivers short noNull, Outcome.runs.injEq, List.append_right_eq_self,
    CBuffer.string_eq_nil_iff, getElem?_behind short]
  unfold EndsIn
  have inside : ∃ byte, buf.bytes[request.length]? = some byte := by
    refine ⟨_, List.getElem?_eq_getElem ?_⟩
    rw [buf.length_eq]
    exact Nat.lt_of_le_of_lt short (by decide)
  obtain ⟨byte, behind⟩ := inside
  rw [behind]
  by_cases full : request.length = BUF_SIZE - 1
  · simp [full]
  · simp [full]

/-- From two contents of the array the command is the same, and the request, if and only if
the request ends in both. -/
theorem handleRequest_same_iff {request : List UInt8}
    (short : request.length ≤ BUF_SIZE - 1) (noNull : (0 : UInt8) ∉ request)
    (first second : Buffer) :
    handleRequest (.delivers request) first = handleRequest (.delivers request) second ∧
        handleRequest (.delivers request) first = .runs request ↔
      EndsIn first request ∧ EndsIn second request := by
  rw [← handleRequest_runs_iff short noNull first, ← handleRequest_runs_iff short noNull second]
  constructor
  · intro same
    exact ⟨same.2, same.1 ▸ same.2⟩
  · intro both
    exact ⟨both.1.trans both.2.symm, both.1⟩

/-- An array that is filled with one byte. -/
def Buffer.filled (byte : UInt8) : Buffer := ⟨List.replicate BUF_SIZE byte, List.length_replicate⟩

theorem handleRequest_same_filled :
    [108, 115].length ≤ BUF_SIZE - 1 ∧ (0 : UInt8) ∉ [108, 115] ∧
      (handleRequest (.delivers [108, 115]) (.filled 0) =
            handleRequest (.delivers [108, 115]) (.filled 65) ∧
          handleRequest (.delivers [108, 115]) (.filled 0) = .runs [108, 115] ↔
        EndsIn (.filled 0) [108, 115] ∧ EndsIn (.filled 65) [108, 115]) :=
  ⟨by decide, by decide, handleRequest_same_iff (by decide) (by decide) (.filled 0) (.filled 65)⟩

/-- The command for a request of two bytes, in an array that held other bytes. -/
theorem handleRequest_leaks :
    ¬ (handleRequest (.delivers [108, 115]) (.filled 0) =
          handleRequest (.delivers [108, 115]) (.filled 65) ∧
        handleRequest (.delivers [108, 115]) (.filled 0) = .runs [108, 115]) := by
  intro same
  have runs : handleRequest (.delivers [108, 115]) (.filled 65) = .runs [108, 115] :=
    same.1 ▸ same.2
  rcases (handleRequest_runs_iff (by decide) (by decide) (.filled 65)).mp runs with full | ends
  · exact absurd full (by decide)
  · rw [Buffer.filled, List.getElem?_replicate_of_lt (by decide)] at ends
    exact absurd ends (by decide)

/-! ### Requests of the client -/

/-- The client replaces the last byte that it has read. -/
theorem message_eq (typed : List UInt8) (last : UInt8) :
    message (typed ++ [last]) = typed ++ [0] := by
  have lastIndex : (typed ++ [last]).length - 1 = typed.length := by simp
  rw [message, lastIndex, List.set_append_right _ _ (Nat.le_refl _), Nat.sub_self,
    List.set_cons_zero]

/-- The part of a message that fits into the array of the server. -/
theorem take_message (typed : List UInt8) :
    ∃ byte, (typed ++ [(0 : UInt8)]).take BUF_SIZE = typed.take (BUF_SIZE - 1) ++ [byte] ∧
      (byte = 0 ∨ (typed.take (BUF_SIZE - 1)).length = BUF_SIZE - 1) := by
  have size : BUF_SIZE = BUF_SIZE - 1 + 1 := by decide
  rcases Nat.lt_or_ge (BUF_SIZE - 1) typed.length with long | short
  · refine ⟨typed[BUF_SIZE - 1], ?_, Or.inr ?_⟩
    · rw [List.take_append_of_le_length (by omega)]
      exact (List.take_append_getElem long).symm
    · rw [List.length_take]
      omega
  · refine ⟨0, ?_, Or.inl rfl⟩
    rw [List.take_of_length_le short, List.take_of_length_le]
    rw [List.length_append, List.length_singleton]
    omega

/-- The command for a message that arrives whole. -/
theorem handleRequest_message (typed : List UInt8) (last : UInt8) (buf : Buffer) :
    handleRequest (.delivers (message (typed ++ [last]))) buf =
      .runs (CBuffer.string 0 (typed.take (BUF_SIZE - 1))) := by
  obtain ⟨byte, fits, terminated⟩ := take_message typed
  have within : (typed.take (BUF_SIZE - 1)).length ≤ BUF_SIZE - 1 := List.length_take_le _ _
  have ends : ∃ rest, (received buf (typed ++ [0])).set (BUF_SIZE - 1) 0 =
      typed.take (BUF_SIZE - 1) ++ 0 :: rest := by
    rw [received, fits, List.append_assoc, List.set_append_right _ _ within,
      List.singleton_append]
    rcases terminated with null | full
    · cases BUF_SIZE - 1 - (typed.take (BUF_SIZE - 1)).length with
      | zero => exact ⟨_, rfl⟩
      | succ index => exact ⟨_, by rw [null, List.set_cons_succ]⟩
    · rw [full, Nat.sub_self, List.set_cons_zero]
      exact ⟨_, rfl⟩
  obtain ⟨rest, arrayEq⟩ := ends
  rw [message_eq, ← CBuffer.string_append_cons 0 (typed.take (BUF_SIZE - 1)) rest, ← arrayEq]
  rfl

/-- For a request of the client that arrives whole, the command is what was typed, as far as
it fits, whatever the array held before. -/
theorem handleRequest_sendRequest {line request : List UInt8}
    (sent : sendRequest (.ok line) = .sends request) (buf : Buffer) :
    handleRequest (.delivers request) buf =
      .runs (CBuffer.string 0 (line.dropLast.take (BUF_SIZE - 1))) := by
  by_cases empty : line = []
  · rw [sendRequest, if_pos empty] at sent
    cases sent
  · rw [sendRequest, if_neg empty, Sending.sends.injEq] at sent
    have split := List.dropLast_concat_getLast empty
    rw [← sent, ← split, handleRequest_message, split]

end LinuxProgramming.Sockets.ShellServer
