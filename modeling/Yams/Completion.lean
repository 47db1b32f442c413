/-
What the worker of a request puts on its stream: behind the acceptance one
completion, which always encodes.  It has the output of the request, unless a
stream or the encoded message is too long; then it says so instead.
-/
import Yams.ServiceLoop
import Yams.MessageCodec
import Yams.Run

namespace Yams.ServiceLoop

/-! The completions and their lengths. -/

/-- The output of a request as it is. -/
def verbatim (requestId : Text) (output : ExecutionOutput) : Completed :=
  ⟨requestId, output.exitCode, output.stdout, output.stderr⟩

/-- Both streams are within their bound, and the message is within its limit. -/
def Fits (requestId : Text) (output : ExecutionOutput) : Prop :=
  output.stdout.byteLength ≤ maxStreamBytes ∧ output.stderr.byteLength ≤ maxStreamBytes ∧
    (Json.obj (completedWire (verbatim requestId output))).render.byteLength ≤
      maxResponseBytes

instance (requestId : Text) (output : ExecutionOutput) : Decidable (Fits requestId output) :=
  inferInstanceAs (Decidable (_ ∧ _ ∧ _))

/-- The completion that goes out. -/
def delivered (requestId : Text) (output : ExecutionOutput) : Completed :=
  if Fits requestId output then verbatim requestId output
  else outputLimitCompletion requestId

theorem byteLength_completed (completed : Completed) :
    (Json.obj (completedWire completed)).render.byteLength =
      escapedLength completed.requestId + (Text.ofNat completed.exitCode).byteLength +
        escapedLength completed.stdout + escapedLength completed.stderr + 85 := by
  have hversion : fieldWeight ("version".toList, .num protocolVersion) = 12 := by decide
  have htype : escapedLength "type".toList = 4 := by decide
  have hcompleted : escapedLength "completed".toList = 9 := by decide
  have hid : escapedLength "request_id".toList = 10 := by decide
  have hcode : (Json.renderString "exit_code".toList).byteLength = 11 := by decide
  have hstdout : escapedLength "stdout".toList = 6 := by decide
  have hstderr : escapedLength "stderr".toList = 6 := by decide
  rw [byteLength_render_obj]
  simp only [completedWire, weightOf, List.map_cons, List.map_nil, List.sum_cons,
    List.sum_nil, hversion, fieldWeight_str, htype, hcompleted, hid, hstdout, hstderr]
  simp only [fieldWeight, hcode, Json.render]
  omega

theorem escapedLength_le (text : Text) : escapedLength text ≤ text.length * 6 := by
  induction text with
  | nil => exact Nat.le_refl 0
  | cons c text ih =>
      have hescape := Json.byteLength_escape_le c
      rw [escapedLength] at ih ⊢
      rw [List.flatMap_cons, Text.byteLength_append, List.length_cons]
      omega

/-- The identifiers of the service have sixteen digits. -/
theorem length_hex16 {n : Nat} (hn : n < 2 ^ 64) : (hex16 n).length = 16 := by
  have hdigits : (Nat.toDigits 16 n).length ≤ 16 :=
    (Nat.length_toDigits_le_iff (by decide) (by decide)).2 (by omega)
  rw [hex16, List.length_leftpad]
  omega

theorem hex16_ne_nil (n : Nat) : hex16 n ≠ [] := by
  have hlength : 16 ≤ (hex16 n).length := by
    rw [hex16, List.length_leftpad]
    exact Nat.le_max_left _ _
  intro hnil
  rw [hnil] at hlength
  cases hlength

theorem validateRequestId_hex16 (n : Nat) : validateRequestId (hex16 n) = .ok () :=
  if_neg (by simpa [List.isEmpty_iff] using hex16_ne_nil n)

theorem short_limited {n : Nat} (hn : n < 2 ^ 64) :
    (Json.obj (completedWire (outputLimitCompletion (hex16 n)))).render.byteLength ≤
      maxResponseBytes := by
  have hid := escapedLength_le (hex16 n)
  rw [length_hex16 hn] at hid
  have hcode : (Text.ofNat 4).byteLength = 1 := by decide
  have hstderr : escapedLength "yams: output limit\n".toList = 20 := by decide
  rw [byteLength_completed]
  change escapedLength (hex16 n) + (Text.ofNat 4).byteLength + 0 +
    escapedLength "yams: output limit\n".toList + 85 ≤ 8388608
  omega

theorem short_delivered {n : Nat} (hn : n < 2 ^ 64) (output : ExecutionOutput) :
    (Json.obj (completedWire (delivered (hex16 n) output))).render.byteLength ≤
      maxResponseBytes := by
  unfold delivered
  split
  next hfits => exact hfits.2.2
  · exact short_limited hn

theorem delivered_requestId (requestId : Text) (output : ExecutionOutput) :
    (delivered requestId output).requestId = requestId := by
  unfold delivered
  split <;> rfl

/-- The completion has the streams of the request exactly if they fit: the text of the
other completion would fit itself. -/
theorem delivered_streams_iff {n : Nat} (hn : n < 2 ^ 64) {output : ExecutionOutput}
    (hcode : output.exitCode < 256) :
    (delivered (hex16 n) output).stdout = output.stdout ∧
        (delivered (hex16 n) output).stderr = output.stderr ↔
      Fits (hex16 n) output := by
  unfold delivered
  split
  next hfits => exact iff_of_true ⟨rfl, rfl⟩ hfits
  next hfits =>
    refine iff_of_false ?_ hfits
    rintro ⟨hstdout, hstderr⟩
    apply hfits
    change [] = output.stdout at hstdout
    change "yams: output limit\n".toList = output.stderr at hstderr
    have hid := escapedLength_le (hex16 n)
    rw [length_hex16 hn] at hid
    have hdigits : (Text.ofNat output.exitCode).byteLength ≤ 3 := by
      have hall : ∀ code < 256, (Text.ofNat code).byteLength ≤ 3 := by decide +kernel
      exact hall _ hcode
    have hlength : Text.byteLength "yams: output limit\n".toList = 19 := by decide
    have hescaped : escapedLength "yams: output limit\n".toList = 20 := by decide
    refine ⟨?_, ?_, ?_⟩
    · rw [← hstdout]
      decide
    · rw [← hstderr, hlength]
      decide
    · rw [byteLength_completed]
      change escapedLength (hex16 n) + (Text.ofNat output.exitCode).byteLength +
        escapedLength output.stdout + escapedLength output.stderr + 85 ≤ 8388608
      rw [← hstdout, ← hstderr, hescaped]
      change escapedLength (hex16 n) + (Text.ofNat output.exitCode).byteLength + 0 + 20 + 85 ≤ _
      omega

/-! Sending a message. -/

/-- A valid message within the limit of its direction has a frame. -/
theorem sendMessage_ok {message : Message} (hvalid : message.validate = .ok ())
    (hshort : (Json.obj message.wire).render.byteLength ≤ message.limit) :
    ∃ frame, sendMessage message = .ok frame := by
  have hlimit : message.limit ≤ u32Max := by
    cases message with
    | request _ => exact of_decide_eq_true (rfl : decide (maxRequestBytes ≤ u32Max) = true)
    | accepted _ | completed _ | rejected _ =>
        exact of_decide_eq_true (rfl : decide (maxResponseBytes ≤ u32Max) = true)
  have hsize : validateFrameSize (Json.obj message.wire).render.toBytes message.limit =
      .ok () := by
    apply if_neg
    rw [Text.byteLength] at hshort
    omega
  unfold sendMessage writeFrame
  rw [encode_of_short hvalid hshort, except_ok_bind, hsize, except_ok_bind]
  exact ⟨_, rfl⟩

theorem sendMessage_delivered {n : Nat} (hn : n < 2 ^ 64) (output : ExecutionOutput) :
    ∃ frame, sendMessage (.completed (delivered (hex16 n) output)) = .ok frame := by
  apply sendMessage_ok
  · change validateRequestId (delivered (hex16 n) output).requestId = _
    rw [delivered_requestId]
    exact validateRequestId_hex16 n
  · exact short_delivered hn output

/-- A right completion for an output: it has the identifier and a frame, it has the
streams exactly if they fit, and it is one of two messages. -/
structure Completes (n : Nat) (output : ExecutionOutput) (completed : Completed) : Prop where
  requestId : completed.requestId = hex16 n
  frame : ∃ frame, sendMessage (.completed completed) = .ok frame
  short : (Json.obj (completedWire completed)).render.byteLength ≤ maxResponseBytes
  streams : completed.stdout = output.stdout ∧ completed.stderr = output.stderr ↔
    Fits (hex16 n) output
  whole : Fits (hex16 n) output →
    completed = ⟨hex16 n, output.exitCode, output.stdout, output.stderr⟩
  limited : ¬ Fits (hex16 n) output →
    completed = ⟨hex16 n, 4, [], "yams: output limit\n"⟩

theorem delivered_completes {n : Nat} {output : ExecutionOutput} (hn : n < 2 ^ 64)
    (hcode : output.exitCode < 256) :
    Completes n output (delivered (hex16 n) output) where
  requestId := delivered_requestId _ output
  frame := sendMessage_delivered hn output
  short := short_delivered hn output
  streams := delivered_streams_iff hn hcode
  whole hfits := if_pos hfits
  limited hfits := if_neg hfits

/-! The worker. -/

/-- What happens to one execution: the identifier it is given, what its handler makes,
and the messages that have been written to its stream. -/
structure Execution where
  issued : Option Nat
  handled : Option ExecutionOutput
  sent : List Message

/-- What the writer of a frame can report. -/
def Transport : ProtocolError → Prop
  | .io _ | .frameDeadlineExceeded => True
  | _ => False

def Execution.send (s : Execution) (message : Message) : Execution :=
  { s with sent := s.sent ++ [message] }

/-- The operations of the worker.  A message that has no frame is not written; one that
has is, but for a failure of the connection, which may come behind its last byte. -/
def WorkerExec (s : Execution) : (op : ServiceOp) → ServiceAns op → Execution → Prop
  | .nextRequestId, n, s' => n < 2 ^ 64 ∧ s' = { s with issued := some n }
  | .handle _, .returned output, s' =>
      output.exitCode < 256 ∧ s' = { s with handled := some output }
  | .handle _, .panicked, s' =>
      s' = { s with handled := some ⟨4, [], "request execution panicked\n"⟩ }
  | .handle _, .unwound, s' => s' = s
  | .send _ message _, answer, s' =>
      match sendMessage message with
      | .error e => answer = .error e ∧ s' = s
      | .ok _ => (answer = .ok () ∧ s' = s.send message) ∨
          ∃ e, answer = .error e ∧ Transport e ∧ (s' = s ∨ s' = s.send message)
  | _, _, s' => s' = s

/-- The connection has failed, or the handler has taken the thread with it. -/
def Disconnected : Exit → Prop
  | .unwound => True
  | .error (.io _) => True
  | .error (.protocol e) => Transport e

attribute [local simp] WorkerExec

theorem WorkerExec.sent {s : Execution} {stream : Conn} {message : Message}
    {deadline : Instant} (hframe : ∃ frame, sendMessage message = .ok frame) :
    WorkerExec s (.send stream message deadline) (.ok ()) (s.send message) := by
  obtain ⟨frame, hframe⟩ := hframe
  rw [WorkerExec, hframe]
  exact .inl ⟨rfl, rfl⟩

def acceptance (n : Nat) : Message := .accepted ⟨hex16 n⟩

/-- The request has been given an identifier. -/
def Issued (s : Execution) (n : Nat) : Prop := n < 2 ^ 64 ∧ s.issued = some n

/-- The request has been handled. -/
def Handles (s : Execution) (n : Nat) (output : ExecutionOutput) : Prop :=
  Issued s n ∧ output.exitCode < 256 ∧ s.handled = some output

/-- The acceptance and one completion are on the stream. -/
def Answered (s : Execution) : Prop :=
  ∃ n output completed, Handles s n output ∧ Completes n output completed ∧
    s.sent = [acceptance n, .completed completed]

/-- Nothing is on the stream, or the acceptance alone, or both messages. -/
def Responds (s : Execution) : Prop :=
  s.sent = [] ∨ (∃ n, Issued s n ∧ s.sent = [acceptance n]) ∨ Answered s

/-- How a worker ends. -/
def Concluded : Except Exit Unit → Execution → Prop :=
  Outcomes (fun _ => Answered) fun e s => Responds s ∧ Disconnected e

theorem alone_orIo {result : Except ErrorKind Unit} {f : Unit → ServiceM Unit}
    {s : Execution} (hs : Responds s) (hok : Alone WorkerExec (f ()).run Concluded s) :
    Alone WorkerExec (orIo result >>= f).run Concluded s := by
  apply alone_ofExcept
  · rintro ⟨⟩ -
    exact hok
  · intro e he
    cases result with
    | ok _ => cases he
    | error _ =>
        cases he
        exact ⟨hs, trivial⟩

/-- The completion behind the acceptance. -/
theorem Handles.answered {s : Execution} {n : Nat} {output : ExecutionOutput}
    (h : Handles s n output) (hsent : s.sent = [acceptance n]) :
    Answered (s.send (.completed (delivered (hex16 n) output))) :=
  ⟨n, output, _, h, delivered_completes h.1.1 h.2.1, by rw [Execution.send, hsent]; rfl⟩

theorem Handles.answers {s s' : Execution} {n : Nat} {output : ExecutionOutput}
    (h : Handles s n output) (hsent : s.sent = [acceptance n])
    (hs' : s' = s ∨ s' = s.send (.completed (delivered (hex16 n) output))) : Responds s' := by
  rcases hs' with rfl | rfl
  · exact .inr (.inl ⟨n, h.1, hsent⟩)
  · exact .inr (.inr (h.answered hsent))

namespace CompletionSample

def query : Request where
  operation :=
    { kind := .search, query := "q".toList, k := "5".toList, json := false, full := false
      noGate := false, explain := false, minScore := none, maxGap := none
      project := none }
  argv := []
  cwd := "/".toList

/-- The worker of an output whose connection holds. -/
def after (output : ExecutionOutput) : Execution :=
  ⟨some 1, some output, [acceptance 1, .completed (delivered (hex16 1) output)]⟩

/-- Two streams of four mebibytes each. -/
def long : ExecutionOutput :=
  ⟨0, List.replicate maxStreamBytes 'x', List.replicate maxStreamBytes 'y'⟩

def small : ExecutionOutput := ⟨0, "found\n", []⟩

end CompletionSample

end Yams.ServiceLoop
