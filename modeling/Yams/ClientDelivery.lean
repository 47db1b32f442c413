/-
When the client may run a request directly.  The bytes taken by the socket and
the clock readings of a run decide it: `none` is safe unless the write that
completes the frame is followed by a reading past the deadline.
-/
import Yams.Client

namespace Yams.Client

/-- The write took all of its input. -/
def completesWrite (event : SocketEvent) : Bool :=
  match event.op, event.answer with
  | .write input, answer => match answer with
      | .ok count => count = input.length
      | .error _ => false
  | _, _ => false

/-- The value of a clock reading. -/
def readingOf (event : SocketEvent) : Option Nat :=
  match event.op, event.answer with
  | .now, answer => some answer
  | _, _ => none

/-- The first clock reading of a trace, the newest event first. -/
def firstReading : List SocketEvent → Option Nat
  | [] => none
  | event :: past =>
      match firstReading past with
      | some reading => some reading
      | none => readingOf event

/-- Somewhere a write that took all of its input is directly followed by a clock
reading at or past the deadline. -/
def lateFinish (deadline : Nat) : List SocketEvent → Bool
  | later :: earlier :: past =>
      (completesWrite earlier && (readingOf later).any fun t => deadline ≤ t) ||
        lateFinish deadline (earlier :: past)
  | _ => false

/-- The deadline of the handshake is counted from the first clock reading. -/
def finishedLate (past : List SocketEvent) : Bool :=
  match firstReading past with
  | some start => lateFinish (start + handshakeTimeout) past
  | none => false

/-- The socket has taken part of the frame only, so that no complete request can
have been received. -/
def Undelivered (frame : Except ProtocolError Bytes) (delivered : Bytes) : Prop :=
  match frame with
  | .ok frame => delivered <+: frame ∧ delivered ≠ frame
  | .error _ => delivered = []

def isWrite : SocketOp → Bool
  | .write _ => true
  | _ => false

/-- The socket has taken `delivered`, and no write that completed the frame has
met a late reading or is still waiting for its reading. -/
structure Quiet (start deadline : Nat) (delivered : Bytes) (s : SocketTrace) : Prop where
  reading : firstReading s.past = some start
  timely : lateFinish deadline s.past = false
  settled : s.past.head?.any completesWrite = false
  delivered : s.now.delivered = delivered

/-- The last operation was the write that completed the frame. -/
structure Finished (start deadline : Nat) (frame : Bytes) (s : SocketTrace) : Prop where
  reading : firstReading s.past = some start
  timely : lateFinish deadline s.past = false
  completed : s.past.head?.any completesWrite = true
  delivered : s.now.delivered = frame

/-- The frame was completed, and the reading after it was late. -/
structure Late (start deadline : Nat) (frame : Bytes) (s : SocketTrace) : Prop where
  reading : firstReading s.past = some start
  late : lateFinish deadline s.past = true
  delivered : s.now.delivered = frame

theorem firstReading_cons {start : Nat} {past : List SocketEvent}
    (h : firstReading past = some start) (event : SocketEvent) :
    firstReading (event :: past) = some start := by
  simp only [firstReading, h]

attribute [local simp] lateFinish

theorem lateFinish_of_settled {deadline : Nat} {past : List SocketEvent}
    (h : past.head?.any completesWrite = false) (event : SocketEvent) :
    lateFinish deadline (event :: past) = lateFinish deadline past := by
  cases past with
  | nil => rfl
  | cons earlier past =>
      have hearlier : completesWrite earlier = false := h
      simp only [lateFinish, hearlier, Bool.false_and, Bool.false_or]

theorem lateFinish_of_completed {deadline : Nat} {past : List SocketEvent}
    (h : past.head?.any completesWrite = true) (event : SocketEvent) :
    lateFinish deadline (event :: past) =
      (((readingOf event).any fun t => deadline ≤ t) ||
        lateFinish deadline past) := by
  cases past with
  | nil => cases h
  | cons earlier past =>
      have hearlier : completesWrite earlier = true := h
      simp only [lateFinish, hearlier, Bool.true_and]

theorem lateFinish_cons {deadline : Nat} {past : List SocketEvent}
    (h : lateFinish deadline past = true) (event : SocketEvent) :
    lateFinish deadline (event :: past) = true := by
  cases past with
  | nil => cases h
  | cons earlier past => simp only [lateFinish, h, Bool.or_true]

/-- The reading after a completing write decides whether it was late. -/
theorem lateFinish_now {deadline : Nat} {past : List SocketEvent}
    (h : past.head?.any completesWrite = true)
    (htimely : lateFinish deadline past = false) (reading : Nat)
    (before after : Socket) :
    lateFinish deadline (⟨(), .now, reading, before, after⟩ :: past)
      = decide (deadline ≤ reading) := by
  rw [lateFinish_of_completed h, htimely, Bool.or_false]
  rfl

theorem completesWrite_of_not_isWrite {event : SocketEvent}
    (h : isWrite event.op = false) : completesWrite event = false := by
  obtain ⟨t, op, answer, before, after⟩ := event
  cases op <;> first | rfl | cases h

theorem socketAnswer_delivered {choice : SocketChoice} {s s' : Socket}
    {op : SocketOp} {answer : SocketAns op} (hop : isWrite op = false)
    (h : socketAnswer choice s op = some (answer, s')) :
    s'.delivered = s.delivered := by
  cases op with
  | write input => cases hop
  | read limit =>
      rcases choice with _ | _ | _ | _ | _ | _ | (error | input) | _
      case data.ok =>
        simp only [socketAnswer] at h
        split at h
        · cases h
          rfl
        · cases h
      all_goals cases h
      rfl
  | _ =>
      cases choice <;> cases h
      rfl

/-- Only a write changes what the socket has taken. -/
theorem exec_delivered {op : SocketOp} {answer : SocketAns op}
    {s s' : SocketTrace} (hop : isWrite op = false)
    (hexec : exec s op answer s') :
    s'.now.delivered = s.now.delivered ∧
      s'.past = ⟨(), op, answer, s.now, s'.now⟩ :: s.past := by
  obtain ⟨⟨choice, hchoice⟩, hpast⟩ := Interp.exec_traced hexec
  exact ⟨socketAnswer_delivered hop hchoice, hpast⟩

theorem Quiet.step {start deadline : Nat} {delivered : Bytes} {op : SocketOp}
    {answer : SocketAns op} {s s' : SocketTrace} (hop : isWrite op = false)
    (h : Quiet start deadline delivered s) (hexec : exec s op answer s') :
    Quiet start deadline delivered s' := by
  obtain ⟨hdelivered, hpast⟩ := exec_delivered hop hexec
  constructor
  · rw [hpast]
    exact firstReading_cons h.reading _
  · rw [hpast, lateFinish_of_settled h.settled]
    exact h.timely
  · rw [hpast]
    exact completesWrite_of_not_isWrite hop
  · rw [hdelivered, h.delivered]

theorem Late.step {start deadline : Nat} {frame : Bytes} {op : SocketOp}
    {answer : SocketAns op} {s s' : SocketTrace} (hop : isWrite op = false)
    (h : Late start deadline frame s) (hexec : exec s op answer s') :
    Late start deadline frame s' := by
  obtain ⟨hdelivered, hpast⟩ := exec_delivered hop hexec
  constructor
  · rw [hpast]
    exact firstReading_cons h.reading _
  · rw [hpast]
    exact lateFinish_cons h.late _
  · rw [hdelivered, h.delivered]

/-- The reading that follows the completing write decides. -/
theorem Finished.now {start deadline reading : Nat} {frame : Bytes} {s s' : SocketTrace}
    (h : Finished start deadline frame s) (hexec : exec s .now reading s') :
    if deadline ≤ reading then Late start deadline frame s'
    else Quiet start deadline frame s' := by
  obtain ⟨hdelivered, hpast⟩ := exec_delivered rfl hexec
  have hreading : firstReading s'.past = some start := by
    rw [hpast]
    exact firstReading_cons h.reading _
  have hlate : lateFinish deadline s'.past
      = decide (deadline ≤ reading) := by
    rw [hpast]
    exact lateFinish_now h.completed h.timely reading s.now s'.now
  have htaken : s'.now.delivered = frame := by
    rw [hdelivered, h.delivered]
  split
  · rename_i hpassed
    exact ⟨hreading, by rw [hlate]; exact decide_eq_true hpassed, htaken⟩
  · rename_i hpassed
    refine ⟨hreading, by rw [hlate]; exact decide_eq_false hpassed, ?_, htaken⟩
    rw [hpast]
    rfl

/-- A write takes a prefix of its input, or nothing. -/
def Took (input : Bytes) (answer : Except ErrorKind Nat) (before after : Bytes) :
    Prop :=
  match answer with
  | .ok count => count ≤ input.length ∧ after = before ++ input.take count
  | .error _ => after = before

theorem socketAnswer_write {choice : SocketChoice} {s s' : Socket}
    {input : Bytes} {answer : Except ErrorKind Nat}
    (h : socketAnswer choice s (.write input) = some (answer, s')) :
    Took input answer s.delivered s'.delivered := by
  rcases choice with _ | _ | _ | _ | _ | (error | count) | _ | _
  case wrote.ok =>
    simp only [socketAnswer] at h
    split at h
    · rename_i hcount
      cases h
      exact ⟨hcount, rfl⟩
    · cases h
  all_goals cases h
  rfl

theorem exec_write {input : Bytes} {answer : Except ErrorKind Nat}
    {s s' : SocketTrace} (hexec : exec s (.write input) answer s') :
    Took input answer s.now.delivered s'.now.delivered ∧
      s'.past = ⟨(), .write input, answer, s.now, s'.now⟩ :: s.past := by
  obtain ⟨⟨choice, hchoice⟩, hpast⟩ := Interp.exec_traced hexec
  exact ⟨socketAnswer_write hchoice, hpast⟩

/-- What the first `written` bytes of the frame having been taken means for the
write loop. -/
def Writing (start deadline : Nat) (frame : Bytes) (written : Nat) (s : SocketTrace) :
    Prop :=
  if written < frame.length then Quiet start deadline (frame.take written) s
  else Finished start deadline frame s

/-- Any operation adds its event and changes neither the first reading nor, when
nothing was left to be read, the verdict on the past. -/
theorem Quiet.past {start deadline : Nat} {delivered : Bytes} {s s' : SocketTrace}
    {event : SocketEvent} (h : Quiet start deadline delivered s)
    (hpast : s'.past = event :: s.past) :
    firstReading s'.past = some start ∧
      lateFinish deadline s'.past = false := by
  rw [hpast, lateFinish_of_settled h.settled]
  exact ⟨firstReading_cons h.reading event, h.timely⟩

theorem Quiet.refused {start deadline : Nat} {delivered input : Bytes} {error : ErrorKind}
    {s s' : SocketTrace} (h : Quiet start deadline delivered s)
    (hexec : exec s (.write input) (.error error) s') :
    Quiet start deadline delivered s' := by
  obtain ⟨htook, hpast⟩ := exec_write hexec
  obtain ⟨hreading, htimely⟩ := h.past hpast
  refine ⟨hreading, htimely, ?_, htook.trans h.delivered⟩
  rw [hpast]
  rfl

theorem Quiet.wrote {start deadline written count : Nat} {frame : Bytes}
    {s s' : SocketTrace} (h : Quiet start deadline (frame.take written) s)
    (hwritten : written < frame.length)
    (hexec : exec s (.write (frame.drop written)) (.ok count) s') :
    Writing start deadline frame (written + count) s' := by
  obtain ⟨⟨hcount, hdelivered⟩, hpast⟩ := exec_write hexec
  obtain ⟨hreading, htimely⟩ := h.past hpast
  have htaken : s'.now.delivered = frame.take (written + count) := by
    rw [hdelivered, h.delivered, List.take_add]
  have hlast : s'.past.head?.any completesWrite
      = decide (count = frame.length - written) := by
    rw [hpast, ← List.length_drop]
    rfl
  rw [List.length_drop] at hcount
  unfold Writing
  split
  · rename_i hmore
    refine ⟨hreading, htimely, ?_, htaken⟩
    rw [hlast]
    exact decide_eq_false (by omega)
  · rename_i hdone
    refine ⟨hreading, htimely, ?_, ?_⟩
    · rw [hlast]
      exact decide_eq_true (by omega)
    · rw [htaken]
      exact List.take_of_length_le (by omega)

/-- What the outcome of the exchange says: the caller may run the request
directly when the socket has taken part of the frame only, or else the frame was
finished late; any other outcome finds the run quiet. -/
structure Classified (start deadline : Nat) (frame : Except ProtocolError Bytes)
    (direct : Prop) (s : SocketTrace) : Prop where
  onDirect : direct → (∃ bytes, frame = .ok bytes ∧ Late start deadline bytes s) ∨
    ∃ delivered, Quiet start deadline delivered s ∧ Undelivered frame delivered
  onReply : ¬ direct → ∃ delivered, Quiet start deadline delivered s

theorem Classified.imp {start deadline : Nat} {frame : Except ProtocolError Bytes}
    {direct direct' : Prop} {s : SocketTrace}
    (h : Classified start deadline frame direct s) (hiff : direct ↔ direct') :
    Classified start deadline frame direct' s := by
  rw [← hiff]
  exact h

theorem Classified.step {start deadline : Nat}
    {frame : Except ProtocolError Bytes} {direct : Prop} {op : SocketOp}
    {answer : SocketAns op} {s s' : SocketTrace} (hop : isWrite op = false)
    (h : Classified start deadline frame direct s)
    (hexec : exec s op answer s') :
    Classified start deadline frame direct s' where
  onDirect := by
    intro hdirect
    rcases h.onDirect hdirect with ⟨bytes, hframe, hlate⟩ | ⟨taken, hquiet, hpart⟩
    · exact .inl ⟨bytes, hframe, hlate.step hop hexec⟩
    · exact .inr ⟨taken, hquiet.step hop hexec, hpart⟩
  onReply := by
    intro hreply
    obtain ⟨taken, hquiet⟩ := h.onReply hreply
    exact ⟨taken, hquiet.step hop hexec⟩

/-- Before the last byte is taken every outcome is safe. -/
theorem Quiet.classified {start deadline written : Nat} {frame : Bytes} {s : SocketTrace}
    (direct : Prop) (h : Quiet start deadline (frame.take written) s)
    (hwritten : written < frame.length) :
    Classified start deadline (.ok frame) direct s where
  onDirect := by
    intro _
    refine .inr ⟨_, h, List.take_prefix written frame, ?_⟩
    intro heq
    have hlength := congrArg List.length heq
    rw [List.length_take] at hlength
    omega
  onReply := fun _ => ⟨_, h⟩

/-- An outcome that keeps the caller from running the request is always safe. -/
theorem Quiet.replied {start deadline : Nat} {delivered : Bytes} {s : SocketTrace}
    {frame : Except ProtocolError Bytes} {direct : Prop}
    (h : Quiet start deadline delivered s) (hreply : ¬ direct) :
    Classified start deadline frame direct s where
  onDirect := fun hdirect => absurd hdirect hreply
  onReply := fun _ => ⟨_, h⟩

/-- A call that is not a write leaves everything quiet. -/
theorem alone_quiet {α ε : Type} {start deadline : Nat} {delivered : Bytes}
    {op : SocketOp} {f : SocketAns op → Fallible SocketOp SocketAns ε α}
    {Q : Except ε α → SocketTrace → Prop} {s : SocketTrace}
    (hop : isWrite op = false) (h : Quiet start deadline delivered s)
    (hnext : ∀ answer s', Quiet start deadline delivered s' →
      Alone exec (f answer).run Q s') :
    Alone exec (Fallible.perform op >>= f).run Q s :=
  alone_perform fun answer s' hexec => hnext answer s' (h.step hop hexec)

/-- A program that writes nothing leaves everything quiet. -/
theorem alone_reads {α : Type} {start deadline : Nat} {delivered : Bytes}
    {s : SocketTrace} (p : Prog SocketOp SocketAns α)
    (hp : p.Calls fun op => isWrite op = false) (h : Quiet start deadline delivered s) :
    Alone exec p (fun _ => Quiet start deadline delivered) s :=
  alone_calls (fun _ _ _ _ hop hquiet hexec => hquiet.step hop hexec) p hp h

/-! A response that does not decode is never taken for a passed deadline. -/

def Timeless {α : Type} (r : Except ProtocolError α) : Prop :=
  r ≠ .error .frameDeadlineExceeded

theorem Timeless.ok {α : Type} (a : α) :
    Timeless (.ok a : Except ProtocolError α) := by
  intro h
  cases h

theorem Timeless.error {α : Type} {e : ProtocolError}
    (he : e ≠ .frameDeadlineExceeded) :
    Timeless (.error e : Except ProtocolError α) := by
  intro h
  cases h
  exact he rfl

theorem Timeless.bind {α β : Type} {r : Except ProtocolError α}
    {f : α → Except ProtocolError β} (hr : Timeless r)
    (hf : ∀ a, Timeless (f a)) : Timeless (r >>= f) := by
  cases r with
  | ok a => exact hf a
  | error e =>
      apply Timeless.error
      rintro rfl
      exact hr rfl

theorem Timeless.ite {α : Type} {p : Prop} [Decidable p]
    {r r' : Except ProtocolError α} (hr : Timeless r) (hr' : Timeless r') :
    Timeless (if p then r else r') := by
  split
  · exact hr
  · exact hr'

theorem Timeless.map {α β : Type} {r : Except ProtocolError α} (f : α → β)
    (hr : Timeless r) : Timeless (r.map f) :=
  hr.bind fun a => .ok (f a)

theorem timeless_readOnce {α : Type} (slot value : Option α) :
    Timeless (readOnce slot value) := by
  unfold readOnce
  split
  · exact .error (by decide)
  · split
    · exact .ok _
    · exact .error (by decide)

theorem timeless_visitOperation (raw : RawOperation) (key : Text)
    (value : Json) : Timeless (raw.visit key value) := by
  unfold RawOperation.visit
  repeat' apply Timeless.ite
  all_goals first
    | exact .error (by decide)
    | exact (timeless_readOnce _ _).bind fun _ => .ok _

theorem timeless_operationFields (fields : List (Text × Json)) :
    ∀ raw, Timeless (RawOperation.ofFields fields raw) := by
  induction fields with
  | nil => exact fun raw => .ok raw
  | cons field fields ih =>
      exact fun raw => (timeless_visitOperation raw field.1 field.2).bind ih

theorem timeless_readOperation (slot : Option RawOperation) (value : Json) :
    Timeless (readOperation slot value) := by
  unfold readOperation
  split
  · exact .error (by decide)
  · split
    · exact (timeless_operationFields _ _).map some
    · exact .error (by decide)

theorem timeless_visitMessage (raw : RawMessage) (key : Text) (value : Json) :
    Timeless (raw.visit key value) := by
  unfold RawMessage.visit
  repeat' apply Timeless.ite
  all_goals first
    | exact .error (by decide)
    | exact (timeless_readOnce _ _).bind fun _ => .ok _
    | exact (timeless_readOperation _ _).bind fun _ => .ok _

theorem timeless_messageFields (fields : List (Text × Json)) :
    ∀ raw, Timeless (RawMessage.ofFields fields raw) := by
  induction fields with
  | nil => exact fun raw => .ok raw
  | cons field fields ih =>
      exact fun raw => (timeless_visitMessage raw field.1 field.2).bind ih

theorem timeless_nestingScan (text : Text) :
    ∀ s, Timeless (Nesting.scan text s) := by
  induction text with
  | nil => exact fun s => .ok s
  | cons c text ih =>
      intro s
      refine Timeless.bind ?_ ih
      unfold Nesting.step
      repeat' split
      all_goals first
        | exact .ok _
        | exact .error (by decide)

theorem timeless_decodeObject (scan : Text → Json.Scan) (body : Bytes)
    (limit : Nat) : Timeless (decodeObject scan body limit) := by
  unfold decodeObject
  split
  · exact .error (by simp)
  · refine Timeless.bind ?_ fun text => ?_
    · cases Text.fromUtf8 body with
      | none => exact .error (by decide)
      | some text => exact .ok text
    refine Timeless.bind ((timeless_nestingScan text _).map _) fun _ => ?_
    refine Timeless.bind ?_ fun _ => ?_
    · unfold rootIsObject
      split
      · split
        · exact .ok _
        · exact .error (by decide)
      · exact .ok _
    refine (timeless_messageFields _ _).bind fun raw => ?_
    split
    · exact .ok raw
    · exact .error (by decide)

theorem timeless_validateRequestId (requestId : Text) :
    Timeless (validateRequestId requestId) := by
  unfold validateRequestId
  split
  · exact .error (by decide)
  · exact .ok ()

theorem timeless_decodeResponse (scan : Text → Json.Scan) (body : Bytes) :
    Timeless (decodeResponse scan body) := by
  refine (timeless_decodeObject scan body maxResponseBytes).bind fun raw => ?_
  refine Timeless.bind ?_ fun _ => ?_
  · unfold validateVersion
    repeat' split
    all_goals first
      | exact .ok _
      | exact .error (by decide)
  · repeat' split
    all_goals first
      | exact .error (by decide)
      | exact .ok _
      | exact (timeless_validateRequestId _).bind fun _ => .ok _

theorem calls_instantNow : instantNow.run.Calls fun op => isWrite op = false :=
  ⟨rfl, fun _ => trivial⟩

theorem calls_poll (events : PollFlags) (timeout : Nat) :
    (poll events timeout).run.Calls fun op => isWrite op = false :=
  ⟨rfl, fun _ => trivial⟩

theorem calls_read (limit : Nat) :
    (read limit).run.Calls fun op => isWrite op = false :=
  ⟨rfl, fun _ => trivial⟩

theorem calls_setNonblocking (nonblocking : Bool) :
    (setNonblocking nonblocking).run.Calls fun op => isWrite op = false :=
  ⟨rfl, fun _ => trivial⟩

theorem calls_pollUntil (events : PollFlags) (deadline : Nat) :
    (pollUntil events deadline).run.Calls fun op => isWrite op = false := by
  refine Fallible.calls_iterate (fun _ => ?_) ()
  refine Fallible.calls_follow _ _ calls_instantNow fun now => ?_
  split
  · trivial
  · refine Fallible.calls_follow _ _ (calls_poll _ _) fun ready => ?_
    split <;> split <;> trivial

theorem calls_readFrame (limit deadline : Nat) :
    (readFrameNonblockingWithDeadline limit deadline).run.Calls
      fun op => isWrite op = false := by
  refine Fallible.calls_iterate (fun reader => ?_) _
  refine Fallible.calls_follow _ _ calls_instantNow fun now => ?_
  split
  · trivial
  · refine Fallible.calls_follow _ _ (calls_read _) fun input => ?_
    split
    · split
      · trivial
      · refine Fallible.calls_follow _ _ trivial fun fed => ?_
        split
        · trivial
        · refine Fallible.calls_follow _ _ calls_instantNow fun later => ?_
          split <;> trivial
    · split
      · trivial
      · split
        · exact Fallible.calls_follow _ _ (calls_pollUntil _ _) fun _ => trivial
        · trivial

theorem calls_receiveCompletion (scan : Text → Json.Scan) (deadline : Nat) :
    (receiveCompletion scan deadline).run.Calls
      fun op => isWrite op = false := by
  refine Fallible.calls_follow _ _ (calls_setNonblocking _) fun nonblocking => ?_
  refine Fallible.calls_follow _ _ trivial fun _ => ?_
  refine Fallible.calls_follow _ _ ?_ fun result => ?_
  · refine Prog.calls_bind _ _ ?_ fun _ => trivial
    refine Fallible.calls_iterate (fun reader => ?_) _
    unfold completionPass
    split
    · trivial
    · refine Fallible.calls_follow _ _ calls_instantNow fun now => ?_
      split
      · trivial
      · refine Fallible.calls_follow _ _ (calls_poll _ _) fun ready => ?_
        split
        · split
          · trivial
          · refine Fallible.calls_follow _ _ (calls_read _) fun input => ?_
            split
            · split
              · trivial
              · exact Fallible.calls_follow _ _ trivial fun _ => trivial
            · split <;> trivial
        · split <;> trivial
  · exact Fallible.calls_follow _ _ (calls_setNonblocking _) fun _ => trivial

theorem calls_validatePeer :
    validatePeer.run.Calls fun op => isWrite op = false := by
  refine Fallible.calls_follow _ _ ⟨rfl, fun _ => trivial⟩ fun expected => ?_
  refine Fallible.calls_follow _ _ ⟨rfl, fun _ => trivial⟩ fun peer => ?_
  refine Fallible.calls_follow _ _ trivial fun actual => ?_
  split <;> trivial

section

variable {start deadline : Nat} {frame : Bytes} {s : SocketTrace}

/-- The write loop has delivered the frame in time, or its error is classified. -/
def WritePost (start deadline : Nat) (frame : Bytes) :
    Except ProtocolError Unit → SocketTrace → Prop
  | .ok (), s => Quiet start deadline frame s
  | .error error, s =>
      Classified start deadline (.ok frame) (error = .frameDeadlineExceeded) s

/-- The last pass: everything is written, and the clock is read once more. -/
theorem alone_lastPass (h : Finished start deadline frame s) {written : Nat}
    (hwritten : ¬ written < frame.length) :
    Alone exec (writePass frame deadline written).run
      (fun r => PassPost (Writing start deadline frame)
        (WritePost start deadline frame) (Fallible.pass r)) s := by
  rw [writePass, if_neg hwritten]
  refine alone_perform fun now s₁ hexec => ?_
  have hnow := h.now hexec
  split at hnow
  · rename_i hpassed
    rw [if_pos hpassed]
    exact alone_ret
      ⟨fun _ => .inl ⟨frame, rfl, hnow⟩, fun hne => absurd rfl hne⟩
  · rename_i hpassed
    rw [if_neg hpassed]
    exact alone_ret hnow

/-- A pass that writes: what the socket answers decides. -/
theorem alone_writePass {written : Nat}
    (h : Quiet start deadline (frame.take written) s)
    (hwritten : written < frame.length) :
    Alone exec (writePass frame deadline written).run
      (fun r => PassPost (Writing start deadline frame)
        (WritePost start deadline frame) (Fallible.pass r)) s := by
  have hagain : ∀ s', Quiet start deadline (frame.take written) s' →
      Writing start deadline frame written s' := by
    intro s' hs'
    rw [Writing, if_pos hwritten]
    exact hs'
  rw [writePass, if_pos hwritten]
  refine alone_quiet rfl h fun now s₁ h₁ => ?_
  split
  · exact alone_ret (h₁.classified _ hwritten)
  · refine alone_perform fun answer s₂ hexec => ?_
    cases answer with
    | ok count =>
        have h₂ := h₁.wrote hwritten hexec
        dsimp only
        split
        · rename_i hzero
          rw [hzero, Nat.add_zero, Writing, if_pos hwritten] at h₂
          exact alone_ret (h₂.classified _ hwritten)
        · exact alone_ret h₂
    | error error =>
        have h₂ := h₁.refused hexec
        dsimp only
        split
        · exact alone_ret (hagain s₂ h₂)
        · split
          · refine alone_follow (alone_reads _ (calls_pollUntil _ _) h₂) ?_ ?_
            · intro _ s₃ h₃
              exact alone_ret (hagain s₃ h₃)
            · intro error s₃ h₃
              exact h₃.classified _ hwritten
          · exact alone_ret (h₂.classified _ hwritten)

theorem alone_writeAll (h : Quiet start deadline [] s) (hframe : frame ≠ []) :
    Alone exec (writeAllNonblockingWithDeadline frame deadline).run
      (WritePost start deadline frame) s := by
  refine alone_loop (Writing start deadline frame) ?_ ?_
  · rw [Writing, if_pos (List.length_pos_iff.2 hframe), List.take_zero]
    exact h
  · intro written s₁ h₁
    by_cases hwritten : written < frame.length
    · rw [Writing, if_pos hwritten] at h₁
      exact alone_writePass h₁ hwritten
    · rw [Writing, if_neg hwritten] at h₁
      exact alone_lastPass h₁ hwritten

variable {F : Type} (float : Float64 F) (scan : Text → Json.Scan)

/-- Reading and decoding the response never lets the caller run the request. -/
theorem alone_deliver (h : Quiet start deadline [] s) (hframe : frame ≠ []) :
    Alone exec (deliver scan frame deadline).run
      (fun r => Classified start deadline (.ok frame)
        (r = .error .frameDeadlineExceeded)) s := by
  refine alone_follow (alone_writeAll h hframe) ?_ ?_
  · intro _ s₁ h₁
    refine alone_observe (alone_reads _ (calls_readFrame _ _) h₁) ?_
    rintro (error | body) s₂ h₂
    · dsimp only
      split
      · exact alone_ret (h₂.replied (by simp))
      · rename_i hdeadline
        exact alone_ret (h₂.replied (by simpa using hdeadline))
    · refine alone_ret (h₂.replied ?_)
      exact timeless_decodeResponse scan body
  · intro error s₁ h₁
    exact h₁.imp (by simp)

theorem alone_orIo {α β : Type} {result : Except ErrorKind α}
    {f : α → Exchange β} {Q : Except ProtocolError β → SocketTrace → Prop}
    (hok : ∀ a, Alone exec (f a).run Q s)
    (herror : ∀ kind, Q (.error (.io kind)) s) :
    Alone exec (orIo result >>= f).run Q s := by
  refine alone_ofExcept (fun a _ => hok a) ?_
  intro error herr
  cases result with
  | ok a => cases herr
  | error kind =>
      cases herr
      exact herror kind

theorem sendMessage_ne_nil {message : Message} {frame : Bytes}
    (h : sendMessage message = .ok frame) : frame ≠ [] := by
  unfold sendMessage writeFrame at h
  cases hbody : encode message with
  | error e =>
      rw [hbody] at h
      cases h
  | ok body =>
      rw [hbody] at h
      change (validateFrameSize body message.limit >>= _) = _ at h
      cases hsize : validateFrameSize body message.limit with
      | error e =>
          rw [hsize] at h
          cases h
      | ok _ =>
          rw [hsize] at h
          cases h
          exact List.cons_ne_nil _ _

theorem undelivered_nil {frame : Except ProtocolError Bytes}
    (h : ∀ bytes, frame = .ok bytes → bytes ≠ []) : Undelivered frame [] := by
  cases frame with
  | error e => rfl
  | ok bytes => exact ⟨List.nil_prefix, (h bytes rfl).symm⟩

/-- Nothing has been written yet: every outcome is safe. -/
theorem Quiet.unwritten {frame : Except ProtocolError Bytes}
    (hframe : ∀ bytes, frame = .ok bytes → bytes ≠ []) (direct : Prop)
    (h : Quiet start deadline [] s) :
    Classified start deadline frame direct s where
  onDirect := fun _ => .inr ⟨[], h, undelivered_nil hframe⟩
  onReply := fun _ => ⟨[], h⟩

theorem alone_exchange (message : Request) (h : Quiet start deadline [] s) :
    Alone exec (exchangeRequestWithDeadline scan message deadline).run
      (fun r => Classified start deadline (sendMessage (.request message))
        (r = .error .frameDeadlineExceeded)) s := by
  have hsend := fun bytes => @sendMessage_ne_nil (.request message) bytes
  refine alone_ofExcept (fun bytes hbytes => ?_) ?_
  · rw [hbytes] at hsend ⊢
    have hframe : bytes ≠ [] := hsend bytes rfl
    refine alone_quiet rfl h fun now s₁ h₁ => ?_
    split
    · exact alone_ret (h₁.unwritten hsend _)
    · refine alone_quiet rfl h₁ fun cleared s₂ h₂ => ?_
      refine alone_orIo (fun _ => ?_) fun _ => h₂.unwritten hsend _
      refine alone_quiet rfl h₂ fun cleared' s₃ h₃ => ?_
      refine alone_orIo (fun _ => ?_) fun _ => h₃.unwritten hsend _
      refine alone_quiet rfl h₃ fun nonblocking s₄ h₄ => ?_
      refine alone_orIo (fun _ => ?_) fun _ => h₄.unwritten hsend _
      refine alone_observe (alone_deliver scan h₄ hframe) fun r s₅ h₅ => ?_
      refine alone_perform fun restore s₆ hexec => ?_
      have h₆ := h₅.step rfl hexec
      cases r with
      | error error => exact alone_ret (h₆.imp (by simp))
      | ok response =>
          obtain ⟨taken, hquiet⟩ := h₆.onReply (by simp)
          refine alone_orIo (fun _ => ?_) fun _ => ?_
          · exact alone_ret (hquiet.replied (by simp))
          · exact hquiet.replied (by simp)
  · intro error _
    exact h.unwritten hsend _

theorem completionReply_ne_none (accepted : Text)
    (result : Except ProtocolError Message) :
    completionReply accepted result ≠ none := by
  unfold completionReply
  split
  · split
    · exact Option.some_ne_none _
    · exact Option.some_ne_none _
  · exact Option.some_ne_none _
  · exact Option.some_ne_none _

/-- After the exchange only a passed handshake deadline yields `none`. -/
theorem alone_afterExchange {frame : Except ProtocolError Bytes}
    {result : Except ProtocolError Message}
    (h : Classified start deadline frame
      (result = .error .frameDeadlineExceeded) s) :
    Alone exec (afterExchange scan result)
      (fun reply => Classified start deadline frame (reply = none)) s := by
  unfold afterExchange
  split
  · obtain ⟨taken, hquiet⟩ := h.onReply (by simp)
    refine alone_op fun now s₁ hexec => ?_
    have h₁ := hquiet.step rfl hexec
    refine alone_part (alone_reads _ (calls_receiveCompletion scan _) h₁) ?_
    intro completion s₂ h₂
    exact alone_ret (h₂.replied (completionReply_ne_none _ _))
  · obtain ⟨taken, hquiet⟩ := h.onReply (by simp)
    exact alone_ret (hquiet.replied (Option.some_ne_none _))
  · obtain ⟨taken, hquiet⟩ := h.onReply (by simp)
    exact alone_ret (hquiet.replied (Option.some_ne_none _))
  · rename_i error
    split
    · rename_i hdeadline
      exact alone_ret (h.imp (by simp [hdeadline]))
    · rename_i hdeadline
      obtain ⟨taken, hquiet⟩ := h.onReply (by simpa using hdeadline)
      exact alone_ret (hquiet.replied (Option.some_ne_none _))

theorem requestFrame_ne_nil (request : DirectRequest F) (layout : RuntimeLayout)
    (bytes : Bytes) (h : requestFrame float request layout = .ok bytes) :
    bytes ≠ [] := by
  unfold requestFrame at h
  split at h
  · exact sendMessage_ne_nil h
  · cases h

/-- The first clock reading opens a quiet trace. -/
theorem quiet_first {clock reading : Nat} {s : SocketTrace}
    (hexec : exec ⟨⟨clock, []⟩, []⟩ .now reading s) :
    Quiet reading (reading + handshakeTimeout) [] s := by
  obtain ⟨hdelivered, hpast⟩ := exec_delivered rfl hexec
  refine ⟨?_, ?_, ?_, hdelivered⟩ <;> rw [hpast] <;> rfl

/-- How a whole run of the client ends. -/
inductive Ended (frame : Except ProtocolError Bytes) (reply : Reply)
    (s : SocketTrace) : Prop
  | untouched (hpast : s.past = []) (hdelivered : s.now.delivered = [])
  | classified (start : Nat)
      (h : Classified start (start + handshakeTimeout) frame (reply = none) s)

theorem alone_tryService (request : DirectRequest F) (layout : RuntimeLayout)
    (clock : Nat) :
    Alone exec (tryServiceWith float scan request layout)
      (Ended (requestFrame float request layout)) ⟨⟨clock, []⟩, []⟩ := by
  have hframe := requestFrame_ne_nil float request layout
  unfold tryServiceWith
  split
  · exact alone_ret (.untouched rfl rfl)
  · refine alone_op fun start s₁ hexec => ?_
    have h₁ := quiet_first hexec
    refine alone_op fun outcome s₂ hexec => ?_
    have h₂ := h₁.step rfl hexec
    cases outcome with
    | absent => exact alone_ret (.classified start (h₂.unwritten hframe _))
    | failed error =>
        exact alone_ret (.classified start (h₂.unwritten hframe _))
    | connected =>
        refine alone_part (alone_reads _ calls_validatePeer h₂) ?_
        rintro (error | _) s₃ h₃
        · exact alone_ret (.classified start (h₃.unwritten hframe _))
        · dsimp only
          split
          · exact alone_ret (.classified start (h₃.unwritten hframe _))
          · rename_i message hmessage
            have hsame : requestFrame float request layout
                = sendMessage (.request message) := by
              rw [requestFrame, hmessage]
            rw [hsame]
            refine alone_part (alone_exchange scan message h₃) ?_
            intro result s₄ h₄
            exact alone_mono (alone_afterExchange scan h₄) fun reply s₅ h₅ =>
              .classified start h₅

end

theorem Quiet.notLate {start : Nat} {delivered : Bytes} {s : SocketTrace}
    (h : Quiet start (start + handshakeTimeout) delivered s) :
    finishedLate s.past = false := by
  simp only [finishedLate, h.reading, h.timely]

theorem Late.finishedLate {start : Nat} {frame : Bytes} {s : SocketTrace}
    (h : Late start (start + handshakeTimeout) frame s) :
    finishedLate s.past = true := by
  simp only [Client.finishedLate, h.reading, h.late]

/-- `none` is returned with part of the frame taken only, unless the frame was
completed and the next clock reading was past the deadline. -/
theorem tryService_none_safe_iff {F : Type} {float : Float64 F}
    {scan : Text → Json.Scan} {request : DirectRequest F}
    {layout : RuntimeLayout} {clock : Nat} {reply : Reply} {s : SocketTrace}
    (hrun : Runs exec (tryServiceWith float scan request layout)
      ⟨⟨clock, []⟩, []⟩ reply s) :
    (reply = none →
      Undelivered (requestFrame float request layout) s.now.delivered) ↔
      finishedLate s.past = false := by
  have hended := hrun.outlined (alone_tryService float scan request layout clock)
  cases hended with
  | untouched hpast hdelivered =>
      rw [hpast, hdelivered]
      refine ⟨fun _ => rfl, fun _ _ => undelivered_nil ?_⟩
      exact requestFrame_ne_nil float request layout
  | classified start h =>
      constructor
      · intro hsafe
        by_cases hnone : reply = none
        · rcases h.onDirect hnone with ⟨bytes, hframe, hlate⟩ | ⟨_, hquiet, _⟩
          · have hpart := hsafe hnone
            rw [hframe, hlate.delivered] at hpart
            exact absurd rfl hpart.2
          · exact hquiet.notLate
        · obtain ⟨taken, hquiet⟩ := h.onReply hnone
          exact hquiet.notLate
      · intro htimely hnone
        rcases h.onDirect hnone with ⟨_, _, hlate⟩ | ⟨taken, hquiet, hpart⟩
        · rw [hlate.finishedLate] at htimely
          cases htimely
        · rw [hquiet.delivered]
          exact hpart

namespace DeliveryWitness

/-- No float value occurs in the requests below. -/
def float : Float64 Unit where
  parse _ := none
  display _ := []
  pythonRepr _ := []
  isFinite _ := true
  inCosineRange _ := true
  isNegative _ := false
  nan := ()
  negNan := ()
  infinity := ()
  negInfinity := ()

/-- No response is read in the runs below. -/
def scan : Text → Json.Scan := fun _ => ⟨[], false⟩

/-- `yams x` -/
def request : DirectRequest Unit where
  operation := .search
  project := some (.utf8 "/p")
  query := some "x"
  k := 5
  requestedK := "5"
  json := false
  full := false
  noGate := false
  explain := false
  minScore := none
  maxGap := none

def layout : RuntimeLayout := ⟨.utf8 "/p", .utf8 "/run/service.sock"⟩

/-- The first write takes `count` bytes, and the next clock reading is at the
deadline. -/
def choices (count : Nat) : List SocketChoice :=
  [.clock 0, .connected .connected, .uid 7, .peer (.ok 7), .clock 0,
    .done (.ok ()), .done (.ok ()), .done (.ok ()), .clock 0,
    .wrote (.ok count), .clock handshakeTimeout, .done (.ok ())]

def run (count : Nat) : Option (Reply × SocketTrace) :=
  runChoices (interp.traced.answer ()) 40 (choices count)
    (tryServiceWith float scan request layout) ⟨⟨0, []⟩, []⟩

theorem run_runs {count : Nat} {reply : Reply} {s : SocketTrace}
    (h : run count = some (reply, s)) :
    Runs exec (tryServiceWith float scan request layout) ⟨⟨0, []⟩, []⟩
      reply s := by
  unfold run at h
  exact runChoices_runs h

/-- The caller may run the request although the whole frame is taken. -/
def runsTwice (frame : Except ProtocolError Bytes) (reply : Reply)
    (delivered : Bytes) : Bool :=
  reply.isNone && match frame with
    | .ok bytes => delivered == bytes
    | .error _ => false

theorem unsafe_of_runsTwice {frame : Except ProtocolError Bytes} {reply : Reply}
    {delivered : Bytes} (h : runsTwice frame reply delivered = true) :
    ¬ (reply = none → Undelivered frame delivered) := by
  simp only [runsTwice, Bool.and_eq_true, Option.isNone_iff_eq_none] at h
  obtain ⟨hnone, hdelivered⟩ := h
  intro hsafe
  cases frame with
  | ok bytes => exact (hsafe hnone).2 (eq_of_beq hdelivered)
  | error e => cases hdelivered

/-- All 203 bytes are taken, and the clock reading after that is late. -/
theorem late_finish_runs_twice :
    ∃ reply s, Runs exec (tryServiceWith float scan request layout)
        ⟨⟨0, []⟩, []⟩ reply s ∧
      ¬ (reply = none →
        Undelivered (requestFrame float request layout) s.now.delivered) := by
  have hrun : (run 203).any (fun r => runsTwice
      (requestFrame float request layout) r.1 r.2.now.delivered) = true := by
    decide +kernel
  obtain ⟨⟨reply, s⟩, hmem⟩ :=
    Option.isSome_iff_exists.1 (Option.isSome_of_any hrun)
  rw [hmem, Option.any_some] at hrun
  exact ⟨reply, s, run_runs hmem, unsafe_of_runsTwice hrun⟩

/-- Half of the frame is taken before the same late reading. -/
theorem tryService_none_safe_part :
    ∃ reply s, Runs exec (tryServiceWith float scan request layout)
        ⟨⟨0, []⟩, []⟩ reply s ∧
      ((reply = none →
        Undelivered (requestFrame float request layout) s.now.delivered) ↔
        finishedLate s.past = false) := by
  have hrun : (run 100).isSome = true := by decide +kernel
  obtain ⟨⟨reply, s⟩, hmem⟩ := Option.isSome_iff_exists.1 hrun
  exact ⟨reply, s, run_runs hmem, tryService_none_safe_iff (run_runs hmem)⟩

end DeliveryWitness

end Yams.Client
