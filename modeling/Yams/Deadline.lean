/-
Frames within one absolute deadline: the timeout of the stream is borrowed, shortened
before every call to what remains, and given back.
-/
import Yams.Frame
import Yams.Run

namespace Yams.Deadline

/-- The calls of a reader or writer and of the clock; the timeout is the one of its
direction.  Durations and instants are counted in nanoseconds. -/
inductive DeadlineOp
  | now
  | timeout
  | setTimeout (timeout : Option Nat)
  | write (input : Bytes)
  | read (room : Nat)

abbrev DeadlineAns : DeadlineOp → Type
  | .now => Nat
  | .timeout => Except ErrorKind (Option Nat)
  | .setTimeout _ => Except ErrorKind Unit
  | .write _ => Except ErrorKind Nat
  | .read _ => Except ErrorKind Bytes

abbrev DeadlineM := Prog DeadlineOp DeadlineAns

def instantNow : DeadlineM Nat := .perform DeadlineOp.now

def setTimeout (timeout : Option Nat) : DeadlineM (Except ErrorKind Unit) :=
  .perform (DeadlineOp.setTimeout timeout)

def timedOut : ErrorKind := .other "TimedOut".toList

def granularity : Nat := 1000000

def timeoutForDeadline (remaining : Nat) (original : Option Nat) : Nat :=
  let clamped := max remaining granularity
  match original with
  | some caller =>
      if granularity ≤ remaining ∧ clamped < caller ∧ caller - clamped < granularity then
        caller
      else min caller clamped
  | none => clamped

/-- The timeout in force, and whether it has been replaced. -/
structure Borrowed where
  current : Option Nat
  changed : Bool

/-- What one call of the stream did to the progress of a transfer. -/
inductive Transfer (σ : Type)
  | moved (next : σ)
  | ended (error : ProtocolError)
  | failed (kind : ErrorKind)

section Model

variable {σ α : Type} (deadline : Nat) (original : Option Nat)

/-- Shorten the timeout to what remains until the deadline. -/
def shorten (borrowed : Borrowed) : DeadlineM (Except ProtocolError Nat × Borrowed) := do
  let now ← instantNow
  if deadline ≤ now then return (.error .frameDeadlineExceeded, borrowed)
  else
    let timeout := timeoutForDeadline (deadline - now) original
    if borrowed.current = some timeout then return (.ok timeout, borrowed)
    else
      match ← setTimeout (some timeout) with
      | .error kind => return (.error (.io kind), borrowed)
      | .ok () => return (.ok timeout, ⟨some timeout, true⟩)

/-- One pass of the loops of `write_all_with_deadline` and `read_exact_with_deadline`. -/
def transferPass (complete : σ → Bool) (transfer : σ → DeadlineM (Transfer σ))
    (state : σ × Borrowed) :
    DeadlineM ((σ × Borrowed) ⊕ (Except ProtocolError σ × Borrowed)) := do
  if complete state.1 then return .inr (.ok state.1, state.2)
  else
    match ← shorten deadline original state.2 with
    | (.error error, borrowed) => return .inr (.error error, borrowed)
    | (.ok timeout, borrowed) =>
        match ← transfer state.1 with
        | .ended error => return .inr (.error error, borrowed)
        | .moved next => do
            let now ← instantNow
            if deadline ≤ now then return .inr (.error .frameDeadlineExceeded, borrowed)
            else return .inl (next, borrowed)
        | .failed kind =>
            if kind = .interrupted then return .inl (state.1, borrowed)
            else if kind = timedOut ∨ kind = .wouldBlock then do
              let now ← instantNow
              if deadline ≤ now ∨ original.all (timeout < ·) = true then
                return .inr (.error .frameDeadlineExceeded, borrowed)
              else return .inr (.error (.io kind), borrowed)
            else return .inr (.error (.io kind), borrowed)

/-- `written` counts the bytes of the input that were taken. -/
def writeOnce (input : Bytes) (written : Nat) : DeadlineM (Transfer Nat) := do
  match ← Prog.perform (DeadlineOp.write (input.drop written)) with
  | .ok 0 => return .ended (.io .writeZero)
  | .ok (count + 1) => return .moved (written + (count + 1))
  | .error kind => return .failed kind

def writeAllWithDeadline (input : Bytes) (borrowed : Borrowed) :
    DeadlineM (Except ProtocolError Nat × Borrowed) :=
  .iterate (transferPass deadline original (fun written => !decide (written < input.length))
    (writeOnce input)) (0, borrowed)

/-- `output` is what has been filled so far. -/
def readOnce (size : Nat) (output : Bytes) : DeadlineM (Transfer Bytes) := do
  match ← Prog.perform (DeadlineOp.read (size - output.length)) with
  | .ok [] => return .ended .truncatedFrame
  | .ok (byte :: bytes) => return .moved (output ++ byte :: bytes)
  | .error kind => return .failed kind

def readExactWithDeadline (size : Nat) (borrowed : Borrowed) :
    DeadlineM (Except ProtocolError Bytes × Borrowed) :=
  .iterate (transferPass deadline original (fun output => !decide (output.length < size))
    (readOnce size)) ([], borrowed)

/-- The closure of `write_frame_with_deadline`. -/
def writeParts (body : Bytes) : DeadlineM (Except ProtocolError Unit × Borrowed) := do
  match ← writeAllWithDeadline deadline original (beBytes body.length) ⟨original, false⟩ with
  | (.error error, borrowed) => return (.error error, borrowed)
  | (.ok _, borrowed) =>
      let (result, borrowed) ← writeAllWithDeadline deadline original body borrowed
      return (result.map fun _ => (), borrowed)

/-- The closure of `read_frame_with_deadline_from`. -/
def readParts (limit : Nat) : DeadlineM (Except ProtocolError Bytes × Borrowed) := do
  match ← readExactWithDeadline deadline original frameHeaderBytes ⟨original, false⟩ with
  | (.error error, borrowed) => return (.error error, borrowed)
  | (.ok header, borrowed) =>
      let declared := fromBeBytes header
      if declared > limit then return (.error (.frameTooLarge declared limit), borrowed)
      else readExactWithDeadline deadline original declared borrowed

/-- How `write_frame_with_deadline` ends. -/
def finishWrite (result : Except ProtocolError α) (borrowed : Borrowed) :
    DeadlineM (Except ProtocolError α) := do
  let restore ← if borrowed.changed then setTimeout original else pure (.ok ())
  match result, restore with
  | .error error, _ => return .error error
  | .ok _, .error kind => return .error (.io kind)
  | .ok a, .ok () => return .ok a

/-- How `read_frame_with_deadline_from` ends. -/
def finishRead (result : Except ProtocolError α) (borrowed : Borrowed) :
    DeadlineM (Except ProtocolError α) := do
  match result with
  | .error error =>
      if borrowed.changed then do
        let _ ← setTimeout original
        return .error error
      else return .error error
  | .ok a =>
      if borrowed.changed then do
        match ← setTimeout original with
        | .error kind => return .error (.io kind)
        | .ok () => return .ok a
      else return .ok a

/-- Both functions look at the clock, borrow the timeout, transfer, and end. -/
def withDeadline (parts : Option Nat → DeadlineM (Except ProtocolError α × Borrowed))
    (finish : Option Nat → Except ProtocolError α → Borrowed →
      DeadlineM (Except ProtocolError α)) : DeadlineM (Except ProtocolError α) := do
  let now ← instantNow
  if deadline ≤ now then return .error .frameDeadlineExceeded
  else
    match ← Prog.perform DeadlineOp.timeout with
    | .error kind => return .error (.io kind)
    | .ok original => do
        let (result, borrowed) ← parts original
        finish original result borrowed

def writeFrameWithDeadline (body : Bytes) (limit : Nat) :
    DeadlineM (Except ProtocolError Unit) :=
  match validateFrameSize body limit with
  | .error error => return .error error
  | .ok () =>
      withDeadline deadline (fun original => writeParts deadline original body) finishWrite

def readFrameWithDeadline (limit : Nat) : DeadlineM (Except ProtocolError Bytes) :=
  withDeadline deadline (fun original => readParts deadline original limit) finishRead

end Model

section Traces

/-- A call with its answer; a trace has the newest call first. -/
structure Call where
  op : DeadlineOp
  answer : DeadlineAns op

def reading (call : Call) : Option Nat :=
  match call.op, call.answer with
  | .now, answer => some answer
  | _, _ => none

def readings (trace : List Call) : List Nat := trace.filterMap reading

/-- The bytes that a call moves. -/
def transferred (call : Call) : Bytes :=
  match call.op, call.answer with
  | .write input, answer => match answer with
      | .ok count => input.take count
      | .error _ => []
  | .read _, answer => match answer with
      | .ok bytes => bytes
      | .error _ => []
  | _, _ => []

def transferredBy : List Call → Bytes
  | [] => []
  | call :: past => transferredBy past ++ transferred call

/-- The timeout that a call puts in force. -/
def replaced (call : Call) : Option (Option Nat) :=
  match call.op, call.answer with
  | .setTimeout timeout, answer => match answer with
      | .ok () => some timeout
      | .error _ => none
  | _, _ => none

/-- The clock does not go back, and no call moves more than it was asked to. -/
def Allowed (past : List Call) (op : DeadlineOp) (answer : DeadlineAns op) : Prop :=
  match op, answer with
  | .now, answer => ∀ earlier ∈ readings past, earlier ≤ answer
  | .write input, answer => ∀ count, answer = .ok count → count ≤ input.length
  | .read room, answer => ∀ bytes, answer = .ok bytes → bytes.length ≤ room
  | _, _ => True

def exec (past : List Call) (op : DeadlineOp) (answer : DeadlineAns op)
    (next : List Call) : Prop :=
  Allowed past op answer ∧ next = ⟨op, answer⟩ :: past

/-- No reading of the clock had reached the deadline. -/
def Timely (deadline : Nat) (trace : List Call) : Prop :=
  ∀ reading ∈ readings trace, reading < deadline

/-- The timeout in force is the one that the caller had. -/
def Restored (trace : List Call) : Prop :=
  ∀ original, ⟨.timeout, .ok original⟩ ∈ trace →
    ∀ timeout ∈ trace.findSome? replaced, timeout = original

/-- What holds of the calls of every run, ended in whatever way. -/
structure KeepsDeadline (deadline : Nat) (trace : List Call) : Prop where
  silent : ∀ later reading earlier, trace = later ++ ⟨.now, reading⟩ :: earlier →
    deadline ≤ reading → ∀ call ∈ later, transferred call = []
  timeouts : ∀ timeout answer, ⟨.setTimeout timeout, answer⟩ ∈ trace →
    ∃ original, ⟨.timeout, .ok original⟩ ∈ trace ∧ (timeout = none → original = none) ∧
      ∀ bound ∈ timeout, granularity ≤ bound ∧ ∀ caller ∈ original, bound ≤ caller
  restores : ∀ timeout, ⟨.setTimeout timeout, .ok ()⟩ ∈ trace →
    ∃ original answer past, trace = ⟨.setTimeout original, answer⟩ :: past ∧
      ⟨.timeout, .ok original⟩ ∈ past

/-- An error before the restoration is the result, whatever the restoration answers; its
own error is the result only when everything was transferred in time. -/
structure Precedence {α : Type} (program : DeadlineM (Except ProtocolError α))
    (complete : Prop) (result : Except ProtocolError α) (trace : List Call) : Prop where
  earlier : ∀ error, result = .error error → ¬ complete → ∀ original answer past,
    trace = ⟨.setTimeout original, answer⟩ :: past → ⟨.timeout, .ok original⟩ ∈ past →
      ∀ other, Runs exec program [] (.error error) (⟨.setTimeout original, other⟩ :: past)
  restoring : complete → ∀ original kind past,
    trace = ⟨.setTimeout original, .error kind⟩ :: past → ⟨.timeout, .ok original⟩ ∈ past →
      result = .error (.io kind)

end Traces

section Timeouts

variable {deadline remaining later caller : Nat} {original : Option Nat}

theorem timeoutForDeadline_le (remaining : Nat) :
    ∀ caller ∈ original, timeoutForDeadline remaining original ≤ caller := by
  intro caller hcaller
  obtain rfl := hcaller
  simp only [timeoutForDeadline]
  split
  · exact Nat.le_refl _
  · exact Nat.min_le_left _ _

/-- When the timeout is shorter than that of the caller. -/
theorem timeoutForDeadline_ne_iff :
    timeoutForDeadline remaining (some caller) ≠ caller ↔
      granularity < caller ∧ remaining < caller ∧
        (granularity ≤ remaining → granularity ≤ caller - remaining) := by
  simp only [timeoutForDeadline]
  split
  next h =>
    constructor
    · intro hne
      exact absurd rfl hne
    · intro hshort
      omega
  next h => omega

/-- A timeout that is not the caller's is not too short for the system. -/
theorem granularity_le_timeoutForDeadline
    (h : original ≠ some (timeoutForDeadline remaining original)) :
    granularity ≤ timeoutForDeadline remaining original := by
  cases original with
  | none => exact Nat.le_max_right _ _
  | some caller =>
      have hshort := timeoutForDeadline_ne_iff.1 fun heq => h (congrArg some heq.symm)
      simp only [timeoutForDeadline]
      split <;> omega

/-- Once the timeout is shorter than the caller's, it stays so. -/
theorem timeoutForDeadline_ne (hlater : later ≤ remaining)
    (h : original ≠ some (timeoutForDeadline remaining original)) :
    original ≠ some (timeoutForDeadline later original) := by
  cases original with
  | none => exact fun hnone => nomatch hnone
  | some caller =>
      have hshort := timeoutForDeadline_ne_iff.1 fun heq => h (congrArg some heq.symm)
      have hstill : timeoutForDeadline later (some caller) ≠ caller :=
        timeoutForDeadline_ne_iff.2 (by omega)
      exact fun heq => hstill (Option.some.inj heq).symm

end Timeouts

section Borrowing

variable {deadline : Nat} {original : Option Nat}

/-- No call moves bytes after a reading at or past the deadline. -/
def Silent (deadline : Nat) : List Call → Prop
  | [] => True
  | call :: past => (transferred call = [] ∨ Timely deadline past) ∧ Silent deadline past

/-- A timeout that may be put in force before the restoration. -/
def Granted (original timeout : Option Nat) : Prop :=
  timeout ≠ original ∧ ∃ bound, timeout = some bound ∧ granularity ≤ bound ∧
    ∀ caller ∈ original, bound ≤ caller

/-- What the passes of a transfer keep; `bytes` have been moved. -/
structure Borrowing (deadline : Nat) (original : Option Nat) (borrowed : Borrowed)
    (bytes : Bytes) (past : List Call) : Prop where
  caller : ⟨.timeout, .ok original⟩ ∈ past
  callers : ∀ other, ⟨.timeout, .ok other⟩ ∈ past → other = original
  inForce : past.findSome? replaced = if borrowed.changed then some borrowed.current else none
  unchanged : borrowed.changed = false → borrowed.current = original
  shortened : borrowed.changed = true → borrowed.current ≠ original ∧
    ∃ reading ∈ readings past,
      original ≠ some (timeoutForDeadline (deadline - reading) original)
  sets : ∀ timeout answer, ⟨.setTimeout timeout, answer⟩ ∈ past → Granted original timeout
  silent : Silent deadline past
  moved : transferredBy past = bytes

/-- A call that is no timeout query and no replacement. -/
def isPlain : DeadlineOp → Bool
  | .timeout | .setTimeout _ => false
  | _ => true

theorem replaced_of_plain {call : Call} (h : isPlain call.op = true) : replaced call = none := by
  obtain ⟨op, answer⟩ := call
  cases op <;> first | rfl | cases h

theorem mem_readings_cons {call : Call} {past : List Call} {instant : Nat}
    (h : instant ∈ readings past) : instant ∈ readings (call :: past) := by
  rw [readings, List.filterMap_cons]
  split
  · exact h
  · exact List.mem_cons_of_mem _ h

/-- A plain call keeps the timeout; it may move bytes while the deadline is ahead. -/
theorem Borrowing.plain {borrowed : Borrowed} {bytes : Bytes} {past : List Call} {call : Call}
    (h : Borrowing deadline original borrowed bytes past) (hplain : isPlain call.op = true)
    (hsilent : transferred call = [] ∨ Timely deadline past) :
    Borrowing deadline original borrowed (bytes ++ transferred call) (call :: past) where
  caller := List.mem_cons_of_mem _ h.caller
  callers other hmem := by
    rcases List.mem_cons.1 hmem with heq | hpast
    · rw [← heq] at hplain
      cases hplain
    · exact h.callers other hpast
  inForce := by
    rw [List.findSome?_cons, replaced_of_plain hplain]
    exact h.inForce
  unchanged := h.unchanged
  shortened hchanged := by
    obtain ⟨hne, instant, hmem, hshort⟩ := h.shortened hchanged
    exact ⟨hne, instant, mem_readings_cons hmem, hshort⟩
  sets timeout answer hmem := by
    rcases List.mem_cons.1 hmem with heq | hpast
    · rw [← heq] at hplain
      cases hplain
    · exact h.sets timeout answer hpast
  silent := ⟨hsilent, h.silent⟩
  moved := by rw [transferredBy, h.moved]

theorem Borrowing.now {borrowed : Borrowed} {bytes : Bytes} {past : List Call}
    (h : Borrowing deadline original borrowed bytes past) (now : Nat) :
    Borrowing deadline original borrowed bytes (⟨.now, now⟩ :: past) := by
  have hnone : transferred ⟨.now, now⟩ = [] := rfl
  have hnext : Borrowing deadline original borrowed (bytes ++ transferred ⟨.now, now⟩)
      (⟨.now, now⟩ :: past) := h.plain rfl (.inl hnone)
  rwa [hnone, List.append_nil] at hnext

theorem Timely.now {past : List Call} {now : Nat} (h : Timely deadline past)
    (hnow : now < deadline) : Timely deadline (⟨.now, now⟩ :: past) := by
  intro instant hmem
  rcases List.mem_cons.1 hmem with rfl | hpast
  · exact hnow
  · exact h instant hpast

/-- Putting a shorter timeout in force, or failing to. -/
theorem Borrowing.set {borrowed : Borrowed} {bytes : Bytes} {past : List Call}
    (h : Borrowing deadline original borrowed bytes past) {now : Nat}
    (hnow : now ∈ readings past)
    (hshort : original ≠ some (timeoutForDeadline (deadline - now) original))
    (answer : Except ErrorKind Unit) :
    Borrowing deadline original
      (match answer with
        | .ok () => ⟨some (timeoutForDeadline (deadline - now) original), true⟩
        | .error _ => borrowed) bytes
      (⟨.setTimeout (some (timeoutForDeadline (deadline - now) original)), answer⟩ :: past) := by
  have hgranted : Granted original (some (timeoutForDeadline (deadline - now) original)) :=
    ⟨hshort.symm, _, rfl, granularity_le_timeoutForDeadline hshort,
      timeoutForDeadline_le (deadline - now)⟩
  have hcaller : ∀ other, ⟨.timeout, .ok other⟩ ∈
      (⟨.setTimeout (some (timeoutForDeadline (deadline - now) original)), answer⟩ : Call) ::
        past → other = original := by
    intro other hmem
    rcases List.mem_cons.1 hmem with heq | hpast
    · cases heq
    · exact h.callers other hpast
  have hsets : ∀ timeout found, ⟨.setTimeout timeout, found⟩ ∈
      (⟨.setTimeout (some (timeoutForDeadline (deadline - now) original)), answer⟩ : Call) ::
        past → Granted original timeout := by
    intro timeout found hmem
    rcases List.mem_cons.1 hmem with heq | hpast
    · injection heq with hop
      injection hop with htimeout
      rw [htimeout]
      exact hgranted
    · exact h.sets timeout found hpast
  have hmoved : transferredBy
      (⟨.setTimeout (some (timeoutForDeadline (deadline - now) original)), answer⟩ :: past) =
        bytes := by
    rw [transferredBy, h.moved]
    exact List.append_nil bytes
  cases answer with
  | ok done =>
      exact ⟨List.mem_cons_of_mem _ h.caller, hcaller, rfl, (fun hfalse => nomatch hfalse),
        fun _ => ⟨hshort.symm, now, mem_readings_cons hnow, hshort⟩, hsets,
        ⟨.inl rfl, h.silent⟩, hmoved⟩
  | error kind =>
      refine ⟨List.mem_cons_of_mem _ h.caller, hcaller, h.inForce, h.unchanged, ?_, hsets,
        ⟨.inl rfl, h.silent⟩, hmoved⟩
      intro hchanged
      obtain ⟨hne, instant, hmem, hless⟩ := h.shortened hchanged
      exact ⟨hne, instant, mem_readings_cons hmem, hless⟩

/-- A timeout that is not the one in force is not the caller's. -/
theorem Borrowing.ne_caller {borrowed : Borrowed} {bytes : Bytes} {past : List Call} {now : Nat}
    (h : Borrowing deadline original borrowed bytes past)
    (hmono : ∀ earlier ∈ readings past, earlier ≤ now)
    (hne : borrowed.current ≠ some (timeoutForDeadline (deadline - now) original)) :
    original ≠ some (timeoutForDeadline (deadline - now) original) := by
  cases hchanged : borrowed.changed with
  | false => exact fun hsame => hne ((h.unchanged hchanged).trans hsame)
  | true =>
      obtain ⟨-, instant, hmem, hshort⟩ := h.shortened hchanged
      exact timeoutForDeadline_ne (Nat.sub_le_sub_left (hmono instant hmem) deadline) hshort

end Borrowing

section Passes

variable {deadline : Nat} {original : Option Nat} {α σ : Type} {past : List Call}

theorem alone_now {f : Nat → DeadlineM α} {Q : α → List Call → Prop}
    (h : ∀ now, (∀ earlier ∈ readings past, earlier ≤ now) →
      Alone exec (f now) Q (⟨.now, now⟩ :: past)) :
    Alone exec (instantNow >>= f) Q past := by
  apply alone_op
  rintro answer next ⟨hmono, rfl⟩
  exact h answer hmono

theorem alone_setTimeout {timeout : Option Nat} {f : Except ErrorKind Unit → DeadlineM α}
    {Q : α → List Call → Prop}
    (h : ∀ answer, Alone exec (f answer) Q (⟨.setTimeout timeout, answer⟩ :: past)) :
    Alone exec (setTimeout timeout >>= f) Q past := by
  apply alone_op
  rintro answer next ⟨-, rfl⟩
  exact h answer

theorem shorten_spec {borrowed : Borrowed} {bytes : Bytes}
    (h : Borrowing deadline original borrowed bytes past) (htimely : Timely deadline past) :
    Alone exec (shorten deadline original borrowed) (fun result past =>
      Borrowing deadline original result.2 bytes past ∧
        (∀ timeout, result.1 = .ok timeout → Timely deadline past)) past := by
  apply alone_now
  intro now hmono
  split
  next hlate =>
    apply alone_ret
    exact ⟨h.now now, fun timeout hok => nomatch hok⟩
  next hahead =>
    have hlooked := htimely.now (Nat.lt_of_not_le hahead)
    dsimp only
    split
    next hcurrent =>
      apply alone_ret
      exact ⟨h.now now, fun _ _ => hlooked⟩
    next hcurrent =>
      have hshort := h.ne_caller hmono hcurrent
      apply alone_setTimeout
      intro answer
      have hset := (h.now now).set List.mem_cons_self hshort answer
      cases answer with
      | error kind =>
          apply alone_ret
          exact ⟨hset, fun timeout hok => nomatch hok⟩
      | ok done =>
          apply alone_ret
          exact ⟨hset, fun _ _ => hlooked⟩

/-- A transfer is at `progress`, and no reading was late. -/
structure Underway (deadline : Nat) (original : Option Nat) (before : Bytes)
    (progress : σ → Bytes) (valid : σ → Prop) (state : σ × Borrowed) (past : List Call) :
    Prop where
  borrowing : Borrowing deadline original state.2 (before ++ progress state.1) past
  timely : Timely deadline past
  valid : valid state.1

/-- What one call of the stream leaves. -/
def Advances (deadline : Nat) (original : Option Nat) (before : Bytes)
    (progress : σ → Bytes) (valid : σ → Prop) (state : σ × Borrowed) :
    Transfer σ → List Call → Prop
  | .moved next, past =>
      Underway deadline original before progress valid (next, state.2) past
  | .ended _, past | .failed _, past =>
      Underway deadline original before progress valid state past

/-- A transfer has ended: completely and in time, or else with an error. -/
def Settled (deadline : Nat) (original : Option Nat) (before : Bytes) (progress : σ → Bytes)
    (valid : σ → Prop) (complete : σ → Bool) :
    Except ProtocolError σ × Borrowed → List Call → Prop
  | (.ok final, borrowed), past =>
      Underway deadline original before progress valid (final, borrowed) past ∧
        complete final = true
  | (.error _, borrowed), past => ∃ final,
      Borrowing deadline original borrowed (before ++ progress final) past ∧ valid final ∧
        (Timely deadline past → complete final = false)

variable {before : Bytes} {progress : σ → Bytes} {valid : σ → Prop} {complete : σ → Bool}
  {transfer : σ → DeadlineM (Transfer σ)}

/-- A pass that ends before everything is transferred. -/
theorem Underway.settled {state : σ × Borrowed} (error : ProtocolError)
    (h : Underway deadline original before progress valid state past)
    (hincomplete : complete state.1 = false) :
    Settled deadline original before progress valid complete (.error error, state.2) past :=
  ⟨state.1, h.borrowing, h.valid, fun _ => hincomplete⟩

theorem transferPass_spec {state : σ × Borrowed}
    (htransfer : ∀ state past, complete state.1 = false →
      Underway deadline original before progress valid state past →
      Alone exec (transfer state.1)
        (Advances deadline original before progress valid state) past)
    (h : Underway deadline original before progress valid state past) :
    Alone exec (transferPass deadline original complete transfer state)
      (PassPost (Underway deadline original before progress valid)
        (Settled deadline original before progress valid complete)) past := by
  unfold transferPass
  split
  next hcomplete =>
    apply alone_ret
    exact ⟨h, hcomplete⟩
  next hmore =>
    have hincomplete : complete state.1 = false := Bool.eq_false_iff.2 hmore
    apply alone_part (shorten_spec h.borrowing h.timely)
    rintro ⟨error | timeout, borrowed⟩ past ⟨hborrowing, hahead⟩
    · apply alone_ret
      exact ⟨state.1, hborrowing, h.valid, fun _ => hincomplete⟩
    · have hunderway : Underway deadline original before progress valid
          (state.1, borrowed) past := ⟨hborrowing, hahead timeout rfl, h.valid⟩
      apply alone_part (htransfer (state.1, borrowed) past hincomplete hunderway)
      rintro (next | error | kind) past hresult
      · apply alone_now
        intro now _
        split
        next hlate =>
          apply alone_ret
          refine ⟨next, hresult.borrowing.now now, hresult.valid, fun htimely => ?_⟩
          exact absurd (htimely now List.mem_cons_self) (Nat.not_lt.2 hlate)
        next hnow =>
          apply alone_ret
          exact ⟨hresult.borrowing.now now, hresult.timely.now (Nat.lt_of_not_le hnow),
            hresult.valid⟩
      · apply alone_ret
        exact hresult.settled error hincomplete
      · dsimp only
        split
        next =>
          apply alone_ret
          exact hresult
        next =>
          split
          next =>
            apply alone_now
            intro now _
            split
            all_goals
              apply alone_ret
              exact ⟨state.1, hresult.borrowing.now now, hresult.valid, fun _ => hincomplete⟩
          next =>
            apply alone_ret
            exact hresult.settled (.io kind) hincomplete

/-- The loop: whatever the calls of the stream do, it ends settled. -/
theorem transfer_spec {state : σ × Borrowed}
    (htransfer : ∀ state past, complete state.1 = false →
      Underway deadline original before progress valid state past →
      Alone exec (transfer state.1)
        (Advances deadline original before progress valid state) past)
    (h : Underway deadline original before progress valid state past) :
    Alone exec (Prog.iterate (transferPass deadline original complete transfer) state)
      (Settled deadline original before progress valid complete) past :=
  alone_iterate _ h fun _ _ hstate => transferPass_spec htransfer hstate

end Passes

section Parts

variable {deadline : Nat} {original : Option Nat} {past : List Call} {before : Bytes}

theorem Timely.plain {call : Call} (h : Timely deadline past) (hreading : reading call = none) :
    Timely deadline (call :: past) := by
  intro instant hmem
  rw [readings, List.filterMap_cons, hreading] at hmem
  exact h instant hmem

/-- A call of the stream that moves nothing. -/
theorem Underway.still {σ : Type} {progress : σ → Bytes} {valid : σ → Prop}
    {state : σ × Borrowed} {call : Call}
    (h : Underway deadline original before progress valid state past)
    (hplain : isPlain call.op = true) (hreading : reading call = none)
    (hmoved : transferred call = []) :
    Underway deadline original before progress valid state (call :: past) := by
  refine ⟨?_, h.timely.plain hreading, h.valid⟩
  have hnext := h.borrowing.plain hplain (.inl hmoved)
  rwa [hmoved, List.append_nil] at hnext

/-- A call of the stream that moves the bytes up to the next progress. -/
theorem Underway.step {σ : Type} {progress : σ → Bytes} {valid : σ → Prop}
    {state : σ × Borrowed} {next : σ} {call : Call}
    (h : Underway deadline original before progress valid state past)
    (hplain : isPlain call.op = true) (hreading : reading call = none)
    (hmoved : progress next = progress state.1 ++ transferred call) (hvalid : valid next) :
    Underway deadline original before progress valid (next, state.2) (call :: past) := by
  refine ⟨?_, h.timely.plain hreading, hvalid⟩
  have hnext := h.borrowing.plain hplain (.inr h.timely)
  rwa [List.append_assoc, ← hmoved] at hnext

theorem writeOnce_spec {input : Bytes} (state : Nat × Borrowed)
    (h : Underway deadline original before (input.take ·) (· ≤ input.length) state past) :
    Alone exec (writeOnce input state.1)
      (Advances deadline original before (input.take ·) (· ≤ input.length) state) past := by
  apply alone_op
  rintro (kind | _ | count) next ⟨hcount, rfl⟩
  · apply alone_ret
    exact h.still rfl rfl rfl
  · apply alone_ret
    exact h.still rfl rfl rfl
  · apply alone_ret
    have hroom := hcount (count + 1) rfl
    have hvalid := h.valid
    rw [List.length_drop] at hroom
    exact h.step rfl rfl List.take_add (by omega)

theorem readOnce_spec {size : Nat} (state : Bytes × Borrowed)
    (h : Underway deadline original before id (·.length ≤ size) state past) :
    Alone exec (readOnce size state.1)
      (Advances deadline original before id (·.length ≤ size) state) past := by
  apply alone_op
  rintro (kind | _ | ⟨byte, bytes⟩) next ⟨hcount, rfl⟩
  · apply alone_ret
    exact h.still rfl rfl rfl
  · apply alone_ret
    exact h.still rfl rfl rfl
  · apply alone_ret
    have hroom := hcount (byte :: bytes) rfl
    have hvalid := h.valid
    refine h.step rfl rfl rfl ?_
    rw [List.length_append]
    omega

/-- A transfer that went through in time, or stopped within what it may transfer. -/
def Parted {α : Type} (deadline : Nat) (original : Option Nat) (whole : α → Bytes → Prop)
    (within : Bytes → Prop) : Except ProtocolError α × Borrowed → List Call → Prop
  | (.ok a, borrowed), past => ∃ bytes, Borrowing deadline original borrowed bytes past ∧
      Timely deadline past ∧ whole a bytes
  | (.error _, borrowed), past => ∃ bytes, Borrowing deadline original borrowed bytes past ∧
      within bytes ∧ (Timely deadline past → ∀ a, ¬ whole a bytes)

theorem writeAll_spec {input : Bytes} {borrowed : Borrowed}
    (h : Borrowing deadline original borrowed before past) (htimely : Timely deadline past) :
    Alone exec (writeAllWithDeadline deadline original input borrowed)
      (Parted deadline original (fun _ bytes => bytes = before ++ input)
        (fun bytes => ∃ part, part <+: input ∧ bytes = before ++ part)) past := by
  have hstart : Underway deadline original before (input.take ·) (· ≤ input.length)
      (0, borrowed) past := by
    refine ⟨?_, htimely, Nat.zero_le _⟩
    rwa [List.take_zero, List.append_nil]
  apply alone_mono (transfer_spec (fun state past _ => writeOnce_spec state) hstart)
  rintro ⟨error | written, borrowed⟩ past hsettled
  · obtain ⟨written, hborrowing, -, hincomplete⟩ := hsettled
    refine ⟨_, hborrowing, ⟨_, List.take_prefix _ _, rfl⟩, fun hahead _ hwhole => ?_⟩
    have hless := hincomplete hahead
    rw [Bool.not_eq_false', decide_eq_true_iff] at hless
    have hlength := congrArg List.length (List.append_cancel_left hwhole)
    rw [List.length_take] at hlength
    omega
  · obtain ⟨hunderway, hcomplete⟩ := hsettled
    rw [Bool.not_eq_true', decide_eq_false_iff_not, Nat.not_lt] at hcomplete
    refine ⟨_, hunderway.borrowing, hunderway.timely, ?_⟩
    rw [List.take_of_length_le hcomplete]

theorem readExact_spec {size : Nat} {borrowed : Borrowed}
    (h : Borrowing deadline original borrowed before past) (htimely : Timely deadline past) :
    Alone exec (readExactWithDeadline deadline original size borrowed)
      (Parted deadline original
        (fun output bytes => bytes = before ++ output ∧ output.length = size)
        (fun bytes => ∃ part, part.length ≤ size ∧ bytes = before ++ part)) past := by
  have hstart : Underway deadline original before id (·.length ≤ size) ([], borrowed) past := by
    refine ⟨?_, htimely, Nat.zero_le _⟩
    rwa [id, List.append_nil]
  apply alone_mono (transfer_spec (fun state past _ => readOnce_spec state) hstart)
  rintro ⟨error | output, borrowed⟩ past hsettled
  · obtain ⟨output, hborrowing, hroom, hincomplete⟩ := hsettled
    refine ⟨_, hborrowing, ⟨output, hroom, rfl⟩, fun hahead other hwhole => ?_⟩
    have hless := hincomplete hahead
    rw [Bool.not_eq_false', decide_eq_true_iff] at hless
    have hsame : output = other := List.append_cancel_left hwhole.1
    rw [hsame] at hless
    exact absurd hwhole.2 (Nat.ne_of_lt hless)
  · obtain ⟨hunderway, hcomplete⟩ := hsettled
    rw [Bool.not_eq_true', decide_eq_false_iff_not, Nat.not_lt] at hcomplete
    exact ⟨_, hunderway.borrowing, hunderway.timely, rfl,
      Nat.le_antisymm hunderway.valid hcomplete⟩

/-- Nothing has been done but to look at the clock and the timeout. -/
theorem borrowing_start {now : Nat} :
    Borrowing deadline original ⟨original, false⟩ []
      [⟨.timeout, .ok original⟩, ⟨.now, now⟩] where
  caller := List.mem_cons_self
  callers other hmem := by
    rcases List.mem_cons.1 hmem with heq | hpast
    · injection heq with _ hanswer
      exact Except.ok.inj hanswer
    · cases List.mem_singleton.1 hpast
  inForce := rfl
  unchanged _ := rfl
  shortened hchanged := nomatch hchanged
  sets timeout answer hmem := by
    rcases List.mem_cons.1 hmem with heq | hpast
    · cases heq
    · cases List.mem_singleton.1 hpast
  silent := ⟨.inl rfl, .inl rfl, trivial⟩
  moved := rfl

/-- The header and body of a frame. -/
def frameOf (body : Bytes) : Bytes := beBytes body.length ++ body

theorem writeParts_spec {body : Bytes}
    (h : Borrowing deadline original ⟨original, false⟩ [] past)
    (htimely : Timely deadline past) :
    Alone exec (writeParts deadline original body)
      (Parted deadline original (fun _ bytes => bytes = frameOf body) (· <+: frameOf body))
      past := by
  apply alone_part (writeAll_spec h htimely)
  rintro ⟨error | written, borrowed⟩ past hheader
  · apply alone_ret
    obtain ⟨bytes, hborrowing, ⟨part, hpart, rfl⟩, hincomplete⟩ := hheader
    refine ⟨_, hborrowing, hpart.trans (List.prefix_append _ _), fun hahead _ hwhole => ?_⟩
    -- With an empty body the header is the frame, and it is not complete.
    have hlength := hpart.length_le
    have hframe : bytes = beBytes body.length ++ body := hwhole
    rw [hframe, List.length_append] at hlength
    have hempty := List.eq_nil_of_length_eq_zero (by omega : body.length = 0)
    rw [hempty, List.append_nil] at hframe
    apply hincomplete hahead 0
    rw [hframe, hempty]
    rfl
  · obtain ⟨bytes, hborrowing, hahead, rfl⟩ := hheader
    apply alone_part (writeAll_spec hborrowing hahead)
    rintro ⟨error | count, borrowed⟩ past hbody
    · apply alone_ret
      obtain ⟨bytes, hborrowing, ⟨part, hpart, rfl⟩, hincomplete⟩ := hbody
      exact ⟨_, hborrowing, (List.prefix_append_right_inj _).2 hpart,
        fun hahead _ hwhole => hincomplete hahead 0 hwhole⟩
    · apply alone_ret
      exact hbody

/-- All that is read of a frame: the header, and the body if it is not too large. -/
def WholeRead (limit : Nat) (body bytes : Bytes) : Prop :=
  ∃ header, header.length = frameHeaderBytes ∧ body.length = fromBeBytes header ∧
    body.length ≤ limit ∧ bytes = header ++ body

/-- A part of what is to be read. -/
def PartRead (limit : Nat) (bytes : Bytes) : Prop :=
  bytes.length ≤ frameHeaderBytes ∨ ∃ header part, header.length = frameHeaderBytes ∧
    part.length ≤ fromBeBytes header ∧ fromBeBytes header ≤ limit ∧ bytes = header ++ part

theorem readParts_spec {limit : Nat}
    (h : Borrowing deadline original ⟨original, false⟩ [] past)
    (htimely : Timely deadline past) :
    Alone exec (readParts deadline original limit)
      (Parted deadline original (WholeRead limit) (PartRead limit)) past := by
  apply alone_part (readExact_spec h htimely)
  rintro ⟨error | header, borrowed⟩ past hheader
  · apply alone_ret
    obtain ⟨bytes, hborrowing, ⟨part, hpart, rfl⟩, hincomplete⟩ := hheader
    refine ⟨_, hborrowing, .inl hpart, fun hahead body hwhole => ?_⟩
    obtain ⟨header, hlength, -, -, hbytes⟩ := hwhole
    rw [hbytes, List.length_append] at hpart
    have hempty := List.eq_nil_of_length_eq_zero (by omega : body.length = 0)
    rw [hempty, List.append_nil] at hbytes
    exact hincomplete hahead header ⟨hbytes, hlength⟩
  · obtain ⟨bytes, hborrowing, hahead, rfl, hlength⟩ := hheader
    dsimp only
    split
    next hlarge =>
      apply alone_ret
      refine ⟨_, hborrowing, .inl (Nat.le_of_eq hlength), fun _ body hwhole => ?_⟩
      obtain ⟨other, hother, hbody, hlimit, hbytes⟩ := hwhole
      have hempty : body.length = 0 := by
        have hlengths := congrArg List.length hbytes
        rw [List.length_append] at hlengths
        omega
      rw [List.eq_nil_of_length_eq_zero hempty, List.append_nil] at hbytes
      rw [← hbytes] at hbody
      omega
    next hlimit =>
      apply alone_mono (readExact_spec hborrowing hahead)
      rintro ⟨error | body, borrowed⟩ past hbody
      · obtain ⟨bytes, hborrowing, ⟨part, hpart, rfl⟩, hincomplete⟩ := hbody
        refine ⟨_, hborrowing, .inr ⟨_, part, hlength, hpart, Nat.le_of_not_lt hlimit, rfl⟩,
          fun hahead body hwhole => ?_⟩
        obtain ⟨other, hother, hbody, -, hbytes⟩ := hwhole
        obtain ⟨rfl, rfl⟩ := List.append_inj hbytes (hlength.trans hother.symm)
        exact hincomplete hahead part ⟨rfl, hbody⟩
      · obtain ⟨bytes, hborrowing, hahead, rfl, hbody⟩ := hbody
        refine ⟨_, hborrowing, hahead, _, hlength, hbody, ?_, rfl⟩
        rw [hbody]
        exact Nat.le_of_not_lt hlimit

end Parts

end Yams.Deadline
