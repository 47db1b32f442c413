/-
Frames are found alike however a stream is cut.  The incremental reader, laid
out as it is in memory, and the blocking reader both find the first frame of
the bytes, and what is written is read back with nothing beyond it.
-/
import Yams.Frame

namespace Yams

/-! The first frame of a stream. -/

/-- The body length that the first four bytes announce. -/
def declaredLength (stream : Bytes) : Nat :=
  fromBeBytes (stream.take frameHeaderBytes)

def frameEnd (stream : Bytes) : Nat := frameHeaderBytes + declaredLength stream

/-- The body of the first frame of a stream that ends. -/
def firstFrame (limit : Nat) (stream : Bytes) : Except ProtocolError Bytes :=
  if stream.length < frameHeaderBytes then .error .truncatedFrame
  else if declaredLength stream > limit then
    .error (.frameTooLarge (declaredLength stream) limit)
  else if stream.length < frameEnd stream then .error .truncatedFrame
  else .ok ((stream.drop frameHeaderBytes).take (declaredLength stream))

/-- The bytes are exactly one frame. -/
def WholeFrame (stream : Bytes) : Prop :=
  frameHeaderBytes ≤ stream.length ∧ stream.length = frameEnd stream

instance (stream : Bytes) : Decidable (WholeFrame stream) := instDecidableAnd

/-- The bytes announce too long a body, or go on after the frame. -/
def Overruns (limit : Nat) (stream : Bytes) : Prop :=
  frameHeaderBytes ≤ stream.length ∧
    (limit < declaredLength stream ∨ frameEnd stream < stream.length)

theorem declaredLength_append {stream : Bytes} (rest : Bytes)
    (h : frameHeaderBytes ≤ stream.length) :
    declaredLength (stream ++ rest) = declaredLength stream := by
  rw [declaredLength, declaredLength, List.take_append_of_le_length h]

theorem frameEnd_append {stream : Bytes} (rest : Bytes)
    (h : frameHeaderBytes ≤ stream.length) :
    frameEnd (stream ++ rest) = frameEnd stream := by
  rw [frameEnd, frameEnd, declaredLength_append rest h]

/-- A part of the frame that is not all of it ends before the frame does. -/
theorem length_lt_frameEnd {fed : Bytes} (rest : Bytes) (hpart : ¬ WholeFrame fed)
    (hfits : frameHeaderBytes ≤ fed.length → fed.length ≤ frameEnd fed) :
    fed.length < frameEnd (fed ++ rest) := by
  by_cases hheader : frameHeaderBytes ≤ fed.length
  · rw [frameEnd_append rest hheader]
    apply Nat.lt_of_le_of_ne (hfits hheader)
    intro heq
    exact hpart ⟨hheader, heq⟩
  · rw [frameEnd]
    omega

theorem firstFrame_of_whole {stream : Bytes} {limit : Nat} (rest : Bytes)
    (hwhole : WholeFrame stream) (hlimit : declaredLength stream ≤ limit) :
    firstFrame limit (stream ++ rest) = .ok (stream.drop frameHeaderBytes) := by
  obtain ⟨hheader, hend⟩ := hwhole
  have hlength : (stream.drop frameHeaderBytes).length = declaredLength stream := by
    rw [List.length_drop, hend, frameEnd]
    omega
  have hstream : ¬ (stream ++ rest).length < frameHeaderBytes := by
    rw [List.length_append]
    omega
  have hshort : ¬ (stream ++ rest).length < frameEnd (stream ++ rest) := by
    rw [frameEnd_append rest hheader, List.length_append]
    omega
  rw [firstFrame, if_neg hstream, declaredLength_append rest hheader,
    if_neg (Nat.not_lt.2 hlimit), if_neg hshort,
    List.drop_append_of_le_length hheader, ← hlength, List.take_left]

/-! The incremental reader in memory. -/

/-- `copy_from_slice` into an array from an index on. -/
def copyInto (array : Bytes) (start : Nat) (slice : Bytes) : Bytes :=
  array.take start ++ slice ++ array.drop (start + slice.length)

/-- The incremental reader with its header array, of which a part is filled. -/
structure FrameBuffer where
  limit : Nat
  header : Bytes
  headerLen : Nat
  declared : Option Nat
  body : Bytes

namespace FrameBuffer

def new (limit : Nat) : FrameBuffer := ⟨limit, [0, 0, 0, 0], 0, none, []⟩

def want (buffer : FrameBuffer) : Nat :=
  match buffer.declared with
  | some declared => declared - buffer.body.length
  | none => frameHeaderBytes - buffer.headerLen

def frame (buffer : FrameBuffer) : Option Bytes :=
  (buffer.declared.filter fun declared => buffer.body.length = declared).map
    fun _ => buffer.body

/-- `feed`: the answer and the reader as it is left. -/
def feed (buffer : FrameBuffer) (input : Bytes) :
    Except ProtocolError Bool × FrameBuffer :=
  if buffer.frame.isSome then (.error .frameAlreadyComplete, buffer)
  else if input.isEmpty then (.error .truncatedFrame, buffer)
  else match buffer.declared with
    | some declared =>
        if input.length > declared - buffer.body.length then
          (.error .frameInputTooLong, buffer)
        else
          let buffer := { buffer with body := buffer.body ++ input }
          (.ok (buffer.body.length = declared), buffer)
    | none =>
        let needed := frameHeaderBytes - buffer.headerLen
        if input.length < needed then
          let buffer := { buffer with
            header := copyInto buffer.header buffer.headerLen input }
          let buffer := { buffer with headerLen := buffer.headerLen + input.length }
          (.ok false, buffer)
        else
          let completeHeader :=
            copyInto buffer.header buffer.headerLen (input.take needed)
          let declared := fromBeBytes completeHeader
          if declared > buffer.limit then
            (.error (.frameTooLarge declared buffer.limit), buffer)
          else
            let body := input.drop needed
            if body.length > declared then (.error .frameInputTooLong, buffer)
            else
              let buffer := { buffer with
                header := completeHeader
                headerLen := frameHeaderBytes
                declared := some declared }
              let buffer := { buffer with body := buffer.body ++ body }
              (.ok (buffer.body.length = declared), buffer)

/-- Feed the pieces of a stream until the frame is complete; after the last
piece the stream ends, which an empty slice stands for. -/
def feedAll (buffer : FrameBuffer) : List Bytes → Except ProtocolError Bytes
  | [] => (buffer.feed []).1.map fun _ => buffer.body
  | piece :: pieces =>
      match buffer.feed piece with
      | (.error error, _) => .error error
      | (.ok true, buffer) => .ok (buffer.frame.getD [])
      | (.ok false, buffer) => buffer.feedAll pieces

/-- The part of the reader that later steps read. -/
def reader (buffer : FrameBuffer) : FrameReader :=
  ⟨buffer.limit, buffer.header.take buffer.headerLen, buffer.declared, buffer.body⟩

/-- The reader after some bytes of a frame, in terms of these bytes. -/
structure Holds (buffer : FrameBuffer) (limit : Nat) (fed : Bytes) : Prop where
  bound : buffer.limit = limit
  array : buffer.header.length = frameHeaderBytes
  filled : buffer.headerLen = min fed.length frameHeaderBytes
  header : buffer.header.take buffer.headerLen = fed.take frameHeaderBytes
  declared : buffer.declared =
    if fed.length < frameHeaderBytes then none else some (declaredLength fed)
  body : buffer.body = fed.drop frameHeaderBytes
  small : frameHeaderBytes ≤ fed.length → declaredLength fed ≤ limit
  fits : frameHeaderBytes ≤ fed.length → fed.length ≤ frameEnd fed

theorem new_holds (limit : Nat) : (new limit).Holds limit [] where
  bound := rfl
  array := rfl
  filled := rfl
  header := rfl
  declared := rfl
  body := rfl
  small := by
    intro h
    cases h
  fits := by
    intro h
    cases h

theorem copyInto_length {array slice : Bytes} {start : Nat}
    (h : start + slice.length ≤ array.length) :
    (copyInto array start slice).length = array.length := by
  simp only [copyInto, List.length_append, List.length_take, List.length_drop]
  omega

/-- The filled part of an array after one more slice. -/
theorem take_copyInto {array slice : Bytes} {start : Nat}
    (h : start ≤ array.length) :
    (copyInto array start slice).take (start + slice.length) =
      array.take start ++ slice := by
  have hlength : (array.take start ++ slice).length = start + slice.length := by
    rw [List.length_append, List.length_take, Nat.min_eq_left h]
  rw [copyInto, ← hlength, List.take_left]

variable {buffer : FrameBuffer} {limit : Nat} {fed : Bytes}

theorem Holds.frame_eq (h : buffer.Holds limit fed) :
    buffer.frame = if WholeFrame fed then some (fed.drop frameHeaderBytes)
      else none := by
  by_cases hheader : fed.length < frameHeaderBytes
  · have hpart : ¬ WholeFrame fed := fun hwhole => Nat.not_lt.2 hwhole.1 hheader
    rw [frame, h.declared, if_pos hheader, if_neg hpart]
    rfl
  · have hbody : (fed.drop frameHeaderBytes).length = declaredLength fed ↔
        WholeFrame fed := by
      rw [WholeFrame, frameEnd, List.length_drop]
      omega
    rw [frame, h.declared, if_neg hheader, h.body]
    simp only [Option.filter, hbody, decide_eq_true_eq]
    split <;> rfl

/-- What a feed does, in terms of the bytes before and after it. -/
inductive FeedStep (buffer : FrameBuffer) (limit : Nat) (fed input : Bytes) :
    Except ProtocolError Bool × FrameBuffer → Prop
  | complete (h : WholeFrame fed) :
      FeedStep buffer limit fed input (.error .frameAlreadyComplete, buffer)
  | ended (hpart : ¬ WholeFrame fed) (h : input = []) :
      FeedStep buffer limit fed input (.error .truncatedFrame, buffer)
  | tooLarge (hpart : ¬ WholeFrame fed) (hinput : input ≠ [])
      (hheader : frameHeaderBytes ≤ (fed ++ input).length)
      (h : limit < declaredLength (fed ++ input)) :
      FeedStep buffer limit fed input
        (.error (.frameTooLarge (declaredLength (fed ++ input)) limit), buffer)
  | tooLong (hpart : ¬ WholeFrame fed) (hinput : input ≠ [])
      (hheader : frameHeaderBytes ≤ (fed ++ input).length)
      (h : frameEnd (fed ++ input) < (fed ++ input).length) :
      FeedStep buffer limit fed input (.error .frameInputTooLong, buffer)
  | taken (hpart : ¬ WholeFrame fed) (hinput : input ≠ []) {next : FrameBuffer}
      (h : next.Holds limit (fed ++ input)) :
      FeedStep buffer limit fed input (.ok (WholeFrame (fed ++ input)), next)

/-- The body goes on. -/
theorem Holds.feed_body (h : buffer.Holds limit fed) {input : Bytes}
    (hheader : frameHeaderBytes ≤ fed.length) (hpart : ¬ WholeFrame fed)
    (hinput : input ≠ []) :
    FeedStep buffer limit fed input (buffer.feed input) := by
  have hframe : ¬ buffer.frame.isSome = true := by
    rw [h.frame_eq, if_neg hpart]
    exact Bool.false_ne_true
  have hempty : ¬ input.isEmpty = true := by rwa [List.isEmpty_iff]
  have hdeclared : buffer.declared = some (declaredLength fed) := by
    rw [h.declared, if_neg (Nat.not_lt.2 hheader)]
  have hbody : buffer.body.length = fed.length - frameHeaderBytes := by
    rw [h.body, List.length_drop]
  have hfits := h.fits hheader
  have hend := frameEnd_append input hheader
  have happend : (fed ++ input).length = fed.length + input.length :=
    List.length_append
  rw [frameEnd] at hfits
  rw [feed, if_neg hframe, if_neg hempty, hdeclared]
  dsimp only
  by_cases hlong : input.length > declaredLength fed - buffer.body.length
  · rw [if_pos hlong]
    apply FeedStep.tooLong hpart hinput (by omega)
    rw [hend, frameEnd]
    omega
  · rw [if_neg hlong]
    have hwhole : (buffer.body ++ input).length = declaredLength fed ↔
        WholeFrame (fed ++ input) := by
      rw [WholeFrame, hend, frameEnd, happend, List.length_append]
      omega
    have hnext : FrameBuffer.Holds { buffer with body := buffer.body ++ input }
        limit (fed ++ input) := by
      have hlater : ¬ (fed ++ input).length < frameHeaderBytes := by omega
      refine ⟨h.bound, h.array, ?_, ?_, ?_, ?_, ?_, ?_⟩
      · rw [h.filled]
        omega
      · rw [h.header, List.take_append_of_le_length hheader]
      · rw [if_neg hlater, declaredLength_append _ hheader]
        exact hdeclared
      · rw [List.drop_append_of_le_length hheader, h.body]
      · intro _
        rw [declaredLength_append _ hheader]
        exact h.small hheader
      · intro _
        rw [hend, frameEnd]
        omega
    rw [hdeclared] at hnext
    simp only [hwhole]
    exact .taken hpart hinput hnext

/-- The header is still incomplete. -/
theorem Holds.feed_header (h : buffer.Holds limit fed) {input : Bytes}
    (hinput : input ≠ []) (hshort : (fed ++ input).length < frameHeaderBytes) :
    FeedStep buffer limit fed input (buffer.feed input) := by
  have happend : (fed ++ input).length = fed.length + input.length :=
    List.length_append
  have hheader : fed.length < frameHeaderBytes := by omega
  have hpart : ¬ WholeFrame fed := fun hwhole => Nat.not_lt.2 hwhole.1 hheader
  have hframe : ¬ buffer.frame.isSome = true := by
    rw [h.frame_eq, if_neg hpart]
    exact Bool.false_ne_true
  have hempty : ¬ input.isEmpty = true := by rwa [List.isEmpty_iff]
  have hdeclared : buffer.declared = none := by rw [h.declared, if_pos hheader]
  have hfilled : buffer.headerLen = fed.length := by
    rw [h.filled]
    omega
  have harray := h.array
  have hneeded : input.length < frameHeaderBytes - buffer.headerLen := by omega
  rw [feed, if_neg hframe, if_neg hempty, hdeclared]
  dsimp only
  rw [if_pos hneeded]
  have hfalse : false = decide (WholeFrame (fed ++ input)) := by
    symm
    apply decide_eq_false
    intro hwhole
    exact Nat.not_lt.2 hwhole.1 hshort
  have hnext : FrameBuffer.Holds { buffer with
      header := copyInto buffer.header buffer.headerLen input
      headerLen := buffer.headerLen + input.length } limit (fed ++ input) := by
    refine ⟨h.bound, ?_, ?_, ?_, ?_, ?_, ?_, ?_⟩
    · dsimp only
      rw [copyInto_length (by omega), harray]
    · dsimp only
      omega
    · dsimp only
      rw [take_copyInto (by omega), h.header, List.take_of_length_le (by omega),
        List.take_of_length_le (by omega)]
    · rw [if_pos hshort]
      exact hdeclared
    · dsimp only
      rw [h.body, List.drop_eq_nil_of_le (by omega), List.drop_eq_nil_of_le (by omega)]
    · intro hlater
      omega
    · intro hlater
      omega
  rw [hdeclared] at hnext
  rw [hfalse]
  exact .taken hpart hinput hnext

/-- The header is completed, perhaps with a part of the body. -/
theorem Holds.feed_both (h : buffer.Holds limit fed) {input : Bytes}
    (hheader : fed.length < frameHeaderBytes)
    (hlater : frameHeaderBytes ≤ (fed ++ input).length) :
    FeedStep buffer limit fed input (buffer.feed input) := by
  have happend : (fed ++ input).length = fed.length + input.length :=
    List.length_append
  have hinput : input ≠ [] := by
    rintro rfl
    rw [List.append_nil] at hlater
    omega
  have hpart : ¬ WholeFrame fed := fun hwhole => Nat.not_lt.2 hwhole.1 hheader
  have hframe : ¬ buffer.frame.isSome = true := by
    rw [h.frame_eq, if_neg hpart]
    exact Bool.false_ne_true
  have hempty : ¬ input.isEmpty = true := by rwa [List.isEmpty_iff]
  have hdeclared : buffer.declared = none := by rw [h.declared, if_pos hheader]
  have hfilled : buffer.headerLen = fed.length := by
    rw [h.filled]
    omega
  have harray := h.array
  have hneeded : ¬ input.length < frameHeaderBytes - buffer.headerLen := by omega
  have hslice : (input.take (frameHeaderBytes - buffer.headerLen)).length =
      frameHeaderBytes - fed.length := by
    rw [List.length_take, hfilled]
    omega
  have hcomplete : copyInto buffer.header buffer.headerLen
      (input.take (frameHeaderBytes - buffer.headerLen)) =
      (fed ++ input).take frameHeaderBytes := by
    have htake : (copyInto buffer.header buffer.headerLen
        (input.take (frameHeaderBytes - buffer.headerLen))).take
          (buffer.headerLen +
            (input.take (frameHeaderBytes - buffer.headerLen)).length) =
        buffer.header.take buffer.headerLen ++
          input.take (frameHeaderBytes - buffer.headerLen) :=
      take_copyInto (by omega)
    rw [List.take_of_length_le (by rw [copyInto_length] <;> omega), h.header,
      List.take_of_length_le (Nat.le_of_lt hheader), hfilled] at htake
    rw [hfilled, htake, List.take_append, List.take_of_length_le (Nat.le_of_lt hheader)]
  have hrest : input.drop (frameHeaderBytes - buffer.headerLen) =
      (fed ++ input).drop frameHeaderBytes := by
    rw [hfilled, List.drop_append, List.drop_eq_nil_of_le (Nat.le_of_lt hheader)]
    rfl
  have hlength : ((fed ++ input).drop frameHeaderBytes).length =
      fed.length + input.length - frameHeaderBytes := by
    rw [List.length_drop, happend]
  rw [feed, if_neg hframe, if_neg hempty, hdeclared]
  dsimp only
  rw [if_neg hneeded, hcomplete, hrest, h.bound, hlength]
  by_cases hlarge : fromBeBytes ((fed ++ input).take frameHeaderBytes) > limit
  · rw [if_pos hlarge]
    exact .tooLarge hpart hinput hlater hlarge
  rw [if_neg hlarge]
  by_cases hlong : fed.length + input.length - frameHeaderBytes >
      fromBeBytes ((fed ++ input).take frameHeaderBytes)
  · rw [if_pos hlong]
    apply FeedStep.tooLong hpart hinput hlater
    rw [frameEnd, declaredLength]
    omega
  rw [if_neg hlong, h.body, List.drop_eq_nil_of_le (Nat.le_of_lt hheader),
    List.nil_append, hlength]
  have hwhole : fed.length + input.length - frameHeaderBytes =
      fromBeBytes ((fed ++ input).take frameHeaderBytes) ↔
      WholeFrame (fed ++ input) := by
    rw [WholeFrame, frameEnd, declaredLength]
    omega
  simp only [hwhole]
  apply FeedStep.taken hpart hinput
  refine ⟨rfl, ?_, ?_, ?_, ?_, rfl, ?_, ?_⟩
  · dsimp only
    rw [List.length_take]
    omega
  · dsimp only
    omega
  · dsimp only
    rw [List.take_take, Nat.min_self]
  · rw [if_neg (Nat.not_lt.2 hlater)]
    rfl
  · intro _
    exact Nat.not_lt.1 hlarge
  · intro _
    rw [frameEnd, declaredLength]
    omega

/-- One specification for every feed: each outcome in terms of the bytes. -/
theorem Holds.feed_step (h : buffer.Holds limit fed) (input : Bytes) :
    FeedStep buffer limit fed input (buffer.feed input) := by
  by_cases hwhole : WholeFrame fed
  · have hframe : buffer.frame.isSome = true := by
      rw [h.frame_eq, if_pos hwhole]
      rfl
    rw [feed, if_pos hframe]
    exact .complete hwhole
  by_cases hinput : input = []
  · have hframe : ¬ buffer.frame.isSome = true := by
      rw [h.frame_eq, if_neg hwhole]
      exact Bool.false_ne_true
    have hempty : input.isEmpty = true := List.isEmpty_iff.2 hinput
    rw [feed, if_neg hframe, if_pos hempty]
    exact .ended hwhole hinput
  by_cases hheader : fed.length < frameHeaderBytes
  · by_cases hlater : frameHeaderBytes ≤ (fed ++ input).length
    · exact h.feed_both hheader hlater
    · exact h.feed_header hinput (Nat.not_le.1 hlater)
  · exact h.feed_body (Nat.not_lt.1 hheader) hwhole hinput

/-- The reader refuses a slice without committing any of it. -/
theorem Holds.feed_error (h : buffer.Holds limit fed) {input : Bytes}
    {error : ProtocolError} {next : FrameBuffer}
    (hfeed : buffer.feed input = (.error error, next)) : next = buffer := by
  have hstep := h.feed_step input
  rw [hfeed] at hstep
  cases hstep <;> rfl

theorem Holds.feed_ok (h : buffer.Holds limit fed) {input : Bytes} {done : Bool}
    {next : FrameBuffer} (hfeed : buffer.feed input = (.ok done, next)) :
    input ≠ [] ∧ done = decide (WholeFrame (fed ++ input)) ∧
      next.Holds limit (fed ++ input) := by
  have hstep := h.feed_step input
  rw [hfeed] at hstep
  cases hstep with
  | taken _ hinput hnext => exact ⟨hinput, rfl, hnext⟩

/-- A slice that is taken ends within the frame. -/
theorem Holds.not_overruns (h : buffer.Holds limit fed) : ¬ Overruns limit fed := by
  rintro ⟨hheader, hlarge | hlong⟩
  · exact Nat.not_lt.2 (h.small hheader) hlarge
  · exact Nat.not_lt.2 (h.fits hheader) hlong

theorem Holds.refuses_iff (h : buffer.Holds limit fed) (input : Bytes) :
    (∃ error next, buffer.feed input = (.error error, next)) ↔
      WholeFrame fed ∨ input = [] ∨ Overruns limit (fed ++ input) := by
  constructor
  · rintro ⟨error, next, hfeed⟩
    have hstep := h.feed_step input
    rw [hfeed] at hstep
    cases hstep with
    | complete hwhole => exact .inl hwhole
    | ended _ hinput => exact .inr (.inl hinput)
    | tooLarge _ _ hheader hlarge => exact .inr (.inr ⟨hheader, .inl hlarge⟩)
    | tooLong _ _ hheader hlong => exact .inr (.inr ⟨hheader, .inr hlong⟩)
  · intro hrefused
    have hstep := h.feed_step input
    cases hfeed : buffer.feed input with
    | mk answer next =>
        cases answer with
        | error error => exact ⟨error, next, rfl⟩
        | ok done =>
            rw [hfeed] at hstep
            cases hstep with
            | taken hpart hinput hnext =>
                rcases hrefused with hwhole | hempty | hover
                · exact absurd hwhole hpart
                · exact absurd hempty hinput
                · exact absurd hover hnext.not_overruns

theorem frame_reader (buffer : FrameBuffer) : buffer.reader.frame = buffer.frame := by
  cases hdeclared : buffer.declared with
  | none => simp [FrameReader.frame, reader, frame, hdeclared]
  | some declared =>
      by_cases hlength : buffer.body.length = declared <;>
        simp [FrameReader.frame, reader, frame, hdeclared, hlength, Option.filter]

/-- The reader that the event loops use makes the same steps. -/
theorem Holds.reader_feed (h : buffer.Holds limit fed) (input : Bytes) :
    buffer.reader.feed input = match buffer.feed input with
      | (.error error, _) => .error error
      | (.ok done, next) => .ok (next.reader, done) := by
  have harray := h.array
  have hfilled : (buffer.header.take buffer.headerLen).length = buffer.headerLen := by
    rw [List.length_take, h.filled]
    omega
  rw [FrameReader.feed, feed, frame_reader]
  by_cases hframe : buffer.frame.isSome = true
  · rw [if_pos hframe, if_pos hframe]
  rw [if_neg hframe, if_neg hframe]
  by_cases hempty : input.isEmpty = true
  · rw [if_pos hempty, if_pos hempty]
  rw [if_neg hempty, if_neg hempty]
  cases hdeclared : buffer.declared with
  | some declared =>
      simp only [reader, hdeclared]
      by_cases hlong : input.length > declared - buffer.body.length
      · rw [if_pos hlong, if_pos hlong]
      · rw [if_neg hlong, if_neg hlong]
  | none =>
      have hheader : fed.length < frameHeaderBytes := by
        by_contra hlater
        rw [h.declared, if_neg hlater] at hdeclared
        cases hdeclared
      have hlen := h.filled
      have hbody : buffer.body = [] := by
        rw [h.body, List.drop_eq_nil_of_le (Nat.le_of_lt hheader)]
      simp only [reader, hdeclared, hfilled, hbody, List.nil_append]
      by_cases hshort : input.length < frameHeaderBytes - buffer.headerLen
      · rw [if_pos hshort, if_pos hshort]
        have htake : (copyInto buffer.header buffer.headerLen input).take
            (buffer.headerLen + input.length) =
            buffer.header.take buffer.headerLen ++ input :=
          take_copyInto (by omega)
        simp only [htake]
      · have hslice : (input.take (frameHeaderBytes - buffer.headerLen)).length =
            frameHeaderBytes - buffer.headerLen := by
          rw [List.length_take]
          omega
        have hcomplete : copyInto buffer.header buffer.headerLen
            (input.take (frameHeaderBytes - buffer.headerLen)) =
            buffer.header.take buffer.headerLen ++
              input.take (frameHeaderBytes - buffer.headerLen) := by
          rw [copyInto, List.drop_eq_nil_of_le (by omega), List.append_nil]
        have hsize : (buffer.header.take buffer.headerLen ++
            input.take (frameHeaderBytes - buffer.headerLen)).length ≤
            frameHeaderBytes := by
          rw [List.length_append, hfilled, hslice]
          omega
        rw [if_neg hshort, if_neg hshort, hcomplete]
        split
        · rfl
        split
        · rfl
        · simp only [List.take_of_length_le hsize]

/-- The states of a reader, with the bytes that it has taken. -/
inductive Reached (limit : Nat) : FrameBuffer → Bytes → Prop
  | new : Reached limit (new limit) []
  | fed {buffer next : FrameBuffer} {fed input : Bytes} {done : Bool}
      (h : Reached limit buffer fed) (hfeed : buffer.feed input = (.ok done, next)) :
      Reached limit next (fed ++ input)
  | refused {buffer next : FrameBuffer} {fed input : Bytes}
      {error : ProtocolError} (h : Reached limit buffer fed)
      (hfeed : buffer.feed input = (.error error, next)) : Reached limit next fed

theorem Reached.holds (h : Reached limit buffer fed) : buffer.Holds limit fed := by
  induction h with
  | new => exact new_holds limit
  | fed _ hfeed ih => exact (ih.feed_ok hfeed).2.2
  | refused _ hfeed ih =>
      rw [ih.feed_error hfeed]
      exact ih

/-- What the size of the next read has to be, and which slices are taken. -/
structure ExactWant (buffer : FrameBuffer) (limit : Nat) (fed : Bytes) : Prop where
  header : buffer.declared = none →
    fed.length + buffer.want = frameHeaderBytes ∧
      ∀ input, input ≠ [] → input.length ≤ buffer.want →
        ((∃ next, buffer.feed input = (.ok false, next) ∧ next.declared = none) ↔
          input.length < buffer.want) ∧
        (input.length = buffer.want →
          (∃ done next, buffer.feed input = (.ok done, next)) ∨
            limit < declaredLength (fed ++ input))
  body : ∀ declared, buffer.declared = some declared →
    buffer.body.length + buffer.want = declared ∧
      ∀ input, input ≠ [] →
        ((∃ done next, buffer.feed input = (.ok done, next)) ↔
          input.length ≤ buffer.want)

theorem Holds.exactWant (h : buffer.Holds limit fed) :
    buffer.ExactWant limit fed := by
  have hfilled := h.filled
  constructor
  · intro hdeclared
    have hheader : fed.length < frameHeaderBytes := by
      by_contra hlater
      rw [h.declared, if_neg hlater] at hdeclared
      cases hdeclared
    have hwant : buffer.want = frameHeaderBytes - fed.length := by
      simp only [want, hdeclared]
      omega
    have hpart : ¬ WholeFrame fed := fun hwhole => Nat.not_lt.2 hwhole.1 hheader
    refine ⟨by omega, ?_⟩
    intro input hinput hfits
    have happend : (fed ++ input).length = fed.length + input.length :=
      List.length_append
    constructor
    · constructor
      · rintro ⟨next, hfeed, hnext⟩
        obtain ⟨_, _, hholds⟩ := h.feed_ok hfeed
        by_contra hlater
        rw [hholds.declared, if_neg (by omega)] at hnext
        cases hnext
      · intro hshort
        have hstep := h.feed_header hinput (by omega)
        generalize buffer.feed input = result at hstep ⊢
        cases hstep with
        | complete hwhole => exact absurd hwhole hpart
        | ended _ hempty => exact absurd hempty hinput
        | tooLarge _ _ hlater _ => omega
        | tooLong _ _ hlater _ => omega
        | taken _ _ hnext =>
            have hfalse : decide (WholeFrame (fed ++ input)) = false := by
              apply decide_eq_false
              intro hwhole
              have hlater := hwhole.1
              omega
            refine ⟨_, by rw [hfalse], ?_⟩
            rw [hnext.declared, if_pos (by omega)]
    · intro hexact
      have hstep := h.feed_both hheader (by omega : _ ≤ (fed ++ input).length)
      generalize buffer.feed input = result at hstep ⊢
      cases hstep with
      | complete hwhole => exact absurd hwhole hpart
      | ended _ hempty => exact absurd hempty hinput
      | tooLarge _ _ _ hlarge => exact .inr hlarge
      | tooLong _ _ _ hlong =>
          rw [frameEnd] at hlong
          omega
      | taken => exact .inl ⟨_, _, rfl⟩
  · intro declared hdeclared
    have hheader : ¬ fed.length < frameHeaderBytes := by
      intro hshort
      rw [h.declared, if_pos hshort] at hdeclared
      cases hdeclared
    have hlater : frameHeaderBytes ≤ fed.length := Nat.not_lt.1 hheader
    have hfits := h.fits hlater
    have hvalue : declaredLength fed = declared := by
      have hboth := h.declared
      rw [if_neg hheader, hdeclared] at hboth
      exact (Option.some.inj hboth).symm
    have hbody : buffer.body.length = fed.length - frameHeaderBytes := by
      rw [h.body, List.length_drop]
    have hwant : buffer.want = declared - buffer.body.length := by
      simp only [want, hdeclared]
    rw [frameEnd, hvalue] at hfits
    refine ⟨by omega, ?_⟩
    intro input hinput
    have happend : (fed ++ input).length = fed.length + input.length :=
      List.length_append
    have hpositive : 0 < input.length := List.length_pos_of_ne_nil hinput
    constructor
    · rintro ⟨done, next, hfeed⟩
      have hnext := (h.feed_ok hfeed).2.2.fits (by omega)
      rw [frameEnd_append _ hlater, frameEnd, hvalue] at hnext
      omega
    · intro hshort
      have hrefuses := h.refuses_iff input
      cases hfeed : buffer.feed input with
      | mk answer next =>
          cases answer with
          | ok done => exact ⟨done, next, rfl⟩
          | error error =>
              rw [hfeed] at hrefuses
              rcases hrefuses.1 ⟨error, next, rfl⟩ with hwhole | hempty | hover
              · have hend := hwhole.2
                rw [frameEnd, hvalue] at hend
                omega
              · exact absurd hempty hinput
              · rcases hover.2 with hlarge | hlong
                · rw [declaredLength_append _ hlater] at hlarge
                  exact absurd hlarge (Nat.not_lt.2 (h.small hlater))
                · rw [frameEnd_append _ hlater, frameEnd, hvalue] at hlong
                  omega

end FrameBuffer

/-- No piece reaches over a position of the stream. -/
def Uncrossed (stop : Nat) : Nat → List Bytes → Prop
  | _, [] => True
  | start, piece :: pieces =>
      ¬ (start < stop ∧ stop < start + piece.length) ∧
        Uncrossed stop (start + piece.length) pieces

namespace FrameBuffer

variable {buffer : FrameBuffer} {limit : Nat} {fed : Bytes}

/-- Feeding finds the first frame of the bytes before and in the pieces. -/
theorem Holds.feedAll (h : buffer.Holds limit fed) (hpart : ¬ WholeFrame fed)
    {pieces : List Bytes} (hpieces : ∀ piece ∈ pieces, piece ≠ [])
    (hcut : Uncrossed (frameEnd (fed ++ pieces.flatten)) fed.length pieces) :
    buffer.feedAll pieces = firstFrame limit (fed ++ pieces.flatten) := by
  induction pieces generalizing buffer fed with
  | nil =>
      have hstep := h.feed_step []
      have hfirst : firstFrame limit (fed ++ ([] : List Bytes).flatten) =
          .error .truncatedFrame := by
        rw [List.flatten_nil, List.append_nil, firstFrame]
        split
        · rfl
        next hheader =>
        have hlater := Nat.not_lt.1 hheader
        have hshort : fed.length < frameEnd fed := by
          apply Nat.lt_of_le_of_ne (h.fits hlater)
          intro heq
          exact hpart ⟨hlater, heq⟩
        rw [if_neg (Nat.not_lt.2 (h.small hlater)), if_pos hshort]
      rw [hfirst, FrameBuffer.feedAll]
      generalize buffer.feed [] = result at hstep ⊢
      cases hstep with
      | complete hwhole => exact absurd hwhole hpart
      | ended => rfl
      | tooLarge _ hinput => exact absurd rfl hinput
      | tooLong _ hinput => exact absurd rfl hinput
      | taken _ hinput => exact absurd rfl hinput
  | cons piece pieces ih =>
      have hstream : fed ++ (piece :: pieces).flatten =
          fed ++ piece ++ pieces.flatten := by
        rw [List.flatten_cons, List.append_assoc]
      obtain ⟨hpiece, hlater⟩ := hcut
      have hbefore := length_lt_frameEnd (piece :: pieces).flatten hpart h.fits
      have hstep := h.feed_step piece
      rw [hstream] at hpiece hlater hbefore ⊢
      have happend : (fed ++ piece).length = fed.length + piece.length :=
        List.length_append
      rw [FrameBuffer.feedAll]
      generalize buffer.feed piece = result at hstep ⊢
      cases hstep with
      | complete hwhole => exact absurd hwhole hpart
      | ended _ hempty => exact absurd hempty (hpieces _ List.mem_cons_self)
      | tooLarge _ _ hheader hlarge =>
          have hlong : ¬ (fed ++ piece ++ pieces.flatten).length <
              frameHeaderBytes := by
            rw [List.length_append]
            omega
          rw [firstFrame, if_neg hlong, declaredLength_append _ hheader,
            if_pos hlarge]
      | tooLong _ _ hheader hlong =>
          rw [frameEnd_append _ hheader] at hpiece hbefore
          omega
      | @taken _ _ next hnext =>
          by_cases hwhole : WholeFrame (fed ++ piece)
          · have hframe := hnext.frame_eq
            rw [if_pos hwhole] at hframe
            rw [firstFrame_of_whole _ hwhole (hnext.small hwhole.1),
              decide_eq_true hwhole]
            change Except.ok (next.frame.getD []) = _
            rw [hframe]
            rfl
          · rw [decide_eq_false hwhole]
            apply ih hnext hwhole
            · intro other hother
              exact hpieces other (List.mem_cons_of_mem _ hother)
            · rw [happend]
              exact hlater

end FrameBuffer

end Yams
