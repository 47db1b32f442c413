/-
The blocking reader and writer of frames, over streams that give and take as
few bytes at a time as they like, and their agreement with the incremental
reader.
-/
import Yams.FrameSegments

namespace Yams

/-! Streams. -/

/-- What a system call does: it moves at most so many bytes, or fails. -/
inductive Pace
  | count (n : Nat)
  | failed (kind : ErrorKind)
  deriving DecidableEq

/-- A stream of bytes that ends; once the calls that are planned are made, a
read gets all that it asks for. -/
structure Stream where
  unread : Bytes
  pace : List Pace

namespace Stream

/-- `Read::read`: no bytes are read only at the end of the stream. -/
def read (stream : Stream) (room : Nat) : Except ErrorKind Bytes × Stream :=
  match stream.pace with
  | [] => (.ok (stream.unread.take room), { stream with
      unread := stream.unread.drop room })
  | .count n :: pace =>
      let count := min room (max n 1)
      (.ok (stream.unread.take count), ⟨stream.unread.drop count, pace⟩)
  | .failed kind :: pace => (.error kind, ⟨stream.unread, pace⟩)

/-- Reads fail only when they are interrupted. -/
def Steady (stream : Stream) : Prop :=
  ∀ kind, .failed kind ∈ stream.pace → kind = .interrupted

def work (stream : Stream) : Nat := stream.pace.length + stream.unread.length

theorem read_steady {stream next : Stream} {room : Nat}
    {answer : Except ErrorKind Bytes} (hsteady : stream.Steady)
    (h : stream.read room = (answer, next)) : next.Steady := by
  unfold read at h
  split at h
  · cases h
    exact hsteady
  next hpace =>
    cases h
    intro kind hmem
    exact hsteady kind (hpace ▸ List.mem_cons_of_mem _ hmem)
  next hpace =>
    cases h
    intro kind hmem
    exact hsteady kind (hpace ▸ List.mem_cons_of_mem _ hmem)

/-- A read takes a part of the stream, and something unless the stream is at
its end. -/
theorem read_ok {stream next : Stream} {room : Nat} {bytes : Bytes}
    (hroom : 0 < room) (h : stream.read room = (.ok bytes, next)) :
    stream.unread = bytes ++ next.unread ∧ bytes.length ≤ room ∧
      (bytes = [] → stream.unread = []) := by
  unfold read at h
  split at h
  · cases h
    refine ⟨(List.take_append_drop _ _).symm, List.length_take_le _ _, ?_⟩
    intro hempty
    rcases List.take_eq_nil_iff.1 hempty with hzero | hnil
    · omega
    · exact hnil
  next n _ _ =>
    cases h
    refine ⟨(List.take_append_drop _ _).symm, ?_, ?_⟩
    · rw [List.length_take]
      omega
    · intro hempty
      rcases List.take_eq_nil_iff.1 hempty with hzero | hnil
      · omega
      · exact hnil
  · cases h

theorem read_error {stream next : Stream} {room : Nat} {kind : ErrorKind}
    (h : stream.read room = (.error kind, next)) :
    next.unread = stream.unread ∧ .failed kind ∈ stream.pace ∧
      next.work < stream.work := by
  unfold read at h
  split at h
  · cases h
  · cases h
  next hpace =>
    cases h
    refine ⟨rfl, hpace ▸ List.mem_cons_self, ?_⟩
    simp only [work, hpace, List.length_cons]
    omega

theorem read_work {stream next : Stream} {room : Nat} {byte : UInt8}
    {bytes : Bytes} (h : stream.read room = (.ok (byte :: bytes), next)) :
    next.work < stream.work := by
  unfold read at h
  split at h
  next hpace =>
    injection h with hbytes hnext
    have hlength := congrArg List.length (Except.ok.inj hbytes)
    rw [List.length_take, List.length_cons] at hlength
    rw [← hnext]
    simp only [work, hpace, List.length_drop]
    omega
  next hpace =>
    injection h with hbytes hnext
    rw [← hnext]
    simp only [work, hpace, List.length_cons, List.length_drop]
    omega
  · cases h

end Stream

/-- A writer, with everything it has taken. -/
structure Sink where
  written : Bytes
  pace : List Pace

/-- `Write::write`. -/
def Sink.write (sink : Sink) (input : Bytes) : Except ErrorKind Nat × Sink :=
  match sink.pace with
  | [] => (.ok input.length, { sink with written := sink.written ++ input })
  | .count n :: pace =>
      let count := min n input.length
      (.ok count, ⟨sink.written ++ input.take count, pace⟩)
  | .failed kind :: pace => (.error kind, ⟨sink.written, pace⟩)

theorem Sink.write_ok {sink next : Sink} {input : Bytes} {count : Nat}
    (h : sink.write input = (.ok count, next)) :
    next.written = sink.written ++ input.take count ∧ count ≤ input.length ∧
      next.pace.length ≤ sink.pace.length ∧
      (count < input.length → next.pace.length < sink.pace.length) := by
  unfold write at h
  split at h
  · cases h
    refine ⟨by rw [List.take_length], Nat.le_refl _, Nat.le_refl _, ?_⟩
    intro hless
    exact absurd hless (Nat.lt_irrefl _)
  next hpace =>
    cases h
    rw [hpace, List.length_cons]
    exact ⟨rfl, Nat.min_le_right _ _, Nat.le_succ _, fun _ => Nat.lt_succ_self _⟩
  · cases h

theorem Sink.write_error {sink next : Sink} {input : Bytes} {kind : ErrorKind}
    (h : sink.write input = (.error kind, next)) :
    next.written = sink.written ∧ next.pace.length < sink.pace.length := by
  unfold write at h
  split at h
  · cases h
  · cases h
  next hpace =>
    cases h
    rw [hpace, List.length_cons]
    exact ⟨rfl, Nat.lt_succ_self _⟩

namespace Blocking

/-- `read_exact`: `output` is what has been filled so far. -/
def readExact (size : Nat) (stream : Stream) (output : Bytes) :
    Except ProtocolError Bytes × Stream :=
  if output.length < size then
    match _hread : stream.read (size - output.length) with
    | (.ok [], stream) => (.error .truncatedFrame, stream)
    | (.ok (byte :: bytes), stream) =>
        readExact size stream (output ++ byte :: bytes)
    | (.error kind, stream) =>
        if kind = .interrupted then readExact size stream output
        else (.error (.io kind), stream)
  else (.ok output, stream)
termination_by stream.work
decreasing_by
  · exact Stream.read_work _hread
  · exact (Stream.read_error _hread).2.2

/-- `read_frame` -/
def readFrame (limit : Nat) (stream : Stream) :
    Except ProtocolError Bytes × Stream :=
  match readExact frameHeaderBytes stream [] with
  | (.error error, stream) => (.error error, stream)
  | (.ok header, stream) =>
      let declared := fromBeBytes header
      if declared > limit then (.error (.frameTooLarge declared limit), stream)
      else readExact declared stream []

/-- `write_all`: `written` counts the bytes of the input that were taken. -/
def writeAll (input : Bytes) (sink : Sink) (written : Nat) :
    Except ProtocolError Unit × Sink :=
  if written < input.length then
    match _hwrite : sink.write (input.drop written) with
    | (.ok 0, sink) => (.error (.io .writeZero), sink)
    | (.ok (count + 1), sink) => writeAll input sink (written + (count + 1))
    | (.error kind, sink) =>
        if kind = .interrupted then writeAll input sink written
        else (.error (.io kind), sink)
  else (.ok (), sink)
termination_by sink.pace.length + (input.length - written)
decreasing_by
  · obtain ⟨_, _, hpace, _⟩ := Sink.write_ok _hwrite
    omega
  · have hpace := (Sink.write_error _hwrite).2
    omega

/-- `write_frame` -/
def writeFrame (body : Bytes) (limit : Nat) (sink : Sink) :
    Except ProtocolError Unit × Sink :=
  match validateFrameSize body limit with
  | .error error => (.error error, sink)
  | .ok () =>
      match writeAll (beBytes body.length) sink 0 with
      | (.error error, sink) => (.error error, sink)
      | (.ok (), sink) => writeAll body sink 0

/-- A read of an exact size takes just these bytes, or finds the end. -/
theorem readExact_steady {size : Nat} {stream : Stream} {output : Bytes}
    (hsteady : stream.Steady) (hroom : output.length ≤ size) :
    (size - output.length ≤ stream.unread.length →
      ∃ next, next.Steady ∧
        next.unread = stream.unread.drop (size - output.length) ∧
        readExact size stream output =
          (.ok (output ++ stream.unread.take (size - output.length)), next)) ∧
    (stream.unread.length < size - output.length →
      ∃ next, readExact size stream output = (.error .truncatedFrame, next)) := by
  fun_induction readExact size stream output with
  | case1 stream output hsize next hread =>
      obtain ⟨_, _, hempty⟩ := Stream.read_ok (by omega) hread
      rw [hempty rfl, List.length_nil]
      constructor
      · intro hzero
        omega
      · intro _
        exact ⟨next, rfl⟩
  | case2 stream output hsize byte bytes next hread ih =>
      obtain ⟨hunread, hcount, _⟩ := Stream.read_ok (by omega) hread
      have hlength : (output ++ byte :: bytes).length =
          output.length + (byte :: bytes).length := List.length_append
      have hrest : size - (output ++ byte :: bytes).length =
          size - output.length - (byte :: bytes).length := by
        omega
      obtain ⟨hfull, hshort⟩ := ih (Stream.read_steady hsteady hread) (by omega)
      rw [hrest] at hfull hshort
      rw [hunread, List.length_append]
      constructor
      · intro henough
        obtain ⟨final, hfinal, hdrop, hresult⟩ := hfull (by omega)
        refine ⟨final, hfinal, ?_, ?_⟩
        · rw [hdrop, List.drop_append, List.drop_eq_nil_of_le hcount, List.nil_append]
        · rw [hresult, List.take_append, List.take_of_length_le hcount,
            List.append_assoc]
      · intro hless
        exact hshort (by omega)
  | case3 stream output hsize next hread ih =>
      obtain ⟨hunread, _, _⟩ := Stream.read_error hread
      rw [← hunread]
      exact ih (Stream.read_steady hsteady hread) hroom
  | case4 stream output hsize next kind hread hkind =>
      obtain ⟨_, hmem, _⟩ := Stream.read_error hread
      exact absurd (hsteady _ hmem) hkind
  | case5 stream output hsize =>
      have hzero : size - output.length = 0 := by omega
      rw [hzero]
      constructor
      · intro _
        refine ⟨stream, hsteady, rfl, ?_⟩
        rw [List.take_zero, List.append_nil]
      · intro hless
        omega

/-- A blocking read finds the first frame of the stream, and leaves what is
behind a frame that it returns. -/
theorem readFrame_steady {limit : Nat} {stream : Stream} (hsteady : stream.Steady) :
    ∃ next, readFrame limit stream = (firstFrame limit stream.unread, next) ∧
      ∀ body, firstFrame limit stream.unread = .ok body →
        next.unread = stream.unread.drop (frameEnd stream.unread) := by
  have hheader := readExact_steady hsteady
    (show ([] : Bytes).length ≤ frameHeaderBytes from Nat.zero_le _)
  simp only [List.length_nil, Nat.sub_zero, List.nil_append] at hheader
  by_cases hshort : stream.unread.length < frameHeaderBytes
  · obtain ⟨next, hresult⟩ := hheader.2 hshort
    have hfirst : firstFrame limit stream.unread = .error .truncatedFrame := by
      rw [firstFrame, if_pos hshort]
    refine ⟨next, ?_, ?_⟩
    · rw [hfirst, readFrame, hresult]
    · intro body hbody
      rw [hfirst] at hbody
      cases hbody
  obtain ⟨middle, hmiddle, hunread, hresult⟩ := hheader.1 (Nat.not_lt.1 hshort)
  have hrest : middle.unread.length = stream.unread.length - frameHeaderBytes := by
    rw [hunread, List.length_drop]
  have hbody := readExact_steady hmiddle
    (show ([] : Bytes).length ≤ declaredLength stream.unread from Nat.zero_le _)
  simp only [List.length_nil, Nat.sub_zero, List.nil_append] at hbody
  rw [readFrame, hresult]
  dsimp only
  rw [← declaredLength]
  by_cases hlarge : declaredLength stream.unread > limit
  · have hfirst : firstFrame limit stream.unread =
        .error (.frameTooLarge (declaredLength stream.unread) limit) := by
      rw [firstFrame, if_neg hshort, if_pos hlarge]
    rw [if_pos hlarge, hfirst]
    refine ⟨middle, rfl, ?_⟩
    intro body hbody
    cases hbody
  rw [if_neg hlarge]
  by_cases hcut : stream.unread.length < frameEnd stream.unread
  · have hfirst : firstFrame limit stream.unread = .error .truncatedFrame := by
      rw [firstFrame, if_neg hshort, if_neg hlarge, if_pos hcut]
    rw [frameEnd] at hcut
    obtain ⟨next, hnext⟩ := hbody.2 (by omega)
    rw [hnext, hfirst]
    refine ⟨next, rfl, ?_⟩
    intro body hbody
    cases hbody
  · have hfirst : firstFrame limit stream.unread =
        .ok (middle.unread.take (declaredLength stream.unread)) := by
      rw [firstFrame, if_neg hshort, if_neg hlarge, if_neg hcut, hunread]
    rw [frameEnd] at hcut
    obtain ⟨next, _, hdrop, hnext⟩ := hbody.1 (by omega)
    rw [hnext, hfirst]
    refine ⟨next, rfl, ?_⟩
    intro _ _
    rw [hdrop, hunread, List.drop_drop, frameEnd]

/-- Everything is written, or the write fails. -/
theorem writeAll_ok {input : Bytes} {sink next : Sink} {written : Nat}
    (h : writeAll input sink written = (.ok (), next)) :
    next.written = sink.written ++ input.drop written := by
  fun_induction writeAll input sink written with
  | case1 => cases h
  | case2 sink written hless count middle hwrite ih =>
      obtain ⟨hwritten, _⟩ := Sink.write_ok hwrite
      rw [ih h, hwritten, List.append_assoc, ← List.drop_drop, List.take_append_drop]
  | case3 sink written hless middle hwrite ih =>
      rw [ih h, (Sink.write_error hwrite).1]
  | case4 => cases h
  | case5 sink written hless =>
      cases h
      rw [List.drop_eq_nil_of_le (Nat.not_lt.1 hless), List.append_nil]

/-- What a write that succeeds has put into the stream. -/
theorem writeFrame_ok {body : Bytes} {limit : Nat} {sink next : Sink}
    (h : writeFrame body limit sink = (.ok (), next)) :
    body.length ≤ limit ∧ body.length ≤ u32Max ∧
      next.written = sink.written ++ (beBytes body.length ++ body) := by
  unfold writeFrame at h
  split at h
  · cases h
  next hsize =>
  have hbounds : body.length ≤ limit ∧ body.length ≤ u32Max := by
    unfold validateFrameSize at hsize
    split at hsize
    · cases hsize
    next hsmall =>
      rw [not_or, Nat.not_lt, Nat.not_lt] at hsmall
      exact hsmall
  split at h
  · cases h
  next hheader =>
  refine ⟨hbounds.1, hbounds.2, ?_⟩
  rw [writeAll_ok h, writeAll_ok hheader, List.drop_zero, List.drop_zero,
    List.append_assoc]

/-- A writer into memory gets the frame that a message is sent in. -/
theorem writeFrame_memory (body : Bytes) (limit : Nat) (written : Bytes) :
    writeFrame body limit ⟨written, []⟩ =
      match Yams.writeFrame body limit with
      | .error error => (.error error, ⟨written, []⟩)
      | .ok frame => (.ok (), ⟨written ++ frame, []⟩) := by
  have hall : ∀ (input taken : Bytes),
      writeAll input ⟨taken, []⟩ 0 = (.ok (), ⟨taken ++ input, []⟩) := by
    intro input taken
    rw [writeAll]
    cases input with
    | nil => simp
    | cons byte input =>
        have hwrite : Sink.write ⟨taken, []⟩ ((byte :: input).drop 0) =
            (.ok (input.length + 1), ⟨taken ++ byte :: input, []⟩) := rfl
        have hmore : 0 < (byte :: input).length := Nat.zero_lt_succ _
        rw [if_pos hmore]
        split
        next h => cases hwrite.symm.trans h
        next h =>
          cases hwrite.symm.trans h
          rw [writeAll, if_neg (by simp)]
        next h => cases hwrite.symm.trans h
  unfold writeFrame Yams.writeFrame
  cases hsize : validateFrameSize body limit with
  | error error => rfl
  | ok =>
      simp only [hall, List.append_assoc]
      rfl

theorem fromBeBytes_beBytes {n : Nat} (h : n ≤ u32Max) :
    fromBeBytes (beBytes n) = n := by
  simp only [u32Max] at h
  simp only [fromBeBytes, beBytes, List.foldl_cons, List.foldl_nil,
    UInt8.toNat_ofNat']
  omega

theorem beBytes_toNat_injective :
    Function.Injective fun n : UInt32 => beBytes n.toNat := by
  intro x y h
  have hword (n : UInt32) : n.toNat ≤ u32Max := Nat.le_of_lt_succ n.toNat_lt
  have hnat := congrArg fromBeBytes h
  simp only [fromBeBytes_beBytes (hword x), fromBeBytes_beBytes (hword y)] at hnat
  exact UInt32.toNat_inj.1 hnat

theorem firstFrame_written {body rest : Bytes} {limit : Nat}
    (hlimit : body.length ≤ limit) (hword : body.length ≤ u32Max) :
    firstFrame limit (beBytes body.length ++ body ++ rest) = .ok body ∧
      frameEnd (beBytes body.length ++ body ++ rest) =
        (beBytes body.length ++ body).length := by
  have hheader : (beBytes body.length).length = frameHeaderBytes := rfl
  have hlater : frameHeaderBytes ≤ (beBytes body.length ++ body).length := by
    rw [List.length_append]
    omega
  have hdeclared : declaredLength (beBytes body.length ++ body) = body.length := by
    rw [declaredLength, ← hheader, List.take_left, fromBeBytes_beBytes hword]
  have hend : frameEnd (beBytes body.length ++ body) =
      (beBytes body.length ++ body).length := by
    rw [frameEnd, hdeclared, List.length_append, hheader]
  have hfirst := firstFrame_of_whole rest ⟨hlater, hend.symm⟩
    (hdeclared.trans_le hlimit)
  rw [← hheader, List.drop_left] at hfirst
  exact ⟨hfirst, by rw [frameEnd_append _ hlater, hend]⟩

end Blocking

open Blocking FrameBuffer

/-- Segmentation of frames. -/
theorem frame_segmentation (limit : Nat) :
    (∀ stream : Stream, stream.Steady → ∀ pieces : List Bytes,
      pieces.flatten = stream.unread → (∀ piece ∈ pieces, piece ≠ []) →
      Uncrossed (frameEnd stream.unread) 0 pieces →
        (FrameBuffer.new limit).feedAll pieces = (readFrame limit stream).1) ∧
    (∀ (buffer : FrameBuffer) (fed : Bytes), Reached limit buffer fed →
      buffer.ExactWant limit fed ∧
      ∀ input, WholeFrame fed ∨ Overruns limit (fed ++ input) →
        ∃ error, buffer.feed input = (.error error, buffer)) ∧
    ∀ (body : Bytes) (sink next : Sink),
      Blocking.writeFrame body limit sink = (.ok (), next) →
      ∃ frame, next.written = sink.written ++ frame ∧
        ∀ (rest : Bytes) (stream : Stream), stream.Steady →
          stream.unread = frame ++ rest →
          ∃ after, readFrame limit stream = (.ok body, after) ∧
            after.unread = rest := by
  refine ⟨?_, ?_, ?_⟩
  · intro stream hsteady pieces hstream hpieces hcut
    obtain ⟨_, hread, _⟩ := @readFrame_steady limit _ hsteady
    have hpart : ¬ WholeFrame [] := by decide
    rw [← hstream] at hcut
    rw [hread, ← hstream]
    exact (new_holds limit).feedAll hpart hpieces hcut
  · intro buffer fed hreached
    have hholds := hreached.holds
    refine ⟨hholds.exactWant, ?_⟩
    intro input hrefused
    have hcause : WholeFrame fed ∨ input = [] ∨ Overruns limit (fed ++ input) :=
      hrefused.imp_right .inr
    obtain ⟨error, next, hfeed⟩ := (hholds.refuses_iff input).2 hcause
    obtain rfl := hholds.feed_error hfeed
    exact ⟨error, hfeed⟩
  · intro body sink next hwrite
    obtain ⟨hlimit, hword, hwritten⟩ := writeFrame_ok hwrite
    refine ⟨beBytes body.length ++ body, hwritten, ?_⟩
    intro rest stream hsteady hunread
    obtain ⟨after, hread, hafter⟩ := @readFrame_steady limit _ hsteady
    obtain ⟨hfirst, hend⟩ := @firstFrame_written _ rest _ hlimit hword
    rw [hunread] at hread hafter
    rw [hfirst] at hread
    refine ⟨after, hread, ?_⟩
    rw [hafter body hfirst, hend, List.drop_left]

example : (FrameBuffer.new 8).feedAll [[0], [0, 0], [2, 97], [98]] =
    .ok [97, 98] := by decide

end Yams
