/-
Length-prefixed frames: the four-byte header and the incremental reader.
-/
import Yams.Message

namespace Yams

/-- Bytes in the unsigned big-endian frame-length prefix. -/
def frameHeaderBytes : Nat := 4

def u32Max : Nat := 4294967295

/-- `u32::to_be_bytes`. -/
def beBytes (n : Nat) : Bytes :=
  [.ofNat (n / 16777216), .ofNat (n / 65536), .ofNat (n / 256), .ofNat n]

/-- `u32::from_be_bytes`. -/
def fromBeBytes (bytes : Bytes) : Nat :=
  bytes.foldl (fun n b => n * 256 + b.toNat) 0

def validateFrameSize (body : Bytes) (limit : Nat) :
    Except ProtocolError Unit :=
  if body.length > limit ∨ body.length > u32Max then
    .error (.frameTooLarge body.length (min limit u32Max))
  else .ok ()

/-- What `write_frame` writes to a writer that takes everything. -/
def writeFrame (body : Bytes) (limit : Nat) : Except ProtocolError Bytes := do
  validateFrameSize body limit
  return beBytes body.length ++ body

/-- The body limit of a message's direction. -/
def Message.limit : Message → Nat
  | .request _ => maxRequestBytes
  | .accepted _ | .completed _ | .rejected _ => maxResponseBytes

/-- `send_message` into a buffer: the frame of a message. -/
def sendMessage (message : Message) : Except ProtocolError Bytes := do
  let body ← encode message
  writeFrame body message.limit

/-- Incrementally accumulates exactly one bounded length-prefixed frame. -/
structure FrameReader where
  limit : Nat
  header : Bytes
  declared : Option Nat
  body : Bytes

namespace FrameReader

def new (limit : Nat) : FrameReader := ⟨limit, [], none, []⟩

/-- The maximum useful byte count for the next read. -/
def want (reader : FrameReader) : Nat :=
  match reader.declared with
  | some declared => declared - reader.body.length
  | none => frameHeaderBytes - reader.header.length

/-- The completed body, or `none` while incomplete. -/
def frame (reader : FrameReader) : Option Bytes :=
  match reader.declared with
  | some declared =>
      if reader.body.length = declared then some reader.body else none
  | none => none

/-- Add bytes read from the peer and report whether the frame is complete. -/
def feed (reader : FrameReader) (input : Bytes) :
    Except ProtocolError (FrameReader × Bool) :=
  if reader.frame.isSome then .error .frameAlreadyComplete
  else if input.isEmpty then .error .truncatedFrame
  else match reader.declared with
    | some declared =>
        if input.length > declared - reader.body.length then
          .error .frameInputTooLong
        else
          let body := reader.body ++ input
          .ok ({ reader with body }, body.length = declared)
    | none =>
        let needed := frameHeaderBytes - reader.header.length
        if input.length < needed then
          .ok ({ reader with header := reader.header ++ input }, false)
        else
          let header := reader.header ++ input.take needed
          let declared := fromBeBytes header
          let body := input.drop needed
          if declared > reader.limit then
            .error (.frameTooLarge declared reader.limit)
          else if body.length > declared then .error .frameInputTooLong
          else .ok ({ reader with header, declared := some declared, body },
            body.length = declared)

end FrameReader

end Yams
