import ParserGenerator.Stream.Source
import ParserGenerator.Text.Utf8

/-!
# Reading UTF-8

A source of code units over bytes that arrive in pieces. A piece may end
anywhere inside a sequence, and the units asked for may end between the two
surrogates of a pair; nothing is lost either way. Bytes that are not well
formed are reported after all units before them.
-/

namespace ParserGenerator
namespace Stream

/-- What an attempt to read bytes gives. -/
inductive Delivery
  /-- Some bytes; none at all means that there are no more. -/
  | bytes (content : List UInt8)
  /-- A failure. -/
  | failure (error : SourceError)
  deriving DecidableEq

/-- The greatest number of bytes read at a time. -/
def pieceSize : Nat := 4096

/-- Bytes cut into pieces that are read one at a time. The fuel bounds the
number of cuts. -/
def cutWithin : (fuel : Nat) → List UInt8 → List Delivery
  | 0, content => [.bytes content]
  | fuel + 1, content =>
      let rest := content.drop pieceSize
      if rest.isEmpty then
        [.bytes content]
      else
        .bytes (content.take pieceSize) :: cutWithin fuel rest

/-- A delivery as a reader that asks for one piece at a time sees it. -/
def Delivery.pieces : Delivery → List Delivery
  | bytes content => cutWithin content.length content
  | failure error => [.failure error]

/-- A decoder of bytes that arrive in pieces. -/
structure Decoder where
  /-- The bytes that are not decoded yet. -/
  bytes : List UInt8
  /-- The low surrogate whose partner was the last unit asked for. -/
  carry : Option CodeUnit
  /-- Whether there are no more bytes. -/
  ended : Bool
  deriving DecidableEq

/-- Units decoded from some bytes, and what is left. -/
structure Decoded where
  /-- The units. -/
  units : List CodeUnit
  /-- The bytes after them. -/
  rest : List UInt8
  /-- The low surrogate for which there was no room. -/
  carry : Option CodeUnit
  deriving DecidableEq

namespace Decoded

/-- A unit before those decoded. -/
def prepend (unit : CodeUnit) (decoded : Decoded) : Decoded :=
  { decoded with units := unit :: decoded.units }

end Decoded

/-- Decode at most `room` units, up to bytes that are incomplete or not well
formed. -/
def decodeUnits : (room : Nat) → List UInt8 → Decoded
  | 0, bytes => ⟨[], bytes, none⟩
  | 1, bytes =>
      match Text.leading bytes with
      | .point value rest =>
          match Text.encodePoint value with
          | [high, low] => ⟨[high], rest, some low⟩
          | units => ⟨units, rest, none⟩
      | _ => ⟨[], bytes, none⟩
  | room + 2, bytes =>
      match Text.leading bytes with
      | .point value rest =>
          match Text.encodePoint value with
          | [high, low] =>
              ((decodeUnits room rest).prepend low).prepend high
          | unit :: _ => (decodeUnits (room + 1) rest).prepend unit
          | [] => ⟨[], rest, none⟩
      | _ => ⟨[], bytes, none⟩

namespace Decoder

/-- The decoder that has seen nothing. -/
def start : Decoder := ⟨[], none, false⟩

/-- The units before those decoded from the bytes. -/
def carried (decoder : Decoder) : List CodeUnit := decoder.carry.toList

/-- Take at most `room` units. Bytes that cannot be decoded are an error if
nothing stands before them and they are not well formed or cannot be
completed any more. -/
def take (decoder : Decoder) (room : Nat) :
    Except SourceError (List CodeUnit) × Decoder :=
  let carried := decoder.carried
  let decoded := decodeUnits (room - carried.length) decoder.bytes
  let units := carried ++ decoded.units
  let after : Decoder := ⟨decoded.rest, decoded.carry, decoder.ended⟩
  if !units.isEmpty then
    (.ok units, after)
  else if 0 < room && Text.leading decoded.rest == .malformed then
    (.error .malformed, after)
  else if decoder.ended && !decoded.rest.isEmpty then
    (.error .malformed, after)
  else
    (.ok [], after)

/-- Receive a piece; an empty one ends the bytes. -/
def receive (decoder : Decoder) (content : List UInt8) : Decoder :=
  { decoder with
    bytes := decoder.bytes ++ content
    ended := decoder.ended || content.isEmpty }

end Decoder

/-- A reader of bytes. -/
structure Utf8Reader where
  /-- What has been read and not been handed out. -/
  decoder : Decoder
  /-- What the next attempts to read give; there is nothing after them. -/
  deliveries : List Delivery
  /-- Whether an interrupted attempt is repeated at once. -/
  persistent : Bool
  deriving DecidableEq

namespace Utf8Reader

/-- A reader of some deliveries. -/
def ofDeliveries (deliveries : List Delivery) (persistent : Bool) :
    Utf8Reader :=
  ⟨Decoder.start, deliveries.flatMap Delivery.pieces, persistent⟩

/-- Whether an error is followed by another attempt. -/
def repeats (persistent : Bool) : SourceError → Bool
  | .interrupted _ => persistent
  | _ => false

/-- At most `room` units; reads on until there are some, or no more bytes, or
an error. -/
def readUnits (persistent : Bool) (room : Nat) (decoder : Decoder) :
    List Delivery →
      Except SourceError (List CodeUnit) × Decoder × List Delivery
  | [] =>
      match decoder.take room with
      | (.ok [], after) =>
          let (result, last) := (after.receive []).take room
          (result, last, [])
      | (result, after) => (result, after, [])
  | delivery :: rest =>
      match decoder.take room with
      | (.ok [], after) =>
          if after.ended then
            (.ok [], after, delivery :: rest)
          else
            match delivery with
            | .bytes content =>
                readUnits persistent room (after.receive content) rest
            | .failure error =>
                if repeats persistent error then
                  readUnits persistent room after rest
                else
                  (.error error, after, rest)
      | (result, after) => (result, after, delivery :: rest)

instance : Source Utf8Reader where
  read room reader :=
    let (result, decoder, deliveries) :=
      readUnits reader.persistent room reader.decoder reader.deliveries
    (result, { reader with decoder, deliveries })

end Utf8Reader
end Stream
end ParserGenerator
