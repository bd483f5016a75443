import ParserGenerator.Text.Units

/-!
# UTF-8

Code points as sequences of one to four bytes. A sequence is well formed if
it is the shortest one for its code point and the code point is no
surrogate.
-/

namespace ParserGenerator
namespace Text

/-- The number of bytes of a sequence, as its first byte tells. -/
def sequenceWidth (lead : UInt8) : Option Nat :=
  if lead < 0x80 then
    some 1
  else if 0xC2 ≤ lead && lead ≤ 0xDF then
    some 2
  else if 0xE0 ≤ lead && lead ≤ 0xEF then
    some 3
  else if 0xF0 ≤ lead && lead ≤ 0xF4 then
    some 4
  else
    none

/-- The least code point that needs the given number of bytes. -/
def leastPoint : Nat → Nat
  | 2 => 0x80
  | 3 => 0x800
  | 4 => supplementaryFirst
  | _ => 0

/-- The bits that the first byte of a sequence contributes. -/
def leadBits (lead : UInt8) : Nat → Nat
  | 2 => lead.toNat % 0x20
  | 3 => lead.toNat % 0x10
  | 4 => lead.toNat % 0x08
  | _ => lead.toNat

/-- Whether a byte continues a sequence. -/
def isContinuation (byte : UInt8) : Bool := 0x80 ≤ byte && byte ≤ 0xBF

/-- Bits followed by those of the bytes that continue a sequence. -/
def appendBits (bits : Nat) (bytes : List UInt8) : Nat :=
  bytes.foldl (fun bits byte => bits * 0x40 + byte.toNat % 0x40) bits

/-- The code point of a whole sequence, if it is well formed. -/
def sequencePoint? (lead : UInt8) (bytes : List UInt8) : Option Nat :=
  let width := bytes.length + 1
  let point := appendBits (leadBits lead width) bytes
  if bytes.all isContinuation && leastPoint width ≤ point &&
      point ≤ maxCodePoint && !isSurrogate point then
    some point
  else
    none

/-- What stands at the start of some bytes. -/
inductive Leading
  /-- No whole sequence. -/
  | incomplete
  /-- A sequence that is not well formed. -/
  | malformed
  /-- A code point and the bytes after it. -/
  | point (value : Nat) (rest : List UInt8)
  deriving DecidableEq

/-- The code point at the start of some bytes. A sequence is looked at only
when all of it is there. -/
def leading : List UInt8 → Leading
  | [] => .incomplete
  | lead :: bytes =>
      match sequenceWidth lead with
      | none => .malformed
      | some width =>
          let others := bytes.take (width - 1)
          if others.length + 1 < width then
            .incomplete
          else
            match sequencePoint? lead others with
            | some value => .point value (bytes.drop (width - 1))
            | none => .malformed

/-- The characters of well formed bytes. The fuel bounds their number. -/
def charactersWithin : (fuel : Nat) → List UInt8 → Option (List Char)
  | _, [] => some []
  | 0, _ => none
  | fuel + 1, bytes =>
      match leading bytes with
      | .point value rest =>
          (charactersWithin fuel rest).map (Char.ofNat value :: ·)
      | _ => none

/-- The text of well formed bytes. -/
def ofBytes? (bytes : List UInt8) : Option String :=
  (charactersWithin bytes.length bytes).map String.ofList

end Text
end ParserGenerator
