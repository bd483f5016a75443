import Mathlib
import ParserGenerator.Proofs.Text.Utf8
import ParserGenerator.Stream.Utf8Reader

/-!
# Decoding bytes as they arrive

However bytes are cut into pieces, whatever attempts to read them fail in
between, and however few units are asked for at a time: the units handed out are
those of the longest well formed part of the bytes. Then every read says that
there are no more, or that the bytes are not well formed.
-/

namespace ParserGenerator

namespace Text

/-- The units that encode some characters. -/
def toUnits (characters : List Char) : List CodeUnit :=
  characters.flatMap fun character => encodePoint character.toNat

theorem encode_ofList (characters : List Char) :
    encode (String.ofList characters) = toUnits characters := by
  rw [encode, String.toList_ofList, toUnits]

@[simp] theorem toUnits_nil : toUnits [] = [] := rfl

@[simp] theorem toUnits_cons (character : Char) (characters : List Char) :
    toUnits (character :: characters) =
      encodePoint character.toNat ++ toUnits characters :=
  List.flatMap_cons

@[simp] theorem toUnits_append (front rest : List Char) :
    toUnits (front ++ rest) = toUnits front ++ toUnits rest :=
  List.flatMap_append

theorem encodePoint_cases (point : Nat) :
    (∃ unit, encodePoint point = [unit]) ∨
      ∃ high low, encodePoint point = [high, low] := by
  unfold encodePoint
  split
  · exact .inl ⟨_, rfl⟩
  · exact .inr ⟨_, _, rfl⟩

theorem tail_encodePoint
    {point : Nat}
    {unit : CodeUnit}
    {tail : List CodeUnit}
    (isUnits : encodePoint point = unit :: tail)
    (noPair : ∀ low, tail ≠ [low]) :
    tail = [] := by
  obtain ⟨other, isOther⟩ | ⟨high, low, isPair⟩ := encodePoint_cases point
  · exact (List.cons.inj (isUnits.symm.trans isOther)).2
  · exact absurd (List.cons.inj (isUnits.symm.trans isPair)).2 (noPair low)

end Text

namespace Stream

/-! ## Reading again and again -/

section Answers

variable {Supply : Type} [Source Supply]

/-- What one of successive reads gives, of which each asks for its own number of
units. -/
def answer (rooms : Nat → Nat) (supply : Supply) :
    Nat → Except SourceError (List CodeUnit)
  | 0 => (Source.read (rooms 0) supply).1
  | call + 1 =>
      answer (fun later => rooms (later + 1)) (Source.read (rooms 0) supply).2
        call

/-- The units that the first of successive reads hand out. -/
def handedOut (rooms : Nat → Nat) (supply : Supply) (calls : Nat) :
    List CodeUnit :=
  (List.range calls).flatMap fun call =>
    (answer rooms supply call).toOption.getD []

theorem handedOut_succ
    (rooms : Nat → Nat)
    (supply : Supply)
    (calls : Nat) :
    handedOut rooms supply (calls + 1) =
      (Source.read (rooms 0) supply).1.toOption.getD [] ++
        handedOut (fun later => rooms (later + 1))
          (Source.read (rooms 0) supply).2 calls := by
  simp [handedOut, List.range_succ_eq_map, List.flatMap_map, answer]

end Answers

/-- The bytes of some deliveries, up to one without bytes. -/
def delivered : List Delivery → List UInt8
  | [] => []
  | .bytes content :: rest =>
      if content.isEmpty then [] else content ++ delivered rest
  | .failure _ :: rest => delivered rest

/-! ## Units out of bytes -/

/-- Some characters are decoded; if there are none, they cannot be. -/
structure Decoded.Decodes (decoded : Decoded) (room : Nat)
    (bytes : List UInt8) (characters : List Char) : Prop where
  split : bytes = Text.toBytes characters ++ decoded.rest
  units : Text.toUnits characters = decoded.units ++ decoded.carry.toList
  fits : decoded.units.length ≤ room
  nothing : decoded.units = [] → characters = [] ∧
    (0 < room → ∀ value rest, Text.leading bytes ≠ .point value rest)

theorem Decoded.Decodes.cons
    {decoded : Decoded}
    {room : Nat}
    {bytes : List UInt8}
    {characters : List Char}
    {character : Char}
    {units : List CodeUnit}
    (decodes : decoded.Decodes room bytes characters)
    (isEncoding : Text.encodePoint character.toNat = units) :
    Decodes ⟨units ++ decoded.units, decoded.rest, decoded.carry⟩
      (room + units.length) (String.utf8EncodeChar character ++ bytes)
      (character :: characters) where
  split := by
    rw [Text.toBytes_cons, List.append_assoc]
    exact congrArg _ decodes.split
  units := by
    rw [Text.toUnits_cons, isEncoding, decodes.units, List.append_assoc]
  fits := by
    have fits := decodes.fits
    rw [List.length_append]
    omega
  nothing := by
    intro nothing
    obtain ⟨rfl, -⟩ := List.append_eq_nil_iff.mp nothing
    exact absurd isEncoding (Text.encodePoint_ne_nil _)

theorem exists_decodes
    (room : Nat)
    (bytes : List UInt8) :
    ∃ characters, (decodeUnits room bytes).Decodes room bytes characters := by
  fun_induction decodeUnits room bytes with
  | case1 bytes => exact ⟨[], by simp, by simp, by simp, by simp⟩
  | case2 bytes value rest isLeading high low isPair =>
      obtain ⟨isCode, rfl⟩ := Text.encodeChar_of_leading isLeading
      exact ⟨[Char.ofNat value], by simp, by simp [isCode, isPair], by simp,
        by simp⟩
  | case3 bytes value rest isLeading noPair =>
      obtain ⟨isCode, rfl⟩ := Text.encodeChar_of_leading isLeading
      obtain ⟨unit, isUnit⟩ | ⟨high, low, isPair⟩ :=
        Text.encodePoint_cases value
      · exact ⟨[Char.ofNat value], by simp, by simp [isCode, isUnit],
          by simp [isUnit], by simp [isUnit]⟩
      · exact absurd isPair (noPair high low)
  | case4 bytes noPoint | case8 room bytes noPoint =>
      exact ⟨[], by simp, by simp, by simp, fun _ => ⟨rfl, fun _ => noPoint⟩⟩
  | case5 room bytes value rest isLeading high low isPair inductionHypothesis =>
      obtain ⟨isCode, rfl⟩ := Text.encodeChar_of_leading isLeading
      obtain ⟨characters, decodes⟩ := inductionHypothesis
      have isEncoding : Text.encodePoint (Char.ofNat value).toNat =
          [high, low] := by
        rw [isCode, isPair]
      exact ⟨_, decodes.cons isEncoding⟩
  | case6 room bytes value rest isLeading unit tail noPair isUnits
      inductionHypothesis =>
      obtain ⟨isCode, rfl⟩ := Text.encodeChar_of_leading isLeading
      obtain ⟨characters, decodes⟩ := inductionHypothesis
      have isSingle : tail = [] := Text.tail_encodePoint isUnits noPair
      have isEncoding : Text.encodePoint (Char.ofNat value).toNat =
          [unit] := by
        rw [isCode, isUnits, isSingle]
      exact ⟨_, decodes.cons isEncoding⟩
  | case7 room bytes value rest isLeading nothing =>
      exact absurd nothing (Text.encodePoint_ne_nil value)

/-! ## One read -/

/-- The bytes start with no code point. -/
def Stuck (bytes : List UInt8) : Prop :=
  ∀ value rest, Text.leading bytes ≠ .point value rest

theorem decodeUnits_of_stuck
    {bytes : List UInt8}
    (stuck : Stuck bytes)
    (room : Nat) :
    decodeUnits room bytes = ⟨[], bytes, none⟩ := by
  fun_cases decodeUnits room bytes with
  | case1 | case4 | case8 => rfl
  | case2 | case3 | case5 | case6 | case7 =>
      exact absurd (by assumption) (stuck _ _)

theorem decodeUnits_of_single
    {bytes rest : List UInt8}
    {value : Nat}
    {unit : CodeUnit}
    (isLeading : Text.leading bytes = .point value rest)
    (isUnit : Text.encodePoint value = [unit])
    (room : Nat) :
    decodeUnits (room + 1) bytes = (decodeUnits room rest).prepend unit := by
  cases room <;> simp [decodeUnits, isLeading, isUnit, Decoded.prepend]

theorem decodeUnits_of_pair
    {bytes rest : List UInt8}
    {value : Nat}
    {high low : CodeUnit}
    (isLeading : Text.leading bytes = .point value rest)
    (isPair : Text.encodePoint value = [high, low])
    (room : Nat) :
    decodeUnits (room + 2) bytes =
      ((decodeUnits room rest).prepend low).prepend high := by
  simp [decodeUnits, isLeading, isPair]

namespace Decoder

/-- What a decoder says that has no units to hand out. -/
def verdict (decoder : Decoder) : Except SourceError (List CodeUnit) :=
  if Text.leading decoder.bytes = .malformed ∨
      (decoder.ended = true ∧ decoder.bytes ≠ []) then
    .error .malformed
  else
    .ok []

theorem take_of_stuck
    {decoder : Decoder}
    {room : Nat}
    (positive : 0 < room)
    (noCarry : decoder.carry = none)
    (stuck : Stuck decoder.bytes) :
    decoder.take room = (decoder.verdict, decoder) := by
  obtain ⟨bytes, carry, ended⟩ := decoder
  obtain rfl : carry = none := noCarry
  simp only [take, carried, decodeUnits_of_stuck stuck, verdict]
  by_cases isMalformed : Text.leading bytes = .malformed
  · simp [isMalformed, positive]
  · cases ended <;> cases bytes <;> simp [isMalformed]

/-- Units are taken, or there are none to take. -/
theorem take_cases
    (decoder : Decoder)
    {room : Nat}
    (positive : 0 < room) :
    (∃ units after characters,
      decoder.take room = (.ok units, after) ∧ units ≠ [] ∧
        units.length ≤ room ∧ after.ended = decoder.ended ∧
        decoder.bytes = Text.toBytes characters ++ after.bytes ∧
        decoder.carried ++ Text.toUnits characters =
          units ++ after.carried) ∨
      (decoder.carry = none ∧ Stuck decoder.bytes) := by
  obtain ⟨characters, split, isUnits, fits, nothing⟩ :=
    exists_decodes (room - decoder.carried.length) decoder.bytes
  by_cases nothingTaken : decoder.carried ++
      (decodeUnits (room - decoder.carried.length) decoder.bytes).units = []
  · right
    obtain ⟨noCarry, noUnits⟩ := List.append_eq_nil_iff.mp nothingTaken
    refine ⟨by simpa [carried] using noCarry, (nothing noUnits).2 ?_⟩
    rwa [noCarry, List.length_nil, Nat.sub_zero]
  · left
    refine ⟨_, _, characters, if_pos (by simpa using nothingTaken),
      nothingTaken, ?_, rfl, split, ?_⟩
    · have short : decoder.carried.length ≤ 1 := Option.length_toList_le
      rw [List.length_append]
      omega
    · rw [isUnits, List.append_assoc]
      rfl

/-- A decoder that gives nothing is left as it is. -/
theorem stuck_of_take
    {decoder after : Decoder}
    {room : Nat}
    (positive : 0 < room)
    (taken : decoder.take room = (.ok [], after)) :
    after = decoder ∧ decoder.carry = none ∧ Stuck decoder.bytes := by
  obtain ⟨units, other, characters, isTaken, nonempty, -⟩ | ⟨noCarry, stuck⟩ :=
    decoder.take_cases positive
  · rw [taken] at isTaken
    exact absurd (Except.ok.inj (Prod.mk.inj isTaken).1).symm nonempty
  · have isTaken := take_of_stuck positive noCarry stuck
    rw [taken] at isTaken
    exact ⟨(Prod.mk.inj isTaken).2, noCarry, stuck⟩

/-- The bytes that a decoder has or will receive. -/
def ahead (decoder : Decoder) (deliveries : List Delivery) : List UInt8 :=
  decoder.bytes ++ if decoder.ended then [] else delivered deliveries

/-- The units that are still to be handed out, and what is said after them. -/
def Remains (decoder : Decoder) (deliveries : List Delivery)
    (units : List CodeUnit) (final : Except SourceError (List CodeUnit)) :
    Prop :=
  ∃ characters, Text.LongestValid characters (decoder.ahead deliveries) ∧
    units = decoder.carried ++ Text.toUnits characters ∧
    final = if Text.toBytes characters = decoder.ahead deliveries then
      .ok []
    else
      .error .malformed

theorem Remains.receive
    {decoder : Decoder}
    {deliveries rest : List Delivery}
    {units : List CodeUnit}
    {final : Except SourceError (List CodeUnit)}
    (remains : decoder.Remains deliveries units final)
    {content : List UInt8}
    (ongoing : decoder.ended = false)
    (isDelivered : delivered deliveries = delivered (.bytes content :: rest)) :
    (decoder.receive content).Remains rest units final := by
  have isAhead : decoder.ahead deliveries =
      (decoder.receive content).ahead rest := by
    cases content <;>
      simp [ahead, Decoder.receive, ongoing, isDelivered, delivered]
  unfold Remains at remains
  rwa [isAhead] at remains

/-- Whatever a decoder receives, it has no more units. -/
structure Settled (decoder : Decoder) : Prop where
  noCarry : decoder.carry = none
  stuck : Stuck decoder.bytes
  decided : Text.leading decoder.bytes = .malformed ∨ decoder.ended = true

/-- What was taken comes off what is to be handed out. -/
theorem Remains.taken
    {decoder after : Decoder}
    {deliveries : List Delivery}
    {units piece : List CodeUnit}
    {final : Except SourceError (List CodeUnit)}
    {characters : List Char}
    (remains : decoder.Remains deliveries units final)
    (isEnded : after.ended = decoder.ended)
    (split : decoder.bytes = Text.toBytes characters ++ after.bytes)
    (isPiece : decoder.carried ++ Text.toUnits characters =
      piece ++ after.carried) :
    ∃ rest, units = piece ++ rest ∧ after.Remains deliveries rest final := by
  obtain ⟨all, valid, rfl, isFinal⟩ := remains
  have isAhead : decoder.ahead deliveries =
      Text.toBytes characters ++ after.ahead deliveries := by
    rw [ahead, ahead, split, isEnded, List.append_assoc]
  rw [isAhead] at valid isFinal
  obtain ⟨rest, rfl, restValid⟩ := valid.exists_rest
  refine ⟨after.carried ++ Text.toUnits rest, ?_, rest, restValid, rfl, ?_⟩
  · rw [Text.toUnits_append, ← List.append_assoc, isPiece, List.append_assoc]
  · rw [isFinal, Text.toBytes_append]
    simp only [List.append_cancel_left_eq]

/-- A decoder without more units says what is to be said. -/
theorem Remains.of_settled
    {decoder : Decoder}
    {deliveries : List Delivery}
    {units : List CodeUnit}
    {final : Except SourceError (List CodeUnit)}
    (remains : decoder.Remains deliveries units final)
    (settled : decoder.Settled) :
    units = [] ∧ final = decoder.verdict := by
  obtain ⟨characters, valid, rfl, rfl⟩ := remains
  rcases settled.decided with isMalformed | isEnded
  · have still : Text.leading (decoder.ahead deliveries) = .malformed :=
      Text.leading_append_of_malformed isMalformed _
    obtain rfl := valid.eq_nil (by simp [still])
    have nonempty : Text.toBytes [] ≠ decoder.ahead deliveries := by
      intro nothing
      rw [← nothing] at still
      simp [Text.leading] at still
    refine ⟨by simp [carried, settled.noCarry], ?_⟩
    rw [if_neg nonempty, verdict, if_pos (.inl isMalformed)]
  · have isAhead : decoder.ahead deliveries = decoder.bytes := by
      simp [ahead, isEnded]
    rw [isAhead] at valid ⊢
    obtain rfl := valid.eq_nil settled.stuck
    refine ⟨by simp [carried, settled.noCarry], ?_⟩
    rw [verdict]
    cases isBytes : decoder.bytes with
    | nil => simp [Text.leading]
    | cons byte bytes => simp [isEnded]

end Decoder

namespace Utf8Reader

theorem readUnits_of_take
    {decoder after : Decoder}
    {room : Nat}
    {result : Except SourceError (List CodeUnit)}
    (taken : decoder.take room = (result, after))
    (speaks : result ≠ .ok [])
    (persistent : Bool)
    (deliveries : List Delivery) :
    readUnits persistent room decoder deliveries =
      (result, after, deliveries) := by
  cases deliveries with
  | nil => grind [readUnits]
  | cons delivery rest => grind [readUnits]

/-- A decoder without more units says so, whatever it would receive. -/
theorem readUnits_of_settled
    {decoder : Decoder}
    {room : Nat}
    (positive : 0 < room)
    (settled : decoder.Settled)
    (persistent : Bool)
    (deliveries : List Delivery) :
    readUnits persistent room decoder deliveries =
      (decoder.verdict, decoder, deliveries) := by
  have taken := Decoder.take_of_stuck positive settled.noCarry settled.stuck
  by_cases silent : decoder.verdict = .ok []
  · have isEnded : decoder.ended = true := by
      refine settled.decided.resolve_left fun isMalformed => ?_
      simp [Decoder.verdict, isMalformed] at silent
    have received : decoder.receive [] = decoder := by
      simp [Decoder.receive, ← isEnded]
    rw [silent] at taken ⊢
    cases deliveries with
    | nil => simp [readUnits, taken, received]
    | cons delivery rest => simp [readUnits, taken, isEnded]
  · exact readUnits_of_take taken silent persistent deliveries

theorem readUnits_nil_of_ended
    {decoder : Decoder}
    {room : Nat}
    (positive : 0 < room)
    (isEnded : decoder.ended = true)
    (persistent : Bool) :
    readUnits persistent room decoder [] =
      ((decoder.take room).1, (decoder.take room).2, []) := by
  rcases taken : decoder.take room with ⟨result, after⟩
  by_cases silent : result = .ok []
  · subst silent
    obtain ⟨rfl, -⟩ := Decoder.stuck_of_take positive taken
    have received : after.receive [] = after := by
      simp [Decoder.receive, ← isEnded]
    simp [readUnits, taken, received]
  · exact readUnits_of_take taken silent persistent []

/-- What a read comes to where some units are left: a piece of them, an attempt
that failed, or what is said after all of them. -/
inductive Outcome (persistent : Bool) (room : Nat) (deliveries : List Delivery)
    (units : List CodeUnit) (final : Except SourceError (List CodeUnit)) :
    Except SourceError (List CodeUnit) × Decoder × List Delivery → Prop
  | piece
      {piece rest : List CodeUnit}
      {after : Decoder}
      {later : List Delivery}
      (nonempty : piece ≠ [])
      (fits : piece.length ≤ room)
      (split : units = piece ++ rest)
      (suffix : later <:+ deliveries)
      (remains : after.Remains later rest final) :
      Outcome persistent room deliveries units final (.ok piece, after, later)
  | failure
      {error : SourceError}
      {after : Decoder}
      {later : List Delivery}
      (suffix : .failure error :: later <:+ deliveries)
      (reported : repeats persistent error = false)
      (remains : after.Remains later units final) :
      Outcome persistent room deliveries units final (.error error, after, later)
  | final
      {after : Decoder}
      {later : List Delivery}
      (nothing : units = [])
      (isFinal : final = after.verdict)
      (settled : after.Settled) :
      Outcome persistent room deliveries units final (final, after, later)

theorem Outcome.cons
    {persistent : Bool}
    {room : Nat}
    {deliveries : List Delivery}
    {units : List CodeUnit}
    {final : Except SourceError (List CodeUnit)}
    {result : Except SourceError (List CodeUnit) × Decoder × List Delivery}
    (outcome : Outcome persistent room deliveries units final result)
    (delivery : Delivery) :
    Outcome persistent room (delivery :: deliveries) units final result := by
  have suffix := List.suffix_cons delivery deliveries
  cases outcome with
  | piece nonempty fits split within remains =>
      exact .piece nonempty fits split (within.trans suffix) remains
  | failure within reported remains =>
      exact .failure (within.trans suffix) reported remains
  | final nothing isFinal settled => exact .final nothing isFinal settled

/-- Without reading on a decoder comes to an outcome, or it needs more bytes. -/
theorem outcome_or_take_eq
    {room : Nat}
    (positive : 0 < room)
    (persistent : Bool)
    {units : List CodeUnit}
    {final : Except SourceError (List CodeUnit)}
    {deliveries : List Delivery}
    {decoder : Decoder}
    (remains : decoder.Remains deliveries units final) :
    Outcome persistent room deliveries units final
        (readUnits persistent room decoder deliveries) ∨
      (decoder.carry = none ∧ Stuck decoder.bytes ∧ decoder.ended = false ∧
        decoder.take room = (.ok [], decoder)) := by
  obtain ⟨piece, after, characters, taken, nonempty, fits, isEnded, split,
      isPiece⟩ | ⟨noCarry, stuck⟩ := decoder.take_cases positive
  · obtain ⟨rest, isUnits, restRemains⟩ :=
      remains.taken isEnded split isPiece
    rw [readUnits_of_take taken (by simpa using nonempty)]
    exact .inl (.piece nonempty fits isUnits List.suffix_rfl restRemains)
  · by_cases decided :
        Text.leading decoder.bytes = .malformed ∨ decoder.ended = true
    · have settled : decoder.Settled := ⟨noCarry, stuck, decided⟩
      obtain ⟨nothing, isFinal⟩ := remains.of_settled settled
      rw [readUnits_of_settled positive settled, ← isFinal]
      exact .inl (.final nothing isFinal settled)
    · push Not at decided
      obtain ⟨wellFormed, goesOn⟩ := decided
      have isOngoing : decoder.ended = false := by simpa using goesOn
      refine .inr ⟨noCarry, stuck, isOngoing, ?_⟩
      rw [Decoder.take_of_stuck positive noCarry stuck, Decoder.verdict]
      simp [wellFormed, isOngoing]

/-- Every read comes to one of its outcomes. -/
theorem outcome_readUnits
    {room : Nat}
    (positive : 0 < room)
    (persistent : Bool)
    {units : List CodeUnit}
    {final : Except SourceError (List CodeUnit)}
    (deliveries : List Delivery)
    {decoder : Decoder}
    (remains : decoder.Remains deliveries units final) :
    Outcome persistent room deliveries units final
      (readUnits persistent room decoder deliveries) := by
  induction deliveries generalizing decoder with
  | nil =>
      obtain outcome | ⟨noCarry, stuck, ongoing, taken⟩ :=
        outcome_or_take_eq positive persistent remains
      · exact outcome
      · have endRemains : (decoder.receive []).Remains [] units final :=
          remains.receive ongoing rfl
        have settled : (decoder.receive []).Settled :=
          ⟨noCarry, by simpa [Decoder.receive] using stuck,
            by simp [Decoder.receive]⟩
        obtain ⟨nothing, isFinal⟩ := endRemains.of_settled settled
        simp only [readUnits, taken,
          Decoder.take_of_stuck positive settled.noCarry settled.stuck]
        rw [← isFinal]
        exact .final nothing isFinal settled
  | cons delivery rest inductionHypothesis =>
      obtain outcome | ⟨noCarry, stuck, ongoing, taken⟩ :=
        outcome_or_take_eq positive persistent remains
      · exact outcome
      · cases delivery with
        | bytes content =>
            simp only [readUnits, taken, ongoing, Bool.false_eq_true, if_false]
            exact (inductionHypothesis (remains.receive ongoing rfl)).cons _
        | failure error =>
            have later : decoder.Remains rest units final := remains
            cases reported : repeats persistent error with
            | true =>
                simp only [readUnits, taken, ongoing, Bool.false_eq_true,
                  if_false, reported, if_true]
                exact (inductionHypothesis later).cons _
            | false =>
                simp only [readUnits, taken, ongoing, Bool.false_eq_true,
                  if_false, reported]
                exact .failure List.suffix_rfl reported later

/-! ## All reads -/

/-- Successive reads hand out some units and then always say the same. -/
structure Answers (rooms : Nat → Nat) (reader : Utf8Reader) (calls : Nat)
    (units : List CodeUnit) (final : Except SourceError (List CodeUnit)) :
    Prop where
  /-- The first reads hand out the units. -/
  units : handedOut rooms reader calls = units
  /-- Each of them hands out some, or reports an attempt that failed. -/
  each : ∀ call < calls,
    (∃ piece, answer rooms reader call = .ok piece ∧ piece ≠ [] ∧
      piece.length ≤ rooms call) ∨
    ∃ error, answer rooms reader call = .error error ∧
      .failure error ∈ reader.deliveries ∧
      repeats reader.persistent error = false
  /-- The later ones say the same. -/
  later : ∀ call ≥ calls, answer rooms reader call = final

theorem answer_of_settled
    {reader : Utf8Reader}
    {rooms : Nat → Nat}
    (positive : ∀ call, 0 < rooms call)
    (settled : reader.decoder.Settled)
    (call : Nat) :
    answer rooms reader call = reader.decoder.verdict := by
  have reads (room : Nat) (isPositive : 0 < room) :
      Source.read room reader = (reader.decoder.verdict, reader) := by
    simp [Source.read, readUnits_of_settled isPositive settled]
  induction call generalizing rooms with
  | zero => rw [answer, reads _ (positive 0)]
  | succ call inductionHypothesis =>
      rw [answer, reads _ (positive 0)]
      exact inductionHypothesis fun call => positive (call + 1)

theorem Answers.cons
    {reader next : Utf8Reader}
    {rooms : Nat → Nat}
    {calls : Nat}
    {units : List CodeUnit}
    {result final : Except SourceError (List CodeUnit)}
    (answers : Answers (fun call => rooms (call + 1)) next calls units final)
    (reads : Source.read (rooms 0) reader = (result, next))
    (first : (∃ piece, result = .ok piece ∧ piece ≠ [] ∧
        piece.length ≤ rooms 0) ∨
      ∃ error, result = .error error ∧ .failure error ∈ reader.deliveries ∧
        repeats reader.persistent error = false)
    (suffix : next.deliveries <:+ reader.deliveries)
    (same : next.persistent = reader.persistent) :
    Answers rooms reader (calls + 1) (result.toOption.getD [] ++ units)
      final where
  units := by rw [handedOut_succ, reads, answers.units]
  each := by
    rintro (_ | call) early
    · simpa [answer, reads] using first
    · simp only [answer, reads]
      rcases answers.each call (by omega) with piece | ⟨error, is, member, isOnce⟩
      · exact .inl piece
      · exact .inr ⟨error, is, suffix.mem member, same ▸ isOnce⟩
  later := by
    rintro (_ | call) late
    · omega
    · simp only [answer, reads]
      exact answers.later call (by omega)

/-- Whatever the reads ask for, they hand out the units that are left and then
say what is to be said after them. -/
theorem exists_answers
    {reader : Utf8Reader}
    {units : List CodeUnit}
    {final : Except SourceError (List CodeUnit)}
    (remains : reader.decoder.Remains reader.deliveries units final)
    {rooms : Nat → Nat}
    (positive : ∀ call, 0 < rooms call) :
    ∃ calls, Answers rooms reader calls units final := by
  -- Each read before the end hands out a unit or takes a delivery away.
  induction size : units.length + reader.deliveries.length using
    Nat.strong_induction_on generalizing reader units rooms with
  | _ count inductionHypothesis =>
      obtain ⟨decoder, deliveries, persistent⟩ := reader
      have outcome :=
        outcome_readUnits (positive 0) persistent deliveries remains
      generalize isRead : readUnits persistent (rooms 0) decoder deliveries =
        read at outcome
      have reads : Source.read (rooms 0) (mk decoder deliveries persistent) =
          (read.1, mk read.2.1 read.2.2 persistent) := by
        simp [Source.read, isRead]
      have laterPositive (call : Nat) : 0 < rooms (call + 1) :=
        positive (call + 1)
      dsimp only at size
      cases outcome with
      | @piece piece rest after later nonempty fits split suffix restRemains =>
          have shorter : rest.length + later.length < count := by
            have positiveLength := List.length_pos_iff.mpr nonempty
            have fewer := suffix.length_le
            rw [split, List.length_append] at size
            omega
          obtain ⟨calls, answers⟩ : ∃ calls,
              Answers _ (mk after later persistent) calls rest final :=
            inductionHypothesis _ shorter restRemains laterPositive rfl
          have first := answers.cons reads (.inl ⟨piece, rfl, nonempty, fits⟩)
            suffix rfl
          exact ⟨calls + 1, split ▸ first⟩
      | @failure error after later suffix reported laterRemains =>
          have shorter : units.length + later.length < count := by
            have fewer := suffix.length_le
            rw [List.length_cons] at fewer
            omega
          obtain ⟨calls, answers⟩ : ∃ calls,
              Answers _ (mk after later persistent) calls units final :=
            inductionHypothesis _ shorter laterRemains laterPositive rfl
          have member : .failure error ∈ deliveries :=
            suffix.mem List.mem_cons_self
          exact ⟨calls + 1, answers.cons reads
            (.inr ⟨error, rfl, member, reported⟩)
            ((List.suffix_cons _ _).trans suffix) rfl⟩
      | @final after later nothing isFinal settled =>
          refine ⟨0, nothing.symm, by simp, ?_⟩
          rintro (_ | call) -
          · rw [answer, reads]
          · rw [answer, reads, answer_of_settled laterPositive settled, isFinal]

end Utf8Reader

end Stream
end ParserGenerator
