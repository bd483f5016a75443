import ParserGenerator.Proofs.Stream.Decoding

/-!
# Bytes in place

The bytes of a decoder as they stand in memory: a row of bytes, of which those
before a mark are decoded. For an attempt to read, the decoded bytes are dropped
and room for a piece is put behind the others. What the attempt does not fill is
taken away again, and all of the room is if it fails, whatever it put there.
However the attempts go, the units handed out are those that the decoder hands
out.
-/

namespace ParserGenerator

/-! ## A sequence on its own -/

namespace Text

/-- A sequence on its own is the text of its character. -/
theorem ofBytes?_of_leading
    {bytes : List UInt8}
    {value : Nat}
    (isLeading : leading bytes = .point value []) :
    ofBytes? bytes = some (String.ofList [Char.ofNat value]) := by
  obtain ⟨-, isEncoding⟩ := encodeChar_of_leading isLeading
  obtain ⟨lead, others, isSequence, -⟩ := exists_sequence (Char.ofNat value)
  have isCons : bytes = lead :: others := by
    rw [isEncoding, isSequence, List.append_nil]
  rw [isCons] at isLeading ⊢
  simp [ofBytes?, charactersWithin, isLeading]

theorem ofBytes?_of_malformed
    {bytes : List UInt8}
    (isMalformed : leading bytes = .malformed) :
    ofBytes? bytes = none := by
  cases bytes with
  | nil => simp [leading] at isMalformed
  | cons lead bytes => simp [ofBytes?, charactersWithin, isMalformed]

/-- A whole sequence is decoded by its own bytes. -/
theorem leading_of_whole
    {lead : UInt8}
    {bytes : List UInt8}
    {count : Nat}
    (isWidth : sequenceWidth lead = some (count + 1))
    (whole : count ≤ bytes.length) :
    leading (lead :: bytes) =
      match sequencePoint? lead (bytes.take count) with
      | some value => .point value (bytes.drop count)
      | none => .malformed := by
  have length := List.length_take_of_le whole
  cases isPoint : sequencePoint? lead (bytes.take count) <;>
    simp [leading, isWidth, length, isPoint]

end Text

namespace Stream

/-- What stands at the start of some bytes. -/
inductive Front
  /-- No whole sequence. -/
  | incomplete
  /-- A sequence that is not well formed. -/
  | malformed
  /-- A character and the number of its bytes. -/
  | character (value : Char) (width : Nat)

namespace Front

/-- As many bytes as the first one tells are decoded on their own. -/
def ofBytes : List UInt8 → Front
  | [] => .incomplete
  | lead :: bytes =>
      let width := (Text.sequenceWidth lead).getD 1
      if bytes.length + 1 < width then
        .incomplete
      else
        let text := Text.ofBytes? ((lead :: bytes).take width)
        match text.bind fun text => text.toList.head? with
        | some value => .character value width
        | none => .malformed

/-- What stands at the start of the bytes, with the bytes after it. -/
def leading (bytes : List UInt8) : Front → Text.Leading
  | incomplete => .incomplete
  | malformed => .malformed
  | character value width => .point value.toNat (bytes.drop width)

/-- Decoding a sequence on its own is decoding it where it stands. -/
theorem leading_ofBytes (bytes : List UInt8) :
    (ofBytes bytes).leading bytes = Text.leading bytes := by
  cases bytes with
  | nil => rfl
  | cons lead bytes =>
      cases isWidth : Text.sequenceWidth lead with
      | none =>
          have isMalformed (rest : List UInt8) :
              Text.leading (lead :: rest) = .malformed := by
            simp [Text.leading, isWidth]
          simp [ofBytes, isWidth, leading, Text.ofBytes?_of_malformed,
            isMalformed]
      | some width =>
          obtain ⟨count, rfl⟩ : ∃ count, width = count + 1 :=
            Nat.exists_eq_add_one.mpr
              (by have := Text.sequenceWidth_eq_some_iff.mp isWidth; omega)
          by_cases short : bytes.length < count
          · simp [ofBytes, isWidth, short, leading, Text.leading]
          · have whole : count ≤ bytes.length := Nat.le_of_not_lt short
            have alone := Text.leading_of_whole isWidth
              (Nat.le_of_eq (List.length_take_of_le whole).symm)
            rw [Text.leading_of_whole isWidth whole]
            rw [List.take_take, Nat.min_self] at alone
            cases isPoint : Text.sequencePoint? lead (bytes.take count) with
            | none =>
                rw [isPoint] at alone
                simp [ofBytes, isWidth, short, leading,
                  Text.ofBytes?_of_malformed alone]
            | some value =>
                rw [isPoint] at alone
                have isCode := (Text.encodeChar_of_leading alone).1
                rw [List.drop_take_self] at alone
                simp [ofBytes, isWidth, short, leading,
                  Text.ofBytes?_of_leading alone, isCode]

theorem ofBytes_width_le
    {bytes : List UInt8}
    {value : Char}
    {width : Nat}
    (isFront : ofBytes bytes = .character value width) :
    width ≤ bytes.length := by
  cases bytes with
  | nil => simp [ofBytes] at isFront
  | cons lead bytes =>
      rw [ofBytes] at isFront
      grind

end Front

/-! ## The row -/

/-- The bytes of a decoder in a row. -/
structure ByteStorage where
  /-- The bytes, decoded or not, with the room behind them if there is some. -/
  bytes : List UInt8
  /-- The number of bytes decoded. -/
  start : Nat
  /-- The low surrogate whose partner was the last unit asked for. -/
  carry : Option CodeUnit
  /-- Whether there are no more bytes. -/
  ended : Bool

namespace ByteStorage

/-- A row without bytes. -/
def empty : ByteStorage := ⟨[], 0, none, false⟩

/-- The bytes that are not decoded. -/
def pending (storage : ByteStorage) : List UInt8 :=
  storage.bytes.drop storage.start

/-- The decoder that the row shows. -/
def decoder (storage : ByteStorage) : Decoder :=
  ⟨storage.pending, storage.carry, storage.ended⟩

/-- Take bytes as decoded. -/
def advance (storage : ByteStorage) (width : Nat) : ByteStorage :=
  { storage with start := storage.start + width }

/-- Decode behind some units as long as there is room for more. -/
def decodeOn (room : Nat) (units : List CodeUnit) (storage : ByteStorage) :
    Except SourceError (List CodeUnit) × ByteStorage :=
  if units.length < room then
    match Front.ofBytes storage.pending with
    | .incomplete => (.ok units, storage)
    | .malformed =>
        if units.isEmpty then
          (.error .malformed, storage)
        else
          (.ok units, storage)
    | .character value width =>
        let after := storage.advance width
        match Text.encodePoint value.toNat with
        | [high, low] =>
            if units.length + 1 < room then
              decodeOn room (units ++ [high, low]) after
            else
              (.ok (units ++ [high]), { after with carry := some low })
        | unit :: _ => decodeOn room (units ++ [unit]) after
        | [] => (.ok units, after)
  else
    (.ok units, storage)
termination_by room - units.length
decreasing_by
  all_goals simp only [List.length_append, List.length_cons, List.length_nil]
  all_goals omega

/-- Take at most `room` units. -/
def drain (storage : ByteStorage) (room : Nat) :
    Except SourceError (List CodeUnit) × ByteStorage :=
  match decodeOn room storage.carry.toList { storage with carry := none } with
  | (.ok [], after) =>
      if after.ended && after.start < after.bytes.length then
        (.error .malformed, after)
      else
        (.ok [], after)
  | (result, after) => (result, after)

/-- Drop the decoded bytes and put room for `size` bytes behind the others. -/
def spare (storage : ByteStorage) (size : Nat) : ByteStorage :=
  { storage with
    bytes := storage.pending ++ List.replicate size 0
    start := 0 }

/-- The number of bytes before the room. -/
def kept (storage : ByteStorage) (size : Nat) : Nat :=
  storage.bytes.length - size

/-- Put bytes over the front of the room. -/
def write (storage : ByteStorage) (size : Nat) (content : List UInt8) :
    ByteStorage :=
  let kept := storage.kept size
  { storage with
    bytes := storage.bytes.take kept ++
      (content ++ (storage.bytes.drop kept).drop content.length) }

/-- Take the room away. -/
def unused (storage : ByteStorage) (size : Nat) : ByteStorage :=
  { storage with bytes := storage.bytes.take (storage.kept size) }

/-- Take the room away except for its first bytes; none at all ends the
bytes. -/
def filled (storage : ByteStorage) (size : Nat) (count : Nat) : ByteStorage :=
  { storage with
    bytes := storage.bytes.take (storage.kept size + count)
    ended := storage.ended || count == 0 }

/-! ## Decoding in place -/

theorem pending_advance (storage : ByteStorage) (width : Nat) :
    (storage.advance width).pending = storage.pending.drop width := by
  simp [pending, advance, List.drop_drop]

theorem leading_pending (storage : ByteStorage) :
    Text.leading storage.pending =
      (Front.ofBytes storage.pending).leading storage.pending :=
  (Front.leading_ofBytes storage.pending).symm

/-- A character at the mark, and the bytes from the mark on behind it. -/
theorem leading_of_character
    {storage : ByteStorage}
    {value : Char}
    {width : Nat}
    (isFront : Front.ofBytes storage.pending = .character value width) :
    Text.leading storage.pending =
      .point value.toNat (storage.advance width).pending := by
  rw [leading_pending, isFront, Front.leading, pending_advance]

/-- Units, or the error of bytes that are not well formed if there are none. -/
def spoken (room : Nat) (units : List CodeUnit) (rest : List UInt8) :
    Except SourceError (List CodeUnit) :=
  if units = [] ∧ 0 < room ∧ Text.leading rest = .malformed then
    .error .malformed
  else
    .ok units

/-- Decoding in place behind some units is decoding the bytes behind them. -/
theorem decodeOn_decodes
    (storage : ByteStorage)
    (room : Nat)
    (units : List CodeUnit)
    (noCarry : storage.carry = none) :
    let decoded := decodeUnits (room - units.length) storage.pending
    (decodeOn room units storage).1 =
        spoken room (units ++ decoded.units) decoded.rest ∧
      (decodeOn room units storage).2.decoder =
        ⟨decoded.rest, decoded.carry, storage.ended⟩ := by
  fun_induction decodeOn room units storage with
  | case1 units storage more isFront =>
      have isIncomplete : Text.leading storage.pending = .incomplete := by
        rw [leading_pending, isFront, Front.leading]
      have stuck : Stuck storage.pending := by simp [Stuck, isIncomplete]
      simp [decodeUnits_of_stuck stuck, spoken, isIncomplete, decoder, noCarry]
  | case2 units storage more isFront nothing =>
      have isMalformed : Text.leading storage.pending = .malformed := by
        rw [leading_pending, isFront, Front.leading]
      have stuck : Stuck storage.pending := by simp [Stuck, isMalformed]
      obtain rfl : units = [] := by simpa using nothing
      have positive : 0 < room := more
      simp [decodeUnits_of_stuck stuck, spoken, isMalformed, positive, decoder,
        noCarry]
  | case3 units storage more isFront something =>
      have isMalformed : Text.leading storage.pending = .malformed := by
        rw [leading_pending, isFront, Front.leading]
      have stuck : Stuck storage.pending := by simp [Stuck, isMalformed]
      have nonempty : units ≠ [] := by simpa using something
      simp [decodeUnits_of_stuck stuck, spoken, nonempty, decoder, noCarry]
  | case4 units storage more value width isFront after high low isPair fits
      inductionHypothesis =>
      have isPoint : Text.leading storage.pending =
          .point value.toNat after.pending :=
        leading_of_character isFront
      obtain ⟨left, isLeft⟩ : ∃ left, room - units.length = left + 2 :=
        ⟨room - (units.length + 2), by omega⟩
      have isRest : room - (units ++ [high, low]).length = left := by
        simp only [List.length_append, List.length_cons, List.length_nil]
        omega
      have comes := inductionHypothesis noCarry
      rw [isRest] at comes
      rw [isLeft, decodeUnits_of_pair isPoint isPair]
      have sameEnd : storage.ended = after.ended := rfl
      simpa [Decoded.prepend, sameEnd] using comes
  | case5 units storage more value width isFront after high low isPair full =>
      have isPoint : Text.leading storage.pending =
          .point value.toNat after.pending :=
        leading_of_character isFront
      have isLeft : room - units.length = 1 := by omega
      rw [isLeft, decodeUnits, isPoint]
      simp only [isPair]
      exact ⟨by simp [spoken], rfl⟩
  | case6 units storage more value width isFront after unit tail noPair isUnits
      inductionHypothesis =>
      have isPoint : Text.leading storage.pending =
          .point value.toNat after.pending :=
        leading_of_character isFront
      obtain rfl := Text.tail_encodePoint isUnits noPair
      obtain ⟨left, isLeft⟩ : ∃ left, room - units.length = left + 1 :=
        ⟨room - (units.length + 1), by omega⟩
      have isRest : room - (units ++ [unit]).length = left := by
        simp only [List.length_append, List.length_cons, List.length_nil]
        omega
      have comes := inductionHypothesis noCarry
      rw [isRest] at comes
      rw [isLeft, decodeUnits_of_single isPoint isUnits]
      have sameEnd : storage.ended = after.ended := rfl
      simpa [Decoded.prepend, sameEnd] using comes
  | case7 units storage more value width isFront after nothing =>
      exact absurd nothing (Text.encodePoint_ne_nil _)
  | case8 units storage full =>
      have isLeft : room - units.length = 0 := by omega
      have isFull : ¬ (units = [] ∧ 0 < room) := by
        rintro ⟨rfl, positive⟩
        exact full positive
      simp [isLeft, decodeUnits, spoken, decoder, noCarry, ← and_assoc, isFull]

theorem drain_eq_take
    (storage : ByteStorage)
    {room : Nat}
    (positive : 0 < room) :
    ((storage.drain room).1, (storage.drain room).2.decoder) =
      storage.decoder.take room := by
  have comes := decodeOn_decodes { storage with carry := none } room
    storage.carry.toList rfl
  rcases decodedOn : decodeOn room storage.carry.toList
    { storage with carry := none } with ⟨result, after⟩
  rw [decodedOn] at comes
  obtain ⟨isResult, isDecoder⟩ := comes
  change after.decoder = _ at isDecoder
  have isPending : after.pending = _ := congrArg Decoder.bytes isDecoder
  have isEnded : after.ended = _ := congrArg Decoder.ended isDecoder
  have isMore : after.start < after.bytes.length ↔ after.pending ≠ [] := by
    rw [pending, Ne, List.drop_eq_nil_iff, Nat.not_le]
  simp only [drain, decodedOn, Decoder.take]
  grind [Decoder.carried, spoken, decoder, pending]

/-! ## Room for a piece -/

/-- What is put over the room stands behind the bytes that are not decoded. -/
theorem bytes_write
    (storage : ByteStorage)
    (size : Nat)
    (content : List UInt8) :
    ((storage.spare size).write size content).bytes =
      storage.pending ++
        (content ++ List.replicate (size - content.length) 0) := by
  simp [write, kept, spare]

section Attempts

variable {size : Nat} {content : List UInt8}

theorem kept_write
    (storage : ByteStorage)
    (fits : content.length ≤ size) :
    ((storage.spare size).write size content).kept size =
      storage.pending.length := by
  rw [kept, bytes_write]
  simp only [List.length_append, List.length_replicate]
  omega

/-- After an attempt that failed the row shows what it showed before. -/
theorem decoder_unused
    (storage : ByteStorage)
    (fits : content.length ≤ size) :
    (((storage.spare size).write size content).unused size).decoder =
      storage.decoder := by
  have isKept := storage.kept_write fits
  rw [unused, isKept, bytes_write, List.take_left]
  rfl

/-- After an attempt the row shows the piece behind what it showed before. -/
theorem decoder_filled
    (storage : ByteStorage)
    {piece : List UInt8}
    (fits : content.length ≤ size)
    (isPrefix : piece <+: content) :
    (((storage.spare size).write size content).filled size piece.length).decoder
      = storage.decoder.receive piece := by
  obtain ⟨beyond, rfl⟩ := isPrefix
  have isKept := storage.kept_write fits
  have ends : (piece.length == 0) = piece.isEmpty := by cases piece <;> rfl
  rw [filled, isKept, bytes_write, List.append_assoc, ← List.append_assoc,
    ← List.length_append, List.take_left, ends]
  rfl

end Attempts

theorem write_nil (storage : ByteStorage) (size : Nat) :
    storage.write size [] = storage := by
  simp [write]

end ByteStorage

/-! ## Reading in place -/

/-- The bytes that count. -/
def Delivery.content : Delivery → List UInt8
  | bytes content => content
  | failure _ => []

/-- An attempt to read into the room. -/
structure Attempt where
  /-- What it gives. -/
  delivery : Delivery
  /-- What it puts over the room: the bytes that count, and maybe others. -/
  written : List UInt8
  fits : written.length ≤ pieceSize := by decide
  starts : delivery.content <+: written := by decide

/-- What reading in place comes to. -/
structure Reading where
  /-- The units, or an error. -/
  result : Except SourceError (List CodeUnit)
  /-- The row after it. -/
  storage : ByteStorage
  /-- The attempts that are left. -/
  attempts : List Attempt

namespace Reading

/-- What the decoder comes to that the row shows. -/
def shown (reading : Reading) :
    Except SourceError (List CodeUnit) × Decoder × List Delivery :=
  (reading.result, reading.storage.decoder,
    reading.attempts.map Attempt.delivery)

end Reading

namespace ByteStorage

/-- Hand out units, or the end or an error, and else go on. -/
def handOut (room : Nat) (storage : ByteStorage) (attempts : List Attempt)
    (goOn : ByteStorage → Reading) : Reading :=
  match storage.drain room with
  | (.ok [], after) =>
      if after.ended then ⟨.ok [], after, attempts⟩ else goOn after
  | (result, after) => ⟨result, after, attempts⟩

/-- Read into the room, repeatedly while attempts are interrupted, and hand out
units. -/
def fetch (persistent : Bool) (room : Nat) (storage : ByteStorage) :
    List Attempt → Reading
  | [] =>
      handOut room ((storage.spare pieceSize).filled pieceSize 0) []
        fun after => ⟨.ok [], after, []⟩
  | attempt :: rest =>
      let written := (storage.spare pieceSize).write pieceSize attempt.written
      match attempt.delivery with
      | .bytes content =>
          handOut room (written.filled pieceSize content.length) rest
            fun after => fetch persistent room after rest
      | .failure error =>
          let unused := written.unused pieceSize
          if Utf8Reader.repeats persistent error then
            fetch persistent room unused rest
          else
            ⟨.error error, unused, rest⟩

/-- At most `room` units; reads on until there are some, or no more bytes, or
an error. -/
def readUnits (persistent : Bool) (room : Nat) (storage : ByteStorage)
    (attempts : List Attempt) : Reading :=
  handOut room storage attempts fun after =>
    fetch persistent room after attempts

/-- Handing out in place is a read, if going on is the rest of one. -/
theorem shown_handOut
    {persistent : Bool}
    {room : Nat}
    (positive : 0 < room)
    (storage : ByteStorage)
    (attempts : List Attempt)
    (goOn : ByteStorage → Reading)
    (goesOn : ∀ after : ByteStorage, after.decoder = storage.decoder →
      after.decoder.ended = false →
      after.decoder.take room = (.ok [], after.decoder) →
        (goOn after).shown = Utf8Reader.readUnits persistent room after.decoder
          (attempts.map Attempt.delivery)) :
    (handOut room storage attempts goOn).shown =
      Utf8Reader.readUnits persistent room storage.decoder
        (attempts.map Attempt.delivery) := by
  have taken := storage.drain_eq_take positive
  unfold handOut
  generalize storage.drain room = drained at taken ⊢
  obtain ⟨result, after⟩ := drained
  dsimp only at taken ⊢
  by_cases silent : result = .ok []
  · subst silent
    obtain ⟨same, noCarry, stuck⟩ := Decoder.stuck_of_take positive taken.symm
    have still : after.decoder.take room = (.ok [], after.decoder) := by
      rw [same, ← taken, same]
    rw [← same]
    dsimp only
    split
    · next isEnded =>
        have settled : after.decoder.Settled :=
          ⟨same ▸ noCarry, same ▸ stuck, .inr isEnded⟩
        have isVerdict :=
          Decoder.take_of_stuck positive settled.noCarry settled.stuck
        rw [still] at isVerdict
        rw [Utf8Reader.readUnits_of_settled positive settled,
          ← (Prod.mk.inj isVerdict).1]
        rfl
    · next ongoing =>
        exact goesOn after same (Bool.eq_false_iff.mpr ongoing) still
  · rw [Utf8Reader.readUnits_of_take taken.symm silent]
    split
    · next isNothing =>
        exact absurd (Prod.mk.inj isNothing).1 silent
    · next isReading =>
        obtain ⟨rfl, rfl⟩ := Prod.mk.inj isReading
        rfl

/-- Reading on in place is a read that starts with nothing to hand out. -/
theorem shown_fetch
    (persistent : Bool)
    {room : Nat}
    (positive : 0 < room)
    (storage : ByteStorage)
    (attempts : List Attempt)
    (ongoing : storage.decoder.ended = false)
    (taken : storage.decoder.take room = (.ok [], storage.decoder)) :
    (fetch persistent room storage attempts).shown =
      Utf8Reader.readUnits persistent room storage.decoder
        (attempts.map Attempt.delivery) := by
  induction attempts generalizing storage with
  | nil =>
      have isFilled : ((storage.spare pieceSize).filled pieceSize 0).decoder =
          storage.decoder.receive [] := by
        have fits : ([] : List UInt8).length ≤ pieceSize := Nat.zero_le _
        have filled := storage.decoder_filled fits List.nil_prefix
        rwa [write_nil] at filled
      have isEnded : (storage.decoder.receive []).ended = true := by
        simp [Decoder.receive]
      have shown : (fetch persistent room storage []).shown =
          Utf8Reader.readUnits persistent room (storage.decoder.receive [])
            [] := by
        rw [← isFilled]
        refine shown_handOut positive _ [] _ fun after same goesOn => ?_
        -- There is nothing to go on for: the bytes have ended.
        rw [same, isFilled, isEnded] at goesOn
        contradiction
      rw [shown, Utf8Reader.readUnits_nil_of_ended positive isEnded]
      simp [Utf8Reader.readUnits, taken]
  | cons attempt rest inductionHypothesis =>
      obtain ⟨delivery, written, fits, starts⟩ := attempt
      cases delivery with
      | bytes content =>
          have isFilled := storage.decoder_filled fits starts
          dsimp only [Delivery.content] at isFilled
          simp only [List.map_cons, Utf8Reader.readUnits, taken, ongoing,
            Bool.false_eq_true, if_false]
          rw [← isFilled]
          exact shown_handOut positive _ rest _ fun after _ goesOn still =>
            inductionHypothesis after goesOn still
      | failure error =>
          have isUnused := storage.decoder_unused fits
          simp only [List.map_cons, Utf8Reader.readUnits, taken, ongoing,
            Bool.false_eq_true, if_false, fetch]
          rw [← isUnused]
          split
          · exact inductionHypothesis _ (by rwa [isUnused]) (by rwa [isUnused])
          · rfl

/-- Reading in place is reading. -/
theorem shown_readUnits
    (persistent : Bool)
    {room : Nat}
    (positive : 0 < room)
    (storage : ByteStorage)
    (attempts : List Attempt) :
    (readUnits persistent room storage attempts).shown =
      Utf8Reader.readUnits persistent room storage.decoder
        (attempts.map Attempt.delivery) :=
  shown_handOut positive storage attempts _ fun after _ goesOn still =>
    shown_fetch persistent positive after attempts goesOn still

/-! ## The mark stays in the row -/

/-- The decoded bytes are bytes of the row. -/
def Sound (storage : ByteStorage) : Prop :=
  storage.start ≤ storage.bytes.length

variable {storage : ByteStorage}

theorem Sound.advance
    (sound : storage.Sound)
    {value : Char}
    {width : Nat}
    (isFront : Front.ofBytes storage.pending = .character value width) :
    (storage.advance width).Sound := by
  have inside := Front.ofBytes_width_le isFront
  rw [pending, List.length_drop] at inside
  unfold Sound at sound
  show storage.start + width ≤ storage.bytes.length
  omega

theorem Sound.decodeOn
    (sound : storage.Sound)
    (room : Nat)
    (units : List CodeUnit) :
    (decodeOn room units storage).2.Sound := by
  fun_induction ByteStorage.decodeOn room units storage with
  | case1 | case2 | case3 | case8 => exact sound
  | case4 units storage more value width isFront after high low isPair fits
      inductionHypothesis =>
      exact inductionHypothesis (sound.advance isFront)
  | case5 units storage more value width isFront =>
      exact sound.advance isFront
  | case6 units storage more value width isFront after unit tail noPair isUnits
      inductionHypothesis =>
      exact inductionHypothesis (sound.advance isFront)
  | case7 units storage more value width isFront =>
      exact sound.advance isFront

theorem Sound.drain
    (sound : storage.Sound)
    (room : Nat) :
    (storage.drain room).2.Sound := by
  have bare : ({ storage with carry := none } : ByteStorage).Sound := sound
  have decoded := bare.decodeOn room storage.carry.toList
  unfold ByteStorage.drain
  generalize ByteStorage.decodeOn _ _ _ = decodedOn at decoded
  split
  · split <;> exact decoded
  · exact decoded

theorem Sound.handOut
    (sound : storage.Sound)
    (room : Nat)
    (attempts : List Attempt)
    {goOn : ByteStorage → Reading}
    (goesOn : ∀ after : ByteStorage, after.Sound →
      (goOn after).storage.Sound) :
    (handOut room storage attempts goOn).storage.Sound := by
  have drained := sound.drain room
  unfold ByteStorage.handOut
  split
  · next after isDrained =>
      rw [isDrained] at drained
      split
      · exact drained
      · exact goesOn after drained
  · next result after _ isDrained =>
      rw [isDrained] at drained
      exact drained

/-- For an attempt the decoded bytes are dropped, so that it does not matter
where the mark was. -/
theorem sound_fetch
    (persistent : Bool)
    (room : Nat)
    (storage : ByteStorage)
    (attempts : List Attempt) :
    (fetch persistent room storage attempts).storage.Sound := by
  induction attempts generalizing storage with
  | nil =>
      have sound : ((storage.spare pieceSize).filled pieceSize 0).Sound :=
        Nat.zero_le _
      exact sound.handOut room [] fun after afterSound => afterSound
  | cons attempt rest inductionHypothesis =>
      obtain ⟨delivery, written, fits, starts⟩ := attempt
      cases delivery with
      | bytes content =>
          have sound : (((storage.spare pieceSize).write pieceSize
              written).filled pieceSize content.length).Sound :=
            Nat.zero_le _
          exact sound.handOut room rest fun after _ => inductionHypothesis after
      | failure error =>
          have sound : (((storage.spare pieceSize).write pieceSize
              written).unused pieceSize).Sound :=
            Nat.zero_le _
          rw [fetch]
          dsimp only
          split
          · exact inductionHypothesis _
          · exact sound

end ByteStorage

/-! ## Readers in place -/

/-- A reader whose bytes are in a row. -/
structure StoredReader where
  /-- The bytes that have been read. -/
  storage : ByteStorage
  /-- What the next attempts to read do; there is nothing after them. -/
  attempts : List Attempt
  /-- Whether an interrupted attempt is repeated at once. -/
  persistent : Bool

namespace StoredReader

/-- Before the first read. -/
def start (attempts : List Attempt) (persistent : Bool) : StoredReader :=
  ⟨.empty, attempts, persistent⟩

instance : Source StoredReader where
  read room reader :=
    let reading :=
      reader.storage.readUnits reader.persistent room reader.attempts
    (reading.result, { reader with
      storage := reading.storage
      attempts := reading.attempts })

/-- The reader that it shows. -/
def shown (reader : StoredReader) : Utf8Reader :=
  ⟨reader.storage.decoder, reader.attempts.map Attempt.delivery,
    reader.persistent⟩

theorem read_shown
    (reader : StoredReader)
    {room : Nat}
    (positive : 0 < room) :
    Source.read room reader.shown =
      ((Source.read room reader).1, (Source.read room reader).2.shown) := by
  have reads := reader.storage.shown_readUnits reader.persistent positive
    reader.attempts
  simp only [Source.read, shown]
  rw [← reads]
  rfl

/-- The reader when one of successive reads is to come. -/
def before (rooms : Nat → Nat) (reader : StoredReader) : Nat → StoredReader
  | 0 => reader
  | call + 1 =>
      before (fun later => rooms (later + 1)) (Source.read (rooms 0) reader).2
        call

/-- Successive reads in place give what the reads give that they show. -/
theorem answer_shown
    {rooms : Nat → Nat}
    (positive : ∀ call, 0 < rooms call)
    (reader : StoredReader)
    (call : Nat) :
    answer rooms reader call = answer rooms reader.shown call := by
  induction call generalizing rooms reader with
  | zero => rw [answer, answer, reader.read_shown (positive 0)]
  | succ call inductionHypothesis =>
      rw [answer, answer, reader.read_shown (positive 0)]
      exact inductionHypothesis (fun call => positive (call + 1)) _

theorem sound_before
    (rooms : Nat → Nat)
    (reader : StoredReader)
    (sound : reader.storage.Sound)
    (call : Nat) :
    (reader.before rooms call).storage.Sound := by
  induction call generalizing rooms reader with
  | zero => exact sound
  | succ call inductionHypothesis =>
      refine inductionHypothesis _ _ ?_
      exact sound.handOut _ _ fun after _ =>
        after.sound_fetch _ _ _

end StoredReader

namespace Utf8Reader

/-- However bytes are delivered, whatever attempts fail in between, and whatever
room there is for the units: the units of the longest well formed part of the
bytes are handed out, and then every read says that there are no more or that
the bytes are not well formed. It is the same if the bytes are in a row, over
which the attempts may put more than counts. -/
theorem reads_longestValid
    (persistent : Bool)
    (deliveries : List Delivery)
    (rooms : Nat → Nat)
    (positive : ∀ call, 0 < rooms call) :
    ∃ characters calls,
      Text.LongestValid characters (delivered deliveries) ∧
      Answers rooms ⟨Decoder.start, deliveries, persistent⟩ calls
        (Text.encode (String.ofList characters))
        (if Text.toBytes characters = delivered deliveries then
          .ok []
        else
          .error .malformed) ∧
      ∀ attempts : List Attempt, attempts.map Attempt.delivery = deliveries →
        let stored := StoredReader.start attempts persistent
        ∀ call, answer rooms stored call =
            answer rooms (mk Decoder.start deliveries persistent) call ∧
          (stored.before rooms call).storage.Sound := by
  obtain ⟨characters, valid⟩ := Text.exists_longestValid (delivered deliveries)
  have remains : Decoder.start.Remains deliveries
      (Text.encode (String.ofList characters)) _ :=
    ⟨characters, valid, Text.encode_ofList characters, rfl⟩
  obtain ⟨calls, answers⟩ : ∃ calls,
      Answers rooms ⟨Decoder.start, deliveries, persistent⟩ calls _ _ :=
    exists_answers remains positive
  refine ⟨characters, calls, valid, answers, ?_⟩
  rintro attempts rfl stored call
  exact ⟨stored.answer_shown positive call,
    stored.sound_before rooms (Nat.zero_le 0) call⟩

/-- Deliveries that cut the bytes of `😀` into three pieces with failures in
between and end with a byte that is not well formed. -/
def smilingDeliveries : List Delivery :=
  [.bytes [0xF0, 0x9F], .failure (.interrupted "again"), .bytes [0x98],
    .failure (.failed "broken"), .bytes [0x80, 0xFF]]

/-- Attempts with these deliveries, of which two put bytes over the room that do
not count. -/
def smilingAttempts : List Attempt :=
  [{ delivery := .bytes [0xF0, 0x9F], written := [0xF0, 0x9F] },
    { delivery := .failure (.interrupted "again"), written := [0x98, 0x80] },
    { delivery := .bytes [0x98], written := [0x98, 0xFF] },
    { delivery := .failure (.failed "broken"), written := [] },
    { delivery := .bytes [0x80, 0xFF], written := [0x80, 0xFF] }]

theorem reads_longestValid_smiling :
    (∀ call : Nat, 0 < (fun _ => 1) call) ∧
    ∃ calls, Answers (fun _ => 1) ⟨Decoder.start, smilingDeliveries, true⟩ calls
        [0xD83D, 0xDE00] (.error .malformed) ∧
      let stored := StoredReader.start smilingAttempts true
      handedOut (fun _ => 1) stored calls = [0xD83D, 0xDE00] ∧
        ∀ call ≥ calls,
          answer (fun _ => 1) stored call = .error .malformed := by
  obtain ⟨characters, calls, valid, answers, inPlace⟩ :=
    reads_longestValid true smilingDeliveries (fun _ => 1) fun _ => Nat.one_pos
  have isDelivered : delivered smilingDeliveries =
      String.utf8EncodeChar '😀' ++ [0xFF] := by
    decide
  rw [isDelivered] at valid answers
  obtain ⟨tail, rfl, tailValid⟩ := valid.exists_tail
  obtain rfl := tailValid.eq_nil (by simp [Text.leading, Text.sequenceWidth])
  have answered : Answers (fun _ => 1)
      ⟨Decoder.start, smilingDeliveries, true⟩ calls [0xD83D, 0xDE00]
      (.error .malformed) :=
    answers
  have same (call : Nat) := (inPlace smilingAttempts rfl call).1
  refine ⟨fun _ => Nat.one_pos, calls, answered, ?_, ?_⟩
  · rw [← answered.units, handedOut, handedOut]
    simp only [same]
  · intro call late
    rw [same, answered.later call late]

end Utf8Reader
end Stream
end ParserGenerator
