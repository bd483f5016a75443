import Mathlib
import ParserGenerator.Proofs.Lexical.Characters
import ParserGenerator.Text.Utf8

/-!
# Well formed bytes

A code point stands at the start of some bytes exactly if they start with its
encoding.
-/

namespace ParserGenerator
namespace Text

/-! ## One sequence -/

/-- The first bytes of the sequences of each width. -/
theorem sequenceWidth_eq_some_iff
    {lead : UInt8}
    {width : Nat} :
    sequenceWidth lead = some width ↔
      (width = 1 ∧ lead.toNat < 0x80) ∨
        (width = 2 ∧ 0xC2 ≤ lead.toNat ∧ lead.toNat ≤ 0xDF) ∨
        (width = 3 ∧ 0xE0 ≤ lead.toNat ∧ lead.toNat ≤ 0xEF) ∨
        (width = 4 ∧ 0xF0 ≤ lead.toNat ∧ lead.toNat ≤ 0xF4) := by
  simp only [sequenceWidth, UInt8.lt_iff_toNat_lt, UInt8.le_iff_toNat_le,
    Bool.and_eq_true, decide_eq_true_eq, UInt8.reduceToNat]
  split_ifs <;> grind

theorem isContinuation_iff {byte : UInt8} :
    isContinuation byte = true ↔ 0x80 ≤ byte.toNat ∧ byte.toNat ≤ 0xBF := by
  simp only [isContinuation, UInt8.le_iff_toNat_le, Bool.and_eq_true,
    decide_eq_true_eq, UInt8.reduceToNat]

theorem sequencePoint?_eq_some_iff
    {lead : UInt8}
    {bytes : List UInt8}
    {value : Nat} :
    sequencePoint? lead bytes = some value ↔
      (∀ byte ∈ bytes, 0x80 ≤ byte.toNat ∧ byte.toNat ≤ 0xBF) ∧
        leastPoint (bytes.length + 1) ≤ value ∧ IsScalar value ∧
        appendBits (leadBits lead (bytes.length + 1)) bytes = value := by
  simp only [sequencePoint?, Option.ite_none_right_eq_some, Bool.and_eq_true,
    List.all_eq_true, isContinuation_iff, decide_eq_true_eq, Bool.not_eq_true',
    Option.some.injEq, IsScalar]
  constructor
  · rintro ⟨⟨⟨⟨continued, shortest⟩, bounded⟩, outside⟩, rfl⟩
    exact ⟨continued, shortest, ⟨bounded, outside⟩, rfl⟩
  · rintro ⟨continued, shortest, ⟨bounded, outside⟩, rfl⟩
    exact ⟨⟨⟨⟨continued, shortest⟩, bounded⟩, outside⟩, rfl⟩

theorem ofNat_eq_iff
    {number : Nat}
    {byte : UInt8} :
    UInt8.ofNat number = byte ↔ number % 256 = byte.toNat := by
  rw [← UInt8.toNat_inj, UInt8.toNat_ofNat']

/-- The bytes of a sequence are those that encode its code point. -/
theorem encodeChar_of_sequence
    {lead : UInt8}
    {others : List UInt8}
    {value : Nat}
    (isWidth : sequenceWidth lead = some (others.length + 1))
    (isPoint : sequencePoint? lead others = some value) :
    String.utf8EncodeChar (Char.ofNat value) = lead :: others := by
  obtain ⟨continued, shortest, scalar, isValue⟩ :=
    sequencePoint?_eq_some_iff.mp isPoint
  have range := sequenceWidth_eq_some_iff.mp isWidth
  have isCode : (Char.ofNat value).val.toNat = value := scalar.toNat_ofNat
  have bounded : value ≤ 0x10FFFF := scalar.1
  simp only [String.utf8EncodeChar, isCode]
  -- Each width has its own range of code points, in which the bits of the bytes
  -- are those of the code point.
  match others with
  | [] =>
      simp only [appendBits, leadBits, List.length_nil, List.foldl_nil]
        at isValue range
      rw [if_pos (by omega)]
      simp only [ofNat_eq_iff, List.cons.injEq, and_true]
      omega
  | [second] =>
      simp only [appendBits, leadBits, leastPoint, List.length_cons,
        List.length_nil, List.foldl_cons, List.foldl_nil, List.forall_mem_cons]
        at isValue range continued shortest
      rw [if_neg (by omega), if_pos (by omega)]
      simp only [ofNat_eq_iff, List.cons.injEq, and_true]
      omega
  | [second, third] =>
      simp only [appendBits, leadBits, leastPoint, List.length_cons,
        List.length_nil, List.foldl_cons, List.foldl_nil, List.forall_mem_cons]
        at isValue range continued shortest
      rw [if_neg (by omega), if_neg (by omega), if_pos (by omega)]
      simp only [ofNat_eq_iff, List.cons.injEq, and_true]
      omega
  | [second, third, fourth] =>
      simp only [appendBits, leadBits, leastPoint, supplementaryFirst,
        List.length_cons, List.length_nil, List.foldl_cons, List.foldl_nil,
        List.forall_mem_cons] at isValue range continued shortest
      rw [if_neg (by omega), if_neg (by omega), if_neg (by omega)]
      simp only [ofNat_eq_iff, List.cons.injEq, and_true]
      omega
  | _ :: _ :: _ :: _ :: _ =>
      simp only [List.length_cons] at range
      omega

/-- The bytes that encode a character are a sequence for it. -/
theorem exists_sequence
    (character : Char) :
    ∃ lead others, String.utf8EncodeChar character = lead :: others ∧
      sequenceWidth lead = some (others.length + 1) ∧
      sequencePoint? lead others = some character.toNat := by
  have scalar : IsScalar character.toNat := isScalar_iff.mpr character.valid
  have bounded : character.toNat ≤ 0x10FFFF := scalar.1
  simp only [sequenceWidth_eq_some_iff, sequencePoint?_eq_some_iff,
    String.utf8EncodeChar, Char.toNat_val]
  generalize character.toNat = value at scalar bounded
  split_ifs
  all_goals refine ⟨_, _, rfl, ?_, ?_, ?_, scalar, ?_⟩
  all_goals simp [appendBits, leadBits, leastPoint, supplementaryFirst]
  all_goals omega

/-! ## The start of some bytes -/

theorem leading_of_sequence
    {lead : UInt8}
    {others rest : List UInt8}
    {value : Nat}
    (isWidth : sequenceWidth lead = some (others.length + 1))
    (isPoint : sequencePoint? lead others = some value) :
    leading (lead :: (others ++ rest)) = .point value rest := by
  simp [leading, isWidth, isPoint]

/-- What is at the start of some bytes that encode a character. -/
theorem leading_encodeChar
    (character : Char)
    (rest : List UInt8) :
    leading (String.utf8EncodeChar character ++ rest) =
      .point character.toNat rest := by
  obtain ⟨lead, others, isEncoding, isWidth, isPoint⟩ :=
    exists_sequence character
  rw [isEncoding, List.cons_append]
  exact leading_of_sequence isWidth isPoint

/-- A code point at the start of some bytes is encoded there. -/
theorem encodeChar_of_leading
    {bytes rest : List UInt8}
    {value : Nat}
    (isLeading : leading bytes = .point value rest) :
    (Char.ofNat value).toNat = value ∧
      bytes = String.utf8EncodeChar (Char.ofNat value) ++ rest := by
  cases bytes with
  | nil => simp [leading] at isLeading
  | cons lead bytes =>
      rw [leading] at isLeading
      split at isLeading
      · simp at isLeading
      · next width isWidth =>
          dsimp only at isLeading
          split at isLeading
          · simp at isLeading
          · next whole =>
              have length : width = (bytes.take (width - 1)).length + 1 := by
                have positive := sequenceWidth_eq_some_iff.mp isWidth
                have short := List.length_take_le (width - 1) bytes
                omega
              split at isLeading
              · next isPoint =>
                  obtain ⟨rfl, rfl⟩ := Leading.point.inj isLeading
                  rw [length] at isWidth
                  have scalar := (sequencePoint?_eq_some_iff.mp isPoint).2.2.1
                  rw [encodeChar_of_sequence isWidth isPoint, List.cons_append,
                    List.take_append_drop]
                  exact ⟨scalar.toNat_ofNat, rfl⟩
              · simp at isLeading

/-- More bytes do not make a sequence well formed that is not. -/
theorem leading_append_of_malformed
    {bytes : List UInt8}
    (isMalformed : leading bytes = .malformed)
    (more : List UInt8) :
    leading (bytes ++ more) = .malformed := by
  cases bytes with
  | nil => simp [leading] at isMalformed
  | cons lead bytes =>
      rw [leading] at isMalformed
      rw [List.cons_append, leading]
      split at isMalformed
      · rfl
      · next width _ =>
          dsimp only at isMalformed
          split at isMalformed
          · simp at isMalformed
          · next whole =>
              have enough : width - 1 ≤ bytes.length := by
                rw [List.length_take] at whole
                omega
              dsimp only
              rw [List.take_append_of_le_length enough, if_neg whole]
              split at isMalformed
              · simp at isMalformed
              · rfl

/-! ## The longest well formed part -/

/-- The bytes that encode some characters. -/
def toBytes (characters : List Char) : List UInt8 :=
  characters.flatMap String.utf8EncodeChar

@[simp] theorem toBytes_nil : toBytes [] = [] := rfl

@[simp] theorem toBytes_cons (character : Char) (characters : List Char) :
    toBytes (character :: characters) =
      String.utf8EncodeChar character ++ toBytes characters :=
  List.flatMap_cons

/-- Characters whose encoding is the longest part at the start of some bytes
that is well formed. -/
structure LongestValid (characters : List Char) (bytes : List UInt8) :
    Prop where
  initial : toBytes characters <+: bytes
  longest : ∀ others, toBytes others <+: bytes →
    (toBytes others).length ≤ (toBytes characters).length

/-- Bytes that start with no code point have no well formed part. -/
theorem longestValid_nil
    {bytes : List UInt8}
    (noPoint : ∀ value rest, leading bytes ≠ .point value rest) :
    LongestValid [] bytes := by
  refine ⟨List.nil_prefix, ?_⟩
  rintro (_ | ⟨character, others⟩) ⟨rest, rfl⟩
  · exact Nat.le_refl _
  · refine absurd ?_ (noPoint character.toNat (toBytes others ++ rest))
    rw [toBytes_cons, List.append_assoc, leading_encodeChar]

/-- What starts with a character's encoding goes on with the same bytes if it
starts with the encoding of characters. -/
theorem toBytes_cons_append
    {character first : Char}
    {tail : List Char}
    {rest bytes : List UInt8}
    (split : toBytes (first :: tail) ++ rest =
      String.utf8EncodeChar character ++ bytes) :
    first = character ∧ toBytes tail ++ rest = bytes := by
  have same := congrArg leading split
  rw [toBytes_cons, List.append_assoc, leading_encodeChar, leading_encodeChar]
    at same
  obtain ⟨sameCode, sameRest⟩ := Leading.point.inj same
  exact ⟨Char.toNat_inj.mp sameCode, sameRest⟩

theorem LongestValid.cons
    {characters : List Char}
    {bytes : List UInt8}
    (valid : LongestValid characters bytes)
    (character : Char) :
    LongestValid (character :: characters)
      (String.utf8EncodeChar character ++ bytes) := by
  refine ⟨?_, ?_⟩
  · rw [toBytes_cons]
    exact (List.prefix_append_right_inj _).mpr valid.initial
  · rintro (_ | ⟨other, others⟩) isPrefix
    · exact Nat.zero_le _
    · obtain ⟨rest, split⟩ := isPrefix
      obtain ⟨rfl, rfl⟩ := toBytes_cons_append split
      have shorter := valid.longest others (List.prefix_append _ _)
      simp only [toBytes_cons, List.length_append]
      omega

/-- What is left of the longest well formed part behind a character. -/
theorem LongestValid.exists_tail
    {character : Char}
    {characters : List Char}
    {bytes : List UInt8}
    (valid : LongestValid characters
      (String.utf8EncodeChar character ++ bytes)) :
    ∃ tail, characters = character :: tail ∧ LongestValid tail bytes := by
  obtain ⟨lead, others, isEncoding, -, -⟩ := exists_sequence character
  cases characters with
  | nil =>
      have longest := valid.longest [character]
        (by simp)
      simp [isEncoding] at longest
  | cons first tail =>
      obtain ⟨rest, split⟩ := valid.initial
      obtain ⟨rfl, rfl⟩ := toBytes_cons_append split
      refine ⟨tail, rfl, List.prefix_append _ _, ?_⟩
      intro characters isPrefix
      have longest := valid.longest (first :: characters)
        ((List.prefix_append_right_inj _).mpr isPrefix)
      simp only [toBytes_cons, List.length_append] at longest
      omega

/-- Bytes that start with no code point have no well formed part but the empty
one. -/
theorem LongestValid.eq_nil
    {characters : List Char}
    {bytes : List UInt8}
    (valid : LongestValid characters bytes)
    (noPoint : ∀ value rest, leading bytes ≠ .point value rest) :
    characters = [] := by
  cases characters with
  | nil => rfl
  | cons character tail =>
      obtain ⟨rest, rfl⟩ := valid.initial
      refine absurd ?_ (noPoint character.toNat (toBytes tail ++ rest))
      rw [toBytes_cons, List.append_assoc, leading_encodeChar]

theorem toBytes_append (front rest : List Char) :
    toBytes (front ++ rest) = toBytes front ++ toBytes rest :=
  List.flatMap_append

theorem LongestValid.exists_rest
    {front characters : List Char}
    {bytes : List UInt8}
    (valid : LongestValid characters (toBytes front ++ bytes)) :
    ∃ rest, characters = front ++ rest ∧ LongestValid rest bytes := by
  induction front generalizing characters with
  | nil => exact ⟨characters, rfl, valid⟩
  | cons character front inductionHypothesis =>
      rw [toBytes_cons, List.append_assoc] at valid
      obtain ⟨tail, rfl, tailValid⟩ := valid.exists_tail
      obtain ⟨rest, rfl, restValid⟩ := inductionHypothesis tailValid
      exact ⟨rest, rfl, restValid⟩

/-- Bytes have a longest well formed part, which may be empty. -/
theorem exists_longestValid
    (bytes : List UInt8) :
    ∃ characters, LongestValid characters bytes := by
  induction length : bytes.length using Nat.strong_induction_on generalizing
    bytes with
  | _ count inductionHypothesis =>
      by_cases starts : ∃ value rest, leading bytes = .point value rest
      · obtain ⟨value, rest, isLeading⟩ := starts
        obtain ⟨-, rfl⟩ := encodeChar_of_leading isLeading
        obtain ⟨lead, others, isEncoding, -, -⟩ :=
          exists_sequence (Char.ofNat value)
        have shorter : rest.length < count := by
          rw [← length, isEncoding, List.length_append, List.length_cons]
          omega
        obtain ⟨characters, valid⟩ := inductionHypothesis _ shorter rest rfl
        exact ⟨_, valid.cons (Char.ofNat value)⟩
      · push Not at starts
        exact ⟨[], longestValid_nil starts⟩

end Text
end ParserGenerator
