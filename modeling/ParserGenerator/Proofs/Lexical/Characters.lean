import ParserGenerator.Proofs.Lexical.Matching

/-!
# Matches consist of characters

What a pattern matches is the text of some characters: a surrogate never
stands alone in it, so that it can be decoded and encoded again without loss.
A pattern that is not nullable matches at least one character.
-/

namespace ParserGenerator

/-! ## The units of characters -/

theorem isHighSurrogate_iff {unit : Nat} :
    isHighSurrogate unit = true ↔
      surrogateFirst ≤ unit ∧ unit < lowSurrogateFirst := by
  simp [isHighSurrogate]

theorem isLowSurrogate_iff {unit : Nat} :
    isLowSurrogate unit = true ↔
      lowSurrogateFirst ≤ unit ∧ unit ≤ surrogateLast := by
  simp [isLowSurrogate]

theorem isHighSurrogate_eq_false
    {unit : Nat}
    (whole : isSurrogate unit = false) :
    isHighSurrogate unit = false := by
  rw [Bool.eq_false_iff, ne_eq] at whole ⊢
  rw [isSurrogate_iff] at whole
  rw [isHighSurrogate_iff]
  have order : lowSurrogateFirst ≤ surrogateLast := by decide
  omega

theorem isScalar_iff {point : Nat} :
    IsScalar point ↔ point.isValidChar := by
  have gap : isSurrogate point = true ↔ 0xD800 ≤ point ∧ point ≤ 0xDFFF :=
    isSurrogate_iff
  have greatest : maxCodePoint = 0x10FFFF := rfl
  rw [IsScalar, Bool.eq_false_iff, ne_eq, gap, Nat.isValidChar]
  omega

theorem IsScalar.toNat_ofNat
    {point : Nat}
    (scalar : IsScalar point) :
    (Char.ofNat point).toNat = point := by
  rw [Char.ofNat, dif_pos (isScalar_iff.mp scalar)]
  rfl

namespace Text

/-- The units at the front are those of the given characters. -/
structure StartsWith (points : List Nat) (before after : List CodeUnit) :
    Prop where
  scalars : ∀ point ∈ points, IsScalar point
  units : before = points.flatMap encodePoint ++ after

theorem StartsWith.nil (units : List CodeUnit) : StartsWith [] units units :=
  ⟨fun _ impossible => absurd impossible List.not_mem_nil, rfl⟩

theorem StartsWith.append
    {points others : List Nat}
    {before middle after : List CodeUnit}
    (first : StartsWith points before middle)
    (second : StartsWith others middle after) :
    StartsWith (points ++ others) before after where
  scalars := List.forall_mem_append.mpr ⟨first.scalars, second.scalars⟩
  units := by
    rw [first.units, second.units, List.flatMap_append, List.append_assoc]

theorem encodePoint_ne_nil (point : Nat) : encodePoint point ≠ [] := by
  unfold encodePoint
  split <;> exact List.cons_ne_nil _ _

theorem decodeCharacters_unit
    {unit : CodeUnit}
    (whole : isSurrogate unit.toNat = false)
    (rest : List CodeUnit) :
    decodeCharacters (unit :: rest) =
      Char.ofNat unit.toNat :: decodeCharacters rest := by
  have notHigh := isHighSurrogate_eq_false whole
  cases rest with
  | nil => simp [decodeCharacters, whole]
  | cons next rest => simp [decodeCharacters, whole, notHigh]

theorem decodeCharacters_pair
    {high low : CodeUnit}
    (isHigh : isHighSurrogate high.toNat = true)
    (isLow : isLowSurrogate low.toNat = true)
    (rest : List CodeUnit) :
    decodeCharacters (high :: low :: rest) =
      Char.ofNat (joinSurrogates high.toNat low.toNat) ::
        decodeCharacters rest := by
  simp [decodeCharacters, isHigh, isLow]

/-- A supplementary code point is a high surrogate followed by a low one. -/
theorem exists_pair_of_supplementary
    {point : Nat}
    (above : supplementaryFirst ≤ point)
    (known : point ≤ maxCodePoint) :
    ∃ high low : CodeUnit, encodePoint point = [high, low] ∧
      isHighSurrogate high.toNat = true ∧ isLowSurrogate low.toNat = true ∧
        joinSurrogates high.toNat low.toNat = point := by
  have first : 0x10000 ≤ point := above
  have last : point ≤ 0x10FFFF := known
  have high : highSurrogate point = 0xD800 + (point - 0x10000) / 0x400 := rfl
  have low : lowSurrogate point = 0xDC00 + (point - 0x10000) % 0x400 := rfl
  have sameHigh : (highSurrogate point).toUInt16.toNat =
      highSurrogate point :=
    UInt16.toNat_ofNat_of_lt' (by rw [UInt16.size]; omega)
  have sameLow : (lowSurrogate point).toUInt16.toNat = lowSurrogate point :=
    UInt16.toNat_ofNat_of_lt' (by rw [UInt16.size]; omega)
  refine ⟨_, _, if_neg (Nat.not_lt.mpr above), ?_, ?_, ?_⟩
  · rw [sameHigh, isHighSurrogate_iff]
    show 0xD800 ≤ highSurrogate point ∧ highSurrogate point < 0xDC00
    omega
  · rw [sameLow, isLowSurrogate_iff]
    show 0xDC00 ≤ lowSurrogate point ∧ lowSurrogate point ≤ 0xDFFF
    omega
  · rw [sameHigh, sameLow]
    show 0x10000 + (highSurrogate point - 0xD800) * 0x400 +
      (lowSurrogate point - 0xDC00) = point
    omega

/-- The units of a character are decoded to it, whatever follows them. -/
theorem decodeCharacters_encodePoint
    {point : Nat}
    (scalar : IsScalar point)
    (rest : List CodeUnit) :
    decodeCharacters (encodePoint point ++ rest) =
      Char.ofNat point :: decodeCharacters rest := by
  obtain ⟨known, outside⟩ := scalar
  by_cases isUnit : point < supplementaryFirst
  · have same : point.toUInt16.toNat = point :=
      UInt16.toNat_ofNat_of_lt' isUnit
    rw [encodePoint, if_pos isUnit, List.singleton_append,
      decodeCharacters_unit (same.symm ▸ outside), same]
  · obtain ⟨high, low, units, isHigh, isLow, joined⟩ :=
      exists_pair_of_supplementary (Nat.not_lt.mp isUnit) known
    rw [units, List.cons_append, List.singleton_append,
      decodeCharacters_pair isHigh isLow, joined]

/-- Decoding the units of characters gives the characters. -/
theorem decodeCharacters_flatMap
    {points : List Nat}
    (scalars : ∀ point ∈ points, IsScalar point) :
    decodeCharacters (points.flatMap encodePoint) = points.map Char.ofNat := by
  induction points with
  | nil => rfl
  | cons point rest inductionHypothesis =>
      obtain ⟨scalar, others⟩ := List.forall_mem_cons.mp scalars
      rw [List.flatMap_cons, decodeCharacters_encodePoint scalar,
        inductionHypothesis others, List.map_cons]

/-- Encoding undoes the decoding of the units of characters. -/
theorem encode_decode
    {points : List Nat}
    (scalars : ∀ point ∈ points, IsScalar point) :
    encode (decode (points.flatMap encodePoint)) =
      points.flatMap encodePoint := by
  rw [encode, decode, String.toList_ofList, decodeCharacters_flatMap scalars]
  induction points with
  | nil => rfl
  | cons point rest inductionHypothesis =>
      obtain ⟨scalar, others⟩ := List.forall_mem_cons.mp scalars
      rw [List.map_cons, List.flatMap_cons, scalar.toNat_ofNat,
        inductionHypothesis others, List.flatMap_cons]

end Text

/-! ## What patterns match -/

namespace Pattern

variable {before middle after : List CodeUnit}

/-- The text of some characters is matched, of none only if that is
allowed. -/
def Consumes (nullable : Bool) (before after : List CodeUnit) : Prop :=
  ∃ points, Text.StartsWith points before after ∧
    (points = [] → nullable = true)

theorem Consumes.refl (units : List CodeUnit) : Consumes true units units :=
  ⟨[], .nil units, fun _ => rfl⟩

theorem Consumes.append
    {first second : Bool}
    (start : Consumes first before middle)
    (rest : Consumes second middle after) :
    Consumes (first && second) before after := by
  obtain ⟨points, starts, allowed⟩ := start
  obtain ⟨others, continues, allowedThen⟩ := rest
  refine ⟨points ++ others, starts.append continues, fun nothing => ?_⟩
  obtain ⟨noPoints, noOthers⟩ := List.append_eq_nil_iff.mp nothing
  rw [allowed noPoints, allowedThen noOthers, Bool.true_and]

theorem Consumes.mono
    {nullable weaker : Bool}
    (consumes : Consumes nullable before after)
    (implies : nullable = true → weaker = true) :
    Consumes weaker before after := by
  obtain ⟨points, starts, allowed⟩ := consumes
  exact ⟨points, starts, fun nothing => implies (allowed nothing)⟩

theorem anyNullable_of_mem
    {item : Pattern}
    {items : List Pattern}
    (member : item ∈ items)
    (nullable : item.isNullable = true) :
    anyNullable items = true := by
  induction items with
  | nil => exact absurd member List.not_mem_nil
  | cons head rest inductionHypothesis =>
      rw [anyNullable, Bool.or_eq_true]
      rcases List.mem_cons.mp member with rfl | member
      · exact .inl nullable
      · exact .inr (inductionHypothesis member)

variable [CharacterData] {anyCase : Bool}

theorem consumes_of_reads
    {set : CharSet}
    (reads : set.Reads before after) :
    Consumes false before after := by
  obtain ⟨point, scalar, -, split⟩ := reads
  refine ⟨[point], ⟨List.forall_mem_singleton.mpr scalar, ?_⟩, nofun⟩
  rw [split, List.flatMap_singleton]

theorem consumes_of_spells
    {characters : List Char}
    (spells : Spells anyCase characters before after) :
    Consumes characters.isEmpty before after := by
  induction characters generalizing before with
  | nil =>
      obtain rfl : before = after := spells
      exact .refl before
  | cons character rest inductionHypothesis =>
      obtain ⟨middle, reads, spells⟩ := spells
      exact (consumes_of_reads reads).append (inductionHypothesis spells)

theorem consumes_of_matchesInTurn
    {items : List Pattern}
    (each : ∀ item ∈ items, ∀ before after,
      item.Matches anyCase before after →
        Consumes item.isNullable before after)
    (isMatch : MatchesInTurn anyCase items before after) :
    Consumes (allNullable items) before after := by
  induction items generalizing before with
  | nil =>
      obtain rfl : before = after := by simpa [MatchesInTurn] using isMatch
      exact .refl before
  | cons item rest inductionHypothesis =>
      obtain ⟨first, others⟩ := List.forall_mem_cons.mp each
      obtain ⟨middle, start, isMatch⟩ : ∃ middle,
          item.Matches anyCase before middle ∧
            MatchesInTurn anyCase rest middle after := by
        simpa [MatchesInTurn] using isMatch
      rw [allNullable]
      exact (first _ _ start).append (inductionHypothesis others isMatch)

/-- A pattern matches the text of some characters, and of at least one if it is
not nullable. -/
theorem consumes_of_matches
    {pattern : Pattern}
    (isMatch : pattern.Matches anyCase before after) :
    Consumes pattern.isNullable before after := by
  induction pattern using Pattern.induction generalizing before after with
  | text content =>
      rw [Matches] at isMatch
      exact (consumes_of_spells isMatch).mono (by simp [isNullable])
  | set characters =>
      rw [Matches] at isMatch
      exact consumes_of_reads isMatch
  | concat items inductionHypothesis =>
      rw [Matches] at isMatch
      rw [isNullable]
      exact consumes_of_matchesInTurn
        (fun item member _ _ => inductionHypothesis item member) isMatch
  | alternate items inductionHypothesis =>
      rw [Matches, matchesOne_iff] at isMatch
      obtain ⟨item, member, isMatch⟩ := isMatch
      rw [isNullable]
      exact (inductionHypothesis item member isMatch).mono
        (anyNullable_of_mem member)
  | repeated item repetition inductionHypothesis =>
      cases repetition with
      | zeroOrMore =>
          rw [Matches] at isMatch
          have nullable :
              (Pattern.repeat item .zeroOrMore).isNullable = true := by
            simp [isNullable]
          rw [nullable]
          induction isMatch with
          | refl => exact .refl before
          | tail _ last earlier =>
              exact (earlier.append (inductionHypothesis last)).mono
                fun _ => rfl
      | oneOrMore =>
          rw [Matches] at isMatch
          rw [isNullable]
          induction isMatch with
          | single only => exact inductionHypothesis only
          | tail _ last earlier =>
              exact (earlier.append (inductionHypothesis last)).mono
                fun both => (Bool.and_eq_true_iff.mp both).1
      | optional =>
          rw [Matches] at isMatch
          have nullable :
              (Pattern.repeat item .optional).isNullable = true := by
            simp [isNullable]
          rw [nullable]
          cases isMatch with
          | refl => exact .refl before
          | single only => exact (inductionHypothesis only).mono fun _ => rfl
  | lookahead condition negated _ =>
      rw [Matches] at isMatch
      obtain ⟨rfl, -⟩ := isMatch
      rw [isNullable]
      exact .refl before

end Pattern
end ParserGenerator
