import ParserGenerator.Lexical.Matcher
import ParserGenerator.Proofs.Lexical.Characters
import ParserGenerator.Proofs.Lexical.Munch
import ParserGenerator.Unicode.CaseMapping

/-!
# Matching in either case

A pattern that is compiled for both cases reads two texts alike that differ in
the case of letters of ASCII only. Its sets are closed in one step: each listed
character brings in its own counterparts. Three characters outside of ASCII
have a letter of ASCII as counterpart without being one of its counterparts;
they bring in the letter in one case only. So the letters `i`, `k` and `s` may
vary only if the pattern lists such a character together with the letter.
-/

namespace ParserGenerator

/-- A lower-case letter of ASCII. -/
def IsLetter (point : Nat) : Prop := 0x61 ≤ point ∧ point ≤ 0x7A

/-- A letter of ASCII in upper case. -/
def capital (letter : Nat) : Nat := letter - 0x20

/-- The characters outside of ASCII with a letter of ASCII as counterpart, each
with its letter: the dotless `i`, the long `s` and the Kelvin sign. -/
def strayLetters : List (Nat × Nat) :=
  [(0x131, 0x69), (0x17F, 0x73), (0x212A, 0x6B)]

/-- Code points that are equal, or one letter in both cases. -/
inductive SameLetter (varies : Nat → Prop) : Nat → Nat → Prop
  | refl (point : Nat) : SameLetter varies point point
  | lower
      {letter : Nat}
      (isLetter : IsLetter letter)
      (mayVary : varies letter) :
      SameLetter varies letter (capital letter)
  | upper
      {letter : Nat}
      (isLetter : IsLetter letter)
      (mayVary : varies letter) :
      SameLetter varies (capital letter) letter

theorem SameLetter.symm
    {varies : Nat → Prop}
    {point other : Nat}
    (same : SameLetter varies point other) :
    SameLetter varies other point := by
  cases same with
  | refl => exact .refl _
  | lower isLetter mayVary => exact .upper isLetter mayVary
  | upper isLetter mayVary => exact .lower isLetter mayVary

/-- The case mappings are those of Unicode, and the letters of ASCII are cased
letters. -/
structure CharacterData.Latin [CharacterData] : Prop where
  /-- The case mappings. -/
  mapped : CharacterData.counterparts = Unicode.counterparts
  /-- The categories of the letters. -/
  cased : ∀ letter, IsLetter letter →
    Categories.casedLetters.contains (Category.of letter) = true ∧
      Categories.casedLetters.contains (Category.of (capital letter)) = true

/-! ## The table of the case mappings -/

namespace Unicode

theorem letters_mem_counterparts
    {letter : Nat}
    (isLetter : IsLetter letter) :
    (letter, capital letter) ∈ counterparts ∧
      (capital letter, letter) ∈ counterparts := by
  have listed : ∀ letter ∈ List.range' 0x61 26,
      (letter, capital letter) ∈ counterparts ∧
        (capital letter, letter) ∈ counterparts := by
    decide +kernel
  obtain ⟨above, below⟩ := isLetter
  exact listed letter (List.mem_range'_1.mpr ⟨above, by omega⟩)

/-- A letter is the counterpart of its other case and of stray letters only. -/
theorem origin_of_mem_counterparts
    {point target letter : Nat}
    (isLetter : IsLetter letter)
    (isTarget : target = letter ∨ target = capital letter)
    (member : (point, target) ∈ counterparts) :
    point = letter ∨ point = capital letter ∨
      (point, letter) ∈ strayLetters := by
  have listed : ∀ pair ∈ counterparts, pair.2 < 0x80 →
      ∀ letter ∈ List.range' 0x61 26,
        pair.2 = letter ∨ pair.2 = capital letter →
          pair.1 = letter ∨ pair.1 = capital letter ∨
            (pair.1, letter) ∈ strayLetters := by
    decide +kernel
  obtain ⟨above, below⟩ := isLetter
  have inAscii : target < 0x80 := by
    rw [capital] at isTarget
    omega
  exact listed (point, target) member inAscii letter
    (List.mem_range'_1.mpr ⟨above, by omega⟩) isTarget

end Unicode

/-! ## Closed sets -/

section Sets

variable [CharacterData] {letter point : Nat}

omit [CharacterData] in
theorem Categories.contains_toAnyCase
    {set : Categories}
    {category : Category}
    (cased : casedLetters.contains category = true) :
    set.toAnyCase.contains category = true ↔
      (set.intersect casedLetters).isEmpty = false := by
  unfold toAnyCase
  split
  · next noneCased =>
      have notBoth := isEmpty_iff.mp noneCased category
      rw [contains_intersect, cased, Bool.and_true] at notBoth
      simp [noneCased, notBoth]
  · next someCased => simp [someCased, cased]

/-- One character brings in its counterparts. -/
theorem CharSet.contains_toAnyCase_single {origin : Nat} :
    (single origin).toAnyCase.contains point = true ↔
      origin = point ∨ (origin, point) ∈ CharacterData.counterparts := by
  have normal : (RangeList.single origin).Normal :=
    RangeList.Apart.singleton (Nat.le_refl origin)
  have listed {member : Nat} :
      (RangeList.single origin).contains member = true ↔ origin = member := by
    rw [RangeList.contains_iff, ← CodeRange.contains_single,
      CodeRange.contains_iff]
    simp [RangeList.single]
  have noCategory (category : Category) :
      Categories.empty.toAnyCase.contains category = false := by
    cases category <;> decide
  rw [single, ofRanges, toAnyCase, contains, Members.contains,
    Members.toAnyCase, noCategory, Bool.or_false,
    RangeList.contains_toAnyCase normal]
  simp [listed]

/-- Stray letters of a letter are listed only together with the letter. -/
def Members.KeepsCase (letter : Nat) (members : Members) : Prop :=
  ∀ point, (point, letter) ∈ strayLetters →
    members.ranges.contains point = true →
      members.contains letter = true ∨
        members.contains (capital letter) = true

/-- A listed letter is in the closure in both cases. -/
theorem Members.contains_toAnyCase_of_contains
    {members : Members}
    (latin : CharacterData.Latin)
    (normal : members.ranges.Normal)
    (isLetter : IsLetter letter)
    (listed : members.contains letter = true ∨
      members.contains (capital letter) = true) :
    members.toAnyCase.contains letter = true ∧
      members.toAnyCase.contains (capital letter) = true := by
  obtain ⟨lowerCased, upperCased⟩ := latin.cased letter isLetter
  obtain ⟨downwards, upwards⟩ := Unicode.letters_mem_counterparts isLetter
  rw [← latin.mapped] at downwards upwards
  have byCategory {category : Category}
      (cased : Categories.casedLetters.contains category = true)
      (inSet : members.categories.contains category = true) :
      (members.categories.intersect Categories.casedLetters).isEmpty =
        false := by
    rw [Bool.eq_false_iff, ne_eq, Categories.isEmpty_iff]
    intro noneCased
    have notBoth := noneCased category
    rw [Categories.contains_intersect, inSet, cased] at notBoth
    contradiction
  simp only [Members.contains, Members.toAnyCase, Bool.or_eq_true,
    RangeList.contains_toAnyCase normal,
    Categories.contains_toAnyCase lowerCased,
    Categories.contains_toAnyCase upperCased] at listed ⊢
  rcases listed with (inRanges | inCategories) | inRanges | inCategories
  · exact ⟨.inl (.inl inRanges), .inl (.inr ⟨letter, inRanges, downwards⟩)⟩
  · have someCased := byCategory lowerCased inCategories
    exact ⟨.inr someCased, .inr someCased⟩
  · exact ⟨.inl (.inr ⟨capital letter, inRanges, upwards⟩),
      .inl (.inl inRanges)⟩
  · have someCased := byCategory upperCased inCategories
    exact ⟨.inr someCased, .inr someCased⟩

theorem Members.contains_toAnyCase_capital
    {members : Members}
    (latin : CharacterData.Latin)
    (normal : members.ranges.Normal)
    (isLetter : IsLetter letter)
    (keeps : members.KeepsCase letter) :
    members.toAnyCase.contains (capital letter) =
      members.toAnyCase.contains letter := by
  obtain ⟨lowerCased, upperCased⟩ := latin.cased letter isLetter
  have inBoth {target : Nat}
      (isTarget : target = letter ∨ target = capital letter)
      (inClosure : members.toAnyCase.ranges.contains target = true) :
      members.toAnyCase.contains letter = true ∧
        members.toAnyCase.contains (capital letter) = true := by
    refine members.contains_toAnyCase_of_contains latin normal isLetter ?_
    rw [Members.toAnyCase, RangeList.contains_toAnyCase normal,
      latin.mapped] at inClosure
    rcases inClosure with inRanges | ⟨origin, inRanges, isPair⟩
    · rcases isTarget with rfl | rfl
      · exact .inl (by simp [Members.contains, inRanges])
      · exact .inr (by simp [Members.contains, inRanges])
    · rcases Unicode.origin_of_mem_counterparts isLetter isTarget isPair with
        rfl | rfl | stray
      · exact .inl (by simp [Members.contains, inRanges])
      · exact .inr (by simp [Members.contains, inRanges])
      · exact keeps origin stray inRanges
  rw [Bool.eq_iff_iff]
  constructor
  · intro inClosure
    rw [Members.contains, Bool.or_eq_true] at inClosure
    rcases inClosure with inRanges | inCategories
    · exact (inBoth (.inr rfl) inRanges).1
    · rw [Members.contains, Bool.or_eq_true]
      exact .inr ((Categories.contains_toAnyCase lowerCased).mpr
        ((Categories.contains_toAnyCase upperCased).mp inCategories))
  · intro inClosure
    rw [Members.contains, Bool.or_eq_true] at inClosure
    rcases inClosure with inRanges | inCategories
    · exact (inBoth (.inl rfl) inRanges).2
    · rw [Members.contains, Bool.or_eq_true]
      exact .inr ((Categories.contains_toAnyCase upperCased).mpr
        ((Categories.contains_toAnyCase lowerCased).mp inCategories))

namespace CharSet

/-- Stray letters of a letter are listed only together with the letter, all
along the chain of exclusions. -/
def KeepsCase (letter : Nat) : CharSet → Prop
  | plain members => members.KeepsCase letter
  | except members excluded =>
      members.KeepsCase letter ∧ excluded.KeepsCase letter

/-- The closure has a letter in both cases or in none. -/
theorem contains_toAnyCase_capital
    {set : CharSet}
    (latin : CharacterData.Latin)
    (normal : set.Normal)
    (isLetter : IsLetter letter)
    (keeps : set.KeepsCase letter) :
    set.toAnyCase.contains (capital letter) = set.toAnyCase.contains letter := by
  induction set with
  | plain members =>
      exact members.contains_toAnyCase_capital latin normal isLetter keeps
  | except members excluded inductionHypothesis =>
      rw [toAnyCase, contains, contains,
        members.contains_toAnyCase_capital latin normal.1 isLetter keeps.1,
        inductionHypothesis normal.2 keeps.2]

end CharSet
end Sets

/-! ## Patterns -/

namespace Pattern

variable [CharacterData]

mutual

/-- Stray letters of a letter are listed only together with the letter, in each
set of the pattern; the characters of a text are sets of one character. -/
def KeepsCase (letter : Nat) : Pattern → Prop
  | text content =>
      ∀ character ∈ content.toList,
        (CharSet.single character.toNat).KeepsCase letter
  | set characters => characters.KeepsCase letter
  | concat items => AllKeepCase letter items
  | alternate items => AllKeepCase letter items
  | .repeat item _ => item.KeepsCase letter
  | lookahead condition _ => condition.KeepsCase letter

/-- Each of some patterns lists stray letters only together with the letter. -/
def AllKeepCase (letter : Nat) : List Pattern → Prop
  | [] => True
  | item :: rest => item.KeepsCase letter ∧ AllKeepCase letter rest

end

theorem allKeepCase_iff
    {letter : Nat}
    {items : List Pattern} :
    AllKeepCase letter items ↔ ∀ item ∈ items, item.KeepsCase letter := by
  induction items with
  | nil => simp [AllKeepCase]
  | cons item rest inductionHypothesis =>
      rw [AllKeepCase, inductionHypothesis, List.forall_mem_cons]

end Pattern

section Ordinary

variable [CharacterData] {letter : Nat}

theorem CharSet.keepsCase_of_no_stray
    (noStray : ∀ point, (point, letter) ∉ strayLetters)
    (set : CharSet) :
    set.KeepsCase letter := by
  have keeps (members : Members) : members.KeepsCase letter :=
    fun point stray => absurd stray (noStray point)
  induction set with
  | plain members => exact keeps members
  | except members excluded inductionHypothesis =>
      exact ⟨keeps members, inductionHypothesis⟩

/-- A character of ASCII keeps every letter. -/
theorem CharSet.keepsCase_single
    {point : Nat}
    (inAscii : point < 0x80) :
    (single point).KeepsCase letter := by
  intro stray isStray listed
  have beyond : ∀ pair ∈ strayLetters, 0x80 ≤ pair.1 := by decide
  have isPoint : stray ≤ point := by
    simp only [RangeList.single, RangeList.contains_iff, CodeRange.single,
      RangeList.covers_cons, RangeList.not_covers_nil, or_false] at listed
    exact listed.2
  have aboveAscii := beyond _ isStray
  dsimp only at aboveAscii
  omega

/-- Every pattern keeps the letters other than `i`, `k` and `s`. -/
theorem Pattern.keepsCase_of_no_stray
    (noStray : ∀ point, (point, letter) ∉ strayLetters)
    (pattern : Pattern) :
    pattern.KeepsCase letter := by
  induction pattern using Pattern.induction with
  | text content =>
      rw [KeepsCase]
      exact fun _ _ => CharSet.keepsCase_of_no_stray noStray _
  | set characters =>
      rw [KeepsCase]
      exact characters.keepsCase_of_no_stray noStray
  | concat items inductionHypothesis | alternate items inductionHypothesis =>
      rw [KeepsCase, allKeepCase_iff]
      exact inductionHypothesis
  | repeated item repetition inductionHypothesis =>
      rw [KeepsCase]
      exact inductionHypothesis
  | lookahead condition negated inductionHypothesis =>
      rw [KeepsCase]
      exact inductionHypothesis

end Ordinary

/-! ## Texts that differ in letter case -/

/-- Units that are equal, or one letter in both cases. -/
def SameUnit (varies : Nat → Prop) (unit other : CodeUnit) : Prop :=
  SameLetter varies unit.toNat other.toNat

/-- Units one after the other that are equal, or one letter in both cases. -/
def SameUnits (varies : Nat → Prop) : List CodeUnit → List CodeUnit → Prop :=
  List.Forall₂ (SameUnit varies)

section Texts

variable {varies : Nat → Prop} {before after other : List CodeUnit}

theorem SameUnits.symm
    (same : SameUnits varies before other) :
    SameUnits varies other before :=
  same.flip.imp fun _ _ => SameLetter.symm

theorem SameUnits.refl (units : List CodeUnit) : SameUnits varies units units :=
  List.forall₂_same.mpr fun unit _ => .refl unit.toNat

theorem SameLetter.isUnit
    {point target : Nat}
    (same : SameLetter varies point target)
    (differs : point ≠ target) :
    point < 0x80 ∧ target < 0x80 := by
  cases same with
  | refl => exact absurd rfl differs
  | lower isLetter | upper isLetter =>
      rw [IsLetter] at isLetter
      rw [capital]
      omega

/-- Where the units of a code point are, there are the units of the same code
point or of the same letter in a text that differs in letter case. -/
theorem SameUnits.encodePoint
    {point : Nat}
    (scalar : IsScalar point)
    (same : SameUnits varies (Text.encodePoint point ++ after) other) :
    ∃ target rest, IsScalar target ∧ SameLetter varies point target ∧
      other = Text.encodePoint target ++ rest ∧ SameUnits varies after rest := by
  rw [Text.encodePoint] at same
  split at same
  · next isUnit =>
      obtain ⟨unit, rest, sameUnit, sameRest, rfl⟩ :=
        List.forall₂_cons_left_iff.mp same
      rw [SameUnit, UInt16.toNat_ofNat_of_lt' isUnit] at sameUnit
      have unitBound : unit.toNat < supplementaryFirst := unit.toNat_lt
      have encoded : Text.encodePoint unit.toNat = [unit] := by
        rw [Text.encodePoint, if_pos unitBound]
        simp
      refine ⟨unit.toNat, rest, ?_, sameUnit, by rw [encoded]; rfl, sameRest⟩
      by_cases isSame : point = unit.toNat
      · exact isSame ▸ scalar
      · have inAscii := (sameUnit.isUnit isSame).2
        rw [isScalar_iff, Nat.isValidChar]
        omega
  · next supplementary =>
      obtain ⟨high, lowFirst, sameHigh, sameLowFirst, rfl⟩ :=
        List.forall₂_cons_left_iff.mp same
      obtain ⟨low, rest, sameLow, sameRest, rfl⟩ :=
        List.forall₂_cons_left_iff.mp sameLowFirst
      have above : 0x10000 ≤ point := Nat.not_lt.mp supplementary
      have bound : point ≤ 0x10FFFF := scalar.1
      have highNumber : (highSurrogate point).toUInt16.toNat =
          0xD800 + (point - 0x10000) / 0x400 :=
        UInt16.toNat_ofNat_of_lt' (by
          show 0xD800 + (point - 0x10000) / 0x400 < 0x10000
          omega)
      have lowNumber : (lowSurrogate point).toUInt16.toNat =
          0xDC00 + (point - 0x10000) % 0x400 :=
        UInt16.toNat_ofNat_of_lt' (by
          show 0xDC00 + (point - 0x10000) % 0x400 < 0x10000
          omega)
      have isHigh : (highSurrogate point).toUInt16 = high := by
        by_contra differs
        have inAscii := (SameLetter.isUnit sameHigh fun same =>
          differs (UInt16.toNat_inj.mp same)).1
        omega
      have isLow : (lowSurrogate point).toUInt16 = low := by
        by_contra differs
        have inAscii := (SameLetter.isUnit sameLow fun same =>
          differs (UInt16.toNat_inj.mp same)).1
        omega
      refine ⟨point, rest, scalar, .refl point, ?_, sameRest⟩
      rw [Text.encodePoint, if_neg supplementary, isHigh, isLow]
      rfl

/-- Texts that differ in letter case have units that differ so. -/
theorem SameUnits.encode
    {text target : String}
    (same : List.Forall₂ (fun character other : Char =>
      SameLetter varies character.toNat other.toNat)
      text.toList target.toList) :
    SameUnits varies (Text.encode text) (Text.encode target) := by
  rw [Text.encode, Text.encode]
  generalize text.toList = characters at same ⊢
  generalize target.toList = others at same ⊢
  induction same with
  | nil => exact .nil
  | @cons character other _ _ sameLetter _ inductionHypothesis =>
      rw [List.flatMap_cons, List.flatMap_cons]
      refine List.rel_append ?_ inductionHypothesis
      by_cases isSame : character.toNat = other.toNat
      · rw [isSame]
        exact SameUnits.refl _
      · obtain ⟨first, second⟩ := sameLetter.isUnit isSame
        have firstBound : character.toNat < supplementaryFirst :=
          Nat.lt_trans first (by decide)
        have secondBound : other.toNat < supplementaryFirst :=
          Nat.lt_trans second (by decide)
        rw [Text.encodePoint, if_pos firstBound, Text.encodePoint,
          if_pos secondBound]
        refine .cons ?_ .nil
        rw [SameUnit, UInt16.toNat_ofNat_of_lt' firstBound,
          UInt16.toNat_ofNat_of_lt' secondBound]
        exact sameLetter

end Texts

/-! ## Languages that do not tell letter case apart -/

namespace Lexical

/-- What is matched in a text is matched in a text that differs in letter
case, and what is left differs in letter case. -/
def Blind (varies : Nat → Prop) (language : Language) : Prop :=
  ∀ before after other, language before after → SameUnits varies before other →
    ∃ rest, language other rest ∧ SameUnits varies after rest

section Languages

variable {varies : Nat → Prop} {language second : Language}

theorem Blind.congr
    (blind : Blind varies language)
    (same : ∀ before after, second before after ↔ language before after) :
    Blind varies second := by
  intro before after other matched sameUnits
  obtain ⟨rest, otherMatched, sameRest⟩ :=
    blind before after other ((same before after).mp matched) sameUnits
  exact ⟨rest, (same other rest).mpr otherMatched, sameRest⟩

theorem Blind.nothing : Blind varies Eq := by
  rintro before after other rfl same
  exact ⟨other, rfl, same⟩

theorem Blind.comp
    (blind : Blind varies language)
    (secondBlind : Blind varies second) :
    Blind varies fun before after =>
      ∃ middle, language before middle ∧ second middle after := by
  rintro before after other ⟨middle, first, next⟩ same
  obtain ⟨otherMiddle, otherFirst, sameMiddle⟩ := blind _ _ _ first same
  obtain ⟨rest, otherNext, sameRest⟩ := secondBlind _ _ _ next sameMiddle
  exact ⟨rest, ⟨otherMiddle, otherFirst, otherNext⟩, sameRest⟩

theorem Blind.zeroOrMore
    (blind : Blind varies language) :
    Blind varies (Relation.ReflTransGen language) := by
  intro before after other matched same
  induction matched with
  | refl => exact ⟨other, .refl, same⟩
  | tail _ last inductionHypothesis =>
      obtain ⟨middle, earlier, sameMiddle⟩ := inductionHypothesis
      obtain ⟨rest, otherLast, sameRest⟩ := blind _ _ _ last sameMiddle
      exact ⟨rest, earlier.tail otherLast, sameRest⟩

theorem Blind.oneOrMore
    (blind : Blind varies language) :
    Blind varies (Relation.TransGen language) := by
  intro before after other matched same
  induction matched with
  | single only =>
      obtain ⟨rest, otherOnly, sameRest⟩ := blind _ _ _ only same
      exact ⟨rest, .single otherOnly, sameRest⟩
  | tail _ last inductionHypothesis =>
      obtain ⟨middle, earlier, sameMiddle⟩ := inductionHypothesis
      obtain ⟨rest, otherLast, sameRest⟩ := blind _ _ _ last sameMiddle
      exact ⟨rest, earlier.tail otherLast, sameRest⟩

theorem Blind.optional
    (blind : Blind varies language) :
    Blind varies (Relation.ReflGen language) := by
  intro before after other matched same
  cases matched with
  | refl => exact ⟨other, .refl, same⟩
  | single only =>
      obtain ⟨rest, otherOnly, sameRest⟩ := blind _ _ _ only same
      exact ⟨rest, .single otherOnly, sameRest⟩

end Languages

variable [CharacterData] {varies : Nat → Prop}

/-- A closed set does not tell the cases of the letters apart that may vary. -/
theorem blind_reads
    {set : CharSet}
    (latin : CharacterData.Latin)
    (normal : set.Normal)
    (keeps : ∀ letter, varies letter → set.KeepsCase letter) :
    Blind varies set.toAnyCase.Reads := by
  rintro before after other ⟨point, scalar, contained, rfl⟩ same
  obtain ⟨target, rest, targetScalar, sameLetter, rfl, sameRest⟩ :=
    same.encodePoint scalar
  refine ⟨rest, ⟨target, targetScalar, ?_, rfl⟩, sameRest⟩
  cases sameLetter with
  | refl => exact contained
  | lower isLetter mayVary =>
      rw [CharSet.contains_toAnyCase_capital latin normal isLetter
        (keeps _ mayVary)]
      exact contained
  | upper isLetter mayVary =>
      rw [← CharSet.contains_toAnyCase_capital latin normal isLetter
        (keeps _ mayVary)]
      exact contained

theorem blind_spells
    {characters : List Char}
    (latin : CharacterData.Latin)
    (keeps : ∀ letter, varies letter → ∀ character ∈ characters,
      (CharSet.single character.toNat).KeepsCase letter) :
    Blind varies (Pattern.Spells true characters) := by
  induction characters with
  | nil => exact .nothing
  | cons character rest inductionHypothesis =>
      have first : Blind varies (CharSet.single character.toNat).toAnyCase.Reads :=
        blind_reads latin (CharSet.normal_single _) fun letter mayVary =>
          keeps letter mayVary character List.mem_cons_self
      exact first.comp (inductionHypothesis fun letter mayVary other member =>
        keeps letter mayVary other (List.mem_cons_of_mem _ member))

theorem blind_matchesInTurn
    {items : List Pattern}
    (each : ∀ item ∈ items, Blind varies (item.Matches true)) :
    Blind varies (Pattern.MatchesInTurn true items) := by
  induction items with
  | nil => exact Blind.nothing.congr fun _ _ => by rw [Pattern.MatchesInTurn]
  | cons item rest inductionHypothesis =>
      obtain ⟨first, others⟩ := List.forall_mem_cons.mp each
      exact (first.comp (inductionHypothesis others)).congr fun _ _ => by
        rw [Pattern.MatchesInTurn]

/-- A pattern does not tell the cases of the letters apart that may vary. A
condition is met by both texts or by none, as differing in letter case is
symmetric. -/
theorem blind_matches
    {pattern : Pattern}
    (latin : CharacterData.Latin)
    (normal : pattern.Normal)
    (keeps : ∀ letter, varies letter → pattern.KeepsCase letter) :
    Blind varies (pattern.Matches true) := by
  induction pattern using Pattern.induction with
  | text content =>
      simp only [Pattern.KeepsCase] at keeps
      exact (blind_spells latin keeps).congr fun _ _ => by rw [Pattern.Matches]
  | set characters =>
      rw [Pattern.Normal] at normal
      simp only [Pattern.KeepsCase] at keeps
      refine (blind_reads latin normal keeps).congr fun _ _ => ?_
      rw [Pattern.Matches]
      rfl
  | concat items inductionHypothesis =>
      rw [Pattern.Normal, Pattern.allNormal_iff] at normal
      simp only [Pattern.KeepsCase, Pattern.allKeepCase_iff] at keeps
      have each : ∀ item ∈ items, Blind varies (item.Matches true) :=
        fun item member => inductionHypothesis item member (normal item member)
          fun letter mayVary => keeps letter mayVary item member
      exact (blind_matchesInTurn each).congr fun _ _ => by rw [Pattern.Matches]
  | alternate items inductionHypothesis =>
      rw [Pattern.Normal, Pattern.allNormal_iff] at normal
      simp only [Pattern.KeepsCase, Pattern.allKeepCase_iff] at keeps
      intro before after other matched same
      rw [Pattern.Matches, Pattern.matchesOne_iff] at matched
      obtain ⟨item, member, matched⟩ := matched
      obtain ⟨rest, otherMatched, sameRest⟩ :=
        inductionHypothesis item member (normal item member)
          (fun letter mayVary => keeps letter mayVary item member)
          before after other matched same
      refine ⟨rest, ?_, sameRest⟩
      rw [Pattern.Matches, Pattern.matchesOne_iff]
      exact ⟨item, member, otherMatched⟩
  | repeated item repetition inductionHypothesis =>
      rw [Pattern.Normal] at normal
      simp only [Pattern.KeepsCase] at keeps
      have blind := inductionHypothesis normal keeps
      cases repetition with
      | zeroOrMore =>
          exact blind.zeroOrMore.congr fun _ _ => by rw [Pattern.Matches]
      | oneOrMore =>
          exact blind.oneOrMore.congr fun _ _ => by rw [Pattern.Matches]
      | optional =>
          exact blind.optional.congr fun _ _ => by rw [Pattern.Matches]
  | lookahead condition negated inductionHypothesis =>
      rw [Pattern.Normal] at normal
      simp only [Pattern.KeepsCase] at keeps
      have blind := inductionHypothesis normal keeps
      intro before after other matched same
      rw [Pattern.Matches] at matched
      obtain ⟨rfl, isMet⟩ := matched
      refine ⟨other, ?_, same⟩
      rw [Pattern.Matches]
      refine ⟨rfl, Iff.trans ⟨?_, ?_⟩ isMet⟩
      · rintro ⟨rest, met⟩
        obtain ⟨otherRest, otherMet, -⟩ := blind _ _ _ met same.symm
        exact ⟨otherRest, otherMet⟩
      · rintro ⟨rest, met⟩
        obtain ⟨otherRest, otherMet, -⟩ := blind _ _ _ met same
        exact ⟨otherRest, otherMet⟩

/-! ## The longest match -/

section Munch

variable {input other : List CodeUnit}

theorem Spans.sameUnits
    {pattern : Pattern}
    {length : Nat}
    (latin : CharacterData.Latin)
    (normal : pattern.Normal)
    (keeps : ∀ letter, varies letter → pattern.KeepsCase letter)
    (same : SameUnits varies input other)
    (spans : Spans true input pattern length) :
    Spans true other pattern length := by
  obtain ⟨within, matched⟩ := spans
  obtain ⟨rest, otherMatched, sameRest⟩ :=
    blind_matches latin normal keeps _ _ _ matched same
  obtain ⟨points, starts, -⟩ := Pattern.consumes_of_matches otherMatched
  have sameLength := same.length_eq
  have restLength := sameRest.length_eq
  rw [List.length_drop] at restLength
  have isRest : other.drop length = rest := by
    have split := congrArg List.length starts.units
    rw [List.length_append] at split
    rw [starts.units, List.drop_left']
    omega
  exact ⟨by omega, isRest ▸ otherMatched⟩

variable {terminals : List Terminal}

theorem Contributes.sameUnits
    {index length : Nat}
    (latin : CharacterData.Latin)
    (normal : ∀ terminal ∈ terminals, terminal.pattern.Normal)
    (keeps : ∀ letter, varies letter → ∀ terminal ∈ terminals,
      terminal.pattern.KeepsCase letter)
    (same : SameUnits varies input other)
    (contributes : Contributes true input terminals index length) :
    Contributes true other terminals index length := by
  obtain ⟨terminal, isTerminal, spans, shortest⟩ := contributes
  have member := List.mem_of_getElem? isTerminal
  have keepsTerminal := fun letter mayVary =>
    keeps letter mayVary terminal member
  refine ⟨terminal, isTerminal,
    spans.sameUnits latin (normal terminal member) keepsTerminal same, ?_⟩
  intro isLazy shorter less otherSpans
  exact shortest isLazy shorter less
    (otherSpans.sameUnits latin (normal terminal member) keepsTerminal same.symm)

/-- The longest match in a text is that in a text that differs in letter
case. -/
theorem MaximalMunch.sameUnits
    {answer : Match}
    (latin : CharacterData.Latin)
    (normal : ∀ terminal ∈ terminals, terminal.pattern.Normal)
    (keeps : ∀ letter, varies letter → ∀ terminal ∈ terminals,
      terminal.pattern.KeepsCase letter)
    (same : SameUnits varies input other)
    (isAnswer : MaximalMunch true input terminals answer) :
    MaximalMunch true other terminals answer := by
  cases answer with
  | needMore => exact isAnswer
  | noMatch =>
      exact fun index length contributes => isAnswer index length
        (contributes.sameUnits latin normal keeps same.symm)
  | found index length =>
      obtain ⟨contributes, greatest⟩ := isAnswer
      exact ⟨contributes.sameUnits latin normal keeps same,
        fun otherIndex otherLength otherContributes =>
          greatest otherIndex otherLength
            (otherContributes.sameUnits latin normal keeps same.symm)⟩

end Munch

/-- A pattern that is compiled for both cases matches equally much of two texts
that differ only in the case of letters that the pattern keeps. -/
theorem matchUnits_eq_of_sameLetters
    (apart : CharacterData.SurrogatesApart)
    (latin : CharacterData.Latin)
    (pattern : Pattern)
    (normal : pattern.Normal)
    (text other : String)
    (same : List.Forall₂
      (fun character otherCharacter : Char =>
        SameLetter (fun letter => pattern.KeepsCase letter)
          character.toNat otherCharacter.toNat)
      text.toList other.toList) :
    (Matcher.ofPattern pattern true).matchUnits (Text.encode text) =
      (Matcher.ofPattern pattern true).matchUnits (Text.encode other) := by
  have normalOnly : ∀ terminal ∈ [(⟨pattern, false⟩ : Terminal)],
      terminal.pattern.Normal :=
    List.forall_mem_singleton.mpr normal
  have munch := Automaton.maximalMunch_build apart normalOnly true
  have sameAnswer := ((munch (Text.encode text)).sameUnits latin normalOnly
    (fun letter keeps => List.forall_mem_singleton.mpr keeps)
    (.encode same)).unique (munch (Text.encode other))
  unfold Matcher.matchUnits Matcher.ofPattern
  rw [sameAnswer]

/-- A set is matched by one character exactly if its closure contains it. -/
theorem spans_set_iff
    {set : CharSet}
    {point length : Nat}
    (scalar : IsScalar point) :
    Spans true (Text.encodePoint point) (.set set) length ↔
      length = (Text.encodePoint point).length ∧
        set.toAnyCase.contains point = true := by
  rw [Spans, Pattern.Matches]
  constructor
  · rintro ⟨within, target, targetScalar, contained, split⟩
    have decoded := Text.decodeCharacters_encodePoint scalar []
    rw [List.append_nil, split,
      Text.decodeCharacters_encodePoint targetScalar] at decoded
    have sameCharacter := congrArg Char.toNat (List.cons.inj decoded).1
    rw [targetScalar.toNat_ofNat, scalar.toNat_ofNat] at sameCharacter
    subst sameCharacter
    have leftOver := congrArg List.length split
    rw [List.length_append, List.length_drop] at leftOver
    exact ⟨by omega, contained⟩
  · rintro ⟨rfl, contained⟩
    exact ⟨Nat.le_refl _, point, scalar, contained, by
      rw [List.drop_length, List.append_nil]⟩

theorem matchUnits_set
    {set : CharSet}
    {point : Nat}
    (apart : CharacterData.SurrogatesApart)
    (normal : set.Normal)
    (scalar : IsScalar point) :
    (Matcher.ofPattern (.set set) true).matchUnits (Text.encodePoint point) =
      if set.toAnyCase.contains point = true then
        some (Text.encodePoint point).length
      else
        none := by
  have normalOnly : ∀ terminal ∈ [(⟨.set set, false⟩ : Terminal)],
      terminal.pattern.Normal :=
    List.forall_mem_singleton.mpr (by rw [Pattern.Normal]; exact normal)
  have munch := Automaton.maximalMunch_build apart normalOnly true
    (Text.encodePoint point)
  have answer : MaximalMunch true (Text.encodePoint point) [⟨.set set, false⟩]
      (if set.toAnyCase.contains point = true then
        .found 0 (Text.encodePoint point).length
      else
        .noMatch) := by
    split
    · next contained =>
        refine ⟨⟨_, rfl, (spans_set_iff scalar).mpr ⟨rfl, contained⟩,
          fun isLazy => absurd isLazy Bool.false_ne_true⟩, ?_⟩
        rintro other otherLength ⟨terminal, isTerminal, spans, -⟩
        obtain rfl := List.mem_singleton.mp (List.mem_of_getElem? isTerminal)
        exact .inr ⟨((spans_set_iff scalar).mp spans).1, Nat.zero_le _⟩
    · next missing =>
        rintro other otherLength ⟨terminal, isTerminal, spans, -⟩
        obtain rfl := List.mem_singleton.mp (List.mem_of_getElem? isTerminal)
        exact missing ((spans_set_iff scalar).mp spans).2
  unfold Matcher.matchUnits Matcher.ofPattern
  rw [munch.unique answer]
  by_cases contained : set.toAnyCase.contains point = true
  · simp [contained]
  · simp [contained]

end Lexical

/-- The case mappings of Unicode, with the letters of ASCII and the surrogates
as the only assigned characters. -/
@[reducible] def CharacterData.latin : CharacterData where
  category := CharacterData.ascii.category
  counterparts := Unicode.counterparts

theorem CharacterData.latin_latin : @CharacterData.Latin .latin := by
  refine @CharacterData.Latin.mk .latin rfl fun letter isLetter => ?_
  have listed : ∀ letter ∈ List.range' 0x61 26,
      Categories.casedLetters.contains
          (CharacterData.ascii.category letter) = true ∧
        Categories.casedLetters.contains
          (CharacterData.ascii.category (capital letter)) = true := by
    decide
  obtain ⟨above, below⟩ := isLetter
  exact listed letter (List.mem_range'_1.mpr ⟨above, by omega⟩)

namespace Lexical

/-- The Kelvin sign matches `k` but not `K`. -/
theorem kelvinSign_matches_one_case :
    List.Forall₂
        (fun character otherCharacter : Char =>
          SameLetter (fun _ => True) character.toNat otherCharacter.toNat)
        "k".toList "K".toList ∧
      (CharSet.single 0x212A).Normal ∧
      @Matcher.matchUnits .latin
          (@Matcher.ofPattern .latin (.set (CharSet.single 0x212A)) true)
          (Text.encode "k") = some 1 ∧
      @Matcher.matchUnits .latin
          (@Matcher.ofPattern .latin (.set (CharSet.single 0x212A)) true)
          (Text.encode "K") = none := by
  let _ : CharacterData := .latin
  have apart : CharacterData.SurrogatesApart :=
    CharacterData.surrogatesApart_ascii
  have normal := CharSet.normal_single 0x212A
  have lower : (CharSet.single 0x212A).toAnyCase.contains 0x6B = true :=
    CharSet.contains_toAnyCase_single.mpr (.inr (by decide +kernel))
  have upper : ¬ (CharSet.single 0x212A).toAnyCase.contains 0x4B = true :=
    fun contained => absurd (CharSet.contains_toAnyCase_single.mp contained)
      (by decide +kernel)
  refine ⟨.cons (.lower ⟨by decide, by decide⟩ trivial) .nil, normal, ?_, ?_⟩
  · have answer := @matchUnits_set .latin _ 0x6B apart normal
      ⟨by decide, by decide⟩
    rw [if_pos lower] at answer
    exact answer
  · have answer := @matchUnits_set .latin _ 0x4B apart normal
      ⟨by decide, by decide⟩
    rw [if_neg upper] at answer
    exact answer

/-- An `o`, then a `k` or the Kelvin sign, and no `x` after them. -/
def okWord : Pattern :=
  .concat [.text "o",
    .set (.ofRanges ⟨[⟨0x6B, 0x6B⟩, ⟨0x212A, 0x212A⟩]⟩),
    .lookahead (.text "x") true]

theorem matchUnits_eq_of_sameLetters_okWord :
    @CharacterData.SurrogatesApart .latin ∧ @CharacterData.Latin .latin ∧
      okWord.Normal ∧
      List.Forall₂
        (fun character otherCharacter : Char =>
          SameLetter (fun letter => @Pattern.KeepsCase .latin letter okWord)
            character.toNat otherCharacter.toNat)
        "ok".toList "OK".toList ∧
      @Matcher.matchUnits .latin (@Matcher.ofPattern .latin okWord true)
          (Text.encode "ok") =
        @Matcher.matchUnits .latin (@Matcher.ofPattern .latin okWord true)
          (Text.encode "OK") := by
  let _ : CharacterData := .latin
  have apart : CharacterData.SurrogatesApart :=
    CharacterData.surrogatesApart_ascii
  have normal : okWord.Normal := by
    simp only [okWord, Pattern.Normal, Pattern.AllNormal, CharSet.ofRanges,
      CharSet.Normal, true_and, and_true]
    exact ⟨by decide, by decide⟩
  have keepsO : okWord.KeepsCase 0x6F :=
    okWord.keepsCase_of_no_stray (by simp [strayLetters])
  have keepsK : okWord.KeepsCase 0x6B := by
    have ofText {content : String}
        (inAscii : ∀ character ∈ content.toList, character.toNat < 0x80) :
        (Pattern.text content).KeepsCase 0x6B := by
      rw [Pattern.KeepsCase]
      exact fun character member =>
        CharSet.keepsCase_single (inAscii character member)
    rw [okWord, Pattern.KeepsCase, Pattern.allKeepCase_iff]
    simp only [List.forall_mem_cons]
    refine ⟨ofText (by simp), ?_, ?_,
      fun _ member => absurd member List.not_mem_nil⟩
    · rw [Pattern.KeepsCase]
      exact fun _ _ _ => .inl (by decide)
    · rw [Pattern.KeepsCase]
      exact ofText (by simp)
  have same : List.Forall₂
      (fun character otherCharacter : Char =>
        SameLetter (fun letter => okWord.KeepsCase letter)
          character.toNat otherCharacter.toNat)
      "ok".toList "OK".toList :=
    .cons (.lower ⟨by decide, by decide⟩ keepsO)
      (.cons (.lower ⟨by decide, by decide⟩ keepsK) .nil)
  exact ⟨apart, CharacterData.latin_latin, normal, same,
    matchUnits_eq_of_sameLetters apart CharacterData.latin_latin okWord normal
      "ok" "OK" same⟩

end Lexical
end ParserGenerator
