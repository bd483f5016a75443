import Mathlib.Logic.Relation
import ParserGenerator.Proofs.Lexical.Paths
import ParserGenerator.Proofs.Lexical.Characters

/-!
# Spans that can be computed

What a pattern may leave of a text can be listed: a character takes away its
units, and a repetition goes on as long as something is taken away. So it can
be decided without any automaton which lengths a pattern spans, which of them a
terminal contributes, and what the longest match is.
-/

namespace ParserGenerator

/-! ## The first character -/

namespace Text

/-- The code point of the first character of some units, and the units after
it. -/
def front? : List CodeUnit → Option (Nat × List CodeUnit)
  | [] => none
  | [unit] =>
      if isSurrogate unit.toNat then none else some (unit.toNat, [])
  | unit :: next :: rest =>
      if isHighSurrogate unit.toNat && isLowSurrogate next.toNat then
        some (joinSurrogates unit.toNat next.toNat, rest)
      else if isSurrogate unit.toNat then
        none
      else
        some (unit.toNat, next :: rest)

theorem front?_unit
    {unit : CodeUnit}
    (whole : isSurrogate unit.toNat = false)
    (rest : List CodeUnit) :
    front? (unit :: rest) = some (unit.toNat, rest) := by
  have notHigh : isHighSurrogate unit.toNat = false :=
    isHighSurrogate_eq_false whole
  cases rest <;> simp [front?, whole, notHigh]

theorem front?_pair
    {high low : CodeUnit}
    (isHigh : isHighSurrogate high.toNat = true)
    (isLow : isLowSurrogate low.toNat = true)
    (rest : List CodeUnit) :
    front? (high :: low :: rest) =
      some (joinSurrogates high.toNat low.toNat, rest) := by
  simp [front?, isHigh, isLow]

/-- The units of a pair are those of the code point that it is joined to. -/
theorem encodePoint_joinSurrogates
    {high low : CodeUnit}
    (isHigh : isHighSurrogate high.toNat = true)
    (isLow : isLowSurrogate low.toNat = true) :
    IsScalar (joinSurrogates high.toNat low.toNat) ∧
      encodePoint (joinSurrogates high.toNat low.toNat) = [high, low] := by
  rw [isHighSurrogate_iff] at isHigh
  rw [isLowSurrogate_iff] at isLow
  have highBounds : 0xD800 ≤ high.toNat ∧ high.toNat < 0xDC00 := isHigh
  have lowBounds : 0xDC00 ≤ low.toNat ∧ low.toNat ≤ 0xDFFF := isLow
  have joined : joinSurrogates high.toNat low.toNat =
    0x10000 + (high.toNat - 0xD800) * 0x400 + (low.toNat - 0xDC00) := rfl
  generalize joinSurrogates high.toNat low.toNat = point at joined
  have above : supplementaryFirst ≤ point := by
    show 0x10000 ≤ point
    omega
  refine ⟨isScalar_iff.mpr (.inr ?_), ?_⟩
  · exact ⟨by omega, by omega⟩
  · apply Lexical.encodePoint_supplementary above
    · show 0xD800 + (point - 0x10000) / 0x400 = high.toNat
      omega
    · show 0xDC00 + (point - 0x10000) % 0x400 = low.toNat
      omega

/-- The first character is the only one whose units are at the front. -/
theorem front?_eq_some_iff
    {before after : List CodeUnit}
    {point : Nat} :
    front? before = some (point, after) ↔
      IsScalar point ∧ before = encodePoint point ++ after := by
  constructor
  · intro found
    have units (unit : CodeUnit) (whole : isSurrogate unit.toNat = false) :
        IsScalar unit.toNat ∧ encodePoint unit.toNat = [unit] := by
      have bound : unit.toNat < 0x10000 := unit.toNat_lt
      have greatest : maxCodePoint = 0x10FFFF := rfl
      exact ⟨⟨by omega, whole⟩, Lexical.encodePoint_toNat unit⟩
    match before with
    | [] => cases found
    | [unit] =>
        simp only [front?, Option.ite_none_left_eq_some, Option.some.injEq,
          Prod.mk.injEq, Bool.not_eq_true] at found
        obtain ⟨whole, rfl, rfl⟩ := found
        obtain ⟨scalar, isUnit⟩ := units unit whole
        exact ⟨scalar, by rw [isUnit, List.append_nil]⟩
    | unit :: next :: rest =>
        rw [front?] at found
        split at found
        · next isPair =>
            obtain ⟨isHigh, isLow⟩ := Bool.and_eq_true_iff.mp isPair
            obtain ⟨rfl, rfl⟩ := Prod.mk.inj (Option.some.inj found)
            obtain ⟨scalar, isUnits⟩ := encodePoint_joinSurrogates isHigh isLow
            exact ⟨scalar, by rw [isUnits]; rfl⟩
        · split at found
          · cases found
          · next whole =>
              obtain ⟨rfl, rfl⟩ := Prod.mk.inj (Option.some.inj found)
              obtain ⟨scalar, isUnit⟩ := units unit (by simpa using whole)
              exact ⟨scalar, by rw [isUnit]; rfl⟩
  · rintro ⟨⟨known, outside⟩, rfl⟩
    by_cases isUnit : point < supplementaryFirst
    · have same : point.toUInt16.toNat = point := Lexical.toNat_toUInt16 isUnit
      rw [encodePoint, if_pos isUnit, List.singleton_append,
        front?_unit (same.symm ▸ outside), same]
    · obtain ⟨high, low, units, isHigh, isLow, joined⟩ :=
        exists_pair_of_supplementary (Nat.not_lt.mp isUnit) known
      rw [units, List.cons_append, List.singleton_append,
        front?_pair isHigh isLow, joined]

end Text

variable [CharacterData]

/-- What is left after a character of a set. -/
def CharSet.remainders (set : CharSet) (before : List CodeUnit) :
    List (List CodeUnit) :=
  match Text.front? before with
  | some (point, after) => if set.contains point then [after] else []
  | none => []

theorem CharSet.mem_remainders
    {set : CharSet}
    {before after : List CodeUnit} :
    after ∈ set.remainders before ↔ set.Reads before after := by
  have reads : set.Reads before after ↔ ∃ point,
      Text.front? before = some (point, after) ∧ set.contains point = true := by
    simp only [Reads, Text.front?_eq_some_iff, and_assoc]
    exact exists_congr fun _ => and_congr_right fun _ => and_comm
  rw [reads, remainders]
  split
  · next point rest isFront =>
      simp only [isFront, List.mem_ite_nil_right, List.mem_singleton,
        Option.some.injEq, Prod.mk.injEq]
      constructor
      · rintro ⟨member, rfl⟩
        exact ⟨point, ⟨rfl, rfl⟩, member⟩
      · rintro ⟨_, ⟨rfl, rfl⟩, member⟩
        exact ⟨member, rfl⟩
  · next isFront => simp [isFront]

/-! ## Repetitions -/

/-- What is left after any number of rounds, each of which has to take
something away. -/
def roundRemainders (round : List CodeUnit → List (List CodeUnit)) :
    (fuel : Nat) → List CodeUnit → List (List CodeUnit)
  | 0, before => [before]
  | fuel + 1, before =>
      before :: ((round before).filter (·.length < before.length)).flatMap
        (roundRemainders round fuel)

omit [CharacterData] in
/-- A round for each unit is enough. -/
theorem mem_roundRemainders
    {round : List CodeUnit → List (List CodeUnit)}
    {relation : List CodeUnit → List CodeUnit → Prop}
    (mem_round : ∀ {before after},
      after ∈ round before ↔ relation before after)
    (shortens : ∀ {before after}, relation before after → after <:+ before)
    {fuel : Nat}
    {before after : List CodeUnit}
    (enough : before.length ≤ fuel) :
    after ∈ roundRemainders round fuel before ↔
      Relation.ReflTransGen relation before after := by
  induction fuel generalizing before with
  | zero =>
      obtain rfl := List.length_eq_zero_iff.mp (Nat.le_zero.mp enough)
      rw [roundRemainders, List.mem_singleton]
      constructor
      · rintro rfl
        exact .refl
      · intro rounds
        induction rounds with
        | refl => rfl
        | tail _ last inductionHypothesis =>
            rw [inductionHypothesis] at last
            exact List.suffix_nil.mp (shortens last)
  | succ fuel inductionHypothesis =>
      simp only [roundRemainders, List.mem_cons, List.mem_flatMap,
        List.mem_filter, decide_eq_true_eq, mem_round]
      constructor
      · rintro (rfl | ⟨middle, ⟨first, shorter⟩, member⟩)
        · exact .refl
        · exact .head first ((inductionHypothesis (by omega)).mp member)
      · intro rounds
        induction rounds using Relation.ReflTransGen.head_induction_on with
        | refl => exact .inl rfl
        | @head before middle first rest others =>
            have isSuffix := shortens first
            by_cases shorter : middle.length < before.length
            · exact .inr ⟨middle, ⟨first, shorter⟩,
                (inductionHypothesis (by omega)).mpr rest⟩
            · obtain rfl := isSuffix.eq_of_length_le (Nat.not_lt.mp shorter)
              exact others enough

/-! ## Patterns -/

namespace Pattern

/-- What is left after the given characters. -/
def spellingRemainders (anyCase : Bool) :
    List Char → List CodeUnit → List (List CodeUnit)
  | [], before => [before]
  | character :: rest, before =>
      (((CharSet.single character.toNat).inCase anyCase).remainders
        before).flatMap (spellingRemainders anyCase rest)

mutual

/-- What a pattern may leave of a text when it has matched at the front. -/
def remainders (anyCase : Bool) :
    Pattern → List CodeUnit → List (List CodeUnit)
  | text content, before => spellingRemainders anyCase content.toList before
  | set characters, before => (characters.inCase anyCase).remainders before
  | concat items, before => remaindersInTurn anyCase items before
  | alternate items, before => remaindersOfOne anyCase items before
  | .repeat item .zeroOrMore, before =>
      roundRemainders (item.remainders anyCase) before.length before
  | .repeat item .oneOrMore, before =>
      (item.remainders anyCase before).flatMap fun middle =>
        roundRemainders (item.remainders anyCase) middle.length middle
  | .repeat item .optional, before => before :: item.remainders anyCase before
  | lookahead condition negated, before =>
      if (condition.remainders anyCase before).isEmpty = negated then
        [before]
      else
        []

/-- What patterns one after the other may leave. -/
def remaindersInTurn (anyCase : Bool) :
    List Pattern → List CodeUnit → List (List CodeUnit)
  | [], before => [before]
  | item :: rest, before =>
      (item.remainders anyCase before).flatMap
        (remaindersInTurn anyCase rest)

/-- What one of some patterns may leave. -/
def remaindersOfOne (anyCase : Bool) :
    List Pattern → List CodeUnit → List (List CodeUnit)
  | [], _ => []
  | item :: rest, before =>
      item.remainders anyCase before ++ remaindersOfOne anyCase rest before

end

variable {anyCase : Bool} {before after : List CodeUnit}

theorem mem_spellingRemainders {characters : List Char} :
    after ∈ spellingRemainders anyCase characters before ↔
      Spells anyCase characters before after := by
  induction characters generalizing before with
  | nil => simp [spellingRemainders, Spells, eq_comm]
  | cons character rest inductionHypothesis =>
      simp only [spellingRemainders, Spells, List.mem_flatMap,
        CharSet.mem_remainders, inductionHypothesis]

/-- A pattern takes away the front of a text. -/
theorem suffix_of_matches
    {pattern : Pattern}
    (isMatch : pattern.Matches anyCase before after) :
    after <:+ before := by
  obtain ⟨points, starts, -⟩ := consumes_of_matches isMatch
  exact ⟨_, starts.units.symm⟩

section InTurn

variable {items : List Pattern}

theorem mem_remaindersInTurn
    (each : ∀ item ∈ items, ∀ {before after},
      after ∈ item.remainders anyCase before ↔
        item.Matches anyCase before after) :
    after ∈ remaindersInTurn anyCase items before ↔
      MatchesInTurn anyCase items before after := by
  induction items generalizing before with
  | nil => simp [remaindersInTurn, MatchesInTurn, eq_comm]
  | cons item rest inductionHypothesis =>
      obtain ⟨first, others⟩ := List.forall_mem_cons.mp each
      simp only [remaindersInTurn, MatchesInTurn, List.mem_flatMap, first,
        inductionHypothesis others]

theorem mem_remaindersOfOne
    (each : ∀ item ∈ items, ∀ {before after},
      after ∈ item.remainders anyCase before ↔
        item.Matches anyCase before after) :
    after ∈ remaindersOfOne anyCase items before ↔
      MatchesOne anyCase items before after := by
  induction items with
  | nil => simp [remaindersOfOne, MatchesOne]
  | cons item rest inductionHypothesis =>
      obtain ⟨first, others⟩ := List.forall_mem_cons.mp each
      simp only [remaindersOfOne, MatchesOne, List.mem_append, first,
        inductionHypothesis others]

end InTurn

/-- What a pattern may leave is listed. -/
theorem mem_remainders {pattern : Pattern} :
    after ∈ pattern.remainders anyCase before ↔
      pattern.Matches anyCase before after := by
  induction pattern using Pattern.induction generalizing before after with
  | text content => rw [remainders, Matches, mem_spellingRemainders]
  | set characters => rw [remainders, Matches, CharSet.mem_remainders]
  | concat items inductionHypothesis =>
      rw [remainders, Matches]
      exact mem_remaindersInTurn fun item member => inductionHypothesis item member
  | alternate items inductionHypothesis =>
      rw [remainders, Matches]
      exact mem_remaindersOfOne fun item member => inductionHypothesis item member
  | repeated item repetition inductionHypothesis =>
      have mem_rounds (before : List CodeUnit) {after : List CodeUnit} :=
        @mem_roundRemainders (item.remainders anyCase) (item.Matches anyCase)
          inductionHypothesis suffix_of_matches before.length before after
          (Nat.le_refl _)
      cases repetition with
      | zeroOrMore => rw [remainders, Matches, mem_rounds]
      | oneOrMore =>
          rw [remainders, Matches, Relation.TransGen.head'_iff]
          simp only [List.mem_flatMap, inductionHypothesis, mem_rounds]
      | optional =>
          rw [remainders, Matches, Relation.reflGen_iff, List.mem_cons,
            inductionHypothesis]
  | lookahead condition negated inductionHypothesis =>
      have holds : (∃ rest, condition.Matches anyCase before rest) ↔
          (condition.remainders anyCase before).isEmpty = false := by
        simp only [← inductionHypothesis, List.isEmpty_eq_false_iff_exists_mem]
      rw [remainders, Matches, holds, List.mem_ite_nil_right,
        List.mem_singleton, eq_comm (a := after), and_comm]
      refine and_congr_right fun _ => ?_
      cases (condition.remainders anyCase before).isEmpty <;>
        cases negated <;> simp

end Pattern

/-! ## The longest match -/

namespace Lexical

variable {anyCase : Bool} {input : List CodeUnit}

/-- The lengths that a pattern spans. -/
def spanLengths (anyCase : Bool) (input : List CodeUnit) (pattern : Pattern) :
    List Nat :=
  (pattern.remainders anyCase input).map (input.length - ·.length)

theorem mem_spanLengths
    {pattern : Pattern}
    {length : Nat} :
    length ∈ spanLengths anyCase input pattern ↔
      Spans anyCase input pattern length := by
  simp only [spanLengths, List.mem_map, Pattern.mem_remainders]
  constructor
  · rintro ⟨after, isMatch, rfl⟩
    have isRest := List.suffix_iff_eq_drop.mp (Pattern.suffix_of_matches isMatch)
    exact ⟨Nat.sub_le _ _, isRest ▸ isMatch⟩
  · rintro ⟨within, isMatch⟩
    refine ⟨_, isMatch, ?_⟩
    rw [List.length_drop, Nat.sub_sub_self within]

/-- The terminals with the lengths that they contribute. -/
def contributions (anyCase : Bool) (input : List CodeUnit)
    (terminals : List Terminal) : List (Nat × Nat) :=
  terminals.zipIdx.flatMap fun (terminal, index) =>
    let lengths := spanLengths anyCase input terminal.pattern
    let offered := lengths.filter fun length =>
      !terminal.isLazy || lengths.all (length ≤ ·)
    offered.map fun length => (index, length)

theorem mem_contributions
    {terminals : List Terminal}
    {index length : Nat} :
    (index, length) ∈ contributions anyCase input terminals ↔
      Contributes anyCase input terminals index length := by
  have shortest (pattern : Pattern) :
      (∀ shorter < length, ¬ Spans anyCase input pattern shorter) ↔
        ∀ other, Spans anyCase input pattern other → length ≤ other :=
    forall_congr' fun other => by rw [← Nat.not_lt]; exact imp_not_comm
  simp only [contributions, List.mem_flatMap, Prod.exists,
    List.mem_zipIdx_iff_getElem?, List.mem_map, List.mem_filter,
    mem_spanLengths, Bool.or_eq_true, Bool.not_eq_true', List.all_eq_true,
    decide_eq_true_eq, Prod.mk.injEq, Contributes, shortest]
  constructor
  · rintro ⟨terminal, _, isTerminal, _, ⟨spans, offered⟩, rfl, rfl⟩
    refine ⟨terminal, isTerminal, spans, fun isLazy => ?_⟩
    exact offered.resolve_left (ne_false_of_eq_true isLazy)
  · rintro ⟨terminal, isTerminal, spans, offered⟩
    refine ⟨terminal, index, isTerminal, length, ⟨spans, ?_⟩, rfl, rfl⟩
    cases isLazy : terminal.isLazy with
    | false => exact .inl rfl
    | true => exact .inr (offered isLazy)

/-- The longest match is a contribution that no other one surpasses. -/
instance (terminals : List Terminal) :
    (answer : Match) → Decidable (MaximalMunch anyCase input terminals answer)
  | .found index length =>
      decidable_of_iff
        ((index, length) ∈ contributions anyCase input terminals ∧
          ∀ other ∈ contributions anyCase input terminals,
            other.2 < length ∨ other.2 = length ∧ index ≤ other.1)
        (by simp only [Prod.forall, mem_contributions]; rfl)
  | .noMatch =>
      decidable_of_iff
        (∀ other, other ∉ contributions anyCase input terminals)
        (by simp only [Prod.forall, mem_contributions]; rfl)
  | .needMore => isFalse id

end Lexical
end ParserGenerator
