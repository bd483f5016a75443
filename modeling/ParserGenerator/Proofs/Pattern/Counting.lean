import ParserGenerator.Proofs.Lexical.Matching

/-!
# Counted repetitions

A counted repetition is written out as copies of its operand, those beyond the
least number being optional and nested from the inside out. It matches what the
operand matches one time after the other, as many times as the bounds allow.
-/

namespace ParserGenerator
namespace Pattern

variable [CharacterData] {anyCase : Bool} {pattern : Pattern}
  {before after : List CodeUnit} {count : Nat}

/-- The pattern matches the given number of times, one after the other. -/
def MatchesTimes (anyCase : Bool) (pattern : Pattern) :
    (count : Nat) → (before after : List CodeUnit) → Prop
  | 0, before, after => before = after
  | count + 1, before, after =>
      ∃ middle, pattern.Matches anyCase before middle ∧
        MatchesTimes anyCase pattern count middle after

/-! ## Sequences -/

@[simp] theorem matchesInTurn_nil :
    MatchesInTurn anyCase [] before after ↔ before = after := by
  rw [MatchesInTurn]

@[simp] theorem matchesInTurn_cons {rest : List Pattern} :
    MatchesInTurn anyCase (pattern :: rest) before after ↔
      ∃ middle, pattern.Matches anyCase before middle ∧
        MatchesInTurn anyCase rest middle after := by
  rw [MatchesInTurn]

/-- A sequence of one operand is no exception. -/
theorem matches_sequence {items : List Pattern} :
    (sequence items).Matches anyCase before after ↔
      MatchesInTurn anyCase items before after := by
  match items with
  | [] => rw [sequence, Matches]; simp
  | [item] => simp [sequence]
  | first :: second :: rest => rw [sequence, Matches]; simp

theorem matchesInTurn_append {items others : List Pattern} :
    MatchesInTurn anyCase (items ++ others) before after ↔
      ∃ middle, MatchesInTurn anyCase items before middle ∧
        MatchesInTurn anyCase others middle after := by
  induction items generalizing before with
  | nil => simp
  | cons item rest inductionHypothesis =>
      simp only [List.cons_append, matchesInTurn_cons, inductionHypothesis]
      constructor
      · rintro ⟨first, isFirst, second, isSecond, isRest⟩
        exact ⟨second, ⟨first, isFirst, isSecond⟩, isRest⟩
      · rintro ⟨second, ⟨first, isFirst, isSecond⟩, isRest⟩
        exact ⟨first, isFirst, second, isSecond, isRest⟩

theorem matchesInTurn_replicate :
    MatchesInTurn anyCase (List.replicate count pattern) before after ↔
      MatchesTimes anyCase pattern count before after := by
  induction count generalizing before with
  | zero => simp [MatchesTimes]
  | succ count inductionHypothesis =>
      simp only [List.replicate_succ, matchesInTurn_cons, inductionHypothesis,
        MatchesTimes]

/-! ## Numbers of matches -/

theorem matchesTimes_add {more : Nat} :
    MatchesTimes anyCase pattern (count + more) before after ↔
      ∃ middle, MatchesTimes anyCase pattern count before middle ∧
        MatchesTimes anyCase pattern more middle after := by
  rw [← matchesInTurn_replicate, ← List.replicate_append_replicate,
    matchesInTurn_append]
  simp only [matchesInTurn_replicate]

/-- A repetition without a greatest number matches any number of times. -/
theorem matches_zeroOrMore :
    (Pattern.repeat pattern .zeroOrMore).Matches anyCase before after ↔
      ∃ count, MatchesTimes anyCase pattern count before after := by
  rw [Matches]
  constructor
  · intro repeated
    induction repeated using Relation.ReflTransGen.head_induction_on with
    | refl => exact ⟨0, rfl⟩
    | head first _ inductionHypothesis =>
        obtain ⟨count, others⟩ := inductionHypothesis
        exact ⟨count + 1, _, first, others⟩
  · rintro ⟨count, times⟩
    induction count generalizing before with
    | zero => exact times ▸ .refl
    | succ count inductionHypothesis =>
        obtain ⟨middle, first, others⟩ := times
        exact .head first (inductionHypothesis others)

/-- The outermost optional copy matches nothing, or the operand followed by
what the copies inside match. -/
theorem matchesInTurn_optionalCopies_succ :
    MatchesInTurn anyCase (pattern.optionalCopies (count + 1)).toList
        before after ↔
      before = after ∨ ∃ middle, pattern.Matches anyCase before middle ∧
        MatchesInTurn anyCase (pattern.optionalCopies count).toList
          middle after := by
  rw [optionalCopies]
  cases pattern.optionalCopies count with
  | none => simp [Matches, Relation.reflGen_iff, eq_comm]
  | some tail =>
      simp [Matches, matches_sequence, Relation.reflGen_iff, eq_comm]

/-- Optional copies match any number of times up to their own. -/
theorem matchesInTurn_optionalCopies :
    MatchesInTurn anyCase (pattern.optionalCopies count).toList before after ↔
      ∃ times ≤ count, MatchesTimes anyCase pattern times before after := by
  induction count generalizing before with
  | zero => simp [optionalCopies, MatchesTimes]
  | succ count inductionHypothesis =>
      rw [matchesInTurn_optionalCopies_succ]
      constructor
      · rintro (nothing | ⟨middle, first, others⟩)
        · exact ⟨0, Nat.zero_le _, nothing⟩
        · obtain ⟨times, few, matched⟩ := inductionHypothesis.mp others
          exact ⟨times + 1, Nat.succ_le_succ few, middle, first, matched⟩
      · rintro ⟨times, few, matched⟩
        cases times with
        | zero => exact .inl matched
        | succ times =>
            obtain ⟨middle, first, others⟩ := matched
            exact .inr ⟨middle, first, inductionHypothesis.mpr
              ⟨times, Nat.le_of_succ_le_succ few, others⟩⟩

/-- With `before` ahead, a counted repetition matches the text up to `after` if
and only if its operand matches that text in some number of consecutive parts,
which is at least the least number and at most the greatest one if there is
any. -/
theorem matches_unroll
    (anyCase : Bool)
    (pattern : Pattern)
    (least : Nat)
    (most : Option Nat)
    (inOrder : ∀ greatest ∈ most, least ≤ greatest)
    (before after : List CodeUnit) :
    (pattern.unroll least most).Matches anyCase before after ↔
      ∃ count, least ≤ count ∧ (∀ greatest ∈ most, count ≤ greatest) ∧
        MatchesTimes anyCase pattern count before after := by
  cases most with
  | none =>
      simp only [unroll, matches_sequence, matchesInTurn_append,
        matchesInTurn_replicate, matchesInTurn_cons, matchesInTurn_nil,
        exists_eq_right, matches_zeroOrMore]
      constructor
      · rintro ⟨middle, first, more, others⟩
        exact ⟨least + more, Nat.le_add_right _ _, by simp,
          matchesTimes_add.mpr ⟨middle, first, others⟩⟩
      · rintro ⟨count, enough, -, matched⟩
        obtain ⟨more, rfl⟩ := Nat.exists_eq_add_of_le enough
        obtain ⟨middle, first, others⟩ := matchesTimes_add.mp matched
        exact ⟨middle, first, more, others⟩
  | some greatest =>
      have bounds : least ≤ greatest := inOrder greatest rfl
      simp only [unroll, matches_sequence, matchesInTurn_append,
        matchesInTurn_replicate, matchesInTurn_optionalCopies]
      constructor
      · rintro ⟨middle, first, more, few, others⟩
        refine ⟨least + more, Nat.le_add_right _ _, ?_,
          matchesTimes_add.mpr ⟨middle, first, others⟩⟩
        rintro _ ⟨⟩
        omega
      · rintro ⟨count, enough, few, matched⟩
        obtain ⟨more, rfl⟩ := Nat.exists_eq_add_of_le enough
        have withinBounds := few greatest rfl
        obtain ⟨middle, first, others⟩ := matchesTimes_add.mp matched
        exact ⟨middle, first, more, by omega, others⟩

omit [CharacterData] in
/-- Between two and three times an optional letter matches a single letter. -/
theorem matches_unroll_optionalLetter :
    (∀ greatest ∈ some 3, 2 ≤ greatest) ∧
      @Matches .ascii false
        (unroll (.repeat (.text "a") .optional) 2 (some 3)) [97, 98] [98] := by
  let _ : CharacterData := .ascii
  have inOrder : ∀ greatest ∈ some 3, 2 ≤ greatest := by simp
  have letter : Matches false (.text "a") [97, 98] [98] := by
    rw [Matches]
    exact ⟨[98], ⟨0x61, ⟨by decide, by decide⟩, by decide, rfl⟩, rfl⟩
  have one : Matches false (.repeat (.text "a") .optional) [97, 98] [98] := by
    rw [Matches]
    exact .single letter
  have nothing : Matches false (.repeat (.text "a") .optional) [98] [98] := by
    rw [Matches]
  refine ⟨inOrder, (matches_unroll false (.repeat (.text "a") .optional) 2
    (some 3) inOrder _ _).mpr ?_⟩
  exact ⟨2, Nat.le_refl 2, by simp, [98], one, [98], nothing, rfl⟩

end Pattern
end ParserGenerator
