import Mathlib
import ParserGenerator.Proofs.Grammar.Declaring
import ParserGenerator.Proofs.Table.First

/-!
# First sets and derivations

What symbols start with and whether they yield nothing, said in terms of
derivations. The passes over the productions end with the tables that hold just
that for each symbol of a grammar, and for each sequence of its symbols.
-/

namespace ParserGenerator
namespace Grammar

variable {grammar : Grammar} {symbols : List SymbolId} {first : SymbolId}

theorem nullable_iff_derives :
    grammar.Nullable symbols ↔ grammar.Derives symbols [] := by
  rw [derives_iff_yields (by simp)]
  exact ⟨Nullable.yields, fun yields => yields.nullable rfl⟩

namespace Starts

/-- What two sequences start with together, the first one starts with, or it
yields nothing and the second one does. -/
theorem split
    {left right : List SymbolId}
    (starts : grammar.Starts (left ++ right) first) :
    grammar.Starts left first ∨
      grammar.Nullable left ∧ grammar.Starts right first := by
  induction left with
  | nil => exact .inr ⟨.nil, starts⟩
  | cons symbol left inductionHypothesis =>
      cases starts with
      | here isTerminal => exact .inl (.here isTerminal)
      | inside member body => exact .inl (.inside member body)
      | later nullable rest =>
          rcases inductionHypothesis rest with inLeft | ⟨leftNullable, inRight⟩
          · exact .inl (.later nullable inLeft)
          · exact .inr ⟨nullable.append leftNullable, inRight⟩

/-- Before a replacement symbols start with what they start with after it. -/
theorem of_rewrites
    {before after : List SymbolId}
    (rewrites : grammar.Rewrites before after)
    (starts : grammar.Starts after first) :
    grammar.Starts before first := by
  obtain @⟨rule, member, left, right⟩ := rewrites
  rw [List.append_assoc] at starts
  rcases starts.split with inLeft | ⟨leftNullable, inRest⟩
  · exact inLeft.append_right _
  · apply leftNullable.append_starts
    rcases inRest.split with inBody | ⟨bodyNullable, inRight⟩
    · exact .inside member inBody
    · exact .later (.production member bodyNullable .nil) inRight

/-- Some derivation brings a symbol to the front. -/
theorem exists_derives (starts : grammar.Starts symbols first) :
    ∃ rest, grammar.Derives symbols (first :: rest) := by
  induction starts with
  | @here symbol symbols _ => exact ⟨symbols, .refl⟩
  | @inside rule symbols first member _ inductionHypothesis =>
      obtain ⟨rest, derives⟩ := inductionHypothesis
      have step : grammar.Rewrites (rule.head :: symbols)
          (rule.body ++ symbols) := Rewrites.mk member [] symbols
      have onward := derives.context [] symbols
      exact ⟨rest ++ symbols, .head step onward⟩
  | @later symbol first symbols nullable _ inductionHypothesis =>
      obtain ⟨rest, derives⟩ := inductionHypothesis
      have vanishes : grammar.Derives (symbol :: symbols) symbols :=
        (nullable_iff_derives.mp nullable).context [] symbols
      exact ⟨rest, vanishes.trans derives⟩

end Starts

/-- Symbols start with those terminals and markers that derivations bring to
the front. -/
theorem starts_iff_derives :
    grammar.Starts symbols first ↔
      grammar.isNonTerminal first = false ∧
        ∃ rest, grammar.Derives symbols (first :: rest) := by
  constructor
  · intro starts
    refine ⟨?_, starts.exists_derives⟩
    induction starts with
    | here isTerminal => exact isTerminal
    | inside _ _ inductionHypothesis => exact inductionHypothesis
    | later _ _ inductionHypothesis => exact inductionHypothesis
  · rintro ⟨isTerminal, rest, derivation⟩
    induction derivation using Relation.ReflTransGen.head_induction_on with
    | refl => exact .here isTerminal
    | head step _ inductionHypothesis =>
        exact .of_rewrites step inductionHypothesis

end Grammar

namespace Table
namespace FirstSets

variable {grammar : Grammar} {symbol first : SymbolId}

theorem isNullable_ofGrammar_iff (wellFormed : grammar.WellFormed) :
    (ofGrammar grammar).isNullable symbol = true ↔
      grammar.Derives [symbol] [] := by
  rw [← Grammar.nullable_iff_derives, ← leading_ofGrammar_snd wellFormed]
  simp

theorem mem_firstOf_ofGrammar_iff
    (wellFormed : grammar.WellFormed)
    (known : symbol < grammar.symbols.size) :
    first ∈ (ofGrammar grammar).firstOf symbol ↔
      grammar.isNonTerminal first = false ∧
        ∃ rest, grammar.Derives [symbol] (first :: rest) := by
  rw [← Grammar.starts_iff_derives,
    ← mem_leading_ofGrammar wellFormed (List.forall_mem_singleton.mpr known)]
  simp

/-- For any grammar the passes over its productions end by themselves. Then a
symbol is found nullable if and only if it derives nothing, and its first set
holds just the terminals and markers that its derivations bring to the front.
What a sequence followed by one of `tail` is found to start with are the
terminals and markers that its derivations bring to the front, and those of
`tail` if it derives nothing. -/
theorem ofGrammar_derives
    (grammar : Grammar)
    (declared : grammar.Declared) :
    SettlesAt (pass grammar) (initial grammar) (ofGrammar grammar) ∧
      (∀ symbol < grammar.symbols.size,
        ((ofGrammar grammar).isNullable symbol = true ↔
          grammar.Derives [symbol] []) ∧
        ∀ first, first ∈ (ofGrammar grammar).firstOf symbol ↔
          grammar.isNonTerminal first = false ∧
            ∃ rest, grammar.Derives [symbol] (first :: rest)) ∧
      ∀ symbols : List SymbolId,
        (∀ symbol ∈ symbols, symbol < grammar.symbols.size) →
          ∀ (tail : SymbolSet) (first : SymbolId),
            first ∈ (ofGrammar grammar).leadingBefore symbols tail ↔
              (grammar.isNonTerminal first = false ∧
                ∃ rest, grammar.Derives symbols (first :: rest)) ∨
              grammar.Derives symbols [] ∧ first ∈ tail := by
  have wellFormed := declared.wellFormed
  refine ⟨settlesAt_settle (pass_ofGrammar grammar), ?_, ?_⟩
  · intro symbol known
    exact ⟨isNullable_ofGrammar_iff wellFormed,
      fun first => mem_firstOf_ofGrammar_iff wellFormed known⟩
  · intro symbols known tail first
    rw [mem_leadingBefore, mem_leading_ofGrammar wellFormed known,
      leading_ofGrammar_snd wellFormed, Grammar.starts_iff_derives,
      Grammar.nullable_iff_derives]

/-- A grammar whose goal comes back behind a symbol that yields nothing, beside
a non-terminal that has no end. -/
def hiddenRecursionGrammar : Grammar :=
  ⟨false,
    #[⟨"$end", .endOfSource⟩, ⟨"$nl", .lineBreak⟩, ⟨"$nonl", .noLineBreak⟩,
      ⟨"a", .terminal (.text "a") ⟨false, false⟩⟩,
      ⟨"b", .terminal (.text "b") ⟨false, false⟩⟩,
      ⟨"S", .nonTerminal⟩, ⟨"A", .nonTerminal⟩, ⟨"Y", .nonTerminal⟩],
    #[⟨"S:1", 5, [6, 5, 4], [], [], []⟩, ⟨"S:2", 5, [], [], [], []⟩,
      ⟨"A:1", 6, [], [], [], []⟩, ⟨"A:2", 6, [7, 3], [], [], []⟩,
      ⟨"Y:1", 7, [7, 4], [], [], []⟩]⟩

theorem declared_hiddenRecursionGrammar : hiddenRecursionGrammar.Declared :=
  (Grammar.Declared.empty false).declareAll
    [.terminal "a" (.text "a") ⟨false, false⟩,
      .terminal "b" (.text "b") ⟨false, false⟩,
      .nonTerminal "S", .nonTerminal "A", .nonTerminal "Y",
      .rule 5 "S:1" "A S b", .rule 5 "S:2" "", .rule 6 "A:1" "",
      .rule 6 "A:2" "Y a", .rule 7 "Y:1" "Y b"]
    (by cbv)

/-- Only `b` comes first in the goal, and nothing does in the non-terminal that
has no end. -/
theorem ofGrammar_derives_hiddenRecursion :
    hiddenRecursionGrammar.Declared ∧
      (∀ symbol ∈ [5, 7], symbol < hiddenRecursionGrammar.symbols.size) ∧
      (∃ rest, hiddenRecursionGrammar.Derives [5] (4 :: rest)) ∧
      (¬ ∃ rest, hiddenRecursionGrammar.Derives [7] (4 :: rest)) ∧
      4 ∈ (ofGrammar hiddenRecursionGrammar).leadingBefore [5, 7] [0] ∧
      ¬ hiddenRecursionGrammar.Derives [5, 7] [] := by
  obtain ⟨-, ofSymbol, ofSequence⟩ :=
    ofGrammar_derives hiddenRecursionGrammar declared_hiddenRecursionGrammar
  have known : ∀ symbol ∈ [5, 7],
      symbol < hiddenRecursionGrammar.symbols.size := by decide
  have inGoal := ((ofSymbol 5 (by decide)).2 4).mp (by decide +kernel)
  refine ⟨declared_hiddenRecursionGrammar, known, inGoal.2, ?_, ?_, ?_⟩
  · rintro ⟨rest, derives⟩
    exact absurd (((ofSymbol 7 (by decide)).2 4).mpr ⟨rfl, rest, derives⟩)
      (by decide +kernel)
  · decide +kernel
  · intro derives
    exact absurd ((ofSequence [5, 7] known [0] 0).mpr (.inr ⟨derives, by simp⟩))
      (by decide +kernel)

end FirstSets
end Table
end ParserGenerator
