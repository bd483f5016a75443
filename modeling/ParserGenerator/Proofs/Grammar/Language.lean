import Mathlib.Logic.Relation
import ParserGenerator.Grammar
import ParserGenerator.Proofs.Ascending

/-!
# The language of a grammar

Derivations replace a non-terminal by the body of one of its productions. What
a sequence of symbols yields when nothing is left to be replaced is described
without steps, as is which symbols it can start with and whether it can yield
nothing.
-/

namespace ParserGenerator
namespace Grammar

/-- What declarations guarantee: the structural symbols are there and are of
their own kind, heads are non-terminals, and bodies and overrides mention
declared symbols only. -/
structure WellFormed (grammar : Grammar) : Prop where
  /-- The structural symbols are declared. -/
  structural : 3 ≤ grammar.symbols.size
  /-- The structural symbols are neither non-terminals nor terminals. -/
  markers : ∀ symbol < 3, grammar.isNonTerminal symbol = false ∧
    symbol ∉ grammar.terminals
  /-- The head of a production is a non-terminal. -/
  heads : ∀ rule ∈ grammar.productions, grammar.isNonTerminal rule.head = true
  /-- The symbols of a body are declared. -/
  bodies : ∀ rule ∈ grammar.productions, ∀ symbol ∈ rule.body,
    symbol < grammar.symbols.size
  /-- The symbols that follow by an override are declared and in order. -/
  overrides : ∀ rule ∈ grammar.productions,
    ∀ entry ∈ rule.lookaheadOverrides,
      Ascends entry.2 ∧ ∀ symbol ∈ entry.2, symbol < grammar.symbols.size

theorem lt_size_of_isNonTerminal
    {grammar : Grammar}
    {symbol : SymbolId}
    (nonTerminal : grammar.isNonTerminal symbol = true) :
    symbol < grammar.symbols.size := by
  unfold isNonTerminal at nonTerminal
  cases found : grammar.symbols[symbol]? with
  | none => simp [found] at nonTerminal
  | some declared => exact (Array.getElem?_eq_some_iff.mp found).1

theorem not_isNonTerminal_of_mem_terminals
    {grammar : Grammar}
    {symbol : SymbolId}
    (isTerminal : symbol ∈ grammar.terminals) :
    grammar.isNonTerminal symbol = false := by
  have hasPattern := (List.mem_filter.mp isTerminal).2
  unfold isNonTerminal
  cases found : grammar.symbols[symbol]? with
  | none => rfl
  | some declared =>
      rw [found, Option.bind_some] at hasPattern
      unfold Symbol.pattern? at hasPattern
      rw [Option.map_some, Option.getD_some]
      unfold Symbol.isNonTerminal
      split at hasPattern <;> simp_all

/-- One non-terminal is replaced by the body of one of its productions. -/
inductive Rewrites (grammar : Grammar) :
    List SymbolId → List SymbolId → Prop
  | mk
      {rule : Production}
      (member : rule ∈ grammar.productions)
      (before after : List SymbolId) :
      Rewrites grammar (before ++ rule.head :: after)
        (before ++ rule.body ++ after)

/-- Non-terminals are replaced any number of times. -/
def Derives (grammar : Grammar) : List SymbolId → List SymbolId → Prop :=
  Relation.ReflTransGen grammar.Rewrites

/-- What symbols yield when no non-terminal is left. -/
inductive Yields (grammar : Grammar) : List SymbolId → List SymbolId → Prop
  | nil : Yields grammar [] []
  | terminal
      {symbol : SymbolId}
      {symbols word : List SymbolId}
      (isTerminal : grammar.isNonTerminal symbol = false)
      (rest : Yields grammar symbols word) :
      Yields grammar (symbol :: symbols) (symbol :: word)
  | production
      {rule : Production}
      {symbols first word : List SymbolId}
      (member : rule ∈ grammar.productions)
      (body : Yields grammar rule.body first)
      (rest : Yields grammar symbols word) :
      Yields grammar (rule.head :: symbols) (first ++ word)

/-- Symbols that can yield nothing. -/
inductive Nullable (grammar : Grammar) : List SymbolId → Prop
  | nil : Nullable grammar []
  | production
      {rule : Production}
      {symbols : List SymbolId}
      (member : rule ∈ grammar.productions)
      (body : Nullable grammar rule.body)
      (rest : Nullable grammar symbols) :
      Nullable grammar (rule.head :: symbols)

/-- A symbol that is not a non-terminal can come first when the symbols before
it yield nothing. What comes after it need not yield anything. -/
inductive Starts (grammar : Grammar) : List SymbolId → SymbolId → Prop
  | here
      {symbol : SymbolId}
      {symbols : List SymbolId}
      (isTerminal : grammar.isNonTerminal symbol = false) :
      Starts grammar (symbol :: symbols) symbol
  | inside
      {rule : Production}
      {symbols : List SymbolId}
      {symbol : SymbolId}
      (member : rule ∈ grammar.productions)
      (body : Starts grammar rule.body symbol) :
      Starts grammar (rule.head :: symbols) symbol
  | later
      {first symbol : SymbolId}
      {symbols : List SymbolId}
      (nullable : Nullable grammar [first])
      (rest : Starts grammar symbols symbol) :
      Starts grammar (first :: symbols) symbol

variable {grammar : Grammar}

/-- A derivation is one within any other symbols. -/
theorem Derives.context
    {left right : List SymbolId}
    (derivation : grammar.Derives left right)
    (before after : List SymbolId) :
    grammar.Derives (before ++ left ++ after) (before ++ right ++ after) := by
  refine Relation.ReflTransGen.lift (fun inner => before ++ inner ++ after)
    ?_ _ _ derivation
  rintro _ _ ⟨member, innerBefore, innerAfter⟩
  have step := Rewrites.mk member (before ++ innerBefore) (innerAfter ++ after)
  simpa [Function.onFun] using step

/-! ## Yields -/

namespace Yields

theorem append
    {left right first second : List SymbolId}
    (leftYields : Yields grammar left first)
    (rightYields : Yields grammar right second) :
    Yields grammar (left ++ right) (first ++ second) := by
  induction leftYields with
  | nil => exact rightYields
  | terminal isTerminal _ inductionHypothesis =>
      exact .terminal isTerminal inductionHypothesis
  | production member body _ _ inductionHypothesis =>
      rw [List.cons_append, List.append_assoc]
      exact .production member body inductionHypothesis

/-- What two sequences yield together, each yields a part of. -/
theorem split
    {left right word : List SymbolId}
    (yields : Yields grammar (left ++ right) word) :
    ∃ first second, word = first ++ second ∧ Yields grammar left first ∧
      Yields grammar right second := by
  induction left generalizing word with
  | nil => exact ⟨[], word, rfl, .nil, yields⟩
  | cons symbol left inductionHypothesis =>
      cases yields with
      | terminal isTerminal rest =>
          obtain ⟨first, second, rfl, leftYields, rightYields⟩ :=
            inductionHypothesis rest
          exact ⟨symbol :: first, second, rfl, .terminal isTerminal leftYields,
            rightYields⟩
      | @production rule _ fromBody _ member body rest =>
          obtain ⟨first, second, rfl, leftYields, rightYields⟩ :=
            inductionHypothesis rest
          exact ⟨fromBody ++ first, second, by simp,
            .production member body leftYields, rightYields⟩

/-- Symbols that are not non-terminals yield themselves. -/
theorem refl
    {word : List SymbolId}
    (terminals : ∀ symbol ∈ word, grammar.isNonTerminal symbol = false) :
    Yields grammar word word := by
  induction word with
  | nil => exact .nil
  | cons symbol word inductionHypothesis =>
      refine .terminal (terminals symbol List.mem_cons_self)
        (inductionHypothesis fun other member => ?_)
      exact terminals other (List.mem_cons_of_mem symbol member)

theorem of_rewrites
    {before after word : List SymbolId}
    (rewrites : grammar.Rewrites before after)
    (yields : Yields grammar after word) :
    Yields grammar before word := by
  obtain ⟨member, left, right⟩ := rewrites
  obtain ⟨first, last, rfl, leftAndBody, rightYields⟩ := yields.split
  obtain ⟨first, middle, rfl, leftYields, bodyYields⟩ := leftAndBody.split
  rw [List.append_assoc]
  exact leftYields.append (.production member bodyYields rightYields)

theorem derives
    {symbols word : List SymbolId}
    (yields : Yields grammar symbols word) :
    grammar.Derives symbols word := by
  induction yields with
  | nil => exact .refl
  | @terminal symbol symbols word _ _ inductionHypothesis =>
      simpa using inductionHypothesis.context [symbol] []
  | @production rule symbols first word member _ _ bodyDerives
      restDerives =>
      have step : grammar.Rewrites (rule.head :: symbols)
          (rule.body ++ symbols) := Rewrites.mk member [] symbols
      have bodyPart : grammar.Derives (rule.body ++ symbols)
          (first ++ symbols) := by
        simpa using bodyDerives.context [] symbols
      have restPart : grammar.Derives (first ++ symbols) (first ++ word) := by
        simpa using restDerives.context first []
      exact .head step (bodyPart.trans restPart)

end Yields

/-- A derivation that leaves no non-terminal is a yield. -/
theorem derives_iff_yields
    {symbols word : List SymbolId}
    (terminals : ∀ symbol ∈ word, grammar.isNonTerminal symbol = false) :
    grammar.Derives symbols word ↔ Yields grammar symbols word := by
  constructor
  · intro derivation
    induction derivation using Relation.ReflTransGen.head_induction_on with
    | refl => exact .refl terminals
    | head step _ inductionHypothesis => exact .of_rewrites step inductionHypothesis
  · exact Yields.derives

/-! ## Nullable sequences -/

namespace Nullable

theorem append
    {left right : List SymbolId}
    (leftNullable : Nullable grammar left)
    (rightNullable : Nullable grammar right) :
    Nullable grammar (left ++ right) := by
  induction leftNullable with
  | nil => exact rightNullable
  | production member body _ _ inductionHypothesis =>
      exact .production member body inductionHypothesis

theorem split
    {left right : List SymbolId}
    (nullable : Nullable grammar (left ++ right)) :
    Nullable grammar left ∧ Nullable grammar right := by
  induction left with
  | nil => exact ⟨.nil, nullable⟩
  | cons symbol left inductionHypothesis =>
      cases nullable with
      | production member body rest =>
          obtain ⟨leftNullable, rightNullable⟩ := inductionHypothesis rest
          exact ⟨.production member body leftNullable, rightNullable⟩

theorem yields
    {symbols : List SymbolId}
    (nullable : Nullable grammar symbols) :
    Yields grammar symbols [] := by
  induction nullable with
  | nil => exact .nil
  | production member _ _ bodyYields restYields =>
      exact .production member bodyYields restYields

end Nullable

theorem Starts.append_right
    {symbols : List SymbolId}
    {symbol : SymbolId}
    (starts : Starts grammar symbols symbol)
    (others : List SymbolId) :
    Starts grammar (symbols ++ others) symbol := by
  induction starts with
  | here isTerminal => exact .here isTerminal
  | inside member body _ => exact .inside member body
  | later nullable _ inductionHypothesis =>
      exact .later nullable inductionHypothesis

/-- Symbols that yield nothing are nullable. -/
theorem Yields.nullable
    {symbols word : List SymbolId}
    (yields : Yields grammar symbols word)
    (nothing : word = []) :
    Nullable grammar symbols := by
  induction yields with
  | nil => exact .nil
  | terminal => simp at nothing
  | production member _ _ bodyNullable restNullable =>
      obtain ⟨bodyNothing, restNothing⟩ := List.append_eq_nil_iff.mp nothing
      exact .production member (bodyNullable bodyNothing)
        (restNullable restNothing)

/-- Symbols start with the first symbol that they yield. -/
theorem Yields.starts
    {symbols word rest : List SymbolId}
    {symbol : SymbolId}
    (yields : Yields grammar symbols word)
    (first : word = symbol :: rest) :
    Starts grammar symbols symbol := by
  induction yields generalizing rest with
  | nil => simp at first
  | terminal isTerminal _ _ =>
      obtain ⟨rfl, -⟩ := List.cons.inj first
      exact .here isTerminal
  | @production rule symbols fromBody word member body _ bodyStarts
      restStarts =>
      cases fromBody with
      | nil =>
          exact .later (.production member (body.nullable rfl) .nil)
            (restStarts first)
      | cons other fromBody =>
          obtain ⟨rfl, -⟩ := List.cons.inj first
          exact .inside member (bodyStarts rfl)

theorem Nullable.append_starts
    {left right : List SymbolId}
    {symbol : SymbolId}
    (nullable : Nullable grammar left)
    (starts : Starts grammar right symbol) :
    Starts grammar (left ++ right) symbol := by
  induction nullable with
  | nil => exact starts
  | production member body _ _ inductionHypothesis =>
      exact .later (.production member body .nil) inductionHypothesis

/-- What known symbols start with is known. -/
theorem Starts.lt_size
    {symbols : List SymbolId}
    {symbol : SymbolId}
    (starts : Starts grammar symbols symbol)
    (wellFormed : grammar.WellFormed)
    (known : ∀ other ∈ symbols, other < grammar.symbols.size) :
    symbol < grammar.symbols.size := by
  induction starts with
  | @here symbol _ _ => exact known symbol List.mem_cons_self
  | @inside rule _ _ member _ inductionHypothesis =>
      exact inductionHypothesis (wellFormed.bodies rule member)
  | @later first _ _ _ _ inductionHypothesis =>
      exact inductionHypothesis fun other member =>
        known other (List.mem_cons_of_mem first member)

end Grammar
end ParserGenerator
