import ParserGenerator.Proofs.Table.ConflictFree

/-!
# Recognition of what symbols yield

The steps of a parser on stacks of symbols. Without conflicts a parser goes
from the symbols before a sequence to the symbols with the sequence, whatever
the sequence yields, if what comes next may come there.
-/

namespace ParserGenerator
namespace Table
namespace Rules

/-- The body of a production on top of a stack is replaced by its head. -/
inductive Reduces (rules : Rules) (table : Table) (symbol : SymbolId) :
    List SymbolId → List SymbolId → Prop
  | mk
      {production : ProductionId}
      {head : SymbolId}
      {below : List SymbolId}
      (acts : rules.actionAfter table (below ++ rules.body production) symbol =
        some (.reduce production))
      (heads : rules.head? production = some head) :
      Reduces rules table symbol (below ++ rules.body production)
        (below ++ [head])

/-- A parser shifts the next symbol or reduces a production. -/
inductive Steps (rules : Rules) (table : Table) :
    List SymbolId × List SymbolId → List SymbolId × List SymbolId → Prop
  | shift
      {stack rest : List SymbolId}
      {symbol : SymbolId}
      {target : Nat}
      (acts : rules.actionAfter table stack symbol = some (.shift target)) :
      Steps rules table (stack, symbol :: rest) (stack ++ [symbol], rest)
  | reduce
      {stack next rest : List SymbolId}
      {symbol : SymbolId}
      (reduces : rules.Reduces table symbol stack next) :
      Steps rules table (stack, symbol :: rest) (next, symbol :: rest)

/-- A symbol may come after what is left of an item. -/
def MayFollow (rules : Rules) (symbols : List SymbolId) (item : Item)
    (rest : List SymbolId) (symbol : SymbolId) : Prop :=
  rules.grammar.Starts rest symbol ∨
    rules.grammar.Nullable rest ∧ rules.Reaches symbols item symbol

variable {rules : Rules} {table : Table} {symbols rest : List SymbolId}
  {item : Item} {symbol following : SymbolId}

theorem MayFollow.advance
    (mayFollow : rules.MayFollow symbols item rest following)
    (next : rules.next? item = some symbol) :
    rules.MayFollow (symbols ++ [symbol]) item.advance rest following :=
  mayFollow.imp_right fun ⟨nullable, reaches⟩ =>
    ⟨nullable, reaches.advance next⟩

theorem mem_predicted_of_rule
    (wellFormed : rules.WellFormed)
    {rule : Production}
    {production : ProductionId}
    (found : rules.grammar.productions[production]? = some rule)
    (next : rules.next? item = some rule.head) :
    production ∈ rules.predicted item := by
  refine mem_predicted.mpr ⟨rule.head, next, ?_, by simp [head?, found]⟩
  exact wellFormed.grammar.heads rule (Array.mem_of_getElem? found)

theorem body_of_rule
    {rule : Production}
    {production : ProductionId}
    (found : rules.grammar.productions[production]? = some rule) :
    production ≠ rules.accept ∧ rules.body production = rule.body := by
  have inside := (Array.getElem?_eq_some_iff.mp found).1
  have notAccept : production ≠ rules.accept := Nat.ne_of_lt inside
  exact ⟨notAccept, by simp [body, notAccept, found]⟩

namespace ConflictFree

/-- What may come after the non-terminal after a dot may follow the productions
that are called for there. -/
theorem reaches_of_mayFollow
    (conflictFree : rules.ConflictFree table)
    {production : ProductionId}
    {called : SymbolId}
    (viable : rules.Viable symbols item)
    (split : (rules.body item.production).drop item.dot = called :: rest)
    (isCalled : production ∈ rules.predicted item)
    (mayFollow : rules.MayFollow symbols item rest symbol) :
    rules.Reaches symbols ⟨production, 0⟩ symbol := by
  have noOverride := conflictFree.override?_eq_none item called
  rcases mayFollow with starts | ⟨nullable, reaches⟩
  · refine .arises viable isCalled ((arises_iff split).mpr ?_)
    rwa [noOverride]
  · exact .inherits reaches isCalled
      ((inherits_iff split).mpr ⟨noOverride, nullable⟩)

/-- A production that was recognised is reduced. -/
theorem reduces_of_complete
    (conflictFree : rules.ConflictFree table)
    {below : List SymbolId}
    {head : SymbolId}
    (reaches : rules.Reaches (below ++ rules.body item.production) item symbol)
    (complete : rules.next? item = none)
    (notAccept : item.production ≠ rules.accept)
    (heads : rules.head? item.production = some head) :
    rules.Reduces table symbol (below ++ rules.body item.production)
      (below ++ [head]) := by
  have acts := conflictFree.actionAfter_of_reaches reaches complete
  rw [reduceAction, if_neg notAccept] at acts
  exact .mk acts heads

theorem reduces_of_reaches
    (conflictFree : rules.ConflictFree table)
    {production : ProductionId}
    {head : SymbolId}
    (reaches : rules.Reaches symbols ⟨production, 0⟩ symbol)
    (notAccept : production ≠ rules.accept)
    (heads : rules.head? production = some head) :
    rules.Reduces table symbol (symbols ++ rules.body production)
      (symbols ++ [head]) := by
  obtain ⟨complete, rfl, asksNothing, reachesEnd⟩ :=
    reaches.exists_complete List.drop_zero
  exact conflictFree.reduces_of_complete reachesEnd asksNothing notAccept heads

/-- A parser recognises what the symbols after a dot yield. -/
theorem steps_of_yields
    (conflictFree : rules.ConflictFree table)
    {parsed word : List SymbolId}
    (input : List SymbolId)
    (yields : rules.grammar.Yields parsed word)
    (viable : rules.Viable symbols item)
    (split : (rules.body item.production).drop item.dot = parsed ++ rest)
    (mayFollow : rules.MayFollow symbols item rest following) :
    Relation.ReflTransGen (rules.Steps table)
      (symbols, word ++ following :: input)
      (symbols ++ parsed, following :: input) := by
  induction yields generalizing symbols item rest following input with
  | nil =>
      rw [List.append_nil]
      exact .refl
  | @terminal symbol parsed word isTerminal _ inductionHypothesis =>
      have next : rules.next? item = some symbol :=
        next?_eq_some_iff.mpr ⟨_, split⟩
      obtain ⟨target, acts⟩ :=
        conflictFree.actionAfter_of_viable viable next isTerminal
      have onward := inductionHypothesis input (viable.advance next)
        (drop_advance split) (mayFollow.advance next)
      rw [List.append_assoc] at onward
      exact .head (.shift acts) onward
  | @production rule parsed fromBody word member body others bodyRecognised
      restRecognised =>
      obtain ⟨production, inside, isRule⟩ := Array.mem_iff_getElem.mp member
      have found : rules.grammar.productions[production]? = some rule :=
        Array.getElem?_eq_some_iff.mpr ⟨inside, isRule⟩
      obtain ⟨notAccept, isBody⟩ := body_of_rule found
      have heads : rules.head? production = some rule.head := by
        simp [head?, found]
      have next : rules.next? item = some rule.head :=
        next?_eq_some_iff.mpr ⟨_, split⟩
      have called := mem_predicted_of_rule conflictFree.wellFormed found next
      -- The symbol after the body is the next of the word or what follows.
      obtain ⟨after, input', isAfter, mayFollowHead⟩ : ∃ after input',
          word ++ following :: input = after :: input' ∧
            rules.MayFollow symbols item (parsed ++ rest) after := by
        cases word with
        | nil =>
            have nullable := others.nullable rfl
            refine ⟨following, input, rfl, mayFollow.imp
              nullable.append_starts fun ⟨restNullable, reaches⟩ =>
                ⟨nullable.append restNullable, reaches⟩⟩
        | cons first word =>
            exact ⟨first, _, rfl, .inl ((others.starts rfl).append_right rest)⟩
      have reaches := conflictFree.reaches_of_mayFollow viable split called
        mayFollowHead
      have bodySteps := bodyRecognised input' reaches.viable
        (by simp [isBody]) (.inr ⟨.nil, reaches⟩)
      have reduces := conflictFree.reduces_of_reaches reaches notAccept heads
      rw [isBody] at reduces
      have restSteps := restRecognised input (viable.advance next)
        (drop_advance split) (mayFollow.advance next)
      rw [isAfter, List.append_assoc] at restSteps
      rw [List.append_assoc, isAfter]
      exact bodySteps.trans (.head (.reduce reduces) restSteps)

end ConflictFree
end Rules
end Table
end ParserGenerator
