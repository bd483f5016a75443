import ParserGenerator.Grammar.Declare
import ParserGenerator.Proofs.Grammar.Language

/-!
# Declared grammars are well formed

The grammars that declarations lead to from the empty one. Every declaration
that is not refused keeps a grammar well formed.
-/

namespace ParserGenerator
namespace Grammar

/-- The grammars that can be declared. -/
inductive Declared : Grammar → Prop
  | empty (anyCase : Bool) : Declared (Grammar.empty anyCase)
  | terminal
      {grammar after : Grammar}
      {name : String}
      {pattern : Pattern}
      {options : TerminalOptions}
      {symbol : SymbolId}
      (declared : Declared grammar)
      (added : grammar.declareTerminal name pattern options =
        .ok (after, symbol)) :
      Declared after
  | nonTerminal
      {grammar after : Grammar}
      {name : String}
      {symbol : SymbolId}
      (declared : Declared grammar)
      (added : grammar.declareNonTerminal name = .ok (after, symbol)) :
      Declared after
  | rule
      {grammar after : Grammar}
      {head : SymbolId}
      {name body : String}
      {production : ProductionId}
      (declared : Declared grammar)
      (added : grammar.addRule head name body = .ok (after, production)) :
      Declared after
  | shiftOn
      {grammar after : Grammar}
      {production : ProductionId}
      {names : List String}
      (declared : Declared grammar)
      (changed : grammar.addShiftOn production names = .ok after) :
      Declared after
  | reduceOn
      {grammar after : Grammar}
      {production : ProductionId}
      {names : List String}
      (declared : Declared grammar)
      (changed : grammar.addReduceOn production names = .ok after) :
      Declared after
  | lookaheads
      {grammar after : Grammar}
      {production : ProductionId}
      {marker : String}
      {names : List String}
      (declared : Declared grammar)
      (changed : grammar.overrideLookaheads production marker names =
        .ok after) :
      Declared after

variable {grammar after : Grammar}

/-- Two steps succeed if the first one does and then the second one. -/
theorem exists_ok_of_bind
    {Error First Second : Type}
    {step : Except Error First}
    {next : First → Except Error Second}
    {result : Second}
    (succeeds : step >>= next = .ok result) :
    ∃ value, step = .ok value ∧ next value = .ok result := by
  cases step with
  | error error => simp [bind, Except.bind] at succeeds
  | ok value => exact ⟨value, rfl, succeeds⟩

/-- What a step gives tells that it succeeds. -/
theorem eq_ok_of_toOption
    {Error Value : Type}
    {step : Except Error Value}
    {value : Value}
    (gives : step.toOption = some value) :
    step = .ok value := by
  cases step with
  | error error => simp [Except.toOption] at gives
  | ok other => simpa [Except.toOption] using gives

/-! ## Names -/

theorem lt_size_of_resolve
    {name : String}
    {symbol : SymbolId}
    (resolved : grammar.resolve name = .ok symbol) :
    symbol < grammar.symbols.size := by
  unfold resolve at resolved
  split at resolved
  · next found =>
      obtain rfl := Except.ok.inj resolved
      exact (Array.findIdx?_eq_some_iff_getElem.mp found).1
  · simp at resolved

theorem lt_size_of_resolveAll
    {names : List String}
    {symbols : List SymbolId}
    (resolved : grammar.resolveAll names = .ok symbols) :
    ∀ symbol ∈ symbols, symbol < grammar.symbols.size := by
  induction names generalizing symbols with
  | nil =>
      obtain rfl := Except.ok.inj resolved
      simp
  | cons name rest inductionHypothesis =>
      unfold resolveAll at resolved
      obtain ⟨symbol, first, resolved⟩ := exists_ok_of_bind resolved
      obtain ⟨others, rest, resolved⟩ := exists_ok_of_bind resolved
      obtain rfl := Except.ok.inj resolved
      intro other member
      rcases List.mem_cons.mp member with rfl | member
      · exact lt_size_of_resolve first
      · exact inductionHypothesis rest other member

/-! ## Declarations -/

namespace WellFormed

theorem empty (anyCase : Bool) : (Grammar.empty anyCase).WellFormed where
  structural := Nat.le_refl 3
  markers := by
    intro symbol structural
    match symbol, structural with
    | 0, _ => exact ⟨rfl, by simp [terminals, Grammar.empty, Symbol.pattern?]⟩
    | 1, _ => exact ⟨rfl, by simp [terminals, Grammar.empty, Symbol.pattern?]⟩
    | 2, _ => exact ⟨rfl, by simp [terminals, Grammar.empty, Symbol.pattern?]⟩
  heads := by simp [Grammar.empty]
  bodies := by simp [Grammar.empty]
  overrides := by simp [Grammar.empty]

theorem addSymbol
    (wellFormed : grammar.WellFormed)
    {name : String}
    {kind : SymbolKind}
    {symbol : SymbolId}
    (added : grammar.addSymbol name kind = .ok (after, symbol)) :
    after.WellFormed := by
  unfold Grammar.addSymbol at added
  split at added
  · simp at added
  obtain ⟨rfl, -⟩ := Prod.mk.inj (Except.ok.inj added)
  have same : ∀ other < grammar.symbols.size,
      Grammar.isNonTerminal
        { grammar with symbols := grammar.symbols.push ⟨name, kind⟩ } other =
          grammar.isNonTerminal other := by
    intro other inside
    simp [Grammar.isNonTerminal, Array.getElem?_push, Nat.ne_of_lt inside]
  have grown : grammar.symbols.size <
      (grammar.symbols.push ⟨name, kind⟩).size := by
    simp
  refine ⟨?_, ?_, ?_, ?_, ?_⟩
  · exact Nat.le_trans wellFormed.structural (Nat.le_of_lt grown)
  · intro other structural
    have inside := Nat.lt_of_lt_of_le structural wellFormed.structural
    obtain ⟨notNonTerminal, notTerminal⟩ := wellFormed.markers other structural
    refine ⟨(same other inside).trans notNonTerminal, fun member => ?_⟩
    simp only [terminals, List.mem_filter, List.mem_range] at member notTerminal
    rw [Array.getElem?_push, if_neg (Nat.ne_of_lt inside)] at member
    exact notTerminal ⟨inside, member.2⟩
  · intro rule member
    have isHead := wellFormed.heads rule member
    rw [same rule.head (lt_size_of_isNonTerminal isHead)]
    exact isHead
  · intro rule member other inBody
    exact Nat.lt_trans (wellFormed.bodies rule member other inBody) grown
  · intro rule member entry isEntry
    obtain ⟨ascends, known⟩ := wellFormed.overrides rule member entry isEntry
    exact ⟨ascends, fun other found => Nat.lt_trans (known other found) grown⟩

theorem addRule
    (wellFormed : grammar.WellFormed)
    {head : SymbolId}
    {name body : String}
    {production : ProductionId}
    (added : grammar.addRule head name body = .ok (after, production)) :
    after.WellFormed := by
  unfold Grammar.addRule at added
  split at added
  · simp at added
  next symbol found =>
  split at added
  · simp at added
  next isNonTerminal =>
  split at added
  · simp at added
  obtain ⟨symbols, resolved, added⟩ := exists_ok_of_bind added
  obtain ⟨rfl, -⟩ := Prod.mk.inj (Except.ok.inj added)
  have known := lt_size_of_resolveAll resolved
  refine ⟨wellFormed.structural, wellFormed.markers, ?_, ?_, ?_⟩
  · intro rule member
    rcases Array.mem_push.mp member with member | rfl
    · exact wellFormed.heads rule member
    · simpa [Grammar.isNonTerminal, found] using isNonTerminal
  · intro rule member
    rcases Array.mem_push.mp member with member | rfl
    · exact wellFormed.bodies rule member
    · exact known
  · intro rule member
    rcases Array.mem_push.mp member with member | rfl
    · exact wellFormed.overrides rule member
    · simp

/-- A change of a production that keeps its head and body, and after which its
overrides name declared symbols. -/
theorem modifyProduction
    (wellFormed : grammar.WellFormed)
    (production : ProductionId)
    {change : Production → Production}
    (sameHead : ∀ rule, (change rule).head = rule.head)
    (sameBody : ∀ rule, (change rule).body = rule.body)
    (overrides : ∀ rule ∈ grammar.productions,
      ∀ entry ∈ (change rule).lookaheadOverrides,
        Ascends entry.2 ∧ ∀ symbol ∈ entry.2, symbol < grammar.symbols.size) :
    (grammar.modifyProduction production change).WellFormed := by
  have origin : ∀ rule ∈ grammar.productions.modify production change,
      rule ∈ grammar.productions ∨
        ∃ before ∈ grammar.productions, rule = change before := by
    intro rule member
    obtain ⟨index, inside, rfl⟩ := Array.mem_iff_getElem.mp member
    rw [Array.size_modify] at inside
    rw [Array.getElem_modify]
    split
    · exact .inr ⟨_, Array.getElem_mem inside, rfl⟩
    · exact .inl (Array.getElem_mem inside)
  refine ⟨wellFormed.structural, wellFormed.markers, ?_, ?_, ?_⟩
  · intro rule member
    rcases origin rule member with kept | ⟨before, kept, rfl⟩
    · exact wellFormed.heads rule kept
    · rw [sameHead]
      exact wellFormed.heads before kept
  · intro rule member
    rcases origin rule member with kept | ⟨before, kept, rfl⟩
    · exact wellFormed.bodies rule kept
    · rw [sameBody]
      exact wellFormed.bodies before kept
  · intro rule member
    rcases origin rule member with kept | ⟨before, kept, rfl⟩
    · exact wellFormed.overrides rule kept
    · exact overrides before kept

theorem overrideLookaheads
    (wellFormed : grammar.WellFormed)
    {production : ProductionId}
    {marker : String}
    {names : List String}
    (changed : grammar.overrideLookaheads production marker names =
      .ok after) :
    after.WellFormed := by
  unfold Grammar.overrideLookaheads at changed
  obtain ⟨symbol, -, changed⟩ := exists_ok_of_bind changed
  obtain ⟨symbols, resolved, changed⟩ := exists_ok_of_bind changed
  split at changed
  · obtain rfl := Except.ok.inj changed
    exact wellFormed
  next rule found =>
  split at changed
  · simp [throw, throwThe, MonadExceptOf.throw] at changed
  obtain rfl := Except.ok.inj changed
  refine wellFormed.modifyProduction production (fun _ => rfl) (fun _ => rfl)
    fun before _ entry isEntry => ?_
  rcases List.mem_append.mp isEntry with kept | added
  · exact wellFormed.overrides rule (Array.mem_of_getElem? found) entry
      (List.mem_of_mem_filter kept)
  · obtain rfl := List.mem_singleton.mp added
    refine ⟨ascends_ascending symbols, fun other member => ?_⟩
    exact lt_size_of_resolveAll resolved other (mem_ascending.mp member)

end WellFormed

/-- Declarations keep a grammar well formed. -/
theorem Declared.wellFormed (declared : grammar.Declared) :
    grammar.WellFormed := by
  induction declared with
  | empty anyCase => exact .empty anyCase
  | @terminal grammar after name pattern options symbol _ added
      inductionHypothesis =>
      unfold declareTerminal at added
      split at added
      · simp at added
      split at added
      · simp at added
      exact inductionHypothesis.addSymbol added
  | nonTerminal _ added inductionHypothesis =>
      exact inductionHypothesis.addSymbol added
  | rule _ added inductionHypothesis => exact inductionHypothesis.addRule added
  | @shiftOn grammar after production names _ changed inductionHypothesis =>
      unfold addShiftOn at changed
      obtain ⟨symbols, -, changed⟩ := exists_ok_of_bind changed
      obtain rfl := Except.ok.inj changed
      exact inductionHypothesis.modifyProduction production (fun _ => rfl)
        (fun _ => rfl) inductionHypothesis.overrides
  | @reduceOn grammar after production names _ changed inductionHypothesis =>
      unfold addReduceOn at changed
      obtain ⟨symbols, -, changed⟩ := exists_ok_of_bind changed
      obtain rfl := Except.ok.inj changed
      exact inductionHypothesis.modifyProduction production (fun _ => rfl)
        (fun _ => rfl) inductionHypothesis.overrides
  | lookaheads _ changed inductionHypothesis =>
      exact inductionHypothesis.overrideLookaheads changed

/-! ## Declarations one after another -/

/-- A declaration of a symbol or of a production. -/
inductive Declaration
  | terminal (name : String) (pattern : Pattern) (options : TerminalOptions)
  | nonTerminal (name : String)
  | rule (head : SymbolId) (name body : String)

/-- Make a declaration. -/
def declare (grammar : Grammar) :
    Declaration → Except DefinitionError Grammar
  | .terminal name pattern options => do
      return (← grammar.declareTerminal name pattern options).1
  | .nonTerminal name => do return (← grammar.declareNonTerminal name).1
  | .rule head name body => do return (← grammar.addRule head name body).1

/-- Make declarations up to the first that is refused. -/
def declareAll (grammar : Grammar) :
    List Declaration → Except DefinitionError Grammar
  | [] => .ok grammar
  | declaration :: rest => do
      let after ← grammar.declare declaration
      after.declareAll rest

theorem Declared.declare
    {declaration : Declaration}
    (declared : grammar.Declared)
    (isAfter : grammar.declare declaration = .ok after) :
    after.Declared := by
  cases declaration with
  | terminal name pattern options =>
      obtain ⟨⟨_, _⟩, added, isAfter⟩ := exists_ok_of_bind isAfter
      obtain rfl := Except.ok.inj isAfter
      exact .terminal declared added
  | nonTerminal name =>
      obtain ⟨⟨_, _⟩, added, isAfter⟩ := exists_ok_of_bind isAfter
      obtain rfl := Except.ok.inj isAfter
      exact .nonTerminal declared added
  | rule head name body =>
      obtain ⟨⟨_, _⟩, added, isAfter⟩ := exists_ok_of_bind isAfter
      obtain rfl := Except.ok.inj isAfter
      exact .rule declared added

/-- A grammar to which declarations lead from the empty one is declared. -/
theorem Declared.declareAll
    (declarations : List Declaration)
    (declared : grammar.Declared)
    (isAfter : grammar.declareAll declarations = .ok after) :
    after.Declared := by
  induction declarations generalizing grammar with
  | nil => exact Except.ok.inj isAfter ▸ declared
  | cons declaration rest inductionHypothesis =>
      obtain ⟨_, first, others⟩ := exists_ok_of_bind isAfter
      exact inductionHypothesis (declared.declare first) others

end Grammar
end ParserGenerator
