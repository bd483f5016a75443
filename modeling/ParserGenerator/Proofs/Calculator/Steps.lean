import ParserGenerator.Proofs.Calculator.Handlers
import ParserGenerator.Proofs.Calculator.Table
import ParserGenerator.Proofs.Parse.Concluding

/-!
# Steps of the calculator

The calculator can be created, and its parser decides about tokens by the rows
of its table: no marker is ever shifted.
-/

open ParserGenerator.Parse

namespace ParserGenerator

namespace Calculator

open Table (Action)

theorem create_of_compile
    [CharacterData]
    {definition : Definition}
    {compiled : Compiled}
    {bindings : Actions}
    (options : Options)
    (loaded : Definition.load language = .ok definition)
    (compiles : (Compiled.compile definition.grammar definition.goalName
      (some precedence)).result = .ok compiled)
    (bound : actions compiled.grammar = .ok bindings) :
    create options = .ok ⟨⟨compiled, bindings, options⟩⟩ := by
  have isCompiled : compile = .ok compiled := by
    unfold compile
    rw [loaded, compileLoaded, compiles]
  refine Definition.bind_of_ok isCompiled ?_
  rw [ofCompiled, bound]

/-- A parser over the grammar of the calculator with its table and handlers. -/
structure Serves (parser : Parser SymbolTable Failure Value) : Prop where
  /-- The rules are those of the calculator. -/
  rules_eq : parser.compiled.rules = rules
  /-- The table was built for the calculator. -/
  tabulates : Tabulates parser.compiled.table
  /-- The handlers are those of the calculator. -/
  bindings_eq : parser.bindings = bindings

/-- The calculator can be created. -/
theorem exists_create [CharacterData] (options : Options) :
    ∃ calculator, create options = .ok calculator ∧
      Serves calculator.parser ∧
      calculator.parser.compiled.lexicon = Lexicon.ofGrammar grammar ∧
      calculator.parser.options = options := by
  obtain ⟨table, built, tabulates⟩ := exists_tabulates
  have isGoal : grammar.symbol? (grammar.name 15) = some 15 := by
    decide +kernel
  have compiles :=
    Compiled.compile_eq_ok_iff.mpr ⟨_, _, isGoal, built, rfl⟩
  exact ⟨_, create_of_compile options load_language compiles actions_grammar,
    ⟨rfl, tabulates, rfl⟩, rfl, rfl⟩

/-! ## Decisions -/

/-- No action depends on a line break. -/
theorem action_marker (state : Nat) (token : Token) :
    action state token.marker = none := by
  have rows : ∀ row ∈ actionRows, row.lookup 1 = none ∧ row.lookup 2 = none := by
    decide
  unfold action
  cases found : actionRows[state]? with
  | none => rfl
  | some row =>
      obtain ⟨onBreak, onNone⟩ := rows row (List.mem_of_getElem? found)
      unfold Token.marker
      split
      · exact onBreak
      · exact onNone

namespace Serves

variable {parser : Parser SymbolTable Failure Value}
  {frames top below : List (Frame Value)} {context after : SymbolTable}
  {token : Token} {rest : List Token} {production : ProductionId}
  {head : SymbolId} {target : Nat}

/-- The decision about a token is the action of its row. -/
theorem outcome_eq (serves : Serves parser) (frames : List (Frame Value))
    (context : SymbolTable) (token : Token) :
    parser.outcome ⟨frames, false, context⟩ token =
      match action (topState frames) token.symbol with
      | some (.shift target) =>
          Configuration.shift bindings ⟨frames, false, context⟩ target token
      | some (.reduce production) =>
          Configuration.reduce rules parser.compiled.table bindings
            ⟨frames, false, context⟩ production
      | some .accept =>
          .accepted (Configuration.goalValue ⟨frames, false, context⟩)
            ⟨frames, false, context⟩
      | none =>
          .failed (.unexpectedToken (token.description grammar))
            ⟨frames, false, context⟩ := by
  unfold Parser.outcome Configuration.step Configuration.decision Decision.make
    Decision.ofMarker Decision.ofToken
  rw [serves.rules_eq, serves.bindings_eq, Configuration.state_eq,
    serves.tabulates.action_eq, serves.tabulates.action_eq, action_marker]
  rcases action (topState frames) token.symbol with - | ⟨_ | _ | _⟩ <;> rfl

theorem consumed_of_shift
    (serves : Serves parser)
    {value : Option Value}
    (acts : action (topState frames) token.symbol = some (.shift target))
    (handled : bindings.token token.symbol token.text context =
      (.ok value, after)) :
    parser.outcome ⟨frames, false, context⟩ token =
      .consumed ⟨⟨target, token.symbol, value⟩ :: frames, false, after⟩ := by
  rw [serves.outcome_eq, acts]
  simp only [Configuration.shift, handled]

theorem failed_of_shift
    (serves : Serves parser)
    {failure : Failure}
    (acts : action (topState frames) token.symbol = some (.shift target))
    (handled : bindings.token token.symbol token.text context =
      (.error failure, after)) :
    parser.outcome ⟨frames, false, context⟩ token =
      .failed (.handler failure) ⟨frames, false, after⟩ := by
  rw [serves.outcome_eq, acts]
  simp only [Configuration.shift, handled]

theorem kept_of_reduce
    (serves : Serves parser)
    {value : Option Value}
    (acts : action (topState (top ++ below)) token.symbol =
      some (.reduce production))
    (size : (rules.body production).length = top.length)
    (isHead : rules.head? production = some head)
    (edge : goto (topState below) head = some target)
    (handled : bindings.reduce production ⟨(top.map Frame.value).reverse⟩
      context = (.ok value, after)) :
    parser.outcome ⟨top ++ below, false, context⟩ token =
      .kept ⟨⟨target, head, value⟩ :: below, false, after⟩ := by
  rw [serves.outcome_eq, acts]
  simp [Configuration.reduce, size, handled, Configuration.goto, isHead,
    Configuration.state_eq, serves.tabulates.goto_eq, edge]

theorem failed_of_reduce
    (serves : Serves parser)
    {failure : Failure}
    (acts : action (topState (top ++ below)) token.symbol =
      some (.reduce production))
    (size : (rules.body production).length = top.length)
    (handled : bindings.reduce production ⟨(top.map Frame.value).reverse⟩
      context = (.error failure, after)) :
    parser.outcome ⟨top ++ below, false, context⟩ token =
      .failed (.handler failure) ⟨below, false, after⟩ := by
  rw [serves.outcome_eq, acts]
  simp [Configuration.reduce, size, handled]

end Serves
end Calculator
end ParserGenerator
