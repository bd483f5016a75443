import ParserGenerator.Proofs.Calculator.Steps

/-!
# Evaluation while parsing

The parser of the calculator goes through the tokens of a program and computes
its results on the way. Where an expression starts, the state tells which
operators may come after it at the level of the expression; the table then puts
operators of one level together from the left.
-/

open ParserGenerator.Parse

namespace ParserGenerator
namespace Calculator

open Table (Action)

variable {parser : Parser SymbolTable Failure Value}
  {Result : Type}
  {situation : Situation SymbolTable Value}
  {frames below : List (Frame Value)} {context after : SymbolTable}
  {token : Token} {rest : List Token} {production : ProductionId}
  {head : SymbolId} {target : Nat}

/-- One situation leads to another: what is concluded from the second one is
concluded from the first one. -/
def Leads (parser : Parser SymbolTable Failure Value)
    (situation next : Situation SymbolTable Value) : Prop :=
  ∀ ending, parser.Concludes next ending → parser.Concludes situation ending

/-- From a situation with the given variables, which keep their values, a result
is computed and the parse goes on, or the parse fails. -/
def Evaluates (parser : Parser SymbolTable Failure Value)
    (situation : Situation SymbolTable Value) (context : SymbolTable)
    (result : Except Failure Result)
    (next : Result → SymbolTable → Situation SymbolTable Value) : Prop :=
  ∃ after, context.Extends after ∧
    match result with
    | .ok value => Leads parser situation (next value after)
    | .error failure =>
        parser.Concludes situation (.failed (.handler failure) after)

namespace Evaluates

variable {result : Except Failure Result}
  {next : Result → SymbolTable → Situation SymbolTable Value}

theorem of_leads
    {middle : Situation SymbolTable Value}
    (evaluates : Evaluates parser middle context result next)
    (leads : Leads parser situation middle) :
    Evaluates parser situation context result next := by
  obtain ⟨after, kept, goesOn⟩ := evaluates
  refine ⟨after, kept, ?_⟩
  cases result with
  | ok value => exact fun ending concludes => leads ending (goesOn _ concludes)
  | error failure => exact leads _ goesOn

theorem of_extends
    (kept : context.Extends after)
    (evaluates : Evaluates parser situation after result next) :
    Evaluates parser situation context result next := by
  obtain ⟨last, keptAfter, goesOn⟩ := evaluates
  exact ⟨last, kept.trans keptAfter, goesOn⟩

/-- Results are computed one after the other. -/
theorem bind
    {Other : Type}
    {others : Result → Except Failure Other}
    {last : Other → SymbolTable → Situation SymbolTable Value}
    (evaluates : Evaluates parser situation context result next)
    (evaluatesOthers : ∀ value after, context.Extends after →
      Evaluates parser (next value after) after (others value) last) :
    Evaluates parser situation context (result >>= others) last := by
  obtain ⟨after, kept, goesOn⟩ := evaluates
  cases result with
  | error failure => exact ⟨after, kept, goesOn⟩
  | ok value =>
      obtain ⟨final, keptAfter, goesOnAfter⟩ :=
        (evaluatesOthers value after kept).of_leads goesOn
      exact ⟨final, kept.trans keptAfter, goesOnAfter⟩

theorem then_leads
    {last : Result → SymbolTable → Situation SymbolTable Value}
    (evaluates : Evaluates parser situation context result next)
    (leads : ∀ value after, Leads parser (next value after)
      (last value after)) :
    Evaluates parser situation context result last := by
  obtain ⟨after, kept, goesOn⟩ := evaluates
  refine ⟨after, kept, ?_⟩
  cases result with
  | ok value =>
      exact fun ending concludes => goesOn _ (leads value after _ concludes)
  | error failure => exact goesOn

/-- A result as the value of an expression. -/
theorem of_valueOf
    {result : Except Failure Int}
    {next : Option Value → SymbolTable → Situation SymbolTable Value}
    (evaluates : Evaluates parser situation context (valueOf result) next) :
    Evaluates parser situation context result
      fun number => next (some (.number number)) := by
  cases result <;> exact evaluates

end Evaluates

/-! ## Steps -/

namespace Serves

variable {result : Except Failure (Option Value)}

theorem evaluates_shift
    (serves : Serves parser)
    (acts : action (topState frames) token.symbol = some (.shift target))
    (handled : bindings.token token.symbol token.text context =
      (result, after))
    (kept : context.Extends after)
    (rest : List Token) :
    Evaluates parser (⟨frames, false, context⟩, token :: rest) context result
      fun value after =>
        (⟨⟨target, token.symbol, value⟩ :: frames, false, after⟩, rest) := by
  refine ⟨after, kept, ?_⟩
  cases result with
  | ok value =>
      exact fun ending concludes =>
        .consumed (serves.consumed_of_shift acts handled) concludes
  | error failure => exact .failed (serves.failed_of_shift acts handled)

/-- A name is shifted and becomes known. -/
theorem leads_name
    (serves : Serves parser)
    (acts : action (topState frames) token.symbol = some (.shift target))
    (isName : token.symbol = 4)
    (context : SymbolTable)
    (rest : List Token) :
    Leads parser (⟨frames, false, context⟩, token :: rest)
      (⟨⟨target, token.symbol, some (.name (context.intern token.text).1)⟩ ::
        frames, false, (context.intern token.text).2⟩, rest) := by
  have handled : bindings.token token.symbol token.text context =
      (.ok (some (.name (context.intern token.text).1)),
        (context.intern token.text).2) := by
    rw [isName]
    rfl
  exact fun _ concludes =>
    .consumed (serves.consumed_of_shift acts handled) concludes

/-- A token without a handler is shifted. -/
theorem leads_shift
    (serves : Serves parser)
    (frames : List (Frame Value))
    (acts : action (topState frames) token.symbol = some (.shift target))
    (notNumber : token.symbol ≠ 3)
    (notName : token.symbol ≠ 4)
    (context : SymbolTable)
    (rest : List Token) :
    Leads parser (⟨frames, false, context⟩, token :: rest)
      (⟨⟨target, token.symbol, none⟩ :: frames, false, context⟩, rest) :=
  fun _ concludes => .consumed
    (serves.consumed_of_shift acts (token_of_ne _ _ notNumber notName))
    concludes

theorem evaluates_reduce
    (serves : Serves parser)
    (top : List (Frame Value))
    (acts : action (topState (top ++ below)) token.symbol =
      some (.reduce production))
    (size : (rules.body production).length = top.length)
    (edge : goto (topState below) head = some target)
    (isHead : rules.head? production = some head)
    (handled : bindings.reduce production ⟨(top.map Frame.value).reverse⟩
      context = (result, context))
    (rest : List Token) :
    Evaluates parser (⟨top ++ below, false, context⟩, token :: rest) context
      result fun value after =>
        (⟨⟨target, head, value⟩ :: below, false, after⟩, token :: rest) := by
  refine ⟨context, .refl context, ?_⟩
  cases result with
  | ok value =>
      exact fun ending concludes => .kept
        (serves.kept_of_reduce acts size isHead edge handled) concludes
  | error failure =>
      exact .failed (serves.failed_of_reduce acts size handled)

/-- A production whose value is there already is reduced. -/
theorem leads_reduce
    (serves : Serves parser)
    (top : List (Frame Value))
    {value : Option Value}
    (acts : action (topState (top ++ below)) token.symbol =
      some (.reduce production))
    (size : (rules.body production).length = top.length)
    (edge : goto (topState below) head = some target)
    (isHead : rules.head? production = some head)
    (handled : bindings.reduce production ⟨(top.map Frame.value).reverse⟩
      context = (.ok value, after))
    (rest : List Token) :
    Leads parser (⟨top ++ below, false, context⟩, token :: rest)
      (⟨⟨target, head, value⟩ :: below, false, after⟩, token :: rest) :=
  fun _ concludes => .kept
    (serves.kept_of_reduce acts size isHead edge handled) concludes

end Serves

/-! ## Expressions -/

/-- The states in which an expression of some level starts. -/
def opens : Level → List Nat
  | .sum => [0, 4, 9, 13]
  | .product => [0, 4, 9, 13, 14, 15]
  | .factor => [0, 3, 4, 9, 13, 14, 15, 16, 17]

/-- The symbols that come after an expression of some level that starts in the
given state. -/
def closes (level : Level) (state : Nat) : SymbolSet :=
  (if level = .sum then [0, 5, 6, 11, 12] else afterExpression).filter
    fun symbol => symbol != 11 || (state != 0 && state != 13)

/-- The state after an expression that starts in the given state. -/
def stateAfter (state : Nat) : Nat := (goto state 18).getD 0

/-- The state after the name with which an expression starts. -/
def stateAfterName (state : Nat) : Nat :=
  if state = 0 ∨ state = 13 then 2 else 10

theorem opens_subset (level : Level) :
    ∀ {state}, state ∈ opens level → state ∈ opens .factor := by
  intro state opening
  cases level with
  | factor => exact opening
  | product => exact (by decide : opens .product ⊆ opens .factor) opening
  | sum => exact (by decide : opens .sum ⊆ opens .factor) opening

theorem action_of_opens :
    ∀ state ∈ opens .factor,
      action state 3 = some (.shift 1) ∧
      action state 4 = some (.shift (stateAfterName state)) ∧
      action state 6 = some (.shift 3) ∧
      action state 10 = some (.shift 4) ∧
      goto state 18 = some (stateAfter state) := by
  decide

theorem action_afterName :
    ∀ state ∈ opens .factor, ∀ symbol ∈ closes .factor state,
      action (stateAfterName state) symbol = some (.reduce 7) := by
  decide

theorem action_afterExpression :
    ∀ symbol ∈ afterExpression,
      action 1 symbol = some (.reduce 6) ∧
      action 11 symbol = some (.reduce 12) ∧
      action 19 symbol = some (.reduce 13) := by
  decide

theorem mem_afterExpression
    {level : Level}
    {state : Nat}
    {symbol : SymbolId}
    (closing : symbol ∈ closes level state) :
    symbol ∈ afterExpression := by
  have listed := List.mem_of_mem_filter closing
  split at listed
  · revert listed
    exact fun listed => (by decide : [0, 5, 6, 11, 12] ⊆ afterExpression) listed
  · exact listed

namespace Operator

/-- The state after an operator. -/
def state : Operator → Nat
  | add => 14
  | subtract => 15
  | multiply => 16
  | divide => 17

theorem symbol_ne (operator : Operator) :
    operator.symbol ≠ 3 ∧ operator.symbol ≠ 4 := by
  cases operator <;> decide

theorem length_body (operator : Operator) :
    (rules.body operator.production).length = 3 := by
  cases operator <;> rfl

theorem head?_production (operator : Operator) :
    rules.head? operator.production = some 18 := by
  cases operator <;> rfl

theorem symbol_mem_closes (operator : Operator) :
    ∀ state ∈ opens operator.level,
      operator.symbol ∈ closes operator.level state ∧
      action (stateAfter state) operator.symbol =
        some (.shift operator.state) := by
  cases operator <;> decide

theorem state_mem_opens (operator : Operator) :
    operator.state ∈ opens operator.rightLevel ∧
      closes operator.rightLevel operator.state = afterExpression := by
  cases operator <;> decide

theorem action_stateAfter (operator : Operator) :
    ∀ state ∈ opens operator.level, ∀ symbol ∈ closes operator.level state,
      action (stateAfter operator.state) symbol =
        some (.reduce operator.production) := by
  cases operator <;> decide

end Operator

/-- Names tell the symbols apart. -/
theorem eq_of_name
    {symbol expected : SymbolId}
    (inside : expected < 19)
    (named : grammar.name symbol = grammar.name expected) :
    symbol = expected := by
  have distinct : ∀ symbol < 19, ∀ expected < 19,
      grammar.name symbol = grammar.name expected → symbol = expected := by
    decide +kernel
  by_cases known : symbol < 19
  · exact distinct symbol known expected inside named
  · have unknown : grammar.name symbol = "?" := by
      have outside : grammar.symbols[symbol]? = none :=
        Array.getElem?_eq_none (Nat.le_of_not_lt known)
      rw [Grammar.name, outside]
      rfl
    have noneUnknown : ∀ expected < 19, "?" ≠ grammar.name expected := by
      decide +kernel
    exact absurd (unknown ▸ named) (noneUnknown expected inside)

theorem Operator.symbol_of_name
    {operator : Operator}
    {symbol : SymbolId}
    (named : grammar.name symbol = operator.terminal) :
    symbol = operator.symbol := by
  cases operator <;> exact eq_of_name (by decide) named

/-- From each state in which an expression of some level starts, the parser goes
over tokens, computes the value of an expression, and goes to the state after
it. -/
def Computes (parser : Parser SymbolTable Failure Value) (level : Level)
    (expression : Expression) (tokens : List Token) : Prop :=
  ∀ (frames : List (Frame Value)) (context : SymbolTable) (next : Token)
    (rest : List Token), topState frames ∈ opens level →
    next.symbol ∈ closes level (topState frames) →
    Evaluates parser (⟨frames, false, context⟩, tokens ++ next :: rest) context
      (expression.value context.lookup) fun number after =>
        (⟨⟨stateAfter (topState frames), 18, some (.number number)⟩ :: frames,
          false, after⟩, next :: rest)

/-- Where a product starts, a factor may. -/
theorem Computes.product
    {expression : Expression}
    {tokens : List Token}
    (computes : Computes parser .factor expression tokens) :
    Computes parser .product expression tokens :=
  fun frames context next rest opening closing =>
    computes frames context next rest (opens_subset _ opening) closing

/-- Where a sum starts, a product may. -/
theorem Computes.sum
    {expression : Expression}
    {tokens : List Token}
    (computes : Computes parser .product expression tokens) :
    Computes parser .sum expression tokens := by
  have opensProduct : ∀ state ∈ opens .sum, state ∈ opens .product := by
    decide
  have closesProduct : ∀ state ∈ opens .sum, ∀ symbol ∈ closes .sum state,
      symbol ∈ closes .product state := by
    decide
  exact fun frames context next rest opening closing =>
    computes frames context next rest (opensProduct _ opening)
      (closesProduct _ opening _ closing)

namespace Serves

theorem computes_number
    (serves : Serves parser)
    (isNumber : token.symbol = 3) :
    Computes parser .factor (.number token.text) [token] := by
  intro frames context next rest opening closing
  obtain ⟨acts, -, -, -, edge⟩ := action_of_opens _ opening
  obtain ⟨reduces, -, -⟩ :=
    action_afterExpression _ (mem_afterExpression closing)
  have handled := token_number token.text context context.lookup
  rw [← isNumber] at acts handled
  have shifted := (serves.evaluates_shift acts handled (.refl context)
    (next :: rest)).of_valueOf
  exact shifted.then_leads fun number after =>
    serves.leads_reduce [⟨1, token.symbol, some (.number number)⟩] reduces rfl
      edge rfl rfl rest

theorem computes_name
    (serves : Serves parser)
    (isName : token.symbol = 4) :
    Computes parser .factor (.name token.text) [token] := by
  intro frames context next rest opening closing
  obtain ⟨-, acts, -, -, edge⟩ := action_of_opens _ opening
  have reduces := action_afterName _ opening _ closing
  obtain ⟨kept, found⟩ := context.extends_intern token.text
  have shifted := serves.leads_name (isName ▸ acts) isName context (next :: rest)
  have referred := (serves.evaluates_reduce
    [⟨stateAfterName (topState frames), token.symbol,
      some (.name (context.intern token.text).1)⟩] reduces rfl edge rfl
    (reduce_reference found) rest).of_valueOf
  rw [kept.lookup] at referred
  exact (referred.of_extends kept).of_leads shifted

theorem computes_negation
    (serves : Serves parser)
    {operand : Expression}
    {tokens : List Token}
    (isSign : token.symbol = 6)
    (computes : Computes parser .factor operand tokens) :
    Computes parser .factor (.negation operand) (token :: tokens) := by
  intro frames context next rest opening closing
  obtain ⟨-, -, acts, -, edge⟩ := action_of_opens _ opening
  have closingInner := mem_afterExpression closing
  obtain ⟨-, reduces, -⟩ := action_afterExpression _ closingInner
  have shifted := serves.leads_shift frames (isSign ▸ acts) (by simp [isSign])
    (by simp [isSign]) context (tokens ++ next :: rest)
  have inner := computes (⟨3, token.symbol, none⟩ :: frames) context next rest
    (by decide : 3 ∈ opens .factor) closingInner
  refine (inner.bind fun number after _ => ?_).of_leads shifted
  exact (serves.evaluates_reduce
    [⟨11, 18, some (.number number)⟩, ⟨3, token.symbol, none⟩] reduces rfl edge
    rfl (reduce_negation number after) rest).of_valueOf

theorem computes_parentheses
    (serves : Serves parser)
    {left right : Token}
    {inner : Expression}
    {tokens : List Token}
    (isLeft : left.symbol = 10)
    (isRight : right.symbol = 11)
    (computes : Computes parser .sum inner tokens) :
    Computes parser .factor inner (left :: tokens ++ [right]) := by
  intro frames context next rest opening closing
  obtain ⟨-, -, -, acts, edge⟩ := action_of_opens _ opening
  obtain ⟨-, -, reduces⟩ :=
    action_afterExpression _ (mem_afterExpression closing)
  have shifted := serves.leads_shift frames (isLeft ▸ acts) (by simp [isLeft])
    (by simp [isLeft]) context (tokens ++ right :: next :: rest)
  have computed := computes (⟨4, left.symbol, none⟩ :: frames) context right
    (next :: rest) (by decide : 4 ∈ opens .sum)
    (isRight ▸ (by decide : 11 ∈ closes .sum 4))
  have closed : action 12 right.symbol = some (.shift 19) := isRight ▸ rfl
  rw [List.append_assoc, List.singleton_append]
  refine (computed.then_leads fun number after => ?_).of_leads shifted
  have shiftedRight := serves.leads_shift
    (⟨12, 18, some (.number number)⟩ :: ⟨4, left.symbol, none⟩ :: frames)
    closed (by simp [isRight]) (by simp [isRight]) after (next :: rest)
  have handled : bindings.reduce 13 ⟨[none, some (.number number), none]⟩
    after = (.ok (some (.number number)), after) := rfl
  have reduced := serves.leads_reduce
    [⟨19, right.symbol, none⟩, ⟨12, 18, some (.number number)⟩,
      ⟨4, left.symbol, none⟩] reduces rfl edge rfl handled rest
  exact fun ending concludes => shiftedRight ending (reduced ending concludes)

theorem computes_binary
    (serves : Serves parser)
    {operator : Operator}
    {left right : Expression}
    {leftTokens rightTokens : List Token}
    (isOperator : token.symbol = operator.symbol)
    (computesLeft : Computes parser operator.level left leftTokens)
    (computesRight : Computes parser operator.rightLevel right rightTokens) :
    Computes parser operator.level (.binary operator left right)
      (leftTokens ++ token :: rightTokens) := by
  intro frames context next rest opening closing
  obtain ⟨follows, acts⟩ := operator.symbol_mem_closes _ opening
  obtain ⟨openingRight, closesRight⟩ := operator.state_mem_opens
  obtain ⟨notNumber, notName⟩ := operator.symbol_ne
  obtain ⟨-, -, -, -, edge⟩ := action_of_opens _ (opens_subset _ opening)
  have reduces := operator.action_stateAfter _ opening _ closing
  have computed := computesLeft frames context token
    (rightTokens ++ next :: rest) opening (isOperator ▸ follows)
  rw [List.append_assoc]
  refine computed.bind fun leftNumber middle kept => ?_
  have shifted := serves.leads_shift
    (⟨stateAfter (topState frames), 18, some (.number leftNumber)⟩ :: frames)
    (isOperator ▸ acts) (isOperator ▸ notNumber) (isOperator ▸ notName) middle
    (rightTokens ++ next :: rest)
  have computedRight := computesRight
    (⟨operator.state, token.symbol, none⟩ ::
      ⟨stateAfter (topState frames), 18, some (.number leftNumber)⟩ :: frames)
    middle next rest openingRight (closesRight ▸ mem_afterExpression closing)
  rw [kept.lookup] at computedRight
  refine (computedRight.bind fun rightNumber after _ => ?_).of_leads shifted
  exact (serves.evaluates_reduce
    [⟨stateAfter operator.state, 18, some (.number rightNumber)⟩,
      ⟨operator.state, token.symbol, none⟩,
      ⟨stateAfter (topState frames), 18, some (.number leftNumber)⟩]
    reduces operator.length_body edge operator.head?_production
    (operator.reduce_production leftNumber rightNumber after)
    rest).of_valueOf

/-- The parser computes the value of an expression from the tokens that spell
it. -/
theorem computes_of_spells
    (serves : Serves parser)
    {level : Level}
    {expression : Expression}
    {tokens : List Token}
    (spells : expression.Spells grammar level tokens) :
    Computes parser level expression tokens := by
  induction spells with
  | number isNumber =>
      exact serves.computes_number (eq_of_name (by decide) isNumber)
  | name isName => exact serves.computes_name (eq_of_name (by decide) isName)
  | negation isSign _ computes =>
      exact serves.computes_negation (eq_of_name (by decide) isSign) computes
  | parentheses isLeft isRight _ computes =>
      exact serves.computes_parentheses (eq_of_name (by decide) isLeft)
        (eq_of_name (by decide) isRight) computes
  | factor _ computes => exact computes.product
  | product _ computes => exact computes.sum
  | binary isOperator _ _ computesLeft computesRight =>
      exact serves.computes_binary (Operator.symbol_of_name isOperator)
        computesLeft computesRight

end Serves

/-! ## Statements -/

/-- From a situation with the given values of variables, the result of a
statement is computed and the parse goes on with the variables after it, or the
parse fails with the variables as they were. -/
def Performs (parser : Parser SymbolTable Failure Value)
    (situation : Situation SymbolTable Value) (environment : Environment)
    (result : Except Failure (Option Int × Environment))
    (next : Option Int → SymbolTable → Situation SymbolTable Value) : Prop :=
  ∃ after, match result with
    | .ok (value, final) =>
        after.lookup = final ∧ Leads parser situation (next value after)
    | .error failure =>
        after.lookup = environment ∧
          parser.Concludes situation (.failed (.handler failure) after)

namespace Performs

variable {environment : Environment}
  {next : Option Int → SymbolTable → Situation SymbolTable Value}

theorem of_leads
    {result : Except Failure (Option Int × Environment)}
    {middle : Situation SymbolTable Value}
    (performs : Performs parser middle environment result next)
    (leads : Leads parser situation middle) :
    Performs parser situation environment result next := by
  obtain ⟨after, goesOn⟩ := performs
  refine ⟨after, ?_⟩
  cases result with
  | ok pair =>
      exact ⟨goesOn.1, fun ending concludes => leads _ (goesOn.2 _ concludes)⟩
  | error failure => exact ⟨goesOn.1, leads _ goesOn.2⟩

/-- A statement ends with the value of its expression. -/
theorem of_evaluates
    {result : Except Failure Int}
    {middle : Int → SymbolTable → Situation SymbolTable Value}
    {environmentAfter : Int → Environment}
    (evaluates : Evaluates parser situation context result middle)
    (finishes : ∀ number after, context.Extends after → ∃ last,
      last.lookup = environmentAfter number ∧
        Leads parser (middle number after) (next (some number) last)) :
    Performs parser situation context.lookup
      (do
        let number ← result
        return (some number, environmentAfter number)) next := by
  obtain ⟨after, kept, goesOn⟩ := evaluates
  cases result with
  | error failure => exact ⟨after, kept.lookup, goesOn⟩
  | ok number =>
      obtain ⟨last, isLast, leads⟩ := finishes number after kept
      exact ⟨last, isLast,
        fun ending concludes => goesOn _ (leads _ concludes)⟩

end Performs

/-- The states in which a statement starts. -/
def statementStates : List Nat := [0, 13]

/-- The state after a statement that starts in the given state. -/
def stateAfterStatement (state : Nat) : Nat := (goto state 17).getD 0

theorem action_of_statementStates :
    ∀ state ∈ statementStates,
      action state 4 = some (.shift 2) ∧
      goto state 17 = some (stateAfterStatement state) ∧
      stateAfter state = 8 ∧
      state ∈ opens .sum := by
  decide

theorem action_afterStatement :
    ∀ symbol ∈ afterStatement,
      (∀ state ∈ statementStates, action state symbol = some (.reduce 3)) ∧
      (∀ state ∈ opens .sum, symbol ∈ closes .sum state) ∧
      action 8 symbol = some (.reduce 4) ∧
      action 18 symbol = some (.reduce 5) ∧
      action 7 symbol = some (.reduce 2) ∧
      action 20 symbol = some (.reduce 1) := by
  decide

/-- The parser goes over the tokens of a statement and computes its result. -/
theorem Serves.performs_of_spells
    (serves : Serves parser)
    {statement : Statement}
    {tokens : List Token}
    (spells : statement.Spells grammar tokens)
    (context : SymbolTable)
    {next : Token}
    (rest : List Token)
    (opening : topState frames ∈ statementStates)
    (closing : next.symbol ∈ afterStatement) :
    Performs parser (⟨frames, false, context⟩, tokens ++ next :: rest)
      context.lookup (statement.result context.lookup) fun result after =>
        (⟨⟨stateAfterStatement (topState frames), 17,
          result.map Value.number⟩ :: frames, false, after⟩,
          next :: rest) := by
  obtain ⟨named, edge, isAfter, opensSum⟩ :=
    action_of_statementStates _ opening
  obtain ⟨reducesEmpty, closesSum, reduces, reducesAssigned, -, -⟩ :=
    action_afterStatement _ closing
  cases spells with
  | empty =>
      have handled : bindings.reduce 3 ⟨[]⟩ context = (.ok none, context) := rfl
      exact ⟨context, rfl, serves.leads_reduce [] (reducesEmpty _ opening) rfl
        edge rfl handled rest⟩
  | expression spells =>
      have computed := serves.computes_of_spells spells frames context next rest
        opensSum (closesSum _ opensSum)
      rw [isAfter] at computed
      refine .of_evaluates computed fun number after kept =>
        ⟨after, kept.lookup, ?_⟩
      exact serves.leads_reduce [⟨8, 18, some (.number number)⟩] reduces rfl
        edge rfl rfl rest
  | @assignment name equals expression tokens isName isEquals spells =>
      have nameSymbol : name.symbol = 4 := eq_of_name (by decide) isName
      have equalsSymbol : equals.symbol = 9 := eq_of_name (by decide) isEquals
      have assigns : action 2 equals.symbol = some (.shift 9) := by
        rw [equalsSymbol]
        rfl
      obtain ⟨kept, found⟩ := context.extends_intern name.text
      have shiftedName := serves.leads_name (nameSymbol ▸ named) nameSymbol
        context (equals :: tokens ++ next :: rest)
      have shiftedEquals := serves.leads_shift
        (⟨2, name.symbol, some (.name (context.intern name.text).1)⟩ :: frames)
        assigns (by simp [equalsSymbol]) (by simp [equalsSymbol])
        (context.intern name.text).2 (tokens ++ next :: rest)
      have computed := serves.computes_of_spells spells
        (⟨9, equals.symbol, none⟩ ::
          ⟨2, name.symbol, some (.name (context.intern name.text).1)⟩ ::
            frames) (context.intern name.text).2 next rest
        (by decide : 9 ∈ opens .sum) (closesSum 9 (by decide))
      rw [← kept.lookup]
      refine .of_leads (.of_leads (.of_evaluates computed
        fun number after keptAfter => ?_) shiftedEquals) shiftedName
      obtain ⟨last, handled, isLast⟩ :=
        exists_reduce_assignment (keptAfter.index? found) number
      refine ⟨last, by rw [isLast, keptAfter.lookup], ?_⟩
      exact serves.leads_reduce
        [⟨18, 18, some (.number number)⟩, ⟨9, equals.symbol, none⟩,
          ⟨2, name.symbol, some (.name (context.intern name.text).1)⟩]
        reducesAssigned rfl edge rfl handled rest

/-! ## Programs -/

/-- Stacks in front of a statement, with the results of the statements before
it. -/
inductive Awaits : List (Frame Value) → List (Option Int) → Prop
  | first : Awaits [] []
  | more (symbol : SymbolId) (results : List (Option Int)) :
      Awaits [⟨13, symbol, none⟩, ⟨6, 16, some (.results results)⟩] results

namespace Awaits

variable {results : List (Option Int)}

theorem mem_statementStates (awaits : Awaits frames results) :
    topState frames ∈ statementStates := by
  cases awaits with
  | first => exact (by decide : 0 ∈ statementStates)
  | more => exact (by decide : 13 ∈ statementStates)

/-- The result of a statement is added to those before it. -/
theorem leads_add
    (serves : Serves parser)
    (awaits : Awaits frames results)
    (result : Option Int)
    (context : SymbolTable)
    {next : Token}
    (rest : List Token)
    (closing : next.symbol ∈ afterStatement) :
    Leads parser
      (⟨⟨stateAfterStatement (topState frames), 17,
        result.map Value.number⟩ :: frames, false, context⟩, next :: rest)
      (⟨[⟨6, 16, some (.results (results ++ [result]))⟩], false, context⟩,
        next :: rest) := by
  obtain ⟨-, -, -, -, reducesFirst, reducesMore⟩ :=
    action_afterStatement _ closing
  cases awaits with
  | first =>
      exact serves.leads_reduce [⟨7, 17, result.map Value.number⟩] reducesFirst
        rfl rfl rfl (reduce_single result context) rest
  | more symbol =>
      exact serves.leads_reduce
        [⟨20, 17, result.map Value.number⟩, ⟨13, symbol, none⟩,
          ⟨6, 16, some (.results results)⟩] reducesMore rfl rfl rfl
        (reduce_more results result context) rest

end Awaits

/-- The end of a parse that computes the results of statements after those of
others. -/
def endingOf (results : List (Option Int)) (after : SymbolTable) :
    Except Failure (List (Option Int)) → Ending SymbolTable Failure Value
  | .ok others => .accepted (some (.results (results ++ others))) after
  | .error failure => .failed (.handler failure) after

/-- At the end of the source the results are accepted. -/
theorem Serves.concludes_accepted
    (serves : Serves parser)
    (results : List (Option Int))
    (context : SymbolTable)
    (atEnd : token.symbol = 0) :
    parser.Concludes
      (⟨[⟨6, 16, some (.results results)⟩], false, context⟩, [token])
      (.accepted (some (.results results)) context) := by
  have reduces : action 6 token.symbol = some (.reduce 0) := by
    rw [atEnd]
    rfl
  have accepts : action 5 token.symbol = some .accept := by
    rw [atEnd]
    rfl
  have handled : bindings.reduce 0 ⟨[some (.results results)]⟩ context =
    (.ok (some (.results results)), context) := rfl
  refine serves.leads_reduce [⟨6, 16, some (.results results)⟩] reduces rfl
    (rfl : goto (topState []) 15 = some 5) rfl handled [] _ ?_
  have accepted := serves.outcome_eq
    [⟨5, 15, some (.results results)⟩] context token
  rw [show topState _ = 5 from rfl, accepts] at accepted
  exact .accepted accepted

/-- The parser goes over the tokens of a program and ends with its results. -/
theorem Serves.concludes_of_spells
    (serves : Serves parser)
    {program : Program}
    {tokens : List Token}
    (spells : program.Spells grammar tokens)
    {results : List (Option Int)}
    (awaits : Awaits frames results)
    (context : SymbolTable)
    (atEnd : token.symbol = 0) :
    ∃ after, after.lookup = (program.run context.lookup).2 ∧
      parser.Concludes (⟨frames, false, context⟩, tokens ++ [token])
        (endingOf results after (program.run context.lookup).1) := by
  induction spells generalizing frames results context with
  | @single statement tokens spells =>
      have closing : token.symbol ∈ afterStatement := by
        rw [atEnd]
        decide
      obtain ⟨after, goesOn⟩ := serves.performs_of_spells spells context []
        awaits.mem_statementStates closing
      refine ⟨after, ?_⟩
      rw [Program.run]
      cases performed : statement.result context.lookup with
      | error failure =>
          simp only [performed] at goesOn
          exact goesOn
      | ok pair =>
          obtain ⟨result, environment⟩ := pair
          simp only [performed] at goesOn
          refine ⟨goesOn.1, goesOn.2 _ ?_⟩
          exact awaits.leads_add serves result after [] closing _
            (serves.concludes_accepted (results ++ [result]) after atEnd)
  | @more statement program divider tokens others isDivider spells rest
      inductionHypothesis =>
      have isSymbol : divider.symbol = 12 := eq_of_name (by decide) isDivider
      have closing : divider.symbol ∈ afterStatement := by
        rw [isSymbol]
        decide
      obtain ⟨after, goesOn⟩ := serves.performs_of_spells spells context
        (others ++ [token]) awaits.mem_statementStates closing
      rw [Program.run, List.append_assoc]
      cases performed : statement.result context.lookup with
      | error failure =>
          simp only [performed] at goesOn
          exact ⟨after, goesOn⟩
      | ok pair =>
          obtain ⟨result, environment⟩ := pair
          simp only [performed] at goesOn
          obtain ⟨rfl, goesOn⟩ := goesOn
          have divides : action 6 divider.symbol = some (.shift 13) := by
            rw [isSymbol]
            rfl
          have shifted := serves.leads_shift
            [⟨6, 16, some (.results (results ++ [result]))⟩] divides
            (by simp [isSymbol]) (by simp [isSymbol]) after (others ++ [token])
          obtain ⟨last, isLast, concludes⟩ :=
            inductionHypothesis (.more divider.symbol (results ++ [result])) after
          refine ⟨last, isLast, goesOn _ ?_⟩
          refine awaits.leads_add serves result after _ closing _
            (shifted _ ?_)
          dsimp only
          cases ran : (program.run after.lookup).1 with
          | ok values => simpa [ran, endingOf, Except.map] using concludes
          | error failure => simpa [ran, endingOf, Except.map] using concludes

end Calculator
end ParserGenerator
