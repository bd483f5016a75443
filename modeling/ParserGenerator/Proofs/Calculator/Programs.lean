import ParserGenerator.Proofs.Calculator.Evaluation
import ParserGenerator.Proofs.Parse.Safety

/-!
# What the calculator accepts

The parser of the calculator comes to an end whatever tokens it is given, and
what it accepts is spelled by a program. The grammar of expressions is
ambiguous, but the tokens that it admits are those of sums of products of
factors: an operator may be put between any two sums, and a sign in front of
one.
-/

open ParserGenerator.Parse

namespace ParserGenerator
namespace Calculator

open Table (Rules)

/-! ## Phrases -/

/-- Tokens that spell some expression of a level. -/
def Level.Phrase (level : Level) (tokens : List Token) : Prop :=
  ∃ expression : Expression, expression.Spells grammar level tokens

section Phrases

variable {operator : Operator} {level : Level} {token : Token}
  {tokens leftTokens rightTokens : List Token}

theorem Level.Phrase.binary
    (isOperator : grammar.name token.symbol = operator.terminal)
    (left : operator.level.Phrase leftTokens)
    (right : operator.rightLevel.Phrase rightTokens) :
    operator.level.Phrase (leftTokens ++ token :: rightTokens) := by
  obtain ⟨leftExpression, leftSpells⟩ := left
  obtain ⟨rightExpression, rightSpells⟩ := right
  exact ⟨_, .binary isOperator leftSpells rightSpells⟩

theorem Level.Phrase.product
    (phrase : Level.product.Phrase tokens) :
    Level.sum.Phrase tokens := by
  obtain ⟨expression, spells⟩ := phrase
  exact ⟨expression, .product spells⟩

theorem Level.Phrase.factor
    (phrase : Level.factor.Phrase tokens) :
    Level.product.Phrase tokens := by
  obtain ⟨expression, spells⟩ := phrase
  exact ⟨expression, .factor spells⟩

/-- The expressions that operators are put between are of the level of sums or
of products, and their right sides are of the next one. -/
theorem Operator.level_cases (operator : Operator) :
    operator.level = .sum ∧ operator.rightLevel = .product ∨
      operator.level = .product ∧ operator.rightLevel = .factor := by
  cases operator <;> decide

/-- An operator between two expressions of its level makes another one: the
right one is taken apart from the right. -/
theorem Level.Phrase.between
    (isOperator : grammar.name token.symbol = operator.terminal)
    (left : operator.level.Phrase leftTokens)
    (right : operator.level.Phrase rightTokens) :
    operator.level.Phrase (leftTokens ++ token :: rightTokens) := by
  obtain ⟨expression, spells⟩ := right
  generalize isLevel : operator.level = level at spells
  have levels := operator.level_cases
  induction spells with
  | number | name | negation | parentheses => simp [isLevel] at levels
  | factor spells _ =>
      have isRight : operator.rightLevel = .factor := by
        simpa [isLevel] using levels
      rw [← isLevel]
      exact .binary isOperator left ⟨_, isRight ▸ spells⟩
  | product spells _ =>
      have isRight : operator.rightLevel = .product := by
        simpa [isLevel] using levels
      rw [← isLevel]
      exact .binary isOperator left ⟨_, isRight ▸ spells⟩
  | binary isOther _ rightSpells inductionHypothesis _ =>
      have longer := Level.Phrase.binary isOther (inductionHypothesis isLevel)
        ⟨_, rightSpells⟩
      rwa [List.append_assoc] at longer

/-- A product binds to the last product of a sum. -/
theorem Level.Phrase.sum_between_product
    (isOperator : grammar.name token.symbol = operator.terminal)
    (isProduct : operator.level = .product)
    (left : Level.sum.Phrase leftTokens)
    (right : Level.product.Phrase rightTokens) :
    Level.sum.Phrase (leftTokens ++ token :: rightTokens) := by
  obtain ⟨expression, spells⟩ := left
  generalize isLevel : Level.sum = level at spells
  cases spells with
  | number | name | negation | parentheses | factor => simp at isLevel
  | product spells =>
      refine Level.Phrase.product ?_
      rw [← isProduct] at right ⊢
      exact .between isOperator ⟨_, isProduct ▸ spells⟩ right
  | @binary other otherToken _ _ tokens others isOther leftSpells rightSpells =>
      have isRight : other.rightLevel = .product := by
        simpa [← isLevel] using other.level_cases
      have joined : operator.level.Phrase (others ++ token :: rightTokens) :=
        .between isOperator ⟨_, isProduct ▸ isRight ▸ rightSpells⟩
          (isProduct ▸ right)
      rw [isProduct, ← isRight] at joined
      have longer := Level.Phrase.binary isOther ⟨_, leftSpells⟩ joined
      rwa [List.append_assoc, List.cons_append]

/-- Any operator may be put between two sums. -/
theorem Level.Phrase.sum_between
    (isOperator : grammar.name token.symbol = operator.terminal)
    (left : Level.sum.Phrase leftTokens)
    (right : Level.sum.Phrase rightTokens) :
    Level.sum.Phrase (leftTokens ++ token :: rightTokens) := by
  rcases operator.level_cases with ⟨isSum, -⟩ | ⟨isProduct, -⟩
  · rw [← isSum] at left right ⊢
    exact .between isOperator left right
  · obtain ⟨expression, spells⟩ := right
    generalize isLevel : Level.sum = level at spells
    induction spells with
    | number | name | negation | parentheses | factor => simp at isLevel
    | product spells _ =>
        exact left.sum_between_product isOperator isProduct ⟨_, spells⟩
    | binary isOther _ rightSpells inductionHypothesis _ =>
        have longer := Level.Phrase.binary isOther
          (inductionHypothesis isLevel) ⟨_, rightSpells⟩
        rwa [List.append_assoc] at longer

/-- A sign may be put in front of an expression of any level: it belongs to the
first factor. -/
theorem Level.Phrase.sign
    (isSign : grammar.name token.symbol = "minus")
    (phrase : level.Phrase tokens) :
    level.Phrase (token :: tokens) := by
  obtain ⟨expression, spells⟩ := phrase
  induction spells with
  | number isNumber => exact ⟨_, .negation isSign (.number isNumber)⟩
  | name isName => exact ⟨_, .negation isSign (.name isName)⟩
  | negation isOther spells _ =>
      exact ⟨_, .negation isSign (.negation isOther spells)⟩
  | parentheses isLeft isRight spells _ =>
      exact ⟨_, .negation isSign (.parentheses isLeft isRight spells)⟩
  | factor _ inductionHypothesis => exact inductionHypothesis.factor
  | product _ inductionHypothesis => exact inductionHypothesis.product
  | binary isOperator _ rightSpells inductionHypothesis _ =>
      exact .binary isOperator inductionHypothesis ⟨_, rightSpells⟩

/-- One more statement may come after a program. -/
theorem Program.Spells.concat
    {program : Program}
    {statement : Statement}
    {divider : Token}
    {others : List Token}
    (isDivider : grammar.name divider.symbol = "semicolon")
    (spells : program.Spells grammar tokens)
    (last : statement.Spells grammar others) :
    (program ++ [statement]).Spells grammar (tokens ++ divider :: others) := by
  induction spells with
  | single spells => exact .more isDivider spells (.single last)
  | more isOther spells _ inductionHypothesis =>
      rw [List.append_assoc]
      exact .more isOther spells inductionHypothesis

end Phrases

/-! ## What is on the stack -/

/-- What a symbol on the stack stands for: a non-terminal for the tokens that
spell a program, a statement or a sum, and any other symbol for a token. -/
def Stands : SymbolId → List Token → Prop
  | 15, tokens => ∃ program : Program, program.Spells grammar tokens
  | 16, tokens => ∃ program : Program, program.Spells grammar tokens
  | 17, tokens => ∃ statement : Statement, statement.Spells grammar tokens
  | 18, tokens => Level.sum.Phrase tokens
  | symbol, tokens => ∃ token : Token, token.symbol = symbol ∧ tokens = [token]

/-- What symbols one after the other stand for. -/
inductive Covers : List SymbolId → List Token → Prop
  | nil : Covers [] []
  | cons
      {symbol : SymbolId}
      {symbols : List SymbolId}
      {tokens others : List Token}
      (stands : Stands symbol tokens)
      (rest : Covers symbols others) :
      Covers (symbol :: symbols) (tokens ++ others)

section Covers

variable {symbol : SymbolId} {symbols others : List SymbolId}
  {tokens : List Token}

theorem stands_token
    {token : Token}
    (isTerminal : token.symbol < 15) :
    Stands token.symbol [token] := by
  unfold Stands
  split
  · next isProgram => simp [isProgram] at isTerminal
  · next isProgram => simp [isProgram] at isTerminal
  · next isStatement => simp [isStatement] at isTerminal
  · next isExpression => simp [isExpression] at isTerminal
  · exact ⟨token, rfl, rfl⟩

theorem Covers.concat
    {more : List Token}
    (covers : Covers symbols tokens)
    (stands : Stands symbol more) :
    Covers (symbols ++ [symbol]) (tokens ++ more) := by
  induction covers with
  | nil =>
      have covers := Covers.cons stands .nil
      rwa [List.append_nil] at covers
  | cons first _ inductionHypothesis =>
      rw [List.append_assoc]
      exact .cons first inductionHypothesis

theorem Covers.split
    (covers : Covers (symbols ++ others) tokens) :
    ∃ before after, tokens = before ++ after ∧ Covers symbols before ∧
      Covers others after := by
  induction symbols generalizing tokens with
  | nil => exact ⟨[], tokens, rfl, .nil, covers⟩
  | cons symbol symbols inductionHypothesis =>
      cases covers with
      | cons stands rest =>
          obtain ⟨before, after, rfl, covers, remains⟩ :=
            inductionHypothesis rest
          exact ⟨_, after, (List.append_assoc _ _ _).symm, .cons stands covers,
            remains⟩

theorem Covers.exists_single
    (covers : Covers [symbol] tokens) :
    Stands symbol tokens := by
  cases covers with
  | cons stands rest =>
      cases rest
      rwa [List.append_nil]

theorem Covers.exists_cons
    (covers : Covers (symbol :: symbols) tokens) :
    ∃ first rest, tokens = first ++ rest ∧ Stands symbol first ∧
      Covers symbols rest := by
  cases covers with
  | cons stands rest => exact ⟨_, _, rfl, stands, rest⟩

/-- An operator between two expressions makes an expression. -/
theorem Covers.phrase_binary
    (operator : Operator)
    (covers : Covers [18, operator.symbol, 18] tokens) :
    Level.sum.Phrase tokens := by
  obtain ⟨left, _, rfl, leftPhrase, rest⟩ := covers.exists_cons
  obtain ⟨middle, right, rfl, stands, last⟩ := rest.exists_cons
  have rightPhrase : Level.sum.Phrase right := last.exists_single
  obtain ⟨token, isSymbol, rfl⟩ : ∃ token : Token,
      token.symbol = operator.symbol ∧ middle = [token] := by
    cases operator <;> exact stands
  have isOperator : grammar.name token.symbol = operator.terminal := by
    rw [isSymbol]
    cases operator <;> rfl
  exact Level.Phrase.sum_between isOperator leftPhrase rightPhrase

theorem Covers.phrase_sign (covers : Covers [6, 18] tokens) :
    Level.sum.Phrase tokens := by
  obtain ⟨_, operand, rfl, ⟨sign, isSign, rfl⟩, rest⟩ := covers.exists_cons
  have phrase : Level.sum.Phrase operand := rest.exists_single
  exact phrase.sign (by rw [isSign]; rfl)

theorem Covers.phrase_parentheses (covers : Covers [10, 18, 11] tokens) :
    Level.sum.Phrase tokens := by
  obtain ⟨_, _, rfl, ⟨left, isLeft, rfl⟩, rest⟩ := covers.exists_cons
  obtain ⟨inner, _, rfl, ⟨expression, spells⟩, last⟩ := rest.exists_cons
  obtain ⟨right, isRight, rfl⟩ : Stands 11 _ := last.exists_single
  exact ⟨expression, .product (.factor (.parentheses (by rw [isLeft]; rfl)
    (by rw [isRight]; rfl) spells))⟩

theorem Covers.statement_assignment (covers : Covers [4, 9, 18] tokens) :
    Stands 17 tokens := by
  obtain ⟨_, _, rfl, ⟨name, isName, rfl⟩, rest⟩ := covers.exists_cons
  obtain ⟨_, _, rfl, ⟨equals, isEquals, rfl⟩, last⟩ := rest.exists_cons
  obtain ⟨expression, spells⟩ : Stands 18 _ := last.exists_single
  exact ⟨_, .assignment (by rw [isName]; rfl) (by rw [isEquals]; rfl) spells⟩

theorem Covers.program_more (covers : Covers [16, 12, 17] tokens) :
    Stands 16 tokens := by
  obtain ⟨_, _, rfl, ⟨program, spells⟩, rest⟩ := covers.exists_cons
  obtain ⟨_, _, rfl, ⟨divider, isDivider, rfl⟩, last⟩ := rest.exists_cons
  obtain ⟨statement, lastSpells⟩ : Stands 17 _ := last.exists_single
  exact ⟨_, spells.concat (by rw [isDivider]; rfl) lastSpells⟩

/-- The head of a production stands for what its body stands for. -/
theorem Covers.stands
    {production : ProductionId}
    {head : SymbolId}
    (covers : Covers (rules.body production) tokens)
    (isHead : rules.head? production = some head) :
    Stands head tokens := by
  have inside : production < 14 := by
    obtain ⟨rule, found, -⟩ := Option.map_eq_some_iff.mp isHead
    exact (Array.getElem?_eq_some_iff.mp found).1
  interval_cases production <;> obtain rfl := Option.some.inj isHead
  · exact covers.exists_single
  · exact covers.program_more
  · obtain ⟨statement, spells⟩ : Stands 17 tokens := covers.exists_single
    exact ⟨[statement], .single spells⟩
  · cases covers with
    | nil => exact ⟨.empty, .empty⟩
  · obtain ⟨expression, spells⟩ : Stands 18 tokens := covers.exists_single
    exact ⟨.expression expression, .expression spells⟩
  · exact covers.statement_assignment
  · obtain ⟨token, isNumber, rfl⟩ : Stands 3 tokens := covers.exists_single
    exact ⟨_, .product (.factor (.number (by rw [isNumber]; rfl)))⟩
  · obtain ⟨token, isName, rfl⟩ : Stands 4 tokens := covers.exists_single
    exact ⟨_, .product (.factor (.name (by rw [isName]; rfl)))⟩
  · exact covers.phrase_binary .add
  · exact covers.phrase_binary .subtract
  · exact covers.phrase_binary .multiply
  · exact covers.phrase_binary .divide
  · exact covers.phrase_sign
  · exact covers.phrase_parentheses

end Covers

/-! ## Steps -/

/-- The symbols of frames, the lowest first. -/
def symbolsOf (frames : List (Frame Value)) : List SymbolId :=
  (frames.map Frame.symbol).reverse

@[simp] theorem symbolsOf_cons (frame : Frame Value)
    (frames : List (Frame Value)) :
    symbolsOf (frame :: frames) = symbolsOf frames ++ [frame.symbol] := by
  simp [symbolsOf]

/-- What a decision about a token can lead to. -/
inductive Act (frames : List (Frame Value)) (context : SymbolTable)
    (token : Token) : Outcome SymbolTable Failure Value → Prop
  | reduce
      {production : ProductionId}
      {head : SymbolId}
      {below : List (Frame Value)}
      {target : Nat}
      {value : Option Value}
      {after : SymbolTable}
      (acts : action (topState frames) token.symbol =
        some (.reduce production))
      (spelt : symbolsOf frames = symbolsOf below ++ rules.body production)
      (isHead : rules.head? production = some head)
      (edge : goto (topState below) head = some target) :
      Act frames context token
        (.kept ⟨⟨target, head, value⟩ :: below, false, after⟩)
  | shift
      {target : Nat}
      {value : Option Value}
      {after : SymbolTable}
      (acts : action (topState frames) token.symbol = some (.shift target)) :
      Act frames context token
        (.consumed ⟨⟨target, token.symbol, value⟩ :: frames, false, after⟩)
  | accept
      {value : Option Value}
      (acts : action (topState frames) token.symbol = some .accept) :
      Act frames context token (.accepted value ⟨frames, false, context⟩)
  | fail
      {cause : Cause Failure}
      {next : Configuration SymbolTable Value} :
      Act frames context token (.failed cause next)

namespace Serves

variable {parser : Parser SymbolTable Failure Value}
  {frames : List (Frame Value)}

/-- The body of a production that is reduced is on top of the stack. -/
theorem spelt_of_action
    (serves : Serves parser)
    (rooted : Rooted parser.compiled.table frames)
    {symbol : SymbolId}
    {production : ProductionId}
    (acts : action (topState frames) symbol = some (.reduce production)) :
    symbolsOf frames =
      symbolsOf (frames.drop (rules.body production).length) ++
        rules.body production := by
  rw [← serves.tabulates.action_eq] at acts
  obtain ⟨-, kernel, found, complete⟩ :=
    Rules.mem_closure_of_action_reduce serves.tabulates.built acts
  obtain ⟨-, spelt⟩ := rooted.spells_body serves.tabulates.built found complete
  have split := List.take_append_drop (rules.body production).length frames
  conv_lhs => rw [← split]
  simp only [symbolsOf, List.map_append, List.reverse_append, spelt]

/-- What the parser does about a token. -/
theorem act
    (serves : Serves parser)
    (rooted : Rooted parser.compiled.table frames)
    (context : SymbolTable)
    (token : Token) :
    Act frames context token
      (parser.outcome ⟨frames, false, context⟩ token) := by
  rw [serves.outcome_eq]
  split
  · next target acts =>
      generalize shifted : Configuration.shift bindings _ target token = outcome
      unfold Configuration.shift at shifted
      split at shifted
      · subst shifted
        exact .shift acts
      · subst shifted
        exact .fail
  · next production acts =>
      generalize reduced : Configuration.reduce rules _ bindings _ production =
        outcome
      rcases Configuration.reduce_outcome reduced with
        ⟨next, rfl⟩ | ⟨cause, next, rfl⟩
      · obtain ⟨head, value, after, target, -, isHead, edge, rfl⟩ :=
          Configuration.reduce_eq_kept reduced
        rw [serves.tabulates.goto_eq] at edge
        exact .reduce acts (serves.spelt_of_action rooted acts) isHead edge
      · exact .fail
  · next acts => exact .accept acts
  · exact .fail

theorem safe
    (serves : Serves parser)
    (rooted : Rooted parser.compiled.table frames)
    (context : SymbolTable)
    (token : Token) :
    (parser.outcome ⟨frames, false, context⟩ token).Safe
      parser.compiled.table :=
  Configuration.safe_step (serves.rules_eq.symm ▸ serves.tabulates.built)
    rooted token

end Serves

/-! ## Every parse ends -/

/-- How far a symbol is from being the goal. -/
def weight : SymbolId → Nat
  | 15 => 1
  | 16 => 2
  | 17 => 3
  | 18 => 4
  | _ => 5

/-- How many reductions there may be at most before a token is shifted: what is
on the stack becomes lighter, except that a statement may be empty. -/
def load (frames : List (Frame Value)) : Nat :=
  ((symbolsOf frames).map weight).sum +
    if topState frames ∈ statementStates then 4 else 0

/-- What is known about an action: a terminal is shifted, the end is accepted,
an empty statement is reduced where a statement starts, and any other production
is heavier than its head. -/
def fits (state : Nat) (symbol : SymbolId) : Table.Action → Bool
  | .shift _ => symbol != 0 && symbol < 15
  | .reduce production =>
      production == 3 && statementStates.contains state ||
        (rules.head? production).any fun head =>
          weight head < ((rules.body production).map weight).sum
  | .accept => symbol == 0

theorem fits_of_action
    {state : Nat}
    {symbol : SymbolId}
    {act : Table.Action}
    (acts : action state symbol = some act) :
    fits state symbol act = true := by
  have rows : ∀ state < 25, ∀ entry ∈ actionRows[state]?.getD [],
      fits state entry.1 entry.2 = true := by
    decide
  obtain ⟨row, found, listed⟩ := Option.bind_eq_some_iff.mp acts
  have inside : state < 25 := (List.getElem?_eq_some_iff.mp found).1
  refine rows state inside (symbol, act) ?_
  rw [found]
  exact Table.Analysis.mem_of_lookup listed

/-- No statement starts behind the head of a production. -/
theorem notMem_statementStates_of_goto
    {state target : Nat}
    {production : ProductionId}
    {head : SymbolId}
    (isHead : rules.head? production = some head)
    (edge : goto state head = some target) :
    target ∉ statementStates := by
  have divided : ∀ row ∈ gotos.toList, ∀ entry ∈ row,
      entry.2 ∈ statementStates → entry.1 = 12 := by
    decide
  have heads : ∀ rule ∈ productions.toList, rule.head ≠ 12 := by
    decide
  intro starts
  obtain ⟨rule, found, rfl⟩ := Option.map_eq_some_iff.mp isHead
  obtain ⟨row, isRow, listed⟩ := Option.bind_eq_some_iff.mp edge
  exact heads rule (Array.mem_toList_iff.mpr (Array.mem_of_getElem? found))
    (divided row (Array.mem_toList_iff.mpr (Array.mem_of_getElem? isRow))
      (rule.head, target) (Table.Analysis.mem_of_lookup listed) starts)

/-- A reduction makes the stack lighter. -/
theorem load_lt_of_reduce
    {frames below : List (Frame Value)}
    {symbol head : SymbolId}
    {production : ProductionId}
    {target : Nat}
    {value : Option Value}
    (acts : action (topState frames) symbol = some (.reduce production))
    (spelt : symbolsOf frames = symbolsOf below ++ rules.body production)
    (isHead : rules.head? production = some head)
    (edge : goto (topState below) head = some target) :
    load (⟨target, head, value⟩ :: below) < load frames := by
  have light : load (⟨target, head, value⟩ :: below) =
      ((symbolsOf below).map weight).sum + weight head := by
    have noStatement := notMem_statementStates_of_goto isHead edge
    simp [load, topState, noStatement]
  have known := fits_of_action acts
  simp only [fits, isHead, Bool.or_eq_true, Bool.and_eq_true, beq_iff_eq,
    List.contains_iff_mem, Option.any_some, decide_eq_true_eq] at known
  rw [light, load, spelt, List.map_append, List.sum_append]
  rcases known with ⟨rfl, starts⟩ | lighter
  · obtain rfl : 17 = head := Option.some.inj isHead
    have isWeight : weight 17 = 3 := rfl
    rw [if_pos starts, isWeight]
    omega
  · omega

namespace Serves

variable {parser : Parser SymbolTable Failure Value}
  {frames : List (Frame Value)} {last : Token}

/-- A parse ends if it ends whenever the next token is shifted. -/
theorem exists_concludes_cons
    (serves : Serves parser)
    {token : Token}
    {rest : List Token}
    (shifts : token.symbol ≠ 0 → ∀ frames context,
      Rooted parser.compiled.table frames →
        ∃ ending, parser.Concludes (⟨frames, false, context⟩, rest) ending)
    (rooted : Rooted parser.compiled.table frames)
    (context : SymbolTable) :
    ∃ ending, parser.Concludes
      (⟨frames, false, context⟩, token :: rest) ending := by
  -- Every reduction leaves a lighter stack.
  induction isLoad : load frames using Nat.strong_induction_on generalizing
    frames context with
  | _ bound inductionHypothesis =>
      subst isLoad
      have safe := serves.safe rooted context token
      have act := serves.act rooted context token
      generalize isOutcome : parser.outcome ⟨frames, false, context⟩ token =
        outcome at safe act
      cases act with
      | reduce acts spelt isHead edge =>
          obtain ⟨ending, concludes⟩ := inductionHypothesis _
            (load_lt_of_reduce acts spelt isHead edge) safe _ rfl
          exact ⟨ending, .kept isOutcome concludes⟩
      | shift acts =>
          have notEnd : token.symbol ≠ 0 := by
            simpa [fits] using (Bool.and_eq_true_iff.mp (fits_of_action acts)).1
          obtain ⟨ending, concludes⟩ := shifts notEnd _ _ safe
          exact ⟨ending, .consumed isOutcome concludes⟩
      | accept => exact ⟨_, .accepted isOutcome⟩
      | fail => exact ⟨_, .failed isOutcome⟩

/-- Whatever tokens come before the end of the source, the parse ends. -/
theorem exists_concludes
    (serves : Serves parser)
    (rooted : Rooted parser.compiled.table frames)
    (context : SymbolTable)
    (tokens : List Token)
    (atEnd : last.symbol = 0) :
    ∃ ending, parser.Concludes
      (⟨frames, false, context⟩, tokens ++ [last]) ending := by
  induction tokens generalizing frames context with
  | nil =>
      exact serves.exists_concludes_cons (fun notEnd => absurd atEnd notEnd)
        rooted context
  | cons token tokens inductionHypothesis =>
      exact serves.exists_concludes_cons
        (fun _ _ context rooted => inductionHypothesis rooted context) rooted
        context

/-! ## What is accepted -/

/-- Where the calculator accepts, the goal alone is on the stack, and it covers
a program. -/
theorem exists_spells_of_accept
    (serves : Serves parser)
    (rooted : Rooted parser.compiled.table frames)
    {symbol : SymbolId}
    {consumed : List Token}
    (acts : action (topState frames) symbol = some .accept)
    (covers : Covers (symbolsOf frames) consumed) :
    ∃ program : Program, program.Spells grammar consumed := by
  rw [← serves.tabulates.action_eq] at acts
  obtain ⟨-, kernel, found, complete⟩ :=
    Rules.mem_closure_of_action_accept serves.tabulates.built acts
  obtain ⟨frame, rfl, isGoal⟩ := rooted.eq_singleton_of_accept
    serves.tabulates.built found complete
  have stands := Covers.exists_single covers
  rw [isGoal] at stands
  exact stands

/-- What is accepted is spelled by a program. -/
theorem exists_spells_of_concludes
    (serves : Serves parser)
    {situation : Situation SymbolTable Value}
    {ending : Ending SymbolTable Failure Value}
    (concludes : parser.Concludes situation ending)
    {value : Option Value}
    {after context : SymbolTable}
    (isAccepted : ending = .accepted value after)
    {consumed tokens : List Token}
    (isSituation : situation = (⟨frames, false, context⟩, tokens ++ [last]))
    (rooted : Rooted parser.compiled.table frames)
    (covers : Covers (symbolsOf frames) consumed)
    (noEnd : ∀ token ∈ tokens, token.symbol ≠ 0)
    (atEnd : last.symbol = 0) :
    ∃ program : Program, program.Spells grammar (consumed ++ tokens) := by
  induction concludes generalizing frames context consumed tokens with
  | @kept _ _ token _ _ isKept _ inductionHypothesis =>
      obtain ⟨rfl, isTokens⟩ := Prod.mk.inj isSituation
      have safe := serves.safe rooted context token
      have act := serves.act rooted context token
      rw [isKept] at safe act
      cases act with
      | reduce acts spelt isHead edge =>
          rw [spelt] at covers
          obtain ⟨before, body, rfl, coversBelow, coversBody⟩ := covers.split
          have coversHead := coversBelow.concat (coversBody.stands isHead)
          refine inductionHypothesis isAccepted (by rw [isTokens]) safe ?_ noEnd
          rwa [symbolsOf_cons]
  | @consumed _ _ token rest _ isConsumed _ inductionHypothesis =>
      obtain ⟨rfl, isTokens⟩ := Prod.mk.inj isSituation
      have safe := serves.safe rooted context token
      have act := serves.act rooted context token
      rw [isConsumed] at safe act
      cases act with
      | shift acts =>
          have known : token.symbol ≠ 0 ∧ token.symbol < 15 := by
            simpa [fits] using fits_of_action acts
          cases tokens with
          | nil =>
              obtain ⟨rfl, -⟩ := List.cons.inj isTokens
              exact absurd atEnd known.1
          | cons first tokens =>
              obtain ⟨rfl, rfl⟩ := List.cons.inj isTokens
              have coversToken := covers.concat (stands_token known.2)
              rw [List.append_cons]
              refine inductionHypothesis isAccepted rfl safe ?_
                fun other member => noEnd other (List.mem_cons_of_mem _ member)
              rwa [symbolsOf_cons]
  | @accepted _ _ token _ _ isAccepting =>
      obtain ⟨rfl, isTokens⟩ := Prod.mk.inj isSituation
      have act := serves.act rooted context token
      rw [isAccepting] at act
      cases act with
      | accept acts =>
          have tokenEnds : token.symbol = 0 := by
            simpa [fits] using fits_of_action acts
          cases tokens with
          | nil =>
              rw [List.append_nil]
              exact serves.exists_spells_of_accept rooted acts covers
          | cons first tokens =>
              obtain ⟨rfl, -⟩ := List.cons.inj isTokens
              exact absurd tokenEnds (noEnd _ List.mem_cons_self)
  | failed isFailed => simp at isAccepted

end Serves

end Calculator
end ParserGenerator
