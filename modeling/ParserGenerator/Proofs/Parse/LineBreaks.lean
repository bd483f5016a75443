import ParserGenerator.Proofs.Parse.Deciding

/-!
# Line breaks that no rule mentions

A table acts only on the end of the source and on symbols that occur in a body
or that an override says to follow. Where the markers for line breaks are not
among them, whether a line break comes before a token changes nothing: parsers
that are given tokens that differ in that alone do the same at every step.
-/

open ParserGenerator.Stream

namespace ParserGenerator

/-! ## Symbols that a table acts on -/

namespace Table
namespace Rules

/-- A symbol occurs in a body or in a set of an override. -/
def Names (rules : Rules) (symbol : SymbolId) : Prop :=
  rules.Mentions symbol ∨
    ∃ rule ∈ rules.grammar.productions, ∃ entry ∈ rule.lookaheadOverrides,
      symbol ∈ entry.2

variable {rules : Rules} {resolver : Option Resolver} {table : Table}
  {item : Item} {symbol : SymbolId} {state : Nat}

/-- What arises after a non-terminal is named. -/
theorem Arises.names (arises : rules.Arises item symbol) :
    rules.Names symbol := by
  obtain ⟨called, rest, split, follows⟩ := arises
  cases overrides : rules.override? item called with
  | none =>
      rw [overrides] at follows
      exact .inl ((mentions_of_starts follows).elim
        (mentions_of_mem_rest split) id)
  | some symbols =>
      rw [overrides] at follows
      obtain ⟨rule, found, isOverride⟩ := Option.bind_eq_some_iff.mp overrides
      exact .inr ⟨rule, Array.mem_of_getElem? found, _,
        Analysis.mem_of_lookup isOverride, follows⟩

/-- What follows an item is named or is the end of the source. -/
theorem Reaches.names
    {symbols : List SymbolId}
    (reaches : rules.Reaches symbols item symbol) :
    symbol = Grammar.endSymbol ∨ rules.Names symbol := by
  induction reaches with
  | start => exact .inl rfl
  | advance _ _ inductionHypothesis => exact inductionHypothesis
  | arises _ _ arises => exact .inr arises.names
  | inherits _ _ _ inductionHypothesis => exact inductionHypothesis

/-- A symbol that an item asks for and that is not a non-terminal is named. -/
theorem names_of_next?
    (wellFormed : rules.WellFormed)
    (next : rules.next? item = some symbol)
    (isTerminal : rules.grammar.isNonTerminal symbol = false) :
    rules.Names symbol := by
  have inBody : symbol ∈ rules.body item.production :=
    List.mem_of_getElem? next
  refine .inl (mentions_of_mem_body (fun isAccept => ?_) inBody)
  rw [isAccept, body_accept, List.mem_singleton] at inBody
  rw [inBody, wellFormed.goal] at isTerminal
  simp at isTerminal

/-- A table acts only on symbols that are named and at the end of the source,
whatever resolved its conflicts. -/
theorem names_of_action
    {action : Action}
    (wellFormed : rules.WellFormed)
    (built : (rules.construct resolver).result = .ok table)
    (acts : table.action state symbol = some action) :
    symbol = Grammar.endSymbol ∨ rules.Names symbol := by
  obtain ⟨⟨kernel, found⟩, offers⟩ := offers_of_action built acts
  cases offers with
  | shift offered =>
      obtain ⟨edge, isTerminal⟩ := (shift_candidatesIn found).mp offered
      obtain ⟨-, item, -, next⟩ := kernel_of_goto found edge
      exact .inr (names_of_next? wellFormed next isTerminal)
  | reduce offered =>
      obtain ⟨item, looks, -, -⟩ := mem_reduces_candidatesIn.mp offered
      obtain ⟨symbols, -, reaches⟩ := looks.exists_reaches wellFormed
        (Array.getElem?_eq_some_iff.mp found).1
      exact reaches.names

end Rules
end Table

/-- No body mentions a marker for the presence or absence of a line break, and
no override says that one follows. -/
def Grammar.IgnoresLineBreaks (grammar : Grammar) : Prop :=
  ∀ rule ∈ grammar.productions,
    ∀ marker ∈ [lineBreakSymbol, noLineBreakSymbol],
      marker ∉ rule.body ∧ ∀ entry ∈ rule.lookaheadOverrides, marker ∉ entry.2

/-- Tokens that differ at most in whether a line break comes before them. -/
structure Token.Alike (token other : Token) : Prop where
  /-- They are of the same terminal. -/
  symbol : token.symbol = other.symbol
  /-- They have the same text. -/
  text : token.text = other.text
  /-- They are at the same place. -/
  position : token.position = other.position

namespace Table

variable {rules : Rules} {resolver : Option Resolver} {table : Table}

/-- The table of a grammar that ignores line breaks has no action on a
marker. -/
theorem action_marker_eq_none
    (wellFormed : rules.WellFormed)
    (built : (rules.construct resolver).result = .ok table)
    (ignores : rules.grammar.IgnoresLineBreaks)
    (state : Nat)
    (token : Token) :
    table.action state token.marker = none := by
  have isMarker : token.marker ∈
      [Grammar.lineBreakSymbol, Grammar.noLineBreakSymbol] := by
    unfold Token.marker
    split <;> simp
  refine Option.eq_none_iff_forall_ne_some.mpr fun action acts => ?_
  rcases Rules.names_of_action wellFormed built acts with
    atEnd | ⟨rule, member, inBody⟩ | ⟨rule, member, entry, inOverrides, inSet⟩
  · rw [atEnd] at isMarker
    exact absurd isMarker (by decide)
  · exact (ignores rule member _ isMarker).1 inBody
  · exact (ignores rule member _ isMarker).2 entry inOverrides inSet

end Table

namespace Parse

open Table (Rules)

variable {Supply Context Failure Value : Type}

/-! ## Calls of handlers -/

/-- A call of the handler of a token or of a production. -/
inductive Call (Context Value : Type)
  /-- The handler of a terminal is given the text of a token. -/
  | token (symbol : SymbolId) (text : String) (context : Context)
  /-- The handler of a production is given the values of its body. -/
  | production (production : ProductionId) (values : Values Value)
      (context : Context)

namespace Configuration

/-- The call that carrying out a decision about a token makes. -/
def call? (rules : Rules) (configuration : Configuration Context Value)
    (token : Token) : Decision → Option (Call Context Value)
  | .shift _ => some (.token token.symbol token.text configuration.context)
  | .reduce production =>
      let size := (rules.body production).length
      if configuration.frames.length < size then
        none
      else
        some (.production production
          ⟨((configuration.frames.take size).map Frame.value).reverse⟩
          configuration.context)
  | _ => none

end Configuration

/-- What is done about a token: the decision and the call that it makes. -/
structure Deed (Context Value : Type) where
  /-- The decision. -/
  decision : Decision
  /-- The call. -/
  call : Option (Call Context Value)

/-- What a parser does about a token. -/
def Configuration.deed (parser : Parser Context Failure Value)
    (configuration : Configuration Context Value) (token : Token) :
    Deed Context Value :=
  let decision := configuration.decision parser.compiled.table token
  ⟨decision, configuration.call? parser.compiled.rules token decision⟩

/-! ## Steps -/

/-- The table of a parser has no action on the markers for line breaks. -/
def Parser.Unmarked (parser : Parser Context Failure Value) : Prop :=
  ∀ state token, parser.compiled.table.action state (Token.marker token) = none

namespace Configuration

variable {parser : Parser Context Failure Value}
  (configuration : Configuration Context Value) {token other : Token}

/-- The same is decided about tokens that are alike. -/
theorem decision_alike
    (unmarked : parser.Unmarked)
    (alike : token.Alike other) :
    configuration.decision parser.compiled.table token =
      configuration.decision parser.compiled.table other := by
  unfold decision Decision.make Decision.ofMarker Decision.ofToken
  simp only [unmarked _ _, alike.symbol]

/-- The same is done about tokens that are alike, and the same handlers are
called in the same way. -/
theorem deed_alike
    (unmarked : parser.Unmarked)
    (alike : token.Alike other) :
    configuration.deed parser token = configuration.deed parser other := by
  unfold deed
  rw [configuration.decision_alike unmarked alike]
  cases configuration.decision parser.compiled.table other <;>
    simp [call?, alike.symbol, alike.text]

/-- A decision has the same outcome for tokens that are alike. -/
theorem perform_alike
    {rules : Rules}
    {table : Table}
    {bindings : Bindings Context Failure Value}
    (alike : token.Alike other)
    (decision : Decision) :
    configuration.perform rules table bindings token decision =
      configuration.perform rules table bindings other decision := by
  cases decision <;>
    simp [perform, shift, Token.description, Token.isEnd, alike.symbol,
      alike.text]

end Configuration

/-- A run without the token at hand and the record of events. -/
def Run.bare (run : Run Supply Context Value) : Run Supply Context Value :=
  { run with token := none, events := [] }

/-- Runs that differ at most in whether a line break comes before their tokens
and in the record of that. -/
structure Run.Alike (run other : Run Supply Context Value) : Prop where
  /-- The tokens at hand are alike. -/
  token : Option.Rel Token.Alike run.token other.token
  /-- All else is the same. -/
  same : run.bare = other.bare

/-- Reports that differ at most in their events. -/
structure Report.Alike (report other : Report Context Failure Value) :
    Prop where
  /-- The value or the error is the same. -/
  result : report.result = other.result
  /-- The context that is left is the same. -/
  context : report.context = other.context
  /-- The numbers are the same. -/
  statistics : report.statistics = other.statistics

/-- Steps that lead to runs or to reports that are alike. -/
inductive Progress.Alike :
    Progress Supply Context Failure Value →
      Progress Supply Context Failure Value → Prop
  | ongoing
      {run other : Run Supply Context Value}
      (alike : run.Alike other) :
      Progress.Alike (.ongoing run) (.ongoing other)
  | finished
      {report other : Report Context Failure Value}
      (alike : report.Alike other) :
      Progress.Alike (.finished report) (.finished other)

namespace Run

variable {parser : Parser Context Failure Value}
  {run other : Run Supply Context Value} {token otherToken : Token}

theorem Alike.configuration (alike : run.Alike other) :
    run.configuration = other.configuration :=
  congrArg (fun bare => bare.configuration) alike.same

/-- A run that is given a token. -/
def receive (run : Run Supply Context Value) (token : Token) :
    Run Supply Context Value :=
  { run with token := some token, tokens := run.tokens + 1 }

theorem Alike.receive
    (alike : run.Alike other)
    (tokensAlike : token.Alike otherToken) :
    (run.receive token).Alike (other.receive otherToken) where
  token := .some tokensAlike
  same := congrArg (fun bare => { bare with tokens := bare.tokens + 1 })
    alike.same

/-- A token at hand has a counterpart in a run that is alike. -/
theorem Alike.exists_token
    (alike : run.Alike other)
    (atToken : run.token = some token) :
    ∃ otherToken, other.token = some otherToken ∧ token.Alike otherToken := by
  have tokens := alike.token
  rw [atToken] at tokens
  generalize other.token = otherAtToken at tokens ⊢
  cases tokens with
  | some tokensAlike => exact ⟨_, rfl, tokensAlike⟩

theorem Alike.token_eq_none
    (alike : run.Alike other)
    (noToken : run.token = none) :
    other.token = none := by
  have tokens := alike.token
  rw [noToken] at tokens
  generalize other.token = otherAtToken at tokens ⊢
  cases tokens
  rfl

/-- Runs that are alike do the same about tokens that are alike. -/
theorem Alike.actOn
    (unmarked : parser.Unmarked)
    (alike : run.Alike other)
    (tokensAlike : token.Alike otherToken) :
    (run.actOn parser token).Alike (other.actOn parser otherToken) := by
  obtain ⟨scanner, window, supply, atToken, configuration, tokens, shifts,
    reductions, events⟩ := run
  obtain ⟨_, _, _, otherAtToken, _, _, _, _, otherEvents⟩ := other
  obtain ⟨rfl, rfl, rfl, -, rfl, rfl, rfl, rfl, -⟩ := Run.mk.inj alike.same
  unfold Run.actOn
  dsimp only
  rw [configuration.decision_alike unmarked tokensAlike,
    configuration.perform_alike tokensAlike]
  cases configuration.perform parser.compiled.rules parser.compiled.table
    parser.bindings otherToken
    (configuration.decision parser.compiled.table otherToken) with
  | kept next => exact .ongoing ⟨alike.token, rfl⟩
  | consumed next => exact .ongoing ⟨.none, rfl⟩
  | accepted value next => exact .finished ⟨rfl, rfl, rfl⟩
  | failed cause next =>
      rw [tokensAlike.position, tokensAlike.text]
      exact .finished ⟨rfl, rfl, rfl⟩

/-! ## Runs -/

/-- A run is given tokens, each where the next one would be scanned: what it
has done about them, and the tokens that are left. -/
inductive Given (parser : Parser Context Failure Value)
    (first : Run Supply Context Value) (tokens : List Token) :
    List (Deed Context Value) → Run Supply Context Value → List Token → Prop
  | start : Given parser first tokens [] first tokens
  | receive
      {deeds : List (Deed Context Value)}
      {run : Run Supply Context Value}
      {token : Token}
      {rest : List Token}
      (given : Given parser first tokens deeds run (token :: rest))
      (noToken : run.token = none) :
      Given parser first tokens deeds (run.receive token) rest
  | act
      {deeds : List (Deed Context Value)}
      {run next : Run Supply Context Value}
      {token : Token}
      {rest : List Token}
      (given : Given parser first tokens deeds run rest)
      (atToken : run.token = some token)
      (ongoing : run.actOn parser token = .ongoing next) :
      Given parser first tokens
        (deeds ++ [run.configuration.deed parser token]) next rest

variable {first : Run Supply Context Value} {tokens others rest : List Token}
  {deeds : List (Deed Context Value)}

/-- A run that is given tokens that are alike does the same. -/
theorem Given.exists_alike
    (unmarked : parser.Unmarked)
    (noToken : first.token = none)
    (alike : List.Forall₂ Token.Alike tokens others)
    (given : Given parser first tokens deeds run rest) :
    ∃ other otherRest,
      Given parser first others deeds other otherRest ∧
        run.Alike other ∧ List.Forall₂ Token.Alike rest otherRest := by
  induction given with
  | start =>
      have same : first.Alike first := ⟨by rw [noToken]; exact .none, rfl⟩
      exact ⟨first, others, .start, same, alike⟩
  | receive _ noToken inductionHypothesis =>
      obtain ⟨other, otherRest, otherGiven, runAlike, restAlike⟩ :=
        inductionHypothesis
      cases restAlike with
      | cons tokensAlike restAlike =>
          exact ⟨_, _, .receive otherGiven (runAlike.token_eq_none noToken),
            runAlike.receive tokensAlike, restAlike⟩
  | @act deeds run next token rest _ atToken ongoing inductionHypothesis =>
      obtain ⟨other, otherRest, otherGiven, runAlike, restAlike⟩ :=
        inductionHypothesis
      obtain ⟨otherToken, otherAtToken, tokensAlike⟩ :=
        runAlike.exists_token atToken
      have progress := runAlike.actOn unmarked tokensAlike
      rw [ongoing] at progress
      generalize isNext : other.actOn parser otherToken = otherProgress
        at progress
      cases progress with
      | ongoing nextAlike =>
          have acted := otherGiven.act otherAtToken isNext
          rw [← runAlike.configuration,
            ← run.configuration.deed_alike unmarked tokensAlike] at acted
          exact ⟨_, otherRest, acted, nextAlike, restAlike⟩

end Run

namespace Parser

/-- Line breaks do not matter to a grammar that does not mention them. Whatever
a run has done about tokens it was given, a run that is given tokens that differ
only in whether a line break comes before them has done too, with the same calls
of handlers, and has the same stack and context. What the next step does is the
same, and where it ends the parse it does so with the same value, or with the
same error at the same token. -/
theorem line_breaks_do_not_matter
    (parser : Parser Context Failure Value)
    (resolver : Option Table.Resolver)
    (declared : parser.compiled.grammar.Declared)
    (built : (Table.construct parser.compiled.grammar
      parser.compiled.rules.goal resolver).result = .ok parser.compiled.table)
    (ignores : parser.compiled.grammar.IgnoresLineBreaks)
    (window : Window)
    (supply : Supply)
    (context : Context)
    (tokens others : List Token)
    (alike : List.Forall₂ Token.Alike tokens others)
    (deeds : List (Deed Context Value))
    (run : Run Supply Context Value)
    (rest : List Token)
    (given : Run.Given parser
      (Run.start parser.options window supply context) tokens deeds run rest) :
    ∃ other otherRest,
      Run.Given parser (Run.start parser.options window supply context) others
        deeds other otherRest ∧
      run.Alike other ∧
      List.Forall₂ Token.Alike rest otherRest ∧
      ∀ token, run.token = some token →
        ∃ otherToken, other.token = some otherToken ∧
          token.Alike otherToken ∧
          run.configuration.deed parser token =
            other.configuration.deed parser otherToken ∧
          (run.actOn parser token).Alike (other.actOn parser otherToken) := by
  have unmarked : parser.Unmarked := Table.action_marker_eq_none
    ⟨declared.wellFormed, Rules.goal_of_construct built⟩
    (Rules.construct_of_ok built) ignores
  obtain ⟨other, otherRest, otherGiven, runAlike, restAlike⟩ :=
    given.exists_alike unmarked rfl alike
  refine ⟨other, otherRest, otherGiven, runAlike, restAlike, ?_⟩
  intro token atToken
  obtain ⟨otherToken, otherAtToken, tokensAlike⟩ :=
    runAlike.exists_token atToken
  refine ⟨otherToken, otherAtToken, tokensAlike, ?_,
    runAlike.actOn unmarked tokensAlike⟩
  rw [← runAlike.configuration]
  exact run.configuration.deed_alike unmarked tokensAlike

/-- A letter is counted whether or not it is on a new line. -/
theorem line_breaks_do_not_matter_letters :
    lettersGrammar.Declared ∧ lettersGrammar.IgnoresLineBreaks ∧
    (Table.construct lettersGrammar 4 none).result =
      .ok lettersParser.compiled.table ∧
    ∃ (deeds : List (Deed Unit Nat)) (run other : Run InMemory Unit Nat)
        (rest : List Token),
      deeds.map Deed.decision = [.reduce 0, .shift 2, .reduce 1] ∧
      Run.Given lettersParser
        (Run.start ⟨0, true⟩ (Window.ofUnits []) (InMemory.mk []) ())
        [⟨3, "a", 5, false⟩, ⟨0, "", 6, false⟩] deeds run [] ∧
      Run.Given lettersParser
        (Run.start ⟨0, true⟩ (Window.ofUnits []) (InMemory.mk []) ())
        [⟨3, "a", 5, true⟩, ⟨0, "", 6, true⟩] deeds other rest ∧
      run.configuration.frames = [⟨1, 4, some 1⟩] ∧
      run.Alike other := by
  have built : (Table.construct lettersGrammar 4 none).result =
      .ok lettersParser.compiled.table := by
    cbv
  have ignores : lettersGrammar.IgnoresLineBreaks := by
    unfold Grammar.IgnoresLineBreaks
    decide
  have alike : List.Forall₂ Token.Alike
      [⟨3, "a", 5, false⟩, ⟨0, "", 6, false⟩]
      [⟨3, "a", 5, true⟩, ⟨0, "", 6, true⟩] :=
    .cons ⟨rfl, rfl, rfl⟩ (.cons ⟨rfl, rfl, rfl⟩ .nil)
  have started : Run.Given lettersParser
      (Run.start ⟨0, true⟩ (Window.ofUnits []) (InMemory.mk []) () :
        Run InMemory Unit Nat)
      [⟨3, "a", 5, false⟩, ⟨0, "", 6, false⟩] [] _ _ := .start
  have shifted := Run.Given.act
    (Run.Given.act (Run.Given.receive started rfl) rfl rfl) rfl rfl
  have counted := Run.Given.act (Run.Given.receive shifted rfl) rfl rfl
  obtain ⟨other, rest, given, runAlike, -, -⟩ :=
    line_breaks_do_not_matter lettersParser none declared_lettersGrammar built
      ignores _ _ _ _ _ alike _ _ _ counted
  exact ⟨declared_lettersGrammar, ignores, built, _, _, other, rest, rfl,
    counted, given, rfl, runAlike⟩

end Parser
end Parse
end ParserGenerator
