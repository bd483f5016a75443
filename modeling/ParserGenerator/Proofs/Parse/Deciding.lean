import Mathlib
import ParserGenerator.Parse.Run
import ParserGenerator.Proofs.Grammar.Declaring
import ParserGenerator.Proofs.Parse.Stack
import ParserGenerator.Proofs.Table.Acceptance
import ParserGenerator.Unicode.Standard

/-!
# Parsers without conflicts decide

A run over tokens follows the steps of its table on the symbols of its stack,
so it ends, and whether it accepts depends on the symbols of the tokens only.
-/

open ParserGenerator.Stream

namespace ParserGenerator
namespace Parse

open Table (Rules Action)

variable {Supply Context Failure Value : Type}

/-- Handlers that never fail. -/
structure Bindings.Total (bindings : Bindings Context Failure Value) :
    Prop where
  /-- The handlers of terminals give values. -/
  tokens : ∀ entry ∈ bindings.tokens, ∀ text context, ∃ value after,
    entry.2 text context = (.ok value, after)
  /-- The handlers of productions give values. -/
  reductions : ∀ entry ∈ bindings.reductions, ∀ values context, ∃ value after,
    entry.2 values context = (.ok value, after)

namespace Bindings.Total

variable {bindings : Bindings Context Failure Value}

theorem token
    (total : bindings.Total)
    (symbol : SymbolId)
    (text : String)
    (context : Context) :
    ∃ value after, bindings.token symbol text context = (.ok value, after) := by
  unfold Bindings.token
  cases found : bindings.tokens.lookup symbol with
  | none => exact ⟨none, context, rfl⟩
  | some handler =>
      obtain ⟨value, after, handled⟩ := total.tokens (symbol, handler)
        (Table.Analysis.mem_of_lookup found) text context
      refine ⟨some value, after, ?_⟩
      dsimp only at handled ⊢
      rw [handled]
      rfl

theorem reduce
    (total : bindings.Total)
    (production : ProductionId)
    (values : Values Value)
    (context : Context) :
    ∃ value after,
      bindings.reduce production values context = (.ok value, after) := by
  unfold Bindings.reduce
  cases found : bindings.reductions.lookup production with
  | none => exact ⟨values.first?, context, rfl⟩
  | some handler =>
      obtain ⟨value, after, handled⟩ := total.reductions (production, handler)
        (Table.Analysis.mem_of_lookup found) values context
      refine ⟨some value, after, ?_⟩
      dsimp only at handled ⊢
      rw [handled]
      rfl

end Bindings.Total

/-! ## Stacks of symbols -/

namespace Rooted

variable {rules : Rules} {resolver : Option Table.Resolver} {table : Table}
  {frames : List (Frame Value)}

/-- The symbols of a stack lead to its state. -/
theorem stateAfter_symbols
    (built : (rules.construct resolver).result = .ok table)
    (rooted : Rooted table frames) :
    rules.stateAfter (frames.map Frame.symbol).reverse =
      some (topState frames) := by
  induction rooted with
  | base => rfl
  | push below edge inductionHypothesis =>
      rw [Rules.goto_of_construct built] at edge
      rw [List.map_cons, List.reverse_cons,
        Rules.stateAfter_concat_eq_goto inductionHypothesis]
      exact edge

end Rooted

namespace Configuration

variable {rules : Rules} {table : Table}
  {bindings : Bindings Context Failure Value}
  {configuration : Configuration Context Value} {symbol : SymbolId}

theorem action_eq_actionAfter
    {resolver : Option Table.Resolver}
    (built : (rules.construct resolver).result = .ok table)
    (rooted : Rooted table configuration.frames)
    (symbol : SymbolId) :
    table.action configuration.state symbol =
      rules.actionAfter table configuration.symbols symbol := by
  unfold Rules.actionAfter symbols
  rw [rooted.stateAfter_symbols built, configuration.state_eq]
  rfl

/-- The frames below those of the topmost symbols are those of the others. -/
theorem symbols_drop
    {below above : List SymbolId}
    (isStack : configuration.symbols = below ++ above) :
    ((configuration.frames.drop above.length).map Frame.symbol).reverse =
      below := by
  have lengths := congrArg List.length isStack
  rw [symbols, List.length_reverse, List.length_append] at lengths
  rw [List.map_drop, List.reverse_drop]
  refine (congrArg (List.take _) isStack).trans (List.take_left' ?_)
  omega

/-- Where the table reduces, a parser does, and the symbols of its stack
follow. -/
theorem exists_reduced
    (conflictFree : rules.ConflictFree table)
    (total : bindings.Total)
    (rooted : Rooted table configuration.frames)
    {production : ProductionId}
    (acts : rules.actionAfter table configuration.symbols symbol =
      some (.reduce production)) :
    ∃ next, configuration.reduce rules table bindings production =
        .kept next ∧
      Rooted table next.frames ∧
      next.markerShifted = configuration.markerShifted ∧
      rules.Reduces table symbol configuration.symbols next.symbols := by
  obtain ⟨below, head, target, isStack, heads, leads⟩ :=
    conflictFree.reduction_of_actionAfter acts
  obtain ⟨value, after, handled⟩ := total.reduce production
    ⟨((configuration.frames.take (rules.body production).length).map
      Frame.value).reverse⟩ configuration.context
  have enough : (rules.body production).length ≤
      configuration.frames.length := by
    have lengths := congrArg List.length isStack
    rw [symbols, List.length_reverse, List.length_map,
      List.length_append] at lengths
    omega
  have isBelow := symbols_drop isStack
  have rootedBelow := rooted.drop (rules.body production).length
  have leadsBelow := rootedBelow.stateAfter_symbols conflictFree.built
  rw [isBelow] at leadsBelow
  rw [Rules.stateAfter_concat_eq_goto leadsBelow] at leads
  have edge : table.goto (topState (configuration.frames.drop
      (rules.body production).length)) head = some target := by
    rw [Rules.goto_of_construct conflictFree.built]
    exact leads
  refine ⟨⟨⟨target, head, value⟩ ::
    configuration.frames.drop (rules.body production).length,
    configuration.markerShifted, after⟩, ?_, .push rootedBelow edge, rfl, ?_⟩
  · unfold reduce
    dsimp only
    rw [List.length_take, Nat.min_eq_left enough]
    simp only [Nat.lt_irrefl, if_false, handled, goto, heads, state_eq, edge]
  · rw [isStack] at acts ⊢
    unfold symbols
    rw [List.map_cons, List.reverse_cons, isBelow]
    exact .mk acts heads

/-- Where the table shifts, a parser does. -/
theorem exists_shifted
    (conflictFree : rules.ConflictFree table)
    (total : bindings.Total)
    (rooted : Rooted table configuration.frames)
    {token : Token}
    {target : Nat}
    (acts : rules.actionAfter table configuration.symbols token.symbol =
      some (.shift target)) :
    ∃ next, configuration.shift bindings target token = .consumed next ∧
      Rooted table next.frames ∧ next.markerShifted = false ∧
      next.symbols = configuration.symbols ++ [token.symbol] := by
  obtain ⟨value, after, handled⟩ :=
    total.token token.symbol token.text configuration.context
  rw [← action_eq_actionAfter conflictFree.built rooted] at acts
  obtain ⟨edge, -⟩ := Rules.goto_of_action_shift conflictFree.built acts
  rw [configuration.state_eq] at edge
  refine ⟨⟨⟨target, token.symbol, value⟩ :: configuration.frames, false,
    after⟩, ?_, .push rooted edge, rfl, ?_⟩
  · unfold shift
    rw [handled]
  · simp [symbols]

end Configuration

/-! ## Tokens that are delivered -/

/-- A scanner hands out some tokens, where the window is refilled as needed. -/
inductive Tokenizes [CharacterData] [Source Supply] (lexicon : Lexicon) :
    Scanner × Window × Supply → List Token → Prop
  | done {reader : Scanner × Window × Supply} : Tokenizes lexicon reader []
  | token
      {scanner after : Scanner}
      {window rest : Window}
      {supply : Supply}
      {token : Token}
      {tokens : List Token}
      (scans : scanner.scan lexicon window = (.token token, after, rest))
      (others : Tokenizes lexicon (after, rest, supply) tokens) :
      Tokenizes lexicon (scanner, window, supply) (token :: tokens)
  | refill
      {scanner after : Scanner}
      {window rest refilled : Window}
      {supply remaining : Supply}
      {count : Nat}
      {tokens : List Token}
      (scans : scanner.scan lexicon window = (.needInput, after, rest))
      (fills : rest.fill supply = (.ok count, refilled, remaining))
      (others : Tokenizes lexicon (after, refilled, remaining) tokens) :
      Tokenizes lexicon (scanner, window, supply) tokens

namespace Run

/-- What a run reads from. -/
def reader (run : Run Supply Context Value) : Scanner × Window × Supply :=
  (run.scanner, run.window, run.supply)

section Ends

variable [CharacterData] [Source Supply]
  {parser : Parser Context Failure Value}
  {run next : Run Supply Context Value}
  {report : Report Context Failure Value}

/-- A run ends after finitely many steps. -/
def Ends (parser : Parser Context Failure Value)
    (run : Run Supply Context Value) (report : Report Context Failure Value) :
    Prop :=
  ∃ fuel, run.complete parser fuel = some report

theorem Ends.of_finished
    (finished : run.advance parser = .finished report) :
    run.Ends parser report := by
  refine ⟨1, ?_⟩
  rw [complete, finished]

theorem Ends.of_ongoing
    (ends : next.Ends parser report)
    (ongoing : run.advance parser = .ongoing next) :
    run.Ends parser report := by
  obtain ⟨fuel, completes⟩ := ends
  refine ⟨fuel + 1, ?_⟩
  rw [complete, ongoing]
  exact completes

theorem exists_advance_of_token
    {token : Token}
    {after : Scanner}
    {rest : Window}
    (noToken : run.token = none)
    (scans : run.scanner.scan parser.compiled.lexicon run.window =
      (.token token, after, rest)) :
    ∃ next, run.advance parser = .ongoing next ∧ next.token = some token ∧
      next.configuration = run.configuration ∧
      next.reader = (after, rest, run.supply) ∧ next.shifts = run.shifts := by
  simp only [advance, noToken, scanToken, scans]
  refine ⟨_, rfl, ?_⟩
  split <;> exact ⟨rfl, rfl, rfl, rfl⟩

theorem exists_advance_of_refill
    {after : Scanner}
    {rest refilled : Window}
    {remaining : Supply}
    {count : Nat}
    (noToken : run.token = none)
    (scans : run.scanner.scan parser.compiled.lexicon run.window =
      (.needInput, after, rest))
    (fills : rest.fill run.supply = (.ok count, refilled, remaining)) :
    ∃ next, run.advance parser = .ongoing next ∧ next.token = none ∧
      next.configuration = run.configuration ∧
      next.reader = (after, refilled, remaining) := by
  simp only [advance, noToken, scanToken, scans, refill, fills]
  refine ⟨_, rfl, ?_⟩
  split <;> exact ⟨rfl, rfl, rfl⟩

/-- A run without a token at hand scans the next one. -/
theorem exists_scanned
    {token : Token}
    {tokens : List Token}
    (tokenizes : Tokenizes parser.compiled.lexicon run.reader (token :: tokens))
    (noToken : run.token = none) :
    ∃ next : Run Supply Context Value,
      (∀ report, next.Ends parser report → run.Ends parser report) ∧
      next.token = some token ∧
      next.configuration = run.configuration ∧
      Tokenizes parser.compiled.lexicon next.reader tokens := by
  generalize isReader : run.reader = reader at tokenizes
  generalize isTokens : token :: tokens = all at tokenizes
  induction tokenizes generalizing run with
  | done => simp at isTokens
  | token scans others _ =>
      obtain ⟨rfl, rfl⟩ := List.cons.inj isTokens
      obtain ⟨rfl, isRest⟩ := Prod.mk.inj isReader
      obtain ⟨rfl, rfl⟩ := Prod.mk.inj isRest
      obtain ⟨next, ongoing, atToken, same, isNext, -⟩ :=
        exists_advance_of_token noToken scans
      exact ⟨next, fun report ends => ends.of_ongoing ongoing, atToken, same,
        isNext ▸ others⟩
  | refill scans fills _ inductionHypothesis =>
      obtain ⟨rfl, isRest⟩ := Prod.mk.inj isReader
      obtain ⟨rfl, rfl⟩ := Prod.mk.inj isRest
      obtain ⟨refilled, ongoing, stillNone, same, isNext⟩ :=
        exists_advance_of_refill noToken scans fills
      obtain ⟨next, ends, atToken, sameAsRefilled, others⟩ :=
        inductionHypothesis stillNone isNext isTokens
      exact ⟨next, fun report nextEnds =>
        (ends report nextEnds).of_ongoing ongoing, atToken,
        sameAsRefilled.trans same, others⟩

end Ends
end Run

/-! ## Decisions -/

/-- A report of a token that cannot come next. -/
def Report.Rejects (report : Report Context Failure Value) : Prop :=
  ∃ error description, report.result = .error error ∧
    error.cause = .unexpectedToken description

/-- A report tells what the table does where the steps on symbols stop. -/
def Report.Tells (parser : Parser Context Failure Value)
    (report : Report Context Failure Value)
    (stop : List SymbolId × List SymbolId) : Prop :=
  ∃ symbol rest, stop.2 = symbol :: rest ∧
    ((parser.compiled.rules.actionAfter parser.compiled.table stop.1 symbol =
        some .accept ∧ ∃ value, report.result = .ok value) ∨
      (parser.compiled.rules.actionAfter parser.compiled.table stop.1 symbol =
        none ∧ report.Rejects))

/-- A parser whose table has no conflicts, whose grammar does not mention the
structural symbols, and whose handlers never fail. -/
structure Parser.Decisive (parser : Parser Context Failure Value) : Prop where
  /-- The table has no conflicts. -/
  conflictFree :
    parser.compiled.rules.ConflictFree parser.compiled.table
  /-- No body mentions the end of the source or a marker. -/
  unmarked : ∀ symbol < 3, ¬ parser.compiled.rules.Mentions symbol
  /-- The handlers never fail. -/
  total : parser.bindings.Total

namespace Run

/-- A run whose stack follows transitions and that has shifted no marker. -/
structure Ready (parser : Parser Context Failure Value)
    (run : Run Supply Context Value) : Prop where
  /-- The states follow the symbols. -/
  rooted : Rooted parser.compiled.table run.configuration.frames
  /-- No marker was shifted. -/
  unmarked : run.configuration.markerShifted = false

variable {parser : Parser Context Failure Value}
  {run : Run Supply Context Value} {token : Token}

/-- The action of the table on the symbols of the stack. -/
def action (parser : Parser Context Failure Value)
    (run : Run Supply Context Value) (symbol : SymbolId) : Option Action :=
  parser.compiled.rules.actionAfter parser.compiled.table
    run.configuration.symbols symbol

/-- Markers do not matter where they are not mentioned. -/
theorem decision_eq_ofToken
    (decisive : parser.Decisive)
    (ready : run.Ready parser)
    (token : Token) :
    run.configuration.decision parser.compiled.table token =
      match run.action parser token.symbol with
      | some (.shift target) => .shift target
      | some (.reduce production) => .reduce production
      | some .accept => .accept
      | none => .reject := by
  have sameAction := Configuration.action_eq_actionAfter
    decisive.conflictFree.built ready.rooted
  have isMarker : token.marker < 3 ∧ token.marker ≠ Grammar.endSymbol := by
    unfold Token.marker
    split <;> decide
  have noAction : parser.compiled.table.action run.configuration.state
      token.marker = none := by
    rw [sameAction]
    refine Option.eq_none_iff_forall_not_mem.mpr fun action acts => ?_
    rcases decisive.conflictFree.mentions_of_actionAfter acts with
      atEnd | mentioned
    · exact isMarker.2 atEnd
    · exact decisive.unmarked _ isMarker.1 mentioned
  unfold Configuration.decision Decision.make
  rw [ready.unmarked]
  simp only [Decision.ofMarker, noAction, Decision.ofToken, sameAction]
  rfl

theorem exists_actOn_of_reduce
    (decisive : parser.Decisive)
    (ready : run.Ready parser)
    {production : ProductionId}
    (acts : run.action parser token.symbol = some (.reduce production)) :
    ∃ next, run.actOn parser token = .ongoing next ∧ next.Ready parser ∧
      next.token = run.token ∧ next.reader = run.reader ∧
      parser.compiled.rules.Reduces parser.compiled.table token.symbol
        run.configuration.symbols next.configuration.symbols := by
  have decided := decision_eq_ofToken decisive ready token
  rw [acts] at decided
  obtain ⟨configuration, reduced, rooted, unmarked, reduces⟩ :=
    Configuration.exists_reduced decisive.conflictFree decisive.total
      ready.rooted acts
  simp only [actOn, decided, Configuration.perform, reduced]
  exact ⟨_, rfl, ⟨rooted, unmarked.trans ready.unmarked⟩, rfl, rfl, reduces⟩

theorem exists_actOn_of_shift
    (decisive : parser.Decisive)
    (ready : run.Ready parser)
    {target : Nat}
    (acts : run.action parser token.symbol = some (.shift target)) :
    ∃ next, run.actOn parser token = .ongoing next ∧ next.Ready parser ∧
      next.token = none ∧ next.reader = run.reader ∧
      next.configuration.symbols =
        run.configuration.symbols ++ [token.symbol] := by
  have decided := decision_eq_ofToken decisive ready token
  rw [acts] at decided
  obtain ⟨configuration, shifted, rooted, unmarked, isStack⟩ :=
    Configuration.exists_shifted decisive.conflictFree decisive.total
      ready.rooted acts
  simp only [actOn, decided, Configuration.perform, shifted]
  exact ⟨_, rfl, ⟨rooted, unmarked⟩, rfl, rfl, isStack⟩

theorem exists_actOn_of_accept
    (decisive : parser.Decisive)
    (ready : run.Ready parser)
    (acts : run.action parser token.symbol = some .accept) :
    ∃ report value, run.actOn parser token = .finished report ∧
      report.result = .ok value := by
  have decided := decision_eq_ofToken decisive ready token
  rw [acts] at decided
  simp only [actOn, decided, Configuration.perform, finish]
  exact ⟨_, _, rfl, rfl⟩

theorem exists_actOn_of_none
    (decisive : parser.Decisive)
    (ready : run.Ready parser)
    (acts : run.action parser token.symbol = none) :
    ∃ report, run.actOn parser token = .finished report ∧
      report.Rejects := by
  have decided := decision_eq_ofToken decisive ready token
  rw [acts] at decided
  simp only [actOn, decided, Configuration.perform, fail, finish]
  exact ⟨_, rfl, _, _, rfl, rfl⟩

/-! ## Runs -/

section Runs

variable [CharacterData] [Source Supply]

/-- A run over some tokens ends as the table does on their symbols. -/
def Concludes (parser : Parser Context Failure Value)
    (run : Run Supply Context Value) (tokens : List Token) : Prop :=
  ∃ report stop, run.Ends parser report ∧
    Relation.ReflTransGen (parser.compiled.rules.Steps parser.compiled.table)
      (run.configuration.symbols, tokens.map Token.symbol) stop ∧
    report.Tells parser stop

/-- A run with a token at hand ends if it does after shifting the token. -/
theorem concludes_of_token
    (decisive : parser.Decisive)
    {tokens : List Token}
    (shifting : ∀ next : Run Supply Context Value,
      parser.compiled.rules.Mentions token.symbol → next.Ready parser →
      next.token = none →
      Tokenizes parser.compiled.lexicon next.reader tokens →
      next.Concludes parser tokens)
    (ready : run.Ready parser)
    (atToken : run.token = some token)
    (tokenizes : Tokenizes parser.compiled.lexicon run.reader tokens) :
    run.Concludes parser (token :: tokens) := by
  have leads := ready.rooted.stateAfter_symbols decisive.conflictFree.built
  have terminates : parser.compiled.rules.Terminates parser.compiled.table
      token.symbol run.configuration.symbols :=
    decisive.conflictFree.terminates_of_stateAfter leads
  clear leads
  generalize isStack : run.configuration.symbols = stack at terminates
  induction terminates generalizing run with
  | intro stack _ inductionHypothesis =>
      subst isStack
      have advances : run.advance parser = run.actOn parser token := by
        rw [advance, atToken]
      cases acts : run.action parser token.symbol with
      | none =>
          obtain ⟨report, finished, rejects⟩ :=
            exists_actOn_of_none decisive ready acts
          exact ⟨report, _, .of_finished (advances.trans finished), .refl,
            token.symbol, _, rfl, .inr ⟨acts, rejects⟩⟩
      | some action =>
          cases action with
          | accept =>
              obtain ⟨report, value, finished, accepted⟩ :=
                exists_actOn_of_accept decisive ready acts
              exact ⟨report, _, .of_finished (advances.trans finished), .refl,
                token.symbol, _, rfl, .inl ⟨acts, value, accepted⟩⟩
          | shift target =>
              obtain ⟨next, ongoing, nextReady, noToken, sameReader, isNext⟩ :=
                exists_actOn_of_shift decisive ready acts
              have mentioned :=
                (decisive.conflictFree.shift_of_actionAfter acts).2.2
              obtain ⟨report, stop, ends, steps, tells⟩ := shifting next
                mentioned nextReady noToken (sameReader ▸ tokenizes)
              rw [isNext] at steps
              exact ⟨report, stop, ends.of_ongoing (advances.trans ongoing),
                .head (.shift acts) steps, tells⟩
          | reduce production =>
              obtain ⟨next, ongoing, nextReady, sameToken, sameReader,
                reduces⟩ := exists_actOn_of_reduce decisive ready acts
              obtain ⟨report, stop, ends, steps, tells⟩ :=
                inductionHypothesis _ reduces nextReady
                  (sameToken.trans atToken) (sameReader ▸ tokenizes) rfl
              exact ⟨report, stop, ends.of_ongoing (advances.trans ongoing),
                .head (.reduce reduces) steps, tells⟩

/-- A run over tokens with the end of the source among them ends as the table
does. -/
theorem concludes_of_tokenizes
    (decisive : parser.Decisive)
    {tokens : List Token}
    (closed : ∃ token ∈ tokens, token.isEnd)
    (ready : run.Ready parser)
    (noToken : run.token = none)
    (tokenizes : Tokenizes parser.compiled.lexicon run.reader tokens) :
    run.Concludes parser tokens := by
  induction tokens generalizing run with
  | nil => simp at closed
  | cons token tokens inductionHypothesis =>
      obtain ⟨next, ends, atToken, same, others⟩ :=
        exists_scanned tokenizes noToken
      have nextReady : next.Ready parser := by
        refine ⟨?_, ?_⟩
        · rw [same]
          exact ready.rooted
        · rw [same]
          exact ready.unmarked
      -- The end of the source is never shifted.
      have closedAfter : parser.compiled.rules.Mentions token.symbol →
          ∃ other ∈ tokens, other.isEnd := by
        intro mentioned
        obtain ⟨other, member, isEnd⟩ := closed
        rcases List.mem_cons.mp member with rfl | member
        · have atEnd : other.symbol = Grammar.endSymbol := eq_of_beq isEnd
          rw [atEnd] at mentioned
          exact absurd mentioned (decisive.unmarked _ (by decide))
        · exact ⟨other, member, isEnd⟩
      obtain ⟨report, stop, nextEnds, steps, tells⟩ :=
        concludes_of_token decisive (fun shifted mentioned =>
          inductionHypothesis (closedAfter mentioned)) nextReady atToken
            others
      rw [same] at steps
      exact ⟨report, stop, ends report nextEnds, steps, tells⟩

end Runs
end Run

namespace Parser

variable {parser : Parser Context Failure Value}

/-- What makes a parser decisive. -/
theorem decisive_of_construct
    (declared : parser.compiled.grammar.Declared)
    (plain : ∀ rule ∈ parser.compiled.grammar.productions,
      rule.shiftOn = [] ∧ rule.reduceOn = [] ∧ rule.lookaheadOverrides = [])
    (unmarked : ∀ rule ∈ parser.compiled.grammar.productions,
      Grammar.endSymbol ∉ rule.body ∧ Grammar.lineBreakSymbol ∉ rule.body ∧
        Grammar.noLineBreakSymbol ∉ rule.body)
    (built : (Table.construct parser.compiled.grammar
      parser.compiled.rules.goal none).result = .ok parser.compiled.table)
    (total : parser.bindings.Total) :
    parser.Decisive where
  conflictFree :=
    { wellFormed := ⟨declared.wellFormed, Rules.goal_of_construct built⟩
      undecided := fun rule member =>
        ⟨(plain rule member).1, (plain rule member).2.1⟩
      plain := fun rule member => (plain rule member).2.2
      built := Rules.construct_of_ok built }
  unmarked := by
    rintro symbol structural ⟨rule, member, inBody⟩
    obtain ⟨noEnd, noBreak, noMarker⟩ := unmarked rule member
    match symbol, structural with
    | 0, _ => exact noEnd inBody
    | 1, _ => exact noBreak inBody
    | 2, _ => exact noMarker inBody
  total := total

/-- A parser whose table was built without overrides and without a resolver
decides the language of its grammar: over the tokens of a word and the end of
the source it stops, accepts if the goal derives the word, and otherwise reports
a token that cannot come next. -/
theorem decides_language
    [CharacterData]
    [Source Supply]
    (parser : Parser Context Failure Value)
    (declared : parser.compiled.grammar.Declared)
    (plain : ∀ rule ∈ parser.compiled.grammar.productions,
      rule.shiftOn = [] ∧ rule.reduceOn = [] ∧ rule.lookaheadOverrides = [])
    (unmarked : ∀ rule ∈ parser.compiled.grammar.productions,
      Grammar.endSymbol ∉ rule.body ∧ Grammar.lineBreakSymbol ∉ rule.body ∧
        Grammar.noLineBreakSymbol ∉ rule.body)
    (built : (Table.construct parser.compiled.grammar
      parser.compiled.rules.goal none).result = .ok parser.compiled.table)
    (total : parser.bindings.Total)
    (window : Window)
    (supply : Supply)
    (context : Context)
    (tokens : List Token)
    (last : Token)
    (terminals : ∀ token ∈ tokens,
      token.symbol ∈ parser.compiled.grammar.terminals)
    (atEnd : last.isEnd = true)
    (tokenizes : Tokenizes parser.compiled.lexicon
      (Scanner.start parser.options.trackLines, window, supply)
      (tokens ++ [last])) :
    ∃ fuel report,
      (Run.start parser.options window supply context).complete parser fuel =
        some report ∧
      (parser.compiled.grammar.Derives [parser.compiled.rules.goal]
          (tokens.map Token.symbol) →
        ∃ value, report.result = .ok value) ∧
      (¬ parser.compiled.grammar.Derives [parser.compiled.rules.goal]
          (tokens.map Token.symbol) →
        report.Rejects) := by
  have decisive := decisive_of_construct declared plain unmarked built total
  have conflictFree := decisive.conflictFree
  have isLast : last.symbol = Grammar.endSymbol := eq_of_beq atEnd
  have ready : (Run.start parser.options window supply context :
    Run Supply Context Value).Ready parser := ⟨.base, rfl⟩
  obtain ⟨report, stop, ⟨fuel, completes⟩, steps, symbol, rest, isInput,
    tells⟩ := Run.concludes_of_tokenizes decisive ⟨last, by simp, atEnd⟩ ready
      rfl tokenizes
  rw [List.map_append, List.map_singleton, isLast] at steps
  have stops : parser.compiled.rules.Stops parser.compiled.table stop :=
    ⟨symbol, rest, isInput, tells.imp And.left And.left⟩
  have isTerminal : ∀ symbol ∈ tokens.map Token.symbol,
      symbol ∈ parser.compiled.grammar.terminals := by
    intro symbol member
    obtain ⟨token, isToken, rfl⟩ := List.mem_map.mp member
    exact terminals token isToken
  rw [Grammar.derives_iff_yields fun symbol member =>
    Grammar.not_isNonTerminal_of_mem_terminals (isTerminal symbol member)]
  refine ⟨fuel, report, completes, fun yields => ?_, fun noDerivation => ?_⟩
  · obtain ⟨accepting, acts⟩ := conflictFree.accepts_of_yields yields
    obtain rfl := Rules.Stops.unique steps stops accepting
      ⟨_, _, rfl, .inl acts⟩
    obtain ⟨rfl, rfl⟩ := List.cons.inj isInput
    rcases tells with ⟨-, accepted⟩ | ⟨noAction, -⟩
    · exact accepted
    · simp [acts] at noAction
  · rcases tells with ⟨acts, -⟩ | ⟨-, rejects⟩
    · obtain ⟨rfl, isStack⟩ := conflictFree.accept_of_actionAfter acts
      obtain ⟨consumed, isWord, yields⟩ := conflictFree.yields_of_steps steps
      rw [isStack] at yields
      rw [isInput] at isWord
      have noEnd : Grammar.endSymbol ∉ tokens.map Token.symbol := fun member =>
        (declared.wellFormed.markers _ (by decide)).2 (isTerminal _ member)
      obtain ⟨rfl, -, -⟩ :=
        (List.append_cons_inj_of_notMem noEnd (by simp)).mp isWord
      exact absurd yields noDerivation
    · exact rejects

/-- The grammar of any number of letters `a`. -/
def lettersGrammar : Grammar :=
  ⟨false,
    #[⟨"$end", .endOfSource⟩, ⟨"$nl", .lineBreak⟩, ⟨"$nonl", .noLineBreak⟩,
      ⟨"a", .terminal (.text "a") ⟨false, false⟩⟩, ⟨"S", .nonTerminal⟩],
    #[⟨"S:1", 4, [], [], [], []⟩, ⟨"S:2", 4, [4, 3], [], [], []⟩]⟩

theorem declared_lettersGrammar : lettersGrammar.Declared :=
  (Grammar.Declared.empty false).declareAll
    [.terminal "a" (.text "a") ⟨false, false⟩, .nonTerminal "S",
      .rule 4 "S:1" "", .rule 4 "S:2" "S a"]
    (by cbv)

/-- A parser of any number of letters `a`, which counts them. -/
def lettersParser : Parser Unit Unit Nat where
  compiled :=
    { rules := ⟨lettersGrammar, 4⟩
      table := ⟨#[
        ⟨[(⟨2, 0⟩, [0])], [(4, 1)], [(0, .reduce 0), (3, .reduce 0)], none⟩,
        ⟨[(⟨1, 1⟩, [0, 3]), (⟨2, 1⟩, [0])], [(3, 2)],
          [(0, .accept), (3, .shift 2)], some 4⟩,
        ⟨[(⟨1, 2⟩, [0, 3])], [], [(0, .reduce 1), (3, .reduce 1)],
          some 3⟩], 4, 2⟩
      lexicon :=
        { automaton := ⟨#[
            ⟨[⟨⟨97, 97⟩, ⟨[], some 1⟩⟩], .nowhere, false, none, none⟩,
            ⟨[], .nowhere, true, some 0, none⟩], 1, 2⟩
          symbols := #[3]
          trivia := #[false] } }
  bindings :=
    ⟨[], [(0, fun _ context => (.ok 0, context)),
      (1, fun values context => (.ok ((values.get? 0).getD 0 + 1), context))]⟩
  options := ⟨0, true⟩

theorem decides_language_letters :
    lettersGrammar.Derives [4] [3] ∧
      ∃ fuel report,
        (@parseText _ _ _ Unicode.standard lettersParser fuel () "a" =
          some report) ∧
        ∃ value, report.result = .ok value := by
  let _ : CharacterData := Unicode.standard
  have built : (Table.construct lettersGrammar 4 none).result =
      .ok lettersParser.compiled.table := by
    cbv
  have total : lettersParser.bindings.Total := by
    refine ⟨by simp [lettersParser], fun entry member values context => ?_⟩
    rcases List.mem_cons.mp member with rfl | member
    · exact ⟨_, _, rfl⟩
    · obtain rfl := List.mem_singleton.mp member
      exact ⟨_, _, rfl⟩
  have first : (Scanner.start true).scan lettersParser.compiled.lexicon
      (Window.ofUnits (Text.encode "a")) =
        (.token ⟨3, "a", 0, false⟩, Scanner.start true,
          (Window.ofUnits (Text.encode "a")).consume 1) := by
    decide +kernel
  have last : (Scanner.start true).scan lettersParser.compiled.lexicon
      ((Window.ofUnits (Text.encode "a")).consume 1) =
        (.token ⟨0, "", 1, false⟩, Scanner.start true,
          (Window.ofUnits (Text.encode "a")).consume 1) := by
    decide +kernel
  have letter : (3 : SymbolId) ∈ lettersGrammar.terminals := by
    decide +kernel
  have derives : lettersGrammar.Derives [4] [3] := by
    have more : (⟨"S:2", 4, [4, 3], [], [], []⟩ : Production) ∈
        lettersGrammar.productions := by
      simp [lettersGrammar]
    have none : (⟨"S:1", 4, [], [], [], []⟩ : Production) ∈
        lettersGrammar.productions := by
      simp [lettersGrammar]
    exact .head (.mk more [] []) (.head (.mk none [] [3]) .refl)
  obtain ⟨fuel, report, completes, accepts, -⟩ :=
    decides_language lettersParser declared_lettersGrammar (by decide)
      (by decide) built total (Window.ofUnits (Text.encode "a"))
      (InMemory.mk []) () [⟨3, "a", 0, false⟩] ⟨0, "", 1, false⟩
      (fun token member => List.mem_singleton.mp member ▸ letter) rfl
      (.token first (.token last .done))
  exact ⟨derives, fuel, report, completes, accepts derives⟩

end Parser
end Parse
end ParserGenerator
