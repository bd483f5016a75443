import Mathlib
import ParserGenerator.Proofs.Parse.Deciding
import ParserGenerator.Proofs.Parse.Soundness
import ParserGenerator.Proofs.Table.Recognition

/-!
# What was shifted can be completed

The symbols on the stack are the start of a form that the goal derives. If all
non-terminals yield something, what was shifted is therefore the start of a
sentence, at every step and whatever resolved the conflicts of the table. A
token that cannot come next is reported before anything is shifted that no
sentence starts with.
-/

open ParserGenerator.Stream

namespace ParserGenerator

namespace Grammar

variable {grammar : Grammar}

/-- A word without non-terminals that a symbol derives. -/
def Sentence (grammar : Grammar) (goal : SymbolId) (word : List SymbolId) :
    Prop :=
  grammar.Derives [goal] word ∧
    ∀ symbol ∈ word, grammar.isNonTerminal symbol = false

/-- Every non-terminal derives a word without non-terminals. -/
def Productive (grammar : Grammar) : Prop :=
  ∀ symbol, grammar.isNonTerminal symbol = true →
    ∃ word, grammar.Sentence symbol word

theorem Yields.not_isNonTerminal
    {symbols word : List SymbolId}
    (yields : grammar.Yields symbols word) :
    ∀ symbol ∈ word, grammar.isNonTerminal symbol = false := by
  induction yields with
  | nil => simp
  | terminal isTerminal _ inductionHypothesis =>
      intro symbol member
      rcases List.mem_cons.mp member with rfl | later
      · exact isTerminal
      · exact inductionHypothesis symbol later
  | production _ _ _ bodyHypothesis restHypothesis =>
      intro symbol member
      rcases List.mem_append.mp member with inBody | inRest
      · exact bodyHypothesis symbol inBody
      · exact restHypothesis symbol inRest

/-- Symbols yield something if the non-terminals among them derive words. -/
theorem exists_yields_of_sentences
    (symbols : List SymbolId)
    (sentences : ∀ symbol ∈ symbols, grammar.isNonTerminal symbol = true →
      ∃ word, grammar.Sentence symbol word) :
    ∃ word, grammar.Yields symbols word := by
  induction symbols with
  | nil => exact ⟨[], .nil⟩
  | cons symbol symbols inductionHypothesis =>
      obtain ⟨first, others⟩ := List.forall_mem_cons.mp sentences
      obtain ⟨rest, restYields⟩ := inductionHypothesis others
      cases isNonTerminal : grammar.isNonTerminal symbol with
      | false => exact ⟨symbol :: rest, .terminal isNonTerminal restYields⟩
      | true =>
          obtain ⟨word, derives, terminals⟩ := first isNonTerminal
          have yields : grammar.Yields [symbol] word :=
            (derives_iff_yields terminals).mp derives
          exact ⟨word ++ rest, yields.append restYields⟩

/-- Where all non-terminals yield something, all symbols do. -/
theorem Productive.exists_yields
    (productive : grammar.Productive)
    (symbols : List SymbolId) :
    ∃ word, grammar.Yields symbols word :=
  exists_yields_of_sentences symbols fun symbol _ => productive symbol

end Grammar

namespace Table
namespace Rules

variable {rules : Rules} {symbols : List SymbolId} {item : Item}

/-- Symbols that lead to an item are the start of a form that the goal derives,
which goes on with the symbols after the dot. -/
theorem Viable.exists_form
    (viable : rules.Viable symbols item) :
    ∃ after, rules.grammar.Derives [rules.goal]
      (symbols ++ (rules.body item.production).drop item.dot ++ after) := by
  induction viable with
  | start =>
      refine ⟨[], ?_⟩
      rw [body_accept]
      exact .refl
  | @advance symbols item symbol _ next inductionHypothesis =>
      obtain ⟨after, derives⟩ := inductionHypothesis
      obtain ⟨rest, split⟩ := next?_eq_some_iff.mp next
      refine ⟨after, ?_⟩
      rw [drop_advance split]
      rw [split] at derives
      simpa using derives
  | @predict symbols item production _ called inductionHypothesis =>
      obtain ⟨after, derives⟩ := inductionHypothesis
      obtain ⟨head, next, -, heads⟩ := mem_predicted.mp called
      obtain ⟨rest, split⟩ := next?_eq_some_iff.mp next
      obtain ⟨rule, found, rfl⟩ := Option.map_eq_some_iff.mp heads
      have isBody : rules.body production = rule.body :=
        (body_of_rule found).2
      have rewrites := Grammar.Rewrites.mk
        (Array.mem_of_getElem? found) symbols (rest ++ after)
      refine ⟨rest ++ after, ?_⟩
      rw [split] at derives
      rw [isBody, List.drop_zero]
      exact derives.tail (by simpa using rewrites)

/-- Symbols that lead to a state lead to an item. -/
theorem exists_viable_of_stateAfter
    {state : Nat}
    (leads : rules.stateAfter symbols = some state) :
    ∃ item, rules.Viable symbols item := by
  cases symbols using List.reverseRecOn with
  | nil => exact ⟨_, .start⟩
  | append_singleton symbols symbol =>
      rw [stateAfter_concat] at leads
      obtain ⟨before, leadsBefore, edge⟩ := Option.bind_eq_some_iff.mp leads
      obtain ⟨kernel, found⟩ := exists_kernel_of_stateAfter leadsBefore
      obtain ⟨-, item, member, next⟩ := kernel_of_goto found edge
      exact ⟨_, .advance (viable_of_mem_closure leadsBefore found member) next⟩

/-- Symbols that lead to a state are the start of a form that the goal
derives. -/
theorem exists_form_of_stateAfter
    {state : Nat}
    (leads : rules.stateAfter symbols = some state) :
    ∃ after, rules.grammar.Derives [rules.goal] (symbols ++ after) := by
  obtain ⟨item, isViable⟩ := exists_viable_of_stateAfter leads
  obtain ⟨after, derives⟩ := isViable.exists_form
  rw [List.append_assoc] at derives
  exact ⟨_, derives⟩

end Rules
end Table

namespace Parse

open Table (Rules)

namespace Tree

variable {grammar : Grammar}

mutual

/-- The symbol that a tree derives yields the symbols of its leaves. -/
theorem yields_leaves
    {symbol : SymbolId} :
    (tree : Tree) → Derives grammar symbol tree →
      grammar.Yields [symbol] (tree.leaves.map Leaf.symbol)
  | .leaf _, .leaf terminal => .terminal terminal .nil
  | .node _ children, .node found derives => by
      have yields := yields_leavesOf children derives
      simpa [leaves] using
        Grammar.Yields.production (Array.mem_of_getElem? found) yields .nil

/-- The symbols that trees derive yield the symbols of their leaves. -/
theorem yields_leavesOf
    {symbols : List SymbolId} :
    (trees : List Tree) → List.Forall₂ (Derives grammar) symbols trees →
      grammar.Yields symbols ((leavesOf trees).map Leaf.symbol)
  | [], .nil => .nil
  | tree :: rest, .cons derives restDerives => by
      rw [leavesOf, List.map_append]
      exact (yields_leaves tree derives).append
        (yields_leavesOf rest restDerives)

end

end Tree

variable {Supply Context Failure Value : Type}

/-- What the trees on a stack have as leaves is the start of a sentence. -/
theorem Represents.exists_sentence
    {rules : Rules}
    {resolver : Option Table.Resolver}
    {table : Table}
    {bindings : Bindings Context Failure Value}
    {start : Context}
    {configuration : Configuration Context Value}
    {trees : List Tree}
    (built : (rules.construct resolver).result = .ok table)
    (productive : rules.grammar.Productive)
    (represents :
      Represents rules table bindings start configuration trees) :
    ∃ rest, rules.grammar.Sentence rules.goal
      ((Tree.leavesOf trees.reverse).map Leaf.symbol ++ rest) := by
  obtain ⟨after, form⟩ := Rules.exists_form_of_stateAfter
    (represents.rooted.stateAfter_symbols built)
  have derives : List.Forall₂ (Tree.Derives rules.grammar)
      (configuration.frames.map Frame.symbol).reverse trees.reverse :=
    List.rel_reverse (List.forall₂_map_left_iff.mpr represents.derives)
  have stackYields := Tree.yields_leavesOf _ derives
  obtain ⟨rest, restYields⟩ := productive.exists_yields after
  have yields := stackYields.append restYields
  exact ⟨rest, form.trans yields.derives, yields.not_isNonTerminal⟩

namespace Run

variable [CharacterData] [Source Supply]

/-- The steps of a run with the tokens that were handed to it and what it
shifted. A token is scanned, or any token whatever arrives where the next one
would be scanned. -/
inductive Traced (parser : Parser Context Failure Value)
    (first : Run Supply Context Value) :
    List Token → List Leaf → Run Supply Context Value → Prop
  | start : Traced parser first [] [] first
  | advance
      {tokens : List Token}
      {leaves : List Leaf}
      {run next : Run Supply Context Value}
      (before : Traced parser first tokens leaves run)
      (ongoing : run.advance parser = .ongoing next) :
      Traced parser first (tokens ++ run.scannedNext parser)
        (leaves ++ run.shiftedNext parser) next
  | deliver
      {tokens : List Token}
      {leaves : List Leaf}
      {run : Run Supply Context Value}
      (before : Traced parser first tokens leaves run)
      (noToken : run.token = none)
      (token : Token) :
      Traced parser first (tokens ++ [token]) leaves
        { run with token := some token }

variable {parser : Parser Context Failure Value}
  {first run : Run Supply Context Value} {resolver : Option Table.Resolver}
  {start : Context} {tokens : List Token} {leaves : List Leaf}

omit [CharacterData] [Source Supply] in
/-- A token that arrives is accounted for. -/
theorem Accounts.deliver
    (accounts : Accounts parser start tokens leaves run)
    (noToken : run.token = none)
    (token : Token) :
    Accounts parser start (tokens ++ [token]) leaves
      { run with token := some token } := by
  obtain ⟨consumed, before, isTokens, isLeaves, spells⟩ := accounts.spells
  have unmarked := accounts.unmarked noToken
  refine ⟨accounts.trees, ⟨consumed, before, ?_, ?_, spells⟩, by simp⟩
  · simp [isTokens, noToken]
  · rw [isLeaves]
    simp [pendingMarker, unmarked]

theorem accounts_of_traced
    (built : (parser.compiled.rules.construct resolver).result =
      .ok parser.compiled.table)
    (accounts : Accounts parser start [] [] first)
    (traced : Traced parser first tokens leaves run) :
    Accounts parser start tokens leaves run := by
  induction traced with
  | start => exact accounts
  | advance _ ongoing inductionHypothesis =>
      exact accounts_advance built inductionHypothesis ongoing
  | deliver _ noToken token inductionHypothesis =>
      exact inductionHypothesis.deliver noToken token

/-- Only the token at hand is ever reported as one that cannot come next. -/
theorem token_of_unexpected
    {report : Report Context Failure Value}
    {error : ParseError Failure}
    {description : String}
    (finished : run.advance parser = .finished report)
    (isError : report.result = .error error)
    (unexpected : error.cause = .unexpectedToken description) :
    ∃ token, run.token = some token ∧ error.position = token.position ∧
      error.lexeme = token.text := by
  unfold advance at finished
  cases atToken : run.token with
  | none =>
      rw [atToken] at finished
      unfold scanToken refill at finished
      dsimp only at finished
      split at finished
      · split at finished
        · simp at finished
        · obtain rfl := Progress.finished.inj finished
          obtain rfl := Except.error.inj isError
          simp at unexpected
      · obtain rfl := Progress.finished.inj finished
        obtain rfl := Except.error.inj isError
        simp at unexpected
      · simp at finished
  | some token =>
      rw [atToken] at finished
      unfold actOn at finished
      dsimp only at finished
      split at finished
      · simp at finished
      · simp at finished
      · obtain rfl := Progress.finished.inj finished
        simp at isError
      · obtain rfl := Progress.finished.inj finished
        obtain rfl := Except.error.inj isError
        exact ⟨token, rfl, rfl, rfl⟩

end Run

namespace Parser

/-- Whatever tokens a run is given, and whatever resolved the conflicts of its
table, what it has shifted at any step is the start of a sentence. Where a token
is reported that cannot come next, all tokens before it were shifted, with at
most one marker in front of each and of the reported token. -/
theorem exists_sentence_of_traced
    [CharacterData]
    [Source Supply]
    (parser : Parser Context Failure Value)
    (resolver : Option Table.Resolver)
    (built : (Table.construct parser.compiled.grammar
      parser.compiled.rules.goal resolver).result = .ok parser.compiled.table)
    (productive : parser.compiled.grammar.Productive)
    (window : Window)
    (supply : Supply)
    (context : Context)
    (tokens : List Token)
    (leaves : List Leaf)
    (run : Run Supply Context Value)
    (traced : Run.Traced parser
      (Run.start parser.options window supply context) tokens leaves run) :
    (∃ rest, parser.compiled.grammar.Sentence parser.compiled.rules.goal
        (leaves.map Leaf.symbol ++ rest)) ∧
      ∀ report error description, run.advance parser = .finished report →
        report.result = .error error →
        error.cause = .unexpectedToken description →
        ∃ consumed last before markers, tokens = consumed ++ [last] ∧
          error.position = last.position ∧ error.lexeme = last.text ∧
          leaves = before ++ markers ∧ Leaf.Spells consumed before ∧
          (markers = [] ∨ markers = [.marker last.marker]) := by
  have isBuilt := Rules.construct_of_ok built
  have accounts := Run.accounts_of_traced isBuilt
    (Run.accounts_start parser parser.options window supply context) traced
  constructor
  · obtain ⟨trees, represents, rfl⟩ := accounts.trees
    exact represents.exists_sentence isBuilt productive
  · intro report error description finished isError unexpected
    obtain ⟨last, atToken, atPosition, isLexeme⟩ :=
      Run.token_of_unexpected finished isError unexpected
    obtain ⟨consumed, before, isTokens, isLeaves, spells⟩ := accounts.spells
    refine ⟨consumed, last, before, run.pendingMarker, ?_, atPosition,
      isLexeme, isLeaves, spells, ?_⟩
    · rw [isTokens, atToken, Option.toList_some]
    · unfold Run.pendingMarker
      rw [atToken]
      split
      · exact .inr rfl
      · exact .inl rfl

/-- The one non-terminal of the unbroken letter derives the letter. -/
theorem productive_unbroken :
    unbrokenLetterParser.compiled.grammar.Productive := by
  intro symbol isNonTerminal
  have only : ∀ symbol < 5,
      unbrokenLetterParser.compiled.grammar.isNonTerminal symbol = true →
        symbol = 4 := by
    decide
  obtain rfl := only symbol (Grammar.lt_size_of_isNonTerminal isNonTerminal)
    isNonTerminal
  have member : (⟨"S:1", 4, [2, 3], [], [], []⟩ : Production) ∈
      unbrokenLetterParser.compiled.grammar.productions :=
    Array.mem_singleton.mpr rfl
  exact ⟨[2, 3], .single (Grammar.Rewrites.mk member [] []), by decide⟩

theorem exists_sentence_of_traced_unbroken :
    (Table.construct unbrokenLetterParser.compiled.grammar
        unbrokenLetterParser.compiled.rules.goal
        (some Table.Resolver.shifting)).result =
      .ok unbrokenLetterParser.compiled.table ∧
    unbrokenLetterParser.compiled.grammar.Productive ∧
    ∃ run : Run InMemory (List String) String,
      @Run.Traced _ _ _ _ Unicode.standard _ unbrokenLetterParser
        (Run.start unbrokenLetterParser.options (Window.ofUnits [])
          (InMemory.mk []) [])
        [⟨3, "a", 0, false⟩, ⟨77, "?", 5, true⟩]
        [.marker 2, .token ⟨3, "a", 0, false⟩] run ∧
      (∃ rest, unbrokenLetterParser.compiled.grammar.Sentence
        unbrokenLetterParser.compiled.rules.goal ([2, 3] ++ rest)) := by
  let _ : CharacterData := Unicode.standard
  have built : (Table.construct unbrokenLetterParser.compiled.grammar
      unbrokenLetterParser.compiled.rules.goal
      (some Table.Resolver.shifting)).result =
        .ok unbrokenLetterParser.compiled.table := by
    cbv
  have started : Run.Traced unbrokenLetterParser
      (Run.start unbrokenLetterParser.options (Window.ofUnits [])
        (InMemory.mk []) [] : Run InMemory (List String) String) [] [] _ :=
    .start
  have delivered := Run.Traced.deliver started rfl ⟨3, "a", 0, false⟩
  have shifted := Run.Traced.advance (Run.Traced.advance delivered rfl) rfl
  have traced := Run.Traced.deliver shifted rfl ⟨77, "?", 5, true⟩
  exact ⟨built, productive_unbroken, _, traced,
    (exists_sentence_of_traced unbrokenLetterParser
      (some Table.Resolver.shifting) built productive_unbroken _ _ _ _ _ _
      traced).1⟩

end Parser
end Parse
end ParserGenerator
