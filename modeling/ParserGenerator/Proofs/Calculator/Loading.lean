import Mathlib
import ParserGenerator.Calculator
import ParserGenerator.Proofs.Definition.Sections
import ParserGenerator.Proofs.Grammar.Declaring

/-!
# The grammar of the calculator

The definition of the calculator loads, whatever is known about characters, and
gives a grammar of four non-terminals and fourteen productions.
-/

namespace ParserGenerator

/-! ## Statements of a definition -/

namespace Definition

/-- Statements add productions and leave the symbols alone. -/
theorem addStatement_keeps
    {draft next : Draft}
    {statement : Statement}
    (added : addStatement draft statement = .ok next) :
    next.grammar = ⟨draft.grammar.anyCase, draft.grammar.symbols,
      next.grammar.productions⟩ := by
  unfold addStatement at added
  split at added
  · split at added
    · simp at added
    · dsimp only at added
      split at added
      · simp at added
      · next after _ ruled =>
          obtain rfl := Except.ok.inj added
          unfold Grammar.addRule at ruled
          split at ruled
          · simp at ruled
          split at ruled
          · simp at ruled
          split at ruled
          · simp at ruled
          obtain ⟨_, -, ruled⟩ := Grammar.exists_ok_of_bind ruled
          obtain ⟨rfl, -⟩ := Prod.mk.inj (Except.ok.inj ruled)
          rfl
  · split at added
    · simp at added
    · obtain rfl := Except.ok.inj added
      rfl
  · obtain rfl := Except.ok.inj added
    rfl

theorem foldlM_addStatement_keeps
    {statements : List Statement}
    {draft last : Draft}
    (added : statements.foldlM addStatement draft = .ok last) :
    last.grammar = ⟨draft.grammar.anyCase, draft.grammar.symbols,
      last.grammar.productions⟩ := by
  induction statements generalizing draft with
  | nil =>
      obtain rfl := Except.ok.inj added
      rfl
  | cons statement rest inductionHypothesis =>
      rw [List.foldlM_cons] at added
      obtain ⟨next, first, others⟩ := Grammar.exists_ok_of_bind added
      rw [inductionHypothesis others, addStatement_keeps first]

end Definition

/-! ## The definition of the calculator -/

namespace Calculator

open Definition

/-- The terminals as they are declared. -/
def terminalDeclarations : List TerminalLine :=
  [⟨"number", "(?:[0-9])+", ⟨false, false⟩, 4⟩,
    ⟨"ident", "[\\p\x7bL\x7d_](?:[\\p\x7bL\x7d\\p\x7bNd\x7d_])*",
      ⟨false, false⟩, 5⟩,
    ⟨"plus", "\\+", ⟨false, false⟩, 6⟩,
    ⟨"minus", "-", ⟨false, false⟩, 7⟩,
    ⟨"asterisk", "\\*", ⟨false, false⟩, 8⟩,
    ⟨"slash", "/", ⟨false, false⟩, 9⟩,
    ⟨"equals", "=", ⟨false, false⟩, 10⟩,
    ⟨"leftParen", "\\(", ⟨false, false⟩, 11⟩,
    ⟨"rightParen", "\\)", ⟨false, false⟩, 12⟩,
    ⟨"semicolon", ";", ⟨false, false⟩, 13⟩,
    ⟨"ws", "[ \\t\\r\\n]+", ⟨false, true⟩, 14⟩,
    ⟨"comment", "//[^\\n]*", ⟨false, true⟩, 15⟩]

/-- The statements of the production section. -/
def productionStatements : List Definition.Statement :=
  [.start "Program",
    .production none "Program" [⟨"Stats", true⟩],
    .production (some "more") "Stats"
      [⟨"Stats", true⟩, ⟨"semicolon", false⟩, ⟨"Stat", true⟩],
    .production (some "one") "Stats" [⟨"Stat", true⟩],
    .production (some "empty") "Stat" [],
    .production (some "expr") "Stat" [⟨"Expr", true⟩],
    .production (some "assign") "Stat"
      [⟨"ident", false⟩, ⟨"equals", false⟩, ⟨"Expr", true⟩],
    .production (some "number") "Expr" [⟨"number", false⟩],
    .production (some "ident") "Expr" [⟨"ident", false⟩],
    .production (some "add") "Expr"
      [⟨"Expr", true⟩, ⟨"plus", false⟩, ⟨"Expr", true⟩],
    .production (some "sub") "Expr"
      [⟨"Expr", true⟩, ⟨"minus", false⟩, ⟨"Expr", true⟩],
    .production (some "mul") "Expr"
      [⟨"Expr", true⟩, ⟨"asterisk", false⟩, ⟨"Expr", true⟩],
    .production (some "div") "Expr"
      [⟨"Expr", true⟩, ⟨"slash", false⟩, ⟨"Expr", true⟩],
    .production (some "neg") "Expr" [⟨"minus", false⟩, ⟨"Expr", true⟩],
    .production (some "paren") "Expr"
      [⟨"leftParen", false⟩, ⟨"Expr", true⟩, ⟨"rightParen", false⟩]]

theorem lines_language :
    Text.lines language =
      terminalLines.map String.toList ++
        ['%', '%'] :: productionLines.map String.toList := by
  have unbroken : ∀ line ∈ (terminalLines ++ "%%" :: productionLines).map
      String.toList, '\n' ∉ line := by
    decide +kernel
  rw [Text.lines, language, String.toList_intercalate]
  refine (Text.splitAt_intercalate (by simp) unbroken).trans ?_
  rw [List.map_append, List.map_cons]
  rfl

theorem splitSections_language :
    splitSections 1 (Text.lines language) =
      .ok (terminalLines.map String.toList,
        productionLines.map String.toList, 17) := by
  rw [lines_language]
  exact splitSections_append 1 (by decide +kernel) (by decide)

theorem readTerminals_language :
    readTerminals (terminalLines.map String.toList) =
      .ok ⟨false, terminalDeclarations,
        [("WORD", "[\\p\x7bL\x7d\\p\x7bNd\x7d_]".toList),
          ("DIGIT", "[0-9]".toList)]⟩ :=
  Grammar.eq_ok_of_toOption (by decide +kernel)

theorem statements_language :
    (tokenizeLines 17 (productionLines.map String.toList) >>= statements) =
      .ok productionStatements :=
  Grammar.eq_ok_of_toOption (by decide +kernel)

/-- A pattern of single characters from the given ranges and categories. -/
def oneOf (ranges : List CodeRange) (categories : BitVec 30) : Pattern :=
  .set (.plain ⟨⟨ranges⟩, ⟨categories⟩⟩)

/-- The symbols of the grammar of the calculator. -/
def symbols : Array Symbol :=
  #[⟨"$end", .endOfSource⟩, ⟨"$nl", .lineBreak⟩, ⟨"$nonl", .noLineBreak⟩,
    ⟨"number", .terminal (.repeat (oneOf [⟨48, 57⟩] 0) .oneOrMore)
      ⟨false, false⟩⟩,
    ⟨"ident", .terminal (.concat [oneOf [⟨95, 95⟩] 31,
      .repeat (oneOf [⟨95, 95⟩] 287) .zeroOrMore]) ⟨false, false⟩⟩,
    ⟨"plus", .terminal (.text "+") ⟨false, false⟩⟩,
    ⟨"minus", .terminal (.text "-") ⟨false, false⟩⟩,
    ⟨"asterisk", .terminal (.text "*") ⟨false, false⟩⟩,
    ⟨"slash", .terminal (.text "/") ⟨false, false⟩⟩,
    ⟨"equals", .terminal (.text "=") ⟨false, false⟩⟩,
    ⟨"leftParen", .terminal (.text "(") ⟨false, false⟩⟩,
    ⟨"rightParen", .terminal (.text ")") ⟨false, false⟩⟩,
    ⟨"semicolon", .terminal (.text ";") ⟨false, false⟩⟩,
    ⟨"ws", .terminal (.repeat
      (oneOf [⟨9, 10⟩, ⟨13, 13⟩, ⟨32, 32⟩] 0) .oneOrMore) ⟨false, true⟩⟩,
    ⟨"comment", .terminal (.concat [.text "//", .repeat (.set (.except
      ⟨⟨[]⟩, ⟨939524095⟩⟩ (.plain ⟨⟨[⟨10, 10⟩]⟩, ⟨0⟩⟩))) .zeroOrMore])
      ⟨false, true⟩⟩,
    ⟨"Program", .nonTerminal⟩, ⟨"Stats", .nonTerminal⟩,
    ⟨"Stat", .nonTerminal⟩, ⟨"Expr", .nonTerminal⟩]

/-- The productions of the grammar of the calculator. -/
def productions : Array Production :=
  #[⟨"Program:1", 15, [16], [], [], []⟩,
    ⟨"Stats:more", 16, [16, 12, 17], [], [], []⟩,
    ⟨"Stats:one", 16, [17], [], [], []⟩,
    ⟨"Stat:empty", 17, [], [], [], []⟩,
    ⟨"Stat:expr", 17, [18], [], [], []⟩,
    ⟨"Stat:assign", 17, [4, 9, 18], [], [], []⟩,
    ⟨"Expr:number", 18, [3], [], [], []⟩,
    ⟨"Expr:ident", 18, [4], [], [], []⟩,
    ⟨"Expr:add", 18, [18, 5, 18], [], [], []⟩,
    ⟨"Expr:sub", 18, [18, 6, 18], [], [], []⟩,
    ⟨"Expr:mul", 18, [18, 7, 18], [], [], []⟩,
    ⟨"Expr:div", 18, [18, 8, 18], [], [], []⟩,
    ⟨"Expr:neg", 18, [6, 18], [], [], []⟩,
    ⟨"Expr:paren", 18, [10, 18, 11], [], [], []⟩]

/-- The grammar of the calculator. -/
def grammar : Grammar := ⟨false, symbols, productions⟩

theorem addStatements_language :
    productionStatements.foldlM addStatement ⟨⟨false, symbols, #[]⟩, none, none⟩ =
      .ok ⟨grammar, some 15, some 15⟩ := by
  have added : ((productionStatements.foldlM addStatement
      ⟨⟨false, symbols, #[]⟩, none, none⟩).toOption.map fun draft =>
        (draft.grammar.productions, draft.start, draft.firstHead)) =
      some (productions, some 15, some 15) := by
    decide +kernel
  obtain ⟨⟨after, start, firstHead⟩, isLast, same⟩ :=
    Option.map_eq_some_iff.mp added
  have isDraft := Grammar.eq_ok_of_toOption isLast
  obtain ⟨isProductions, rest⟩ := Prod.mk.inj same
  obtain ⟨rfl, rfl⟩ := Prod.mk.inj rest
  have isGrammar := foldlM_addStatement_keeps isDraft
  dsimp only at isGrammar isProductions
  rw [isDraft, isGrammar, isProductions]
  rfl

theorem addOverrides_language :
    productionStatements.foldlM addOverride grammar = .ok grammar := rfl

theorem declareNonTerminals_language :
    declareNonTerminals ⟨false, symbols.take 15, #[]⟩
      (heads productionStatements ++
        bodyNonTerminals productionStatements).eraseDups =
      .ok ⟨false, symbols, #[]⟩ := by
  have named : (heads productionStatements ++
        bodyNonTerminals productionStatements).eraseDups =
      ["Program", "Stats", "Stat", "Expr"] := by
    decide +kernel
  rw [named]
  cbv

theorem declareTerminals_language [CharacterData] :
    declareTerminals (Grammar.empty false) terminalDeclarations =
      .ok ⟨false, symbols.take 15, #[]⟩ := by
  cbv

theorem assemble_language
    [CharacterData]
    (shorthands : List (String × List Char)) :
    assemble ⟨false, terminalDeclarations, shorthands⟩ productionStatements =
      .ok ⟨grammar, 15⟩ := by
  unfold assemble
  refine bind_of_ok declareTerminals_language ?_
  refine bind_of_ok declareNonTerminals_language ?_
  refine bind_of_ok addStatements_language ?_
  exact bind_of_ok addOverrides_language rfl

/-- The definition of the calculator loads. -/
theorem load_language [CharacterData] :
    Definition.load language = .ok ⟨grammar, 15⟩ := by
  obtain ⟨tokens, tokenized, stated⟩ :=
    Grammar.exists_ok_of_bind statements_language
  unfold Definition.load
  refine bind_of_ok splitSections_language ?_
  refine bind_of_ok readTerminals_language ?_
  refine bind_of_ok tokenized ?_
  exact bind_of_ok stated (assemble_language _)

end Calculator
end ParserGenerator
