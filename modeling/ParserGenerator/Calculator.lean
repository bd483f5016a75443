import ParserGenerator.Calculator.Actions
import ParserGenerator.Calculator.Language
import ParserGenerator.Calculator.Precedence
import ParserGenerator.Definition
import ParserGenerator.Parse.Run

/-!
# The calculator

Evaluation of statements with variables. Each statement has a result, except
for an empty one.
-/

open ParserGenerator.Parse ParserGenerator.Stream

namespace ParserGenerator

/-- A parser that evaluates statements. -/
structure Calculator where
  /-- The parser. -/
  parser : Parser Calculator.SymbolTable Calculator.Failure Calculator.Value

namespace Calculator

/-- Why there is no calculator. -/
inductive SetupError
  | load (error : LoadError)
  | compile (error : CompileError)
  | bind (error : BindError)
  deriving DecidableEq

/-- The wording of an error. -/
def SetupError.message [CharacterData] : SetupError → String
  | load error => s!"invalid calculator grammar: {error.message}"
  | compile error => error.message
  | bind error => s!"invalid calculator grammar: {error.message}"

variable [CharacterData]

/-- The compiled grammar of a definition that was loaded. -/
def compileLoaded : Except LoadError Definition → Except SetupError Compiled
  | .error error => .error (.load error)
  | .ok definition =>
      match (Compiled.compile definition.grammar definition.goalName
          (some precedence)).result with
      | .ok compiled => .ok compiled
      | .error error => .error (.compile error)

/-- The compiled grammar of the calculator. -/
def compile : Except SetupError Compiled :=
  compileLoaded (Definition.load language)

/-- A calculator over the compiled grammar. -/
def ofCompiled (compiled : Compiled) (options : Options) :
    Except SetupError Calculator :=
  match actions compiled.grammar with
  | .ok bindings => .ok ⟨⟨compiled, bindings, options⟩⟩
  | .error error => .error (.bind error)

/-- A calculator that reads its input in the given way. -/
def create (options : Options) : Except SetupError Calculator := do
  ofCompiled (← compile) options

/-- The results in the value of a program. -/
def results : Option Value → List (Option Int)
  | some (.results results) => results
  | some (.number number) => [some number]
  | _ => []

/-- The end of an evaluation. -/
structure Evaluation where
  /-- The results of the statements, or why there are none. -/
  result : Except (ParseError Failure) (List (Option Int))
  /-- The variables afterwards. -/
  table : SymbolTable
  /-- What the parse amounted to. -/
  statistics : Statistics

/-- The evaluation that a parse amounts to. -/
def Evaluation.ofReport (report : Report SymbolTable Failure Value) :
    Evaluation :=
  ⟨report.result.map results, report.context, report.statistics⟩

/-- Evaluate a text that is all in the window. -/
def evaluateText (calculator : Calculator) (fuel : Nat)
    (table : SymbolTable) (text : String) : Option Evaluation :=
  (calculator.parser.parseText fuel table text).map Evaluation.ofReport

/-- Evaluate a stream. -/
def evaluate {Supply : Type} [Source Supply] (calculator : Calculator)
    (fuel : Nat) (table : SymbolTable) (supply : Supply) :
    Option Evaluation :=
  (calculator.parser.parse fuel table supply).map Evaluation.ofReport

end Calculator
end ParserGenerator
