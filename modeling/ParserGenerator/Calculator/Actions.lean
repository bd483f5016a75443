import ParserGenerator.Calculator.SymbolTable
import ParserGenerator.Integer
import ParserGenerator.Parse.Bindings
import ParserGenerator.Parse.Error

/-!
# Actions of the calculator

The handlers that evaluate statements while they are parsed. Variables are
interned as soon as their names are read; a statement without an expression
has no result.
-/

open ParserGenerator.Parse

namespace ParserGenerator
namespace Calculator

/-- What a symbol on the stack stands for. -/
inductive Value
  | number (value : Int)
  | name (index : Nat)
  | results (list : List (Option Int))
  deriving DecidableEq

namespace Value

/-- The wording of a result. -/
def displayResult : Option Int → String
  | some value => s!"Some({value})"
  | none => "None"

/-- The wording of a value. -/
def display : Value → String
  | number value => s!"Number({value})"
  | name index => s!"Ident({index})"
  | results list =>
      "Stats([" ++ ", ".intercalate (list.map displayResult) ++ "])"

end Value

/-- Why an action fails. -/
inductive Failure
  | integer (error : Integer.ReadError)
  | symbol (error : SymbolError)
  | divisionByZero
  | overflow
  | absent (absent : AbsentValue)
  | unexpected (expected : String) (found : Value)
  deriving DecidableEq

instance [CharacterData] : Explained Failure where
  chain
    | .integer error =>
        ["unable to parse ParseIntError \x7b kind: " ++ error.kind ++ " \x7d",
          error.message]
    | .symbol error => [s!"symtab error: {error.message}", error.message]
    | .divisionByZero => ["division by zero"]
    | .overflow => ["arithmetic overflow"]
    | .absent absent => [absent.message]
    | .unexpected expected found =>
        [s!"expected {expected}, found {found.display}"]

/-- The value at a place, which is then gone. -/
def takeValue (values : Values Value) (index : Nat) :
    Except Failure (Value × Values Value) :=
  match values.take index with
  | .ok taken => .ok taken
  | .error absent => .error (.absent absent)

/-- The number at a place, which is then gone. -/
def takeNumber (values : Values Value) (index : Nat) :
    Except Failure (Int × Values Value) :=
  match takeValue values index with
  | .ok (.number number, rest) => .ok (number, rest)
  | .ok (other, _) => .error (.unexpected "a number" other)
  | .error failure => .error failure

/-- The variable at a place, which is then gone. -/
def takeVariable (values : Values Value) (index : Nat) :
    Except Failure (Nat × Values Value) :=
  match takeValue values index with
  | .ok (.name index, rest) => .ok (index, rest)
  | .ok (other, _) => .error (.unexpected "an identifier" other)
  | .error failure => .error failure

/-- The results at a place, which are then gone. -/
def takeResults (values : Values Value) (index : Nat) :
    Except Failure (List (Option Int) × Values Value) :=
  match takeValue values index with
  | .ok (.results results, rest) => .ok (results, rest)
  | .ok (other, _) => .error (.unexpected "statements" other)
  | .error failure => .error failure

/-- The result of the statement at a place. -/
def statement (values : Values Value) (index : Nat) : Option Int :=
  match values.get? index with
  | some (.number number) => some number
  | _ => none

/-- A number that may be out of range. -/
def inRange : Option Int → Except Failure Value
  | some number => .ok (.number number)
  | none => .error .overflow

/-- The value of an operation on the numbers around an operator. -/
def binary (operation : Int → Int → Option Int) (values : Values Value) :
    Except Failure Value := do
  let (left, values) ← takeNumber values 0
  let (right, _) ← takeNumber values 2
  inRange (operation left right)

/-- The value of a division; a zero divisor is noticed first. -/
def division (values : Values Value) : Except Failure Value :=
  if values.get? 2 = some (.number 0) then
    .error .divisionByZero
  else
    binary Integer.divide values

/-- The value of a negation. -/
def negation (values : Values Value) : Except Failure Value := do
  let (number, _) ← takeNumber values 1
  inRange (Integer.negate number)

/-- The value of a variable. -/
def reference (values : Values Value) (table : SymbolTable) :
    Except Failure Value := do
  let (index, _) ← takeVariable values 0
  match table.value index with
  | .ok number => .ok (.number number)
  | .error error => .error (.symbol error)

/-- The value of an assignment, and the table after it. -/
def assignment (values : Values Value) (table : SymbolTable) :
    Except Failure (Value × SymbolTable) := do
  let (number, values) ← takeNumber values 2
  let (index, _) ← takeVariable values 0
  match table.assign index number with
  | .ok table => .ok (.number number, table)
  | .error error => .error (.symbol error)

/-- The results with one more statement. -/
def append (values : Values Value) : Except Failure Value := do
  let last := statement values 2
  let (results, _) ← takeResults values 0
  return .results (results ++ [last])

/-- Handlers of the calculator. -/
abbrev Actions := Bindings SymbolTable Failure Value

/-- A handler that leaves the table alone. -/
def pureHandler (action : Values Value → Except Failure Value) :
    ReduceHandler SymbolTable Failure Value :=
  fun values table => (action values, table)

/-- The handler of numbers. -/
def numberHandler : TokenHandler SymbolTable Failure Value :=
  fun text table =>
    match Integer.read text with
    | .ok number => (.ok (.number number), table)
    | .error error => (.error (.integer error), table)

/-- The handler of names. -/
def nameHandler : TokenHandler SymbolTable Failure Value :=
  fun text table =>
    let (index, table) := table.intern text
    (.ok (.name index), table)

/-- The handler of variables in expressions. -/
def referenceHandler : ReduceHandler SymbolTable Failure Value :=
  fun values table => (reference values table, table)

/-- The handler of assignments. -/
def assignmentHandler : ReduceHandler SymbolTable Failure Value :=
  fun values table =>
    match assignment values table with
    | .ok (value, table) => (.ok value, table)
    | .error failure => (.error failure, table)

/-- The handlers of productions by name. -/
def reductions : List (String × ReduceHandler SymbolTable Failure Value) :=
  [("Expr:ident", referenceHandler),
    ("Expr:add", pureHandler (binary Integer.add)),
    ("Expr:sub", pureHandler (binary Integer.subtract)),
    ("Expr:mul", pureHandler (binary Integer.multiply)),
    ("Expr:div", pureHandler division),
    ("Expr:neg", pureHandler negation),
    ("Stat:assign", assignmentHandler),
    ("Stats:one", pureHandler fun values =>
      .ok (.results [statement values 0])),
    ("Stats:more", pureHandler append)]

/-- All handlers of the calculator. -/
def actions (grammar : Grammar) : Except BindError Actions := do
  let named ← Bindings.empty.onToken grammar "number" numberHandler
  let named ← named.onToken grammar "ident" nameHandler
  reductions.foldlM
    (fun bindings (name, handler) => bindings.onReduce grammar name handler)
    named

end Calculator
end ParserGenerator
