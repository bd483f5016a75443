import ParserGenerator.Text.Quoted

/-!
# Symbol tables

The variables of a calculator, numbered in the order in which their names
first appear. A variable has no value until it is assigned one.
-/

namespace ParserGenerator
namespace Calculator

/-- Variables with their values. -/
structure SymbolTable where
  /-- The names in the order of appearance, each with its value. -/
  entries : Array (String × Option Int)
  deriving DecidableEq

/-- Why a variable cannot be used. -/
inductive SymbolError
  | invalidIndex (index size : Nat)
  | unassigned (name : String)
  deriving DecidableEq

/-- The wording of an error. -/
def SymbolError.message [CharacterData] : SymbolError → String
  | invalidIndex index size =>
      s!"invalid symbol index {index} (table length {size})"
  | unassigned name =>
      s!"variable {Text.quote name} is used before it is assigned"

namespace SymbolTable

/-- The table without variables. -/
def empty : SymbolTable := ⟨#[]⟩

/-- The number of variables. -/
def size (table : SymbolTable) : Nat := table.entries.size

/-- Whether there are no variables. -/
def isEmpty (table : SymbolTable) : Bool := table.entries.isEmpty

/-- The number of the variable with the given name. -/
def index? (table : SymbolTable) (name : String) : Option Nat :=
  table.entries.findIdx? (·.1 == name)

/-- The number of the variable with the given name, which is added if it is
new. -/
def intern (table : SymbolTable) (name : String) : Nat × SymbolTable :=
  match table.index? name with
  | some index => (index, table)
  | none => (table.size, ⟨table.entries.push (name, none)⟩)

/-- Assign a value to a variable. -/
def assign (table : SymbolTable) (index : Nat) (value : Int) :
    Except SymbolError SymbolTable :=
  match table.entries[index]? with
  | some (name, _) =>
      .ok ⟨table.entries.setIfInBounds index (name, some value)⟩
  | none => .error (.invalidIndex index table.size)

/-- The value of a variable. -/
def value (table : SymbolTable) (index : Nat) : Except SymbolError Int :=
  match table.entries[index]? with
  | some (_, some value) => .ok value
  | some (name, none) => .error (.unassigned name)
  | none => .error (.invalidIndex index table.size)

/-- The value of the variable with the given name, if it has one. -/
def lookup (table : SymbolTable) (name : String) : Option Int :=
  (table.index? name).bind fun index => (table.value index).toOption

/-- The variables that have a value, in the order of appearance. -/
def assigned (table : SymbolTable) : List (String × Int) :=
  table.entries.toList.filterMap fun (name, value) => value.map (name, ·)

end SymbolTable
end Calculator
end ParserGenerator
