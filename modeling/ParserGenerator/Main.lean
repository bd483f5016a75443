import ParserGenerator.CommandLine
import ParserGenerator.Unicode.Standard

/-!
# The program

Reads the file that a command names and writes what the command writes. The
first argument tells whether a grammar is listed or statements are evaluated.
-/

open ParserGenerator ParserGenerator.CommandLine

namespace ParserGenerator
namespace CommandLine

/-- The command in the arguments of the program. -/
def commandOf : List String → Option Command
  | "generate" :: words => Command.ofListWords? words
  | "calculate" :: words => Command.ofCalculatorWords? words
  | _ => none

/-- The content of a file, if there is such a file. -/
def readFile? (path : String) : IO (Option (List UInt8)) := do
  try
    let content ← IO.FS.readBinFile path
    return some content.toList
  catch _ =>
    return none

/-- Write what a command writes. -/
def write (outcome : Outcome) : IO UInt32 := do
  (← IO.getStdout).putStr outcome.output
  (← IO.getStderr).putStr outcome.errors
  return outcome.code.toUInt32

end CommandLine
end ParserGenerator

/-- Run the command in the arguments. -/
def main (arguments : List String) : IO UInt32 := do
  match commandOf arguments with
  | none => write Outcome.misused
  | some command =>
      let content ← match command.path? with
        | some path => readFile? path
        | none => pure none
      write (@CommandLine.run Unicode.standard command content)
