import ParserGenerator.CharacterData
import ParserGenerator.Unicode.CaseMapping
import ParserGenerator.Unicode.GeneralCategory

/-!
# The character data of Unicode

General categories and case counterparts of Unicode as one value.
-/

namespace ParserGenerator
namespace Unicode

/-- The categories and case counterparts of Unicode. -/
@[reducible] def standard : CharacterData where
  category := category
  counterparts := counterparts

end Unicode
end ParserGenerator
