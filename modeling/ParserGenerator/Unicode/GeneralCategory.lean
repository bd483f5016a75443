import ParserGenerator.Categories
import ParserGenerator.CodeRange
import ParserGenerator.Text.Hex

/-!
# General categories of the code points

The assignment of general categories in Unicode 16, as the lengths of the
runs of equal category from the first code point to the last. A run is
written as the abbreviation and its length in hexadecimal, a length of one
being left out; `Lu+Ll*1B` stands for the two runs repeated.
-/

namespace ParserGenerator
namespace Unicode

/-- The value of a hexadecimal numeral; one if there is no digit. -/
def runLength (digits : List Char) : Nat :=
  if digits.isEmpty then
    1
  else
    digits.foldl (fun value digit =>
      value * 16 + (Text.hexDigit? digit).getD 0) 0

/-- The category and length of one run. -/
def readRun (text : String) : Category × Nat :=
  let characters := text.toList
  ((Category.ofAbbreviation? (String.ofList (characters.take 2))).getD
      .unassigned,
    runLength (characters.drop 2))

/-- The runs of a word, repeated as often as it says. -/
def readRuns (word : String) : List (Category × Nat) :=
  match word.splitOn "*" with
  | [body, times] =>
      (List.replicate (runLength times.toList)
        ((body.splitOn "+").map readRun)).flatten
  | _ => (word.splitOn "+").map readRun

/-- The runs of equal category from the first code point to the last. -/
def categoryLengths : List String :=
  ["Cc20 Zs Po3 Sc Po3 Ps Pe Po Sm Po Pd Po2 NdA Po2 Sm3 Po2 Lu1A Ps Po Pe Sk Pc Sk Ll1A",
    "Ps Sm Pe Sm Cc21 Zs Po Sc4 So Po Sk So Lo Pi Sm Cf So Sk So Sm No2 Sk Ll Po2 Sk No",
    "Lo Pf No3 Po Lu17 Sm Lu7 Ll18 Sm Ll8 Lu+Ll*1B Lu Ll2 Lu+Ll*7 Lu Ll2 Lu+Ll*17 Lu2",
    "Ll+Lu*2 Ll3 Lu2 Ll Lu Ll Lu2 Ll Lu3 Ll2 Lu4 Ll Lu2 Ll Lu3 Ll3 Lu2+Ll*2 Lu+Ll*2 Lu2",
    "Ll Lu Ll2 Lu Ll Lu2 Ll Lu3 Ll Lu Ll Lu2 Ll2 Lo Lu Ll3 Lo4 Lu Lt Ll Lu Lt Ll Lu Lt",
    "Ll+Lu*8 Ll2 Lu+Ll*8 Lu Ll2 Lu Lt Ll Lu Ll Lu3 Ll+Lu*1D Ll7 Lu2 Ll Lu2 Ll2 Lu Ll Lu4",
    "Ll+Lu*4 Ll45 Lo Ll1B Lm12 Sk4 LmC SkE Lm5 Sk7 Lm Sk Lm Sk11 Mn70 Lu+Ll*2 Lm Sk Lu Ll",
    "Cn2 Lm Ll3 Po Lu Cn4 Sk2 Lu Po Lu3 Cn Lu Cn Lu2 Ll Lu11 Cn Lu9 Ll23 Lu Ll2 Lu3 Ll3",
    "Lu+Ll*B Lu Ll5 Lu Ll Sm Lu Ll Lu2 Ll2 Lu33 Ll30 Lu+Ll*11 So Mn5 Me2 Lu+Ll*1B Lu2",
    "Ll+Lu*6 Ll2 Lu+Ll*30 Cn Lu26 Cn2 Lm Po6 Ll29 Po Pd Cn2 So2 Sc Cn Mn2D Pd Mn Po+Mn2*2",
    "Po Mn Cn8 Lo1B Cn4 Lo4 Po2 CnB Cf6 Sm3 Po2 Sc Po2 So2 MnB Po Cf Po3 Lo20 Lm LoA Mn15",
    "NdA Po4 Lo2 Mn Lo63 Po Lo Mn7 Cf So Mn6 Lm2 Mn2 So Mn4 Lo2 NdA Lo3 So2 Lo PoE Cn Cf",
    "Lo Mn Lo1E Mn1B Cn2 Lo59 MnB Lo CnE NdA Lo21 Mn9 Lm2 So Po3 Lm Cn2 Mn Sc2 Lo16 Mn4",
    "Lm Mn9 Lm Mn3 Lm Mn5 Cn2 PoF Cn Lo19 Mn3 Cn2 Po Cn LoB Cn5 Lo18 Sk Lo6 Cn Cf2 Cn5",
    "Mn9 Lo29 Lm Mn18 Cf Mn20 Mc Lo36 Mn Mc Mn Lo Mc3 Mn8 Mc4 Mn Mc2 Lo Mn7 LoA Mn2 Po2",
    "NdA Po Lm LoF Mn Mc2 Cn Lo8 Cn2 Lo2 Cn2 Lo16 Cn Lo7 Cn Lo Cn3 Lo4 Cn2 Mn Lo Mc3 Mn4",
    "Cn2+Mc2*2 Mn Lo Cn8 Mc Cn4 Lo2 Cn Lo3 Mn2 Cn2 NdA Lo2 Sc2 No6 So Sc Lo Po Mn Cn2 Mn2",
    "Mc Cn Lo6 Cn4 Lo2 Cn2 Lo16 Cn Lo7 Cn+Lo2*3 Cn2 Mn Cn Mc3 Mn2 Cn4 Mn2 Cn2 Mn3 Cn3 Mn",
    "Cn7 Lo4 Cn Lo Cn7 NdA Mn2 Lo3 Mn Po CnA Mn2 Mc Cn Lo9 Cn Lo3 Cn Lo16 Cn Lo7 Cn Lo2",
    "Cn Lo5 Cn2 Mn Lo Mc3 Mn5 Cn Mn2 Mc Cn Mc2 Mn Cn2 Lo CnF Lo2 Mn2 Cn2 NdA Po Sc Cn7 Lo",
    "Mn6 Cn Mn Mc2 Cn Lo8 Cn2 Lo2 Cn2 Lo16 Cn Lo7 Cn Lo2 Cn Lo5 Cn2 Mn Lo Mc Mn Mc Mn4",
    "Cn2+Mc2*2 Mn Cn7 Mn2 Mc Cn4 Lo2 Cn Lo3 Mn2 Cn2 NdA So Lo No6 CnA Mn Lo Cn Lo6 Cn3",
    "Lo3 Cn Lo4 Cn3 Lo2 Cn Lo Cn Lo2+Cn3*2 Lo3 Cn3 LoC Cn4 Mc2 Mn Mc2 Cn3 Mc3 Cn Mc3 Mn",
    "Cn2 Lo Cn6 Mc CnE NdA No3 So6 Sc So Cn5 Mn Mc3 Mn Lo8 Cn Lo3 Cn Lo17 Cn Lo10 Cn2 Mn",
    "Lo Mn3 Mc4 Cn Mn3 Cn Mn4 Cn7 Mn2 Cn Lo3 Cn2 Lo Cn2 Lo2 Mn2 Cn2 NdA Cn7 Po No7 So Lo",
    "Mn Mc2 Po Lo8 Cn Lo3 Cn Lo17 Cn LoA Cn Lo5 Cn2 Mn Lo Mc Mn Mc5 Cn Mn Mc2 Cn Mc2 Mn2",
    "Cn7 Mc2 Cn6 Lo2 Cn Lo2 Mn2 Cn2 NdA Cn Lo2 Mc CnC Mn2 Mc2 Lo9 Cn Lo3 Cn Lo29 Mn2 Lo",
    "Mc3 Mn4 Cn+Mc3*2 Mn Lo So Cn4 Lo3 Mc No7 Lo3 Mn2 Cn2 NdA No9 So Lo6 Cn Mn Mc2 Cn",
    "Lo12 Cn3 Lo18 Cn Lo9 Cn Lo Cn2 Lo7 Cn3 Mn Cn4 Mc3 Mn3 Cn Mn Cn Mc8 Cn6 NdA Cn2 Mc2",
    "Po CnC Lo30 Mn Lo2 Mn7 Cn4 Sc Lo6 Lm Mn8 Po NdA Po2 Cn25 Lo2 Cn Lo Cn Lo5 Cn Lo18 Cn",
    "Lo Cn LoA Mn Lo2 Mn9 Lo Cn2 Lo5 Cn Lm Cn Mn7 Cn NdA Cn2 Lo4 Cn20 Lo So3 PoF So Po",
    "So3 Mn2 So6 NdA NoA So+Mn*3 Ps+Pe*2 Mc2 Lo8 Cn Lo24 Cn4 MnE Mc Mn5 Po Mn2 Lo5 MnB Cn",
    "Mn24 Cn So8 Mn So6 Cn So2 Po5 So4 Po2 Cn25 Lo2B Mc2 Mn4 Mc Mn6 Mc Mn2 Mc2 Mn2 Lo NdA",
    "Po6 Lo6 Mc2 Mn2 Lo4 Mn3 Lo Mc3 Lo2 Mc7 Lo3 Mn4 LoD Mn Mc2 Mn2 Mc6 Mn Lo Mc NdA Mc3",
    "Mn So2 Lu26 Cn Lu Cn5 Lu Cn2 Ll2B Po Lm Ll3 Lo149 Cn Lo4 Cn2 Lo7 Cn Lo Cn Lo4 Cn2",
    "Lo29 Cn Lo4 Cn2 Lo21 Cn Lo4 Cn2 Lo7 Cn Lo Cn Lo4 Cn2 LoF Cn Lo39 Cn Lo4 Cn2 Lo43 Cn2",
    "Mn3 Po9 No14 Cn3 Lo10 SoA Cn6 Lu56 Cn2 Ll6 Cn2 Pd Lo26C So Po Lo11 Zs Lo1A Ps Pe Cn3",
    "Lo4B Po3 Nl3 Lo8 Cn7 Lo12 Mn3 Mc Cn9 Lo13 Mn2 Mc Po2 Cn9 Lo12 Mn2 CnC LoD Cn Lo3 Cn",
    "Mn2 CnC Lo34 Mn2 Mc Mn7 Mc8 Mn Mc2 MnB Po3 Lm Po3 Sc Lo Mn Cn2 NdA Cn6 NoA Cn6 Po6",
    "Pd Po4 Mn3 Cf Mn NdA Cn6 Lo23 Lm Lo35 Cn7 Lo5 Mn2 Lo22 Mn Lo Cn5 Lo46 CnA Lo1F Cn",
    "Mn3 Mc4 Mn2 Mc3 Cn4 Mc2 Mn Mc6 Mn3 Cn4 So Cn3 Po2 NdA Lo1E Cn2 Lo5 CnB Lo2C Cn4 Lo1A",
    "Cn6 NdA No Cn3 So22 Lo17 Mn2 Mc2 Mn Cn2 Po2 Lo35 Mc Mn Mc Mn7 Cn Mn Mc Mn Mc2 Mn8",
    "Mc6 MnA Cn2 Mn NdA+Cn6*2 Po7 Lm Po6 Cn2 MnE Me Mn10 Cn31 Mn4 Mc Lo2F Mn Mc Mn5 Mc Mn",
    "Mc5 Mn Mc2 Lo8 Cn Po2 NdA Po7 SoA Mn9 So9 Po3 Mn2 Mc Lo1E Mc Mn4 Mc2 Mn2 Mc Mn3 Lo2",
    "NdA Lo2C Mn Mc Mn2 Mc3 Mn Mc Mn3 Mc2 Cn8 Po4 Lo24 Mc8 Mn8 Mc2 Mn2 Cn3 Po5 NdA Cn3",
    "Lo3 NdA Lo1E Lm6 Po2 Ll9 Lu Ll Cn5 Lu2B Cn2 Lu3 Po8 Cn8 Mn3 Po MnD Mc Mn7 Lo4 Mn Lo6",
    "Mn Lo2 Mc Mn2 Lo Cn5 Ll2C Lm3F LlD Lm Ll22 Lm25 Mn40 Lu+Ll*4A Lu Ll9 Lu+Ll*30 Lu Ll9",
    "Lu8 Ll6 Cn2 Lu6 Cn2 Ll8+Lu8*2 Ll6 Cn2 Lu6 Cn2 Ll8 Cn+Lu*4 Ll8 Lu8 LlE Cn2 Ll8+Lt8*3",
    "Ll5 Cn Ll2 Lu4 Lt Sk Ll Sk3 Ll3 Cn Ll2 Lu4 Lt Sk3 Ll4 Cn2 Ll2 Lu4 Cn Sk3 Ll8 Lu5 Sk3",
    "Cn2 Ll3 Cn Ll2 Lu4 Lt Sk2 Cn ZsB Cf5 Pd6 Po2 Pi Pf Ps Pi2 Pf Ps Pi Po8 Zl Zp Cf5 Zs",
    "Po9 Pi Pf Po4 Pc2 Po3 Sm Ps Pe PoB Sm Po Pc PoA Zs Cf5 Cn CfA No Lm Cn2 No6 Sm3 Ps",
    "Pe Lm NoA Sm3 Ps Pe Cn LmD Cn3 Sc21 CnF MnD Me4 Mn Me3 MnC CnF So2 Lu So4 Lu So2 Ll",
    "Lu3 Ll2 Lu3 Ll So Lu So2 Sm Lu5 So6 Lu+So*3 Lu4 So Ll Lu4 Ll Lo4 Ll So2 Ll2 Lu2 Sm5",
    "Lu Ll4 So Sm So2 Ll So No10 Nl23 Lu Ll Nl4 No So2 Cn4 Sm5 So5 Sm2 So4 Sm+So2*2 Sm",
    "So7 Sm So1F Sm2 So2 Sm So Sm So1F Sm10C So8 Ps+Pe*2 So14 Sm2 So7 Ps Pe So51 Sm So1E",
    "Sm19 So28 Sm6 So48 Cn16 SoB Cn15 No3C So4E No16 SoB7 Sm So9 Sm So36 Sm8 So6F Sm SoF8",
    "Ps+Pe*7 No1E So2C Sm5 Ps Pe Sm1F Ps+Pe*5 Sm10 So100 Sm83 Ps+Pe*B Sm3F Ps+Pe*2 Sm20",
    "Ps Pe Sm102 So30 Sm15 So2 Sm6 So27 Cn2 So20 Cn So69 Lu30 Ll30 Lu Ll Lu3 Ll2 Lu+Ll*3",
    "Lu4 Ll Lu Ll2 Lu Ll6 Lm2 Lu3 Ll+Lu*31 Ll2 So6 Lu+Ll*2 Mn3 Lu Ll Cn5 Po4 No Po2 Ll26",
    "Cn Ll Cn5 Ll Cn2 Lo38 Cn7 Lm Po CnE Mn Lo17 Cn9 Lo7+Cn*8 Mn20 Po2 Pi+Pf*2 Po3 Pi Pf",
    "Po Pi Pf Po9 Pd Po2 Pd Po Pi Pf Po2 Pi Pf Ps+Pe*4 Po5 Lm PoA Pd2 Po4 Pd Po Ps PoD",
    "So2 Po3 Ps+Pe*4 Pd Cn22 So1A Cn So59 CnC SoD6 Cn1A So10 Zs Po3 So Lm Lo Nl Ps+Pe*5",
    "So2 Ps+Pe*4 Pd Ps Pe2 So Nl9 Mn4 Mc2 Pd Lm5 So2 Nl3 Lm Lo Po So2 Cn Lo56 Cn2 Mn2 Sk2",
    "Lm2 Lo Pd Lo5A Po Lm3 Lo Cn5 Lo2B Cn Lo5E Cn So2 No4 SoA Lo20 So26 Cn9 So Lo10 So1F",
    "Cn NoA So1E No8 So NoF So20 NoA So27 NoF So140 Lo19C0 So40 Lo5215 Lm Lo477 Cn3 So37",
    "Cn9 Lo28 Lm6 Po2 Lo10C Lm Po3 Lo10 NdA Lo2 Cn14 Lu+Ll*17 Lo Mn Me3 Po MnA Po Lm",
    "Lu+Ll*E Lm2 Mn2 Lo46 NlA Mn2 Po6 Cn8 Sk17 Lm9 Sk2 Lu+Ll*6 Lu Ll3 Lu+Ll*1F Lm Ll8",
    "Lu+Ll*2 Lu2 Ll+Lu*4 Ll Lm Sk2 Lu+Ll*2 Lo Lu Ll Lu Ll3 Lu+Ll*A Lu5+Ll*2 Lu+Ll*7 Lu4",
    "Ll Lu Ll Lu2 Ll Cn2 Lu Ll+Cn*2 Ll+Lu*4 Cn15 Lm3 Lu Ll Lo Lm2 Ll Lo7 Mn Lo3 Mn Lo4 Mn",
    "Lo17 Mc2 Mn2 Mc So4 Mn Cn3 No6 So2 Sc So Cn6 Lo34 Po4 Cn8 Mc2 Lo32 Mc10 Mn2 Cn8 Po2",
    "NdA Cn6 Mn12 Lo6 Po3 Lo Po Lo2 Mn NdA Lo1C Mn8 Po2 Lo17 MnB Mc2 CnB Po Lo1D Cn3 Mn3",
    "Mc Lo2F Mn Mc2 Mn4 Mc2 Mn2 Mc3 PoD Cn Lm NdA Cn4 Po2 Lo5 Mn Lm Lo9 NdA Lo5 Cn Lo29",
    "Mn6 Mc2+Mn2*2 Cn9 Lo3 Mn Lo8 Mn Mc Cn2 NdA Cn2 Po4 Lo10 Lm Lo6 So3 Lo Mc Mn Mc Lo32",
    "Mn Lo Mn3 Lo2 Mn2 Lo5 Mn2 Lo Mn Lo Cn18 Lo2 Lm Po2 LoB Mc Mn2 Mc2 Po2 Lo Lm2 Mc Mn",
    "CnA Lo6+Cn2*2 Lo6 Cn9 Lo7+Cn*2 Ll2B Sk Lm4 Ll9 Lm Sk2 Cn4 Ll50 Lo23 Mc2+Mn*2 Mc2 Po",
    "Mc Mn Cn2 NdA Cn6 Lo2BA4 CnC Lo17 Cn4 Lo31 Cn4 Cs800 Co1900 Lo16E Cn2 Lo6A Cn26 Ll7",
    "CnC Ll5 Cn5 Lo Mn LoA Sm LoD Cn Lo5 Cn Lo Cn+Lo2*2 Cn Lo6C Sk11 Cn10 Lo16B Pe Ps",
    "So10 Lo40 Cn2 Lo36 Cn7 So Cn20 LoC Sc So3 Mn10 Po7 Ps Pe Po Cn6 Mn10 Po Pd2 Pc2",
    "Ps+Pe*8 Po2 Ps Pe Po4 Pc3 Po3 Cn Po4 Pd Ps+Pe*3 Po3 Sm Pd Sm3 Cn Po Sc Po2 Cn4 Lo5",
    "Cn Lo87 Cn2 Cf Cn Po3 Sc Po3 Ps Pe Po Sm Po Pd Po2 NdA Po2 Sm3 Po2 Lu1A Ps Po Pe Sk",
    "Pc Sk Ll1A Ps Sm Pe Sm Ps Pe Po Ps Pe Po2 LoA Lm Lo2D Lm2 Lo1F Cn3 Lo6+Cn2*3 Lo3 Cn3",
    "Sc2 Sm Sk So Sc2 Cn So Sm4 So2 CnA Cf3 So2 Cn2 LoC Cn Lo1A Cn Lo13 Cn Lo2 Cn LoF Cn2",
    "LoE Cn22 Lo7B Cn5 Po3 Cn4 No2D Cn3 So9 Nl35 No4 So11 No2 So3 Cn SoD Cn3 So Cn2F So2D",
    "Mn Cn82 Lo1D Cn3 Lo31 CnF Mn No1B Cn4 Lo20 No4 Cn9 Lo14 Nl Lo8 Nl Cn5 Lo26 Mn5 Cn5",
    "Lo1E Cn Po Lo24 Cn4 Lo8 Po Nl5 Cn2A Lu28 Ll28 Lo4E Cn2 NdA Cn6 Lu24 Cn4 Ll24 Cn4",
    "Lo28 Cn8 Lo34 CnB Po LuB Cn LuF Cn Lu7 Cn Lu2 Cn LlB Cn LlF Cn Ll7 Cn Ll2 Cn3 Lo34",
    "CnC Lo137 Cn9 Lo16 CnA Lo8 Cn18 Lm6 Cn Lm2A Cn Lm9 Cn45 Lo6 Cn2 Lo Cn Lo2C Cn Lo2",
    "Cn3 Lo Cn2 Lo17 Cn Po No8 Lo17 So2 No7 Lo1F Cn8 No9 Cn30 Lo13 Cn Lo2 Cn5 No5 Lo16",
    "No6 Cn3 Po Lo1A Cn5 Po Cn40 Lo38 Cn4 No2 Lo2 No10 Cn2 No2E Lo Mn3 Cn Mn2 Cn5 Mn4 Lo4",
    "Cn Lo3 Cn Lo1D Cn2 Mn3 Cn4 Mn No9 Cn7 Po9 Cn7 Lo1D No2 Po Lo1D No3 Cn20 Lo8 So Lo1C",
    "Mn2 Cn4 No5 Po7 Cn9 Lo36 Cn3 Po7 Lo16 Cn2 No8 Lo13 Cn5 No8 Lo12 Cn7 Po4 CnC No7 Cn50",
    "Lo49 Cn37 Lu33 CnD Ll33 Cn7 No6 Lo24 Mn4 Cn8 NdA Cn6 NdA Lo4 Lm Lo Lu16 Cn3 Mn5 Pd",
    "Lm Ll16 Cn8 Sm2 CnD0 No1F Cn Lo2A Cn Mn2 Pd Cn2 Lo2 Cn10 Lo3 Cn37 Mn4 Lo1D NoA Lo",
    "Cn8 Lo16 MnB No4 Po5 Cn16 Lo12 Mn4 Po4 Cn26 Lo15 No7 Cn14 Lo17 Cn9 Mc Mn Mc Lo35 MnF",
    "Po7 Cn4 No14 NdA Mn Lo2 Mn2 Lo Cn9 Mn3 Mc Lo2D Mc3 Mn4 Mc2 Mn2 Po2 Cf Po4 Mn CnA Cf",
    "Cn2 Lo19 Cn7 NdA Cn6 Mn3 Lo24 Mn5 Mc Mn8 Cn NdA Po4 Lo Mc2 Lo Cn8 Lo23 Mn Po2 Lo Cn9",
    "Mn2 Mc Lo30 Mc3 Mn9 Mc2 Lo4 Po4 Mn4 Po Mc Mn NdA Lo Po Lo Po3 Cn No14 CnB Lo12 Cn",
    "Lo19 Mc3 Mn3 Mc2 Mn Mc Mn2 Po6 Mn Lo2 Mn Cn3E Lo7 Cn Lo Cn Lo4 Cn LoF Cn LoA Po Cn6",
    "Lo2F Mn Mc3 Mn8 Cn5 NdA Cn6 Mn2 Mc2 Cn Lo8 Cn2 Lo2 Cn2 Lo16 Cn Lo7 Cn Lo2 Cn Lo5 Cn",
    "Mn2 Lo Mc2 Mn Mc4 Cn2 Mc2 Cn2 Mc3 Cn2 Lo Cn6 Mc Cn5 Lo5 Mc2 Cn2 Mn7 Cn3 Mn5 CnB LoA",
    "Cn Lo Cn2 Lo Cn Lo26 Cn Lo Mc3 Mn6 Cn Mc Cn2 Mc Cn Mc4 Cn Mc2 Mn Mc Mn+Lo*2 Po2 Cn",
    "Po2 Cn8 Mn2 Cn1D Lo35 Mc3 Mn8 Mc2 Mn3 Mc Mn Lo4 Po5 NdA Po2 Cn Po Mn Lo3 Cn1E Lo30",
    "Mc3 Mn6 Mc Mn Mc4 Mn2 Mc Mn2 Lo2 Po Lo Cn8 NdA CnA6 Lo2F Mc3 Mn4 Cn2 Mc4 Mn2 Mc Mn2",
    "Po17 Lo4 Mn2 Cn22 Lo30 Mc3 Mn8 Mc2 Mn Mc Mn2 Po3 Lo CnB NdA Cn6 PoD Cn13 Lo2B Mn Mc",
    "Mn Mc2 Mn6 Mc Mn Lo Po Cn6 NdA Cn6 Nd14 Cn1C Lo1B Cn2 Mn Mc Mn Mc2 Mn4 Mc Mn5 Cn4",
    "NdA No2 Po3 So Lo7 CnB9 Lo2C Mc3 Mn9 Mc Mn2 Po Cn64 Lu20 Ll20 NdA No9 CnC Lo8 Cn2 Lo",
    "Cn2 Lo8 Cn Lo2 Cn Lo18 Mc6 Cn Mc2 Cn2 Mn2 Mc Mn Lo+Mc*2 Mn Po3 Cn9 NdA Cn46 Lo8 Cn2",
    "Lo27 Mc3 Mn4 Cn2 Mn2 Mc4 Mn Lo Po Lo Mc Cn1B Lo MnA Lo28 Mn6 Mc Lo Mn4 Po8 Mn Cn8 Lo",
    "Mn6 Mc2 Mn3 Lo2E MnD Mc Mn2 Po3 Lo Po5 CnD Lo49 Cn7 PoA CnB6 Lo21 Po CnE NdA Cn6 Lo9",
    "Cn Lo25 Mc Mn7 Cn Mn6 Mc Mn Lo Po5 CnA NdA No13 Cn3 Po2 Lo1E Cn2 Mn16 Cn Mc Mn7",
    "Mc+Mn2*2 Cn49 Lo7 Cn Lo2 Cn Lo26 Mn6 Cn3 Mn Cn Mn2 Cn Mn7 Lo Mn Cn8 NdA Cn6 Lo6 Cn",
    "Lo2 Cn Lo20 Mc5 Cn Mn2 Cn Mc2 Mn Mc Mn Lo Cn7 NdA Cn136 Lo13 Mn2 Mc2 Po2 Cn7 Mn2 Lo",
    "Mc LoD Cn Lo22 Mc2 Mn5 Cn3 Mc2 Mn Mc Mn PoD NdA Mn Cn55 Lo CnF No15 So8 Sc4 So11 CnD",
    "Po Lo39A Cn66 Nl6F Cn Po5 CnB LoC4 CnA4C Lo61 Po2 CnD Lo430 Cf10 Mn Lo6 MnF CnA",
    "LoF9B Cn5 Lo247 Cn1AB9 Lo1E MnC Mc3 Mn3 NdA Cn6C6 Lo239 Cn7 Lo1F Cn NdA Cn4 Po2 Lo4F",
    "Cn NdA Cn6 Lo1E Cn2 Mn5 Po CnA Lo30 Mn7 Po5 So4 Lm4 Po So CnA NdA Cn No7 Cn Lo15 Cn5",
    "Lo13 Cn1B0 Lm3 Lo28 Lm2 Po3 NdA CnC6 Lu20 Ll20 No17 Po4 Cn65 Lo4B Cn4 Mn Lo Mc37 Cn7",
    "Mn4 LmD Cn40 Lm2 Po Lm Mn CnB Mc2 CnE Lo17F8 Cn8 Lo4D6 Cn29 LoA Cn22E7 Lm4 Cn Lm7 Cn",
    "Lm2 Cn Lo123 CnF Lo Cn1D Lo3 Cn2 Lo CnE Lo4 Cn8 Lo18C Cn904 Lo6B Cn5 LoD Cn3 Lo9 Cn7",
    "LoA Cn2 So Mn2 Po Cf4 CnF5C SoF0 NdA Cn6 So1B4 Cn4C Mn2E Cn2 Mn17 Cn9 So74 Cn3C SoF6",
    "CnA So27 Cn2 So3C Mc2 Mn3 So3 Mc6 Cf8 Mn8 So2 Mn7 So1E Mn4 So3D Cn15 So42 Mn3 So",
    "Cn7A No14+CnC*2 So57 Cn9 No19 Cn87 Lu1A Ll1A Lu1A Ll7 Cn Ll12 Lu1A Ll1A Lu Cn Lu2",
    "Cn2 Lu Cn2 Lu2 Cn2 Lu4 Cn Lu8 Ll4 Cn Ll Cn Ll7 Cn LlB Lu1A Ll1A Lu2 Cn Lu4 Cn2 Lu8",
    "Cn Lu7 Cn Ll1A Lu2 Cn Lu4 Cn Lu5 Cn Lu Cn3 Lu7 Cn Ll1A+Lu1A*6 Ll1C Cn2 Lu19 Sm Ll19",
    "Sm Ll6 Lu19 Sm Ll19 Sm Ll6 Lu19 Sm Ll19 Sm Ll6 Lu19 Sm Ll19 Sm Ll6 Lu19 Sm Ll19 Sm",
    "Ll6 Lu Ll Cn2 Nd32 So200 Mn37 So4 Mn32 So8 Mn SoE Mn So2 Po5 CnF Mn5 Cn MnF Cn450",
    "LlA Lo Ll14 Cn6 Ll6 CnD5 Mn7 Cn Mn11 Cn2 Mn7 Cn Mn2 Cn Mn5 Cn5 Lm3E Cn21 Mn Cn70",
    "Lo2D Cn3 Mn7 Lm7 Cn2 NdA Cn4 Lo So Cn140 Lo1E Mn Cn11 Lo2C Mn4 NdA Cn5 Sc Cn1D0 Lo1B",
    "Lm Mn4 NdA CnD6 Lo1E Mn2 Lo NdA Cn4 Po Cn1E0 Lo7 Cn Lo4 Cn Lo2 Cn LoF Cn LoC5 Cn2",
    "No9 Mn7 Cn29 Lu22 Ll22 Mn7 Lm Cn4 NdA Cn4 Po2 Cn311 No3B So No3 Sc No4 Cn4C No2D So",
    "NoF CnC2 Lo4 Cn Lo1B Cn Lo2 Cn Lo Cn2 Lo Cn LoA Cn Lo4 Cn+Lo*2 Cn6 Lo Cn4 Lo+Cn*3",
    "Lo3 Cn Lo2 Cn Lo Cn2 Lo+Cn*5 Lo2 Cn Lo Cn2 Lo4 Cn Lo7 Cn+Lo4*2 Cn Lo Cn LoA Cn Lo11",
    "Cn5 Lo3 Cn Lo5 Cn Lo11 Cn34 Sm2 Cn10E So2C Cn4 So64 CnC SoF Cn2 SoF+Cn*2 So25 CnA",
    "NoD SoA1 Cn38 So1D CnD So2C Cn4 So9 Cn7 So2 CnE So6 Cn9A SoFB Sk5 So2D8 Cn4 So11 Cn3",
    "SoD Cn3 So77 Cn4 So5F Cn6 SoC Cn4 So CnF SoC Cn4 So38 Cn8 SoA Cn6 So28 Cn8 So1E Cn2",
    "SoC Cn4 So2 Cn3E So154 CnC SoE Cn2 SoD Cn3 SoA Cn5 So38 Cn7 SoF Cn2 SoB Cn6 So9 Cn7",
    "So93 Cn So5C NdA Cn406 LoA6E0 Cn20 Lo103A Cn6 LoDE Cn2 Lo1682 CnE Lo1D31 CnF Lo26E",
    "Cn9A2 Lo21E Cn5E2 Lo134B Cn5 Lo1060 CnADC51 Cf Cn1E Cf60 Cn80 MnF0 CnFE10",
    "CoFFFE+Cn2*2"]

/-- The first code point of each run with its category, ascending. -/
def categoryStarts : Array (Nat × Category) :=
  let runs := (categoryLengths.flatMap (·.splitOn " ")).flatMap readRuns
  (runs.foldl (fun (point, starts) run =>
    (point + run.2, starts.push (point, run.1))) (0, #[])).2

/-- The last entry between two indices that starts at or before a point,
the lower one being known to do so. -/
def lastStart
    (starts : Array (Nat × Category))
    (point lower upper : Nat) : Nat :=
  if upper ≤ lower + 1 then
    lower
  else
    let middle := (lower + upper) / 2
    match starts[middle]? with
    | some (start, _) =>
        if start ≤ point then
          lastStart starts point middle upper
        else
          lastStart starts point lower middle
    | none => lower
  termination_by upper - lower

/-- The general category of a code point; numbers beyond the code space are
unassigned. -/
def category (point : Nat) : Category :=
  if maxCodePoint < point then
    .unassigned
  else if isSurrogate point then
    .surrogate
  else
    match categoryStarts[
        lastStart categoryStarts point 0 categoryStarts.size]? with
    | some (_, found) => found
    | none => .unassigned

end Unicode
end ParserGenerator
