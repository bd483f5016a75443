import Mathlib
import ParserGenerator.Proofs.Definition.ProductionLines

/-!
# The names in a source

No two symbols of a source have one name, so a symbol is known by its name. No
two productions have one name either: names with different heads differ, and of
one head labels differ from each other and from numbers.
-/

namespace ParserGenerator
namespace Definition

/-! ## Names of productions -/

/-- What a production is named by, apart from its head: one of the labels of
the head, or a number above those of earlier productions. -/
def IsSuffix (statements : List Statement) (earlier : List String)
    (head suffix : String) : Prop :=
  (head, suffix) ∈ labels statements ∨
    ∃ number, earlier.count head < number ∧ suffix = Nat.repr number

theorem suffix_of_mem_rulesAfter
    {statements : List Statement}
    {earlier : List String}
    {rule : Rule}
    (member : rule ∈ rulesAfter earlier statements) :
    ∃ suffix, rule.name = rule.head ++ ":" ++ suffix ∧
      IsSuffix statements earlier rule.head suffix := by
  induction statements generalizing earlier with
  | nil => exact absurd member List.not_mem_nil
  | cons statement rest inductionHypothesis =>
      have labelsGrow {pair : String × String}
          (listed : pair ∈ labels rest) :
          pair ∈ labels (statement :: rest) := by
        rw [labels, List.filterMap_cons]
        split
        · exact listed
        · exact List.mem_cons_of_mem _ listed
      cases statement with
      | production label head body =>
          rcases List.mem_cons.mp member with rfl | later
          · cases label with
            | none =>
                exact ⟨_, rfl, .inr ⟨_, Nat.lt_succ_self _, rfl⟩⟩
            | some label =>
                exact ⟨label, rfl, .inl (by simp [labels])⟩
          · obtain ⟨suffix, isName, isSuffix⟩ := inductionHypothesis later
            refine ⟨suffix, isName, isSuffix.imp labelsGrow ?_⟩
            rintro ⟨number, above, isNumber⟩
            rw [List.count_append] at above
            exact ⟨number, Nat.lt_of_le_of_lt (Nat.le_add_right _ _) above,
              isNumber⟩
      | start | shiftOn | reduceOn =>
          obtain ⟨suffix, isName, isSuffix⟩ := inductionHypothesis member
          exact ⟨suffix, isName, isSuffix.imp_left labelsGrow⟩

/-- Productions have labels in lower case and the names of non-terminals as
heads. -/
def ReadableRules (statements : List Statement) : Prop :=
  ∀ label head body, .production label head body ∈ statements →
    Readable (.production label head body)

theorem isUpperName_of_mem_heads
    {statements : List Statement}
    {head : String}
    (readable : ReadableRules statements)
    (member : head ∈ heads statements) :
    IsUpperName head := by
  obtain ⟨statement, isStatement, isHead⟩ := List.mem_filterMap.mp member
  split at isHead
  · obtain rfl := Option.some.inj isHead
    exact (readable _ _ _ isStatement).2
  · contradiction

theorem isLowerName_of_mem_labels
    {statements : List Statement}
    {pair : String × String}
    (readable : ReadableRules statements)
    (member : pair ∈ labels statements) :
    IsLowerName pair.2 := by
  obtain ⟨statement, isStatement, isPair⟩ := List.mem_filterMap.mp member
  split at isPair
  · obtain rfl := Option.some.inj isPair
    exact (readable _ _ _ isStatement).1 _ rfl
  · contradiction

theorem letters_repr (number : Nat) :
    ∀ letter ∈ (Nat.repr number).toList,
      0x30 ≤ letter.toNat ∧ letter.toNat ≤ 0x39 := by
  intro letter member
  rw [Nat.repr, String.toList_ofList] at member
  have isDigit := Nat.isDigit_of_mem_toDigits (by decide) (by decide) member
  simp only [Char.isDigit, Bool.and_eq_true, decide_eq_true_eq] at isDigit
  exact isDigit

/-- A suffix is a word of its own. -/
theorem IsSuffix.letters
    {statements : List Statement}
    {earlier : List String}
    {head suffix : String}
    (isSuffix : IsSuffix statements earlier head suffix)
    (readable : ReadableRules statements) :
    suffix.toList ≠ [] ∧
      ∀ letter ∈ suffix.toList, isWordLetter letter = true := by
  rcases isSuffix with isLabel | ⟨number, -, rfl⟩
  · have isWord := isLowerName_of_mem_labels readable isLabel
    refine ⟨?_, isWord.letters isWordLetter_of_isLower⟩
    obtain ⟨first, letters, spelt, -⟩ := isWord
    rw [spelt]
    exact List.cons_ne_nil _ _
  · refine ⟨?_, fun letter member =>
      isWordLetter_iff.mpr (.inl (letters_repr number letter member))⟩
    rw [Nat.repr, String.toList_ofList]
    exact List.ne_nil_of_length_pos Nat.length_toDigits_pos

/-- Labels are not numbers. -/
theorem ne_repr_of_isLowerName
    {name : String}
    (isName : IsLowerName name)
    (number : Nat) :
    name ≠ Nat.repr number := by
  obtain ⟨first, letters, spelt, lower, -⟩ := isName
  rintro rfl
  have isDigit := letters_repr number first (by rw [spelt]; simp)
  rw [isLower_iff] at lower
  omega

theorem head_mem_heads
    {statements : List Statement}
    {earlier : List String}
    {rule : Rule}
    (member : rule ∈ rulesAfter earlier statements) :
    rule.head ∈ heads statements := by
  induction statements generalizing earlier with
  | nil => exact absurd member List.not_mem_nil
  | cons statement rest inductionHypothesis =>
      cases statement with
      | production label head body =>
          rw [heads, List.filterMap_cons]
          rcases List.mem_cons.mp member with rfl | later
          · exact List.mem_cons_self
          · exact List.mem_cons_of_mem _ (inductionHypothesis later)
      | start | shiftOn | reduceOn => exact inductionHypothesis member

/-- Names of productions tell the heads and the suffixes. -/
theorem ruleName_inj
    {head suffix otherHead otherSuffix : String}
    (isHead : IsUpperName head)
    (isOtherHead : IsUpperName otherHead)
    (same : head ++ ":" ++ suffix = otherHead ++ ":" ++ otherSuffix) :
    head = otherHead ∧ suffix = otherSuffix := by
  have parts {name rest : String} (isName : IsUpperName name) :
      (name ++ ":" ++ rest).toList.takeWhile isWordLetter = name.toList ∧
        (name ++ ":" ++ rest).toList.dropWhile isWordLetter =
          ':' :: rest.toList := by
    have colon : ":".toList = [':'] := rfl
    rw [String.toList_append, String.toList_append, List.append_assoc, colon]
    exact span_letters (isName.letters isWordLetter_of_isUpper)
      (by simp [isWordLetter, isLower, isUpper])
  obtain ⟨isTaken, isLeft⟩ := @parts head suffix isHead
  obtain ⟨otherTaken, otherLeft⟩ := @parts otherHead otherSuffix isOtherHead
  rw [same] at isTaken isLeft
  refine ⟨String.toList_inj.mp (isTaken.symm.trans otherTaken), ?_⟩
  exact String.toList_inj.mp (List.cons.inj (isLeft.symm.trans otherLeft)).2

/-- No two productions have one name. -/
theorem nodup_ruleNames
    {statements : List Statement}
    (readable : ReadableRules statements)
    (distinct : (labels statements).Nodup)
    (earlier : List String) :
    ((rulesAfter earlier statements).map Rule.name).Nodup := by
  induction statements generalizing earlier with
  | nil => exact List.nodup_nil
  | cons statement rest inductionHypothesis =>
      have othersReadable : ReadableRules rest :=
        fun label head body member =>
          readable label head body (List.mem_cons_of_mem _ member)
      cases statement with
      | start | shiftOn | reduceOn =>
          exact inductionHypothesis othersReadable distinct earlier
      | production label head body =>
          have isReadable := readable label head body List.mem_cons_self
          have distinctLater : (labels rest).Nodup := by
            refine distinct.sublist ?_
            rw [labels, labels, List.filterMap_cons]
            split
            · exact List.Sublist.refl _
            · exact List.sublist_cons_self _ _
          rw [rulesAfter, List.map_cons, List.nodup_cons]
          refine ⟨fun repeated => ?_,
            inductionHypothesis othersReadable distinctLater _⟩
          obtain ⟨rule, later, sameName⟩ := List.mem_map.mp repeated
          obtain ⟨suffix, isName, isSuffix⟩ := suffix_of_mem_rulesAfter later
          have isHead := isUpperName_of_mem_heads othersReadable
            (head_mem_heads later)
          obtain ⟨sameHead, sameSuffix⟩ :=
            ruleName_inj isHead isReadable.2 (isName.symm.trans sameName)
          rw [sameHead] at isSuffix
          cases label with
          | some label =>
              obtain rfl : suffix = label := sameSuffix
              rcases isSuffix with listed | ⟨number, -, isNumber⟩
              · rw [labels, List.filterMap_cons, List.nodup_cons] at distinct
                exact distinct.1 listed
              · exact ne_repr_of_isLowerName (isReadable.1 suffix rfl) number
                  isNumber
          | none =>
              obtain rfl : suffix = Nat.repr (earlier.count head + 1) :=
                sameSuffix
              rcases isSuffix with listed | ⟨number, above, isNumber⟩
              · exact ne_repr_of_isLowerName
                  (isLowerName_of_mem_labels othersReadable listed) _ rfl
              · rw [← Nat.repr_inj.mp isNumber, List.count_append] at above
                simp at above

/-- The names of productions are read as such. -/
theorem isRuleName_of_mem_rulesAfter
    {statements : List Statement}
    {earlier : List String}
    {rule : Rule}
    (readable : ReadableRules statements)
    (member : rule ∈ rulesAfter earlier statements) :
    IsRuleName rule.name := by
  obtain ⟨suffix, isName, isSuffix⟩ := suffix_of_mem_rulesAfter member
  obtain ⟨nonempty, isLetters⟩ := isSuffix.letters readable
  have isHead := isUpperName_of_mem_heads readable (head_mem_heads member)
  refine ⟨rule.head.toList, suffix.toList, ?_, isHead, nonempty, isLetters⟩
  have colon : ":".toList = [':'] := rfl
  rw [isName, String.toList_append, String.toList_append, colon,
    List.append_assoc, List.singleton_append]

/-! ## Names of symbols -/

theorem nodup_eraseDups (names : List String) : names.eraseDups.Nodup := by
  generalize isLength : names.length = length
  induction length using Nat.strong_induction_on generalizing names with
  | h length inductionHypothesis =>
      cases names with
      | nil => simp
      | cons name rest =>
          have shorter : (rest.filter fun other => !other == name).length <
              length := by
            rw [← isLength, List.length_cons]
            exact Nat.lt_succ_of_le (List.length_filter_le _ _)
          rw [List.eraseDups_cons, List.nodup_cons]
          refine ⟨fun repeated => ?_,
            inductionHypothesis _ shorter _ rfl⟩
          simp [List.mem_eraseDups] at repeated

namespace Source

variable {source : Source} {name : String}

theorem nonTerminals_eq (source : Source) :
    (heads source.statements ++ bodyNonTerminals source.statements).eraseDups =
      source.nonTerminals :=
  List.eraseDups_append

theorem mem_nonTerminals_iff :
    name ∈ source.nonTerminals ↔
      name ∈ heads source.statements ∨
        name ∈ bodyNonTerminals source.statements := by
  rw [← nonTerminals_eq, List.mem_eraseDups, List.mem_append]

theorem map_name_symbols (source : Source) :
    source.symbols.map Symbol.name =
      ["$end", "$nl", "$nonl"] ++
        (source.terminals.map TerminalSource.name ++ source.nonTerminals) := by
  have ofNonTerminals : (source.nonTerminals.map
      (⟨·, .nonTerminal⟩ : String → Symbol)).map Symbol.name =
        source.nonTerminals := by
    rw [List.map_map]
    exact List.map_id _
  rw [symbols, List.map_append, List.map_append, ofNonTerminals, List.map_map]
  rfl

variable [CharacterData]

theorem Proper.readableRules
    (proper : source.Proper) :
    ReadableRules source.statements := by
  intro label head body member
  obtain ⟨isLabel, isHead, -⟩ := proper.statements _ member
  exact ⟨isLabel, isHead⟩

theorem Proper.isUpperName
    (proper : source.Proper)
    (member : name ∈ source.nonTerminals) :
    IsUpperName name := by
  rcases mem_nonTerminals_iff.mp member with inHeads | inBodies
  · exact isUpperName_of_mem_heads proper.readableRules inHeads
  · obtain ⟨statement, isStatement, inBody⟩ := List.mem_flatMap.mp inBodies
    have isProper := proper.statements statement isStatement
    split at inBody
    · obtain ⟨reference, isReference, rfl⟩ := List.mem_map.mp inBody
      obtain ⟨inBody, isNonTerminal⟩ := List.mem_filter.mp isReference
      have isKnown := isProper.2.2 reference inBody
      rw [if_pos isNonTerminal] at isKnown
      exact isKnown
    · exact absurd inBody List.not_mem_nil

/-- The statements of a source are read as such. -/
theorem Proper.readable
    (proper : source.Proper) :
    ∀ statement ∈ source.statements, Readable statement := by
  intro statement member
  have isProper := proper.statements statement member
  cases statement with
  | production label head body => exact ⟨isProper.1, isProper.2.1⟩
  | start head => exact proper.isUpperName isProper
  | shiftOn production symbols | reduceOn production symbols =>
      obtain ⟨isNamed, nonempty, -⟩ := isProper
      obtain ⟨rule, isRule, rfl⟩ := List.mem_map.mp isNamed
      exact ⟨isRuleName_of_mem_rulesAfter proper.readableRules isRule, nonempty⟩

/-- No two symbols have one name: those of structural symbols start with a
sign, those of terminals in lower case, those of non-terminals in upper case. -/
theorem Proper.nodup_symbolNames
    (proper : source.Proper) :
    (source.symbols.map Symbol.name).Nodup := by
  have structural : ∀ name ∈ ["$end", "$nl", "$nonl"],
      name.toList.head? = some '$' := by
    simp
  have lower : ∀ name ∈ source.terminals.map TerminalSource.name,
      IsLowerName name := by
    intro name member
    obtain ⟨terminal, isTerminal, rfl⟩ := List.mem_map.mp member
    exact (proper.terminals terminal isTerminal).name
  rw [map_name_symbols]
  refine List.nodup_append.mpr ⟨by simp, List.nodup_append.mpr
    ⟨proper.distinct, ?_, ?_⟩, ?_⟩
  · rw [← nonTerminals_eq]
    exact nodup_eraseDups _
  · rintro name isTerminal _ isNonTerminal rfl
    obtain ⟨first, _, spelt, isLower, -⟩ := lower name isTerminal
    obtain ⟨other, _, otherSpelt, isUpper, -⟩ := proper.isUpperName isNonTerminal
    obtain rfl := (List.cons.inj (spelt.symm.trans otherSpelt)).1
    rw [isLower_of_isUpper isUpper] at isLower
    contradiction
  · rintro name isStructural _ isDeclared rfl
    have sign := structural name isStructural
    rcases List.mem_append.mp isDeclared with isTerminal | isNonTerminal
    · obtain ⟨first, _, spelt, isLower, -⟩ := lower name isTerminal
      rw [spelt] at sign
      obtain rfl := Option.some.inj sign
      contradiction
    · obtain ⟨first, _, spelt, isUpper, -⟩ := proper.isUpperName isNonTerminal
      rw [spelt] at sign
      obtain rfl := Option.some.inj sign
      contradiction

end Source
end Definition
end ParserGenerator
