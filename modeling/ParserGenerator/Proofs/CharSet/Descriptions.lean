import Mathlib.Data.List.Forall2
import ParserGenerator.Proofs.CharSet.Algebra
import ParserGenerator.Proofs.CharSet.Classes

/-!
# Described classes

A class described by its items, whether they are negated, and a class that is
subtracted, which may in turn subtract one. The description says which code
points belong to the class. Its text, with code points written as hexadecimal
escapes, is read as a set with exactly these members.
-/

namespace ParserGenerator
namespace CharSet

/-! ## Descriptions -/

/-- The classes that have a letter of their own. -/
inductive Shorthand
  | digit
  | word
  | blank
  deriving DecidableEq

/-- The letter of a class, which is a capital for the complement. -/
def Shorthand.letter : Shorthand → (complement : Bool) → Char
  | digit, false => 'd'
  | digit, true => 'D'
  | word, false => 'w'
  | word, true => 'W'
  | blank, false => 's'
  | blank, true => 'S'

/-- The letter that starts a category escape. -/
def categoryLetter (complement : Bool) : Char :=
  if complement then 'P' else 'p'

/-- An item of a class. -/
inductive ClassItem
  | codePoint (point : Nat)
  | range (first last : Nat)
  | shorthand (kind : Shorthand) (complement : Bool)
  | category (name : String) (complement : Bool)

/-- A class: some items, perhaps negated, perhaps without another class. -/
inductive ClassDescription
  | plain (negated : Bool) (items : List ClassItem)
  | without
      (negated : Bool)
      (items : List ClassItem)
      (subtracted : ClassDescription)

/-- The description is one of a class: code points are known, ranges are in
order and categories have their names. -/
def ClassItem.Proper : ClassItem → Prop
  | codePoint point => point ≤ maxCodePoint
  | range first last => first ≤ last ∧ last ≤ maxCodePoint
  | shorthand _ _ => True
  | category name _ =>
      '\x7d' ∉ name.toList ∧
        ∃ categories, Categories.ofName? (Text.trim name) = some categories

/-- The class has an item, and all of its items are proper. -/
def ClassDescription.Proper : ClassDescription → Prop
  | plain _ items => items ≠ [] ∧ ∀ item ∈ items, item.Proper
  | without _ items subtracted =>
      (items ≠ [] ∧ ∀ item ∈ items, item.Proper) ∧ subtracted.Proper

/-! ## Members -/

/-- A property of code points, or its complement among those that are no
surrogates. -/
def complementIf
    (complement : Bool)
    (has : Nat → Prop)
    (point : Nat) : Prop :=
  if complement then isSurrogate point = false ∧ ¬ has point else has point

section Members

variable [CharacterData]

/-- The class that has a letter has the code point. -/
def Shorthand.Has : Shorthand → Nat → Prop
  | digit, point => Category.of point = .decimalNumber
  | word, point =>
      Category.of point ∈
        [.uppercaseLetter, .lowercaseLetter, .titlecaseLetter, .modifierLetter,
          .otherLetter, .nonspacingMark, .decimalNumber, .connectorPunctuation]
  | blank, point =>
      (0x09 ≤ point ∧ point ≤ 0x0D) ∨ point ∈ [0x20, 0x85, 0xA0] ∨
        Category.of point ∈
          [.spaceSeparator, .lineSeparator, .paragraphSeparator]

/-- The item has the code point. -/
def ClassItem.Has : ClassItem → Nat → Prop
  | codePoint listed, point => point = listed
  | range first last, point => first ≤ point ∧ point ≤ last
  | shorthand kind complement, point => complementIf complement kind.Has point
  | category name complement, point =>
      complementIf complement
        (fun point => ∃ categories,
          Categories.ofName? (Text.trim name) = some categories ∧
            categories.contains (Category.of point) = true) point

/-- The class has the code point: one of the items does, or none if they are
negated, and the subtracted class does not. -/
def ClassDescription.Has : ClassDescription → Nat → Prop
  | plain negated items, point =>
      complementIf negated (fun point => ∃ item ∈ items, item.Has point) point
  | without negated items subtracted, point =>
      complementIf negated (fun point => ∃ item ∈ items, item.Has point) point ∧
        ¬ subtracted.Has point

end Members

/-! ## Texts -/

/-- The text is the escape of a code point: its hexadecimal numeral between
braces, of any length and letter case. -/
inductive WritesPoint (point : Nat) : List Char → Prop
  | braced
      {digits : List Char}
      (nonempty : digits ≠ [])
      (numeral : numeral? 16 Text.hexDigit? digits = some point) :
      WritesPoint point ('\\' :: 'u' :: '\x7b' :: (digits ++ ['\x7d']))

/-- The text writes the item. -/
inductive ClassItem.Writes : ClassItem → List Char → Prop
  | codePoint
      {point : Nat}
      {text : List Char}
      (written : WritesPoint point text) :
      Writes (.codePoint point) text
  | range
      {first last : Nat}
      {lower upper : List Char}
      (lowerWritten : WritesPoint first lower)
      (upperWritten : WritesPoint last upper) :
      Writes (.range first last) (lower ++ '-' :: upper)
  | shorthand (kind : Shorthand) (complement : Bool) :
      Writes (.shorthand kind complement) ['\\', kind.letter complement]
  | braced (name : String) (complement : Bool) :
      Writes (.category name complement)
        ('\\' :: categoryLetter complement :: '\x7b' ::
          (name.toList ++ ['\x7d']))
  | letter
      {letter : Char}
      (bare : letter ≠ '\x7b')
      (complement : Bool) :
      Writes (.category letter.toString complement)
        ['\\', categoryLetter complement, letter]

/-- The opening bracket of a class, and the sign of a negated one. -/
def openingText (negated : Bool) : List Char :=
  if negated then ['[', '^'] else ['[']

/-- The text writes the class. -/
inductive ClassDescription.Writes : ClassDescription → List Char → Prop
  | plain
      {negated : Bool}
      {items : List ClassItem}
      {texts : List (List Char)}
      (written : List.Forall₂ ClassItem.Writes items texts) :
      Writes (.plain negated items)
        (openingText negated ++ (texts.flatten ++ [']']))
  | without
      {negated : Bool}
      {items : List ClassItem}
      {texts : List (List Char)}
      {subtracted : ClassDescription}
      {inner : List Char}
      (written : List.Forall₂ ClassItem.Writes items texts)
      (nested : Writes subtracted inner) :
      Writes (.without negated items subtracted)
        (openingText negated ++ (texts.flatten ++ '-' :: (inner ++ [']'])))

/-! ## Every class can be written -/

/-- A digit more at the end of a numeral. -/
theorem numeral?_concat
    {base value digit : Nat}
    {digit? : Char → Option Nat}
    {digits : List Char}
    {character : Char}
    (numeral : numeral? base digit? digits = some value)
    (isDigit : digit? character = some digit) :
    numeral? base digit? (digits ++ [character]) =
      some (value * base + digit) := by
  obtain ⟨all, rfl⟩ := numeral?_eq_some_iff.mp numeral
  refine numeral?_eq_some_iff.mpr ⟨?_, ?_⟩
  · intro member listed
    rcases List.mem_append.mp listed with before | last
    · exact all member before
    · rw [List.mem_singleton.mp last, isDigit]
      rfl
  · simp [CharSet.numeral, isDigit]

theorem exists_hexadecimal (value : Nat) :
    ∃ digits ≠ [], numeral? 16 Text.hexDigit? digits = some value := by
  have lastDigit : ∀ digit < 16,
      Text.hexDigit? (Nat.digitChar digit) = some digit := by decide
  induction value using Nat.strongRecOn with
  | ind value inductionHypothesis =>
      have last := lastDigit (value % 16) (Nat.mod_lt _ (by decide))
      by_cases small : value < 16
      · rw [Nat.mod_eq_of_lt small] at last
        exact ⟨[Nat.digitChar value], by simp, numeral?_eq_some_iff.mpr
          (by simp [last, numeral])⟩
      · obtain ⟨digits, -, numeral⟩ :=
          inductionHypothesis (value / 16) (by omega)
        refine ⟨digits ++ [Nat.digitChar (value % 16)], by simp, ?_⟩
        rw [numeral?_concat numeral last, Nat.div_add_mod']

theorem exists_writesPoint (point : Nat) : ∃ text, WritesPoint point text := by
  obtain ⟨digits, nonempty, numeral⟩ := exists_hexadecimal point
  exact ⟨_, .braced nonempty numeral⟩

theorem ClassItem.exists_writes (item : ClassItem) :
    ∃ text, item.Writes text := by
  cases item with
  | codePoint point =>
      obtain ⟨text, written⟩ := exists_writesPoint point
      exact ⟨text, .codePoint written⟩
  | range first last =>
      obtain ⟨lower, lowerWritten⟩ := exists_writesPoint first
      obtain ⟨upper, upperWritten⟩ := exists_writesPoint last
      exact ⟨_, .range lowerWritten upperWritten⟩
  | shorthand kind complement => exact ⟨_, .shorthand kind complement⟩
  | category name complement => exact ⟨_, .braced name complement⟩

theorem ClassDescription.exists_writes (description : ClassDescription) :
    ∃ text, description.Writes text := by
  have exists_texts (items : List ClassItem) :
      ∃ texts, List.Forall₂ ClassItem.Writes items texts := by
    choose textOf written using ClassItem.exists_writes
    exact ⟨items.map textOf, by simp [List.forall₂_map_right_iff, written]⟩
  induction description with
  | plain negated items =>
      obtain ⟨texts, written⟩ := exists_texts items
      exact ⟨_, .plain written⟩
  | without negated items subtracted inductionHypothesis =>
      obtain ⟨texts, written⟩ := exists_texts items
      obtain ⟨inner, nested⟩ := inductionHypothesis
      exact ⟨_, .without written nested⟩

/-! ## Sets with described members -/

variable [CharacterData]

/-- The set is in normal form and has the code points with the property. -/
structure Denotes (set : CharSet) (has : Nat → Prop) : Prop where
  normal : set.Normal
  contains_iff : ∀ point ≤ maxCodePoint, set.contains point = true ↔ has point

namespace Denotes

variable {left right set : CharSet} {leftHas rightHas has : Nat → Prop}

theorem congr
    {other : Nat → Prop}
    (denotes : set.Denotes has)
    (same : ∀ point, has point ↔ other point) :
    set.Denotes other where
  normal := denotes.normal
  contains_iff point known :=
    (denotes.contains_iff point known).trans (same point)

theorem union
    (leftDenotes : left.Denotes leftHas)
    (rightDenotes : right.Denotes rightHas) :
    (left.union right).Denotes fun point => leftHas point ∨ rightHas point where
  normal := (computes_union left right).normal leftDenotes.normal
    rightDenotes.normal
  contains_iff point known := by
    rw [(computes_union left right).contains leftDenotes.normal
        rightDenotes.normal known, Operation.combine, Bool.or_eq_true,
      leftDenotes.contains_iff point known,
      rightDenotes.contains_iff point known]

theorem subtract
    (leftDenotes : left.Denotes leftHas)
    (rightDenotes : right.Denotes rightHas) :
    (left.subtract right).Denotes fun point =>
      leftHas point ∧ ¬ rightHas point where
  normal := (computes_subtract left right).normal leftDenotes.normal
    rightDenotes.normal
  contains_iff point known := by
    rw [(computes_subtract left right).contains leftDenotes.normal
        rightDenotes.normal known, Operation.combine, Bool.and_eq_true,
      Bool.not_eq_true', ← Bool.not_eq_true,
      leftDenotes.contains_iff point known,
      rightDenotes.contains_iff point known]

theorem negate
    (apart : CharacterData.SurrogatesApart)
    (denotes : set.Denotes has) :
    set.negate.Denotes fun point =>
      isSurrogate point = false ∧ ¬ has point where
  normal := normal_negate denotes.normal
  contains_iff point known := by
    rw [contains_negate apart denotes.normal known, Bool.and_eq_true,
      Bool.not_eq_true', Bool.not_eq_true', ← Bool.not_eq_true (set.contains _),
      denotes.contains_iff point known]

theorem negateIf
    (apart : CharacterData.SurrogatesApart)
    (negated : Bool)
    (denotes : set.Denotes has) :
    (negateIf negated set).Denotes (complementIf negated has) := by
  cases negated with
  | false => exact denotes
  | true => exact denotes.negate apart

end Denotes

theorem denotes_empty : empty.Denotes fun _ => False where
  normal := .nil
  contains_iff point known := by
    rw [contains_of_isEmpty rfl]
    simp

theorem denotes_single (listed : Nat) :
    (single listed).Denotes fun point => point = listed where
  normal := normal_single listed
  contains_iff point known := by
    rw [single, contains_ofRanges, RangeList.contains_iff]
    simp only [RangeList.single, RangeList.covers_cons, CodeRange.single,
      RangeList.not_covers_nil, or_false]
    omega

theorem denotes_interval
    {first last : Nat}
    (ordered : first ≤ last) :
    (interval first last).Denotes fun point =>
      first ≤ point ∧ point ≤ last where
  normal := RangeList.normal_ofRanges (by simpa using ordered)
  contains_iff point known := by
    rw [interval, contains_ofRanges, RangeList.contains_ofRanges]
    simp [RangeList.covers_cons, RangeList.not_covers_nil]

theorem denotes_ofCategories (categories : Categories) :
    (ofCategories categories).Denotes fun point =>
      categories.contains (Category.of point) = true where
  normal := .nil
  contains_iff point known := by
    simp [ofCategories, contains, Members.contains, RangeList.contains,
      RangeList.empty]

theorem denotes_digits : digits.Denotes Shorthand.digit.Has where
  normal := (denotes_ofCategories _).normal
  contains_iff point known := by
    rw [digits, (denotes_ofCategories _).contains_iff point known,
      Categories.contains_single, Shorthand.Has]

theorem denotes_wordCharacters :
    wordCharacters.Denotes Shorthand.word.Has where
  normal := (denotes_ofCategories _).normal
  contains_iff point known := by
    rw [wordCharacters, (denotes_ofCategories _).contains_iff point known,
      Categories.contains_ofList, Shorthand.Has]

theorem denotes_blanks : blanks.Denotes Shorthand.blank.Has where
  normal := RangeList.normal_ofRanges (by decide)
  contains_iff point known := by
    rw [blanks, contains, Members.contains, Bool.or_eq_true,
      RangeList.contains_ofRanges, Categories.contains_ofList, Shorthand.Has,
      ← or_assoc]
    refine or_congr_left ?_
    simp only [RangeList.covers_cons, RangeList.not_covers_nil, List.mem_cons,
      List.not_mem_nil, or_false]
    omega

theorem exists_shorthand
    (apart : CharacterData.SurrogatesApart)
    (kind : Shorthand)
    (complement : Bool) :
    ∃ set, shorthand? (kind.letter complement) = some set ∧
      set.Denotes (complementIf complement kind.Has) := by
  cases kind with
  | digit =>
      exact ⟨negateIf complement digits, by cases complement <;> rfl,
        denotes_digits.negateIf apart complement⟩
  | word =>
      exact ⟨negateIf complement wordCharacters, by cases complement <;> rfl,
        denotes_wordCharacters.negateIf apart complement⟩
  | blank =>
      exact ⟨negateIf complement blanks, by cases complement <;> rfl,
        denotes_blanks.negateIf apart complement⟩

/-- The union of sets has what one of their descriptions has. -/
theorem denotes_unionOf
    {items : List ClassItem}
    {sets : List CharSet}
    (denote : List.Forall₂ (fun item (set : CharSet) => set.Denotes item.Has)
      items sets) :
    (unionOf sets).Denotes fun point => ∃ item ∈ items, item.Has point := by
  suffices general : ∀ (initial : CharSet) (has : Nat → Prop),
      initial.Denotes has → (sets.foldl CharSet.union initial).Denotes
        fun point => has point ∨ ∃ item ∈ items, item.Has point by
    simpa [unionOf] using general empty _ denotes_empty
  induction denote with
  | nil => simp
  | cons first rest inductionHypothesis =>
      intro initial has denotes
      simpa [or_assoc] using inductionHypothesis _ _ (denotes.union first)

/-! ## Texts that are read -/

variable {text rest : List Char}

theorem WritesPoint.atom
    {point : Nat}
    (written : WritesPoint point text)
    (known : point ≤ maxCodePoint)
    (rest : List Char) :
    Phrase.Atom (text ++ rest) (.character point) rest := by
  cases written with
  | braced nonempty numeral =>
      simpa using Phrase.Atom.escape
        (.codePoint (.braced nonempty numeral known))

theorem exists_category
    (apart : CharacterData.SurrogatesApart)
    {name : String}
    {categories : Categories}
    (complement : Bool)
    (named : Phrase.CategoryName text name rest)
    (known : Categories.ofName? (Text.trim name) = some categories) :
    ∃ set, Phrase.Item ('\\' :: categoryLetter complement :: text) set rest ∧
      set.Denotes (ClassItem.category name complement).Has := by
  have denotes := (denotes_ofCategories categories).negateIf apart complement
  refine ⟨negateIf complement (ofCategories categories), ?_, ?_⟩
  · cases complement with
    | false => exact .set (.escape (.category named known))
    | true => exact .set (.escape (.complement named known))
  · exact denotes.congr fun point => by
      simp [ClassItem.Has, complementIf, known]

/-- An item that is written is an item of the notation, if no range is joined
to it. -/
theorem ClassItem.Writes.exists_item
    (apart : CharacterData.SurrogatesApart)
    {item : ClassItem}
    (written : item.Writes text)
    (proper : item.Proper)
    (alone : ¬ Phrase.JoinsRange rest) :
    ∃ set, Phrase.Item (text ++ rest) set rest ∧ set.Denotes item.Has := by
  cases written with
  | @codePoint point _ written =>
      exact ⟨single point, .single (written.atom proper rest) alone,
        denotes_single point⟩
  | @range first last lower upper lowerWritten upperWritten =>
      refine ⟨interval first last, ?_, denotes_interval proper.1⟩
      have lowerKnown := Nat.le_trans proper.1 proper.2
      rw [List.append_assoc, List.cons_append]
      refine .range (lowerWritten.atom lowerKnown _) ?_
        (upperWritten.atom proper.2 rest) proper.1
      cases upperWritten with
      | braced => exact ⟨rfl, by simp, by simp⟩
  | shorthand kind complement =>
      obtain ⟨set, known, denotes⟩ := exists_shorthand apart kind complement
      exact ⟨set, .set (.escape (.shorthand known)), denotes⟩
  | braced name complement =>
      obtain ⟨closed, categories, known⟩ := proper
      have named : Phrase.CategoryName _ _ rest := .braced closed
      rw [String.ofList_toList] at named
      simpa using exists_category apart complement named known
  | letter bare complement =>
      obtain ⟨-, categories, known⟩ := proper
      exact exists_category apart complement (.letter bare) known

omit [CharacterData] in
/-- Every item is written with a backslash first. -/
theorem ClassItem.Writes.head?_eq
    {item : ClassItem}
    (written : item.Writes text) :
    (text ++ rest).head? = some '\\' := by
  cases written with
  | codePoint written => cases written with | braced => rfl
  | range written => cases written with | braced => rfl
  | shorthand | braced | letter => rfl

omit [CharacterData] in
theorem ClassItem.Writes.startsItem
    {item : ClassItem}
    (written : item.Writes text) :
    Phrase.StartsItem (text ++ rest) := by
  simp [Phrase.StartsItem, written.head?_eq]

/-- Items that are written are items of the notation, if the text after them
neither joins a range to the last one nor is one more. -/
theorem exists_items
    (apart : CharacterData.SurrogatesApart)
    {items : List ClassItem}
    {texts : List (List Char)}
    (written : List.Forall₂ ClassItem.Writes items texts)
    (proper : ∀ item ∈ items, item.Proper)
    (rest : List Char)
    (alone : ¬ Phrase.JoinsRange rest) :
    ∃ sets, Phrase.Items (texts.flatten ++ rest) sets rest ∧
      List.Forall₂ (fun item (set : CharSet) => set.Denotes item.Has)
        items sets := by
  induction written with
  | nil => exact ⟨[], .done, .nil⟩
  | @cons item text items texts first others inductionHypothesis =>
      obtain ⟨sets, listed, denote⟩ := inductionHypothesis
        fun item member => proper item (List.mem_cons_of_mem _ member)
      -- The next item starts with a backslash, so no hyphen follows this one.
      have separate : ¬ Phrase.JoinsRange (texts.flatten ++ rest) := by
        cases others with
        | nil => exact alone
        | cons next _ =>
            rw [List.flatten_cons, List.append_assoc]
            exact fun joins => nomatch next.head?_eq.symm.trans joins.1
      obtain ⟨set, phrase, denotes⟩ := first.exists_item apart
        (proper item List.mem_cons_self) separate
      refine ⟨set :: sets, ?_, .cons denotes denote⟩
      rw [List.flatten_cons, List.append_assoc]
      exact .more first.startsItem phrase listed

omit [CharacterData] in
theorem opening_of_writes
    (negated : Bool)
    {items : List ClassItem}
    {texts : List (List Char)}
    (written : List.Forall₂ ClassItem.Writes items texts)
    (nonempty : items ≠ [])
    (rest : List Char) :
    Phrase.Opening (openingText negated ++ (texts.flatten ++ rest)) negated
      (texts.flatten ++ rest) := by
  cases negated with
  | true => exact .negated
  | false =>
      show Phrase.Opening ('[' :: (texts.flatten ++ rest)) false _
      refine .plain ?_
      cases written with
      | nil => exact absurd rfl nonempty
      | cons first _ =>
          rw [List.flatten_cons, List.append_assoc, first.head?_eq]
          decide

/-- A class that is written is one of the notation, whatever follows. -/
theorem ClassDescription.Writes.exists_class
    (apart : CharacterData.SurrogatesApart)
    {description : ClassDescription}
    (written : description.Writes text)
    (proper : description.Proper)
    (rest : List Char) :
    ∃ set, Phrase.Class (text ++ rest) set rest ∧
      set.Denotes description.Has := by
  have nonempty
      {items : List ClassItem}
      {sets : List CharSet}
      (denote : List.Forall₂ (fun item (set : CharSet) => set.Denotes item.Has)
        items sets)
      (someItem : items ≠ []) : sets ≠ [] := by
    rintro rfl
    exact someItem (List.forall₂_nil_right_iff.mp denote)
  induction written generalizing rest with
  | @plain negated items texts written =>
      obtain ⟨sets, listed, denote⟩ := exists_items apart written proper.2
        (']' :: rest) (by simp [Phrase.JoinsRange])
      refine ⟨_, ?_, (denotes_unionOf denote).negateIf apart negated⟩
      rw [List.append_assoc, List.append_assoc]
      exact .items (opening_of_writes negated written proper.1 _)
        (nonempty denote proper.1) listed
  | @without negated items texts subtracted inner written nested
      inductionHypothesis =>
      obtain ⟨⟨someItem, itemsProper⟩, innerProper⟩ := proper
      obtain ⟨set, phrase, innerDenotes⟩ :=
        inductionHypothesis innerProper (']' :: rest)
      obtain ⟨sets, listed, denote⟩ := exists_items apart written itemsProper
        ('-' :: (inner ++ ']' :: rest))
        fun joins => joins.2.2 phrase.getElem?_one
      refine ⟨_, ?_, ((denotes_unionOf denote).negateIf apart negated).subtract
        innerDenotes⟩
      have phrase := Phrase.Class.without
        (opening_of_writes negated written someItem _)
        (nonempty denote someItem) listed phrase
      simpa using phrase

/-- A class that is described can be written with its code points as escapes,
and each such text is read as a set with exactly the members of the
description: those of its items, or the complement of these among the code
points that are no surrogates, without those of the subtracted class. -/
theorem parse_described
    (apart : CharacterData.SurrogatesApart)
    (description : ClassDescription)
    (proper : description.Proper) :
    (∃ text : String, description.Writes text.toList) ∧
      ∀ text : String, description.Writes text.toList →
        ∃ set, parse text = .ok set ∧
          ∀ point ≤ maxCodePoint,
            set.contains point = true ↔ description.Has point := by
  obtain ⟨letters, someText⟩ := description.exists_writes
  refine ⟨⟨String.ofList letters, by rwa [String.toList_ofList]⟩,
    fun text written => ?_⟩
  obtain ⟨set, phrase, denotes⟩ := written.exists_class apart proper []
  rw [List.append_nil] at phrase
  exact ⟨set, parse_of_class phrase, denotes.contains_iff⟩

/-- What is no character of words or one of the letters `a` to `c`, without
all but the capitals and the hyphen: only the hyphen is left. -/
def hyphenClass : ClassDescription :=
  .without false [.shorthand .word true, .range 0x61 0x63]
    (.plain true [.category "Lu" false, .codePoint 0x2D])

omit [CharacterData] in
theorem hyphenClass_proper : hyphenClass.Proper := by
  refine ⟨⟨List.cons_ne_nil _ _, ?_⟩, List.cons_ne_nil _ _, ?_⟩
  · simp [ClassItem.Proper, maxCodePoint]
  · intro item member
    rcases List.mem_pair.mp member with rfl | rfl
    · exact ⟨by decide, _, rfl⟩
    · show 0x2D ≤ maxCodePoint
      decide

/-- The text of the class. -/
def hyphenText : String :=
  "[\\W\\u\x7b61\x7d-\\u\x7b063\x7d-[^\\p\x7bLu\x7d\\u\x7b2d\x7d]]"

omit [CharacterData] in
theorem hyphenClass_writes : hyphenClass.Writes hyphenText.toList :=
  have lower := @WritesPoint.braced 0x61 ['6', '1'] (by decide) rfl
  have upper := @WritesPoint.braced 0x63 ['0', '6', '3'] (by decide) rfl
  have hyphen := @WritesPoint.braced 0x2D ['2', 'd'] (by decide) rfl
  @ClassDescription.Writes.without false _ _ _ _
    (.cons (.shorthand .word true) (.cons (.range lower upper) .nil))
    (@ClassDescription.Writes.plain true _ _
      (.cons (.braced "Lu" false) (.cons (.codePoint hyphen) .nil)))

omit [CharacterData] in
theorem parse_described_hyphenClass :
    let _ : CharacterData := .ascii
    (CharacterData.SurrogatesApart ∧ hyphenClass.Proper ∧
        hyphenClass.Writes hyphenText.toList) ∧
      ∃ set, parse hyphenText = .ok set ∧
        set.contains 0x2D = true ∧ ¬ set.contains 0x61 = true := by
  let _ : CharacterData := .ascii
  have apart : CharacterData.SurrogatesApart :=
    CharacterData.surrogatesApart_ascii
  obtain ⟨set, parses, members⟩ := (parse_described apart hyphenClass
    hyphenClass_proper).2 hyphenText hyphenClass_writes
  refine ⟨⟨apart, hyphenClass_proper, hyphenClass_writes⟩, set, parses,
    (members 0x2D (by decide)).mpr ?_, fun member => ?_⟩
  · refine ⟨⟨.shorthand .word true, List.mem_cons_self, ?_⟩, fun outside => ?_⟩
    · exact ⟨rfl, by unfold Shorthand.Has; decide⟩
    · exact outside.2 ⟨.codePoint 0x2D, by simp, rfl⟩
  · refine ((members 0x61 (by decide)).mp member).2 ⟨rfl, ?_⟩
    rintro ⟨item, listed, has⟩
    rcases List.mem_pair.mp listed with rfl | rfl
    · obtain ⟨_, ⟨⟩, isCapital⟩ := has
      exact absurd isCapital (by decide)
    · exact absurd has (by unfold ClassItem.Has; decide)

end CharSet
end ParserGenerator
