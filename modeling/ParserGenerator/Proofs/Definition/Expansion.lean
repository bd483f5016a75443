import Mathlib
import ParserGenerator.Proofs.Definition.Naming
import ParserGenerator.Proofs.Definition.TerminalLines

/-!
# Replacing shorthands

References to shorthands do not overlap, and what replaces one of them stands
in parentheses, which occur in no reference. So the values that are put in
cannot form a reference with what is around them. As no value in the table of a
section refers to a shorthand, one round of replacements is enough, and a second
one finds nothing left to do.
-/

namespace ParserGenerator
namespace Definition

/-- A text refers to a shorthand somewhere. -/
def RefersTo (text : List Char) (name : String) : Prop :=
  ∃ spelling, SpellsReference name spelling ∧ spelling <:+: text

/-- Each reference in a text is replaced by the value of its shorthand as a
group, and all other characters stay. -/
inductive Substitutes (shorthands : List (String × List Char)) :
    List Char → List Char → Prop
  | nil : Substitutes shorthands [] []
  | reference
      {name : String}
      {spelling value text result : List Char}
      (spells : SpellsReference name spelling)
      (isValue : shorthands.lookup name = some value)
      (rest : Substitutes shorthands text result) :
      Substitutes shorthands (spelling ++ text)
        ("(?:".toList ++ value ++ [')'] ++ result)
  | character
      {character : Char}
      {text result : List Char}
      (noReference : ∀ name spelling, SpellsReference name spelling →
        ¬ spelling <+: character :: text)
      (rest : Substitutes shorthands text result) :
      Substitutes shorthands (character :: text) (character :: result)

/-- A line gives a name to a part of patterns. -/
def NamesShorthand (line : List Char) (name : String) : Prop :=
  ∃ text, shorthandLine? (Text.trimmed line) = some (name, text)

/-- The values that the lines of a section give to shorthands, latest first:
each is the text of its line with the references to earlier ones replaced. -/
inductive Tabulates : List (List Char) → List (String × List Char) → Prop
  | nil : Tabulates [] []
  | names
      {lines : List (List Char)}
      {line text value : List Char}
      {name : String}
      {shorthands : List (String × List Char)}
      (earlier : Tabulates lines shorthands)
      (isShorthand : shorthandLine? (Text.trimmed line) = some (name, text))
      (substitutes : Substitutes shorthands text value) :
      Tabulates (lines ++ [line]) ((name, value) :: shorthands)
  | other
      {lines : List (List Char)}
      {line : List Char}
      {shorthands : List (String × List Char)}
      (earlier : Tabulates lines shorthands)
      (noShorthand : shorthandLine? (Text.trimmed line) = none) :
      Tabulates (lines ++ [line]) shorthands

/-- No value refers to a shorthand. -/
def Closed (shorthands : List (String × List Char)) : Prop :=
  ∀ entry ∈ shorthands, ∀ name, ¬ RefersTo entry.2 name

variable {text rest result spelling input : List Char}
  {name other : String} {shorthands : List (String × List Char)} {fuel : Nat}

/-! ## References -/

theorem isBlank_of_isShorthandLetter
    {character : Char}
    (letter : isShorthandLetter character = true) :
    Text.isBlank character = false := by
  apply isBlank_of_isWordLetter
  simp only [isShorthandLetter, isShorthandStart, isWordLetter, isUpper,
    Bool.or_eq_true] at letter ⊢
  tauto

theorem isShorthandLetter_of_isShorthandStart
    {character : Char}
    (starts : isShorthandStart character = true) :
    isShorthandLetter character = true := by
  rw [isShorthandLetter, starts, Bool.true_or]

namespace SpellsReference

/-- After its two opening braces a reference holds no other one. -/
theorem exists_inner (spells : SpellsReference name spelling) :
    ∃ first inner, spelling = '\x7b' :: '\x7b' :: first :: inner ∧
      ∀ character ∈ first :: inner,
        character = '\x7d' ∨ Text.isBlank character = true ∨
          isShorthandLetter character = true := by
  obtain @⟨gap, otherGap, blankBefore, isName, blankAfter⟩ := spells
  have letters := isName.letters isShorthandLetter_of_isShorthandStart
  have ofInner : ∀ character ∈
      gap ++ (name.toList ++ (otherGap ++ ['\x7d', '\x7d'])),
      character = '\x7d' ∨ Text.isBlank character = true ∨
        isShorthandLetter character = true := by
    intro character member
    simp only [List.mem_append, List.mem_cons, List.not_mem_nil, or_false,
      or_self] at member
    rcases member with inGap | inName | inGap | isBrace
    · exact .inr (.inl (blankBefore character inGap))
    · exact .inr (.inr (letters character inName))
    · exact .inr (.inl (blankAfter character inGap))
    · exact .inl isBrace
  obtain ⟨first, inner, isInner⟩ : ∃ first inner, gap ++ (name.toList ++
      (otherGap ++ ['\x7d', '\x7d'])) = first :: inner :=
    List.exists_cons_of_ne_nil (by simp)
  rw [isInner] at ofInner
  exact ⟨first, inner, by rw [isInner], ofInner⟩

theorem ne_nil (spells : SpellsReference name spelling) : spelling ≠ [] := by
  obtain ⟨first, inner, rfl, -⟩ := spells.exists_inner
  exact List.cons_ne_nil _ _

/-- Only braces, white space and letters of names occur in a reference. -/
theorem notMem
    (spells : SpellsReference name spelling)
    {character : Char}
    (notBrace : character ≠ '\x7b' ∧ character ≠ '\x7d')
    (notBlank : Text.isBlank character = false)
    (notLetter : isShorthandLetter character = false) :
    character ∉ spelling := by
  obtain ⟨first, inner, rfl, ofInner⟩ := spells.exists_inner
  intro member
  rcases List.mem_cons.mp member with rfl | member
  · exact notBrace.1 rfl
  rcases List.mem_cons.mp member with rfl | member
  · exact notBrace.1 rfl
  rcases ofInner character member with rfl | blank | letter
  · exact notBrace.2 rfl
  · rw [notBlank] at blank
    contradiction
  · rw [notLetter] at letter
    contradiction

/-- A reference at the front is found, with its name. -/
theorem reference?_append
    (spells : SpellsReference name spelling)
    (rest : List Char) :
    reference? (spelling ++ rest) = some (name, rest) := by
  obtain @⟨gap, otherGap, blankBefore, isName, blankAfter⟩ := spells
  have nameNotBlank : ∀ character ∈
      (name.toList ++ (otherGap ++ '\x7d' :: '\x7d' :: rest)).head?,
      Text.isBlank character = false := by
    obtain ⟨first, others, isSpelt, starts, -⟩ := isName
    rw [isSpelt]
    rintro _ ⟨⟩
    exact isBlank_of_isShorthandLetter
      (isShorthandLetter_of_isShorthandStart starts)
  have nameStops : ∀ character ∈ (otherGap ++ '\x7d' :: '\x7d' :: rest).head?,
      isShorthandLetter character = false := by
    cases otherGap with
    | nil =>
        rintro _ ⟨⟩
        decide
    | cons blank others =>
        rintro _ ⟨⟩
        rw [Bool.eq_false_iff]
        intro letter
        have notBlank := isBlank_of_isShorthandLetter letter
        rw [blankAfter blank List.mem_cons_self] at notBlank
        contradiction
  have atName : skipBlanks (gap ++ (name.toList ++
        (otherGap ++ '\x7d' :: '\x7d' :: rest))) =
      name.toList ++ (otherGap ++ '\x7d' :: '\x7d' :: rest) :=
    Text.dropWhile_isBlank_append blankBefore nameNotBlank
  have atEnd : skipBlanks (otherGap ++ '\x7d' :: '\x7d' :: rest) =
      '\x7d' :: '\x7d' :: rest :=
    Text.dropWhile_isBlank_append blankAfter (by simp [Text.isBlank])
  simp only [List.cons_append, List.append_assoc, List.nil_append, reference?,
    atName, takeName_append isName nameStops, Option.bind_eq_bind,
    Option.bind_some, atEnd, String.ofList_toList]

end SpellsReference

theorem reference?_eq_none_iff :
    reference? text = none ↔
      ∀ name spelling, SpellsReference name spelling → ¬ spelling <+: text := by
  constructor
  · rintro isNone name spelling spells ⟨rest, rfl⟩
    rw [spells.reference?_append] at isNone
    contradiction
  · intro noReference
    cases found : reference? text with
    | none => rfl
    | some reference =>
        obtain ⟨spelling, spells, rfl⟩ := exists_spelling_of_reference? found
        exact absurd (List.prefix_append _ _) (noReference _ _ spells)

/-! ## Places of references -/

theorem not_refersTo_nil : ¬ RefersTo [] name := by
  rintro ⟨spelling, spells, inside⟩
  exact spells.ne_nil (List.infix_nil.mp inside)

theorem refersTo_cons
    {character : Char}
    (noReference : ∀ name spelling, SpellsReference name spelling →
      ¬ spelling <+: character :: text) :
    RefersTo (character :: text) name ↔ RefersTo text name := by
  refine exists_congr fun spelling => and_congr_right fun spells => ?_
  rw [List.infix_cons_iff]
  exact or_iff_right (noReference name spelling spells)

/-- What starts with a character that is not in front starts later. -/
theorem infix_of_notMem
    {first : Char}
    {others before after : List Char}
    (absent : first ∉ before)
    (inside : first :: others <:+: before ++ after) :
    first :: others <:+: after := by
  induction before with
  | nil => exact inside
  | cons character before inductionHypothesis =>
      rw [List.mem_cons, not_or] at absent
      rw [List.cons_append, List.infix_cons_iff] at inside
      rcases inside with atFront | later
      · exact absurd (List.cons_prefix_cons.mp atFront).1 absent.1
      · exact inductionHypothesis absent.2 later

/-- What holds no separator lies on one side of it. -/
theorem infix_append_cons
    {separator : Char}
    {inner before after : List Char}
    (absent : separator ∉ inner)
    (inside : inner <:+: before ++ separator :: after) :
    inner <:+: before ∨ inner <:+: after := by
  rcases List.infix_append_iff.mp inside with
    inBefore | inRest | ⟨front, back, rfl, atEnd, atSeparator⟩
  · exact .inl inBefore
  · rcases List.infix_cons_iff.mp inRest with atFront | later
    · rcases List.prefix_cons_iff.mp atFront with rfl | ⟨_, rfl, -⟩
      · exact .inl List.nil_infix
      · exact absurd List.mem_cons_self absent
    · exact .inr later
  · rcases List.prefix_cons_iff.mp atSeparator with rfl | ⟨_, rfl, -⟩
    · rw [List.append_nil]
      exact .inl atEnd.isInfix
    · simp at absent

/-- References do not overlap. -/
theorem refersTo_append
    (spells : SpellsReference other spelling) :
    RefersTo (spelling ++ text) name ↔ name = other ∨ RefersTo text name := by
  constructor
  · rintro ⟨found, foundSpells, inside⟩
    obtain ⟨first, inner, rfl, ofInner⟩ := spells.exists_inner
    have noBrace : '\x7b' ∉ first :: inner := by
      intro member
      rcases ofInner _ member with isBrace | blank | letter
      · contradiction
      · contradiction
      · contradiction
    rw [List.cons_append, List.infix_cons_iff] at inside
    rcases inside with ⟨rest, atFront⟩ | later
    · refine .inl ?_
      have isOther := spells.reference?_append text
      rw [List.cons_append, ← atFront, foundSpells.reference?_append] at isOther
      exact (Prod.mk.inj (Option.some.inj isOther)).1
    · refine .inr ⟨found, foundSpells, ?_⟩
      obtain ⟨foundFirst, foundInner, rfl, -⟩ := foundSpells.exists_inner
      rw [List.cons_append, List.infix_cons_iff] at later
      rcases later with atSecond | inInner
      · have bothBraces := List.cons_prefix_cons.mp
          (List.cons_prefix_cons.mp atSecond).2
        exact absurd (bothBraces.1 ▸ List.mem_cons_self) noBrace
      · exact infix_of_notMem noBrace inInner
  · rintro (rfl | ⟨found, foundSpells, inside⟩)
    · exact ⟨spelling, spells, (List.prefix_append _ _).isInfix⟩
    · exact ⟨found, foundSpells,
        inside.trans (List.suffix_append _ _).isInfix⟩

theorem mem_references_pieces (enough : text.length ≤ fuel) :
    name ∈ references (pieces fuel text) ↔ RefersTo text name := by
  fun_induction pieces fuel text with
  | case1 text =>
      obtain rfl := List.length_eq_zero_iff.mp (Nat.le_zero.mp enough)
      simp [references, not_refersTo_nil]
  | case2 fuel => simp [references, not_refersTo_nil]
  | case3 fuel character rest found after isReference inductionHypothesis =>
      obtain ⟨spelling, spells, split⟩ :=
        exists_spelling_of_reference? isReference
      have shorter : after.length ≤ fuel := by
        have lengths := congrArg List.length split
        have nonempty := List.length_pos_iff.mpr spells.ne_nil
        rw [List.length_append, List.length_cons] at lengths
        rw [List.length_cons] at enough
        omega
      rw [split, refersTo_append spells, ← inductionHypothesis shorter]
      simp [references]
  | case4 fuel character rest isNone inductionHypothesis =>
      rw [refersTo_cons (reference?_eq_none_iff.mp isNone),
        ← inductionHypothesis (Nat.le_of_succ_le_succ enough)]
      simp [references]

/-! ## Substitution -/

theorem substitutes_pieces
    (enough : text.length ≤ fuel)
    (known : ∀ name, RefersTo text name →
      (shorthands.lookup name).isSome = true) :
    Substitutes shorthands text
      ((pieces fuel text).flatMap (replace shorthands)) := by
  fun_induction pieces fuel text with
  | case1 text =>
      obtain rfl := List.length_eq_zero_iff.mp (Nat.le_zero.mp enough)
      exact .nil
  | case2 fuel => exact .nil
  | case3 fuel character rest found after isReference inductionHypothesis =>
      obtain ⟨spelling, spells, split⟩ :=
        exists_spelling_of_reference? isReference
      rw [split] at known enough ⊢
      obtain ⟨value, isValue⟩ := Option.isSome_iff_exists.mp
        (known found ((refersTo_append spells).mpr (.inl rfl)))
      have nonempty := List.length_pos_iff.mpr spells.ne_nil
      rw [List.length_append] at enough
      have others := inductionHypothesis (by omega) fun name refers =>
        known name ((refersTo_append spells).mpr (.inr refers))
      rw [List.flatMap_cons, replace, isValue]
      exact .reference spells isValue others
  | case4 fuel character rest isNone inductionHypothesis =>
      have noReference := reference?_eq_none_iff.mp isNone
      have others := inductionHypothesis (Nat.le_of_succ_le_succ enough)
        fun name refers => known name ((refersTo_cons noReference).mpr refers)
      exact .character noReference others

namespace Substitutes

/-- What comes first in the result and holds no parenthesis comes first in the
text. -/
theorem prefix_of_notMem
    (substitutes : Substitutes shorthands text result)
    {front : List Char}
    (absent : '(' ∉ front)
    (atFront : front <+: result) :
    front <+: text := by
  induction substitutes generalizing front with
  | nil => exact atFront
  | reference =>
      cases front with
      | nil => exact List.nil_prefix
      | cons first front =>
          have isParenthesis := (List.cons_prefix_cons.mp atFront).1
          exact absurd (isParenthesis ▸ List.mem_cons_self) absent
  | character _ _ inductionHypothesis =>
      cases front with
      | nil => exact List.nil_prefix
      | cons first front =>
          obtain ⟨rfl, onward⟩ := List.cons_prefix_cons.mp atFront
          rw [List.mem_cons, not_or] at absent
          exact List.cons_prefix_cons.mpr
            ⟨rfl, inductionHypothesis absent.2 onward⟩

/-- If no value refers to a shorthand, the result does not either: neither
within what is put in nor across its ends. -/
theorem not_refersTo
    (substitutes : Substitutes shorthands text result)
    (closed : Closed shorthands) :
    ¬ RefersTo result name := by
  induction substitutes with
  | nil => exact not_refersTo_nil
  | @reference found spelling value text result spells isValue rest
      inductionHypothesis =>
      have isEntry : (found, value) ∈ shorthands := by
        obtain ⟨before, after, rfl, -⟩ := List.lookup_eq_some_iff.mp isValue
        simp
      rintro ⟨inner, innerSpells, inside⟩
      have noClosing : ')' ∉ inner :=
        innerSpells.notMem (by decide) (by decide) (by decide)
      -- A reference starts with a brace, so it does not reach back into what
      -- opens the group.
      have fromValue : inner <:+: value ++ ')' :: result := by
        obtain ⟨first, others, rfl, -⟩ := innerSpells.exists_inner
        have noBrace : '\x7b' ∉ "(?:".toList := by decide
        apply infix_of_notMem noBrace
        simpa using inside
      rcases infix_append_cons noClosing fromValue with inValue | inRest
      · exact closed _ isEntry name ⟨inner, innerSpells, inValue⟩
      · exact inductionHypothesis ⟨inner, innerSpells, inRest⟩
  | character noReference rest inductionHypothesis =>
      rintro ⟨inner, innerSpells, inside⟩
      rcases List.infix_cons_iff.mp inside with atFront | later
      · have noOpening : '(' ∉ inner :=
          innerSpells.notMem (by decide) (by decide) (by decide)
        exact noReference name inner innerSpells
          ((Substitutes.character noReference rest).prefix_of_notMem noOpening
            atFront)
      · exact inductionHypothesis ⟨inner, innerSpells, later⟩

end Substitutes

/-! ## Rounds of replacements -/

theorem mem_sortNames {names : List String} :
    name ∈ sortNames names ↔ name ∈ names := by
  rw [sortNames, List.mem_mergeSort, List.mem_eraseDups]

/-- Sorted names ascend, and none stands there twice. -/
theorem pairwise_sortNames (names : List String) :
    (sortNames names).Pairwise (· < ·) := by
  have ordered : (sortNames names).Pairwise fun left right =>
      decide (left ≤ right) = true := by
    apply List.pairwise_mergeSort
    · intro first second third
      simpa using le_trans
    · intro first second
      simpa using le_total first second
  have distinct : (sortNames names).Nodup :=
    (List.mergeSort_perm _ _).nodup_iff.mpr (nodup_eraseDups names)
  refine (ordered.and distinct).imp fun {left right} both => ?_
  exact lt_of_le_of_ne (of_decide_eq_true both.1) both.2

/-- A text that refers to a shorthand without a value is refused, with the
names of all such shorthands. -/
theorem exists_expand_eq_error
    (refers : RefersTo text name)
    (unknown : (shorthands.lookup name).isSome ≠ true) :
    ∃ missing : List String, missing.Pairwise (· < ·) ∧
      (∀ name, name ∈ missing ↔
        RefersTo text name ∧ (shorthands.lookup name).isSome ≠ true) ∧
      ∀ input fuel, fuel ≠ 0 →
        expand shorthands input fuel text =
          .error (.unknownVariables missing) := by
  let found := (references (pieces text.length text)).filter fun name =>
    (shorthands.lookup name).isNone
  have mem_found (name : String) : name ∈ found ↔
      RefersTo text name ∧ (shorthands.lookup name).isSome ≠ true := by
    rw [List.mem_filter, mem_references_pieces (Nat.le_refl _),
      Option.isNone_iff_eq_none, ← Option.not_isSome_iff_eq_none]
  have isMissing : found.isEmpty = false := by
    rw [List.isEmpty_eq_false_iff]
    exact List.ne_nil_of_mem ((mem_found name).mpr ⟨refers, unknown⟩)
  refine ⟨sortNames found, pairwise_sortNames found, fun name => ?_,
    fun input fuel someFuel => ?_⟩
  · rw [mem_sortNames, mem_found]
  · obtain ⟨fuel, rfl⟩ := Nat.exists_eq_succ_of_ne_zero someFuel
    rw [expand]
    exact if_pos (by rw [isMissing]; rfl)

theorem refersToShorthand_iff :
    RefersToShorthand text ↔ ∃ name, RefersTo text name := by
  constructor
  · rintro ⟨before, gap, name, otherGap, after, rfl, blankBefore, isName,
      blankAfter⟩
    refine ⟨String.ofList name, _, .braces blankBefore
      (by rwa [String.toList_ofList]) blankAfter, before, after, ?_⟩
    simp
  · rintro ⟨name, _, ⟨blankBefore, isName, blankAfter⟩, before, after, rfl⟩
    exact ⟨before, _, name.toList, _, after, by simp, blankBefore, isName,
      blankAfter⟩

/-- If no value refers to a shorthand and all shorthands that a text refers to
have values, the first round replaces them all and the second one ends. -/
theorem exists_expand_eq_ok
    (closed : Closed shorthands)
    (known : ∀ name, RefersTo text name →
      (shorthands.lookup name).isSome = true) :
    ∃ result, Substitutes shorthands text result ∧
      ∀ input fuel, 2 ≤ fuel →
        expand shorthands input fuel text = .ok result := by
  have substitutes := substitutes_pieces (Nat.le_refl text.length) known
  have noneMissing : ((references (pieces text.length text)).filter fun name =>
      (shorthands.lookup name).isNone) = [] := by
    refine List.filter_eq_nil_iff.mpr fun name isReference => ?_
    rw [mem_references_pieces (Nat.le_refl _)] at isReference
    simpa using Option.isSome_iff_ne_none.mp (known name isReference)
  by_cases refers : RefersToShorthand text
  · refine ⟨_, substitutes, fun input fuel enough => ?_⟩
    obtain ⟨fuel, rfl⟩ := Nat.exists_eq_add_of_le' enough
    have noneLeft : ¬ RefersToShorthand
        ((pieces text.length text).flatMap (replace shorthands)) := by
      rw [refersToShorthand_iff, not_exists]
      exact fun name => substitutes.not_refersTo closed
    obtain ⟨name, isReference⟩ := refersToShorthand_iff.mp refers
    have someNames :
        (references (pieces text.length text)).isEmpty = false := by
      rw [List.isEmpty_eq_false_iff]
      exact List.ne_nil_of_mem
        ((mem_references_pieces (Nat.le_refl _)).mpr isReference)
    rw [expand]
    simp only [noneMissing, someNames]
    exact expand_eq_self noneLeft (Nat.succ_ne_zero fuel) shorthands input
  · refine ⟨text, ?_, fun input fuel enough =>
      expand_eq_self refers (by omega) shorthands input⟩
    rw [pieces_eq_map refers, List.take_length, List.flatMap_map] at substitutes
    simpa [replace] using substitutes

/-- With closed values a text is either given with its references replaced or
refused for names without a value. -/
theorem expand_cases
    (closed : Closed shorthands)
    (enough : 2 ≤ fuel)
    (input text : List Char) :
    (∃ result, Substitutes shorthands text result ∧
      expand shorthands input fuel text = .ok result) ∨
    ∃ missing,
      expand shorthands input fuel text =
        .error (.unknownVariables missing) := by
  by_cases known : ∀ name, RefersTo text name →
      (shorthands.lookup name).isSome = true
  · obtain ⟨result, substitutes, expands⟩ := exists_expand_eq_ok closed known
    exact .inl ⟨result, substitutes, expands input fuel enough⟩
  · simp only [not_forall] at known
    obtain ⟨name, refers, unknown⟩ := known
    obtain ⟨missing, -, -, expands⟩ := exists_expand_eq_error refers unknown
    exact .inr ⟨missing, expands input fuel (by omega)⟩

/-! ## The table of a section -/

namespace Tabulates

variable {lines : List (List Char)}

theorem closed (tabulates : Tabulates lines shorthands) :
    Closed shorthands := by
  induction tabulates with
  | nil => simp [Closed]
  | names _ _ substitutes inductionHypothesis =>
      exact List.forall_mem_cons.mpr
        ⟨fun _ => substitutes.not_refersTo inductionHypothesis,
          inductionHypothesis⟩
  | other _ _ inductionHypothesis => exact inductionHypothesis

/-- The names in the table are those that the lines give. -/
theorem isSome_lookup_iff (tabulates : Tabulates lines shorthands) :
    (shorthands.lookup name).isSome = true ↔
      ∃ line ∈ lines, NamesShorthand line name := by
  induction tabulates with
  | nil => simp
  | @names lines line text value given shorthands _ isShorthand _
      inductionHypothesis =>
      have atLine : NamesShorthand line name ↔ name = given := by
        simp [NamesShorthand, isShorthand, eq_comm]
      simp only [List.mem_append, List.mem_singleton, or_and_right, exists_or,
        exists_eq_left, ← inductionHypothesis, atLine, List.lookup_cons]
      by_cases same : name = given
      · simp [same]
      · simp [same, beq_false_of_ne same]
  | @other lines line shorthands _ noShorthand inductionHypothesis =>
      have atLine : ¬ NamesShorthand line name := by
        simp [NamesShorthand, noShorthand]
      simp only [List.mem_append, List.mem_singleton, or_and_right, exists_or,
        exists_eq_left, ← inductionHypothesis, atLine, or_false]

end Tabulates

section Lines

variable {found after : TerminalSection} {line : List Char} {number : Nat}
  {earlier lines : List (List Char)}

/-- A line that starts otherwise than names do gives no name. -/
theorem shorthandLine?_eq_none
    (noName : ∀ character ∈ line.head?, isShorthandStart character = false) :
    shorthandLine? line = none := by
  cases line with
  | nil => rfl
  | cons character rest =>
      rw [shorthandLine?, takeName, if_neg (by simp [noName character rfl])]
      rfl

/-- What a line does to the table: it adds a name with its value, or it names
nothing and changes nothing. -/
theorem shorthands_of_readTerminalLine
    (reads : readTerminalLine found number line = .ok after) :
    (∃ name text value, shorthandLine? line = some (name, text) ∧
      expand found.shorthands text expansionLimit text = .ok value ∧
      after.shorthands = (name, value) :: found.shorthands) ∨
    shorthandLine? line = none ∧ after.shorthands = found.shorthands := by
  unfold readTerminalLine at reads
  split at reads
  · next isFiller =>
      obtain rfl := Except.ok.inj reads
      refine .inr ⟨shorthandLine?_eq_none ?_, rfl⟩
      match line with
      | [] => simp
      | first :: rest =>
          have hyphens : '-' = first ∧ ['-'] <+: rest := by
            simpa using isFiller
          rintro _ ⟨⟩
          exact hyphens.1 ▸ by decide
  split at reads
  · next isAnyCase =>
      obtain rfl := Except.ok.inj reads
      refine .inr ⟨shorthandLine?_eq_none ?_, rfl⟩
      rw [isAnyCase]
      rintro _ ⟨⟩
      decide
  split at reads
  · next name text isShorthand =>
      obtain ⟨value, expands, isAfter⟩ := Grammar.exists_ok_of_bind reads
      obtain rfl := Except.ok.inj isAfter
      exact .inl ⟨name, text, value, isShorthand, expands, rfl⟩
  · next isNone =>
      refine .inr ⟨isNone, ?_⟩
      split at reads
      · contradiction
      obtain ⟨pattern, -, reads⟩ := Grammar.exists_ok_of_bind reads
      obtain ⟨options, -, reads⟩ := Grammar.exists_ok_of_bind reads
      split at reads
      · contradiction
      · obtain rfl := Except.ok.inj reads
        rfl

theorem Tabulates.readTerminalLine
    (tabulates : Tabulates earlier found.shorthands)
    (reads : readTerminalLine found number (Text.trimmed line) = .ok after) :
    Tabulates (earlier ++ [line]) after.shorthands := by
  rcases shorthands_of_readTerminalLine reads with
    ⟨name, text, value, isShorthand, expands, isTable⟩ | ⟨isNone, isTable⟩
  · rw [isTable]
    refine .names tabulates isShorthand ?_
    rcases expand_cases tabulates.closed
        (show 2 ≤ expansionLimit by decide) text text with
      ⟨result, substitutes, isResult⟩ | ⟨missing, fails⟩
    · rw [expands] at isResult
      exact Except.ok.inj isResult ▸ substitutes
    · rw [expands] at fails
      contradiction
  · rw [isTable]
    exact .other tabulates isNone

/-- What the lines of a section leave in the table. -/
theorem Tabulates.readTerminalLines
    (tabulates : Tabulates earlier found.shorthands)
    (reads : readTerminalLines found number lines = .ok after) :
    Tabulates (earlier ++ lines) after.shorthands := by
  induction lines generalizing earlier found number with
  | nil =>
      obtain rfl := Except.ok.inj reads
      rwa [List.append_nil]
  | cons line rest inductionHypothesis =>
      obtain ⟨next, first, others⟩ := Grammar.exists_ok_of_bind reads
      have onward :=
        inductionHypothesis (tabulates.readTerminalLine first) others
      rwa [List.append_assoc, List.singleton_append] at onward

/-! ## Replacements that go on too long -/

theorem expand_ne_expansionTooDeep
    (closed : Closed shorthands)
    (tooDeep : String) :
    expand shorthands input expansionLimit text ≠
      .error (.expansionTooDeep tooDeep) := by
  intro isTooDeep
  rcases expand_cases closed (show 2 ≤ expansionLimit by decide) input
      text with
    ⟨result, -, expands⟩ | ⟨missing, expands⟩
  · rw [expands] at isTooDeep
    contradiction
  · rw [expands] at isTooDeep
    cases isTooDeep

theorem readFlags_ne_expansionTooDeep
    (options : TerminalOptions)
    (flags : List String)
    (tooDeep : String) :
    readFlags number options flags ≠ .error (.expansionTooDeep tooDeep) := by
  fun_induction readFlags number options flags with
  | case1 => simp
  | case2 options rest inductionHypothesis => exact inductionHypothesis
  | case3 options rest inductionHypothesis => exact inductionHypothesis
  | case4 options rest inductionHypothesis => exact inductionHypothesis
  | case5 => simp

/-- Two steps fail if the first one does, or if it succeeds and the second one
fails. -/
theorem error_of_bind
    {Error First Second : Type}
    {step : Except Error First}
    {next : First → Except Error Second}
    {error : Error}
    (fails : step >>= next = .error error) :
    step = .error error ∨ ∃ value, step = .ok value ∧
      next value = .error error := by
  cases step with
  | error other => exact .inl (congrArg Except.error (Except.error.inj fails))
  | ok value => exact .inr ⟨value, rfl, fails⟩

theorem readTerminalLine_ne_expansionTooDeep
    (closed : Closed found.shorthands)
    (tooDeep : String) :
    readTerminalLine found number line ≠
      .error (.expansionTooDeep tooDeep) := by
  intro fails
  unfold readTerminalLine at fails
  split at fails
  · contradiction
  split at fails
  · contradiction
  split at fails
  · rcases error_of_bind fails with isTooDeep | ⟨value, -, fails⟩
    · exact expand_ne_expansionTooDeep closed tooDeep isTooDeep
    · contradiction
  split at fails
  · cases Except.error.inj fails
  rcases error_of_bind fails with isTooDeep | ⟨pattern, -, fails⟩
  · exact expand_ne_expansionTooDeep closed tooDeep isTooDeep
  rcases error_of_bind fails with isTooDeep | ⟨options, -, fails⟩
  · exact readFlags_ne_expansionTooDeep _ _ tooDeep isTooDeep
  split at fails
  · cases Except.error.inj fails
  · contradiction

theorem readTerminalLines_ne_expansionTooDeep
    (tabulates : Tabulates earlier found.shorthands)
    (tooDeep : String) :
    readTerminalLines found number lines ≠
      .error (.expansionTooDeep tooDeep) := by
  induction lines generalizing earlier found number with
  | nil => simp [readTerminalLines]
  | cons line rest inductionHypothesis =>
      intro fails
      rcases error_of_bind fails with isTooDeep | ⟨next, first, fails⟩
      · exact readTerminalLine_ne_expansionTooDeep tabulates.closed tooDeep
          isTooDeep
      · exact inductionHypothesis (tabulates.readTerminalLine first) fails

/-- Reading a section never fails because a replacement goes on too long. Its
lines leave a table of the values they give, none of which refers to a
shorthand. With this table any text is dealt with in two rounds, however many
are allowed: if the lines give all the names that the text refers to, the
result is the text with each reference replaced by the value of its shorthand
as a group, and otherwise the names that it refers to and the lines do not give
are listed in order. -/
theorem expand_of_readTerminals (lines : List (List Char)) :
    (∀ tooDeep, readTerminals lines ≠ .error (.expansionTooDeep tooDeep)) ∧
      ∀ found, readTerminals lines = .ok found →
        Tabulates lines found.shorthands ∧
        (∀ entry ∈ found.shorthands, ∀ name, ¬ RefersTo entry.2 name) ∧
        ∀ text : List Char,
          ((∀ name, RefersTo text name →
              ∃ line ∈ lines, NamesShorthand line name) →
            ∃ result, Substitutes found.shorthands text result ∧
              ∀ rounds, 2 ≤ rounds →
                expand found.shorthands text rounds text = .ok result) ∧
          ∀ name, RefersTo text name →
            (¬ ∃ line ∈ lines, NamesShorthand line name) →
              ∃ missing : List String, missing.Pairwise (· < ·) ∧
                (∀ other, other ∈ missing ↔ RefersTo text other ∧
                  ¬ ∃ line ∈ lines, NamesShorthand line other) ∧
                ∀ rounds, 2 ≤ rounds →
                  expand found.shorthands text rounds text =
                    .error (.unknownVariables missing) := by
  refine ⟨readTerminalLines_ne_expansionTooDeep .nil, fun found reads => ?_⟩
  have empty : Tabulates [] (⟨false, [], []⟩ : TerminalSection).shorthands :=
    .nil
  have tabulates : Tabulates lines found.shorthands :=
    empty.readTerminalLines reads
  refine ⟨tabulates, tabulates.closed, fun text => ⟨?_, ?_⟩⟩
  · intro known
    obtain ⟨result, substitutes, expands⟩ := exists_expand_eq_ok
      tabulates.closed fun name refers =>
        tabulates.isSome_lookup_iff.mpr (known name refers)
    exact ⟨result, substitutes, expands text⟩
  · intro name refers unknown
    rw [← tabulates.isSome_lookup_iff] at unknown
    simp only [← tabulates.isSome_lookup_iff]
    obtain ⟨missing, ascends, members, expands⟩ :=
      exists_expand_eq_error refers unknown
    exact ⟨missing, ascends, members, fun rounds enough =>
      expands text rounds (by omega)⟩

/-- The lines of a section in which a name is given anew by way of itself. -/
def renamingLines : List (List Char) :=
  ["A = x".toList, "B = \x7b\x7bA\x7d\x7d\x7b\x7b A \x7d\x7d".toList,
    "A = \x7b\x7bA\x7d\x7dy".toList,
    "t: \x7b\x7bB\x7d\x7d|\x7b\x7bA\x7d\x7d".toList]

/-- What these lines declare. -/
def renamingSection : TerminalSection :=
  ⟨false, [⟨"t", "(?:(?:x)(?:x))|(?:(?:x)y)", ⟨false, false⟩, 4⟩],
    [("A", "(?:x)y".toList), ("B", "(?:x)(?:x)".toList), ("A", "x".toList)]⟩

/-- Where `A` and `B` are given, a text may refer to `A`, and of `C` and `B`
only `C` is missing. -/
theorem expand_of_readTerminals_renaming :
    readTerminals renamingLines = .ok renamingSection ∧
      (∀ name, RefersTo "<\x7b\x7b A \x7d\x7d>".toList name →
        ∃ line ∈ renamingLines, NamesShorthand line name) ∧
      (∃ result, Substitutes renamingSection.shorthands
          "<\x7b\x7b A \x7d\x7d>".toList result ∧
        expand renamingSection.shorthands "<\x7b\x7b A \x7d\x7d>".toList 2
          "<\x7b\x7b A \x7d\x7d>".toList = .ok result) ∧
      RefersTo "\x7b\x7bC\x7d\x7d\x7b\x7bB\x7d\x7d".toList "C" ∧
      (¬ ∃ line ∈ renamingLines, NamesShorthand line "C") ∧
      ∃ missing, "C" ∈ missing ∧ "B" ∉ missing ∧
        expand renamingSection.shorthands
          "\x7b\x7bC\x7d\x7d\x7b\x7bB\x7d\x7d".toList 2
          "\x7b\x7bC\x7d\x7d\x7b\x7bB\x7d\x7d".toList =
            .error (.unknownVariables missing) := by
  have reads : readTerminals renamingLines = .ok renamingSection :=
    Grammar.eq_ok_of_toOption (by decide +kernel)
  obtain ⟨-, ofTable⟩ := expand_of_readTerminals renamingLines
  obtain ⟨tabulates, -, ofText⟩ := ofTable renamingSection reads
  have known : ∀ name, RefersTo "<\x7b\x7b A \x7d\x7d>".toList name →
      ∃ line ∈ renamingLines, NamesShorthand line name := by
    intro name refers
    rw [← mem_references_pieces (Nat.le_refl _)] at refers
    rw [← tabulates.isSome_lookup_iff]
    have isName : name ∈ ["A"] := refers
    rw [List.mem_singleton.mp isName]
    decide
  have refers : RefersTo "\x7b\x7bC\x7d\x7d\x7b\x7bB\x7d\x7d".toList "C" := by
    rw [← mem_references_pieces (Nat.le_refl _)]
    decide +kernel
  have unknown : ¬ ∃ line ∈ renamingLines, NamesShorthand line "C" := by
    rw [← tabulates.isSome_lookup_iff]
    decide
  obtain ⟨result, substitutes, expands⟩ := (ofText _).1 known
  obtain ⟨missing, -, members, fails⟩ := (ofText _).2 "C" refers unknown
  refine ⟨reads, known, ⟨result, substitutes, expands 2 (Nat.le_refl 2)⟩,
    refers, unknown, missing, (members "C").mpr ⟨refers, unknown⟩, ?_,
    fails 2 (Nat.le_refl 2)⟩
  rw [members, ← tabulates.isSome_lookup_iff]
  exact fun both => both.2 (by decide)

end Lines

end Definition
end ParserGenerator
