import ParserGenerator.Proofs.CharSet
import ParserGenerator.Proofs.Pattern.Marks

/-!
# Reading patterns

The reader of patterns accepts exactly the texts that the grammar generates,
and gives a pattern alike what the grammar assigns to the text. All other texts
are refused at a place inside the text.
-/

namespace ParserGenerator
namespace Pattern

open Reader

variable {before after : Cursor} {text rest : List Char}

/-! ## Groups -/

theorem opening_of_gives
    {start : Nat}
    {kind : GroupKind}
    (gives : Gives (readGroupKind start) before kind after) :
    Phrase.Opening ('(' :: before.rest) kind after.rest := by
  rcases gives_eat_bind_cases gives with
    ⟨between, marks, continues⟩ | ⟨-, ends⟩
  · rcases gives_next_bind_cases continues with
      fails | ⟨sign, signed, starts, continues⟩
    · exact absurd fails not_gives_failAt
    rw [marks, starts]
    split at continues
    · next isSign =>
        obtain ⟨rfl, rfl⟩ := gives_pure_iff.mp continues
        cases isSign
        exact .plain
    · next isSign =>
        obtain ⟨rfl, rfl⟩ := gives_pure_iff.mp continues
        cases isSign
        exact .condition
    · next isSign =>
        obtain ⟨rfl, rfl⟩ := gives_pure_iff.mp continues
        cases isSign
        exact .negated
    · exact absurd continues not_gives_failAt
  · obtain ⟨rfl, rfl⟩ := gives_pure_iff.mp ends
    exact .bare

theorem exists_reads_opening
    {kind : GroupKind}
    (opening : Phrase.Opening text kind rest)
    (unmarked : Phrase.Unmarked rest) :
    ∃ middle, text = '(' :: middle ∧
      ∀ start, Reads (readGroupKind start) middle kind rest := by
  cases opening with
  | bare =>
      refine ⟨rest, rfl, fun start => (reads_eat_other ?_).bind reads_pure⟩
      exact fun isNext => unmarked '?' isNext (by decide)
  | plain | condition | negated =>
      exact ⟨_, rfl, fun start => reads_eat.bind (reads_next.bind reads_pure)⟩

theorem keeps_readGroupKind
    {limit start : Nat}
    (inside : start ≤ limit) :
    Keeps limit (readGroupKind start) := by
  refine (keeps_eat _).bind fun marked => ?_
  split
  · refine keeps_next.bind fun sign => ?_
    split
    · exact keeps_pure _
    · exact keeps_pure _
    · exact keeps_pure _
    · exact keeps_failAt inside _
  · exact keeps_pure _

theorem Alike.wrap
    {left right : Pattern}
    (alike : Alike left right)
    (kind : GroupKind) :
    Alike (kind.wrap left) (kind.wrap right) := by
  cases kind with
  | plain => exact alike
  | condition negated => exact .inLookahead alike negated

/-- An item that is added to a sequence stands at its end. -/
theorem Alike.appendItem
    (items : List Pattern)
    (item : Pattern)
    (later : List Pattern) :
    Alike (.concat ((Pattern.appendItem items item).reverse ++ later))
      (.concat (items.reverse ++ item :: later)) := by
  unfold Pattern.appendItem
  split
  · next added before rest =>
      simpa using Alike.symm (.joined rest.reverse before added later)
  · rw [List.reverse_cons, List.append_assoc]
    exact .refl _

/-! ## What is read is a phrase -/

variable [CharacterData]

mutual

/-- The branches that are read are branches of the grammar, up to likeness. -/
theorem branches_of_gives
    (fuel : Nat)
    {before after : Cursor}
    {results : List Pattern}
    (gives : Gives (readBranches fuel) before results after) :
    ∃ branches, Phrase.Branches before.rest branches after.rest ∧
      List.Forall₂ Alike results branches := by
  match fuel with
  | 0 => exact absurd gives not_gives_fail
  | fuel + 1 =>
      obtain ⟨result, between, reads, continues⟩ := gives_bind_iff.mp gives
      obtain ⟨items, phrase, alike⟩ := items_of_gives fuel reads
      rcases gives_eat_bind_cases continues with
        ⟨divided, divides, continues⟩ | ⟨-, ends⟩
      · rw [divides] at phrase
        obtain ⟨others, _, reads, ends⟩ := gives_bind_iff.mp continues
        obtain ⟨rfl, rfl⟩ := gives_pure_iff.mp ends
        obtain ⟨branches, rest, othersAlike⟩ := branches_of_gives fuel reads
        exact ⟨_, .more phrase rest, .cons alike othersAlike⟩
      · obtain ⟨rfl, rfl⟩ := gives_pure_iff.mp ends
        exact ⟨_, .last phrase, .cons alike .nil⟩

/-- The items that are read continue `earlier`, those read before them with
the latest one first. -/
theorem items_of_gives
    (fuel : Nat)
    {before after : Cursor}
    {earlier : List Pattern}
    {result : Pattern}
    (gives : Gives (readItems fuel earlier) before result after) :
    ∃ items, Phrase.Items before.rest items after.rest ∧
      Alike result (concat (earlier.reverse ++ items)) := by
  match fuel with
  | 0 => exact absurd gives not_gives_fail
  | fuel + 1 =>
      have continues := gives_peek_bind gives
      split at continues
      · obtain ⟨rfl, rfl⟩ := gives_pure_iff.mp continues
        refine ⟨[], .done, ?_⟩
        rw [List.append_nil]
        exact .sequence _
      · next character isNext =>
          split at continues
          · obtain ⟨rfl, rfl⟩ := gives_pure_iff.mp continues
            refine ⟨[], .done, ?_⟩
            rw [List.append_nil]
            exact .sequence _
          · next goesOn =>
              obtain ⟨atom, between, reads, continues⟩ :=
                gives_bind_iff.mp continues
              obtain ⟨plain, phrase, atomAlike⟩ :=
                atom_of_gives fuel isNext (by simpa using goesOn) reads
              obtain ⟨item, _, reads, continues⟩ :=
                gives_bind_iff.mp (gives_remaining_bind continues)
              -- With more fuel than characters, the reader of marks stops
              -- only where no mark follows.
              obtain ⟨marks, marked, rfl⟩ :=
                marks_of_gives reads (Nat.lt_succ_self _)
              obtain ⟨items, rest, alike⟩ := items_of_gives fuel continues
              refine ⟨_, .more phrase marked rest, alike.trans ?_⟩
              exact (Alike.appendItem _ _ _).trans
                (.inConcat _ (marked.congr atomAlike) _)

theorem atom_of_gives
    (fuel : Nat)
    {before after : Cursor}
    {character : Char}
    {result : Pattern}
    (isNext : before.rest.head? = some character)
    (goesOn : ¬ (character = '|' ∨ character = ')'))
    (gives : Gives (readAtom fuel character) before result after) :
    ∃ atom, Phrase.Atom before.rest atom after.rest ∧ Alike result atom := by
  match fuel with
  | 0 => exact absurd gives not_gives_fail
  | fuel + 1 =>
      unfold readAtom at gives
      split at gives
      · obtain ⟨characters, _, reads, ends⟩ := gives_bind_iff.mp gives
        obtain ⟨rfl, rfl⟩ := gives_pure_iff.mp ends
        exact ⟨_, .bracketed (CharSet.bracketed_of_gives reads), .refl _⟩
      split at gives
      · exact absurd gives not_gives_fail
      next notBracket notMark =>
      obtain ⟨between, starts, continues⟩ :=
        exists_gives_of_next_bind isNext (gives_position_bind gives)
      rw [starts]
      split at continues
      · next opens =>
          obtain ⟨kind, _, reads, continues⟩ := gives_bind_iff.mp continues
          have opening := opening_of_gives reads
          obtain ⟨results, inside, reads, continues⟩ :=
            gives_bind_iff.mp continues
          obtain ⟨branches, inner, alike⟩ := branches_of_gives fuel reads
          rcases gives_eat_bind_cases continues with
            ⟨closed, closes, ends⟩ | ⟨-, fails⟩
          · obtain ⟨rfl, rfl⟩ := gives_pure_iff.mp ends
            rw [closes] at inner
            rw [opens]
            refine ⟨_, .group opening inner, .wrap ?_ kind⟩
            exact (Alike.choice results).trans (.alternate alike [])
          · exact absurd fails not_gives_failAt
      next notGroup =>
      split at continues
      · next isDot =>
          obtain ⟨rfl, rfl⟩ := gives_pure_iff.mp continues
          rw [isDot]
          exact ⟨_, .dot, .refl _⟩
      next notDot =>
      split at continues
      · next isEscape =>
          obtain ⟨escape, _, reads, ends⟩ := gives_bind_iff.mp continues
          have phrase := CharSet.escape_of_gives reads
          rw [isEscape]
          cases escape with
          | character point =>
              obtain ⟨rfl, rfl⟩ := gives_pure_iff.mp ends
              exact ⟨_, .codePoint phrase, .refl _⟩
          | set characters =>
              obtain ⟨rfl, rfl⟩ := gives_pure_iff.mp ends
              exact ⟨_, .set phrase, .refl _⟩
      · next notEscape =>
          -- The cases before have tried all reserved characters.
          obtain ⟨rfl, rfl⟩ := gives_pure_iff.mp continues
          refine ⟨_, .literal ?_, .refl _⟩
          simp only [Bool.or_eq_true, decide_eq_true_eq, not_or]
            at notMark goesOn
          simp [Phrase.reserved, notBracket, notMark, notGroup, notDot,
            notEscape, goesOn]

end

/-!
## Phrases are read

An atom takes a unit of fuel, its item one more, and so does the list of
branches that it may open. Each atom is a character long at least, so three
units for each character are enough, and the three readers differ in what they
need beside.
-/

mutual

theorem reads_branches
    (fuel : Nat)
    {text rest : List Char}
    {branches : List Pattern}
    (phrase : Phrase.Branches text branches rest)
    (ends : Phrase.EndsBranches rest)
    (enough : 3 * text.length + 3 ≤ fuel) :
    ∃ results, Reads (readBranches fuel) text results rest ∧
      List.Forall₂ Alike results branches := by
  match fuel with
  | fuel + 1 =>
      cases phrase with
      | last branch =>
          obtain ⟨result, reads, alike⟩ :=
            reads_items fuel branch ends.endsBranch [] (by omega)
          refine ⟨[result], reads.bind ((reads_eat_other ?_).bind reads_pure),
            .cons alike .nil⟩
          exact fun isNext => absurd (ends '|' isNext) (by decide)
      | @more _ middle _ items others branch others =>
          obtain ⟨result, reads, alike⟩ := reads_items fuel branch
            (by simp [Phrase.EndsBranch]) [] (by omega)
          have shorter := branch.length_le
          obtain ⟨results, readsOthers, othersAlike⟩ :=
            reads_branches fuel others ends
              (by simp only [List.length_cons] at shorter; omega)
          exact ⟨result :: results,
            reads.bind (reads_eat.bind (readsOthers.bind reads_pure)),
            .cons alike othersAlike⟩

theorem reads_items
    (fuel : Nat)
    {text rest : List Char}
    {items : List Pattern}
    (phrase : Phrase.Items text items rest)
    (ends : Phrase.EndsBranch rest)
    (earlier : List Pattern)
    (enough : 3 * text.length + 2 ≤ fuel) :
    ∃ result, Reads (readItems fuel earlier) text result rest ∧
      Alike result (concat (earlier.reverse ++ items)) := by
  match fuel with
  | fuel + 1 =>
      cases phrase with
      | done =>
          refine ⟨sequence earlier.reverse, reads_peek.bind ?_, ?_⟩
          · split
            · exact reads_pure
            · next character isNext =>
                rw [if_pos (by simpa using ends character isNext)]
                exact reads_pure
          · rw [List.append_nil]
            exact .sequence _
      | @more _ middle next _ atom marks others first marked others =>
          have longer := first.length_lt
          have markedLonger := marked.length_le
          obtain ⟨character, following, rfl, notDivider⟩ := first.exists_start
          have goesOn : ¬ (character = '|' ∨ character = ')') := by
            rintro (rfl | rfl) <;> exact notDivider (by decide)
          simp only [List.length_cons] at enough longer
          obtain ⟨result, readsAtom, atomAlike⟩ :=
            reads_atom fuel first (by omega)
          have readsMarks := reads_marks marked (others.unmarked ends)
            (middle.length + 1) result (Nat.lt_succ_self _)
          obtain ⟨sequence, readsOthers, alike⟩ := reads_items fuel others ends
            (appendItem earlier (marks result)) (by omega)
          refine ⟨sequence, reads_peek.bind ?_, alike.trans ?_⟩
          · rw [List.head?_cons]
            dsimp only
            rw [if_neg (by simpa using goesOn)]
            exact readsAtom.bind
              (reads_remaining_bind (readsMarks.bind readsOthers))
          · exact (Alike.appendItem _ _ _).trans
              (.inConcat _ (marked.congr atomAlike) _)

theorem reads_atom
    (fuel : Nat)
    {character : Char}
    {following rest : List Char}
    {atom : Pattern}
    (phrase : Phrase.Atom (character :: following) atom rest)
    (enough : 3 * following.length + 4 ≤ fuel) :
    ∃ result, Reads (readAtom fuel character) (character :: following) result
        rest ∧
      Alike result atom := by
  match fuel with
  | fuel + 1 =>
      unfold readAtom
      cases phrase with
      | literal bare =>
          simp only [Phrase.reserved, List.mem_cons, List.not_mem_nil,
            or_false, not_or] at bare
          refine ⟨_, ?_, .refl _⟩
          simp only [bare, decide_false, Bool.or_false, if_false,
            Bool.false_eq_true]
          exact reads_position_bind fun _ => reads_next.bind reads_pure
      | codePoint escape =>
          exact ⟨_, reads_position_bind fun _ => reads_next.bind
            ((CharSet.reads_escape escape).bind reads_pure), .refl _⟩
      | set escape =>
          exact ⟨_, reads_position_bind fun _ => reads_next.bind
            ((CharSet.reads_escape escape).bind reads_pure), .refl _⟩
      | dot =>
          exact ⟨_, reads_position_bind fun _ => reads_next.bind reads_pure,
            .refl _⟩
      | bracketed phrase =>
          obtain rfl : character = '[' := Option.some.inj phrase.head?_eq
          exact ⟨_, (CharSet.reads_bracketed phrase).bind reads_pure, .refl _⟩
      | @group _ middle _ kind branches opening inner =>
          have longer := opening.length_lt
          have closes : Phrase.EndsBranches (')' :: rest) := by
            simp [Phrase.EndsBranches]
          obtain ⟨_, splits, readsKind⟩ :=
            exists_reads_opening opening (inner.unmarked closes.endsBranch)
          cases splits
          obtain ⟨results, reads, alike⟩ := reads_branches fuel inner closes
            (by simp only [List.length_cons] at longer; omega)
          refine ⟨_, reads_position_bind fun start => reads_next.bind
            ((readsKind start).bind (reads.bind
              (reads_eat.bind reads_pure))), .wrap ?_ kind⟩
          exact (Alike.choice results).trans (.alternate alike [])

end

/-! ## Places of errors -/

mutual

theorem keeps_readBranches {limit : Nat} (fuel : Nat) :
    Keeps limit (readBranches fuel) := by
  match fuel with
  | 0 => exact keeps_fail _
  | fuel + 1 =>
      refine (keeps_readItems fuel []).bind fun branch =>
        (keeps_eat _).bind fun divided => ?_
      split
      · exact (keeps_readBranches fuel).bind fun _ => keeps_pure _
      · exact keeps_pure _

theorem keeps_readItems
    {limit : Nat}
    (fuel : Nat)
    (earlier : List Pattern) :
    Keeps limit (readItems fuel earlier) := by
  match fuel with
  | 0 => exact keeps_fail _
  | fuel + 1 =>
      refine keeps_peek.bind fun seen => ?_
      split
      · exact keeps_pure _
      split
      · exact keeps_pure _
      · exact (keeps_readAtom fuel _).bind fun atom =>
          keeps_remaining.bind fun count =>
            (keeps_readMarks _ _).bind fun item => keeps_readItems fuel _

theorem keeps_readAtom
    {limit : Nat}
    (fuel : Nat)
    (character : Char) :
    Keeps limit (readAtom fuel character) := by
  match fuel with
  | 0 => exact keeps_fail _
  | fuel + 1 =>
      unfold readAtom
      split
      · exact CharSet.keeps_readBracketed.bind fun _ => keeps_pure _
      split
      · exact keeps_fail _
      refine keeps_position_bind fun opening inside =>
        keeps_next.bind fun _ => ?_
      split
      · refine (keeps_readGroupKind inside).bind fun kind =>
          (keeps_readBranches fuel).bind fun branches =>
            (keeps_eat _).bind fun closed => ?_
        split
        · exact keeps_pure _
        · exact keeps_failAt inside _
      split
      · exact keeps_pure _
      split
      · refine CharSet.keeps_readEscape.bind fun escape => ?_
        split <;> exact keeps_pure _
      · exact keeps_pure _

end

theorem keeps_readWhole {limit : Nat} : Keeps limit readWhole := by
  refine keeps_remaining.bind fun count =>
    (keeps_readBranches _).bind fun branches => keeps_peek.bind fun seen => ?_
  split
  · exact keeps_pure _
  · exact keeps_fail _
  · exact keeps_fail _

/-! ## Whole texts -/

/-- A text is read exactly if the grammar generates it, and then as a pattern
alike the choice of branches that the grammar assigns to it. All other texts
are refused with an error that carries the text and a place inside it. -/
theorem parse_generated (source : String) :
    (∀ branches, Phrase.Branches source.toList branches [] →
        ∃ pattern, parse source = .ok pattern ∧
          Alike pattern (alternate branches)) ∧
      (∀ pattern, parse source = .ok pattern →
        ∃ branches, Phrase.Branches source.toList branches [] ∧
          Alike pattern (alternate branches)) ∧
      ((¬ ∃ branches, Phrase.Branches source.toList branches []) →
        ∃ error, parse source = .error error ∧ error.pattern = source ∧
          error.position ≤ source.length) := by
  have sound {pattern : Pattern} (parses : parse source = .ok pattern) :
      ∃ branches, Phrase.Branches source.toList branches [] ∧
        Alike pattern (alternate branches) := by
    obtain ⟨after, gives⟩ := run_eq_ok_iff.mp parses
    obtain ⟨results, between, reads, continues⟩ :=
      gives_bind_iff.mp (gives_remaining_bind gives)
    obtain ⟨branches, phrase, alike⟩ := branches_of_gives _ reads
    have continues := gives_peek_bind continues
    split at continues
    · next atEnd =>
        obtain ⟨rfl, rfl⟩ := gives_pure_iff.mp continues
        rw [List.head?_eq_none_iff.mp atEnd] at phrase
        exact ⟨branches, phrase,
          (Alike.choice results).trans (.alternate alike [])⟩
    · exact absurd continues not_gives_fail
    · exact absurd continues not_gives_fail
  refine ⟨fun branches phrase => ?_, fun pattern => sound,
    fun notGenerated => ?_⟩
  · obtain ⟨results, reads, alike⟩ := reads_branches _ phrase nofun
      (Nat.le_refl _)
    have whole : Reads readWhole source.toList (choice results) [] :=
      reads_remaining_bind (reads.bind (reads_peek.bind reads_pure))
    obtain ⟨place, gives⟩ := whole 0
    exact ⟨choice results, run_eq_ok_iff.mpr ⟨_, gives⟩,
      (Alike.choice results).trans (.alternate alike [])⟩
  · cases parses : parse source with
    | ok pattern =>
        obtain ⟨branches, phrase, -⟩ := sound parses
        exact absurd ⟨branches, phrase⟩ notGenerated
    | error error =>
        exact ⟨error, rfl, position_le_of_run_error keeps_readWhole parses⟩

omit [CharacterData] in
/-- A brace opens a count after an atom and stands for itself at the end. -/
theorem parse_generated_braces :
    let _ : CharacterData := .ascii
    ∃ branches, Phrase.Branches "x\x7b1,2\x7d\x7b".toList branches [] ∧
      ∃ pattern, parse "x\x7b1,2\x7d\x7b" = .ok pattern ∧
        Alike pattern (alternate branches) := by
  let _ : CharacterData := .ascii
  have counted : Phrase.Mark "\x7b1,2\x7d\x7b".toList (unroll · 1 (some 2))
      ['\x7b'] :=
    .count (@Phrase.Bounds.between ['1'] ['2'] _ _ _
      ⟨by decide, rfl, by decide⟩ ⟨by decide, rfl, by decide⟩ (by decide))
  have first : Phrase.Atom "x\x7b1,2\x7d\x7b".toList (literal 'x')
      "\x7b1,2\x7d\x7b".toList :=
    .literal (by decide)
  have last : Phrase.Atom ['\x7b'] (literal '\x7b') [] := .literal (by decide)
  have generated := Phrase.Branches.last <| .more first
    (.more counted (.done (by simp [Phrase.OpensCount])))
    (.more last (.done (by simp [Phrase.OpensCount])) .done)
  exact ⟨_, generated, (parse_generated _).1 _ generated⟩

end Pattern
end ParserGenerator
