import ParserGenerator.Proofs.CharSet.Escapes

/-!
# Classes

The grammar of classes between brackets, in the same form as that of escapes:
the text that starts with a phrase, what the phrase stands for, and the text
after it. A hyphen joins the ends of a range, stands for itself or announces a
class to subtract, as its neighbours decide. The reader of classes reads the
phrases and nothing else.
-/

namespace ParserGenerator
namespace CharSet

open Reader

/-- The complement of a class that is negated. -/
def negateIf [CharacterData] (negated : Bool) (characters : CharSet) :
    CharSet :=
  if negated then characters.negate else characters

/-- The union of the items of a class. -/
def unionOf [CharacterData] (items : List CharSet) : CharSet :=
  items.foldl union empty

namespace Phrase

/-! ## The grammar of classes -/

/-- The text goes on with a hyphen that joins the ends of a range. -/
def JoinsRange (text : List Char) : Prop :=
  text.head? = some '-' ∧ text[1]? ≠ some ']' ∧ text[1]? ≠ some '['

/-- The text goes on with one more item of a class: neither the closing
bracket nor a class to subtract comes next. -/
def StartsItem (text : List Char) : Prop :=
  text.head? ≠ some ']' ∧ ¬ (text.head? = some '-' ∧ text[1]? = some '[')

/-- What may stand before the items of a class. -/
inductive Opening : List Char → Bool → List Char → Prop
  | plain
      {after : List Char}
      (bare : after.head? ≠ some '^') :
      Opening ('[' :: after) false after
  | negated {after : List Char} :
      Opening ('[' :: '^' :: after) true after

variable [CharacterData]

/-- A character or an escape inside a class. -/
inductive Atom : List Char → CharSet.Escape → List Char → Prop
  | character
      {character : Char}
      {after : List Char}
      (bare : character ≠ '\\') :
      Atom (character :: after) (.character character.toNat) after
  | escape
      {before after : List Char}
      {escape : CharSet.Escape}
      (phrase : Escape before escape after) :
      Atom ('\\' :: before) escape after

/-- An item of a class. -/
inductive Item : List Char → CharSet → List Char → Prop
  | set
      {before after : List Char}
      {characters : CharSet}
      (atom : Atom before (.set characters) after) :
      Item before characters after
  | single
      {before after : List Char}
      {point : Nat}
      (atom : Atom before (.character point) after)
      (alone : ¬ JoinsRange after) :
      Item before (single point) after
  | range
      {before middle after : List Char}
      {first last : Nat}
      (lower : Atom before (.character first) ('-' :: middle))
      (joins : JoinsRange ('-' :: middle))
      (upper : Atom middle (.character last) after)
      (ordered : first ≤ last) :
      Item before (interval first last) after

/-- Items of a class one after the other. -/
inductive Items : List Char → List CharSet → List Char → Prop
  | done {after : List Char} : Items after [] after
  | more
      {before middle after : List Char}
      {characters : CharSet}
      {others : List CharSet}
      (starts : StartsItem before)
      (item : Item before characters middle)
      (rest : Items middle others after) :
      Items before (characters :: others) after

/-- A class between brackets. -/
inductive Class : List Char → CharSet → List Char → Prop
  | items
      {before middle after : List Char}
      {negated : Bool}
      {items : List CharSet}
      (opening : Opening before negated middle)
      (nonempty : items ≠ [])
      (listed : Items middle items (']' :: after)) :
      Class before (negateIf negated (unionOf items)) after
  | without
      {before middle inner after : List Char}
      {negated : Bool}
      {items : List CharSet}
      {subtracted : CharSet}
      (opening : Opening before negated middle)
      (nonempty : items ≠ [])
      (listed : Items middle items ('-' :: inner))
      (nested : Class inner subtracted (']' :: after)) :
      Class before ((negateIf negated (unionOf items)).subtract subtracted)
        after

end Phrase

/-! ## Items -/

variable [CharacterData]
variable {before after : Cursor} {text rest : List Char}

namespace Phrase

omit [CharacterData] in
theorem Opening.length_lt
    {negated : Bool}
    (opening : Opening text negated rest) :
    rest.length < text.length := by
  cases opening <;> simp only [List.length_cons] <;> omega

theorem Atom.length_lt
    {escape : CharSet.Escape}
    (atom : Atom text escape rest) :
    rest.length < text.length := by
  cases atom with
  | character => exact Nat.lt_succ_self _
  | escape phrase => exact Nat.lt_succ_of_lt phrase.length_lt

theorem Item.length_lt
    {characters : CharSet}
    (item : Item text characters rest) :
    rest.length < text.length := by
  cases item with
  | set atom | single atom => exact atom.length_lt
  | range lower _ upper =>
      exact Nat.lt_trans (Nat.lt_succ_of_lt upper.length_lt) lower.length_lt

end Phrase

theorem atom_of_gives
    {escape : Escape}
    (gives : Gives readAtom before escape after) :
    Phrase.Atom before.rest escape after.rest := by
  rcases gives_next_bind_cases gives with
    fails | ⟨character, between, starts, continues⟩
  · exact absurd fails not_gives_fail
  rw [starts]
  split at continues
  · next absent => cases absent
  · next same =>
      cases same
      exact .escape (escape_of_gives continues)
  · next other notBackslash same =>
      cases same
      obtain ⟨rfl, rfl⟩ := gives_pure_iff.mp continues
      exact .character notBackslash

theorem reads_atom
    {escape : Escape}
    (atom : Phrase.Atom text escape rest) :
    Reads readAtom text escape rest := by
  cases atom with
  | character bare =>
      refine reads_next.bind ?_
      split
      · next absent => cases absent
      · next same => exact absurd (Option.some.inj same) bare
      · next same =>
          cases same
          exact reads_pure
  | escape phrase => exact reads_next.bind (reads_escape phrase)

theorem keeps_readAtom {limit : Nat} : Keeps limit readAtom := by
  refine keeps_next.bind fun moved => ?_
  split
  · exact keeps_fail _
  · exact keeps_readEscape
  · exact keeps_pure _

omit [CharacterData] in
theorem tests_rangeFollows : Tests rangeFollows Phrase.JoinsRange :=
  fun cursor => ⟨_, rfl, by simp [Phrase.JoinsRange, and_assoc]⟩

theorem item_of_gives
    {characters : CharSet}
    (gives : Gives readItem before characters after) :
    Phrase.Item before.rest characters after.rest := by
  obtain ⟨escape, between, reads, continues⟩ :=
    gives_bind_iff.mp (gives_position_bind gives)
  have atom := atom_of_gives reads
  cases escape with
  | set characters =>
      obtain ⟨rfl, rfl⟩ := gives_pure_iff.mp continues
      exact .set atom
  | character first =>
      rcases tests_rangeFollows.gives_bind_cases continues with
        ⟨joins, continues⟩ | ⟨alone, ends⟩
      · obtain ⟨joined, splits, continues⟩ :=
          exists_gives_of_next_bind joins.1 continues
        obtain ⟨escape, _, reads, continues⟩ := gives_bind_iff.mp continues
        have upper := atom_of_gives reads
        rw [splits] at atom joins
        cases escape with
        | set characters => exact absurd continues not_gives_fail
        | character last =>
            dsimp only at continues
            split at continues
            · exact absurd continues not_gives_failAt
            · next ordered =>
                obtain ⟨rfl, rfl⟩ := gives_pure_iff.mp continues
                exact .range atom joins upper (Nat.not_lt.mp ordered)
      · obtain ⟨rfl, rfl⟩ := gives_pure_iff.mp ends
        exact .single atom alone

theorem reads_item
    {characters : CharSet}
    (item : Phrase.Item text characters rest) :
    Reads readItem text characters rest := by
  refine reads_position_bind fun place => ?_
  cases item with
  | set atom => exact (reads_atom atom).bind reads_pure
  | single atom alone =>
      exact (reads_atom atom).bind
        ((tests_rangeFollows.reads_other alone).bind reads_pure)
  | range lower joins upper ordered =>
      refine (reads_atom lower).bind ((tests_rangeFollows.reads joins).bind
        (reads_next.bind ((reads_atom upper).bind ?_)))
      dsimp only
      rw [if_neg (Nat.not_lt.mpr ordered)]
      exact reads_pure

theorem keeps_readItem {limit : Nat} : Keeps limit readItem := by
  refine keeps_position_bind fun start inside => keeps_readAtom.bind ?_
  rintro (first | characters)
  · refine tests_rangeFollows.keeps.bind fun joins => ?_
    split
    · refine keeps_next.bind fun _ => keeps_readAtom.bind ?_
      rintro (last | characters)
      · dsimp only
        split
        · exact keeps_failAt inside _
        · exact keeps_pure _
      · exact keeps_fail _
    · exact keeps_pure _
  · exact keeps_pure _

/-! ## Classes -/

namespace Phrase

/-- The rest of a class: its items, what it subtracts, and its closing
bracket. -/
inductive Body :
    List Char → List CharSet → Option CharSet → List Char → Prop
  | items
      {before after : List Char}
      {items : List CharSet}
      (listed : Items before items (']' :: after)) :
      Body before items none after
  | without
      {before inner after : List Char}
      {items : List CharSet}
      {subtracted : CharSet}
      (listed : Items before items ('-' :: inner))
      (nested : Class inner subtracted (']' :: after)) :
      Body before items (some subtracted) after

theorem Body.more
    {before middle after : List Char}
    {characters : CharSet}
    {others : List CharSet}
    {subtracted : Option CharSet}
    (starts : StartsItem before)
    (item : Item before characters middle)
    (rest : Body middle others subtracted after) :
    Body before (characters :: others) subtracted after := by
  cases rest with
  | items listed => exact .items (.more starts item listed)
  | without listed nested => exact .without (.more starts item listed) nested

end Phrase

omit [CharacterData] in
theorem opening_of_gives_bind
    {Result : Type}
    {result : Result}
    {next : Bool → Reader Result}
    (gives : Gives (do expect '['; next (← eat '^')) before result after) :
    ∃ negated between, Phrase.Opening before.rest negated between.rest ∧
      Gives (next negated) between result after := by
  obtain ⟨opened, opens, continues⟩ := exists_gives_of_expect_bind gives
  rw [opens]
  rcases gives_eat_bind_cases continues with
    ⟨started, negates, continues⟩ | ⟨bare, continues⟩
  · rw [negates]
    exact ⟨true, started, .negated, continues⟩
  · exact ⟨false, opened, .plain bare, continues⟩

/-- A class is the difference of its items and what it subtracts. -/
theorem Phrase.Body.toClass
    {before middle after : List Char}
    {negated : Bool}
    {items : List CharSet}
    {subtracted : Option CharSet}
    (opening : Opening before negated middle)
    (nonempty : items ≠ [])
    (body : Body middle items subtracted after) :
    Class before (subtracted.elim (negateIf negated (unionOf items))
      (negateIf negated (unionOf items)).subtract) after := by
  cases body with
  | items listed => exact .items opening nonempty listed
  | without listed nested => exact .without opening nonempty listed nested

mutual

/-- What the reader of classes gives is a class. -/
theorem class_of_gives
    (fuel : Nat)
    {before after : Cursor}
    {characters : CharSet}
    (gives : Gives (readClass fuel) before characters after) :
    Phrase.Class before.rest characters after.rest := by
  match fuel with
  | 0 => exact absurd gives not_gives_fail
  | fuel + 1 =>
      obtain ⟨negated, started, opening, continues⟩ :=
        opening_of_gives_bind (gives_position_bind gives)
      obtain ⟨body, _, reads, continues⟩ := gives_bind_iff.mp continues
      obtain ⟨items, subtracted, written, rfl⟩ := body_of_gives fuel reads
      dsimp only at continues
      split at continues
      · exact absurd continues not_gives_failAt
      · next counted =>
          have nonempty : items ≠ [] := by
            rintro rfl
            exact counted rfl
          have phrase := written.toClass opening nonempty
          cases subtracted with
          | none =>
              obtain ⟨rfl, rfl⟩ := gives_pure_iff.mp continues
              exact phrase
          | some subtracted =>
              obtain ⟨rfl, rfl⟩ := gives_pure_iff.mp continues
              exact phrase

theorem body_of_gives
    (fuel : Nat)
    {opening : Nat}
    {initial body : ClassBody}
    {before after : Cursor}
    (gives : Gives (readItems fuel opening initial) before body after) :
    ∃ items subtracted, Phrase.Body before.rest items subtracted after.rest ∧
      body = ⟨items.foldl union initial.items, initial.count + items.length,
        subtracted <|> initial.subtracted⟩ := by
  match fuel with
  | 0 => exact absurd gives not_gives_fail
  | fuel + 1 =>
      have continues := gives_peek_bind gives
      split at continues
      · exact absurd continues not_gives_failAt
      · next closes =>
          obtain ⟨closed, splits, ends⟩ :=
            exists_gives_of_next_bind closes continues
          obtain ⟨rfl, rfl⟩ := gives_pure_iff.mp ends
          rw [splits]
          exact ⟨[], none, .items .done, rfl⟩
      · next character notClosing isNext =>
          have continues := gives_peekSecond_bind continues
          -- A hyphen ends the items if a class to subtract comes after it, and
          -- belongs to an item otherwise.
          split at continues
          · next announced =>
              simp only [Bool.and_eq_true, decide_eq_true_eq] at announced
              rw [announced.1] at isNext
              obtain ⟨started, splits, continues⟩ :=
                exists_gives_of_next_bind isNext continues
              obtain ⟨subtracted, _, reads, continues⟩ :=
                gives_bind_iff.mp continues
              have nested := class_of_gives fuel reads
              rcases gives_eat_bind_cases continues with
                ⟨closed, closes, ends⟩ | ⟨-, fails⟩
              · obtain ⟨rfl, rfl⟩ := gives_pure_iff.mp ends
                rw [closes] at nested
                rw [splits]
                exact ⟨[], some subtracted, .without .done nested, rfl⟩
              · exact absurd fails not_gives_fail
          · next notAnnounced =>
              obtain ⟨item, between, reads, continues⟩ :=
                gives_bind_iff.mp continues
              obtain ⟨items, subtracted, written, rfl⟩ :=
                body_of_gives fuel continues
              have starts : Phrase.StartsItem before.rest :=
                ⟨by simpa [isNext] using notClosing,
                  by simpa [isNext] using notAnnounced⟩
              refine ⟨item :: items, subtracted,
                written.more starts (item_of_gives reads), ?_⟩
              rw [List.foldl_cons, List.length_cons, Nat.add_right_comm,
                Nat.add_assoc]

end

/-- The items of a class are read one by one; `conclude` is what the rest of
the class does with them. -/
theorem reads_items
    {opening : Nat}
    {items : List CharSet}
    {middle : List Char}
    (listed : Phrase.Items text items middle)
    (conclude : ClassBody → ClassBody)
    (concludes : ∀ fuel body, middle.length < fuel →
      Reads (readItems fuel opening body) middle (conclude body) rest)
    (fuel : Nat)
    (initial : ClassBody)
    (enough : text.length < fuel) :
    Reads (readItems fuel opening initial) text
      (conclude ⟨items.foldl union initial.items,
        initial.count + items.length, initial.subtracted⟩) rest := by
  induction listed generalizing fuel initial with
  | done => exact concludes fuel initial enough
  | @more before between _ characters others starts item others
      inductionHypothesis =>
      have shorter := item.length_lt
      obtain ⟨character, following, rfl⟩ :=
        List.exists_cons_of_length_pos (Nat.zero_lt_of_lt shorter)
      cases fuel with
      | zero => exact absurd enough (Nat.not_lt_zero _)
      | succ fuel =>
          have read := inductionHypothesis concludes fuel
            ⟨initial.items.union characters, initial.count + 1,
              initial.subtracted⟩ (by omega)
          rw [List.foldl_cons, List.length_cons, ← Nat.add_assoc,
            Nat.add_right_comm]
          refine reads_peek.bind ?_
          split
          · next absent => cases absent
          · next closes => exact absurd closes starts.1
          · next other _ isNext =>
              cases isNext
              refine reads_peekSecond.bind ?_
              rw [if_neg (by simpa using starts.2)]
              exact (reads_item item).bind read

omit [CharacterData] in
theorem exists_reads_opening
    {negated : Bool}
    (opening : Phrase.Opening text negated rest) :
    ∃ between, Reads (expect '[') text () between ∧
      Reads (eat '^') between negated rest := by
  cases opening with
  | plain bare => exact ⟨rest, reads_expect, reads_eat_other bare⟩
  | negated => exact ⟨'^' :: rest, reads_expect, reads_eat⟩

theorem reads_class_of_body
    {fuel : Nat}
    {negated : Bool}
    {items : List CharSet}
    {middle : List Char}
    (subtracted : Option CharSet)
    (opening : Phrase.Opening text negated middle)
    (nonempty : items ≠ [])
    (reads : ∀ start, Reads (readItems fuel start ⟨empty, 0, none⟩) middle
      ⟨unionOf items, items.length, subtracted⟩ rest) :
    Reads (readClass (fuel + 1)) text
      (subtracted.elim (negateIf negated (unionOf items))
        (negateIf negated (unionOf items)).subtract) rest := by
  have counted : ¬ items.length = 0 :=
    fun noItem => nonempty (List.length_eq_zero_iff.mp noItem)
  obtain ⟨between, expects, eats⟩ := exists_reads_opening opening
  refine reads_position_bind fun start =>
    expects.bind (eats.bind ((reads start).bind ?_))
  dsimp only
  rw [if_neg counted]
  cases subtracted <;> exact reads_pure

theorem reads_closing
    (fuel opening : Nat)
    (body : ClassBody)
    (enough : (']' :: rest).length < fuel) :
    Reads (readItems fuel opening body) (']' :: rest) body rest := by
  cases fuel with
  | zero => exact absurd enough (Nat.not_lt_zero _)
  | succ fuel => exact reads_peek.bind (reads_next.bind reads_pure)

theorem Phrase.Items.length_le
    {items : List CharSet}
    (listed : Items text items rest) :
    rest.length ≤ text.length := by
  induction listed with
  | done => exact Nat.le_refl _
  | more _ item _ shorter =>
      exact Nat.le_trans shorter (Nat.le_of_lt item.length_lt)

theorem Phrase.Class.length_lt
    {characters : CharSet}
    (phrase : Class text characters rest) :
    rest.length < text.length := by
  induction phrase with
  | items opening _ listed =>
      exact Nat.lt_trans (Nat.lt_of_succ_le listed.length_le) opening.length_lt
  | without opening _ listed _ shorter =>
      have longer := listed.length_le
      simp only [List.length_cons] at longer shorter
      have opens := opening.length_lt
      omega

theorem Phrase.Class.head?_eq
    {characters : CharSet}
    (phrase : Class text characters rest) :
    text.head? = some '[' := by
  cases phrase with
  | items opening | without opening => cases opening <;> rfl

/-- What comes after a hyphen before a class. -/
theorem Phrase.Class.getElem?_one
    {characters : CharSet}
    (phrase : Class text characters rest) :
    ('-' :: text)[1]? = some '[' := by
  rw [List.getElem?_cons_succ, ← List.head?_eq_getElem?]
  exact phrase.head?_eq

theorem reads_subtraction
    {subtracted : CharSet}
    (nested : Phrase.Class text subtracted (']' :: rest))
    (reads : ∀ fuel, text.length < fuel →
      Reads (readClass fuel) text subtracted (']' :: rest))
    (fuel opening : Nat)
    (body : ClassBody)
    (enough : ('-' :: text).length < fuel) :
    Reads (readItems fuel opening body) ('-' :: text)
      { body with subtracted := some subtracted } rest := by
  cases fuel with
  | zero => exact absurd enough (Nat.not_lt_zero _)
  | succ fuel =>
      refine reads_peek.bind (reads_peekSecond.bind ?_)
      rw [if_pos (by simpa using nested.getElem?_one)]
      exact reads_next.bind ((reads fuel (Nat.lt_of_succ_lt_succ enough)).bind
        (reads_eat.bind reads_pure))

/-- The reader of classes reads every class. -/
theorem reads_class
    {characters : CharSet}
    (phrase : Phrase.Class text characters rest)
    (fuel : Nat)
    (enough : text.length < fuel) :
    Reads (readClass fuel) text characters rest := by
  induction phrase generalizing fuel with
  | items opening nonempty listed =>
      have shorter := opening.length_lt
      obtain ⟨fuel, rfl⟩ := Nat.exists_eq_succ_of_ne_zero
        (Nat.ne_zero_of_lt enough)
      refine reads_class_of_body none opening nonempty fun _ => ?_
      simpa [unionOf] using reads_items listed id (reads_closing · _) fuel
        ⟨empty, 0, none⟩ (by omega)
  | @without _ _ _ _ _ _ subtracted opening nonempty listed nested
      inductionHypothesis =>
      have shorter := opening.length_lt
      obtain ⟨fuel, rfl⟩ := Nat.exists_eq_succ_of_ne_zero
        (Nat.ne_zero_of_lt enough)
      refine reads_class_of_body (some subtracted) opening nonempty
        fun _ => ?_
      simpa [unionOf] using reads_items listed
        (fun body => { body with subtracted := some subtracted })
        (reads_subtraction nested inductionHypothesis · _) fuel
        ⟨empty, 0, none⟩ (by omega)

mutual

theorem keeps_readClass {limit : Nat} (fuel : Nat) :
    Keeps limit (readClass fuel) := by
  match fuel with
  | 0 => exact keeps_fail _
  | fuel + 1 =>
      refine keeps_position_bind fun opening inside =>
        (keeps_expect _).bind fun _ => (keeps_eat _).bind fun negated =>
          (keeps_readItems fuel inside _).bind fun body => ?_
      dsimp only
      split
      · exact keeps_failAt inside _
      split
      · exact keeps_pure _
      · exact keeps_pure _

theorem keeps_readItems
    {limit opening : Nat}
    (fuel : Nat)
    (inside : opening ≤ limit)
    (body : ClassBody) :
    Keeps limit (readItems fuel opening body) := by
  match fuel with
  | 0 => exact keeps_fail _
  | fuel + 1 =>
      refine keeps_peek.bind fun seen => ?_
      split
      · exact keeps_failAt inside _
      · exact keeps_next.bind fun _ => keeps_pure _
      · refine keeps_peekSecond.bind fun second => ?_
        split
        · refine keeps_next.bind fun _ =>
            (keeps_readClass fuel).bind fun subtracted =>
              (keeps_eat _).bind fun closed => ?_
          split
          · exact keeps_pure _
          · exact keeps_fail _
        · exact keeps_readItem.bind fun item =>
            keeps_readItems fuel inside _

end

/-! ## Classes that come next -/

theorem bracketed_of_gives
    {characters : CharSet}
    (gives : Gives readBracketed before characters after) :
    Phrase.Class before.rest characters after.rest :=
  class_of_gives (before.rest.length + 1) (gives_remaining_bind gives)

theorem reads_bracketed
    {characters : CharSet}
    (phrase : Phrase.Class text characters rest) :
    Reads readBracketed text characters rest :=
  reads_remaining_bind (reads_class phrase _ (Nat.lt_succ_self _))

theorem keeps_readBracketed {limit : Nat} : Keeps limit readBracketed :=
  keeps_remaining.bind fun _ => keeps_readClass _

/-- A whole text that is a class is read as one. -/
theorem parse_of_class
    {source : String}
    {characters : CharSet}
    (phrase : Phrase.Class source.toList characters []) :
    parse source = .ok characters := by
  have reads : Reads readWhole source.toList characters [] := by
    have set : Reads readSet source.toList characters [] := by
      refine reads_peek.bind ?_
      rw [phrase.head?_eq]
      exact reads_bracketed phrase
    have ends : Reads (pure characters) [] characters [] := reads_pure
    exact set.bind (reads_remaining_bind ends)
  obtain ⟨place, gives⟩ := reads 0
  exact run_eq_ok_iff.mpr ⟨_, gives⟩

end CharSet
end ParserGenerator
