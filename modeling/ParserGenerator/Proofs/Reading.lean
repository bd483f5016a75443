import Mathlib.Data.List.TakeWhile
import ParserGenerator.CharSet.Cursor

/-!
# What readers read

The basic steps of a reader from both sides: what a step that succeeds has
read, and which text a step reads whatever its position. Readers that count
what they read report their faults inside the text.
-/

namespace ParserGenerator
namespace Reader

variable {Value Result : Type} {value : Value} {character : Char}

/-! ## Steps that succeed -/

/-- The reader gives a value and moves the cursor. -/
def Gives
    (reader : Reader Value)
    (before : Cursor)
    (value : Value)
    (after : Cursor) : Prop :=
  StateT.run reader before = .ok (value, after)

variable {before after : Cursor}

theorem gives_pure_iff {given : Value} :
    Gives (pure given) before value after ↔ value = given ∧ before = after := by
  show Except.ok (given, before) = .ok (value, after) ↔ _
  simp [eq_comm]

theorem gives_bind_iff
    {reader : Reader Value}
    {next : Value → Reader Result}
    {result : Result} :
    Gives (reader >>= next) before result after ↔
      ∃ value between, Gives reader before value between ∧
        Gives (next value) between result after := by
  unfold Gives
  rw [StateT.run_bind]
  cases StateT.run reader before with
  | error fault => simp [bind, Except.bind]
  | ok given =>
      obtain ⟨value, between⟩ := given
      constructor
      · exact fun continues => ⟨value, between, rfl, continues⟩
      · rintro ⟨_, _, ⟨⟩, continues⟩
        exact continues

theorem not_gives_failAt {place : Nat} {fault : PatternFault} :
    ¬ Gives (failAt place fault : Reader Value) before value after :=
  nofun

theorem not_gives_fail {fault : PatternFault} :
    ¬ Gives (fail fault : Reader Value) before value after :=
  nofun

section Bind

variable {result : Result}

theorem gives_position_bind
    {next : Nat → Reader Result}
    (gives : Gives (position >>= next) before result after) :
    Gives (next before.position) before result after :=
  gives

theorem gives_remaining_bind
    {next : Nat → Reader Result}
    (gives : Gives (remaining >>= next) before result after) :
    Gives (next before.rest.length) before result after :=
  gives

theorem gives_peek_bind
    {next : Option Char → Reader Result}
    (gives : Gives (peek >>= next) before result after) :
    Gives (next before.rest.head?) before result after :=
  gives

theorem gives_peekSecond_bind
    {next : Option Char → Reader Result}
    (gives : Gives (peekSecond >>= next) before result after) :
    Gives (next before.rest[1]?) before result after :=
  gives

/-- A reader that moves past a character that comes next goes on behind it. -/
theorem exists_gives_of_next_bind
    {next : Option Char → Reader Result}
    (isNext : before.rest.head? = some character)
    (gives : Gives (Reader.next >>= next) before result after) :
    ∃ between, before.rest = character :: between.rest ∧
      Gives (next (some character)) between result after := by
  obtain ⟨_ | ⟨first, rest⟩, place⟩ := before
  · cases isNext
  · cases isNext
    exact ⟨⟨rest, place + 1⟩, rfl, gives⟩

/-- A reader that moves past any character fails if there is none, or goes on
behind it. -/
theorem gives_next_bind_cases
    {next : Option Char → Reader Result}
    (gives : Gives (Reader.next >>= next) before result after) :
    Gives (next none) before result after ∨
      ∃ character between, before.rest = character :: between.rest ∧
        Gives (next (some character)) between result after := by
  cases isNext : before.rest.head? with
  | none =>
      obtain ⟨_ | ⟨first, rest⟩, place⟩ := before
      · exact .inl gives
      · cases isNext
  | some character =>
      exact .inr ⟨character, exists_gives_of_next_bind isNext gives⟩

/-- A reader that eats a character goes on behind it, or where it is if
another character comes next. -/
theorem gives_eat_bind_cases
    {next : Bool → Reader Result}
    (gives : Gives (eat character >>= next) before result after) :
    (∃ between, before.rest = character :: between.rest ∧
        Gives (next true) between result after) ∨
      before.rest.head? ≠ some character ∧
        Gives (next false) before result after := by
  obtain ⟨eaten, between, eats, continues⟩ := gives_bind_iff.mp gives
  have eats := gives_peek_bind eats
  split at eats
  · next isNext =>
      obtain ⟨passed, splits, ends⟩ := exists_gives_of_next_bind isNext eats
      obtain ⟨rfl, rfl⟩ := gives_pure_iff.mp ends
      exact .inl ⟨passed, splits, continues⟩
  · next isOther =>
      obtain ⟨rfl, rfl⟩ := gives_pure_iff.mp eats
      exact .inr ⟨isOther, continues⟩

theorem exists_gives_of_expect_bind
    {next : Unit → Reader Result}
    (gives : Gives (expect character >>= next) before result after) :
    ∃ between, before.rest = character :: between.rest ∧
      Gives (next ()) between result after := by
  obtain ⟨_, between, expects, continues⟩ := gives_bind_iff.mp gives
  rcases gives_eat_bind_cases expects with ⟨passed, splits, ends⟩ | ⟨-, fails⟩
  · obtain ⟨-, rfl⟩ := gives_pure_iff.mp ends
    exact ⟨passed, splits, continues⟩
  · exact absurd fails not_gives_fail

/-- A reader that takes a run of characters goes on behind the longest one. -/
theorem exists_gives_of_takeWhile_bind
    {property : Char → Bool}
    {next : List Char → Reader Result}
    (gives : Gives (takeWhile property >>= next) before result after) :
    ∃ taken between, before.rest = taken ++ between.rest ∧
      (∀ character ∈ taken, property character = true) ∧
      Gives (next taken) between result after :=
  ⟨before.rest.takeWhile property, _, List.takeWhile_append_dropWhile.symm,
    fun _ member => List.mem_takeWhile_imp member, gives⟩

end Bind

/-! ## Texts that are read -/

/-- Wherever the text stands, the reader gives the value and leaves the
rest. -/
def Reads
    (reader : Reader Value)
    (text : List Char)
    (value : Value)
    (rest : List Char) : Prop :=
  ∀ position, ∃ place, Gives reader ⟨text, position⟩ value ⟨rest, place⟩

variable {text rest : List Char}

theorem reads_pure : Reads (pure value) text value text :=
  fun position => ⟨position, rfl⟩

theorem Reads.bind
    {reader : Reader Value}
    {next : Value → Reader Result}
    {result : Result}
    {middle : List Char}
    (first : Reads reader text value middle)
    (second : Reads (next value) middle result rest) :
    Reads (reader >>= next) text result rest := by
  intro position
  obtain ⟨between, gives⟩ := first position
  obtain ⟨place, continues⟩ := second between
  exact ⟨place, gives_bind_iff.mpr ⟨_, _, gives, continues⟩⟩

theorem reads_position_bind
    {next : Nat → Reader Value}
    (continues : ∀ place, Reads (next place) text value rest) :
    Reads (position >>= next) text value rest :=
  fun place => continues place place

theorem reads_remaining_bind
    {next : Nat → Reader Value}
    (continues : Reads (next text.length) text value rest) :
    Reads (remaining >>= next) text value rest :=
  continues

theorem reads_peek : Reads peek text text.head? text :=
  fun position => ⟨position, rfl⟩

theorem reads_peekSecond : Reads peekSecond text text[1]? text :=
  fun position => ⟨position, rfl⟩

theorem reads_next : Reads next (character :: rest) (some character) rest :=
  fun position => ⟨position + 1, rfl⟩

theorem reads_eat : Reads (eat character) (character :: rest) true rest := by
  refine reads_peek.bind ?_
  rw [List.head?_cons, if_pos rfl]
  exact reads_next.bind reads_pure

theorem reads_eat_other
    (other : text.head? ≠ some character) :
    Reads (eat character) text false text := by
  refine reads_peek.bind ?_
  rw [if_neg other]
  exact reads_pure

theorem reads_expect : Reads (expect character) (character :: rest) () rest :=
  reads_eat.bind reads_pure

theorem reads_takeWhile
    {property : Char → Bool}
    {taken : List Char}
    (all : ∀ character ∈ taken, property character = true)
    (stops : ∀ character ∈ rest.head?, property character = false) :
    Reads (takeWhile property) (taken ++ rest) taken rest := by
  have takes : (taken ++ rest).takeWhile property = taken := by
    rw [List.takeWhile_append_of_pos all]
    cases rest with
    | nil => simp
    | cons first others => simp [stops first rfl]
  have drops : (taken ++ rest).dropWhile property = rest := by
    rw [List.dropWhile_append_of_pos all]
    cases rest with
    | nil => simp
    | cons first others => simp [stops first rfl]
  intro position
  refine ⟨position + taken.length, ?_⟩
  show Except.ok ((taken ++ rest).takeWhile property, Cursor.mk
    ((taken ++ rest).dropWhile property) (position +
      ((taken ++ rest).takeWhile property).length)) = _
  rw [takes, drops]

/-! ## Places of faults -/

/-- The reader counts what it reads of a text that ends at the limit, and
reports its faults inside the text. -/
def Keeps (limit : Nat) (reader : Reader Value) : Prop :=
  ∀ cursor : Cursor, cursor.position + cursor.rest.length = limit →
    match StateT.run reader cursor with
    | .ok (_, after) => after.position + after.rest.length = limit
    | .error (place, _) => place ≤ limit

variable {limit : Nat}

theorem keeps_pure (value : Value) : Keeps limit (pure value) :=
  fun _ kept => kept

theorem Keeps.bind
    {reader : Reader Value}
    {next : Value → Reader Result}
    (first : Keeps limit reader)
    (second : ∀ value, Keeps limit (next value)) :
    Keeps limit (reader >>= next) := by
  intro cursor kept
  have keeps := first cursor kept
  rw [StateT.run_bind]
  cases run : StateT.run reader cursor with
  | error fault =>
      rw [run] at keeps
      exact keeps
  | ok given =>
      rw [run] at keeps
      exact second given.1 given.2 keeps

theorem keeps_failAt
    {place : Nat}
    (inside : place ≤ limit)
    (fault : PatternFault) :
    Keeps limit (failAt place fault : Reader Value) :=
  fun _ _ => inside

theorem keeps_position_bind
    {next : Nat → Reader Value}
    (continues : ∀ place ≤ limit, Keeps limit (next place)) :
    Keeps limit (position >>= next) :=
  fun cursor kept =>
    continues cursor.position (kept ▸ Nat.le_add_right _ _) cursor kept

theorem keeps_get_bind
    {next : Cursor → Reader Value}
    (continues : ∀ cursor : Cursor,
      cursor.position + cursor.rest.length = limit →
        Keeps limit (next cursor)) :
    Keeps limit (get >>= next) :=
  fun cursor kept => continues cursor kept cursor kept

theorem keeps_set
    {cursor : Cursor}
    (kept : cursor.position + cursor.rest.length = limit) :
    Keeps limit (set cursor) :=
  fun _ _ => kept

theorem keeps_fail (fault : PatternFault) :
    Keeps limit (fail fault : Reader Value) :=
  keeps_position_bind fun _ inside => keeps_failAt inside fault

theorem keeps_remaining : Keeps limit remaining := fun _ kept => kept

theorem keeps_peek : Keeps limit peek := fun _ kept => kept

theorem keeps_peekSecond : Keeps limit peekSecond := fun _ kept => kept

theorem keeps_next : Keeps limit next := by
  rintro ⟨_ | ⟨character, rest⟩, position⟩ kept
  · exact kept
  · exact (Nat.add_right_comm _ _ _).trans kept

theorem keeps_eat (character : Char) : Keeps limit (eat character) := by
  refine keeps_peek.bind fun seen => ?_
  split
  · exact keeps_next.bind fun _ => keeps_pure _
  · exact keeps_pure _

theorem keeps_expect (character : Char) : Keeps limit (expect character) := by
  refine (keeps_eat character).bind fun eaten => ?_
  split
  · exact keeps_pure _
  · exact keeps_fail _

theorem keeps_takeWhile (property : Char → Bool) :
    Keeps limit (takeWhile property) := by
  intro cursor kept
  show cursor.position + (cursor.rest.takeWhile property).length +
    (cursor.rest.dropWhile property).length = limit
  rw [Nat.add_assoc, ← List.length_append, List.takeWhile_append_dropWhile,
    kept]

/-! ## Tests -/

/-- The reader reads nothing and tells whether the text that comes next has a
property. -/
def Tests (reader : Reader Bool) (property : List Char → Prop) : Prop :=
  ∀ cursor, ∃ holds, StateT.run reader cursor = .ok (holds, cursor) ∧
    (holds = true ↔ property cursor.rest)

namespace Tests

variable {reader : Reader Bool} {property : List Char → Prop}

theorem gives_bind_cases
    {next : Bool → Reader Result}
    {result : Result}
    (tests : Tests reader property)
    (gives : Gives (reader >>= next) before result after) :
    property before.rest ∧ Gives (next true) before result after ∨
      ¬ property before.rest ∧ Gives (next false) before result after := by
  obtain ⟨told, between, tells, continues⟩ := gives_bind_iff.mp gives
  obtain ⟨holds, run, holds_iff⟩ := tests before
  cases run.symm.trans tells
  cases told with
  | false =>
      exact .inr ⟨fun has => Bool.false_ne_true (holds_iff.mpr has), continues⟩
  | true => exact .inl ⟨holds_iff.mp rfl, continues⟩

theorem reads
    (tests : Tests reader property)
    (has : property text) :
    Reads reader text true text := by
  intro position
  obtain ⟨holds, run, holds_iff⟩ := tests ⟨text, position⟩
  obtain rfl := holds_iff.mpr has
  exact ⟨position, run⟩

theorem reads_other
    (tests : Tests reader property)
    (lacks : ¬ property text) :
    Reads reader text false text := by
  intro position
  obtain ⟨holds, run, holds_iff⟩ := tests ⟨text, position⟩
  obtain rfl := Bool.eq_false_iff.mpr fun holds => lacks (holds_iff.mp holds)
  exact ⟨position, run⟩

theorem keeps (tests : Tests reader property) : Keeps limit reader := by
  intro cursor kept
  obtain ⟨holds, run, -⟩ := tests cursor
  rw [run]
  exact kept

end Tests

/-! ## Whole texts -/

variable {reader : Reader Value} {source : String}

theorem run_eq_ok_iff :
    reader.run source = .ok value ↔
      ∃ after, Gives reader ⟨source.toList, 0⟩ value after := by
  unfold Reader.run Gives
  split
  · next given after run => simp [run, eq_comm]
  · next place fault run => simp [run]

theorem position_le_of_run_error
    {error : PatternError}
    (keeps : Keeps source.length reader)
    (fails : reader.run source = .error error) :
    error.pattern = source ∧ error.position ≤ source.length := by
  have kept := keeps ⟨source.toList, 0⟩
    (by rw [Nat.zero_add, String.length_toList])
  unfold Reader.run at fails
  split at fails
  · cases fails
  · next place fault run =>
      cases fails
      rw [run] at kept
      exact ⟨rfl, kept⟩

end Reader
end ParserGenerator
