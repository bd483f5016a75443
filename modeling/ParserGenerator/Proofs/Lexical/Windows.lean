import Mathlib
import ParserGenerator.Lexical.Automaton
import ParserGenerator.Proofs.CharSet

/-!
# Matching on windows

A match that is found, or excluded, on a window of a longer input stays so
whatever follows the window. Only a walk that is still alive at the end of the
window depends on what comes next.
-/

namespace ParserGenerator
namespace Lexical

/-- One walk tells what the other tells, unless it asks for more input. -/
def Walk.Settles (early late : Walk) : Prop :=
  early ≠ .needMore → late = early

theorem Walk.Settles.refl (walk : Walk) : walk.Settles walk :=
  fun _ => rfl

theorem Walk.Settles.afterUnit
    {early late : Walk}
    (settles : early.Settles late)
    (here : Option (Option Nat × Nat)) :
    (early.afterUnit here).Settles (late.afterUnit here) := by
  intro known
  cases early with
  | needMore => exact absurd rfl known
  | stopped last => rw [settles (by simp)]

namespace State

theorem dispatch_eq_nowhere
    {state : State}
    (dead : state.isDeadEnd = true)
    (unit : Nat) :
    (state.dispatch unit).isNowhere = true := by
  simp only [isDeadEnd, Bool.and_eq_true, List.all_eq_true] at dead
  obtain ⟨⟨-, outside⟩, ranges⟩ := dead
  unfold dispatch
  split
  · next transition found => exact ranges transition (List.mem_of_find?_eq_some found)
  · exact outside

/-- Nothing leaves a dead end. -/
theorem next_eq_none
    [CharacterData]
    {state : State}
    (dead : state.isDeadEnd = true)
    (unit : CodeUnit) :
    state.next unit = none := by
  have nowhere := dispatch_eq_nowhere dead unit.toNat
  simp only [Dispatch.isNowhere, Bool.and_eq_true, List.isEmpty_iff,
    Option.isNone_iff_eq_none] at nowhere
  simp [next, Dispatch.target, nowhere.1, nowhere.2]

end State

namespace Automaton

/-- What comes next in a longer input: anything at the end of the window, and
the same unit with a walk that settles inside it. -/
inductive Ahead.Longer : Ahead → Ahead → Prop
  | atWindowEnd (later : Ahead) : Longer none later
  | inWindow
      (unit : CodeUnit)
      (early late : Bool → Nat → Walk)
      (settles : ∀ first number,
        (early first number).Settles (late first number)) :
      Longer (some (unit, early)) (some (unit, late))

variable [CharacterData]

theorem read_settles
    (state : State)
    (atEnd first : Bool)
    {early late : Ahead}
    (longer : early.Longer late) :
    (read state false first early).Settles (read state atEnd first late) := by
  intro known
  unfold read at known ⊢
  by_cases stops : (first && state.isFinal) = true
  · simp [stops]
  · rw [if_neg stops] at known ⊢
    rw [if_neg stops]
    cases longer with
    | atWindowEnd later =>
        cases dead : state.isDeadEnd with
        | false => simp [dead] at known
        | true =>
            cases late with
            | none => simp
            | some entry => simp [State.next_eq_none dead entry.1]
    | inWindow unit early late settles =>
        cases leads : state.next unit with
        | none => simp [leads]
        | some target =>
            simp only [leads] at known ⊢
            exact (settles first target).afterUnit _ known

/-- A walk from a place inside or at the end of a window settles the walk from
the same place in a longer input. -/
theorem walkHere_settles
    (automaton : Automaton)
    (atEnd : Bool)
    {early late : Ahead}
    (longer : early.Longer late)
    (fuel : Nat)
    (first : Bool)
    (number : Nat) :
    (automaton.walkHere false early fuel first number).Settles
      (automaton.walkHere atEnd late fuel first number) := by
  induction fuel generalizing first number with
  | zero => exact Walk.Settles.refl _
  | succ fuel inductionHypothesis =>
      intro known
      unfold walkHere at known ⊢
      cases branches : (automaton.state number).branch with
      | none =>
          simp only [branches] at known ⊢
          exact read_settles _ atEnd first longer known
      | some branch =>
          simp only [branches] at known ⊢
          have condition := inductionHypothesis true branch.condition
          cases answer : automaton.walkHere false early fuel true
              branch.condition with
          | needMore => simp [answer] at known
          | stopped last =>
              rw [condition (by simp [answer]), answer]
              cases last with
              | none =>
                  simp only [answer] at known ⊢
                  exact inductionHypothesis first branch.onFalse known
              | some _ =>
                  simp only [answer] at known ⊢
                  exact inductionHypothesis first branch.onTrue known

/-- A walk over a window settles the walk over every longer input. -/
theorem walk_settles
    (automaton : Automaton)
    (atEnd : Bool)
    (window rest : List CodeUnit)
    (first : Bool)
    (number : Nat) :
    (automaton.walk false window first number).Settles
      (automaton.walk atEnd (window ++ rest) first number) := by
  induction window generalizing first number with
  | nil =>
      cases rest with
      | nil =>
          exact automaton.walkHere_settles atEnd (.atWindowEnd _) _ first number
      | cons unit rest =>
          exact automaton.walkHere_settles atEnd (.atWindowEnd _) _ first number
  | cons unit window inductionHypothesis =>
      exact automaton.walkHere_settles atEnd
        (.inWindow unit _ _ inductionHypothesis) _ first number

/-- An answer on a window is the answer on every longer input. -/
theorem longestMatch_append
    (automaton : Automaton)
    (window rest : List CodeUnit)
    (atEnd : Bool)
    (known : automaton.longestMatch window false ≠ .needMore) :
    automaton.longestMatch (window ++ rest) atEnd =
      automaton.longestMatch window false := by
  have settles := automaton.walk_settles atEnd window rest false 0
  unfold longestMatch at known ⊢
  rw [settles]
  intro needMore
  simp [needMore] at known

end Automaton

/-! ## What a walk can tell -/

/-- A walk asks for more only if the input does not end, and goes no further
than the given number of units. -/
def Walk.Fits (atEnd : Bool) (limit : Nat) : Walk → Prop
  | .needMore => atEnd = false
  | .stopped none => True
  | .stopped (some (_, distance)) => distance ≤ limit

theorem Walk.fits_here
    (atEnd : Bool)
    (limit : Nat)
    (state : State) :
    (Walk.stopped
      (if state.isFinal then some (state.terminal, 0) else none)).Fits
        atEnd limit := by
  cases state.isFinal
  · exact trivial
  · exact Nat.zero_le limit

theorem Walk.Fits.afterUnit
    {atEnd : Bool}
    {limit : Nat}
    {walk : Walk}
    (fits : walk.Fits atEnd limit)
    {here : Option (Option Nat × Nat)}
    (hereFits : (Walk.stopped here).Fits atEnd (limit + 1)) :
    (walk.afterUnit here).Fits atEnd (limit + 1) := by
  match walk, fits with
  | .needMore, open_ => exact open_
  | .stopped none, _ => exact hereFits
  | .stopped (some (_, _)), near => exact Nat.succ_le_succ near

namespace Automaton

/-- The walks that follow the next unit fit into what is left after it. -/
def Ahead.Fits (atEnd : Bool) (limit : Nat) : Ahead → Prop
  | none => True
  | some (_, walk) => ∃ less, limit = less + 1 ∧
      ∀ first number, (walk first number).Fits atEnd less

variable [CharacterData]

theorem read_fits
    (state : State)
    (atEnd first : Bool)
    {limit : Nat}
    {ahead : Ahead}
    (fits : ahead.Fits atEnd limit) :
    (read state atEnd first ahead).Fits atEnd limit := by
  have here := Walk.fits_here atEnd limit state
  unfold read
  dsimp only
  generalize (if state.isFinal = true then some (state.terminal, 0) else none) =
    last at here ⊢
  split
  · exact here
  · match ahead, fits with
    | none, _ =>
        cases atEnd with
        | false =>
            cases dead : state.isDeadEnd
            · exact rfl
            · exact here
        | true => exact here
    | some (unit, walk), ⟨less, more, walkFits⟩ =>
        subst more
        dsimp only
        split
        · next target _ => exact (walkFits first target).afterUnit here
        · exact here

theorem walkHere_fits
    (automaton : Automaton)
    (atEnd : Bool)
    {limit : Nat}
    {ahead : Ahead}
    (fits : ahead.Fits atEnd limit)
    (fuel : Nat)
    (first : Bool)
    (number : Nat) :
    (automaton.walkHere atEnd ahead fuel first number).Fits atEnd limit := by
  induction fuel generalizing first number with
  | zero => exact trivial
  | succ fuel inductionHypothesis =>
      unfold walkHere
      dsimp only
      split
      · exact read_fits _ atEnd first fits
      · next branch _ =>
          have condition := inductionHypothesis true branch.condition
          split
          · next needMore => rwa [needMore] at condition
          · exact inductionHypothesis first branch.onTrue
          · exact inductionHypothesis first branch.onFalse

theorem walk_fits
    (automaton : Automaton)
    (atEnd : Bool)
    (input : List CodeUnit)
    (first : Bool)
    (number : Nat) :
    (automaton.walk atEnd input first number).Fits atEnd input.length := by
  induction input generalizing first number with
  | nil =>
      have fits : Ahead.Fits atEnd 0 none := trivial
      exact automaton.walkHere_fits atEnd fits _ first number
  | cons unit rest inductionHypothesis =>
      have fits : Ahead.Fits atEnd (rest.length + 1)
          (some (unit, automaton.walk atEnd rest)) :=
        ⟨rest.length, rfl, inductionHypothesis⟩
      exact automaton.walkHere_fits atEnd fits _ first number

/-- Where the input ends no more of it is asked for. -/
theorem longestMatch_atEnd_ne_needMore
    (automaton : Automaton)
    (input : List CodeUnit) :
    automaton.longestMatch input true ≠ .needMore := by
  have fits := automaton.walk_fits true input false 0
  unfold longestMatch
  split
  · next needMore =>
      rw [needMore] at fits
      exact Bool.noConfusion fits
  · simp
  · simp

/-- A match lies within the input. -/
theorem length_le_of_longestMatch
    {automaton : Automaton}
    {input : List CodeUnit}
    {atEnd : Bool}
    {terminal length : Nat}
    (found : automaton.longestMatch input atEnd = .found terminal length) :
    length ≤ input.length := by
  have fits := automaton.walk_fits atEnd input false 0
  unfold longestMatch at found
  split at found
  · exact Match.noConfusion found
  · next stopped =>
      rw [stopped] at fits
      injection found with _ same
      exact same ▸ fits
  · exact Match.noConfusion found

/-- On a window the automaton of some terminals answers for every longer input,
unless it asks for more, which it does not where the input ends. -/
theorem longestMatch_build_stable
    (terminals : List Terminal)
    (anyCase : Bool)
    (window rest : List CodeUnit)
    (atEnd : Bool) :
    ((build terminals anyCase).longestMatch window false ≠ .needMore →
      (build terminals anyCase).longestMatch (window ++ rest) atEnd =
        (build terminals anyCase).longestMatch window false) ∧
    (build terminals anyCase).longestMatch window true ≠ .needMore := by
  constructor
  · intro known
    exact longestMatch_append _ window rest atEnd known
  · exact longestMatch_atEnd_ne_needMore _ window

/-- An `a` before a `b`, and any number of `a`. -/
def runTerminals : List Terminal :=
  [⟨.concat [.text "a", .lookahead (.text "b") false], false⟩,
    ⟨.repeat (.text "a") .oneOrMore, false⟩]

omit [CharacterData] in
/-- After an `a` there may be another one or the `b` that the first terminal
asks for. Once that is known the answer is settled for good. -/
theorem longestMatch_build_stable_runs :
    ∃ automaton, automaton = @build .ascii runTerminals false ∧
      @longestMatch .ascii automaton [97] false = .needMore ∧
      @longestMatch .ascii automaton [97] true ≠ .needMore ∧
      @longestMatch .ascii automaton [97, 98] false = .found 0 1 ∧
      (∀ rest atEnd, @longestMatch .ascii automaton ([97, 98] ++ rest) atEnd =
        .found 0 1) ∧
      @longestMatch .ascii automaton [97, 97] false = .needMore ∧
      @longestMatch .ascii automaton [97, 97] true ≠ .needMore ∧
      @longestMatch .ascii automaton [97, 97, 98] false = .found 1 2 ∧
      ∀ rest atEnd, @longestMatch .ascii automaton ([97, 97, 98] ++ rest)
        atEnd = .found 1 2 := by
  have built : @build .ascii runTerminals false =
      ⟨#[⟨[⟨⟨97, 97⟩, ⟨[], some 1⟩⟩], .nowhere, false, none, none⟩,
        ⟨[], .nowhere, false, none, some ⟨2, 3, 4⟩⟩,
        ⟨[⟨⟨98, 98⟩, ⟨[], some 5⟩⟩], .nowhere, false, none, none⟩,
        ⟨[⟨⟨97, 97⟩, ⟨[], some 6⟩⟩], .nowhere, true, some 0, none⟩,
        ⟨[⟨⟨97, 97⟩, ⟨[], some 6⟩⟩], .nowhere, true, some 1, none⟩,
        ⟨[], .nowhere, true, none, none⟩,
        ⟨[⟨⟨97, 97⟩, ⟨[], some 6⟩⟩], .nowhere, true, some 1, none⟩], 2, 15⟩ := by
    cbv
  have single : @longestMatch .ascii (@build .ascii runTerminals false)
      [97] false = .needMore := by
    rw [built]
    decide +kernel
  have double : @longestMatch .ascii (@build .ascii runTerminals false)
      [97, 97] false = .needMore := by
    rw [built]
    decide +kernel
  have followed : @longestMatch .ascii (@build .ascii runTerminals false)
      [97, 98] false = .found 0 1 := by
    rw [built]
    decide +kernel
  have grown : @longestMatch .ascii (@build .ascii runTerminals false)
      [97, 97, 98] false = .found 1 2 := by
    rw [built]
    decide +kernel
  have stable := @longestMatch_build_stable .ascii runTerminals false
  refine ⟨_, rfl, single, (stable [97] [] true).2, followed, ?_, double,
    (stable [97, 97] [] true).2, grown, ?_⟩
  · intro rest atEnd
    have known := (stable [97, 98] rest atEnd).1
    rw [followed] at known
    exact known Match.noConfusion
  · intro rest atEnd
    have known := (stable [97, 97, 98] rest atEnd).1
    rw [grown] at known
    exact known Match.noConfusion

end Automaton
end Lexical
end ParserGenerator
