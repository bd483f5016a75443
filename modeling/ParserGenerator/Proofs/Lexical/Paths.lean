import Mathlib.Data.List.Forall2
import ParserGenerator.Proofs.Lexical.Matching
import ParserGenerator.Proofs.Lexical.Surrogates

/-!
# Paths through nondeterministic automata

A place is a node with the text ahead. Paths take one edge after the other; an
edge that tests a condition may be taken as an oracle says. A fragment
recognizes a relation between texts if its paths from the entry to the exit
are those that the relation allows, and if a path that leaves the fragment
does so through the exit. Fragments are put together as patterns are.
-/

namespace ParserGenerator
namespace Lexical

theorem exists_right_of_mem
    {α β : Type}
    {related : α → β → Prop}
    {lefts : List α}
    {rights : List β}
    {left : α}
    (each : List.Forall₂ related lefts rights)
    (member : left ∈ lefts) :
    ∃ right ∈ rights, related left right := by
  induction each with
  | nil => simp at member
  | cons isRelated _ inductionHypothesis =>
      rcases List.mem_cons.mp member with rfl | later
      · exact ⟨_, List.mem_cons_self, isRelated⟩
      · obtain ⟨right, isRight, found⟩ := inductionHypothesis later
        exact ⟨right, List.mem_cons_of_mem _ isRight, found⟩

theorem exists_left_of_mem
    {α β : Type}
    {related : α → β → Prop}
    {lefts : List α}
    {rights : List β}
    {right : β}
    (each : List.Forall₂ related lefts rights)
    (member : right ∈ rights) :
    ∃ left ∈ lefts, related left right :=
  exists_right_of_mem each.flip member

/-- A node with the text ahead. -/
abbrev Place := Nat × List CodeUnit

/-- What a fragment may do to the text ahead. -/
abbrev Language := List CodeUnit → List CodeUnit → Prop

variable [CharacterData]

/-- An edge leads to a place, where `holds` tells which conditions hold
where. -/
def Edge.Leads (holds : Nat → List CodeUnit → Prop) :
    Edge → List CodeUnit → Place → Prop
  | free target, before, next => next = (target, before)
  | units characters target, before, next =>
      ∃ unit rest, before = unit :: rest ∧
        characters.contains unit.toNat = true ∧ next = (target, rest)
  | test condition negated target, before, next =>
      (holds condition before ↔ negated = false) ∧ next = (target, before)

namespace Nfa

/-- One edge is taken. -/
def Step (nfa : Nfa) (holds : Nat → List CodeUnit → Prop)
    (first next : Place) : Prop :=
  ∃ edge ∈ (nfa.node first.1).edges, edge.Leads holds first.2 next

/-- The given number of edges is taken. -/
inductive Path (nfa : Nfa) (holds : Nat → List CodeUnit → Prop) :
    Nat → Place → Place → Prop
  | here {place : Place} : Path nfa holds 0 place place
  | step
      {length : Nat}
      {first next last : Place}
      (step : nfa.Step holds first next)
      (path : Path nfa holds length next last) :
      Path nfa holds (length + 1) first last

variable {nfa : Nfa} {holds : Nat → List CodeUnit → Prop}

theorem Path.trans
    {length more : Nat}
    {first middle last : Place}
    (path : nfa.Path holds length first middle)
    (tail : nfa.Path holds more middle last) :
    nfa.Path holds (length + more) first last := by
  induction path with
  | here =>
      rw [Nat.zero_add]
      exact tail
  | step step path inductionHypothesis =>
      rw [Nat.succ_add]
      exact .step step (inductionHypothesis tail)

/-- Some edges lead from one place to another. -/
def Reaches (nfa : Nfa) (holds : Nat → List CodeUnit → Prop)
    (first last : Place) : Prop :=
  ∃ length, nfa.Path holds length first last

namespace Reaches

variable {first middle last : Place}

theorem refl (place : Place) : nfa.Reaches holds place place := ⟨0, .here⟩

theorem single (step : nfa.Step holds first last) :
    nfa.Reaches holds first last :=
  ⟨1, .step step .here⟩

theorem trans
    (reaches : nfa.Reaches holds first middle)
    (onward : nfa.Reaches holds middle last) :
    nfa.Reaches holds first last := by
  obtain ⟨length, path⟩ := reaches
  obtain ⟨more, tail⟩ := onward
  exact ⟨length + more, path.trans tail⟩

end Reaches

/-- The node has the given edges and accepts nothing. -/
structure Inner (nfa : Nfa) (node : Nat) (edges : List Edge) : Prop where
  /-- The outgoing edges. -/
  edges : (nfa.node node).edges = edges
  /-- Nothing is accepted. -/
  accept : (nfa.node node).accept = none

/-- The paths through a fragment are those of a language. -/
structure Recognizes (nfa : Nfa) (holds : Nat → List CodeUnit → Prop)
    (language : Language) (entry exit : Nat) : Prop where
  /-- What the language allows has a path. -/
  complete : ∀ {before after}, language before after →
    nfa.Reaches holds (entry, before) (exit, after)
  /-- A path from the entry ends where nothing is accepted or goes through the
  exit after what the language allows. -/
  sound : ∀ {length before place},
    nfa.Path holds length (entry, before) place →
      (nfa.node place.1).accept = none ∨
        ∃ middle short, short ≤ length ∧ language before middle ∧
          nfa.Path holds short (exit, middle) place

theorem Inner.step_iff
    {node : Nat}
    {edges : List Edge}
    {before : List CodeUnit}
    {next : Place}
    (inner : nfa.Inner node edges) :
    nfa.Step holds (node, before) next ↔
      ∃ edge ∈ edges, edge.Leads holds before next := by
  rw [Step, inner.edges]

/-- A path from an inner node ends there or takes an edge. -/
theorem Inner.path_cases
    {node length : Nat}
    {edges : List Edge}
    {before : List CodeUnit}
    {place : Place}
    (inner : nfa.Inner node edges)
    (path : nfa.Path holds length (node, before) place) :
    (nfa.node place.1).accept = none ∨
      ∃ edge ∈ edges, ∃ next short, short < length ∧
        edge.Leads holds before next ∧ nfa.Path holds short next place := by
  cases path with
  | here => exact .inl inner.accept
  | step step path =>
      obtain ⟨edge, member, leads⟩ := inner.step_iff.mp step
      exact .inr ⟨edge, member, _, _, Nat.lt_succ_self _, leads, path⟩

namespace Recognizes

variable {language other : Language} {entry middle exit node target : Nat}

theorem congr
    (recognizes : nfa.Recognizes holds language entry exit)
    (same : ∀ before after, language before after ↔ other before after) :
    nfa.Recognizes holds other entry exit := by
  have equal : language = other := by
    funext before after
    exact propext (same before after)
  exact equal ▸ recognizes

theorem nothing (node : Nat) : nfa.Recognizes holds Eq node node where
  complete := by
    rintro before _ rfl
    exact .refl _
  sound := by
    intro length before place path
    exact .inr ⟨before, length, Nat.le_refl _, rfl, path⟩

theorem comp
    (first : nfa.Recognizes holds language entry middle)
    (second : nfa.Recognizes holds other middle exit) :
    nfa.Recognizes holds
      (fun before after => ∃ between, language before between ∧
        other between after)
      entry exit where
  complete := by
    rintro before after ⟨between, firstMatch, secondMatch⟩
    exact (first.complete firstMatch).trans (second.complete secondMatch)
  sound := by
    intro length before place path
    rcases first.sound path with
      noAccept | ⟨between, short, shortLe, firstMatch, onward⟩
    · exact .inl noAccept
    rcases second.sound onward with
      noAccept | ⟨after, shorter, shorterLe, secondMatch, outward⟩
    · exact .inl noAccept
    · exact .inr ⟨after, shorter, Nat.le_trans shorterLe shortLe,
        ⟨between, firstMatch, secondMatch⟩, outward⟩


/-- A node before the entry. -/
theorem enter
    (recognizes : nfa.Recognizes holds language entry exit)
    (inner : nfa.Inner node [.free entry]) :
    nfa.Recognizes holds language node exit where
  complete := by
    intro before after isMatch
    have step : nfa.Step holds (node, before) (entry, before) :=
      inner.step_iff.mpr ⟨.free entry, List.mem_singleton_self _, rfl⟩
    exact (Reaches.single step).trans (recognizes.complete isMatch)
  sound := by
    intro length before place path
    rcases inner.path_cases path with
      noAccept | ⟨edge, member, next, short, shorter, leads, onward⟩
    · exact .inl noAccept
    obtain rfl := List.mem_singleton.mp member
    obtain rfl : next = (entry, before) := leads
    refine (recognizes.sound onward).imp_right ?_
    rintro ⟨after, shortest, shortestLe, isMatch, outward⟩
    exact ⟨after, shortest, by omega, isMatch, outward⟩

/-- A node after the exit. -/
theorem leave
    (recognizes : nfa.Recognizes holds language entry exit)
    (inner : nfa.Inner exit [.free target]) :
    nfa.Recognizes holds language entry target := by
  refine (recognizes.comp ((nothing target).enter inner)).congr ?_
  intro before after
  exact ⟨fun ⟨_, isMatch, same⟩ => same ▸ isMatch,
    fun isMatch => ⟨after, isMatch, rfl⟩⟩

/-- A choice between entries, each with the language of its place. -/
theorem choose
    {edges : List Edge}
    {languages : List Language}
    (inner : nfa.Inner node edges)
    (branches : List.Forall₂ (fun edge language => ∃ entry,
      edge = .free entry ∧ nfa.Recognizes holds language entry exit)
      edges languages) :
    nfa.Recognizes holds
      (fun before after => ∃ language ∈ languages, language before after)
      node exit where
  complete := by
    rintro before after ⟨language, isLanguage, isMatch⟩
    obtain ⟨_, isEdge, entry, rfl, recognizes⟩ :=
      exists_left_of_mem branches isLanguage
    have step : nfa.Step holds (node, before) (entry, before) :=
      inner.step_iff.mpr ⟨.free entry, isEdge, rfl⟩
    exact (Reaches.single step).trans (recognizes.complete isMatch)
  sound := by
    intro length before place path
    rcases inner.path_cases path with
      noAccept | ⟨edge, isEdge, next, short, shorter, leads, onward⟩
    · exact .inl noAccept
    obtain ⟨language, isLanguage, entry, rfl, recognizes⟩ :=
      exists_right_of_mem branches isEdge
    obtain rfl : next = (entry, before) := leads
    refine (recognizes.sound onward).imp_right ?_
    rintro ⟨after, shortest, shortestLe, isMatch, outward⟩
    exact ⟨after, shortest, by omega, ⟨language, isLanguage, isMatch⟩, outward⟩

/-- A node from which the fragment may be passed by. -/
theorem skip
    (recognizes : nfa.Recognizes holds language entry exit)
    (inner : nfa.Inner node [.free entry, .free exit]) :
    nfa.Recognizes holds (Relation.ReflGen language) node exit := by
  have branches : List.Forall₂ (fun edge language => ∃ entry,
      edge = Edge.free entry ∧ nfa.Recognizes holds language entry exit)
      [.free entry, .free exit] [language, Eq] :=
    .cons ⟨entry, rfl, recognizes⟩ (.cons ⟨exit, rfl, nothing exit⟩ .nil)
  refine (choose inner branches).congr fun before after => ?_
  rw [Relation.reflGen_iff]
  simp [or_comm, eq_comm]

/-- A fragment whose exit leads back to its entry. -/
theorem loop
    (recognizes : nfa.Recognizes holds language entry exit)
    (inner : nfa.Inner exit [.free target, .free entry]) :
    nfa.Recognizes holds (Relation.TransGen language) entry target where
  complete := by
    intro before after isMatch
    have leaves (rest : List CodeUnit) :
        nfa.Reaches holds (exit, rest) (target, rest) :=
      .single (inner.step_iff.mpr ⟨.free target, by simp, rfl⟩)
    have returns (rest : List CodeUnit) :
        nfa.Reaches holds (exit, rest) (entry, rest) :=
      .single (inner.step_iff.mpr ⟨.free entry, by simp, rfl⟩)
    induction isMatch using Relation.TransGen.head_induction_on with
    | single isMatch => exact (recognizes.complete isMatch).trans (leaves _)
    | head isMatch _ inductionHypothesis =>
        exact (recognizes.complete isMatch).trans
          ((returns _).trans inductionHypothesis)
  sound := by
    intro length
    induction length using Nat.strongRecOn with
    | ind length inductionHypothesis =>
        intro before place path
        rcases recognizes.sound path with
          noAccept | ⟨middle, short, shortLe, isMatch, onward⟩
        · exact .inl noAccept
        rcases inner.path_cases onward with
          noAccept | ⟨edge, isEdge, next, shorter, isShorter, leads, outward⟩
        · exact .inl noAccept
        simp only [List.mem_cons, List.not_mem_nil, or_false] at isEdge
        rcases isEdge with rfl | rfl
        · obtain rfl : next = (target, middle) := leads
          exact .inr ⟨middle, shorter, by omega, .single isMatch, outward⟩
        · obtain rfl : next = (entry, middle) := leads
          refine (inductionHypothesis shorter (by omega) outward).imp_right ?_
          rintro ⟨after, shortest, shortestLe, matches_, final⟩
          exact ⟨after, shortest, by omega, .head isMatch matches_, final⟩

/-- A condition to be met. -/
theorem test
    {condition : Nat}
    {negated : Bool}
    (inner : nfa.Inner node [.test condition negated exit]) :
    nfa.Recognizes holds
      (fun before after => before = after ∧
        (holds condition before ↔ negated = false))
      node exit where
  complete := by
    rintro before _ ⟨rfl, answer⟩
    refine .single (inner.step_iff.mpr ⟨_, List.mem_singleton_self _, ?_⟩)
    exact ⟨answer, rfl⟩
  sound := by
    intro length before place path
    rcases inner.path_cases path with
      noAccept | ⟨edge, member, next, short, shorter, leads, onward⟩
    · exact .inl noAccept
    obtain rfl := List.mem_singleton.mp member
    obtain ⟨answer, rfl⟩ := leads
    exact .inr ⟨before, short, Nat.le_of_lt shorter, ⟨rfl, answer⟩, onward⟩

/-- A character, by one unit or by a high and a low surrogate. -/
theorem character
    {units : CharSet}
    {pairEdges : List Edge}
    {runs : List (CodeRange × RangeList)}
    (inner : nfa.Inner node
      ((if units.isEmpty then [] else [.units units exit]) ++ pairEdges))
    (pairs : List.Forall₂ (fun edge run => ∃ middle,
      edge = .units (CharSet.ofRanges ⟨[run.1]⟩) middle ∧
        nfa.Inner middle [.units (CharSet.ofRanges run.2) exit])
      pairEdges runs) :
    nfa.Recognizes holds
      (fun before after =>
        (∃ unit, before = unit :: after ∧ units.contains unit.toNat = true) ∨
          ∃ high low, before = high :: low :: after ∧
            Pairs runs high.toNat low.toNat)
      node exit where
  complete := by
    rintro before after (⟨unit, rfl, member⟩ | ⟨high, low, rfl, isPair⟩)
    · have nonempty : ¬ units.isEmpty = true := by
        intro isEmpty
        simp [CharSet.contains_of_isEmpty isEmpty] at member
      refine .single (inner.step_iff.mpr ⟨.units units exit, ?_, ?_⟩)
      · simp [nonempty]
      · exact ⟨unit, after, rfl, member, rfl⟩
    · obtain ⟨run, isRun, inRange, inLows⟩ := isPair
      obtain ⟨_, isEdge, middle, rfl, innerMiddle⟩ :=
        exists_left_of_mem pairs isRun
      have first : nfa.Step holds (node, high :: low :: after)
          (middle, low :: after) := by
        refine inner.step_iff.mpr ⟨_, List.mem_append_right _ isEdge, ?_⟩
        refine ⟨high, low :: after, rfl, ?_, rfl⟩
        rw [CharSet.contains_ofRanges, RangeList.contains_iff]
        simpa using inRange
      have second : nfa.Step holds (middle, low :: after) (exit, after) := by
        refine innerMiddle.step_iff.mpr ⟨_, List.mem_singleton_self _, ?_⟩
        refine ⟨low, after, rfl, ?_, rfl⟩
        rw [CharSet.contains_ofRanges]
        exact inLows
      exact (Reaches.single first).trans (.single second)
  sound := by
    intro length before place path
    rcases inner.path_cases path with
      noAccept | ⟨edge, isEdge, next, short, shorter, leads, onward⟩
    · exact .inl noAccept
    rcases List.mem_append.mp isEdge with direct | paired
    · have isUnits : edge = .units units exit := by
        split at direct
        · simp at direct
        · exact List.mem_singleton.mp direct
      subst isUnits
      obtain ⟨unit, rest, rfl, member, rfl⟩ := leads
      exact .inr ⟨rest, short, Nat.le_of_lt shorter, .inl ⟨unit, rfl, member⟩,
        onward⟩
    · obtain ⟨run, isRun, middle, rfl, innerMiddle⟩ :=
        exists_right_of_mem pairs paired
      obtain ⟨high, rest, rfl, isHigh, rfl⟩ := leads
      rcases innerMiddle.path_cases onward with
        noAccept | ⟨_, isEdge, next, shortest, isShortest, leads, outward⟩
      · exact .inl noAccept
      obtain rfl := List.mem_singleton.mp isEdge
      obtain ⟨low, rest, rfl, isLow, rfl⟩ := leads
      rw [CharSet.contains_ofRanges, RangeList.contains_iff] at isHigh
      rw [CharSet.contains_ofRanges] at isLow
      refine .inr ⟨rest, shortest, by omega, .inr ⟨high, low, rfl, ?_⟩, outward⟩
      exact ⟨run, isRun, by simpa using isHigh, isLow⟩

end Recognizes
end Nfa

/-! ## Characters as units -/

omit [CharacterData] in
theorem toNat_toUInt16
    {number : Nat}
    (bound : number < supplementaryFirst) :
    number.toUInt16.toNat = number :=
  UInt16.toNat_ofNat_of_lt' bound

omit [CharacterData] in
theorem encodePoint_toNat (unit : CodeUnit) :
    Text.encodePoint unit.toNat = [unit] := by
  have isUnit : unit.toNat < supplementaryFirst := unit.toNat_lt
  rw [Text.encodePoint, if_pos isUnit]
  simp

omit [CharacterData] in
theorem encodePoint_supplementary
    {point : Nat}
    {high low : CodeUnit}
    (above : supplementaryFirst ≤ point)
    (isHigh : highSurrogate point = high.toNat)
    (isLow : lowSurrogate point = low.toNat) :
    Text.encodePoint point = [high, low] := by
  rw [Text.encodePoint, if_neg (Nat.not_lt.mpr above), isHigh, isLow]
  simp

/-- The pairs of the supplementary part stand for its members. -/
theorem pairs_supplementary
    {set : CharSet}
    {high low : Nat}
    (normal : set.Normal) :
    Pairs (surrogatePairs set.supplementary) high low ↔
      ∃ point, (set.contains point = true ∧ supplementaryFirst ≤ point ∧
        point ≤ maxCodePoint) ∧
          highSurrogate point = high ∧ lowSurrogate point = low := by
  have normalPart := CharSet.normal_supplementary normal
  have above : ∀ range ∈ set.supplementary.ranges,
      supplementaryFirst ≤ range.first := by
    intro range member
    have inPart : set.supplementary.contains range.first = true :=
      RangeList.contains_iff.mpr
        ⟨range, member, Nat.le_refl _, normalPart.nonempty range member⟩
    exact ((CharSet.contains_supplementary normal).mp inPart).2.1
  simp only [pairs_surrogatePairs normalPart above,
    CharSet.contains_supplementary normal]

/-- The units of a set and the pairs of its supplementary part are those of
its characters. -/
theorem reads_iff
    {set : CharSet}
    {before after : List CodeUnit}
    (apart : CharacterData.SurrogatesApart)
    (normal : set.Normal) :
    ((∃ unit, before = unit :: after ∧
        set.toUnits.contains unit.toNat = true) ∨
      ∃ high low, before = high :: low :: after ∧
        Pairs (surrogatePairs set.supplementary) high.toNat low.toNat) ↔
      set.Reads before after := by
  constructor
  · rintro (⟨unit, rfl, member⟩ | ⟨high, low, rfl, isPair⟩)
    · have isUnit : unit.toNat < supplementaryFirst := unit.toNat_lt
      rw [CharSet.contains_toUnits apart normal isUnit, Bool.and_eq_true,
        Bool.not_eq_true'] at member
      have known : unit.toNat ≤ maxCodePoint :=
        Nat.le_trans (Nat.le_of_lt isUnit) (by decide)
      exact ⟨unit.toNat, ⟨known, member.1⟩, member.2,
        by rw [encodePoint_toNat, List.singleton_append]⟩
    · obtain ⟨point, ⟨member, above, known⟩, isHigh, isLow⟩ :=
        (pairs_supplementary normal).mp isPair
      refine ⟨point, ⟨known, ?_⟩, member, ?_⟩
      · rw [isSurrogate, Bool.and_eq_false_iff]
        refine .inr (decide_eq_false (Nat.not_le.mpr ?_))
        exact Nat.lt_of_lt_of_le (by decide) above
      · rw [encodePoint_supplementary above isHigh isLow]
        rfl
  · rintro ⟨point, ⟨known, isScalar⟩, member, rfl⟩
    have known' : point ≤ 0x10FFFF := known
    by_cases isUnit : point < supplementaryFirst
    · refine .inl ⟨point.toUInt16, by rw [Text.encodePoint, if_pos isUnit]; rfl,
        ?_⟩
      rw [toNat_toUInt16 isUnit, CharSet.contains_toUnits apart normal isUnit,
        isScalar, member]
      rfl
    · have above : supplementaryFirst ≤ point := Nat.not_lt.mp isUnit
      have highBound : highSurrogate point < supplementaryFirst := by
        rw [highSurrogate_eq, supplementaryFirst]
        omega
      have lowBound : lowSurrogate point < supplementaryFirst := by
        rw [lowSurrogate_eq, supplementaryFirst]
        omega
      refine .inr ⟨(highSurrogate point).toUInt16, (lowSurrogate point).toUInt16,
        by rw [Text.encodePoint, if_neg isUnit]; rfl, ?_⟩
      refine (pairs_supplementary normal).mpr
        ⟨point, ⟨member, above, known⟩, ?_, ?_⟩
      · exact (toNat_toUInt16 highBound).symm
      · exact (toNat_toUInt16 lowBound).symm

end Lexical
end ParserGenerator
