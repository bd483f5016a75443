import ParserGenerator.Proofs.Stream.Lines

/-!
# Histories of line counters

However a text is cut into the pieces that a counter is shown, and whatever
lines it is told to forget in between, it tells the places of the text it has
seen or none. It tells those of all offsets that it was not told to forget,
except perhaps that of a line feed after a carriage return: the line that the
carriage return seemed to start was then all that was kept, and starts behind
the line feed instead.
-/

namespace ParserGenerator
namespace Stream

variable {text : List CodeUnit} {unit : CodeUnit} {offset : Nat}

/-! ## One more unit -/

theorem SplitsReturn.append
    (splits : SplitsReturn text offset)
    (units : List CodeUnit) :
    SplitsReturn (text ++ units) offset := by
  obtain ⟨positive, atReturn, atFeed⟩ := splits
  have inside := (List.getElem?_eq_some_iff.mp atFeed).1
  refine ⟨positive, ?_, ?_⟩
  · rw [List.getElem?_append_left (by omega), atReturn]
  · rw [List.getElem?_append_left inside, atFeed]

/-- One more unit takes no line from an offset, unless the offset is that of a
line feed whose carriage return it comes after. -/
theorem length_lineStarts_le_concat
    (whole : ¬SplitsReturn (text ++ [unit]) offset) :
    (lineStarts text offset).length ≤
      (lineStarts (text ++ [unit]) offset).length := by
  by_cases inside : offset < text.length
  · refine Nat.le_of_eq (congrArg List.length (Eq.symm ?_))
    exact lineStarts_congr fun index early =>
      List.getElem?_append_left (Nat.lt_of_le_of_lt early inside)
  have beyond := Nat.not_lt.mp inside
  rw [lineStarts_of_length_le beyond]
  by_cases feeds : text.getLast? = some carriageReturn ∧ unit = lineFeed
  · obtain ⟨atReturn, rfl⟩ := feeds
    have positive : 0 < text.length := by
      refine List.length_pos_iff.mpr ?_
      rintro rfl
      cases atReturn
    have further : text.length + 1 ≤ offset := by
      refine Nat.lt_of_le_of_ne beyond fun atFeed => whole ?_
      subst atFeed
      refine ⟨positive, ?_, by simp⟩
      rw [List.getElem?_append_left (by omega), ← List.getLast?_eq_getElem?,
        atReturn]
    -- The line that started at the line feed now starts behind it.
    have moved : (lineStarts text text.length).length =
        (lineStarts (text ++ [lineFeed]) (text.length + 1)).length := by
      rw [lineStarts_concat_lineFeed atReturn, lineStarts_succ, endsLine_concat,
        if_pos (by decide), List.length_append, List.length_append]
      rfl
    rw [moved]
    exact length_lineStarts_mono _ further
  · rw [← lineStarts_concat feeds]
    exact length_lineStarts_mono _ beyond

/-! ## What a counter remembers -/

namespace LineCounter

variable {counter : LineCounter} {discards : List Nat}

/-- A counter knows the lines of the text it has seen, and keeps those of the
offsets from all discards on. -/
structure Remembers (counter : LineCounter) (text : List CodeUnit)
    (discards : List Nat) : Prop where
  follows : counter.Follows text text.length
  keeps : ∀ offset, (∀ discarded ∈ discards, discarded ≤ offset) →
    ¬SplitsReturn text offset →
      counter.dropped < (lineStarts text offset).length

namespace Remembers

theorem start : LineCounter.start.Remembers [] [] :=
  ⟨.start, fun offset _ _ =>
    List.length_pos_iff.mpr (lineStarts_ne_nil [] offset)⟩

theorem observeUnit
    (remembers : counter.Remembers text discards)
    (unit : CodeUnit) :
    (counter.observeUnit text.length unit).Remembers (text ++ [unit])
      discards := by
  have sameDropped :
      (counter.observeUnit text.length unit).dropped = counter.dropped := by
    unfold LineCounter.observeUnit
    split
    · rfl
    · split <;> rfl
  have keeps : ∀ offset, (∀ discarded ∈ discards, discarded ≤ offset) →
      ¬SplitsReturn (text ++ [unit]) offset →
        counter.dropped < (lineStarts (text ++ [unit]) offset).length := by
    intro offset after whole
    exact Nat.lt_of_lt_of_le
      (remembers.keeps offset after fun splits => whole (splits.append _))
      (length_lineStarts_le_concat whole)
  have inside := remembers.follows.keeps
  refine ⟨remembers.follows.observeUnit ?_, sameDropped ▸ keeps⟩
  -- Behind the last unit no line feed follows.
  refine Nat.lt_of_lt_of_le inside ?_
  have longer : text.length ≤ (text ++ [unit]).length := by simp
  rw [← lineStarts_of_length_le longer]
  refine length_lineStarts_le_concat fun ⟨_, _, atFeed⟩ => ?_
  rw [List.getElem?_eq_none (Nat.le_refl _)] at atFeed
  cases atFeed

theorem observe
    (remembers : counter.Remembers text discards)
    (units : List CodeUnit) :
    (counter.observe text.length units).Remembers (text ++ units)
      discards := by
  induction units generalizing text counter with
  | nil => rwa [List.append_nil]
  | cons unit rest inductionHypothesis =>
      have further := inductionHypothesis (remembers.observeUnit unit)
      rwa [List.length_append, List.append_assoc] at further

theorem discardBefore
    (remembers : counter.Remembers text discards)
    (within : offset ≤ text.length) :
    (counter.discardBefore offset).Remembers text (offset :: discards) := by
  have follows := remembers.follows.discardBefore offset
  rw [Nat.max_eq_left within] at follows
  refine ⟨follows, fun later after whole => ?_⟩
  obtain ⟨afterOffset, afterDiscards⟩ := List.forall_mem_cons.mp after
  have before := remembers.keeps later afterDiscards whole
  have nonempty := List.length_pos_iff.mpr (lineStarts_ne_nil text offset)
  have mono := length_lineStarts_mono text afterOffset
  rw [remembers.follows.dropped_discardBefore]
  omega

end Remembers

/-! ## Any history -/

/-- A counter that was shown a text, piece after piece, and was told in between
to discard what lies before some offsets of what it had been shown. -/
inductive Shown : LineCounter → List CodeUnit → List Nat → Prop
  | start : Shown .start [] []
  | observe
      {counter : LineCounter}
      {text : List CodeUnit}
      {discards : List Nat}
      (shown : Shown counter text discards)
      (units : List CodeUnit) :
      Shown (counter.observe text.length units) (text ++ units) discards
  | discard
      {counter : LineCounter}
      {text : List CodeUnit}
      {discards : List Nat}
      {offset : Nat}
      (shown : Shown counter text discards)
      (within : offset ≤ text.length) :
      Shown (counter.discardBefore offset) text (offset :: discards)

theorem Shown.remembers
    (shown : Shown counter text discards) :
    counter.Remembers text discards := by
  induction shown with
  | start => exact .start
  | observe _ units inductionHypothesis =>
      exact inductionHypothesis.observe units
  | discard _ within inductionHypothesis =>
      exact inductionHypothesis.discardBefore within

/-- Whatever its history, a counter tells the places of the text it has seen as
one does that was shown the text at once, or none; and none only of an offset
before a discard or at a line feed after a carriage return. Its starts stay in
order, and there always is one. -/
theorem location_of_shown
    (shown : Shown counter text discards) :
    (∀ offset, counter.location offset = none ∨
      counter.location offset = some (placeOf text offset)) ∧
    (∀ offset, (∀ discarded ∈ discards, discarded ≤ offset) →
      counter.location offset ≠ none ∨ SplitsReturn text offset) ∧
    (∀ offset, (LineCounter.start.observe 0 text).location offset =
      some (placeOf text offset)) ∧
    counter.starts ≠ [] ∧ counter.starts.reverse.Pairwise (· < ·) := by
  have remembers := shown.remembers
  refine ⟨fun offset => ?_, fun offset after => ?_, fun offset => ?_,
    List.cons_ne_nil _ _, remembers.follows.ascending⟩
  · rw [remembers.follows.location_eq_ite]
    split
    · exact .inr rfl
    · exact .inl rfl
  · by_cases splits : SplitsReturn text offset
    · exact .inr splits
    · rw [remembers.follows.location_eq_ite,
        if_pos (remembers.keeps offset after splits)]
      exact .inl (Option.some_ne_none _)
  · have follows := Follows.start.observe (.inl rfl) text
    exact follows.location_eq (Nat.zero_le offset)

/-- A carriage return and the line feed after it come in two pieces, and what
comes before the line feed is discarded between them. -/
theorem location_of_shown_splitReturn :
    Shown (((start.observe 0 [97, 13]).discardBefore 2).observe 2 [10, 98])
        [97, 13, 10, 98] [2] ∧
      (((start.observe 0 [97, 13]).discardBefore 2).observe 2
        [10, 98]).location 3 = some ⟨2, 1⟩ ∧
      (((start.observe 0 [97, 13]).discardBefore 2).observe 2
        [10, 98]).location 2 = none := by
  have shown : Shown
      (((start.observe 0 [97, 13]).discardBefore 2).observe 2 [10, 98])
      [97, 13, 10, 98] [2] :=
    ((Shown.start.observe [97, 13]).discard (show 2 ≤ _ by decide)).observe
      [10, 98]
  obtain ⟨places, kept, -⟩ := location_of_shown shown
  refine ⟨shown, ?_, by cbv⟩
  have isKept := (kept 3 (by decide)).resolve_right (by decide)
  rw [(places 3).resolve_left isKept]
  decide

end LineCounter

end Stream
end ParserGenerator
