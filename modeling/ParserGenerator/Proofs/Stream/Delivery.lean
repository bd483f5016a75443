import ParserGenerator.Stream.Window

/-!
# Delivery through a window

A source delivers a text if each read hands out a piece of what is left, an
empty piece only when nothing is left. A window never loses what it received:
making room keeps the pending units and their offset, and a refill appends the
next piece or notes the end.
-/

namespace ParserGenerator
namespace Stream

/-- Every read of at least one unit hands out a piece of the units that are
left, which is empty only if there are none. -/
def Delivers {Supply : Type} [Source Supply] (supply : Supply)
    (units : List CodeUnit) : Prop :=
  ∃ holds : Supply → List CodeUnit → Prop,
    holds supply units ∧
      ∀ supply units room, holds supply units → 0 < room →
        ∃ piece rest next,
          Source.read room supply = (.ok piece, next) ∧
            units = piece ++ rest ∧
            piece.length ≤ room ∧
            (piece = [] → units = []) ∧
            holds next rest

theorem Delivers.read
    {Supply : Type}
    [Source Supply]
    {supply : Supply}
    {units : List CodeUnit}
    {room : Nat}
    (delivers : Delivers supply units)
    (positive : 0 < room) :
    ∃ piece rest next,
      Source.read room supply = (.ok piece, next) ∧
        units = piece ++ rest ∧
        piece.length ≤ room ∧
        (piece = [] → units = []) ∧
        Delivers next rest := by
  obtain ⟨holds, now, step⟩ := delivers
  obtain ⟨piece, rest, next, reads, split, fits, last, later⟩ :=
    step supply units room now positive
  exact ⟨piece, rest, next, reads, split, fits, last, holds, later, step⟩

/-- Units that are all there are delivered. -/
theorem InMemory.delivers (units : List CodeUnit) :
    Delivers (InMemory.mk units) units := by
  refine ⟨fun supply units => supply = ⟨units⟩, rfl, ?_⟩
  rintro _ units room rfl positive
  refine ⟨units.take room, units.drop room, ⟨units.drop room⟩, rfl, ?_, ?_, ?_,
    rfl⟩
  · exact (List.take_append_drop room units).symm
  · exact List.length_take_le room units
  · intro nothing
    cases units with
    | nil => rfl
    | cons unit rest =>
        rw [List.take_eq_nil_iff] at nothing
        rcases nothing with none | none
        · omega
        · exact none

namespace Window

/-- The units in a window fit into it, and it has room for at least one. -/
structure Sound (window : Window) : Prop where
  fits : window.occupied ≤ window.capacity
  positive : 0 < window.capacity

theorem sound_ofCapacity (capacity : Nat) : (ofCapacity capacity).Sound := by
  constructor
  · show 0 + 0 ≤ max capacity 1
    omega
  · show 0 < max capacity 1
    omega

theorem sound_ofUnits (units : List CodeUnit) : (ofUnits units).Sound := by
  constructor
  · show 0 + units.length ≤ max units.length 1
    omega
  · show 0 < max units.length 1
    omega

theorem Sound.consume
    {window : Window}
    (sound : window.Sound)
    {count : Nat}
    (available : count ≤ window.pending.length) :
    (window.consume count).Sound := by
  obtain ⟨fits, positive⟩ := sound
  refine ⟨?_, positive⟩
  simp only [Window.consume, occupied, List.length_drop] at fits ⊢
  omega

@[simp] theorem pending_shift (window : Window) :
    window.shift.pending = window.pending := by
  unfold shift
  split <;> rfl

@[simp] theorem atEnd_shift (window : Window) :
    window.shift.atEnd = window.atEnd := by
  unfold shift
  split <;> rfl

@[simp] theorem capacity_shift (window : Window) :
    window.shift.capacity = window.capacity := by
  unfold shift
  split <;> rfl

@[simp] theorem consumed_shift (window : Window) :
    window.shift.consumed = 0 := by
  unfold shift
  split
  · assumption
  · rfl

@[simp] theorem position_shift (window : Window) :
    window.shift.position = window.position := by
  unfold shift
  split <;> rfl

@[simp] theorem pending_grow (window : Window) :
    window.grow.pending = window.pending := by
  unfold grow
  split <;> rfl

@[simp] theorem atEnd_grow (window : Window) :
    window.grow.atEnd = window.atEnd := by
  unfold grow
  split <;> rfl

@[simp] theorem occupied_grow (window : Window) :
    window.grow.occupied = window.occupied := by
  unfold grow
  split <;> rfl

@[simp] theorem position_grow (window : Window) :
    window.grow.position = window.position := by
  unfold grow
  split <;> rfl

@[simp] theorem pending_prepare (window : Window) :
    window.prepare.pending = window.pending := by
  unfold prepare
  split <;> simp

@[simp] theorem atEnd_prepare (window : Window) :
    window.prepare.atEnd = window.atEnd := by
  unfold prepare
  split <;> simp

@[simp] theorem position_prepare (window : Window) :
    window.prepare.position = window.position := by
  unfold prepare
  split <;> simp

@[simp] theorem position_consume (window : Window) (count : Nat) :
    (window.consume count).position = window.position + count := by
  simp [consume, position, Nat.add_assoc]

@[simp] theorem position_accept (window : Window) (units : List CodeUnit) :
    (window.accept units).position = window.position := by
  unfold accept
  split <;> rfl

/-- After making room there is room for at least one unit. -/
theorem Sound.room_prepare
    {window : Window}
    (sound : window.Sound) :
    0 < window.prepare.room := by
  obtain ⟨fits, positive⟩ := sound
  unfold room prepare
  split
  · rw [occupied_grow]
    unfold grow
    split
    · next tight =>
        simp only [capacity_shift, occupied, consumed_shift, pending_shift] at *
        omega
    · next loose =>
        simp only [capacity_shift, occupied, consumed_shift, pending_shift] at *
        omega
  · omega

theorem Sound.prepare
    {window : Window}
    (sound : window.Sound) :
    window.prepare.Sound := by
  have room := sound.room_prepare
  unfold Window.room at room
  exact ⟨by omega, by omega⟩

theorem Sound.accept
    {window : Window}
    (sound : window.Sound)
    {units : List CodeUnit}
    (fits : units.length ≤ window.room) :
    (window.accept units).Sound := by
  obtain ⟨before, positive⟩ := sound
  unfold Window.accept
  split
  · exact ⟨before, positive⟩
  · refine ⟨?_, positive⟩
    simp only [room, occupied, List.length_append] at *
    omega

/-- A refill from a source that delivers appends the next piece, or notes the
end if there is none. -/
theorem fill_of_delivers
    {Supply : Type}
    [Source Supply]
    {window : Window}
    {supply : Supply}
    {rest : List CodeUnit}
    (sound : window.Sound)
    (delivers : Delivers supply rest) :
    ∃ piece later next,
      window.fill supply =
          (.ok piece.length, window.prepare.accept piece, next) ∧
        rest = piece ++ later ∧
        (piece = [] → rest = []) ∧
        (window.prepare.accept piece).Sound ∧
        Delivers next later := by
  obtain ⟨piece, later, next, reads, split, fits, last, laterDelivers⟩ :=
    delivers.read sound.room_prepare
  refine ⟨piece, later, next, ?_, split, last, sound.prepare.accept fits,
    laterDelivers⟩
  simp [fill, reads]

theorem position_fill
    {Supply : Type}
    [Source Supply]
    (window : Window)
    (supply : Supply) :
    (window.fill supply).2.1.position = window.position := by
  unfold fill
  dsimp only
  split <;> simp

/-- Once the end of a stream is found it stays found. -/
theorem atEnd_fill
    {Supply : Type}
    [Source Supply]
    {window : Window}
    (ended : window.atEnd = true)
    (supply : Supply) :
    (window.fill supply).2.1.atEnd = true := by
  unfold fill
  dsimp only
  split
  · unfold accept
    split
    · rfl
    · simpa using ended
  · simpa using ended

/-- A window ends only where nothing is left of the text. -/
theorem eq_nil_of_atEnd_accept
    {window : Window}
    {piece rest : List CodeUnit}
    (ended : window.atEnd = true → piece ++ rest = [])
    (last : piece = [] → piece ++ rest = [])
    (nextEnded : (window.accept piece).atEnd = true) :
    rest = [] := by
  cases piece with
  | nil => exact last rfl
  | cons unit piece => simpa using ended nextEnded

end Window
end Stream
end ParserGenerator
