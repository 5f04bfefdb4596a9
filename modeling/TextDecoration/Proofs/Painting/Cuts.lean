import TextDecoration.Proofs.Painting.Bytes

/-!
# Painting loses nothing

Ranges may come in any order, overlap, be empty or inverted, or lie behind the text. Painting with
them still cuts the text into stretches that follow one another from its start to its end, and
writes each of them once: as it is, or wrapped in the style of one of the ranges, of which it is
then a part that is not empty. Whatever a range is, painting never moves back.

Which of the ranges decides over a character is not said here. It depends on their order.
-/

namespace TextDecoration

/-! ## Cuts -/

/-- A stretch of a text between two offsets, as it is painted. A cut may be empty if it is not
wrapped. -/
structure Cut where
  start : Nat
  stop : Nat
  /-- The range in whose style the stretch is wrapped; it is left as it is if there is none. -/
  wrappedIn : Option Range

namespace Cut

/-- The characters of the stretch, as far as the text goes. -/
def chars (cs : List Char) (cut : Cut) : List Char := slice cs cut.start cut.stop

/-- The stretch as it is written, with the escapes of its range's style around it. -/
def written (theme : Theme) (cs : List Char) (cut : Cut) : String :=
  let text := String.ofList (cut.chars cs)
  match cut.wrappedIn with
  | none => text
  | some range => (theme.styleFor range.tags.toList range.fallback).wrap text

/-- Whether cuts follow one another from one offset to another. -/
def Tile : (first : Nat) → List Cut → (last : Nat) → Prop
  | first, [], last => first = last
  | first, cut :: cuts, last => cut.start = first ∧ cut.start ≤ cut.stop ∧ Tile cut.stop cuts last

/-- Whether a cut that is wrapped in a range's style is part of that range, as far as the text goes,
and holds a character. -/
def Within (ranges : List Range) (length : Nat) (cut : Cut) : Prop :=
  ∀ range, cut.wrappedIn = some range → range ∈ ranges ∧ min range.start length ≤ cut.start ∧
    cut.start < cut.stop ∧ cut.stop ≤ min range.stop length

/-- Cuts that follow one another end behind where they begin, or there if all of them are empty. -/
theorem Tile.le {first last : Nat} {cuts : List Cut} (tile : Tile first cuts last) :
    first ≤ last := by
  induction cuts generalizing first with
  | nil => exact Nat.le_of_eq tile
  | cons cut cuts inductionHypothesis =>
    obtain ⟨begins, ordered, later⟩ := tile
    have further := inductionHypothesis later
    omega

/-- The characters of cuts that follow one another are those between the two offsets, none of them
twice. -/
theorem Tile.flatMap_chars {cs : List Char} {first last : Nat} {cuts : List Cut}
    (tile : Tile first cuts last) : cuts.flatMap (chars cs) = slice cs first last := by
  induction cuts generalizing first with
  | nil =>
    obtain rfl : first = last := tile
    rw [List.flatMap_nil, slice, Nat.sub_self, List.take_zero]
  | cons cut cuts inductionHypothesis =>
    obtain ⟨begins, ordered, later⟩ := tile
    rw [List.flatMap_cons, inductionHypothesis later, chars, begins]
    exact slice_append cs (begins ▸ ordered) later.le

/-- A range more, whatever it is, leaves cuts parts of the ranges that they are parts of. Only the
list of ranges has grown. -/
theorem Within.cons {ranges : List Range} {length : Nat} {cut : Cut}
    (within : cut.Within ranges length) (range : Range) : cut.Within (range :: ranges) length := by
  intro other wrapped
  obtain ⟨member, bounds⟩ := within other wrapped
  exact ⟨List.mem_cons_of_mem range member, bounds⟩

/-- The cut of a range's own part. It is left as it is if the range's style changes nothing. -/
def own (theme : Theme) (range : Range) (start stop : Nat) : Cut where
  start := start
  stop := stop
  wrappedIn :=
    if (theme.styleFor range.tags.toList range.fallback).isDefault then none else some range

/-- The cut of a range's own part is wrapped in no style but that range's, if it is wrapped at
all. -/
theorem own_wrappedIn {theme : Theme} {range other : Range} {start stop : Nat}
    (wrapped : (own theme range start stop).wrappedIn = some other) : range = other := by
  rw [own] at wrapped
  split at wrapped
  · cases wrapped
  · exact Option.some.inj wrapped

/-- What a range paints is written as its cut. A style that changes nothing has no escapes, so such
a cut is written as it is. -/
theorem written_own (theme : Theme) (cs : List Char) (range : Range) (start stop : Nat) :
    Segment.written ⟨theme.styleFor range.tags.toList range.fallback, slice cs start stop⟩ =
      (own theme range start stop).written theme cs := by
  rw [Segment.written, written, own]
  cases (theme.styleFor range.tags.toList range.fallback).isDefault <;> rfl

end Cut

/-- From an offset on, painting writes cuts that follow one another to the text's end. A range that
paints nothing adds no cut; any other one adds the stretch before its own part and that part, and
painting has reached the end of it. -/
theorem exists_cuts (theme : Theme) (cs : List Char) (ranges : List Range) {position : Nat}
    (inside : position ≤ cs.length) :
    ∃ cuts, Cut.Tile position cuts cs.length ∧
      (segmentsFrom theme cs position ranges).map Segment.written =
        cuts.map (Cut.written theme cs) ∧
      ∀ cut ∈ cuts, cut.Within ranges cs.length := by
  induction ranges generalizing position with
  | nil =>
    refine ⟨[⟨position, cs.length, none⟩], ⟨rfl, inside, rfl⟩, ?_, ?_⟩
    · rw [segmentsFrom, ← slice_eq_drop]
      rfl
    · intro cut among range wrapped
      cases List.mem_singleton.mp among
      cases wrapped
  | cons range ranges inductionHypothesis =>
    rw [segmentsFrom]
    split
    · obtain ⟨cuts, tile, written, within⟩ := inductionHypothesis inside
      exact ⟨cuts, tile, written, fun cut among => (within cut among).cons range⟩
    · next ahead =>
      generalize begins : max (min range.start cs.length) position = start at ahead ⊢
      generalize ends : min range.stop cs.length = stop at ahead ⊢
      -- Whatever the range is, its part begins where painting has come to, or behind that.
      have onward : position ≤ start := by omega
      have nonempty : start < stop := Nat.lt_of_not_le ahead
      have reached : stop ≤ cs.length := by omega
      obtain ⟨cuts, tile, written, within⟩ := inductionHypothesis reached
      refine ⟨⟨position, start, none⟩ :: Cut.own theme range start stop :: cuts, ?_, ?_, ?_⟩
      · exact ⟨rfl, onward, rfl, Nat.le_of_lt nonempty, tile⟩
      · rw [List.map_cons, List.map_cons, List.map_cons, List.map_cons, written, Cut.written_own]
        rfl
      · intro cut among
        rcases List.mem_cons.mp among with rfl | behind
        · intro other wrapped
          cases wrapped
        · rcases List.mem_cons.mp behind with rfl | later
          · intro other wrapped
            obtain rfl := Cut.own_wrappedIn wrapped
            exact ⟨List.mem_cons_self, begins ▸ Nat.le_max_left _ _, nonempty,
              Nat.le_of_eq ends.symm⟩
          · exact (within cut later).cons range

/-- Whatever the ranges are, a text falls into cuts from its start to its end that hold all of its
characters in order, each of them is written once, and those that are wrapped in a style are parts
of the range whose style it is and not empty. Painting by bytes writes the same: no slice that it
takes is out of order, out of the text or inside a character. -/
theorem paint_cuts (text : String) (ranges : List Range) (theme : Theme) :
    (∃ cuts, Cut.Tile 0 cuts text.length ∧ cuts.flatMap (Cut.chars text.toList) = text.toList ∧
      paint text ranges theme = String.join (cuts.map (Cut.written theme text.toList)) ∧
      ∀ cut ∈ cuts, cut.Within ranges text.length) ∧
    paintBytes? text ranges theme = some (paint text ranges theme) := by
  refine ⟨?_, paintBytes?_eq text ranges theme⟩
  obtain ⟨cuts, tile, written, within⟩ := exists_cuts theme text.toList ranges (Nat.zero_le _)
  refine ⟨cuts, tile, ?_, ?_, within⟩
  · rw [tile.flatMap_chars, slice_eq_drop, List.drop_zero]
  · rw [paint, segments, written]

end TextDecoration
