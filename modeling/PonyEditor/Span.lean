import PonyEditor.Offset

/-!
# Spans

A span is a half-open range of offsets.  Nothing forces its ends into order: a span whose end is
not past its start is empty, and behaves as the point at its start.
-/

namespace PonyEditor

/-- The offsets from `start` up to, and not including, `stop`. -/
structure Span where
  start : Nat
  stop : Nat
  deriving DecidableEq, Repr, Inhabited, Ord

namespace Span

/-- The span of `length` bytes from `start`. -/
def ofLength (start length : Nat) : Span := ⟨start, Offset.add start length⟩

/-- The empty span at `offset`. -/
def point (offset : Nat) : Span := ⟨offset, offset⟩

/-- The number of bytes in the span; an inverted span has none. -/
def length (s : Span) : Nat := s.stop - s.start

/-- Whether the span has no bytes. -/
def isEmpty (s : Span) : Bool := s.stop ≤ s.start

/-- Whether `offset` is one of the span's bytes. -/
def contains (s : Span) (offset : Nat) : Bool := s.start ≤ offset && offset < s.stop

/-- Whether two spans share a byte; an empty span stands for the byte at its start. -/
def intersects (s t : Span) : Bool :=
  if s.isEmpty then t.contains s.start
  else if t.isEmpty then s.contains t.start
  else s.start < t.stop && t.start < s.stop

/-- The least span around both. -/
def merge (s t : Span) : Span := ⟨min s.start t.start, max s.stop t.stop⟩

instance : ToString Span where
  toString s := toString s.start ++ ".." ++ toString s.stop

theorem contains_iff {s : Span} {offset : Nat} :
    s.contains offset = true ↔ s.start ≤ offset ∧ offset < s.stop := by
  simp [contains]

theorem start_lt_stop_of_contains {s : Span} {offset : Nat} (h : s.contains offset = true) :
    s.start < s.stop := by
  obtain ⟨hstart, hstop⟩ := contains_iff.mp h
  exact Nat.lt_of_le_of_lt hstart hstop

theorem isEmpty_iff {s : Span} : s.isEmpty = true ↔ s.stop ≤ s.start := by
  simp [isEmpty]

end Span
end PonyEditor
