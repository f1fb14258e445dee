/-!
# Offsets

Every position in a text is a number of UTF-8 bytes, and every position, line number and line
count stays at or below `Offset.limit`.  Arithmetic that would pass the limit stops there.
-/

namespace PonyEditor
namespace Offset

/-- The greatest offset, line number or line count. -/
def limit : Nat := 4294967295

/-- Brings a number down to the limit. -/
def cap (n : Nat) : Nat := min n limit

/-- Addition that stops at the limit. -/
def add (a b : Nat) : Nat := cap (a + b)

theorem cap_of_le {n : Nat} (h : n ≤ limit) : cap n = n := Nat.min_eq_left h

theorem cap_le (n : Nat) : cap n ≤ limit := Nat.min_le_right n limit

theorem add_of_le {a b : Nat} (h : a + b ≤ limit) : add a b = a + b := cap_of_le h

theorem add_le (a b : Nat) : add a b ≤ limit := cap_le (a + b)

end Offset
end PonyEditor
