/-!
# `Offside.Power`: powers of two and ten

Binary fractions are scaled by powers of two and numerals by powers of ten. Both are functions
of their own, defined by `Nat.pow`, so that every module computes with the same ones;
`twoTo_succ` and `tenTo_succ` are their recursions.
-/

set_option autoImplicit false

namespace Offside

/-- A power of two. -/
def twoTo (n : Nat) : Nat := Nat.pow 2 n

/-- A power of ten. -/
def tenTo (n : Nat) : Nat := Nat.pow 10 n

/-- The empty product. -/
theorem twoTo_zero : twoTo 0 = 1 := rfl

/-- One more factor of two. -/
theorem twoTo_succ (n : Nat) : twoTo (n + 1) = twoTo n * 2 := rfl

/-- The empty product. -/
theorem tenTo_zero : tenTo 0 = 1 := rfl

/-- One more factor of ten. -/
theorem tenTo_succ (n : Nat) : tenTo (n + 1) = tenTo n * 10 := rfl

/-- Powers of two are positive. -/
theorem twoTo_pos (n : Nat) : 0 < twoTo n := Nat.pow_pos (by decide)

/-- Powers of ten are positive. -/
theorem tenTo_pos (n : Nat) : 0 < tenTo n := Nat.pow_pos (by decide)

end Offside
