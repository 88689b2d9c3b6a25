/-!
# Powers of two and of ten

The powers that the number formats are made of: a binary64 number is a multiple of a power of two,
and its decimal text a multiple of a power of ten.
-/

namespace BoundView

/-- Two to the power `n`. -/
def twoTo (n : Nat) : Nat :=
  Nat.pow 2 n

/-- Ten to the power `n`. -/
def tenTo (n : Nat) : Nat :=
  Nat.pow 10 n

end BoundView
