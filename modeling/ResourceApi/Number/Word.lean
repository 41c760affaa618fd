/-!
Integers of a signed 64-bit word.
-/

namespace ResourceApi.Word

/-- The first integer that is too large. -/
def bound : Int := 9223372036854775808

/-- Whether an integer fits a word. -/
def holds (n : Int) : Bool := -bound ≤ n && n < bound

end ResourceApi.Word
