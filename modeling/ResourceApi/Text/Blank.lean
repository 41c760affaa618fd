/-!
Blank characters and trimming: the white space of Unicode together with the four information separators.
-/

namespace ResourceApi.Text

def isBlankChar (c : Char) : Bool :=
  let n := c.toNat
  (9 ≤ n && n ≤ 13) || (28 ≤ n && n ≤ 32) || n == 0x85 || n == 0xA0 || n == 0x1680
    || (0x2000 ≤ n && n ≤ 0x200A) || n == 0x2028 || n == 0x2029 || n == 0x202F || n == 0x205F || n == 0x3000

theorem isBlankChar_of_isWhitespace (c : Char) (h : c.isWhitespace = true) : isBlankChar c = true := by
  simp only [Char.isWhitespace, Bool.or_eq_true, decide_eq_true_eq] at h
  rcases h with (((rfl | rfl) | rfl) | rfl) <;> decide

def trimChars (cs : List Char) : List Char :=
  ((cs.dropWhile isBlankChar).reverse.dropWhile isBlankChar).reverse

/-- The text without blank characters at either end. -/
def trim (s : String) : String := String.ofList (trimChars s.toList)

/-- Blank characters that may stand around a number: the information separators may not. -/
def isMargin (c : Char) : Bool := isBlankChar c && !('\x1c' ≤ c && c ≤ '\x1f')

/-- The characters without those that may stand around a number. -/
def trimMargins (cs : List Char) : List Char := ((cs.dropWhile isMargin).reverse.dropWhile isMargin).reverse

/-- A text of blank characters only, the empty text included. -/
def isBlank (s : String) : Bool := s.toList.all isBlankChar

end ResourceApi.Text
