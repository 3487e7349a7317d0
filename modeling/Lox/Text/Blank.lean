/-!
# Blank text

The characters with the property White_Space: 25 code points, of which four are ASCII blanks, two are
other ASCII control characters, and the rest are spaces and separators of other scripts.
-/
namespace Lox.Text

/-- The ranges of White_Space, in ascending order. -/
def blankRanges : List (Nat × Nat) :=
  [(0x9, 0xD), (0x20, 0x20), (0x85, 0x85), (0xA0, 0xA0), (0x1680, 0x1680), (0x2000, 0x200A),
   (0x2028, 0x2029), (0x202F, 0x202F), (0x205F, 0x205F), (0x3000, 0x3000)]

/-- Whether a character is white space. -/
def isBlankChar (c : Char) : Bool := blankRanges.any fun (lo, hi) => lo ≤ c.toNat && c.toNat ≤ hi

/-- Whether a text has nothing but white space. -/
def isBlank (s : String) : Bool := s.toList.all isBlankChar

theorem isBlankChar_of_isWhitespace {c : Char} (h : c.isWhitespace = true) : isBlankChar c = true := by
  simp only [Char.isWhitespace, Bool.or_eq_true, decide_eq_true_eq] at h
  rcases h with ((rfl | rfl) | rfl) | rfl <;> decide

end Lox.Text
