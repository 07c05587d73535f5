import SymbolicAlgebra.Text.Letter

set_option autoImplicit false

/-!
# Blanks

Blanks may stand between the tokens of a formula. A character is a blank (`Text.isBlank`) where it
has the property `White_Space` of the Unicode Character Database.
-/

namespace SymbolicAlgebra.Text

/-- The code points that have the property `White_Space`. -/
def blankRanges : List (Nat × Nat) := [
    (0x9, 0xD), (0x20, 0x20), (0x85, 0x85), (0xA0, 0xA0), (0x1680, 0x1680), (0x2000, 0x200A),
    (0x2028, 0x2029), (0x202F, 0x202F), (0x205F, 0x205F), (0x3000, 0x3000)]

/-- Whether a character is a blank. -/
def isBlank (c : Char) : Bool := inRanges blankRanges c.toNat

end SymbolicAlgebra.Text
