/-!
White space. Blanks separate tokens and mean nothing else; the class is the
Unicode property `White_Space`, so a zero-width space is not a blank.
-/
namespace Mis.Text

/-- Ranges of code points, first and last, that are white space. -/
def blankRanges : List (Nat × Nat) :=
  [(0x09, 0x0D), (0x20, 0x20), (0x85, 0x85), (0xA0, 0xA0), (0x1680, 0x1680), (0x2000, 0x200A),
   (0x2028, 0x2029), (0x202F, 0x202F), (0x205F, 0x205F), (0x3000, 0x3000)]

def isBlank (c : Char) : Bool :=
  blankRanges.any fun (first, last) => first ≤ c.toNat && c.toNat ≤ last

end Mis.Text
