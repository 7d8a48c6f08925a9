/-! White space as Unicode's property White_Space lists it: twenty-five characters in
ten ranges. Trimming and blank texts are defined by it. -/
namespace Interop.Text

/-- The ranges of the property, both ends included. -/
def blankRanges : List (Nat × Nat) :=
  [(0x09, 0x0D), (0x20, 0x20), (0x85, 0x85), (0xA0, 0xA0), (0x1680, 0x1680),
   (0x2000, 0x200A), (0x2028, 0x2029), (0x202F, 0x202F), (0x205F, 0x205F), (0x3000, 0x3000)]

def isBlank (c : Char) : Bool :=
  blankRanges.any fun range => range.1 ≤ c.toNat && c.toNat ≤ range.2

/-- A text without a character that is not white space; the empty text is one. -/
def isBlankText (text : String) : Bool := text.toList.all isBlank

end Interop.Text
