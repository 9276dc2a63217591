import Lexiscope.Text.Ranges
/-!
# Blanks

The Unicode property `White_Space`, and the text that is left when blanks are taken off
both ends.
-/

namespace Lexiscope.Text

/-- Code points with the property `White_Space`. -/
def blankRanges : RangeTable :=
  [(9, 13), (32, 32), (133, 133), (160, 160), (5760, 5760), (8192, 8202), (8232, 8233),
   (8239, 8239), (8287, 8287), (12288, 12288)]

def isBlank (c : Char) : Bool :=
  blankRanges.contains c

def trimBlanks (cs : List Char) : List Char :=
  ((cs.dropWhile isBlank).reverse.dropWhile isBlank).reverse

def trim (s : String) : String := String.ofList (trimBlanks s.toList)

end Lexiscope.Text
