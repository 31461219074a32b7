/-
Characters that can be shown as they are.
-/
import Coupling.Text.Property
import Coupling.Text.Recent

namespace Coupling.Text

/-- Marks that a reader sees only together with the character before. Two halfwidth marks have a
width of their own. -/
def attached : CharSet := Property.graphemeExtend.diff (.ofText "ff9e-ff9f")

/-- Letters, marks, numbers, punctuation, symbols and the space. Other separators, controls, format
characters, fillers, private use and what has no meaning cannot be told from nothing, and attached
marks not from the character before. -/
def printable : CharSet :=
  (Category.unionOf [Category.L, Category.M, Category.N, Category.P, Category.S, .singleton ' ',
    Recent.alphabetic, Recent.digits, Recent.signs]).diff
    (Category.unionOf [attached, Recent.marks, Property.defaultIgnorable])

end Coupling.Text
