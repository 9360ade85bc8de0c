import BbbXinu.Stdio.Doscan
import BbbXinu.Properties.DateText

/-!
# Numbers that are scanned after they were printed

The scanner takes only letters for digits, and these only in hexadecimal numbers.  A number of
other digits ends before them, and what it leaves is there for the next conversion.
-/

namespace BbbXinu
namespace Stdio

open Positional

/-- The conversions that both the formatter and the scanner have. -/
inductive ScanConv where
  | d
  | o
  | x
  deriving DecidableEq, Repr

def ScanConv.conv : ScanConv → NumberConv
  | .d => .d
  | .o => .o
  | .x => .x

/-- The base that the scanner takes for a conversion. -/
def ScanConv.base : ScanConv → Int
  | .d => 10
  | .o => 8
  | .x => 16

/-- The text of one value. -/
def printed (p : ScanConv × UInt32) : List Char := p.1.conv.bare.emitted p.2

section

variable {behind : Nat → Nat} {l : List (ScanConv × UInt32)} {p : ScanConv × UInt32}
  {strAt : UInt32 → List Char} {ap : VaList}

/-!
## What is printed
-/

end

end Stdio
end BbbXinu
