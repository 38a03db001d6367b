import ProseMap.Bisect
import ProseMap.Position
import ProseMap.Text.Basic

/-!
# Line breaks

The line breaks of a text convert its offsets to positions and back. They do not keep the
text; it is given again with each question, and where it is not the text they were taken
from, cuts that it does not have are simply missing. A line break belongs to the line that
it ends. -/

namespace ProseMap

/-- The offsets of a text's line feeds, and its length. -/
structure LineBreaks where
  breaks : Array Nat
  length : Nat
deriving DecidableEq, Repr

namespace LineBreaks

/-- The offsets of the line feeds in a text that starts at `offset`. -/
def scan (offset : Nat) : List Char → List Nat
  | [] => []
  | c :: cs =>
    if c = '\n' then offset :: scan (offset + c.utf8Size) cs
    else scan (offset + c.utf8Size) cs

def ofText (text : String) : LineBreaks :=
  ⟨(scan 0 text.toList).toArray, text.utf8ByteSize⟩

def lineCount (index : LineBreaks) : Nat :=
  index.breaks.size + 1

/-- Where a row starts, the first row being zero. -/
def rowStart? (index : LineBreaks) : Nat → Option Nat
  | 0 => some 0
  | row + 1 => index.breaks[row]?.map (· + 1)

/-- Where a row stops, before the line feed that ends it or at the end of the text. -/
def rowStop (index : LineBreaks) (row : Nat) : Nat :=
  index.breaks[row]?.getD index.length

/-- The position of an offset, if the text can be cut there. -/
def position? (index : LineBreaks) (text : String) (offset : Nat) : Option Position := do
  guard (offset ≤ index.length)
  let row := bisect (· < offset) index.breaks
  let start ← index.rowStart? row
  let before ← Text.slice? text.toList start offset
  return ⟨row + 1, before.length⟩

/-- The offset of a position, if there is a line of that number, not shorter than the
column. -/
def offset? (index : LineBreaks) (text : String) (position : Position) : Option Nat := do
  guard (position.line ≠ 0)
  let row := position.line - 1
  let start ← index.rowStart? row
  let line ← Text.slice? text.toList start (index.rowStop row)
  guard (position.column ≤ line.length)
  return start + Text.byteLength (line.take position.column)

/-! ## Scanning -/

/-- The line feeds of two texts in a row are those of the first, and those of the second
behind. -/
theorem scan_append (offset : Nat) (cs ds : List Char) :
    scan offset (cs ++ ds) = scan offset cs ++ scan (offset + Text.byteLength cs) ds := by
  induction cs generalizing offset with
  | nil => rfl
  | cons c cs ih =>
    simp only [List.cons_append, scan, ih, Text.byteLength_cons, Nat.add_assoc]
    split <;> rfl

end LineBreaks

end ProseMap
