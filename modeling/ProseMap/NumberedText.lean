import ProseMap.LineBreaks

/-!
# Numbered texts

A text together with its own line breaks.
-/

namespace ProseMap

/-- A text whose lines have been counted. -/
structure NumberedText where
  text : String
  breaks : LineBreaks := .ofText text
  breaks_eq : breaks = .ofText text := by rfl

namespace NumberedText

def of (text : String) : NumberedText :=
  { text }

def position? (numbered : NumberedText) (offset : Nat) : Option Position :=
  numbered.breaks.position? numbered.text offset

def offset? (numbered : NumberedText) (position : Position) : Option Nat :=
  numbered.breaks.offset? numbered.text position

end NumberedText

end ProseMap
