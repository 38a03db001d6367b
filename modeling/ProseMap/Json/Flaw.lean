/-!
# Flaws of a JSON text

A text that is not JSON either breaks the grammar or ends before the grammar is done. A
token can look different to one who reads it and to one who only passes over it, so it
keeps both answers. -/

namespace ProseMap.Json

/-- Why a text is not JSON. -/
inductive Flaw where
  /-- Something stands where the grammar does not allow it. -/
  | malformed
  /-- The text ends too early. -/
  | truncated
deriving DecidableEq, Repr

/-- A token as it stands in a text. -/
structure Token (α : Type) where
  /-- What the token says to a reader. -/
  reading : Except Flaw α
  /-- Whether one who skips the token gets past it. -/
  passing : Except Flaw Unit

namespace Token

/-- A token without fault. -/
def sound {α : Type} (a : α) : Token α :=
  ⟨.ok a, .ok ()⟩

/-- A token at which reading and skipping stop alike. -/
def broken {α : Type} (flaw : Flaw) : Token α :=
  ⟨.error flaw, .error flaw⟩

/-- A token that can be skipped, but says something only if its characters do. -/
def skippable {α : Type} (reading : Option α) : Token α :=
  ⟨reading.elim (.error .malformed) .ok, .ok ()⟩

end Token

/-- The text without the blanks in front: space, tab, line feed and carriage return. -/
def dropBlanks (cs : List Char) : List Char :=
  cs.dropWhile fun c => c = ' ' || c = '\t' || c = '\n' || c = '\r'

end ProseMap.Json
