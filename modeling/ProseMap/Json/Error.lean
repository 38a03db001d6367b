import ProseMap.Binary64.Shortest
import ProseMap.Json.Flaw
import ProseMap.Json.Basic
import ProseMap.Text.Quoted

/-!
# What can be wrong with a JSON document

Either the text is no JSON, or the JSON does not have the shape that its reader expects.
Only the second kind has a message. -/

namespace ProseMap.Json

/-- What stands in a place, as far as a reader looks. -/
inductive Found where
  | null
  | bool (b : Bool)
  | number (n : Number)
  | string (s : String)
  | sequence
  | map
deriving DecidableEq, Repr

/-- What is wanted in a place. -/
inductive Expected where
  | string
  | sequence
  /-- A natural number of 64 bits. -/
  | word
  /-- An array of two elements. -/
  | pair
  /-- A record by its name and its number of fields. -/
  | record (name : String) (size : Nat)
deriving DecidableEq, Repr

/-- Why a document cannot be read. -/
inductive Error where
  /-- The text is not JSON. -/
  | flaw (flaw : Flaw)
  /-- A value of another kind stands there. -/
  | mismatch (found : Found) (expected : Expected)
  /-- An integer stands there that is no natural number of 64 bits. -/
  | notAWord (n : Int)
  | missingField (key : String)
  | repeatedField (key : String)
  /-- An array ends too early, after `count` elements. -/
  | tooShort (count : Nat) (expected : Expected)
  /-- An array of `count` elements has more than are wanted. -/
  | tooLong (count : Nat)
deriving DecidableEq, Repr

/-- An integer by its digits, a floating point number by its shortest decimal. -/
def Number.text : Number → String
  | .integer n => toString n
  | .float x => x.text

namespace Found

/-- Text between backquotes. -/
def ticked (s : String) : String :=
  "`" ++ s ++ "`"

def text : Found → String
  | .null => "null"
  | .bool b => "boolean " ++ ticked (if b then "true" else "false")
  | .number (.integer n) => "integer " ++ ticked (Number.text (.integer n))
  | .number (.float x) => "floating point " ++ ticked (Number.text (.float x))
  | .string s => "string " ++ Text.quoted s
  | .sequence => "sequence"
  | .map => "map"

end Found

namespace Expected

/-- The wanted kind of value. -/
def kindText : Expected → String
  | .string => "a string"
  | .sequence => "a sequence"
  | .word => "usize"
  | .pair => "an array of length 2"
  | .record name _ => "struct " ++ name

/-- The wanted value with its number of elements. -/
def sizeText : Expected → String
  | .record name size =>
    "struct " ++ name ++ " with " ++ toString size ++
      (if size = 1 then " element" else " elements")
  | expected => expected.kindText

end Expected

namespace Error

/-- The message for a document of the wrong shape; a text that is not JSON has none. -/
def message? : Error → Option String
  | .flaw _ => none
  | .mismatch found expected =>
    some ("invalid type: " ++ found.text ++ ", expected " ++ expected.kindText)
  | .notAWord n =>
    some ("invalid value: integer " ++ Found.ticked (toString n) ++ ", expected "
      ++ Expected.word.kindText)
  | .missingField key => some ("missing field " ++ Found.ticked key)
  | .repeatedField key => some ("duplicate field " ++ Found.ticked key)
  | .tooShort count expected =>
    some ("invalid length " ++ toString count ++ ", expected " ++ expected.sizeText)
  | .tooLong count =>
    some ("invalid length " ++ toString count ++ ", expected fewer elements in array")

end Error

end ProseMap.Json
