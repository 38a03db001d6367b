import ProseMap.Json.Flaw
import ProseMap.Text.Basic

/-!
# Strings in a JSON text

A string is scanned into pieces, each a character or an escaped UTF-16 unit, up to its
closing quote. Skipping it needs no more than that; reading it joins the surrogates to
characters, and a surrogate without its partner is a fault. -/

namespace ProseMap.Json

/-- A part of a string between its quotes. -/
inductive Piece where
  /-- A character that stands for itself or is named by a short escape. -/
  | char (c : Char)
  /-- A UTF-16 unit given by four hexadecimal digits. -/
  | unit (code : Nat)
deriving DecidableEq, Repr

namespace Piece

/-- The character that a backslash and a letter name. -/
def named? : Char → Option Char
  | '"' => some '"'
  | '\\' => some '\\'
  | '/' => some '/'
  | 'b' => some '\x08'
  | 'f' => some '\x0c'
  | 'n' => some '\n'
  | 'r' => some '\r'
  | 't' => some '\t'
  | _ => none

def hexDigit? (c : Char) : Option Nat :=
  if c.isDigit then some (c.toNat - '0'.toNat)
  else if 'a' ≤ c ∧ c ≤ 'f' then some (c.toNat - 'a'.toNat + 10)
  else if 'A' ≤ c ∧ c ≤ 'F' then some (c.toNat - 'A'.toNat + 10)
  else none

def unit? (a b c d : Char) : Option Nat := do
  return 4096 * (← hexDigit? a) + 256 * (← hexDigit? b) + 16 * (← hexDigit? c) +
    (← hexDigit? d)

/-- The pieces up to the closing quote and the text after it, or up to where the string
breaks off. An escaped unit wants four bytes; if there are fewer, the text ends too
early. -/
def scan : List Char → List Piece × Except Flaw (List Char)
  | [] => ([], .error .truncated)
  | '"' :: rest => ([], .ok rest)
  | '\\' :: 'u' :: a :: b :: c :: d :: rest =>
    match unit? a b c d with
    | some code => let (pieces, ending) := scan rest; (.unit code :: pieces, ending)
    | none => ([], .error .malformed)
  | '\\' :: 'u' :: few =>
    ([], .error (if Text.byteLength few < 4 then .truncated else .malformed))
  | '\\' :: letter :: rest =>
    match named? letter with
    | some c => let (pieces, ending) := scan rest; (.char c :: pieces, ending)
    | none => ([], .error .malformed)
  | ['\\'] => ([], .error .truncated)
  | c :: rest =>
    if c < ' ' then ([], .error .malformed)
    else let (pieces, ending) := scan rest; (.char c :: pieces, ending)

def isHighSurrogate (code : Nat) : Bool := 0xD800 ≤ code && code ≤ 0xDBFF

def isLowSurrogate (code : Nat) : Bool := 0xDC00 ≤ code && code ≤ 0xDFFF

/-- The characters of pieces that end in `ending`. The first fault counts, whether it is a
lone surrogate or the ending. -/
def join (ending : Except Flaw Unit) : List Piece → Except Flaw (List Char)
  | [] => ending.map fun _ => []
  | .char c :: rest => (join ending rest).map (c :: ·)
  | .unit high :: .unit low :: rest =>
    if isHighSurrogate high then
      if isLowSurrogate low then
        let c := Char.ofNat (0x10000 + 0x400 * (high - 0xD800) + (low - 0xDC00))
        (join ending rest).map (c :: ·)
      else
        .error .malformed
    else if isLowSurrogate high then
      .error .malformed
    else
      (join ending (.unit low :: rest)).map (Char.ofNat high :: ·)
  | .unit code :: rest =>
    if isHighSurrogate code then
      if rest.isEmpty then ending.bind fun _ => .error .malformed else .error .malformed
    else if isLowSurrogate code then
      .error .malformed
    else
      (join ending rest).map (Char.ofNat code :: ·)

/-- The string token after an opening quote, with the text after it unless the token is
broken. -/
def token (cs : List Char) : Token String × Option (List Char) :=
  let (pieces, ending) := scan cs
  let passing := ending.map fun _ => ()
  (⟨(join passing pieces).map String.ofList, passing⟩, ending.toOption)

end Piece

end ProseMap.Json
