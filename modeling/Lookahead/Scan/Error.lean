import Lookahead.Diagnostic

/-! Scanning errors: text that is no token. -/
namespace Lookahead

inductive ScanFault where
  | badCharacter (text : String)
  | openString (quote : String)
  | badNumber (lexeme reason : String)
deriving DecidableEq

namespace ScanFault

def title? : String → Option String
  | "L001" => some "Invalid character"
  | "L002" => some "Unterminated string literal"
  | "L003" => some "Invalid numeric literal"
  | _ => none

/-- The report of a scanning error with the given code; a known code brings its title. -/
def report (message : String) (location : Option Location) (code help : Option String)
    (suggestions : Option (List String)) : Diagnostic :=
  ⟨message, location, "error", code, help, suggestions, code.bind title?⟩

/-- A code point in the usual notation, at least four digits wide. -/
def codePoint (c : Char) : String :=
  let digits := (Nat.toDigits 16 c.toNat).map Char.toUpper
  "U+" ++ String.ofList (List.replicate (4 - digits.length) '0' ++ digits)

def characterHelp (text : String) : String :=
  match text.toList.find? fun c => !Text.isPrintable c with
  | none => "The character '" ++ text ++ "' is not valid in source code."
  | some c => "Non-printable character (Unicode: " ++ codePoint c ++ ") is not allowed."

def characterSuggestions (text : String) : List String :=
  if text = "&" ∨ text = "|" then ["Logical operators are not supported; use nested if statements"] else []

def diagnostic (location : Option Location) : ScanFault → Diagnostic
  | badCharacter text =>
    report ("Invalid character: '" ++ text ++ "'") location "L001" (characterHelp text) (characterSuggestions text)
  | openString quote =>
    report "Unterminated string literal" location "L002"
      ("String literals must be closed with a matching " ++ quote ++ " quote.")
      (some ["Add a closing " ++ quote ++ " quote"])
  | badNumber lexeme reason =>
    report ("Invalid numeric literal: '" ++ lexeme ++ "'") location "L003" reason
      (some ["Numbers are digits with an optional single fractional part, e.g. 3.25"])

end ScanFault

structure ScanError where
  fault : ScanFault
  location : Location
deriving DecidableEq

def ScanError.diagnostic (e : ScanError) : Diagnostic := e.fault.diagnostic (some e.location)

end Lookahead
