import Lookahead.Scan.Basic

/-! A scanner that is driven step by step: a text, a position in it, and what the last scan found. The
text can be exchanged under it, so the position may lie past its end. -/
namespace Lookahead

structure Scanner where
  file : String
  text : List Char
  cursor : Cursor
  tokens : List Token
  errors : List ScanError

/-- Why a step of a scanner gave no result. -/
inductive ScannerFailure where
  | error (e : ScanError)
  | unreadable (lexeme : String)
  | outOfRange
deriving DecidableEq

namespace Scanner

def ofSource (file source : String) : Scanner := ⟨file, source.toList, .start, [], []⟩

def setSource (s : Scanner) (source : String) : Scanner := { s with text := source.toList }

def rest (s : Scanner) : List Char := s.text.drop s.cursor.offset

/-- Moves on by `n` characters, or to the end of the text. -/
def advance (s : Scanner) (n : Nat) : Scanner := { s with cursor := s.cursor.past (s.rest.take n) }

def skipLayout (s : Scanner) : Scanner := s.advance (layout s.rest).length

/-! ## Looking -/

/-- Past the end of the text stands a null character. -/
def charAt (s : Scanner) (n : Nat) : Char := s.text[n]?.getD '\x00'

def current (s : Scanner) : Char := s.charAt s.cursor.offset

/-- The character `n` places on. A place before the text counts from its end, as far as it reaches. -/
def peek (s : Scanner) (n : Int) : Except ScannerFailure Char :=
  let place := s.cursor.offset + n
  if 0 ≤ place then .ok (s.charAt place.toNat)
  else if 0 ≤ place + s.text.length then .ok (s.charAt (place + s.text.length).toNat)
  else .error .outOfRange

/-! ## Reading -/

/-- Reads one token; what a fault takes is passed over too. -/
def nextToken (s : Scanner) : Except ScannerFailure Token × Scanner :=
  match s.rest with
  | [] => (.error .outOfRange, s)
  | c :: cs =>
    let found := Lookahead.lexeme c cs
    let result := match found with
      | .token kind text value => .ok ⟨kind, String.ofList text, value, s.cursor.location s.file⟩
      | .fault fault _ => .error (.error ⟨fault, s.cursor.location s.file⟩)
      | .unreadable text => .error (.unreadable (String.ofList text))
    (result, s.advance found.text.length)

/-- Scans the whole text from its start and keeps what it found. -/
def tokenize (s : Scanner) : Except String Scanned × Scanner :=
  let run := scanFrom s.file .start s.text
  let tokens := match run.unreadable with
    | some _ => run.tokens
    | none => run.tokens ++ [run.endToken s.file]
  (run.scanned s.file, { s with cursor := run.finish, tokens := tokens, errors := run.errors })

end Scanner

/-! ## Predicates on texts -/

/-- Whether a text is a letter sequence, or the underscore. -/
def startsWord (s : String) : Bool := (s ≠ "" && s.toList.all Text.isLetter) || s = "_"

def continuesWord (s : String) : Bool := (s ≠ "" && s.toList.all Text.isAlphanumeric) || s = "_"

theorem singleton_eq_underscore (c : Char) : String.singleton c = "_" ↔ c = '_' := by
  rw [← String.toList_inj, String.toList_singleton]
  simp

/-- On a single character, which is what a scan looks at, these are the tests of the scan. -/
theorem startsWord_singleton (c : Char) : startsWord (String.singleton c) = isWordStart c := by
  simp [startsWord, isWordStart, singleton_eq_underscore]

theorem continuesWord_singleton (c : Char) : continuesWord (String.singleton c) = isWordPart c := by
  simp [continuesWord, isWordPart, singleton_eq_underscore]

end Lookahead
