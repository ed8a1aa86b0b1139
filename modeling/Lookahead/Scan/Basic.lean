import Lookahead.Log
import Lookahead.Scan.Cursor
import Lookahead.Scan.Lexeme

/-! Scanning: a source text as a sequence of tokens and errors. Errors do not stop the scan, so all of
them are found in one go; only a numeral without a value does. -/
namespace Lookahead

inductive ScanItem where
  | token (t : Token)
  | error (e : ScanError)
deriving DecidableEq

namespace ScanItem

def token? : ScanItem → Option Token
  | token t => some t
  | error _ => none

def error? : ScanItem → Option ScanError
  | token _ => none
  | error e => some e

end ScanItem

/-- Tokens and errors in order of their places, where the scan stopped, and the numeral without a
value if it stopped at one. -/
structure Scan where
  items : List ScanItem
  finish : Cursor
  unreadable : Option String

namespace Scan

def push (i : ScanItem) (s : Scan) : Scan := { s with items := i :: s.items }

def tokens (s : Scan) : List Token := s.items.filterMap ScanItem.token?

def errors (s : Scan) : List ScanError := s.items.filterMap ScanItem.error?

end Scan

/-- Scans the text `cs`, which stands at `p`. A fault that takes no characters skips one. -/
def scanFrom (file : String) (p : Cursor) (cs : List Char) : Scan :=
  let here := p.past (layout cs)
  match _h : cs.drop (layout cs).length with
  | [] => ⟨[], here, none⟩
  | c :: rest =>
    let found := lexeme c rest
    let width := max 1 found.text.length
    let next := here.past ((c :: rest).take width)
    match found with
    | .unreadable text => ⟨[], next, some (String.ofList text)⟩
    | .fault fault _ =>
      (scanFrom file next ((c :: rest).drop width)).push (.error ⟨fault, here.location file⟩)
    | .token kind text value =>
      (scanFrom file next ((c :: rest).drop width)).push
        (.token ⟨kind, String.ofList text, value, here.location file⟩)
termination_by cs.length
decreasing_by
  all_goals
    have hlen := congrArg List.length _h
    simp only [List.length_drop, List.length_cons] at hlen ⊢
    omega

/-! ## Whole texts -/

/-- What a scan that ran to the end found; the tokens close with the end token. -/
structure Scanned where
  tokens : List Token
  errors : List ScanError
deriving DecidableEq

def Scan.endToken (file : String) (s : Scan) : Token := ⟨.eof, "", none, s.finish.location file⟩

/-- The finished scan, or the numeral at which it stopped. -/
def Scan.scanned (file : String) (s : Scan) : Except String Scanned :=
  match s.unreadable with
  | some lexeme => .error lexeme
  | none => .ok ⟨s.tokens ++ [s.endToken file], s.errors⟩

def scan (file source : String) : Except String Scanned :=
  (scanFrom file .start source.toList).scanned file

inductive ScanFailure where
  | unreadable (lexeme : String)
  | error (e : ScanError)
deriving DecidableEq

/-- The tokens of a text without errors, or the first thing wrong with it. -/
def tokenize (file source : String) : Except ScanFailure (List Token) :=
  match scan file source with
  | .error lexeme => .error (.unreadable lexeme)
  | .ok s =>
    match s.errors with
    | [] => .ok s.tokens
    | e :: _ => .error (.error e)

def Scanned.event (file : String) (s : Scanned) : Event :=
  ⟨.scanner, .debug, "scanned " ++ toString s.tokens.length ++ " tokens (" ++ toString s.errors.length ++
    " errors) from " ++ file⟩

end Lookahead
