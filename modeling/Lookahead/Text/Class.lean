/-! Character classes as tables of code point ranges, and the class of the blanks: the characters that separate words
and end none. -/
namespace Lookahead.Text

/-- A range holds both of its ends. -/
def inRange (r : Nat × Nat) (c : Char) : Bool := r.1 ≤ c.toNat && c.toNat ≤ r.2

def covers (ranges : List (Nat × Nat)) (c : Char) : Bool := ranges.any fun r => inRange r c

/-! ## Blanks -/

def blankRanges : List (Nat × Nat) := [
  (0x9, 0xd), (0x1c, 0x20), (0x85, 0x85), (0xa0, 0xa0), (0x1680, 0x1680), (0x2000, 0x200a),
  (0x2028, 0x2029), (0x202f, 0x202f), (0x205f, 0x205f), (0x3000, 0x3000)]

def isBlank (c : Char) : Bool := covers blankRanges c

/-! ## Words -/

/-- The maximal runs of characters that are not blank, in order. -/
def wordsFrom : List Char → List Char → List String
  | [], word => if word.isEmpty then [] else [String.ofList word.reverse]
  | c :: cs, word =>
    if isBlank c then
      if word.isEmpty then wordsFrom cs [] else String.ofList word.reverse :: wordsFrom cs []
    else wordsFrom cs (c :: word)

def words (s : String) : List String := wordsFrom s.toList []

end Lookahead.Text
