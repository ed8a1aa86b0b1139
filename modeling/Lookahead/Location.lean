import Lookahead.Text.Quoted

/-! Places in a source text. -/
namespace Lookahead

/-- Lines and columns count from one, offsets from zero; all of them count characters. -/
structure Location where
  file : String
  line : Int
  column : Int
  offset : Int
deriving DecidableEq

namespace Location

def text (l : Location) : String := l.file ++ ":" ++ toString l.line ++ ":" ++ toString l.column

/-- All fields, for inspection. -/
def detail (l : Location) : String :=
  "SourceLocation(" ++ Text.quoted l.file ++ ", " ++ toString l.line ++ ", " ++ toString l.column ++ ", " ++
    toString l.offset ++ ")"

end Location
end Lookahead
