/-! What the library reports while it works: one event per message, in order. Events are computed from
results, so work that nobody listens to builds none. -/
namespace Lookahead

/-- The part of the library that an event comes from. -/
inductive Channel where
  | scanner
  | sets
  | table
  | analysis
  | parser
  | trace
  | conversion
  | entry
deriving DecidableEq

inductive Severity where
  | debug
  | info
  | warning
deriving DecidableEq

structure Event where
  channel : Channel
  severity : Severity
  message : String
deriving DecidableEq

end Lookahead
