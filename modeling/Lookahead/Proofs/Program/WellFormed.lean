import Lookahead.Program.Basic
import Lookahead.Token.Kind

/-! Programs that the script language can express. -/
namespace Lookahead

def binaryOperators : List String := comparisonOperators ++ additiveOperators ++ multiplicativeOperators

def unaryOperators : List String := additiveOperators ++ unaryOnlyOperators

namespace Expr

/-- Operators are those of the language, and only brackets hold a property that is not a name. -/
inductive WellFormed : Expr → Prop
  | assign {a v : Expr} : a.WellFormed → v.WellFormed → (assign a v).WellFormed
  | binary {l r : Expr} {o : String} : o ∈ binaryOperators → l.WellFormed → r.WellFormed → (binary l o r).WellFormed
  | unary {a : Expr} {o : String} : o ∈ unaryOperators → a.WellFormed → (unary o a).WellFormed
  | call {c : Expr} {args : List Expr} : c.WellFormed → (∀ a ∈ args, a.WellFormed) → (call c args).WellFormed
  | named {o : Expr} {x : String} : o.WellFormed → (member o (identifier x) false).WellFormed
  | computed {o p : Expr} : o.WellFormed → p.WellFormed → (member o p true).WellFormed
  | identifier {x : String} : (identifier x).WellFormed
  | number {v : Value} : (number v).WellFormed
  | string {v : Value} : (string v).WellFormed
  | object {ps : List Property} : (∀ key e, .entry key (some e) ∈ ps → e.WellFormed) → (object ps).WellFormed
  | array {es : List Expr} : (∀ e ∈ es, e.WellFormed) → (array es).WellFormed

end Expr

namespace Stmt

/-- What a loop can start with. -/
def IsInit : Stmt → Prop
  | varDecl .. | expression _ => True
  | _ => False

/-- Constants have a value, loops start with a declaration or an expression if with anything, and no expression
stands where a statement is due. -/
inductive WellFormed : Stmt → Prop
  | varDecl {constant : Bool} {x : String} {value : Option Expr} : (constant = true → value.isSome = true) →
      (∀ e ∈ value, e.WellFormed) → (varDecl constant x value).WellFormed
  | fnDecl {f : String} {parameters : List String} {body : List Stmt} : (∀ s ∈ body, s.WellFormed) →
      (fnDecl f parameters body).WellFormed
  | ifElse {c : Expr} {body : List Stmt} {orElse : Option (List Stmt)} : c.WellFormed → (∀ s ∈ body, s.WellFormed) →
      (∀ b ∈ orElse, ∀ s ∈ b, s.WellFormed) → (ifElse c body orElse).WellFormed
  | whileLoop {c : Expr} {body : List Stmt} : c.WellFormed → (∀ s ∈ body, s.WellFormed) →
      (whileLoop c body).WellFormed
  | forLoop {init : Option Stmt} {c u : Option Expr} {body : List Stmt} : (∀ s ∈ init, s.IsInit) →
      (∀ s ∈ init, s.WellFormed) → (∀ e ∈ c, e.WellFormed) → (∀ e ∈ u, e.WellFormed) → (∀ s ∈ body, s.WellFormed) →
      (forLoop init c u body).WellFormed
  | returning {value : Option Expr} : (∀ e ∈ value, e.WellFormed) → (returning value).WellFormed
  | breaking : breaking.WellFormed
  | continuing : continuing.WellFormed
  | expression {e : Expr} : e.WellFormed → (expression e).WellFormed

end Stmt

def Program.WellFormed (p : Program) : Prop := ∀ s ∈ p.body, s.WellFormed

end Lookahead
