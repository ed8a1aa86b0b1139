import Lookahead.Program.OfTree
import Lookahead.Proofs.Script.Marks

/-! What programs are made of: names, operators and the values of literals, in order of the text. Keywords and
punctuation leave nothing of themselves in a program. -/
namespace Lookahead

inductive Content where
  | lexeme (s : String)
  | value (v : Value)
deriving DecidableEq

/-- What a token gives to a program. A literal gives its value or, failing that, what its lexeme stands for. -/
def Token.content? (t : Token) : Option Content :=
  match t.kind with
  | .identifier | .operator => some (.lexeme t.lexeme)
  | .number => (t.value.or ((Numeral.read? t.lexeme).map Value.number)).map .value
  | .string => (t.value.or (some (.text t.lexeme))).map .value
  | _ => none

/-! ## Contents of programs -/

mutual

def Expr.contents : Expr → List Content
  | .assign a v => a.contents ++ v.contents
  | .binary l o r => l.contents ++ .lexeme o :: r.contents
  | .unary o a => .lexeme o :: a.contents
  | .call c args => c.contents ++ Expr.contentsOf args
  | .member o p _ => o.contents ++ p.contents
  | .identifier x => [.lexeme x]
  | .number v | .string v => [.value v]
  | .object ps => Property.contentsOf ps
  | .array es => Expr.contentsOf es

def Expr.contentsOf : List Expr → List Content
  | [] => []
  | e :: es => e.contents ++ Expr.contentsOf es

def Property.contents : Property → List Content
  | .entry key none => [.lexeme key]
  | .entry key (some e) => .lexeme key :: e.contents

def Property.contentsOf : List Property → List Content
  | [] => []
  | p :: ps => p.contents ++ Property.contentsOf ps

end

def Expr.optionContents : Option Expr → List Content
  | none => []
  | some e => e.contents

mutual

def Stmt.contents : Stmt → List Content
  | .varDecl _ x value => .lexeme x :: Expr.optionContents value
  | .fnDecl f parameters body => .lexeme f :: (parameters.map .lexeme ++ Stmt.contentsOf body)
  | .ifElse c body none => c.contents ++ Stmt.contentsOf body
  | .ifElse c body (some orElse) => c.contents ++ Stmt.contentsOf body ++ Stmt.contentsOf orElse
  | .whileLoop c body => c.contents ++ Stmt.contentsOf body
  | .forLoop none c u body => Expr.optionContents c ++ Expr.optionContents u ++ Stmt.contentsOf body
  | .forLoop (some init) c u body =>
    init.contents ++ Expr.optionContents c ++ Expr.optionContents u ++ Stmt.contentsOf body
  | .returning value => Expr.optionContents value
  | .breaking | .continuing => []
  | .expression e | .bare e => e.contents

def Stmt.contentsOf : List Stmt → List Content
  | [] => []
  | s :: ss => s.contents ++ Stmt.contentsOf ss

end

def Program.contents (p : Program) : List Content := Stmt.contentsOf p.body

/-! ## Contents of marks -/

namespace Script

def Mark.content? : Mark → Option Content
  | .fixed _ => none
  | .name s | .operator s => some (.lexeme s)
  | .number v | .string v => some (.value v)

def Mark.contents (m : List Mark) : List Content := m.filterMap Mark.content?

variable {m n : List Mark}

@[simp] theorem Mark.contents_nil : Mark.contents [] = [] := rfl

@[simp] theorem Mark.contents_append : Mark.contents (m ++ n) = Mark.contents m ++ Mark.contents n :=
  List.filterMap_append

@[simp] theorem Mark.contents_fixed (s : Symbol) : Mark.contents (s.kind?.toList.map .fixed) = [] := by
  rw [Mark.contents, List.filterMap_eq_nil_iff]
  intro a ha
  obtain ⟨k, -, rfl⟩ := List.mem_map.mp ha
  rfl

@[simp] theorem Mark.contents_name (x : String) : Mark.contents (.name x :: m) = .lexeme x :: Mark.contents m := rfl

@[simp] theorem Mark.contents_operator (o : String) :
    Mark.contents (.operator o :: m) = .lexeme o :: Mark.contents m := rfl

@[simp] theorem Mark.contents_number (v : Value) : Mark.contents (.number v :: m) = .value v :: Mark.contents m := rfl

@[simp] theorem Mark.contents_string (v : Value) : Mark.contents (.string v :: m) = .value v :: Mark.contents m := rfl

end Script
end Lookahead
