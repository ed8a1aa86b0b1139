import Lookahead.Proofs.Program.Raw

/-! Conversions into expressions that can crash, and why they do not: what each of them takes apart it has looked at
before. -/
namespace Lookahead

open Script

namespace Raw
variable {α : Type}

/-! ## Loops -/

/-- A round for the items after the first of a sequence with commas. -/
def afterComma (item tail : Symbol) (convert : Tree → Raw α) (t : Tree) : Raw (Option (α × Option Tree)) := do
  if t.isLeaf then return none
  let [_, a, rest] ← expect t [.comma, item, tail] | crash (.count 3)
  return some (← convert a, some rest)

/-- A round for a sequence in which a comma may come last. -/
def entries (list item tail : Symbol) (convert : Tree → Raw α) (t : Tree) : Raw (Option (α × Option Tree)) := do
  if t.isLeaf then return none
  let [a, after] ← expect t [item, tail] | crash (.count 2)
  let b ← convert a
  if after.isLeaf then return some (b, none)
  let [_, rest] ← expect after [.comma, list] | crash (.count 2)
  return some (b, some rest)

/-- A round for the operators of a chain under a symbol. -/
def operation (convert : Tree → Raw Expr) (symbol : String) (l : Level) (t : Tree) :
    Raw (Option ((String × Expr) × Option Tree)) := do
  if t.isLeaf then return none
  if t.children.length ≠ 2 then unexpected t
  else
    let second ← item t.children 1
    if second.symbol ≠ symbol then unexpected t
    else
      let [operator, next] := t.children | crash (.count 2)
      let [operand, rest] ← expect next [l.operand, l.tail] | crash (.count 2)
      return some ((← lexeme operator, ← convert operand), some rest)

/-- A round for argument lists, one after the other. -/
def call (convertArgs : Tree → Raw (List Expr)) (t : Tree) : Raw (Option (List Expr × Option Tree)) := do
  if t.isLeaf then return none
  let [_, a, _, rest] ← expect t [.leftParen, .args, .rightParen, .callTail] | crash (.count 4)
  return some (← convertArgs a, some rest)

/-- A round for accesses to members. -/
def access (convert : Tree → Raw Expr) (t : Tree) : Raw (Option ((Expr × Bool) × Option Tree)) := do
  if t.isLeaf then return none
  if t.shape = [Symbol.dot, .identifier, .memberTail].map Symbol.name then
    let [_, a, rest] := t.children | crash (.count 3)
    return some ((.identifier (← lexeme a), false), some rest)
  else if t.shape = [Symbol.leftBracket, .expr, .rightBracket, .memberTail].map Symbol.name then
    let [_, a, _, rest] := t.children | crash (.count 4)
    return some ((← convert a, true), some rest)
  else unexpected t

/-! ## Nodes -/

def ofWrapped (convert : Tree → Raw Expr) (t : Tree) : Raw Expr := do
  let [a] ← expect t [.assignExpr] | crash (.count 1)
  convert a

def ofAssign (convert : Tree → Raw Expr) (t : Tree) : Raw Expr := do
  let [comp, tail] ← expect t [.compExpr, .assignTail] | crash (.count 2)
  let left ← convert comp
  if tail.isLeaf then return left
  let [_, rest] ← expect tail [.equals, .assignExpr] | crash (.count 2)
  return .assign left (← convert rest)

def levels (symbol : String) : Option Level :=
  [Level.comparison, .additive, .multiplicative].find? fun l => l.chain.name = symbol

def ofChain (convert : Tree → Raw Expr) (t : Tree) : Raw Expr := do
  let l ← entry levels t.symbol
  let [operand, tail] ← expect t [l.operand, l.tail] | crash (.count 2)
  let first ← convert operand
  let operations ← loop (operation convert t.symbol l) tail
  return Expr.fold first operations

def ofUnary (convert : Tree → Raw Expr) (t : Tree) : Raw Expr := do
  if t.shape.length = 2 then
    if (← item t.shape 1) = Symbol.unaryExpr.name then
      let [operator, argument] := t.children | crash (.count 2)
      return .unary (← lexeme operator) (← convert argument)
  unexpected t

def ofArgs (convert : Tree → Raw Expr) (t : Tree) : Raw (List Expr) := do
  if t.isLeaf then return []
  let [a, tail] ← expect t [.expr, .argsTail] | crash (.count 2)
  let first ← convert a
  let rest ← loop (afterComma .expr .argsTail convert) tail
  return first :: rest

def ofCall (convert : Tree → Raw Expr) (convertArgs : Tree → Raw (List Expr)) (t : Tree) : Raw Expr := do
  let [callee, tail] ← expect t [.memberExpr, .callTail] | crash (.count 2)
  let caller ← convert callee
  let calls ← loop (call convertArgs) tail
  return calls.foldl .call caller

def ofMember (convert : Tree → Raw Expr) (t : Tree) : Raw Expr := do
  let [primary, tail] ← expect t [.primaryExpr, .memberTail] | crash (.count 2)
  let base ← convert primary
  let accesses ← loop (access convert) tail
  return accesses.foldl (fun base a => .member base a.1 a.2) base

/-- The number of a lexeme, which must be a numeral. -/
def numeral (lexeme : String) : Raw Value :=
  match Numeral.read? lexeme with
  | some x => return .number x
  | none => crash (.numeral lexeme)

def ofPrimary (convert : Tree → Raw Expr) (t : Tree) : Raw Expr := do
  if t.shape = [Symbol.identifier.name] then return .identifier (← lexeme (← item t.children 0))
  else if t.shape = [Symbol.number.name] ∨ t.shape = [Symbol.string.name] then
    let a ← item t.children 0
    if a.token.isNone then unexpected t
    else
      let k ← token a
      if t.shape = [Symbol.number.name] then
        match k.value with
        | some v => return .number v
        | none => return .number (← numeral k.lexeme)
      else return .string (Expr.stringValue k)
  else if t.shape = [Symbol.objLiteral.name] ∨ t.shape = [Symbol.arrayLiteral.name] then
    convert (← item t.children 0)
  else unexpected t

def ofProperty (convert : Tree → Raw Expr) (t : Tree) : Raw Property := do
  let [key, value] ← expect t [.identifier, .propValue] | crash (.count 2)
  if value.isLeaf then return .entry (← lexeme key) none
  let [_, e] ← expect value [.colon, .expr] | crash (.count 2)
  return .entry (← lexeme key) (some (← convert e))

def ofObject (convert : Tree → Raw Expr) (t : Tree) : Raw Expr := do
  let [_, list, _] ← expect t [.leftBrace, .propList, .rightBrace] | crash (.count 3)
  let properties ← loop (entries .propList .prop .propTail (ofProperty convert)) list
  return .object properties

def ofArray (convert : Tree → Raw Expr) (t : Tree) : Raw Expr := do
  let [_, list, _] ← expect t [.leftBracket, .elements, .rightBracket] | crash (.count 3)
  let items ← loop (entries .elements .expr .elementsTail convert) list
  return .array items

def ofOptional (convert : Tree → Raw Expr) (t : Tree) : Raw (Option Expr) := do
  if t.isLeaf then return none
  let [e] ← expect t [.expr] | crash (.count 1)
  return some (← convert e)

/-! ## Trees -/

/-- The symbols whose nodes have a conversion into an expression. -/
def handlers (symbol : String) : Option Symbol := (Symbol.ofNonterminal? symbol).filter fun s => s ∈ expressions

mutual

def expr : Nat → Tree → Raw Expr
  | 0, _ => fault .tooDeep
  | n + 1, t => do exprNode n (← descend t)

def exprNode : Nat → Tree → Raw Expr
  | 0, _ => fault .tooDeep
  | n + 1, t =>
    if (handlers t.symbol).isNone then fault (.noConversion t.symbol)
    else do
      match ← entry handlers t.symbol with
      | .expr => ofWrapped (expr n) t
      | .assignExpr => ofAssign (expr n) t
      | .compExpr | .addExpr | .mulExpr => ofChain (expr n) t
      | .unaryExpr => ofUnary (expr n) t
      | .callExpr => ofCall (expr n) (argList n) t
      | .memberExpr => ofMember (expr n) t
      | .primaryExpr => ofPrimary (expr n) t
      | .objLiteral => ofObject (expr n) t
      | .arrayLiteral => ofArray (expr n) t
      | s => crash (.entry s.name)

def argList : Nat → Tree → Raw (List Expr)
  | 0, _ => fault .tooDeep
  | n + 1, t => ofArgs (expr n) t

end

def optExpr : Nat → Tree → Raw (Option Expr)
  | 0, _ => fault .tooDeep
  | n + 1, t => ofOptional (expr n) t

/-! ## Loops that do not crash -/

theorem round_afterComma (item tail : Symbol) (f : Tree → Conversion α) (t : Tree) :
    Round (Tree.afterComma item tail) f t (t.afterComma item tail) (afterComma item tail (fun c => of (f c)) t) := by
  rw [Tree.afterComma_eq, afterComma]
  cases t.isLeaf with
  | true => exact .done
  | false =>
    obtain ⟨hsplit, hexpect⟩ | ⟨cs, hsplit, hexpect, hchildren, hsymbols⟩ := expect_cases t [.comma, item, tail]
    · rw [hsplit, hexpect]
      exact .broken (t.malformed [.comma, item, tail])
    · obtain _ | ⟨-, _ | ⟨-, _ | ⟨-, _ | _⟩⟩⟩ := hsymbols
      rename_i c a rest
      rw [hsplit, hexpect]
      exact .push a rest (Tree.size_child (by simp [hchildren]))

theorem round_entries (list item tail : Symbol) (f : Tree → Conversion α) (t : Tree) :
    Round (Tree.entries list item tail) f t (t.entries list item tail)
      (entries list item tail (fun c => of (f c)) t) := by
  rw [Tree.entries_eq, entries]
  cases t.isLeaf with
  | true => exact .done
  | false =>
    obtain ⟨hsplit, hexpect⟩ | ⟨cs, hsplit, hexpect, hchildren, hsymbols⟩ := expect_cases t [item, tail]
    · rw [hsplit, hexpect]
      exact .broken (t.malformed [item, tail])
    · obtain _ | ⟨-, _ | ⟨-, _ | _⟩⟩ := hsymbols
      rename_i a after
      rw [hsplit, hexpect]
      simp only [Tree.following, ok_bind]
      cases after.isLeaf with
      | true => exact .last a
      | false =>
        obtain ⟨hsplit, hexpect⟩ | ⟨cs, hsplit, hexpect, hafter, hsymbols⟩ := expect_cases after [.comma, list]
        · rw [hsplit, hexpect]
          exact .lastBroken a (after.malformed [.comma, list])
        · obtain _ | ⟨-, _ | ⟨-, _ | _⟩⟩ := hsymbols
          rename_i c rest
          have hlt : rest.size < after.size := Tree.size_child (by simp [hafter])
          rw [hsplit, hexpect]
          exact .push a rest (hlt.trans (Tree.size_child (by simp [hchildren])))

theorem round_call (f : Tree → Conversion (List Expr)) (t : Tree) :
    Round Tree.calls f t t.calls (call (fun c => of (f c)) t) := by
  rw [Tree.calls_eq, call]
  cases t.isLeaf with
  | true => exact .done
  | false =>
    obtain ⟨hsplit, hexpect⟩ | ⟨cs, hsplit, hexpect, hchildren, hsymbols⟩ :=
      expect_cases t [.leftParen, .args, .rightParen, .callTail]
    · rw [hsplit, hexpect]
      exact .broken (t.malformed [.leftParen, .args, .rightParen, .callTail])
    · obtain _ | ⟨-, _ | ⟨-, _ | ⟨-, _ | ⟨-, _ | _⟩⟩⟩⟩ := hsymbols
      rename_i l a r rest
      rw [hsplit, hexpect]
      exact .push a rest (Tree.size_child (by simp [hchildren]))

theorem of_named (f : Tree → Conversion Expr) (a : Tree) :
    of (Expr.ofAccess f (.named a)) = lexeme a >>= fun x => .ok (.identifier x, false) := by
  rw [lexeme_eq, Expr.ofAccess]
  cases a.lexeme <;> rfl

theorem of_computed (f : Tree → Conversion Expr) (a : Tree) :
    of (Expr.ofAccess f (.computed a)) = of (f a) >>= fun e => .ok (e, true) := by
  rw [Expr.ofAccess]
  cases f a <;> rfl

theorem round_access (f : Tree → Conversion Expr) (t : Tree) :
    Round Tree.accesses (Expr.ofAccess f) t t.accesses (access (fun c => of (f c)) t) := by
  rw [Tree.accesses_eq, access]
  cases t.isLeaf with
  | true => exact .done
  | false =>
    obtain ⟨hsplit, hshape⟩ | ⟨cs, hsplit, hshape, hchildren, hsymbols⟩ :=
      shape_cases t [.dot, .identifier, .memberTail]
    · obtain ⟨hsplit', hshape'⟩ | ⟨cs, hsplit', hshape', hchildren, hsymbols⟩ :=
        shape_cases t [.leftBracket, .expr, .rightBracket, .memberTail]
      · rw [hsplit, hsplit', if_neg hshape, if_neg hshape']
        exact .broken t.unexpected
      · obtain _ | ⟨-, _ | ⟨-, _ | ⟨-, _ | ⟨-, _ | _⟩⟩⟩⟩ := hsymbols
        rename_i l a r rest
        have hlt : rest.size < t.size := Tree.size_child (by simp [hchildren])
        have hround : Round Tree.accesses (Expr.ofAccess f) t _ _ := .push (.computed a) rest hlt
        rw [of_computed, bind_assoc] at hround
        rw [hsplit, hsplit', if_neg hshape, if_pos hshape', hchildren]
        exact hround
    · obtain _ | ⟨-, _ | ⟨-, _ | ⟨-, _ | _⟩⟩⟩ := hsymbols
      rename_i d a rest
      have hlt : rest.size < t.size := Tree.size_child (by simp [hchildren])
      have hround : Round Tree.accesses (Expr.ofAccess f) t _ _ := .push (.named a) rest hlt
      rw [of_named, bind_assoc] at hround
      rw [hsplit, if_pos hshape, hchildren]
      exact hround

/-- The conversion of an operator and the operand on its right. -/
def operand (f : Tree → Conversion Expr) (o : Tree × Tree) : Conversion (String × Expr) :=
  return (← o.1.lexeme, ← f o.2)

theorem of_operand (f : Tree → Conversion Expr) (o a : Tree) :
    of (operand f (o, a)) = lexeme o >>= fun x => of (f a) >>= fun e => .ok (x, e) := by
  rw [lexeme_eq, operand]
  cases o.lexeme with
  | error e => rfl
  | ok x => cases f a <;> rfl

theorem round_operation (f : Tree → Conversion Expr) (l : Level) (t : Tree) :
    Round (Tree.operations l) (operand f) t (t.operations l)
      (operation (fun c => of (f c)) l.chain.name l t) := by
  rw [operation]
  cases hleaf : t.isLeaf with
  | true =>
    rw [Tree.operations_of_isLeaf hleaf]
    exact .done
  | false =>
    rw [if_neg Bool.false_ne_true]
    by_cases hlength : t.children.length = 2
    · obtain ⟨o, c, hchildren⟩ := List.length_eq_two.mp hlength
      have hitem : item t.children 1 = .ok c := by rw [hchildren]; rfl
      rw [if_neg (not_not_intro hlength), hitem, ok_bind]
      by_cases hc : c.symbol = l.chain.name
      · rw [Tree.operations_of_pair hchildren hc, if_neg (not_not_intro hc), hchildren]
        dsimp only
        obtain ⟨hsplit, hexpect⟩ | ⟨cs, hsplit, hexpect, hnext, hsymbols⟩ := expect_cases c [l.operand, l.tail]
        · rw [hsplit, hexpect]
          exact .broken (c.malformed [l.operand, l.tail])
        · obtain _ | ⟨-, _ | ⟨-, _ | _⟩⟩ := hsymbols
          rename_i a rest
          have hlt : rest.size < c.size := Tree.size_child (by simp [hnext])
          have hround : Round (Tree.operations l) (operand f) t _ _ :=
            .push (o, a) rest (hlt.trans (Tree.size_child (by simp [hchildren])))
          rw [of_operand] at hround
          simp only [bind_assoc] at hround
          rw [hsplit, hexpect]
          exact hround
      · rw [Tree.operations_of_not_pair hleaf, if_pos hc]
        · exact .broken t.unexpected
        · intro o' c' h
          rw [hchildren, List.cons.injEq, List.cons.injEq] at h
          exact h.2.1 ▸ hc
    · rw [Tree.operations_of_not_pair hleaf, if_pos hlength]
      · exact .broken t.unexpected
      · intro o c h
        exact absurd (h ▸ rfl) hlength

/-! ## Nodes that are looked at before they are taken apart -/

section Nodes
variable (f : Tree → Conversion Expr) (t : Tree)

theorem ofWrapped_eq : ofWrapped (fun c => of (f c)) t = of (Expr.ofWrapped f t) := by
  rw [ofWrapped, Expr.ofWrapped]
  obtain ⟨hsplit, hexpect⟩ | ⟨cs, hsplit, hexpect, -, hsymbols⟩ := expect_cases t [.assignExpr]
  · rw [hsplit, hexpect]; rfl
  · obtain _ | ⟨-, _ | _⟩ := hsymbols
    rw [hsplit, hexpect]
    rfl

theorem ofAssign_eq : ofAssign (fun c => of (f c)) t = of (Expr.ofAssign f t) := by
  rw [ofAssign, Expr.ofAssign]
  obtain ⟨hsplit, hexpect⟩ | ⟨cs, hsplit, hexpect, -, hsymbols⟩ := expect_cases t [.compExpr, .assignTail]
  · rw [hsplit, hexpect]; rfl
  · obtain _ | ⟨-, _ | ⟨-, _ | _⟩⟩ := hsymbols
    rename_i comp tail
    simp only [hsplit, hexpect, ok_bind, of_bind]
    refine bind_congr fun left => ?_
    cases tail.isLeaf with
    | true => rfl
    | false =>
      obtain ⟨hsplit, hexpect⟩ | ⟨cs, hsplit, hexpect, -, hsymbols⟩ := expect_cases tail [.equals, .assignExpr]
      · rw [hsplit, hexpect]; rfl
      · obtain _ | ⟨-, _ | ⟨-, _ | _⟩⟩ := hsymbols
        rw [hsplit, hexpect]
        simp

theorem ofChain_eq (l : Level) (hs : t.symbol = l.chain.name) :
    ofChain (fun c => of (f c)) t = of (Expr.ofChain f l t) := by
  have hentry : entry levels l.chain.name = .ok l := by cases l <;> rfl
  rw [ofChain, Expr.ofChain, hs, hentry, ok_bind]
  obtain ⟨hsplit, hexpect⟩ | ⟨cs, hsplit, hexpect, -, hsymbols⟩ := expect_cases t [l.operand, l.tail]
  · rw [hsplit, hexpect]; rfl
  · obtain _ | ⟨-, _ | ⟨-, _ | _⟩⟩ := hsymbols
    simp only [hsplit, hexpect, ok_bind, of_bind, loop_eq (round_operation f l)]
    rfl

theorem ofUnary_eq : ofUnary (fun c => of (f c)) t = of (Expr.ofUnary f t) := by
  rw [ofUnary]
  by_cases hlength : t.children.length = 2
  · obtain ⟨o, a, hchildren⟩ := List.length_eq_two.mp hlength
    have hshape : t.shape = [o.symbol, a.symbol] := by rw [Tree.shape, hchildren]; rfl
    rw [Expr.ofUnary, hchildren, hshape]
    by_cases ha : a.symbol = Symbol.unaryExpr.name
    · simp [item, ha]
    · simp [item, ha]
      rfl
  · have hshape : t.shape.length ≠ 2 := by rwa [Tree.shape, List.length_map]
    rw [if_neg hshape, Expr.ofUnary_of_not_pair f fun o a h => absurd (h ▸ rfl) hlength]
    rfl

theorem ofArgs_eq : ofArgs (fun c => of (f c)) t = of (Expr.ofArgs f t) := by
  rw [ofArgs, Expr.ofArgs]
  cases t.isLeaf with
  | true => rfl
  | false =>
    obtain ⟨hsplit, hexpect⟩ | ⟨cs, hsplit, hexpect, -, hsymbols⟩ := expect_cases t [.expr, .argsTail]
    · rw [hsplit, hexpect]; rfl
    · obtain _ | ⟨-, _ | ⟨-, _ | _⟩⟩ := hsymbols
      simp [hsplit, hexpect, loop_eq (round_afterComma .expr .argsTail f)]

theorem ofCall_eq (g : Tree → Conversion (List Expr)) :
    ofCall (fun c => of (f c)) (fun c => of (g c)) t = of (Expr.ofCall f g t) := by
  rw [ofCall, Expr.ofCall]
  obtain ⟨hsplit, hexpect⟩ | ⟨cs, hsplit, hexpect, -, hsymbols⟩ := expect_cases t [.memberExpr, .callTail]
  · rw [hsplit, hexpect]; rfl
  · obtain _ | ⟨-, _ | ⟨-, _ | _⟩⟩ := hsymbols
    simp [hsplit, hexpect, loop_eq (round_call g)]

theorem ofMember_eq : ofMember (fun c => of (f c)) t = of (Expr.ofMember f t) := by
  rw [ofMember, Expr.ofMember]
  obtain ⟨hsplit, hexpect⟩ | ⟨cs, hsplit, hexpect, -, hsymbols⟩ := expect_cases t [.primaryExpr, .memberTail]
  · rw [hsplit, hexpect]; rfl
  · obtain _ | ⟨-, _ | ⟨-, _ | _⟩⟩ := hsymbols
    simp [hsplit, hexpect, loop_eq (round_access f)]

/-- A leaf with a token, which is looked for before it is used. -/
theorem token_cases (t : Tree) :
    t.token = none ∨ ∃ k, t.token = some k ∧ t.token.isNone = false ∧ token t = .ok k := by
  cases h : t.token with
  | none => exact Or.inl rfl
  | some k => exact Or.inr ⟨k, rfl, rfl, by rw [token, h]; rfl⟩

theorem of_numberValue (k : Token) : of (return Expr.number (← Expr.numberValue k)) =
    match k.value with
    | some v => .ok (.number v)
    | none => do return .number (← numeral k.lexeme) := by
  rw [Expr.numberValue, numeral]
  cases k.value with
  | some v => rfl
  | none => cases Numeral.read? k.lexeme <;> rfl

theorem shape_ne_single {t : Tree} (h : ∀ a, t.children ≠ [a]) (s : String) : t.shape ≠ [s] := by
  intro hshape
  obtain ⟨a, ha, -⟩ := List.map_eq_singleton_iff.mp hshape
  exact h a ha

theorem ofPrimary_eq : ofPrimary (fun c => of (f c)) t = of (Expr.ofPrimary f t) := by
  by_cases hsingle : ∃ a, t.children = [a]
  · obtain ⟨a, hchildren⟩ := hsingle
    have hshape : ∀ s, t.shape = [s] ↔ a.symbol = s := fun s => by simp [Tree.shape, hchildren]
    have hitem : item [a] 0 = .ok a := rfl
    simp only [ofPrimary, Expr.ofPrimary, hchildren, hshape, hitem, ok_bind]
    by_cases hid : a.symbol = Symbol.identifier.name
    · simp [hid]
    rw [if_neg hid, if_neg hid]
    by_cases hnumber : a.symbol = Symbol.number.name
    · rw [if_pos (Or.inl hnumber), if_pos hnumber]
      obtain hk | ⟨k, hk, hsome, htoken⟩ := token_cases a
      · rw [hk]; rfl
      · rw [if_neg (hsome ▸ Bool.false_ne_true), hk, htoken, ok_bind, if_pos hnumber]
        exact (of_numberValue k).symm
    rw [if_neg hnumber]
    by_cases hstring : a.symbol = Symbol.string.name
    · rw [if_pos (Or.inr hstring), if_pos hstring]
      obtain hk | ⟨k, hk, hsome, htoken⟩ := token_cases a
      · rw [hk]; rfl
      · rw [if_neg (hsome ▸ Bool.false_ne_true), hk, htoken, ok_bind, if_neg hnumber]
        rfl
    rw [if_neg (by simp [hnumber, hstring]), if_neg hstring]
    split <;> rfl
  · have hchildren : ∀ a, t.children ≠ [a] := fun a h => hsingle ⟨a, h⟩
    rw [Expr.ofPrimary_of_not_single f hchildren]
    simp only [ofPrimary, shape_ne_single hchildren, or_self, if_false]
    rfl

theorem ofProperty_eq : ofProperty (fun c => of (f c)) t = of (Expr.ofProperty f t) := by
  rw [ofProperty, Expr.ofProperty]
  obtain ⟨hsplit, hexpect⟩ | ⟨cs, hsplit, hexpect, -, hsymbols⟩ := expect_cases t [.identifier, .propValue]
  · rw [hsplit, hexpect]; rfl
  · obtain _ | ⟨-, _ | ⟨-, _ | _⟩⟩ := hsymbols
    rename_i key value
    simp only [hsplit, hexpect, ok_bind]
    cases value.isLeaf with
    | true => simp
    | false =>
      obtain ⟨hsplit, hexpect⟩ | ⟨cs, hsplit, hexpect, -, hsymbols⟩ := expect_cases value [.colon, .expr]
      · rw [hsplit, hexpect]; rfl
      · obtain _ | ⟨-, _ | ⟨-, _ | _⟩⟩ := hsymbols
        simp [hsplit, hexpect]

theorem ofObject_eq : ofObject (fun c => of (f c)) t = of (Expr.ofObject f t) := by
  rw [ofObject, Expr.ofObject]
  obtain ⟨hsplit, hexpect⟩ | ⟨cs, hsplit, hexpect, -, hsymbols⟩ :=
    expect_cases t [.leftBrace, .propList, .rightBrace]
  · rw [hsplit, hexpect]; rfl
  · obtain _ | ⟨-, _ | ⟨-, _ | ⟨-, _ | _⟩⟩⟩ := hsymbols
    have hproperty : ofProperty (fun c => of (f c)) = fun c => of (Expr.ofProperty f c) :=
      funext (ofProperty_eq f)
    simp [hsplit, hexpect, hproperty, loop_eq (round_entries .propList .prop .propTail (Expr.ofProperty f))]

theorem ofArray_eq : ofArray (fun c => of (f c)) t = of (Expr.ofArray f t) := by
  rw [ofArray, Expr.ofArray]
  obtain ⟨hsplit, hexpect⟩ | ⟨cs, hsplit, hexpect, -, hsymbols⟩ :=
    expect_cases t [.leftBracket, .elements, .rightBracket]
  · rw [hsplit, hexpect]; rfl
  · obtain _ | ⟨-, _ | ⟨-, _ | ⟨-, _ | _⟩⟩⟩ := hsymbols
    simp [hsplit, hexpect, loop_eq (round_entries .elements .expr .elementsTail f)]

theorem ofOptional_eq : ofOptional (fun c => of (f c)) t = of (Expr.ofOptional f t) := by
  rw [ofOptional, Expr.ofOptional]
  cases t.isLeaf with
  | true => rfl
  | false =>
    obtain ⟨hsplit, hexpect⟩ | ⟨cs, hsplit, hexpect, -, hsymbols⟩ := expect_cases t [.expr]
    · rw [hsplit, hexpect]; rfl
    · obtain _ | ⟨-, _ | _⟩ := hsymbols
      simp [hsplit, hexpect]

end Nodes

/-! ## Trees that are converted without a crash -/

theorem exprNode_succ {n : ℕ} (hexpr : ∀ t, expr n t = of (Expr.ofTree n t))
    (hargs : ∀ t, argList n t = of (Expr.ofArgList n t)) (t : Tree) :
    exprNode (n + 1) t = of (Expr.ofNode (n + 1) t) := by
  have hexpr : expr n = fun t => of (Expr.ofTree n t) := funext hexpr
  have hargs : argList n = fun t => of (Expr.ofArgList n t) := funext hargs
  rw [exprNode, Expr.ofNode, hexpr, hargs, entry, handlers]
  cases hs : Symbol.ofNonterminal? t.symbol with
  | none => rfl
  | some s =>
    have hsymbol : t.symbol = s.name := (Symbol.ofNonterminal?_eq_some.mp hs).2
    cases s with
    | expr => exact ofWrapped_eq _ t
    | assignExpr => exact ofAssign_eq _ t
    | compExpr => exact ofChain_eq _ t .comparison hsymbol
    | addExpr => exact ofChain_eq _ t .additive hsymbol
    | mulExpr => exact ofChain_eq _ t .multiplicative hsymbol
    | unaryExpr => exact ofUnary_eq _ t
    | callExpr => exact ofCall_eq _ t _
    | memberExpr => exact ofMember_eq _ t
    | primaryExpr => exact ofPrimary_eq _ t
    | objLiteral => exact ofObject_eq _ t
    | arrayLiteral => exact ofArray_eq _ t
    | _ => rfl

/-- The conversions of expressions crash at no limit, but for numerals. -/
theorem expr_eq (n : ℕ) : (∀ t, expr n t = of (Expr.ofTree n t)) ∧ (∀ t, exprNode n t = of (Expr.ofNode n t)) ∧
    ∀ t, argList n t = of (Expr.ofArgList n t) := by
  induction n with
  | zero => exact ⟨fun _ => rfl, fun _ => rfl, fun _ => rfl⟩
  | succ n ih =>
    obtain ⟨hexpr, hnode, hargs⟩ := ih
    refine ⟨fun t => ?_, exprNode_succ hexpr hargs, fun t => ?_⟩
    · rw [expr, descend_eq, ok_bind, hnode, Expr.ofTree]
    · rw [argList, Expr.ofArgList, funext hexpr, ofArgs_eq]

theorem optExpr_eq (n : ℕ) (t : Tree) : optExpr n t = of (Expr.ofOptExpr n t) := by
  cases n with
  | zero => rfl
  | succ n => rw [optExpr, Expr.ofOptExpr, funext (expr_eq n).1, ofOptional_eq]

end Raw
end Lookahead
