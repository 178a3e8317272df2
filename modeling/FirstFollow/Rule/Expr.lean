import FirstFollow.Rule.Sugar

/-!
# Rule expressions

The expressions that trees are built with: values, the building functions and operators, and the
plain constructors, which neither promote nor splice. Evaluation goes depth first and left to
right, and ends with the first error.
-/

namespace FirstFollow

/-- An expression for a rule or another value. -/
inductive Expr where
  | value (value : Foreign)
  | char (arg : Expr)
  | string (arg : Expr)
  | ref (arg : Expr)
  | seq (args : List Expr)
  | alt (args : List Expr)
  | rep (args : List Expr)
  | opt (args : List Expr)
  | group (args : List Expr)
  | exclude (source excluded : Expr)
  /-- Operands joined by the sequence operator, from the left. -/
  | plus (first : Expr) (rest : List Expr)
  /-- Operands joined by the choice operator, from the left. -/
  | or (first : Expr) (rest : List Expr)
  | plainSequence (args : List Expr)
  | plainAlternative (args : List Expr)
  | plainRepetition (arg : Expr)
  | plainOption (arg : Expr)
  | plainGroup (arg : Expr)
  | plainExclude (source excluded : Expr)
  deriving Repr, Inhabited

mutual

/-- The rule or other value of an expression. -/
def Expr.eval : Expr → Except Error Rule
  | .value v => .ok (.foreign v)
  | .char arg => do Rule.char (← arg.eval)
  | .string arg => do Rule.spellOut (← arg.eval)
  | .ref arg => do return Rule.ref (← arg.eval)
  | .seq args => do Rule.seq (← evalAll args)
  | .alt args => do Rule.alt (← evalAll args)
  | .rep args => do Rule.rep (← evalAll args)
  | .opt args => do Rule.opt (← evalAll args)
  | .group args => do Rule.bracket (← evalAll args)
  | .exclude source excluded => do
    let s ← source.eval
    let e ← excluded.eval
    Rule.difference s e
  | .plus first rest => do
    let r ← first.eval
    let rs ← evalAll rest
    rs.foldlM Rule.plus r
  | .or first rest => do
    let r ← first.eval
    let rs ← evalAll rest
    rs.foldlM Rule.or r
  | .plainSequence args => do return .sequence (← evalAll args)
  | .plainAlternative args => do Rule.choice (← evalAll args)
  | .plainRepetition arg => do return .repetition (← arg.eval)
  | .plainOption arg => do return .option (← arg.eval)
  | .plainGroup arg => do return .group (← arg.eval)
  | .plainExclude source excluded => do
    let s ← source.eval
    let e ← excluded.eval
    return .exclude s e

/-- The values of expressions, from left to right. -/
def Expr.evalAll : List Expr → Except Error (List Rule)
  | [] => .ok []
  | arg :: args => do
    let r ← arg.eval
    let rs ← evalAll args
    return r :: rs

end

/-- An expression for a definition. A plain one takes its value as it is. -/
structure DefinitionExpr where
  name : String
  rule : Expr
  plain : Bool
  deriving Repr

def DefinitionExpr.eval (d : DefinitionExpr) : Except Error Definition := do
  let rule ← d.rule.eval
  if d.plain then return ⟨d.name, rule⟩ else Definition.define d.name rule

/-- The definitions of expressions, in order. -/
def DefinitionExpr.evalAll (definitions : List DefinitionExpr) :
    Except Error (List Definition) :=
  definitions.mapM eval

end FirstFollow
