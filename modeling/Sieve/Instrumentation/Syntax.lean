import Mathlib.Data.List.Basic

/-!
# Decorated syntax trees

The part of the syntax trees of Go files that the instrumentation looks into or writes. Every other
expression, statement, type and declaration is kept as its text. `Clear` says that a piece of text has none
of some names in it.
-/

namespace Sieve.Instrumentation

/-- `path` is the import path of the package that a qualified name comes from, and empty for a local
one. -/
inductive Expr
  | ident (name path : String)
  | starExpr (x : Expr)
  | selectorExpr (x : Expr) (sel : String)
  | callExpr (function : Expr) (args : List Expr)
  | other (text : String)

/-- Which assignment: `=`, `:=` or one with an operator. -/
inductive Token
  | assign
  | define
  | other (text : String)

/-- `decs` are the decorations at the end of the statement. -/
inductive Stmt
  | exprStmt (x : Expr) (decs : List String)
  | assignStmt (lhs : List Expr) (tok : Token) (rhs : List Expr) (decs : List String)
  | deferStmt (call : Expr) (decs : List String)
  | returnStmt (results : List Expr) (decs : List String)
  | rangeStmt (clause : String) (body : List Stmt) (decs : List String)
  | other (text : String) (decs : List String)

/-- A parameter list of a function or the fields of a structure. -/
structure Field where
  names : List String
  type : Expr
  decs : List String

/-- `recv` is absent for a function that is no method, `params` are the names of its parameters and of
its results, and `results` is the number of the latter. -/
structure FuncDecl where
  name : String
  recv : Option (List Field)
  params : List String
  results : Nat
  body : List Stmt

inductive TypeExpr
  | structType (fields : List Field)
  | other (text : String)

structure TypeSpec where
  name : String
  type : TypeExpr

inductive Spec
  | typeSpec (spec : TypeSpec)
  | other (text : String)

/-- `isType` tells the declarations of types from those of imports, constants and variables. -/
inductive Decl
  | funcDecl (decl : FuncDecl)
  | genDecl (isType : Bool) (specs : List Spec)

structure File where
  decls : List Decl

/-! ### Names -/

/-- The words of a text, keywords included. -/
def textWords (text : String) : List String :=
  (text.toList.splitOnP fun c => !(c.isAlphanum || c == '_')).map String.ofList

mutual

/-- The words of the text of an expression. -/
def Expr.words : Expr → List String
  | .ident name _ => textWords name
  | .starExpr x => x.words
  | .selectorExpr x sel => textWords sel ++ x.words
  | .callExpr function args => function.words ++ exprsWords args
  | .other text => textWords text

def exprsWords : List Expr → List String
  | [] => []
  | e :: rest => e.words ++ exprsWords rest

end

mutual

/-- The words of the text of a statement. -/
def Stmt.words : Stmt → List String
  | .exprStmt x _ => x.words
  | .assignStmt lhs _ rhs _ => exprsWords lhs ++ exprsWords rhs
  | .deferStmt call _ => call.words
  | .returnStmt results _ => exprsWords results
  | .rangeStmt clause body _ => textWords clause ++ stmtsWords body
  | .other text _ => textWords text

def stmtsWords : List Stmt → List String
  | [] => []
  | s :: rest => s.words ++ stmtsWords rest

end

/-- None of the words is in `X`. -/
def Clear (X words : List String) : Prop := ∀ x ∈ words, x ∉ X

instance (X words : List String) : Decidable (Clear X words) := inferInstanceAs (Decidable (∀ _ ∈ _, _))

/-- The names that a function declares before its body. -/
def FuncDecl.declared (decl : FuncDecl) : List String :=
  (decl.recv.getD []).flatMap Field.names ++ decl.params

end Sieve.Instrumentation
