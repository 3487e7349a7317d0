import Lox.Token.Basic

/-!
# Syntax trees

Expressions and statements. Each node has an identifier, which is handed out when the node is built
and tells nodes apart; tokens are kept where an error may have to name a line. There is no node
for `for`: such a loop is built from blocks and `while`.
-/
namespace Lox

abbrev NodeId := Nat

inductive Expr where
  | literal (id : NodeId) (value : Literal)
  | var (id : NodeId) (name : Token)
  | assign (id : NodeId) (name : Token) (value : Expr)
  | unary (id : NodeId) (op : Token) (operand : Expr)
  | binary (id : NodeId) (left : Expr) (op : Token) (right : Expr)
  | logical (id : NodeId) (left : Expr) (op : Token) (right : Expr)
  | grouping (id : NodeId) (inner : Expr)
  | call (id : NodeId) (callee : Expr) (paren : Token) (args : List Expr)

inductive Stmt where
  | expression (id : NodeId) (value : Expr)
  | print (id : NodeId) (value : Expr)
  | varDecl (id : NodeId) (name : Token) (init : Option Expr)
  | block (id : NodeId) (body : List Stmt)
  | ifThen (id : NodeId) (condition : Expr) (yes : Stmt)
  | ifElse (id : NodeId) (condition : Expr) (yes no : Stmt)
  | whileLoop (id : NodeId) (condition : Expr) (body : Stmt)
  | funDecl (id : NodeId) (name : Token) (params : List Token) (body : List Stmt)
  | ret (id : NodeId) (keyword : Token) (value : Option Expr)

/-- A program is a list of statements. -/
abbrev Program := List Stmt

def Expr.id : Expr → NodeId
  | literal id .. | var id .. | assign id .. | unary id .. | binary id .. | logical id ..
  | grouping id .. | call id .. => id

def Stmt.id : Stmt → NodeId
  | expression id .. | print id .. | varDecl id .. | block id .. | ifThen id .. | ifElse id ..
  | whileLoop id .. | funDecl id .. | ret id .. => id

end Lox
