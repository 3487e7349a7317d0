import Lox.Deep
import Lox.Tree.Basic

/-!
# Trees as text

A node is written in parentheses, with its name first and its parts after it, and a token as its
text and its line. With identifiers, each node has its number in front.
-/
namespace Lox

/-- The text of a constant. -/
def Literal.text : Literal → String
  | number x => numberText x
  | string s => s
  | boolean true => "true"
  | boolean false => "false"
  | nil => "nil"

namespace Tree

def literalText : Literal → String
  | .string s => "\"" ++ s ++ "\""
  | v => v.text

def tokenText (t : Token) : String := t.lexeme ++ "@" ++ toString t.line

/-- The number in front of a node. -/
def mark (ids : Bool) (id : NodeId) : String := if ids then "#" ++ toString id ++ ":" else ""

/-- Writes at the end of a text. -/
abbrev Writer := Deep Empty String Unit

def write (text : String) : Writer := .of fun out => .ok () (out ++ text)

/-- A node: its number, its name and its parts, in parentheses. -/
def writeNode (ids : Bool) (id : NodeId) (name : String) (parts : Writer) : Writer := do
  write (mark ids id ++ "(" ++ name)
  parts
  write ")"

mutual

def writeExpr (ids : Bool) (e : Expr) : Writer :=
  .later fun _ =>
    match e with
    | .literal id v => write (mark ids id ++ literalText v)
    | .var id name => writeNode ids id ("get " ++ tokenText name) (pure ())
    | .assign id name value => writeNode ids id ("set " ++ tokenText name ++ " ") (writeExpr ids value)
    | .unary id op operand => writeNode ids id ("un " ++ tokenText op ++ " ") (writeExpr ids operand)
    | .binary id left op right => writeNode ids id ("bin " ++ tokenText op ++ " ") do
      writeExpr ids left
      write " "
      writeExpr ids right
    | .logical id left op right => writeNode ids id ("logic " ++ tokenText op ++ " ") do
      writeExpr ids left
      write " "
      writeExpr ids right
    | .grouping id inner => writeNode ids id "group " (writeExpr ids inner)
    | .call id callee paren args => writeNode ids id ("call " ++ tokenText paren ++ " ") do
      writeExpr ids callee
      writeExprs ids args

/-- Expressions, each behind a space. -/
def writeExprs (ids : Bool) : List Expr → Writer
  | [] => return ()
  | e :: es => do
    write " "
    writeExpr ids e
    writeExprs ids es

end

def writeOptionalExpr (ids : Bool) : Option Expr → Writer
  | none => return ()
  | some e => do
    write " "
    writeExpr ids e

mutual

def writeStmt (ids : Bool) (s : Stmt) : Writer :=
  .later fun _ =>
    match s with
    | .expression id e => writeNode ids id "expr " (writeExpr ids e)
    | .print id e => writeNode ids id "print " (writeExpr ids e)
    | .varDecl id name init => writeNode ids id ("var " ++ tokenText name) (writeOptionalExpr ids init)
    | .block id body => writeNode ids id "block" (writeStmts ids body)
    | .ifThen id condition yes => writeNode ids id "if " do
      writeExpr ids condition
      write " "
      writeStmt ids yes
    | .ifElse id condition yes no => writeNode ids id "if " do
      writeExpr ids condition
      write " "
      writeStmt ids yes
      write " "
      writeStmt ids no
    | .whileLoop id condition body => writeNode ids id "while " do
      writeExpr ids condition
      write " "
      writeStmt ids body
    | .funDecl id name params body =>
      writeNode ids id ("fun " ++ tokenText name ++ " (" ++ " ".intercalate (params.map tokenText) ++ ")")
        (writeStmts ids body)
    | .ret id keyword value =>
      writeNode ids id ("return " ++ tokenText keyword) (writeOptionalExpr ids value)

/-- Statements, each behind a space. -/
def writeStmts (ids : Bool) : List Stmt → Writer
  | [] => return ()
  | s :: ss => do
    write " "
    writeStmt ids s
    writeStmts ids ss

end

end Tree

/-- The text of a statement, with node identifiers if `ids`. -/
def Stmt.render (ids : Bool) (s : Stmt) : String :=
  match (Tree.writeStmt ids s).run "" with
  | .ok _ out => out
  | .error e _ => nomatch e

end Lox
