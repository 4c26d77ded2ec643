import TypedScheme.Expr.Basic

/-!
# Syntax trees as listings

A listing shows the structure of an expression, one field to a line. It is made in two steps: the
expression becomes a tree of records, lists and scalars, and the tree becomes text.
-/

set_option autoImplicit false

namespace TypedScheme

/-- A tree of named fields. -/
inductive Listing where
  | scalar (text : String)
  | record (name : String) (fields : List (String × Listing))
  | items (name : String) (elements : List Listing)

namespace Listing

/-- Blanks for a depth of indentation. -/
def indent (depth : Nat) : String := String.ofList (List.replicate (2 * depth) ' ')

/-- Lines between braces after a name, at a depth. -/
def braced (name lines : String) (depth : Nat) : String :=
  if lines = "" then name ++ "\x7b\x7d" else name ++ "\x7b\n" ++ lines ++ indent depth ++ "\x7d"

mutual

/-- A tree as text whose first line starts at a depth. -/
def renderAt (depth : Nat) : Listing → String
  | scalar text => text
  | record name fields => braced name (renderFields (depth + 1) fields) depth
  | items name elements => braced name (renderItems (depth + 1) elements) depth

/-- Fields, each on lines of its own. -/
def renderFields (depth : Nat) : List (String × Listing) → String
  | [] => ""
  | (field, value) :: rest =>
    indent depth ++ field ++ ": " ++ renderAt depth value ++ ",\n" ++ renderFields depth rest

/-- Elements, each on lines of its own. -/
def renderItems (depth : Nat) : List Listing → String
  | [] => ""
  | value :: rest => indent depth ++ renderAt depth value ++ ",\n" ++ renderItems depth rest

end

/-- A tree as text. -/
def render (l : Listing) : String := renderAt 0 l

/-- Text in quotes. -/
def text (s : String) : Listing := scalar (Text.Quoted.text s)

/-- The value of a string in quotes. -/
def pieces (ps : Text.Pieces) : Listing := scalar (Text.Quoted.pieces ps)

/-- A truth value. -/
def flag (b : Bool) : Listing := scalar (if b then "true" else "false")

/-- The mark of a part that is not there. -/
def none : Listing := scalar "nil"

end Listing

/-- The listing of a token: its kind and its text. -/
def Token.listing (t : Token) : Listing :=
  .record "lexer.Token" [("Type", .scalar (toString t.kind.code)), ("Data", .text t.text)]

namespace Ty

mutual

/-- The listing of a type. -/
def listing : Ty → Listing
  | absent => .none
  | base b => .scalar (toString b.code)
  | var x => .record "ast.TypeVar" [("ID", .scalar (toString x))]
  | pair a d => .record "ast.Pair" [("Car", listing a), ("Cdr", listing d)]
  | proc ps r =>
    .record "ast.Proc" [("Params", .items "[]ast.Type" (listings ps)), ("Return", listing r)]

/-- The listings of types. -/
def listings : List Ty → List Listing
  | [] => []
  | t :: ts => listing t :: listings ts

end

end Ty

/-- The listing of a value. -/
def Value.listing : Value → Listing
  | missing => .none
  | number n => .scalar n.renderExact
  | boolean b => .flag b
  | string s => .pieces s
  | symbol name => .text name
  | empty => .record "ast.EmptyVal" []
  | pair a d => .record "ast.PairVal" [("Car", a.listing), ("Cdr", d.listing)]

/-- The listing of a declaration. -/
def Decl.listing (d : Decl) : Listing :=
  .record "&ast.VarDecl"
    [("Var", d.token.listing), ("Type", (d.ty?.map Ty.listing).getD .none)]

namespace Expr

mutual

/-- The listing of an expression. -/
def listing : Expr → Listing
  | missing => .none
  | number t n => .record "&ast.NumExp" [("Lit", t.listing), ("Value", .scalar n.renderExact)]
  | boolean t b => .record "&ast.BoolExp" [("Lit", t.listing), ("Value", .flag b)]
  | string t s => .record "&ast.StrExp" [("Lit", t.listing), ("Value", .pieces s)]
  | quoted mark v _ => .record "&ast.LitExp" [("Quote", mark.listing), ("Value", v.listing)]
  | primitive t => .record "&ast.PrimOp" [("Op", t.listing)]
  | var t => .record "&ast.VarRef" [("Var", t.listing)]
  | cond _ test consequent alternative =>
    .record "&ast.IfExp"
      [("Test", listing test), ("Then", listing consequent), ("Alt", listing alternative)]
  | lambda _ params result body =>
    .record "&ast.ProcExp"
      [("Params", .items "[]*ast.VarDecl" (params.map fun p => p.decl.listing)),
        ("Return", result.listing), ("Body", .items "[]ast.Node" (listings body))]
  | app _ operator operands =>
    .record "&ast.AppExp"
      [("Operator", listing operator), ("Operands", .items "[]ast.Node" (listings operands))]
  | letin _ bindings body =>
    .record "&ast.LetExp"
      [("Bindings", .items "[]*ast.Binding" (bindingListings bindings)),
        ("Body", .items "[]ast.Node" (listings body))]
  | letrec _ bindings body =>
    .record "&ast.LetrecExp"
      [("Bindings", .items "[]*ast.Binding" (bindingListings bindings)),
        ("Body", .items "[]ast.Node" (listings body))]
  | define _ decl value =>
    .record "&ast.DefineExp" [("Var", decl.listing), ("Value", listing value)]
  | program forms => .record "&ast.Program" [("Forms", .items "[]ast.Node" (listings forms))]

/-- The listings of expressions. -/
def listings : List Expr → List Listing
  | [] => []
  | e :: es => listing e :: listings es

/-- The listings of bindings. -/
def bindingListings : List (Decl × Expr) → List Listing
  | [] => []
  | (decl, value) :: rest =>
    .record "&ast.Binding" [("Var", decl.listing), ("Value", listing value)]
      :: bindingListings rest

end

end Expr

end TypedScheme
