import Mis.Outline
import Mis.Source.Position
import Mis.Symbol
import Mis.Token

/-!
Outlines of tokens, trees and symbol tables, for looking at the stages of a
compilation.
-/
namespace Mis
namespace Outline

def keywordName : Keyword → String
  | .funcKw => "Func"
  | .importKw => "Import"
  | .constKw => "Const"
  | .structKw => "Struct"
  | .forKw => "For"
  | .ifKw => "If"
  | .elseKw => "Else"
  | .returnKw => "Return"

def punctName : Punct → String
  | .define => "Declare"
  | .defineOwn => "StackDeclare"
  | .assign => "Assign"
  | .arrow => "Arrow"
  | .colon => "Colon"
  | .comma => "Comma"
  | .semicolon => "Semicolon"
  | .openParen => "OpenParanth"
  | .closeParen => "CloseParanth"
  | .openBrace => "OpenCurly"
  | .closeBrace => "CloseCurly"

def ofToken : Token → Outline
  | .keyword k => .leaf (keywordName k)
  | .punct p => .leaf (punctName p)
  | .identifier x => .tuple "Identifier" [.text x]
  | .number n => .tuple "Number" [.leaf (toString n)]
  | .text s => .tuple "Str" [.text s]

def ofLocated (t : Located Token) : Outline :=
  .record "PositionedToken"
    [("inner", ofToken t.value),
     ("position", .record "Position"
       [("ln", .nat t.position.line), ("col", .nat t.position.column)])]

def ofTokens (ts : List (Located Token)) : Outline :=
  .list (ts.map ofLocated)

def ofTy (t : Ty) : Outline :=
  .record "DataType" [("name", .text t.name), ("is_pointer", .bool t.isPointer)]

def ofTypedName (x : TypedName) : Outline :=
  .record "Param" [("name", .text x.name), ("param_type", ofTy x.type)]

def ofNodeId (id : NodeId) : Outline :=
  .tuple "NodeId" [.nat id]

def ofLiteral : Literal → Outline
  | .int n => .tuple "Number" [.leaf (toString n)]
  | .text s => .tuple "Str" [.text s]

mutual

def ofExpr : Expr NodeId → Outline
  | .literal i v => .record "Exp" [("id", ofNodeId i), ("kind", ofLiteral v)]
  | .name i x => .record "Exp" [("id", ofNodeId i), ("kind", .tuple "Identifier" [.text x])]
  | .call i callee args =>
    .record "Exp"
      [("id", ofNodeId i),
       ("kind", .tuple "Call"
         [.record "Call" [("callee", ofExpr callee), ("args", .list (ofExprs args))]])]

def ofExprs : List (Expr NodeId) → List Outline
  | [] => []
  | e :: es => ofExpr e :: ofExprs es

end

def ofStorage : Storage → Outline
  | .shared => .leaf "Alias"
  | .own => .leaf "Stack"

def ofKind (id : NodeId) (kind : Outline) : Outline :=
  .record "Statement" [("id", ofNodeId id), ("kind", kind)]

mutual

def ofStmt : Stmt NodeId → Outline
  | .declare i b x e =>
    ofKind i (.tuple "VarDec"
      [.record "VarDec" [("name", .text x), ("init", ofExpr e), ("binding", ofStorage b)]])
  | .assign i x e =>
    ofKind i (.tuple "Assign" [.record "Assign" [("name", .text x), ("value", ofExpr e)]])
  | .branch i c yes none =>
    ofKind i (.tuple "If"
      [.record "If"
        [("condition", ofExpr c), ("then", .list (ofStmts yes)), ("els", .leaf "None")]])
  | .branch i c yes (some no) =>
    ofKind i (.tuple "If"
      [.record "If"
        [("condition", ofExpr c), ("then", .list (ofStmts yes)),
         ("els", .tuple "Some" [.list (ofStmts no)])]])
  | .loop i c body =>
    ofKind i (.tuple "For"
      [.record "For" [("condition", ofExpr c), ("body", .list (ofStmts body))]])
  | .leave i e => ofKind i (.tuple "Return" [.option ofExpr e])
  | .call i e => ofKind i (.tuple "Call" [ofExpr e])

def ofStmts : List (Stmt NodeId) → List Outline
  | [] => []
  | s :: ss => ofStmt s :: ofStmts ss

end

def ofDecl : Decl NodeId → Outline
  | .function f =>
    .tuple "Fun"
      [.record "FunDec"
        [("name", .text f.name), ("params", .list (f.params.map ofTypedName)),
         ("return_type", .option ofTy f.result), ("body", .list (ofStmts f.body))]]
  | .struct s =>
    .tuple "Struct"
      [.record "StructDec" [("name", .text s.name), ("fields", .list (s.fields.map ofTypedName))]]
  | .constant c =>
    .tuple "Const"
      [.record "ConstDec"
        [("name", .text c.name), ("const_type", ofTy c.type), ("init", ofExpr c.init)]]

def ofModule (m : Module NodeId) : Outline :=
  .record "Module"
    [("imports", .list (m.imports.map .text)), ("declarations", .list (m.decls.map ofDecl))]

def ofSymbol (s : Symbol) : Outline :=
  .record "Symbol"
    [("external_name", .text s.externalName),
     ("params", .list (s.params.map ofTy)), ("return_type", .option ofTy s.result)]

def ofSymbolTable (t : SymbolTable) : Outline :=
  .record "SymbolTable"
    [("symbols", .list (t.symbols.entries.reverse.map fun (name, symbols) =>
       .tuple "" [.text name, .list (symbols.map ofSymbol)])),
     ("types", .list (t.types.map .text)),
     ("overloaded", .list (t.overloaded.map .text))]

end Outline

/-- What a stage of the compilation made, to be looked at. -/
inductive Dump where
  | tokens (ts : List (Located Token))
  | tree (m : Module NodeId)
  | symbols (t : SymbolTable)

def Dump.render : Dump → String
  | .tokens ts => "&tokens = " ++ (Outline.ofTokens ts).render 0 ++ "\n"
  | .tree m => "&module = " ++ (Outline.ofModule m).render 0 ++ "\n"
  | .symbols t => "&symbols = " ++ (Outline.ofSymbolTable t).render 0 ++ "\n"

end Mis
