import Mis.Text.Quoted

/-!
The words of the language: keywords, punctuation, and the three classes that
carry a value. `spelling` is how a fixed word is written in a source, `describe`
is how a message speaks of a token.
-/
namespace Mis

inductive Keyword where
  | funcKw | importKw | constKw | structKw | forKw | ifKw | elseKw | returnKw
deriving DecidableEq, Repr

namespace Keyword

def all : List Keyword :=
  [.funcKw, .importKw, .constKw, .structKw, .forKw, .ifKw, .elseKw, .returnKw]

def spelling : Keyword → String
  | .funcKw => "func"
  | .importKw => "import"
  | .constKw => "const"
  | .structKw => "struct"
  | .forKw => "for"
  | .ifKw => "if"
  | .elseKw => "else"
  | .returnKw => "return"

def ofSpelling? (word : String) : Option Keyword :=
  all.find? (·.spelling = word)

end Keyword

inductive Punct where
  | define | defineOwn | assign | arrow | colon | comma | semicolon
  | openParen | closeParen | openBrace | closeBrace
deriving DecidableEq, Repr

namespace Punct

def spelling : Punct → String
  | .define => ":="
  | .defineOwn => "::="
  | .assign => "="
  | .arrow => "->"
  | .colon => ":"
  | .comma => ","
  | .semicolon => ";"
  | .openParen => "("
  | .closeParen => ")"
  | .openBrace => "\x7b"
  | .closeBrace => "\x7d"

/-- The punctuation that one character spells. -/
def ofChar? : Char → Option Punct
  | '=' => some .assign
  | ':' => some .colon
  | ',' => some .comma
  | ';' => some .semicolon
  | '(' => some .openParen
  | ')' => some .closeParen
  | '{' => some .openBrace
  | '}' => some .closeBrace
  | _ => none

end Punct

inductive Token where
  | keyword (word : Keyword)
  | punct (mark : Punct)
  | identifier (name : String)
  | number (value : Int)
  | text (value : String)
deriving DecidableEq, Repr

namespace Token

/-- Keywords win over identifiers. -/
def ofWord (word : String) : Token :=
  match Keyword.ofSpelling? word with
  | some k => .keyword k
  | none => .identifier word

def describe : Token → String
  | .keyword k => "'" ++ k.spelling ++ "'"
  | .punct p => "'" ++ p.spelling ++ "'"
  | .identifier name => "identifier '" ++ name ++ "'"
  | .number n => "number " ++ toString n
  | .text s => "string " ++ Text.quote s

/-- Between a name and a value this token makes a declaration or an assignment. -/
def isBindingMark : Token → Bool
  | .punct .define | .punct .defineOwn | .punct .assign => true
  | _ => false

/-- A statement that may lack its last part lacks it before this token. -/
def endsStatement : Token → Bool
  | .punct .semicolon | .punct .closeBrace => true
  | _ => false

end Token
end Mis
