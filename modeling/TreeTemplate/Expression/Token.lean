import TreeTemplate.Number.Layout

/-!
Tokens of the expression language and where they stand in the source.
-/

namespace TreeTemplate

inductive Punct where
  | plus | minus | star | slash | percent
  | bang | question | colon | dot | comma
  | assign | equal | notEqual | strictEqual | strictNotEqual
  | less | lessEqual | greater | greaterEqual
  | andAnd | orOr
  | leftParen | rightParen | leftBracket | rightBracket | leftBrace | rightBrace
  deriving DecidableEq, Repr

def Punct.text : Punct → String
  | plus => "+"
  | minus => "-"
  | star => "*"
  | slash => "/"
  | percent => "%"
  | bang => "!"
  | question => "?"
  | colon => ":"
  | dot => "."
  | comma => ","
  | assign => "="
  | equal => "=="
  | notEqual => "!="
  | strictEqual => "==="
  | strictNotEqual => "!=="
  | less => "<"
  | lessEqual => "<="
  | greater => ">"
  | greaterEqual => ">="
  | andAnd => "&&"
  | orOr => "||"
  | leftParen => "("
  | rightParen => ")"
  | leftBracket => "["
  | rightBracket => "]"
  | leftBrace => "\x7b"
  | rightBrace => "\x7d"

/-- Words with a meaning of their own. -/
inductive Keyword where
  | true
  | false
  /-- Written `null` or `undefined`. -/
  | null
  deriving DecidableEq, Repr

def Keyword.text : Keyword → String
  | .true => "true"
  | .false => "false"
  | .null => "null"

inductive Token where
  | number (x : Float)
  /-- A string literal, its escapes resolved. -/
  | string (s : String)
  | identifier (name : String)
  | keyword (k : Keyword)
  | punct (p : Punct)
  deriving DecidableEq

def Token.text : Token → String
  | number x => Number.Layout.plain.text x
  | string s => "'" ++ s ++ "'"
  | identifier name => name
  | keyword k => k.text
  | punct p => p.text

/-- A token with the byte offsets of its source text: `start` inclusive, `stop` exclusive. -/
structure Lexeme where
  token : Token
  start : Nat
  stop : Nat

/-- The byte length of the token's source text. -/
def Lexeme.size (l : Lexeme) : Nat :=
  l.stop - l.start

end TreeTemplate
