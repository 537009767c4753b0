import TreeTemplate.Expression.Basic
import TreeTemplate.Expression.Lexer

/-!
Reading expressions from tokens by operator precedence.

An operand is read first; then operators fold it into larger and larger trees while they bind at
least as tightly as the level asked for.  Each nested expression, prefix operator, suffix and fold
takes one level of `room`, out of `nestingLimit`; what an operand took is given back once it is complete.
-/

namespace TreeTemplate.Parser

/-- How tightly operators bind, loosest first. -/
inductive Level where
  | assignment
  | conditional
  | or
  | and
  | equality
  | relational
  | additive
  | multiplicative
  | unary
  deriving DecidableEq, Repr

/-- Position in the order of binding. -/
def Level.rank : Level → Nat
  | assignment => 1
  | conditional => 2
  | or => 3
  | and => 4
  | equality => 5
  | relational => 6
  | additive => 7
  | multiplicative => 8
  | unary => 9

/-- What an operator token makes of the operand before it. -/
inductive Fold where
  | assign
  | conditional
  /-- The right operand is read at the given level. -/
  | binary (op : BinaryOp) (right : Level)
  | lazy (op : LazyOp) (right : Level)

/-- The operator that a token is, and its level.  A right operand of a left-associative operator is
read one level tighter. -/
def operator? : Token → Option (Level × Fold)
  | .punct .assign => some (.assignment, .assign)
  | .punct .question => some (.conditional, .conditional)
  | .punct .orOr => some (.or, .lazy .or .and)
  | .punct .andAnd => some (.and, .lazy .and .equality)
  | .punct .equal => some (.equality, .binary .equal .relational)
  | .punct .notEqual => some (.equality, .binary .notEqual .relational)
  | .punct .strictEqual => some (.equality, .binary .strictEqual .relational)
  | .punct .strictNotEqual => some (.equality, .binary .strictNotEqual .relational)
  | .punct .less => some (.relational, .binary .less .additive)
  | .punct .lessEqual => some (.relational, .binary .lessEqual .additive)
  | .punct .greater => some (.relational, .binary .greater .additive)
  | .punct .greaterEqual => some (.relational, .binary .greaterEqual .additive)
  | .punct .plus => some (.additive, .binary .add .multiplicative)
  | .punct .minus => some (.additive, .binary .subtract .multiplicative)
  | .punct .star => some (.multiplicative, .binary .multiply .unary)
  | .punct .slash => some (.multiplicative, .binary .divide .unary)
  | .punct .percent => some (.multiplicative, .binary .modulo .unary)
  | _ => none

/-- The fold of a token that binds at least as tightly as `level`. -/
def foldAt? (level : Level) (t : Token) : Option Fold :=
  match operator? t with
  | some (l, fold) => if level.rank ≤ l.rank then some fold else none
  | none => none

def prefixOp? : Token → Option UnaryOp
  | .punct .bang => some .not
  | .punct .minus => some .negate
  | .punct .plus => some .plus
  | _ => none

/-- The offset of the next token, or of the end of the source. -/
def position (stop : Nat) : List Lexeme → Nat
  | l :: _ => l.start
  | [] => stop

def unexpected (stop : Nat) : List Lexeme → ParseError
  | l :: _ => .unexpectedToken l.token.text l.start
  | [] => .unexpectedEnd stop

def missing (stop : Nat) (what : String) : List Lexeme → ParseError
  | l :: _ => .expectedToken what l.start
  | [] => .unexpectedEnd stop

/-- The tokens after an obligatory `p`. -/
def expect (stop : Nat) (p : Punct) (ts : List Lexeme) : Except ParseError (List Lexeme) :=
  match ts with
  | l :: rest =>
    if l.token = .punct p then .ok rest else .error (missing stop ("'" ++ p.text ++ "'") ts)
  | [] => .error (missing stop "" ts)

/-- The property name that a token after a dot is.  Keywords are names there. -/
def propertyName? : Token → Option String
  | .identifier name => some name
  | .keyword k => some k.text
  | _ => none

def objectKey? : Token → Option String
  | .identifier name => some name
  | .string s => some s
  | .number x => some (Number.Layout.plain.text x)
  | _ => none

def literal? : Token → Option Literal
  | .number x => some (.ofFloat x)
  | .string s => some (.string s)
  | .keyword .true => some (.bool true)
  | .keyword .false => some (.bool false)
  | .keyword .null => some .null
  | _ => none

def nextIs (p : Punct) : List Lexeme → Bool
  | l :: _ => l.token = .punct p
  | [] => false

mutual

/-- An expression whose operators bind at least as tightly as `level`. -/
def expression (stop : Nat) :
    Nat → Nat → Level → List Lexeme → Except ParseError (Expr × List Lexeme)
  | fuel + 1, room + 1, level, ts => do
    let (left, ts) ← operand stop fuel room ts
    folds stop fuel room level left ts
  | _, _, _, ts => .error (.nestingTooDeep (position stop ts))

/-- Operators after a complete operand. -/
def folds (stop : Nat) :
    Nat → Nat → Level → Expr → List Lexeme → Except ParseError (Expr × List Lexeme)
  | 0, _, _, _, ts => .error (.nestingTooDeep (position stop ts))
  | _ + 1, _, _, left, [] => .ok (left, [])
  | fuel + 1, room, level, left, l :: rest =>
    match foldAt? level l.token, room with
    | none, _ => .ok (left, l :: rest)
    | some _, 0 => .error (.nestingTooDeep l.start)
    | some .assign, room + 1 =>
      match left with
      | .identifier name => do
        let (value, ts) ← expression stop fuel room .assignment rest
        folds stop fuel room level (.assign name value) ts
      | _ => .error (.invalidAssignment l.start)
    | some .conditional, room + 1 => do
      let (yes, ts) ← expression stop fuel room .assignment rest
      let ts ← expect stop .colon ts
      let (no, ts) ← expression stop fuel room .conditional ts
      folds stop fuel room level (.conditional left yes no) ts
    | some (.binary op tighter), room + 1 => do
      let (right, ts) ← expression stop fuel room tighter rest
      folds stop fuel room level (.binary op left right) ts
    | some (.lazy op tighter), room + 1 => do
      let (right, ts) ← expression stop fuel room tighter rest
      folds stop fuel room level (.lazy op left right) ts

/-- An operand with its prefix operators and suffixes. -/
def operand (stop : Nat) : Nat → Nat → List Lexeme → Except ParseError (Expr × List Lexeme)
  | 0, _, ts => .error (.nestingTooDeep (position stop ts))
  | _ + 1, _, [] => .error (.unexpectedEnd stop)
  | fuel + 1, room, l :: rest =>
    match prefixOp? l.token, room with
    | some _, 0 => .error (.nestingTooDeep (position stop rest))
    | some op, room + 1 => do
      let (e, ts) ← operand stop fuel room rest
      .ok (.unary op e, ts)
    | none, room => do
      let (e, ts) ← primary stop fuel room l rest
      suffixes stop fuel room e ts

/-- An operand that begins with the token `l`. -/
def primary (stop : Nat) :
    Nat → Nat → Lexeme → List Lexeme → Except ParseError (Expr × List Lexeme)
  | 0, _, l, _ => .error (.nestingTooDeep l.start)
  | fuel + 1, room, l, rest =>
    match literal? l.token with
    | some value => .ok (.literal value, rest)
    | none =>
      match l.token with
      | .identifier name => .ok (.identifier name, rest)
      | .punct .leftParen => do
        let (e, ts) ← expression stop fuel room .assignment rest
        let ts ← expect stop .rightParen ts
        .ok (e, ts)
      | .punct .leftBracket => do
        let (items, ts) ← arrayItems stop fuel room [] rest
        .ok (.array items, ts)
      | .punct .leftBrace => do
        let (entries, ts) ← objectEntries stop fuel room [] rest
        .ok (.object entries, ts)
      | t => .error (.unexpectedToken t.text l.start)

/-- Members, indexes and calls after an operand. -/
def suffixes (stop : Nat) :
    Nat → Nat → Expr → List Lexeme → Except ParseError (Expr × List Lexeme)
  | 0, _, _, ts => .error (.nestingTooDeep (position stop ts))
  | _ + 1, _, e, [] => .ok (e, [])
  | fuel + 1, room, e, l :: rest =>
    match l.token, room with
    | .punct .dot, 0 => .error (.nestingTooDeep l.start)
    | .punct .leftBracket, 0 => .error (.nestingTooDeep l.start)
    | .punct .leftParen, 0 => .error (.nestingTooDeep l.start)
    | .punct .dot, room + 1 =>
      match rest with
      | [] => .error (.unexpectedEnd stop)
      | n :: ts =>
        match propertyName? n.token with
        | none => .error (missing stop "property name" rest)
        | some name =>
          if nextIs .leftParen ts then do
            let (args, ts) ← arguments stop fuel room ts
            suffixes stop fuel room (.method e name args) ts
          else suffixes stop fuel room (.member e name) ts
    | .punct .leftBracket, room + 1 => do
      let (i, ts) ← expression stop fuel room .assignment rest
      let ts ← expect stop .rightBracket ts
      suffixes stop fuel room (.index e i) ts
    | .punct .leftParen, room + 1 =>
      match e with
      | .identifier name => do
        let (args, ts) ← arguments stop fuel room (l :: rest)
        suffixes stop fuel room (.call name args) ts
      | _ => .error (.unexpectedToken "(" l.start)
    | _, _ => .ok (e, l :: rest)

def arguments (stop : Nat) : Nat → Nat → List Lexeme → Except ParseError (List Expr × List Lexeme)
  | 0, _, ts => .error (.nestingTooDeep (position stop ts))
  | fuel + 1, room, ts => do
    let ts ← expect stop .leftParen ts
    if nextIs .rightParen ts then .ok ([], ts.drop 1)
    else moreArguments stop fuel room [] ts

/-- At least one argument, up to the closing bracket.  `seen` holds those read, last first. -/
def moreArguments (stop : Nat) :
    Nat → Nat → List Expr → List Lexeme → Except ParseError (List Expr × List Lexeme)
  | 0, _, _, ts => .error (.nestingTooDeep (position stop ts))
  | fuel + 1, room, seen, ts => do
    let (e, ts) ← expression stop fuel room .assignment ts
    if nextIs .comma ts then moreArguments stop fuel room (e :: seen) (ts.drop 1)
    else if nextIs .rightParen ts then .ok ((e :: seen).reverse, ts.drop 1)
    else .error (unexpected stop ts)

/-- List items up to the closing bracket; a comma may stand before it. -/
def arrayItems (stop : Nat) :
    Nat → Nat → List Expr → List Lexeme → Except ParseError (List Expr × List Lexeme)
  | 0, _, _, ts => .error (.nestingTooDeep (position stop ts))
  | fuel + 1, room, seen, ts =>
    if nextIs .rightBracket ts then .ok (seen.reverse, ts.drop 1)
    else do
      let (e, ts) ← expression stop fuel room .assignment ts
      if nextIs .comma ts then arrayItems stop fuel room (e :: seen) (ts.drop 1)
      else if nextIs .rightBracket ts then .ok ((e :: seen).reverse, ts.drop 1)
      else .error (unexpected stop ts)

/-- Object entries up to the closing brace; a comma may stand before it. -/
def objectEntries (stop : Nat) :
    Nat → Nat → List (String × Expr) → List Lexeme →
      Except ParseError (List (String × Expr) × List Lexeme)
  | 0, _, _, ts => .error (.nestingTooDeep (position stop ts))
  | _ + 1, _, _, [] => .error (.unexpectedEnd stop)
  | fuel + 1, room, seen, l :: rest =>
    if l.token = .punct .rightBrace then .ok (seen.reverse, rest)
    else
      match objectKey? l.token with
      | none => .error (missing stop "object key" (l :: rest))
      | some key => do
        let ts ← expect stop .colon rest
        let (e, ts) ← expression stop fuel room .assignment ts
        if nextIs .comma ts then objectEntries stop fuel room ((key, e) :: seen) (ts.drop 1)
        else if nextIs .rightBrace ts then .ok (((key, e) :: seen).reverse, ts.drop 1)
        else .error (unexpected stop ts)

end

/-- Enough for every chain of calls: each level of room and each token is passed by a few of
them. -/
def enough (ts : List Lexeme) : Nat :=
  8 * (nestingLimit + ts.length) + 8

def parseTokens (stop : Nat) (ts : List Lexeme) : Except ParseError Expr :=
  if ts.isEmpty then .error .emptyExpression
  else
    match expression stop (enough ts) nestingLimit .assignment ts with
    | .ok (e, []) => .ok e
    | .ok (_, rest) => .error (unexpected stop rest)
    | .error e => .error e

end TreeTemplate.Parser

namespace TreeTemplate

def parse (source : String) : Except ParseError Expr :=
  let lexing := Lexer.lex source
  match lexing.outcome with
  | .ok stop => Parser.parseTokens stop lexing.tokens
  | .error e => .error e

end TreeTemplate
