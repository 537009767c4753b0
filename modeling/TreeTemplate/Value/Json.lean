import TreeTemplate.Value.Basic

/-!
Values as compact JSON text, and the text that a value shows as content.
-/

namespace TreeTemplate

def hexDigit (n : Nat) : Char :=
  Nat.digitChar (n % 16)

/-- One character inside a JSON string: quotes, backslashes and control characters are escaped, all
else stands for itself. -/
def jsonEscape (c : Char) : List Char :=
  if c == '"' then ['\\', '"']
  else if c == '\\' then ['\\', '\\']
  else if c == '\x08' then ['\\', 'b']
  else if c == '\x0c' then ['\\', 'f']
  else if c == '\n' then ['\\', 'n']
  else if c == '\r' then ['\\', 'r']
  else if c == '\t' then ['\\', 't']
  else if c.toNat < 0x20 then ['\\', 'u', '0', '0', hexDigit (c.toNat / 16), hexDigit c.toNat]
  else [c]

def jsonStringChars (s : String) : List Char :=
  '"' :: s.toList.flatMap jsonEscape ++ ['"']

namespace Value

mutual

def jsonChars : Value → List Char
  | .null => ['n', 'u', 'l', 'l']
  | .bool true => ['t', 'r', 'u', 'e']
  | .bool false => ['f', 'a', 'l', 's', 'e']
  | .number n => n.jsonChars
  | .string s => jsonStringChars s
  | .array items => '[' :: jsonItems items ++ [']']
  | .object entries => '{' :: jsonEntries entries ++ ['}']

def jsonItems : List Value → List Char
  | [] => []
  | [v] => jsonChars v
  | v :: rest => jsonChars v ++ ',' :: jsonItems rest

def jsonEntries : List (String × Value) → List Char
  | [] => []
  | [(k, v)] => jsonStringChars k ++ ':' :: jsonChars v
  | (k, v) :: rest => jsonStringChars k ++ ':' :: jsonChars v ++ ',' :: jsonEntries rest

end

def json (v : Value) : String :=
  String.ofList v.jsonChars

mutual

/-- The text that a value shows: nothing for `null`, a list's items joined by commas, an object as
JSON. -/
def displayChars : Value → List Char
  | .null => []
  | .bool true => ['t', 'r', 'u', 'e']
  | .bool false => ['f', 'a', 'l', 's', 'e']
  | .number n => n.plainChars
  | .string s => s.toList
  | .array items => displayItems items
  | .object entries => jsonChars (.object entries)

def displayItems : List Value → List Char
  | [] => []
  | [v] => displayChars v
  | v :: rest => displayChars v ++ ',' :: displayItems rest

end

def display (v : Value) : String :=
  String.ofList v.displayChars

end Value

end TreeTemplate
