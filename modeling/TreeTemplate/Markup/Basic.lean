import TreeTemplate.Number.Reading

/-!
Markup as trees: what a markup text says before it becomes part of a document.
-/

namespace TreeTemplate

inductive Markup where
  /-- Attributes in source order, repeated names kept. -/
  | element (tag : String) (attributes : List (String × String)) (children : List Markup)
  | text (content : String)
  | comment (body : String)
  deriving Inhabited

namespace Markup

/-- Elements that have neither children nor a closing tag. -/
def voidTags : List String :=
  ["area", "base", "br", "col", "embed", "hr", "img", "input", "link", "meta", "param", "source",
    "track", "wbr"]

def asciiLower (s : String) : String :=
  String.ofList (s.toList.map Number.asciiLower)

/-- Whether a tag is that of a void element, in any case. -/
def isVoid (tag : String) : Bool :=
  voidTags.contains (asciiLower tag)

/-- Whether two tags differ at most in ASCII case. -/
def sameTag (a b : String) : Bool :=
  asciiLower a == asciiLower b

def nestingLimit : Nat :=
  256

inductive Fault where
  /-- Something that begins no node. -/
  | unexpected
  /-- A closing tag that does not match the open element. -/
  | malformed
  /-- Elements nested deeper than `nestingLimit`. -/
  | tooDeep
  deriving DecidableEq, Repr

def Fault.text : Fault → String
  | unexpected => "unexpected markup"
  | malformed => "malformed markup"
  | tooDeep => "elements nested deeper than " ++ toString nestingLimit ++ " levels"

end Markup

end TreeTemplate
