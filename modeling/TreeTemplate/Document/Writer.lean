import TreeTemplate.Document.Basic
import TreeTemplate.Markup.Basic
import TreeTemplate.Markup.Entity
import TreeTemplate.Markup.Style

/-!
Documents as markup text.  A hidden node carries the hiding declaration in its style, in front of
the style it has.
-/

namespace TreeTemplate.Document

open TreeTemplate.Markup

/-- An attribute value as written after its name; an empty one is left out. -/
def valueChars (value : String) : List Char :=
  if value.isEmpty then []
  else ['=', '"'] ++ escapeAttributeChars value.toList ++ ['"']

/-- The style of a hidden element as written after its name. -/
def hiddenValueChars (style : String) : List Char :=
  ['=', '"'] ++ hiddenStyle ++
    (if style.isEmpty then [] else ';' :: escapeAttributeChars style.toList) ++ ['"']

def attributeChars (visible : Bool) (a : String × String) : List Char :=
  ' ' :: a.1.toList ++
    (if a.1 = "style" && !visible then hiddenValueChars a.2 else valueChars a.2)

def styleName : List Char :=
  ['s', 't', 'y', 'l', 'e']

def attributesChars (visible : Bool) (attributes : Dict String) : List Char :=
  attributes.flatMap (attributeChars visible) ++
    (if visible || Dict.has attributes "style" then []
      else ' ' :: styleName ++ hiddenValueChars "")

/-- A node as markup, around the markup of its children. -/
def nodeChars (n : Node) (children : List Char) : List Char :=
  match n.content with
  | .root => children
  | .text s => escapeTextChars s.toList
  | .comment body => ['<', '!', '-', '-'] ++ body.toList ++ ['-', '-', '>']
  | .element tag attributes =>
    let opening := '<' :: tag.toList ++ attributesChars n.visible attributes ++ ['>']
    if isVoid tag then opening
    else opening ++ children ++ ['<', '/'] ++ tag.toList ++ ['>']

/-- A node and everything below it as markup; `depth` bounds the chain of children. -/
def markupWithin (d : Document) : Nat → Handle → List Char
  | 0, h => nodeChars (d.node h) []
  | depth + 1, h => nodeChars (d.node h) ((d.node h).children.flatMap (markupWithin d depth))

def outerChars (d : Document) (h : Handle) : List Char :=
  d.markupWithin d.reach h

def innerChars (d : Document) (h : Handle) : List Char :=
  (d.node h).children.flatMap (d.markupWithin d.reach)

def outerMarkup (d : Document) (h : Handle) : String :=
  String.ofList (d.outerChars h)

def innerMarkup (d : Document) (h : Handle) : String :=
  String.ofList (d.innerChars h)

def toMarkup (d : Document) : String :=
  d.innerMarkup root

end TreeTemplate.Document
