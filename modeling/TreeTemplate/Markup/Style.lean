import TreeTemplate.Number.Reading
import TreeTemplate.Text.Split

/-!
The style declaration that hides an element, taken out of and put into `style` attributes.
-/

namespace TreeTemplate.Markup

open TreeTemplate.Text

def hiddenStyle : List Char :=
  ['d', 'i', 's', 'p', 'l', 'a', 'y', ':', 'n', 'o', 'n', 'e']

/-- Whether a declaration is the hiding one, up to blanks and ASCII case. -/
def isHiding (declaration : List Char) : Bool :=
  (declaration.filter fun c => !isBlank c).map Number.asciiLower == hiddenStyle

/-- The declarations of a style, without blanks around them and without empty ones. -/
def declarations (style : List Char) : List (List Char) :=
  ((splitChars ';' style).map trimChars).filter fun d => !d.isEmpty

/-- Whether a style hides, and the style without its hiding declarations. -/
def takeHiddenChars (style : List Char) : Bool × List Char :=
  let all := declarations style
  (all.any isHiding, [';'].intercalate (all.filter fun d => !isHiding d))

/-- Whether a style hides, and the style without its hiding declarations. -/
def takeHiddenStyle (style : String) : Bool × String :=
  let (hidden, rest) := takeHiddenChars style.toList
  (hidden, String.ofList rest)

end TreeTemplate.Markup
