import TreeTemplate.Text.Split

/-!
Cutting attribute values that hold several expressions: lists `label=expr | label=expr` and
sequences `expr; expr`.
-/

namespace TreeTemplate

/-- Rejoin the pieces of a list that was cut at every bar.  An empty piece marks a doubled bar: its
neighbours belong together.  `seen` holds the tokens so far, last first. -/
def rejoin (seen : List (List Char)) : List (List Char) → List (List Char)
  | [] => seen.reverse
  | [] :: rest =>
    match seen, rest with
    | previous :: seen, next :: rest =>
      rejoin ((previous ++ [' ', '|', '|', ' '] ++ next) :: seen) rest
    | seen, [] => seen.reverse
    | [], next :: rest => rejoin [next] rest
  | piece :: rest => rejoin (piece :: seen) rest

/-- The tokens of a list, without blanks around them.  A doubled bar does not end a token. -/
def splitListChars (cs : List Char) : List (List Char) :=
  rejoin [] ((Text.splitChars '|' cs).map Text.trimChars)

/-- The statements of a sequence, without blanks around them and without empty ones. -/
def splitSequenceChars (cs : List Char) : List (List Char) :=
  ((Text.splitChars ';' cs).map Text.trimChars).filter fun s => !s.isEmpty

def splitList (source : String) : List String :=
  (splitListChars source.toList).map String.ofList

def splitSequence (source : String) : List String :=
  (splitSequenceChars source.toList).map String.ofList

/-- The label and the expression of a list token, if it has a `=`.  The label loses the blanks
around it, the expression keeps them. -/
def splitLabel? (token : String) : Option (String × String) :=
  (Text.cutChars '=' token.toList).map fun p =>
    (String.ofList (Text.trimChars p.1), String.ofList p.2)

/-- The labelled expressions of a list, in order; tokens without `=` are left out. -/
def labelledSources (source : String) : List (String × String) :=
  (splitList source).filterMap splitLabel?

end TreeTemplate
