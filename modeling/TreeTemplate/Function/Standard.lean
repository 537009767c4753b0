import TreeTemplate.Function.Registry
import TreeTemplate.Text.Blank
import TreeTemplate.Text.Case
import TreeTemplate.Value.Json

/-!
The functions that every engine starts with.
-/

namespace TreeTemplate.Standard

/-- The error for a first argument of the wrong type. -/
def mismatch (name expected : String) (v : Value) : FunctionError :=
  .invalidArgumentType name 0 expected v.typeName

/-- The size of an object, the length of a text or list; `null` has none of either. -/
def len (v : Value) : Except FunctionError Value :=
  match v with
  | .object entries => .ok (.ofNat entries.length)
  | .null => .ok (.ofNat 0)
  | v =>
    match v.length? with
    | some n => .ok (.ofNat n)
    | none => .error (mismatch "len" "string, array or object" v)

/-- The items of a list as they show, with a separator between them. -/
def join (v : Value) (separator : List Char) : Except FunctionError Value :=
  match v with
  | .array items => .ok (.ofChars (separator.intercalate (items.map Value.displayChars)))
  | v => .error (mismatch "join" "array" v)

/-- The keys of an object, or the indexes of a list. -/
def keys (v : Value) : Except FunctionError Value :=
  match v with
  | .object entries => .ok (.array (entries.map fun e => .string e.1))
  | .array items => .ok (.array ((List.range items.length).map Value.ofNat))
  | v => .error (mismatch "keys" "object or array" v)

def unary (f : Value → Except FunctionError Value) : HostFunction :=
  ⟨1, some 1, fun args => f (args.headD .null)⟩

/-- `join` with an optional separator, a comma if it is left out. -/
def joinFunction : HostFunction :=
  ⟨1, some 2, fun args =>
    let separator :=
      match args[1]? with
      | some v => v.displayChars
      | none => [',']
    join (args.headD .null) separator⟩

def registry : Registry :=
  ⟨[("len", unary len),
    ("join", joinFunction),
    ("upper", unary fun v => .ok (.string (Text.upper v.display))),
    ("lower", unary fun v => .ok (.string (Text.lower v.display))),
    ("trim", unary fun v => .ok (.string (Text.trim v.display))),
    ("str", unary fun v => .ok (.string v.display)),
    ("json", unary fun v => .ok (.string v.json)),
    ("keys", unary keys)]⟩

end TreeTemplate.Standard
