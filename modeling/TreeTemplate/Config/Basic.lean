import TreeTemplate.Expression.Cache
import TreeTemplate.Value.Json

/-!
The settings of an engine, and their JSON form.
-/

namespace TreeTemplate

/-- What an engine is set up with. -/
structure Config where
  /-- What the names of binding attributes begin with. -/
  attributePrefix : String
  /-- The attribute that carries the identity of a node. -/
  idAttribute : String
  /-- The identity of the hidden container that loaded templates are put into. -/
  templateContainerId : String
  failurePolicy : FailurePolicy
  /-- What a failed evaluation gives. -/
  defaultValue : Value
  /-- Whether released contexts are kept for reuse. -/
  contextPooling : Bool

/-- The settings of an engine that nobody has set up. -/
def Config.default : Config :=
  ⟨"data-jst-", "id", "js-templates", .cacheFailure, .null, true⟩

def FailurePolicy.text : FailurePolicy → String
  | .retry => "retry"
  | .cacheFailure => "cache_failure"

def FailurePolicy.ofText? (s : String) : Option FailurePolicy :=
  [.retry, .cacheFailure].find? fun p : FailurePolicy => p.text = s

inductive ConfigField where
  | attributePrefix
  | idAttribute
  | templateContainerId
  | failurePolicy
  | defaultValue
  | contextPooling
  deriving DecidableEq, Repr

namespace ConfigField

/-- Every setting, in the order of the JSON form. -/
def all : List ConfigField :=
  [.attributePrefix, .idAttribute, .templateContainerId, .failurePolicy, .defaultValue,
    .contextPooling]

def text : ConfigField → String
  | attributePrefix => "attribute_prefix"
  | idAttribute => "id_attribute"
  | templateContainerId => "template_container_id"
  | failurePolicy => "compile_failure_policy"
  | defaultValue => "default_value"
  | contextPooling => "context_pooling"

def ofText? (s : String) : Option ConfigField :=
  all.find? fun f => f.text = s

def get (f : ConfigField) (c : Config) : Value :=
  match f with
  | attributePrefix => .string c.attributePrefix
  | idAttribute => .string c.idAttribute
  | templateContainerId => .string c.templateContainerId
  | failurePolicy => .string c.failurePolicy.text
  | defaultValue => c.defaultValue
  | contextPooling => .bool c.contextPooling

/-- Change a setting, if the value is one that it can take. -/
def set? (f : ConfigField) (c : Config) (v : Value) : Option Config :=
  match f, v with
  | attributePrefix, .string s => some { c with attributePrefix := s }
  | idAttribute, .string s => some { c with idAttribute := s }
  | templateContainerId, .string s => some { c with templateContainerId := s }
  | failurePolicy, .string s =>
    (FailurePolicy.ofText? s).map fun p => { c with failurePolicy := p }
  | defaultValue, v => some { c with defaultValue := v }
  | contextPooling, .bool b => some { c with contextPooling := b }
  | _, _ => none

end ConfigField

def Config.value (c : Config) : Value :=
  .object (ConfigField.all.map fun f => (f.text, f.get c))

def Config.json (c : Config) : String :=
  c.value.json

end TreeTemplate
