import FieldGuard.Json.Basic
import FieldGuard.Json.Text

set_option autoImplicit false

namespace FieldGuard.Json

inductive Unwanted where
  | null
  | bool (value : Bool)
  | number (value : Number)
  | string (value : String)
  | array
  | object

inductive Refusal where
  | unknownVariant (name : String) (known : List String)
  | unknownField (name : String) (known : List String)
  | duplicateField (name : String)
  | wrongType (found : Unwanted) (expected : String)

inductive Problem where
  | ended
  | malformed
  | refused (reason : Refusal)

def backticked (text : String) : String := "\x60" ++ text ++ "\x60"

def Unwanted.text : Unwanted → String
  | .null => "null"
  | .bool value => "boolean " ++ backticked (toString value)
  | .number (.int value) => "integer " ++ backticked (toString value)
  | .number (.float value) => "floating point " ++ backticked (String.ofList value.text)
  | .string value => "string " ++ Text.quoted value
  | .array => "sequence"
  | .object => "map"

def choices (known : List String) : String :=
  match known.map backticked with
  | [first] => first
  | [first, second] => first ++ " or " ++ second
  | names => "one of " ++ ", ".intercalate names

def Refusal.message : Refusal → String
  | .unknownVariant name known =>
      "unknown variant " ++ backticked name ++ ", expected " ++ choices known
  | .unknownField name known =>
      "unknown field " ++ backticked name ++ ", expected " ++ choices known
  | .duplicateField name => "duplicate field " ++ backticked name
  | .wrongType found expected => "invalid type: " ++ found.text ++ ", expected " ++ expected

end FieldGuard.Json
