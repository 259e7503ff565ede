import FieldGuard.Binary64.Shortest
import FieldGuard.Json.Basic
import FieldGuard.Text.Quoted

set_option autoImplicit false

namespace FieldGuard

def Number.text : Number → List Char
  | .int value => (toString value).toList
  | .float value => value.text

namespace Json

def escaped (c : Char) : List Char :=
  match c with
  | '"' => ['\\', '"']
  | '\\' => ['\\', '\\']
  | '\x08' => ['\\', 'b']
  | '\x0c' => ['\\', 'f']
  | '\n' => ['\\', 'n']
  | '\r' => ['\\', 'r']
  | '\t' => ['\\', 't']
  | c =>
      if c.toNat < 0x20 then
        ['\\', 'u', '0', '0', Nat.digitChar (c.toNat / 16), Nat.digitChar (c.toNat % 16)]
      else [c]

def stringText (value : String) : List Char :=
  '"' :: value.toList.flatMap escaped ++ ['"']

mutual

def text : Json → List Char
  | .null => ['n', 'u', 'l', 'l']
  | .bool true => ['t', 'r', 'u', 'e']
  | .bool false => ['f', 'a', 'l', 's', 'e']
  | .number value => value.text
  | .string value => stringText value
  | .array [] => ['[', ']']
  | .array (item :: rest) => '[' :: item.text ++ itemsText rest
  | .object [] => ['\x7b', '\x7d']
  | .object ((key, value) :: rest) =>
      '\x7b' :: stringText key ++ ':' :: value.text ++ entriesText rest

def itemsText : List Json → List Char
  | [] => [']']
  | item :: rest => ',' :: item.text ++ itemsText rest

def entriesText : List (String × Json) → List Char
  | [] => ['\x7d']
  | (key, value) :: rest => ',' :: stringText key ++ ':' :: value.text ++ entriesText rest

end

def compact (value : Json) : String := String.ofList value.text

mutual

def description : Json → String
  | .null => "Null"
  | .bool value => "Bool(" ++ toString value ++ ")"
  | .number value => "Number(" ++ String.ofList value.text ++ ")"
  | .string value => "String(" ++ Text.quoted value ++ ")"
  | .array items => "Array [" ++ ", ".intercalate (descriptions items) ++ "]"
  | .object entries => "Object \x7b" ++ ", ".intercalate (entryDescriptions entries) ++ "\x7d"

def descriptions : List Json → List String
  | [] => []
  | item :: rest => item.description :: descriptions rest

def entryDescriptions : List (String × Json) → List String
  | [] => []
  | (key, value) :: rest =>
      (Text.quoted key ++ ": " ++ value.description) :: entryDescriptions rest

end

end Json

end FieldGuard
