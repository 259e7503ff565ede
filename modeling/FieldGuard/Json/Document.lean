import FieldGuard.Json.Lexeme

set_option autoImplicit false

namespace FieldGuard.Json

def scalar : Reader Json
  | [] => .error .ended
  | 'n' :: rest => do return (.null, ← word ['u', 'l', 'l'] rest)
  | 't' :: rest => do return (.bool true, ← word ['r', 'u', 'e'] rest)
  | 'f' :: rest => do return (.bool false, ← word ['a', 'l', 's', 'e'] rest)
  | '"' :: rest => do
      let (value, rest) ← stringBody rest
      return (.string value, rest)
  | c :: rest =>
      if c = '-' ∨ c.isDigit then do
        let (value, rest) ← numeral (c :: rest)
        return (.number value, rest)
      else .error .malformed

def moreItems (item : Reader Json) : Nat → Reader (List Json)
  | 0, _ => .error .ended
  | count + 1, text =>
      match afterSpace text with
      | ']' :: rest => .ok ([], rest)
      | ',' :: rest => do
          let (value, rest) ← item rest
          let (values, rest) ← moreItems item count rest
          return (value :: values, rest)
      | rest => .error (unexpected rest)

def items (item : Reader Json) (text : List Char) : Except Problem (List Json × List Char) :=
  match afterSpace text with
  | ']' :: rest => .ok ([], rest)
  | rest => do
      let (value, rest) ← item rest
      let (values, rest) ← moreItems item (rest.length + 1) rest
      return (value :: values, rest)

def entry (item : Reader Json) (text : List Char) :
    Except Problem ((String × Json) × List Char) :=
  match afterSpace text with
  | '"' :: rest => do
      let (key, rest) ← stringBody rest
      match afterSpace rest with
      | ':' :: rest => do
          let (value, rest) ← item rest
          return ((key, value), rest)
      | rest => .error (unexpected rest)
  | rest => .error (unexpected rest)

def moreEntries (item : Reader Json) : Nat → Reader (List (String × Json))
  | 0, _ => .error .ended
  | count + 1, text =>
      match afterSpace text with
      | '\x7d' :: rest => .ok ([], rest)
      | ',' :: rest => do
          let (first, rest) ← entry item rest
          let (others, rest) ← moreEntries item count rest
          return (first :: others, rest)
      | rest => .error (unexpected rest)

def entries (item : Reader Json) (text : List Char) :
    Except Problem (List (String × Json) × List Char) :=
  match afterSpace text with
  | '\x7d' :: rest => .ok ([], rest)
  | rest => do
      let (first, rest) ← entry item rest
      let (others, rest) ← moreEntries item (rest.length + 1) rest
      return (first :: others, rest)

def value : Nat → Reader Json
  | 0, text => scalar (afterSpace text)
  | depth + 1, text =>
      match afterSpace text with
      | '[' :: rest => do
          let (found, rest) ← items (value depth) rest
          return (.array found, rest)
      | '\x7b' :: rest => do
          let (found, rest) ← entries (value depth) rest
          return (ofEntries found, rest)
      | rest => scalar rest

def finish {α : Type} (found : α) (rest : List Char) : Except Problem α :=
  match afterSpace rest with
  | [] => .ok found
  | _ :: _ => .error .malformed

def parse (depth : Nat) (text : String) : Except Problem Json := do
  let (found, rest) ← value depth text.toList
  finish found rest

def greatestDepth : Nat := 127

end FieldGuard.Json
