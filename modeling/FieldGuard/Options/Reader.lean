import FieldGuard.Json.Document
import FieldGuard.Options.Basic

/-!
Options as JSON text, read from left to right and refused at the first problem. An enumerated value
is its name, or an object whose one entry has that name and the value null. Options are an object of
some of their members, or an array of the first few of their values; what is missing keeps its
standard value.
-/

set_option autoImplicit false

namespace FieldGuard

namespace Json

def wrongType (expected : String) (text : List Char) : Problem :=
  let refusal (found : Unwanted) := Problem.refused (.wrongType found expected)
  match text with
  | '[' :: _ => refusal .array
  | '\x7b' :: _ => refusal .object
  | text =>
      match scalar text with
      | .ok (.bool value, _) => refusal (.bool value)
      | .ok (.number value, _) => refusal (.number value)
      | .ok (.string value, _) => refusal (.string value)
      | .ok _ => refusal .null
      | .error problem => problem

def stringValue : Reader String := fun text =>
  match afterSpace text with
  | '"' :: rest => stringBody rest
  | rest => .error (wrongType "a string" rest)

def colon (text : List Char) : Except Problem (List Char) :=
  match afterSpace text with
  | ':' :: rest => .ok rest
  | rest => .error (unexpected rest)

def emptyContent (text : List Char) : Except Problem (List Char) :=
  match afterSpace text with
  | 'n' :: rest => word ['u', 'l', 'l'] rest
  | rest => .error (wrongType "unit" rest)

end Json

open Json

namespace Names

variable {α : Type} (names : Names α)

def value (name : String) : Except Problem α :=
  match names.lookup name with
  | some value => .ok value
  | none => .error (.refused (.unknownVariant name (names.map Prod.fst)))

def entry (text : List Char) : Except Problem (α × List Char) :=
  match afterSpace text with
  | '"' :: rest => do
      let (name, rest) ← stringBody rest
      let value ← names.value name
      let rest ← emptyContent (← colon rest)
      match afterSpace rest with
      | '\x7d' :: rest => return (value, rest)
      | rest => .error (unexpected rest)
  | rest => .error (unexpected rest)

def read (text : List Char) : Except Problem (α × List Char) :=
  match afterSpace text with
  | '"' :: rest => do
      let (name, rest) ← stringBody rest
      return (← names.value name, rest)
  | '\x7b' :: rest => names.entry rest
  | rest => .error (unexpected rest)

def parse (text : String) : Except Problem α := do
  let (value, rest) ← names.read text.toList
  finish value rest

end Names

namespace Options

inductive Key where
  | onDeny
  | precedence
  | denialMessage
  | failureMessage
  deriving DecidableEq

def Key.names : Names Key :=
  [("on_deny", .onDeny), ("or_precedence", .precedence), ("denial_message", .denialMessage),
    ("failure_message", .failureMessage)]

def set (options : Options) : Key → Reader Options
  | .onDeny, text => do
      let (value, rest) ← OnDeny.names.read text
      return ({ options with onDeny := value }, rest)
  | .precedence, text => do
      let (value, rest) ← Precedence.names.read text
      return ({ options with precedence := value }, rest)
  | .denialMessage, text => do
      let (value, rest) ← stringValue text
      return ({ options with denialMessage := value }, rest)
  | .failureMessage, text => do
      let (value, rest) ← stringValue text
      return ({ options with failureMessage := value }, rest)

def memberKey (seen : List Key) (name : String) : Except Problem Key :=
  match Key.names.lookup name with
  | none => .error (.refused (.unknownField name (Key.names.map Prod.fst)))
  | some key => if key ∈ seen then .error (.refused (.duplicateField name)) else .ok key

def member (seen : List Key) (options : Options) (text : List Char) :
    Except Problem ((Key × Options) × List Char) :=
  match afterSpace text with
  | '"' :: rest => do
      let (name, rest) ← stringBody rest
      let key ← memberKey seen name
      let (options, rest) ← options.set key (← colon rest)
      return ((key, options), rest)
  | rest => .error (unexpected rest)

def moreMembers : Nat → List Key → Options → Reader Options
  | 0, _, _, _ => .error .malformed
  | count + 1, seen, options, text =>
      match afterSpace text with
      | '\x7d' :: rest => .ok (options, rest)
      | ',' :: rest => do
          let ((key, options), rest) ← member seen options rest
          moreMembers count (key :: seen) options rest
      | rest => .error (unexpected rest)

def members (options : Options) (text : List Char) : Except Problem (Options × List Char) :=
  match afterSpace text with
  | '\x7d' :: rest => .ok (options, rest)
  | rest => do
      let ((key, options), rest) ← member [] options rest
      moreMembers 4 [key] options rest

def moreElements : List Key → Options → Reader Options
  | [], options, text =>
      match afterSpace text with
      | ']' :: rest => .ok (options, rest)
      | rest => .error (unexpected rest)
  | key :: keys, options, text =>
      match afterSpace text with
      | ']' :: rest => .ok (options, rest)
      | ',' :: rest => do
          let (options, rest) ← options.set key rest
          moreElements keys options rest
      | rest => .error (unexpected rest)

def elements (options : Options) (text : List Char) : Except Problem (Options × List Char) :=
  match afterSpace text with
  | ']' :: rest => .ok (options, rest)
  | rest => do
      let (options, rest) ← options.set .onDeny rest
      moreElements [.precedence, .denialMessage, .failureMessage] options rest

def read (text : List Char) : Except Problem (Options × List Char) :=
  match afterSpace text with
  | '\x7b' :: rest => standard.members rest
  | '[' :: rest => standard.elements rest
  | rest => .error (wrongType "struct ShieldOptions" rest)

def parse (text : String) : Except Problem Options := do
  let (options, rest) ← read text.toList
  finish options rest

def refusalMessage (reason : Refusal) : String := "invalid shield options: " ++ reason.message

end Options

end FieldGuard
