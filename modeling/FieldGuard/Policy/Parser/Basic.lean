/-!
Parsers with two kinds of failure. After a soft failure another choice is tried from the same
place; a hard failure ends the whole parse where it arose.
-/

set_option autoImplicit false

namespace FieldGuard.Policy

structure Failure where
  rest : List Char
  expected : List String

inductive Reply (α : Type) where
  | ok (value : α) (rest : List Char)
  | soft (failure : Failure)
  | hard (failure : Failure)

def Parser (α : Type) : Type := List Char → Reply α

namespace Parser

variable {α β : Type}

def pure (value : α) : Parser α := fun text => .ok value text

def bind (parser : Parser α) (next : α → Parser β) : Parser β := fun text =>
  match parser text with
  | .ok value rest => next value rest
  | .soft failure => .soft failure
  | .hard failure => .hard failure

instance : Monad Parser where
  pure := pure
  bind := bind

def fail : Parser α := fun text => .soft ⟨text, []⟩

def commit (parser : Parser α) : Parser α := fun text =>
  match parser text with
  | .soft failure => .hard failure
  | reply => reply

def expecting (what : String) (parser : Parser α) : Parser α := fun text =>
  let told (failure : Failure) := { failure with expected := failure.expected ++ [what] }
  match parser text with
  | .ok value rest => .ok value rest
  | .soft failure => .soft (told failure)
  | .hard failure => .hard (told failure)

/-- The second parser where the first fails softly. If both do, the failure is where they began. -/
def orElse (first second : Parser α) : Parser α := fun text =>
  match first text with
  | .soft _ =>
      match second text with
      | .soft failure => .soft { failure with rest := text }
      | reply => reply
  | reply => reply

def manyUpTo (item : Parser α) : Nat → Parser (List α)
  | 0, text => .ok [] text
  | count + 1, text =>
      match item text with
      | .ok value rest =>
          match manyUpTo item count rest with
          | .ok values rest => .ok (value :: values) rest
          | reply => reply
      | .soft _ => .ok [] text
      | .hard failure => .hard failure

def many (item : Parser α) : Parser (List α) := fun text => manyUpTo item text.length text

def char (expected : Char) : Parser Unit
  | [] => .soft ⟨[], []⟩
  | c :: rest => if c = expected then .ok () rest else .soft ⟨c :: rest, []⟩

end Parser

end FieldGuard.Policy
