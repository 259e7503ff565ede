set_option autoImplicit false

namespace FieldGuard.Policy

structure Complaint where
  before : List Char
  rest : List Char
  expected : List String

namespace Complaint

def ofRest (text rest : List Char) (expected : List String) : Complaint :=
  { before := text.take (text.length - rest.length)
    rest
    expected }

def byteLength (text : List Char) : Nat := (String.ofList text).utf8ByteSize

def offset (complaint : Complaint) : Nat := byteLength complaint.before

def text (complaint : Complaint) : List Char := complaint.before ++ complaint.rest

def expectation (complaint : Complaint) : String :=
  match complaint.expected with
  | [] => ""
  | expected => "expected " ++ ", ".intercalate expected

def spaces (count : Nat) : String := String.ofList (List.replicate count ' ')

def lastLine (text : List Char) : List Char := (text.reverse.takeWhile (· != '\n')).reverse

/-- Line and column, both from zero. The end of the text counts as just after its last character.
Before a character of several bytes the column counts bytes. -/
def place (complaint : Complaint) : Nat × Nat :=
  match complaint.rest with
  | [] =>
      let before := complaint.before.dropLast
      (before.count '\n', (lastLine before).length + 1)
  | c :: _ =>
      let line := lastLine complaint.before
      (complaint.before.count '\n', if c.utf8Size = 1 then line.length else byteLength line)

def lineAt (text : List Char) (line : Nat) : String :=
  String.ofList ((text.splitOn '\n')[line]?.getD [])

def message (complaint : Complaint) : String :=
  if '\n' ∈ complaint.text then
    let (line, column) := complaint.place
    let number := toString (line + 1)
    let margin := spaces number.length
    "parse error at line " ++ number ++ ", column " ++ toString (column + 1) ++ "\n" ++
      margin ++ " |\n" ++
      number ++ " | " ++ lineAt complaint.text line ++ "\n" ++
      margin ++ " | " ++ spaces column ++ "^\n" ++ complaint.expectation
  else
    String.ofList complaint.text ++ "\n" ++ spaces complaint.offset ++ "^\n" ++
      complaint.expectation

def display (complaint : Complaint) : String := "policy parse error: " ++ complaint.message

end Complaint

end FieldGuard.Policy
