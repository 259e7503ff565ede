import FieldGuard.Policy.Parser.Basic

set_option autoImplicit false

namespace FieldGuard.Policy

def isSpace (c : Char) : Bool :=
  c == ' ' || c == '\t' || c == '\n' || c == '\r' || c == '\x0c'

def afterComment : List Char → Option (List Char)
  | [] => some []
  | '\n' :: rest => some ('\n' :: rest)
  | '\r' :: '\n' :: rest => some ('\r' :: '\n' :: rest)
  | '\r' :: _ => none
  | _ :: rest => afterComment rest

theorem afterComment_length (text rest : List Char) (found : afterComment text = some rest) :
    rest.length ≤ text.length := by
  fun_induction afterComment text with
  | case1 => simp_all
  | case2 => simp_all
  | case3 => simp_all
  | case4 => simp_all
  | case5 _ later _ _ _ ih =>
      have := ih found
      simp only [List.length_cons]
      omega

def afterGap : List Char → List Char
  | [] => []
  | c :: rest =>
      if isSpace c then afterGap rest
      else if c = '#' then
        match _found : afterComment rest with
        | some later => afterGap later
        | none => c :: rest
      else c :: rest
termination_by text => text.length
decreasing_by
  · simp
  · have := afterComment_length rest later _found
    simp only [List.length_cons]
    omega

def isInitial (c : Char) : Bool := c.isAlpha || c == '_'

def isSubsequent (c : Char) : Bool := c.isAlphanum || c == '_'

def identifierOf : List Char → Option (List Char × List Char)
  | [] => none
  | c :: rest =>
      if isInitial c then some (c :: rest.takeWhile isSubsequent, rest.dropWhile isSubsequent)
      else none

def isKeyword (word : String) (name : List Char) : Bool :=
  name == word.toList || name == word.toList.map Char.toUpper

def isOperator (name : List Char) : Bool :=
  isKeyword "and" name || isKeyword "or" name || isKeyword "not" name

namespace Parser

def gap : Parser Unit := fun text => .ok () (afterGap text)

def identifierSuch (accepted : List Char → Bool) : Parser (List Char) := fun text =>
  match identifierOf text with
  | some (name, rest) => if accepted name then .ok name rest else .soft ⟨text, []⟩
  | none => .soft ⟨text, []⟩

def identifier : Parser (List Char) := identifierSuch fun _ => true

def keyword (word : String) : Parser Unit := do
  let _ ← identifierSuch (isKeyword word)
  return ()

end Parser

end FieldGuard.Policy
