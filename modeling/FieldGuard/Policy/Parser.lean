import FieldGuard.Policy.Complaint
import FieldGuard.Policy.Document
import FieldGuard.Policy.Parser.Lexical

set_option autoImplicit false

namespace FieldGuard.Policy

namespace Parser

def arguments (expression : Parser Expr) : Parser (List Expr) := do
  let first ← expression
  let others ← many do
    gap
    char ','
    commit expression
  gap
  commit (char ')')
  return first :: others

/-- A name that may head a call is a call where a parenthesis follows, and a reference elsewhere. -/
def call (expression : Parser Expr) (connective : Connective) (name : List Char) : Parser Expr :=
  fun text =>
    match afterGap text with
    | '(' :: rest =>
        commit (do return .group connective (← arguments expression)) rest
    | _ => .ok (.reference (String.ofList name)) text

def named (expression : Parser Expr) : Parser Expr := do
  let name ← identifierSuch fun name => !isOperator name
  if isKeyword "allow" name then return .constant true
  else if isKeyword "deny" name then return .constant false
  else if isKeyword "chain" name then call expression .chain name
  else if isKeyword "race" name then call expression .race name
  else return .reference (String.ofList name)

def parenthesised (expression : Parser Expr) : Parser Expr := do
  char '('
  let expr ← expression
  gap
  commit (char ')')
  return expr

def primary (expression : Parser Expr) : Parser Expr := do
  gap
  expecting "rule expression" (orElse (parenthesised expression) (named expression))

def negation : Parser Unit := do
  gap
  keyword "not"

def unary (expression : Parser Expr) : Parser Expr := do
  let negations ← many negation
  let operand ←
    if negations.isEmpty then primary expression else commit (primary expression)
  return negations.foldr (fun _ expr => .not expr) operand

def joined (connective : Connective) (first : Expr) : List Expr → Expr
  | [] => first
  | others => .group connective (first :: others)

def separated (connective : Connective) (operand : Parser Expr) : Parser Expr := do
  let first ← operand
  let others ← many do
    gap
    keyword connective.name
    commit operand
  return joined connective first others

def expressionWithin : Nat → Parser Expr
  | 0, text => fail text
  | depth + 1, text => separated .or (separated .and (unary (expressionWithin depth))) text

def expression : Parser Expr := fun text => expressionWithin (text.length + 1) text

def defaultPolicy : Parser DefaultPolicy :=
  expecting "`allow` or `deny`" <| commit <|
    orElse (do keyword "allow"; return .allow) (do keyword "deny"; return .deny)

def defaultStatement : Parser Statement := do
  keyword "default"
  gap
  return .default (← defaultPolicy)

def body : Parser Expr := expecting "rule body" (commit expression)

def fallbackStatement : Parser Statement := do
  keyword "fallback"
  gap
  char ':'
  return .rule .fallback (← body)

def fieldName : Parser (Option (List Char)) :=
  expecting "field name or `*`" <| commit <|
    orElse (do char '*'; return none) (do return some (← identifier))

def targetOf (parentType : List Char) : Option (List Char) → Target
  | some field => .field (String.ofList parentType) (String.ofList field)
  | none => .type (String.ofList parentType)

def fieldStatement : Parser Statement := do
  let parentType ← identifier
  char '.'
  let field ← fieldName
  gap
  commit (char ':')
  return .rule (targetOf parentType field) (← body)

def statement : Parser Statement := do
  gap
  orElse defaultStatement (orElse fallbackStatement fieldStatement)

def statements : Parser (List Statement) := do
  let found ← many statement
  gap
  return found

end Parser

def parse (text : String) : Except Complaint Document :=
  match Parser.statements text.toList with
  | .ok found [] => .ok (.ofStatements found)
  | .ok _ rest => .error (.ofRest text.toList rest [])
  | .soft failure | .hard failure =>
      .error (.ofRest text.toList failure.rest failure.expected)

end FieldGuard.Policy
