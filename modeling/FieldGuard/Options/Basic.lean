import FieldGuard.Text.Quoted

set_option autoImplicit false

namespace FieldGuard

abbrev Names (α : Type) := List (String × α)

def Names.nameOf {α : Type} [DecidableEq α] (names : Names α) (value : α) : String :=
  ((names.find? fun entry => entry.2 = value).map Prod.fst).getD ""

inductive Sharing where
  | contextual
  | strict
  | none
  deriving DecidableEq

inductive DefaultPolicy where
  | allow
  | deny
  deriving DecidableEq

inductive OnDeny where
  | redact
  | abort
  deriving DecidableEq

inductive Precedence where
  | last
  | first
  deriving DecidableEq

structure Options where
  onDeny : OnDeny
  precedence : Precedence
  denialMessage : String
  failureMessage : String
  deriving DecidableEq

namespace Sharing

def names : Names Sharing :=
  [("contextual", .contextual), ("strict", .strict), ("none", .none)]

def standard : Sharing := .contextual

def title : Sharing → String
  | .contextual => "Contextual"
  | .strict => "Strict"
  | .none => "None"

end Sharing

namespace DefaultPolicy

def names : Names DefaultPolicy := [("allow_by_default", .allow), ("deny_by_default", .deny)]

def standard : DefaultPolicy := .deny

def allows : DefaultPolicy → Bool
  | .allow => true
  | .deny => false

def display : DefaultPolicy → String
  | .allow => "allow"
  | .deny => "deny"

def title : DefaultPolicy → String
  | .allow => "AllowByDefault"
  | .deny => "DenyByDefault"

end DefaultPolicy

namespace OnDeny

def names : Names OnDeny := [("redact", .redact), ("abort_request", .abort)]

def standard : OnDeny := .redact

def title : OnDeny → String
  | .redact => "Redact"
  | .abort => "AbortRequest"

end OnDeny

namespace Precedence

def names : Names Precedence := [("last", .last), ("first", .first)]

def standard : Precedence := .last

def title : Precedence → String
  | .last => "Last"
  | .first => "First"

end Precedence

namespace Options

def standard : Options :=
  { onDeny := .standard
    precedence := .standard
    denialMessage := "not authorized"
    failureMessage := "internal error while authorizing request" }

def description (options : Options) : String :=
  "ShieldOptions \x7b on_deny: " ++ options.onDeny.title ++
    ", or_precedence: " ++ options.precedence.title ++
    ", denial_message: " ++ Text.quoted options.denialMessage ++
    ", failure_message: " ++ Text.quoted options.failureMessage ++ " \x7d"

end Options

end FieldGuard
