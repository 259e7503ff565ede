import FieldGuard.Binary64.Basic

set_option autoImplicit false

namespace FieldGuard

inductive Number where
  | int (value : Int)
  | float (value : Binary64)
  deriving DecidableEq

/-- Equality of numbers, where an integer never equals a float. -/
def Number.same : Number → Number → Bool
  | .int a, .int b => a == b
  | .float a, .float b => a.sameValue b
  | _, _ => false

inductive Json where
  | null
  | bool (value : Bool)
  | number (value : Number)
  | string (value : String)
  | array (items : List Json)
  | object (entries : List (String × Json))

namespace Json

instance : Inhabited Json := ⟨.null⟩

def nat (value : Nat) : Json := .number (.int value)

mutual

def same : Json → Json → Bool
  | .null, .null => true
  | .bool a, .bool b => a == b
  | .number a, .number b => a.same b
  | .string a, .string b => a == b
  | .array a, .array b => sameItems a b
  | .object a, .object b => sameEntries a b
  | _, _ => false

def sameItems : List Json → List Json → Bool
  | [], [] => true
  | a :: as, b :: bs => a.same b && sameItems as bs
  | _, _ => false

def sameEntries : List (String × Json) → List (String × Json) → Bool
  | [], [] => true
  | (key, a) :: as, (key', b) :: bs => key == key' && a.same b && sameEntries as bs
  | _, _ => false

end

def entryBefore (a b : String × Json) : Bool := a.1 ≤ b.1

mutual

def sorted : Json → Json
  | .array items => .array (sortedItems items)
  | .object entries => .object ((sortedEntries entries).mergeSort entryBefore)
  | scalar => scalar

def sortedItems : List Json → List Json
  | [] => []
  | item :: rest => item.sorted :: sortedItems rest

def sortedEntries : List (String × Json) → List (String × Json)
  | [] => []
  | (key, value) :: rest => (key, value.sorted) :: sortedEntries rest

end

/-- Puts an entry into entries sorted by key; a later value of a key replaces the earlier one. -/
def insertEntry (key : String) (value : Json) : List (String × Json) → List (String × Json)
  | [] => [(key, value)]
  | (key', value') :: rest =>
      if key < key' then (key, value) :: (key', value') :: rest
      else if key = key' then (key, value) :: rest
      else (key', value') :: insertEntry key value rest

def ofEntries (entries : List (String × Json)) : Json :=
  .object (entries.foldl (fun sorted (key, value) => insertEntry key value sorted) [])

def member? (key : String) : Json → Option Json
  | .object entries => entries.lookup key
  | _ => none

def member (key : String) (value : Json) : Json := (value.member? key).getD .null

end Json

end FieldGuard
