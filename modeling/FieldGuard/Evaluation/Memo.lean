import FieldGuard.Evaluation.Flight

set_option autoImplicit false

namespace FieldGuard

/-- The text of a parent and its arguments, whatever the order of their entries. A record separator
stands between them and in neither. -/
def strictInput (parent args : Json) : List Char :=
  parent.sorted.text ++ '\x1e' :: args.sorted.text

def Key.of? (sharing : Sharing) (rule : RuleId) (request : RequestId) (access : FieldAccess) :
    Option Key :=
  match sharing with
  | .contextual => some ⟨request, rule, none⟩
  | .strict => some ⟨request, rule, some (strictInput access.parent access.args)⟩
  | .none => none

structure Memo where
  flights : List (Key × Flight)
  hits : Nat
  misses : Nat

namespace Memo

def empty : Memo := { flights := [], hits := 0, misses := 0 }

def find? (memo : Memo) (key : Key) : Option Flight := memo.flights.lookup key

def hit (memo : Memo) : Memo := { memo with hits := memo.hits + 1 }

def insert (memo : Memo) (key : Key) (flight : Flight) : Memo :=
  { memo with
    flights := memo.flights ++ [(key, flight)]
    misses := memo.misses + 1 }

def replace (memo : Memo) (key : Key) (flight : Flight) : Memo :=
  { memo with
    flights := memo.flights.map fun entry => if entry.1 = key then (key, flight) else entry }

def size (memo : Memo) : Nat :=
  memo.flights.countP fun entry => entry.2.decision?.isSome

def description (memo : Memo) (request : RequestId) : String :=
  "RuleCache \x7b request: RequestId(" ++ toString request ++
    "), entries: " ++ toString memo.size ++
    ", stats: CacheStats \x7b hits: " ++ toString memo.hits ++
    ", misses: " ++ toString memo.misses ++ " \x7d \x7d"

end Memo

end FieldGuard
