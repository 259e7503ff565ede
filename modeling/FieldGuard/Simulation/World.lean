import FieldGuard.Guard.Basic

set_option autoImplicit false

namespace FieldGuard

inductive Token where
  | own (request : RequestId)
  | shared (name : String)
  deriving DecidableEq

structure OpenRequest where
  token : Token
  request : Request

structure World where
  guard : Guard
  now : Nat
  opened : Nat
  requests : List (String × OpenRequest)
  fired : List Token
  trace : Trace

namespace World

def start (guard : Guard) : World :=
  { guard, now := 0, opened := 0, requests := [], fired := [], trace := [] }

def find? (world : World) (name : String) : Option OpenRequest := world.requests.lookup name

def close (world : World) (name : String) : World :=
  { world with requests := world.requests.filter fun entry => entry.1 != name }

def openRequest (world : World) (name : String) (context : Json) (shared : Option String) : World :=
  let id := world.opened + 1
  let token := match shared with
    | some token => Token.shared token
    | none => .own id
  let world := world.close name
  { world with
    opened := id
    requests := world.requests ++ [(name, ⟨token, Request.start id context⟩)] }

def isFired (world : World) (token : Token) : Bool := token ∈ world.fired

def fire (world : World) (token : Token) : World :=
  if world.isFired token then world else { world with fired := token :: world.fired }

def current (world : World) (entry : OpenRequest) : Request :=
  { entry.request with cancelled := world.isFired entry.token }

/-- Does something to one request. A request that it cancels fires the request's token. -/
def withState {α : Type} (world : World) (name : String) (entry : OpenRequest)
    (act : State → α × State) : α × World :=
  let (result, state) := act ⟨world.current entry, world.trace⟩
  let world := if state.request.cancelled then world.fire entry.token else world
  let requests := world.requests.map fun other =>
    if other.1 = name then (name, ⟨entry.token, state.request⟩) else other
  (result, { world with requests, trace := state.trace })

end World

inductive Action where
  | resolve (access : FieldAccess) (resolver : Resolver)
  | check (access : FieldAccess)
  | evaluate (rule : Rule) (precedence : Precedence) (access : FieldAccess)
  | cancel (shared : Option String)
  | sleep (duration : Nat)

inductive Answer where
  | result (result : FieldResult)
  | decision (decision : Decision)
  | cancelled
  | slept
  | timedOut
  | noRequest

inductive Work where
  | fresh
  | resolution (resolution : Resolution)
  | evaluation (stage : Stage)
  | sleeping (deadline : Nat)
  | done (answer : Answer)

namespace Work

def stage : Work → Stage
  | .evaluation reached => reached
  | _ => .fresh

def ofStage : Stage → Work
  | .settled decision => .done (.decision decision)
  | reached => .evaluation reached

def resolution? : Work → Resolution
  | .resolution reached => reached
  | _ => .authorizing .fresh

def ofResolution : Resolution → Work
  | .returned result => .done (.result result)
  | reached => .resolution reached

def awaiting (deadline now : Nat) : Work :=
  if deadline ≤ now then .done .slept else .sleeping deadline

def deadlines (memo : Memo) : Work → List Nat
  | .resolution (.authorizing reached) | .evaluation reached => reached.deadlines memo
  | .resolution (.resolving deadline) | .sleeping deadline => [deadline]
  | _ => []

end Work

def Action.poll (name : String) (action : Action) (work : Work) (world : World) : Work × World :=
  let requested (act : OpenRequest → Work × World) : Work × World :=
    match world.find? name with
    | some entry => act entry
    | none => (.done .noRequest, world)
  match work, action with
  | .done answer, _ => (.done answer, world)
  | .sleeping deadline, .sleep _ => (.awaiting deadline world.now, world)
  | _, .sleep duration => (.awaiting (world.now + duration) world.now, world)
  | _, .cancel (some shared) => (.done .cancelled, world.fire (.shared shared))
  | _, .cancel none => requested fun entry => (.done .cancelled, world.fire entry.token)
  | work, .check access => requested fun entry =>
      world.withState name entry fun state =>
        let (stage, state) :=
          world.guard.pollCheck (world.guard.visit world.now access) work.stage state
        (.ofStage stage, state)
  | work, .evaluate rule precedence access => requested fun entry =>
      world.withState name entry fun state =>
        let visit := { now := world.now, access, precedence, span := none }
        let (stage, state) := rule.poll visit work.stage state
        (.ofStage stage, state)
  | work, .resolve access resolver => requested fun entry =>
      world.withState name entry fun state =>
        let (resolution, state) :=
          world.guard.pollResolve resolver (world.guard.visit world.now access) work.resolution?
            state
        (.ofResolution resolution, state)

end FieldGuard
