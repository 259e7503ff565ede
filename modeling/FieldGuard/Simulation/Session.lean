import FieldGuard.Simulation.Schedule

set_option autoImplicit false

namespace FieldGuard

inductive SessionStep where
  | openRequest (name : String) (context : Json) (shared : Option String)
  | closeRequest (name : String)
  | describe (name : String)
  | single (task : Task)
  | concurrent (tasks : List Task)

inductive StepResult where
  | opened (request : RequestId) (context : Json)
  | closed (existed : Bool)
  | descriptions (texts : List String)
  | answer (answer : Answer)
  | answers (answers : List (Nat × Answer))

structure RequestSummary where
  id : RequestId
  hits : Nat
  misses : Nat
  size : Nat
  cancelled : Bool

structure StepReport where
  time : Nat
  result : StepResult
  records : Trace
  requests : List (String × RequestSummary)

namespace World

def summary (world : World) (entry : OpenRequest) : RequestSummary :=
  { id := entry.request.id
    hits := entry.request.memo.hits
    misses := entry.request.memo.misses
    size := entry.request.memo.size
    cancelled := world.isFired entry.token }

def descriptions (world : World) (entry : OpenRequest) : List String :=
  let request := world.current entry
  [request.description, request.memo.description request.id, world.guard.description]

/-- Far more rounds than a session of any size takes. -/
def roundLimit : Nat := 1000000000

def perform (world : World) : SessionStep → StepResult × World
  | .openRequest name context shared =>
      let world := world.openRequest name context shared
      (.opened world.opened context, world)
  | .closeRequest name => (.closed (world.find? name).isSome, world.close name)
  | .describe name =>
      match world.find? name with
      | some entry => (.descriptions (world.descriptions entry), world)
      | none => (.answer .noRequest, world)
  | .single task =>
      let (tasks, world) := (Tasks.start [task] world).run roundLimit world
      (match tasks.answers with
        | [(_, answer)] => .answer answer
        | answers => .answers answers, world)
  | .concurrent tasks =>
      let (tasks, world) := (Tasks.start tasks world).run roundLimit world
      (.answers tasks.answers, world)

def performAll (world : World) : List SessionStep → List StepReport
  | [] => []
  | step :: rest =>
      let (result, later) := world.perform step
      let report :=
        { time := later.now
          result
          records := later.trace.drop world.trace.length
          requests := later.requests.map fun (name, entry) => (name, later.summary entry) }
      report :: later.performAll rest

end World

end FieldGuard
