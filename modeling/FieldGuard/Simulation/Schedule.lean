import FieldGuard.Simulation.World

set_option autoImplicit false

namespace FieldGuard

structure Task where
  request : String
  delay : Nat
  timeout : Nat
  action : Action

inductive TaskState where
  | delayed (start : Nat)
  | running (deadline : Nat) (work : Work)
  | finished (time : Nat) (answer : Answer)

namespace TaskState

def isFinished : TaskState → Bool
  | .finished _ _ => true
  | _ => false

def deadlines (memo : Memo) : TaskState → List Nat
  | .delayed start => [start]
  | .running deadline work => deadline :: work.deadlines memo
  | .finished _ _ => []

end TaskState

namespace Task

/-- A finished action wins over a timeout of the same instant. -/
def run (task : Task) (deadline : Nat) (work : Work) (world : World) : TaskState × World :=
  match task.action.poll task.request work world with
  | (.done answer, world) => (.finished world.now answer, world)
  | (work, world) =>
      if deadline ≤ world.now then (.finished world.now .timedOut, world)
      else (.running deadline work, world)

def poll (task : Task) (state : TaskState) (world : World) : TaskState × World :=
  match state with
  | .delayed start =>
      if start ≤ world.now then task.run (world.now + task.timeout) .fresh world
      else (.delayed start, world)
  | .running deadline work => task.run deadline work world
  | .finished time answer => (.finished time answer, world)

end Task

abbrev Tasks := List (Task × TaskState)

namespace Tasks

def start (tasks : List Task) (world : World) : Tasks :=
  tasks.map fun task => (task, .delayed (world.now + task.delay))

def round : Tasks → World → Tasks × World
  | [], world => ([], world)
  | (task, state) :: rest, world =>
      let (state, world) := task.poll state world
      let (rest, world) := round rest world
      ((task, state) :: rest, world)

def finishedCount (tasks : Tasks) : Nat := tasks.countP fun entry => entry.2.isFinished

def areFinished (tasks : Tasks) : Bool := tasks.all fun entry => entry.2.isFinished

/-- Whatever lets a task go on leaves a record or finishes a task. -/
def progress (tasks : Tasks) (world : World) : Nat := tasks.finishedCount + world.trace.length

def memoOf (world : World) (request : String) : Memo :=
  match world.find? request with
  | some entry => entry.request.memo
  | none => .empty

def deadlines (tasks : Tasks) (world : World) : List Nat :=
  tasks.flatMap fun (task, state) => state.deadlines (memoOf world task.request)

def nextInstant? (tasks : Tasks) (world : World) : Option Nat :=
  ((tasks.deadlines world).filter (world.now < ·)).min?

/-- Runs the tasks until all are finished, for so many rounds at most. -/
def run : Nat → Tasks → World → Tasks × World
  | 0, tasks, world => (tasks, world)
  | rounds + 1, tasks, world =>
      let (later, world') := tasks.round world
      if later.areFinished then (later, world')
      else if tasks.progress world < later.progress world' then run rounds later world'
      else
        match later.nextInstant? world' with
        | some instant => run rounds later { world' with now := instant }
        | none => (later, world')

def answers (tasks : Tasks) : List (Nat × Answer) :=
  tasks.map fun (_, state) =>
    match state with
    | .finished time answer => (time, answer)
    | .delayed start => (start, .timedOut)
    | .running deadline _ => (deadline, .timedOut)

end Tasks

end FieldGuard
