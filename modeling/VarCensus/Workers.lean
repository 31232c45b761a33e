/-!
# Workers

Tasks are done by several workers. Each worker takes the next task that waits, does it, sends the result
with the number of its task, and takes the next; a worker that finds no task waiting has finished. Results
arrive in whatever order the workers get done, and are put into the order of their tasks when all workers
have finished.

A `Pool` is the state of such work and an `Event` a step of one worker; a schedule is a list of events.
`gather` follows one schedule, in which the workers take turns.
-/

namespace VarCensus

/-- What a worker is at. -/
inductive Worker (α : Type) where
  /-- Between two tasks. -/
  | idle
  /-- At the task with a number. -/
  | busy (number : Nat) (task : α)
  /-- It has found no task waiting. -/
  | finished
deriving DecidableEq, Repr

/-- The task that a worker is at, with its number. -/
def Worker.held? {α : Type} : Worker α → Option (Nat × α)
  | .busy number task => some (number, task)
  | .idle | .finished => none

def Worker.isFinished {α : Type} : Worker α → Bool
  | .finished => true
  | .idle | .busy _ _ => false

/-- Work in progress: tasks that wait, the workers, and the results sent so far. -/
structure Pool (α β : Type) where
  waiting : List (Nat × α)
  workers : List (Worker α)
  sent : List (Nat × β)

namespace Pool

variable {α β : Type}

/-- What a worker does next. -/
inductive Event where
  | take (worker : Nat)
  | send (worker : Nat)
deriving DecidableEq, Repr

/-- Tasks with their numbers, before so many workers have taken any. -/
def start (workers : Nat) (tasks : List α) : Pool α β :=
  ⟨(List.range tasks.length).zip tasks, List.replicate workers .idle, []⟩

/-- The pool with a worker put in another state. -/
def put (pool : Pool α β) (worker : Nat) (state : Worker α) : Pool α β :=
  { pool with workers := pool.workers.set worker state }

/-- The pool after an event. An idle worker takes the next task, or finishes when there is none, and a busy
one sends its result; an event that does not fit changes nothing. -/
def step (work : α → β) (pool : Pool α β) : Event → Pool α β
  | .take worker =>
    match pool.workers[worker]?, pool.waiting with
    | some .idle, (number, task) :: rest => { pool.put worker (.busy number task) with waiting := rest }
    | some .idle, [] => pool.put worker .finished
    | _, _ => pool
  | .send worker =>
    match pool.workers[worker]? with
    | some (.busy number task) => { pool.put worker .idle with sent := pool.sent ++ [(number, work task)] }
    | _ => pool

/-- The pool after a schedule. -/
def run (work : α → β) (pool : Pool α β) (schedule : List Event) : Pool α β :=
  schedule.foldl (step work) pool

/-- Whether all workers have finished. -/
def isDone (pool : Pool α β) : Bool :=
  pool.workers.all Worker.isFinished

/-- The results in the order of their tasks. -/
def results (pool : Pool α β) : List β :=
  (pool.sent.mergeSort fun a b => a.1 ≤ b.1).map (·.2)

end Pool

/-- The schedule in which workers take turns, each with one task, and then all finish. -/
def turns (workers tasks : Nat) : List Pool.Event :=
  ((List.range tasks).flatMap fun n => [.take (n % workers), .send (n % workers)]) ++
    (List.range workers).map .take

/-- The results of all tasks, by so many workers. -/
def gather {α β : Type} (workers : Nat) (work : α → β) (tasks : List α) : List β :=
  ((Pool.start workers tasks).run work (turns workers tasks.length)).results

/-- How many workers there are: as many as asked for, but at least one, and no more than there are tasks. -/
def workerCount (wanted tasks : Nat) : Nat :=
  max 1 (min wanted (max tasks 1))

end VarCensus
