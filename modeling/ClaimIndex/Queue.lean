import ClaimIndex.Fault
import ClaimIndex.Task

namespace ClaimIndex

structure TaskQueue where
  tasks : List Task := []
  closed : Bool := false

namespace TaskQueue

variable (q : TaskQueue)

def enqueue (t : Task) : Except Fault TaskQueue :=
  if q.closed then .error (.queueUnavailable s!"task worker stopped, dropped {t.name} task")
  else .ok { q with tasks := q.tasks ++ [t] }

def dequeue : Option Task × TaskQueue :=
  match q.tasks with
  | [] => (none, q)
  | t :: rest => (some t, { q with tasks := rest })

def drain : List Task × TaskQueue := (q.tasks, { q with tasks := [] })

def shut : TaskQueue where
  closed := true

end TaskQueue

end ClaimIndex
