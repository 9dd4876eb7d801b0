import Pipeline.Graph.Search
import Pipeline.Spec

/-!
# The graph of dependencies

The jobs of a specification are the nodes of a graph, by their positions; an edge leads from a
job to each one that depends on it. A name that several jobs have means the last of them.

* `JobGraph`: the nodes and edges.
* `JobGraph.order`: an order in which every job stands behind the jobs that it depends on.
* `JobGraph.cycle`: the names of jobs that depend on each other in a circle.
* `JobGraph.ofSpec`: the graph of a specification, or the reason why it has none.
-/

namespace Pipeline

/-- Jobs by position, and the edges between them, the latest one first. -/
structure JobGraph where
  names : List String
  edges : List (Nat × Nat)
  deriving DecidableEq, Repr, Inhabited

/-- Why the jobs of a specification cannot be ordered. -/
inductive GraphError where
  | cycle (names : List String)
  | unknownDependency (job dependency : String)
  | noJobs
  deriving DecidableEq, Repr, Inhabited

/-- The wording of an error. -/
def GraphError.message : GraphError → String
  | .cycle names => "Cycle detected in job dependencies: " ++ Text.joinWith " -> " names
  | .unknownDependency job dependency =>
    "Job '" ++ job ++ "' depends on unknown job '" ++ dependency ++ "'"
  | .noJobs => "Build spec has no jobs"

namespace JobGraph

/-- The positions of the jobs. -/
def nodes (g : JobGraph) : List Nat := List.range g.names.length

/-- The name of the job at a position. -/
def nameOf (g : JobGraph) (v : Nat) : String := g.names[v]?.getD ""

/-- The position that a name means. -/
def position? (names : List String) (name : String) : Option Nat :=
  ((names.zipIdx.filter fun (n, _) => n == name).getLast?).map Prod.snd

/-- The jobs that depend on the one at a position, by the latest edge first. -/
def after (g : JobGraph) (v : Nat) : List Nat :=
  g.edges.filterMap fun (a, b) => if a = v then some b else none

/-- The jobs that the one at a position depends on, by the latest edge first. -/
def before (g : JobGraph) (v : Nat) : List Nat :=
  g.edges.filterMap fun (a, b) => if b = v then some a else none

/-- The names of the jobs that depend on a job. -/
def successors (g : JobGraph) (name : String) : List String :=
  match position? g.names name with
  | some v => (g.after v).map g.nameOf
  | none => []

/-- The names of the jobs that a job depends on. -/
def predecessors (g : JobGraph) (name : String) : List String :=
  match position? g.names name with
  | some v => (g.before v).map g.nameOf
  | none => []

/-- The names of the jobs that depend on no other one, in order. -/
def roots (g : JobGraph) : List String :=
  (g.nodes.filter fun v => (g.before v).isEmpty).map g.nameOf

/-- Whether all jobs that a job depends on are among those that are completed. -/
def isReady (g : JobGraph) (name : String) (completed : List String) : Bool :=
  (g.predecessors name).all fun p => completed.contains p

/-! ## Order -/

/-- Whether every edge leads forward in a list of positions. -/
def isForward (g : JobGraph) (order : List Nat) : Bool :=
  g.edges.all fun (a, b) => order.idxOf a < order.idxOf b

/-- The positions in the order in which a search finishes them, the last one first. What follows
a job is gone through by the earliest edge first. -/
def candidate (g : JobGraph) : List Nat :=
  Graph.finished (fun v => (g.after v).reverse) g.nodes g.nodes

/-- The positions that can be reached from one by an edge or more. -/
def reachable (g : JobGraph) (v : Nat) : List Nat := Graph.finished g.after g.nodes (g.after v)

/-- For every position those that can be reached from it. -/
abbrev Reach := List (List Nat)

/-- What can be reached in a graph. -/
def reach (g : JobGraph) : Reach := g.nodes.map g.reachable

/-- The positions that can be reached from one. -/
def Reach.targets (r : Reach) (v : Nat) : List Nat := r[v]?.getD []

/-- The positions that can be reached from one and from which it can be reached. -/
def Reach.component (r : Reach) (v : Nat) : List Nat :=
  (r.targets v).filter fun u => (r.targets u).contains v

/-- The positions in the order in which a search finishes them that goes through what follows a
job by the latest edge first. -/
def finishOrder (g : JobGraph) : List Nat := (Graph.finished g.after g.nodes g.nodes).reverse

/-- The first group of jobs that depend on each other, among those that the search has gone
through completely. -/
def firstCycle (g : JobGraph) : List Nat :=
  let order := g.finishOrder
  let r := g.reach
  let closes (v : Nat) : Bool :=
    let group := r.component v
    !group.isEmpty && group.all fun u => order.idxOf u ≤ order.idxOf v
  match order.find? closes with
  | some v => r.component v
  | none => []

/-- The names of jobs that depend on each other, in ascending order. -/
def cycle (g : JobGraph) : List String :=
  (g.firstCycle.map g.nameOf).mergeSort fun a b => decide (a ≤ b)

/-- The names of the jobs in an order in which every job stands behind those that it depends
on. -/
def order (g : JobGraph) : Except GraphError (List String) :=
  if g.isForward g.candidate then .ok (g.candidate.map g.nameOf) else .error (.cycle g.cycle)

/-! ## Building -/

/-- The edges with one more, unless there is one already. -/
def addEdge (edges : List (Nat × Nat)) (a b : Nat) : List (Nat × Nat) :=
  if (a, b) ∈ edges then edges else (a, b) :: edges

/-- The edges with those that lead to a job from the jobs that it depends on. -/
def addDependencies (names : List String) (job : String) :
    List String → List (Nat × Nat) → Except GraphError (List (Nat × Nat))
  | [], edges => .ok edges
  | d :: ds, edges =>
    match position? names d, position? names job with
    | some a, some b => addDependencies names job ds (addEdge edges a b)
    | _, _ => .error (.unknownDependency job d)

/-- The edges with those to all jobs of a list. -/
def addJobs (names : List String) :
    List Job → List (Nat × Nat) → Except GraphError (List (Nat × Nat))
  | [], edges => .ok edges
  | j :: js, edges =>
    match addDependencies names j.name j.dependencyNames edges with
    | .ok edges => addJobs names js edges
    | .error e => .error e

/-- The graph of a specification whose jobs can be ordered. -/
def ofSpec (s : Spec) : Except GraphError JobGraph :=
  if s.jobs.isEmpty then .error .noJobs
  else
    match addJobs s.jobNames s.jobs [] with
    | .error e => .error e
    | .ok edges =>
      let g : JobGraph := ⟨s.jobNames, edges⟩
      match g.order with
      | .ok _ => .ok g
      | .error e => .error e

end JobGraph

end Pipeline
