/-!
# Depth-first search

`Graph.finished` goes through a graph depth first. It lists the nodes that it comes to, the one
that was finished last at the front: a node is finished when everything that follows it is.
-/

namespace Pipeline

namespace Graph

/-- What is left to do for a node. -/
inductive Task where
  /-- Go through what follows it, unless it was seen before. -/
  | enter (v : Nat)
  /-- Note that it is finished. -/
  | leave (v : Nat)
  deriving DecidableEq, Repr, Inhabited

/-- Works through the tasks in order. `unseen` holds the nodes that the search did not come to
yet, `done` those that are finished, the last one at the front. -/
def search (next : Nat → List Nat) (unseen : List Nat) (tasks : List Task) (done : List Nat) :
    List Nat :=
  match tasks with
  | [] => done
  | .leave v :: rest => search next unseen rest (v :: done)
  | .enter v :: rest =>
    if v ∈ unseen then
      search next (unseen.erase v) ((next v).map .enter ++ .leave v :: rest) done
    else search next unseen rest done
termination_by (unseen.length, tasks.length)
decreasing_by
  · exact Prod.Lex.right _ (by simp)
  · rename_i h
    refine Prod.Lex.left _ _ ?_
    have := List.length_pos_of_mem h
    rw [List.length_erase_of_mem h]
    omega
  · exact Prod.Lex.right _ (by simp)

/-- The nodes that a search from the given ones comes to, among `nodes`; the one that was
finished last is at the front. -/
def finished (next : Nat → List Nat) (nodes starts : List Nat) : List Nat :=
  search next nodes (starts.map .enter) []

end Graph

end Pipeline
