/-!
# Repeated keys

`duplicates` lists the entries of a list whose key occurs further ahead in the list: the first
occurrence of a key is never listed, and every later one is.
-/

namespace Pipeline

/-- The positions, counted from `i`, of the keys that are in `seen` or occur earlier. -/
def duplicatesFrom (seen : List String) (i : Nat) : List String → List (Nat × String)
  | [] => []
  | k :: ks =>
    if k ∈ seen then (i, k) :: duplicatesFrom seen (i + 1) ks
    else duplicatesFrom (k :: seen) (i + 1) ks

/-- The positions of the keys that occur earlier in the list, each with its key. -/
def duplicates (keys : List String) : List (Nat × String) := duplicatesFrom [] 0 keys

end Pipeline
