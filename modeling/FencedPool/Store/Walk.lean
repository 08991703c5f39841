import FencedPool.Store

/-!
# Walk — visiting all entries of a store

A walk visits each child of the root in order, and each child is followed by what stands below it,
so an entry always comes after its parent.  A path has no more ancestors than the store has entries,
which bounds the depth.

This file defines `Store.walk`.
-/

namespace FencedPool

namespace Store

/-- The entries below a path, depth first, down to a number of levels. -/
def walkBelow (s : Store) : Nat → String → List String
  | 0, _ => []
  | levels + 1, path =>
      (s.children path).flatMap fun child => child :: s.walkBelow levels child

def walk (s : Store) : List String := s.walkBelow s.entries.toList.length Path.root

end Store

end FencedPool
