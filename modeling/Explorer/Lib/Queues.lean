import Mathlib.Data.List.Nodup
import Mathlib.Logic.Function.Iterate

/-!
# Queues that are served from the front

A pass looks at the first elements of a queue, takes out those it can serve
and leaves the others in their place. An element comes up exactly when the
elements that stay in front of it leave room for it: those that can be served
go, a few at a time, and the others never do.
-/

namespace Explorer.Lib

variable {α : Type*} (k : Nat) (good : α → Bool)

/-- The queue after a pass over its first `k`. -/
def drain (queue : List α) : List α :=
  (queue.take k).filter (fun a => !good a) ++ queue.drop k

variable {k good}

end Explorer.Lib
