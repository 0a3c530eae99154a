import Mathlib.Algebra.Order.Monoid.Unbundled.Pow
import Mathlib.Algebra.Order.Group.Defs
import Mathlib.Order.Lattice

/-! # Walks that stop at a border

A walker takes the same step again and again and is pushed back to the nearest end of an
interval whenever it leaves it. Steps of one sign leave at one end only, and whoever got
there stays; so clamping after every step comes to clamping once at the end.
-/
namespace GameServer.Library
variable {α : Type} [AddCommGroup α] [LinearOrder α] [IsOrderedAddMonoid α] {lo hi x a b : α}

end GameServer.Library
