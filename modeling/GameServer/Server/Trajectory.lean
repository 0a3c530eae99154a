import GameServer.Library.ClampedWalk
import GameServer.Server.Arena

/-! # The way of a player that is left alone

A player that nobody steers or takes away moves in a straight line from tick to tick and is
stopped at the border of the world. It is seen where the line has brought it, unless some
tick ended at a place that has no map: from then on no query finds it.
-/
namespace GameServer.Server
open Common CommonServer Library

/-! ## Many ticks come to one move -/

/-- The player with the given id, as far as its place and its velocity go. -/
def World.shown (w : World) (id : UserId) : Option User := (w.arena.players id).map moneyless

section
variable {overflow : Overflow} {w v : World} {a : Option WorldOp} {id : UserId}

end

end GameServer.Server
