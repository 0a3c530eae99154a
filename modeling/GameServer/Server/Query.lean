import GameServer.Server.World

/-! # Queries and the area of effect

A query visits the maps in the cell cover of its rectangle and filters their
users by position. An area of effect queries the bounding square of its circle,
filters by distance and credits every hit through a second lookup.
-/
namespace GameServer.Server
open Common CommonServer Library

/-- The inner loop of the cover, from the upper to the lower row; index 0 is skipped. -/
def coverColumn (xLen insideEnd : ℤ) : ℕ → ℤ → List MapTag
  | 0, _ => []
  | fuel + 1, yLen =>
    if insideEnd - 1 < yLen then
      let yLen := if yLen = 0 then yLen - 1 else yLen
      { fieldId := getFieldIdFromLenOrPos xLen yLen, xLen := xLen, yLen := yLen } ::
        coverColumn xLen insideEnd fuel (yLen - 1)
    else []

/-- The outer loop of the cover, from the left to the right column. -/
def coverColumns (outEnd insideStart insideEnd : ℤ) : ℕ → ℤ → List MapTag
  | 0, _ => []
  | fuel + 1, xLen =>
    if xLen < outEnd + 1 then
      let xLen := if xLen = 0 then xLen + 1 else xLen
      coverColumn xLen insideEnd (insideStart + 1 - insideEnd).toNat insideStart ++
        coverColumns outEnd insideStart insideEnd fuel (xLen + 1)
    else []

def addMoney : Overflow → UInt64 → UInt64 → Option UInt64
  | .wraps, a, b => some (a + b)
  | .panics, a, b => if a.toNat + b.toNat < 2 ^ 64 then some (a + b) else none

namespace World

/-- Each loop turns at most once for every index between its bounds, so the
number of indices is fuel enough. -/
def getCoverMapByScope (w : World) (scope : RectScope) : List MapTag :=
  let leftUpMapTag := pos2mapTag w.areaLen scope.leftUp
  let rightDownMapTag := pos2mapTag w.areaLen scope.rightDown
  coverColumns rightDownMapTag.xLen leftUpMapTag.yLen rightDownMapTag.yLen
    (rightDownMapTag.xLen + 1 - leftUpMapTag.xLen).toNat leftUpMapTag.xLen

def query (w : World) (scope : RectScope) : List User :=
  let fullScope := scope.toFullRectScope
  (w.getCoverMapByScope scope).flatMap (fun mapTag =>
    match w.maps.lookup mapTag with
    | none => []
    | some map => map.scenes.users.values.filter (fun user =>
        user.position.x ≥ fullScope.leftUp.x ∧ user.position.x ≤ fullScope.rightDown.x ∧
        user.position.y ≤ fullScope.leftUp.y ∧ user.position.y ≥ fullScope.rightDown.y))

/-- `distance <= radius`, without the square root. -/
def inCircle (center : Vector2) (radius : ℚ) (p : Vector2) : Prop :=
  0 ≤ radius ∧ (p.x - center.x) ^ 2 + (p.y - center.y) ^ 2 ≤ radius ^ 2

instance (center : Vector2) (radius : ℚ) (p : Vector2) : Decidable (inCircle center radius p) := by
  unfold inCircle; infer_instance

def queryByCircleScope (w : World) (circleCenter : Vector2) (radius : ℚ) : HashMap UserId User :=
  let scope : RectScope :=
    { leftUp := { x := circleCenter.x - radius, y := circleCenter.y + radius }
      rightDown := { x := circleCenter.x + radius, y := circleCenter.y - radius } }
  ((w.query scope).filter (fun user => inCircle circleCenter radius user.position)).foldl
    (fun users user => users.insert user.id user) ∅

def credit (overflow : Overflow) (money : UInt64) (w : World) (user : User) : Outcome Panic World :=
  let tag := pos2mapTag w.areaLen user.position
  match w.maps.lookup tag with
  | none => Outcome.fail w .mapIsNone
  | some map =>
    match map.scenes.users.lookup user.id with
    | none => Outcome.fail w .aoeUserMissing
    | some u =>
      match addMoney overflow u.money money with
      | none => Outcome.fail w .moneyOverflow
      | some total => Outcome.ok
          { w with
            maps := w.maps.adjust tag
              (Map.adjustUser user.id (fun u => { u with money := total })) }

def aoeTargets (w : World) (user : User) (id : UserId) (radius : ℚ) : HashMap UserId User :=
  (w.queryByCircleScope user.position radius).erase id

/-- An area of effect; `order` enumerates the hits, which are held in a hash map. -/
def aoe (overflow : Overflow) (order : HashMap UserId User → List User) (w : World) (id : UserId)
    (radius : ℚ) (money : UInt64) : Outcome Panic World :=
  if radius > w.maxAoeRadius then Outcome.ok w
  else
    match w.users.lookup id with
    | none => Outcome.ok w
    | some user => Outcome.forEach (credit overflow money) w (order (w.aoeTargets user id radius))

end World
end GameServer.Server
