import Mathlib.Algebra.Order.Ring.Rat
import Mathlib.Tactic.Linarith

/-! # Positions, velocities and users

Coordinates, speeds and times are read as exact rationals. User ids are
integers and money is a 64-bit word, as in the source.
-/
namespace GameServer.Common

structure Vector2 where
  x : ℚ
  y : ℚ
deriving DecidableEq

namespace Vector2

def new (x y : ℚ) : Vector2 := { x := x, y := y }
def zero : Vector2 := { x := 0, y := 0 }
def isQualsZero (v : Vector2) : Bool := v.x == 0 && v.y == 0

end Vector2

structure Velocity where
  direction : Vector2
  len : ℚ
deriving DecidableEq

namespace Velocity

def new (direction : Vector2) (len : ℚ) : Velocity := { direction := direction, len := len }

end Velocity

/-- A query rectangle, given by its upper left and lower right corner. -/
structure RectScope where
  leftUp : Vector2
  rightDown : Vector2
deriving DecidableEq

structure FullRectScope where
  leftUp : Vector2
  leftDown : Vector2
  rightUp : Vector2
  rightDown : Vector2
deriving DecidableEq

namespace RectScope

def toFullRectScope (s : RectScope) : FullRectScope where
  leftUp := s.leftUp
  leftDown := Vector2.new s.leftUp.x s.rightDown.y
  rightUp := Vector2.new s.rightDown.x s.leftUp.y
  rightDown := s.rightDown

end RectScope

abbrev UserId := ℤ

structure User where
  id : UserId
  position : Vector2
  velocity : Velocity
  money : UInt64
deriving DecidableEq

/-- Half the side of the world; coordinates run from its negative to itself. -/
def worldBound : ℚ := 1000000

def InWorld (p : Vector2) : Prop :=
  -worldBound ≤ p.x ∧ p.x ≤ worldBound ∧ -worldBound ≤ p.y ∧ p.y ≤ worldBound

instance (p : Vector2) : Decidable (InWorld p) := by unfold InWorld; infer_instance

/-- The two border checks `shift` makes on one coordinate. -/
def clampCoordinate (c : ℚ) : ℚ :=
  let c := if c > worldBound then worldBound else c
  if c < -worldBound then -worldBound else c

theorem clampCoordinate_bounds (c : ℚ) :
    -worldBound ≤ clampCoordinate c ∧ clampCoordinate c ≤ worldBound := by
  unfold clampCoordinate worldBound
  dsimp only
  split <;> split <;> constructor <;> linarith

namespace User

/-- Move for the given time; a user without direction is not even clamped. -/
def shift (u : User) (time : ℚ) : User :=
  if u.velocity.direction.isQualsZero then u
  else
    let shiftX := u.velocity.direction.x * u.velocity.len * time
    let shiftY := u.velocity.direction.y * u.velocity.len * time
    { u with position :=
        { x := clampCoordinate (u.position.x + shiftX)
          y := clampCoordinate (u.position.y + shiftY) } }

/-- A new user at the position the random generator returned. -/
def randomWithoutVelocity (id : UserId) (randPosition : Vector2) : User :=
  { id := id, position := randPosition, velocity := Velocity.new Vector2.zero 0, money := 0 }

@[simp] theorem shift_id (u : User) (t : ℚ) : (u.shift t).id = u.id := by
  unfold shift
  split <;> rfl

@[simp] theorem shift_velocity (u : User) (t : ℚ) : (u.shift t).velocity = u.velocity := by
  unfold shift
  split <;> rfl

@[simp] theorem shift_money (u : User) (t : ℚ) : (u.shift t).money = u.money := by
  unfold shift
  split <;> rfl

theorem shift_inWorld {u : User} (h : InWorld u.position) (t : ℚ) :
    InWorld (u.shift t).position := by
  unfold shift
  split
  · exact h
  · have hx := clampCoordinate_bounds (u.position.x + u.velocity.direction.x * u.velocity.len * t)
    have hy := clampCoordinate_bounds (u.position.y + u.velocity.direction.y * u.velocity.len * t)
    exact ⟨hx.1, hx.2, hy.1, hy.2⟩

theorem shift_of_still {u : User} (h : u.velocity.direction.isQualsZero = true) (t : ℚ) :
    u.shift t = u := by
  unfold shift
  rw [if_pos h]

theorem randomWithoutVelocity_still (id : UserId) (p : Vector2) :
    (randomWithoutVelocity id p).velocity.direction.isQualsZero = true := by
  rfl

end User

end GameServer.Common
