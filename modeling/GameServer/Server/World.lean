import GameServer.Library.HashMap
import GameServer.Library.Outcome
import GameServer.CommonServer.MapTool
import GameServer.Server.Config

/-! # The world: a grid of maps and an index of all users

Every user is stored twice, in the scene of the map its position belongs to and
in the index `users`. The operations below are the source's, in its order of
writes; an operation that panics keeps what it has written.
-/
namespace GameServer.Server
open Common CommonServer Library

structure Scene where
  users : HashMap UserId User

structure Map where
  mapTag : MapTag
  scenes : Scene
  startPosition : Vector2
  endPosition : Vector2

abbrev Maps := HashMap MapTag Map

structure ChangeMap where
  oldMaptag : MapTag
  newMaptag : MapTag
  user : User

structure World where
  maps : Maps
  users : HashMap UserId User
  width : ℚ
  height : ℚ
  tickTime : ℚ
  clientMap : HashMap String UserId
  areaLen : ℕ
  maxAoeRadius : ℚ
  stateInfo : StateInfo
  connectionCount : UInt32

namespace Map

/-- `scenes.users.insert(user.id, user)` -/
def insertUser (user : User) (map : Map) : Map :=
  { map with scenes := { users := map.scenes.users.insert user.id user } }

/-- `scenes.users.remove(&id)` -/
def removeUser (id : UserId) (map : Map) : Map :=
  { map with scenes := { users := map.scenes.users.erase id } }

/-- A write through `scenes.users.get_mut(&id)` -/
def adjustUser (id : UserId) (f : User → User) (map : Map) : Map :=
  { map with scenes := { users := map.scenes.users.adjust id f } }

end Map

/-- The side of one cell. -/
def areaLength : ℕ := 200000

/-- The range `-5..6` without zero. -/
def cellLens : List ℤ := ((List.range 11).map (fun i : ℕ => (i : ℤ) - 5)).filter (fun n => n ≠ 0)

/-- The tags of the maps `World::init` creates, in its order. -/
def initTags : List MapTag :=
  cellLens.flatMap (fun xLen : ℤ => cellLens.map (fun yLen : ℤ =>
    { fieldId := getFieldIdFromLenOrPos xLen yLen, xLen := xLen, yLen := yLen }))

def initMap (mapTag : MapTag) : Map where
  mapTag := mapTag
  scenes := { users := ∅ }
  startPosition := { x := (mapTag.xLen * areaLength : ℤ), y := (mapTag.yLen * areaLength : ℤ) }
  endPosition :=
    { x := ((mapTag.xLen + 1) * areaLength : ℤ), y := ((mapTag.yLen - 1) * areaLength : ℤ) }

def userAt (maps : Maps) (tag : MapTag) (id : UserId) : Option User :=
  (maps.lookup tag).bind (fun map => map.scenes.users.lookup id)

/-- The union of all scenes. -/
def collectUsers (maps : Maps) : HashMap UserId User :=
  (maps.values.map (fun map => map.scenes.users)).foldl AList.extend ∅

/-- One iteration of the loop in `update` that carries out the map changes. -/
def changeMap (maps : Maps) (c : ChangeMap) : Outcome Panic Maps :=
  match maps.lookup c.oldMaptag with
  | none => Outcome.fail maps .oldMapMissing
  | some _ => Outcome.ok
      ((maps.adjust c.oldMaptag (Map.removeUser c.user.id)).adjust c.newMaptag
        (Map.insertUser c.user))

namespace World

def init (conf : GameServerConf) : World where
  maps := initTags.foldl (fun maps tag => maps.insert tag (initMap tag)) ∅
  users := ∅
  width := 2000000
  height := 2000000
  tickTime := conf.basic.tickTime
  clientMap := ∅
  areaLen := areaLength
  maxAoeRadius := conf.basic.maxAoeRadius
  stateInfo :=
    { maxConnection := conf.basic.maxConnection
      currentConnection := 0
      loadFactor := 0
      avgUpdateDelay := 0
      userCount := 0 }
  connectionCount := 0

def userCount (w : World) : UInt32 :=
  UInt32.ofNat ((w.maps.values.map (fun map => map.scenes.users.entries.length)).sum)

def updateStateInfo (w : World) : World :=
  { w with stateInfo := { w.stateInfo with
      currentConnection := w.connectionCount
      -- with a `max_connection` of zero the source has no number here
      loadFactor := (w.connectionCount.toNat : ℚ) / w.stateInfo.maxConnection.toNat
      userCount := w.userCount } }

/-- The entry for the change list when a moved user leaves its map. -/
def needChange (w : World) (user : User) : Option ChangeMap :=
  let oldMapTag := pos2mapTag w.areaLen user.position
  let user := user.shift w.tickTime
  let newMapTag := pos2mapTag w.areaLen user.position
  if newMapTag ≠ oldMapTag then
    some { oldMaptag := oldMapTag, newMaptag := newMapTag, user := user }
  else none

def needChangeMapUser (w : World) : List ChangeMap :=
  w.maps.values.flatMap (fun map => map.scenes.users.values.filterMap w.needChange)

/-- The maps after every user was moved in place. -/
def shiftMaps (w : World) : Maps :=
  w.maps.mapVal (fun _ map =>
    { map with scenes := { users := map.scenes.users.mapVal (fun _ u => u.shift w.tickTime) } })

/-- The world clock: move everyone, change maps, rebuild the index. -/
def update (w : World) : Outcome Panic World :=
  let changed := Outcome.forEach changeMap w.shiftMaps w.needChangeMapUser
  match changed.panic with
  | some e => Outcome.fail { w with maps := changed.state } e
  | none => Outcome.ok
      { w with maps := changed.state, users := collectUsers changed.state }.updateStateInfo

def addUser (w : World) (user : User) : World :=
  { w with
    maps := w.maps.adjust (pos2mapTag w.areaLen user.position) (Map.insertUser user)
    users := w.users.insert user.id user }

def removeUser (w : World) (userId : UserId) : Outcome Panic World :=
  match w.users.lookup userId with
  | none => Outcome.ok w
  | some user =>
    let tag := pos2mapTag w.areaLen user.position
    match w.maps.lookup tag with
    | none => Outcome.fail w .removeMapMissing
    | some _ => Outcome.ok
        { w with maps := w.maps.adjust tag (Map.removeUser userId), users := w.users.erase userId }

def removeUserByClientId (w : World) (clientId : String) : Outcome Panic World :=
  let userId := w.clientMap.lookup clientId
  let w := { w with clientMap := w.clientMap.erase clientId }
  match userId with
  | none => Outcome.ok w
  | some userId => w.removeUser userId

def setVelocity (w : World) (id : UserId) (velocity : Velocity) : World :=
  match w.users.lookup id with
  | none => w
  | some user =>
    { w with
      users := w.users.adjust id (fun u => { u with velocity := velocity })
      maps := w.maps.adjust (pos2mapTag w.areaLen user.position)
        (Map.adjustUser id (fun u => { u with velocity := velocity })) }

end World
end GameServer.Server
