import GameServer.Server.Money
import GameServer.Server.Movement
import GameServer.Server.SingleNode

/-! # The game without its grid

For a player the world is one arena: players stand in it, move with the ticks, are steered,
hit and asked for. The maps, the index of the users and the lists of map changes are how the
node keeps track of them. Whoever enters where no map is waits outside until the next tick
and is then forgotten. A world that runs behaves as the arena does under the same operations.
-/
namespace GameServer.Server
open Common CommonServer Library

/-- Who is in the arena, who waits outside, and who is logged in under which id. -/
structure Arena where
  tickTime : ℚ
  maxAoeRadius : ℚ
  players : UserId → Option User
  waiting : UserId → Option User
  sessions : String → Option UserId

namespace Arena

def start (conf : GameServerConf) : Arena where
  tickTime := conf.basic.tickTime
  maxAoeRadius := conf.basic.maxAoeRadius
  players _ := none
  waiting _ := none
  sessions _ := none

def find (s : Arena) (id : UserId) : Option User := (s.players id).or (s.waiting id)

def enter (s : Arena) (user : User) : Arena :=
  if Unmapped user.position then { s with waiting := Function.update s.waiting user.id (some user) }
  else { s with players := Function.update s.players user.id (some user) }

/-- Only who is in the arena can leave it. -/
def leave (s : Arena) (id : UserId) : Arena := { s with players := Function.update s.players id none }

def steer (s : Arena) (id : UserId) (velocity : Velocity) : Arena :=
  let turn : UserId → User → User := fun i u => if i = id then { u with velocity := velocity } else u
  { s with players := fun i => (s.players i).map (turn i), waiting := fun i => (s.waiting i).map (turn i) }

def Hit (s : Arena) (id : UserId) (radius : ℚ) (i : UserId) (u : User) : Prop :=
  ∃ user, s.find id = some user ∧ radius ≤ s.maxAoeRadius ∧ i ≠ id ∧
    World.inCircle user.position radius u.position

open scoped Classical in
noncomputable def credit (s : Arena) (id : UserId) (radius : ℚ) (money : UInt64) : Arena :=
  { s with players := fun i => (s.players i).map (fun u =>
      if s.Hit id radius i u then { u with money := u.money + money } else u) }

/-- Everyone moves, and who gets to a place without a map is gone. -/
def tick (s : Arena) : Arena :=
  { s with
    players := fun i => ((s.players i).map (User.shift · s.tickTime)).filter
      (fun u => decide (¬ Unmapped u.position))
    waiting := fun _ => none }

/-- The arena after an operation. -/
noncomputable def next (s : Arena) : WorldOp → Arena
  | .addUser user => s.enter user
  | .removeUser userId => s.leave userId
  | .login clientId userId => { s with sessions := Function.update s.sessions clientId (some userId) }
  | .logout clientId => { s with sessions := Function.update s.sessions clientId none }
  | .removeUserByClientId clientId =>
    let left := { s with sessions := Function.update s.sessions clientId none }
    (s.sessions clientId).elim left left.leave
  | .setVelocity id velocity => s.steer id velocity
  | .aoe _ id radius money => s.credit id radius money
  | .update => s.tick

/-- No amount overflows, or it wraps around. -/
def Fits (s : Arena) (overflow : Overflow) : WorldOp → Prop
  | .aoe _ id radius money => overflow = .wraps ∨ ∀ i u, s.players i = some u → s.Hit id radius i u →
      u.money.toNat + money.toNat < 2 ^ 64
  | _ => True

/-- The operation would take away a user who waits outside. -/
def Stuck (s : Arena) : WorldOp → Prop
  | .removeUser userId => s.waiting userId ≠ none
  | .removeUserByClientId clientId => ∃ userId, s.sessions clientId = some userId ∧ s.waiting userId ≠ none
  | _ => False

theorem leave_of_absent {s : Arena} {id : UserId} (h : s.players id = none) : s.leave id = s := by
  unfold leave
  rw [← h, Function.update_eq_self]

end Arena

/-! ## The arena a world shows -/

/-- The users in the scenes are in the arena; those the index knows besides wait outside. -/
def World.arena (w : World) : Arena where
  tickTime := w.tickTime
  maxAoeRadius := w.maxAoeRadius
  players := (collectUsers w.maps).lookup
  waiting id := if (collectUsers w.maps).lookup id = none then w.users.lookup id else none
  sessions := w.clientMap.lookup

section
variable {w v : World} {id : UserId} {u : User} {radius : ℚ} {money : UInt64}

theorem World.Settled.players_iff (h : w.Settled) :
    w.arena.players id = some u ↔ ∃ tag, userAt w.maps tag id = some u :=
  ⟨lookup_collectUsers_some,fun ⟨_,hu⟩ => h.lookup_collectUsers hu⟩

theorem players_none : w.arena.players id = none ↔ ∀ tag, userAt w.maps tag id = none :=
  lookup_collectUsers_none

theorem waiting_of_absent (h : w.arena.players id = none) : w.arena.waiting id = w.users.lookup id := if_pos h

theorem waiting_of_present (h : w.arena.players id ≠ none) : w.arena.waiting id = none := if_neg h

/-- The index knows the place of everyone, in the arena or outside. -/
theorem World.Settled.find_position (h : w.Settled) (id : UserId) :
    (w.arena.find id).map User.position = (w.users.lookup id).map User.position := by
  unfold Arena.find
  cases hp : w.arena.players id with
  | none => rw [Option.none_or, waiting_of_absent hp]
  | some u =>
    obtain ⟨tag,hu⟩ := h.players_iff.mp hp
    obtain ⟨v,hv,hpos,-⟩ := h.agree tag id u hu
    rw [hv, Option.some_or, Option.map_some, Option.map_some, hpos]

theorem arena_eq {s : Arena} (htick : v.tickTime = s.tickTime) (hradius : v.maxAoeRadius = s.maxAoeRadius)
    (hplayers : ∀ id, v.arena.players id = s.players id)
    (habsent : ∀ id, s.players id = none → v.users.lookup id = s.waiting id)
    (hpresent : ∀ id, s.players id ≠ none → s.waiting id = none)
    (hsessions : ∀ c, v.clientMap.lookup c = s.sessions c) : v.arena = s := by
  obtain ⟨t,r,players,waiting,sessions⟩ := s
  have hp : v.arena.players = players := funext hplayers
  have hs : v.arena.sessions = sessions := funext hsessions
  have hw : v.arena.waiting = waiting := by
    funext id
    by_cases hid : players id = none
    · exact (waiting_of_absent ((hplayers id).trans hid)).trans (habsent id hid)
    · rw [waiting_of_present (fun hn => hid ((hplayers id).symm.trans hn))]
      exact (hpresent id hid).symm
  unfold World.arena at hp hs hw ⊢
  dsimp only at htick hradius
  rw [Arena.mk.injEq]
  exact ⟨htick,hradius,hp,hw,hs⟩

theorem arena_same (h : w.Settled) (hs : w.Same v) : v.arena = w.arena := by
  have hv := settled_of_same h hs
  refine arena_eq hs.tickTime_eq (by rw [hs.rest]; rfl) ?_ ?_ (fun _ => waiting_of_present) ?_
  · intro id
    apply Option.ext
    intro u
    rw [hv.players_iff, h.players_iff]
    simp only [hs.userAt_eq]
  · intro id hid
    rw [waiting_of_absent hid]
    exact (hs.users id).symm
  · exact fun c => (hs.clientMap c).symm

/-- Who waits outside stands where no map is. -/
structure World.Fenced (w : World) : Prop extends w.Valid where
  outside : ∀ id u, w.arena.waiting id = some u → Unmapped u.position

theorem World.Valid.mapped_iff (h : w.Valid) (hu : w.users.lookup id = some u) :
    pos2mapTag w.areaLen u.position ∈ w.maps ↔ ¬ Unmapped u.position := by
  rw [h.area, h.layout.keys]
  exact pos2mapTag_mem_iff (h.usersIn id u hu)

/-- Someone in the arena stands where a map is. -/
theorem World.Valid.mapped_of_player (h : w.Valid) (hu : w.arena.players id = some u) :
    ¬ Unmapped u.position := by
  obtain ⟨tag,hat⟩ := h.players_iff.mp hu
  rw [← pos2mapTag_mem_iff (h.mapsIn tag id u hat), h.placed tag id u hat]
  exact h.mem_initTags_of_userAt hat

/-- The index places whoever it knows: in the arena if there is a map, outside otherwise. -/
theorem World.Fenced.waiting_iff (h : w.Fenced) (hu : w.users.lookup id = some u) :
    w.arena.waiting id ≠ none ↔ Unmapped u.position := by
  constructor
  · intro hw
    have habsent : w.arena.players id = none := by
      by_contra hp
      exact hw (waiting_of_present hp)
    apply h.outside id u
    rw [waiting_of_absent habsent]
    exact hu
  · intro hout
    have habsent : w.arena.players id = none := by
      cases hp : w.arena.players id with
      | none => rfl
      | some v =>
        obtain ⟨tag,hat⟩ := h.players_iff.mp hp
        obtain ⟨u',hu',hpos,-⟩ := h.agree tag id v hat
        rw [hu] at hu'
        obtain rfl := Option.some.inj hu'
        rw [hpos] at hout
        exact absurd hout (h.toValid.mapped_of_player hp)
    rw [waiting_of_absent habsent, hu]
    exact fun hc => by cases hc

theorem absent_of_unknown (h : w.Settled) (hu : w.users.lookup id = none) : w.arena.players id = none := by
  cases hp : w.arena.players id with
  | none => rfl
  | some v =>
    obtain ⟨tag,hat⟩ := h.players_iff.mp hp
    obtain ⟨u',hu',-⟩ := h.agree tag id v hat
    rw [hu] at hu'
    cases hu'

/-! ## What each operation does to the arena -/

theorem players_addUser (h : w.Valid) {user : User} (hf : w.Fresh user.id) (hin : InWorld user.position)
    (id : UserId) (u : User) : (w.addUser user).arena.players id = some u ↔
      (id = user.id ∧ ¬ Unmapped user.position ∧ u = user) ∨
        (id ≠ user.id ∧ w.arena.players id = some u) := by
  have hset := settled_addUser h.toSettled hf
  have hmapped : pos2mapTag w.areaLen user.position ∈ w.maps ↔ ¬ Unmapped user.position := by
    rw [h.area, h.layout.keys]
    exact pos2mapTag_mem_iff hin
  rw [hset.players_iff, h.players_iff]
  simp only [userAt_addUser]
  constructor
  · rintro ⟨tag,hu⟩
    split at hu
    · rename_i hc
      obtain rfl := Option.some.inj hu
      refine Or.inl ⟨hc.2.1,?_,rfl⟩
      rw [← hmapped, ← hc.1]
      exact hc.2.2
    · refine Or.inr ⟨?_,tag,hu⟩
      rintro rfl
      rw [hf.2 tag] at hu
      cases hu
  · rintro (⟨rfl,hmap,rfl⟩ | ⟨hne,tag,hu⟩)
    · exact ⟨_,if_pos ⟨rfl,rfl,hmapped.mpr hmap⟩⟩
    · exact ⟨tag,by rw [if_neg (fun hc => hne hc.2.1)]; exact hu⟩

theorem arena_addUser (h : w.Valid) {user : User} (hf : w.Fresh user.id) (hin : InWorld user.position) :
    (w.addUser user).arena = w.arena.enter user := by
  have hnew : w.arena.players user.id = none := players_none.mpr hf.2
  unfold Arena.enter
  split
  · rename_i hout
    refine arena_eq rfl rfl ?_ ?_ ?_ (fun _ => rfl)
    · intro id
      apply Option.ext
      intro u
      rw [players_addUser h hf hin]
      by_cases hid : id = user.id
      · subst hid
        simp [hout, hnew]
      · simp [hid]
    · intro id hid
      dsimp only at hid ⊢
      rw [lookup_addUser, Function.update_apply]
      split
      · rfl
      · exact (waiting_of_absent hid).symm
    · intro id hid
      dsimp only at hid ⊢
      have hne : id ≠ user.id := by
        rintro rfl
        exact hid hnew
      rw [Function.update_of_ne hne]
      exact waiting_of_present hid
  · rename_i hmapped
    refine arena_eq rfl rfl ?_ ?_ ?_ (fun _ => rfl)
    · intro id
      apply Option.ext
      intro u
      dsimp only
      rw [players_addUser h hf hin, Function.update_apply]
      by_cases hid : id = user.id
      · simp [hid, hmapped, eq_comm]
      · simp [hid]
    · intro id hid
      dsimp only at hid ⊢
      rw [Function.update_apply] at hid
      split at hid
      · cases hid
      · rename_i hne
        rw [lookup_addUser, if_neg hne]
        exact (waiting_of_absent hid).symm
    · intro id hid
      dsimp only at hid ⊢
      by_cases hne : id = user.id
      · subst hne
        rw [waiting_of_absent hnew]
        exact hf.1
      · rw [Function.update_of_ne hne] at hid
        exact waiting_of_present hid

theorem arena_removeUser (h : w.Fenced) (id : UserId) :
    (w.removeUser id).state.arena = w.arena.leave id ∧
      ((w.removeUser id).panic ≠ none ↔ w.arena.waiting id ≠ none) := by
  rcases removeUser_cases w id with ⟨hu,he⟩ | ⟨v,hu,hm,he⟩ | ⟨v,hu,hm,he⟩
  · have habsent := absent_of_unknown h.toSettled hu
    rw [he, Arena.leave_of_absent habsent, waiting_of_absent habsent, hu]
    exact ⟨rfl,by simp⟩
  · have hout : Unmapped v.position := by
      by_contra hc
      exact hm ((h.mapped_iff hu).mpr hc)
    have hw := (h.waiting_iff hu).mpr hout
    have habsent : w.arena.players id = none := by
      by_contra hp
      exact hw (waiting_of_present hp)
    rw [he, Arena.leave_of_absent habsent]
    exact ⟨rfl,by simp [hw]⟩
  · have hin := (h.mapped_iff hu).mp hm
    have hw : w.arena.waiting id = none := by
      by_contra hc
      exact hin ((h.waiting_iff hu).mp hc)
    have hset := settled_removeUser h.toSettled id
    refine ⟨?_,by simp [he, hw]⟩
    refine arena_eq (by rw [he]; rfl) (by rw [he]; rfl) ?_ ?_ ?_ (fun c => by rw [he]; rfl)
    · intro i
      apply Option.ext
      intro u
      rw [hset.players_iff, he]
      dsimp only [Outcome.ok_state, Arena.leave]
      rw [Function.update_apply]
      by_cases hi : i = id
      · subst hi
        simp only [userAt_removeUser, if_true, reduceCtorEq, iff_false, not_exists]
        intro tag hat
        split at hat
        · cases hat
        · rename_i hne
          exact hne ⟨(h.tag_of_user hat hu).symm,trivial⟩
      · rw [if_neg hi, h.players_iff]
        simp only [userAt_removeUser, hi, and_false, if_false]
    · intro i hi
      dsimp only [Arena.leave] at hi ⊢
      rw [he]
      dsimp only [Outcome.ok_state]
      rw [AList.lookup_erase_eq]
      rw [Function.update_apply] at hi
      split
      · rename_i hid
        rw [hid, hw]
      · rename_i hid
        rw [if_neg hid] at hi
        exact (waiting_of_absent hi).symm
    · intro i hi
      dsimp only [Arena.leave] at hi ⊢
      rw [Function.update_apply] at hi
      split at hi
      · exact absurd rfl hi
      · exact waiting_of_present hi

theorem arena_clientMap (w : World) (clientMap : HashMap String UserId) :
    { w with clientMap := clientMap }.arena = { w.arena with sessions := clientMap.lookup } := rfl

theorem fenced_clientMap (h : w.Fenced) (clientMap : HashMap String UserId) :
    { w with clientMap := clientMap }.Fenced :=
  ⟨valid_clientMap h.toValid clientMap,h.outside⟩

theorem sessions_erase (w : World) (c : String) :
    (w.clientMap.erase c).lookup = Function.update w.arena.sessions c none := by
  funext c'
  rw [AList.lookup_erase_eq, Function.update_apply]
  rfl

theorem sessions_insert (w : World) (c : String) (id : UserId) :
    (w.clientMap.insert c id).lookup = Function.update w.arena.sessions c (some id) := by
  funext c'
  rw [AList.lookup_insert_eq, Function.update_apply]
  rfl

theorem arena_removeUserByClientId (h : w.Fenced) (c : String) :
    (w.removeUserByClientId c).state.arena = w.arena.next (.removeUserByClientId c) ∧
      ((w.removeUserByClientId c).panic ≠ none ↔ w.arena.Stuck (.removeUserByClientId c)) := by
  have herase : { w with clientMap := w.clientMap.erase c }.arena =
      { w.arena with sessions := Function.update w.arena.sessions c none } := by
    rw [arena_clientMap, sessions_erase]
  unfold World.removeUserByClientId Arena.next Arena.Stuck
  dsimp only
  cases hc : w.clientMap.lookup c with
  | none =>
    have hs : w.arena.sessions c = none := hc
    rw [hs]
    exact ⟨herase,by simp⟩
  | some id =>
    have hs : w.arena.sessions c = some id := hc
    obtain ⟨hleft,hstuck⟩ := arena_removeUser (fenced_clientMap h (w.clientMap.erase c)) id
    rw [hs]
    rw [herase] at hleft hstuck
    exact ⟨hleft,hstuck.trans (by simp)⟩

theorem arena_setVelocity (h : w.Settled) (id : UserId) (velocity : Velocity) :
    (w.setVelocity id velocity).arena = w.arena.steer id velocity := by
  have hset := settled_setVelocity h id velocity
  have hrest : (w.setVelocity id velocity).tickTime = w.tickTime ∧
      (w.setVelocity id velocity).maxAoeRadius = w.maxAoeRadius := by
    unfold World.setVelocity
    cases w.users.lookup id <;> exact ⟨rfl,rfl⟩
  refine arena_eq hrest.1 hrest.2 ?_ ?_ ?_ ?_
  · intro i
    apply Option.ext
    intro u
    rw [hset.players_iff]
    dsimp only [Arena.steer]
    simp only [userAt_setVelocity_eq h, Option.map_eq_some_iff, h.players_iff]
    exact exists_comm.trans (by simp only [exists_and_right])
  · intro i hi
    dsimp only [Arena.steer] at hi ⊢
    rw [Option.map_eq_none_iff] at hi
    rw [lookup_setVelocity, waiting_of_absent hi]
  · intro i hi
    dsimp only [Arena.steer] at hi ⊢
    rw [ne_eq, Option.map_eq_none_iff] at hi
    rw [waiting_of_present hi]
    rfl
  · intro c
    rw [setVelocity_clientMap]
    rfl

/-- Whom an area of effect hits is the same seen in the world and in the arena. -/
theorem hits_iff (h : w.Settled) {i : UserId} :
    w.hits id radius i u = true ↔ w.arena.Hit id radius i u := by
  have hpos := h.find_position id
  unfold World.hits Arena.Hit
  cases hu : w.users.lookup id with
  | none =>
    rw [hu, Option.map_none, Option.map_eq_none_iff] at hpos
    simp [hpos]
  | some user =>
    rw [hu, Option.map_some, Option.map_eq_some_iff] at hpos
    obtain ⟨found,hf,hp⟩ := hpos
    simp only [hf, Option.some.injEq, exists_eq_left', hp, decide_eq_true_eq]
    exact Iff.rfl

open scoped Classical in
theorem arena_creditWhere (h : w.Settled) (hset : (w.creditWhere (w.hits id radius) money).Settled) :
    (w.creditWhere (w.hits id radius) money).arena = w.arena.credit id radius money := by
  refine arena_eq rfl rfl ?_ ?_ ?_ (fun _ => rfl)
  · intro i
    apply Option.ext
    intro u
    rw [hset.players_iff]
    dsimp only [Arena.credit]
    simp only [userAt_creditWhere, Option.map_eq_some_iff, h.players_iff]
    constructor
    · rintro ⟨tag,v,hat,rfl⟩
      exact ⟨v,⟨tag,hat⟩,if_congr (hits_iff h).symm rfl rfl⟩
    · rintro ⟨v,⟨tag,hat⟩,rfl⟩
      exact ⟨tag,v,hat,if_congr (hits_iff h) rfl rfl⟩
  · intro i hi
    dsimp only [Arena.credit] at hi ⊢
    rw [Option.map_eq_none_iff] at hi
    exact (waiting_of_absent hi).symm
  · intro i hi
    dsimp only [Arena.credit] at hi ⊢
    rw [ne_eq, Option.map_eq_none_iff] at hi
    exact waiting_of_present hi

theorem arena_update (h : w.Valid) : w.update.state.arena = w.arena.tick := by
  have hset := settled_update h.toSettled
  have hrest : w.update.state.tickTime = w.tickTime ∧ w.update.state.maxAoeRadius = w.maxAoeRadius := by
    rw [h.update_eq]
    exact ⟨rfl,rfl⟩
  have hplayers : ∀ i u, w.update.state.arena.players i = some u ↔ w.arena.tick.players i = some u := by
    intro i u
    rw [hset.players_iff]
    dsimp only [Arena.tick]
    rw [Option.filter_eq_some_iff]
    simp only [Option.map_eq_some_iff, h.players_iff, decide_eq_true_eq, userAt_update h.toSettled]
    constructor
    · rintro ⟨tag,t,u₀,hat,rfl,htag,hmem⟩
      refine ⟨⟨u₀,⟨t,hat⟩,rfl⟩,?_⟩
      rw [← pos2mapTag_mem_iff (User.shift_inWorld (h.mapsIn t i u₀ hat) w.tickTime), ← h.area, ← htag,
        ← h.layout.keys]
      exact hmem
    · rintro ⟨⟨u₀,⟨t,hat⟩,rfl⟩,hin⟩
      refine ⟨_,t,u₀,hat,rfl,rfl,?_⟩
      rw [h.layout.keys, h.area]
      exact (pos2mapTag_mem_iff (User.shift_inWorld (h.mapsIn t i u₀ hat) w.tickTime)).mpr hin
  have htick : ∀ i, w.update.state.arena.players i = w.arena.tick.players i :=
    fun i => Option.ext (hplayers i)
  refine arena_eq hrest.1 hrest.2 htick ?_ (fun _ _ => rfl) ?_
  · intro i hi
    rw [← htick] at hi
    have hno : ∀ u, w.update.state.users.lookup i ≠ some u := by
      intro u hu
      obtain ⟨tag,hat⟩ := (users_update h.toSettled i u).mp hu
      rw [hset.players_iff.mpr ⟨tag,hat⟩] at hi
      cases hi
    exact Option.eq_none_iff_forall_ne_some.mpr hno
  · intro c
    rw [update_clientMap]
    rfl

end

/-- What one operation does: the arena is the next one, and a panic is where it is stuck. -/
theorem arena_run {overflow : Overflow} {w : World} {a : WorldOp} (h : w.Fenced) (ha : a.Admissible w)
    (hf : w.arena.Fits overflow a) : (a.run overflow w).state.arena = w.arena.next a ∧
      ((a.run overflow w).panic ≠ none ↔ w.arena.Stuck a) := by
  have hno : ∀ v : World, (Outcome.ok v : Outcome Panic World).panic ≠ none ↔ False :=
    fun v => ⟨fun hc => hc rfl,False.elim⟩
  cases a with
  | addUser user => exact ⟨arena_addUser h.toValid ha.1 ha.2,hno _⟩
  | removeUser userId => exact arena_removeUser h userId
  | login clientId userId =>
    refine ⟨?_,hno _⟩
    simp only [WorldOp.run, Outcome.ok_state, Arena.next, arena_clientMap, sessions_insert]
  | logout clientId =>
    refine ⟨?_,hno _⟩
    simp only [WorldOp.run, Outcome.ok_state, Arena.next, arena_clientMap, sessions_erase]
  | removeUserByClientId clientId => exact arena_removeUserByClientId h clientId
  | setVelocity id velocity => exact ⟨arena_setVelocity h.toSettled id velocity,hno _⟩
  | aoe order id radius money =>
    have hcredit : w.aoe overflow order id radius money =
        Outcome.ok (w.creditWhere (w.hits id radius) money) := by
      apply aoe_eq_write h.toSettled overflow ha
      refine hf.imp_right ?_
      intro hfits tag i u hat hhit
      exact hfits i u (h.players_iff.mpr ⟨tag,hat⟩) ((hits_iff h.toSettled).mp hhit)
    have hset : (w.aoe overflow order id radius money).state.Settled :=
      settled_run (a := .aoe order id radius money) h.toSettled trivial
    rw [hcredit] at hset
    simp only [WorldOp.run, hcredit]
    exact ⟨arena_creditWhere h.toSettled hset,hno _⟩
  | update =>
    refine ⟨arena_update h.toValid,?_⟩
    simp only [WorldOp.run, h.update_eq]
    exact hno _

theorem players_credited {w v : World} (h : w.Settled) (hc : w.Credited v) (id : UserId) :
    (v.arena.players id).map moneyless = (w.arena.players id).map moneyless := by
  have hset := settled_of_credited h hc
  cases hp : w.arena.players id with
  | none =>
    have hv : v.arena.players id = none := by
      rw [players_none] at hp ⊢
      intro tag
      have he := hc.entries tag id
      rwa [hp tag, Option.map_none, Option.map_eq_none_iff] at he
    rw [hv]
  | some u =>
    obtain ⟨tag,hat⟩ := h.players_iff.mp hp
    obtain ⟨u',hat'⟩ := hc.entry hat
    have he := hc.entries tag id
    rw [hat, hat'] at he
    rw [hset.players_iff.mpr ⟨tag,hat'⟩]
    exact he

theorem fenced_credited {w v : World} (h : w.Fenced) (hc : w.Credited v) : v.Fenced := by
  refine ⟨valid_of_credited h.toValid hc,?_⟩
  intro id u hu
  apply h.outside id u
  have hp := players_credited h.toSettled hc id
  by_cases habsent : v.arena.players id = none
  · rw [habsent, Option.map_none, eq_comm, Option.map_eq_none_iff] at hp
    rw [waiting_of_absent habsent, hc.users_eq] at hu
    rw [waiting_of_absent hp]
    exact hu
  · rw [waiting_of_present habsent] at hu
    cases hu

theorem fenced_run {overflow : Overflow} {w : World} {a : WorldOp} (h : w.Fenced) (ha : a.Admissible w) :
    (a.run overflow w).state.Fenced := by
  have hnext : w.arena.Fits overflow a →
      (∀ id u, (w.arena.next a).waiting id = some u → Unmapped u.position) →
      (a.run overflow w).state.Fenced := by
    intro hf hout
    refine ⟨valid_run h.toValid ha,?_⟩
    rw [(arena_run h ha hf).1]
    exact hout
  cases a with
  | addUser user =>
    apply hnext trivial
    intro id u hu
    simp only [Arena.next, Arena.enter] at hu
    split at hu
    · rename_i hout
      simp only [Function.update_apply] at hu
      split at hu
      · obtain rfl := Option.some.inj hu
        exact hout
      · exact h.outside id u hu
    · exact h.outside id u hu
  | removeUser userId => exact hnext trivial h.outside
  | login clientId userId => exact hnext trivial h.outside
  | logout clientId => exact hnext trivial h.outside
  | removeUserByClientId clientId =>
    apply hnext trivial
    intro id u hu
    simp only [Arena.next] at hu
    cases hc : w.arena.sessions clientId <;> rw [hc] at hu <;> exact h.outside id u hu
  | setVelocity i velocity =>
    apply hnext trivial
    intro id u hu
    obtain ⟨v,hv,rfl⟩ := Option.map_eq_some_iff.mp hu
    have hout := h.outside id v hv
    dsimp only
    split <;> exact hout
  | aoe order i radius money => exact fenced_credited h (credited_aoe overflow order w i radius money)
  | update => exact hnext trivial (fun id u hu => by cases hu)

/-! ## What can be seen of an arena -/

section
variable {w : World} (h : w.Settled)
include h

/-- A query answers with the players inside its rectangle, each once. -/
theorem query_arena (scope : RectScope) : (w.query scope).Nodup ∧
    ∀ u, u ∈ w.query scope ↔ w.arena.players u.id = some u ∧ InScope scope u.position := by
  refine ⟨nodup_query h.area h.placedMaps scope,?_⟩
  intro u
  rw [mem_query h.area h.placedMaps, h.players_iff]
  constructor
  · rintro ⟨⟨tag,id,hu⟩,hin⟩
    refine ⟨⟨tag,?_⟩,hin⟩
    rw [h.ids tag id u hu]
    exact hu
  · rintro ⟨⟨tag,hu⟩,hin⟩
    exact ⟨⟨tag,u.id,hu⟩,hin⟩

theorem nodup_storedIds : (w.storedUsers.map User.id).Nodup := by
  refine List.Nodup.map_on ?_ (nodup_storedUsers h.placedMaps)
  intro u hu v hv hid
  obtain ⟨tag,i,hat⟩ := mem_storedUsers.mp hu
  obtain ⟨tag',i',hat'⟩ := mem_storedUsers.mp hv
  have hi : i = i' := (h.ids tag i u hat).symm.trans (hid.trans (h.ids tag' i' v hat'))
  subst hi
  exact h.unique_user hat hat'

theorem userCount_arena : w.userCount = UInt32.ofNat {id | w.arena.players id ≠ none}.ncard := by
  have hset : {id | w.arena.players id ≠ none} = ((w.storedUsers.map User.id).toFinset : Set UserId) := by
    ext id
    simp only [Set.mem_ofPred_eq, List.coe_toFinset, List.mem_map, mem_storedUsers]
    rw [Option.ne_none_iff_exists']
    simp only [h.players_iff]
    constructor
    · rintro ⟨u,tag,hu⟩
      exact ⟨u,⟨tag,id,hu⟩,h.ids tag id u hu⟩
    · rintro ⟨u,⟨tag,i,hu⟩,rfl⟩
      rw [h.ids tag i u hu]
      exact ⟨u,tag,hu⟩
  have hlen : (w.storedUsers.map User.id).length =
      (w.maps.values.map (fun map => map.scenes.users.entries.length)).sum := by
    rw [List.length_map, World.storedUsers, List.length_flatMap]
    congr 1
    apply List.map_congr_left
    intro map _
    exact List.length_map _
  rw [hset, Set.ncard_coe_finset, List.toFinset_card_of_nodup (nodup_storedIds h), hlen]
  rfl

end

/-! ## Whole runs -/

/-- The arena after the operations of a run, told of nothing but these. -/
noncomputable def arenaAfter (conf : GameServerConf) (past : List (World × Option WorldOp)) : Arena :=
  Run.seen (fun s _ a => a.elim s s.next) (Arena.start conf) past

/-- What an area of effect adds in the step fits, or wraps around. -/
def AmountsFit (overflow : Overflow) (p : World × Option WorldOp) : Prop :=
  ∀ a, p.2 = some a → p.1.arena.Fits overflow a

theorem arena_init (conf : GameServerConf) : (World.init conf).arena = Arena.start conf := by
  refine arena_eq rfl rfl ?_ (fun _ _ => rfl) (fun _ _ => rfl) (fun _ => rfl)
  intro id
  rw [players_none.mpr (fun tag => userAt_init conf tag id)]
  rfl

theorem fenced_init (conf : GameServerConf) : (World.init conf).Fenced := by
  refine ⟨valid_init conf,?_⟩
  intro id u hu
  rw [arena_init] at hu
  cases hu

theorem fenced_step {overflow : Overflow} {w v : World} {a : Option WorldOp} (h : w.Fenced)
    (hf : AmountsFit overflow (w,a)) (hst : WorldStep overflow w a v) :
    v.Fenced ∧ v.arena = a.elim w.arena w.arena.next := by
  cases hst with
  | op ha => exact ⟨fenced_run h ha,(arena_run h ha (hf _ rfl)).1⟩
  | reorder hs =>
    have hsame := arena_same h.toSettled hs
    refine ⟨⟨valid_of_same h.toValid hs,?_⟩,hsame⟩
    rw [hsame]
    exact h.outside

theorem fenced_of_run {overflow : Overflow} {conf : GameServerConf} {past : List (World × Option WorldOp)}
    {w : World} (h : Run (worldLts overflow conf) past w) (hfits : ∀ p ∈ past, AmountsFit overflow p) :
    w.Fenced ∧ w.arena = arenaAfter conf past := by
  have hstart : ∀ s, (worldLts overflow conf).init s → s.Fenced ∧ s.arena = Arena.start conf := by
    rintro s rfl
    exact ⟨fenced_init conf,arena_init conf⟩
  exact Run.view_eq (fun (s : Arena) (_ : World) (a : Option WorldOp) => a.elim s s.next) hstart
    (fun w a v hw hf hst => fenced_step hw hf hst) h hfits

/-- A world behaves as the arena its operations make, and that arena knows neither maps nor
index nor any enumeration order: every query answers with the players inside its rectangle,
the node counts exactly the players, and an operation panics only when it would take away a
user that waits outside. -/
theorem world_is_arena {overflow : Overflow} {conf : GameServerConf} {past : List (World × Option WorldOp)}
    {w : World} (h : Run (worldLts overflow conf) past w) (hfits : ∀ p ∈ past, AmountsFit overflow p) :
    (∀ scope, (w.query scope).Nodup ∧ ∀ u, u ∈ w.query scope ↔
      (arenaAfter conf past).players u.id = some u ∧ InScope scope u.position) ∧
    w.userCount = UInt32.ofNat {id | (arenaAfter conf past).players id ≠ none}.ncard ∧
    (∀ id, (w.users.lookup id).map User.position = ((arenaAfter conf past).find id).map User.position) ∧
    (∀ c, w.clientMap.lookup c = (arenaAfter conf past).sessions c) ∧
    ∀ a, a.Admissible w → (arenaAfter conf past).Fits overflow a →
      ((a.run overflow w).panic ≠ none ↔ (arenaAfter conf past).Stuck a) := by
  obtain ⟨hw,harena⟩ := fenced_of_run h hfits
  rw [← harena]
  refine ⟨query_arena hw.toSettled,userCount_arena hw.toSettled,?_,fun _ => rfl,?_⟩
  · exact fun id => (hw.find_position id).symm
  · exact fun a ha hf => (arena_run hw ha hf).2

theorem world_is_arena_first_user : ((World.init .master).addUser
    (User.randomWithoutVelocity 1 (Vector2.new 5 7))).userCount = UInt32.ofNat {id | (arenaAfter .master
      [(World.init .master,some (.addUser (User.randomWithoutVelocity 1 (Vector2.new 5 7))))]).players id ≠
        none}.ncard := by
  have hrun := Run.next (Run.start (M := worldLts .panics .master) rfl)
    (WorldStep.op (a := .addUser (User.randomWithoutVelocity 1 (Vector2.new 5 7))) ⟨fresh_init _ _,by decide⟩)
  have hfits : ∀ p ∈ [(World.init .master,some (WorldOp.addUser
      (User.randomWithoutVelocity 1 (Vector2.new 5 7))))], AmountsFit .panics p := by
    rintro p hp a ha
    obtain rfl := List.mem_singleton.mp hp
    cases ha
    trivial
  exact (world_is_arena hrun hfits).2.1

end GameServer.Server
