import GameServer.Server.Tick

/-! # An area of effect touches money only

Whatever it hits and however it ends, an area of effect changes nothing but the
money of map entries. On a settled world every hit is found again in the map of
its position, so the only way to panic is an overflowing amount.
-/
namespace GameServer.Server
open Common CommonServer Library

def moneyless (u : User) : User := { u with money := 0 }

/-- The second world is the first with other amounts of money in its maps. -/
structure World.Credited (w s : World) : Prop where
  rest : s = { w with maps := s.maps }
  layout : Layout w.maps → Layout s.maps
  entries : ∀ tag id, (userAt s.maps tag id).map moneyless = (userAt w.maps tag id).map moneyless

namespace World.Credited
variable {w s t : World}

theorem refl (w : World) : w.Credited w := ⟨rfl,id,fun _ _ => rfl⟩

theorem trans (h : w.Credited s) (h' : s.Credited t) : w.Credited t := by
  refine ⟨?_,fun hl => h'.layout (h.layout hl),fun tag id => (h'.entries tag id).trans (h.entries tag id)⟩
  have hr := h'.rest
  rw [h.rest] at hr
  exact hr

theorem users_eq (h : w.Credited s) : s.users = w.users := by rw [h.rest]
theorem areaLen_eq (h : w.Credited s) : s.areaLen = w.areaLen := by rw [h.rest]

theorem symm_entry (h : w.Credited s) {tag : MapTag} {id : UserId} {u : User}
    (hu : userAt s.maps tag id = some u) :
    ∃ u₀, userAt w.maps tag id = some u₀ ∧ moneyless u = moneyless u₀ := by
  have he := h.entries tag id
  rw [hu, Option.map_some] at he
  obtain ⟨u₀,hu₀,hm⟩ := Option.map_eq_some_iff.mp he.symm
  exact ⟨u₀,hu₀,hm.symm⟩

theorem entry (h : w.Credited s) {tag : MapTag} {id : UserId} {u : User}
    (hu : userAt w.maps tag id = some u) : ∃ u₁, userAt s.maps tag id = some u₁ := by
  have he := h.entries tag id
  rw [hu, Option.map_some] at he
  obtain ⟨u₁,hu₁,-⟩ := Option.map_eq_some_iff.mp he
  exact ⟨u₁,hu₁⟩

end World.Credited

theorem moneyless_position {u v : User} (h : moneyless u = moneyless v) :
    u.id = v.id ∧ u.position = v.position ∧ u.velocity = v.velocity := by
  unfold moneyless at h
  injection h with hid hpos hvel
  exact ⟨hid,hpos,hvel⟩

theorem settled_of_credited {w s : World} (h : w.Settled) (hc : w.Credited s) : s.Settled := by
  refine ⟨hc.areaLen_eq.trans h.area,hc.layout h.layout,?_,?_,?_⟩
  · intro tag id u hu
    obtain ⟨u₀,hu₀,he⟩ := hc.symm_entry hu
    exact (moneyless_position he).1.trans (h.ids tag id u₀ hu₀)
  · intro tag id u hu
    obtain ⟨u₀,hu₀,he⟩ := hc.symm_entry hu
    rw [(moneyless_position he).2.1]
    exact h.placed tag id u₀ hu₀
  · intro tag id u hu
    obtain ⟨u₀,hu₀,he⟩ := hc.symm_entry hu
    rw [hc.users_eq, (moneyless_position he).2.1, (moneyless_position he).2.2]
    exact h.agree tag id u₀ hu₀

theorem valid_of_credited {w s : World} (h : w.Valid) (hc : w.Credited s) : s.Valid := by
  refine ⟨settled_of_credited h.toSettled hc,?_,?_⟩
  · intro tag id u hu
    obtain ⟨u₀,hu₀,he⟩ := hc.symm_entry hu
    rw [(moneyless_position he).2.1]
    exact h.mapsIn tag id u₀ hu₀
  · intro id v hv
    rw [hc.users_eq] at hv
    exact h.usersIn id v hv

/-- What one credit does: a failed lookup, an overflow, or one new amount. -/
theorem credit_cases (overflow : Overflow) (money : UInt64) (w : World) (user : User) :
    (userAt w.maps (pos2mapTag w.areaLen user.position) user.id = none ∧
      ∃ e, (e = .mapIsNone ∨ e = .aoeUserMissing) ∧
        World.credit overflow money w user = Outcome.fail w e) ∨
    (∃ u, userAt w.maps (pos2mapTag w.areaLen user.position) user.id = some u ∧
      addMoney overflow u.money money = none ∧
      World.credit overflow money w user = Outcome.fail w .moneyOverflow) ∨
    (∃ u total, userAt w.maps (pos2mapTag w.areaLen user.position) user.id = some u ∧
      addMoney overflow u.money money = some total ∧
      World.credit overflow money w user = Outcome.ok { w with
        maps := w.maps.adjust (pos2mapTag w.areaLen user.position)
          (Map.adjustUser user.id (fun u => { u with money := total })) }) := by
  unfold World.credit userAt
  dsimp only
  cases hm : w.maps.lookup (pos2mapTag w.areaLen user.position) with
  | none => exact Or.inl ⟨rfl,_,Or.inl rfl,rfl⟩
  | some map =>
    dsimp only [Option.bind_some]
    cases hu : map.scenes.users.lookup user.id with
    | none => exact Or.inl ⟨rfl,_,Or.inr rfl,rfl⟩
    | some u =>
      right
      dsimp only
      cases ha : addMoney overflow u.money money with
      | none => exact Or.inl ⟨u,rfl,ha,rfl⟩
      | some total => exact Or.inr ⟨u,total,rfl,ha,rfl⟩

theorem credited_credit (overflow : Overflow) (money : UInt64) (w : World) (user : User) :
    w.Credited (World.credit overflow money w user).state := by
  rcases credit_cases overflow money w user with ⟨-,e,-,he⟩ | ⟨u,-,-,he⟩ | ⟨u,total,hu,-,he⟩
  · rw [he]
    exact World.Credited.refl w
  · rw [he]
    exact World.Credited.refl w
  · rw [he, Outcome.ok_state]
    refine ⟨rfl,fun hl => hl.adjust _ (fun _ => rfl),?_⟩
    intro tag id
    rw [userAt_adjustUser]
    split
    · rw [Option.map_map]
      rfl
    · rfl

theorem credited_aoe (overflow : Overflow) (order : HashMap UserId User → List User) (w : World)
    (id : UserId) (radius : ℚ) (money : UInt64) :
    w.Credited (World.aoe overflow order w id radius money).state := by
  unfold World.aoe
  split
  · exact World.Credited.refl w
  · cases w.users.lookup id with
    | none => exact World.Credited.refl w
    | some user =>
      apply Outcome.forEach_state (World.Credited.refl w)
      intro s u _ hs
      exact hs.trans (credited_credit overflow money s u)

theorem valid_aoe {w : World} (h : w.Valid) (overflow : Overflow)
    (order : HashMap UserId User → List User) (id : UserId) (radius : ℚ) (money : UInt64) :
    (World.aoe overflow order w id radius money).state.Valid :=
  valid_of_credited h (credited_aoe overflow order w id radius money)

/-! ## Every hit is found again -/

theorem userAt_of_mem_query {w : World} {scope : RectScope} {u : User} (h : u ∈ w.query scope) :
    ∃ tag id, userAt w.maps tag id = some u := by
  unfold World.query at h
  obtain ⟨tag,-,hu⟩ := List.mem_flatMap.mp h
  split at hu
  · cases hu
  · rename_i map hmap
    obtain ⟨hv,-⟩ := List.mem_filter.mp hu
    obtain ⟨id,hid⟩ := AList.mem_values_iff.mp hv
    refine ⟨tag,id,?_⟩
    unfold userAt
    rw [hmap]
    exact hid

/-- A traversal enumerates nothing but the values of the map. -/
def Enumerates (order : HashMap UserId User → List User) : Prop := ∀ m, (order m).Perm m.values

theorem enumerates_values : Enumerates AList.values := fun _ => List.Perm.refl _

theorem userAt_of_mem_aoeTargets {w : World} {user u : User} {id : UserId} {radius : ℚ}
    (h : u ∈ (w.aoeTargets user id radius).values) : ∃ tag id, userAt w.maps tag id = some u := by
  obtain ⟨k,hk⟩ := AList.mem_values_iff.mp h
  obtain ⟨-,hk⟩ := AList.lookup_of_lookup_erase hk
  unfold World.queryByCircleScope at hk
  rcases AList.lookup_foldl_insert_key_some User.id hk with ⟨hu,-⟩ | hu
  · exact userAt_of_mem_query (List.mem_filter.mp hu).1
  · cases hu

/-- On a settled world the two lookups of the crediting loop cannot fail. -/
theorem aoe_panic {w : World} (h : w.Settled) (overflow : Overflow)
    {order : HashMap UserId User → List User} (ho : Enumerates order) (id : UserId) (radius : ℚ)
    (money : UInt64) {e : Panic} (he : (World.aoe overflow order w id radius money).panic = some e) :
    e = .moneyOverflow := by
  unfold World.aoe at he
  split at he
  · cases he
  · cases hv : w.users.lookup id with
    | none =>
      rw [hv] at he
      cases he
    | some user =>
      rw [hv] at he
      apply Outcome.forEach_panic (I := w.Credited) (World.Credited.refl w) _ _ he
      · intro s u _ hs
        exact hs.trans (credited_credit overflow money s u)
      · intro s u hu hs e' he'
        have hmem := (ho _).mem_iff.mp hu
        obtain ⟨tag,i,hat⟩ := userAt_of_mem_aoeTargets hmem
        have htag := h.placed tag i u hat
        have hid := h.ids tag i u hat
        obtain ⟨u₁,hu₁⟩ := hs.entry hat
        rcases credit_cases overflow money s u with ⟨hn,-⟩ | ⟨u₂,-,-,hc⟩ | ⟨u₂,total,-,-,hc⟩
        · rw [hs.areaLen_eq, h.area, htag, hid, hu₁] at hn
          cases hn
        · rw [hc] at he'
          exact (Option.some.inj he').symm
        · rw [hc] at he'
          cases he'

end GameServer.Server
