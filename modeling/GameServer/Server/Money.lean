import GameServer.Server.Commute

/-! # Money without bounds

Beside the world a run keeps what every user is owed: its initial amount and the amounts
of all effects that hit it, added without a bound. The stored 64-bit amounts agree with
it, and every area of effect credits all of its hits, as long as no addition overflows.
-/
namespace GameServer.Server
open Common CommonServer Library

/-- The world, and what each user is owed. -/
structure Banked where
  world : World
  owed : UserId → ℕ

namespace Banked

def start (conf : GameServerConf) : Banked where
  world := World.init conf
  owed _ := 0

/-- The amount an area of effect owes to one user. -/
def share (w : World) (id : UserId) (radius : ℚ) (money : UInt64) (i : UserId) : ℕ :=
  match (collectUsers w.maps).lookup i with
  | none => 0
  | some u => if w.hits id radius i u = true then money.toNat else 0

def owedAfter (s : Banked) : WorldOp → UserId → ℕ
  | .addUser user => fun i => if i = user.id then user.money.toNat else s.owed i
  | .aoe _ id radius money => fun i => s.owed i + share s.world id radius money i
  | _ => s.owed

/-- What the scenes hold is what is owed, and so is what the next tick copies to the index. -/
structure Exact (s : Banked) : Prop where
  scenes : ∀ tag i u, userAt s.world.maps tag i = some u → u.money.toNat = s.owed i
  index : ∀ i u, s.world.update.state.users.lookup i = some u → u.money.toNat = s.owed i

end Banked

namespace WorldOp

/-- A new user has a fresh id, and an area of effect meets each of its hits once. -/
def Issued (w : World) : WorldOp → Prop
  | addUser user => w.Fresh user.id
  | aoe order _ _ _ => Enumerates order
  | _ => True

def Fits (w : World) : WorldOp → Prop
  | aoe _ id radius money => (Write.aoe id radius money).Fits w
  | _ => True

/-- An area of effect credits all users it hits, or fails and credits none. -/
def AllOrNothing (overflow : Overflow) (w : World) : WorldOp → Prop
  | aoe order id radius money =>
    let o := w.aoe overflow order id radius money
    (o.panic = none ∧ ∀ tag i, (userAt o.state.maps tag i).map (fun u => u.money.toNat) =
      (userAt w.maps tag i).map (fun u =>
        u.money.toNat + if w.hits id radius i u = true then money.toNat else 0)) ∨
    (o.panic ≠ none ∧ ∀ tag i, userAt o.state.maps tag i = userAt w.maps tag i)
  | _ => True

end WorldOp

/-- One operation, and what it makes of the debts. -/
def Banked.next (overflow : Overflow) (s : Banked) (a : WorldOp) : Banked where
  world := (a.run overflow s.world).state
  owed := s.owedAfter a

inductive BankedStep (overflow : Overflow) : Banked → Option WorldOp → Banked → Prop
  | op {s : Banked} {a : WorldOp} : a.Issued s.world →
      BankedStep overflow s (some a) (s.next overflow a)
  | reorder {s : Banked} {w : World} : s.world.Same w → BankedStep overflow s none ⟨w,s.owed⟩

def bankedLts (overflow : Overflow) (conf : GameServerConf) : Lts Banked (Option WorldOp) where
  init s := s = Banked.start conf
  step := BankedStep overflow

def Banked.Fits (s : Banked) : Option WorldOp → Prop
  | some a => a.Fits s.world
  | none => True

/-! ## What each operation does to the amounts -/

section
variable {w : World}

theorem World.Settled.lookup_collectUsers (h : w.Settled) {tag : MapTag} {i : UserId} {u : User}
    (hu : userAt w.maps tag i = some u) : (collectUsers w.maps).lookup i = some u := by
  cases hl : (collectUsers w.maps).lookup i with
  | none =>
    rw [lookup_collectUsers_none.mp hl tag] at hu
    cases hu
  | some v =>
    obtain ⟨tag',hv⟩ := lookup_collectUsers_some hl
    rw [h.unique_user hv hu]

theorem share_eq (h : w.Settled) {tag : MapTag} {i : UserId} {u : User}
    (hu : userAt w.maps tag i = some u) (id : UserId) (radius : ℚ) (money : UInt64) :
    Banked.share w id radius money i = if w.hits id radius i u = true then money.toNat else 0 := by
  unfold Banked.share
  rw [h.lookup_collectUsers hu]

def KeepsMoney (w w' : World) : Prop := ∀ tag i u, userAt w'.maps tag i = some u →
  ∃ t u₀, userAt w.maps t i = some u₀ ∧ u.money = u₀.money

theorem keepsMoney_of_userAt {w' : World} (h : ∀ tag i u, userAt w'.maps tag i = some u →
    userAt w.maps tag i = some u) : KeepsMoney w w' :=
  fun tag i u hu => ⟨tag,u,h tag i u hu,rfl⟩

theorem keepsMoney_removeUser (w : World) (userId : UserId) :
    KeepsMoney w (w.removeUser userId).state := by
  apply keepsMoney_of_userAt
  intro tag i u hu
  rcases removeUser_cases w userId with ⟨-,he⟩ | ⟨v,-,-,he⟩ | ⟨v,hv,-,he⟩
  · rwa [he] at hu
  · rwa [he] at hu
  · rw [he, Outcome.ok_state] at hu
    dsimp only at hu
    rw [userAt_removeUser] at hu
    split at hu
    · cases hu
    · exact hu

theorem keepsMoney_update (h : w.Settled) : KeepsMoney w w.update.state := by
  intro tag i u hu
  rw [h.update_eq] at hu
  obtain ⟨t,u₀,hu₀,rfl,-⟩ := h.userAt_movedMaps.mp hu
  exact ⟨t,u₀,hu₀,User.shift_money _ _⟩

/-- Apart from new users and areas of effect, no operation changes an amount. -/
theorem keepsMoney_run (h : w.Settled) {overflow : Overflow} {a : WorldOp}
    (hadd : ∀ user, a ≠ .addUser user) (haoe : ∀ order id radius money, a ≠ .aoe order id radius money) :
    KeepsMoney w (a.run overflow w).state := by
  cases a with
  | addUser user => exact absurd rfl (hadd user)
  | removeUser userId => exact keepsMoney_removeUser w userId
  | login clientId userId => exact keepsMoney_of_userAt (fun _ _ _ hu => hu)
  | logout clientId => exact keepsMoney_of_userAt (fun _ _ _ hu => hu)
  | removeUserByClientId clientId =>
    simp only [WorldOp.run, World.removeUserByClientId]
    cases w.clientMap.lookup clientId with
    | none => exact keepsMoney_of_userAt (fun _ _ _ hu => hu)
    | some userId => exact keepsMoney_removeUser { w with clientMap := w.clientMap.erase clientId } userId
  | setVelocity id velocity =>
    intro tag i u hu
    obtain ⟨u₀,hu₀,rfl⟩ := userAt_setVelocity h id velocity hu
    refine ⟨tag,u₀,hu₀,?_⟩
    split <;> rfl
  | aoe order id radius money => exact absurd rfl (haoe order id radius money)
  | update => exact keepsMoney_update h

/-- Where no addition overflows, an area of effect adds its amount once to every hit. -/
theorem money_aoe (h : w.Settled) (overflow : Overflow) {order : HashMap UserId User → List User}
    (ho : Enumerates order) {id : UserId} {radius : ℚ} {money : UInt64}
    (hf : (Write.aoe id radius money).Fits w) (tag : MapTag) (i : UserId) :
    (userAt (w.aoe overflow order id radius money).state.maps tag i).map (fun u => u.money.toNat) =
      (userAt w.maps tag i).map (fun u =>
        u.money.toNat + if w.hits id radius i u = true then money.toNat else 0) := by
  rw [aoe_eq_creditWhere h overflow ho hf, Outcome.ok_state, userAt_creditWhere, Option.map_map]
  cases hu : userAt w.maps tag i with
  | none => rfl
  | some u => exact congrArg some (money_creditIf (hf tag i u hu))

end

/-! ## The exact sum -/

structure Banked.Inv (s : Banked) : Prop where
  settled : s.world.Settled
  scenes : ∀ tag i u, userAt s.world.maps tag i = some u → u.money.toNat = s.owed i

namespace Banked.Inv
variable {s t : Banked} {overflow : Overflow} {conf : GameServerConf} {a : Option WorldOp}

theorem exact (h : s.Inv) : s.Exact where
  scenes := h.scenes
  index i u hu := by
    obtain ⟨tag,hat⟩ := (users_update h.settled i u).mp hu
    obtain ⟨t,u₀,hu₀,hmoney⟩ := keepsMoney_update h.settled tag i u hat
    rw [hmoney]
    exact h.scenes t i u₀ hu₀

theorem of_keepsMoney (h : s.Inv) {w : World} (hset : w.Settled) (hk : KeepsMoney s.world w) :
    Banked.Inv ⟨w,s.owed⟩ := by
  refine ⟨hset,?_⟩
  intro tag i u hu
  obtain ⟨t,u₀,hu₀,hmoney⟩ := hk tag i u hu
  rw [hmoney]
  exact h.scenes t i u₀ hu₀

theorem step (h : s.Inv) (hf : s.Fits a) (hst : BankedStep overflow s a t) : t.Inv := by
  cases hst with
  | @reorder w hs =>
    apply h.of_keepsMoney (settled_of_same h.settled hs)
    exact keepsMoney_of_userAt (fun tag i u hu => hs.userAt_eq tag i ▸ hu)
  | @op a ha =>
    have hadds : a.AddsFresh s.world := by
      cases a with
      | addUser user => exact ha
      | _ => trivial
    have hset : (a.run overflow s.world).state.Settled := settled_run h.settled hadds
    cases a with
    | addUser user =>
      refine ⟨hset,?_⟩
      intro tag i u hu
      simp only [Banked.next, Banked.owedAfter]
      rcases userAt_addUser_cases ha hu with ⟨rfl,rfl,-⟩ | ⟨hne,hu⟩
      · rw [if_pos rfl]
      · rw [if_neg hne]
        exact h.scenes tag i u hu
    | aoe order id radius money =>
      refine ⟨hset,?_⟩
      intro tag i u hu
      have hm := money_aoe h.settled overflow ha hf tag i
      simp only [Banked.next, WorldOp.run] at hu
      rw [hu] at hm
      obtain ⟨u₀,hu₀,hsum⟩ := Option.map_eq_some_iff.mp hm.symm
      simp only [Banked.next, Banked.owedAfter]
      rw [share_eq h.settled hu₀, ← h.scenes tag i u₀ hu₀]
      exact hsum.symm
    | _ =>
      -- the remaining operations leave the amounts and the debts alone
      exact h.of_keepsMoney hset (keepsMoney_run h.settled (fun _ he => by cases he)
        (fun _ _ _ _ he => by cases he))

theorem fits (h : s.Inv) (hst : BankedStep overflow s a t) (he : t.Exact) : s.Fits a := by
  cases hst with
  | reorder hs => trivial
  | @op a ha =>
    cases a with
    | aoe order id radius money =>
      intro tag i u hu hhit
      have hc := credited_aoe overflow order s.world id radius money
      obtain ⟨u₁,hu₁⟩ := hc.entry hu
      have hsum := he.scenes tag i u₁ hu₁
      simp only [Banked.next, Banked.owedAfter] at hsum
      rw [share_eq h.settled hu, if_pos hhit, ← h.scenes tag i u hu] at hsum
      rw [← hsum]
      exact u₁.money.toNat_lt
    | _ => trivial

theorem start (conf : GameServerConf) : (Banked.start conf).Inv where
  settled := settled_init conf
  scenes tag i u hu := by
    unfold Banked.start at hu
    rw [userAt_init] at hu
    cases hu

theorem of_run {past : List (Banked × Option WorldOp)} (h : Run (bankedLts overflow conf) past s)
    (hc : ∀ p ∈ past, p.1.Fits p.2) : s.Inv := by
  apply h.invariant_of (C := fun s a => s.Fits a) _ _ hc
  · rintro s rfl
    exact start conf
  · exact fun s a t hs hf hst => hs.step hf hst

end Banked.Inv

theorem allOrNothing_of_fits {overflow : Overflow} {w : World} (h : w.Settled) {a : WorldOp}
    (ha : a.Issued w) (hf : a.Fits w) : a.AllOrNothing overflow w := by
  cases a with
  | aoe order id radius money =>
    refine Or.inl ⟨?_,money_aoe h overflow ha hf⟩
    rw [aoe_eq_creditWhere h overflow ha hf]
    rfl
  | _ => trivial

/-- The stored amounts are the exact sums throughout a run and every area of effect credits all
or nobody, exactly if no addition of the run overflows. -/
theorem money_exact_iff {overflow : Overflow} {conf : GameServerConf}
    {past : List (Banked × Option WorldOp)} {s : Banked} (h : Run (bankedLts overflow conf) past s) :
    (Run.Always Banked.Exact past s ∧
        ∀ p ∈ past, ∀ a, p.2 = some a → a.AllOrNothing overflow p.1.world) ↔
      ∀ p ∈ past, p.1.Fits p.2 := by
  have hexact : Run.Always Banked.Exact past s ↔ ∀ p ∈ past, p.1.Fits p.2 := by
    apply Run.always_iff (I := Banked.Inv) _ (fun _ hs => hs.exact) _ _ h
    · rintro s rfl
      exact Banked.Inv.start conf
    · exact fun s a t hs hf hst => hs.step hf hst
    · exact fun s a t hs hst he => hs.fits hst he
  rw [hexact]
  refine and_iff_left_of_imp ?_
  intro hc p hp a ha
  obtain ⟨past',hrun,hsub⟩ := h.of_mem hp
  have hinv := Banked.Inv.of_run hrun (fun q hq => hc q (hsub q hq))
  have hf := hc p hp
  obtain ⟨t,hst⟩ := h.step_of_mem hp
  rw [ha] at hf hst
  cases hst with
  | op hissued => exact allOrNothing_of_fits hinv.settled hissued hf

/-! ## Three players in one circle -/

def enter : List WorldOp :=
  [.addUser (User.randomWithoutVelocity 1 (Vector2.new 5 7)),
    .addUser (User.randomWithoutVelocity 2 (Vector2.new 6 8)),
    .addUser (User.randomWithoutVelocity 3 (Vector2.new 7 9))]

def players (overflow : Overflow) : Banked := enter.foldl (Banked.next overflow) (Banked.start .master)

def creditOthers (id : UserId) (money : UInt64) : WorldOp := .aoe AList.values id 10 money

theorem fresh_addUser {w : World} {id : UserId} {user : User} (h : w.Fresh id) (hne : id ≠ user.id) :
    (w.addUser user).Fresh id := by
  constructor
  · rw [lookup_addUser, if_neg hne]
    exact h.1
  · intro tag
    rw [userAt_addUser, if_neg (fun hc => hne hc.2.1)]
    exact h.2 tag

theorem run_players (overflow : Overflow) : Run (bankedLts overflow .master)
    (Run.record (Banked.next overflow) some (Banked.start .master) enter) (players overflow) := by
  have hfresh : ∀ id, (World.init .master).Fresh id := fresh_init .master
  exact Run.of_start (Banked.next overflow) (fun s a => a.Issued s.world) some
    (fun _ _ h => BankedStep.op h) rfl
    ⟨hfresh 1,fresh_addUser (hfresh 2) (by decide),
      fresh_addUser (fresh_addUser (hfresh 3) (by decide)) (by decide),trivial⟩

theorem step_creditOthers (overflow : Overflow) (s : Banked) (id : UserId) (money : UInt64) :
    BankedStep overflow s (some (creditOthers id money)) (s.next overflow (creditOthers id money)) :=
  BankedStep.op enumerates_values

theorem enter_fits {p : Banked × Option WorldOp}
    (hp : p ∈ Run.record (Banked.next .panics) some (Banked.start .master) enter) : p.1.Fits p.2 := by
  simp only [enter, Run.record, List.nil_append, List.cons_append, List.mem_cons,
    List.not_mem_nil, or_false] at hp
  rcases hp with rfl | rfl | rfl <;> trivial

theorem money_exact_players : ((players .panics).next .panics (creditOthers 2 100)).Exact := by
  have hrun := (run_players .panics).next (step_creditOthers .panics _ 2 100)
  refine ((money_exact_iff hrun).mpr (List.forall_mem_cons.mpr ⟨?_,fun p hp => enter_fits hp⟩)).1.1
  intro tag i u hu _
  have hzero : (players .panics).owed i = 0 := by
    simp only [players, enter, List.foldl_cons, List.foldl_nil, Banked.next, Banked.owedAfter]
    split_ifs <;> rfl
  rw [(Banked.Inv.of_run (run_players .panics) (fun p hp => enter_fits hp)).scenes tag i u hu, hzero]
  decide

/-- The second player has credited almost everything a word can hold. -/
def filled (overflow : Overflow) : Banked :=
  (players overflow).next overflow (creditOthers 2 18446744073709551615)

theorem run_filled (overflow : Overflow) : Run (bankedLts overflow .master)
    ((filled overflow,some (creditOthers 1 1)) ::
      (players overflow,some (creditOthers 2 18446744073709551615)) ::
      Run.record (Banked.next overflow) some (Banked.start .master) enter)
    ((filled overflow).next overflow (creditOthers 1 1)) :=
  ((run_players overflow).next (step_creditOthers overflow _ 2 _)).next (step_creditOthers overflow _ 1 1)

theorem not_exact_of_ne {s : Banked} (tag : MapTag) (i : UserId) (n : ℕ)
    (h : (userAt s.world.maps tag i).map (fun u => u.money.toNat) = some n ∧ n ≠ s.owed i) : ¬ s.Exact := by
  intro he
  obtain ⟨u,hat,rfl⟩ := Option.map_eq_some_iff.mp h.1
  exact h.2 (he.scenes tag i u hat)

/-- The next effect overflows at the third player: a release build loses everything it had,
a checked build panics after the second player was credited. -/
theorem money_lost :
    (∃ past s, Run (bankedLts .wraps .master) past s ∧ ¬ s.Exact) ∧
    ∃ past s, Run (bankedLts .panics .master) past s ∧ ¬ s.Exact ∧
      ∃ p ∈ past, ∃ a, p.2 = some a ∧ ¬ a.AllOrNothing .panics p.1.world := by
  constructor
  · refine ⟨_,_,run_filled .wraps,not_exact_of_ne ⟨'B',1,1⟩ 3 0 ?_⟩
    decide +kernel
  · refine ⟨_,_,run_filled .panics,not_exact_of_ne ⟨'B',1,1⟩ 3 18446744073709551615 ?_,
      _,List.mem_cons_self,_,rfl,?_⟩
    · decide +kernel
    · rintro (⟨hnone,-⟩ | ⟨-,hsame⟩)
      · revert hnone
        decide +kernel
      · have hentry := congrArg (Option.map (fun u => u.money.toNat)) (hsame ⟨'B',1,1⟩ 2)
        revert hentry
        decide +kernel

end GameServer.Server
