import GameServer.Library.Window
import GameServer.Server.Load

/-! # The pace of the world and what it reports

The update thread brings the world up to date, reports its load to the registry, sleeps for
what is left of the tick and notes how long the turn took. The delay it reports is the mean
of the last hundred turns. A turn that was too long is not made up for: the world never gets
ahead of the clock, and what it has lost it does not win back.
-/
namespace GameServer.Server
open Common Library Detector

/-- Where the thread stands: asleep at least until `wake`, in a turn begun at `start`, or ended
by a panic. Times are nanoseconds. -/
inductive Turn
  | asleep (wake : ℚ)
  | begun (start : ℕ)
  | ended

/-- A node and the durations in milliseconds its update thread has noted. -/
structure PacedNode where
  monitored : MonitoredNode
  costs : List ℚ
  turn : Turn

inductive PacedAct
  | other (a : MonitoredAct)
  | begin (now : ℕ)
  | finish (now : ℕ)

/-- The mean of the noted durations, zero as long as there are none. -/
def averageCost (costs : List ℚ) : ℚ := if costs.isEmpty then 0 else costs.sum / costs.length

/-- The noted duration: whole milliseconds. -/
def asMillis (nanos : ℕ) : ℚ := (nanos / 1000000 : ℕ)

/-- The sleep of `sleep_by_world_update_cost_time`, in nanoseconds. -/
def sleepTime (tickTime : ℚ) (nanos : ℕ) : ℚ :=
  let timeDifference := tickTime - (nanos : ℚ) / 1000000000
  if timeDifference > 0 then timeDifference * 1000000000 else 0

namespace PacedNode

def start (conf : GameServerConf) : PacedNode where
  monitored := MonitoredNode.start conf
  costs := []
  turn := .asleep 0

def report (s : PacedNode) : Option StateInfo :=
  let updated := worldUpdateRound s.monitored.context s.monitored.node.world
  if s.monitored.context.mode = .Cluster ∧ updated.panic = none then
    some { updated.state.stateInfo with avgUpdateDelay := averageCost s.costs }
  else none

def next (conf : GameServerConf) (s : PacedNode) : PacedAct → PacedNode
  | .other a => { s with monitored := s.monitored.next conf.basic.heartbeat a }
  | .begin now =>
    let updated := worldUpdateRound s.monitored.context s.monitored.node.world
    { s with
      monitored := s.monitored.next conf.basic.heartbeat .round
      turn := if updated.panic = none then .begun now else .ended }
  | .finish now =>
    match s.turn with
    | .begun start =>
      { s with
        costs := Window.push 100 s.costs (asMillis (now - start))
        turn := .asleep (now + sleepTime conf.basic.tickTime (now - start)) }
    | _ => s

/-- The rounds are the update thread's, and it does not wake before its time. -/
def Admissible (s : PacedNode) : PacedAct → Prop
  | .other a => a ≠ .round ∧ s.monitored.Admissible a
  | .begin now => ∃ wake, s.turn = .asleep wake ∧ wake ≤ now
  | .finish now => ∃ start, s.turn = .begun start ∧ start ≤ now

end PacedNode

inductive PacedStep (conf : GameServerConf) : PacedNode → Option PacedAct → PacedNode → Prop
  | act {s : PacedNode} {a : PacedAct} : s.Admissible a → PacedStep conf s (some a) (s.next conf a)
  | reorder {s : PacedNode} {m : MonitoredNode} :
      MonitoredStep conf.basic.heartbeat s.monitored none m → PacedStep conf s none { s with monitored := m }

def pacedLts (conf : GameServerConf) : Lts PacedNode (Option PacedAct) where
  init s := s = PacedNode.start conf
  step := PacedStep conf

/-! ## The node under the thread -/

/-- What a step is to the node: a turn begins with a round. -/
def PacedAct.monitored : Option PacedAct → Option (Option MonitoredAct)
  | some (.other a) => some (some a)
  | some (.begin _) => some (some .round)
  | some (.finish _) => none
  | none => some none

/-- The steps of the run that are steps of the node. -/
abbrev monitoredPast (past : List (PacedNode × Option PacedAct)) : List (MonitoredNode × Option MonitoredAct) :=
  Run.viewed PacedNode.monitored (fun _ a => PacedAct.monitored a) past

section
variable {conf : GameServerConf} {past : List (PacedNode × Option PacedAct)} {s : PacedNode}

theorem monitored_finish (s : PacedNode) (now : ℕ) : (s.next conf (.finish now)).monitored = s.monitored := by
  simp only [PacedNode.next]
  split <;> rfl

theorem monitored_of_run (h : Run (pacedLts conf) past s) :
    Run (monitoredLts conf) (monitoredPast past) s.monitored := by
  refine h.project PacedNode.monitored (fun _ a => PacedAct.monitored a) ?_ ?_ ?_
  · rintro s rfl
    rfl
  · intro s a t b hst hb
    cases hst with
    | act ha =>
      rename_i a
      cases a with
      | other a =>
        obtain rfl := Option.some.inj hb
        exact MonitoredStep.act ha.2
      | begin now =>
        obtain rfl := Option.some.inj hb
        exact MonitoredStep.act trivial
      | finish now => cases hb
    | reorder hm =>
      obtain rfl := Option.some.inj hb
      exact hm
  · intro s a t hst hb
    cases hst with
    | act ha =>
      rename_i a
      cases a with
      | other a => cases hb
      | begin now => cases hb
      | finish now => exact monitored_finish s now
    | reorder hm => cases hb

/-! ## The delay -/

def noted (p : PacedNode × Option PacedAct) : Option ℚ :=
  match p.2, p.1.turn with
  | some (.finish now), .begun start => some (asMillis (now - start))
  | _, _ => none

def notedIn (past : List (PacedNode × Option PacedAct)) : List ℚ := (past.filterMap noted).reverse

theorem costs_of_run (h : Run (pacedLts conf) past s) : s.costs = Window.last 100 (notedIn past) := by
  rw [← Window.foldl_push]
  induction h with
  | start hs =>
    obtain rfl := hs
    rfl
  | @next past s t a _ hst ih =>
    unfold notedIn at ih ⊢
    rw [List.filterMap_cons]
    cases hst with
    | reorder hm => exact ih
    | @act a ha =>
      cases a with
      | other a => exact ih
      | begin now => exact ih
      | finish now =>
        obtain ⟨start,hturn,-⟩ := ha
        simp only [noted, hturn, PacedNode.next, List.reverse_cons, List.foldl_append, List.foldl_cons,
          List.foldl_nil, ← ih]

/-- Every report a node sends carries the limit of its configuration, the number of clients
that were alive when its world was last brought up to date, these two as the load factor, and
the mean of the last hundred durations of its update thread. On a master the clients are those
the last finished pass of its monitor has kept. -/
theorem load_reported {later earlier : List (PacedNode × Option PacedAct)} {p : PacedNode × Option PacedAct}
    (hlimit : 0 < conf.basic.maxConnection.toNat) (h : Run (pacedLts conf) (later ++ p :: earlier) s) {now : ℕ}
    (hp : p.2 = some (.begin now)) {info : StateInfo} (hr : p.1.report = some info) :
    info.maxConnection = conf.basic.maxConnection ∧
    info.currentConnection = UInt32.ofNat (shown conf.basic.heartbeat (monitoredPast (p :: earlier))).ncard ∧
    info.loadFactor * conf.basic.maxConnection.toNat = info.currentConnection.toNat ∧
    info.avgUpdateDelay = averageCost (Window.last 100 (notedIn earlier)) ∧
    (p.1.monitored.context.nodeType = .Master →
      info.currentConnection = UInt32.ofNat (counted conf.basic.heartbeat (monitoredPast earlier)).ncard) := by
  have hbefore : Run (pacedLts conf) earlier p.1 := h.before
  have hround : Run (monitoredLts conf) ((p.1.monitored,some .round) :: monitoredPast earlier)
      (p.1.monitored.next conf.basic.heartbeat .round) :=
    (monitored_of_run hbefore).next (MonitoredStep.act trivial)
  have hpast : monitoredPast (p :: earlier) = (p.1.monitored,some .round) :: monitoredPast earlier := by
    simp only [monitoredPast, Run.viewed, List.filterMap_cons, hp, PacedAct.monitored, Option.map_some]
  obtain ⟨-,hshown,hok⟩ := load_counted hround
  unfold PacedNode.report at hr
  dsimp only at hr
  split at hr
  · rename_i hsent
    obtain rfl := Option.some.inj hr
    rw [hpast]
    refine ⟨hok.maxConnection,hshown,hok.loadFactor_mul hlimit,?_,?_⟩
    · dsimp only
      rw [costs_of_run hbefore]
    · intro hm
      have hrefresh : RefreshesLoad (p.1.monitored,some .round) := by
        refine ⟨fun _ => hm,?_⟩
        rw [← worldUpdateRound_of_master hm]
        exact hsent.2
      have hcounted : shown conf.basic.heartbeat ((p.1.monitored,some .round) :: monitoredPast earlier) =
          counted conf.basic.heartbeat (monitoredPast earlier) := if_pos hrefresh
      rw [← hcounted]
      exact hshown
  · cases hr

/-! ## The clock -/

def tickNanos (conf : GameServerConf) : ℚ := conf.basic.tickTime * 1000000000

/-- What a finished turn takes away from the clock: a tick, or longer if it was longer. -/
def charge (conf : GameServerConf) (p : PacedNode × Option PacedAct) : ℚ :=
  match p.2, p.1.turn with
  | some (.finish now), .begun start => max (tickNanos conf) (now - start : ℕ)
  | _, _ => 0

def charges (conf : GameServerConf) (past : List (PacedNode × Option PacedAct)) : ℚ :=
  (past.map (charge conf)).sum

def isBegin : Option PacedAct → Bool
  | some (.begin _) => true
  | _ => false

def begins (past : List (PacedNode × Option PacedAct)) : ℕ := past.countP (fun p => isBegin p.2)

theorem add_sleepTime (tickTime : ℚ) {start now : ℕ} (h : start ≤ now) :
    now + sleepTime tickTime (now - start) = start + max (tickTime * 1000000000) (now - start : ℕ) := by
  have hnow : (now : ℚ) = start + (now - start : ℕ) := by
    rw [← Nat.cast_add, Nat.add_sub_cancel' h]
  generalize now - start = cost at hnow ⊢
  rw [hnow]
  unfold sleepTime
  dsimp only
  split
  · rename_i hlt
    rw [max_eq_left (by linarith)]
    ring
  · rename_i hge
    rw [max_eq_right (by linarith), add_zero]

/-- Since a turn began at `now`, the clock has been charged for every turn. -/
def Turn.Charged (conf : GameServerConf) (now : ℕ) (past : List (PacedNode × Option PacedAct)) : Turn → Prop
  | .asleep wake => now + charges conf past ≤ wake ∧ now + (begins past + 1) * tickNanos conf ≤ wake
  | .begun start => now + charges conf past ≤ start ∧ now + begins past * tickNanos conf ≤ start
  | .ended => True

theorem charges_cons (p : PacedNode × Option PacedAct) (past : List (PacedNode × Option PacedAct)) :
    charges conf (p :: past) = charge conf p + charges conf past := by
  rw [charges, List.map_cons, List.sum_cons]
  rfl

theorem begins_cons (p : PacedNode × Option PacedAct) (past : List (PacedNode × Option PacedAct)) :
    begins (p :: past) = begins past + if isBegin p.2 = true then 1 else 0 := List.countP_cons

theorem Turn.Charged.quiet {turn : Turn} {p : PacedNode × Option PacedAct} {now : ℕ}
    (h : turn.Charged conf now past) (hc : charge conf p = 0) (hb : isBegin p.2 = false) :
    turn.Charged conf now (p :: past) := by
  have hcharges : charges conf (p :: past) = charges conf past := by rw [charges_cons, hc, zero_add]
  have hbegins : begins (p :: past) = begins past := by
    rw [begins_cons, hb]
    rfl
  unfold Turn.Charged at h ⊢
  rwa [hcharges, hbegins]

theorem charged_step {a : PacedAct} {now : ℕ} (h : s.turn.Charged conf now past) (ha : s.Admissible a) :
    (s.next conf a).turn.Charged conf now ((s,some a) :: past) := by
  cases a with
  | other a => exact h.quiet (p := (s,some (.other a))) rfl rfl
  | begin now' =>
    obtain ⟨wake,hturn,hwake⟩ := ha
    rw [hturn] at h
    obtain ⟨hcharges,hbegins⟩ := h
    simp only [PacedNode.next]
    split
    · refine ⟨?_,?_⟩
      · rw [charges_cons]
        simp only [charge, zero_add]
        exact hcharges.trans hwake
      · rw [begins_cons]
        simp only [isBegin, if_true, Nat.cast_add, Nat.cast_one]
        exact hbegins.trans hwake
    · trivial
  | finish now' =>
    obtain ⟨start,hturn,hstart⟩ := ha
    rw [hturn] at h
    obtain ⟨hcharges,hbegins⟩ := h
    have hsum := add_sleepTime conf.basic.tickTime hstart
    have hmax := le_max_left (tickNanos conf) ((now' - start : ℕ) : ℚ)
    simp only [PacedNode.next, hturn]
    refine ⟨?_,?_⟩
    · rw [charges_cons, hsum]
      simp only [charge, hturn]
      unfold tickNanos at hmax ⊢
      linarith
    · rw [begins_cons, hsum]
      simp only [isBegin, Bool.false_eq_true, if_false, add_zero]
      unfold tickNanos at hmax hbegins ⊢
      linarith

theorem charged_of_run {past earlier : List (PacedNode × Option PacedAct)} {t : PacedNode} {now : ℕ}
    (h : Run (pacedLts conf) (past ++ (s,some (.begin now)) :: earlier) t) : t.turn.Charged conf now past := by
  induction past generalizing t with
  | nil =>
    cases h with
    | next _ hst =>
      cases hst with
      | act ha =>
        simp only [PacedNode.next]
        split
        · simp [Turn.Charged, charges, begins]
        · trivial
  | cons q past ih =>
    cases h with
    | next hr hst =>
      cases hst with
      | act ha => exact charged_step (ih hr) ha
      | reorder hm => exact (ih hr).quiet rfl rfl

/-- Between the beginnings of two turns the clock runs on by at least a tick for every turn,
and by more for a turn that took longer: the thread never makes up for lost time. -/
theorem never_ahead {later between earlier : List (PacedNode × Option PacedAct)} {t t' : PacedNode}
    {now now' : ℕ} (h : Run (pacedLts conf) (later ++ (t',some (.begin now')) ::
      (between ++ (t,some (.begin now)) :: earlier)) s) :
    now + charges conf between ≤ now' ∧ now + (begins between + 1) * tickNanos conf ≤ now' := by
  have hcharged := charged_of_run h.before
  obtain ⟨u,hst⟩ := h.step_of_mem (p := (t',some (.begin now'))) (by simp)
  cases hst with
  | act ha =>
    obtain ⟨wake,hturn,hwake⟩ := ha
    rw [hturn] at hcharged
    exact ⟨hcharged.1.trans hwake,hcharged.2.trans hwake⟩

end

/-! ## Two turns of a master -/

namespace PacedNode

def firstTurn : PacedNode := (start .master).next .master (.begin 0)
def rested : PacedNode := firstTurn.next .master (.finish 5000000)

theorem firstTurn_turn : firstTurn.turn = .begun 0 := by
  have hpanic : (worldUpdateRound (ServerContext.run .master) (World.init .master)).panic = none := by
    rw [worldUpdateRound_of_master rfl, (settled_init .master).update_eq]
    rfl
  simp only [firstTurn, next, start, MonitoredNode.start, hpanic, if_true]

theorem turn_finish (conf : GameServerConf) {s : PacedNode} {start : ℕ} (h : s.turn = .begun start) (now : ℕ) :
    (s.next conf (.finish now)).turn = .asleep (now + sleepTime conf.basic.tickTime (now - start)) := by
  simp only [next, h]

theorem rested_turn : rested.turn = .asleep 20000000 := by
  have hsleep : (5000000 : ℕ) + sleepTime GameServerConf.master.basic.tickTime (5000000 - 0) = 20000000 := by
    decide +kernel
  exact (turn_finish .master firstTurn_turn 5000000).trans (congrArg Turn.asleep hsleep)

theorem run_twoTurns : Run (pacedLts .master) ([] ++ (rested,some (.begin 20000000)) ::
    ([(firstTurn,some (.finish 5000000))] ++ (start .master,some (.begin 0)) :: []))
    (rested.next .master (.begin 20000000)) := by
  have hfirst : Run (pacedLts .master) [(start .master,some (.begin 0))] firstTurn :=
    (Run.start rfl).next (PacedStep.act ⟨0,rfl,by norm_num⟩)
  have hwork : firstTurn.Admissible (.finish 5000000) := ⟨0,firstTurn_turn,by norm_num⟩
  have hwake : rested.Admissible (.begin 20000000) := ⟨20000000,rested_turn,by norm_num⟩
  exact (hfirst.next (PacedStep.act hwork)).next (PacedStep.act hwake)

end PacedNode

theorem load_reported_twoTurns : ∃ info, PacedNode.rested.report = some info ∧ info.avgUpdateDelay = 5 := by
  have hsome : PacedNode.rested.report.isSome = true := by decide +kernel
  obtain ⟨info,hinfo⟩ := Option.isSome_iff_exists.mp hsome
  have hsent : (PacedNode.rested,some (PacedAct.begin 20000000)).1.report = some info := by
    dsimp only
    exact hinfo
  have hdelay := (load_reported (by decide) PacedNode.run_twoTurns rfl hsent).2.2.2.1
  have hnoted : notedIn ([(PacedNode.firstTurn,some (.finish 5000000))] ++
      [(PacedNode.start .master,some (.begin 0))]) = [5] := by
    simp [notedIn, noted, PacedNode.firstTurn_turn, asMillis]
  refine ⟨info,hinfo,?_⟩
  rw [hdelay, hnoted]
  decide +kernel

theorem never_ahead_twoTurns :
    charges .master [(PacedNode.firstTurn,some (.finish 5000000))] ≤ 20000000 := by
  have h := (never_ahead PacedNode.run_twoTurns).1
  simpa using h

end GameServer.Server
