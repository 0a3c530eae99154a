import Mathlib.Logic.Function.Basic
import Mathlib.Logic.Relation
import GameServer.Library.Run

/-! # Tasks that wait for mutexes and bounded channels

A task is the sequence of what it locks, unlocks and sends; it may be spawned at any
time, any number of times, and a panic frees what it holds. Every channel has a drainer,
a loop that holds no mutex, takes a message out or hears one from its sockets, and may
then send to further channels. If mutexes are taken in the order of a rank and drainers only
send to channels of a higher level, nobody waits in a circle.
-/
namespace GameServer.Library.Waiting

inductive Op (μ χ : Type)
  | lock (m : μ)
  | unlock (m : μ)
  | send (c : χ)

/-- What tasks may be spawned, what the drainer of a channel may send on when it took a
message out and when it heard one from outside, and how much the channels hold. -/
structure Program (μ χ : Type) where
  bodies : List (Op μ χ) → Prop
  drains : χ → List χ → Prop
  hears : χ → List χ → Prop
  capacity : χ → ℕ

/-- What is left to do for the tasks and the drainers, who holds each mutex, and how full
the channels are. A channel whose drainer has ended is closed. -/
structure State (τ μ χ : Type) where
  tasks : τ → Option (List (Op μ χ))
  drainers : χ → Option (List χ)
  owner : μ → Option τ
  filled : χ → ℕ

inductive Party (τ χ : Type)
  | task (t : τ)
  | drainer (c : χ)

section
variable {τ μ χ : Type} (P : Program μ χ)

namespace State

def Full (s : State τ μ χ) (c : χ) : Prop := s.drainers c ≠ none ∧ P.capacity c ≤ s.filled c

variable [DecidableEq χ]

def put (s : State τ μ χ) (c : χ) : State τ μ χ :=
  { s with filled := if (s.drainers c).isSome then Function.update s.filled c (s.filled c + 1) else s.filled }

@[simp] theorem put_tasks (s : State τ μ χ) (c : χ) : (s.put c).tasks = s.tasks := rfl
@[simp] theorem put_drainers (s : State τ μ χ) (c : χ) : (s.put c).drainers = s.drainers := rfl
@[simp] theorem put_owner (s : State τ μ χ) (c : χ) : (s.put c).owner = s.owner := rfl

end State

variable [DecidableEq τ] [DecidableEq μ] [DecidableEq χ]

inductive Move : State τ μ χ → Party τ χ → State τ μ χ → Prop
  | lock {s : State τ μ χ} {t : τ} {m : μ} {rest : List (Op μ χ)} : s.tasks t = some (.lock m :: rest) →
      s.owner m = none →
      Move s (.task t) { s with
        tasks := Function.update s.tasks t (some rest), owner := Function.update s.owner m (some t) }
  | unlock {s : State τ μ χ} {t : τ} {m : μ} {rest : List (Op μ χ)} :
      s.tasks t = some (.unlock m :: rest) → s.owner m = some t →
      Move s (.task t) { s with
        tasks := Function.update s.tasks t (some rest), owner := Function.update s.owner m none }
  | send {s : State τ μ χ} {t : τ} {c : χ} {rest : List (Op μ χ)} : s.tasks t = some (.send c :: rest) →
      ¬ s.Full P c →
      Move s (.task t) { s.put c with tasks := Function.update s.tasks t (some rest) }
  | finish {s : State τ μ χ} {t : τ} : s.tasks t = some [] →
      Move s (.task t) { s with tasks := Function.update s.tasks t none }
  | drain {s : State τ μ χ} {c : χ} {out : List χ} : s.drainers c = some [] → 0 < s.filled c →
      P.drains c out →
      Move s (.drainer c) { s with
        drainers := Function.update s.drainers c (some out)
        filled := Function.update s.filled c (s.filled c - 1) }
  | relay {s : State τ μ χ} {c c' : χ} {out : List χ} : s.drainers c = some (c' :: out) → ¬ s.Full P c' →
      Move s (.drainer c) { s.put c' with drainers := Function.update s.drainers c (some out) }

/-- Every step: a move, a new task, a panic, a message from outside, or a channel opened or
closed with its drainer. -/
inductive Step : State τ μ χ → Option (Party τ χ) → State τ μ χ → Prop
  | move {s t : State τ μ χ} {p : Party τ χ} : Move P s p t → Step s (some p) t
  | spawn {s : State τ μ χ} {t : τ} {body : List (Op μ χ)} : s.tasks t = none → P.bodies body →
      Step s none { s with tasks := Function.update s.tasks t (some body) }
  | panic {s : State τ μ χ} (t : τ) :
      Step s none { s with
        tasks := Function.update s.tasks t none
        owner := fun m => if s.owner m = some t then none else s.owner m }
  | hear {s : State τ μ χ} {c : χ} {out : List χ} : s.drainers c = some [] → P.hears c out →
      Step s none { s with drainers := Function.update s.drainers c (some out) }
  | opened {s : State τ μ χ} {c : χ} : s.drainers c = none →
      Step s none { s with
        drainers := Function.update s.drainers c (some []), filled := Function.update s.filled c 0 }
  | closed {s : State τ μ χ} (c : χ) : Step s none { s with drainers := Function.update s.drainers c none }

/-- Nothing runs but the drainers of the channels that are open. -/
def lts (τ : Type) [DecidableEq τ] : Lts (State τ μ χ) (Option (Party τ χ)) where
  init s := (∀ t, s.tasks t = none) ∧ (∀ m, s.owner m = none) ∧
    (∀ c out, s.drainers c = some out → out = []) ∧ ∀ c, s.filled c = 0
  step := Step P

/-! ## Who waits for whom -/

inductive Blocked (s : State τ μ χ) : Party τ χ → Prop
  | lock {t : τ} {m : μ} {rest : List (Op μ χ)} : s.tasks t = some (.lock m :: rest) →
      s.owner m ≠ none → Blocked s (.task t)
  | send {t : τ} {c : χ} {rest : List (Op μ χ)} : s.tasks t = some (.send c :: rest) → s.Full P c →
      Blocked s (.task t)
  | relay {c c' : χ} {out : List χ} : s.drainers c = some (c' :: out) → s.Full P c' → Blocked s (.drainer c)

/-- A mutex is awaited from its holder, room in a channel from its drainer. -/
inductive WaitsFor (s : State τ μ χ) : Party τ χ → Party τ χ → Prop
  | lock {t u : τ} {m : μ} {rest : List (Op μ χ)} : s.tasks t = some (.lock m :: rest) →
      s.owner m = some u → WaitsFor s (.task t) (.task u)
  | send {t : τ} {c : χ} {rest : List (Op μ χ)} : s.tasks t = some (.send c :: rest) → s.Full P c →
      WaitsFor s (.task t) (.drainer c)
  | relay {c c' : χ} {out : List χ} : s.drainers c = some (c' :: out) → s.Full P c' →
      WaitsFor s (.drainer c) (.drainer c')

def CanMove (s : State τ μ χ) (p : Party τ χ) : Prop := ∃ t, Move P s p t

omit [DecidableEq τ] [DecidableEq μ] [DecidableEq χ] in
theorem waitsFor_of_blocked {s : State τ μ χ} {p : Party τ χ} (h : Blocked P s p) :
    ∃ q, WaitsFor P s p q := by
  cases h with
  | @lock t m rest ht ho =>
    obtain ⟨u,hu⟩ := Option.ne_none_iff_exists'.mp ho
    exact ⟨.task u,WaitsFor.lock ht hu⟩
  | @send t c rest ht hf => exact ⟨.drainer c,WaitsFor.send ht hf⟩
  | @relay c c' out hd hf => exact ⟨.drainer c',WaitsFor.relay hd hf⟩

end

/-! ## The order of the locks -/

section
variable {μ χ : Type} [DecidableEq μ] (rank : μ → ℕ)

def after : List μ → List (Op μ χ) → List μ
  | held, [] => held
  | held, .lock m :: ops => after (m :: held) ops
  | held, .unlock m :: ops => after (held.erase m) ops
  | held, .send _ :: ops => after held ops

/-- Locks are taken in the order of their rank, and only held ones are released. -/
def Ordered : List μ → List (Op μ χ) → Prop
  | _, [] => True
  | held, .lock m :: ops => (∀ h ∈ held, rank h < rank m) ∧ Ordered (m :: held) ops
  | held, .unlock m :: ops => m ∈ held ∧ Ordered (held.erase m) ops
  | held, .send _ :: ops => Ordered held ops

structure Nested (held : List μ) (ops : List (Op μ χ)) : Prop where
  ordered : Ordered rank held ops
  after : Waiting.after held ops = held

def holding (m : μ) (body : List (Op μ χ)) : List (Op μ χ) := .lock m :: (body ++ [.unlock m])

def sends : List (Op μ χ) → List χ
  | [] => []
  | .send c :: ops => c :: sends ops
  | _ :: ops => sends ops

omit [DecidableEq μ] in
@[simp] theorem sends_append (ops ops' : List (Op μ χ)) : sends (ops ++ ops') = sends ops ++ sends ops' := by
  induction ops with
  | nil => rfl
  | cons op ops ih =>
    cases op with
    | send c => exact congrArg (c :: ·) ih
    | _ => exact ih

omit [DecidableEq μ] in
@[simp] theorem sends_holding (m : μ) (body : List (Op μ χ)) : sends (holding m body) = sends body := by
  show sends (body ++ [.unlock m]) = sends body
  rw [sends_append]
  exact List.append_nil (sends body)

theorem after_append (held : List μ) (ops ops' : List (Op μ χ)) :
    after held (ops ++ ops') = after (after held ops) ops' := by
  induction ops generalizing held with
  | nil => rfl
  | cons op ops ih => cases op <;> exact ih _

variable {rank}

theorem ordered_append {held : List μ} {ops ops' : List (Op μ χ)} (h : Ordered rank held ops)
    (h' : Ordered rank (after held ops) ops') : Ordered rank held (ops ++ ops') := by
  induction ops generalizing held with
  | nil => exact h'
  | cons op ops ih =>
    cases op with
    | lock m => exact ⟨h.1,ih h.2 h'⟩
    | unlock m => exact ⟨h.1,ih h.2 h'⟩
    | send c => exact ih h h'

namespace Nested
variable {held : List μ} {ops ops' : List (Op μ χ)}

theorem nil : Nested rank held ([] : List (Op μ χ)) := ⟨trivial,rfl⟩

theorem send (c : χ) : Nested rank held [.send c] := ⟨trivial,rfl⟩

theorem append (h : Nested rank held ops) (h' : Nested rank held ops') : Nested rank held (ops ++ ops') where
  ordered := ordered_append h.ordered (h.after.symm ▸ h'.ordered)
  after := by rw [after_append, h.after, h'.after]

theorem holding {m : μ} (h : Nested rank (m :: held) ops) (hm : ∀ x ∈ held, rank x < rank m) :
    Nested rank held (holding m ops) where
  ordered := by
    refine ⟨hm,ordered_append h.ordered ?_⟩
    rw [h.after]
    exact ⟨List.mem_cons_self,trivial⟩
  after := by
    show Waiting.after (m :: held) (ops ++ [.unlock m]) = held
    rw [after_append, h.after]
    show (m :: held).erase m = held
    exact List.erase_cons_head m held

theorem flatMap {α : Type} {f : α → List (Op μ χ)} (h : ∀ a, Nested rank held (f a)) (l : List α) :
    Nested rank held (l.flatMap f) := by
  induction l with
  | nil => exact nil
  | cons a l ih => exact (h a).append ih

end Nested

end

/-! ## What the order brings -/

/-- The mutexes have ranks and the channels levels, and the program keeps to them. -/
structure Discipline {μ χ : Type} [DecidableEq μ] (P : Program μ χ) where
  rank : μ → ℕ
  level : χ → ℕ
  bound : ℕ
  rank_lt : ∀ m, rank m < bound
  level_lt : ∀ c, level c < bound
  nested : ∀ body, P.bodies body → Nested rank [] body
  drains : ∀ c out, P.drains c out → ∀ c' ∈ out, level c < level c'
  hears : ∀ c out, P.hears c out → ∀ c' ∈ out, level c < level c'
  drained : ∀ c, ∃ out, P.drains c out
  room : ∀ c, 0 < P.capacity c

section
variable {τ μ χ : Type} [DecidableEq τ] [DecidableEq μ] [DecidableEq χ] {P : Program μ χ}
  (D : Discipline P)

/-- A task holds exactly the listed mutexes and will give them back in order. -/
structure Keeps (s : State τ μ χ) (t : τ) (rest : List (Op μ χ)) (held : List μ) : Prop where
  nodup : held.Nodup
  owns : ∀ m, m ∈ held ↔ s.owner m = some t
  ordered : Ordered D.rank held rest
  done : after held rest = []

structure Inv (s : State τ μ χ) : Prop where
  running : ∀ t rest, s.tasks t = some rest → ∃ held, Keeps D s t rest held
  idle : ∀ t, s.tasks t = none → ∀ m, s.owner m ≠ some t
  relaying : ∀ c out, s.drainers c = some out → ∀ c' ∈ out, D.level c < D.level c'

variable {D}

theorem inv_init {s : State τ μ χ} (h : (lts P τ).init s) : Inv D s := by
  obtain ⟨htasks,howner,hdrainers,-⟩ := h
  refine ⟨?_,?_,?_⟩
  · intro t rest ht
    rw [htasks] at ht
    cases ht
  · intro t _ m hm
    rw [howner] at hm
    cases hm
  · intro c out hc c' hc'
    rw [hdrainers c out hc] at hc'
    cases hc'

omit [DecidableEq χ] in
theorem Inv.update {s : State τ μ χ} (h : Inv D s) {t : τ} {body : Option (List (Op μ χ))}
    {owner : μ → Option τ} {filled : χ → ℕ}
    (hkeep : ∀ m u, u ≠ t → (owner m = some u ↔ s.owner m = some u))
    (hrunning : ∀ rest, body = some rest → ∃ held, Keeps D { s with owner := owner } t rest held)
    (hidle : body = none → ∀ m, owner m ≠ some t) :
    Inv D { tasks := Function.update s.tasks t body, drainers := s.drainers, owner := owner,
            filled := filled } := by
  refine ⟨?_,?_,h.relaying⟩
  · intro u rest hu
    dsimp only at hu
    by_cases hut : u = t
    · subst hut
      rw [Function.update_self] at hu
      obtain ⟨held,hk⟩ := hrunning rest hu
      exact ⟨held,hk.nodup,hk.owns,hk.ordered,hk.done⟩
    · rw [Function.update_of_ne hut] at hu
      obtain ⟨held,hk⟩ := h.running u rest hu
      exact ⟨held,hk.nodup,fun m => (hk.owns m).trans (hkeep m u hut).symm,hk.ordered,hk.done⟩
  · intro u hu m hm
    dsimp only at hu
    by_cases hut : u = t
    · subst hut
      rw [Function.update_self] at hu
      exact hidle hu m hm
    · rw [Function.update_of_ne hut] at hu
      exact h.idle u hu m ((hkeep m u hut).mp hm)

omit [DecidableEq χ] in
theorem Inv.advance {s : State τ μ χ} (h : Inv D s) {t : τ} {rest : List (Op μ χ)} {held : List μ}
    {owner : μ → Option τ} {filled : χ → ℕ}
    (hkeep : ∀ m u, u ≠ t → (owner m = some u ↔ s.owner m = some u))
    (hn : held.Nodup) (ho : ∀ m, m ∈ held ↔ owner m = some t) (hord : Ordered D.rank held rest)
    (hdone : after held rest = []) :
    Inv D { tasks := Function.update s.tasks t (some rest), drainers := s.drainers, owner := owner,
            filled := filled } := by
  apply h.update hkeep
  · rintro _ ⟨⟩
    exact ⟨held,hn,ho,hord,hdone⟩
  · intro hb
    cases hb

omit [DecidableEq χ] in
theorem Inv.remove {s : State τ μ χ} (h : Inv D s) {t : τ} {owner : μ → Option τ}
    (hkeep : ∀ m u, u ≠ t → (owner m = some u ↔ s.owner m = some u)) (hfree : ∀ m, owner m ≠ some t) :
    Inv D { s with tasks := Function.update s.tasks t none, owner := owner } := by
  apply h.update hkeep
  · intro rest hb
    cases hb
  · exact fun _ => hfree

omit [DecidableEq τ] in
theorem Inv.drainer {s : State τ μ χ} (h : Inv D s) {c : χ} {out : Option (List χ)} {filled : χ → ℕ}
    (hout : ∀ o, out = some o → ∀ c' ∈ o, D.level c < D.level c') :
    Inv D { s with drainers := Function.update s.drainers c out, filled := filled } := by
  refine ⟨?_,h.idle,?_⟩
  · intro t rest ht
    obtain ⟨held,hk⟩ := h.running t rest ht
    exact ⟨held,hk.nodup,hk.owns,hk.ordered,hk.done⟩
  · intro d o hd
    by_cases hdc : d = c
    · subst hdc
      dsimp only at hd
      rw [Function.update_self] at hd
      exact hout o hd
    · dsimp only at hd
      rw [Function.update_of_ne hdc] at hd
      exact h.relaying d o hd

theorem Inv.move {s u : State τ μ χ} {p : Party τ χ} (h : Inv D s) (hm : Move P s p u) : Inv D u := by
  cases hm with
  | @lock t m rest ht ho =>
    obtain ⟨held,hk⟩ := h.running t _ ht
    have hnew : m ∉ held := by
      intro hin
      rw [(hk.owns m).mp hin] at ho
      cases ho
    refine h.advance ?_ (List.nodup_cons.mpr ⟨hnew,hk.nodup⟩) ?_ hk.ordered.2 hk.done
    · intro m' v hv
      by_cases hmm : m' = m
      · subst hmm
        rw [Function.update_self, ho]
        constructor
        · rintro ⟨⟩
          exact absurd rfl hv
        · rintro ⟨⟩
      · rw [Function.update_of_ne hmm]
    · intro m'
      by_cases hmm : m' = m
      · subst hmm
        simp
      · rw [Function.update_of_ne hmm, List.mem_cons, hk.owns m', or_iff_right hmm]
  | @unlock t m rest ht ho =>
    obtain ⟨held,hk⟩ := h.running t _ ht
    refine h.advance ?_ (hk.nodup.erase m) ?_ hk.ordered.2 hk.done
    · intro m' v hv
      by_cases hmm : m' = m
      · subst hmm
        rw [Function.update_self, ho]
        constructor
        · rintro ⟨⟩
        · rintro ⟨⟩
          exact absurd rfl hv
      · rw [Function.update_of_ne hmm]
    · intro m'
      rw [hk.nodup.mem_erase_iff, hk.owns m']
      by_cases hmm : m' = m
      · subst hmm
        simp
      · rw [Function.update_of_ne hmm, and_iff_right hmm]
  | @send t c rest ht hf =>
    obtain ⟨held,hk⟩ := h.running t _ ht
    exact h.advance (fun _ _ _ => Iff.rfl) hk.nodup hk.owns hk.ordered hk.done
  | @finish t ht =>
    obtain ⟨held,hk⟩ := h.running t _ ht
    obtain rfl : held = [] := hk.done
    refine h.remove (fun _ _ _ => Iff.rfl) ?_
    intro m ho
    have hin := (hk.owns m).mpr ho
    cases hin
  | @drain c out hd hpos hr =>
    apply h.drainer
    rintro o ⟨⟩
    exact D.drains c out hr
  | @relay c c' out hd hf =>
    apply h.drainer
    rintro o ⟨⟩
    exact fun d hd' => h.relaying c _ hd d (List.mem_cons_of_mem c' hd')

theorem Inv.step {s u : State τ μ χ} {p : Option (Party τ χ)} (h : Inv D s) (hs : Step P s p u) :
    Inv D u := by
  cases hs with
  | move hm => exact h.move hm
  | @spawn t body ht hb =>
    have hn := D.nested body hb
    have howns : ∀ m, m ∈ ([] : List μ) ↔ s.owner m = some t := by
      intro m
      simp [h.idle t ht m]
    exact h.advance (fun _ _ _ => Iff.rfl) List.nodup_nil howns hn.ordered hn.after
  | panic t =>
    apply h.remove
    · intro m v hv
      by_cases ho : s.owner m = some t
      · simp [ho, Ne.symm hv]
      · rw [if_neg ho]
    · intro m hm
      by_cases ho : s.owner m = some t
      · simp [ho] at hm
      · rw [if_neg ho] at hm
        exact ho hm
  | @hear c out hd hr =>
    apply h.drainer
    rintro o ⟨⟩
    exact D.hears c out hr
  | @opened c hd =>
    apply h.drainer
    rintro o ⟨⟩ c' hc'
    cases hc'
  | closed c =>
    apply h.drainer
    rintro o ⟨⟩

theorem inv_of_reachable {s : State τ μ χ} (h : (lts P τ).Reachable s) : Inv D s := by
  obtain ⟨past,hrun⟩ := h
  exact hrun.invariant (fun _ hs => inv_init hs) (fun _ _ _ hi hst => hi.step hst)

end

section
variable {τ μ χ : Type} [DecidableEq μ] {P : Program μ χ} (D : Discipline P)

/-- Where the next operation stands in the order: mutexes by their rank, channels above
them by their level, and what never waits at the top. -/
def weight (s : State τ μ χ) : Party τ χ → ℕ
  | .task t =>
    match s.tasks t with
    | some (.lock m :: _) => D.rank m
    | some (.send c :: _) => D.bound + D.level c
    | _ => 2 * D.bound
  | .drainer c =>
    match s.drainers c with
    | some (c' :: _) => D.bound + D.level c'
    | _ => 2 * D.bound

theorem weight_le (s : State τ μ χ) (p : Party τ χ) : weight D s p ≤ 2 * D.bound := by
  cases p with
  | task t =>
    simp only [weight]
    split
    · have := D.rank_lt ‹μ›
      omega
    · have := D.level_lt ‹χ›
      omega
    · omega
  | drainer c =>
    simp only [weight]
    split
    · have := D.level_lt ‹χ›
      omega
    · omega

variable {D}

theorem Inv.lt_drainer {s : State τ μ χ} (h : Inv D s) (c : χ) :
    D.bound + D.level c < weight D s (.drainer c) := by
  have hc := D.level_lt c
  cases hd : s.drainers c with
  | none =>
    simp only [weight, hd]
    omega
  | some out =>
    cases out with
    | nil =>
      simp only [weight, hd]
      omega
    | cons c' out =>
      have := h.relaying c _ hd c' List.mem_cons_self
      simp only [weight, hd]
      omega

theorem Inv.lt_owner {s : State τ μ χ} (h : Inv D s) {u : τ} {m : μ} (hm : s.owner m = some u) :
    D.rank m < weight D s (.task u) := by
  have hr := D.rank_lt m
  cases hu : s.tasks u with
  | none => exact absurd hm (h.idle u hu m)
  | some rest =>
    obtain ⟨held,hk⟩ := h.running u rest hu
    have hin : m ∈ held := (hk.owns m).mpr hm
    match rest, hu, hk with
    | [], hu, _ =>
      simp only [weight, hu]
      omega
    | .lock m' :: _, hu, hk =>
      simp only [weight, hu]
      exact hk.ordered.1 m hin
    | .unlock _ :: _, hu, _ =>
      simp only [weight, hu]
      omega
    | .send c :: _, hu, _ =>
      simp only [weight, hu]
      omega

theorem Inv.weight_lt {s : State τ μ χ} (h : Inv D s) {p q : Party τ χ} (hw : WaitsFor P s p q) :
    weight D s p < weight D s q := by
  cases hw with
  | @lock t u m rest ht ho =>
    have hp : weight D s (.task t) = D.rank m := by simp only [weight, ht]
    rw [hp]
    exact h.lt_owner ho
  | @send t c rest ht hf =>
    have hp : weight D s (.task t) = D.bound + D.level c := by simp only [weight, ht]
    rw [hp]
    exact h.lt_drainer c
  | @relay c c' out hd hf =>
    have hp : weight D s (.drainer c) = D.bound + D.level c' := by simp only [weight, hd]
    rw [hp]
    exact h.lt_drainer c'

theorem Inv.acyclic {s : State τ μ χ} (h : Inv D s) (p : Party τ χ) :
    ¬ Relation.TransGen (WaitsFor P s) p p := by
  have hlt : ∀ q, Relation.TransGen (WaitsFor P s) p q → weight D s p < weight D s q := by
    intro q hq
    induction hq with
    | single hw => exact h.weight_lt hw
    | tail _ hw ih => exact Nat.lt_trans ih (h.weight_lt hw)
  intro hp
  exact Nat.lt_irrefl _ (hlt p hp)

variable [DecidableEq τ] [DecidableEq χ]

theorem Inv.task_moves_or_waits {s : State τ μ χ} (h : Inv D s) {t : τ} {rest : List (Op μ χ)}
    (ht : s.tasks t = some rest) : CanMove P s (.task t) ∨ ∃ q, WaitsFor P s (.task t) q := by
  obtain ⟨held,hk⟩ := h.running t rest ht
  match rest, ht, hk with
  | [], ht, _ => exact Or.inl ⟨_,Move.finish ht⟩
  | .lock m :: _, ht, _ =>
    cases ho : s.owner m with
    | none => exact Or.inl ⟨_,Move.lock ht ho⟩
    | some u => exact Or.inr ⟨_,WaitsFor.lock ht ho⟩
  | .unlock m :: _, ht, hk => exact Or.inl ⟨_,Move.unlock ht ((hk.owns m).mp hk.ordered.1)⟩
  | .send c :: _, ht, _ =>
    by_cases hf : s.Full P c
    · exact Or.inr ⟨_,WaitsFor.send ht hf⟩
    · exact Or.inl ⟨_,Move.send ht hf⟩

theorem Discipline.drainer_moves_or_waits (D : Discipline P) {s : State τ μ χ} {c : χ} (hf : s.Full P c) :
    CanMove P s (.drainer c) ∨ ∃ q, WaitsFor P s (.drainer c) q := by
  obtain ⟨out,hd⟩ := Option.ne_none_iff_exists'.mp hf.1
  cases out with
  | nil =>
    obtain ⟨out,hr⟩ := D.drained c
    have hpos : 0 < s.filled c := Nat.lt_of_lt_of_le (D.room c) hf.2
    exact Or.inl ⟨_,Move.drain hd hpos hr⟩
  | cons c' out =>
    by_cases hf' : s.Full P c'
    · exact Or.inr ⟨_,WaitsFor.relay hd hf'⟩
    · exact Or.inl ⟨_,Move.relay hd hf'⟩

theorem Inv.moves_or_waits {s : State τ μ χ} (h : Inv D s) {p q : Party τ χ} (hw : WaitsFor P s p q) :
    CanMove P s q ∨ ∃ r, WaitsFor P s q r := by
  cases hw with
  | @lock t u m rest ht ho =>
    cases hu : s.tasks u with
    | none => exact absurd ho (h.idle u hu m)
    | some rest' => exact h.task_moves_or_waits hu
  | send ht hf => exact D.drainer_moves_or_waits hf
  | relay hd hf => exact D.drainer_moves_or_waits hf

/-- Whoever waits, waits in the end for somebody who can move. The weight grows along the
chain and is bounded. -/
theorem Inv.progress {s : State τ μ χ} (h : Inv D s) {p q : Party τ χ} (hw : WaitsFor P s p q) :
    ∃ r, Relation.TransGen (WaitsFor P s) p r ∧ CanMove P s r := by
  induction hn : 2 * D.bound - weight D s q using Nat.strongRecOn generalizing p q with
  | _ n ih =>
    obtain hm | ⟨r,hr⟩ := h.moves_or_waits hw
    · exact ⟨q,Relation.TransGen.single hw,hm⟩
    · have hlt := h.weight_lt hr
      have hle := weight_le D s r
      obtain ⟨v,hv,hmv⟩ := ih (2 * D.bound - weight D s r) (by omega) hr rfl
      exact ⟨v,Relation.TransGen.head hw hv,hmv⟩

end

end GameServer.Library.Waiting
