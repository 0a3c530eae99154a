import Mathlib.Data.List.Basic

/-! # Labelled runs and their invariants

A run records every step it has taken: the state the step started from and its
label, latest first. Properties of whole runs are statements about this record,
and each rule below turns a fact about one step into a fact about a run.
-/
namespace GameServer.Library

/-- A labelled transition system; a label carries the inputs of its step. -/
structure Lts (σ α : Type) where
  init : σ → Prop
  step : σ → α → σ → Prop

inductive Run {σ α : Type} (M : Lts σ α) : List (σ × α) → σ → Prop
  | start {s : σ} : M.init s → Run M [] s
  | next {past : List (σ × α)} {s t : σ} {a : α} :
      Run M past s → M.step s a t → Run M ((s, a) :: past) t

namespace Run
variable {σ α : Type} {M : Lts σ α} {past : List (σ × α)} {s : σ}

theorem invariant {I : σ → Prop} (h0 : ∀ s, M.init s → I s)
    (hstep : ∀ s a t, I s → M.step s a t → I t) (h : Run M past s) : I s := by
  induction h with
  | start hs => exact h0 _ hs
  | next _ hst ih => exact hstep _ _ _ ih hst

theorem invariant_of {I : σ → Prop} {C : σ → α → Prop} (h0 : ∀ s, M.init s → I s)
    (hstep : ∀ s a t, I s → C s a → M.step s a t → I t) (h : Run M past s)
    (hc : ∀ p ∈ past, C p.1 p.2) : I s := by
  induction h with
  | start hs => exact h0 _ hs
  | next _ hst ih =>
    obtain ⟨ha, hp⟩ := List.forall_mem_cons.mp hc
    exact hstep _ _ _ (ih hp) ha hst

theorem of_mem {p : σ × α} (h : Run M past s) (hp : p ∈ past) :
    ∃ past', Run M past' p.1 ∧ ∀ q ∈ past', q ∈ past := by
  induction h with
  | start => cases hp
  | next hr _ ih =>
    rcases List.mem_cons.mp hp with rfl | hp
    · exact ⟨_, hr, fun q hq => List.mem_cons_of_mem _ hq⟩
    · obtain ⟨past', hr', hsub⟩ := ih hp
      exact ⟨past', hr', fun q hq => List.mem_cons_of_mem _ (hsub q hq)⟩

theorem step_of_mem {p : σ × α} (h : Run M past s) (hp : p ∈ past) : ∃ t, M.step p.1 p.2 t := by
  induction h with
  | start => cases hp
  | next _ hst ih =>
    rcases List.mem_cons.mp hp with rfl | hp
    · exact ⟨_,hst⟩
    · exact ih hp

def Always (P : σ → Prop) (past : List (σ × α)) (s : σ) : Prop := P s ∧ ∀ p ∈ past, P p.1

theorem always_of {I P : σ → Prop} {C : σ → α → Prop} (h0 : ∀ s, M.init s → I s) (hP : ∀ s, I s → P s)
    (hstep : ∀ s a t, I s → C s a → M.step s a t → I t) (h : Run M past s)
    (hc : ∀ p ∈ past, C p.1 p.2) : Always P past s := by
  refine ⟨hP _ (invariant_of h0 hstep h hc), fun p hp => ?_⟩
  obtain ⟨past', hr, hsub⟩ := of_mem h hp
  exact hP _ (invariant_of h0 hstep hr (fun q hq => hc q (hsub q hq)))

/-- The exact condition on single steps under which a property holds throughout:
it is enough to keep an invariant, and a step that misses it loses the property. -/
theorem always_iff {I P : σ → Prop} {C : σ → α → Prop} (h0 : ∀ s, M.init s → I s)
    (hP : ∀ s, I s → P s) (hstep : ∀ s a t, I s → C s a → M.step s a t → I t)
    (hbad : ∀ s a t, I s → M.step s a t → P t → C s a) (h : Run M past s) :
    Always P past s ↔ ∀ p ∈ past, C p.1 p.2 := by
  constructor
  · intro hall
    induction h with
    | start => exact fun p hp => by cases hp
    | next hr hst ih =>
      obtain ⟨hs, hpast⟩ := List.forall_mem_cons.mp hall.2
      have hc := ih ⟨hs, hpast⟩
      have hi := invariant_of h0 hstep hr hc
      exact List.forall_mem_cons.mpr ⟨hbad _ _ _ hi hst hall.1, hc⟩
  · exact always_of h0 hP hstep h

theorem before {later earlier : List (σ × α)} {p : σ × α} (h : Run M (later ++ p :: earlier) s) :
    Run M earlier p.1 := by
  induction later generalizing s with
  | nil =>
    cases h with
    | next hr _ => exact hr
  | cons q later ih =>
    cases h with
    | next hr _ => exact ih hr

theorem stays {I J : σ → Prop} (h0 : ∀ s, M.init s → I s) (hI : ∀ s a t, I s → M.step s a t → I t)
    (hJ : ∀ s a t, I s → J s → M.step s a t → J t) {later earlier : List (σ × α)} {p : σ × α}
    (h : Run M (later ++ p :: earlier) s) (hp : J p.1) : J s ∧ ∀ q ∈ later, J q.1 := by
  induction later generalizing s with
  | nil =>
    cases h with
    | next hr hst => exact ⟨hJ _ _ _ (hr.invariant h0 hI) hp hst,fun q hq => by cases hq⟩
  | cons q later ih =>
    cases h with
    | next hr hst =>
      obtain ⟨hq,hlater⟩ := ih hr
      exact ⟨hJ _ _ _ (Run.invariant h0 hI hr) hq hst,List.forall_mem_cons.mpr ⟨hq,hlater⟩⟩

def countSteps (kind : σ → σ → Bool) : List (σ × α) → σ → ℕ
  | [], _ => 0
  | p :: past, s => countSteps kind past p.1 + (kind p.1 s).toNat

/-- Steps of a kind that each use up some of a potential are as few as those that add to it allow. -/
theorem countSteps_le {I : σ → Prop} {kind : σ → σ → Bool} {potential paid : σ → ℕ} {c : ℕ}
    (h0 : ∀ s, M.init s → I s ∧ potential s ≤ c * paid s)
    (hstep : ∀ s a t, I s → M.step s a t → I t ∧
      (kind s t).toNat + potential t + c * paid s ≤ potential s + c * paid t) (h : Run M past s) :
    I s ∧ countSteps kind past s + potential s ≤ c * paid s := by
  induction h with
  | start hs =>
    obtain ⟨hi,hp⟩ := h0 _ hs
    refine ⟨hi,?_⟩
    simpa only [countSteps, Nat.zero_add] using hp
  | next _ hst ih =>
    obtain ⟨hi,hle⟩ := ih
    obtain ⟨hi',hnext⟩ := hstep _ _ _ hi hst
    refine ⟨hi',?_⟩
    simp only [countSteps]
    omega

/-- A value that some steps set and others clear is the one set last, unless it was cleared since. -/
theorem since_iff {V : Type} {I : σ → Prop} {f : σ → Option V} {Sets : V → σ × α → Prop}
    {Clears : σ × α → Prop} (h0 : ∀ s, M.init s → I s ∧ f s = none)
    (hI : ∀ s a t, I s → M.step s a t → I t)
    (hset : ∀ s a t v, I s → M.step s a t → Sets v (s,a) → f s = none ∧ f t = some v)
    (hclear : ∀ s a t, I s → M.step s a t → Clears (s,a) → f t = none)
    (hkeep : ∀ s a t, I s → M.step s a t → (∀ v, ¬ Sets v (s,a)) → ¬ Clears (s,a) → f t = f s)
    (h : Run M past s) {v : V} : f s = some v ↔
      ∃ later p earlier, past = later ++ p :: earlier ∧ Sets v p ∧ ∀ q ∈ later, ¬ Clears q := by
  have hinv : ∀ {past s}, Run M past s → I s := fun hr => hr.invariant (fun s hs => (h0 s hs).1) hI
  induction h with
  | start hs =>
    rw [(h0 _ hs).2]
    constructor
    · intro hv
      cases hv
    · rintro ⟨later,p,earlier,he,-⟩
      exact absurd he.symm (by simp)
  | @next past s t a hr hst ih =>
    have hi := hinv hr
    constructor
    · intro hv
      by_cases hs : ∃ v', Sets v' (s,a)
      · obtain ⟨v',hs⟩ := hs
        rw [(hset s a t v' hi hst hs).2] at hv
        obtain rfl := Option.some.inj hv
        exact ⟨[],(s,a),past,rfl,hs,fun q hq => by cases hq⟩
      · have hc : ¬ Clears (s,a) := by
          intro hc
          rw [hclear s a t hi hst hc] at hv
          cases hv
        rw [hkeep s a t hi hst (fun v' hs' => hs ⟨v',hs'⟩) hc] at hv
        obtain ⟨later,p,earlier,rfl,hp,hlater⟩ := ih.mp hv
        exact ⟨(s,a) :: later,p,earlier,rfl,hp,List.forall_mem_cons.mpr ⟨hc,hlater⟩⟩
    · rintro ⟨later,p,earlier,he,hp,hlater⟩
      cases later with
      | nil =>
        obtain ⟨rfl,rfl⟩ := List.cons_eq_cons.mp he
        exact (hset s a t v hi hst hp).2
      | cons q later =>
        obtain ⟨rfl,rfl⟩ := List.cons_eq_cons.mp he
        obtain ⟨hq,hlater⟩ := List.forall_mem_cons.mp hlater
        have hv := ih.mpr ⟨later,p,earlier,rfl,hp,hlater⟩
        have hno : ∀ v', ¬ Sets v' (s,a) := by
          intro v' hs
          rw [(hset s a t v' hi hst hs).1] at hv
          cases hv
        rw [hkeep s a t hi hst hno hq]
        exact hv

/-! ### What an observer makes of a run -/

section
variable {τ : Type}

def seen (see : τ → σ → α → τ) (t₀ : τ) : List (σ × α) → τ
  | [] => t₀
  | p :: past => see (seen see t₀ past) p.1 p.2

/-- A view of the state that each step changes as the observer expects is what it has seen. -/
theorem view_eq {I : σ → Prop} {C : σ → α → Prop} {view : σ → τ} (see : τ → σ → α → τ) {t₀ : τ}
    (h0 : ∀ s, M.init s → I s ∧ view s = t₀)
    (hstep : ∀ s a t, I s → C s a → M.step s a t → I t ∧ view t = see (view s) s a)
    (h : Run M past s) (hc : ∀ p ∈ past, C p.1 p.2) : I s ∧ view s = seen see t₀ past := by
  induction h with
  | start hs => exact h0 _ hs
  | next _ hst ih =>
    obtain ⟨ha,hp⟩ := List.forall_mem_cons.mp hc
    obtain ⟨hi,hv⟩ := ih hp
    obtain ⟨hi',hv'⟩ := hstep _ _ _ hi ha hst
    refine ⟨hi',?_⟩
    rw [hv', hv]
    rfl

end

/-! ### Seen as a run of another system -/

section
variable {τ β : Type} {N : Lts τ β}

def viewed (f : σ → τ) (g : σ → α → Option β) (past : List (σ × α)) : List (τ × β) :=
  past.filterMap (fun p => (g p.1 p.2).map (fun b => (f p.1,b)))

/-- Where every step is one of another system or changes nothing there, a run is a run of it. -/
theorem project (f : σ → τ) (g : σ → α → Option β) (h0 : ∀ s, M.init s → N.init (f s))
    (hstep : ∀ s a t b, M.step s a t → g s a = some b → N.step (f s) b (f t))
    (hstay : ∀ s a t, M.step s a t → g s a = none → f t = f s) (h : Run M past s) :
    Run N (viewed f g past) (f s) := by
  induction h with
  | start hs => exact Run.start (h0 _ hs)
  | @next past s t a _ hst ih =>
    unfold viewed at ih ⊢
    rw [List.filterMap_cons]
    cases hg : g s a with
    | none =>
      rw [hstay s a t hst hg]
      exact ih
    | some b => exact ih.next (hstep s a t b hst hg)

end

/-! ### Runs given by a list of actions -/

variable {β : Type}

def Allowed (next : σ → β → σ) (ok : σ → β → Prop) : σ → List β → Prop
  | _, [] => True
  | s, b :: acts => ok s b ∧ Allowed next ok (next s b) acts

def record (next : σ → β → σ) (label : β → α) : σ → List β → List (σ × α)
  | _, [] => []
  | s, b :: acts => record next label (next s b) acts ++ [(s, label b)]

instance decidableAllowed (next : σ → β → σ) (ok : σ → β → Prop) [∀ s b, Decidable (ok s b)] :
    (s : σ) → (acts : List β) → Decidable (Allowed next ok s acts)
  | _, [] => isTrue trivial
  | s, b :: acts =>
    have := decidableAllowed next ok (next s b) acts
    inferInstanceAs (Decidable (ok s b ∧ Allowed next ok (next s b) acts))

theorem allowed_of_forall {next : σ → β → σ} {ok : σ → β → Prop} (h : ∀ s b, ok s b) (s : σ)
    (acts : List β) : Allowed next ok s acts := by
  induction acts generalizing s with
  | nil => trivial
  | cons b acts ih => exact ⟨h s b,ih _⟩

theorem forall_record {next : σ → β → σ} {ok : σ → β → Prop} {label : β → α} {P : σ → α → Prop}
    (hP : ∀ s b, ok s b → P s (label b)) {s : σ} {acts : List β} (ha : Allowed next ok s acts) :
    ∀ p ∈ record next label s acts, P p.1 p.2 := by
  induction acts generalizing s with
  | nil => exact fun p hp => by cases hp
  | cons b acts ih =>
    intro p hp
    rcases List.mem_append.mp hp with hp | hp
    · exact ih ha.2 p hp
    · obtain rfl := List.mem_singleton.mp hp
      exact hP s b ha.1

/-- Where any two actions that follow each other can be swapped, the order of the actions
does not matter. -/
theorem Allowed.perm {next : σ → β → σ} {ok : σ → β → Prop} {I : σ → Prop} {R : β → β → Prop}
    (hI : ∀ s b, I s → ok s b → I (next s b)) (hsymm : ∀ {a b}, R a b → R b a)
    (hswap : ∀ s a b, I s → R a b → ok s a → ok (next s a) b →
      ok s b ∧ ok (next s b) a ∧ next (next s b) a = next (next s a) b)
    {acts acts' : List β} (hp : acts.Perm acts') {s : σ} (hs : I s) (hr : acts.Pairwise R)
    (ha : Allowed next ok s acts) :
    Allowed next ok s acts' ∧ acts'.foldl next s = acts.foldl next s := by
  induction hp generalizing s with
  | nil => exact ⟨ha,rfl⟩
  | cons b _ ih =>
    obtain ⟨hok,hrest⟩ := ha
    obtain ⟨hall,heq⟩ := ih (hI s b hs hok) (List.pairwise_cons.mp hr).2 hrest
    exact ⟨⟨hok,hall⟩,heq⟩
  | swap b a acts =>
    obtain ⟨hok,hok',hrest⟩ := ha
    have hab : R a b := (List.pairwise_cons.mp hr).1 _ List.mem_cons_self
    obtain ⟨hb,ha,heq⟩ := hswap s a b hs hab hok hok'
    refine ⟨⟨hb,ha,?_⟩,?_⟩
    · rw [heq]
      exact hrest
    · simp only [List.foldl_cons, heq]
  | trans hp _ ih ih' =>
    obtain ⟨hall,heq⟩ := ih hs hr ha
    obtain ⟨hall',heq'⟩ := ih' hs ((hp.pairwise_iff hsymm).mp hr) hall
    exact ⟨hall',heq'.trans heq⟩

theorem of_acts (next : σ → β → σ) (ok : σ → β → Prop) (label : β → α)
    (hstep : ∀ s b, ok s b → M.step s (label b) (next s b)) (h : Run M past s) {acts : List β}
    (ha : Allowed next ok s acts) : Run M (record next label s acts ++ past) (acts.foldl next s) := by
  induction acts generalizing past s with
  | nil => exact h
  | cons b acts ih =>
    have hrun := ih (Run.next h (hstep s b ha.1)) ha.2
    rwa [List.append_cons] at hrun

theorem of_start (next : σ → β → σ) (ok : σ → β → Prop) (label : β → α)
    (hstep : ∀ s b, ok s b → M.step s (label b) (next s b)) (hs : M.init s) {acts : List β}
    (ha : Allowed next ok s acts) : Run M (record next label s acts) (acts.foldl next s) := by
  have hrun := of_acts next ok label hstep (Run.start hs) ha
  rwa [List.append_nil] at hrun

end Run

def Lts.Reachable {σ α : Type} (M : Lts σ α) (s : σ) : Prop := ∃ past, Run M past s

theorem Lts.Reachable.next {σ α : Type} {M : Lts σ α} {s t : σ} {a : α} (h : M.Reachable s)
    (hst : M.step s a t) : M.Reachable t := by
  obtain ⟨past,hrun⟩ := h
  exact ⟨_,hrun.next hst⟩

/-- Seen through a map under which every step is one of another system or none at all, what
the one system reaches the other one reaches. -/
theorem Lts.Reachable.of_simulation {σ τ α β : Type} {M : Lts σ α} {N : Lts τ β} {I : σ → Prop} (f : σ → τ)
    (h0 : ∀ s, M.init s → I s ∧ N.init (f s))
    (hstep : ∀ s a t, I s → M.step s a t → I t ∧ (f t = f s ∨ ∃ b, N.step (f s) b (f t))) {s : σ}
    (h : M.Reachable s) : N.Reachable (f s) := by
  obtain ⟨past,hrun⟩ := h
  have hboth : I s ∧ N.Reachable (f s) := by
    induction hrun with
    | start hs =>
      obtain ⟨hi,hinit⟩ := h0 _ hs
      exact ⟨hi,[],Run.start hinit⟩
    | next _ hst ih =>
      obtain ⟨hi,hreach⟩ := ih
      obtain ⟨hi',heq | ⟨b,hb⟩⟩ := hstep _ _ _ hi hst
      · rw [heq]
        exact ⟨hi',hreach⟩
      · exact ⟨hi',hreach.next hb⟩
  exact hboth.2

end GameServer.Library
