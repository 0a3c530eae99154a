import GameServer.Library.Outcome

/-! # A loop that receives

One iteration takes one message and may panic; a panic is the end of the loop, and what
arrives later is not taken any more. Between two iterations other tasks change the state the
loop works on, and they may notice that the loop is gone.
-/
namespace GameServer.Library

/-- The state a receiving loop works on, and whether the loop is still running. -/
structure Receiver (σ : Type) where
  running : Bool
  shared : σ

namespace Receiver
variable {σ τ μ β ε : Type} (body : σ → μ → Outcome ε σ) (other : Bool → σ → β → σ)

def next (r : Receiver σ) : μ ⊕ β → Receiver σ
  | .inl m =>
    if r.running then
      let o := body r.shared m
      { running := o.panic.isNone, shared := o.state }
    else r
  | .inr b => { r with shared := other r.running r.shared b }

def after (r : Receiver σ) (events : List (μ ⊕ β)) : Receiver σ := events.foldl (next body other) r

def keeping (keep : μ → Bool) (events : List (μ ⊕ β)) : List (μ ⊕ β) :=
  events.filter (Sum.elim keep (fun _ => true))

def Undisturbed (view : σ → τ) (keep : μ → Bool) (r : Receiver σ) (events : List (μ ⊕ β)) : Prop :=
  (r.after body other events).running = true ∧
    view (r.after body other events).shared = view (r.after body other (keeping keep events)).shared

variable {body other}

/-- Where the message alone decides whether an iteration panics, the loop is running exactly
if every message so far was a good one. -/
theorem running_after_iff {ok : μ → Prop} (hbody : ∀ s m, (body s m).panic = none ↔ ok m)
    (r : Receiver σ) (events : List (μ ⊕ β)) : (r.after body other events).running = true ↔
      r.running = true ∧ ∀ m, Sum.inl m ∈ events → ok m := by
  induction events generalizing r with
  | nil =>
    constructor
    · exact fun h => ⟨h,fun m hm => by cases hm⟩
    · exact fun h => h.1
  | cons e events ih =>
    have hcons : r.after body other (e :: events) = (r.next body other e).after body other events := rfl
    rw [hcons, ih]
    cases e with
    | inl m =>
      have hnext : (r.next body other (Sum.inl m)).running = true ↔ r.running = true ∧ ok m := by
        cases hr : r.running with
        | false => simp [next, hr]
        | true =>
          rw [← hbody r.shared m]
          simp [next, hr]
      rw [hnext, and_assoc]
      apply and_congr_right
      intro _
      constructor
      · rintro ⟨hm,hrest⟩ m' hm'
        rcases List.mem_cons.mp hm' with heq | hin
        · obtain rfl := Sum.inl.inj heq
          exact hm
        · exact hrest m' hin
      · exact fun h => ⟨h m List.mem_cons_self,fun m' hm' => h m' (List.mem_cons_of_mem _ hm')⟩
    | inr b =>
      have hnext : (r.next body other (Sum.inr b)).running = r.running := rfl
      rw [hnext]
      apply and_congr_right
      intro _
      constructor
      · intro h m hm
        rcases List.mem_cons.mp hm with heq | hin
        · cases heq
        · exact h m hin
      · exact fun h m hm => h m (List.mem_cons_of_mem _ hm)

theorem after_of_stopped {r : Receiver σ} (hr : r.running = false) (events : List (μ ⊕ β)) :
    r.after body other events = r.after body other (keeping (fun _ => false) events) := by
  induction events generalizing r with
  | nil => rfl
  | cons e events ih =>
    cases e with
    | inl m =>
      have hnext : r.next body other (Sum.inl m) = r := by simp [next, hr]
      have hcons : r.after body other (Sum.inl m :: events) =
          (r.next body other (Sum.inl m)).after body other events := rfl
      rw [hcons, hnext]
      exact ih hr
    | inr b => exact ih (r := r.next body other (Sum.inr b)) hr

/-- The first bad message is the last one that is taken. -/
theorem after_of_bad {ok : μ → Prop} (hbody : ∀ s m, (body s m).panic = none ↔ ok m) {m : μ} (hm : ¬ ok m)
    (r : Receiver σ) (events : List (μ ⊕ β)) : r.after body other (Sum.inl m :: events) =
      r.after body other (Sum.inl m :: keeping (fun _ => false) events) := by
  have hstop : (r.next body other (Sum.inl m)).running = false := by
    cases hr : r.running with
    | false => simp [next, hr]
    | true =>
      have hp : (body r.shared m).panic ≠ none := fun h => hm ((hbody _ _).mp h)
      simp [next, hr, Option.isNone_eq_false_iff, Option.isSome_iff_ne_none, hp]
  exact after_of_stopped hstop events

theorem keeping_eq_self {keep : μ → Bool} {events : List (μ ⊕ β)}
    (h : ∀ m, Sum.inl m ∈ events → keep m = true) : keeping keep events = events := by
  apply List.filter_eq_self.mpr
  intro e he
  cases e with
  | inl m => exact h m he
  | inr b => rfl

/-- Dropping bad messages changes nothing exactly if there are none to drop. -/
theorem undisturbed_iff {ok : μ → Prop} (hbody : ∀ s m, (body s m).panic = none ↔ ok m) {keep : μ → Bool}
    (hkeep : ∀ m, ok m → keep m = true) (view : σ → τ) {r : Receiver σ} (hr : r.running = true)
    (events : List (μ ⊕ β)) :
    Undisturbed body other view keep r events ↔ ∀ m, Sum.inl m ∈ events → ok m := by
  have hrun : (r.after body other events).running = true ↔ _ := running_after_iff hbody r events
  constructor
  · exact fun h => (hrun.mp h.1).2
  · intro h
    refine ⟨hrun.mpr ⟨hr,h⟩,?_⟩
    rw [keeping_eq_self (fun m hm => hkeep m (h m hm))]

end Receiver
end GameServer.Library
