import Mathlib.Data.List.Basic

/-! # Joining and leaving through a queue and a pool

One member joins a group and leaves it by two notices. A notice travels through a
queue, in order, into a pool, from which it is carried out in any order. As long
as no leave is carried out while a join still waits in the pool, a member is in
the group once all is quiet exactly if it has not left.
-/
namespace GameServer.Library

inductive Notice
  | join
  | leave
deriving DecidableEq

/-- Where the notices of one member are, given whether the group contains it and
whether it is active, that is, has joined and not left. -/
inductive Stage (member active : Prop) : List Notice → List Notice → Prop
  | joinQueued : ¬ member → active → Stage member active [.join] []
  | joinPooled : ¬ member → active → Stage member active [] [.join]
  | joined : member → active → Stage member active [] []
  | bothQueued : ¬ member → ¬ active → Stage member active [.join,.leave] []
  | leaveFollows : ¬ member → ¬ active → Stage member active [.leave] [.join]
  | leaveQueued : member → ¬ active → Stage member active [.leave] []
  | bothPooled : ¬ member → ¬ active → Stage member active [] [.join,.leave]
  | leavePooled : member → ¬ active → Stage member active [] [.leave]
  | left : ¬ member → ¬ active → Stage member active [] []

namespace Stage
variable {member active : Prop} {queue pool before after : List Notice} {n : Notice}

theorem congr {member' active' : Prop} (h : Stage member active queue pool) (hm : member' ↔ member)
    (ha : active' ↔ active) : Stage member' active' queue pool := by
  rwa [propext hm, propext ha]

theorem leave (h : Stage member active queue pool) (ha : active) {active' : Prop} (ha' : ¬ active') :
    Stage member active' (queue ++ [.leave]) pool := by
  cases h with
  | joinQueued hm _ => exact bothQueued hm ha'
  | joinPooled hm _ => exact leaveFollows hm ha'
  | joined hm _ => exact leaveQueued hm ha'
  | bothQueued _ hn => exact absurd ha hn
  | leaveFollows _ hn => exact absurd ha hn
  | leaveQueued _ hn => exact absurd ha hn
  | bothPooled _ hn => exact absurd ha hn
  | leavePooled _ hn => exact absurd ha hn
  | left _ hn => exact absurd ha hn

theorem arrive (h : Stage member active (n :: queue) pool) : Stage member active queue (pool ++ [n]) := by
  cases h with
  | joinQueued hm ha => exact joinPooled hm ha
  | bothQueued hm ha => exact leaveFollows hm ha
  | leaveFollows hm ha => exact bothPooled hm ha
  | leaveQueued hm ha => exact leavePooled hm ha

/-- A join in the pool means that the group does not contain the member yet. -/
theorem not_member_of_join (h : Stage member active queue pool) (hj : .join ∈ pool) : ¬ member := by
  cases h with
  | joinPooled hm _ => exact hm
  | leaveFollows hm _ => exact hm
  | bothPooled hm _ => exact hm
  | _ => simp at hj

theorem runJoin (h : Stage member active queue (before ++ .join :: after)) {member' : Prop}
    (hm' : member') : Stage member' active queue (before ++ after) := by
  generalize hp : before ++ .join :: after = pool at h
  cases h with
  | joinPooled _ ha =>
    obtain ⟨rfl,rfl⟩ : before = [] ∧ after = [] := by
      cases before <;> simp_all
    exact joined hm' ha
  | leaveFollows _ ha =>
    obtain ⟨rfl,rfl⟩ : before = [] ∧ after = [] := by
      cases before <;> simp_all
    exact leaveQueued hm' ha
  | bothPooled _ ha =>
    obtain ⟨rfl,rfl⟩ : before = [] ∧ after = [.leave] := by
      rcases before with - | ⟨b,- | ⟨c,before⟩⟩ <;> simp_all
    exact leavePooled hm' ha
  | leavePooled _ _ => cases before <;> simp_all
  | _ => simp at hp

theorem runLeave (h : Stage member active queue (before ++ .leave :: after))
    (hno : .join ∉ before ++ after) {member' : Prop} (hm' : ¬ member') :
    Stage member' active queue (before ++ after) := by
  generalize hp : before ++ .leave :: after = pool at h
  cases h with
  | leavePooled _ ha =>
    obtain ⟨rfl,rfl⟩ : before = [] ∧ after = [] := by
      cases before <;> simp_all
    exact left hm' ha
  | bothPooled _ ha =>
    rcases before with - | ⟨b,- | ⟨c,before⟩⟩ <;> simp_all
  | joinPooled _ _ => cases before <;> simp_all
  | leaveFollows _ _ => cases before <;> simp_all
  | _ => simp at hp

/-- Once all is quiet the group contains exactly the active members. -/
theorem quiet (h : Stage member active [] []) : member ↔ active := by
  cases h with
  | joined hm ha => exact iff_of_true hm ha
  | left hm ha => exact iff_of_false hm ha

end Stage
end GameServer.Library
