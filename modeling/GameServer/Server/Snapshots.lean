import GameServer.CommonServer.MapText
import GameServer.Server.Replica

/-! # What a slave shows after any snapshots

Nothing tells a slave that the texts in a snapshot name maps. It decodes them in whatever order
the hash map gives, skips tags it has no map for, and panics at a text that is no tag, with the
maps before it already replaced. A map shows the users it was last given, by whatever text.
-/
namespace GameServer.Server
open Common CommonServer Library

/-- The entries before the first text that is no tag. -/
def WorldSyncDTO.reached (dto : WorldSyncDTO) : List (Σ _ : String, HashMap UserId User) :=
  dto.data.entries.takeWhile (fun e => (MapTag.fromString e.1).isSome)

/-- The users in the last of the entries whose text decodes to the tag. -/
def lastNamed (tag : MapTag) (l : List (Σ _ : String, HashMap UserId User)) :
    Option (HashMap UserId User) :=
  (l.filterMap (fun e => if MapTag.fromString e.1 = some tag then some e.2 else none)).getLast?

theorem lastNamed_append (tag : MapTag) (l l' : List (Σ _ : String, HashMap UserId User)) :
    lastNamed tag (l ++ l') = (lastNamed tag l').or (lastNamed tag l) := by
  unfold lastNamed
  rw [List.filterMap_append, List.getLast?_append]

/-! ## One snapshot -/

theorem userAt_replaceUsers {maps : Maps} {tag : MapTag} (ht : tag ∈ maps)
    (e : Σ _ : String, HashMap UserId User) (id : UserId) : userAt (replaceUsers maps e) tag id =
      (lastNamed tag [e]).elim (userAt maps tag id) (fun users => users.lookup id) := by
  obtain ⟨map,hm⟩ := AList.exists_lookup ht
  cases hd : MapTag.fromString e.1 with
  | none => simp [replaceUsers, lastNamed, hd]
  | some t =>
    by_cases hte : t = tag
    · simp [replaceUsers, lastNamed, hd, hte, userAt, AList.lookup_adjust, hm]
    · simp [replaceUsers, lastNamed, hd, hte, userAt, AList.lookup_adjust, Ne.symm hte]

theorem mem_replaceUsers {maps : Maps} {tag : MapTag} (e : Σ _ : String, HashMap UserId User) :
    tag ∈ replaceUsers maps e ↔ tag ∈ maps := by
  unfold replaceUsers
  cases MapTag.fromString e.1 with
  | none => exact Iff.rfl
  | some t => exact AList.mem_adjust

theorem userAt_foldl_replaceUsers {maps : Maps} {tag : MapTag} (ht : tag ∈ maps)
    (l : List (Σ _ : String, HashMap UserId User)) (id : UserId) :
    userAt (l.foldl replaceUsers maps) tag id =
      (lastNamed tag l).elim (userAt maps tag id) (fun users => users.lookup id) := by
  induction l generalizing maps with
  | nil => rfl
  | cons e l ih =>
    have happend : lastNamed tag (e :: l) = (lastNamed tag l).or (lastNamed tag [e]) :=
      lastNamed_append tag [e] l
    rw [List.foldl_cons, ih ((mem_replaceUsers e).mpr ht), userAt_replaceUsers ht, happend]
    cases lastNamed tag l with
    | none => rfl
    | some users => rfl

theorem syncMap_read (maps : Maps) (e : Σ _ : String, HashMap UserId User)
    (h : (MapTag.fromString e.1).isSome = true) : syncMap maps e = Outcome.ok (replaceUsers maps e) := by
  obtain ⟨tag,ht⟩ := Option.isSome_iff_exists.mp h
  simp only [syncMap, replaceUsers, ht, Option.elim_some]

theorem syncMap_unread (maps : Maps) (e : Σ _ : String, HashMap UserId User)
    (h : (MapTag.fromString e.1).isSome = false) : ∃ p, syncMap maps e = Outcome.fail maps p := by
  have ht : MapTag.fromString e.1 = none := by simpa using h
  exact ⟨.mapTagText,by simp only [syncMap, ht]⟩

/-- What is reached is written, and the task panics unless that is everything. -/
theorem syncFromMaster_reached (w : World) (dto : WorldSyncDTO) :
    (w.syncFromMaster dto).state.maps = dto.reached.foldl replaceUsers w.maps ∧
      ((w.syncFromMaster dto).panic = none ↔
        ∀ e ∈ dto.data.entries, (MapTag.fromString e.1).isSome = true) := by
  obtain ⟨hstate,hpanic⟩ := Outcome.forEach_takeWhile syncMap_read syncMap_unread w.maps dto.data.entries
  rw [← hpanic]
  unfold World.syncFromMaster WorldSyncDTO.reached
  dsimp only
  split
  · rename_i e he
    rw [he]
    exact ⟨hstate,by simp⟩
  · rename_i he
    rw [he]
    exact ⟨hstate,by simp⟩

/-! ## Runs of a slave -/

theorem onGrid_next {ctx : ServerContext} (hs : ctx.nodeType = .Slave) {s : NodeState} (h : s.world.OnGrid)
    (a : NodeTask) : (s.next ctx a).world.OnGrid := by
  cases a with
  | request env peerId msg =>
    simp only [NodeState.next]
    rw [handleMsgTask_world_of_slave hs]
    exact onGrid_apply h _
  | expire clientId =>
    simp only [NodeState.next]
    rcases removeOfflineClient_world_of_slave hs s.world clientId with he | he
    · rw [he]
      exact h
    · rw [he]
      exact ⟨h.area,h.layout⟩
  | countConnections count => exact ⟨h.area,h.layout⟩
  | round => exact onGrid_worldUpdateRound h ctx

def comingUpLts (conf : GameServerConf) : Lts Replica ReplicaTask where
  init s := s = Replica.start (World.init conf)
  step := ReplicaStep (ServerContext.run conf)

def reachedIn : List (Replica × ReplicaTask) → List (Σ _ : String, HashMap UserId User)
  | [] => []
  | p :: past => reachedIn past ++ (match p.2 with
    | .snapshot dto => dto.reached
    | _ => [])

/-- The maps show what they were last given. -/
structure ShowsLast (past : List (Replica × ReplicaTask)) (s : Replica) : Prop where
  grid : s.world.OnGrid
  users : ∀ tag ∈ initTags, ∀ id, userAt s.world.maps tag id =
    (lastNamed tag (reachedIn past)).bind (fun users => users.lookup id)

section
variable {conf : GameServerConf} {past : List (Replica × ReplicaTask)} {s t : Replica}

theorem ShowsLast.start : ShowsLast [] (Replica.start (World.init conf)) := by
  refine ⟨⟨rfl,layout_init conf⟩,?_⟩
  intro tag _ id
  exact userAt_init conf tag id

theorem ShowsLast.quiet (h : ShowsLast past s) {a : ReplicaTask} (hg : t.world.OnGrid)
    (hw : s.world.SameUsers t.world) (ha : ∀ dto, a ≠ .snapshot dto) : ShowsLast ((s,a) :: past) t := by
  refine ⟨hg,?_⟩
  intro tag ht id
  have hsame : reachedIn ((s,a) :: past) = reachedIn past := by
    cases a with
    | snapshot dto => exact absurd rfl (ha dto)
    | own a => exact List.append_nil _
    | reorder => exact List.append_nil _
  rw [hsame, hw.maps, h.users tag ht]

theorem ShowsLast.step (h : ShowsLast past s) (hs : conf.node.nodeType = .Slave) {a : ReplicaTask}
    (ha : s.Spares (ServerContext.run conf) a) (hst : ReplicaStep (ServerContext.run conf) s a t) :
    ShowsLast ((s,a) :: past) t := by
  have hslave : (ServerContext.run conf).nodeType = .Slave := hs
  cases hst with
  | own a =>
    exact h.quiet (onGrid_next hslave h.grid a) (sameUsers_next hslave ha) (fun _ he => by cases he)
  | reorder hsame =>
    exact h.quiet ⟨hsame.areaLen_eq.trans h.grid.area,hsame.layout h.grid.layout⟩
      (World.SameUsers.of_same hsame) (fun _ he => by cases he)
  | snapshot dto =>
    refine ⟨h.grid.syncFromMaster dto,?_⟩
    intro tag ht id
    have hin : tag ∈ s.world.maps := (h.grid.layout.keys tag).mpr ht
    dsimp only [reachedIn]
    rw [(syncFromMaster_reached s.world dto).1, userAt_foldl_replaceUsers hin, lastNamed_append,
      h.users tag ht]
    cases lastNamed tag dto.reached with
    | none => rfl
    | some users => rfl

/-- Whatever snapshots a slave is sent in a run in which its own tasks have nothing to write,
each of its maps holds the users of the last entry read whose text decodes to the map's tag, and
none before there is one. The next snapshot is read to its end unless some text is no tag. -/
theorem shows_last_named (hs : conf.node.nodeType = .Slave) (h : Run (comingUpLts conf) past s)
    (hspares : ∀ p ∈ past, p.1.Spares (ServerContext.run conf) p.2) :
    (∀ tag id, userAt s.world.maps tag id =
      if tag ∈ initTags then (lastNamed tag (reachedIn past)).bind (fun users => users.lookup id) else none) ∧
    ∀ dto, (s.world.syncFromMaster dto).panic = none ↔
      ∀ e ∈ dto.data.entries, ∃ tag, MapTag.Spells e.1 tag := by
  have hshows : ShowsLast past s := by
    induction h with
    | start hi =>
      obtain rfl : _ = Replica.start (World.init conf) := hi
      exact ShowsLast.start
    | next _ hst ih =>
      obtain ⟨ha,hpast⟩ := List.forall_mem_cons.mp hspares
      exact (ih hpast).step hs ha hst
  refine ⟨?_,?_⟩
  · intro tag id
    split
    · rename_i ht
      exact hshows.users tag ht id
    · rename_i ht
      have hnone : s.world.maps.lookup tag = none :=
        AList.lookup_eq_none.mpr (fun hin => ht ((hshows.grid.layout.keys tag).mp hin))
      simp only [userAt, hnone, Option.bind_none]
  · intro dto
    rw [(syncFromMaster_reached s.world dto).2]
    simp only [Option.isSome_iff_exists, MapTag.fromString_iff_spells]

end

/-- A map named by a text no master writes, and a text that is no tag. -/
def oddSnapshots : List WorldSyncDTO :=
  [{ data := AList.insert "B1:+1:01:" (AList.insert 7 (User.randomWithoutVelocity 7 Vector2.zero) ∅) ∅,
     timestamp := none },
   { data := AList.insert "B:1" ∅ ∅, timestamp := none }]

theorem shows_last_named_oddSnapshots : ∃ past s, Run (comingUpLts .slave) past s ∧
    past.length = oddSnapshots.length ∧
    userAt s.world.maps { fieldId := 'B', xLen := 1, yLen := 1 } 7 =
      some (User.randomWithoutVelocity 7 Vector2.zero) := by
  have h₀ : Run (comingUpLts .slave) [] (Replica.start (World.init .slave)) := Run.start rfl
  have h₁ := h₀.next (ReplicaStep.snapshot oddSnapshots[0])
  have h₂ := h₁.next (ReplicaStep.snapshot oddSnapshots[1])
  refine ⟨_,_,h₂,rfl,?_⟩
  rw [(shows_last_named GameServerConf.slave_nodeType h₂ _).1, if_pos (by decide +kernel)]
  · decide +kernel
  · simp only [List.forall_mem_cons]
    exact ⟨trivial,trivial,fun _ hp => by cases hp⟩

end GameServer.Server
