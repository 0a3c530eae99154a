import Mathlib.Data.List.AList
import Mathlib.Data.Set.Card

/-! # Finite maps with an arbitrary enumeration order

A hash map is an association list with distinct keys. The order of its entries
is the order in which one traversal enumerates them, so two maps with the same
lookups are the same map seen under two enumeration orders.
-/
namespace GameServer.Library

/-- A map from `K` to `V`, together with one enumeration order of its entries. -/
abbrev HashMap (K V : Type) := AList (fun _ : K => V)

end GameServer.Library

namespace AList
open GameServer.Library
variable {K V W : Type}

def values (m : HashMap K V) : List V := m.entries.map Sigma.snd

def mapVal (f : K → V → W) (m : HashMap K V) : HashMap K W where
  entries := m.entries.map (fun e => ⟨e.1, f e.1 e.2⟩)
  nodupKeys := by
    have h : (m.entries.map Sigma.fst).Nodup := m.nodupKeys
    change ((m.entries.map (fun e => (⟨e.1, f e.1 e.2⟩ : Σ _ : K, W))).map Sigma.fst).Nodup
    simpa only [List.map_map, Function.comp_def] using h

@[simp] theorem keys_mapVal (f : K → V → W) (m : HashMap K V) : (m.mapVal f).keys = m.keys := by
  simp only [mapVal, keys, List.keys, List.map_map, Function.comp_def]

theorem mapVal_mapVal {X : Type} (f : K → V → W) (g : K → W → X) (m : HashMap K V) :
    (m.mapVal f).mapVal g = m.mapVal (fun k v => g k (f k v)) := by
  apply ext
  simp only [mapVal, List.map_map, Function.comp_def]

theorem mapVal_comm {f g : K → V → V} (h : ∀ k v, g k (f k v) = f k (g k v)) (m : HashMap K V) :
    (m.mapVal f).mapVal g = (m.mapVal g).mapVal f := by
  rw [mapVal_mapVal, mapVal_mapVal]
  congr 1
  funext k v
  exact h k v

variable [DecidableEq K]

def adjust (k : K) (f : V → V) (m : HashMap K V) : HashMap K V :=
  m.mapVal (fun k' v => if k' = k then f v else v)

/-- Insert all entries of the second map, which win over the old ones. -/
def extend (m m' : HashMap K V) : HashMap K V := m' ∪ m

def eraseAll (m : HashMap K V) (ks : List K) : HashMap K V := ks.foldl (fun m k => m.erase k) m

/-- The same values under other keys; a later entry wins over an earlier one. -/
def rekey {K' : Type} [DecidableEq K'] (f : K → K') (g : V → W) (m : HashMap K V) : HashMap K' W :=
  m.entries.foldl (fun d e => d.insert (f e.1) (g e.2)) ∅

/-- Same content, possibly enumerated in another order. -/
def Same (m m' : HashMap K V) : Prop := ∀ k, m.lookup k = m'.lookup k

theorem Same.refl (m : HashMap K V) : m.Same m := fun _ => rfl

theorem Same.mem_iff {m m' : HashMap K V} (h : m.Same m') (k : K) : k ∈ m' ↔ k ∈ m := by
  rw [← lookup_isSome, ← lookup_isSome, h k]

theorem same_iff_perm {m m' : HashMap K V} : m.Same m' ↔ m.entries.Perm m'.entries := by
  constructor
  · intro h
    apply List.lookup_ext m.nodupKeys m'.nodupKeys
    intro k v
    have hk : m.entries.dlookup k = m'.entries.dlookup k := h k
    rw [hk]
  · intro h k
    exact perm_lookup h

theorem mem_of_lookup {m : HashMap K V} {k : K} {v : V} (h : m.lookup k = some v) : k ∈ m :=
  lookup_isSome.mp (by rw [h]; rfl)

theorem exists_lookup {m : HashMap K V} {k : K} (h : k ∈ m) : ∃ v, m.lookup k = some v :=
  Option.isSome_iff_exists.mp (lookup_isSome.mpr h)

theorem ncard_mem (m : HashMap K V) : {k | k ∈ m}.ncard = m.entries.length := by
  have hset : {k | k ∈ m} = (m.keys.toFinset : Set K) := by
    ext k
    simp only [Set.mem_ofPred_eq, List.coe_toFinset, mem_keys]
  rw [hset, Set.ncard_coe_finset, List.toFinset_card_of_nodup m.keys_nodup]
  exact List.length_map Sigma.fst

theorem mem_entries_iff {m : HashMap K V} {k : K} {v : V} :
    (⟨k, v⟩ : Σ _ : K, V) ∈ m.entries ↔ m.lookup k = some v := by
  rw [← mem_lookup_iff]
  exact Iff.rfl

theorem mem_values_iff {m : HashMap K V} {v : V} : v ∈ m.values ↔ ∃ k, m.lookup k = some v := by
  simp only [values, List.mem_map]
  constructor
  · rintro ⟨⟨k, v'⟩, he, rfl⟩
    exact ⟨k, mem_entries_iff.mp he⟩
  · rintro ⟨k, hk⟩
    exact ⟨⟨k, v⟩, mem_entries_iff.mpr hk, rfl⟩

@[simp] theorem lookup_mapVal (f : K → V → W) (m : HashMap K V) (k : K) :
    (m.mapVal f).lookup k = (m.lookup k).map (f k) := by
  cases h : m.lookup k with
  | none =>
    rw [lookup_eq_none] at h
    rw [Option.map_none, lookup_eq_none, mem_keys, keys_mapVal]
    exact h
  | some v =>
    rw [Option.map_some]
    apply mem_entries_iff.mp
    exact List.mem_map.mpr ⟨⟨k, v⟩, mem_entries_iff.mpr h, rfl⟩

theorem mapVal_congr {f g : K → V → W} {m : HashMap K V}
    (h : ∀ k v, m.lookup k = some v → f k v = g k v) : m.mapVal f = m.mapVal g := by
  apply ext
  apply List.map_congr_left
  rintro ⟨k,v⟩ he
  rw [h k v (mem_entries_iff.mp he)]

theorem mapVal_eq_self {f : K → V → V} {m : HashMap K V} (h : ∀ k v, m.lookup k = some v → f k v = v) :
    m.mapVal f = m := by
  have hid : m.mapVal (fun _ v => v) = m := ext (List.map_id _)
  exact (mapVal_congr h).trans hid

/-- Maps whose values agree under every key list the same values. -/
theorem values_map_perm {m : HashMap K V} {m' : HashMap K W} {X : Type} {g : V → X} {g' : W → X}
    (h : ∀ k, (m.lookup k).map g = (m'.lookup k).map g') : (m.values.map g).Perm (m'.values.map g') := by
  have hsame : (m.mapVal (fun _ => g)).Same (m'.mapVal (fun _ => g')) := by
    intro k
    rw [lookup_mapVal, lookup_mapVal]
    exact h k
  have hp := (same_iff_perm.mp hsame).map Sigma.snd
  simpa only [mapVal, values, List.map_map, Function.comp_def] using hp

theorem lookup_adjust (k k' : K) (f : V → V) (m : HashMap K V) :
    (m.adjust k f).lookup k' = if k' = k then (m.lookup k').map f else m.lookup k' := by
  unfold adjust
  rw [lookup_mapVal]
  split
  · rfl
  · exact Option.map_id'

@[simp] theorem keys_adjust (k : K) (f : V → V) (m : HashMap K V) : (m.adjust k f).keys = m.keys :=
  keys_mapVal _ m

theorem adjust_comm {k k' : K} {f g : V → V} (h : k = k' → ∀ v, g (f v) = f (g v)) (m : HashMap K V) :
    (m.adjust k f).adjust k' g = (m.adjust k' g).adjust k f := by
  apply mapVal_comm
  intro key v
  by_cases hk : key = k
  · by_cases hk' : key = k'
    · simp only [if_pos hk, if_pos hk']
      exact h (hk.symm.trans hk') v
    · simp only [if_pos hk, if_neg hk']
  · simp only [if_neg hk]

/-- A change under one key and a change of all values that commute can be swapped. -/
theorem mapVal_adjust {k : K} {f : V → V} {g : K → V → V} (h : ∀ v, g k (f v) = f (g k v))
    (m : HashMap K V) : (m.adjust k f).mapVal g = (m.mapVal g).adjust k f := by
  apply mapVal_comm
  intro key v
  by_cases hk : key = k
  · simp only [hk, if_true]
    exact h v
  · simp only [if_neg hk]

theorem mem_adjust {m : HashMap K V} {k k' : K} {f : V → V} : k' ∈ m.adjust k f ↔ k' ∈ m := by
  simp only [mem_keys, keys_adjust]

theorem lookup_insert_eq (k k' : K) (v : V) (m : HashMap K V) :
    (m.insert k v).lookup k' = if k' = k then some v else m.lookup k' := by
  split
  · rename_i h
    rw [h, lookup_insert]
  · rename_i h
    exact lookup_insert_ne h

theorem lookup_erase_eq (k k' : K) (m : HashMap K V) :
    (m.erase k).lookup k' = if k' = k then none else m.lookup k' := by
  split
  · rename_i h
    rw [h, lookup_erase]
  · rename_i h
    exact lookup_erase_ne h

theorem lookup_of_lookup_erase {m : HashMap K V} {k k' : K} {v : V}
    (h : (m.erase k).lookup k' = some v) : k' ≠ k ∧ m.lookup k' = some v := by
  rw [lookup_erase_eq] at h
  split at h
  · cases h
  · rename_i hne
    exact ⟨hne,h⟩

theorem lookup_insert_of_value_ne {m : HashMap K V} {k k' : K} {v v' : V} (hfree : m.lookup k = none)
    (hne : v' ≠ v) : (m.insert k v).lookup k' = some v' ↔ m.lookup k' = some v' := by
  rw [lookup_insert_eq]
  split
  · rename_i hk
    rw [hk, hfree]
    simp [hne.symm]
  · rfl

theorem lookup_erase_of_value_ne {m : HashMap K V} {k k' : K} {v v' : V} (hold : m.lookup k = some v)
    (hne : v' ≠ v) : (m.erase k).lookup k' = some v' ↔ m.lookup k' = some v' := by
  rw [lookup_erase_eq]
  split
  · rename_i hk
    rw [hk, hold]
    simp [hne.symm]
  · rfl

theorem lookup_eraseAll (m : HashMap K V) (ks : List K) (k : K) :
    (m.eraseAll ks).lookup k = if k ∈ ks then none else m.lookup k := by
  unfold eraseAll
  induction ks generalizing m with
  | nil => simp
  | cons a ks ih =>
    rw [List.foldl_cons, ih, lookup_erase_eq]
    by_cases hk : k ∈ ks
    · simp [hk]
    · by_cases ha : k = a
      · simp [ha]
      · simp [hk, ha]

theorem mem_eraseAll {m : HashMap K V} {ks : List K} {k : K} : k ∈ m.eraseAll ks ↔ k ∈ m ∧ k ∉ ks := by
  rw [← lookup_isSome, lookup_eraseAll, ← lookup_isSome]
  by_cases hk : k ∈ ks
  · simp [hk]
  · simp [hk]

theorem lookup_extend (m m' : HashMap K V) (k : K) :
    (m.extend m').lookup k = (m'.lookup k).or (m.lookup k) := by
  unfold extend
  by_cases h : k ∈ m'
  · rw [lookup_union_left h]
    obtain ⟨v, hv⟩ := Option.isSome_iff_exists.mp (lookup_isSome.mpr h)
    rw [hv, Option.some_or]
  · rw [lookup_union_right h, lookup_eq_none.mpr h, Option.none_or]

theorem lookup_foldl_insert (f : K → V) (ks : List K) (m : HashMap K V) (k : K) :
    (ks.foldl (fun m k => m.insert k (f k)) m).lookup k =
      if k ∈ ks then some (f k) else m.lookup k := by
  induction ks generalizing m with
  | nil => simp
  | cons a ks ih =>
    rw [List.foldl_cons, ih, lookup_insert_eq]
    by_cases hk : k ∈ ks
    · simp [hk]
    · by_cases ha : k = a
      · simp [ha]
      · simp [hk, ha]

/-- Indexing a list of values by a key of theirs stores only values of the list. -/
theorem lookup_foldl_insert_key_some (key : V → K) {l : List V} {m : HashMap K V} {k : K} {v : V}
    (h : (l.foldl (fun m v => m.insert (key v) v) m).lookup k = some v) :
    (v ∈ l ∧ key v = k) ∨ m.lookup k = some v := by
  induction l generalizing m with
  | nil => exact Or.inr h
  | cons a l ih =>
    rcases ih h with ⟨hv,hk⟩ | hv
    · exact Or.inl ⟨List.mem_cons_of_mem _ hv,hk⟩
    · rw [lookup_insert_eq] at hv
      split at hv
      · rename_i hk
        cases hv
        exact Or.inl ⟨List.mem_cons_self,hk.symm⟩
      · exact Or.inr hv

theorem lookup_foldl_insert_key_isSome (key : V → K) {l : List V} {m : HashMap K V} {k : K}
    (h : (m.lookup k).isSome) : ((l.foldl (fun m v => m.insert (key v) v) m).lookup k).isSome := by
  induction l generalizing m with
  | nil => exact h
  | cons a l ih =>
    apply ih
    rw [lookup_insert_eq]
    split
    · rfl
    · exact h

theorem lookup_foldl_insert_key (key : V → K) {l : List V} {m : HashMap K V}
    (hinj : ∀ v ∈ l, ∀ v' ∈ l, key v = key v' → v = v') {v : V} (hv : v ∈ l) :
    (l.foldl (fun m v => m.insert (key v) v) m).lookup (key v) = some v := by
  induction l generalizing m with
  | nil => cases hv
  | cons a l ih =>
    rw [List.foldl_cons]
    by_cases hin : v ∈ l
    · exact ih (fun v hv v' hv' => hinj v (List.mem_cons_of_mem _ hv) v' (List.mem_cons_of_mem _ hv')) hin
    · obtain rfl := (List.mem_cons.mp hv).resolve_right hin
      have hsome : ((l.foldl (fun m v => m.insert (key v) v) (m.insert (key v) v)).lookup (key v)).isSome :=
        lookup_foldl_insert_key_isSome key (by rw [lookup_insert]; rfl)
      obtain ⟨v',hl⟩ := Option.isSome_iff_exists.mp hsome
      rcases lookup_foldl_insert_key_some key hl with ⟨hmem,hk⟩ | hold
      · exact absurd ((hinj v' (List.mem_cons_of_mem _ hmem) v hv hk) ▸ hmem) hin
      · rw [lookup_insert] at hold
        rw [hl, hold]

/-- Folding maps into an accumulator finds a value in one of them or in the accumulator. -/
theorem lookup_foldl_extend_some {ms : List (HashMap K V)} {m : HashMap K V} {k : K} {v : V}
    (h : (ms.foldl extend m).lookup k = some v) :
    (∃ m' ∈ ms, m'.lookup k = some v) ∨ m.lookup k = some v := by
  induction ms generalizing m with
  | nil => exact Or.inr h
  | cons a ms ih =>
    rcases ih h with ⟨m', hm', hv⟩ | hv
    · exact Or.inl ⟨m', List.mem_cons_of_mem _ hm', hv⟩
    · rw [lookup_extend, Option.or_eq_some_iff] at hv
      rcases hv with hv | ⟨_, hv⟩
      · exact Or.inl ⟨a, List.mem_cons_self, hv⟩
      · exact Or.inr hv

theorem lookup_foldl_extend_none {ms : List (HashMap K V)} {m : HashMap K V} {k : K} :
    (ms.foldl extend m).lookup k = none ↔ m.lookup k = none ∧ ∀ m' ∈ ms, m'.lookup k = none := by
  induction ms generalizing m with
  | nil => simp
  | cons a ms ih =>
    rw [List.foldl_cons, ih, lookup_extend, Option.or_eq_none_iff, List.forall_mem_cons]
    tauto

section
variable {K' : Type} [DecidableEq K'] {f : K → K'} {g : V → W}

omit [DecidableEq K] in
theorem lookup_foldl_rekey_some {l : List (Σ _ : K, V)} {d : HashMap K' W} {k' : K'} {w : W}
    (h : (l.foldl (fun d e => d.insert (f e.1) (g e.2)) d).lookup k' = some w) :
    (∃ e ∈ l, f e.1 = k' ∧ g e.2 = w) ∨ d.lookup k' = some w := by
  induction l generalizing d with
  | nil => exact Or.inr h
  | cons e l ih =>
    rcases ih h with ⟨e',he',hk⟩ | hd
    · exact Or.inl ⟨e',List.mem_cons_of_mem _ he',hk⟩
    · rw [lookup_insert_eq] at hd
      split at hd
      · rename_i hk
        exact Or.inl ⟨e,List.mem_cons_self,hk.symm,Option.some.inj hd⟩
      · exact Or.inr hd

omit [DecidableEq K] in
theorem lookup_foldl_rekey_isSome {l : List (Σ _ : K, V)} {d : HashMap K' W} {k' : K'}
    (h : (∃ e ∈ l, f e.1 = k') ∨ (d.lookup k').isSome) :
    ((l.foldl (fun d e => d.insert (f e.1) (g e.2)) d).lookup k').isSome := by
  induction l generalizing d with
  | nil => simpa using h
  | cons e l ih =>
    apply ih
    rw [lookup_insert_eq]
    by_cases hk : k' = f e.1
    · exact Or.inr (by simp [hk])
    · rcases h with ⟨e',he',hk'⟩ | hd
      · rcases List.mem_cons.mp he' with rfl | he'
        · exact absurd hk'.symm hk
        · exact Or.inl ⟨e',he',hk'⟩
      · exact Or.inr (by rwa [if_neg hk])

theorem lookup_rekey_some {m : HashMap K V} {k' : K'} {w : W} (h : (m.rekey f g).lookup k' = some w) :
    ∃ k v, m.lookup k = some v ∧ f k = k' ∧ g v = w := by
  rcases lookup_foldl_rekey_some h with ⟨⟨k,v⟩,he,hk,hw⟩ | hd
  · exact ⟨k,v,mem_entries_iff.mp he,hk,hw⟩
  · cases hd

/-- A renaming that keeps the keys of the map apart loses nothing. -/
theorem lookup_rekey {m : HashMap K V} {k : K} {v : V} (hv : m.lookup k = some v)
    (hinj : ∀ k₁ ∈ m, f k₁ = f k → k₁ = k) : (m.rekey f g).lookup (f k) = some (g v) := by
  have hsome : ((m.rekey f g).lookup (f k)).isSome :=
    lookup_foldl_rekey_isSome (Or.inl ⟨⟨k,v⟩,mem_entries_iff.mpr hv,rfl⟩)
  obtain ⟨w,hw⟩ := Option.isSome_iff_exists.mp hsome
  obtain ⟨k₁,v₁,hv₁,hk,rfl⟩ := lookup_rekey_some hw
  have he := hinj k₁ (mem_of_lookup hv₁) hk
  subst he
  rw [hv] at hv₁
  cases hv₁
  exact hw

end

end AList
