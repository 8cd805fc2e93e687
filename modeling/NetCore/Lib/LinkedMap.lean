import Mathlib.Data.List.Nodup

/-!
# Maps in insertion order

A map that lists its entries in the order in which their keys came.  A key that is there keeps its
place when it is put again.
-/

namespace NetCore.Lib

structure LinkedMap (κ ν : Type*) where
  entries : List (κ × ν)
  nodup : (entries.map Prod.fst).Nodup

namespace LinkedMap

variable {κ ν : Type*} [DecidableEq κ] {m : LinkedMap κ ν} {k : κ} {v : ν}

instance [DecidableEq ν] : DecidableEq (LinkedMap κ ν) := fun a b =>
  decidable_of_iff (a.entries = b.entries) (by cases a; cases b; simp)

omit [DecidableEq κ] in
theorem ext_entries {a b : LinkedMap κ ν} (h : a.entries = b.entries) : a = b := by
  cases a
  cases b
  simpa using h

def empty : LinkedMap κ ν := ⟨[], List.nodup_nil⟩

def keys (m : LinkedMap κ ν) : List κ := m.entries.map Prod.fst

def get (m : LinkedMap κ ν) (k : κ) : Option ν :=
  (m.entries.find? fun entry => entry.1 = k).map Prod.snd

def put (m : LinkedMap κ ν) (k : κ) (v : ν) : LinkedMap κ ν :=
  if h : k ∈ m.keys then
    { entries := m.entries.map fun entry => (entry.1, if entry.1 = k then v else entry.2)
      nodup := by
        rw [List.map_map]
        exact m.nodup }
  else
    { entries := m.entries ++ [(k, v)]
      nodup := by
        rw [List.map_append]
        refine m.nodup.append (List.nodup_singleton _) fun x hx hk => ?_
        rw [List.mem_singleton.mp hk] at hx
        exact h hx }

def remove (m : LinkedMap κ ν) (k : κ) : LinkedMap κ ν where
  entries := m.entries.filter fun entry => entry.1 ≠ k
  nodup := m.nodup.sublist ((List.filter_sublist (l := m.entries)).map Prod.fst)

/-! ## What each operation leaves -/

theorem put_absent (h : k ∉ m.keys) : (m.put k v).entries = m.entries ++ [(k, v)] := by
  unfold put
  rw [dif_neg h]

theorem mem_put {entry : κ × ν} (h : entry ∈ (m.put k v).entries) :
    entry = (k, v) ∨ entry ∈ m.entries := by
  unfold put at h
  split at h
  · obtain ⟨old, hold, rfl⟩ := List.mem_map.mp h
    by_cases hk : old.1 = k
    · exact .inl (by rw [if_pos hk, hk])
    · exact .inr (by rw [if_neg hk]; exact hold)
  · exact (List.mem_append.mp h).symm.imp_left List.mem_singleton.mp

theorem mem_remove {entry : κ × ν} (h : entry ∈ (m.remove k).entries) : entry ∈ m.entries :=
  List.mem_of_mem_filter h

def putAll (m : LinkedMap κ ν) (entries : List (κ × ν)) : LinkedMap κ ν :=
  entries.foldl (fun m entry => m.put entry.1 entry.2) m

-- Entries with new keys come out in their order.
theorem putAll_entries {entries : List (κ × ν)}
    (h : ((m.entries ++ entries).map Prod.fst).Nodup) :
    (m.putAll entries).entries = m.entries ++ entries := by
  induction entries generalizing m with
  | nil => exact (List.append_nil _).symm
  | cons entry entries ih =>
    have habsent : entry.1 ∉ m.keys := by
      intro hmem
      rw [List.map_append, List.nodup_append] at h
      exact h.2.2 _ hmem _ (List.mem_map_of_mem List.mem_cons_self) rfl
    have hput : (m.put entry.1 entry.2).entries = m.entries ++ [entry] := put_absent habsent
    show ((m.put entry.1 entry.2).putAll entries).entries = _
    rw [ih (by rw [hput, List.append_assoc]; exact h), hput, List.append_assoc]
    rfl

-- A map is made of its entries.
theorem putAll_empty (m : LinkedMap κ ν) : empty.putAll m.entries = m :=
  ext_entries (putAll_entries m.nodup)

end LinkedMap

end NetCore.Lib
