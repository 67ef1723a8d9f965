/-!
# Entries by name

A list of named entries in the order in which the names were first set.  Setting a name that is there
replaces its entry in place, so `lookup` sees the latest value and the order of names never changes.
-/

namespace SdkBindings.Entries

variable {α : Type}

/-- Gives a name a value, in place of the one it may have. -/
def set (name : String) (value : α) : List (String × α) → List (String × α)
  | [] => [(name, value)]
  | (n, v) :: rest => if n = name then (n, value) :: rest else (n, v) :: set name value rest

/-- After a name is set it has the new value, and every other name the one it had. -/
theorem lookup_set (name : String) (value : α) (m : String) (entries : List (String × α)) :
    (set name value entries).lookup m = if m = name then some value else entries.lookup m := by
  induction entries with
  | nil =>
    by_cases h : m = name
    · simp [set, h]
    · have hb : (m == name) = false := by simpa using h
      simp [set, List.lookup_cons, h, hb]
  | cons entry rest ih =>
    obtain ⟨n, v⟩ := entry
    by_cases hn : n = name
    · subst hn
      by_cases h : m = n
      · simp [set, h]
      · have hb : (m == n) = false := by simpa using h
        simp [set, List.lookup_cons, h, hb]
    · by_cases hm : m = n
      · subst hm
        simp [set, hn]
      · have hb : (m == n) = false := by simpa using hm
        simp [set, List.lookup_cons, hn, hb, ih]

/-- The names stay in their order; a new one comes last. -/
theorem map_fst_set (name : String) (value : α) (entries : List (String × α)) :
    (set name value entries).map Prod.fst =
      if name ∈ entries.map Prod.fst then entries.map Prod.fst
      else entries.map Prod.fst ++ [name] := by
  induction entries with
  | nil => simp [set]
  | cons entry rest ih =>
    obtain ⟨n, v⟩ := entry
    by_cases hn : n = name
    · subst hn
      simp [set]
    · have hne : name ≠ n := fun h => hn h.symm
      rw [set, if_neg hn, List.map_cons, ih, List.map_cons]
      by_cases hmem : name ∈ rest.map Prod.fst
      · rw [if_pos hmem, if_pos (List.mem_cons_of_mem _ hmem)]
      · rw [if_neg hmem, if_neg (by simp only [List.mem_cons, not_or]; exact ⟨hne, hmem⟩),
          List.cons_append]

/-- A name that is not there gets an entry behind the others. -/
theorem set_of_not_mem {name : String} (value : α) {entries : List (String × α)}
    (h : name ∉ entries.map Prod.fst) : set name value entries = entries ++ [(name, value)] := by
  induction entries with
  | nil => rfl
  | cons entry rest ih =>
    obtain ⟨n, v⟩ := entry
    rw [List.map_cons, List.mem_cons, not_or] at h
    rw [set, if_neg fun hn => h.1 hn.symm, ih h.2, List.cons_append]

/-- Where no name occurs twice, the value of a name is the one that it occurs with. -/
theorem lookup_eq_some_iff {entries : List (String × α)} (h : (entries.map Prod.fst).Nodup)
    (name : String) (value : α) :
    entries.lookup name = some value ↔ (name, value) ∈ entries := by
  induction entries with
  | nil => exact iff_of_false nofun List.not_mem_nil
  | cons entry rest ih =>
    obtain ⟨n, v⟩ := entry
    rw [List.map_cons, List.nodup_cons] at h
    rw [List.lookup_cons, List.mem_cons]
    by_cases hn : name = n
    · subst hn
      have hrest : (name, value) ∉ rest := fun hmem => h.1 (List.mem_map.mpr ⟨_, hmem, rfl⟩)
      simp [hrest, eq_comm]
    · have hb : (name == n) = false := by simpa using hn
      simp [hb, hn, ih h.2]

end SdkBindings.Entries
