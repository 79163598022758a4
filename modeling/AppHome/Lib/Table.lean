import Mathlib

/-!
# Tables with a primary key

`Table key` is a list of rows no two of which have the same key. It serves both as an SQL table and
as a hash map (rows `(k, v)`, key `Prod.fst`):

* `find?` : the row of a key, characterized by membership (`find?_eq_some`, `find?_eq_none`);
* `insert?` : refused when the key is taken (a primary key conflict);
* `put` : the row of a key replaced, or added (a map's `insert`);
* `filter` : the rows that satisfy a condition (a map's `retain`, an SQL `DELETE` of the others);
* `modify` : an `UPDATE` of columns other than the key.
-/

/-- Rows with pairwise different keys. -/
structure Table {ρ κ : Type} (key : ρ → κ) where
  rows : List ρ
  nodup : (rows.map key).Nodup

namespace Table
variable {ρ κ : Type} {key : ρ → κ}

def empty : Table key := ⟨[], List.nodup_nil⟩

/-- The rows that satisfy `p`. -/
def filter (t : Table key) (p : ρ → Bool) : Table key :=
  ⟨t.rows.filter p, t.nodup.sublist (List.filter_sublist.map key)⟩

/-- Every row rewritten by a function that leaves the key alone. -/
def modify (t : Table key) (f : ρ → ρ) (hf : ∀ r, key (f r) = key r) : Table key :=
  ⟨t.rows.map f, by simpa only [List.map_map, Function.comp_def, hf] using t.nodup⟩

@[simp] theorem mem_filter {t : Table key} {p : ρ → Bool} {r : ρ} :
    r ∈ (t.filter p).rows ↔ r ∈ t.rows ∧ p r = true := List.mem_filter

theorem eq_of_key {t : Table key} {r r' : ρ} (hr : r ∈ t.rows) (hr' : r' ∈ t.rows)
    (h : key r = key r') : r = r' := List.inj_on_of_nodup_map t.nodup hr hr' h

variable [DecidableEq κ]

/-- Of rows with different keys, all but those whose keys are `taken` stay. -/
theorem length_filter_not_taken {rows : List ρ} {taken : List κ} (hnodup : (rows.map key).Nodup)
    (htaken : taken.Nodup) (hsub : taken ⊆ rows.map key) :
    (rows.filter fun r => !taken.contains (key r)).length + taken.length = rows.length := by
  have hperm : List.Perm ((rows.map key).filter fun k => taken.contains k) taken := by
    refine (List.perm_ext_iff_of_nodup (hnodup.filter _) htaken).mpr fun k => ?_
    simp only [List.mem_filter, List.contains_iff_mem]
    exact ⟨fun h => h.2, fun h => ⟨hsub h, h⟩⟩
  have hsplit := (rows.map key).length_eq_length_filter_add fun k => taken.contains k
  rw [hperm.length_eq, List.length_map, List.filter_map, List.length_map] at hsplit
  rw [hsplit, Nat.add_comm]
  rfl

/-- The row with key `k`. -/
def find? (t : Table key) (k : κ) : Option ρ := t.rows.find? fun r => key r = k

/-- A new row, unless its key is taken. -/
def insert? (t : Table key) (r : ρ) : Option (Table key) :=
  if h : key r ∈ t.rows.map key then none
  else some ⟨t.rows ++ [r], by
    rw [List.map_append, List.nodup_append]
    refine ⟨t.nodup, List.nodup_singleton _, fun a ha b hb => ?_⟩
    rw [List.map_singleton, List.mem_singleton] at hb
    rintro rfl
    exact h (hb ▸ ha)⟩

/-- The row with the key of `r` becomes `r`. -/
def put (t : Table key) (r : ρ) : Table key :=
  ⟨r :: t.rows.filter fun r' => key r' ≠ key r, by
    rw [List.map_cons, List.nodup_cons]
    refine ⟨fun h => ?_, t.nodup.sublist (List.filter_sublist.map key)⟩
    obtain ⟨r', hr', hk⟩ := List.mem_map.mp h
    simpa [hk] using (List.mem_filter.mp hr').2⟩

theorem find?_eq_some {t : Table key} {k : κ} {r : ρ} :
    t.find? k = some r ↔ r ∈ t.rows ∧ key r = k := by
  constructor
  · intro h
    exact ⟨List.mem_of_find?_eq_some h, by simpa using List.find?_some h⟩
  · rintro ⟨hr, rfl⟩
    cases h : t.find? (key r) with
    | none => simpa using List.find?_eq_none.mp h r hr
    | some r' =>
        have hk : key r' = key r := by simpa using List.find?_some h
        rw [eq_of_key (List.mem_of_find?_eq_some h) hr hk]

theorem find?_eq_none {t : Table key} {k : κ} : t.find? k = none ↔ ∀ r ∈ t.rows, key r ≠ k := by
  simp [find?]

theorem insert?_eq_some {t t' : Table key} {r : ρ} (h : t.insert? r = some t') :
    (∀ r' ∈ t.rows, key r' ≠ key r) ∧ t'.rows = t.rows ++ [r] := by
  unfold insert? at h
  split at h
  · cases h
  · rename_i hk
    cases h
    exact ⟨fun r' hr' he => hk (he ▸ List.mem_map_of_mem hr'), rfl⟩

theorem insert?_of_fresh {t : Table key} {r : ρ} (h : ∀ r' ∈ t.rows, key r' ≠ key r) :
    ∃ t', t.insert? r = some t' ∧ t'.rows = t.rows ++ [r] := by
  have hk : key r ∉ t.rows.map key := by
    intro hm
    obtain ⟨r', hr', he⟩ := List.mem_map.mp hm
    exact h r' hr' he
  exact ⟨_, by rw [insert?, dif_neg hk], rfl⟩

theorem mem_put {t : Table key} {r r' : ρ} :
    r' ∈ (t.put r).rows ↔ r' = r ∨ r' ∈ t.rows ∧ key r' ≠ key r := by
  simp [put]

theorem find?_put (t : Table key) (r : ρ) (k : κ) :
    (t.put r).find? k = if key r = k then some r else t.find? k := by
  by_cases h : key r = k
  · rw [if_pos h, find?_eq_some, mem_put]
    exact ⟨Or.inl rfl, h⟩
  · rw [if_neg h]
    cases hf : t.find? k with
    | none =>
        rw [find?_eq_none] at hf ⊢
        intro r' hr'
        rcases mem_put.mp hr' with rfl | ⟨hr', -⟩
        · exact h
        · exact hf r' hr'
    | some r' =>
        rw [find?_eq_some] at hf ⊢
        exact ⟨mem_put.mpr (Or.inr ⟨hf.1, by rw [hf.2]; exact Ne.symm h⟩), hf.2⟩

theorem find?_filter (t : Table key) (p : ρ → Bool) (k : κ) :
    (t.filter p).find? k = (t.find? k).filter p := by
  cases hf : t.find? k with
  | none =>
      rw [find?_eq_none] at hf
      rw [Option.filter_none, find?_eq_none]
      exact fun r hr => hf r (mem_filter.mp hr).1
  | some r =>
      obtain ⟨hr, hk⟩ := find?_eq_some.mp hf
      cases hp : p r with
      | true =>
          rw [Option.filter_some, if_pos hp]
          exact find?_eq_some.mpr ⟨mem_filter.mpr ⟨hr, hp⟩, hk⟩
      | false =>
          rw [Option.filter_some, if_neg (by rw [hp]; decide), find?_eq_none]
          intro r' hr' hk'
          obtain ⟨hr', hp'⟩ := mem_filter.mp hr'
          rw [eq_of_key hr' hr (hk'.trans hk.symm), hp] at hp'
          cases hp'

theorem find?_erase (t : Table key) (k k' : κ) :
    (t.filter fun r => key r ≠ k).find? k' = if k' = k then none else t.find? k' := by
  rw [find?_filter]
  cases hf : t.find? k' with
  | none => simp
  | some r =>
      have hk : key r = k' := (find?_eq_some.mp hf).2
      by_cases h : k' = k
      · simp [hk, h]
      · simp [hk, h]

end Table
