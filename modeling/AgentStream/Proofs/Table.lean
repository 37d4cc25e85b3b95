/-
# Lookups in tables

A table is a list of keys with values, of which the first one under a key counts.

* `lookup_cons_ite` : one more row in front;
* `lookup_filter_ne` : a table without the rows of a key;
* `lookup_concat` : one more row behind;
* `mem_of_lookup`, `mem_iff_lookup` : what is found is a row, and the other way round where every
  key stands once.
-/

namespace AgentStream

variable {κ α : Type} [BEq κ] [LawfulBEq κ] [DecidableEq κ]

theorem lookup_cons_ite (k : κ) (a : α) (table : List (κ × α)) (key : κ) :
    ((k, a) :: table).lookup key = if key = k then some a else table.lookup key := by
  rw [List.lookup_cons]
  by_cases h : key = k
  · rw [if_pos h, beq_iff_eq.2 h]
  · rw [if_neg h, beq_eq_false_iff_ne.2 h]

theorem lookup_filter_ne (k : κ) (table : List (κ × α)) (key : κ) :
    (table.filter fun (k', _) => k' != k).lookup key
      = if key = k then none else table.lookup key := by
  induction table with
  | nil => split <;> rfl
  | cons x table ih =>
    by_cases hx : x.1 = k
    · have hdrop : (x.1 != k) = false := bne_eq_false_iff_eq.2 hx
      rw [List.filter_cons_of_neg (by simp [hdrop]), ih, lookup_cons_ite]
      split
      · rfl
      · rename_i hk
        rw [if_neg fun h => hk (h.trans hx)]
    · have hkeep : (x.1 != k) = true := bne_iff_ne.2 hx
      rw [List.filter_cons_of_pos (by exact hkeep), lookup_cons_ite, lookup_cons_ite, ih]
      by_cases hk : key = x.1
      · rw [if_pos hk, if_pos hk, if_neg fun h => hx (hk.symm.trans h)]
      · rw [if_neg hk, if_neg hk]

/-- A new key is found in a row behind the others, which are found as before. -/
theorem lookup_concat {k : κ} {table : List (κ × α)} (hn : table.lookup k = none) (a : α)
    (key : κ) :
    (table ++ [(k, a)]).lookup key = if key = k then some a else table.lookup key := by
  rw [List.lookup_append, lookup_cons_ite]
  split
  · rename_i hk
    rw [hk, hn, Option.none_or]
  · rw [List.lookup_nil, Option.or_none]

omit [DecidableEq κ] in
/-- What is found is a row. -/
theorem mem_of_lookup {k : κ} {a : α} {table : List (κ × α)} (h : table.lookup k = some a) :
    (k, a) ∈ table := by
  obtain ⟨front, behind, rfl, -⟩ := List.lookup_eq_some_iff.1 h
  exact List.mem_append_right _ List.mem_cons_self

omit [DecidableEq κ] in
/-- In a table in which every key stands once, the rows are what is found. -/
theorem mem_iff_lookup {k : κ} {a : α} {table : List (κ × α)}
    (hd : (table.map Prod.fst).Nodup) : (k, a) ∈ table ↔ table.lookup k = some a := by
  constructor
  · intro h
    obtain ⟨front, behind, rfl⟩ := List.append_of_mem h
    rw [List.lookup_eq_some_iff]
    refine ⟨front, behind, rfl, fun x hx => bne_iff_ne.2 fun hk => ?_⟩
    rw [List.map_append, List.nodup_append] at hd
    exact hd.2.2 x.1 (List.mem_map_of_mem hx) k List.mem_cons_self hk.symm
  · exact mem_of_lookup

omit [DecidableEq κ] in
theorem nodup_concat {k : κ} {table : List (κ × α)} (hd : (table.map Prod.fst).Nodup)
    (hn : table.lookup k = none) (a : α) : ((table ++ [(k, a)]).map Prod.fst).Nodup := by
  rw [List.map_append, List.nodup_append]
  refine ⟨hd, List.pairwise_singleton _ k, fun key hkey key' hkey' he => ?_⟩
  obtain rfl : key' = k := List.mem_singleton.1 hkey'
  obtain ⟨x, hx, rfl⟩ := List.mem_map.1 hkey
  have hlookup : table.lookup x.1 = some x.2 := (mem_iff_lookup hd).1 hx
  rw [he, hn] at hlookup
  cases hlookup

omit [DecidableEq κ] in
/-- Where every key stands once, no row is found by what it holds if nothing like it is found by
its key. -/
theorem find?_eq_none_iff_lookup {table : List (κ × α)} (hd : (table.map Prod.fst).Nodup)
    (p : α → Bool) :
    (table.find? fun x => p x.2) = none ↔ ∀ k a, table.lookup k = some a → p a = false := by
  rw [List.find?_eq_none]
  constructor
  · intro h k a hl
    exact Bool.eq_false_iff.2 (h (k, a) ((mem_iff_lookup hd).2 hl))
  · intro h x hx
    exact Bool.eq_false_iff.1 (h x.1 x.2 ((mem_iff_lookup hd).1 hx))

end AgentStream
