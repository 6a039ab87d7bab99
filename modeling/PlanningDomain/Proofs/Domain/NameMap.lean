import PlanningDomain.Domain

/-! Maps as functions. Main statements: equal look-ups make equal maps, and in a map made of pairs
the last pair of a name counts. -/
namespace PlanningDomain.NameMap

theorem lookup_pair_cons (name value key : String) (es : List (String × String)) :
    ((name, value) :: es).lookup key = if key = name then some value else es.lookup key := by
  rw [List.lookup_cons]
  by_cases h : key = name
  · simp [h]
  · simp [h, beq_eq_false_iff_ne.2 h]

theorem isSome_lookup_iff {es : List (String × String)} {key : String} :
    (es.lookup key).isSome ↔ key ∈ es.map Prod.fst := by
  simp only [List.lookup_isSome_iff, List.mem_map, beq_iff_eq]
  constructor
  · rintro ⟨e, he, rfl⟩
    exact ⟨e, he, rfl⟩
  · rintro ⟨e, he, rfl⟩
    exact ⟨e, he, rfl⟩

private theorem lookup_insertEntry (name value key : String) (es : List (String × String)) :
    (insertEntry name value es).lookup key =
      if key = name then some value else es.lookup key := by
  induction es with
  | nil => rw [insertEntry, lookup_pair_cons]
  | cons e es ih =>
    obtain ⟨first, old⟩ := e
    simp only [insertEntry]
    split
    · rw [lookup_pair_cons]
    · split
      · rename_i heq
        subst heq
        rw [lookup_pair_cons, lookup_pair_cons]
        split <;> rfl
      · rename_i hne
        rw [lookup_pair_cons, lookup_pair_cons, ih]
        by_cases hfirst : key = first
        · subst hfirst
          simp [Ne.symm hne]
        · simp [hfirst]

@[simp] theorem get?_empty (key : String) : empty.get? key = none := rfl

theorem get?_insert (m : NameMap) (name value key : String) :
    (m.insert name value).get? key = if key = name then some value else m.get? key :=
  lookup_insertEntry name value key m.entries

theorem mem_keys_iff {m : NameMap} {key : String} : key ∈ m.keys ↔ (m.get? key).isSome :=
  isSome_lookup_iff.symm

private theorem lookup_eq_some_iff_mem {es : List (String × String)}
    (h : es.Pairwise (·.1 < ·.1)) {key value : String} :
    es.lookup key = some value ↔ (key, value) ∈ es := by
  induction es with
  | nil => simp
  | cons e es ih =>
    obtain ⟨first, parent⟩ := e
    obtain ⟨hlt, hes⟩ := List.pairwise_cons.1 h
    rw [lookup_pair_cons]
    by_cases hkey : key = first
    · subst hkey
      have hnot : (key, value) ∉ es := fun hmem => String.lt_irrefl key (hlt (key, value) hmem)
      simp [hnot, eq_comm]
    · simp [hkey, ih hes]

theorem mem_entries_iff {m : NameMap} {key value : String} :
    (key, value) ∈ m.entries ↔ m.get? key = some value :=
  (lookup_eq_some_iff_mem m.increasing).symm

theorem ext_get? {m n : NameMap} (h : ∀ key, m.get? key = n.get? key) : m = n := by
  have hnodup (k : NameMap) : k.entries.Nodup := by
    apply k.increasing.imp
    rintro a b hlt rfl
    exact String.lt_irrefl _ hlt
  have hperm : m.entries.Perm n.entries := by
    refine (List.perm_ext_iff_of_nodup (hnodup m) (hnodup n)).2 ?_
    rintro ⟨key, value⟩
    rw [mem_entries_iff, mem_entries_iff, h]
  have hentries : m.entries = n.entries := by
    refine hperm.eq_of_pairwise ?_ m.increasing n.increasing
    intro a b _ _ hab hba
    exact absurd (String.lt_trans hab hba) (String.lt_irrefl _)
  cases m
  cases n
  cases hentries
  rfl

private theorem get?_foldl_insert (pairs : List (String × String)) (m : NameMap) (key : String) :
    (pairs.foldl (fun m e => m.insert e.1 e.2) m).get? key =
      (pairs.reverse.lookup key).or (m.get? key) := by
  induction pairs generalizing m with
  | nil => rfl
  | cons pair pairs ih =>
    obtain ⟨name, value⟩ := pair
    rw [List.foldl_cons, ih, get?_insert, List.reverse_cons, List.lookup_append, Option.or_assoc,
      lookup_pair_cons]
    by_cases hkey : key = name <;> simp [hkey]

/-- What a map says of a name once pairs were put into it: the last pair of the name, or else what
it said before. -/
theorem get?_foldl_insert_eq_some_iff {pairs : List (String × String)} {m : NameMap}
    {key value : String} :
    (pairs.foldl (fun m e => m.insert e.1 e.2) m).get? key = some value ↔
      (∃ front back, pairs = front ++ (key, value) :: back ∧ key ∉ back.map Prod.fst) ∨
        key ∉ pairs.map Prod.fst ∧ m.get? key = some value := by
  have hlast : pairs.reverse.lookup key = some value ↔
      ∃ front back, pairs = front ++ (key, value) :: back ∧ key ∉ back.map Prod.fst := by
    have hfree (es : List (String × String)) :
        key ∉ es.map Prod.fst ↔ ∀ e ∈ es, (key != e.1) = true := by
      simp only [List.mem_map, not_exists, not_and, bne_iff_ne, ne_comm, ne_eq]
    rw [List.lookup_eq_some_iff]
    constructor
    · rintro ⟨back, front, heq, hback⟩
      refine ⟨front.reverse, back.reverse, ?_, (hfree _).2 fun e he => ?_⟩
      · rw [← List.reverse_reverse pairs, heq]
        simp
      · exact hback e (List.mem_reverse.1 he)
    · rintro ⟨front, back, rfl, hback⟩
      refine ⟨back.reverse, front.reverse, by simp, fun e he => ?_⟩
      exact (hfree back).1 hback e (List.mem_reverse.1 he)
  have hnone : pairs.reverse.lookup key = none ↔ key ∉ pairs.map Prod.fst := by
    rw [← List.mem_reverse, ← List.map_reverse, ← isSome_lookup_iff, Option.not_isSome_iff_eq_none]
  rw [get?_foldl_insert, Option.or_eq_some_iff, hlast, hnone]

/-- Pairs put in twice are pairs put in once. -/
theorem foldl_insert_foldl_insert (pairs : List (String × String)) (m : NameMap) :
    pairs.foldl (fun m e => m.insert e.1 e.2) (pairs.foldl (fun m e => m.insert e.1 e.2) m) =
      pairs.foldl (fun m e => m.insert e.1 e.2) m := by
  refine ext_get? fun key => ?_
  simp only [get?_foldl_insert]
  rw [← Option.or_assoc, Option.or_self]

/-- The last pair of a name counts. -/
theorem get?_ofList (pairs : List (String × String)) (key : String) :
    (ofList pairs).get? key = pairs.reverse.lookup key := by
  rw [ofList, get?_foldl_insert, get?_empty, Option.or_none]

theorem ofList_concat (pairs : List (String × String)) (pair : String × String) :
    ofList (pairs ++ [pair]) = (ofList pairs).insert pair.1 pair.2 := by
  simp [ofList]

theorem isSome_get?_ofList {pairs : List (String × String)} {key : String} :
    ((ofList pairs).get? key).isSome ↔ key ∈ pairs.map Prod.fst := by
  rw [get?_ofList, isSome_lookup_iff, List.map_reverse, List.mem_reverse]

/-- Every entry of a map with pairs put into it is one of the pairs or was there before. -/
theorem mem_entries_foldl_insert {pairs : List (String × String)} {m : NameMap}
    {e : String × String} (h : e ∈ (pairs.foldl (fun m e => m.insert e.1 e.2) m).entries) :
    e ∈ pairs ∨ e ∈ m.entries := by
  obtain ⟨key, value⟩ := e
  rw [mem_entries_iff, get?_foldl_insert, Option.or_eq_some_iff] at h
  rcases h with h | ⟨-, h⟩
  · left
    obtain ⟨front, back, heq, -⟩ := List.lookup_eq_some_iff.1 h
    rw [← List.mem_reverse, heq]
    simp
  · exact .inr (mem_entries_iff.2 h)

theorem mem_of_mem_entries_ofList {pairs : List (String × String)} {e : String × String}
    (h : e ∈ (ofList pairs).entries) : e ∈ pairs :=
  (mem_entries_foldl_insert h).resolve_right (by simp [empty])

private theorem lookup_reverse {es : List (String × String)} (h : es.Pairwise (·.1 < ·.1))
    (key : String) : es.reverse.lookup key = es.lookup key := by
  induction es with
  | nil => rfl
  | cons e es ih =>
    obtain ⟨first, value⟩ := e
    obtain ⟨hlt, hes⟩ := List.pairwise_cons.1 h
    rw [List.reverse_cons, List.lookup_append, ih hes, lookup_pair_cons, lookup_pair_cons]
    by_cases hkey : key = first
    · subst hkey
      have hnone : es.lookup key = none := by
        rw [List.lookup_eq_none_iff]
        intro e he
        simpa using (fun heq => String.lt_irrefl _ (heq ▸ hlt e he) : ¬ key = e.1)
      simp [hnone]
    · simp [hkey]

theorem ofList_entries (m : NameMap) : ofList m.entries = m :=
  ext_get? fun key => by rw [get?_ofList, lookup_reverse m.increasing, get?]

end PlanningDomain.NameMap
