import Mathlib.Data.List.Induction
import PlanningDomain.Domain.Build
import PlanningDomain.Proofs.Domain.NameMap

/-! Parameters made from pairs. Main statements: the names come in the order of their first pairs
and each has the type of its last pair; parameters with distinct names and a type for exactly these
are made from their own pairs. -/
namespace PlanningDomain.Params

private theorem ofPairs_concat (pairs : List (String × String)) (pair : String × String) :
    ofPairs (pairs ++ [pair]) = (ofPairs pairs).push pair.1 pair.2 := by
  simp [ofPairs]

structure Settled (p : Params) : Prop where
  nodup : p.names.Nodup
  mem_iff : ∀ name, name ∈ p.names ↔ name ∈ p.types.keys

theorem settled_empty : empty.Settled :=
  ⟨List.nodup_nil, fun _ => Iff.rfl⟩

private theorem Settled.push {p : Params} (h : p.Settled) (name type : String) :
    (p.push name type).Settled := by
  have hkeys (key : String) :
      key ∈ (p.types.insert name type).keys ↔ key = name ∨ key ∈ p.names := by
    rw [NameMap.mem_keys_iff, NameMap.get?_insert, h.mem_iff, NameMap.mem_keys_iff]
    split <;> simp [*]
  by_cases hname : (p.types.get? name).isSome
  · have hmem : name ∈ p.names := (h.mem_iff name).2 (NameMap.mem_keys_iff.2 hname)
    rw [Params.push, if_pos hname]
    refine ⟨h.nodup, fun key => ?_⟩
    rw [hkeys]
    exact ⟨.inr, fun hkey => hkey.elim (· ▸ hmem) id⟩
  · have hmem : name ∉ p.names := fun hmem =>
      hname (NameMap.mem_keys_iff.1 ((h.mem_iff name).1 hmem))
    rw [Params.push, if_neg hname]
    refine ⟨?_, fun key => ?_⟩
    · simpa [List.nodup_append] using ⟨h.nodup, fun key hkey heq => hmem (heq ▸ hkey)⟩
    · rw [hkeys, List.mem_append, List.mem_singleton, or_comm]

theorem settled_ofPairs (pairs : List (String × String)) : (ofPairs pairs).Settled := by
  induction pairs using List.reverseRecOn with
  | nil => exact settled_empty
  | append_singleton pairs pair ih =>
    rw [ofPairs_concat]
    exact ih.push pair.1 pair.2

private theorem eraseDups_concat (names : List String) (name : String) :
    (names ++ [name]).eraseDups =
      if name ∈ names then names.eraseDups else names.eraseDups ++ [name] := by
  rw [List.eraseDups_append, List.cons_removeAll]
  by_cases h : name ∈ names <;> simp [h, List.eraseDups_cons]

theorem ofPairs_eq (pairs : List (String × String)) :
    ofPairs pairs = ⟨(pairs.map Prod.fst).eraseDups, .ofList pairs⟩ := by
  induction pairs using List.reverseRecOn with
  | nil => rfl
  | append_singleton pairs pair ih =>
    rw [ofPairs_concat, ih, push, NameMap.ofList_concat, List.map_append, List.map_singleton,
      eraseDups_concat]
    simp only [NameMap.isSome_get?_ofList]

theorem mem_names_ofPairs {pairs : List (String × String)} {name : String} :
    name ∈ (ofPairs pairs).names ↔ name ∈ pairs.map Prod.fst := by
  rw [ofPairs_eq, List.mem_eraseDups]

theorem eraseDups_of_nodup {names : List String} (h : names.Nodup) :
    names.eraseDups = names := by
  induction names using List.reverseRecOn with
  | nil => rfl
  | append_singleton names name ih =>
    rw [List.nodup_append] at h
    have hname : name ∉ names := fun hmem => h.2.2 name hmem name List.mem_cons_self rfl
    rw [eraseDups_concat, ih h.1, if_neg hname]

theorem pairwise_idxOf_eraseDups (names : List String) :
    names.eraseDups.Pairwise fun a b => names.idxOf a < names.idxOf b := by
  induction names using List.reverseRecOn with
  | nil => exact .nil
  | append_singleton names name ih =>
    have hfirst : ∀ a ∈ names.eraseDups, (names ++ [name]).idxOf a = names.idxOf a := by
      intro a ha
      rw [List.idxOf_append, if_pos (List.mem_eraseDups.1 ha)]
    have hkept : names.eraseDups.Pairwise fun a b =>
        (names ++ [name]).idxOf a < (names ++ [name]).idxOf b := by
      refine ih.imp_of_mem fun {a b} ha hb hlt => ?_
      rwa [hfirst a ha, hfirst b hb]
    rw [eraseDups_concat]
    split
    · exact hkept
    · rename_i hname
      refine List.pairwise_append.2 ⟨hkept, List.pairwise_singleton _ _, fun a ha b hb => ?_⟩
      obtain rfl := List.mem_singleton.1 hb
      rw [hfirst a ha, List.idxOf_append, if_neg hname]
      have hlt := List.idxOf_lt_length_iff.2 (List.mem_eraseDups.1 ha)
      omega

private theorem lookup_map_mk (names : List String) (f : String → String) (key : String) :
    (names.map fun name => (name, f name)).lookup key =
      if key ∈ names then some (f key) else none := by
  induction names with
  | nil => rfl
  | cons name names ih =>
    rw [List.map_cons, NameMap.lookup_pair_cons, ih]
    by_cases hname : key = name <;> simp [hname]

theorem map_fst_pairs (p : Params) : p.pairs.map Prod.fst = p.names := by
  simp [pairs, Function.comp_def]

/-- Where names and types agree, the types are those of the pairs. -/
theorem ofList_pairs {p : Params} (h : ∀ name, name ∈ p.names ↔ name ∈ p.types.keys) :
    NameMap.ofList p.pairs = p.types := by
  refine NameMap.ext_get? fun key => ?_
  rw [NameMap.get?_ofList, pairs, ← List.map_reverse, lookup_map_mk]
  simp only [List.mem_reverse, h, NameMap.mem_keys_iff, typeOf]
  cases p.types.get? key <;> simp

theorem Settled.ofPairs_pairs {p : Params} (h : p.Settled) : ofPairs p.pairs = p := by
  rw [ofPairs_eq, map_fst_pairs, eraseDups_of_nodup h.nodup, ofList_pairs h.mem_iff]

end PlanningDomain.Params
