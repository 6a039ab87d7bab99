import PlanningDomain.Proofs.Syntax.Explains

/-! How readers that explain their failures are put together. One that cannot read on behind a word
can stand in front of any other; one that at least stops at a closing parenthesis has to stand
between parentheses. -/
namespace PlanningDomain

open scoped Computability

def only (t : Token) : Language Token := single (· = t)

def Token.hasText : Token → Bool
  | keyword _ | var _ | name _ => true
  | _ => false

/-- A token without a text is the only one of its label. -/
private theorem eq_iff_calledBy {t : Token} (h : t.hasText = false) (u : Token) :
    u = t ↔ u.CalledBy t.label := by
  cases t <;> cases u <;> simp_all [Token.hasText, Token.CalledBy, Token.label]

namespace Reader
variable {α β : Type} {l m : Language Token}

structure Encloses (r : Reader α) (l : Language Token) : Prop where
  explains : r.Explains l
  stops : Stops l .closeParen
  viable_nil : Viable l []

structure Delimits (r : Reader α) (l : Language Token) : Prop where
  explains : r.Explains l
  prefixFree : PrefixFree l
  viable_nil : Viable l []

theorem delimits_one {label : String} {accept : Token → Option α} {kind : Token → Prop}
    (hkind : ∀ t, (accept t).isSome ↔ kind t) (hlabel : ∀ t, kind t ↔ t.CalledBy label)
    {t : Token} (ht : kind t) : (one label accept).Delimits (single kind) :=
  ⟨explains_one hkind hlabel ⟨t, ht⟩, prefixFree_single, viable_nil_single ht⟩

theorem delimits_token {t : Token} (h : t.hasText = false) : (token t).Delimits (only t) :=
  delimits_one (fun u => by by_cases h : u = t <;> simp [h]) (eq_iff_calledBy h) rfl

namespace Delimits
variable {r : Reader α} (hr : r.Delimits l)
include hr

theorem encloses : r.Encloses l := ⟨hr.explains, hr.prefixFree _, hr.viable_nil⟩

private theorem nonempty : Nonempty α := by
  obtain ⟨w, hw⟩ := hr.viable_nil
  obtain ⟨v, -⟩ := hr.explains.whole_eq_ok_iff.2 hw
  exact ⟨v⟩

theorem bind {next : α → Reader β} (hnext : ∀ v, (next v).Delimits m) :
    (r >>= next).Delimits (l * m) := by
  obtain ⟨v⟩ := hr.nonempty
  have hm := hnext v
  exact ⟨hr.explains.bind (fun v => (hnext v).explains) (hr.prefixFree.separates m) hm.viable_nil,
    hr.prefixFree.mul hm.prefixFree, viable_nil_mul_iff.2 ⟨hr.viable_nil, hm.viable_nil⟩⟩

theorem bind_encloses {next : α → Reader β} (hnext : ∀ v, (next v).Encloses m) :
    (r >>= next).Encloses (l * m) := by
  obtain ⟨v⟩ := hr.nonempty
  have hm := hnext v
  exact ⟨hr.explains.bind (fun v => (hnext v).explains) (hr.prefixFree.separates m) hm.viable_nil,
    hm.stops.mul hr.prefixFree, viable_nil_mul_iff.2 ⟨hr.viable_nil, hm.viable_nil⟩⟩

theorem bind_pure (g : α → β) : (r >>= fun v => pure (g v)).Delimits l :=
  ⟨hr.explains.bind_pure g, hr.prefixFree, hr.viable_nil⟩

theorem labelled {text : String} (htext : ¬ IsTokenLabel text) : (labelled text r).Delimits l :=
  ⟨hr.explains.labelled htext, hr.prefixFree, hr.viable_nil⟩

theorem orElse {s : Reader α} (hs : s.Delimits m) (h : Apart l m) :
    (orElse r s).Delimits (l + m) :=
  ⟨hr.explains.orElse hs.explains h, hr.prefixFree.add hs.prefixFree h,
    viable_add_iff.2 (.inl hr.viable_nil)⟩

theorem many {kind : Token → Prop} (hl : Begins l kind) (hclose : ¬ kind .closeParen) :
    (many r).Encloses l∗ :=
  ⟨hr.explains.many hl.nil_not_mem (hr.prefixFree.separates _),
    hr.prefixFree.stops_kstar (mt hl.of_viable hclose), viable_nil_kstar⟩

end Delimits

theorem Encloses.bind_pure {r : Reader α} (hr : r.Encloses l) (g : α → β) :
    (r >>= fun v => pure (g v)).Encloses l :=
  ⟨hr.explains.bind_pure g, hr.stops, hr.viable_nil⟩

theorem Encloses.parenthesized {r : Reader α} (hr : r.Encloses l) :
    (parenthesized r).Delimits (within l) := by
  have hopen : (token .openParen).Delimits (only .openParen) := delimits_token rfl
  have hclose : (token .closeParen).Delimits (only .closeParen) := delimits_token rfl
  have hsep : Separates l (only .closeParen) :=
    .of_stops fun t ht => by rw [viable_single_iff.1 ht]; exact hr.stops
  have hinner : (r >>= fun v => token .closeParen >>= fun _ => pure v).Delimits
      (l * only .closeParen) :=
    ⟨hr.explains.bind (fun v => (hclose.bind_pure fun _ => v).explains) hsep hclose.viable_nil,
      .mul_single hr.stops, viable_nil_mul_iff.2 ⟨hr.viable_nil, hclose.viable_nil⟩⟩
  exact hopen.bind fun _ => hinner

end Reader
end PlanningDomain
