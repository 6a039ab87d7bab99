import PlanningDomain.Proofs.Format.CanonicalText
import PlanningDomain.Proofs.Reading.Acceptance

/-! Writing a domain and reading it again. Main statements: exactly the writable domains come back;
and whatever a reading recognises, of any text with a header, is such a domain. -/
namespace PlanningDomain

open Grammar

/-- The canonical text of a writable domain is read in silence, as the domain without its file. -/
theorem Domain.Writable.readDomain_canonicalText {s : Settings} {d : Domain}
    (h : d.Writable s.rootType) :
    readDomain s d.canonicalText = ⟨{ d with filePath := "" }, .empty s.maxErrors⟩ := by
  have hspells := h.spells_canonicalText
  rw [readDomain_of_sentence hspells.strays_eq hspells.tokens_eq.symm, h.meaning_sentence]

/-- What a reading of any text recognises can be written, up to a missing name. -/
theorem partsWritable_readDomain {s : Settings} (hroot : IsName s.rootType)
    (text : String) :
    (readDomain s text).domain.PartsWritable s.rootType ∧
      (readDomain s text).domain.filePath = "" ∧
      ((readDomain s text).domain.name = "" ∨ IsName (readDomain s text).domain.name) := by
  have hformed := wellFormed_readDomain s text
  exact ⟨hformed.partsWritable hroot, hformed.filePath_eq, hformed.isName⟩

private theorem writable_readDomain {s : Settings} (hroot : IsName s.rootType) {text : String}
    (hname : (readDomain s text).domain.name ≠ "") :
    (readDomain s text).domain.Writable s.rootType := by
  obtain ⟨hparts, -, hisName⟩ := partsWritable_readDomain hroot text
  exact ⟨hparts, hisName.resolve_left hname⟩

private theorem foldl_addTo_name (root : String) (xs : List Section) (d : Domain) :
    (xs.foldl (Section.addTo root) d).name = d.name := by
  induction xs generalizing d with
  | nil => rfl
  | cons x xs ih =>
    rw [List.foldl_cons, ih]
    cases x <;> rfl

private theorem isName_of_succeeded {s : Settings} {text : String}
    (h : (readDomain s text).succeeded = true) : IsName (readDomain s text).domain.name := by
  obtain ⟨-, name, ts, xs, htokens, -, hread⟩ := reads_of_succeeded h
  have hmem : Token.name name ∈ tokens text := by
    rw [htokens]
    simp [headerTokens, enclosed]
  rw [hread, foldl_addTo_name s.rootType xs (headed name)]
  exact lexes_of_mem_tokens hmem

/-- The file that a domain was read from is not written. -/
private theorem Domain.Writable.withFilePath {root : String} {d : Domain} (h : d.Writable root)
    (path : String) : Domain.Writable root { d with filePath := path } :=
  ⟨⟨h.requirements, h.types, h.root_ne, h.predicates, h.tasks, h.methods⟩, h.isName⟩

/-- A writable domain comes back from its canonical text, whatever the settings; and where the root
type is a name, only a writable domain does. -/
theorem comes_back_iff_writable (s : Settings) (d : Domain) :
    (d.Writable s.rootType →
      readDomain s d.canonicalText = ⟨{ d with filePath := "" }, .empty s.maxErrors⟩) ∧
    (IsName s.rootType → (readDomain s d.canonicalText).succeeded = true →
      { (readDomain s d.canonicalText).domain with filePath := d.filePath } = d →
      d.Writable s.rootType) := by
  refine ⟨Domain.Writable.readDomain_canonicalText, fun hroot hsucceeded hsame => ?_⟩
  obtain ⟨hparts, -, -⟩ := partsWritable_readDomain hroot d.canonicalText
  have hread : (readDomain s d.canonicalText).domain.Writable s.rootType :=
    ⟨hparts, isName_of_succeeded hsucceeded⟩
  rw [← hsame]
  exact hread.withFilePath d.filePath

/-- A domain with names that end like the sign behind them. -/
def dashedDomain : Domain :=
  { headed "d" with
    requirements := ["typing"]
    types := .ofList [("a-", "object"), ("b", "a-")]
    tasks := [⟨"t", .ofPairs [("?x", "a-"), ("?y-", "b")]⟩] }

theorem dashedDomain_comes_back :
    dashedDomain.Writable "object" ∧
      readDomain ⟨"object", true, 3⟩ dashedDomain.canonicalText =
        ⟨dashedDomain, .empty 3⟩ := by
  have hsucceeded :
      (readDomain ⟨"object", true, 3⟩ dashedDomain.canonicalText).succeeded = true := by
    decide +kernel
  have hsame : { (readDomain ⟨"object", true, 3⟩ dashedDomain.canonicalText).domain with
      filePath := dashedDomain.filePath } = dashedDomain := by
    decide +kernel
  have hwritable := (comes_back_iff_writable ⟨"object", true, 3⟩ dashedDomain).2
    (by decide +kernel) hsucceeded hsame
  exact ⟨hwritable, (comes_back_iff_writable ⟨"object", true, 3⟩ dashedDomain).1 hwritable⟩

/-- Reading what was recognised in any text gives the same again, in silence. -/
theorem rereads_canonicalText (s : Settings) (text : String) (hroot : IsName s.rootType)
    (hname : (readDomain s text).domain.name ≠ "") :
    readDomain s (readDomain s text).domain.canonicalText =
        ⟨(readDomain s text).domain, .empty s.maxErrors⟩ ∧
      (readDomain s (readDomain s text).domain.canonicalText).domain.canonicalText =
        (readDomain s text).domain.canonicalText := by
  have hpath : (readDomain s text).domain.filePath = "" :=
    (partsWritable_readDomain hroot text).2.1
  have hsame : { (readDomain s text).domain with filePath := "" } = (readDomain s text).domain := by
    rw [← hpath]
  have hread := (writable_readDomain hroot hname).readDomain_canonicalText
  rw [hsame] at hread
  rw [hread]
  exact ⟨rfl, rfl⟩

/-- Of a text with a stray character, a section out of place and no end, the rest comes back. -/
theorem rereads_broken_text :
    let text := "(define (domain d) (:types a $ a - b) (:task t :parameters ()) (:types c) (:method"
    let domain := (readDomain .standard text).domain
    (readDomain .standard text).succeeded = false ∧
      readDomain .standard domain.canonicalText = ⟨domain, .empty 100⟩ ∧
      (readDomain .standard domain.canonicalText).domain.canonicalText = domain.canonicalText := by
  intro text domain
  have hname : domain.name ≠ "" := by decide +kernel
  exact ⟨by decide +kernel, rereads_canonicalText .standard text (by decide +kernel) hname⟩

end PlanningDomain
