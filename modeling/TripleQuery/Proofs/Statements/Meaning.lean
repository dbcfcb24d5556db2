import TripleQuery.Statements.Basic

/-!
# What statements say

Statements are gathered one by one, with a table of placeholders that only grows. A written term
stands for a node under such a table, and goes on to do so under a larger one; so it is told by the
table at the end what each written statement says. Exactly this is gathered
(`Statements.collects_of_gather`).
-/

namespace TripleQuery

/-! ### Placeholders -/

namespace Placeholders

/-- The second table knows the placeholders of the first one by the same blank nodes. -/
def Extends (table larger : Placeholders) : Prop :=
  ∀ name blank, table.lookup name = some blank → larger.lookup name = some blank

variable {table middle larger : Placeholders}

theorem Extends.refl (table : Placeholders) : table.Extends table := fun _ _ h => h

theorem Extends.trans (h : table.Extends middle) (h' : middle.Extends larger) :
    table.Extends larger :=
  fun name blank hlookup => h' name blank (h name blank hlookup)

theorem extends_blank (table : Placeholders) (name : String) :
    table.Extends (table.blank name).2 := by
  intro other blank h
  unfold Placeholders.blank
  split
  · exact h
  · rw [List.lookup_append, h, Option.some_or]

theorem lookup_blank (table : Placeholders) (name : String) :
    (table.blank name).2.lookup name = some (table.blank name).1 := by
  unfold Placeholders.blank
  split
  · next blank h => exact h
  · next h =>
    rw [List.lookup_append, h, Option.none_or]
    simp

end Placeholders

/-! ### Terms and statements -/

/-- A written term and the node for which it stands, given the blank nodes of the placeholders. -/
inductive Term.Phrase.Denotes (prefixes : Prefixes) (table : Placeholders) :
    Term.Phrase → Rdf.Node → Prop
  | placeholder {name : String} {blank : Rdf.Blank} : table.lookup name = some blank →
      Denotes prefixes table (.var name) (.resource (.blank blank))
  | constant {written : Constant.Phrase} {value : Constant} :
      written.resolve prefixes = .ok value → Denotes prefixes table (.const written) value.toRdf

structure Statement.Phrase.Denotes (prefixes : Prefixes) (table : Placeholders)
    (w : Statement.Phrase) (t : Rdf.Triple) : Prop where
  subject : w.subject.Denotes prefixes table (.resource t.subject)
  predicate : w.predicate.Denotes prefixes table (.resource (.iri t.predicate))
  object : w.object.Denotes prefixes table t.object

variable {prefixes : Prefixes} {table larger : Placeholders}

theorem Term.Phrase.Denotes.mono {t : Term.Phrase} {node : Rdf.Node}
    (h : t.Denotes prefixes table node) (hlarger : table.Extends larger) :
    t.Denotes prefixes larger node := by
  cases h with
  | placeholder hlookup => exact .placeholder (hlarger _ _ hlookup)
  | constant hvalue => exact .constant hvalue

theorem Statement.Phrase.Denotes.mono {w : Statement.Phrase} {t : Rdf.Triple}
    (h : w.Denotes prefixes table t) (hlarger : table.Extends larger) :
    w.Denotes prefixes larger t :=
  ⟨h.subject.mono hlarger, h.predicate.mono hlarger, h.object.mono hlarger⟩

/-- The datatype that a written literal has in graphs. -/
def Literal.Phrase.rdfDatatype (prefixes : Prefixes) (l : Literal.Phrase) : Except Error String :=
  match l.datatype with
  | none => .ok Vocabulary.xsdString
  | some token => (prefixes.resolve token).map Iri.text

theorem Literal.Phrase.map_toRdf_resolve (l : Literal.Phrase) :
    (l.resolve prefixes).map Literal.toRdf
      = (l.rdfDatatype prefixes).map fun datatype => ⟨l.text, datatype⟩ := by
  obtain ⟨strands, datatype⟩ := l
  cases datatype with
  | none => rfl
  | some token =>
    simp only [resolve, rdfDatatype]
    cases prefixes.resolve token <;> rfl

namespace Term.Phrase

variable {node : Rdf.Node}

theorem denotes_var_iff {name : String} :
    (var name).Denotes prefixes table node ↔
      ∃ blank, table.lookup name = some blank ∧ node = .resource (.blank blank) := by
  constructor
  · intro h
    cases h with
    | placeholder hlookup => exact ⟨_, hlookup, rfl⟩
  · rintro ⟨blank, hlookup, rfl⟩
    exact .placeholder hlookup

theorem denotes_const_iff {written : Constant.Phrase} :
    (const written).Denotes prefixes table node ↔
      (written.resolve prefixes).map Constant.toRdf = .ok node := by
  rw [map_eq_ok]
  constructor
  · intro h
    cases h with
    | constant hvalue => exact ⟨_, hvalue, rfl⟩
  · rintro ⟨value, hvalue, rfl⟩
    exact .constant hvalue

theorem denotes_resource_iff {token : String} :
    (const (.resource token)).Denotes prefixes table node ↔
      ∃ iri, prefixes.resolve token = .ok iri ∧ node = .resource (.iri iri.text) := by
  rw [denotes_const_iff, Constant.Phrase.resolve]
  cases prefixes.resolve token <;> simp [Except.map, Constant.toRdf, eq_comm]

theorem denotes_literal_iff {l : Literal.Phrase} :
    (const (.literal l)).Denotes prefixes table node ↔
      ∃ datatype, l.rdfDatatype prefixes = .ok datatype ∧ node = .literal ⟨l.text, datatype⟩ := by
  have hvalue : ((l.resolve prefixes).map Constant.literal).map Constant.toRdf
      = ((l.resolve prefixes).map Literal.toRdf).map Rdf.Node.literal := by
    cases l.resolve prefixes <;> rfl
  rw [denotes_const_iff, Constant.Phrase.resolve, hvalue, Literal.Phrase.map_toRdf_resolve]
  cases l.rdfDatatype prefixes <;> simp [Except.map, eq_comm]

theorem Denotes.unique {t : Term.Phrase} {a b : Rdf.Node} (ha : t.Denotes prefixes table a)
    (hb : t.Denotes prefixes table b) : a = b := by
  cases t with
  | var name =>
    obtain ⟨blank, hblank, rfl⟩ := denotes_var_iff.1 ha
    obtain ⟨other, hother, rfl⟩ := denotes_var_iff.1 hb
    rw [Option.some.inj (hblank.symm.trans hother)]
  | const written =>
    exact Except.ok.inj ((denotes_const_iff.1 ha).symm.trans (denotes_const_iff.1 hb))

theorem Denotes.exists_token {t : Term.Phrase} {text : String}
    (h : t.Denotes prefixes table (.resource (.iri text))) :
    ∃ token, t = .const (.resource token) := by
  rcases t with name | token | l
  · cases h
  · exact ⟨token, rfl⟩
  · obtain ⟨datatype, -, hnode⟩ := denotes_literal_iff.1 h
    cases hnode

end Term.Phrase

theorem Statement.Phrase.Denotes.unique {w : Statement.Phrase} {a b : Rdf.Triple}
    (ha : w.Denotes prefixes table a) (hb : w.Denotes prefixes table b) : a = b := by
  have hsubject := Rdf.Node.resource.inj (ha.subject.unique hb.subject)
  have hpredicate := ha.predicate.unique hb.predicate
  have hobject := ha.object.unique hb.object
  cases a
  cases b
  cases hsubject
  cases hpredicate
  cases hobject
  rfl

theorem Term.Phrase.denotes_of_node {t : Term.Phrase} {node : Rdf.Node}
    (h : t.node prefixes table = .ok (node, larger)) :
    table.Extends larger ∧ t.Denotes prefixes larger node := by
  cases t with
  | var name =>
    cases h
    exact ⟨table.extends_blank name, .placeholder (table.lookup_blank name)⟩
  | const written =>
    obtain ⟨value, hvalue, hpair⟩ := map_eq_ok.1 h
    cases hpair
    exact ⟨.refl table, .constant hvalue⟩

theorem Rdf.Node.asPredicate_eq_ok {node : Rdf.Node} {text : String} :
    node.asPredicate = .ok text ↔ node = .resource (.iri text) := by
  cases node with
  | literal l => simp [asPredicate]
  | resource r => cases r <;> simp [asPredicate]

theorem Rdf.Node.asSubject_eq_ok {node : Rdf.Node} {r : Rdf.Resource} :
    node.asSubject = .ok r ↔ node = .resource r := by
  cases node <;> simp [asSubject]

/-! ### Gathering -/

namespace Statements

/-- What adding a statement does: its terms are given nodes one after the other, with the table of
placeholders that the one before left, and the subject and the predicate are of the kinds they have
to be. -/
theorem add_eq_ok {s next : Statements} {w : Statement.Phrase} (h : add prefixes s w = .ok next) :
    ∃ subject first predicate second object,
      w.subject.node prefixes s.placeholders = .ok (.resource subject, first) ∧
      w.predicate.node prefixes first = .ok (.resource (.iri predicate), second) ∧
      w.object.node prefixes second = .ok (object, next.placeholders) ∧
      next.triples = insertTriple ⟨subject, predicate, object⟩ s.triples := by
  obtain ⟨⟨subject, first⟩, hsubject, h⟩ := bind_eq_ok.1 h
  obtain ⟨⟨predicate, second⟩, hpredicate, h⟩ := bind_eq_ok.1 h
  obtain ⟨⟨object, third⟩, hobject, h⟩ := bind_eq_ok.1 h
  obtain ⟨text, htext, h⟩ := bind_eq_ok.1 h
  obtain ⟨resource, hresource, h⟩ := bind_eq_ok.1 h
  cases h
  obtain rfl := Rdf.Node.asPredicate_eq_ok.1 (mapError_eq_ok.1 htext)
  obtain rfl := Rdf.Node.asSubject_eq_ok.1 (mapError_eq_ok.1 hresource)
  exact ⟨resource, first, text, second, object, hsubject, hpredicate, hobject, rfl⟩

/-- What one more statement adds: placeholders, and the triple that it says. -/
theorem denotes_of_add {s next : Statements} {w : Statement.Phrase}
    (h : add prefixes s w = .ok next) :
    s.placeholders.Extends next.placeholders ∧
      ∃ t, w.Denotes prefixes next.placeholders t ∧ next.triples = insertTriple t s.triples := by
  obtain ⟨subject, first, predicate, second, object, hsubject, hpredicate, hobject, htriples⟩ :=
    add_eq_ok h
  obtain ⟨hfirst, hsubject⟩ := Term.Phrase.denotes_of_node hsubject
  obtain ⟨hsecond, hpredicate⟩ := Term.Phrase.denotes_of_node hpredicate
  obtain ⟨hthird, hobject⟩ := Term.Phrase.denotes_of_node hobject
  have hrest := hsecond.trans hthird
  exact ⟨hfirst.trans hrest, ⟨subject, predicate, object⟩,
    ⟨hsubject.mono hrest, hpredicate.mono hthird, hobject⟩, htriples⟩

/-- The triples are what the written statements say under the placeholders. -/
structure Collects (prefixes : Prefixes) (written : List Statement.Phrase) (s : Statements) :
    Prop where
  complete : ∀ w ∈ written, ∃ t ∈ s.triples, w.Denotes prefixes s.placeholders t
  sound : ∀ t ∈ s.triples, ∃ w ∈ written, w.Denotes prefixes s.placeholders t

theorem collects_empty : Collects prefixes [] empty := ⟨by simp, by simp [empty]⟩

theorem Collects.add {written : List Statement.Phrase} {s next : Statements}
    {w : Statement.Phrase} (hs : Collects prefixes written s)
    (h : Statements.add prefixes s w = .ok next) : Collects prefixes (written ++ [w]) next := by
  obtain ⟨hlarger, t, ht, htriples⟩ := denotes_of_add h
  have hnew : t ∈ next.triples := by
    rw [htriples]
    exact mem_insertTriple.2 (Or.inl rfl)
  have hold : ∀ u ∈ s.triples, u ∈ next.triples := by
    intro u hu
    rw [htriples]
    exact mem_insertTriple.2 (Or.inr hu)
  refine ⟨fun x hx => ?_, fun u hu => ?_⟩
  · rcases List.mem_append.1 hx with hx | hx
    · obtain ⟨u, hu, hdenotes⟩ := hs.complete x hx
      exact ⟨u, hold u hu, hdenotes.mono hlarger⟩
    · obtain rfl := List.mem_singleton.1 hx
      exact ⟨t, hnew, ht⟩
  · rw [htriples] at hu
    rcases mem_insertTriple.1 hu with rfl | hu
    · exact ⟨w, by simp, ht⟩
    · obtain ⟨x, hx, hdenotes⟩ := hs.sound u hu
      exact ⟨x, List.mem_append_left _ hx, hdenotes.mono hlarger⟩

/-- What holds of no statements, and goes on to hold with one more, holds of all that
were gathered. -/
theorem gather_induction {motive : List Statement.Phrase → Statements → Prop}
    (hempty : motive [] empty)
    (hadd : ∀ before w s next, motive before s → Statements.add prefixes s w = .ok next →
      motive (before ++ [w]) next)
    {written : List Statement.Phrase} {gathered : Statements}
    (h : gather prefixes written = .ok gathered) : motive written gathered := by
  have hfold : ∀ (rest before : List Statement.Phrase) (s : Statements), motive before s →
      rest.foldlM (Statements.add prefixes) s = .ok gathered →
        motive (before ++ rest) gathered := by
    intro rest
    induction rest with
    | nil =>
      intro before s hs h
      cases h
      rwa [List.append_nil]
    | cons w rest ih =>
      intro before s hs h
      rw [List.foldlM_cons] at h
      obtain ⟨next, hnext, h⟩ := bind_eq_ok.1 h
      have hrest := ih _ next (hadd before w s next hs hnext) h
      rwa [List.append_assoc, List.singleton_append] at hrest
  exact hfold written [] empty hempty h

theorem collects_of_gather {written : List Statement.Phrase} {gathered : Statements}
    (h : gather prefixes written = .ok gathered) : Collects prefixes written gathered :=
  gather_induction collects_empty (fun _ _ _ _ hs hadd => hs.add hadd) h

end Statements
end TripleQuery
