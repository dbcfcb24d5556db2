import Mathlib.Data.Set.Function
import TripleQuery.Proofs.Errors.Statements
import TripleQuery.Proofs.Statements.Tables

/-!
# Gathered statements as a set

What is gathered are the images of the written statements, one for each of them. Two have one image
if they say the same, position by position, where a literal without a datatype is a string. So it
matters neither in which order the statements are written nor how often: they are gathered to the
same triples up to the blank nodes of the placeholders, or not at all (`Statements.gather_image`).
-/

namespace TripleQuery

variable {prefixes : Prefixes} {table other : Placeholders}

/-! ### Statements that say the same -/

/-- Two written terms stand for one node: they are the same placeholder, or tokens for one address,
or literals of one text and one datatype. -/
inductive Term.Phrase.Same (prefixes : Prefixes) : Term.Phrase → Term.Phrase → Prop
  | placeholder (name : String) : Same prefixes (.var name) (.var name)
  | resource {token token' : String} {iri : Iri} : prefixes.resolve token = .ok iri →
      prefixes.resolve token' = .ok iri →
      Same prefixes (.const (.resource token)) (.const (.resource token'))
  | literal {l l' : Literal.Phrase} {datatype : String} : l.text = l'.text →
      l.rdfDatatype prefixes = .ok datatype → l'.rdfDatatype prefixes = .ok datatype →
      Same prefixes (.const (.literal l)) (.const (.literal l'))

structure Statement.Phrase.Same (prefixes : Prefixes) (w w' : Statement.Phrase) : Prop where
  subject : w.subject.Same prefixes w'.subject
  predicate : w.predicate.Same prefixes w'.predicate
  object : w.object.Same prefixes w'.object

namespace Term.Phrase

variable {t t' : Term.Phrase} {node : Rdf.Node}

theorem Same.denotes (hsame : t.Same prefixes t') (h : t.Denotes prefixes table node) :
    t'.Denotes prefixes table node := by
  cases hsame with
  | placeholder name => exact h
  | resource htoken htoken' =>
    obtain ⟨iri, hiri, rfl⟩ := denotes_resource_iff.1 h
    obtain rfl := Except.ok.inj (htoken.symm.trans hiri)
    exact denotes_resource_iff.2 ⟨_, htoken', rfl⟩
  | literal htext hl hl' =>
    obtain ⟨datatype, hdatatype, rfl⟩ := denotes_literal_iff.1 h
    obtain rfl := Except.ok.inj (hl.symm.trans hdatatype)
    rw [htext]
    exact denotes_literal_iff.2 ⟨_, hl', rfl⟩

theorem same_of_denotes (hdistinct : table.Distinct) (h : t.Denotes prefixes table node)
    (h' : t'.Denotes prefixes table node) : t.Same prefixes t' := by
  rcases t with name | token | l
  · obtain ⟨blank, hblank, rfl⟩ := denotes_var_iff.1 h
    rcases t' with name' | token' | l'
    · obtain ⟨blank', hblank', hnode⟩ := denotes_var_iff.1 h'
      cases hnode
      obtain rfl := hdistinct.name_eq hblank hblank'
      exact .placeholder name
    · obtain ⟨iri, -, hnode⟩ := denotes_resource_iff.1 h'
      cases hnode
    · obtain ⟨datatype, -, hnode⟩ := denotes_literal_iff.1 h'
      cases hnode
  · obtain ⟨iri, hiri, rfl⟩ := denotes_resource_iff.1 h
    obtain ⟨token', rfl⟩ := h'.exists_token
    obtain ⟨iri', hiri', hnode⟩ := denotes_resource_iff.1 h'
    obtain rfl := Iri.text_injective (Rdf.Resource.iri.inj (Rdf.Node.resource.inj hnode))
    exact .resource hiri hiri'
  · obtain ⟨datatype, hdatatype, rfl⟩ := denotes_literal_iff.1 h
    rcases t' with name' | token' | l'
    · obtain ⟨blank, -, hnode⟩ := denotes_var_iff.1 h'
      cases hnode
    · obtain ⟨iri, -, hnode⟩ := denotes_resource_iff.1 h'
      cases hnode
    · obtain ⟨datatype', hdatatype', hnode⟩ := denotes_literal_iff.1 h'
      obtain ⟨htext, rfl⟩ := Rdf.Literal.mk.inj (Rdf.Node.literal.inj hnode)
      exact .literal htext hdatatype hdatatype'

end Term.Phrase

/-- Under a table in which each placeholder has its own blank node, two statements have one image
exactly if they say the same. -/
theorem Statement.Phrase.eq_iff_same {w w' : Statement.Phrase} {t t' : Rdf.Triple}
    (hdistinct : table.Distinct) (h : w.Denotes prefixes table t)
    (h' : w'.Denotes prefixes table t') : t = t' ↔ w.Same prefixes w' := by
  constructor
  · rintro rfl
    exact ⟨Term.Phrase.same_of_denotes hdistinct h.subject h'.subject,
      Term.Phrase.same_of_denotes hdistinct h.predicate h'.predicate,
      Term.Phrase.same_of_denotes hdistinct h.object h'.object⟩
  · intro hsame
    have himage : w'.Denotes prefixes table t :=
      ⟨hsame.subject.denotes h.subject, hsame.predicate.denotes h.predicate,
        hsame.object.denotes h.object⟩
    exact himage.unique h'

/-! ### Other blank nodes -/

namespace Rdf

variable (f : Blank → Blank)

def Resource.relabel : Resource → Resource
  | iri text => .iri text
  | blank node => .blank (f node)

def Node.relabel : Node → Node
  | resource r => .resource (r.relabel f)
  | literal l => .literal l

def Triple.relabel (t : Triple) : Triple := ⟨t.subject.relabel f, t.predicate, t.object.relabel f⟩

end Rdf

section Relabel

variable {f : Rdf.Blank → Rdf.Blank}
  (hf : ∀ name blank, table.lookup name = some blank → other.lookup name = some (f blank))
include hf

theorem Term.Phrase.Denotes.relabel {t : Term.Phrase} {node : Rdf.Node}
    (h : t.Denotes prefixes table node) : t.Denotes prefixes other (node.relabel f) := by
  rcases t with name | token | l
  · obtain ⟨blank, hblank, rfl⟩ := denotes_var_iff.1 h
    exact denotes_var_iff.2 ⟨f blank, hf name blank hblank, rfl⟩
  · obtain ⟨iri, hiri, rfl⟩ := denotes_resource_iff.1 h
    exact denotes_resource_iff.2 ⟨iri, hiri, rfl⟩
  · obtain ⟨datatype, hdatatype, rfl⟩ := denotes_literal_iff.1 h
    exact denotes_literal_iff.2 ⟨datatype, hdatatype, rfl⟩

theorem Statement.Phrase.Denotes.relabel {w : Statement.Phrase} {t : Rdf.Triple}
    (h : w.Denotes prefixes table t) : w.Denotes prefixes other (t.relabel f) :=
  ⟨h.subject.relabel hf, h.predicate.relabel hf, h.object.relabel hf⟩

end Relabel

namespace Statements

/-- The second statements are the first ones with other blank nodes, different ones for different
ones: each placeholder has its new blank node, and each triple holds the new ones. -/
structure Relabels (f : Rdf.Blank → Rdf.Blank) (s s' : Statements) : Prop where
  bijective : Set.BijOn f { blank | blank ∈ s.placeholders.map Prod.snd }
    { blank | blank ∈ s'.placeholders.map Prod.snd }
  placeholders : ∀ name, s'.placeholders.lookup name = (s.placeholders.lookup name).map f
  triples : ∀ t, t ∈ s'.triples ↔ ∃ u ∈ s.triples, u.relabel f = t

/-- The blank node that the second statements have for the placeholder of a blank node. -/
def relabeling (s s' : Statements) (blank : Rdf.Blank) : Rdf.Blank :=
  (s'.placeholders.lookup (s.nameOf blank)).getD blank

variable {s s' : Statements} {written written' : List Statement.Phrase}

theorem nameOf_eq {name : String} {blank : Rdf.Blank} (hdistinct : s.placeholders.Distinct)
    (h : s.placeholders.lookup name = some blank) : s.nameOf blank = name := by
  have hmem := Placeholders.mem_of_lookup h
  unfold nameOf
  cases hfind : s.placeholders.find? (·.2 = blank) with
  | none =>
    have hnone := List.find?_eq_none.1 hfind _ hmem
    simp at hnone
  | some entry =>
    have hblank : entry.2 = blank := by simpa using List.find?_some hfind
    have hentry := List.inj_on_of_nodup_map hdistinct.blanks
      (List.mem_of_find?_eq_some hfind) hmem hblank
    rw [hentry]
    rfl

theorem lookup_relabeling (hs : s.Tabulates written) (hs' : s'.Tabulates written')
    (hmem : ∀ w, w ∈ written' ↔ w ∈ written) (name : String) :
    s'.placeholders.lookup name = (s.placeholders.lookup name).map (s.relabeling s') := by
  have hnames : name ∈ s'.placeholders.map Prod.fst ↔ name ∈ s.placeholders.map Prod.fst := by
    rw [hs'.names, hs.names]
    simp only [hmem]
  cases hlookup : s.placeholders.lookup name with
  | none =>
    rw [Option.map_none, Placeholders.lookup_eq_none_iff, hnames]
    exact Placeholders.lookup_eq_none_iff.1 hlookup
  | some blank =>
    have hknown := hnames.2 (Placeholders.mem_names_iff.2 ⟨blank, hlookup⟩)
    obtain ⟨blank', hlookup'⟩ := Placeholders.mem_names_iff.1 hknown
    rw [Option.map_some, relabeling, nameOf_eq hs.distinct hlookup, hlookup', Option.getD_some]

/-- What is gathered of the same statements, in whatever order and however often they are written,
is the same up to blank nodes. -/
theorem relabels_relabeling (hs : s.Tabulates written) (hs' : s'.Tabulates written')
    (hc : Collects prefixes written s) (hc' : Collects prefixes written' s')
    (hmem : ∀ w, w ∈ written' ↔ w ∈ written) : s.Relabels (s.relabeling s') s' := by
  have hlookup := lookup_relabeling hs hs' hmem
  have hnew : ∀ name blank, s.placeholders.lookup name = some blank →
      s'.placeholders.lookup name = some (s.relabeling s' blank) := by
    intro name blank h
    rw [hlookup, h, Option.map_some]
  -- blank nodes correspond by the names for which both tables have them
  refine ⟨⟨fun blank hblank => ?_, fun blank hblank other hother heq => ?_,
    fun blank' hblank' => ?_⟩, hlookup, fun t => ⟨fun ht => ?_, ?_⟩⟩
  · obtain ⟨name, h⟩ := hs.distinct.mem_blanks_iff.1 hblank
    exact hs'.distinct.mem_blanks_iff.2 ⟨name, hnew name blank h⟩
  · obtain ⟨name, h⟩ := hs.distinct.mem_blanks_iff.1 hblank
    obtain ⟨name', h'⟩ := hs.distinct.mem_blanks_iff.1 hother
    have hnew' := hnew name' other h'
    rw [← heq] at hnew'
    rw [hs'.distinct.name_eq hnew' (hnew name blank h), h] at h'
    exact Option.some.inj h'
  · obtain ⟨name, h'⟩ := hs'.distinct.mem_blanks_iff.1 hblank'
    rw [hlookup, Option.map_eq_some_iff] at h'
    obtain ⟨blank, h, heq⟩ := h'
    exact ⟨blank, hs.distinct.mem_blanks_iff.2 ⟨name, h⟩, heq⟩
  · obtain ⟨w, hw, hdenotes⟩ := hc'.sound t ht
    obtain ⟨u, hu, himage⟩ := hc.complete w ((hmem w).1 hw)
    exact ⟨u, hu, (himage.relabel hnew).unique hdenotes⟩
  · rintro ⟨u, hu, rfl⟩
    obtain ⟨w, hw, himage⟩ := hc.sound u hu
    obtain ⟨t, ht, hdenotes⟩ := hc'.complete w ((hmem w).2 hw)
    rwa [(himage.relabel hnew).unique hdenotes]

theorem exists_gather_iff :
    (∃ s, gather prefixes written = .ok s) ↔ ∀ w ∈ written, w.errors prefixes = [] := by
  rw [(reports_gather prefixes written).eq_ok_iff, List.flatMap_eq_nil_iff]

/-! ### The images of the written statements -/

/-- The statements are the set of the images of what is written, under a table of blank nodes for
just the placeholders that are written. -/
structure IsImage (prefixes : Prefixes) (written : List Statement.Phrase) (s : Statements) :
    Prop where
  /-- A placeholder is known if it is written as a subject or as an object. -/
  names : ∀ name, name ∈ s.placeholders.map Prod.fst ↔
    ∃ w ∈ written, w.subject = .var name ∨ w.object = .var name
  nodup_names : (s.placeholders.map Prod.fst).Nodup
  nodup_blanks : (s.placeholders.map Prod.snd).Nodup
  exists_triple : ∀ w ∈ written, ∃ t, w.Denotes prefixes s.placeholders t
  mem_triples : ∀ t, t ∈ s.triples ↔ ∃ w ∈ written, w.Denotes prefixes s.placeholders t
  nodup_triples : s.triples.Nodup
  eq_iff : ∀ w ∈ written, ∀ w' ∈ written, ∀ t t', w.Denotes prefixes s.placeholders t →
    w'.Denotes prefixes s.placeholders t' → (t = t' ↔ w.Same prefixes w')

theorem isImage_of_gather (h : gather prefixes written = .ok s) : s.IsImage prefixes written := by
  have htable := tabulates_of_gather h
  have hcollects := collects_of_gather h
  refine ⟨htable.names, htable.distinct.names, htable.distinct.blanks, fun w hw => ?_,
    fun t => ⟨hcollects.sound t, ?_⟩, htable.nodup, fun w _ w' _ t t' ht ht' => ?_⟩
  · obtain ⟨t, -, ht⟩ := hcollects.complete w hw
    exact ⟨t, ht⟩
  · rintro ⟨w, hw, hdenotes⟩
    obtain ⟨u, hu, himage⟩ := hcollects.complete w hw
    rwa [hdenotes.unique himage]
  · exact Statement.Phrase.eq_iff_same htable.distinct ht ht'

/-- Statements are gathered to the set of their images. Other lists of the same statements, with the
order changed or statements repeated, are gathered exactly if this one is, and to the same up to the
blank nodes. -/
theorem gather_image (prefixes : Prefixes) (written : List Statement.Phrase) :
    (∀ s, gather prefixes written = .ok s → s.IsImage prefixes written) ∧
    ∀ written', (∀ w, w ∈ written' ↔ w ∈ written) →
      ((∃ s', gather prefixes written' = .ok s') ↔ ∃ s, gather prefixes written = .ok s) ∧
      ∀ s s', gather prefixes written = .ok s → gather prefixes written' = .ok s' →
        ∃ f, s.Relabels f s' := by
  refine ⟨fun s => isImage_of_gather, fun written' hmem => ⟨?_, fun s s' h h' => ?_⟩⟩
  · simp only [exists_gather_iff, hmem]
  · exact ⟨s.relabeling s', relabels_relabeling (tabulates_of_gather h) (tabulates_of_gather h')
      (collects_of_gather h) (collects_of_gather h') hmem⟩

/-! ### One set written twice -/

def naming (datatype : Option String) : Statement.Phrase :=
  ⟨.var "x", .const (.resource "urn:name"), .const (.literal ⟨[.plain "Ann"], datatype⟩)⟩

def knowing : Statement.Phrase := ⟨.var "y", .const (.resource "urn:knows"), .var "x"⟩

def named (blank : Nat) : Rdf.Triple :=
  ⟨.blank ⟨blank⟩, "urn:name", .literal ⟨"Ann", Vocabulary.xsdString⟩⟩

def known (blank known : Nat) : Rdf.Triple :=
  ⟨.blank ⟨blank⟩, "urn:knows", .resource (.blank ⟨known⟩)⟩

/-- A literal with the datatype of strings says what it says without. -/
def acquaintances : List Statement.Phrase :=
  [naming none, knowing, naming (some Vocabulary.xsdString)]

def reordered : List Statement.Phrase :=
  [knowing, naming (some Vocabulary.xsdString), knowing, naming none]

theorem gather_image_acquaintances :
    gather .empty acquaintances
        = .ok ⟨[named 0, known 1 0], [("x", ⟨0⟩), ("y", ⟨1⟩)]⟩ ∧
      gather .empty reordered = .ok ⟨[known 0 1, named 1], [("y", ⟨0⟩), ("x", ⟨1⟩)]⟩ ∧
      IsImage .empty acquaintances ⟨[named 0, known 1 0], [("x", ⟨0⟩), ("y", ⟨1⟩)]⟩ ∧
      (∀ w, w ∈ reordered ↔ w ∈ acquaintances) ∧
      ∃ f, Relabels f ⟨[named 0, known 1 0], [("x", ⟨0⟩), ("y", ⟨1⟩)]⟩
        ⟨[known 0 1, named 1], [("y", ⟨0⟩), ("x", ⟨1⟩)]⟩ := by
  have hfirst : gather .empty acquaintances
      = .ok ⟨[named 0, known 1 0], [("x", ⟨0⟩), ("y", ⟨1⟩)]⟩ := by decide +kernel
  have hsecond : gather .empty reordered
      = .ok ⟨[known 0 1, named 1], [("y", ⟨0⟩), ("x", ⟨1⟩)]⟩ := by decide +kernel
  have hmem : ∀ w, w ∈ reordered ↔ w ∈ acquaintances := by
    intro w
    simp only [reordered, acquaintances, List.mem_cons, List.not_mem_nil, or_false]
    grind
  obtain ⟨himage, hother⟩ := gather_image .empty acquaintances
  exact ⟨hfirst, hsecond, himage _ hfirst, hmem, (hother _ hmem).2 _ _ hfirst hsecond⟩

end Statements
end TripleQuery
