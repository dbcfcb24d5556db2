import Mathlib.Data.List.Nodup
import TripleQuery.Proofs.Statements.Meaning

/-!
# Tables of placeholders

The table that gathering statements leaves knows each placeholder once, and knows it by a blank node
of its own (`Placeholders.Distinct`). The placeholders in it are those that stand as the subject or
as the object of a written statement (`Statements.tabulates_of_gather`).
-/

namespace TripleQuery

namespace Placeholders

/-- No name stands twice in the table, and no blank node does. The next blank node, which has the
length of the table for its number, is in no table of this kind. -/
structure Distinct (table : Placeholders) : Prop where
  names : (table.map Prod.fst).Nodup
  blanks : (table.map Prod.snd).Nodup
  numbers : ∀ entry ∈ table, entry.2.id < table.length

variable {table : Placeholders} {name : String} {blank : Rdf.Blank}

theorem distinct_nil : Distinct [] := ⟨List.nodup_nil, List.nodup_nil, by simp⟩

theorem lookup_eq_none_iff : table.lookup name = none ↔ name ∉ table.map Prod.fst := by
  rw [List.lookup_eq_none_iff, List.mem_map]
  constructor
  · rintro h ⟨entry, hentry, rfl⟩
    exact absurd (h entry hentry) (by simp)
  · intro h entry hentry
    rw [bne_iff_ne]
    rintro rfl
    exact h ⟨entry, hentry, rfl⟩

theorem mem_names_iff : name ∈ table.map Prod.fst ↔ ∃ blank, table.lookup name = some blank := by
  rw [← not_iff_not, ← lookup_eq_none_iff, Option.eq_none_iff_forall_ne_some]
  simp

theorem mem_of_lookup (h : table.lookup name = some blank) : (name, blank) ∈ table := by
  obtain ⟨front, rest, rfl, -⟩ := List.lookup_eq_some_iff.1 h
  simp

namespace Distinct

variable {other : String}

theorem lookup_eq_some_iff (hdistinct : table.Distinct) :
    table.lookup name = some blank ↔ (name, blank) ∈ table := by
  refine ⟨mem_of_lookup, fun h => ?_⟩
  obtain ⟨found, hfound⟩ := mem_names_iff.1 (List.mem_map_of_mem (f := Prod.fst) h)
  have hentry := List.inj_on_of_nodup_map hdistinct.names h (mem_of_lookup hfound) rfl
  rw [hfound, (Prod.mk.inj hentry).2]

theorem mem_blanks_iff (hdistinct : table.Distinct) :
    blank ∈ table.map Prod.snd ↔ ∃ name, table.lookup name = some blank := by
  simp only [hdistinct.lookup_eq_some_iff, List.mem_map, Prod.exists, exists_eq_right]

theorem name_eq (hdistinct : table.Distinct) (h : table.lookup name = some blank)
    (h' : table.lookup other = some blank) : name = other := by
  have hentry := List.inj_on_of_nodup_map hdistinct.blanks (mem_of_lookup h) (mem_of_lookup h') rfl
  exact (Prod.mk.inj hentry).1

end Distinct

theorem mem_names_blank (table : Placeholders) (name x : String) :
    x ∈ (table.blank name).2.map Prod.fst ↔ x ∈ table.map Prod.fst ∨ x = name := by
  unfold Placeholders.blank
  split
  · next blank h =>
    have hname : name ∈ table.map Prod.fst := mem_names_iff.2 ⟨blank, h⟩
    exact ⟨Or.inl, fun hx => hx.elim id (fun hx => hx ▸ hname)⟩
  · simp

theorem distinct_blank (hdistinct : table.Distinct) (name : String) :
    Distinct (table.blank name).2 := by
  unfold Placeholders.blank
  split
  · exact hdistinct
  · next h =>
    have hnew : ∀ entry ∈ table, entry.2 ≠ ⟨table.length⟩ := by
      intro entry hentry heq
      have hlt := hdistinct.numbers entry hentry
      rw [heq] at hlt
      exact Nat.lt_irrefl _ hlt
    refine ⟨?_, ?_, ?_⟩
    · rw [List.map_append, List.map_singleton, ← List.concat_eq_append, List.nodup_concat]
      exact ⟨lookup_eq_none_iff.1 h, hdistinct.names⟩
    · rw [List.map_append, List.map_singleton, ← List.concat_eq_append, List.nodup_concat]
      refine ⟨fun hmem => ?_, hdistinct.blanks⟩
      obtain ⟨entry, hentry, heq⟩ := List.mem_map.1 hmem
      exact hnew entry hentry heq
    · intro entry hentry
      rw [List.length_append, List.length_singleton]
      rcases List.mem_append.1 hentry with hentry | hentry
      · exact Nat.lt_succ_of_lt (hdistinct.numbers entry hentry)
      · rw [List.mem_singleton.1 hentry]
        exact Nat.lt_succ_self _

end Placeholders

/-! ### Terms and statements -/

variable {prefixes : Prefixes}

theorem Term.Phrase.distinct_of_node {t : Term.Phrase} {node : Rdf.Node}
    {table larger : Placeholders} (h : t.node prefixes table = .ok (node, larger)) :
    (table.Distinct → larger.Distinct) ∧
      ∀ name, name ∈ larger.map Prod.fst ↔ name ∈ table.map Prod.fst ∨ t = .var name := by
  cases t with
  | var x =>
    cases h
    refine ⟨fun hdistinct => Placeholders.distinct_blank hdistinct x, fun name => ?_⟩
    rw [table.mem_names_blank x name, Term.Phrase.var.injEq, eq_comm]
  | const written =>
    obtain ⟨value, -, hpair⟩ := map_eq_ok.1 h
    cases hpair
    exact ⟨id, fun name => by simp⟩

def Statement.Phrase.Mentions (w : Statement.Phrase) (name : String) : Prop :=
  w.subject = .var name ∨ w.object = .var name

namespace Statements

theorem distinct_of_add {s next : Statements} {w : Statement.Phrase}
    (h : add prefixes s w = .ok next) :
    (s.placeholders.Distinct → next.placeholders.Distinct) ∧
      ∀ name, name ∈ next.placeholders.map Prod.fst ↔
        name ∈ s.placeholders.map Prod.fst ∨ w.Mentions name := by
  obtain ⟨subject, first, text, second, object, hsubject, hpredicate, hobject, -⟩ := add_eq_ok h
  -- the predicate is an address, so it is no placeholder and adds none
  obtain ⟨token, htoken⟩ := (Term.Phrase.denotes_of_node hpredicate).2.exists_token
  obtain ⟨hfirst, hsubject⟩ := Term.Phrase.distinct_of_node hsubject
  obtain ⟨hsecond, hpredicate⟩ := Term.Phrase.distinct_of_node hpredicate
  obtain ⟨hthird, hobject⟩ := Term.Phrase.distinct_of_node hobject
  refine ⟨fun hdistinct => hthird (hsecond (hfirst hdistinct)), fun name => ?_⟩
  rw [hobject, hpredicate, hsubject, htoken, Statement.Phrase.Mentions]
  simp [or_assoc]

/-- The table knows the placeholders that are written in some statements, each by a blank node of
its own, and no triple is listed twice. -/
structure Tabulates (written : List Statement.Phrase) (s : Statements) : Prop where
  distinct : s.placeholders.Distinct
  names : ∀ name, name ∈ s.placeholders.map Prod.fst ↔ ∃ w ∈ written, w.Mentions name
  nodup : s.triples.Nodup

theorem Tabulates.add {written : List Statement.Phrase} {s next : Statements}
    {w : Statement.Phrase} (hs : s.Tabulates written)
    (h : Statements.add prefixes s w = .ok next) : next.Tabulates (written ++ [w]) := by
  obtain ⟨hdistinct, hnames⟩ := distinct_of_add h
  obtain ⟨-, t, -, htriples⟩ := denotes_of_add h
  refine ⟨hdistinct hs.distinct, fun name => ?_, ?_⟩
  · rw [hnames, hs.names]
    simp [or_and_right, exists_or]
  · rw [htriples]
    exact nodup_insertTriple hs.nodup

theorem tabulates_of_gather {written : List Statement.Phrase} {gathered : Statements}
    (h : gather prefixes written = .ok gathered) : gathered.Tabulates written := by
  refine gather_induction ⟨Placeholders.distinct_nil, ?_, List.nodup_nil⟩
    (fun _ _ _ _ hs hadd => hs.add hadd) h
  simp [empty]

end Statements
end TripleQuery
