import TripleQuery.Statements.Basic

/-!
# Renaming of placeholders

A placeholder is known by its name, but nothing depends on what that name is. Statements with other
names for their placeholders, different ones for different placeholders, are gathered to the same
triples or to the same error (`Statements.gather_rename`).
-/

namespace TripleQuery

def Term.Phrase.rename (f : String → String) : Term.Phrase → Term.Phrase
  | var name => .var (f name)
  | const value => .const value

def Statement.Phrase.rename (f : String → String) (w : Statement.Phrase) : Statement.Phrase :=
  ⟨w.subject.rename f, w.predicate.rename f, w.object.rename f⟩

def Placeholders.rename (f : String → String) (table : Placeholders) : Placeholders :=
  table.map fun entry => (f entry.1, entry.2)

def Statements.rename (f : String → String) (s : Statements) : Statements :=
  ⟨s.triples, s.placeholders.rename f⟩

variable {f : String → String} (hf : Function.Injective f)
include hf

theorem Placeholders.lookup_rename (table : Placeholders) (name : String) :
    (table.rename f).lookup (f name) = table.lookup name := by
  induction table with
  | nil => rfl
  | cons entry rest ih =>
    obtain ⟨other, blank⟩ := entry
    have hsame : (f name == f other) = (name == other) := by
      by_cases h : name = other
      · simp [h]
      · rw [beq_eq_false_iff_ne.2 h, beq_eq_false_iff_ne.2 (hf.ne h)]
    show ((f other, blank) :: Placeholders.rename f rest).lookup (f name) = _
    rw [List.lookup_cons, List.lookup_cons, hsame, ih]

theorem Placeholders.blank_rename (table : Placeholders) (name : String) :
    (table.rename f).blank (f name)
      = ((table.blank name).1, Placeholders.rename f (table.blank name).2) := by
  have hlookup := Placeholders.lookup_rename hf table name
  have hlength : (table.rename f).length = table.length := List.length_map _
  unfold Placeholders.blank
  rw [hlookup, hlength]
  cases table.lookup name with
  | some blank => rfl
  | none => simp [Placeholders.rename]

theorem Term.Phrase.node_rename (prefixes : Prefixes) (table : Placeholders) (t : Term.Phrase) :
    (t.rename f).node prefixes (table.rename f)
      = (t.node prefixes table).map fun r => (r.1, r.2.rename f) := by
  cases t with
  | var name =>
    have hblank := Placeholders.blank_rename hf table name
    simp only [rename, node, hblank, Except.map]
  | const value =>
    simp only [rename, node]
    cases value.resolve prefixes <;> rfl

namespace Statements

theorem add_rename (prefixes : Prefixes) (s : Statements) (w : Statement.Phrase) :
    add prefixes (s.rename f) (w.rename f) = (add prefixes s w).map (rename f) := by
  have hnode := Term.Phrase.node_rename hf prefixes
  unfold add
  simp only [rename, Statement.Phrase.rename, hnode]
  cases w.subject.node prefixes s.placeholders with
  | error e => rfl
  | ok first =>
    simp only [Except.map, bind, Except.bind, hnode]
    cases w.predicate.node prefixes first.2 with
    | error e => rfl
    | ok second =>
      simp only [Except.map, hnode]
      cases w.object.node prefixes second.2 with
      | error e => rfl
      | ok third =>
        dsimp only
        cases second.1.asPredicate with
        | error e => rfl
        | ok text =>
          cases first.1.asSubject with
          | error e => rfl
          | ok subject => rfl

theorem foldlM_rename (prefixes : Prefixes) (s : Statements) (written : List Statement.Phrase) :
    (written.map (Statement.Phrase.rename f)).foldlM (add prefixes) (s.rename f)
      = (written.foldlM (add prefixes) s).map (rename f) := by
  induction written generalizing s with
  | nil => rfl
  | cons w rest ih =>
    rw [List.map_cons, List.foldlM_cons, List.foldlM_cons, add_rename hf]
    cases add prefixes s w with
    | error e => rfl
    | ok next => exact ih next

theorem gather_rename (prefixes : Prefixes) (written : List Statement.Phrase) :
    gather prefixes (written.map (Statement.Phrase.rename f))
      = (gather prefixes written).map (rename f) :=
  foldlM_rename hf prefixes empty written

end Statements
end TripleQuery
