import Mathlib.Data.List.Forall2
import TripleQuery.Proofs.Phrases
import TripleQuery.Proofs.Query.Columns

/-!
# The columns of a query for statements

A query for statements is written with three terms, which are read as a list of columns. In such a
list a variable that is repeated counts once. So the columns are the three terms only if no variable
is there twice; else there are fewer of them, and a row of the answer is no statement
(`StatementQuery.showsFirsts_of_resolve`).
-/

namespace TripleQuery

/-- The terms without the variables that are there already, be it in the list or in `seen`. -/
def Term.firsts : List String → List Term → List Term
  | _, [] => []
  | seen, .var name :: rest =>
    if name ∈ seen then firsts seen rest else .var name :: firsts (name :: seen) rest
  | seen, .const value :: rest => .const value :: firsts seen rest

theorem Term.firsts_sublist (seen : List String) (terms : List Term) :
    (firsts seen terms).Sublist terms := by
  induction terms generalizing seen with
  | nil => exact List.Sublist.slnil
  | cons term rest ih =>
    cases term with
    | const value => exact (ih seen).cons_cons _
    | var name =>
      by_cases hseen : name ∈ seen
      · rw [firsts, if_pos hseen]
        exact (ih seen).cons _
      · rw [firsts, if_neg hseen]
        exact (ih (name :: seen)).cons_cons _

theorem Term.firsts_eq_self_iff {seen : List String} {terms : List Term} :
    firsts seen terms = terms ↔
      (terms.flatMap varNames).Nodup ∧ ∀ name ∈ terms.flatMap varNames, name ∉ seen := by
  induction terms generalizing seen with
  | nil => simp [firsts]
  | cons term rest ih =>
    cases term with
    | const value => simp [firsts, varNames, ih]
    | var name =>
      by_cases hseen : name ∈ seen
      · have hshorter := (firsts_sublist seen rest).length_le
        have hne : firsts seen rest ≠ .var name :: rest := by
          intro heq
          have hlength := congrArg List.length heq
          rw [List.length_cons] at hlength
          omega
        simp [firsts, varNames, hseen, hne]
      · have hstep : firsts seen (.var name :: rest) = .var name :: firsts (name :: seen) rest := by
          rw [firsts, if_neg hseen]
        have hnames : (Term.var name :: rest).flatMap varNames = name :: rest.flatMap varNames :=
          rfl
        rw [hstep, List.cons_eq_cons, ih, hnames, List.nodup_cons]
        constructor
        · rintro ⟨-, hnodup, hapart⟩
          refine ⟨⟨fun hmem => hapart name hmem (List.mem_cons_self ..), hnodup⟩, ?_⟩
          intro x hx hxseen
          rcases List.mem_cons.1 hx with rfl | hx
          · exact hseen hxseen
          · exact hapart x hx (List.mem_cons_of_mem _ hxseen)
        · rintro ⟨⟨hname, hnodup⟩, hapart⟩
          refine ⟨rfl, hnodup, fun x hx hmem => ?_⟩
          rcases List.mem_cons.1 hmem with rfl | hmem
          · exact hname hx
          · exact hapart x (List.mem_cons_of_mem _ hx) hmem

def Column.term? : Column → Option Term
  | var name => some (.var name)
  | constant _ value => some (.const value)
  | _ => none

/-- Written terms as a list of columns give the terms for which they stand, each variable once. -/
theorem Column.Phrase.terms_of_listed {prefixes : Prefixes} {seen : List String} {next : Nat}
    {written : List Term.Phrase} {columns : List Column}
    (h : Listed prefixes seen next (written.map .term) columns) :
    ∃ terms, List.Forall₂ (fun w term => w.resolve prefixes = .ok term) written terms ∧
      columns.map Column.term? = (Term.firsts seen terms).map some := by
  induction written generalizing seen next columns with
  | nil =>
    cases h
    exact ⟨[], .nil, rfl⟩
  | cons first rest ih =>
    cases first with
    | var name =>
      have hread : ∀ {name}, Variable.isName name = true →
          (Term.Phrase.var name).resolve prefixes = .ok (.var name) := by
        intro name hname
        rw [Term.Phrase.resolve, Variable.check_eq_ok.2 ⟨hname, rfl⟩]
        rfl
      cases h with
      | again hname hseen hrest =>
        obtain ⟨terms, hterms, hcolumns⟩ := ih hrest
        refine ⟨.var name :: terms, .cons (hread hname) hterms, ?_⟩
        rw [Term.firsts, if_pos hseen, hcolumns]
      | var hname hseen hrest =>
        obtain ⟨terms, hterms, hcolumns⟩ := ih hrest
        refine ⟨.var name :: terms, .cons (hread hname) hterms, ?_⟩
        rw [Term.firsts, if_neg hseen, List.map_cons, List.map_cons, hcolumns]
        rfl
      | value hgives => cases hgives
    | const value =>
      cases h with
      | value hgives _ hrest =>
        cases hgives with
        | @constant name _ value hvalue =>
          obtain ⟨terms, hterms, hcolumns⟩ := ih hrest
          refine ⟨.const value :: terms, .cons ?_ hterms, ?_⟩
          · rw [Term.Phrase.resolve, hvalue]
            rfl
          · rw [Term.firsts, List.map_cons, List.map_cons, hcolumns]
            rfl

namespace StatementQuery

def Reads (prefixes : Prefixes) (st : StatementQuery) (subject predicate object : Term) : Prop :=
  st.subject.resolve prefixes = .ok subject ∧ st.predicate.resolve prefixes = .ok predicate ∧
    st.object.resolve prefixes = .ok object

/-- The query shows the three terms that were written, a repeated variable once; there are three
columns, and these are the subject, the predicate and the object, exactly if no variable is
repeated. -/
def ShowsFirsts (prefixes : Prefixes) (st : StatementQuery) (q : Query) : Prop :=
  ∃ subject predicate object, st.Reads prefixes subject predicate object ∧
    q.columns.map Column.term? = (Term.firsts [] [subject, predicate, object]).map some ∧
    (q.columns.length = 3 ↔ ([subject, predicate, object].flatMap Term.varNames).Nodup) ∧
    (q.columns.map Column.term? = [some subject, some predicate, some object] ↔
      ([subject, predicate, object].flatMap Term.varNames).Nodup)

theorem showsFirsts_of_resolve {prefixes : Prefixes} {st : StatementQuery} {q : Query}
    (h : (Select.statements st).resolve prefixes = .ok q) : st.ShowsFirsts prefixes q := by
  have hquery : st.toQuery.resolve prefixes = .ok q := h
  rcases Query.listed_of_resolve hquery with ⟨habsent, _⟩ | ⟨written, hwritten, hlisted⟩
  · cases habsent
  · cases hwritten
    have hlisted : Column.Phrase.Listed prefixes [] 0
        ([st.subject, st.predicate, st.object].map .term) q.columns := hlisted
    obtain ⟨terms, hterms, hcolumns⟩ := Column.Phrase.terms_of_listed hlisted
    cases hterms with
    | @cons _ subject _ _ hsubject hterms =>
    cases hterms with
    | @cons _ predicate _ _ hpredicate hterms =>
    cases hterms with
    | @cons _ object _ _ hobject hterms =>
    cases hterms
    have hself : Term.firsts [] [subject, predicate, object] = [subject, predicate, object] ↔
        ([subject, predicate, object].flatMap Term.varNames).Nodup := by
      simp [Term.firsts_eq_self_iff]
    refine ⟨subject, predicate, object, ⟨hsubject, hpredicate, hobject⟩, hcolumns, ?_, ?_⟩
    · have hlength : q.columns.length = (Term.firsts [] [subject, predicate, object]).length := by
        simpa using congrArg List.length hcolumns
      rw [hlength, ← hself]
      constructor
      · intro hthree
        exact (Term.firsts_sublist _ _).eq_of_length hthree
      · intro heq
        rw [heq]
        rfl
    · have hthree : [some subject, some predicate, some object]
          = [subject, predicate, object].map some := rfl
      have hinj : ∀ x y : Term, some x = some y → x = y := fun _ _ => Option.some.inj
      rw [hcolumns, ← hself, hthree, List.map_inj_right hinj]

end StatementQuery
end TripleQuery
