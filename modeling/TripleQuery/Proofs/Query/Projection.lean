import TripleQuery.Proofs.Errors.Columns
import TripleQuery.Proofs.Query.Naming

/-!
# Projection

The columns of a query are those of its written list, each variable where it stands first, in the
order of the list. The columns that are no variables are numbered from left to right, whatever their
sort, and show what they were written for; a query among them is the one that is read on its own
(`Column.Phrase.Projects`). An absent list stands for no columns, and a list that is there always
gives one (`Query.Phrase.projects_of_resolve`).
-/

namespace TripleQuery

theorem Variable.isName_generated (index : Nat) : isName (generated index) = true := by
  have hdigit : ∀ c : Char, c.isDigit = true → isLater c = true := by
    intro c hc
    have hrange : Text.isDigit c = true := by
      simpa [Text.isDigit, Char.isDigit, Char.le_def] using hc
    simp [isLater, isNameChar, hrange]
  have htext : (generated index).toList = 'k' :: Nat.toDigits 10 index := by
    simp [generated, Nat.toList_repr]
  have hinitial : isInitial 'k' = true := by decide
  unfold isName
  rw [htext]
  simp only [hinitial, Bool.true_and, List.all_eq_true]
  exact fun c hc => hdigit c (Nat.isDigit_of_mem_toDigits (by omega) (by omega) hc)

namespace Column.Phrase

variable {prefixes : Prefixes}

/-- Both columns are the same variable. -/
def sameVariable (a b : Column.Phrase) : Bool :=
  match a.var?, b.var? with
  | some x, some y => x == y
  | _, _ => false

/-- The list without the variables that stand further in front, too. -/
def firsts (written : List Column.Phrase) : List Column.Phrase :=
  written.eraseDupsBy sameVariable

/-- The columns that are no variables. -/
def values (written : List Column.Phrase) : List Column.Phrase :=
  written.filter fun w => w.var?.isNone

/-- A written column and the column for which it stands, under some name if it is no variable. -/
inductive Shows (prefixes : Prefixes) : Column.Phrase → Column → Prop
  | var {name : String} : Shows prefixes (.term (.var name)) (.var name)
  | value {written : Column.Phrase} {column : Column} :
      Gives prefixes written column → Shows prefixes written column

/-- The columns are those of a written list: each variable once, all else under the next name. -/
structure Projects (prefixes : Prefixes) (written : List Column.Phrase) (columns : List Column) :
    Prop where
  shown : List.Forall₂ (Shows prefixes) (firsts written) columns
  values : List.Forall₂ (Gives prefixes) (values written) (Column.unnamed columns)
  names : (Column.unnamed columns).map Column.name
    = Variable.generatedNames (Phrase.values written).length
  nodup : ((Column.unnamed columns).map Column.name).Nodup
  valid : ∀ column ∈ columns, Variable.isName column.name = true

/-! ### Columns in the order of the list -/

/-- The variables in a list of names count as seen. -/
def unseen (seen : List String) (w : Column.Phrase) : Bool :=
  match w.var? with
  | some name => name ∉ seen
  | none => true

theorem firsts_cons (w : Column.Phrase) (rest : List Column.Phrase) :
    firsts (w :: rest) = w :: firsts (rest.filter fun x => sameVariable x w = false) :=
  List.eraseDupsBy_cons

theorem filter_unseen_var (seen : List String) (name : String) (rest : List Column.Phrase) :
    (rest.filter (unseen seen)).filter (fun x => sameVariable x (.term (.var name)) = false)
      = rest.filter (unseen (name :: seen)) := by
  rw [List.filter_filter]
  refine List.filter_congr fun x _ => ?_
  unfold unseen sameVariable
  cases x.var? with
  | none => rfl
  | some y => simp [var?]

theorem filter_sameVariable_of_none {w : Column.Phrase} (h : w.var? = none)
    (rest : List Column.Phrase) : rest.filter (fun x => sameVariable x w = false) = rest := by
  refine List.filter_eq_self.2 fun x _ => ?_
  unfold sameVariable
  rw [h]
  cases x.var? <;> rfl

theorem var?_eq_none_of_gives {w : Column.Phrase} {column : Column} (h : Gives prefixes w column) :
    w.var? = none := by
  cases h <;> rfl

theorem shows_of_listed {seen : List String} {next : Nat} {written : List Column.Phrase}
    {columns : List Column} (h : Listed prefixes seen next written columns) :
    List.Forall₂ (Shows prefixes) (firsts (written.filter (unseen seen))) columns := by
  induction h with
  | nil => exact .nil
  | @again seen next name rest columns _ hseen _ ih =>
    have hskip : unseen seen (.term (.var name)) = false := by simp [unseen, var?, hseen]
    rwa [List.filter_cons_of_neg (by simp [hskip])]
  | @var seen next name rest columns _ hseen _ ih =>
    have hkeep : unseen seen (.term (.var name)) = true := by simp [unseen, var?, hseen]
    rw [List.filter_cons_of_pos hkeep, firsts_cons, filter_unseen_var]
    exact .cons .var ih
  | @value seen next w column rest columns hgives _ _ ih =>
    have hvar := var?_eq_none_of_gives hgives
    have hkeep : unseen seen w = true := by simp [unseen, hvar]
    rw [List.filter_cons_of_pos hkeep, firsts_cons, filter_sameVariable_of_none hvar]
    exact .cons (.value hgives) ih

theorem values_of_listed {seen : List String} {next : Nat} {written : List Column.Phrase}
    {columns : List Column} (h : Listed prefixes seen next written columns) :
    List.Forall₂ (Gives prefixes) (values written) (Column.unnamed columns) := by
  induction h with
  | nil => exact .nil
  | again _ _ _ ih => exact ih
  | var _ _ _ ih => exact ih
  | value hgives _ _ ih =>
    have hvar := var?_eq_none_of_gives hgives
    have hcolumn := var?_of_gives hgives
    rw [values, List.filter_cons_of_pos (by simp [hvar]), Column.unnamed,
      List.filter_cons_of_pos (by simp [hcolumn])]
    exact .cons hgives ih

theorem valid_of_listed {seen : List String} {next : Nat} {written : List Column.Phrase}
    {columns : List Column} (h : Listed prefixes seen next written columns) :
    ∀ column ∈ columns, Variable.isName column.name = true := by
  induction h with
  | nil => simp
  | again _ _ _ ih => exact ih
  | var hname _ _ ih => exact List.forall_mem_cons.2 ⟨hname, ih⟩
  | value _ hname _ ih =>
    exact List.forall_mem_cons.2 ⟨by rw [hname]; exact Variable.isName_generated _, ih⟩

theorem projects_of_listed {written : List Column.Phrase} {columns : List Column}
    (h : Listed prefixes [] 0 written columns) : Projects prefixes written columns := by
  have hall : written.filter (unseen []) = written := by
    refine List.filter_eq_self.2 fun w _ => ?_
    unfold unseen
    cases w.var? <;> simp
  have hvalues := values_of_listed h
  have hnames := Column.map_name_unnamed (numbered_of_listed h)
  rw [← List.range_eq_range', ← Variable.generatedNames, ← hvalues.length_eq] at hnames
  refine ⟨hall ▸ shows_of_listed h, hvalues, hnames, ?_, valid_of_listed h⟩
  rw [hnames]
  exact Variable.nodup_generatedNames _

end Column.Phrase

/-! ### Queries -/

/-- A query without a list of columns has none, and one with a list has the columns of this list;
its variables stand in patterns of the condition. Whatever query is written, it is never said to be
without columns. -/
theorem Query.Phrase.projects_of_resolve (prefixes : Prefixes) (w : Query.Phrase) :
    (∀ q, w.resolve prefixes = .ok q →
        (w.columns = none → q.columns = []) ∧
          (∀ written, w.columns = some written →
            Column.Phrase.Projects prefixes written q.columns) ∧
          ∀ name, .var name ∈ q.columns → ∃ p ∈ q.condition.patterns, name ∈ p.varNames) ∧
      ∀ written : Select,
        .query .noVariables ∉ written.errors prefixes ∧
          written.resolve prefixes ≠ .error (.query .noVariables) := by
  refine ⟨fun q h => ?_, fun written => ⟨written.noVariables_notMem_errors prefixes,
    written.resolve_ne_noVariables prefixes⟩⟩
  have hconstrained : ∀ name, .var name ∈ q.columns →
      ∃ p ∈ q.condition.patterns, name ∈ p.varNames := by
    intro name hmem
    exact List.mem_flatMap.1
      (Query.constrained_of_resolve h name (List.mem_filterMap.2 ⟨_, hmem, rfl⟩))
  rcases Query.listed_of_resolve h with ⟨habsent, hnil⟩ | ⟨written, hwritten, hlisted⟩
  · refine ⟨fun _ => hnil, fun written hwritten => ?_, hconstrained⟩
    rw [habsent] at hwritten
    cases hwritten
  · refine ⟨fun habsent => ?_, fun written' hwritten' => ?_, hconstrained⟩
    · rw [hwritten] at habsent
      cases habsent
    · rw [hwritten] at hwritten'
      cases hwritten'
      exact Column.Phrase.projects_of_listed hlisted

namespace Query

/-- A variable that stands three times, and columns of all other sorts between. -/
def mixedColumns : List Column.Phrase :=
  [.term (.var "x"), .term (.const (.resource "urn:r")), .term (.var "x"),
    .count ⟨some [.term (.var "y"), .term (.const (.resource "urn:r"))],
      Clauses.ofPattern "urn:m" (aboutVariable "y")⟩,
    .term (.const (.literal ⟨[.plain "l"], none⟩)),
    .subquery ⟨none, Clauses.ofPattern "urn:m" (aboutVariable "y")⟩, .term (.var "x")]

def mixed : Phrase := ⟨some mixedColumns, Clauses.ofPattern "urn:m" (aboutVariable "x")⟩

def mixedRead : Query :=
  ⟨[.var "x", .constant "k0" (.iri "urn:r"), .count "k1" countedInsideInner,
      .constant "k2" (.literal ⟨"l", none⟩),
      .subquery "k3" ⟨[], .graph "urn:m", aboutVariableRead "y", none, [], none, 0⟩],
    .graph "urn:m", aboutVariableRead "x", none, [], none, 0⟩

theorem projects_mixed :
    mixed.resolve Prefixes.empty = .ok mixedRead ∧
      Column.Phrase.Projects Prefixes.empty mixedColumns mixedRead.columns ∧
      ∃ p ∈ mixedRead.condition.patterns, "x" ∈ p.varNames := by
  have hread : mixed.resolve Prefixes.empty = .ok mixedRead := rfl
  obtain ⟨-, hcolumns, hvariables⟩ := (Phrase.projects_of_resolve .empty mixed).1 mixedRead hread
  exact ⟨hread, hcolumns mixedColumns rfl, hvariables "x" (List.mem_cons_self ..)⟩

end Query
end TripleQuery
