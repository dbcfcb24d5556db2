import TripleQuery.Error
import TripleQuery.Iri.Basic
import TripleQuery.Outcome

/-!
# Prefixes

A table of labels that stand for name spaces, each label for one. A resource is written as an IRI;
if the scheme of that IRI is a label of the table, and no slash follows it, then the resource is the
name space with the rest put behind it, up to the mark of a fragment.
-/

namespace TripleQuery

/-- A table of labels and the name spaces for which they stand. No label occurs twice. -/
structure Prefixes where
  entries : List (String × Iri)
  distinct : (entries.map Prod.fst).Nodup

/-- Reads a text as an absolute IRI; an error tells the text. -/
def readReference (text : String) : Except Error Iri := (Iri.parse text).mapError (.malformed text)

theorem readReference_text (iri : Iri) : readReference iri.text = .ok iri :=
  mapError_eq_ok.2 iri.parse_text

theorem readReference_eq_error {text : String} {e : Error} (h : readReference text = .error e) :
    ∃ fault, e = .malformed text fault := by
  unfold readReference at h
  cases hparse : Iri.parse text with
  | ok iri =>
    rw [hparse] at h
    cases h
  | error fault =>
    rw [hparse] at h
    cases h
    exact ⟨fault, rfl⟩

namespace Prefixes

def empty : Prefixes := ⟨[], List.nodup_nil⟩

def size (table : Prefixes) : Nat := table.entries.length

def find? (table : Prefixes) (label : String) : Option Iri := table.entries.lookup label

/-- Gives a label a name space: in its place if the label is there, else at the end. -/
def assign (label : String) (ns : Iri) : List (String × Iri) → List (String × Iri)
  | [] => [(label, ns)]
  | entry :: rest =>
    if entry.1 = label then (label, ns) :: rest else entry :: assign label ns rest

theorem mem_assign_labels {label x : String} {ns : Iri} {entries : List (String × Iri)} :
    x ∈ (assign label ns entries).map Prod.fst ↔ x = label ∨ x ∈ entries.map Prod.fst := by
  induction entries with
  | nil => simp [assign]
  | cons entry rest ih =>
    simp only [assign]
    split
    · next h => simp [h]
    · rw [List.map_cons, List.mem_cons, ih, List.map_cons, List.mem_cons]
      constructor <;> rintro (h | h | h) <;> simp [h]

theorem nodup_assign {label : String} {ns : Iri} {entries : List (String × Iri)}
    (h : (entries.map Prod.fst).Nodup) : ((assign label ns entries).map Prod.fst).Nodup := by
  induction entries with
  | nil => simp [assign]
  | cons entry rest ih =>
    rw [List.map_cons, List.nodup_cons] at h
    simp only [assign]
    split
    · next heq => exact List.nodup_cons.2 ⟨heq ▸ h.1, h.2⟩
    · next hne =>
      refine List.nodup_cons.2 ⟨fun hmem => ?_, ih h.2⟩
      rcases mem_assign_labels.1 hmem with heq | hrest
      · exact hne heq
      · exact h.1 hrest

def insert (table : Prefixes) (label : String) (ns : Iri) : Prefixes :=
  ⟨assign label ns table.entries, nodup_assign table.distinct⟩

/-- The table of a list of entries. The last entry of a label counts. -/
def ofList (entries : List (String × Iri)) : Prefixes :=
  entries.foldl (fun table entry => table.insert entry.1 entry.2) empty

theorem lookup_assign (label x : String) (ns : Iri) (entries : List (String × Iri)) :
    (assign label ns entries).lookup x = if x = label then some ns else entries.lookup x := by
  induction entries with
  | nil =>
    by_cases h : x = label
    · simp [assign, h]
    · simp [assign, List.lookup_cons, h, beq_eq_false_iff_ne.2 h]
  | cons entry rest ih =>
    obtain ⟨first, other⟩ := entry
    simp only [assign]
    by_cases hf : first = label
    · by_cases h : x = label
      · simp [hf, h]
      · simp [List.lookup_cons, hf, h, beq_eq_false_iff_ne.2 h]
    · rw [if_neg hf]
      by_cases hx : x = first
      · simp [hx, hf]
      · simp [List.lookup_cons, beq_eq_false_iff_ne.2 hx, ih]

theorem find?_insert (table : Prefixes) (label x : String) (ns : Iri) :
    (table.insert label ns).find? x = if x = label then some ns else table.find? x :=
  lookup_assign label x ns table.entries

/-- Of several entries for a label the last one counts; without entries it keeps what it has. -/
theorem find?_foldl_insert (table : Prefixes) (entries : List (String × Iri)) (label : String) :
    (entries.foldl (fun table entry => table.insert entry.1 entry.2) table).find? label
      = (entries.reverse.lookup label).or (table.find? label) := by
  induction entries generalizing table with
  | nil => rfl
  | cons entry rest ih =>
    obtain ⟨first, ns⟩ := entry
    rw [List.foldl_cons, ih, find?_insert, List.reverse_cons, List.lookup_append, Option.or_assoc]
    congr 1
    by_cases h : label = first
    · simp [h]
    · simp [List.lookup_cons, h, beq_eq_false_iff_ne.2 h]

/-- What a token adds to a name space: what follows its scheme, without a fragment. -/
def localPart (token : Iri) : List Char := token.afterScheme.takeWhile (· != '#')

def resolve (table : Prefixes) (token : String) : Except Error Iri := do
  let iri ← readReference token
  if iri.afterScheme.head? = some '/' then return iri
  match table.find? iri.scheme with
  | none => return iri
  | some ns => readReference (ns.text ++ String.ofList (localPart iri))

theorem resolve_empty (token : String) : empty.resolve token = readReference token := by
  show (readReference token >>= fun iri =>
    if iri.afterScheme.head? = some '/' then .ok iri else .ok iri) = _
  cases readReference token with
  | error e => rfl
  | ok iri => exact ite_self _

/-- Without prefixes an address stands for itself. -/
theorem resolve_empty_text (iri : Iri) : empty.resolve iri.text = .ok iri := by
  rw [resolve_empty, readReference_text]

end Prefixes
end TripleQuery
