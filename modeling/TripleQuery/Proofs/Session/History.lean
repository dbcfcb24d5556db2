import TripleQuery.Proofs.Session.OneCall

/-!
# The law of a run

A run is told by its history, the calls with their replies. The prefixes after it are those at the
start with the assignments of the history made in their order, and the query that was built last is
the last one of the history (`run_law`).
-/

namespace TripleQuery.Session

def history (s : Session) (calls : List Call) : List (Call × Except Error Reply) :=
  calls.zip (s.run calls).1

def assigned (history : List (Call × Except Error Reply)) : List (String × Iri) :=
  history.filterMap fun entry => entry.1.assignment? entry.2

def built (history : List (Call × Except Error Reply)) : List Query :=
  history.filterMap fun entry => entry.1.query? entry.2

theorem run_cons (s : Session) (call : Call) (rest : List Call) :
    s.run (call :: rest) = ((s.step call).1 :: ((s.step call).2.run rest).1,
      ((s.step call).2.run rest).2) := rfl

theorem history_cons (s : Session) (call : Call) (rest : List Call) :
    s.history (call :: rest) = (call, (s.step call).1) :: (s.step call).2.history rest := rfl

theorem run_append (s : Session) (before after : List Call) :
    s.run (before ++ after) = ((s.run before).1 ++ ((s.run before).2.run after).1,
      ((s.run before).2.run after).2) := by
  induction before generalizing s with
  | nil => rfl
  | cons call rest ih => rw [List.cons_append, run_cons, run_cons, ih, List.cons_append]

theorem length_replies (s : Session) (calls : List Call) :
    (s.run calls).1.length = calls.length := by
  induction calls generalizing s with
  | nil => rfl
  | cons call rest ih => rw [run_cons, List.length_cons, List.length_cons, ih]

theorem server_step (s : Session) (call : Call) : (s.step call).2.server = s.server := by
  rw [step_eq]
  rfl

theorem server_run (s : Session) (calls : List Call) : (s.run calls).2.server = s.server := by
  induction calls generalizing s with
  | nil => rfl
  | cons call rest ih =>
    rw [run_cons]
    show ((s.step call).2.run rest).2.server = s.server
    rw [ih, server_step]

theorem prefixes_step (s : Session) (call : Call) :
    (s.step call).2.prefixes = ((call.assignment? (s.step call).1).toList).foldl
      (fun table entry => table.insert entry.1 entry.2) s.prefixes := by
  rw [step_eq]
  show (call.assignment? (replyAtStart s.prefixes s.server call)).elim s.prefixes
    (fun entry => s.prefixes.insert entry.1 entry.2) = _
  cases call.assignment? (replyAtStart s.prefixes s.server call) with
  | none => rfl
  | some entry => rfl

theorem lastQuery_step (s : Session) (call : Call) :
    (s.step call).2.lastQuery = (call.query? (s.step call).1).or s.lastQuery := by
  rw [step_eq]
  rfl

theorem prefixes_run (s : Session) (calls : List Call) :
    (s.run calls).2.prefixes = (assigned (s.history calls)).foldl
      (fun table entry => table.insert entry.1 entry.2) s.prefixes := by
  induction calls generalizing s with
  | nil => rfl
  | cons call rest ih =>
    have hfirst : assigned (s.history (call :: rest))
        = (call.assignment? (s.step call).1).toList ++ assigned ((s.step call).2.history rest) := by
      rw [history_cons, assigned, assigned, List.filterMap_cons]
      cases call.assignment? (s.step call).1 with
      | none => rfl
      | some entry => rfl
    show ((s.step call).2.run rest).2.prefixes = _
    rw [ih, hfirst, List.foldl_append, ← prefixes_step]

theorem lastQuery_run (s : Session) (calls : List Call) :
    (s.run calls).2.lastQuery = (built (s.history calls)).getLast?.or s.lastQuery := by
  induction calls generalizing s with
  | nil => rfl
  | cons call rest ih =>
    have hfirst : built (s.history (call :: rest))
        = (call.query? (s.step call).1).toList ++ built ((s.step call).2.history rest) := by
      rw [history_cons, built, built, List.filterMap_cons]
      cases call.query? (s.step call).1 with
      | none => rfl
      | some query => rfl
    show ((s.step call).2.run rest).2.lastQuery = _
    rw [ih, hfirst, List.getLast?_append, lastQuery_step, Option.or_assoc]
    cases call.query? (s.step call).1 with
    | none => rfl
    | some query => rfl

theorem isSome_find?_run {s : Session} {label : String} (h : (s.prefixes.find? label).isSome = true)
    (calls : List Call) : ((s.run calls).2.prefixes.find? label).isSome = true := by
  rw [prefixes_run, Prefixes.find?_foldl_insert, Option.isSome_or, h, Bool.or_true]

/-- What a run of calls does to the session, and what each of its calls does, made after the calls
`before` it. -/
theorem run_law (prefixes : Prefixes) (server : Option Server) (calls : List Call) :
    ((start prefixes server).run calls).2.prefixes
        = (assigned ((start prefixes server).history calls)).foldl
            (fun table entry => table.insert entry.1 entry.2) prefixes ∧
      (∀ label, ((start prefixes server).run calls).2.prefixes.find? label
        = ((assigned ((start prefixes server).history calls)).reverse.lookup label).or
            (prefixes.find? label)) ∧
      ((start prefixes server).run calls).2.lastQuery
        = (built ((start prefixes server).history calls)).getLast? ∧
      ((start prefixes server).run calls).1.length = calls.length ∧
      ∀ before call after, calls = before ++ call :: after →
        let here := ((start prefixes server).run before).2
        here.server = server ∧
          (∃ reply, ((start prefixes server).run calls).1[before.length]? = some reply ∧
            Answers here call reply ((start prefixes server).run (before ++ [call])).2) ∧
          ∀ label, (here.prefixes.find? label).isSome = true →
            (((start prefixes server).run calls).2.prefixes.find? label).isSome = true := by
  have hprefixes := prefixes_run (start prefixes server) calls
  have hlast := lastQuery_run (start prefixes server) calls
  refine ⟨hprefixes, fun label => ?_, ?_, length_replies _ _, ?_⟩
  · rw [hprefixes, Prefixes.find?_foldl_insert]
    rfl
  · rw [hlast]
    exact Option.or_none
  · intro before call after hcalls here
    have hnext : ((start prefixes server).run (before ++ [call])).2 = (here.step call).2 := by
      rw [run_append]
      rfl
    have hreplies : ((start prefixes server).run calls).1
        = ((start prefixes server).run before).1 ++ (here.run (call :: after)).1 := by
      rw [hcalls, run_append]
    refine ⟨server_run _ before, ⟨(here.step call).1, ?_, ?_⟩, fun label hlabel => ?_⟩
    · have hlength := length_replies (start prefixes server) before
      rw [hreplies, List.getElem?_append_right (by omega), hlength, Nat.sub_self, run_cons]
      rfl
    · rw [hnext]
      exact answers_step here call
    · have hrest := isSome_find?_run hlabel (call :: after)
      rw [hcalls, run_append]
      exact hrest

/-- A label that is defined, not redefined by a text that is no address, and redefined. -/
def redefinition : List Call :=
  [.execute (.define "a" "urn:a"), .execute (.define "a" "b"), .execute (.define "a" "urn:b")]

theorem run_law_redefinition :
    redefinition = [.execute (.define "a" "urn:a")] ++ .execute (.define "a" "b") ::
        [.execute (.define "a" "urn:b")] ∧
      ((start .empty none).run (redefinition.take 2)).2
        = ((start .empty none).run (redefinition.take 1)).2 ∧
      (((start .empty none).run redefinition).2.prefixes.find? "a").map Iri.text
        = some "urn:b" := by
  have hlaw := run_law .empty none redefinition
  obtain ⟨-, ⟨reply, hreply, hanswers⟩, -⟩ := hlaw.2.2.2.2 [.execute (.define "a" "urn:a")]
    (.execute (.define "a" "b")) [.execute (.define "a" "urn:b")] rfl
  have herror : reply = .error (.malformed "b" .noScheme) := (Option.some.inj hreply).symm
  refine ⟨rfl, hanswers.unchanged _ herror, ?_⟩
  rw [hlaw.2.1 "a"]
  rfl

end TripleQuery.Session
