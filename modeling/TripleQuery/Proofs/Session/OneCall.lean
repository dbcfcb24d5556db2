import TripleQuery.Proofs.Session.Accepted

/-!
# The law of one call

A session is changed by few calls: a label that is defined, by a call or by a command, is assigned
its name space, and a query that is selected, be it for the statements of a change, is kept. What
a call changes is told by the call and its reply (`Call.after`); a call that fails changes
nothing. The reply is the one that the call gets at the start of a session (`step_eq`).
-/

namespace TripleQuery

def Call.assignment? : Call → Except Error Reply → Option (String × Iri)
  | .define label ns, .ok _ => some (label, ns)
  | .execute (.define label target), .ok _ =>
    (readReference target).toOption.map fun ns => (label, ns)
  | _, _ => none

/-- The query that a successful call builds, for itself or as the source of a change. -/
def Call.query? : Call → Except Error Reply → Option Query
  | .execute (.select _), .ok (.command (.query query)) => some query
  | .execute (.change _ (.query _) _), .ok (.command (.change _ _ (.query query))) => some query
  | .selectOnly _, .ok (.query query) => some query
  | .select _, .ok (.query query) => some query
  | _, _ => none

def Call.defines : Call → Bool
  | .define .. | .execute (.define ..) => true
  | _ => false

def Call.builds : Call → Bool
  | .execute (.select _) | .execute (.change _ (.query _) _) | .selectOnly _ | .select _ => true
  | _ => false

def Call.after (call : Call) (reply : Except Error Reply) (s : Session) : Session where
  prefixes := (call.assignment? reply).elim s.prefixes fun entry =>
    s.prefixes.insert entry.1 entry.2
  server := s.server
  lastQuery := (call.query? reply).or s.lastQuery

theorem Call.after_error (call : Call) (e : Error) (s : Session) : call.after (.error e) s = s := by
  have hassignment : call.assignment? (.error e) = none := by
    unfold Call.assignment?
    split <;> first | rfl | contradiction
  have hquery : call.query? (.error e) = none := by
    unfold Call.query?
    split <;> first | rfl | contradiction
  simp only [Call.after, hassignment, hquery, Option.elim_none, Option.none_or]

namespace Session

/-! ### Actions -/

theorem settles_graphAddress (token : String) : Settles (graphAddress token) fun _ s => s :=
  settles_view fun _ => rfl

theorem settles_graphType (type : Option String) : Settles (graphType type) fun _ s => s := by
  cases type with
  | none => exact settles_pure _
  | some token => exact settles_view fun _ => rfl

theorem settles_select (written : Select) :
    Settles (select written) fun query s => { s with lastQuery := some query } :=
  settles_bind (settles_view fun _ => rfl) settles_keep

def keepSource : Source.Phrase → Source → Session → Session
  | .query _, .query query, s => { s with lastQuery := some query }
  | _, _, s => s

theorem settles_source (kind : Change) (written : Source.Phrase) :
    Settles (source kind written) (keepSource written) := by
  cases written with
  | statements written =>
    refine settles_bind (settles_view fun _ => rfl) fun statements => ?_
    refine settles_map (settles_view fun _ => rfl) fun _ _ => ?_
    rfl
  | query written =>
    refine settles_map (settles_select _) fun _ _ => ?_
    rfl
  | graph token => exact settles_throw _ _

/-! ### Commands -/

def afterExecute (command : Command.Phrase) (result : Command) : Session → Session :=
  (Call.execute command).after (.ok (.command result))

theorem perform_execute_define (label target : String) (s : Session) :
    perform (execute (.define label target)) s
      = settled (afterExecute (.define label target)) s
          ((readReference target).map fun ns => .define label ns) := by
  have hview : perform (view fun _ => readReference target) s = (readReference target, s) :=
    perform_view _ s
  cases hread : readReference target with
  | error e =>
    have hfails : perform (view fun _ => readReference target) s = (.error e, s) := by
      rw [hview, hread]
    exact perform_bind_error hfails
  | ok ns =>
    have hreads : perform (view fun _ => readReference target) s = (.ok ns, s) := by
      rw [hview, hread]
    have hexecute : perform (execute (.define label target)) s
        = (.ok (.define label ns), { s with prefixes := s.prefixes.insert label ns }) :=
      perform_bind_ok hreads
    have hafter : afterExecute (.define label target) (.define label ns) s
        = { s with prefixes := s.prefixes.insert label ns } := by
      simp only [afterExecute, Call.after, Call.assignment?, Call.query?, hread, Except.toOption,
        Option.map_some, Option.elim_some, Option.none_or]
    rw [hexecute, ← hafter]
    rfl

theorem settles_execute (command : Command.Phrase) :
    Settles (execute command) (afterExecute command) := by
  cases command with
  | select query =>
    refine settles_map (settles_select _) fun _ _ => ?_
    rfl
  | define label target =>
    intro s
    rw [perform_execute_define, perform_execute_define]
    cases readReference target with
    | error e => rfl
    | ok ns => rfl
  | change kind written token =>
    refine settles_bind (settles_graphAddress token) fun graph => ?_
    refine settles_map (settles_source kind written) fun result s => ?_
    cases written <;> cases result <;> rfl
  | create token type =>
    refine settles_bind (settles_graphType type) fun type => ?_
    refine settles_map (settles_graphAddress token) fun _ _ => ?_
    rfl
  | drop token =>
    refine settles_map (settles_graphAddress token) fun _ _ => ?_
    rfl

theorem settles_selectOnly (command : Command.Phrase) :
    Settles (selectOnly command) fun query s => { s with lastQuery := some query } := by
  cases command with
  | select query => exact settles_select _
  | define | change | create | drop => exact settles_throw _ _

/-- A change by a query is accepted with the query that its source stands for. -/
theorem source_of_execute_change {s after : Session} {kind : Change} {st : StatementQuery}
    {token : String} {command : Command}
    (h : perform (execute (.change kind (.query st) token)) s = (.ok command, after)) :
    ∃ graph q, command = .change kind graph (.query q) ∧
      (Select.statements st).resolve s.prefixes = .ok q := by
  cases gives_of_execute h with
  | change _ hsource =>
    cases hsource with
    | query hread => exact ⟨_, _, rfl, hread⟩

/-! ### Calls -/

theorem settles_answer (call : Call) :
    Settles (answer call) fun reply => call.after (.ok reply) := by
  cases call with
  | execute command =>
    refine settles_map (settles_execute command) fun _ _ => ?_
    rfl
  | selectOnly command =>
    refine settles_map (settles_selectOnly command) fun _ _ => ?_
    rfl
  | select written =>
    refine settles_map (settles_select written) fun _ _ => ?_
    rfl
  | define label ns =>
    refine settles_map (settles_define label ns) fun _ _ => ?_
    rfl
  | condition | having | statements | find | resolve =>
    refine settles_map (settles_view fun _ => rfl) fun _ _ => ?_
    rfl

def replyAtStart (prefixes : Prefixes) (server : Option Server) (call : Call) :
    Except Error Reply :=
  ((start prefixes server).step call).1

/-- A call is replied to as at the start of a session, and the reply tells what changes. -/
theorem step_eq (s : Session) (call : Call) :
    s.step call = (replyAtStart s.prefixes s.server call,
      call.after (replyAtStart s.prefixes s.server call) s) := by
  have hsettles : s.step call
      = settled (fun reply => call.after (.ok reply)) s (replyAtStart s.prefixes s.server call) :=
    settles_answer call s
  rw [hsettles]
  cases replyAtStart s.prefixes s.server call with
  | error e => rw [settled, Call.after_error]
  | ok reply => rfl

theorem isSome_assignment?_of_ok {s after : Session} {call : Call} {reply : Reply}
    (h : perform (answer call) s = (.ok reply, after)) :
    (call.assignment? (.ok reply)).isSome = call.defines := by
  cases call with
  | execute command =>
    cases command with
    | define label target =>
      obtain ⟨result, hexecute, -⟩ := perform_map_eq_ok.1 h
      rw [perform_execute_define] at hexecute
      cases hread : readReference target with
      | error e =>
        rw [hread] at hexecute
        cases congrArg Prod.fst hexecute
      | ok ns => simp [Call.assignment?, Call.defines, hread, Except.toOption]
    | select | change | create | drop => rfl
  | selectOnly | select | condition | having | statements | define | find | resolve => rfl

theorem isSome_query?_of_ok {s after : Session} {call : Call} {reply : Reply}
    (h : perform (answer call) s = (.ok reply, after)) :
    (call.query? (.ok reply)).isSome = call.builds := by
  cases call with
  | execute command =>
    obtain ⟨result, hexecute, rfl⟩ := perform_map_eq_ok.1 h
    cases command with
    | select query =>
      obtain ⟨q, -, rfl⟩ := perform_map_eq_ok.1 hexecute
      rfl
    | change kind written token =>
      cases written with
      | query st =>
        obtain ⟨graph, q, rfl, -⟩ := source_of_execute_change hexecute
        rfl
      | statements | graph => rfl
    | define | create | drop => rfl
  | selectOnly | select =>
    obtain ⟨q, -, rfl⟩ := perform_map_eq_ok.1 h
    rfl
  | condition | having | statements | define | find | resolve => rfl

/-- What a call does in a session: it is replied to as at the start of a session with the same
prefixes and server, and the reply tells what changes, nothing if it is an error. A call that is
to define a label or to build a query has done so when it succeeds, and a label can be given to any
name space. -/
structure Answers (s : Session) (call : Call) (reply : Except Error Reply) (next : Session) :
    Prop where
  reply_eq : reply = replyAtStart s.prefixes s.server call
  next_eq : next = call.after reply s
  unchanged : ∀ e, reply = .error e → next = s
  defines : ∀ r, reply = .ok r → (call.assignment? reply).isSome = call.defines
  builds : ∀ r, reply = .ok r → (call.query? reply).isSome = call.builds
  accepts : ∀ label ns, call = .define label ns → reply = .ok .defined

theorem answers_step (s : Session) (call : Call) :
    Answers s call (s.step call).1 (s.step call).2 := by
  have hstep := step_eq s call
  have hreply : (s.step call).1 = replyAtStart s.prefixes s.server call := by rw [hstep]
  have hnext : (s.step call).2 = call.after (s.step call).1 s := by rw [hstep]
  refine ⟨hreply, hnext, fun e herror => ?_, fun r hok => ?_, fun r hok => ?_, ?_⟩
  · rw [hnext, herror, Call.after_error]
  · rw [hok]
    exact isSome_assignment?_of_ok (Prod.ext hok rfl)
  · rw [hok]
    exact isSome_query?_of_ok (Prod.ext hok rfl)
  · rintro label ns rfl
    rfl

end Session
end TripleQuery
