import TripleQuery.Session.Call

/-!
# Actions that settle

What an action does to a session, piece by piece. An action settles if its outcome depends on the
prefixes and the server alone, if a failure leaves the session as it was, and if a success changes
the session in a known way (`Settles`). Reading settles, and a change settles behind anything that
was only read. So no action of this shape can fail after it has changed something.
-/

namespace TripleQuery.Session

variable {α β : Type}

@[simp] theorem perform_pure (a : α) (s : Session) : perform (pure a) s = (.ok a, s) := rfl

@[simp] theorem perform_view (read : Session → Except Error α) (s : Session) :
    perform (view read) s = (read s, s) := rfl

theorem perform_bind_ok {x : Action α} {f : α → Action β} {s after : Session} {a : α}
    (h : perform x s = (.ok a, after)) : perform (x >>= f) s = perform (f a) after := by
  have hx : x.run.run s = (.ok a, after) := h
  show (x >>= f).run.run s = (f a).run.run after
  rw [ExceptT.run_bind, StateT.run_bind, hx]
  rfl

theorem perform_bind_error {x : Action α} {f : α → Action β} {s after : Session} {e : Error}
    (h : perform x s = (.error e, after)) : perform (x >>= f) s = (.error e, after) := by
  have hx : x.run.run s = (.error e, after) := h
  show (x >>= f).run.run s = (.error e, after)
  rw [ExceptT.run_bind, StateT.run_bind, hx]
  rfl

theorem perform_map (x : Action α) (g : α → β) (s : Session) :
    perform (x >>= fun a => pure (g a)) s = ((perform x s).1.map g, (perform x s).2) := by
  rcases h : perform x s with ⟨e | a, after⟩
  · exact perform_bind_error h
  · exact perform_bind_ok h

theorem perform_view_bind (read : Session → Except Error α) (f : α → Action β) (s : Session) :
    perform (view read >>= f) s =
      match read s with
      | .error e => (.error e, s)
      | .ok a => perform (f a) s := by
  have hview := perform_view read s
  cases hread : read s with
  | error e =>
    rw [hread] at hview
    exact perform_bind_error hview
  | ok a =>
    rw [hread] at hview
    exact perform_bind_ok hview

theorem perform_bind_eq_ok {x : Action α} {f : α → Action β} {s after : Session} {b : β} :
    perform (x >>= f) s = (.ok b, after) ↔
      ∃ a middle, perform x s = (.ok a, middle) ∧ perform (f a) middle = (.ok b, after) := by
  constructor
  · intro h
    rcases hx : perform x s with ⟨e | a, middle⟩
    · rw [perform_bind_error hx] at h
      cases h
    · rw [perform_bind_ok hx] at h
      exact ⟨a, middle, rfl, h⟩
  · rintro ⟨a, middle, hx, hf⟩
    rw [perform_bind_ok hx, hf]

/-- An outcome with the session that it leaves: changed in a known way, or as it was. -/
def settled (after : α → Session → Session) (s : Session) :
    Except Error α → Except Error α × Session
  | .ok a => (.ok a, after a s)
  | .error e => (.error e, s)

/-- The action gives what it gives at the start of a session with the same prefixes and server. If
that is a value, it changes the session as `after` says, else not at all. -/
def Settles (x : Action α) (after : α → Session → Session) : Prop :=
  ∀ s, perform x s = settled after s (perform x (start s.prefixes s.server)).1

theorem after_eq_of_error {x : Action α} {next : α → Session → Session} {s after : Session}
    {e : Error} (hx : Settles x next) (h : perform x s = (.error e, after)) : after = s := by
  rw [hx s] at h
  cases hstart : (perform x (start s.prefixes s.server)).1 with
  | error e' =>
    rw [hstart, settled] at h
    exact (congrArg Prod.snd h).symm
  | ok a =>
    rw [hstart, settled] at h
    cases congrArg Prod.fst h

theorem settles_at_start {x : Action α} {after : α → Session → Session} (hx : Settles x after)
    (prefixes : Prefixes) (server : Option Server) :
    perform x (start prefixes server)
      = settled after (start prefixes server) (perform x (start prefixes server)).1 :=
  hx (start prefixes server)

theorem perform_of_reads {x : Action α} (hx : Settles x fun _ s => s) (s : Session) :
    perform x s = ((perform x s).1, s) := by
  refine Prod.ext rfl ?_
  rw [hx s]
  cases (perform x (start s.prefixes s.server)).1 <;> rfl

theorem settles_pure (a : α) : Settles (pure a) fun _ s => s := fun _ => rfl

theorem settles_throw (e : Error) (after : α → Session → Session) : Settles (throw e) after :=
  fun _ => rfl

theorem settles_view {read : Session → Except Error α}
    (h : ∀ s, read s = read (start s.prefixes s.server)) : Settles (view read) fun _ s => s := by
  intro s
  rw [perform_view, perform_view, ← h s]
  cases read s with
  | error e => rfl
  | ok a => rfl

theorem settles_keep (query : Query) :
    Settles (keep query) fun query s => { s with lastQuery := some query } := fun _ => rfl

theorem settles_define (label : String) (ns : Iri) :
    Settles (define label ns) fun _ s => { s with prefixes := s.prefixes.insert label ns } :=
  fun _ => rfl

/-- Behind an action that only reads, a change still settles. -/
theorem settles_bind {x : Action α} {f : α → Action β} {after : β → Session → Session}
    (hx : Settles x fun _ s => s) (hf : ∀ a, Settles (f a) after) : Settles (x >>= f) after := by
  intro s
  have hhere := hx s
  have hstart := settles_at_start hx s.prefixes s.server
  cases hgives : (perform x (start s.prefixes s.server)).1 with
  | error e =>
    rw [hgives] at hhere hstart
    rw [perform_bind_error hhere, perform_bind_error hstart]
    rfl
  | ok a =>
    rw [hgives] at hhere hstart
    rw [perform_bind_ok hhere, perform_bind_ok hstart]
    exact hf a s

/-- A result may be rearranged as long as the change can be told from what is made of it. -/
theorem settles_map {x : Action α} {g : α → β} {after : α → Session → Session}
    {after' : β → Session → Session} (hx : Settles x after)
    (hg : ∀ a s, after' (g a) s = after a s) :
    Settles (x >>= fun a => pure (g a)) after' := by
  intro s
  rw [perform_map, perform_map, hx s]
  cases (perform x (start s.prefixes s.server)).1 with
  | error e => rfl
  | ok a => exact Prod.ext rfl (hg a s).symm

end TripleQuery.Session
