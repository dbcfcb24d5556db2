import TripleQuery.Outcome

/-!
# The order of errors

What is wrong with a text can be listed as a whole, in the order in which it is read. A reader
reports such a list if it fails with the first error of the list and succeeds if the list is empty.
Readers that follow each other report their lists one behind the other (`Reports.bind`).
-/

namespace TripleQuery

variable {α β γ ε ε' : Type}

/-- The outcome of a reader, and all errors of what it has read. -/
inductive Reports : Except ε α → List ε → Prop
  | ok (a : α) : Reports (.ok a) []
  | error (e : ε) (more : List ε) : Reports (.error e) (e :: more)

/-- The error of a reader, if there is one. -/
def failure (x : Except ε α) : List ε :=
  match x with
  | .ok _ => []
  | .error e => [e]

theorem reports_failure (x : Except ε α) : Reports x (failure x) := by
  cases x with
  | ok a => exact .ok a
  | error e => exact .error e []

namespace Reports

variable {x : Except ε α} {errors more : List ε}

theorem bind {f : α → Except ε β} (hx : Reports x errors)
    (hf : ∀ a, x = .ok a → Reports (f a) more) : Reports (x >>= f) (errors ++ more) := by
  cases hx with
  | ok a => exact hf a rfl
  | error e rest => exact .error e (rest ++ more)

theorem map (f : α → β) (hx : Reports x errors) : Reports (x.map f) errors := by
  cases hx with
  | ok a => exact .ok (f a)
  | error e rest => exact .error e rest

theorem mapError (f : ε → ε') (hx : Reports x errors) :
    Reports (x.mapError f) (errors.map f) := by
  cases hx with
  | ok a => exact .ok a
  | error e rest => exact .error (f e) (rest.map f)

/-- What is done with a value that was read, and cannot fail, adds no errors. -/
theorem bind_ok {f : α → Except ε β} (hx : Reports x errors)
    (hf : ∀ a, x = .ok a → Reports (f a) []) : Reports (x >>= f) errors := by
  have hbind := hx.bind hf
  rwa [List.append_nil] at hbind

theorem mapM {f : α → Except ε β} {errors : α → List ε} (l : List α)
    (hf : ∀ a ∈ l, Reports (f a) (errors a)) : Reports (l.mapM f) (l.flatMap errors) := by
  induction l with
  | nil => exact .ok []
  | cons a rest ih =>
    rw [List.mapM_cons, List.flatMap_cons]
    refine (hf a (List.mem_cons_self ..)).bind fun b _ => ?_
    refine (ih fun c hc => hf c (List.mem_cons_of_mem _ hc)).bind_ok fun bs _ => ?_
    exact .ok (b :: bs)

/-- Readers that hand a state on report their lists one behind the other, too. -/
theorem foldlM {σ : Type} {f : σ → α → Except ε σ} {errors : α → List ε} (l : List α)
    (hf : ∀ s, ∀ a ∈ l, Reports (f s a) (errors a)) (s : σ) :
    Reports (l.foldlM f s) (l.flatMap errors) := by
  induction l generalizing s with
  | nil => exact .ok s
  | cons a rest ih =>
    rw [List.foldlM_cons, List.flatMap_cons]
    refine (hf s a (List.mem_cons_self ..)).bind fun next _ => ?_
    exact ih (fun next b hb => hf next b (List.mem_cons_of_mem _ hb)) next

theorem option_mapM {f : α → Except ε β} {errors : α → List ε} (o : Option α)
    (hf : ∀ a, Reports (f a) (errors a)) : Reports (o.mapM f) (o.toList.flatMap errors) := by
  cases o with
  | none => exact .ok none
  | some a =>
    have hmap : (some a).mapM f = f a >>= fun b => .ok (some b) := rfl
    rw [hmap, Option.toList_some, List.flatMap_singleton]
    exact (hf a).bind_ok fun b _ => .ok (some b)

theorem eq_ok_iff (hx : Reports x errors) : (∃ a, x = .ok a) ↔ errors = [] := by
  cases hx with
  | ok a => simp
  | error e rest => simp

theorem eq_error_iff (hx : Reports x errors) (e : ε) : x = .error e ↔ errors.head? = some e := by
  cases hx with
  | ok a => simp
  | error e' rest => simp

/-- Where the errors of a list are those of its members in turn, the error is that of the first
member which cannot be read. -/
theorem eq_error_iff_first {l : List β} {f : β → Except ε γ} {errors : β → List ε}
    (hx : Reports x (l.flatMap errors)) (hf : ∀ b, Reports (f b) (errors b)) (e : ε) :
    x = .error e ↔ ∃ before b after, l = before ++ b :: after ∧
      (∀ a ∈ before, ∃ v, f a = .ok v) ∧ f b = .error e := by
  have hok : ∀ b, (∃ v, f b = .ok v) ↔ (errors b).head? = none := by
    intro b
    rw [(hf b).eq_ok_iff, List.head?_eq_none_iff]
  have herror : ∀ b, f b = .error e ↔ (errors b).head? = some e := fun b => (hf b).eq_error_iff e
  rw [hx.eq_error_iff, List.head?_flatMap, List.findSome?_eq_some_iff]
  simp only [hok, herror]
  constructor
  · rintro ⟨before, b, after, hl, hb, hbefore⟩
    exact ⟨before, b, after, hl, hbefore, hb⟩
  · rintro ⟨before, b, after, hl, hbefore, hb⟩
    exact ⟨before, b, after, hl, hb, hbefore⟩

/-- Of two readers that report lists with the same first error, both succeed or both fail
with it. -/
theorem agree {y : Except ε β} (hx : Reports x errors) (hy : Reports y more)
    (hfirst : errors.head? = more.head?) :
    ((∃ a, x = .ok a) ↔ ∃ b, y = .ok b) ∧ ∀ e, x = .error e ↔ y = .error e := by
  constructor
  · rw [hx.eq_ok_iff, hy.eq_ok_iff, ← List.head?_eq_none_iff, ← List.head?_eq_none_iff, hfirst]
  · intro e
    rw [hx.eq_error_iff, hy.eq_error_iff, hfirst]

end Reports
end TripleQuery
