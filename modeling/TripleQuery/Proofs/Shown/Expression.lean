import TripleQuery.Proofs.Shown.Pattern

/-!
# Shown conditions and graphs

Conditions and graph expressions are told apart by what is shown of them, whatever follows. Each
form opens in its own way, only the two closures alike: one goes on behind its pattern with a
parenthesis, the other one with `and`. The operator of an operation stands between two operands
that end by themselves.
-/

namespace TripleQuery
open Text

theorem Text.toList_operation (left operator right : String) :
    (operation left operator right).toList
      = '(' :: (left.toList ++ ' ' :: (operator.toList ++ ' ' :: (right.toList ++ [')']))) := by
  simp [operation]

theorem Text.operation_append_inj {left left' operator operator' right right' : String}
    {s t : List Char} {P Q R : Prop}
    (hleft : ∀ s t, left.toList ++ s = left'.toList ++ t → P ∧ s = t)
    (hoperator : ∀ s t, operator.toList ++ ' ' :: s = operator'.toList ++ ' ' :: t → Q ∧ s = t)
    (hright : ∀ s t, right.toList ++ s = right'.toList ++ t → R ∧ s = t)
    (h : (operation left operator right).toList ++ s
      = (operation left' operator' right').toList ++ t) : P ∧ Q ∧ R ∧ s = t := by
  rw [toList_operation, toList_operation] at h
  simp only [List.cons_append, List.append_assoc] at h
  obtain ⟨hP, h⟩ := hleft _ _ (List.cons_eq_cons.1 h).2
  obtain ⟨hQ, h⟩ := hoperator _ _ (List.cons_eq_cons.1 h).2
  obtain ⟨hR, h⟩ := hright _ _ h
  exact ⟨hP, hQ, hR, (List.cons_eq_cons.1 h).2⟩

/-! ### Constraints -/

theorem Constraint.toList_render_not (inner : Constraint) :
    (not inner).render.toList = 'n' :: 'o' :: 't' :: ' ' :: inner.render.toList := by
  simp [render]

theorem Constraint.render_append_inj {c d : Constraint} {s t : List Char}
    (hc : c.innermost.WellFormed) (hd : d.innermost.WellFormed)
    (h : c.render.toList ++ s = d.render.toList ++ t) : c = d ∧ s = t := by
  have hapart : ∀ (p : Pattern) (inner : Constraint) (s t : List Char),
      p.render.toList ++ s ≠ (not inner).render.toList ++ t := by
    intro p inner s t h
    have hfirst := first_eq_of_append_eq p.toList_render (toList_render_not inner) h
    exact absurd hfirst (by decide)
  induction c generalizing d with
  | pattern p =>
    cases d with
    | pattern q =>
      obtain ⟨hpq, hst⟩ := Pattern.render_append_inj hc hd h
      exact ⟨congrArg pattern hpq, hst⟩
    | not inner => exact absurd h (hapart _ _ _ _)
  | not inner ih =>
    cases d with
    | pattern q => exact absurd h.symm (hapart _ _ _ _)
    | not inner' =>
      rw [toList_render_not, toList_render_not] at h
      simp only [List.cons_append, List.cons.injEq, true_and] at h
      obtain ⟨hinner, hst⟩ := ih (d := inner') hc hd h
      exact ⟨by rw [hinner], hst⟩

/-! ### Conditions -/

theorem Condition.Operator.word_append_inj {a b : Operator} {s t : List Char}
    (h : a.word.toList ++ ' ' :: s = b.word.toList ++ ' ' :: t) : a = b ∧ s = t := by
  cases a <;> cases b <;> simp [word] at h ⊢ <;> exact h

theorem Condition.toList_render_closure (p : Pattern) :
    (closure p).render.toList
      = 't' :: 'r' :: 'a' :: 'n' :: 's' :: '(' :: (p.render.toList ++ [')']) := by
  simp [render]

theorem Condition.toList_render_closureFrom (anchor p : Pattern) :
    (closureFrom anchor p).render.toList
      = 't' :: 'r' :: 'a' :: 'n' :: 's' :: (operation anchor.render "and" p.render).toList := by
  simp [render]

theorem Condition.toList_render_walk (anchor p : Pattern) :
    (walk anchor p).render.toList
      = 'w' :: 'a' :: 'l' :: 'k' :: (operation anchor.render "and" p.render).toList := by
  simp [render]

def Condition.opening : Condition → Char
  | constraint (.pattern _) => '['
  | constraint (.not _) => 'n'
  | join .. => '('
  | closure _ | closureFrom .. => 't'
  | walk .. => 'w'

theorem Condition.exists_opening (c : Condition) :
    ∃ rest, c.render.toList = c.opening :: rest := by
  cases c with
  | constraint c =>
    cases c with
    | pattern p => exact ⟨_, Pattern.toList_render p⟩
    | not inner => exact ⟨_, Constraint.toList_render_not inner⟩
  | join operator left right => exact ⟨_, toList_operation _ _ _⟩
  | closure p => exact ⟨_, toList_render_closure p⟩
  | closureFrom anchor p => exact ⟨_, toList_render_closureFrom anchor p⟩
  | walk anchor p => exact ⟨_, toList_render_walk anchor p⟩

theorem Condition.opening_eq {c d : Condition} {s t : List Char}
    (h : c.render.toList ++ s = d.render.toList ++ t) : c.opening = d.opening := by
  obtain ⟨rest, hc⟩ := c.exists_opening
  obtain ⟨rest', hd⟩ := d.exists_opening
  exact first_eq_of_append_eq hc hd h

theorem Condition.anchored_append_inj {a b p q : Pattern} {s t : List Char} (ha : a.IsStep)
    (hb : b.IsStep) (hp : p.IsStep) (hq : q.IsStep)
    (h : (operation a.render "and" p.render).toList ++ s
      = (operation b.render "and" q.render).toList ++ t) : a = b ∧ p = q ∧ s = t := by
  have hand : ∀ s t : List Char, "and".toList ++ ' ' :: s = "and".toList ++ ' ' :: t →
      True ∧ s = t := by
    intro s t h
    exact ⟨trivial, (List.cons_eq_cons.1 (List.append_cancel_left h)).2⟩
  obtain ⟨hab, -, hpq, hst⟩ := operation_append_inj
    (fun _ _ => Pattern.render_append_inj ha.1 hb.1) hand
    (fun _ _ => Pattern.render_append_inj hp.1 hq.1) h
  exact ⟨hab, hpq, hst⟩

/-- Behind the pattern of a closure without an anchor a parenthesis stands, and no `and`. -/
theorem Condition.closure_ne_closureFrom {p a q : Pattern} {s t : List Char} (hp : p.IsStep)
    (ha : a.IsStep) :
    (closure p).render.toList ++ s ≠ (closureFrom a q).render.toList ++ t := by
  intro h
  rw [toList_render_closure, toList_render_closureFrom, toList_operation] at h
  simp only [List.cons_append, List.append_assoc, List.cons.injEq, true_and] at h
  obtain ⟨-, hrest⟩ := Pattern.render_append_inj hp.1 ha.1 h
  exact absurd (List.cons_eq_cons.1 hrest).1 (by decide)

theorem Condition.render_append_inj {c d : Condition} {s t : List Char} (hc : c.WellFormed)
    (hd : d.WellFormed) (h : c.render.toList ++ s = d.render.toList ++ t) : c = d ∧ s = t := by
  have hopening := opening_eq h
  induction c generalizing d s t with
  | constraint c =>
    cases d with
    | constraint d =>
      obtain ⟨hcd, hst⟩ := Constraint.render_append_inj hc hd h
      exact ⟨by rw [hcd], hst⟩
    | join | closure | closureFrom | walk => cases c <;> simp [opening] at hopening
  | join operator left right ihl ihr =>
    cases d with
    | constraint d => cases d <;> simp [opening] at hopening
    | join operator' left' right' =>
      obtain ⟨rfl, rfl, rfl, hst⟩ := operation_append_inj
        (fun _ _ h => ihl hc.1 hd.1 h (opening_eq h)) (fun _ _ => Operator.word_append_inj)
        (fun _ _ h => ihr hc.2 hd.2 h (opening_eq h)) h
      exact ⟨rfl, hst⟩
    | closure | closureFrom | walk => simp [opening] at hopening
  | closure p =>
    cases d with
    | constraint d => cases d <;> simp [opening] at hopening
    | join | walk => simp [opening] at hopening
    | closure q =>
      rw [toList_render_closure, toList_render_closure] at h
      simp only [List.cons_append, List.append_assoc, List.cons.injEq, true_and] at h
      obtain ⟨hpq, hst⟩ := Pattern.render_append_inj hc.1 hd.1 h
      exact ⟨by rw [hpq], (List.cons_eq_cons.1 hst).2⟩
    | closureFrom a q => exact absurd h (closure_ne_closureFrom hc hd.1)
  | closureFrom a p =>
    cases d with
    | constraint d => cases d <;> simp [opening] at hopening
    | join | walk => simp [opening] at hopening
    | closure q => exact absurd h.symm (closure_ne_closureFrom hd hc.1)
    | closureFrom b q =>
      rw [toList_render_closureFrom, toList_render_closureFrom] at h
      simp only [List.cons_append, List.cons.injEq, true_and] at h
      obtain ⟨rfl, rfl, hst⟩ := anchored_append_inj hc.1 hd.1 hc.2 hd.2 h
      exact ⟨rfl, hst⟩
  | walk a p =>
    cases d with
    | constraint d => cases d <;> simp [opening] at hopening
    | join | closure | closureFrom => simp [opening] at hopening
    | walk b q =>
      rw [toList_render_walk, toList_render_walk] at h
      simp only [List.cons_append, List.cons.injEq, true_and] at h
      obtain ⟨rfl, rfl, hst⟩ := anchored_append_inj hc.1 hd.1 hc.2 hd.2 h
      exact ⟨rfl, hst⟩

/-! ### Graphs -/

theorem Graphs.Operator.word_append_inj {a b : Operator} {s t : List Char}
    (h : a.word.toList ++ ' ' :: s = b.word.toList ++ ' ' :: t) : a = b ∧ s = t := by
  cases a <;> cases b <;> simp [word] at h ⊢ <;> exact h

theorem Graphs.render_append_inj {g k : Graphs} {s t : List Char} (hg : g.WellFormed)
    (hk : k.WellFormed) (h : g.render.toList ++ s = k.render.toList ++ t) : g = k ∧ s = t := by
  have hapart : ∀ (iri left operator right : String) (s t : List Char),
      (renderIri iri).toList ++ s ≠ (operation left operator right).toList ++ t := by
    intro iri left operator right s t h
    have hfirst := first_eq_of_append_eq (toList_renderIri iri) (toList_operation _ _ _) h
    exact absurd hfirst (by decide)
  have hside : ∀ {operator : Operator} {left right : Graphs},
      (join operator left right).WellFormed → left.WellFormed ∧ right.WellFormed := by
    intro operator left right hjoin
    exact ⟨fun iri hmem => hjoin iri (List.mem_append_left _ hmem),
      fun iri hmem => hjoin iri (List.mem_append_right _ hmem)⟩
  induction g generalizing k s t with
  | graph iri =>
    cases k with
    | graph iri' =>
      obtain ⟨hiri, hst⟩ := renderIri_append_inj (hg iri (List.mem_singleton.2 rfl))
        (hk iri' (List.mem_singleton.2 rfl)) h
      exact ⟨by rw [hiri], hst⟩
    | join operator left right => exact absurd h (hapart _ _ _ _ _ _)
  | join operator left right ihl ihr =>
    cases k with
    | graph iri => exact absurd h.symm (hapart _ _ _ _ _ _)
    | join operator' left' right' =>
      obtain ⟨rfl, rfl, rfl, hst⟩ := operation_append_inj
        (fun _ _ => ihl (hside hg).1 (hside hk).1) (fun _ _ => Operator.word_append_inj)
        (fun _ _ => ihr (hside hg).2 (hside hk).2) h
      exact ⟨rfl, hst⟩

end TripleQuery
