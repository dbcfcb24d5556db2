import TripleQuery.Proofs.Iri.Authority

/-!
# Hosts of authorities

The host of a text is looked for by three marks: the last at sign, and behind it the first closing
bracket or the first colon. `Located` says where the host then stands in the text, well-formed or
not (`hostOf_eq_iff`). So a host that shows its own end is found whatever the user information in
front of it is, and what is found is a part of the text and its own host
(`hostOf_between_user_and_port`).
-/

namespace TripleQuery.Iri

variable {text before host after : List Char}

/-! ### Behind the user information -/

theorem notMem_takeWhile_ne (x : Char) (text : List Char) : x ∉ text.takeWhile (· != x) := by
  intro hmem
  have hne := List.mem_takeWhile_imp hmem
  simp at hne

theorem afterUser_append (hbefore : ∀ c ∈ before.getLast?, c = '@') (h : '@' ∉ text) :
    afterUser (before ++ text) = text := by
  have hcut := cut_append (mt List.mem_reverse.1 h) before.reverse (by simpa using hbefore)
  rw [afterUser, List.reverse_append, hcut.1, List.reverse_reverse]

theorem exists_append_afterUser (text : List Char) :
    ∃ before, before ++ afterUser text = text ∧ (∀ c ∈ before.getLast?, c = '@') ∧
      '@' ∉ afterUser text := by
  refine ⟨(text.reverse.dropWhile (· != '@')).reverse, ?_, ?_, ?_⟩
  · rw [afterUser, ← List.reverse_append, List.takeWhile_append_dropWhile, List.reverse_reverse]
  · rw [List.getLast?_reverse]
    exact eq_of_mem_head?_dropWhile_ne '@' text.reverse
  · exact mt List.mem_reverse.1 (notMem_takeWhile_ne '@' text.reverse)

/-! ### The end of a host -/

/-- The host ends where `after` starts. One that starts with a bracket ends behind its first closing
bracket, or with the text if it has none, any other one in front of a colon or with the text. -/
inductive EndsBefore : List Char → List Char → Prop
  | bracketed {inside after : List Char} : ']' ∉ inside →
      EndsBefore ('[' :: (inside ++ [']'])) after
  | unclosed {inside : List Char} : ']' ∉ inside → EndsBefore ('[' :: inside) []
  | name {host after : List Char} : ':' ∉ host → host.head? ≠ some '[' →
      (∀ c ∈ after.head?, c = ':') → EndsBefore host after

theorem EndsBefore.nil (h : EndsBefore host after) : EndsBefore host [] := by
  cases h with
  | bracketed hclose => exact .bracketed hclose
  | unclosed hclose => exact .unclosed hclose
  | name hcolon hopen _ => exact .name hcolon hopen (by simp)

theorem hostOf_of_endsBefore (htext : afterUser text = host ++ after) (h : EndsBefore host after) :
    hostOf text = host := by
  unfold hostOf
  rw [htext]
  cases h with
  | bracketed hclose =>
    have hcut := cut_append hclose (']' :: after) (by simp)
    simp [hcut.1, hcut.2]
  | unclosed hclose =>
    have hcut := cut_append hclose [] (by simp)
    simp only [List.append_nil] at hcut
    simp [hcut.1, hcut.2]
  | name hcolon hopen hafter =>
    split
    · next rest heq =>
      -- no bracket comes first: not in the host, and what follows an empty one is a colon
      cases host with
      | nil =>
        rw [List.nil_append] at heq
        exact absurd (hafter '[' (by rw [heq]; rfl)) (by decide)
      | cons c host =>
        rw [List.cons_append, List.cons.injEq] at heq
        exact absurd (by rw [heq.1]; rfl) hopen
    · exact (cut_append hcolon after hafter).1

theorem exists_endsBefore (text : List Char) :
    ∃ after, hostOf text ++ after = afterUser text ∧ EndsBefore (hostOf text) after := by
  unfold hostOf
  split
  · next rest htext =>
    have hclose := notMem_takeWhile_ne ']' rest
    have hsplit := List.takeWhile_append_dropWhile (p := (· != ']')) (l := rest)
    have hstop := eq_of_mem_head?_dropWhile_ne ']' rest
    rw [htext]
    cases hrest : rest.dropWhile (· != ']') with
    | nil =>
      rw [hrest] at hsplit
      exact ⟨[], by simpa using hsplit, by simpa using EndsBefore.unclosed hclose⟩
    | cons close tail =>
      rw [hrest] at hsplit hstop
      obtain rfl : close = ']' := hstop close rfl
      exact ⟨tail, by simpa using hsplit, by simpa using EndsBefore.bracketed hclose⟩
  · next hopen =>
    refine ⟨(afterUser text).dropWhile (· != ':'), List.takeWhile_append_dropWhile,
      .name (notMem_takeWhile_ne ':' _) ?_ (eq_of_mem_head?_dropWhile_ne ':' _)⟩
    intro hhead
    rw [List.head?_takeWhile, Option.filter_eq_some_iff, List.head?_eq_some_iff] at hhead
    obtain ⟨⟨rest, htext⟩, -⟩ := hhead
    exact hopen rest htext

/-! ### Where the host stands -/

/-- A text made of these three has the one in the middle as its host: nothing stands in front of it,
or a text that ends with the last at sign, and what stands behind it no longer belongs to it. -/
structure Located (before host after : List Char) : Prop where
  user : ∀ c ∈ before.getLast?, c = '@'
  last : '@' ∉ host ++ after
  ends : EndsBefore host after

theorem hostOf_eq_iff :
    hostOf text = host ↔
      ∃ before after, before ++ (host ++ after) = text ∧ Located before host after := by
  constructor
  · rintro rfl
    obtain ⟨before, htext, huser, hlast⟩ := exists_append_afterUser text
    obtain ⟨after, hafter, hends⟩ := exists_endsBefore text
    rw [← hafter] at htext hlast
    exact ⟨before, after, htext, huser, hlast, hends⟩
  · rintro ⟨before, after, rfl, hlocated⟩
    exact hostOf_of_endsBefore (afterUser_append hlocated.user hlocated.last) hlocated.ends

theorem exists_located (text : List Char) :
    ∃ before after, before ++ (hostOf text ++ after) = text ∧
      Located before (hostOf text) after :=
  hostOf_eq_iff.1 rfl

theorem Located.alone (h : Located before host after) : Located [] host [] where
  user := by simp
  last := by
    have hlast := h.last
    rw [List.mem_append, not_or] at hlast
    simpa using hlast.1
  ends := h.ends.nil

theorem hostOf_hostOf (text : List Char) : hostOf (hostOf text) = hostOf text := by
  obtain ⟨before, after, -, hlocated⟩ := exists_located text
  exact hostOf_eq_iff.2 ⟨[], [], by simp, hlocated.alone⟩

theorem hostOf_infix (text : List Char) : hostOf text <:+: text := by
  obtain ⟨before, after, htext, -⟩ := exists_located text
  exact ⟨before, after, by rw [List.append_assoc, htext]⟩

/-! ### The host of an authority -/

/-- A host that shows its own end: it stands in brackets, or has no colon. -/
inductive Delimited : List Char → Prop
  | bracketed {inside : List Char} : ']' ∉ inside → Delimited ('[' :: (inside ++ [']']))
  | name {host : List Char} : ':' ∉ host → host.head? ≠ some '[' → Delimited host

theorem Delimited.endsBefore (h : Delimited host) (hafter : ∀ c ∈ after.head?, c = ':') :
    EndsBefore host after := by
  cases h with
  | bracketed hclose => exact .bracketed hclose
  | name hcolon hopen => exact .name hcolon hopen hafter

theorem IsHost.delimited (h : IsHost host) : Delimited host := by
  cases h with
  | bracketed hinside => exact .bracketed (notMem_bracketed hinside (by decide))
  | name hrun =>
    refine .name (hrun.notMem (by decide)) ?_
    intro hhead
    exact hrun.notMem (by decide) (List.mem_of_mem_head? hhead)

/-- A host that shows its own end is found between an at sign and a colon, if no at sign follows. -/
theorem hostOf_of_delimited (hhost : Delimited host) (before after : List Char)
    (hbefore : ∀ c ∈ before.getLast?, c = '@') (hafter : ∀ c ∈ after.head?, c = ':')
    (hlast : '@' ∉ host ++ after) : hostOf (before ++ (host ++ after)) = host :=
  hostOf_eq_iff.2 ⟨before, after, rfl, hbefore, hlast, hhost.endsBefore hafter⟩

theorem hostOf_text {a : Authority} (ha : a.WellFormed) : hostOf a.text = a.host := by
  have hlast : '@' ∉ a.hostAndPort := notMem_hostAndPort ha (by decide) (by decide)
  have hport : ∀ c ∈ (announced [':'] a.port).head?, c = ':' := by
    cases a.port <;> simp [announced]
  have hfound := hostOf_of_delimited ha.host.delimited
  unfold Authority.text
  split
  · exact hfound [] _ (by simp) hport hlast
  · next user _ =>
    have htext : user ++ '@' :: a.hostAndPort = (user ++ ['@']) ++ a.hostAndPort := by simp
    rw [htext]
    exact hfound (user ++ ['@']) _ (by simp) hport hlast

/-- A host that shows its own end is found alone, in front of a port and behind any user
information. What is found in a text, well-formed or not, is a part of it and its own host. -/
theorem hostOf_between_user_and_port :
    (∀ user host port : List Char, Delimited host → '@' ∉ host → '@' ∉ port →
      hostOf host = host ∧ hostOf (host ++ ':' :: port) = host ∧
        hostOf (user ++ '@' :: host) = host ∧
        hostOf (user ++ '@' :: (host ++ ':' :: port)) = host) ∧
      ∀ text : List Char, hostOf (hostOf text) = hostOf text ∧ hostOf text <:+: text := by
  refine ⟨?_, fun text => ⟨hostOf_hostOf text, hostOf_infix text⟩⟩
  intro user host port hhost hat hport
  have halone : '@' ∉ host ++ [] := by simpa using hat
  have hported : '@' ∉ host ++ ':' :: port := by simp [hat, hport]
  have hfound := hostOf_of_delimited hhost
  refine ⟨?_, ?_, ?_, ?_⟩
  · simpa using hfound [] [] (by simp) (by simp) halone
  · simpa using hfound [] (':' :: port) (by simp) (by simp) hported
  · simpa using hfound (user ++ ['@']) [] (by simp) (by simp) halone
  · simpa using hfound (user ++ ['@']) (':' :: port) (by simp) (by simp) hported

theorem hostOf_between_manyMarks :
    Delimited "[::1]".toList ∧ '@' ∉ "[::1]".toList ∧ '@' ∉ "8]:".toList ∧
      hostOf "[::1]:8]:".toList = "[::1]".toList ∧
      hostOf "a@[b]:@[::1]:8]:".toList = "[::1]".toList ∧
      hostOf (hostOf "a@[::1:8".toList) = hostOf "a@[::1:8".toList ∧
      hostOf "a@[::1:8".toList <:+: "a@[::1:8".toList := by
  obtain ⟨hfound, hagain⟩ := hostOf_between_user_and_port
  have hhost : Delimited "[::1]".toList := by
    have hform : "[::1]".toList = '[' :: ("::1".toList ++ [']']) := by decide
    rw [hform]
    exact .bracketed (by decide)
  have hat : '@' ∉ "[::1]".toList := by decide
  have hport : '@' ∉ "8]:".toList := by decide
  obtain ⟨-, hplain, -, hmarked⟩ := hfound "a@[b]:".toList _ _ hhost hat hport
  refine ⟨hhost, hat, hport, ?_, ?_, hagain _⟩
  · simpa using hplain
  · simpa using hmarked

end TripleQuery.Iri
