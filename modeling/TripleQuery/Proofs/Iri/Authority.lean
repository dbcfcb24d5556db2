import TripleQuery.Proofs.Iri.Characters

/-!
# The grammar of authorities

A run of a part is made of allowed characters and percent encodings. Scanning a part takes off
exactly such runs (`run_of_scan`, `scan_of_run`), and reading an authority takes off exactly the
texts of well-formed authorities (`exists_authority_of_read`, `readAuthority_text`).
-/

namespace TripleQuery.Iri
open TripleQuery.Text

/-! ### Runs -/

inductive Run (allowed : Char → Bool) : List Char → Prop
  | nil : Run allowed []
  | encoded {a b : Char} {rest : List Char} : isHex a = true → isHex b = true →
      Run allowed rest → Run allowed ('%' :: a :: b :: rest)
  | char {c : Char} {rest : List Char} : c ≠ '%' → allowed c = true → Run allowed rest →
      Run allowed (c :: rest)

/-- The text is empty or starts with a stop character. -/
def Halts (stop : Char → Bool) (text : List Char) : Prop := ∀ c ∈ text.head?, stop c = true

theorem halts_nil (stop : Char → Bool) : Halts stop [] := by simp [Halts]

theorem halts_cons {stop : Char → Bool} {c : Char} {rest : List Char} :
    Halts stop (c :: rest) ↔ stop c = true := by
  simp [Halts]

theorem Halts.mono {stop stop' : Char → Bool} {text : List Char} (h : Halts stop text)
    (hstop : ∀ c, stop c = true → stop' c = true) : Halts stop' text :=
  fun c hc => hstop c (h c hc)

/-- No run can go on with a stop character. -/
def Apart (allowed stop : Char → Bool) : Prop := ∀ c, stop c = true → c ≠ '%' ∧ allowed c = false

namespace Run

variable {allowed allowed' stop : Char → Bool} {part rest : List Char}

theorem mono (h : Run allowed part) (hallowed : ∀ c, allowed c = true → allowed' c = true) :
    Run allowed' part := by
  induction h with
  | nil => exact .nil
  | encoded ha hb _ ih => exact .encoded ha hb ih
  | char hc hallow _ ih => exact .char hc (hallowed _ hallow) ih

theorem append (h : Run allowed part) (hrest : Run allowed rest) : Run allowed (part ++ rest) := by
  induction h with
  | nil => exact hrest
  | encoded ha hb _ ih => exact .encoded ha hb ih
  | char hc hallow _ ih => exact .char hc hallow ih

theorem of_forall (h : ∀ c ∈ part, c ≠ '%' ∧ allowed c = true) : Run allowed part := by
  induction part with
  | nil => exact .nil
  | cons c part ih =>
    have hc := h c (List.mem_cons_self ..)
    exact .char hc.1 hc.2 (ih fun d hd => h d (List.mem_cons_of_mem _ hd))

theorem notMem {c : Char} (h : Run allowed part)
    (hc : (c == '%' || isHex c || allowed c) = false) : c ∉ part := by
  simp only [Bool.or_eq_false_iff, beq_eq_false_iff_ne] at hc
  obtain ⟨⟨hpercent, hhex⟩, hallowed⟩ := hc
  induction h with
  | nil => exact List.not_mem_nil
  | encoded ha hb _ ih =>
    simp only [List.mem_cons, not_or]
    refine ⟨hpercent, ?_, ?_, ih⟩
    · rintro rfl
      rw [hhex] at ha
      cases ha
    · rintro rfl
      rw [hhex] at hb
      cases hb
  | char _ hd _ ih =>
    simp only [List.mem_cons, not_or]
    refine ⟨?_, ih⟩
    rintro rfl
    rw [hallowed] at hd
    cases hd

theorem head_ne {c : Char} (h : Run allowed part)
    (hc : (c == '%' || isHex c || allowed c) = false) (more : List Char) : part ≠ c :: more := by
  rintro rfl
  exact h.notMem hc (List.mem_cons_self ..)

end Run

theorem run_of_scan {allowed stop : Char → Bool} {text : List Char} {s : Scanned}
    (h : scan allowed stop text = .ok s) : Run allowed s.1 := by
  fun_induction scan allowed stop text generalizing s with
  | case1 => cases h; exact .nil
  | case2 => cases h; exact .nil
  | case3 a b more hhex _ ih =>
    obtain ⟨t, ht, rfl⟩ := map_eq_ok.1 h
    have hab := Bool.and_eq_true_iff.1 hhex
    exact .encoded hab.1 hab.2 (ih ht)
  | case4 => cases h
  | case5 => cases h
  | case6 c rest _ hc hallowed ih =>
    obtain ⟨t, ht, rfl⟩ := map_eq_ok.1 h
    exact .char hc hallowed (ih ht)
  | case7 => cases h

theorem scan_of_halts {allowed stop : Char → Bool} {rest : List Char} (h : Halts stop rest) :
    scan allowed stop rest = .ok ([], rest) := by
  cases rest with
  | nil => rfl
  | cons c more =>
    rw [scan.eq_def]
    simp [halts_cons.1 h]

theorem scan_cons {allowed stop : Char → Bool} {c : Char} (rest : List Char)
    (hstop : stop c = false) (hc : c ≠ '%') (hallowed : allowed c = true) :
    scan allowed stop (c :: rest) = (scan allowed stop rest).map (Scanned.after [c]) := by
  rw [scan.eq_def]
  simp [hstop, hc, hallowed]

/-- A run in front of a stop character, or of nothing, is read as it is. -/
theorem scan_of_run {allowed stop : Char → Bool} {part rest : List Char} (hpart : Run allowed part)
    (hapart : Apart allowed stop) (hrest : Halts stop rest) :
    scan allowed stop (part ++ rest) = .ok (part, rest) := by
  have hpercent : stop '%' = false := by
    by_contra hstop
    exact (hapart '%' (by simpa using hstop)).1 rfl
  induction hpart with
  | nil => exact scan_of_halts hrest
  | encoded ha hb _ ih => simp [scan, hpercent, ha, hb, ih, Except.map, Scanned.after]
  | @char c more hc hallowed _ ih =>
    have hstop : stop c = false := by
      by_contra hstop
      have hfalse := (hapart c (by simpa using hstop)).2
      rw [hfalse] at hallowed
      cases hallowed
    rw [List.cons_append, scan_cons _ hstop hc hallowed, ih]
    rfl

/-! ### The stop characters of each part -/

theorem eq_of_endsAuthority {c : Char} (h : endsAuthority c = true) :
    c = '/' ∨ c = '?' ∨ c = '#' := by
  simpa [endsAuthority] using h

theorem apart_user :
    Apart isUserChar fun c => c == '@' || c == '[' || endsAuthority c := by
  intro c hc
  simp only [Bool.or_eq_true, beq_iff_eq, or_assoc] at hc
  rcases hc with rfl | rfl | hc
  · decide
  · decide
  · rcases eq_of_endsAuthority hc with rfl | rfl | rfl <;> decide

theorem apart_host : Apart isCommon fun c => c == ':' || endsAuthority c := by
  intro c hc
  simp only [Bool.or_eq_true, beq_iff_eq] at hc
  rcases hc with rfl | hc
  · decide
  · rcases eq_of_endsAuthority hc with rfl | rfl | rfl <;> decide

/-! ### Authorities -/

/-- A host: an address in brackets, or a run of common characters, which may be empty. -/
inductive IsHost : List Char → Prop
  | bracketed {inside : List Char} : checkBracketed inside = .ok () →
      IsHost ('[' :: (inside ++ [']']))
  | name {host : List Char} : Run isCommon host → IsHost host

/-- An authority by its parts, without the marks that separate them. -/
structure Authority where
  user : Option (List Char)
  host : List Char
  port : Option (List Char)

namespace Authority

def hostAndPort (a : Authority) : List Char := a.host ++ announced [':'] a.port

def text (a : Authority) : List Char :=
  match a.user with
  | none => a.hostAndPort
  | some user => user ++ '@' :: a.hostAndPort

structure WellFormed (a : Authority) : Prop where
  user : ∀ user ∈ a.user, Run isUserChar user
  host : IsHost a.host
  port : ∀ port ∈ a.port, ∀ c ∈ port, isDigit c = true

end Authority

/-! ### Reading hosts and ports -/

theorem forall_ne_of_notMem {x : Char} {text : List Char} (h : x ∉ text) :
    ∀ c ∈ text, (c != x) = true := by
  intro c hc
  have hne : c ≠ x := by
    rintro rfl
    exact h hc
  simpa using hne

theorem not_endsAuthority_of_isDigit {c : Char} (h : isDigit c = true) :
    (!endsAuthority c) = true := by
  by_contra hends
  rcases eq_of_endsAuthority (by simpa using hends) with rfl | rfl | rfl <;>
    exact absurd h (by decide)

theorem takeWhile_of_halts {stop : Char → Bool} {part rest : List Char}
    (hpart : ∀ c ∈ part, (!stop c) = true) (hrest : Halts stop rest) :
    (part ++ rest).takeWhile (!stop ·) = part ∧ (part ++ rest).dropWhile (!stop ·) = rest := by
  rw [List.takeWhile_append_of_pos hpart, List.dropWhile_append_of_pos hpart]
  cases rest with
  | nil => simp
  | cons c more => simp [halts_cons.1 hrest]

/-- A text is cut where a character comes first that the part in front does not hold. -/
theorem cut_append {x : Char} {part : List Char} (hpart : x ∉ part) (rest : List Char)
    (hrest : ∀ c ∈ rest.head?, c = x) :
    (part ++ rest).takeWhile (· != x) = part ∧ (part ++ rest).dropWhile (· != x) = rest :=
  takeWhile_of_halts (forall_ne_of_notMem hpart) fun c hc => beq_iff_eq.2 (hrest c hc)

theorem readPort_of_digits {port rest : List Char} (hport : ∀ c ∈ port, isDigit c = true)
    (hrest : Halts endsAuthority rest) : readPort (port ++ rest) = .ok (port, rest) := by
  have hsplit := takeWhile_of_halts
    (fun c hc => not_endsAuthority_of_isDigit (hport c hc)) hrest
  have hnone : port.find? (!isDigit ·) = none := by
    rw [List.find?_eq_none]
    intro c hc
    simp [hport c hc]
  simp only [readPort, hsplit.1, hsplit.2, hnone]

theorem readPortPart_text {port : Option (List Char)} {rest : List Char}
    (hport : ∀ p ∈ port, ∀ c ∈ p, isDigit c = true) (hrest : Halts endsAuthority rest) :
    readPortPart (announced [':'] port ++ rest) = .ok (announced [':'] port, rest) := by
  cases port with
  | some p =>
    have hread := readPort_of_digits (hport p rfl) hrest
    simp [announced, readPortPart, hread, Except.map, Scanned.after]
  | none =>
    cases rest with
    | nil => rfl
    | cons c more =>
      have hends := halts_cons.1 hrest
      have hcolon : c ≠ ':' := by
        rintro rfl
        exact absurd hends (by decide)
      simp [announced, readPortPart, hcolon, hends]

theorem exists_port_of_read {text : List Char} {s : Scanned} (h : readPortPart text = .ok s) :
    ∃ port : Option (List Char), s.1 = announced [':'] port ∧
      (∀ p ∈ port, ∀ c ∈ p, isDigit c = true) ∧ Halts endsAuthority s.2 := by
  cases text with
  | nil =>
    cases h
    exact ⟨none, rfl, by simp, halts_nil _⟩
  | cons c rest =>
    simp only [readPortPart] at h
    split at h
    · obtain ⟨t, ht, rfl⟩ := map_eq_ok.1 h
      simp only [readPort] at ht
      split at ht
      · cases ht
      · next hnone =>
        cases ht
        refine ⟨some (rest.takeWhile (!endsAuthority ·)), rfl, ?_, ?_⟩
        · rintro p hp d hd
          cases hp
          simpa using List.find?_eq_none.1 hnone d hd
        · intro d hd
          have hhead := List.head?_dropWhile_not (!endsAuthority ·) rest
          simp only [Scanned.after] at hd
          rw [hd] at hhead
          simpa using hhead
    · split at h
      · next hends =>
        cases h
        exact ⟨none, rfl, by simp, halts_cons.2 hends⟩
      · cases h

theorem readHost_of_ne_bracket {text : List Char} (h : ∀ rest, text ≠ '[' :: rest) :
    readHost text = scan isCommon (fun c => c == ':' || endsAuthority c) text >>= fun host =>
      (readPortPart host.2).map (Scanned.after host.1) := by
  unfold readHost
  split
  · exact absurd rfl (h _)
  · rfl

/-- What follows a host of common characters ends it. -/
theorem halts_port (port : Option (List Char)) {rest : List Char}
    (hrest : Halts endsAuthority rest) :
    Halts (fun c => c == ':' || endsAuthority c) (announced [':'] port ++ rest) := by
  cases port with
  | some p => exact halts_cons.2 (by decide)
  | none => exact hrest.mono fun c hc => by simp [hc]

theorem notMem_bracketed {inside : List Char} (h : checkBracketed inside = .ok ()) {c : Char}
    (hc : isBracketedChar c = false) : c ∉ inside := by
  intro hmem
  have htrue := isBracketedText_of_checkBracketed h c hmem
  rw [hc] at htrue
  cases htrue

theorem readHost_text {a : Authority} {rest : List Char} (ha : a.WellFormed)
    (hrest : Halts endsAuthority rest) :
    readHost (a.hostAndPort ++ rest) = .ok (a.hostAndPort, rest) := by
  obtain ⟨user, host, port⟩ := a
  have hport := readPortPart_text ha.port hrest
  have hhost := ha.host
  simp only [Authority.hostAndPort, List.append_assoc]
  cases hhost with
  | @bracketed inside hinside =>
    have hcut := cut_append (notMem_bracketed hinside (c := ']') (by decide))
      (']' :: (announced [':'] port ++ rest)) (by simp)
    simp only [List.cons_append, List.append_assoc, List.nil_append, readHost, hcut.1, hcut.2,
      hinside, hport]
    simp [bind, Except.bind, Except.map, Scanned.after]
  | name hrun =>
    have hstop := halts_port port hrest
    have hscan := scan_of_run hrun apart_host hstop
    have hne : ∀ more, host ++ (announced [':'] port ++ rest) ≠ '[' :: more := by
      intro more heq
      cases host with
      | nil =>
        rw [List.nil_append] at heq
        rw [heq] at hstop
        exact absurd (halts_cons.1 hstop) (by decide)
      | cons c host =>
        rw [List.cons_append, List.cons.injEq] at heq
        exact hrun.head_ne (c := '[') (by decide) host (by rw [heq.1])
    rw [readHost_of_ne_bracket hne, hscan]
    simp [bind, Except.bind, hport, Except.map, Scanned.after]

theorem exists_host_of_read {text : List Char} {s : Scanned} (h : readHost text = .ok s) :
    ∃ a : Authority, a.WellFormed ∧ a.user = none ∧ a.hostAndPort = s.1 ∧
      Halts endsAuthority s.2 := by
  have hnone : ∀ user ∈ (none : Option (List Char)), Run isUserChar user := by simp
  unfold readHost at h
  split at h
  · next rest =>
    split at h
    · cases h
    · next close tail hclose =>
      obtain ⟨_, hinside, h⟩ := bind_eq_ok.1 h
      obtain ⟨t, ht, rfl⟩ := map_eq_ok.1 h
      obtain ⟨port, hport, hdigits, hhalts⟩ := exists_port_of_read ht
      have hbracket : close = ']' :=
        eq_of_mem_head?_dropWhile_ne ']' rest close (by rw [hclose]; rfl)
      refine ⟨⟨none, _, port⟩, ⟨hnone, .bracketed hinside, hdigits⟩, rfl, ?_, hhalts⟩
      simp [Authority.hostAndPort, Scanned.after, hbracket, hport]
  · obtain ⟨host, hhost, h⟩ := bind_eq_ok.1 h
    obtain ⟨t, ht, rfl⟩ := map_eq_ok.1 h
    obtain ⟨port, hport, hdigits, hhalts⟩ := exists_port_of_read ht
    refine ⟨⟨none, host.1, port⟩, ⟨hnone, .name (run_of_scan hhost), hdigits⟩, rfl, ?_, hhalts⟩
    simp [Authority.hostAndPort, Scanned.after, hport]

/-! ### Reading authorities -/

theorem isUserChar_of_isCommon (c : Char) (h : isCommon c = true) : isUserChar c = true := by
  simp [isUserChar, h]

/-- The user information of a text without any is not found: a colon and digits could still be part
of it, but what ends the authority or opens a bracket is met before an at sign. -/
theorem scan_user_of_hostAndPort {a : Authority} {rest : List Char} (ha : a.WellFormed)
    (hrest : Halts endsAuthority rest) :
    ∃ s, scan isUserChar (fun c => c == '@' || c == '[' || endsAuthority c)
        (a.hostAndPort ++ rest) = .ok s ∧ ∀ more, s.2 ≠ '@' :: more := by
  obtain ⟨user, host, port⟩ := a
  have hhost := ha.host
  cases hhost with
  | @bracketed inside hinside =>
    refine ⟨([], _), scan_of_halts (halts_cons.2 (by decide)), ?_⟩
    intro more heq
    cases heq
  | name hrun =>
    have hport : Run isUserChar (announced [':'] port) := by
      cases port with
      | none => exact .nil
      | some p =>
        refine .char (by decide) (by decide) (Run.of_forall fun c hc => ?_)
        have hdigit := ha.port p rfl c hc
        refine ⟨?_, by simp [isUserChar, isCommon, isPlain, hdigit]⟩
        rintro rfl
        exact absurd hdigit (by decide)
    have hall := (hrun.mono isUserChar_of_isCommon).append hport
    refine ⟨(_, rest), scan_of_run hall apart_user (hrest.mono fun c hc => by simp [hc]), ?_⟩
    intro more heq
    obtain rfl : rest = '@' :: more := heq
    exact absurd (halts_cons.1 hrest) (by decide)

/-- A well-formed authority is read from the front of any text that ends it. -/
theorem readAuthority_text {a : Authority} {rest : List Char} (ha : a.WellFormed)
    (hrest : Halts endsAuthority rest) : readAuthority (a.text ++ rest) = .ok (a.text, rest) := by
  have hread := readHost_text ha hrest
  unfold readAuthority Authority.text
  cases huser : a.user with
  | none =>
    obtain ⟨s, hscan, hne⟩ := scan_user_of_hostAndPort ha hrest
    simp only [hscan, bind, Except.bind]
    exact hread
  | some user =>
    have hrun := ha.user user huser
    have hat : Halts (fun c => c == '@' || c == '[' || endsAuthority c)
        ('@' :: (a.hostAndPort ++ rest)) := halts_cons.2 (by decide)
    have hscan := scan_of_run hrun apart_user hat
    simp [hscan, hread, bind, Except.bind, Except.map, Scanned.after]

theorem exists_authority_of_read {text : List Char} {s : Scanned}
    (h : readAuthority text = .ok s) :
    ∃ a : Authority, a.WellFormed ∧ a.text = s.1 ∧ Halts endsAuthority s.2 := by
  obtain ⟨user, huser, h⟩ := bind_eq_ok.1 h
  split at h
  · obtain ⟨t, ht, rfl⟩ := map_eq_ok.1 h
    obtain ⟨a, ha, -, htext, hhalts⟩ := exists_host_of_read ht
    refine ⟨⟨some user.1, a.host, a.port⟩, ⟨?_, ha.host, ha.port⟩, ?_, hhalts⟩
    · rintro u hu
      cases hu
      exact run_of_scan huser
    · have hshown : a.host ++ announced [':'] a.port = t.1 := htext
      simp [Authority.text, Authority.hostAndPort, Scanned.after, hshown]
  · obtain ⟨a, ha, hnone, htext, hhalts⟩ := exists_host_of_read h
    refine ⟨a, ha, ?_, hhalts⟩
    rw [Authority.text, hnone, htext]

/-! ### Characters that an authority does not hold -/

theorem notMem_hostAndPort {a : Authority} {c : Char} (ha : a.WellFormed)
    (hc : (c == '%' || isHex c || isUserChar c) = false) (hbrackets : c ∉ ['[', ']']) :
    c ∉ a.hostAndPort := by
  simp only [isUserChar, Bool.or_eq_false_iff] at hc
  obtain ⟨hencoding, hcommon, hcolon⟩ := hc
  have hplain : isPlain c = false := (Bool.or_eq_false_iff.1 hcommon).1
  have hhost : c ∉ a.host := by
    have h := ha.host
    generalize a.host = host at h
    cases h with
    | bracketed hinside =>
      have hinside := notMem_bracketed hinside (c := c) (by simp [isBracketedChar, hplain, hcolon])
      simp only [List.mem_cons, List.mem_append, not_or] at hbrackets ⊢
      exact ⟨hbrackets.1, hinside, hbrackets.2⟩
    | name hrun => exact hrun.notMem (by simp [hencoding, hcommon])
  have hport : c ∉ announced [':'] a.port := by
    cases hp : a.port with
    | none => simp [announced]
    | some port =>
      intro hmem
      rcases List.mem_cons.1 hmem with rfl | hmem
      · cases hcolon
      · have hdigit := ha.port port hp c hmem
        simp [isPlain, hdigit] at hplain
  rw [Authority.hostAndPort, List.mem_append, not_or]
  exact ⟨hhost, hport⟩

theorem notMem_text_of_endsAuthority {a : Authority} {c : Char} (ha : a.WellFormed)
    (hc : endsAuthority c = true) : c ∉ a.text := by
  have hfree : (c == '%' || isHex c || isUserChar c) = false ∧ c ∉ ['[', ']'] ∧ c ≠ '@' := by
    rcases eq_of_endsAuthority hc with rfl | rfl | rfl <;> decide
  obtain ⟨hchar, hbrackets, hat⟩ := hfree
  have hhost := notMem_hostAndPort ha hchar hbrackets
  unfold Authority.text
  split
  · exact hhost
  · next user huser =>
    rw [List.mem_append, List.mem_cons, not_or, not_or]
    exact ⟨(ha.user user huser).notMem hchar, hat, hhost⟩

end TripleQuery.Iri
