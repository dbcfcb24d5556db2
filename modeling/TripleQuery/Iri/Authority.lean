import TripleQuery.Iri.Ipv6
import TripleQuery.Iri.Scan

/-!
# Authorities

An authority is `user@host:port`, of which only the host, possibly empty, is always there. A host
in brackets is an IPv6 address or an address of a later version (`v7.x`). Reading an authority takes
a text apart without loss (`readAuthority_append`); `hostOf` finds the host of any text that is used
as an authority, well-formed or not.
-/

namespace TripleQuery.Iri
open TripleQuery.Text

/-! ### Hosts in brackets -/

/-- The address behind the version number is not empty and holds only plain characters and colons.
A missing character is reported as the closing bracket. -/
def checkFutureAddress : List Char → Except Fault Unit
  | [] => .error (.hostChar ']')
  | address =>
    match address.find? fun c => !(isPlain c || c == ':') with
    | some c => .error (.hostChar c)
    | none => .ok ()

/-- What follows the letter of a later version: at least one hexadecimal digit, a full stop and an
address. -/
def checkFuture (text : List Char) : Except Fault Unit :=
  let digits := text.takeWhile isHex
  match text.dropWhile isHex with
  | '.' :: address =>
    if digits.isEmpty then .error (.hostChar (address.headD ']'))
    else checkFutureAddress address
  | c :: _ => .error (.hostChar c)
  | [] => .error (.hostChar ']')

def checkBracketed (text : List Char) : Except Fault Unit :=
  match text with
  | 'v' :: future => checkFuture future
  | 'V' :: future => checkFuture future
  | _ => if Ipv6.isAddress text then .ok () else .error .hostAddress

/-! ### Host and port -/

def readPort (text : List Char) : Except Fault Scanned :=
  let port := text.takeWhile (!endsAuthority ·)
  match port.find? (!isDigit ·) with
  | some c => .error (.portChar c)
  | none => .ok (port, text.dropWhile (!endsAuthority ·))

/-- Reads a port with its colon, if there is one. Only after a bracket can there be
anything else. -/
def readPortPart : List Char → Except Fault Scanned
  | [] => .ok ([], [])
  | c :: rest =>
    if c = ':' then (readPort rest).map (Scanned.after [':'])
    else if endsAuthority c then .ok ([], c :: rest)
    else .error (.hostChar c)

def readHost : List Char → Except Fault Scanned
  | '[' :: rest =>
    match rest.dropWhile (· != ']') with
    | [] => .error (.hostChar '[')
    | close :: tail => do
      let inside := rest.takeWhile (· != ']')
      checkBracketed inside
      (readPortPart tail).map (Scanned.after ('[' :: inside ++ [close]))
  | text => do
    let host ← scan isCommon (fun c => c == ':' || endsAuthority c) text
    (readPortPart host.2).map (Scanned.after host.1)

/-- Reads an authority: user information up to an at sign if there is one, then host and port. -/
def readAuthority (text : List Char) : Except Fault Scanned := do
  let user ← scan isUserChar (fun c => c == '@' || c == '[' || endsAuthority c) text
  match user.2 with
  | '@' :: rest => (readHost rest).map (Scanned.after (user.1 ++ ['@']))
  | _ => readHost text

theorem readPort_append {text : List Char} {s : Scanned} (h : readPort text = .ok s) :
    s.1 ++ s.2 = text := by
  simp only [readPort] at h
  split at h
  · cases h
  · cases h
    exact List.takeWhile_append_dropWhile

theorem readPortPart_append {text : List Char} {s : Scanned} (h : readPortPart text = .ok s) :
    s.1 ++ s.2 = text := by
  cases text with
  | nil => cases h; rfl
  | cons c rest =>
    simp only [readPortPart] at h
    split at h
    · obtain ⟨t, ht, rfl⟩ := map_eq_ok.1 h
      simp_all [Scanned.after, readPort_append ht]
    · split at h
      · cases h; rfl
      · cases h

theorem readHost_append {text : List Char} {s : Scanned} (h : readHost text = .ok s) :
    s.1 ++ s.2 = text := by
  unfold readHost at h
  split at h
  · next rest =>
    split at h
    · cases h
    · next close tail hclose =>
      obtain ⟨_, _, h⟩ := bind_eq_ok.1 h
      obtain ⟨t, ht, rfl⟩ := map_eq_ok.1 h
      have hrest := List.takeWhile_append_dropWhile (p := (· != ']')) (l := rest)
      rw [hclose] at hrest
      simp [Scanned.after, readPortPart_append ht, hrest]
  · obtain ⟨host, hhost, h⟩ := bind_eq_ok.1 h
    obtain ⟨t, ht, rfl⟩ := map_eq_ok.1 h
    simp [Scanned.after, readPortPart_append ht, scan_append hhost]

theorem readAuthority_append {text : List Char} {s : Scanned} (h : readAuthority text = .ok s) :
    s.1 ++ s.2 = text := by
  unfold readAuthority at h
  obtain ⟨user, huser, h⟩ := bind_eq_ok.1 h
  split at h
  · next rest hrest =>
    obtain ⟨t, ht, rfl⟩ := map_eq_ok.1 h
    have hall := scan_append huser
    rw [hrest] at hall
    simp [Scanned.after, readHost_append ht, hall]
  · exact readHost_append h

/-! ### The host of an authority -/

def afterUser (authority : List Char) : List Char :=
  (authority.reverse.takeWhile (· != '@')).reverse

/-- The host of a text used as an authority: between the last at sign and the port. A bracketed host
ends with the first closing bracket, any other before the first colon. -/
def hostOf (authority : List Char) : List Char :=
  match afterUser authority with
  | '[' :: rest => '[' :: (rest.takeWhile (· != ']') ++ (rest.dropWhile (· != ']')).take 1)
  | host => host.takeWhile (· != ':')

example : hostOf "user:pw@example.com:1099".toList = "example.com".toList := by decide
example : hostOf "[::1]:1099".toList = "[::1]".toList := by decide

end TripleQuery.Iri
