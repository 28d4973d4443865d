import PactumCodex.Config
import PactumCodex.Lib.Authority

/-!
# The password in the URL of the database

`inject_password_into_url` writes the password into the URL as it is.  A driver
reads it back if and only if no character of it ends the authority of a URL and
nothing in it is an escape.  The passwords that `docker-compose.yml` generates are
base64 and may contain `/`.

* `injectPasswordIntoUrl_exact_iff`: this, for any password and any URL that names a
  user (`NamesUser`);
* `databaseUrl_exact_iff`: the same for the URL that the server starts with, where the
  password is the trimmed text of the file that `PGPASSWORD_FILE` names.

The URL is cut into scheme, user, host and tail (`NamesUser.pieces`), between which
the password is put (`injectPasswordIntoUrl_eq`).  If a character of it ends the
authority, what the driver takes for the password is too short
(`parse_ne_of_endsAuthority`); otherwise it is the password, percent-decoded
(`parse_password`), which changes it exactly if there is an escape in it.
-/

namespace PactumCodex

section Find

variable {first rest : List Char}

theorem strFind_singleton {c : Char} (h : c ∉ first) :
    strFind [c] (first ++ c :: rest) = some first.length := by
  induction first with
  | nil => simp [strFind]
  | cons d first ih =>
      rw [List.mem_cons, not_or] at h
      have hprefix : ¬ [c] <+: d :: (first ++ c :: rest) := by
        simpa using h.1
      rw [List.cons_append, strFind, if_neg hprefix, ih h.2]
      rfl

theorem strFind_separator (h : ':' ∉ first) :
    strFind "://".toList (first ++ ':' :: '/' :: '/' :: rest) = some first.length := by
  induction first with
  | nil => simp [strFind]
  | cons d first ih =>
      rw [List.mem_cons, not_or] at h
      have hprefix : ¬ "://".toList <+: d :: (first ++ ':' :: '/' :: '/' :: rest) := by
        simpa using fun heq => absurd heq h.1
      rw [List.cons_append, strFind, if_neg hprefix, ih h.2]
      rfl

end Find

/-- A URL `scheme://user@host` with these parts, whose user has no reserved character. -/
structure NamesUser (url : String) (parts : Url.Parts) : Prop where
  parses : Url.parse url.toList = some parts
  user : ∃ user, parts.authority.user = some user ∧ ∀ c ∈ user, Url.isReserved c = false
  no_password : parts.authority.password = none

/-- The parts of a URL after a password was added. -/
def withPassword (parts : Url.Parts) (password : String) : Url.Parts :=
  { parts with
    authority := { parts.authority with password := some (Url.utf8 password.toList) } }

/-- A driver reads the password in the URL, and otherwise what it read before. -/
def PasswordAdded (url password : String) (parts : Url.Parts) : Prop :=
  ∃ result, injectPasswordIntoUrl url password = .ok result ∧
    Url.parse result.toList = some (withPassword parts password)

section Injection

variable {url : String} {scheme user hostPort tail : List Char} {parts : Url.Parts}

/-- The password stands between the user and the first `@`. -/
theorem injectPasswordIntoUrl_eq (hcolon : ':' ∉ scheme) (hat : '@' ∉ user) {rest : List Char}
    (hurl : url.toList = scheme ++ ':' :: '/' :: '/' :: (user ++ '@' :: rest)) (password : String) :
    injectPasswordIntoUrl url password = .ok (String.ofList
      (scheme ++ ':' :: '/' :: '/' :: (user ++ ':' :: (password.toList ++ '@' :: rest)))) := by
  have hstart : strFind "://".toList url.toList = some scheme.length := by
    rw [hurl]
    exact strFind_separator hcolon
  have hdrop : url.toList.drop (scheme.length + 3) = user ++ '@' :: rest := by
    rw [hurl, List.drop_append]
    simp
  have htake : url.toList.take (scheme.length + 3) = scheme ++ "://".toList := by
    rw [hurl, List.take_append]
    simp
  rw [injectPasswordIntoUrl, hstart]
  simp only [hdrop, htake, strFind_singleton hat, List.take_left, List.drop_left]
  congr 2
  simp

/-- What such a URL consists of. -/
theorem NamesUser.pieces (h : NamesUser url parts) :
    ∃ scheme user hostPort tail,
      url.toList = scheme ++ ':' :: '/' :: '/' :: ((user ++ '@' :: hostPort) ++ tail) ∧
      Url.isScheme scheme = true ∧ ':' ∉ scheme ∧ ':' ∉ user ∧ '@' ∉ user ∧ '@' ∉ hostPort ∧
      (∀ c ∈ user ++ '@' :: hostPort, Url.endsAuthority c = false) ∧ Url.IsTail tail ∧
      parts = {
        scheme
        authority := {
          user := some user
          password := none
          host := (Url.splitHostPort hostPort).1
          port := (Url.splitHostPort hostPort).2 }
        tail := Url.parseTail tail } := by
  obtain ⟨scheme, authority, tail, hurl, hscheme, hcolon, hinside, htail, rfl⟩ :=
    Url.parse_eq_some h.parses
  obtain ⟨user, huser, hplain⟩ := h.user
  obtain ⟨hostPort, rfl, huserColon, hhost, hauthority⟩ :=
    Url.parseAuthority_user huser h.no_password
  have hat : '@' ∉ user := fun hmem => by cases hplain '@' hmem
  rw [hauthority]
  exact ⟨scheme, user, hostPort, tail, hurl, hscheme, hcolon, huserColon, hat, hhost, hinside,
    htail, rfl⟩

/-- A password with a character that ends the authority is cut off. -/
theorem parse_ne_of_endsAuthority {rest : List Char} {password : String}
    (hscheme : Url.isScheme scheme = true) (hcolon : ':' ∉ scheme) (huserColon : ':' ∉ user)
    (hat : '@' ∉ user) (huser : ∀ c ∈ user, Url.endsAuthority c = false)
    (hends : ∃ c ∈ password.toList, Url.endsAuthority c = true) :
    Url.parse (scheme ++ ':' :: '/' :: '/' :: (user ++ ':' :: (password.toList ++ rest))) ≠
      some (withPassword parts password) := by
  intro hparse
  obtain ⟨before, c, after, hpassword, hc, hbefore⟩ := Url.exists_first_endsAuthority hends
  have hinside : ∀ d ∈ user ++ ':' :: before, Url.endsAuthority d = false := by
    intro d hd
    rcases List.mem_append.mp hd with hmem | hmem
    · exact huser d hmem
    · rcases List.mem_cons.mp hmem with rfl | hmem
      · decide
      · exact hbefore d hmem
  have htail : Url.IsTail (c :: (after ++ rest)) := by
    intro d hd
    rw [← Option.some.inj hd]
    exact hc
  have hcut : scheme ++ ':' :: '/' :: '/' :: (user ++ ':' :: (password.toList ++ rest)) =
      scheme ++ ':' :: '/' :: '/' :: ((user ++ ':' :: before) ++ c :: (after ++ rest)) := by
    rw [hpassword]
    simp
  rw [hcut, Url.parse_append hscheme hcolon hinside htail] at hparse
  have hbytes : (Url.parseAuthority (user ++ ':' :: before)).password =
      some (Url.utf8 password.toList) :=
    congrArg (fun parts => parts.authority.password) (Option.some.inj hparse)
  have hle := Url.length_password_le huserColon hat hbytes
  have hpos := Url.length_utf8EncodeChar_pos c
  simp only [hpassword, Url.utf8, List.flatMap_append, List.flatMap_cons, List.length_append] at hle
  omega

/-- A password in which the authority does not end is percent-decoded. -/
theorem parse_password {password : String} (hscheme : Url.isScheme scheme = true)
    (hcolon : ':' ∉ scheme) (huserColon : ':' ∉ user) (hhost : '@' ∉ hostPort)
    (hinside : ∀ c, c ∈ user ∨ c ∈ hostPort → Url.endsAuthority c = false)
    (hpassword : ∀ c ∈ password.toList, Url.endsAuthority c = false) (htail : Url.IsTail tail) :
    Url.parse (scheme ++ ':' :: '/' :: '/' ::
        (user ++ ':' :: (password.toList ++ '@' :: (hostPort ++ tail)))) =
      some {
        scheme
        authority := {
          user := some user
          password := some (Url.percentDecode password.toList)
          host := (Url.splitHostPort hostPort).1
          port := (Url.splitHostPort hostPort).2 }
        tail := Url.parseTail tail } := by
  have hauthority : ∀ c ∈ user ++ ':' :: (password.toList ++ '@' :: hostPort),
      Url.endsAuthority c = false := by
    intro c hc
    simp only [List.mem_append, List.mem_cons] at hc
    rcases hc with hc | rfl | hc | rfl | hc
    · exact hinside c (.inl hc)
    · decide
    · exact hpassword c hc
    · decide
    · exact hinside c (.inr hc)
  -- the authority is everything up to the tail
  have hpieces : user ++ ':' :: (password.toList ++ '@' :: (hostPort ++ tail)) =
      (user ++ ':' :: (password.toList ++ '@' :: hostPort)) ++ tail := by simp
  rw [hpieces, Url.parse_append hscheme hcolon hauthority htail,
    Url.parseAuthority_password huserColon hhost]

theorem passwordAdded_iff {password : String} {result : List Char}
    (h : injectPasswordIntoUrl url password = .ok (String.ofList result)) :
    PasswordAdded url password parts ↔
      Url.parse result = some (withPassword parts password) := by
  rw [PasswordAdded, h]
  simp

theorem passwordAdded_iff_plain (h : NamesUser url parts) (password : String) :
    PasswordAdded url password parts ↔
      (∀ c ∈ password.toList, Url.endsAuthority c = false) ∧
        Url.hasEscape password.toList = false := by
  obtain ⟨scheme, user, hostPort, tail, hurl, hscheme, hcolon, huserColon, hat, hhost, hinside,
    htail, rfl⟩ := h.pieces
  have hauthority : ∀ c, c ∈ user ∨ c ∈ hostPort → Url.endsAuthority c = false := by
    intro c hc
    refine hinside c ?_
    simp only [List.mem_append, List.mem_cons]
    tauto
  rw [List.append_assoc, List.cons_append] at hurl
  have hinject := injectPasswordIntoUrl_eq hcolon hat hurl password
  rw [passwordAdded_iff hinject]
  -- a password that ends the authority early is not even part of it
  by_cases hends : ∃ c ∈ password.toList, Url.endsAuthority c = true
  · have hfalse : ¬ ∀ c ∈ password.toList, Url.endsAuthority c = false := by
      intro hall
      obtain ⟨c, hc, hend⟩ := hends
      rw [hall c hc] at hend
      cases hend
    refine iff_of_false ?_ fun hright => hfalse hright.1
    exact parse_ne_of_endsAuthority hscheme hcolon huserColon hat
      (fun c hc => hauthority c (.inl hc)) hends
  · have hall : ∀ c ∈ password.toList, Url.endsAuthority c = false := by
      intro c hc
      by_contra hend
      exact hends ⟨c, hc, Bool.eq_true_of_not_eq_false hend⟩
    have hparse := parse_password hscheme hcolon huserColon hhost hauthority hall htail
    rw [hparse, ← Url.percentDecode_eq_utf8_iff]
    constructor
    · intro heq
      refine ⟨hall, ?_⟩
      have hbytes := congrArg (fun parts => parts.authority.password) (Option.some.inj heq)
      exact Option.some.inj hbytes
    · rintro ⟨-, hdecode⟩
      rw [hdecode]
      rfl

/-- **The password is read back if and only if nothing in it has a meaning in a URL**: no character
ends the authority and none begins an escape. -/
theorem injectPasswordIntoUrl_exact_iff (h : NamesUser url parts) (password : String) :
    PasswordAdded url password parts ↔
      (∀ c ∈ password.toList, Url.endsAuthority c = false) ∧
        Url.hasEscape password.toList = false := passwordAdded_iff_plain h password

/-- The URL that the server connects with has the password of the file just if nothing in the
trimmed text of the file has a meaning in a URL. -/
theorem databaseUrl_exact_iff {env : DatabaseEnv} {pwFile text : String} (h : NamesUser url parts)
    (hurl : env.databaseUrl = some url) (hfile : env.pgpasswordFile = some pwFile)
    (hread : env.readToString pwFile = .ok text) :
    (∃ result, databaseUrl env = .ok result ∧
        Url.parse result.toList = some (withPassword parts (trim text))) ↔
      (∀ c ∈ (trim text).toList, Url.endsAuthority c = false) ∧
        Url.hasEscape (trim text).toList = false := by
  have hinjected : databaseUrl env = injectPasswordIntoUrl url (trim text) := by
    rw [databaseUrl, hurl]
    simp only [hfile, hread]
  rw [hinjected]
  exact passwordAdded_iff_plain h (trim text)

end Injection

/-! ## The URL of `docker-compose.yml` -/

/-- The URL that `docker-compose.yml` sets. -/
def composeUrl : String := "postgres://pactum@postgres:5432/pactum"

def composeParts : Url.Parts where
  scheme := "postgres".toList
  authority := {
    user := some "pactum".toList
    password := none
    host := "postgres".toList
    port := some "5432".toList }
  tail := { path := "/pactum".toList, query := none, fragment := none }

theorem namesUser_composeUrl : NamesUser composeUrl composeParts where
  parses := by decide
  user := by
    refine ⟨"pactum".toList, rfl, fun c hc => ?_⟩
    have hall : "pactum".toList.all (fun c => !Url.isReserved c) = true := by decide
    exact Bool.not_eq_true' _ ▸ List.all_eq_true.mp hall c hc
  no_password := rfl

/-- A base64 password without `/`. -/
theorem injectPasswordIntoUrl_exact_compose :
    PasswordAdded composeUrl "q83vEjRWeJA=" composeParts ↔
      (∀ c ∈ "q83vEjRWeJA=".toList, Url.endsAuthority c = false) ∧
        Url.hasEscape "q83vEjRWeJA=".toList = false :=
  injectPasswordIntoUrl_exact_iff namesUser_composeUrl "q83vEjRWeJA="

/-- The base64 numeral of 32 bytes, one of them `0xff`. -/
def generatedPassword : String := "q83vEjRWeJCrze8SNFZ4kKvN7xI0VniQ/6vN7xI0Vnw="

/-- What the driver reads in the URL with this password. -/
def misreadParts : Url.Parts where
  scheme := "postgres".toList
  authority := {
    user := none
    password := none
    host := "pactum".toList
    port := some "q83vEjRWeJCrze8SNFZ4kKvN7xI0VniQ".toList }
  tail := {
    path := "/6vN7xI0Vnw=@postgres:5432/pactum".toList
    query := none
    fragment := none }

/-- With this password, the driver takes the user for the host. -/
theorem injectPasswordIntoUrl_generated_wrong :
    NamesUser composeUrl composeParts ∧
      ¬ PasswordAdded composeUrl generatedPassword composeParts := by
  have hmisread : ∀ result, injectPasswordIntoUrl composeUrl generatedPassword = .ok result →
      Url.parse result.toList = some misreadParts := by
    intro result hresult
    cases hresult
    decide
  refine ⟨namesUser_composeUrl, ?_⟩
  rintro ⟨result, hresult, hparse⟩
  rw [hmisread result hresult] at hparse
  cases hparse

end PactumCodex
