import PactumCodex.Services.ProgramLog

/-!
# `config.rs`

How the URL of the database is put together at start-up.  An error is the message
with which the process panics.
-/

namespace PactumCodex

/-- `str::find`: where the pattern first occurs. -/
def strFind (pattern : List Char) : List Char → Option ℕ
  | [] => if pattern = [] then some 0 else none
  | c :: text =>
      if pattern <+: c :: text then some 0 else (strFind pattern text).map (· + 1)

/-- Inject a password into a PostgreSQL URL. -/
def injectPasswordIntoUrl (url password : String) : Except String String :=
  match strFind "://".toList url.toList with
  | none => .error "DATABASE_URL must contain '://'"
  | some start =>
      let schemeEnd := start + 3
      let rest := url.toList.drop schemeEnd
      match strFind ['@'] rest with
      | some atPos =>
          let user := rest.take atPos
          let afterAt := rest.drop atPos
          .ok (String.ofList
            (url.toList.take schemeEnd ++ user ++ ':' :: (password.toList ++ afterAt)))
      | none => .error "DATABASE_URL must contain '@' (e.g. postgres://user@host/db)"

/-- The variables of the environment that the URL depends on, and the files. -/
structure DatabaseEnv where
  databaseUrl : Option String
  pgpasswordFile : Option String
  readToString : String → Except String String

/-- `database_url` in `Config::from_env`. -/
def databaseUrl (env : DatabaseEnv) : Except String String :=
  match env.databaseUrl with
  | none => .error "DATABASE_URL is required"
  | some baseUrl =>
      match env.pgpasswordFile with
      | none => .ok baseUrl
      | some pwFile =>
          match env.readToString pwFile with
          | .error e => .error ("Cannot read PGPASSWORD_FILE '" ++ pwFile ++ "': " ++ e)
          | .ok text => injectPasswordIntoUrl baseUrl (trim text)

example : injectPasswordIntoUrl "postgres://user@host" "pw" = .ok "postgres://user:pw@host" := by
  rfl

end PactumCodex
