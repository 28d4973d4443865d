import PactumCodex.Services.ProgramLog

/-!
# The rate limit of `get_invite`

The first thing `get_invite` of `handlers/invite.rs` does: look up the address
of the client in the headers, forget its requests that are older than the
window, and reject the request if too many are left.  `INVITE_RATE_LIMITER` is
the state; a `DashMap` entry that is missing is an empty list.
-/

namespace PactumCodex

def rateLimitMaxRequests : ℕ := 5

def rateLimitWindowSecs : Int64 := 60

/-! ## The client's address -/

/-- `axum::http::HeaderValue`: bytes. -/
abbrev HeaderValue := List UInt8

/-- `axum::http::HeaderMap`, with names in lower case. -/
abbrev HeaderMap := List (String × HeaderValue)

/-- `HeaderMap::get`: the first value of the name. -/
def HeaderMap.get (headers : HeaderMap) (name : String) : Option HeaderValue :=
  (headers.find? (·.1 = name)).map Prod.snd

/-- `HeaderValue::to_str`: fails unless all bytes are visible ASCII, blanks or tabs. -/
def HeaderValue.toStr (value : HeaderValue) : Option String :=
  if value.all fun byte => (32 ≤ byte && byte < 127) || byte = 9 then
    some (String.ofList (value.map fun byte => Char.ofNat byte.toNat))
  else none

/-- `split(',').next()`. -/
def firstPart (raw : String) : String := String.ofList (raw.toList.takeWhile (· ≠ ','))

def parseIpHeader (value : Option HeaderValue) : Option String := do
  let header ← value
  let raw ← HeaderValue.toStr header
  let value := trim (firstPart raw)
  if value.isEmpty then none else some value

def extractRequestIp (headers : HeaderMap) : String :=
  ((parseIpHeader (headers.get "x-forwarded-for")).orElse fun _ =>
    parseIpHeader (headers.get "x-real-ip")).getD "unknown"

/-! ## The limiter -/

/-- `INVITE_RATE_LIMITER`: the times kept for each address. -/
abbrev InviteRateLimiter := String → List Int64

def enforceGetInviteRateLimit (headers : HeaderMap) (now : Int64) (limiter : InviteRateLimiter) :
    Except AppError Unit × InviteRateLimiter :=
  let ip := extractRequestIp headers
  let entry := (limiter ip).filter fun timestamp => now - timestamp < rateLimitWindowSecs
  if rateLimitMaxRequests ≤ entry.length then
    -- the entry stays pruned, the time of the request is not kept
    (.error .rateLimited, Function.update limiter ip entry)
  else (.ok (), Function.update limiter ip (entry ++ [now]))

end PactumCodex
