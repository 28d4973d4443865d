import PactumCodex.Lib.Hex
import PactumCodex.Lib.Json

/-!
# Identifiers, configuration and errors

The value types shared by handlers and workers: identifiers (`uuid`), keys and
byte arrays, the fields of `Config` that the modelled code reads, `AppError`,
and the pure functions of third-party crates as one parameter, `Crates`.
-/

namespace PactumCodex

/-! ## Identifiers and bytes -/

/-- `uuid::Uuid`: 128 bits. -/
abbrev Uuid := BitVec 128

/-- `[u8; n]`. -/
abbrev Bytes (n : ℕ) := Vector UInt8 n

/-- `solana_sdk::pubkey::Pubkey`: 32 bytes. -/
abbrev Pubkey := Bytes 32

namespace Uuid

instance lawfulBEq : LawfulBEq Uuid := inferInstance

/-- The groups of the hyphenated form. -/
def hyphenate (digits : List Char) : List Char :=
  digits.take 8 ++ '-' :: (digits.drop 8).take 4 ++ '-' :: (digits.drop 12).take 4 ++
    '-' :: (digits.drop 16).take 4 ++ '-' :: digits.drop 20

/-- `Uuid::to_string`: hyphenated, lower case. -/
def toText (id : Uuid) : String := String.ofList (hyphenate (Hex.encode 32 id.toNat))

/-- The 36 characters of the hyphenated form. -/
def parseHyphenated (text : List Char) : Option ℕ :=
  if text[8]? = some '-' ∧ text[13]? = some '-' ∧ text[18]? = some '-' ∧ text[23]? = some '-' then
    Hex.decode (text.take 8 ++ (text.drop 9).take 4 ++ (text.drop 14).take 4 ++
      (text.drop 19).take 4 ++ text.drop 24)
  else none

/-- `Uuid::parse_str`: simple, hyphenated, braced and URN forms. -/
def parseStr (text : String) : Option Uuid :=
  let chars := text.toList
  let value :=
    if chars.length = 32 then Hex.decode chars
    else if chars.length = 36 then parseHyphenated chars
    else if chars.length = 38 ∧ chars.head? = some '{' ∧ chars.getLast? = some '}' then
      parseHyphenated ((chars.drop 1).take 36)
    else if chars.length = 45 ∧ "urn:uuid:".toList <+: chars then parseHyphenated (chars.drop 9)
    else none
  value.map (BitVec.ofNat 128)

/-- `Uuid::as_bytes`: big endian. -/
def asBytes (id : Uuid) : Bytes 16 :=
  Vector.ofFn fun i => UInt8.ofNat (id.toNat / 256 ^ (15 - i.val))

end Uuid

/-! ## Errors -/

/-- `AppError`, the variants raised by the modelled handlers and services. -/
inductive AppError : Type
  | invalidOrExpiredNonce
  | invalidRefreshToken
  | unauthorized
  | emailRequired (message addEmailUrl : String)
  | walletAlreadyLinked
  | missingContentType
  | invalidFileType
  | fileTooLarge
  | uploadFailed
  | draftNotReady
  | paymentRequired (draftId initiateUrl : String)
  | invalidHash
  | hashMismatch
  | encryptionFailed
  | paymentMethodUnsupported
  | inviteWindowExceedsSigningWindow
  | notFound
  | internalError
  | rateLimited
  | solanaRpcError
  | transactionSigningFailed
  deriving DecidableEq, Repr

/-! ## Configuration -/

/-- One supported stablecoin. -/
structure StablecoinInfo where
  symbol : String
  mint : String
  ata : String
  decimals : UInt8

/-- Registry of all supported stablecoins. -/
structure StablecoinRegistry where
  usdc : StablecoinInfo
  usdt : StablecoinInfo
  pyusd : StablecoinInfo

/-- Resolve a payment method string to its `StablecoinInfo`. -/
def StablecoinRegistry.resolve (registry : StablecoinRegistry) (method : String) :
    Option StablecoinInfo :=
  if method = "usdc" then some registry.usdc
  else if method = "usdt" then some registry.usdt
  else if method = "pyusd" then some registry.pyusd
  else none

/-- The fields of `Config` that the modelled code reads. -/
structure Config where
  programId : String
  jwtAccessExpirySeconds : UInt64
  encryptionKey : String
  encryptionIndexKey : String
  googleClientId : String
  googleClientSecret : String
  googleRedirectUri : String
  microsoftClientId : String
  microsoftClientSecret : String
  microsoftRedirectUri : String
  microsoftTenant : String
  inviteExpirySeconds : UInt64
  inviteReminderAfterSeconds : UInt64
  platformFeeUsdCents : UInt32
  platformFeeFreeTier : UInt32
  platformNonrefundableFeeCents : UInt32
  stablecoinRegistry : StablecoinRegistry

/-! ## Third-party functions -/

/-- The fields of a JSON log line, all optional. -/
structure LogData where
  agreementPda : Option String
  creator : Option String
  signer : Option String
  parties : Option (List String)
  deriving DecidableEq, Repr

/-- Pure functions the program takes from other crates. -/
structure Crates where
  /-- `Pubkey::from_str`. -/
  pubkeyFromStr : String → Option Pubkey
  /-- `Pubkey::to_string`. -/
  pubkeyToString : Pubkey → String
  /-- `Pubkey::find_program_address` under the program id, without the bump. -/
  findProgramAddress : List (List UInt8) → Pubkey
  /-- `hmac_index`: HMAC-SHA256 of a string. -/
  hmacIndex : String → Bytes 32 → List UInt8
  /-- `serde_json::from_str::<LogData>`. -/
  parseLogData : String → Option LogData
  /-- `Signature::from_str`. -/
  signatureFromStr : String → Option (Bytes 64)
  /-- `Signature::verify`: ed25519 under a public key, of the bytes of a string. -/
  signatureVerify : Bytes 64 → Pubkey → String → Bool
  /-- `sha256_hex`: SHA-256 of a string, in hexadecimal. -/
  sha256Hex : String → String

/-- What a handler or worker can reach besides the database and the network. -/
structure Env where
  config : Config
  crates : Crates

end PactumCodex
