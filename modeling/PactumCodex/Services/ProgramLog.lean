import PactumCodex.Types

/-!
# Program logs

`services/solana_logs.rs`, which forwards the notifications of the
`logsSubscribe` subscription, and `services/program_log.rs`, which extracts at
most one event from the log lines of a transaction.

`parse_logs` is a loop over the lines with five mutable variables; here they
are the fields of `LogScan`, and `scanLine` is the loop body.
-/

namespace PactumCodex

/-! ## Strings -/

/-- `str::strip_prefix`. -/
def stripPrefix (start text : String) : Option String :=
  if start.toList <+: text.toList then some (String.ofList (text.toList.drop start.length))
  else none

/-- `str::starts_with`. -/
def startsWith (start text : String) : Bool := start.toList.isPrefixOf text.toList

/-- `str::trim_start_matches` on characters; `fuel` bounds the number of removals. -/
def trimStartChars (start : List Char) : ℕ → List Char → List Char
  | 0, text => text
  | fuel + 1, text =>
      if start <+: text then trimStartChars start fuel (text.drop start.length) else text

/-- `str::trim_start_matches`: remove a prefix as often as it occurs. -/
def trimStartMatches (start text : String) : String :=
  String.ofList (trimStartChars start.toList text.length text.toList)

/-- The Unicode property `White_Space`. -/
def isWhiteSpace (c : Char) : Bool :=
  let n := c.toNat
  (0x9 ≤ n && n ≤ 0xD) || n = 0x20 || n = 0x85 || n = 0xA0 || n = 0x1680 ||
    (0x2000 ≤ n && n ≤ 0x200A) || n = 0x2028 || n = 0x2029 || n = 0x202F || n = 0x205F || n = 0x3000

/-- `str::trim`. -/
def trim (text : String) : String :=
  String.ofList ((text.toList.dropWhile isWhiteSpace).reverse.dropWhile isWhiteSpace).reverse

/-! ## `services/solana_logs.rs` -/

/-- A notification of the `logsSubscribe` subscription; `err` is the error of a
transaction that failed. -/
structure RpcLogsResponse where
  slot : UInt64
  signature : String
  err : Option Json
  logs : List String

/-- A parsed program log entry from Solana. -/
structure ProgramLog where
  signature : String
  slot : UInt64
  logs : List String
  deriving DecidableEq

/-- What the loop of `connect_and_stream` sends on for a notification. -/
def connectAndStream (response : RpcLogsResponse) : ProgramLog where
  signature := response.signature
  slot := response.slot
  logs := response.logs

/-! ## `services/program_log.rs` -/

/-- Types of Pactum instructions. -/
inductive InstructionType : Type
  | createAgreement
  | signAgreement
  | cancelAgreement
  | expireAgreement
  | voteRevoke
  deriving DecidableEq, Repr

/-- `InstructionType::from_str`. -/
def InstructionType.fromStr (s : String) : Option InstructionType :=
  if s = "CreateAgreement" then some .createAgreement
  else if s = "SignAgreement" then some .signAgreement
  else if s = "CancelAgreement" then some .cancelAgreement
  else if s = "ExpireAgreement" then some .expireAgreement
  else if s = "VoteRevoke" then some .voteRevoke
  else none

/-- Parsed event data from program logs. -/
structure ParsedEvent where
  instruction : InstructionType
  agreementPda : String
  creator : Option String
  signer : Option String
  parties : List String
  deriving DecidableEq, Repr

/-- The variables of the loop of `parse_logs`. -/
structure LogScan where
  instruction : Option InstructionType
  agreementPda : Option String
  creator : Option String
  signer : Option String
  parties : List String
  deriving DecidableEq

/-- Before the first line. -/
def LogScan.start : LogScan := ⟨none, none, none, none, []⟩

/-- The JSON part of the loop body. -/
def scanJson (crates : Crates) (scan : LogScan) (log : String) : LogScan :=
  if startsWith "Program log: \x7b" log then
    match crates.parseLogData (trimStartMatches "Program log: " log) with
    | some data =>
        { scan with
          agreementPda := data.agreementPda <|> scan.agreementPda
          creator := data.creator <|> scan.creator
          signer := data.signer <|> scan.signer
          parties := data.parties.getD scan.parties }
    | none => scan
  else scan

/-- The key=value part of the loop body. -/
def scanKeyValue (scan : LogScan) (log : String) : LogScan :=
  match stripPrefix "Program log: " log with
  | none => scan
  | some kv =>
      if startsWith "agreement_pda=" kv then
        { scan with agreementPda := some (trimStartMatches "agreement_pda=" kv) }
      else if startsWith "creator=" kv then
        { scan with creator := some (trimStartMatches "creator=" kv) }
      else if startsWith "signer=" kv then
        { scan with signer := some (trimStartMatches "signer=" kv) }
      else scan

/-- The loop body of `parse_logs`. -/
def scanLine (crates : Crates) (scan : LogScan) (log : String) : LogScan :=
  match stripPrefix "Program log: Instruction: " log with
  | some instr => { scan with instruction := InstructionType.fromStr (trim instr) }
  | none => scanKeyValue (scanJson crates scan log) log

/-- Parse program logs to extract instruction events. -/
def parseLogs (crates : Crates) (signature : String) (_slot : UInt64) (logs : List String) :
    Option ParsedEvent :=
  let scan := logs.foldl (scanLine crates) LogScan.start
  scan.instruction.map fun instruction =>
    ⟨instruction, scan.agreementPda.getD signature, scan.creator, scan.signer, scan.parties⟩

end PactumCodex
