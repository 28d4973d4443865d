import PactumCodex.World

/-!
# `services/solana_pay.rs`

The Solana Pay URL of a payment request, and the statement that confirms a
payment.
-/

namespace PactumCodex

/-- Decimal digits of a 64-bit integer. -/
def decimal (n : Int64) : String := toString n.toInt

/-- `{:06}`: zero padding to six characters, after the sign. -/
def zeroPad6 (n : Int64) : String :=
  let digits := Nat.toDigits 10 n.toInt.natAbs
  if n < 0 then String.ofList ('-' :: List.replicate (5 - digits.length) '0' ++ digits)
  else String.ofList (List.replicate (6 - digits.length) '0' ++ digits)

/-- An amount in units of 10⁻⁶, without trailing zeros. -/
def formatAmount6dp (amountUnits : Int64) : String :=
  let sign := if amountUnits < 0 then "-" else ""
  let whole := amountUnits.abs / 1000000
  let fractional := amountUnits.abs % 1000000
  if fractional = 0 then sign ++ decimal whole
  else
    let frac := String.ofList ((zeroPad6 fractional).toList.reverse.dropWhile (· = '0')).reverse
    sign ++ decimal whole ++ "." ++ frac

/-- Bytes that are not escaped. -/
def isUnreserved (byte : UInt8) : Bool :=
  let c := Char.ofNat byte.toNat
  (byte < 128 && c.isAlphanum) || c = '-' || c = '_' || c = '.' || c = '~'

/-- `{:02X}`. -/
def upperHex (byte : UInt8) : List Char := (Hex.encode 2 byte.toNat).map Char.toUpper

/-- Percent-encoding of the UTF-8 bytes. -/
def percentEncodeMinimal (input : String) : String :=
  String.ofList ((input.toList.flatMap String.utf8EncodeChar).flatMap fun byte =>
    if isUnreserved byte then [Char.ofNat byte.toNat] else '%' :: upperHex byte)

def buildSolanaPayUrl (treasuryAta : String) (amountUnits : Int64)
    (mint reference label memo : String) : String :=
  "solana:" ++ treasuryAta ++ "?amount=" ++ formatAmount6dp amountUnits ++ "&spl-token=" ++ mint ++
    "&reference=" ++ reference ++ "&label=" ++ percentEncodeMinimal label ++ "&memo=" ++
    percentEncodeMinimal memo

/-- Confirm the pending payment of a reference; `false` if there is none. -/
def confirmPaymentAtomic (reference txSignature tokenMint : String) (tokenAmount : Int64) :
    Handler Bool := do
  let now ← Handler.ask .dbNow
  let row ← Handler.query (.payment (.confirm reference txSignature tokenMint tokenAmount now))
  return row.isSome

end PactumCodex
