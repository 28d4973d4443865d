import PactumCodex.Handlers.Agreement
import PactumCodex.Services.SolanaPay

/-!
# `initiate_payment`

The handler of `handlers/payment.rs` that grants the free tier or records a
payment to be made.  The response's `usd_equivalent`, a floating-point rendering
of the configured fee, is left out.
-/

namespace PactumCodex

/-- `InitiatePaymentRequest`. -/
structure InitiatePaymentRequest where
  method : String

/-- `InitiatePaymentResponse`. -/
inductive InitiatePaymentResponse : Type
  | free
  | pending (method tokenMint treasuryAta : String) (amountUnits : Int64)
      (referencePubkey solanaPayUrl : String)

/-- Convert USD cents to token units based on decimals. -/
def centsToTokenUnits (cents : UInt32) (decimals : UInt8) : Int64 :=
  let factor := Int64.ofInt (10 ^ decimals.toNat)
  Int64.ofNat cents.toNat * factor / 100

/-- Free tier: mark draft as paid and increment counter. -/
def grantFreeTier (userId draftId : Uuid) : Handler InitiatePaymentResponse := do
  Handler.query (.draft (.setPaid draftId))
  Handler.query (.count (.bump userId))
  return .free

/-- Paid path: record a payment to be made to the treasury. -/
def requestPayment (env : Env) (auth : AuthUserWithWallet) (draftId : Uuid)
    (req : InitiatePaymentRequest) : Handler InitiatePaymentResponse := do
  let tokenInfo ← Handler.okOr .paymentMethodUnsupported
    (env.config.stablecoinRegistry.resolve req.method)
  let referencePubkey ← Handler.ask .newReference
  let tokenAmount := centsToTokenUnits env.config.platformFeeUsdCents tokenInfo.decimals
  let solanaPayUrl := buildSolanaPayUrl tokenInfo.ata tokenAmount tokenInfo.mint referencePubkey
    "Pactum Pro" (Uuid.toText draftId ++ "/1")
  let id ← Handler.ask .newUuid
  let now ← Handler.ask .dbNow
  Handler.query (.payment (.insert id draftId req.method auth.pubkey tokenInfo.mint tokenAmount
    referencePubkey tokenInfo.ata now))
  return .pending req.method tokenInfo.mint tokenInfo.ata tokenAmount referencePubkey solanaPayUrl

def initiatePayment (env : Env) (auth : AuthUserWithWallet) (draftId : Uuid)
    (req : InitiatePaymentRequest) : Handler InitiatePaymentResponse := do
  let draftCreator ← Handler.query (.draft (.creatorOf draftId))
  let draftCreator ← Handler.okOr .notFound draftCreator
  Handler.ensure (draftCreator = auth.pubkey) .unauthorized
  let freeUsed ← Handler.query (.count (.freeUsed auth.userId))
  if freeUsed.getD 0 < asI32 env.config.platformFeeFreeTier then grantFreeTier auth.userId draftId
  else requestPayment env auth draftId req

end PactumCodex
