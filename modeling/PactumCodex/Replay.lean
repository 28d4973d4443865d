import Mathlib.Data.List.Sort
import PactumCodex.System

/-!
# A cooperative environment

One way of answering every operation with success, so that programs can be
executed on concrete data: statements return their rows in table order, clocks
stand still, the chain accepts everything and no user is online.  The
counterexamples and examples of the later modules are runs in this
environment, with single answers replaced where a failure is wanted.

* `runs_of_interpret`: what a program does in any environment is one of its
  executions, so a concrete execution is computed and never written down;
* `calls_of_interpretAll`: programs one after the other make a run of requests;
* `systemRun_of_replay`: a schedule of programs makes an interleaving.

The statements about such executions are decided by evaluation.
-/

namespace PactumCodex

open Interaction Relational

/-- An identifier that was not generated before, as long as all are generated this way. -/
def World.freshUuid (w : World) : Uuid := BitVec.ofNat 128 (w.uuids.length + 1)

/-- What a statement on drafts returns. -/
def DraftStmt.result (w : World) : (s : DraftStmt) → s.Out
  | insert .. => w.freshUuid
  | creatorOf id => (w.db.draft? id).map Draft.creatorPubkey
  | rowOf id => (w.db.draft? id).map fun draft =>
      ⟨draft.creatorPubkey, draft.draftPayload, draft.status, draft.paid⟩
  | discard _ => ()
  | setStorage .. => ()
  | setAgreement .. => ()
  | setPaid _ => ()

/-- What a statement on invitations returns. -/
def InvitationStmt.result (w : World) : (s : InvitationStmt) → s.Out
  | insert .. => ()
  | insertReturning .. => w.freshUuid
  | expiredOf id draftId => (w.db.invitations.rows.find? fun invitation =>
        invitation.id = id ∧ invitation.draftId = draftId ∧ invitation.status = .expired).map
      fun invitation =>
        (invitation.invitedEmailIndex, invitation.invitedEmailEnc, invitation.invitedEmailNonce)
  | expireStale now => (w.db.invitations.rows.filter (·.isStale now)).map fun invitation =>
      (invitation.id, invitation.draftId)
  | remindersDue threshold => (w.db.remindersDue threshold).map Invitation.id
  | markReminded .. => ()

/-- What a statement on payments returns. -/
def PaymentStmt.result (w : World) : (s : PaymentStmt) → s.Out
  | insert .. => ()
  | confirm reference .. => (w.db.payments.rows.find? (·.awaits reference)).map Payment.id
  | expireTimedOut threshold => w.db.payments.rows.countP fun payment =>
      payment.status = .pending ∧ payment.createdAt < threshold
  | expiredSince threshold => w.db.payments.rows.filterMap fun payment =>
      if payment.status = .expired ∧ payment.createdAt > threshold then
        payment.tokenReferencePubkey.map fun reference => (payment.id, reference)
      else none
  | reconcile .. => ()
  | confirmedOf agreementPda => ((w.db.payments.rows.filter fun payment =>
      payment.agreementPda = some agreementPda ∧ payment.status = .confirmed).map Payment.id).head?
  | initiateRefund .. => ()
  | pendingRefunds => (w.db.refundJoin.insertionSort fun a b => a.sortKey ≤ b.sortKey).take 10
  | markRefunded .. => ()
  | setAgreementPda .. => ()

/-- What a statement on counters returns. -/
def CountStmt.result (w : World) : (s : CountStmt) → s.Out
  | freeUsed userId =>
      (lookup AgreementCount.userId userId w.db.counts.rows).map AgreementCount.freeUsed
  | bump _ => ()

/-- What a statement on party rows returns. -/
def PartyStmt.result (w : World) : (s : PartyStmt) → s.Out
  | insert .. => ()
  | sign _ agreementPda signer => (w.db.parties.rows.find? fun party =>
      party.agreementPda = agreementPda ∧ party.partyPubkey = signer).map Party.partyPubkey
  | unsignedCount agreementPda => w.db.parties.rows.countP fun party =>
      party.agreementPda = agreementPda ∧ party.signedAt = none
  | setStatus .. => ()
  | partiesOf agreementPda =>
      (w.db.parties.rows.filter (·.agreementPda = agreementPda)).map Party.partyPubkey
  | due now => ((w.db.parties.rows.filter fun party =>
      party.status = .pendingSignatures ∧ party.expiresAt < now).map fun party =>
        (party.agreementPda, party.creatorPubkey)).dedup
  | lockForExpiry agreementPda => w.db.parties.rows.countP fun party =>
      party.agreementPda = agreementPda ∧ party.status = .pendingSignatures
  | unlockFromExpiry _ => ()

/-- What a lookup of an account returns. -/
def AccountStmt.result (w : World) : (s : AccountStmt) → s.Out
  | walletOfEmail emailIndex =>
      ((w.db.contacts.rows.filter (·.emailIndex = some emailIndex)).flatMap fun contact =>
        (w.db.wallets.rows.filter (·.userId = contact.userId)).map Wallet.pubkey).head?
  | hasEmail userId => w.db.contacts.rows.any fun contact =>
      contact.userId = userId ∧ contact.emailEnc.isSome
  | walletOf userId => ((w.db.wallets.rows.filter (·.userId = userId)).map Wallet.pubkey).head?
  | userOf pubkey => (lookup Wallet.pubkey pubkey w.db.wallets.rows).map Wallet.userId
  | emailEncOf userId => (lookup Contact.userId userId w.db.contacts.rows).map Contact.emailEnc

/-- What a statement returns. -/
def Stmt.result (w : World) : (s : Stmt) → s.Out
  | draft s => s.result w
  | invitation s => s.result w
  | payment s => s.result w
  | count s => s.result w
  | party s => s.result w
  | notification _ => w.freshUuid
  | account s => s.result w

/-- What a statement of a transaction returns. -/
def TxStmt.result (w : World) : (s : TxStmt) → s.Out
  | lockInvitation token => (w.db.invitation? token).map fun row =>
      ⟨row.id, row.draftId, row.status, row.expiresAt⟩
  | lockDraft id => (w.db.draft? id).map fun row => ⟨row.partySlots, row.creatorPubkey⟩
  | write _ => ()

/-- The answer of every operation; `now` is the time of both clocks. -/
def cooperate (now : ℤ) : (op : Op) → World → op.Ans
  | .sql s, w => .ok (s.result w)
  | .begin, w => .ok w.nextTx
  | .tx _ s, w => .ok (s.result w)
  | .commit _, _ => .ok ()
  | .rollback _, _ => ()
  | .dbNow, _ => now
  | .utcNow, _ => now
  | .newUuid, w => w.freshUuid
  | .newToken, w => Uuid.toText w.freshUuid
  | .newReference, w => Uuid.toText w.freshUuid
  | .encrypt .., _ => .ok ([], [])
  | .rentExemption _, _ => .ok 0
  | .latestBlockhash, _ => .ok "blockhash"
  | .vaultSign .., _ => .ok "transaction"
  | .accountExists _, _ => some true
  | .accountData _, _ => .ok []
  | .fetchAccount _, _ => some (.ok [])
  | .partialSign .., _ => .ok "transaction"
  | .serialize .., _ => .ok "transaction"
  | .sendTransaction _, _ => .ok "signature"
  | .destinationExists .., _ => .ok true
  | .sendTransfer .., _ => .ok "signature"
  | .sendEmail _, _ => .ok ()
  | .sendToUser .., _ => false
  | .refundCall .., _ => ()
  | .refundReturn .., _ => ()
  | .expireCall .., _ => ()
  | .expireReturn .., _ => ()

/-! ## Replays -/

/-- What a program does in a given environment is one of its runs. -/
theorem runs_of_interpret {α : Type} {p : Backend α} (w : World)
    (answer : (op : Op) → World → op.Ans) (test : List BackendStep → α → World → Bool)
    (h : (interpret perform answer p w).any
      (fun result => test result.1 result.2.1 result.2.2) = true) :
    ∃ steps a w', Runs perform p w steps a w' ∧ test steps a w' = true := by
  obtain ⟨⟨steps, a, w'⟩, hinterpret, htest⟩ := (Option.any_eq_true _ _).mp h
  exact ⟨steps, a, w', interpret_runs hinterpret, htest⟩

/-- A handler that succeeds. -/
theorem ok_of_interpret {α : Type} {x : Handler α} (w : World)
    (answer : (op : Op) → World → op.Ans)
    (h : (interpret perform answer x.run w).any (fun result => result.2.1.isOk) = true) :
    ∃ steps a w', Runs perform x.run w steps (.ok a) w' := by
  obtain ⟨steps, r, w', hrun, hok⟩ := runs_of_interpret w answer
    (fun _ (r : Except AppError α) _ => r.isOk) h
  cases r with
  | ok a => exact ⟨steps, a, w', hrun⟩
  | error e => cases hok

/-- A handler that fails. -/
theorem error_of_interpret {α : Type} {x : Handler α} (w : World)
    (answer : (op : Op) → World → op.Ans) (test : List BackendStep → World → Bool)
    (h : (interpret perform answer x.run w).any
      (fun result => !result.2.1.isOk && test result.1 result.2.2) = true) :
    ∃ steps e w', Runs perform x.run w steps (.error e) w' ∧ test steps w' = true := by
  obtain ⟨steps, r, w', hrun, htest⟩ := runs_of_interpret w answer
    (fun steps (r : Except AppError α) w' => !r.isOk && test steps w') h
  rw [Bool.and_eq_true] at htest
  cases r with
  | ok a => cases htest.1
  | error e => exact ⟨steps, e, w', hrun, htest.2⟩

/-- Execute programs one after the other, each in its own environment. -/
def interpretAll : List (Backend Unit × ((op : Op) → World → op.Ans)) → World →
    Option (List BackendStep × World)
  | [], w => some ([], w)
  | (p, answer) :: rest, w =>
      match interpret perform answer p w with
      | none => none
      | some (first, _, w₁) =>
          (interpretAll rest w₁).map fun result => (first ++ result.1, result.2)

/-- Programs of the backend in a given environment make up a run of requests. -/
theorem calls_of_interpretAll {env : Env}
    {programs : List (Backend Unit × ((op : Op) → World → op.Ans))}
    {w w' : World} {steps : List BackendStep} (hentry : ∀ p ∈ programs, Entry env p.1)
    (h : interpretAll programs w = some (steps, w')) : Calls env w steps w' := by
  induction programs generalizing w steps with
  | nil =>
      simp only [interpretAll, Option.some.injEq, Prod.mk.injEq] at h
      obtain ⟨rfl, rfl⟩ := h
      exact .nil w
  | cons program programs ih =>
      obtain ⟨p, answer⟩ := program
      obtain ⟨hp, hrest⟩ := List.forall_mem_cons.mp hentry
      simp only [interpretAll] at h
      split at h
      · simp at h
      · rename_i first _ w₁ hfirst
        obtain ⟨⟨rest, w₂⟩, hcalls, heq⟩ := Option.map_eq_some_iff.mp h
        rw [Prod.mk.injEq] at heq
        obtain ⟨rfl, rfl⟩ := heq
        exact .cons hp (interpret_runs hfirst) (ih hrest hcalls)

/-- What programs do one after the other is a run of requests. -/
theorem calls_of_interpret {env : Env} (w : World)
    (programs : List (Backend Unit × ((op : Op) → World → op.Ans)))
    (test : List BackendStep → World → Bool) (hentry : ∀ p ∈ programs, Entry env p.1)
    (h : (interpretAll programs w).any (fun result => test result.1 result.2) = true) :
    ∃ steps w', Calls env w steps w' ∧ test steps w' = true := by
  obtain ⟨⟨steps, w'⟩, hinterpret, htest⟩ := (Option.any_eq_true _ _).mp h
  exact ⟨steps, w', calls_of_interpretAll hentry hinterpret, htest⟩

/-- Start the programs, then let them take their turns. -/
def schedule (programs : List (Backend Unit)) (turns : List (ℕ × ((op : Op) → World → op.Ans))) :
    List (Move Op Op.Ans World) :=
  programs.map .start ++ turns.map fun turn => .run turn.1 turn.2

/-- A schedule of programs of the backend is a run of the system. -/
theorem systemRun_of_replay {env : Env} (w : World) {programs : List (Backend Unit)}
    (turns : List (ℕ × ((op : Op) → World → op.Ans))) (test : List BackendStep → World → Bool)
    (hentry : ∀ p ∈ programs, Entry env p)
    (h : (replay perform [] ⟨w, []⟩ (schedule programs turns)).any
      (fun result => test result.1 result.2.world) = true) :
    ∃ steps w', SystemRun env w steps w' ∧ test steps w' = true := by
  obtain ⟨⟨steps, pool⟩, hreplay, htest⟩ := (Option.any_eq_true _ _).mp h
  refine ⟨steps, pool.world, ⟨pool.threads, replay_run (fun p hp => ?_) .refl hreplay⟩, htest⟩
  simp only [schedule, List.mem_append, List.mem_map, Move.start.injEq, exists_eq_right,
    reduceCtorEq, and_false, exists_false, or_false] at hp
  exact hentry p hp

/-! ## Example data -/

/-- The value of a string of base-58 digits. -/
def base58Value (text : List Char) : Option ℕ :=
  (text.mapM fun c => base58Alphabet.idxOf? c).map (·.foldl (fun acc digit => acc * 58 + digit) 0)

/-- The base-58 text of exactly `n` bytes, where each leading `1` is a zero byte. -/
def base58Bytes (n maxLength : ℕ) (text : String) : Option (Bytes n) := do
  let value ← base58Value text.toList
  let length ← (List.range (n + 1)).find? fun length => value < 256 ^ length
  if text.length ≤ maxLength ∧ (text.toList.takeWhile (· = '1')).length + length = n then
    return Vector.ofFn fun i => UInt8.ofNat (value / 256 ^ (n - 1 - i.val))
  else none

/-- `Pubkey::from_str`. -/
def base58Key : String → Option Pubkey := base58Bytes 32 44

/-- A user's wallet and two nonces with its signatures of them. -/
def carolKey : String := "FVen3X669xLzsi6N2V91DoiyzHzg1uAgqiT8jZ9nS96Z"
def firstNonce : Uuid := 0xf47ac10b58cc4372a5670e02b2c3d479
def secondNonce : Uuid := 0x7c9e6679742540de944be07fc1f90ae7
def firstSignature : String :=
  "5kvwnNuA2XWFoRiLihoXTd8iNLeQRTVpkCBCwtwjbeToapWSBD3CqEtpjKT77zXiXbRCxPwwFWjT2UfB592WDMgD"
def secondSignature : String :=
  "4QCQrAXy6NU3CxUPKFViFzhosjcujNAToHAs5TTyFs5oBjJYHh9afvt1SaaRoJqToaRyrwEWhf9uxLXE4gPL7mWZ"

/-- A refresh token whose last digit is given. -/
def sampleToken (digit : Char) : String := String.ofList (List.replicate 63 '0' ++ [digit])

/-- The number that the bytes spell. -/
def Bytes.value {n : ℕ} (bytes : Bytes n) : ℕ :=
  bytes.toList.foldl (fun acc byte => acc * 256 + byte.toNat) 0

/-- The numbers that `carolKey` and the two signatures spell. -/
def carolValue : ℕ := 0xd75a980182b10ab7d54bfed3c964073a0ee172f3daa62325af021a68f707511a
def firstSignatureValue : ℕ :=
  0xedf39db686c05c2eb90b1138a6d88583178b247d2bfb8c53c259fd40d4883729 * 2 ^ 256 +
    0xf037ff4e233447bbeee4387e96f23677b28cf79a241100bcbca987c804377002
def secondSignatureValue : ℕ :=
  0xaa0e139e9aa8283db68e0446c8d94c44db59a9d1b94cb704f1ae78f29d09902a * 2 ^ 256 +
    0xc1d934c1811272bf52e94c66be7cf2a6f7f37bb1467815fa74976470c4316a02

/-- The ed25519 signatures of the examples. -/
def sampleVerify (signature : Bytes 64) (key : Pubkey) (message : String) : Bool :=
  key.value = carolValue &&
    (signature.value = firstSignatureValue && message = firstNonce.toText ||
      signature.value = secondSignatureValue && message = secondNonce.toText)

/-- The SHA-256 digests of the refresh tokens of the examples. -/
def sampleSha256Hex (text : String) : String :=
  if text = sampleToken '1' then "c386d8e8d07342f2e39e189c8e6c57bb205bb373fe4e3a6f69404a8bb767b417"
  else if text = sampleToken '2' then
    "68e4d75d23e31bd23f43266f769567b2588d9f3d3010fa7cacae7efd6f5ce0ad"
  else if text = sampleToken '3' then
    "ac7edb97166f7d682720aca18fea15cdd5d15242dad38297a48633a806236c4f"
  else ""

/-- Functions of the examples: keys and signatures are read as in base 58, and no log line is JSON.
Nothing depends on the other values. -/
def sampleCrates : Crates where
  pubkeyFromStr := base58Key
  pubkeyToString _ := "11111111111111111111111111111111"
  findProgramAddress _ := Vector.replicate 32 0
  hmacIndex text _ := text.toList.map fun c => UInt8.ofNat c.toNat
  parseLogData _ := none
  signatureFromStr := base58Bytes 64 88
  signatureVerify := sampleVerify
  sha256Hex := sampleSha256Hex

/-- Keys of the examples. -/
def aliceKey : String := "11111111111111111111111111111112"
def bobKey : String := "11111111111111111111111111111113"
def referenceKey : String := "11111111111111111111111111111114"
def mintKey : String := "11111111111111111111111111111115"

/-- A stablecoin with six decimals. -/
def sampleCoin : StablecoinInfo := ⟨"usdc", mintKey, aliceKey, 6⟩

/-- A configuration with the default fees. -/
def sampleConfig : Config where
  programId := bobKey
  jwtAccessExpirySeconds := 900
  encryptionKey := String.ofList (List.replicate 64 '0')
  encryptionIndexKey := String.ofList (List.replicate 64 '0')
  googleClientId := "google-client-id"
  googleClientSecret := "google-client-secret"
  googleRedirectUri := "https://api.pactum.app/auth/oauth/google/callback"
  microsoftClientId := "ms-client-id"
  microsoftClientSecret := "ms-client-secret"
  microsoftRedirectUri := "https://api.pactum.app/auth/oauth/microsoft/callback"
  microsoftTenant := "common"
  inviteExpirySeconds := 100
  inviteReminderAfterSeconds := 50
  platformFeeUsdCents := 199
  platformFeeFreeTier := 1
  platformNonrefundableFeeCents := 10
  stablecoinRegistry := ⟨sampleCoin, sampleCoin, sampleCoin⟩

/-- The environment of the examples. -/
def sampleEnv : Env := ⟨sampleConfig, sampleCrates⟩

/-- A draft that was uploaded and submitted. -/
def sampleDraft : Draft where
  id := 2
  creatorPubkey := bobKey
  draftPayload := .null
  partySlots := .null
  status := .readyToSubmit
  readyAt := some 0
  paid := true
  storageUri := some "ipfs://document"
  storageUploaded := true
  agreementPda := some "A"
  agreementId := none

/-- A payment of $1.99 that waits for its confirmation. -/
def samplePayment : Payment where
  id := 1
  draftId := 2
  method := "usdc"
  status := .pending
  tokenReferencePubkey := some referenceKey
  tokenMint := some mintKey
  tokenAmount := some 1990000
  tokenTxSignature := none
  refundAmount := none
  refundTxSignature := none
  refundInitiatedAt := none
  refundCompletedAt := none
  createdAt := 0
  confirmedAt := none
  agreementPda := none

/-- The notification of a `CancelAgreement` transaction. -/
def cancelNotification : RpcLogsResponse where
  slot := 1
  signature := "tx"
  err := none
  logs := ["Program log: Instruction: CancelAgreement", "Program log: agreement_pda=A"]

/-- A payment of the draft, for an agreement with one party. -/
def onePaymentDb (payment : Payment) : Db :=
  { Db.empty with
    drafts := ⟨[sampleDraft], by decide⟩
    payments := if h : PaymentsValid [payment] then ⟨[payment], h⟩ else Db.empty.payments
    parties := ⟨[⟨aliceKey, "A", bobKey, .pendingSignatures, none, 0, 0, "Agreement"⟩], by decide⟩ }

/-- A pending payment that already belongs to the agreement. -/
def linkedPayment : Payment := { samplePayment with agreementPda := some "A" }

/-- A payment whose refund is due. -/
def queuedPayment : Payment :=
  { linkedPayment with
    status := .refundPending, refundAmount := some 1890000, refundInitiatedAt := some 0 }

/-- The users of the examples: Bob creates agreements, Alice is invited. -/
def bob : AuthUserWithWallet := ⟨11, bobKey⟩
def alice : AuthUserWithWallet := ⟨12, aliceKey⟩

/-- Bob has an email and a wallet on file. -/
def accountsDb : Db :=
  { Db.empty with
    contacts := ⟨[⟨11, some [], some []⟩], by decide⟩
    wallets := ⟨[⟨11, bobKey⟩], by decide⟩ }

/-- An agreement with the given parties. -/
def requestFor (parties : List PartyInput) : CreateAgreementRequest := ⟨"Agreement", parties, 1000⟩

/-- The token and the draft that the first request with one invitation generates. -/
def firstToken : String := Uuid.toText 2
def firstDraft : Uuid := 2

/-- A confirmation, two server instances handling the cancellation, and a refund worker. -/
def raceOfListeners : List (Backend Unit) :=
  [Handler.logged (confirmPaymentAtomic referenceKey "tx" mintKey 1990000),
    processNotification sampleEnv cancelNotification,
    processNotification sampleEnv cancelNotification,
    processPendingRefunds sampleEnv >>= fun _ => pure ()]

theorem raceOfListeners_entry : ∀ p ∈ raceOfListeners, Entry sampleEnv p := by
  simp only [raceOfListeners, List.forall_mem_cons, List.not_mem_nil, false_implies, implies_true,
    and_true]
  exact ⟨.confirmPaymentAtomic .., .processNotification _, .processNotification _,
    .processPendingRefunds⟩

/-- The second listener handles the cancellation after the first one is done. -/
def orderlyUpdate : List ℕ :=
  [0, 0] ++ List.replicate 8 1 ++ List.replicate 6 2 ++ List.replicate 8 3

end PactumCodex
