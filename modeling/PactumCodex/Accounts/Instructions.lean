import PactumCodex.Accounts.Padding
import PactumCodex.Replay

/-!
# Accounts of the instructions on an agreement

Which accounts the handlers of an existing agreement pass to the program.  The
positions are those of the program's interface.  `Builds data P p` says that in
every execution of `p` in which the agreement's account holds `data`, every
instruction built satisfies `P`.

What a handler builds depends on the answers of the node in one place only, where
it loads the account.  Given this answer, `Builds` is a property of the text of the
handler (`Passes`), and `builds_iff_passes` makes the two the same.  Each handler then
comes down to the accounts in its own instruction.

* `sign_agreement` and `cancel_agreement` address the agreement that was loaded.
* `vote_revoke` passes the authority of the current vault key, which is that of the
  agreement if the key is still its vault funder.
* `retract_revoke_vote` derives the address from the voter, which is right for the
  creator only.
-/

namespace PactumCodex

open Interaction

/-! ## Instructions built by a program -/

/-- The instruction that an operation signs or hands out. -/
def Op.instruction? : Op → Option Instruction
  | .partialSign instruction _ _ => some instruction
  | .serialize instruction _ _ => some instruction
  | _ => none

/-- Reading an account gives the data. -/
def readsAccount (data : List UInt8) : (op : Op) → op.Ans → Prop
  | .accountData _, .ok read => read = data
  | .fetchAccount _, some (.ok read) => read = data
  | _, _ => True

/-- The instruction built by the operation, if any, satisfies `P`. -/
def Op.BuildsOnly (P : Instruction → Prop) (op : Op) : Prop :=
  ∀ instruction, op.instruction? = some instruction → P instruction

/-- Every instruction built by an execution, complete or cut off, satisfies `P`. -/
def Builds {α : Type} (data : List UInt8) (P : Instruction → Prop) (p : Backend α) : Prop :=
  ∀ w steps w', Stops perform p w steps w' → (∀ step ∈ steps, readsAccount data step.op step.ans) →
    ∀ step ∈ steps, step.op.BuildsOnly P

/-- The operation asks the Solana node or the vault. -/
def Op.remote : Op → Bool
  | .accountData _ => true
  | .latestBlockhash => true
  | .partialSign .. => true
  | _ => false

theorem perform_remote {op : Op} (hop : op.remote) (answer : op.Ans) (w : World) :
    perform op answer w = some w := by
  cases op <;> first | rfl | simp [Op.remote] at hop

theorem exists_readsAccount {op : Op} (hop : op.remote) (data : List UInt8) :
    ∃ answer, readsAccount data op answer := by
  cases op <;> first
    | exact ⟨.error .failed, trivial⟩
    | simp [Op.remote] at hop

/-- The same, read off the text of a handler: whatever the operations answer. -/
def Passes {α : Type} (data : List UInt8) (P : Instruction → Prop) (x : Handler α) : Prop :=
  x.run.IssuesGiven (readsAccount data) (Op.BuildsOnly P)

section Rules

variable {α β : Type} {data : List UInt8} {P : Instruction → Prop}

theorem Passes.builds {x : Handler α} (hx : Passes data P x) : Builds data P x.run :=
  fun _ _ _ hstops hgiven => hstops.issued_given hx hgiven

theorem builds_iff_passes {x : Handler α} (hremote : x.run.Issues fun op => op.remote) :
    Builds data P x.run ↔ Passes data P x := by
  refine ⟨fun h => ?_, Passes.builds⟩
  exact issuesGiven_of_stops (w := World.ofDb Db.empty) (fun op hop => exists_readsAccount hop data)
    (fun op hop => perform_remote hop) hremote (h _)

theorem passes_of_issues {x : Handler α} (hx : x.run.Issues fun op => op.instruction? = none) :
    Passes data P x :=
  (hx.mono fun op hop instruction hsome => by rw [hop] at hsome; cases hsome).given

theorem passes_okOr_bind {e : AppError} {o : Option α} {f : α → Handler β} :
    Passes data P (Handler.okOr e o >>= f) ↔ ∀ a, o = some a → Passes data P (f a) := by
  cases o with
  | none => exact ⟨fun _ => nofun, fun _ => trivial⟩
  | some a => exact ⟨fun h b hb => Option.some.inj hb ▸ h, fun h => h a rfl⟩

theorem passes_okOr_some {e : AppError} {o : Option α} {a : α} {f : α → Handler β}
    (ho : o = some a) : Passes data P (Handler.okOr e o >>= f) ↔ Passes data P (f a) := by
  subst ho
  rfl

theorem passes_ensure_bind {condition : Prop} [Decidable condition] {e : AppError}
    {f : Unit → Handler β} :
    Passes data P (Handler.ensure condition e >>= f) ↔ (condition → Passes data P (f ())) := by
  by_cases hcondition : condition
  · rw [Handler.ensure, if_pos hcondition]
    exact ⟨fun h _ => h, fun h => h hcondition⟩
  · rw [Handler.ensure, if_neg hcondition]
    exact ⟨fun _ h => absurd h hcondition, fun _ => trivial⟩

/-- Handlers go on with the agreement that the account holds. -/
theorem passes_loadAgreement_bind {e : AppError} {pda : Pubkey} {a : AgreementStateWire}
    {f : AgreementStateWire → Handler β} (hdata : decodeAccount data = some a) :
    Passes data P (loadAgreement e pda >>= f) ↔ Passes data P (f a) := by
  have hread : Passes data P (Handler.okOr e (decodeAccount data) >>= f) ↔ Passes data P (f a) :=
    passes_okOr_some hdata
  rw [← hread]
  constructor
  · intro h
    exact h.2 (.ok data) rfl
  · intro h
    refine ⟨nofun, fun answer hanswer => ?_⟩
    cases answer with
    | error _ => trivial
    | ok read =>
        obtain rfl : read = data := hanswer
        exact h

/-- A handler that ends by having an instruction signed. -/
theorem passes_partiallySigned {vaultKey : Pubkey} {instruction : Instruction}
    {response : String → β} :
    Passes data P (do
      let transaction ← partiallySigned vaultKey instruction
      return response transaction) ↔ P instruction := by
  constructor
  · intro h
    exact (h.2 (.ok "") trivial).1 instruction rfl
  · intro h
    refine ⟨nofun, fun blockhash _ => ?_⟩
    cases blockhash with
    | error _ => trivial
    | ok blockhash =>
        refine ⟨fun _ hsome => Option.some.inj hsome ▸ h, fun transaction _ => ?_⟩
        cases transaction <;> trivial

theorem passes_buildSignAgreementTx_bind {env : Env} {creator signer vaultFunder : Pubkey}
    {agreementId : Bytes 16} {metadataUri : Option String} {f : String → Handler β}
    (hf : ∀ transaction, Passes data P (f transaction))
    (h : ∀ argsData,
      P (signAgreementInstruction env creator agreementId signer vaultFunder argsData)) :
    Passes data P
      (buildSignAgreementTx env creator agreementId signer metadataUri vaultFunder >>= f) := by
  unfold buildSignAgreementTx
  cases Borsh.serialize (⟨metadataUri⟩ : SignAgreementArgs) with
  | none => trivial
  | some argsData =>
      refine ⟨nofun, fun blockhash _ => ?_⟩
      cases blockhash with
      | error _ => trivial
      | ok blockhash =>
          refine ⟨fun _ hsome => Option.some.inj hsome ▸ h argsData, fun transaction _ => ?_⟩
          cases transaction with
          | error _ => trivial
          | ok transaction => exact hf transaction

end Rules

/-! ## The four requests -/

/-- The account at a position. -/
def Instruction.account? (instruction : Instruction) (position : ℕ) : Option Pubkey :=
  instruction.accounts[position]?.map AccountMeta.pubkey

/-- The agreement's account stands at position `agreement`, and the authority derived from its
vault funder at position `authority`, if the instruction takes one. -/
def AddressesAgreement (env : Env) (a : AgreementStateWire) (agreement : ℕ) (authority : Option ℕ)
    (instruction : Instruction) : Prop :=
  instruction.account? agreement = some (deriveAgreementPda env a.creator a.agreementId) ∧
  ∀ position, authority = some position →
    instruction.account? position = some (derivePdaAuthority env a.vaultFunder)

section Requests

variable {env : Env} {vaultKey caller pdaPubkey : Pubkey} {auth : AuthUserWithWallet} {pda : String}
variable {a : AgreementStateWire} {data : List UInt8}

theorem signAgreement_addresses (req : SignAgreementRequest) (hdata : decodeAccount data = some a) :
    Builds data (AddressesAgreement env a 3 (some 4)) (signAgreement env auth pda req).run := by
  refine Passes.builds ?_
  rw [signAgreement, passes_okOr_bind]
  intro pdaPubkey _
  rw [passes_okOr_bind]
  intro signerPubkey _
  rw [passes_loadAgreement_bind hdata, passes_ensure_bind]
  intro _
  rw [passes_ensure_bind]
  intro _
  refine passes_buildSignAgreementTx_bind (fun transaction => passes_of_issues ?_)
    fun argsData => ?_
  · exact issues_run_bind (issues_query.mpr rfl) fun _ => trivial
  · refine ⟨rfl, fun position hposition => ?_⟩
    obtain rfl : 4 = position := Option.some.inj hposition
    rfl

theorem cancelAgreement_addresses (hdata : decodeAccount data = some a) :
    Builds data (AddressesAgreement env a 2 none) (cancelAgreement env vaultKey auth pda).run := by
  refine Passes.builds ?_
  rw [cancelAgreement, passes_okOr_bind]
  intro pdaPubkey _
  rw [passes_okOr_bind]
  intro cancellerPubkey _
  rw [passes_loadAgreement_bind hdata, passes_ensure_bind]
  intro _
  exact passes_partiallySigned.mpr ⟨rfl, nofun⟩

theorem partiallySigned_bind_remote {α : Type} {instruction : Instruction} {f : String → Handler α}
    (hf : ∀ transaction, (f transaction).run.Issues fun op => op.remote) :
    (partiallySigned vaultKey instruction >>= f).run.Issues fun op => op.remote := by
  refine issues_run_bind (issues_run_bind ?_ fun blockhash => ?_) hf
  · exact issues_orFail (issues_issue.mpr rfl)
  · exact issues_orFail (issues_issue.mpr rfl)

theorem loadAgreement_remote (e : AppError) (pda : Pubkey) :
    (loadAgreement e pda).run.Issues fun op => op.remote :=
  issues_run_bind (issues_orFail (issues_issue.mpr rfl)) fun _ => issues_okOr

/-- A vote passes the authority of the current vault key. -/
theorem voteRevoke_addresses_iff (hpda : env.crates.pubkeyFromStr pda = some pdaPubkey)
    (hcaller : env.crates.pubkeyFromStr auth.pubkey = some caller)
    (hdata : decodeAccount data = some a) :
    Builds data (AddressesAgreement env a 3 (some 5)) (voteRevoke env vaultKey auth pda).run ↔
      (containsPubkeyBytes a.parties caller → a.nftAsset.isSome →
        derivePdaAuthority env vaultKey = derivePdaAuthority env a.vaultFunder) := by
  have hremote : (voteRevoke env vaultKey auth pda).run.Issues fun op => op.remote := by
    refine issues_run_bind issues_okOr fun _ => issues_run_bind issues_okOr fun _ => ?_
    refine issues_run_bind (loadAgreement_remote ..) fun _ => ?_
    refine issues_run_bind issues_ensure fun _ => issues_run_bind issues_okOr fun _ => ?_
    exact partiallySigned_bind_remote fun _ => trivial
  rw [builds_iff_passes hremote, voteRevoke, passes_okOr_some hpda, passes_okOr_some hcaller,
    passes_loadAgreement_bind hdata, passes_ensure_bind]
  refine imp_congr_right fun _ => ?_
  rw [passes_okOr_bind]
  constructor
  · intro h hsome
    obtain ⟨nftAsset, hnftAsset⟩ := Option.isSome_iff_exists.mp hsome
    have haddresses := passes_partiallySigned.mp (h nftAsset hnftAsset)
    exact Option.some.inj (haddresses.2 5 rfl)
  · intro h nftAsset hnftAsset
    refine passes_partiallySigned.mpr ⟨rfl, fun position hposition => ?_⟩
    obtain rfl : 5 = position := Option.some.inj hposition
    exact congrArg some (h (Option.isSome_iff_exists.mpr ⟨nftAsset, hnftAsset⟩))

/-- A retraction passes the agreement of the voter with the same id. -/
theorem retractRevokeVote_addresses_iff (hpda : env.crates.pubkeyFromStr pda = some pdaPubkey)
    (hcaller : env.crates.pubkeyFromStr auth.pubkey = some caller)
    (hdata : decodeAccount data = some a) :
    Builds data (AddressesAgreement env a 2 none) (retractRevokeVote env vaultKey auth pda).run ↔
      (containsPubkeyBytes a.parties caller →
        deriveAgreementPda env caller a.agreementId =
          deriveAgreementPda env a.creator a.agreementId) := by
  have hremote : (retractRevokeVote env vaultKey auth pda).run.Issues fun op => op.remote := by
    refine issues_run_bind issues_okOr fun _ => issues_run_bind issues_okOr fun _ => ?_
    refine issues_run_bind (loadAgreement_remote ..) fun _ =>
      issues_run_bind issues_ensure fun _ => ?_
    exact partiallySigned_bind_remote fun _ => trivial
  rw [builds_iff_passes hremote, retractRevokeVote, passes_okOr_some hpda, passes_okOr_some hcaller,
    passes_loadAgreement_bind hdata, passes_ensure_bind]
  refine imp_congr_right fun _ => ?_
  constructor
  · intro h
    exact Option.some.inj (passes_partiallySigned.mp h).1
  · intro h
    exact passes_partiallySigned.mpr ⟨congrArg some h, nofun⟩

/-- **Instructions on an agreement.**  The four requests pass the agreement's own addresses to the
program if and only if a party who calls is the creator and, where a vote needs it, the vault key
is still the one that funded the agreement. -/
theorem requests_address_agreement_iff
    (hpda : env.crates.pubkeyFromStr pda = some (deriveAgreementPda env a.creator a.agreementId))
    (hcaller : env.crates.pubkeyFromStr auth.pubkey = some caller)
    (hdata : decodeAccount data = some a)
    -- the addresses derived for this request do not collide
    (hauthority : derivePdaAuthority env vaultKey = derivePdaAuthority env a.vaultFunder →
      vaultKey = a.vaultFunder)
    (hagreement : deriveAgreementPda env caller a.agreementId =
      deriveAgreementPda env a.creator a.agreementId → caller = a.creator) :
    ((∀ req, Builds data (AddressesAgreement env a 3 (some 4))
        (signAgreement env auth pda req).run) ∧
      Builds data (AddressesAgreement env a 2 none) (cancelAgreement env vaultKey auth pda).run ∧
      Builds data (AddressesAgreement env a 3 (some 5)) (voteRevoke env vaultKey auth pda).run ∧
      Builds data (AddressesAgreement env a 2 none)
        (retractRevokeVote env vaultKey auth pda).run) ↔
    (containsPubkeyBytes a.parties caller →
      caller = a.creator ∧ (a.nftAsset.isSome → vaultKey = a.vaultFunder)) := by
  rw [voteRevoke_addresses_iff hpda hcaller hdata,
    retractRevokeVote_addresses_iff hpda hcaller hdata]
  constructor
  · rintro ⟨-, -, hvote, hretract⟩ hparty
    exact ⟨hagreement (hretract hparty), fun hasset => hauthority (hvote hparty hasset)⟩
  · intro h
    refine ⟨fun req => signAgreement_addresses req hdata, cancelAgreement_addresses hdata, ?_, ?_⟩
    · intro hparty hasset
      rw [(h hparty).2 hasset]
    · intro hparty
      rw [(h hparty).1]

end Requests

/-! ## Example -/

/-- The party of `freshAgreement` that is not its creator, and its address. -/
def partyKeyText : String := "GgBaCs3NCBuZN12kCJgAW63ydqohFkHEdfdEXBPzLHq"
def agreementPdaText : String := "EXMChEnZhbPaYCCvorLoGYK4bMguUcnLLtDPKva7NnX5"

/-- The addresses derived for it: of the agreement, of the agreement of the other party with the
same id, and of the authority. -/
def derivedAddresses : List (List (List UInt8) × Pubkey) :=
  [ ([seed "agreement", List.replicate 32 1, List.replicate 16 2],
      ⟨#[200, 238, 50, 68, 88, 52, 192, 15, 104, 153, 15, 45, 0, 139, 37, 143, 226, 218, 212, 247,
        184, 123, 63, 120, 105, 106, 109, 251, 103, 141, 125, 172], rfl⟩),
    ([seed "agreement", List.replicate 32 4, List.replicate 16 2],
      ⟨#[178, 0, 200, 39, 245, 103, 9, 119, 68, 103, 74, 164, 130, 121, 192, 237, 34, 88, 196, 35,
        51, 23, 179, 73, 170, 250, 183, 203, 232, 126, 130, 220], rfl⟩),
    ([seed "mint_authority", seed "v1", List.replicate 32 6],
      ⟨#[72, 149, 154, 136, 165, 109, 168, 44, 13, 254, 88, 28, 161, 85, 164, 138, 136, 250, 125,
        88, 30, 128, 204, 28, 205, 40, 159, 61, 22, 124, 109, 19], rfl⟩) ]

/-- An environment that derives these addresses. -/
def addressEnv : Env where
  config := sampleConfig
  crates := { sampleCrates with
    findProgramAddress := fun seeds => (derivedAddresses.lookup seeds).getD systemProgramId }

/-- The unpadded account of `freshAgreement`. -/
def freshAccount : List UInt8 := (Vector.replicate 8 7 : Bytes 8).toList ++ freshEncoding ++ []

theorem decodeAccount_freshAccount : decodeAccount freshAccount = some freshAgreement :=
  decodeAccount_append _ serialize_freshAgreement []

/-- Key and wallet of the party that is not the creator. -/
def partyKey : Pubkey := Vector.replicate 32 4
def partyAuth : AuthUserWithWallet := ⟨12, partyKeyText⟩

theorem agreementPdaText_eq : addressEnv.crates.pubkeyFromStr agreementPdaText =
    some (deriveAgreementPda addressEnv freshAgreement.creator freshAgreement.agreementId) := by
  decide +kernel

theorem partyKeyText_eq : addressEnv.crates.pubkeyFromStr partyAuth.pubkey = some partyKey := by
  decide +kernel

theorem party_address_ne : deriveAgreementPda addressEnv partyKey freshAgreement.agreementId ≠
    deriveAgreementPda addressEnv freshAgreement.creator freshAgreement.agreementId := by
  decide +kernel

theorem requests_address_agreement_iff_party :
    ((∀ req, Builds freshAccount (AddressesAgreement addressEnv freshAgreement 3 (some 4))
        (signAgreement addressEnv partyAuth agreementPdaText req).run) ∧
      Builds freshAccount (AddressesAgreement addressEnv freshAgreement 2 none)
        (cancelAgreement addressEnv freshAgreement.vaultFunder partyAuth agreementPdaText).run ∧
      Builds freshAccount (AddressesAgreement addressEnv freshAgreement 3 (some 5))
        (voteRevoke addressEnv freshAgreement.vaultFunder partyAuth agreementPdaText).run ∧
      Builds freshAccount (AddressesAgreement addressEnv freshAgreement 2 none)
        (retractRevokeVote addressEnv freshAgreement.vaultFunder partyAuth agreementPdaText).run) ↔
    (containsPubkeyBytes freshAgreement.parties partyKey → partyKey = freshAgreement.creator ∧
      (freshAgreement.nftAsset.isSome → freshAgreement.vaultFunder = freshAgreement.vaultFunder)) :=
  requests_address_agreement_iff agreementPdaText_eq partyKeyText_eq decodeAccount_freshAccount
    (fun _ => rfl) (fun h => absurd h party_address_ne)

/-- A party who is not the creator retracts a vote on another agreement. -/
theorem retraction_addresses_other_agreement :
    ¬ ∀ (env : Env) (vaultKey caller : Pubkey) (auth : AuthUserWithWallet) (pda : String)
      (a : AgreementStateWire) (data : List UInt8),
      env.crates.pubkeyFromStr pda = some (deriveAgreementPda env a.creator a.agreementId) →
      env.crates.pubkeyFromStr auth.pubkey = some caller → decodeAccount data = some a →
      Builds data (AddressesAgreement env a 2 none)
        (retractRevokeVote env vaultKey auth pda).run := by
  intro hclaim
  have hbuilds := hclaim addressEnv freshAgreement.vaultFunder partyKey partyAuth agreementPdaText
    freshAgreement freshAccount agreementPdaText_eq partyKeyText_eq decodeAccount_freshAccount
  rw [retractRevokeVote_addresses_iff agreementPdaText_eq partyKeyText_eq
    decodeAccount_freshAccount] at hbuilds
  exact party_address_ne (hbuilds (by decide))

end PactumCodex
