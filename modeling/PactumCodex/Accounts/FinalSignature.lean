import PactumCodex.Accounts.Encoding
import PactumCodex.Steps
import Mathlib.Data.List.Perm.Subperm

/-!
# The signature that completes an agreement

`is_final_signature` compares two lengths and looks at one flag.  For an
agreement as the program keeps it, no party listed twice and no signature but of
a party and not twice, this decides whether the signer is the only party that
has not signed (`isFinalSignature_iff`): the signers together with the signer at
hand are as many as the parties exactly if they are all of them.
`sign_agreement` asks for a metadata URI in that case and in no other.
-/

namespace PactumCodex

open Interaction Relational

/-! ## Counting signatures -/

section Counting

variable {Key : Type} [DecidableEq Key]

/-- A list without duplicates is one longer than a part of it if only one entry is missing. -/
theorem length_eq_succ_iff {all part : List Key} {key : Key} (hall : all.Nodup)
    (hpart : part.Nodup) (hsubset : part ⊆ all) (hkey : key ∈ all) (hmissing : key ∉ part) :
    all.length = part.length + 1 ↔ ∀ other ∈ all, other ≠ key → other ∈ part := by
  have hextended : (key :: part).Nodup := List.nodup_cons.mpr ⟨hmissing, hpart⟩
  have hextendedSubset : key :: part ⊆ all := List.cons_subset.mpr ⟨hkey, hsubset⟩
  have hsubperm : (key :: part).Subperm all := List.subperm_of_subset hextended hextendedSubset
  constructor
  · intro hlength other hother hne
    have hperm : (key :: part).Perm all := hsubperm.perm_of_length_le (Nat.le_of_eq hlength)
    exact (List.mem_cons.mp (hperm.mem_iff.mpr hother)).resolve_left hne
  · intro hothers
    have hback : all ⊆ key :: part := by
      intro other hother
      by_cases hne : other = key
      · exact List.mem_cons.mpr (Or.inl hne)
      · exact List.mem_cons_of_mem key (hothers other hother hne)
    apply Nat.le_antisymm
    · exact (List.subperm_of_subset hall hback).length_le
    · exact hsubperm.length_le

end Counting

/-- Parties and signers as the program maintains them. -/
structure AgreementStateWire.DistinctSigners (a : AgreementStateWire) : Prop where
  parties : a.parties.Nodup
  signedBy : a.signedBy.Nodup
  subset : a.signedBy ⊆ a.parties

/-- The signer has not signed and every other party has. -/
def AgreementStateWire.CompletedBySignatureOf (a : AgreementStateWire) (signer : Pubkey) : Prop :=
  signer ∉ a.signedBy ∧ ∀ party ∈ a.parties, party ≠ signer → party ∈ a.signedBy

section FinalSignature

variable {a : AgreementStateWire} {signer : Pubkey}

theorem containsPubkeyBytes_iff {pubkeys : List (Bytes 32)} :
    containsPubkeyBytes pubkeys signer = true ↔ signer ∈ pubkeys := by
  simp [containsPubkeyBytes]

/-- The comparison of lengths decides whether the signature completes the agreement. -/
theorem isFinalSignature_iff (ha : a.DistinctSigners) (hsigner : signer ∈ a.parties) :
    isFinalSignature a.parties.length a.signedBy.length
      (containsPubkeyBytes a.signedBy signer) = true ↔ a.CompletedBySignatureOf signer := by
  rw [isFinalSignature, Bool.and_eq_true, decide_eq_true_iff, Bool.not_eq_true',
    ← Bool.not_eq_true, containsPubkeyBytes_iff, and_comm]
  exact and_congr_right fun hmissing =>
    length_eq_succ_iff ha.parties ha.signedBy ha.subset hsigner hmissing

end FinalSignature

/-! ## What `sign_agreement` demands -/

/-- The request is answered with a transaction in some execution in which the account holds
`data`. -/
def HandsOut (env : Env) (auth : AuthUserWithWallet) (pda : String) (data : List UInt8)
    (req : SignAgreementRequest) (w : World) : Prop :=
  ∃ steps response w', (∀ step ∈ steps, readsAccount data step.op step.ans) ∧
    Runs perform (signAgreement env auth pda req).run w steps (.ok response) w'

section Demands

variable {env : Env} {auth : AuthUserWithWallet} {pda : String} {data : List UInt8} {w : World}
variable {a : AgreementStateWire} {signer pdaPubkey : Pubkey} {req : SignAgreementRequest}

/-- A request that succeeds has passed the check of its metadata URI. -/
theorem HandsOut.metadata (hsigner : env.crates.pubkeyFromStr auth.pubkey = some signer)
    (hdata : decodeAccount data = some a) (h : HandsOut env auth pda data req w) :
    ¬ (isFinalSignature a.parties.length a.signedBy.length
      (containsPubkeyBytes a.signedBy signer) ∧ req.metadataUri.isNone) := by
  obtain ⟨steps, response, w', hreads, hrun⟩ := h
  obtain ⟨key, w₁, _, rest₁, rfl, hkey, hrun₁⟩ := runs_bind_ok.mp hrun
  obtain ⟨-, rfl, rfl⟩ := runs_okOr_ok.mp hkey
  obtain ⟨signer', w₂, _, rest₂, rfl, hparse, hrun₂⟩ := runs_bind_ok.mp hrun₁
  obtain ⟨hsigner', rfl, rfl⟩ := runs_okOr_ok.mp hparse
  obtain rfl : signer = signer' := Option.some.inj (hsigner.symm.trans hsigner')
  obtain ⟨a', w₃, _, rest₃, rfl, hload, hrun₃⟩ := runs_bind_ok.mp hrun₂
  obtain ⟨read, hread, rfl, rfl⟩ := loadAgreement_runs hload
  obtain rfl : read = data := hreads _ List.mem_cons_self
  obtain rfl : a = a' := Option.some.inj (hdata.symm.trans hread)
  obtain ⟨_, w₄, _, rest₄, -, -, hrun₄⟩ := runs_bind_ok.mp hrun₃
  obtain ⟨_, w₅, _, rest₅, -, hfinal, -⟩ := runs_bind_ok.mp hrun₄
  exact (runs_ensure_ok.mp hfinal).1

theorem exists_emailEncOf (userId : Uuid) (w : World) :
    ∃ emailEnc, performSql (.account (.emailEncOf userId)) emailEnc w = some w := by
  refine ⟨(lookup Contact.userId userId w.db.contacts.rows).map Contact.emailEnc, ?_⟩
  refine performSql_eq_some.mpr ⟨rfl, ?_, w.db, if_pos rfl, rfl⟩
  simp [Stmt.generated]

/-- A party's request that passes the check can succeed. -/
theorem handsOut_of_metadata (hpda : env.crates.pubkeyFromStr pda = some pdaPubkey)
    (hsigner : env.crates.pubkeyFromStr auth.pubkey = some signer)
    (hdata : decodeAccount data = some a) (hparty : signer ∈ a.parties)
    (hlength : ∀ uri ∈ req.metadataUri, uri.utf8ByteSize < 2 ^ 32)
    (hmetadata : ¬ (isFinalSignature a.parties.length a.signedBy.length
      (containsPubkeyBytes a.signedBy signer) ∧ req.metadataUri.isNone)) :
    HandsOut env auth pda data req w := by
  have hargs : (⟨req.metadataUri⟩ : SignAgreementArgs).LengthsFit := hlength
  obtain ⟨argsData, hargsData⟩ := hargs.encodable
  obtain ⟨emailEnc, hemail⟩ := exists_emailEncOf auth.userId w
  let instruction :=
    signAgreementInstruction env a.creator a.agreementId signer a.vaultFunder argsData
  let response : SignAgreementResponse := ⟨"", emailEnc.join.isNone,
    if emailEnc.join.isNone then some
      "Add your email to be notified when all parties sign and your credential is ready." else none⟩
  -- the execution in which every call to the node and every statement succeeds
  have hrun : Runs perform (signAgreement env auth pda req).run w
      [⟨w, .accountData pdaPubkey, .ok data, w⟩, ⟨w, .latestBlockhash, .ok "", w⟩,
        ⟨w, .serialize instruction signer "", .ok "", w⟩,
        ⟨w, .sql (.account (.emailEncOf auth.userId)), .ok emailEnc, w⟩] (.ok response) w := by
    refine runs_bind_ok.mpr ⟨pdaPubkey, w, [], _, rfl, runs_okOr_ok.mpr ⟨hpda, rfl, rfl⟩, ?_⟩
    refine runs_bind_ok.mpr ⟨signer, w, [], _, rfl, runs_okOr_ok.mpr ⟨hsigner, rfl, rfl⟩, ?_⟩
    refine runs_bind_ok.mpr ⟨a, w, [_], _, rfl, ?_, ?_⟩
    · refine runs_bind_ok.mpr ⟨data, w, [_], [], rfl, ?_, runs_okOr_ok.mpr ⟨hdata, rfl, rfl⟩⟩
      exact runs_orFail_ok.mpr (runs_issue.mpr ⟨rfl, rfl⟩)
    refine runs_bind_ok.mpr ⟨(), w, [], _, rfl, runs_ensure_ok.mpr ⟨?_, rfl, rfl⟩, ?_⟩
    · exact containsPubkeyBytes_iff.mpr hparty
    refine runs_bind_ok.mpr ⟨(), w, [], _, rfl, runs_ensure_ok.mpr ⟨hmetadata, rfl, rfl⟩, ?_⟩
    refine runs_bind_ok.mpr ⟨"", w, [_, _], [_], rfl, ?_, ?_⟩
    · refine runs_bind_ok.mpr ⟨argsData, w, [], _, rfl, runs_okOr_ok.mpr ⟨hargsData, rfl, rfl⟩, ?_⟩
      refine runs_bind_ok.mpr ⟨"", w, [_], [_], rfl, ?_, ?_⟩
      · exact runs_orFail_ok.mpr (runs_issue.mpr ⟨rfl, rfl⟩)
      · exact runs_orFail_ok.mpr (runs_issue.mpr ⟨rfl, rfl⟩)
    · exact runs_bind_ok.mpr ⟨_, w, [_], [], rfl, runs_query_ok.mpr ⟨hemail, rfl⟩, rfl, rfl, rfl⟩
  refine ⟨_, response, w, fun step hstep => ?_, hrun⟩
  simp only [List.mem_cons, List.not_mem_nil, or_false] at hstep
  rcases hstep with rfl | rfl | rfl | rfl
  · rfl
  all_goals trivial

/-- **The final signature.**  `is_final_signature` holds if and only if the signer is the only party
who has not signed; `sign_agreement` hands out a transaction without a metadata URI if and only if
it does not hold, and with one in every case. -/
theorem final_signature_demands_metadata (ha : a.DistinctSigners) (hparty : signer ∈ a.parties)
    (hpda : env.crates.pubkeyFromStr pda = some pdaPubkey)
    (hsigner : env.crates.pubkeyFromStr auth.pubkey = some signer)
    (hdata : decodeAccount data = some a) (w : World) :
    (isFinalSignature a.parties.length a.signedBy.length
      (containsPubkeyBytes a.signedBy signer) = true ↔ a.CompletedBySignatureOf signer) ∧
    (HandsOut env auth pda data ⟨none⟩ w ↔ ¬ a.CompletedBySignatureOf signer) ∧
    ∀ uri : String, uri.utf8ByteSize < 2 ^ 32 → HandsOut env auth pda data ⟨some uri⟩ w := by
  have hfinal := isFinalSignature_iff ha hparty
  refine ⟨hfinal, ⟨fun hout hcompleted => ?_, fun hopen => ?_⟩, fun uri huri => ?_⟩
  · exact hout.metadata hsigner hdata ⟨hfinal.mpr hcompleted, rfl⟩
  · exact handsOut_of_metadata hpda hsigner hdata hparty nofun fun h => hopen (hfinal.mp h.1)
  · refine handsOut_of_metadata hpda hsigner hdata hparty ?_ fun h => absurd h.2 (by simp)
    rintro text ⟨⟩
    exact huri

end Demands

theorem freshAgreement_distinctSigners : freshAgreement.DistinctSigners :=
  ⟨by decide, by decide, by decide⟩

theorem final_signature_demands_metadata_fresh :
    (isFinalSignature freshAgreement.parties.length freshAgreement.signedBy.length
      (containsPubkeyBytes freshAgreement.signedBy partyKey) = true ↔
        freshAgreement.CompletedBySignatureOf partyKey) ∧
    (HandsOut addressEnv partyAuth agreementPdaText freshAccount ⟨none⟩ (World.ofDb Db.empty) ↔
      ¬ freshAgreement.CompletedBySignatureOf partyKey) ∧
    ∀ uri : String, uri.utf8ByteSize < 2 ^ 32 → HandsOut addressEnv partyAuth agreementPdaText
      freshAccount ⟨some uri⟩ (World.ofDb Db.empty) :=
  final_signature_demands_metadata freshAgreement_distinctSigners (by decide) agreementPdaText_eq
    partyKeyText_eq decodeAccount_freshAccount _

end PactumCodex
