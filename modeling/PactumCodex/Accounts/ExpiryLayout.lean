import PactumCodex.Accounts.Instructions
import PactumCodex.Workers.ExpiryWorker

/-!
# The id that the expiry worker reads

`submit_expire_transaction` does not decode the account: it copies bytes 32 to
48.  In the layout of `AgreementStateWire` the id stands at 40 to 56, after the
discriminator and the creator, so what is copied is the end of the creator's key
followed by the beginning of the id (`extractAgreementId_eq`).
-/

namespace PactumCodex

open Interaction

/-! ## Layout -/

section Layout

variable {a : AgreementStateWire} {encoding data : List UInt8}

/-- The encoding starts with the creator and the id. -/
theorem encoding_eq (hencoding : Borsh.serialize a = some encoding) :
    ∃ rest, encoding = a.creator.toList ++ (a.agreementId.toList ++ rest) := by
  obtain ⟨creator, fields, hcreator, hfields, rfl⟩ := Borsh.serialize_prod.mp hencoding
  obtain ⟨agreementId, rest, hid, -, rfl⟩ := Borsh.serialize_prod.mp hfields
  obtain rfl : a.creator.toList = creator := Option.some.inj hcreator
  obtain rfl : a.agreementId.toList = agreementId := Option.some.inj hid
  exact ⟨rest, rfl⟩

/-- What the worker takes for the id. -/
theorem extractAgreementId_eq (hencoding : Borsh.serialize a = some encoding)
    (hdata : encoding <+: data.drop 8) :
    (extractAgreementId data).map Vector.toList =
      some (a.creator.toList.drop 24 ++ a.agreementId.toList.take 8) := by
  obtain ⟨fields, rfl⟩ := encoding_eq hencoding
  obtain ⟨tail, htail⟩ := hdata
  have hlength : 48 + 8 ≤ data.length := by
    have hsplit := congrArg List.length htail
    simp only [List.length_append, Vector.length_toList, List.length_drop] at hsplit
    omega
  have hbytes : (data.drop 32).take 16 =
      a.creator.toList.drop 24 ++ a.agreementId.toList.take 8 := by
    -- bytes 32 to 48 of the data are bytes 24 to 40 of the encoding
    rw [← List.drop_drop (i := 24) (j := 8), ← htail]
    simp only [List.append_assoc, List.drop_append, List.take_append, Vector.length_toList,
      List.length_drop, Nat.reduceSub, List.drop_zero]
    rw [List.take_of_length_le (by simp)]
    simp
  rw [extractAgreementId, dif_pos (by omega : 48 ≤ data.length)]
  simpa using hbytes

/-- Sixteen bytes that repeat their first eight. -/
theorem take_append_eq_iff {front : List UInt8} {id : Bytes 16} (hfront : front.length = 8) :
    front ++ id.toList.take 8 = id.toList ↔
      front = id.toList.take 8 ∧ id.toList.take 8 = id.toList.drop 8 := by
  have hsplit : id.toList = id.toList.take 8 ++ id.toList.drop 8 := (List.take_append_drop 8 _).symm
  constructor
  · intro h
    have hlength : front.length = (id.toList.take 8).length := by simp [hfront]
    rw [hsplit] at h
    simpa using List.append_inj h (by simp [hfront])
  · rintro ⟨hfirst, hsecond⟩
    rw [hfirst]
    nth_rewrite 2 [hsecond]
    exact List.take_append_drop 8 _

end Layout

/-! ## The transaction submitted -/

section Submission

variable {env : Env} {vaultKey creator : Pubkey} {agreementPda creatorPubkey : String}
variable {a : AgreementStateWire} {data encoding : List UInt8}

/-- The worker signs for the agreement of the creator it was given and the id it has read. -/
theorem submitExpireTransaction_builds {P : Instruction → Prop}
    (hcreator : env.crates.pubkeyFromStr creatorPubkey = some creator)
    (h : ∀ agreementId, extractAgreementId data = some agreementId →
      P (expireAgreementInstruction env creator agreementId vaultKey)) :
    Builds data P (submitExpireTransaction env vaultKey agreementPda creatorPubkey).run := by
  refine Passes.builds ?_
  rw [submitExpireTransaction, passes_okOr_some hcreator, passes_okOr_bind]
  intro pda _
  refine ⟨nofun, fun answer hanswer => ?_⟩
  rcases answer with _ | _ | read
  · trivial
  · trivial
  obtain rfl : read = data := hanswer
  show Passes read P (Handler.okOr .internalError (extractAgreementId read) >>= _)
  rw [passes_okOr_bind]
  intro agreementId hagreementId
  refine ⟨nofun, fun blockhash _ => ?_⟩
  cases blockhash with
  | error _ => trivial
  | ok blockhash =>
      refine ⟨fun _ hsome => Option.some.inj hsome ▸ h agreementId hagreementId, fun tx _ => ?_⟩
      cases tx with
      | error _ => trivial
      | ok tx =>
          refine ⟨nofun, fun submitted _ => ?_⟩
          cases submitted <;> trivial

/-- The worker reads the agreement's id off the account and expires the agreement, given its
creator. -/
def ExpiresAgreement (env : Env) (vaultKey : Pubkey) (data : List UInt8) (a : AgreementStateWire) :
    Prop :=
  extractAgreementId data = some a.agreementId ∧
  ∀ agreementPda creatorPubkey, env.crates.pubkeyFromStr creatorPubkey = some a.creator →
    Builds data
      (fun instruction =>
        instruction.account? 1 = some (deriveAgreementPda env a.creator a.agreementId))
      (submitExpireTransaction env vaultKey agreementPda creatorPubkey).run

/-- **Expiry.**  The worker expires the agreement stored in an account if and only if the last eight
bytes of the creator's key are the first eight of the id and the id repeats them. -/
theorem expires_agreement_iff (env : Env) (vaultKey : Pubkey)
    (hencoding : Borsh.serialize a = some encoding) (hdata : encoding <+: data.drop 8) :
    ExpiresAgreement env vaultKey data a ↔
      a.creator.toList.drop 24 = a.agreementId.toList.take 8 ∧
        a.agreementId.toList.take 8 = a.agreementId.toList.drop 8 := by
  have hextract := extractAgreementId_eq hencoding hdata
  rw [← take_append_eq_iff (by simp)]
  constructor
  · rintro ⟨hid, -⟩
    rw [hid] at hextract
    exact (Option.some.inj hextract).symm
  · intro hbytes
    have hid : extractAgreementId data = some a.agreementId := by
      rw [hbytes] at hextract
      obtain ⟨agreementId, hid, hlist⟩ := Option.map_eq_some_iff.mp hextract
      rw [hid, Vector.toList_inj.mp hlist]
    refine ⟨hid, fun agreementPda creatorPubkey hcreator => ?_⟩
    refine submitExpireTransaction_builds hcreator fun agreementId hagreementId => ?_
    obtain rfl : a.agreementId = agreementId := Option.some.inj (hid.symm.trans hagreementId)
    rfl

end Submission

theorem expires_agreement_iff_fresh :
    freshEncoding <+: freshAccount.drop 8 ∧
    (ExpiresAgreement addressEnv freshAgreement.vaultFunder freshAccount freshAgreement ↔
      freshAgreement.creator.toList.drop 24 = freshAgreement.agreementId.toList.take 8 ∧
        freshAgreement.agreementId.toList.take 8 = freshAgreement.agreementId.toList.drop 8) := by
  have hbegins : freshEncoding <+: freshAccount.drop 8 := by
    decide +kernel
  exact ⟨hbegins, expires_agreement_iff _ _ serialize_freshAgreement hbegins⟩

/-- The id read off the account of `freshAgreement` is not its id. -/
theorem fresh_agreement_id_misread :
    ¬ ∀ (a : AgreementStateWire) (encoding data : List UInt8), Borsh.serialize a = some encoding →
      encoding <+: data.drop 8 → extractAgreementId data = some a.agreementId := by
  intro hclaim
  have hid := hclaim freshAgreement freshEncoding freshAccount serialize_freshAgreement
    (by decide +kernel)
  revert hid
  decide +kernel

end PactumCodex
