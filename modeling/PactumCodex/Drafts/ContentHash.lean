import PactumCodex.Handlers.Upload
import PactumCodex.Lib.Url
import PactumCodex.Rules
import PactumCodex.Handlers.Draft

/-!
# The hash of a document, from its upload to the submission of a draft

`upload_handler` compares the hash of the client with the SHA-256 of the file and
answers with the latter.  `submit_draft` checks the text of a hash, and decodes it
later.  What the upload answers passes this check, and what passes the check can
be decoded: `validateContentHash_iff` and `uploaded_hash_submits`.

## The submission

The check counts bytes of the text and looks at its characters; for digits both
counts agree, so exactly the hexadecimal texts of 32 bytes pass.  `Avoids` says
that no execution of a handler ends with a given error; along the text of
`submit_draft` it shows that `InvalidHash` comes from the check alone.

## The upload

`Validated` lists the checks of the upload in terms of their inputs, and
`validateAndUpload_runs` says that the upload function is called, once and with the
bytes of the file, exactly if they pass.  The bytes come from the form: the loop over
its fields keeps the file it has, or takes that of a field named `file`
(`readFields_fileFrom`).
-/

namespace PactumCodex

open Interaction

/-! ## The check of `submit_draft` -/

section Check

variable {text : String} {c : Char}

theorem utf8Size_of_digitVal (h : (Hex.digitVal c).isSome) : c.utf8Size = 1 := by
  have hle : ∀ {d : Char}, c ≤ d → d.val ≤ 127 → c.utf8Size = 1 := fun hcd hd =>
    Char.utf8Size_eq_one_iff.mpr (UInt32.le_trans hcd hd)
  unfold Hex.digitVal at h
  split at h
  · rename_i hdigit
    exact hle hdigit.2 (by decide)
  split at h
  · rename_i hlower
    exact hle hlower.2 (by decide)
  split at h
  · rename_i hupper
    exact hle hupper.2 (by decide)
  · cases h

/-- A text of hexadecimal digits has as many bytes as characters. -/
theorem utf8ByteSize_of_digits (h : ∀ c ∈ text.toList, (Hex.digitVal c).isSome) :
    text.utf8ByteSize = text.toList.length := by
  rw [← Url.length_utf8, Url.utf8]
  generalize text.toList = chars at h
  induction chars with
  | nil => rfl
  | cons c chars ih =>
      rw [List.forall_mem_cons] at h
      rw [List.flatMap_cons, List.length_append, String.length_utf8EncodeChar,
        utf8Size_of_digitVal h.1, ih h.2, List.length_cons]
      exact Nat.add_comm ..

/-- Exactly the hexadecimal texts of 32 bytes pass the check. -/
theorem validateContentHash_iff : validateContentHash text = .ok () ↔
    ∃ bytes, Hex.decodeBytes text.toList = some bytes ∧ bytes.length = 32 := by
  rw [Hex.decodeBytes_length_iff, validateContentHash]
  constructor
  · intro hok
    split at hok
    · cases hok
    · rename_i hsize
      split at hok
      · rename_i hdigits
        have hall : ∀ c ∈ text.toList, (Hex.digitVal c).isSome := List.all_eq_true.mp hdigits
        have hlength := utf8ByteSize_of_digits hall
        exact ⟨by omega, hall⟩
      · cases hok
  · rintro ⟨hlength, hall⟩
    have hsize := utf8ByteSize_of_digits hall
    rw [if_neg (by omega), if_pos (List.all_eq_true.mpr hall)]

theorem tryIntoBytes_toList {n : ℕ} (bytes : Bytes n) :
    tryIntoBytes n bytes.toList = some bytes := by
  rw [tryIntoBytes, dif_pos bytes.length_toList, Option.some.injEq, ← Vector.toArray_inj]
  exact Array.toArray_toList

/-- What passes the check can be decoded. -/
theorem hexToBytes32_isSome (h : validateContentHash text = .ok ()) :
    (hexToBytes32 text).isSome := by
  obtain ⟨bytes, hbytes, hlength⟩ := validateContentHash_iff.mp h
  rw [hexToBytes32, hbytes, Option.bind_some, tryIntoBytes, dif_pos hlength]
  rfl

theorem hexToBytes32_hexEncode (hash : Bytes 32) :
    hexToBytes32 (hexEncode hash.toList) = some hash := by
  rw [hexToBytes32, hexEncode, String.toList_ofList, Hex.decodeBytes_encodeBytes, Option.bind_some,
    tryIntoBytes_toList]

theorem validateContentHash_hexEncode (hash : Bytes 32) :
    validateContentHash (hexEncode hash.toList) = .ok () := by
  refine validateContentHash_iff.mpr ⟨hash.toList, ?_, hash.length_toList⟩
  rw [hexEncode, String.toList_ofList, Hex.decodeBytes_encodeBytes]

end Check

/-! ## The decoding of `submit_draft` -/

section Submission

variable {W : Type} {perform : (op : Op) → op.Ans → W → Option W} {α β : Type} {e : AppError}

/-- No run of the handler ends with the error, whatever is performed. -/
def Avoids (perform : (op : Op) → op.Ans → W → Option W) (e : AppError) (x : Handler α) : Prop :=
  ∀ w, Ensures perform x.run w fun r _ => r ≠ .error e

theorem avoids_bind {x : Handler α} {f : α → Handler β} (hx : Avoids perform e x)
    (hf : ∀ a, Avoids perform e (f a)) : Avoids perform e (x >>= f) := by
  intro w
  refine ensures_run_bind (hx w) (fun a w' _ => hf a w') fun e' w' he' h => ?_
  rw [Except.error.injEq] at h
  exact he' (congrArg _ h)

theorem avoids_pure {a : α} : Avoids perform e (pure a) := by
  intro w
  exact ensures_ret (by simp)

theorem avoids_ofExcept {r : Except AppError α} (h : r ≠ .error e) :
    Avoids perform e (Handler.ofExcept r) := by
  intro w
  cases r with
  | ok a => exact ensures_ret h
  | error e' => exact ensures_ret h

theorem avoids_okOr {e' : AppError} {o : Option α} (h : o.isSome ∨ e' ≠ e) :
    Avoids perform e (Handler.okOr e' o) := by
  intro w
  cases o with
  | none => exact ensures_ret (by simpa using h)
  | some a => exact ensures_ret (by simp)

theorem avoids_orFail {e' : AppError} {p : Backend (Except Failure α)} (h : e' ≠ e) :
    Avoids perform e (Handler.orFail e' p) := by
  rintro w steps r w' hrun
  obtain ⟨answer, w₁, first, second, -, -, hrun⟩ := runs_bind.mp hrun
  cases answer with
  | ok a => exact fun hr => by cases hrun.2.1.symm.trans hr
  | error f => exact fun hr => h (by cases hrun.2.1.symm.trans hr; rfl)

theorem avoids_query {s : Stmt} (h : .internalError ≠ e) : Avoids perform e (Handler.query s) :=
  avoids_orFail h

theorem avoids_ask {op : Op} : Avoids perform e (Handler.ask op) := by
  intro w
  exact ensures_bind (fun _ answer w' _ => ensures_ret (by simp))

theorem ensureCreatorOnly_ne (authPubkey : Option String) (creator : String) :
    ensureCreatorOnly authPubkey creator ≠ .error .invalidHash := by
  unfold ensureCreatorOnly
  split
  · split <;> simp
  · simp

theorem evaluateSubmitGates_ne (paid : Bool) (status : DraftStatus) (hasEmail : Bool)
    (draftId : Uuid) : evaluateSubmitGates paid status hasEmail draftId ≠ .error .invalidHash := by
  unfold evaluateSubmitGates
  split
  · simp
  split
  · simp
  split <;> simp

theorem parseStorageBackend_ne (raw : String) : parseStorageBackend raw ≠ .error .invalidHash := by
  unfold parseStorageBackend
  dsimp only
  split
  · simp
  split <;> simp

/-- A submission with a hash that passes the check does not fail on it later. -/
theorem submitDraft_avoids {env : Env} {auth : AuthUserWithWallet} {draftId : Uuid}
    {req : SubmitDraftRequest} (h : validateContentHash req.contentHash = .ok ()) :
    Avoids perform .invalidHash (submitDraft env auth draftId req) := by
  have hadmit : Avoids perform .invalidHash (admitSubmission auth draftId req) := by
    refine avoids_bind (avoids_ofExcept (by simp [h])) fun _ => ?_
    refine avoids_bind (avoids_ofExcept (parseStorageBackend_ne _)) fun storageBackend => ?_
    refine avoids_bind (avoids_bind (avoids_query (by decide)) fun row =>
      avoids_okOr (.inr (by decide))) fun draft => ?_
    refine avoids_bind (avoids_ofExcept (ensureCreatorOnly_ne _ _)) fun _ => ?_
    refine avoids_bind (avoids_query (by decide)) fun hasEmail => ?_
    exact avoids_bind (avoids_ofExcept (evaluateSubmitGates_ne _ _ _ _)) fun _ => avoids_pure
  refine avoids_bind hadmit fun ⟨storageBackend, draft⟩ => ?_
  refine avoids_bind (avoids_query (by decide)) fun _ => ?_
  refine avoids_bind (avoids_okOr (.inr (by decide))) fun payload => ?_
  refine avoids_bind (avoids_okOr (.inr (by decide))) fun creatorPubkey => ?_
  refine avoids_bind avoids_ask fun agreementId => ?_
  -- the decoding of the hash
  refine avoids_bind (avoids_okOr (.inl (hexToBytes32_isSome h))) fun contentHash => ?_
  have hbuild (args : CreateAgreementArgs) :
      Avoids perform .invalidHash (buildCreateAgreementTx args creatorPubkey) := by
    refine avoids_bind (avoids_bind (avoids_orFail (by decide)) fun _ => avoids_pure) fun _ => ?_
    refine avoids_bind (avoids_okOr (.inr (by decide))) fun _ => ?_
    exact avoids_bind (avoids_orFail (by decide)) fun _ => avoids_orFail (by decide)
  refine avoids_bind (hbuild _) fun transaction => ?_
  refine avoids_bind (avoids_bind (avoids_query (by decide)) fun _ =>
    avoids_query (by decide)) fun _ => avoids_pure

end Submission

/-! ## The upload -/

section Upload

variable {W : Type} {perform : (op : UploadOp) → op.Ans → W → Option W}
variable {computeSha256 : List UInt8 → Bytes 32} {fileBytes : List UInt8}
variable {contentType clientHash backend : String} {maxFileSizeBytes : ℕ}

/-- All checks of the upload pass. -/
structure Validated (computeSha256 : List UInt8 → Bytes 32) (fileBytes : List UInt8)
    (contentType clientHash backend : String) (maxFileSizeBytes : ℕ) : Prop where
  size : fileBytes.length ≤ maxFileSizeBytes
  mime : contentType ∈ allowedMimeTypes
  backend : toAsciiLowercase backend = "ipfs" ∨ toAsciiLowercase backend = "arweave"
  hash : Hex.decodeBytes clientHash.toList = some (computeSha256 fileBytes).toList

/-- `verify_client_hash` passes the hash of the file, if the client has sent it in hexadecimal. -/
theorem verifyClientHash_ok_iff {hash : Bytes 32} :
    verifyClientHash computeSha256 fileBytes clientHash = .ok hash ↔
      hash = computeSha256 fileBytes ∧
        Hex.decodeBytes clientHash.toList = some (computeSha256 fileBytes).toList := by
  unfold verifyClientHash
  cases hdecode : Hex.decodeBytes clientHash.toList with
  | none => simp
  | some bytes =>
      dsimp only
      split
      · rename_i hne
        simp [Ne.symm hne]
      · rename_i heq
        rw [not_not.mp heq, Except.ok.injEq, and_iff_left rfl, eq_comm]

/-- What is done once all checks have passed. -/
def uploadValidated (computeSha256 : List UInt8 → Bytes 32) (fileBytes : List UInt8)
    (backend : String) : Uploading UploadResponse := do
  let storageUri ← Fallible.orFail .uploadFailed (.issue (UploadOp.upload fileBytes))
  return {
    storageUri
    contentHash := hexEncode (computeSha256 fileBytes).toList
    storageBackend := toAsciiLowercase backend }

theorem validateAndUpload_validated
    (h : Validated computeSha256 fileBytes contentType clientHash backend maxFileSizeBytes) :
    validateAndUploadWithSizeLimit computeSha256 fileBytes contentType clientHash backend
      maxFileSizeBytes = uploadValidated computeSha256 fileBytes backend := by
  have hbackend : ¬ (toAsciiLowercase backend ≠ "ipfs" ∧ toAsciiLowercase backend ≠ "arweave") := by
    rintro ⟨hipfs, harweave⟩
    exact h.backend.elim hipfs harweave
  unfold validateAndUploadWithSizeLimit
  rw [if_neg (Nat.not_lt.mpr h.size), if_neg (not_not.mpr h.mime), if_neg hbackend,
    verifyClientHash_ok_iff.mpr ⟨rfl, h.hash⟩]
  rfl

theorem validateAndUpload_invalid
    (h : ¬ Validated computeSha256 fileBytes contentType clientHash backend maxFileSizeBytes) :
    ∃ e, validateAndUploadWithSizeLimit computeSha256 fileBytes contentType clientHash backend
      maxFileSizeBytes = throw e := by
  unfold validateAndUploadWithSizeLimit
  by_cases hsize : maxFileSizeBytes < fileBytes.length
  · exact ⟨.fileTooLarge, if_pos hsize⟩
  by_cases hmime : contentType ∉ allowedMimeTypes
  · exact ⟨.invalidFileType, by rw [if_neg hsize, if_pos hmime]⟩
  by_cases hbackend : toAsciiLowercase backend ≠ "ipfs" ∧ toAsciiLowercase backend ≠ "arweave"
  · exact ⟨.uploadFailed, by rw [if_neg hsize, if_neg hmime, if_pos hbackend]⟩
  rw [if_neg hsize, if_neg hmime, if_neg hbackend]
  cases hhash : verifyClientHash computeSha256 fileBytes clientHash with
  | error e => exact ⟨e, rfl⟩
  | ok hash =>
      have hclient := (verifyClientHash_ok_iff.mp hhash).2
      refine absurd ⟨Nat.not_lt.mp hsize, not_not.mp hmime, ?_, hclient⟩ h
      rwa [not_and_or, not_not, not_not] at hbackend

/-- A run after all checks uploads the file, once. -/
theorem uploadValidated_runs {w w' : W} {steps : List (Step UploadOp UploadOp.Ans W)}
    {r : Except AppError UploadResponse}
    (h : Runs perform (uploadValidated computeSha256 fileBytes backend).run w steps r w') :
    ∃ answer, steps = [⟨w, .upload fileBytes, answer, w'⟩] ∧ ∀ response, r = .ok response →
      answer = .ok response.storageUri ∧ response.storageBackend = toAsciiLowercase backend ∧
        response.contentHash = hexEncode (computeSha256 fileBytes).toList := by
  obtain ⟨answer, w₁, rest, -, rfl, h⟩ := h
  cases answer with
  | error e =>
      obtain ⟨rfl, rfl, rfl⟩ := h
      exact ⟨.error e, rfl, fun response hresponse => by cases hresponse⟩
  | ok storageUri =>
      obtain ⟨rfl, rfl, rfl⟩ := h
      refine ⟨.ok storageUri, rfl, fun response hresponse => ?_⟩
      obtain rfl := Except.ok.inj hresponse
      exact ⟨rfl, rfl, rfl⟩

theorem parseStorageBackend_validated
    (h : toAsciiLowercase backend = "ipfs" ∨ toAsciiLowercase backend = "arweave") :
    ∃ storageBackend, parseStorageBackend (toAsciiLowercase backend) = .ok storageBackend := by
  rcases h with hipfs | harweave
  · exact ⟨.ipfs, by rw [hipfs]; rfl⟩
  · exact ⟨.arweave, by rw [harweave]; rfl⟩

/-- The runs of the validation: the checks decide whether the upload function is called. -/
theorem validateAndUpload_runs {w w' : W} {steps : List (Step UploadOp UploadOp.Ans W)}
    {r : Except AppError UploadResponse}
    (h : Runs perform (validateAndUploadWithSizeLimit computeSha256 fileBytes contentType clientHash
      backend maxFileSizeBytes).run w steps r w') :
    (∀ response, r = .ok response →
      steps = [⟨w, .upload fileBytes, .ok response.storageUri, w'⟩] ∧
      validateContentHash response.contentHash = .ok () ∧
      hexToBytes32 response.contentHash = some (computeSha256 fileBytes) ∧
      ∃ storageBackend, parseStorageBackend response.storageBackend = .ok storageBackend) ∧
    (steps = [] ↔
      ¬ Validated computeSha256 fileBytes contentType clientHash backend maxFileSizeBytes) := by
  by_cases hvalid :
    Validated computeSha256 fileBytes contentType clientHash backend maxFileSizeBytes
  · rw [validateAndUpload_validated hvalid] at h
    obtain ⟨answer, rfl, hresponse⟩ := uploadValidated_runs h
    refine ⟨fun response hr => ?_, by simp [hvalid]⟩
    obtain ⟨rfl, hbackend, hhash⟩ := hresponse response hr
    rw [hhash, hbackend]
    exact ⟨rfl, validateContentHash_hexEncode _, hexToBytes32_hexEncode _,
      parseStorageBackend_validated hvalid.backend⟩
  · obtain ⟨e, he⟩ := validateAndUpload_invalid hvalid
    rw [he] at h
    obtain ⟨rfl, rfl, -⟩ := h
    refine ⟨fun response hr => ?_, by simp [hvalid]⟩
    cases hr

/-! ### The form -/

/-- The file in the form was read from a field named `file`. -/
def FileFrom (fields : List (Option FormField)) (form : UploadForm) : Prop :=
  ∀ bytes, form.fileBytes = some bytes →
    ∃ field, some field ∈ fields ∧ field.name = some "file" ∧ field.bytes = some bytes

/-- A field leaves the file of the form as it is, or is its source. -/
theorem readField_fileBytes {form form' : UploadForm} {field : Option FormField}
    (h : readField form field = .ok form') : form'.fileBytes = form.fileBytes ∨
      ∃ source, field = some source ∧ source.name = some "file" ∧
        source.bytes = form'.fileBytes := by
  cases field with
  | none => cases h
  | some field =>
      unfold readField at h
      dsimp only at h
      -- the field is the file, or one of the three texts
      split at h
      · rename_i hname
        right
        have hfile : field.name = some "file" := by
          cases hnone : field.name with
          | none => simp [hnone] at hname
          | some name => simpa [hnone] using hname
        split at h
        · cases h
        split at h
        · cases h
        split at h
        · cases h
        split at h
        · cases h
        rename_i hbytes _
        obtain rfl := Except.ok.inj h
        exact ⟨field, rfl, hfile, hbytes⟩
      · left
        split at h
        · split at h
          · cases h
          · obtain rfl := Except.ok.inj h
            rfl
        split at h
        · split at h
          · cases h
          · obtain rfl := Except.ok.inj h
            rfl
        · obtain rfl := Except.ok.inj h
          rfl

/-- The invariant of the loop over the fields. -/
theorem readFields_fileFrom {all fields : List (Option FormField)} {form form' : UploadForm}
    (hsub : fields ⊆ all) (h : FileFrom all form)
    (hread : fields.foldlM readField form = .ok form') : FileFrom all form' := by
  induction fields generalizing form with
  | nil =>
      obtain rfl := Except.ok.inj hread
      exact h
  | cons field fields ih =>
      rw [List.foldlM_cons] at hread
      rw [List.cons_subset] at hsub
      cases hfirst : readField form field with
      | error e =>
          rw [hfirst] at hread
          cases hread
      | ok next =>
          rw [hfirst] at hread
          refine ih hsub.2 (fun bytes hbytes => ?_) hread
          obtain hsame | ⟨source, rfl, hname, hsource⟩ := readField_fileBytes hfirst
          · exact h bytes (hsame ▸ hbytes)
          · exact ⟨source, hsub.1, hname, hsource.trans hbytes⟩

/-- A successful request uploads the bytes of a field named `file`, once. -/
theorem uploadHandler_uploads {fields : List (Option FormField)} {w w' : W}
    {steps : List (Step UploadOp UploadOp.Ans W)} {response : UploadResponse}
    (h : Runs perform (uploadHandler computeSha256 fields).run w steps (.ok response) w') :
    ∃ field bytes, some field ∈ fields ∧ field.name = some "file" ∧ field.bytes = some bytes ∧
      steps = [⟨w, .upload bytes, .ok response.storageUri, w'⟩] ∧
      hexToBytes32 response.contentHash = some (computeSha256 bytes) := by
  unfold uploadHandler at h
  cases hform : fields.foldlM readField ⟨none, none, none, none⟩ with
  | error e =>
      rw [hform] at h
      cases h.2.1
  | ok form =>
      rw [hform] at h
      obtain ⟨fileBytes, contentType, clientHash, backend⟩ := form
      have hfrom : FileFrom fields ⟨fileBytes, contentType, clientHash, backend⟩ :=
        readFields_fileFrom (List.Subset.refl _) (fun bytes hbytes => by cases hbytes) hform
      -- each of the four parts has to be in the form
      cases fileBytes with
      | none => cases h.2.1
      | some fileBytes =>
      cases contentType with
      | none => cases h.2.1
      | some contentType =>
      cases clientHash with
      | none => cases h.2.1
      | some clientHash =>
      cases backend with
      | none => cases h.2.1
      | some backend =>
          obtain ⟨field, hfield, hname, hbytes⟩ := hfrom fileBytes rfl
          obtain ⟨hsteps, -, hhash, -⟩ := (validateAndUpload_runs h).1 response rfl
          exact ⟨field, fileBytes, hfield, hname, hbytes, hsteps, hhash⟩

end Upload

/-! ## From the upload to the submission -/

/-- **Content hash.**  The check of `submit_draft` passes for exactly the hexadecimal texts of 32
bytes, and a submission that ends with `InvalidHash` ends at the check.  A successful validation
uploads the file, and answers with a hash and a backend that `submit_draft` accepts, where the hash
is the one of the file.  The upload function is called exactly if all checks pass.  A successful
request to `upload_handler` uploads the bytes of one of its fields named `file`. -/
theorem uploaded_hash_submits :
    (∀ text, validateContentHash text = .ok () ↔
      ∃ bytes, Hex.decodeBytes text.toList = some bytes ∧ bytes.length = 32) ∧
    (∀ (W : Type) (perform : (op : Op) → op.Ans → W → Option W) env auth draftId
        (req : SubmitDraftRequest) w steps w',
      Runs perform (submitDraft env auth draftId req).run w steps (.error .invalidHash) w' →
        validateContentHash req.contentHash = .error .invalidHash ∧ steps = []) ∧
    (∀ (W : Type) (perform : (op : UploadOp) → op.Ans → W → Option W) computeSha256 fileBytes
        contentType clientHash backend maxFileSizeBytes w steps r w',
      Runs perform (validateAndUploadWithSizeLimit computeSha256 fileBytes contentType clientHash
          backend maxFileSizeBytes).run w steps r w' →
        (∀ response, r = .ok response →
          steps = [⟨w, .upload fileBytes, .ok response.storageUri, w'⟩] ∧
          validateContentHash response.contentHash = .ok () ∧
          hexToBytes32 response.contentHash = some (computeSha256 fileBytes) ∧
          ∃ storageBackend, parseStorageBackend response.storageBackend = .ok storageBackend) ∧
        (steps = [] ↔
          ¬ Validated computeSha256 fileBytes contentType clientHash backend maxFileSizeBytes)) ∧
    (∀ (W : Type) (perform : (op : UploadOp) → op.Ans → W → Option W) computeSha256 fields w steps
        response w',
      Runs perform (uploadHandler computeSha256 fields).run w steps (.ok response) w' →
        ∃ field bytes, some field ∈ fields ∧ field.name = some "file" ∧ field.bytes = some bytes ∧
          steps = [⟨w, .upload bytes, .ok response.storageUri, w'⟩] ∧
          hexToBytes32 response.contentHash = some (computeSha256 bytes)) := by
  refine ⟨fun _ => validateContentHash_iff, fun W perform env auth draftId req w steps w' h => ?_,
    fun W perform _ _ _ _ _ _ w steps r w' h => validateAndUpload_runs h,
    fun W perform _ _ w steps response w' h => uploadHandler_uploads h⟩
  cases hcheck : validateContentHash req.contentHash with
  | ok u => exact absurd rfl (submitDraft_avoids hcheck w steps _ w' h)
  | error e =>
      unfold submitDraft admitSubmission at h
      rw [hcheck] at h
      obtain ⟨rfl, he, -⟩ := h
      obtain rfl := Except.error.inj he
      exact ⟨rfl, rfl⟩

/-- The SHA-256 of the empty file. -/
def sha256OfEmpty : Bytes 32 :=
  ⟨#[0xe3, 0xb0, 0xc4, 0x42, 0x98, 0xfc, 0x1c, 0x14, 0x9a, 0xfb, 0xf4, 0xc8, 0x99, 0x6f, 0xb9, 0x24,
    0x27, 0xae, 0x41, 0xe4, 0x64, 0x9b, 0x93, 0x4c, 0xa4, 0x95, 0x99, 0x1b, 0x78, 0x52, 0xb8, 0x55],
    rfl⟩

/-- The empty file, uploaded with a hash in capital letters. -/
theorem uploaded_hash_submits_empty : ∃ steps response,
    Runs (fun _ _ (_ : Unit) => some ()) (validateAndUpload (fun _ => sha256OfEmpty) []
      "application/pdf" "E3B0C44298FC1C149AFBF4C8996FB92427AE41E4649B934CA495991B7852B855"
      "IPFS").run () steps (.ok response) () ∧
    validateContentHash response.contentHash = .ok () ∧
    hexToBytes32 response.contentHash = some sha256OfEmpty := by
  have hvalid : Validated (fun _ => sha256OfEmpty) [] "application/pdf"
      "E3B0C44298FC1C149AFBF4C8996FB92427AE41E4649B934CA495991B7852B855" "IPFS" maxFileSizeBytes :=
    { size := by decide
      mime := by decide
      backend := .inl (by decide)
      hash := by decide +kernel }
  obtain ⟨steps, response, hrun⟩ : ∃ steps response, Runs (fun _ _ (_ : Unit) => some ())
      (validateAndUpload (fun _ => sha256OfEmpty) [] "application/pdf"
        "E3B0C44298FC1C149AFBF4C8996FB92427AE41E4649B934CA495991B7852B855" "IPFS").run
      () steps (.ok response) () := by
    rw [validateAndUpload, validateAndUpload_validated hvalid]
    exact ⟨_, _, .ok "ipfs://QmUploadCid123", (), [], rfl, rfl, rfl, rfl, rfl⟩
  have hsubmits := ((uploaded_hash_submits.2.2.1 _ _ _ _ _ _ _ _ _ _ _ _ hrun).1 response rfl).2
  exact ⟨steps, response, hrun, hsubmits.1, hsubmits.2.1⟩

end PactumCodex
