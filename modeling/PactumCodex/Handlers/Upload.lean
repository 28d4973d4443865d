import PactumCodex.Lib.Fallible
import PactumCodex.Lib.Hex
import PactumCodex.Types

/-!
# `handlers/upload.rs`

The upload of a document, with `services/hash.rs`.  The call of the upload
function is an operation, so that a run shows whether it is called and with which
bytes; its answer and its effects are left open.  SHA-256 is a parameter.
-/

namespace PactumCodex

open Interaction

def maxFileSizeBytes : ℕ := 50 * 1024 * 1024

def allowedMimeTypes : List String := ["application/pdf", "image/png", "image/jpeg"]

structure UploadResponse where
  storageUri : String
  contentHash : String
  storageBackend : String
  deriving DecidableEq

/-- What the validation does apart from computing. -/
inductive UploadOp : Type
  /-- The call of `upload_fn`. -/
  | upload (bytes : List UInt8)
  deriving DecidableEq

/-- What `upload_fn` returns. -/
@[reducible] def UploadOp.Ans : UploadOp → Type
  | .upload _ => Except AppError String

/-- A function that may upload a document. -/
abbrev Uploading (α : Type) := Fallible UploadOp UploadOp.Ans AppError α

/-- `str::to_ascii_lowercase`. -/
def toAsciiLowercase (text : String) : String := String.ofList (text.toList.map Char.toLower)

/-- `hex::encode`. -/
def hexEncode (bytes : List UInt8) : String := String.ofList (Hex.encodeBytes bytes)

/-! ## `services/hash.rs` -/

def verifyClientHash (computeSha256 : List UInt8 → Bytes 32) (fileBytes : List UInt8)
    (clientHashHex : String) : Except AppError (Bytes 32) :=
  let serverHash := computeSha256 fileBytes
  match Hex.decodeBytes clientHashHex.toList with
  | none => .error .invalidHash
  | some clientHash =>
      if serverHash.toList ≠ clientHash then .error .hashMismatch else .ok serverHash

/-! ## Validation -/

section Validation

variable (computeSha256 : List UInt8 → Bytes 32)

def validateAndUploadWithSizeLimit (fileBytes : List UInt8)
    (contentType clientHash backend : String) (maxFileSizeBytes : ℕ) : Uploading UploadResponse :=
  if maxFileSizeBytes < fileBytes.length then throw .fileTooLarge
  else if contentType ∉ allowedMimeTypes then throw .invalidFileType
  else
    let storageBackend := toAsciiLowercase backend
    if storageBackend ≠ "ipfs" ∧ storageBackend ≠ "arweave" then throw .uploadFailed
    else do
      let serverHash ← Fallible.ofExcept (verifyClientHash computeSha256 fileBytes clientHash)
      let storageUri ← Fallible.orFail .uploadFailed (.issue (UploadOp.upload fileBytes))
      return { storageUri, contentHash := hexEncode serverHash.toList, storageBackend }

def validateAndUpload (fileBytes : List UInt8) (contentType clientHash backend : String) :
    Uploading UploadResponse :=
  validateAndUploadWithSizeLimit computeSha256 fileBytes contentType clientHash backend
    maxFileSizeBytes

end Validation

/-! ## The form -/

/-- A field of the form.  The body is missing if reading it fails. -/
structure FormField where
  name : Option String
  contentType : Option String
  bytes : Option (List UInt8)
  text : Option String

/-- The fields read so far. -/
structure UploadForm where
  fileBytes : Option (List UInt8)
  contentType : Option String
  clientHash : Option String
  backend : Option String

/-- The body of the loop over the fields; the field is missing if the next one cannot be read. -/
def readField (form : UploadForm) : Option FormField → Except AppError UploadForm
  | none => .error .uploadFailed
  | some field =>
      let fieldName := field.name.getD ""
      if fieldName = "file" then
        match field.contentType with
        | none => .error .missingContentType
        | some fieldContentType =>
            if fieldContentType ∉ allowedMimeTypes then .error .invalidFileType
            else
              match field.bytes with
              | none => .error .uploadFailed
              | some bytes =>
                  if maxFileSizeBytes < bytes.length then .error .fileTooLarge
                  else .ok { form with
                    fileBytes := some bytes
                    contentType := some fieldContentType }
      else if fieldName = "client_hash" then
        match field.text with
        | none => .error .uploadFailed
        | some value => .ok { form with clientHash := some value }
      else if fieldName = "backend" then
        match field.text with
        | none => .error .uploadFailed
        | some value => .ok { form with backend := some value }
      else .ok form

def uploadHandler (computeSha256 : List UInt8 → Bytes 32) (fields : List (Option FormField)) :
    Uploading UploadResponse := do
  let form ← Fallible.ofExcept (fields.foldlM readField ⟨none, none, none, none⟩)
  let fileBytes ← Fallible.okOr .uploadFailed form.fileBytes
  let contentType ← Fallible.okOr .missingContentType form.contentType
  let clientHash ← Fallible.okOr .invalidHash form.clientHash
  let backend ← Fallible.okOr .uploadFailed form.backend
  validateAndUpload computeSha256 fileBytes contentType clientHash backend

end PactumCodex
