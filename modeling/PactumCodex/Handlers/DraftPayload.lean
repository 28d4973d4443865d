import PactumCodex.Types

/-!
# The JSON columns of a draft

`create_agreement` writes `draft_payload` and `party_slots`, `accept_invite`
reads and rewrites `party_slots`, and `submit_draft` reads `draft_payload`.  Each
of the three files declares its own `DraftPartyEntry`, and two of them a
`DraftPayload`; the column is all that they share.

* `Handlers.Agreement`: the declarations of `handlers/agreement.rs`, which are
  only encoded;
* `Handlers.Draft`: those of `handlers/draft.rs`, which are only decoded;
* `Handlers.Invite`: the one of `handlers/invite.rs`, which is decoded, changed and
  encoded again.

The derived encoders and decoders are those of any struct with such fields,
applied to the field names of each file (`entryToValue`, `entryFromValue`,
`payloadToValue`, `payloadFromValue`).  The decoders deny unknown fields; a missing
optional field reads as null.  That the files still agree about the columns are the
round trips at the end, one for each way that JSON takes from one file to another:
they fail as soon as one copy drifts.
-/

namespace PactumCodex

/-! ## Derived encoders and decoders -/

/-- `serde_json::to_value` of an optional string. -/
def optionToValue (value : Option String) : Json := value.elim .null .str

/-- An optional field read through `read`. -/
def optionFromValue {α : Type} (read : String → Option α) : Option Json → Option (Option α)
  | none => some none
  | some .null => some none
  | some (.str s) => (read s).map some
  | some _ => none

/-- A struct of an optional text and an optional identifier under these names. -/
def entryToValue (textName idName : String) (text : Option String) (id : Option Uuid) : Json :=
  .obj [(textName, optionToValue text), (idName, optionToValue (id.map Uuid.toText))]

/-- A struct from the values of its two optional fields. -/
def entryOfFields {α : Type} (make : Option String → Option Uuid → α) (text id : Option Json) :
    Option α := do
  let text ← optionFromValue some text
  let id ← optionFromValue Uuid.parseStr id
  return make text id

/-- The decoder of such a struct, with unknown fields denied. -/
def entryFromValue {α : Type} (textName idName : String) (make : Option String → Option Uuid → α) :
    Json → Option α
  | .obj fields =>
      if fields.all fun field => field.1 = textName ∨ field.1 = idName then
        entryOfFields make (Json.field? textName fields) (Json.field? idName fields)
      else none
  -- a derived decoder takes the fields of a struct from an array as well
  | .arr [text, id] => entryOfFields make (some text) (some id)
  | _ => none

/-- `serde_json::to_value` of a vector. -/
def vecToValue {α : Type} (write : α → Json) (items : List α) : Json := .arr (items.map write)

/-- `serde_json::from_value` of a vector. -/
def vecFromValue {α : Type} (read : Json → Option α) : Json → Option (List α)
  | .arr items => items.mapM read
  | _ => none

/-- A struct of a text, a number and a vector under these names. -/
def payloadToValue {α : Type} (textName numName vecName : String) (write : α → Json) (text : String)
    (num : UInt64) (items : List α) : Json :=
  .obj [(textName, .str text), (numName, .num num.toNat), (vecName, vecToValue write items)]

/-- A struct from the values of its three fields. -/
def payloadOfFields {α β : Type} (read : Json → Option α) (make : String → UInt64 → List α → β) :
    (text num items : Option Json) → Option β
  | some (.str text), some (.num num), some items =>
      if 0 ≤ num ∧ num < 2 ^ 64 then
        (vecFromValue read items).map fun items => make text (UInt64.ofNat num.toNat) items
      else none
  | _, _, _ => none

/-- The decoder of such a struct, with unknown fields denied. -/
def payloadFromValue {α β : Type} (textName numName vecName : String) (read : Json → Option α)
    (make : String → UInt64 → List α → β) : Json → Option β
  | .obj fields =>
      if fields.all fun field => field.1 = textName ∨ field.1 = numName ∨ field.1 = vecName then
        payloadOfFields read make (Json.field? textName fields) (Json.field? numName fields)
          (Json.field? vecName fields)
      else none
  | .arr [text, num, items] => payloadOfFields read make (some text) (some num) (some items)
  | _ => none

/-! ## The declarations of the three files -/

namespace Handlers.Agreement

/-- One party of a draft: its wallet, or the invitation that will provide it. -/
structure DraftPartyEntry where
  pubkey : Option String
  inviteId : Option Uuid
  deriving DecidableEq, Repr

/-- The draft as the creator requested it. -/
structure DraftPayload where
  title : String
  expiresInSecs : UInt64
  parties : List DraftPartyEntry
  deriving DecidableEq

def DraftPartyEntry.toValue (entry : DraftPartyEntry) : Json :=
  entryToValue "pubkey" "invite_id" entry.pubkey entry.inviteId

/-- `party_slots`, as a draft is stored. -/
def slotsToValue (slots : List DraftPartyEntry) : Json := vecToValue DraftPartyEntry.toValue slots

def DraftPayload.toValue (payload : DraftPayload) : Json :=
  payloadToValue "title" "expires_in_secs" "parties" DraftPartyEntry.toValue payload.title
    payload.expiresInSecs payload.parties

end Handlers.Agreement

namespace Handlers.Draft

/-- One party of a draft that is submitted. -/
structure DraftPartyEntry where
  pubkey : Option String
  inviteId : Option Uuid
  deriving DecidableEq, Repr

/-- A draft that is submitted. -/
structure DraftPayload where
  title : String
  expiresInSecs : UInt64
  parties : List DraftPartyEntry
  deriving DecidableEq

def DraftPartyEntry.fromValue : Json → Option DraftPartyEntry :=
  entryFromValue "pubkey" "invite_id" DraftPartyEntry.mk

def DraftPayload.fromValue : Json → Option DraftPayload :=
  payloadFromValue "title" "expires_in_secs" "parties" DraftPartyEntry.fromValue DraftPayload.mk

end Handlers.Draft

namespace Handlers.Invite

/-- A slot of a draft: the wallet of a party, or the invitation that will provide it. -/
structure DraftPartyEntry where
  pubkey : Option String
  inviteId : Option Uuid
  deriving DecidableEq, Repr

def DraftPartyEntry.toValue (entry : DraftPartyEntry) : Json :=
  entryToValue "pubkey" "invite_id" entry.pubkey entry.inviteId

def DraftPartyEntry.fromValue : Json → Option DraftPartyEntry :=
  entryFromValue "pubkey" "invite_id" DraftPartyEntry.mk

/-- `party_slots`, as an acceptance writes it. -/
def slotsToValue (slots : List DraftPartyEntry) : Json := vecToValue DraftPartyEntry.toValue slots

/-- `party_slots`, as an acceptance reads it. -/
def slotsFromValue : Json → Option (List DraftPartyEntry) := vecFromValue DraftPartyEntry.fromValue

end Handlers.Invite

/-! ### The same data in another file -/

namespace Handlers.Agreement

/-- The entry, as `draft.rs` declares it. -/
def DraftPartyEntry.toDraft (entry : DraftPartyEntry) : Draft.DraftPartyEntry :=
  ⟨entry.pubkey, entry.inviteId⟩

/-- The entry, as `invite.rs` declares it. -/
def DraftPartyEntry.toInvite (entry : DraftPartyEntry) : Invite.DraftPartyEntry :=
  ⟨entry.pubkey, entry.inviteId⟩

/-- The payload, as `draft.rs` declares it. -/
def DraftPayload.toDraft (payload : DraftPayload) : Draft.DraftPayload :=
  ⟨payload.title, payload.expiresInSecs, payload.parties.map DraftPartyEntry.toDraft⟩

@[simp] theorem DraftPartyEntry.toDraft_pubkey (entry : DraftPartyEntry) :
    entry.toDraft.pubkey = entry.pubkey := rfl

@[simp] theorem DraftPartyEntry.toInvite_pubkey (entry : DraftPartyEntry) :
    entry.toInvite.pubkey = entry.pubkey := rfl

@[simp] theorem DraftPartyEntry.toInvite_inviteId (entry : DraftPartyEntry) :
    entry.toInvite.inviteId = entry.inviteId := rfl

end Handlers.Agreement

/-! ## Round trips -/

namespace Uuid

theorem parseHyphenated_groups {a b c d e : List Char} (ha : a.length = 8) (hb : b.length = 4)
    (hc : c.length = 4) (hd : d.length = 4) :
    parseHyphenated (a ++ '-' :: b ++ '-' :: c ++ '-' :: d ++ '-' :: e) =
      Hex.decode (a ++ b ++ c ++ d ++ e) := by
  unfold parseHyphenated
  rw [if_pos (by simp [List.getElem?_append, ha, hb, hc, hd])]
  simp (disch := omega) [List.drop_append, ha, hb, hc, hd, List.drop_of_length_le]

theorem groups_append (digits : List Char) :
    digits.take 8 ++ (digits.drop 8).take 4 ++ (digits.drop 12).take 4 ++ (digits.drop 16).take 4 ++
      digits.drop 20 = digits := by
  have h16 := List.take_append_drop 4 (digits.drop 16)
  have h12 := List.take_append_drop 4 (digits.drop 12)
  have h8 := List.take_append_drop 4 (digits.drop 8)
  have h0 := List.take_append_drop 8 digits
  rw [List.drop_drop] at h16 h12 h8
  rw [List.append_assoc, List.append_assoc, List.append_assoc, h16, h12, h8, h0]

/-- An identifier is read back from its text. -/
@[simp] theorem parseStr_toText (id : Uuid) : parseStr id.toText = some id := by
  have hparse : parseHyphenated (hyphenate (Hex.encode 32 id.toNat)) = some id.toNat := by
    unfold hyphenate
    rw [parseHyphenated_groups (by simp) (by simp) (by simp) (by simp), groups_append,
      Hex.decode_encode, Nat.mod_eq_of_lt (by simpa using id.isLt)]
  have hlength : (hyphenate (Hex.encode 32 id.toNat)).length = 36 := by simp [hyphenate]
  unfold parseStr toText
  simp only [String.toList_ofList, hlength]
  simp [hparse]

end Uuid

theorem optionFromValue_toText (id : Option Uuid) :
    optionFromValue Uuid.parseStr (some (optionToValue (id.map Uuid.toText))) = some id := by
  cases id with
  | none => rfl
  | some id =>
      show (Uuid.parseStr id.toText).map some = some (some id)
      rw [Uuid.parseStr_toText]
      rfl

/-- A struct of two optional fields is read back under the names it was written under. -/
theorem entryFromValue_entryToValue {α : Type} {textName idName : String} (hne : idName ≠ textName)
    (make : Option String → Option Uuid → α) (text : Option String) (id : Option Uuid) :
    entryFromValue textName idName make (entryToValue textName idName text id) =
      some (make text id) := by
  have htext : optionFromValue some (some (optionToValue text)) = some text := by
    cases text <;> rfl
  have hid := optionFromValue_toText id
  simp [entryFromValue, entryToValue, entryOfFields, Json.field?, hne.symm, htext, hid]

/-- A vector is read back if its items are. -/
theorem vecFromValue_vecToValue {α β : Type} {write : α → Json} {read : Json → Option β} {f : α → β}
    (h : ∀ a, read (write a) = some (f a)) (items : List α) :
    vecFromValue read (vecToValue write items) = some (items.map f) := by
  show (items.map write).mapM read = some (items.map f)
  induction items with
  | nil => rfl
  | cons a items ih => simp [h, ih]

/-- A struct of a text, a number and a vector is read back. -/
theorem payloadFromValue_payloadToValue {α β γ : Type} {textName numName vecName : String}
    (hnum : numName ≠ textName) (hvec : vecName ≠ textName) (hvec' : vecName ≠ numName)
    {write : α → Json} {read : Json → Option β} {f : α → β} (h : ∀ a, read (write a) = some (f a))
    (make : String → UInt64 → List β → γ) (text : String) (num : UInt64) (items : List α) :
    payloadFromValue textName numName vecName read make
        (payloadToValue textName numName vecName write text num items) =
      some (make text num (items.map f)) := by
  have hlt : num.toNat < 2 ^ 64 := num.toNat_lt
  have hrange : (0 : ℤ) ≤ num.toNat ∧ (num.toNat : ℤ) < 2 ^ 64 := by omega
  have hitems := vecFromValue_vecToValue h items
  simp [payloadFromValue, payloadToValue, payloadOfFields, Json.field?, hnum.symm, hvec.symm,
    hvec'.symm, hitems]
  omega

open Handlers

theorem Handlers.Draft.DraftPartyEntry.fromValue_toValue (entry : Agreement.DraftPartyEntry) :
    Draft.DraftPartyEntry.fromValue entry.toValue = some entry.toDraft :=
  entryFromValue_entryToValue (by simp) Draft.DraftPartyEntry.mk entry.pubkey entry.inviteId

theorem Handlers.Invite.DraftPartyEntry.fromValue_toValue (entry : Invite.DraftPartyEntry) :
    Invite.DraftPartyEntry.fromValue entry.toValue = some entry :=
  entryFromValue_entryToValue (by simp) Invite.DraftPartyEntry.mk entry.pubkey entry.inviteId

@[simp] theorem Handlers.Draft.DraftPayload.fromValue_toValue (payload : Agreement.DraftPayload) :
    Draft.DraftPayload.fromValue payload.toValue = some payload.toDraft := by
  unfold Draft.DraftPayload.fromValue Agreement.DraftPayload.toValue
  exact payloadFromValue_payloadToValue (by simp) (by simp) (by simp)
    Draft.DraftPartyEntry.fromValue_toValue ..

@[simp] theorem Handlers.Invite.slotsFromValue_slotsToValue (slots : List Invite.DraftPartyEntry) :
    Invite.slotsFromValue (Invite.slotsToValue slots) = some slots := by
  have hslots := vecFromValue_vecToValue Invite.DraftPartyEntry.fromValue_toValue slots
  rwa [List.map_id'] at hslots

/-- A draft is stored with the slots that an acceptance would write. -/
theorem Handlers.Agreement.slotsToValue_eq (slots : List Agreement.DraftPartyEntry) :
    Agreement.slotsToValue slots =
      Invite.slotsToValue (slots.map Agreement.DraftPartyEntry.toInvite) := by
  unfold Agreement.slotsToValue Invite.slotsToValue vecToValue
  rw [List.map_map]
  rfl

end PactumCodex
