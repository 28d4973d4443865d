import PactumCodex.Lib.Url
import PactumCodex.Services.SolanaPay
import PactumCodex.SolanaTypes

/-!
# What a wallet reads in a Solana Pay URL

A wallet splits the URL at `?`, `&` and the first `=` of each parameter, and
percent-decodes the values.  `percent_encode_minimal` escapes every character at
which a URL is split, so a label or a memo comes back as it was and cannot add or
change a parameter (`buildSolanaPayUrl_read`).

The encoder works on bytes: each one is written as itself if it is unreserved, and
as an escape otherwise.  Both read back as the byte (`percentDecode_encodeByte`), and
neither contains a separator.  The other values need no escapes: keys are base-58
numerals, and amounts decimal ones.  With this the URL is a path with a query of
parameters in the sense of `Lib/Url`, which is read back as it was written.
-/

namespace PactumCodex

/-- A string of base-58 digits. -/
def IsBase58 (text : String) : Prop := ∀ c ∈ text.toList, c ∈ base58Alphabet

instance (text : String) : Decidable (IsBase58 text) := List.decidableBAll _ _

/-- What a wallet reads in a payment request. -/
structure PayRequest where
  recipient : List Char
  params : List (String × String)
  deriving DecidableEq

/-- Read a payment request. -/
def readPayUrl (url : String) : Option PayRequest := do
  let (path, params) ← Url.readQuery url.toList
  let recipient ← "solana:".toList.isPrefixOf? path.toList
  return { recipient, params }

/-! ## Percent-encoding -/

section Encoding

/-- What one byte is encoded as. -/
def encodeByte (byte : UInt8) : List Char :=
  if isUnreserved byte then [Char.ofNat byte.toNat] else '%' :: upperHex byte

theorem toList_percentEncodeMinimal (input : String) :
    (percentEncodeMinimal input).toList = (Url.utf8 input.toList).flatMap encodeByte := by
  rw [percentEncodeMinimal, String.toList_ofList]
  rfl

theorem upperHex_eq (byte : UInt8) : upperHex byte =
    [(Nat.digitChar (byte.toNat / 16)).toUpper, (Nat.digitChar (byte.toNat % 16)).toUpper] := by
  rw [upperHex, Hex.encode_byte]
  rfl

theorem digitVal_toUpper_digitChar {digit : ℕ} (h : digit < 16) :
    Hex.digitVal (Nat.digitChar digit).toUpper = some digit := by
  interval_cases digit <;> decide

theorem escaped_upperHex (byte : UInt8) :
    Url.escaped '%' (Nat.digitChar (byte.toNat / 16)).toUpper
      (Nat.digitChar (byte.toNat % 16)).toUpper = some byte := by
  have hlt := byte.toNat_lt
  have hhigh : Hex.digitVal (Nat.digitChar (byte.toNat / 16)).toUpper = some (byte.toNat / 16) :=
    digitVal_toUpper_digitChar (by omega)
  have hlow : Hex.digitVal (Nat.digitChar (byte.toNat % 16)).toUpper = some (byte.toNat % 16) :=
    digitVal_toUpper_digitChar (by omega)
  have hbyte : byte.toNat / 16 * 16 + byte.toNat % 16 = byte.toNat := by omega
  simp only [Url.escaped, if_true, hhigh, hlow, Option.bind_eq_bind, Option.bind_some, hbyte,
    UInt8.ofNat_toNat]
  rfl

theorem isPlain_toUpper_digitChar {digit : ℕ} (h : digit < 16) :
    Url.isPlain (Nat.digitChar digit).toUpper = true := by
  interval_cases digit <;> decide

theorem toNat_ofNat_byte (byte : UInt8) : (Char.ofNat byte.toNat).toNat = byte.toNat := by
  have hlt := byte.toNat_lt
  have hvalid : byte.toNat.isValidChar := .inl (by omega)
  rw [Char.ofNat, dif_pos hvalid]
  rfl

theorem lt_of_isUnreserved {byte : UInt8} (h : isUnreserved byte = true) : byte.toNat < 128 := by
  have hnat := toNat_ofNat_byte byte
  simp only [isUnreserved, Bool.or_eq_true, Bool.and_eq_true, decide_eq_true_eq] at h
  rcases h with (((⟨hlt, -⟩ | hc) | hc) | hc) | hc
  · exact hlt
  all_goals
    rw [hc] at hnat
    rw [← hnat]
    decide

theorem isPlain_of_isUnreserved {byte : UInt8} (h : isUnreserved byte = true) :
    Url.isPlain (Char.ofNat byte.toNat) = true := by
  simp only [isUnreserved, Bool.or_eq_true, Bool.and_eq_true, decide_eq_true_eq] at h
  rcases h with (((⟨-, halpha⟩ | hc) | hc) | hc) | hc
  · exact Url.isPlain_of_isAlphanum halpha
  all_goals
    rw [hc]
    decide

/-- A character below 128 is its own byte. -/
theorem utf8EncodeChar_ofNat {byte : UInt8} (h : byte.toNat < 128) :
    String.utf8EncodeChar (Char.ofNat byte.toNat) = [byte] := by
  have hval : (Char.ofNat byte.toNat).val.toNat = byte.toNat := toNat_ofNat_byte byte
  have hsize : (Char.ofNat byte.toNat).utf8Size = 1 := by
    rw [Char.utf8Size_eq_one_iff, UInt32.le_iff_toNat_le, hval]
    exact Nat.le_of_lt_succ h
  have hbyte : (Char.ofNat byte.toNat).val.toUInt8 = byte := by
    rw [← UInt8.toNat_inj, UInt32.toNat_toUInt8, hval]
    exact Nat.mod_eq_of_lt byte.toNat_lt
  rw [String.utf8EncodeChar_eq_singleton hsize, hbyte]

/-- A byte that was encoded is read back. -/
theorem percentDecode_encodeByte (byte : UInt8) (rest : List Char) :
    Url.percentDecode (encodeByte byte ++ rest) = byte :: Url.percentDecode rest := by
  by_cases hunreserved : isUnreserved byte = true
  · have hne : Char.ofNat byte.toNat ≠ '%' := by
      intro heq
      have hplain := isPlain_of_isUnreserved hunreserved
      rw [heq] at hplain
      cases hplain
    have hchar := utf8EncodeChar_ofNat (lt_of_isUnreserved hunreserved)
    rw [encodeByte, if_pos hunreserved, List.singleton_append, Url.percentDecode_cons hne, hchar,
      List.singleton_append]
  · rw [encodeByte, if_neg hunreserved, upperHex_eq]
    exact Url.percentDecode_escaped (escaped_upperHex byte)

theorem isSeparator_of_mem_encodeByte {byte : UInt8} {c : Char} (h : c ∈ encodeByte byte) :
    Url.isSeparator c = false := by
  have hlt := byte.toNat_lt
  rw [encodeByte] at h
  split at h
  · next hunreserved =>
      rw [List.mem_singleton.mp h]
      exact Url.isSeparator_of_isPlain (isPlain_of_isUnreserved hunreserved)
  · rw [upperHex_eq] at h
    have hhigh : Url.isPlain (Nat.digitChar (byte.toNat / 16)).toUpper = true :=
      isPlain_toUpper_digitChar (by omega)
    have hlow : Url.isPlain (Nat.digitChar (byte.toNat % 16)).toUpper = true :=
      isPlain_toUpper_digitChar (by omega)
    simp only [List.mem_cons, List.not_mem_nil, or_false] at h
    rcases h with rfl | rfl | rfl
    · decide
    · exact Url.isSeparator_of_isPlain hhigh
    · exact Url.isSeparator_of_isPlain hlow

theorem isSeparator_percentEncodeMinimal (text : String) :
    ∀ c ∈ (percentEncodeMinimal text).toList, Url.isSeparator c = false := by
  intro c hc
  rw [toList_percentEncodeMinimal] at hc
  obtain ⟨byte, -, hbyte⟩ := List.mem_flatMap.mp hc
  exact isSeparator_of_mem_encodeByte hbyte

theorem decodeText_percentEncodeMinimal (text : String) :
    Url.decodeText (percentEncodeMinimal text).toList = some text := by
  rw [toList_percentEncodeMinimal]
  have hread := Url.percentDecode_flatMap percentDecode_encodeByte (Url.utf8 text.toList)
  rw [Url.decodeText_eq_some hread, String.ofList_toList]

/-- The parameter that carries a text as `percent_encode_minimal` writes it. -/
def encodedParam (name : List Char) (text : String) (hname : ∀ c ∈ name, Url.isPlain c = true) :
    Url.Param where
  name := name
  value := (percentEncodeMinimal text).toList
  text := text
  name_plain := Url.isSeparator_of_plain hname
  value_plain := isSeparator_percentEncodeMinimal text
  decode_value := decodeText_percentEncodeMinimal text

theorem written_encodedParam {name : List Char} {text : String}
    (hname : ∀ c ∈ name, Url.isPlain c = true) :
    (encodedParam name text hname).written = name ++ '=' :: (percentEncodeMinimal text).toList := by
  rw [Url.Param.written, encodedParam]

theorem read_encodedParam {name : List Char} {text : String}
    (hname : ∀ c ∈ name, Url.isPlain c = true) :
    (encodedParam name text hname).read = (String.ofList name, text) := by
  rw [Url.Param.read, encodedParam]

end Encoding

/-! ## The other values -/

section PlainValues

theorem isPlain_of_mem_base58Alphabet : ∀ c ∈ base58Alphabet, Url.isPlain c = true :=
  List.all_eq_true.mp (by decide)

theorem IsBase58.isPlain {text : String} (h : IsBase58 text) :
    ∀ c ∈ text.toList, Url.isPlain c = true :=
  fun c hc => isPlain_of_mem_base58Alphabet c (h c hc)

theorem isPlain_of_mem_toDigits {n : ℕ} {c : Char} (h : c ∈ Nat.toDigits 10 n) :
    Url.isPlain c = true := by
  have hdigit := Nat.isDigit_of_mem_toDigits (by decide) (by decide) h
  exact Url.isPlain_of_isAlphanum (by simp [Char.isAlphanum, hdigit])

theorem isPlain_of_mem_decimal {n : Int64} {c : Char} (h : c ∈ (decimal n).toList) :
    Url.isPlain c = true := by
  rw [decimal, Int.toString_eq_repr, Int.repr_eq_if] at h
  split at h
  · rw [Nat.repr_eq_ofList_toDigits, String.toList_ofList] at h
    exact isPlain_of_mem_toDigits h
  · rw [String.toList_append, List.mem_append] at h
    rcases h with hsign | hdigits
    · rw [List.mem_singleton.mp hsign]
      decide
    · rw [Nat.repr_eq_ofList_toDigits, String.toList_ofList] at hdigits
      exact isPlain_of_mem_toDigits hdigits

theorem isPlain_of_mem_zeroPad6 {n : Int64} {c : Char} (h : c ∈ (zeroPad6 n).toList) :
    Url.isPlain c = true := by
  have hzero : ∀ {count : ℕ}, c ∈ List.replicate count '0' → Url.isPlain c = true := by
    intro count hmem
    rw [List.eq_of_mem_replicate hmem]
    decide
  rw [zeroPad6] at h
  split at h
  · rw [String.toList_ofList, List.cons_append, List.mem_cons, List.mem_append] at h
    rcases h with rfl | hmem | hmem
    · decide
    · exact hzero hmem
    · exact isPlain_of_mem_toDigits hmem
  · rw [String.toList_ofList, List.mem_append] at h
    rcases h with hmem | hmem
    · exact hzero hmem
    · exact isPlain_of_mem_toDigits hmem

/-- The numeral of an amount has no character at which a query is split. -/
theorem isPlain_of_mem_formatAmount6dp {amountUnits : Int64} {c : Char}
    (h : c ∈ (formatAmount6dp amountUnits).toList) : Url.isPlain c = true := by
  have hsign : c ∈ (if amountUnits < 0 then "-" else "").toList → Url.isPlain c = true := by
    intro hmem
    split at hmem
    · rw [List.mem_singleton.mp hmem]
      decide
    · cases hmem
  simp only [formatAmount6dp] at h
  split at h
  · rw [String.toList_append, List.mem_append] at h
    rcases h with hmem | hmem
    · exact hsign hmem
    · exact isPlain_of_mem_decimal hmem
  · simp only [String.toList_append, List.mem_append, String.toList_ofList, List.mem_reverse] at h
    rcases h with ((hmem | hmem) | hmem) | hmem
    · exact hsign hmem
    · exact isPlain_of_mem_decimal hmem
    · rw [List.mem_singleton.mp hmem]
      decide
    · have hpad := (List.dropWhile_sublist _).mem hmem
      exact isPlain_of_mem_zeroPad6 (List.mem_reverse.mp hpad)

end PlainValues

/-! ## The whole URL -/

section PayUrl

variable {treasuryAta mint reference : String}

/-- The parameters of a payment request, as they are written. -/
def payParams (hmint : IsBase58 mint) (hreference : IsBase58 reference) (amountUnits : Int64)
    (label memo : String) : List Url.Param :=
  [.plain "amount".toList (formatAmount6dp amountUnits).toList (List.all_eq_true.mp (by decide))
      fun _ => isPlain_of_mem_formatAmount6dp,
    .plain "spl-token".toList mint.toList (List.all_eq_true.mp (by decide)) hmint.isPlain,
    .plain "reference".toList reference.toList (List.all_eq_true.mp (by decide)) hreference.isPlain,
    encodedParam "label".toList label (List.all_eq_true.mp (by decide)),
    encodedParam "memo".toList memo (List.all_eq_true.mp (by decide))]

theorem toList_buildSolanaPayUrl (hmint : IsBase58 mint) (hreference : IsBase58 reference)
    (amountUnits : Int64) (label memo : String) :
    (buildSolanaPayUrl treasuryAta amountUnits mint reference label memo).toList =
      Url.writeQuery ("solana:" ++ treasuryAta).toList
        (payParams hmint hreference amountUnits label memo) := by
  unfold buildSolanaPayUrl Url.writeQuery payParams
  simp only [List.map_cons, List.map_nil, Url.Param.written_plain, written_encodedParam]
  simp only [String.toList_append, List.append_assoc]
  simp

/-- A wallet reads in the URL the recipient, the amount, the mint, the reference, the label and the
memo that were given, and no other parameter.  In an optimised build this includes the least
amount, for which `abs` overflows. -/
theorem buildSolanaPayUrl_read (htreasury : IsBase58 treasuryAta) (hmint : IsBase58 mint)
    (hreference : IsBase58 reference) (amountUnits : Int64) (label memo : String) :
    readPayUrl (buildSolanaPayUrl treasuryAta amountUnits mint reference label memo) =
      some {
        recipient := treasuryAta.toList
        params :=
          [("amount", formatAmount6dp amountUnits), ("spl-token", mint), ("reference", reference),
            ("label", label), ("memo", memo)] } := by
  have hpath : '?' ∉ ("solana:" ++ treasuryAta).toList := by
    have hmem : '?' ∉ treasuryAta.toList := fun hmem => by cases htreasury.isPlain '?' hmem
    simpa using hmem
  have hparams : payParams hmint hreference amountUnits label memo ≠ [] := List.cons_ne_nil _ _
  have hquery := Url.readQuery_writeQuery hpath hparams
  rw [readPayUrl, toList_buildSolanaPayUrl hmint hreference, hquery]
  simp [payParams, Url.Param.read_plain, read_encodedParam, List.isPrefixOf?]

/-- A label with separators and a memo that is not ASCII. -/
theorem buildSolanaPayUrl_read_separators :
    readPayUrl (buildSolanaPayUrl "PactumUsdcAta" 1990000 "Mint" "Reference" "a&amount=0" "€?%26") =
      some {
        recipient := "PactumUsdcAta".toList
        params :=
          [("amount", formatAmount6dp 1990000), ("spl-token", "Mint"), ("reference", "Reference"),
            ("label", "a&amount=0"), ("memo", "€?%26")] } :=
  buildSolanaPayUrl_read (by decide) (by decide) (by decide) 1990000 "a&amount=0" "€?%26"

end PayUrl

end PactumCodex
