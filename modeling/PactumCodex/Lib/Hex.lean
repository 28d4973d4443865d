import Mathlib.Data.List.Basic
import Mathlib.Data.Nat.Digits.Defs
import Mathlib.Tactic.Common
import Mathlib.Tactic.IntervalCases
import Mathlib.Tactic.Ring

/-!
# Hexadecimal text

Fixed-width hexadecimal numerals and their inverse, and the decoding of a
string of digit pairs into bytes.  Digits are written in lower case and read in
either case.
-/

namespace Hex

/-- The value of a hexadecimal digit. -/
def digitVal (c : Char) : Option ℕ :=
  if '0' ≤ c ∧ c ≤ '9' then some (c.toNat - '0'.toNat)
  else if 'a' ≤ c ∧ c ≤ 'f' then some (c.toNat - 'a'.toNat + 10)
  else if 'A' ≤ c ∧ c ≤ 'F' then some (c.toNat - 'A'.toNat + 10)
  else none

/-- The last `width` digits of `n`, most significant first. -/
def toDigits : (width : ℕ) → (n : ℕ) → List ℕ
  | 0, _ => []
  | width + 1, n => toDigits width (n / 16) ++ [n % 16]

/-- The number with the given digits, most significant first. -/
def ofDigits (digits : List ℕ) : ℕ := digits.foldl (fun acc digit => acc * 16 + digit) 0

/-- The numeral of `n` in `width` digits. -/
def encode (width n : ℕ) : List Char := (toDigits width n).map Nat.digitChar

/-- The number a string of digits stands for. -/
def decode (text : List Char) : Option ℕ := (text.mapM digitVal).map ofDigits

/-- The bytes a string of digit pairs stands for. -/
def decodeBytes : List Char → Option (List UInt8)
  | [] => some []
  | [_] => none
  | high :: low :: rest => do
      let h ← digitVal high
      let l ← digitVal low
      let bytes ← decodeBytes rest
      return UInt8.ofNat (h * 16 + l) :: bytes

/-- The digit pairs of bytes. -/
def encodeBytes (bytes : List UInt8) : List Char := bytes.flatMap fun byte => encode 2 byte.toNat

/-! ## Reading back a numeral -/

theorem length_toDigits (width n : ℕ) : (toDigits width n).length = width := by
  induction width generalizing n with
  | zero => rfl
  | succ width ih => simp [toDigits, ih]

theorem lt_of_mem_toDigits {width n digit : ℕ} (h : digit ∈ toDigits width n) : digit < 16 := by
  induction width generalizing n with
  | zero => simp [toDigits] at h
  | succ width ih =>
      simp only [toDigits, List.mem_append, List.mem_singleton] at h
      rcases h with h | rfl
      · exact ih h
      · exact Nat.mod_lt _ (by omega)

theorem ofDigits_toDigits (width n : ℕ) : ofDigits (toDigits width n) = n % 16 ^ width := by
  induction width generalizing n with
  | zero => simp [toDigits, ofDigits, Nat.mod_one]
  | succ width ih =>
      have hfold : ofDigits (toDigits (width + 1) n) =
          ofDigits (toDigits width (n / 16)) * 16 + n % 16 := by
        simp [toDigits, ofDigits]
      rw [hfold, ih, Nat.pow_succ, mul_comm (16 ^ width) 16, Nat.mod_mul]
      ring

theorem digitVal_digitChar {digit : ℕ} (h : digit < 16) :
    digitVal (Nat.digitChar digit) = some digit := by
  interval_cases digit <;> decide

theorem decode_encode (width n : ℕ) : decode (encode width n) = some (n % 16 ^ width) := by
  have hread : ∀ digits : List ℕ, (∀ digit ∈ digits, digit < 16) →
      (digits.map Nat.digitChar).mapM digitVal = some digits := by
    intro digits hlt
    induction digits with
    | nil => rfl
    | cons digit digits ih =>
        rw [List.forall_mem_cons] at hlt
        simp [digitVal_digitChar hlt.1, ih hlt.2]
  rw [decode, encode, hread _ fun digit => lt_of_mem_toDigits]
  simp [ofDigits_toDigits]

@[simp] theorem length_encode (width n : ℕ) : (encode width n).length = width := by
  simp [encode, length_toDigits]

/-! ## Reading back bytes -/

theorem encode_byte (byte : UInt8) : encode 2 byte.toNat =
    [Nat.digitChar (byte.toNat / 16), Nat.digitChar (byte.toNat % 16)] := by
  have hlt := byte.toNat_lt
  have hhigh : byte.toNat / 16 % 16 = byte.toNat / 16 := Nat.mod_eq_of_lt (by omega)
  simp [encode, toDigits, hhigh]

/-- Two characters with the values of the digits of a byte are decoded to the byte. -/
theorem decodeBytes_cons_cons {high low : Char} {rest : List Char} {bytes : List UInt8}
    {byte : UInt8} (hhigh : digitVal high = some (byte.toNat / 16))
    (hlow : digitVal low = some (byte.toNat % 16)) (hrest : decodeBytes rest = some bytes) :
    decodeBytes (high :: low :: rest) = some (byte :: bytes) := by
  have hbyte : byte.toNat / 16 * 16 + byte.toNat % 16 = byte.toNat := by omega
  simp only [decodeBytes, hhigh, hlow, hrest, Option.bind_eq_bind, Option.bind_some, hbyte,
    UInt8.ofNat_toNat]
  rfl

/-- Bytes are read back from their digits. -/
theorem decodeBytes_encodeBytes (bytes : List UInt8) :
    decodeBytes (encodeBytes bytes) = some bytes := by
  induction bytes with
  | nil => rfl
  | cons byte bytes ih =>
      have hlt := byte.toNat_lt
      rw [encodeBytes, List.flatMap_cons, encode_byte]
      exact decodeBytes_cons_cons (digitVal_digitChar (by omega)) (digitVal_digitChar (by omega)) ih

theorem decodeBytes_cons_cons_eq_some {high low : Char} {rest : List Char} {bytes : List UInt8}
    (h : decodeBytes (high :: low :: rest) = some bytes) :
    (digitVal high).isSome ∧ (digitVal low).isSome ∧
      ∃ tail, decodeBytes rest = some tail ∧ bytes.length = tail.length + 1 := by
  obtain ⟨x, hx, h⟩ := Option.bind_eq_some_iff.mp h
  obtain ⟨y, hy, h⟩ := Option.bind_eq_some_iff.mp h
  obtain ⟨tail, htail, h⟩ := Option.bind_eq_some_iff.mp h
  refine ⟨by rw [hx]; rfl, by rw [hy]; rfl, tail, htail, ?_⟩
  rw [← Option.some.inj h, List.length_cons]

/-- Exactly the texts of pairs of digits are decoded, one byte for each pair. -/
theorem decodeBytes_length_iff {text : List Char} {n : ℕ} :
    (∃ bytes, decodeBytes text = some bytes ∧ bytes.length = n) ↔
      text.length = 2 * n ∧ ∀ c ∈ text, (digitVal c).isSome := by
  -- two characters at a time, as the decoder reads them
  induction text using decodeBytes.induct generalizing n with
  | case1 =>
      simp only [decodeBytes, Option.some.injEq, exists_eq_left', List.length_nil, List.not_mem_nil,
        false_implies, implies_true, and_true]
      omega
  | case2 c =>
      simp only [decodeBytes, reduceCtorEq, false_and, exists_false, List.length_singleton,
        false_iff]
      omega
  | case3 high low rest ih =>
      rw [List.forall_mem_cons, List.forall_mem_cons]
      constructor
      · rintro ⟨bytes, hbytes, rfl⟩
        obtain ⟨hhigh, hlow, tail, htail, hlength⟩ := decodeBytes_cons_cons_eq_some hbytes
        obtain ⟨hrest, hdigits⟩ := ih.mp ⟨tail, htail, rfl⟩
        refine ⟨?_, hhigh, hlow, hdigits⟩
        rw [List.length_cons, List.length_cons, hlength]
        omega
      · rintro ⟨hlength, hhigh, hlow, hdigits⟩
        rw [List.length_cons, List.length_cons] at hlength
        obtain ⟨tail, htail, hn⟩ := (ih (n := n - 1)).mpr ⟨by omega, hdigits⟩
        obtain ⟨x, hx⟩ := Option.isSome_iff_exists.mp hhigh
        obtain ⟨y, hy⟩ := Option.isSome_iff_exists.mp hlow
        refine ⟨UInt8.ofNat (x * 16 + y) :: tail, ?_, ?_⟩
        · rw [decodeBytes, hx, hy, htail]
          rfl
        · rw [List.length_cons, hn]
          omega

end Hex
