import Mathlib.Data.List.Basic
import Mathlib.Data.Nat.Basic
import Mathlib.Tactic.Common
import Mathlib.Tactic.Ring

/-!
# Borsh

The binary format of the `borsh` crate: little-endian integers, byte arrays as
they are, a `u32` length before the elements of a vector or the bytes of a
string, one byte for the tag of an option or of an enumeration, and the fields
of a structure one after the other.

A type with a codec is an instance of `Borsh`, which carries the proof that
reading back what was written gives the value and leaves the input that follows.
Structures get their codec from the tuple of their fields (`Borsh.ofFields`).
`tryFromSlice` is the reader that accepts no input after the value.
-/

namespace Borsh

/-- Reads a value from the front of the input and leaves the rest. -/
abbrev Reader (α : Type) := StateT (List UInt8) Option α

/-- The reader takes exactly these bytes off any input and returns the value. -/
def Reads {α : Type} (reader : Reader α) (bytes : List UInt8) (a : α) : Prop :=
  ∀ rest, reader.run (bytes ++ rest) = some (a, rest)

end Borsh

/-- Types with a borsh codec. -/
class Borsh (α : Type) where
  /-- Fails if a length does not fit its prefix. -/
  serialize : α → Option (List UInt8)
  deserialize : Borsh.Reader α
  reads_serialize : ∀ {a : α} {bytes : List UInt8}, serialize a = some bytes →
    Borsh.Reads deserialize bytes a

namespace Borsh

section Readers

variable {α β : Type}

theorem reads_pure (a : α) : Reads (pure a) [] a := fun _ => rfl

theorem reads_bind {reader : Reader α} {f : α → Reader β} {first second : List UInt8} {a : α}
    {b : β} (hfirst : Reads reader first a) (hsecond : Reads (f a) second b) :
    Reads (reader >>= f) (first ++ second) b := by
  intro rest
  rw [StateT.run_bind, List.append_assoc, hfirst]
  exact hsecond rest

/-- Like `reads_bind`, for a step after the last read. -/
theorem reads_map {reader : Reader α} {f : α → β} {bytes : List UInt8} {a : α}
    (h : Reads reader bytes a) : Reads (f <$> reader) bytes (f a) := by
  intro rest
  rw [StateT.run_map, h rest]
  rfl

/-- Like `reads_bind`, for a check after the last read. -/
theorem reads_check {reader : Reader α} {check : α → Option β} {bytes : List UInt8} {a : α} {b : β}
    (h : Reads reader bytes a) (hcheck : check a = some b) :
    Reads (reader >>= fun a => StateT.lift (check a)) bytes b := by
  intro rest
  rw [StateT.run_bind, h rest]
  show (StateT.lift (check a) : Reader β).run rest = _
  rw [hcheck, StateT.run_lift]
  rfl

/-- Reads a fixed number of bytes. -/
def take (n : ℕ) : Reader (Vector UInt8 n) := fun input =>
  if h : n ≤ input.length then some (⟨(input.take n).toArray, by simpa using h⟩, input.drop n)
  else none

theorem reads_take {n : ℕ} (v : Vector UInt8 n) : Reads (take n) v.toList v := by
  intro rest
  have hlength : n ≤ (v.toList ++ rest).length := by simp
  show (if h : n ≤ (v.toList ++ rest).length then _ else _) = _
  rw [dif_pos hlength]
  have htake : (v.toList ++ rest).take n = v.toList := by simp
  have hdrop : (v.toList ++ rest).drop n = rest := by simp
  simp only [htake, hdrop]
  rfl

/-- Reads a number of values. -/
def readMany (reader : Reader α) : ℕ → Reader (List α)
  | 0 => pure []
  | n + 1 => do
      let a ← reader
      let rest ← readMany reader n
      return a :: rest

end Readers

/-! ## Integers -/

/-- The lowest `width` bytes of a number, least significant first. -/
def littleEndian : (width : ℕ) → (n : ℕ) → List UInt8
  | 0, _ => []
  | width + 1, n => UInt8.ofNat n :: littleEndian width (n / 256)

/-- The number with the given bytes, least significant first. -/
def ofLittleEndian : List UInt8 → ℕ
  | [] => 0
  | byte :: bytes => byte.toNat + 256 * ofLittleEndian bytes

@[simp] theorem length_littleEndian (width n : ℕ) : (littleEndian width n).length = width := by
  induction width generalizing n with
  | zero => rfl
  | succ width ih => simp [littleEndian, ih]

theorem ofLittleEndian_littleEndian (width n : ℕ) :
    ofLittleEndian (littleEndian width n) = n % 256 ^ width := by
  induction width generalizing n with
  | zero => simp [littleEndian, ofLittleEndian, Nat.mod_one]
  | succ width ih =>
      have hbyte : (UInt8.ofNat n).toNat = n % 256 := by simp
      rw [littleEndian, ofLittleEndian, ih, hbyte, Nat.pow_succ, mul_comm (256 ^ width),
        Nat.mod_mul]

/-- Reads an integer of the given width. -/
def readUnsigned (width : ℕ) : Reader ℕ := (fun v => ofLittleEndian v.toList) <$> take width

theorem reads_littleEndian {width n : ℕ} (h : n < 256 ^ width) :
    Reads (readUnsigned width) (littleEndian width n) n := by
  let v : Vector UInt8 width := ⟨(littleEndian width n).toArray, by simp⟩
  have hv : ofLittleEndian v.toList = n := by
    show ofLittleEndian (littleEndian width n).toArray.toList = n
    rw [List.toList_toArray, ofLittleEndian_littleEndian, Nat.mod_eq_of_lt h]
  have hread := reads_map (f := fun v => ofLittleEndian v.toList) (reads_take v)
  rwa [hv] at hread

/-! ## Instances -/

section Instances

variable {α β : Type}

instance {n : ℕ} : Borsh (Vector UInt8 n) where
  serialize v := some v.toList
  deserialize := take n
  reads_serialize := by
    rintro v bytes ⟨⟩
    exact reads_take v

instance : Borsh UInt8 where
  serialize byte := some (littleEndian 1 byte.toNat)
  deserialize := UInt8.ofNat <$> readUnsigned 1
  reads_serialize := by
    rintro byte bytes ⟨⟩
    have hlt : byte.toNat < 256 ^ 1 := byte.toNat_lt
    have hread := reads_map (f := UInt8.ofNat) (reads_littleEndian hlt)
    rwa [UInt8.ofNat_toNat] at hread

instance : Borsh Int64 where
  serialize i := some (littleEndian 8 i.toUInt64.toNat)
  deserialize := (fun n => (UInt64.ofNat n).toInt64) <$> readUnsigned 8
  reads_serialize := by
    rintro i bytes ⟨⟩
    have hlt : i.toUInt64.toNat < 256 ^ 8 := i.toUInt64.toNat_lt
    have hread := reads_map (f := fun n => (UInt64.ofNat n).toInt64) (reads_littleEndian hlt)
    rwa [UInt64.ofNat_toNat, Int64.toInt64_toUInt64] at hread

/-- An enumeration, written as its discriminant. -/
@[reducible] def ofTag (tag : α → UInt8) (ofTag? : UInt8 → Option α)
    (h : ∀ a, ofTag? (tag a) = some a) :
    Borsh α where
  serialize a := serialize (tag a)
  deserialize := do
    let byte : UInt8 ← deserialize
    StateT.lift (ofTag? byte)
  reads_serialize := by
    intro a bytes hserialize
    exact reads_check (reads_serialize hserialize) (h a)

instance [Borsh α] : Borsh (Option α) where
  serialize
    | none => some [0]
    | some a => (serialize a).map (1 :: ·)
  deserialize := do
    let tag : UInt8 ← deserialize
    if tag = 0 then return none
    else if tag = 1 then
      let a ← deserialize
      return some a
    else StateT.lift none
  reads_serialize := by
    intro o bytes hserialize
    cases o with
    | none =>
        obtain rfl : [0] = bytes := Option.some.inj hserialize
        exact fun _ => rfl
    | some a =>
        obtain ⟨content, hcontent, rfl⟩ := Option.map_eq_some_iff.mp hserialize
        exact reads_map (f := some) (reads_serialize hcontent)

instance [Borsh α] [Borsh β] : Borsh (α × β) where
  serialize p := do
    let first ← serialize p.1
    let second ← serialize p.2
    return first ++ second
  deserialize := do
    let a ← deserialize
    let b ← deserialize
    return (a, b)
  reads_serialize := by
    rintro ⟨a, b⟩ bytes hserialize
    obtain ⟨first, hfirst, hserialize⟩ := Option.bind_eq_some_iff.mp hserialize
    obtain ⟨second, hsecond, hbytes⟩ := Option.bind_eq_some_iff.mp hserialize
    obtain rfl : first ++ second = bytes := Option.some.inj hbytes
    exact reads_bind (reads_serialize hfirst) (reads_map (f := (a, ·)) (reads_serialize hsecond))

theorem reads_readMany [Borsh α] {l : List α} {elements : List (List UInt8)}
    (h : l.mapM serialize = some elements) :
    Reads (readMany deserialize l.length) elements.flatten l := by
  induction l generalizing elements with
  | nil =>
      obtain rfl : [] = elements := by simpa using h
      exact reads_pure []
  | cons a l ih =>
      rw [List.mapM_cons] at h
      obtain ⟨first, hfirst, h⟩ := Option.bind_eq_some_iff.mp h
      obtain ⟨rest, hrest, h⟩ := Option.bind_eq_some_iff.mp h
      obtain rfl : first :: rest = elements := Option.some.inj h
      exact reads_bind (reads_serialize hfirst) (reads_map (f := (a :: ·)) (ih hrest))

instance [Borsh α] : Borsh (List α) where
  serialize l := do
    if l.length < 256 ^ 4 then
      let elements ← l.mapM serialize
      return littleEndian 4 l.length ++ elements.flatten
    else none
  deserialize := do
    let length ← readUnsigned 4
    readMany deserialize length
  reads_serialize := by
    intro l bytes hserialize
    obtain ⟨hlength, hserialize⟩ := Option.ite_none_right_eq_some.mp hserialize
    obtain ⟨elements, helements, hbytes⟩ := Option.bind_eq_some_iff.mp hserialize
    obtain rfl : littleEndian 4 l.length ++ elements.flatten = bytes := Option.some.inj hbytes
    exact reads_bind (reads_littleEndian hlength) (reads_readMany helements)

instance : Borsh String where
  serialize text :=
    if text.utf8ByteSize < 256 ^ 4 then
      some (littleEndian 4 text.utf8ByteSize ++ text.toUTF8.data.toList)
    else none
  deserialize := do
    let length ← readUnsigned 4
    let bytes ← take length
    StateT.lift (String.fromUTF8? ⟨bytes.toArray⟩)
  reads_serialize := by
    intro text bytes hserialize
    obtain ⟨hlength, hbytes⟩ := Option.ite_none_right_eq_some.mp hserialize
    obtain rfl : littleEndian 4 text.utf8ByteSize ++ text.toUTF8.data.toList = bytes :=
      Option.some.inj hbytes
    refine reads_bind (reads_littleEndian hlength) ?_
    have htext : String.fromUTF8? text.toByteArray = some text := dif_pos text.isValidUTF8
    exact reads_check (reads_take ⟨text.toUTF8.data, rfl⟩) htext

/-- A structure, written as the tuple of its fields. -/
@[reducible] def ofFields [Borsh β] (fields : α → β) (ofFields : β → α)
    (h : ∀ a, ofFields (fields a) = a) :
    Borsh α where
  serialize a := serialize (fields a)
  deserialize := ofFields <$> deserialize
  reads_serialize := by
    intro a bytes hserialize
    have hread := reads_map (f := ofFields) (reads_serialize hserialize)
    rwa [h] at hread

end Instances

/-! ## Whole inputs -/

section Slices

variable {α : Type} [Borsh α]

/-- `try_from_slice`: the input must end with the value. -/
def tryFromSlice (input : List UInt8) : Option α :=
  match (deserialize : Reader α).run input with
  | some (a, []) => some a
  | _ => none

/-- What was written is read back exactly if nothing follows it. -/
theorem tryFromSlice_append {a : α} {bytes : List UInt8} (h : serialize a = some bytes)
    (rest : List UInt8) : tryFromSlice (bytes ++ rest) = if rest = [] then some a else none := by
  rw [tryFromSlice, reads_serialize h rest]
  cases rest with
  | nil => rfl
  | cons byte rest => simp

end Slices

/-! ## Lengths -/

section Lengths

variable {α β : Type}

/-- The encoding of the value has at most this length. -/
def Fits [Borsh α] (a : α) (n : ℕ) : Prop :=
  ∀ bytes, serialize a = some bytes → bytes.length ≤ n

theorem fits_vector {n : ℕ} (v : Vector UInt8 n) : Fits v n := by
  rintro bytes ⟨⟩
  simp

theorem fits_uint8 (byte : UInt8) : Fits byte 1 := by
  rintro bytes ⟨⟩
  simp

theorem fits_int64 (i : Int64) : Fits i 8 := by
  rintro bytes ⟨⟩
  simp

theorem fits_option [Borsh α] {o : Option α} {n : ℕ} (h : ∀ a ∈ o, Fits a n) :
    Fits o (n + 1) := by
  intro bytes hserialize
  cases o with
  | none =>
      obtain rfl : [0] = bytes := Option.some.inj hserialize
      simp
  | some a =>
      obtain ⟨content, hcontent, rfl⟩ := Option.map_eq_some_iff.mp hserialize
      simpa using h a rfl content hcontent

theorem serialize_prod [Borsh α] [Borsh β] {a : α} {b : β} {bytes : List UInt8} :
    serialize (a, b) = some bytes ↔ ∃ first second,
      serialize a = some first ∧ serialize b = some second ∧ bytes = first ++ second := by
  constructor
  · intro h
    obtain ⟨first, hfirst, h⟩ := Option.bind_eq_some_iff.mp h
    obtain ⟨second, hsecond, hbytes⟩ := Option.bind_eq_some_iff.mp h
    exact ⟨first, second, hfirst, hsecond, (Option.some.inj hbytes).symm⟩
  · rintro ⟨first, second, hfirst, hsecond, rfl⟩
    show (do let first ← serialize a; let second ← serialize b; return first ++ second) = _
    rw [hfirst, hsecond]
    rfl

theorem fits_prod [Borsh α] [Borsh β] {a : α} {b : β} {m n : ℕ} (ha : Fits a m) (hb : Fits b n) :
    Fits (a, b) (m + n) := by
  intro bytes hserialize
  obtain ⟨first, second, hfirst, hsecond, rfl⟩ := serialize_prod.mp hserialize
  rw [List.length_append]
  exact Nat.add_le_add (ha first hfirst) (hb second hsecond)

theorem length_flatten_le [Borsh α] {l : List α} {elements : List (List UInt8)} {n : ℕ}
    (h : ∀ a ∈ l, Fits a n) (helements : l.mapM serialize = some elements) :
    elements.flatten.length ≤ l.length * n := by
  induction l generalizing elements with
  | nil =>
      obtain rfl : [] = elements := by simpa using helements
      simp
  | cons a l ih =>
      rw [List.mapM_cons] at helements
      obtain ⟨first, hfirst, helements⟩ := Option.bind_eq_some_iff.mp helements
      obtain ⟨rest, hrest, helements⟩ := Option.bind_eq_some_iff.mp helements
      obtain rfl : first :: rest = elements := Option.some.inj helements
      rw [List.forall_mem_cons] at h
      have hhead := h.1 first hfirst
      have htail := ih h.2 hrest
      rw [List.flatten_cons, List.length_append, List.length_cons, Nat.succ_mul]
      omega

/-- A vector of at most `k` elements of at most `n` bytes. -/
theorem fits_list [Borsh α] {l : List α} {k n : ℕ} (hlength : l.length ≤ k)
    (h : ∀ a ∈ l, Fits a n) : Fits l (4 + k * n) := by
  intro bytes hserialize
  obtain ⟨-, hserialize⟩ := Option.ite_none_right_eq_some.mp hserialize
  obtain ⟨elements, helements, hbytes⟩ := Option.bind_eq_some_iff.mp hserialize
  obtain rfl : littleEndian 4 l.length ++ elements.flatten = bytes := Option.some.inj hbytes
  have hflatten := length_flatten_le h helements
  have hmul : l.length * n ≤ k * n := Nat.mul_le_mul_right n hlength
  rw [List.length_append, length_littleEndian]
  omega

theorem fits_string {text : String} {k : ℕ} (hlength : text.utf8ByteSize ≤ k) :
    Fits text (4 + k) := by
  intro bytes hserialize
  obtain ⟨-, hbytes⟩ := Option.ite_none_right_eq_some.mp hserialize
  obtain rfl : littleEndian 4 text.utf8ByteSize ++ text.toUTF8.data.toList = bytes :=
    Option.some.inj hbytes
  have hsize : text.toUTF8.data.toList.length = text.utf8ByteSize := rfl
  rw [List.length_append, length_littleEndian, hsize]
  omega

end Lengths

end Borsh
