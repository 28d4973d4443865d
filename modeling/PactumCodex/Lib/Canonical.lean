import PactumCodex.Lib.Borsh

/-!
# Canonical encodings

`Borsh` says that what is written is read back.  Here is the other direction: a
reader that accepts nothing but what the writer writes, so that a value has one
encoding and every input that is accepted is the encoding of what was read from
it.  `Encodable` are the values that have an encoding: those whose lengths fit
their prefixes.
-/

namespace Borsh

/-- The reader takes off the input exactly what is written for the value it returns. -/
def ReadsBack {α : Type} (reader : Reader α) (write : α → Option (List UInt8)) : Prop :=
  ∀ {input rest : List UInt8} {a : α}, reader.run input = some (a, rest) →
    ∃ bytes, write a = some bytes ∧ input = bytes ++ rest

/-- Types whose reader accepts only what is written. -/
class Canonical (α : Type) [Borsh α] : Prop where
  readsBack : ReadsBack (deserialize : Reader α) serialize

section Readers

variable {α β : Type} {input rest : List UInt8}

theorem run_bind_eq_some {reader : Reader α} {f : α → Reader β} {b : β} :
    (reader >>= f).run input = some (b, rest) ↔
      ∃ a mid, reader.run input = some (a, mid) ∧ (f a).run mid = some (b, rest) := by
  rw [StateT.run_bind, Option.bind_eq_bind, Option.bind_eq_some_iff, Prod.exists]

theorem run_map_eq_some {reader : Reader α} {f : α → β} {b : β} :
    (f <$> reader).run input = some (b, rest) ↔
      ∃ a, reader.run input = some (a, rest) ∧ f a = b := by
  rw [StateT.run_map, Option.map_eq_map, Option.map_eq_some_iff, Prod.exists]
  constructor
  · rintro ⟨a, mid, hrun, heq⟩
    obtain ⟨rfl, rfl⟩ := Prod.mk.inj heq
    exact ⟨a, hrun, rfl⟩
  · rintro ⟨a, hrun, rfl⟩
    exact ⟨a, rest, hrun, rfl⟩

theorem run_lift_eq_some {check : Option β} {b : β} :
    (StateT.lift check : Reader β).run input = some (b, rest) ↔ check = some b ∧ input = rest := by
  rw [StateT.run_lift, Option.bind_eq_bind, Option.bind_eq_some_iff]
  constructor
  · rintro ⟨a, hcheck, heq⟩
    obtain ⟨rfl, rfl⟩ := Prod.mk.inj (Option.some.inj heq)
    exact ⟨hcheck, rfl⟩
  · rintro ⟨hcheck, rfl⟩
    exact ⟨b, hcheck, rfl⟩

theorem run_pure_eq_some {a b : α} :
    (pure a : Reader α).run input = some (b, rest) ↔ a = b ∧ input = rest := by
  rw [StateT.run_pure, Option.pure_def, Option.some.injEq, Prod.mk.injEq]

theorem run_take_eq_some {n : ℕ} {v : Vector UInt8 n}
    (h : (take n).run input = some (v, rest)) : input = v.toList ++ rest := by
  change (if h : n ≤ input.length then _ else _) = _ at h
  split at h
  · obtain ⟨rfl, rfl⟩ := Prod.mk.inj (Option.some.inj h)
    exact (List.take_append_drop n input).symm
  · cases h

end Readers

/-! ## Integers -/

theorem littleEndian_ofLittleEndian (bytes : List UInt8) :
    littleEndian bytes.length (ofLittleEndian bytes) = bytes := by
  induction bytes with
  | nil => rfl
  | cons byte bytes ih =>
      have hbyte : byte.toNat < 256 := byte.toNat_lt
      have hhead : UInt8.ofNat (byte.toNat + 256 * ofLittleEndian bytes) = byte := by
        apply UInt8.toNat.inj
        rw [UInt8.toNat_ofNat']
        omega
      have htail : (byte.toNat + 256 * ofLittleEndian bytes) / 256 = ofLittleEndian bytes := by
        omega
      rw [List.length_cons, ofLittleEndian, littleEndian, hhead, htail, ih]

theorem ofLittleEndian_lt (bytes : List UInt8) :
    ofLittleEndian bytes < 256 ^ bytes.length := by
  calc ofLittleEndian bytes
      = ofLittleEndian (littleEndian bytes.length (ofLittleEndian bytes)) := by
        rw [littleEndian_ofLittleEndian]
    _ = ofLittleEndian bytes % 256 ^ bytes.length := ofLittleEndian_littleEndian _ _
    _ < 256 ^ bytes.length := Nat.mod_lt _ (Nat.pow_pos (by decide))

theorem run_readUnsigned_eq_some {width n : ℕ} {input rest : List UInt8}
    (h : (readUnsigned width).run input = some (n, rest)) :
    n < 256 ^ width ∧ input = littleEndian width n ++ rest := by
  obtain ⟨v, hrun, rfl⟩ := run_map_eq_some.mp h
  have hlength : v.toList.length = width := v.length_toList
  have hlt := ofLittleEndian_lt v.toList
  have hbytes := littleEndian_ofLittleEndian v.toList
  rw [hlength] at hlt hbytes
  exact ⟨hlt, by rw [hbytes]; exact run_take_eq_some hrun⟩

/-! ## Instances -/

section Instances

variable {α β : Type}

instance {n : ℕ} : Canonical (Vector UInt8 n) where
  readsBack h := ⟨_, rfl, run_take_eq_some h⟩

instance : Canonical UInt8 where
  readsBack h := by
    obtain ⟨n, hrun, rfl⟩ := run_map_eq_some.mp h
    obtain ⟨hlt, rfl⟩ := run_readUnsigned_eq_some hrun
    have hn : (UInt8.ofNat n).toNat = n := UInt8.toNat_ofNat_of_lt' hlt
    exact ⟨littleEndian 1 n, congrArg (fun n => some (littleEndian 1 n)) hn, rfl⟩

instance : Canonical Int64 where
  readsBack h := by
    obtain ⟨n, hrun, rfl⟩ := run_map_eq_some.mp h
    obtain ⟨hlt, rfl⟩ := run_readUnsigned_eq_some hrun
    have hn : (UInt64.ofNat n).toInt64.toUInt64.toNat = n := by
      rw [UInt64.toUInt64_toInt64]
      exact UInt64.toNat_ofNat_of_lt' hlt
    exact ⟨littleEndian 8 n, congrArg (fun n => some (littleEndian 8 n)) hn, rfl⟩

/-- An enumeration, if a discriminant is read only as the value that has it. -/
theorem canonical_ofTag {tag : α → UInt8} {ofTag? : UInt8 → Option α}
    (h : ∀ a, ofTag? (tag a) = some a) (hback : ∀ {byte a}, ofTag? byte = some a → tag a = byte) :
    @Canonical α (ofTag tag ofTag? h) :=
  @Canonical.mk α (ofTag tag ofTag? h) fun hread => by
    obtain ⟨byte, mid, hrun, hcheck⟩ := run_bind_eq_some.mp hread
    obtain ⟨htag, rfl⟩ := run_lift_eq_some.mp hcheck
    obtain ⟨bytes, hbytes, rfl⟩ := Canonical.readsBack hrun
    rw [← hback htag] at hbytes
    exact ⟨bytes, hbytes, rfl⟩

instance [Borsh α] [Canonical α] : Canonical (Option α) where
  readsBack hoption := by
    obtain ⟨tag, mid, hrun, hread⟩ := run_bind_eq_some.mp hoption
    obtain ⟨bytes, hbytes, rfl⟩ := Canonical.readsBack hrun
    split at hread
    · next htag =>
      subst htag
      obtain ⟨rfl, rfl⟩ := run_pure_eq_some.mp hread
      exact ⟨bytes, hbytes, rfl⟩
    · split at hread
      · next htag =>
        subst htag
        obtain ⟨a, hcontent, rfl⟩ := run_map_eq_some.mp hread
        obtain ⟨content, hwritten, rfl⟩ := Canonical.readsBack hcontent
        obtain rfl : [1] = bytes := Option.some.inj hbytes
        exact ⟨1 :: content, congrArg (Option.map (1 :: ·)) hwritten, rfl⟩
      · obtain ⟨hnone, -⟩ := run_lift_eq_some.mp hread
        cases hnone

instance [Borsh α] [Borsh β] [Canonical α] [Canonical β] : Canonical (α × β) where
  readsBack hpair := by
    obtain ⟨a, mid, hleft, hread⟩ := run_bind_eq_some.mp hpair
    obtain ⟨b, hright, rfl⟩ := run_map_eq_some.mp hread
    obtain ⟨second, hsecond, rfl⟩ := Canonical.readsBack hright
    obtain ⟨first, hfirst, rfl⟩ := Canonical.readsBack hleft
    exact ⟨first ++ second, serialize_prod.mpr ⟨first, second, hfirst, hsecond, rfl⟩,
      (List.append_assoc ..).symm⟩

theorem run_readMany_eq_some [Borsh α] [Canonical α] {n : ℕ} {l : List α} {input rest : List UInt8}
    (h : (readMany deserialize n).run input = some (l, rest)) :
    l.length = n ∧ ∃ elements, l.mapM serialize = some elements ∧
      input = elements.flatten ++ rest := by
  induction n generalizing l input with
  | zero =>
      obtain ⟨rfl, rfl⟩ := run_pure_eq_some.mp h
      exact ⟨rfl, [], rfl, rfl⟩
  | succ n ih =>
      obtain ⟨a, mid, hfirst, h⟩ := run_bind_eq_some.mp h
      obtain ⟨tail, htail, rfl⟩ := run_map_eq_some.mp h
      obtain ⟨bytes, hbytes, rfl⟩ := Canonical.readsBack hfirst
      obtain ⟨hlength, elements, helements, rfl⟩ := ih htail
      refine ⟨congrArg (· + 1) hlength, bytes :: elements, ?_, ?_⟩
      · rw [List.mapM_cons, hbytes, helements]
        rfl
      · rw [List.flatten_cons, List.append_assoc]

theorem serialize_list [Borsh α] {l : List α} {elements : List (List UInt8)}
    (hlength : l.length < 256 ^ 4) (helements : l.mapM serialize = some elements) :
    serialize l = some (littleEndian 4 l.length ++ elements.flatten) := by
  show (if l.length < 256 ^ 4 then _ else _) = _
  rw [if_pos hlength, helements]
  rfl

instance [Borsh α] [Canonical α] : Canonical (List α) where
  readsBack hlist := by
    obtain ⟨n, mid, hlength, hread⟩ := run_bind_eq_some.mp hlist
    obtain ⟨hlt, rfl⟩ := run_readUnsigned_eq_some hlength
    obtain ⟨rfl, elements, helements, rfl⟩ := run_readMany_eq_some hread
    exact ⟨_, serialize_list hlt helements, (List.append_assoc ..).symm⟩

theorem serialize_string {text : String} (hlength : text.utf8ByteSize < 256 ^ 4) :
    serialize text = some (littleEndian 4 text.utf8ByteSize ++ text.toUTF8.data.toList) :=
  if_pos hlength

instance : Canonical String where
  readsBack hstring := by
    obtain ⟨n, mid, hlength, hread⟩ := run_bind_eq_some.mp hstring
    obtain ⟨hlt, rfl⟩ := run_readUnsigned_eq_some hlength
    obtain ⟨v, last, hbytes, hcheck⟩ := run_bind_eq_some.mp hread
    obtain ⟨htext, rfl⟩ := run_lift_eq_some.mp hcheck
    obtain rfl := run_take_eq_some hbytes
    obtain ⟨hvalid, htext⟩ := Option.dite_none_right_eq_some.mp htext
    obtain rfl := Option.some.inj htext
    -- the text is made of the bytes that were read, so its size is the length that was read
    have hsize : (String.fromUTF8 ⟨v.toArray⟩ hvalid).utf8ByteSize = n := v.size_toArray
    rw [← hsize] at hlt
    have hwritten := serialize_string hlt
    rw [hsize] at hwritten
    exact ⟨_, hwritten, (List.append_assoc ..).symm⟩

/-- A structure, if its fields are those it was made of. -/
theorem canonical_ofFields [Borsh β] [Canonical β] {fields : α → β} {ofFields : β → α}
    (h : ∀ a, ofFields (fields a) = a) (hback : ∀ b, fields (ofFields b) = b) :
    @Canonical α (Borsh.ofFields fields ofFields h) :=
  @Canonical.mk α (Borsh.ofFields fields ofFields h) fun hread => by
    obtain ⟨b, hrun, rfl⟩ := run_map_eq_some.mp hread
    obtain ⟨bytes, hbytes, rfl⟩ := Canonical.readsBack hrun
    exact ⟨bytes, (congrArg serialize (hback b)).trans hbytes, rfl⟩

end Instances

/-- **Canonical encodings.**  Every input that is accepted is the encoding of what was read. -/
theorem serialize_of_tryFromSlice {α : Type} [Borsh α] [Canonical α] {input : List UInt8} {a : α}
    (h : tryFromSlice input = some a) : serialize a = some input := by
  rw [tryFromSlice] at h
  split at h
  · next b hrun =>
    obtain rfl := Option.some.inj h
    obtain ⟨bytes, hbytes, rfl⟩ := Canonical.readsBack hrun
    rwa [List.append_nil]
  · cases h

/-! ## Values that have an encoding -/

section Encodable

variable {α β : Type}

/-- The value can be written: no length is too long for its prefix. -/
def Encodable [Borsh α] (a : α) : Prop := ∃ bytes, serialize a = some bytes

theorem encodable_vector {n : ℕ} (v : Vector UInt8 n) : Encodable v := ⟨_, rfl⟩

theorem encodable_uint8 (byte : UInt8) : Encodable byte := ⟨_, rfl⟩

theorem encodable_int64 (i : Int64) : Encodable i := ⟨_, rfl⟩

theorem encodable_option [Borsh α] {o : Option α} (h : ∀ a ∈ o, Encodable a) : Encodable o := by
  cases o with
  | none => exact ⟨[0], rfl⟩
  | some a =>
      obtain ⟨content, hcontent⟩ := h a rfl
      exact ⟨1 :: content, congrArg (Option.map (1 :: ·)) hcontent⟩

theorem encodable_prod [Borsh α] [Borsh β] {a : α} {b : β} (ha : Encodable a) (hb : Encodable b) :
    Encodable (a, b) := by
  obtain ⟨first, hfirst⟩ := ha
  obtain ⟨second, hsecond⟩ := hb
  exact ⟨first ++ second, serialize_prod.mpr ⟨first, second, hfirst, hsecond, rfl⟩⟩

theorem encodable_elements [Borsh α] {l : List α} (h : ∀ a ∈ l, Encodable a) :
    ∃ elements : List (List UInt8), l.mapM serialize = some elements := by
  induction l with
  | nil => exact ⟨[], rfl⟩
  | cons a l ih =>
      rw [List.forall_mem_cons] at h
      obtain ⟨bytes, hbytes⟩ := h.1
      obtain ⟨elements, helements⟩ := ih h.2
      refine ⟨bytes :: elements, ?_⟩
      rw [List.mapM_cons, hbytes, helements]
      rfl

theorem encodable_list [Borsh α] {l : List α} (hlength : l.length < 256 ^ 4)
    (h : ∀ a ∈ l, Encodable a) : Encodable l := by
  obtain ⟨elements, helements⟩ := encodable_elements h
  exact ⟨_, serialize_list hlength helements⟩

theorem encodable_string {text : String} (hlength : text.utf8ByteSize < 256 ^ 4) : Encodable text :=
  ⟨_, serialize_string hlength⟩

/-- **Round trip.**  A value that can be written is read back from exactly what is written. -/
theorem Encodable.roundtrip [Borsh α] {a : α} (h : Encodable a) :
    ∃ bytes, serialize a = some bytes ∧ tryFromSlice bytes = some a := by
  obtain ⟨bytes, hbytes⟩ := h
  have hread := tryFromSlice_append hbytes []
  rw [List.append_nil, if_pos rfl] at hread
  exact ⟨bytes, hbytes, hread⟩

end Encodable

end Borsh
