import Mathlib.Data.List.Infix
import Mathlib.Data.List.TakeWhile
import PactumCodex.Lib.Hex

/-!
# Reading URLs

How texts of URLs are taken apart: splitting at separators, percent-decoding, and
queries.  A percent sign that no two digits follow stands for itself.  What a URL
with an authority consists of is in `Lib/Authority`.

* `splitFirst` and `splitLast` split at the first or the last separator, and come with
  what they give for a text that is put together from pieces.
* `percentDecode` gives bytes, and `percentDecode_eq_utf8_iff` says which texts stand for
  themselves: those in which nothing is escaped, since every escape makes the decoded
  text shorter.
* `readQuery` splits a URL at `?`, `&` and the first `=` of each parameter, and decodes
  the values.  A `Param` is a parameter as it is written, without separators, together
  with the text that its value stands for; a query that was written from such
  parameters is read back, whatever encoder was used (`readQuery_writeQuery`).
-/

namespace Url

/-! ## Splitting -/

/-- What is before and after the first separator. -/
def splitFirst (sep : Char) (text : List Char) : Option (List Char × List Char) :=
  match text.dropWhile (· ≠ sep) with
  | [] => none
  | _ :: rest => some (text.takeWhile (· ≠ sep), rest)

/-- What is before and after the last separator. -/
def splitLast (sep : Char) (text : List Char) : Option (List Char × List Char) :=
  (splitFirst sep text.reverse).map fun (last, first) => (first.reverse, last.reverse)

section Splitting

variable {sep : Char} {text first rest : List Char}

theorem splitFirst_append (h : sep ∉ first) :
    splitFirst sep (first ++ sep :: rest) = some (first, rest) := by
  have hfirst : ∀ c ∈ first, decide (c ≠ sep) = true := fun c hc =>
    decide_eq_true fun heq => h (heq ▸ hc)
  have hdrop : (first ++ sep :: rest).dropWhile (· ≠ sep) = sep :: rest := by
    rw [List.dropWhile_append_of_pos hfirst, List.dropWhile_cons_of_neg (by simp)]
  have htake : (first ++ sep :: rest).takeWhile (· ≠ sep) = first := by
    rw [List.takeWhile_append_of_pos hfirst, List.takeWhile_cons_of_neg (by simp), List.append_nil]
  rw [splitFirst, hdrop, htake]

theorem splitFirst_eq_none : splitFirst sep text = none ↔ sep ∉ text := by
  constructor
  · intro hnone hmem
    obtain ⟨first, rest, rfl, hfirst⟩ := List.eq_append_cons_of_mem hmem
    rw [splitFirst_append hfirst] at hnone
    cases hnone
  · intro hmem
    have hdrop : text.dropWhile (· ≠ sep) = [] :=
      List.dropWhile_eq_nil_iff.mpr fun c hc => decide_eq_true fun heq => hmem (heq ▸ hc)
    rw [splitFirst, hdrop]

theorem splitFirst_eq_some : splitFirst sep text = some (first, rest) ↔
    text = first ++ sep :: rest ∧ sep ∉ first := by
  constructor
  · intro hsome
    have hmem : sep ∈ text := by
      by_contra hmem
      rw [splitFirst_eq_none.mpr hmem] at hsome
      cases hsome
    obtain ⟨first', rest', rfl, hfirst⟩ := List.eq_append_cons_of_mem hmem
    rw [splitFirst_append hfirst] at hsome
    obtain ⟨rfl, rfl⟩ := Prod.mk.inj (Option.some.inj hsome)
    exact ⟨rfl, hfirst⟩
  · rintro ⟨rfl, hfirst⟩
    exact splitFirst_append hfirst

theorem splitLast_eq_none : splitLast sep text = none ↔ sep ∉ text := by
  rw [splitLast, Option.map_eq_none_iff, splitFirst_eq_none, List.mem_reverse]

theorem splitLast_eq_some : splitLast sep text = some (first, rest) ↔
    text = first ++ sep :: rest ∧ sep ∉ rest := by
  constructor
  · intro hsome
    obtain ⟨⟨last, front⟩, hsplit, heq⟩ := Option.map_eq_some_iff.mp hsome
    obtain ⟨rfl, rfl⟩ := Prod.mk.inj heq
    obtain ⟨htext, hlast⟩ := splitFirst_eq_some.mp hsplit
    refine ⟨?_, by simpa using hlast⟩
    rw [← List.reverse_reverse text, htext]
    simp
  · rintro ⟨rfl, hrest⟩
    have hreverse : (first ++ sep :: rest).reverse = rest.reverse ++ sep :: first.reverse := by simp
    rw [splitLast, hreverse, splitFirst_append (by simpa using hrest)]
    simp

end Splitting

/-! ## Percent-decoding -/

/-- The bytes of a text. -/
def utf8 (text : List Char) : List UInt8 := text.flatMap String.utf8EncodeChar

/-- The byte that three characters escape. -/
def escaped (c high low : Char) : Option UInt8 :=
  if c = '%' then do
    let h ← Hex.digitVal high
    let l ← Hex.digitVal low
    return UInt8.ofNat (h * 16 + l)
  else none

/-- The bytes that a percent-encoded text stands for. -/
def percentDecode : List Char → List UInt8
  | [] => []
  | [c] => String.utf8EncodeChar c
  | [c, d] => String.utf8EncodeChar c ++ String.utf8EncodeChar d
  | c :: high :: low :: rest =>
      match escaped c high low with
      | some byte => byte :: percentDecode rest
      | none => String.utf8EncodeChar c ++ percentDecode (high :: low :: rest)

/-- The text that a percent-encoded text stands for. -/
def decodeText (text : List Char) : Option String :=
  String.fromUTF8? (percentDecode text).toByteArray

/-- Some part of the text escapes a byte. -/
def hasEscape : List Char → Bool
  | c :: high :: low :: rest =>
      (escaped c high low).isSome || hasEscape (high :: low :: rest)
  | _ => false

section Decoding

variable {c high low : Char} {text rest : List Char} {byte : UInt8}

theorem percentDecode_cons (h : c ≠ '%') :
    percentDecode (c :: rest) = String.utf8EncodeChar c ++ percentDecode rest := by
  match rest with
  | [] => simp [percentDecode]
  | [_] => rfl
  | _ :: _ :: _ => simp [percentDecode, escaped, h]

theorem percentDecode_escaped (h : escaped c high low = some byte) :
    percentDecode (c :: high :: low :: rest) = byte :: percentDecode rest := by
  rw [percentDecode, h]

theorem percentDecode_of_hasEscape_false (h : hasEscape text = false) :
    percentDecode text = utf8 text := by
  induction text using percentDecode.induct with
  | case1 => rfl
  | case2 c => simp [percentDecode, utf8]
  | case3 c d => simp [percentDecode, utf8]
  | case4 c high low rest byte hbyte ih => simp [hasEscape, hbyte] at h
  | case5 c high low rest hnone ih =>
      rw [hasEscape, hnone, Option.isSome_none, Bool.false_or] at h
      rw [percentDecode, hnone, ih h]
      rfl

theorem length_utf8EncodeChar_pos (c : Char) : 0 < (String.utf8EncodeChar c).length := by
  rw [String.length_utf8EncodeChar]
  exact c.utf8Size_pos

/-- Decoding does not add bytes. -/
theorem length_percentDecode_le (text : List Char) :
    (percentDecode text).length ≤ (utf8 text).length := by
  induction text using percentDecode.induct with
  | case1 => exact le_rfl
  | case2 c => simp [percentDecode, utf8]
  | case3 c d => simp [percentDecode, utf8]
  | case4 c high low rest byte hbyte ih =>
      have hpos := length_utf8EncodeChar_pos c
      rw [percentDecode_escaped hbyte]
      simp only [utf8, List.flatMap_cons, List.length_append, List.length_cons] at ih ⊢
      omega
  | case5 c high low rest hnone ih =>
      rw [percentDecode, hnone]
      simp only [utf8, List.flatMap_cons, List.length_append] at ih ⊢
      omega

/-- Every escape makes the text shorter. -/
theorem length_percentDecode_lt (h : hasEscape text = true) :
    (percentDecode text).length < (utf8 text).length := by
  induction text using percentDecode.induct with
  | case1 => cases h
  | case2 c => cases h
  | case3 c d => cases h
  | case4 c high low rest byte hbyte ih =>
      have hle := length_percentDecode_le rest
      have hposc := length_utf8EncodeChar_pos c
      have hposh := length_utf8EncodeChar_pos high
      rw [percentDecode_escaped hbyte]
      simp only [utf8, List.flatMap_cons, List.length_append, List.length_cons] at hle ⊢
      omega
  | case5 c high low rest hnone ih =>
      rw [hasEscape, hnone, Option.isSome_none, Bool.false_or] at h
      have hlt := ih h
      rw [percentDecode, hnone]
      simp only [utf8, List.flatMap_cons, List.length_append] at hlt ⊢
      omega

/-- A text is decoded to itself if and only if nothing in it is escaped. -/
theorem percentDecode_eq_utf8_iff : percentDecode text = utf8 text ↔ hasEscape text = false := by
  constructor
  · intro heq
    by_contra hescape
    have hlt := length_percentDecode_lt (Bool.eq_true_of_not_eq_false hescape)
    rw [heq] at hlt
    exact lt_irrefl _ hlt
  · exact percentDecode_of_hasEscape_false

/-- An encoder whose escapes each read back as their byte is inverted by decoding. -/
theorem percentDecode_flatMap {encode : UInt8 → List Char}
    (h : ∀ byte rest, percentDecode (encode byte ++ rest) = byte :: percentDecode rest)
    (bytes : List UInt8) : percentDecode (bytes.flatMap encode) = bytes := by
  induction bytes with
  | nil => rfl
  | cons byte bytes ih => rw [List.flatMap_cons, h, ih]

theorem hasEscape_of_not_mem (h : '%' ∉ text) : hasEscape text = false := by
  induction text using percentDecode.induct with
  | case1 => rfl
  | case2 c => rfl
  | case3 c d => rfl
  | case4 c high low rest byte hbyte ih =>
      have hne : c ≠ '%' := fun heq => h (heq ▸ List.mem_cons_self)
      simp [escaped, hne] at hbyte
  | case5 c high low rest hnone ih =>
      rw [hasEscape, hnone, Option.isSome_none, Bool.false_or]
      exact ih fun hmem => h (List.mem_cons_of_mem _ hmem)

theorem length_utf8 (text : String) : (utf8 text.toList).length = text.utf8ByteSize := by
  have hbytes : text.toByteArray = (utf8 text.toList).toByteArray := by
    conv_lhs => rw [← String.ofList_toList (s := text)]
    rfl
  rw [← String.size_toByteArray, hbytes, List.size_toByteArray]

theorem decodeText_eq_some (h : percentDecode text = utf8 rest) :
    decodeText text = some (String.ofList rest) := by
  have hbytes : (percentDecode text).toByteArray = (String.ofList rest).toByteArray := by
    rw [h]
    rfl
  rw [decodeText, hbytes, String.fromUTF8?, dif_pos (String.ofList rest).isValidUTF8]
  rfl

end Decoding

/-! ## Queries -/

/-- The characters that a query is split at. -/
def isSeparator (c : Char) : Bool := c = '?' || c = '&' || c = '='

/-- The characters that stand for themselves in a query. -/
def isPlain (c : Char) : Bool := !isSeparator c && c ≠ '%'

theorem isSeparator_of_isPlain {c : Char} (h : isPlain c = true) : isSeparator c = false := by
  rw [isPlain, Bool.and_eq_true, Bool.not_eq_true'] at h
  exact h.1

theorem isSeparator_of_plain {text : List Char} (h : ∀ c ∈ text, isPlain c = true) :
    ∀ c ∈ text, isSeparator c = false := by
  intro c hc
  exact isSeparator_of_isPlain (h c hc)

theorem isPlain_of_isAlphanum {c : Char} (h : c.isAlphanum = true) : isPlain c = true := by
  by_contra hplain
  have hc : ((c = '?' ∨ c = '&') ∨ c = '=') ∨ c = '%' := by
    simpa [isPlain, isSeparator, -not_or, or_iff_not_imp_left] using hplain
  rcases hc with ((rfl | rfl) | rfl) | rfl <;> cases h

theorem decodeText_of_isPlain {text : List Char} (h : ∀ c ∈ text, isPlain c = true) :
    decodeText text = some (String.ofList text) := by
  have hpercent : '%' ∉ text := fun hmem => by cases h '%' hmem
  exact decodeText_eq_some (percentDecode_of_hasEscape_false (hasEscape_of_not_mem hpercent))

/-- The name and the value of a parameter. -/
def readParam (param : List Char) : Option (String × String) := do
  let (name, value) ← splitFirst '=' param
  let text ← decodeText value
  return (String.ofList name, text)

/-- The path of a URL and the parameters of its query, in order. -/
def readQuery (url : List Char) : Option (String × List (String × String)) :=
  match url.splitOn '?' with
  | [path, query] => do
      let params ← (query.splitOn '&').mapM readParam
      return (String.ofList path, params)
  | _ => none

/-- A parameter as it is written, with the text that its value stands for. -/
structure Param where
  name : List Char
  value : List Char
  text : String
  name_plain : ∀ c ∈ name, isSeparator c = false
  value_plain : ∀ c ∈ value, isSeparator c = false
  decode_value : decodeText value = some text

namespace Param

/-- The parameter in a query. -/
def written (param : Param) : List Char := param.name ++ '=' :: param.value

/-- What a reader learns from the parameter. -/
def read (param : Param) : String × String := (String.ofList param.name, param.text)

theorem not_mem_of_plain {text : List Char} (h : ∀ c ∈ text, isSeparator c = false) {sep : Char}
    (hsep : isSeparator sep = true) : sep ∉ text := by
  intro hmem
  rw [h sep hmem] at hsep
  cases hsep

theorem readParam_written (param : Param) : readParam param.written = some param.read := by
  have hname : '=' ∉ param.name := not_mem_of_plain param.name_plain (by decide)
  rw [readParam, written, splitFirst_append hname]
  simp [param.decode_value, read]

theorem not_mem_written (param : Param) {sep : Char} (hsep : isSeparator sep = true)
    (hne : sep ≠ '=') : sep ∉ param.written := by
  simp [written, hne, not_mem_of_plain param.name_plain hsep,
    not_mem_of_plain param.value_plain hsep]

theorem mapM_readParam_written (params : List Param) :
    (params.map written).mapM readParam = some (params.map read) := by
  induction params with
  | nil => rfl
  | cons param params ih => simp [readParam_written, ih]

/-- A parameter whose value is written as it is. -/
def plain (name value : List Char) (hname : ∀ c ∈ name, isPlain c = true)
    (hvalue : ∀ c ∈ value, isPlain c = true) : Param where
  name := name
  value := value
  text := String.ofList value
  name_plain := isSeparator_of_plain hname
  value_plain := isSeparator_of_plain hvalue
  decode_value := decodeText_of_isPlain hvalue

theorem written_plain {name value : List Char} (hname : ∀ c ∈ name, isPlain c = true)
    (hvalue : ∀ c ∈ value, isPlain c = true) :
    (plain name value hname hvalue).written = name ++ '=' :: value :=
  rfl

theorem read_plain {name value : List Char} (hname : ∀ c ∈ name, isPlain c = true)
    (hvalue : ∀ c ∈ value, isPlain c = true) :
    (plain name value hname hvalue).read = (String.ofList name, String.ofList value) :=
  rfl

end Param

/-- A path with a query. -/
def writeQuery (path : List Char) (params : List Param) : List Char :=
  path ++ '?' :: ['&'].intercalate (params.map Param.written)

theorem not_mem_intercalate {sep c : Char} {parts : List (List Char)} (hne : c ≠ sep)
    (h : ∀ part ∈ parts, c ∉ part) : c ∉ [sep].intercalate parts := by
  induction parts with
  | nil => simp [List.intercalate]
  | cons part parts ih =>
      rw [List.forall_mem_cons] at h
      cases parts with
      | nil => simpa [List.intercalate] using h.1
      | cons second parts =>
          have hrest := ih h.2
          simp only [List.intercalate_cons_cons, List.mem_append, List.mem_singleton]
          exact fun hmem => hmem.elim (fun hmem => hmem.elim h.1 hne) hrest

/-- Reading a query that was written gives the path and the parameters back. -/
theorem readQuery_writeQuery {path : List Char} {params : List Param} (hpath : '?' ∉ path)
    (hparams : params ≠ []) :
    readQuery (writeQuery path params) = some (String.ofList path, params.map Param.read) := by
  have hwritten : ∀ part ∈ params.map Param.written, '?' ∉ part ∧ '&' ∉ part := by
    intro part hpart
    obtain ⟨param, -, rfl⟩ := List.mem_map.mp hpart
    exact ⟨param.not_mem_written (by decide) (by decide),
      param.not_mem_written (by decide) (by decide)⟩
  have hquery : '?' ∉ ['&'].intercalate (params.map Param.written) :=
    not_mem_intercalate (by decide) fun part hpart => (hwritten part hpart).1
  have hsplit : (writeQuery path params).splitOn '?' =
      [path, ['&'].intercalate (params.map Param.written)] := by
    rw [writeQuery, List.splitOn_append_cons_self_of_not_mem hpath,
      List.splitOn_eq_singleton hquery]
  have hparts : (['&'].intercalate (params.map Param.written)).splitOn '&' =
      params.map Param.written :=
    List.splitOn_intercalate _ (fun part hpart => (hwritten part hpart).2) (by simpa using hparams)
  simp only [readQuery, hsplit, hparts, Param.mapM_readParam_written]
  rfl

end Url
