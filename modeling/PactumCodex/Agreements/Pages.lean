import PactumCodex.Handlers.AgreementList
import PactumCodex.Replay

/-!
# The pages of the list of agreements

`list_agreements` returns a page of the rows that match the request.  Reading
all pages gives every row once if the rows with the same `created_at` are on
the same page; otherwise the order of these rows is not determined, and a row
can be on two pages, and another one on none.  The offset is a saturated
product, which reaches rows up to the greatest page number.
-/

namespace PactumCodex

open Interaction Relational

/-- The greatest page number that can be requested. -/
def lastPage : ℕ := UInt32.size - 1

/-- The rows a request is about, on whatever page. -/
def matchingRows (parties : Table Party PartiesValid) (auth : AuthUser) (q : ListAgreementsQuery) :
    List Party :=
  match auth.pubkey with
  | none => []
  | some pubkey => selectedRows (parseRole q.role) pubkey (statusFilter q.status) parties.rows

/-- The page size of a request. -/
def ListAgreementsQuery.pageSize (q : ListAgreementsQuery) : ℕ :=
  (clamp (q.limit.getD 20) 1 100).toNat

/-- The same request for another page. -/
def ListAgreementsQuery.forPage (q : ListAgreementsQuery) (page : ℕ) : ListAgreementsQuery :=
  { q with page := some (UInt32.ofNat page) }

/-- The request can be answered by the response. -/
def Lists (parties : Table Party PartiesValid) (auth : AuthUser) (q : ListAgreementsQuery)
    (response : ListAgreementsResponse) : Prop :=
  Reaches performList (listAgreements auth q).run parties fun r _ => r = .ok response

/-- Whatever the responses to the requests for all pages, they contain every matching row once. -/
def ListedOnce (parties : Table Party PartiesValid) (auth : AuthUser) (q : ListAgreementsQuery) :
    Prop :=
  ∀ responses : ℕ → ListAgreementsResponse,
    (∀ i < lastPage, Lists parties auth (q.forPage (i + 1)) (responses (i + 1))) →
    ((List.range lastPage).flatMap fun i => (responses (i + 1)).items).Perm
      ((matchingRows parties auth q).map .ofRow)

/-! ## Requests -/

theorem toNat_saturatingMul (a b : UInt32) :
    (saturatingMul a b).toNat = min (a.toNat * b.toNat) lastPage := by
  rw [saturatingMul, lastPage]
  split
  · rename_i hlt
    rw [UInt32.toNat_mul, Nat.mod_eq_of_lt hlt, Nat.min_eq_left (by omega)]
  · rename_i hge
    rw [Nat.min_eq_right (by omega)]
    rfl

theorem pageSize_pos (q : ListAgreementsQuery) : 0 < q.pageSize := by
  rw [ListAgreementsQuery.pageSize, clamp]
  split
  · decide
  · split
    · decide
    · rename_i hge _
      have := UInt32.not_lt.mp hge
      exact UInt32.le_iff_toNat_le.mp this

theorem max_one {page : UInt32} (h : page.toNat ≠ 0) : max page 1 = page := by
  show (if page ≤ 1 then 1 else page) = page
  split
  · rename_i hle
    have hle' : page.toNat ≤ 1 := UInt32.le_iff_toNat_le.mp hle
    have hone : page.toNat = 1 := by omega
    exact (UInt32.toNat_inj.mp hone).symm
  · rfl

/-- Limit and offset of the query for a page. -/
theorem sanitizePagination_forPage (q : ListAgreementsQuery) {i : ℕ} (hi : i < lastPage) :
    sanitizePagination (q.forPage (i + 1)).page (q.forPage (i + 1)).limit =
      (UInt32.ofNat (i + 1), clamp (q.limit.getD 20) 1 100, (q.pageSize : ℤ),
        ((min (i * q.pageSize) lastPage : ℕ) : ℤ)) := by
  have hto : (UInt32.ofNat (i + 1)).toNat = i + 1 :=
    UInt32.toNat_ofNat_of_lt' (by rw [lastPage] at hi; omega)
  have hmax : max (UInt32.ofNat (i + 1)) 1 = UInt32.ofNat (i + 1) :=
    max_one (by omega)
  simp only [sanitizePagination, ListAgreementsQuery.forPage, Option.getD_some, hmax,
    toNat_saturatingMul, toNat_saturatingSub, hto]
  rfl

/-! ## Responses -/

theorem lists_none {parties : Table Party PartiesValid} {userId : Uuid} {q : ListAgreementsQuery}
    {response : ListAgreementsResponse} (h : Lists parties ⟨userId, none⟩ q response) :
    response.items = [] := by
  obtain ⟨steps, r, parties', hrun, rfl⟩ := h
  obtain ⟨-, heq, -⟩ := hrun
  cases heq
  rfl

/-- A page is a slice of the matching rows. -/
theorem lists_iff {parties : Table Party PartiesValid} {userId : Uuid} {pubkey : String}
    {q : ListAgreementsQuery} {response : ListAgreementsResponse} {i : ℕ} (hi : i < lastPage) :
    Lists parties ⟨userId, some pubkey⟩ (q.forPage (i + 1)) response ↔
      ∃ rows, PageOf Party.createdAt (min (i * q.pageSize) lastPage) q.pageSize
          (matchingRows parties ⟨userId, some pubkey⟩ q) rows ∧
        response = ⟨UInt32.ofNat (i + 1), clamp (q.limit.getD 20) 1 100, rows.map .ofRow⟩ := by
  rw [Lists, listAgreements, sanitizePagination_forPage q hi]
  constructor
  · rintro ⟨steps, r, parties', ⟨answer, parties₁, rest, hperform, -, hrest⟩, rfl⟩
    cases answer with
    | error e => exact absurd hrest.2.1 (by simp)
    | ok rows =>
        obtain ⟨hpage, -⟩ := provided_eq_some.mp hperform
        obtain ⟨-, heq, -⟩ := hrest
        cases heq
        exact ⟨rows, hpage, rfl⟩
  · rintro ⟨rows, hpage, rfl⟩
    exact ⟨_, _, parties, ⟨.ok rows, parties, [], provided_eq_some.mpr ⟨hpage, rfl⟩, rfl,
      rfl, rfl, rfl⟩, rfl⟩

/-! ## All pages -/

theorem text_injective {s t : PartyStatus} (h : s.text = t.text) : s = t := by
  cases s <;> cases t <;> first | rfl | exact absurd h (by decide)

/-- An item shows all columns of its row. -/
theorem ofRow_injective : Function.Injective ListAgreementItem.ofRow := by
  intro row row' h
  obtain ⟨hpda, hcreator, hparty, hstatus, hsigned, hcreated, hexpires, htitle⟩ :=
    ListAgreementItem.mk.inj h
  cases row
  cases row'
  simp only [Party.mk.injEq]
  exact ⟨hparty, hpda, hcreator, text_injective hstatus, hsigned, hcreated, hexpires, htitle⟩

theorem matchingRows_nodup (parties : Table Party PartiesValid) (auth : AuthUser)
    (q : ListAgreementsQuery) : (matchingRows parties auth q).Nodup := by
  rw [matchingRows]
  split
  · exact List.nodup_nil
  · exact (List.Nodup.of_map _ parties.valid).filter _

/-- The responses are complete if the answers of the query are. -/
theorem listedOnce_iff_answers {parties : Table Party PartiesValid} {userId : Uuid}
    {pubkey : String} {q : ListAgreementsQuery} :
    ListedOnce parties ⟨userId, some pubkey⟩ q ↔
      ∀ answers, PagesOf Party.createdAt (matchingRows parties ⟨userId, some pubkey⟩ q) q.pageSize
          lastPage answers →
        ((List.range lastPage).flatMap answers).Perm
          (matchingRows parties ⟨userId, some pubkey⟩ q) := by
  constructor
  · intro h answers hanswers
    have hall := h
      (fun page => ⟨UInt32.ofNat page, clamp (q.limit.getD 20) 1 100,
        (answers (page - 1)).map .ofRow⟩)
      (fun i hi => (lists_iff hi).mpr ⟨_, hanswers i hi, rfl⟩)
    simp only [Nat.add_sub_cancel, ← List.map_flatMap] at hall
    exact (List.map_perm_map_iff ofRow_injective).mp hall
  · intro h responses hresponses
    have hrows : ∀ i, ∃ rows, i < lastPage → PageOf Party.createdAt (min (i * q.pageSize) lastPage)
        q.pageSize (matchingRows parties ⟨userId, some pubkey⟩ q) rows ∧
          (responses (i + 1)).items = rows.map .ofRow := by
      intro i
      by_cases hi : i < lastPage
      · obtain ⟨rows, hpage, heq⟩ := (lists_iff hi).mp (hresponses i hi)
        exact ⟨rows, fun _ => ⟨hpage, by rw [heq]⟩⟩
      · exact ⟨[], fun hlt => absurd hlt hi⟩
    -- the items of the responses are the rows of some answers
    choose answers hanswers using hrows
    have hitems : ((List.range lastPage).flatMap fun i => (responses (i + 1)).items) =
        ((List.range lastPage).flatMap answers).map .ofRow := by
      rw [List.map_flatMap]
      exact List.flatMap_congr fun i hi => (hanswers i (List.mem_range.mp hi)).2
    rw [hitems]
    exact (h answers fun i hi => (hanswers i hi).1).map _

/-- The pages of the list contain every matching row once just if the offset reaches all of them
and the rows with the same `created_at` are on the same page. -/
theorem listedOnce_iff (parties : Table Party PartiesValid) (auth : AuthUser)
    (q : ListAgreementsQuery) :
    ListedOnce parties auth q ↔
      (matchingRows parties auth q).length ≤ lastPage ∧ ∀ row ∈ matchingRows parties auth q,
        OnOnePage Party.createdAt (matchingRows parties auth q) q.pageSize row.createdAt := by
  obtain ⟨userId, pubkey⟩ := auth
  cases pubkey with
  | none =>
      have hnone : matchingRows parties ⟨userId, none⟩ q = [] := rfl
      simp only [ListedOnce, hnone, List.map_nil, List.perm_nil, List.flatMap_eq_nil_iff,
        List.mem_range, List.length_nil, Nat.zero_le, List.not_mem_nil, false_implies,
        implies_true, and_self, iff_true]
      exact fun responses hresponses i hi => lists_none (hresponses i hi)
  | some pubkey =>
      exact listedOnce_iff_answers.trans
        (pages_complete_iff (pageSize_pos q) (by decide) (matchingRows_nodup _ _ _))

/-! ### Two parties of one agreement -/

/-- The row of a party: the listener inserts all of an agreement with the same `created_at`. -/
def tiedRow (party : String) : Party :=
  ⟨party, "A", bobKey, .pendingSignatures, none, 0, 2592000, "Agreement"⟩

def tiedParties : Table Party PartiesValid := ⟨[tiedRow aliceKey, tiedRow bobKey], by decide⟩

/-- The list with one row on a page. -/
def singly : ListAgreementsQuery := ⟨none, none, none, some 1⟩

/-- Pages 1 and 2 show the row of the first party; the other pages are empty. -/
def oneRowTwice (page : ℕ) : ListAgreementsResponse :=
  ⟨UInt32.ofNat page, 1, if page ≤ 2 then [.ofRow (tiedRow aliceKey)] else []⟩

/-- The query for page 2 can order the rows in another way than the query for page 1. -/
theorem lists_oneRowTwice {i : ℕ} (hi : i < lastPage) :
    Lists tiedParties ⟨11, some bobKey⟩ (singly.forPage (i + 1)) (oneRowTwice (i + 1)) := by
  have hmatching : matchingRows tiedParties ⟨11, some bobKey⟩ singly =
      [tiedRow aliceKey, tiedRow bobKey] := by decide
  rw [lists_iff hi, hmatching]
  match i with
  | 0 => exact ⟨[tiedRow aliceKey], by decide, rfl⟩
  | 1 => exact ⟨[tiedRow aliceKey], by decide, rfl⟩
  | i + 2 =>
      refine ⟨[], ⟨[tiedRow aliceKey, tiedRow bobKey], List.Perm.refl _, by decide, ?_⟩, ?_⟩
      · have hsize : singly.pageSize = 1 := rfl
        rw [hsize, List.drop_eq_nil_of_le, List.take_nil]
        simp only [List.length_cons, List.length_nil]
        omega
      · rw [oneRowTwice, if_neg (by omega)]
        rfl

/-- The row of the second party is on no page. -/
theorem tied_row_lost : ¬ ListedOnce tiedParties ⟨11, some bobKey⟩ singly := by
  intro h
  have hall := h oneRowTwice fun i hi => lists_oneRowTwice hi
  have hbob : ListAgreementItem.ofRow (tiedRow bobKey) ∈
      (List.range lastPage).flatMap fun i => (oneRowTwice (i + 1)).items :=
    hall.mem_iff.mpr (by decide)
  obtain ⟨i, -, hitem⟩ := List.mem_flatMap.mp hbob
  rw [oneRowTwice] at hitem
  split at hitem
  · exact absurd (List.mem_singleton.mp hitem) (by decide)
  · exact absurd hitem List.not_mem_nil

end PactumCodex
