import Mathlib.Data.List.Nodup
import Mathlib.Data.String.Basic

/-!
# Listing a bucket

`S3BlobStore::list` of the Rust library asks for one page of keys after the other.  Its only state
between two pages is the continuation token of the last page, and a page that says that it is
truncated may give none.

Over a chain of pages whose tokens never repeat and that comes to an end, the loop makes no request
twice, ends, and returns the keys of all pages, sorted, if and only if every page that says that it
is truncated gives a token (`list_progresses_iff`).  After a truncated page without a token the loop
asks for the first page again; the Go library leaves the tokens to the paginator of the SDK.
-/

namespace GoyStore

namespace Rust

/-- What the listing reads of `Object`. -/
structure Object where
  /-- The field `key`. -/
  key : Option String
  deriving DecidableEq, Repr

/-- What the listing reads of `ListObjectsV2Output`. -/
structure ListObjectsV2Output where
  /-- The field `contents`. -/
  contents : Option (List Object)
  /-- The field `is_truncated`. -/
  isTruncated : Option Bool
  /-- The field `next_continuation_token`. -/
  nextContinuationToken : Option String
  deriving DecidableEq, Repr

/-- The keys of a page. -/
def ListObjectsV2Output.keys (output : ListObjectsV2Output) : List String :=
  (output.contents.getD []).filterMap Object.key

/-- A request that the listing sends. -/
structure ListObjectsV2Request where
  /-- The field `bucket`. -/
  bucket : String
  /-- The text with which the keys are to start, if any. -/
  start : Option String
  /-- The field `continuation_token`. -/
  continuationToken : Option String
  deriving DecidableEq, Repr

/-- `S3BlobStore`. -/
structure S3BlobStore where
  /-- The field `bucket`. -/
  bucket : String
  deriving DecidableEq, Repr

namespace S3BlobStore

/-- The requests of a listing, and what it returns; `none` when it is still running. -/
structure Listed where
  /-- The requests that were sent. -/
  requests : List ListObjectsV2Request
  /-- What `list` returns. -/
  result : Option (Except String (List String))
  deriving DecidableEq

/-- The loop of `list`: at most `fuel` rounds, from the answer number `i` on. -/
def listFrom (st : S3BlobStore) (start : Option String)
    (answer : ℕ → Except String ListObjectsV2Output) :
    ℕ → ℕ → Option String → List String → Listed
  | 0, _, _, _ => ⟨[], none⟩
  | fuel + 1, i, continuationToken, results =>
    let req : ListObjectsV2Request := ⟨st.bucket, start, continuationToken⟩
    match answer i with
    | .error e => ⟨[req], some (.error e)⟩
    | .ok output =>
      let results := results ++ output.keys
      if output.isTruncated.getD false then
        let rest := listFrom st start answer fuel (i + 1) output.nextContinuationToken results
        ⟨req :: rest.requests, rest.result⟩
      else ⟨[req], some (.ok (results.mergeSort fun x y => x ≤ y))⟩

/-- `list`, with at most `fuel` rounds of its loop; `answer i` is the response to the request number
`i`. -/
def list (st : S3BlobStore) (start : Option String)
    (answer : ℕ → Except String ListObjectsV2Output) (fuel : ℕ) : Listed :=
  st.listFrom start answer fuel 0 none []

/-- The responses of a server: following the tokens from the first page, no token is met twice, and
there is a last page. -/
structure PageChain where
  /-- The pages whose token is followed. -/
  pages : List ListObjectsV2Output
  /-- The page after them. -/
  last : ListObjectsV2Output
  /-- What the server answers after that, if it is asked. -/
  later : ℕ → Except String ListObjectsV2Output
  /-- A page whose token is followed is truncated, and has a token. -/
  followed : ∀ page ∈ pages, page.isTruncated = some true ∧ page.nextContinuationToken ≠ none
  /-- No token is met twice. -/
  distinct : (pages.map ListObjectsV2Output.nextContinuationToken).Nodup
  /-- The last page has no token to follow. -/
  ended : last.isTruncated = some true → last.nextContinuationToken = none

namespace PageChain

/-- All pages of the chain. -/
def all (chain : PageChain) : List ListObjectsV2Output := chain.pages ++ [chain.last]

/-- The response number `i`. -/
def answer (chain : PageChain) (i : ℕ) : Except String ListObjectsV2Output :=
  if h : i < chain.all.length then .ok (chain.all.get ⟨i, h⟩)
  else chain.later (i - chain.all.length)

end PageChain

/-- The listing makes progress: it sends no request twice, ends, and returns the keys of the pages
in order. -/
structure Progresses (st : S3BlobStore) (start : Option String) (chain : PageChain) : Prop where
  /-- No request is sent twice, however long the loop runs. -/
  once : ∀ fuel, (st.list start chain.answer fuel).requests.Nodup
  /-- The loop ends, with the keys of all pages. -/
  returns : ∃ n, ∀ fuel, n ≤ fuel → (st.list start chain.answer fuel).result =
    some (.ok ((chain.all.flatMap ListObjectsV2Output.keys).mergeSort fun x y => x ≤ y))

variable (st : S3BlobStore) (start : Option String)
  {answer : ℕ → Except String ListObjectsV2Output}

/-! ### The requests -/

/-- A loop that runs longer sends its requests after those that it has sent. -/
lemma requests_listFrom_succ (fuel i : ℕ) (token : Option String) (results : List String) :
    (st.listFrom start answer fuel i token results).requests <+:
      (st.listFrom start answer (fuel + 1) i token results).requests := by
  induction fuel generalizing i token results with
  | zero => exact List.nil_prefix
  | succ fuel ih =>
    rw [listFrom, listFrom]
    cases answer i with
    | error e => exact List.prefix_rfl
    | ok output =>
      simp only
      split_ifs
      · exact List.cons_prefix_cons.mpr ⟨rfl, ih ..⟩
      · exact List.prefix_rfl

/-- The same for any two numbers of rounds. -/
lemma requests_list_mono (answer : ℕ → Except String ListObjectsV2Output) {m n : ℕ} (h : m ≤ n) :
    (st.list start answer m).requests <+: (st.list start answer n).requests := by
  induction n, h using Nat.le_induction with
  | base => exact List.prefix_rfl
  | succ n _ ih => exact ih.trans (requests_listFrom_succ ..)

/-- The loop over the pages of a chain. -/
lemma listFrom_chain {pages : List ListObjectsV2Output} {last : ListObjectsV2Output}
    (hfollowed : ∀ page ∈ pages, page.isTruncated = some true) (fuel : ℕ) {i : ℕ}
    (hanswer : ∀ (k : ℕ) (page : ListObjectsV2Output),
      (pages ++ [last])[k]? = some page → answer (i + k) = .ok page)
    (token : Option String) (results : List String) :
    st.listFrom start answer (fuel + 1 + pages.length) i token results =
      let results := results ++ (pages ++ [last]).flatMap ListObjectsV2Output.keys
      let rest : Listed :=
        if last.isTruncated.getD false then
          st.listFrom start answer fuel (i + pages.length + 1) last.nextContinuationToken results
        else ⟨[], some (.ok (results.mergeSort fun x y => x ≤ y))⟩
      ⟨(token :: pages.map ListObjectsV2Output.nextContinuationToken).map
        (ListObjectsV2Request.mk st.bucket start) ++ rest.requests, rest.result⟩ := by
  induction pages generalizing i token results with
  | nil =>
    have hlast : answer i = .ok last := hanswer 0 last rfl
    rw [List.length_nil, Nat.add_zero, listFrom, hlast]
    by_cases htruncated : last.isTruncated.getD false = true
    · simp [htruncated]
    · simp [htruncated]
  | cons page pages ih =>
    have hpage : answer i = .ok page := hanswer 0 page rfl
    have htruncated : page.isTruncated.getD false = true := by
      rw [hfollowed page List.mem_cons_self]
      rfl
    have hrest := ih (fun p hp => hfollowed p (List.mem_cons_of_mem _ hp)) (i := i + 1)
      (fun k p hp => by
        have hk := hanswer (k + 1) p hp
        rwa [← Nat.add_assoc, Nat.add_right_comm] at hk)
      page.nextContinuationToken (results ++ page.keys)
    have hlength : fuel + 1 + (page :: pages).length = fuel + 1 + pages.length + 1 := rfl
    rw [hlength, listFrom, hpage]
    simp only [htruncated, if_true, hrest]
    have hindex : i + 1 + pages.length + 1 = i + (page :: pages).length + 1 := by
      rw [List.length_cons]
      omega
    simp only [hindex, List.cons_append, List.flatMap_cons, List.append_assoc, List.map_cons]

/-- The loop over a chain. -/
lemma list_chain (chain : PageChain) (fuel : ℕ) :
    st.list start chain.answer (fuel + 1 + chain.pages.length) =
      let results := chain.all.flatMap ListObjectsV2Output.keys
      let rest : Listed :=
        if chain.last.isTruncated.getD false then
          st.listFrom start chain.answer fuel (chain.pages.length + 1)
            chain.last.nextContinuationToken results
        else ⟨[], some (.ok (results.mergeSort fun x y => x ≤ y))⟩
      ⟨(none :: chain.pages.map ListObjectsV2Output.nextContinuationToken).map
        (ListObjectsV2Request.mk st.bucket start) ++ rest.requests, rest.result⟩ := by
  have hanswer : ∀ (k : ℕ) (page : ListObjectsV2Output),
      (chain.pages ++ [chain.last])[k]? = some page → chain.answer (0 + k) = .ok page := by
    intro k page hpage
    obtain ⟨hk, rfl⟩ := List.getElem?_eq_some_iff.mp hpage
    rw [Nat.zero_add, PageChain.answer]
    exact dif_pos hk
  have hloop := listFrom_chain st start (fun page hpage => (chain.followed page hpage).1) fuel
    hanswer none []
  rw [Nat.zero_add] at hloop
  exact hloop

/-- The requests for the pages of a chain are distinct. -/
lemma requests_nodup (chain : PageChain) :
    ((none :: chain.pages.map ListObjectsV2Output.nextContinuationToken).map
      (ListObjectsV2Request.mk st.bucket start)).Nodup := by
  have hinjective : Function.Injective (ListObjectsV2Request.mk st.bucket start) := by
    intro t t' heq
    exact (ListObjectsV2Request.mk.inj heq).2.2
  refine (List.nodup_cons.mpr ⟨fun hnone => ?_, chain.distinct⟩).map hinjective
  obtain ⟨page, hpage, htoken⟩ := List.mem_map.mp hnone
  exact (chain.followed page hpage).2 htoken

/-! ### Progress -/

variable {chain : PageChain}

/-- When the last page is not truncated, the listing makes progress. -/
lemma progresses_of_not_truncated (hlast : chain.last.isTruncated ≠ some true) :
    st.Progresses start chain := by
  have hstop : chain.last.isTruncated.getD false = false := by
    rcases hflag : chain.last.isTruncated with - | ⟨⟩ | ⟨⟩
    · rfl
    · rfl
    · exact absurd hflag hlast
  have hloop := list_chain st start chain
  simp only [hstop, Bool.false_eq_true, if_false, List.append_nil] at hloop
  constructor
  · intro fuel
    have hlong := (requests_list_mono st start chain.answer
      (Nat.le_add_right fuel (1 + chain.pages.length))).sublist
    rw [← Nat.add_assoc, hloop fuel] at hlong
    exact (requests_nodup st start chain).sublist hlong
  · refine ⟨1 + chain.pages.length, fun fuel hfuel => ?_⟩
    obtain ⟨more, rfl⟩ := Nat.exists_eq_add_of_le' hfuel
    rw [← Nat.add_assoc, hloop more]

/-- After a truncated page without a token the first page is asked for again. -/
lemma not_progresses_of_truncated (hlast : chain.last.isTruncated = some true) :
    ¬ st.Progresses start chain := by
  intro hprogress
  have honce := hprogress.once (1 + 1 + chain.pages.length)
  rw [list_chain st start chain 1] at honce
  have hcontinue : chain.last.isTruncated.getD false = true := by
    rw [hlast]
    rfl
  simp only [hcontinue, if_true, chain.ended hlast] at honce
  have hfirst : ⟨st.bucket, start, none⟩ ∈ (st.listFrom start chain.answer 1
      (chain.pages.length + 1) none (chain.all.flatMap ListObjectsV2Output.keys)).requests := by
    rw [listFrom]
    cases chain.answer (chain.pages.length + 1) with
    | error e => exact List.mem_singleton_self _
    | ok output =>
      simp only
      split_ifs
      · exact List.mem_cons_self
      · exact List.mem_singleton_self _
  exact (List.nodup_append.mp honce).2.2 _ (List.mem_map_of_mem List.mem_cons_self) _ hfirst rfl

/-- Over a chain of pages, `list` sends no request twice, ends, and returns the keys of all pages,
sorted, if and only if every page that says that it is truncated gives a token. -/
theorem list_progresses_iff (st : S3BlobStore) (start : Option String) (chain : PageChain) :
    st.Progresses start chain ↔
      ∀ page ∈ chain.all, page.isTruncated = some true → page.nextContinuationToken ≠ none := by
  have hlast : (∀ page ∈ chain.all, page.isTruncated = some true →
      page.nextContinuationToken ≠ none) ↔ chain.last.isTruncated ≠ some true := by
    constructor
    · intro hall htruncated
      exact hall chain.last (List.mem_append_right _ (List.mem_singleton_self _)) htruncated
        (chain.ended htruncated)
    · intro hnot page hpage htruncated
      rcases List.mem_append.mp hpage with hold | hnew
      · exact (chain.followed page hold).2
      · rw [List.mem_singleton.mp hnew] at htruncated
        exact absurd htruncated hnot
  rw [hlast]
  exact ⟨fun hprogress htruncated => not_progresses_of_truncated st start htruncated hprogress,
    progresses_of_not_truncated st start⟩

/-- One page that is truncated and has no token; the server gives it again and again. -/
def tokenless : PageChain where
  pages := []
  last := ⟨some [⟨some "a"⟩], some true, none⟩
  later _ := .ok ⟨some [⟨some "a"⟩], some true, none⟩
  followed _ hpage := absurd hpage List.not_mem_nil
  distinct := List.nodup_nil
  ended _ := rfl

/-- After the page without a token its request is sent again. -/
theorem first_page_requested_twice :
    ¬ ∀ chain : PageChain, Progresses ⟨"bucket"⟩ none chain := by
  intro hall
  have honce := (hall tokenless).once 2
  exact absurd honce (by decide)

end S3BlobStore

end Rust

end GoyStore
