import Jobu.Domain
import Mathlib.Algebra.GroupWithZero.Nat
import Mathlib.Data.List.Sort
import Mathlib.Data.List.TakeDrop

/-!
# History pages

`list_runs` and `list_attempts` of `history_service.cpp` with the queries of
`history_repository_priv.cpp` and the cursor store.  A page holds rows in descending order of their
key, cut by a number of rows or by a number of bytes; when rows are left, the store keeps the key of
the last one under a token, and the next call goes on below it.

The two services differ in their rows, queries and keys (`Listing`).  `Session.complete` follows the
tokens: whatever happens to other tokens meanwhile, the pages put together are all matching rows.
The rows of a table are decoded, and a stored instant is a whole number of microseconds.
-/

namespace Jobu.History

open List

/-! ## The cursor store -/

/-- `RunCursorState` and `AttemptCursorState`. -/
structure CursorState (Q K : Type) where
  query : Q
  after : K
  expiresAt : Int

section

variable {S : Type} (expiry : S → Int)

def invalidCursor : Error :=
  { category := .invalidArgument
    code := "jobu.history.invalid_cursor"
    message := "History cursor is invalid or unavailable" }

def cursorUnavailable : Error :=
  { category := .resourceExhausted
    code := "jobu.history.cursor_unavailable"
    message := "A history cursor could not be created" }

/-- `HistoryCursorStore`: the entries, the least recently used one first. -/
abbrev CursorStore (S : Type) := List (Uuid × S)

def maximumEntries : Nat := 1024

def evictExpired (now : Int) (store : CursorStore S) : CursorStore S :=
  store.filter fun entry => now < expiry entry.2

/-- The token of a new entry: the first identifier that is not nil and not in use, of at most `tries`. -/
def freshToken (store : CursorStore S) : Nat → List (Option Uuid) → Option Uuid
  | tries + 1, some token :: generated =>
    if token = Uuid.nil ∨ (store.lookup token).isSome then freshToken store tries generated else some token
  | _, _ => none

def issue (now : Int) (generated : List (Option Uuid)) (store : CursorStore S) (state : S) :
    Except Error Uuid × CursorStore S :=
  let store := evictExpired expiry now store
  if expiry state ≤ now then (.error invalidCursor, store)
  else
    match freshToken store 8 generated with
    | none => (.error cursorUnavailable, store)
    | some token =>
      let store := if store.length = maximumEntries then store.tail else store
      (.ok token, store ++ [(token, state)])

/-- `find` for the family of states that `get` accepts. -/
def find {T : Type} (get : S → Option T) (now : Int) (store : CursorStore S) (token : Uuid) :
    Option T × CursorStore S :=
  let store := evictExpired expiry now store
  if token = Uuid.nil then (none, store)
  else
    match store.lookup token with
    | none => (none, store)
    | some state =>
      match get state with
      | none => (none, store)
      | some found => (some found, store.filter (·.1 ≠ token) ++ [(token, state)])

variable {token : Uuid}

theorem freshToken_unused {store : CursorStore S} (tries : Nat) (generated : List (Option Uuid)) :
    freshToken store tries generated = some token → ∀ state, (token, state) ∉ store := by
  fun_induction freshToken store tries generated with
  | case1 _ _ _ _ ih => exact ih
  | case2 _ _ _ free =>
    rintro ⟨⟩ _ member
    have absent := Option.not_isSome_iff_eq_none.1 (not_or.1 free).2
    exact absurd rfl (bne_iff_ne.1 (lookup_eq_none_iff.1 absent _ member))
  | case3 => nofun

variable {now : Int} {generated : List (Option Uuid)} {store store' : CursorStore S}

/-- The token of a new entry stands for its state and for no other. -/
theorem eq_of_mem_issue {state : S} (h : issue expiry now generated store state = (.ok token, store')) :
    ∀ other, (token, other) ∈ store' → other = state := by
  unfold issue at h
  dsimp only at h
  split at h
  · cases h
  split at h
  · cases h
  next found =>
    cases h
    intro other member
    rcases mem_append.1 member with old | new
    · refine absurd ?_ (freshToken_unused 8 generated found other)
      split at old
      · exact mem_of_mem_tail old
      · exact old
    · cases mem_singleton.1 new
      rfl

theorem issue_error {state : S} {error : Error} (h : issue expiry now generated store state = (.error error, store')) :
    error = invalidCursor ∨ error = cursorUnavailable := by
  unfold issue at h
  dsimp only at h
  split at h
  · cases h
    exact .inl rfl
  · split at h <;> cases h
    exact .inr rfl

theorem mem_of_find {T : Type} {get : S → Option T} {found : T}
    (h : find expiry get now store token = (some found, store')) :
    ∃ state, (token, state) ∈ store ∧ get state = some found := by
  unfold find at h
  dsimp only at h
  split at h
  · cases h
  split at h
  · cases h
  next state entry =>
    split at h
    · cases h
    rename_i accepted
    cases h
    obtain ⟨_, _, split, -⟩ := lookup_eq_some_iff.1 entry
    refine ⟨state, mem_of_mem_filter (p := fun entry => now < expiry entry.2) ?_, accepted⟩
    show (token, state) ∈ evictExpired expiry now store
    rw [split]
    exact mem_append_right _ mem_cons_self

end

/-! ## Pages -/

structure Page (R : Type) where
  items : List R
  nextCursor : Option Uuid := none

/-- What is particular to runs or to attempts. -/
structure Listing (R Q K S : Type) where
  key : R → K
  limit : Q → Nat
  /-- Whether the request codec accepts a query. -/
  accepts : Q → Bool
  /-- The rows of a query, below a key if there is one. -/
  selects : Q → Option K → R → Bool
  /-- The length of a row's JSON, if it can be encoded. -/
  size : R → Option Nat
  put : CursorState Q K → S
  get : S → Option (CursorState Q K)
  expiry : S → Int

/-- What the clock and the generator of identifiers give during one call. -/
structure Moment where
  looked : Int
  started : Int
  issued : Int
  generated : List (Option Uuid)

def invalidRequest : Error :=
  { category := .invalidArgument, code := "jobu.history.invalid_request", message := "History request is invalid" }

def tooLarge : Error :=
  { category := .resourceExhausted
    code := "jobu.response.too_large"
    message := "History result exceeds its response limit" }

def invalidStoredSummary : Error :=
  { category := .internal, code := "jobu.storage.invariant", message := "Persisted history cannot be encoded" }

def invalidLimit : Error :=
  { category := .invalidArgument, code := "jobu.storage.invalid_limit", message := "History repository limit is invalid" }

def pageWrapperBytes : Nat := 128

section

variable {R Q K S : Type} [LinearOrder K] (listing : Listing R Q K S)

/-- The rows that a query selects, `ORDER BY key DESC`. -/
def Listing.rows (table : List R) (query : Q) (after : Option K) : List R :=
  (table.filter (listing.selects query after)).insertionSort fun a b => listing.key b ≤ listing.key a

/-- The loop that fills a page which has `count` rows and `bytes` bytes already. -/
def Listing.fill (limit budget : Nat) : Nat → Nat → List R → Except Error (List R)
  | _, _, [] => .ok []
  | count, bytes, row :: rest =>
    if count = limit then .ok []
    else
      match listing.size row with
      | none => .error invalidStoredSummary
      | some size =>
        if size + 1 > budget - bytes then .ok []
        else (Listing.fill limit budget (count + 1) (bytes + (size + 1)) rest).map (row :: ·)

/-- `build_run_page`, and its like for attempts. -/
def Listing.buildPage (budget : Nat) (moment : Moment) (rows : List R) (query : Q)
    (previous : Option (CursorState Q K)) (store : CursorStore S) : Except Error (Page R) × CursorStore S :=
  if budget < pageWrapperBytes then (.error tooLarge, store)
  else
    match listing.fill (listing.limit query) budget 0 pageWrapperBytes rows with
    | .error error => (.error error, store)
    | .ok items =>
      match items.getLast? with
      | none => if rows = [] then (.ok ⟨[], none⟩, store) else (.error tooLarge, store)
      | some last =>
        if items.length < rows.length then
          let state := match previous with
            | some state => { state with after := listing.key last }
            | none => ⟨query, listing.key last, moment.started + 300000000000⟩
          match issue listing.expiry moment.issued moment.generated store (listing.put state) with
          | (.error error, store) => (.error error, store)
          | (.ok token, store) => (.ok ⟨items, some token⟩, store)
        else (.ok ⟨items, none⟩, store)

/-- The repository's `list_runs` and `list_attempts` with one row to look ahead, and the page of them. -/
def Listing.readPage (budget : Nat) (moment : Moment) (table : List R) (query : Q)
    (previous : Option (CursorState Q K)) (store : CursorStore S) : Except Error (Page R) × CursorStore S :=
  let limit := listing.limit query + 1
  if limit < 1 ∨ 201 < limit then (.error invalidLimit, store)
  else listing.buildPage budget moment ((listing.rows table query (previous.map (·.after))).take limit) query
    previous store

/-- `list_runs` and `list_attempts` of the service. -/
def Listing.list (budget : Nat) (moment : Moment) (table : List R) (store : CursorStore S) :
    Q ⊕ Uuid → Except Error (Page R) × CursorStore S
  | .inl query =>
    if listing.accepts query then listing.readPage budget moment table query none store
    else (.error invalidRequest, store)
  | .inr token =>
    match find listing.expiry listing.get moment.looked store token with
    | (none, store) => (.error invalidCursor, store)
    | (some state, store) => listing.readPage budget moment table state.query (some state) store

/-- The length of a page's JSON: `{"items":[` and `]`, `,"next_cursor":` and null or a token in quotes, `}`. -/
def Listing.pageBytes (page : Page R) : Nat :=
  10 + (page.items.map fun row => (listing.size row).getD 0).sum + (page.items.length - 1) + 1 + 15
    + (if page.nextCursor = none then 4 else 38) + 1

/-- A client follows the tokens, until it stops or a call fails.  Between two calls anything may
happen to the store, as long as the token does not come to stand for something else. -/
inductive Session (budget : Nat) (table : List R) :
    CursorStore S → Q ⊕ Uuid → List (Page R) → Option Error → Prop
  | stop {store store' request page} (moment : Moment)
    (call : listing.list budget moment table store request = (.ok page, store')) :
    Session budget table store request [page] none
  | fail {store store' request error} (moment : Moment)
    (call : listing.list budget moment table store request = (.error error, store')) :
    Session budget table store request [] (some error)
  | next {store store' later request page token pages failure} (moment : Moment)
    (call : listing.list budget moment table store request = (.ok page, store'))
    (more : page.nextCursor = some token)
    (kept : ∀ state, (token, state) ∈ later → (token, state) ∈ store')
    (rest : Session budget table later (.inr token) pages failure) :
    Session budget table store request (page :: pages) failure

/-! ## One page -/

/-- A table and a budget for which a query can be paged. -/
structure Listing.Pageable (budget : Nat) (table : List R) (query : Q) : Prop where
  limit : 1 ≤ listing.limit query ∧ listing.limit query ≤ 200
  wrapper : pageWrapperBytes ≤ budget
  below : ∀ last ∈ table, ∀ row, listing.selects query (some (listing.key last)) row =
    (listing.selects query none row && decide (listing.key row < listing.key last))
  distinct : ((table.filter (listing.selects query none)).map listing.key).Nodup
  fits : ∀ row ∈ table, listing.selects query none row = true →
    ∃ size, listing.size row = some size ∧ pageWrapperBytes + (size + 1) ≤ budget
  stored : ∀ state, listing.get (listing.put state) = some state

variable {listing} {budget : Nat}

omit [LinearOrder K] in
theorem Listing.fill_ok {limit : Nat} : ∀ {count bytes : Nat} {rows items : List R}, bytes ≤ budget → count ≤ limit →
    listing.fill limit budget count bytes rows = .ok items →
    ∃ n, items = rows.take n ∧ count + n ≤ limit ∧ n ≤ rows.length
      ∧ bytes + (items.map fun row => (listing.size row).getD 0).sum + n ≤ budget
  | count, bytes, [], items, small, bound, h => by
    cases h
    exact ⟨0, rfl, bound, le_rfl, small⟩
  | count, bytes, row :: rest, items, small, bound, h => by
    rw [Listing.fill] at h
    split at h
    · cases h
      exact ⟨0, rfl, bound, Nat.zero_le _, small⟩
    split at h
    · cases h
    next size encoded =>
      split at h
      · cases h
        exact ⟨0, rfl, bound, Nat.zero_le _, small⟩
      cases filled : Listing.fill listing limit budget (count + 1) (bytes + (size + 1)) rest with
      | error =>
        rw [filled] at h
        cases h
      | ok =>
      rw [filled] at h
      cases h
      obtain ⟨n, rfl, _, inside, _⟩ := fill_ok (by omega) (by omega) filled
      refine ⟨n + 1, rfl, by omega, Nat.succ_le_succ inside, ?_⟩
      rw [List.map_cons, List.sum_cons, encoded, Option.getD_some]
      omega

omit [LinearOrder K] in
theorem Listing.fill_total (limit budget : Nat) : ∀ {rows : List R} (count bytes : Nat),
    (∀ row ∈ rows, ∃ size, listing.size row = some size) → ∃ items, listing.fill limit budget count bytes rows = .ok items
  | [], _, _, _ => ⟨[], rfl⟩
  | row :: rest, count, bytes, encoded => by
    obtain ⟨size, known⟩ := encoded row List.mem_cons_self
    obtain ⟨_, filled⟩ := fill_total limit budget (count + 1) (bytes + (size + 1)) fun other member =>
      encoded other (List.mem_cons_of_mem _ member)
    rw [Listing.fill, known]
    dsimp only
    rw [filled]
    split
    · exact ⟨_, rfl⟩
    split
    · exact ⟨_, rfl⟩
    · exact ⟨_, rfl⟩

variable {table : List R} {query : Q}

theorem Listing.mem_rows {after : Option K} {row : R} :
    row ∈ listing.rows table query after ↔ row ∈ table ∧ listing.selects query after row = true := by
  rw [Listing.rows, mem_insertionSort, mem_filter]

namespace Listing.Pageable

variable (h : listing.Pageable budget table query)

include h

theorem descending (last : Option R) (inTable : ∀ row ∈ last, row ∈ table) :
    (listing.rows table query (last.map listing.key)).Pairwise fun a b => listing.key b < listing.key a := by
  have weak := pairwise_insertionSort (fun a b => listing.key b ≤ listing.key a)
    (table.filter (listing.selects query (last.map listing.key)))
  have distinct : ((table.filter (listing.selects query (last.map listing.key))).map listing.key).Nodup := by
    cases last with
    | none => exact h.distinct
    | some last =>
      refine h.distinct.sublist ((monotone_filter_right table fun row selected => ?_).map _)
      rw [Option.map_some, h.below last (inTable last rfl), Bool.and_eq_true] at selected
      exact selected.1
  have apart := ((perm_insertionSort (fun a b => listing.key b ≤ listing.key a) _).map listing.key).nodup_iff.2
    distinct
  rw [List.Nodup, pairwise_map] at apart
  exact (weak.and apart).imp fun both => lt_of_le_of_ne both.1 both.2.symm

/-- Below the key of a row are exactly the rows behind it. -/
theorem rows_below {front back : List R} {last : R} (split : listing.rows table query none = front ++ last :: back) :
    listing.rows table query (some (listing.key last)) = back := by
  have member : last ∈ listing.rows table query none := split ▸ mem_append_right _ mem_cons_self
  have inTable := (Listing.mem_rows.1 member).1
  have order := h.descending none nofun
  rw [Option.map_none, split, pairwise_append, pairwise_cons] at order
  obtain ⟨-, ⟨behind, sorted⟩, before⟩ := order
  have antisymm : Std.Antisymm fun a b : R => listing.key b < listing.key a :=
    ⟨fun _ _ less more => absurd less more.asymm⟩
  have irrefl : Std.Irrefl fun a b : R => listing.key b < listing.key a := ⟨fun a => lt_irrefl _⟩
  refine List.Pairwise.eq_of_mem_iff (h.descending (some last) (by rintro _ ⟨⟩; exact inTable)) sorted fun row => ?_
  rw [Listing.mem_rows, h.below last inTable, Bool.and_eq_true, ← and_assoc, ← Listing.mem_rows, split, mem_append,
    mem_cons, decide_eq_true_eq]
  constructor
  · rintro ⟨ahead | rfl | after, less⟩
    · exact absurd less (before row ahead last mem_cons_self).asymm
    · exact absurd less (lt_irrefl _)
    · exact after
  · exact fun after => ⟨.inr (.inr after), behind row after⟩

variable {moment : Moment} {previous : Option (CursorState Q K)}

/-- A page is a first part of what is left, and the token of a page stands for the rest. -/
theorem readPage_ok {store store' : CursorStore S}
    {page : Page R} {left : List R} (same : ∀ state ∈ previous, state.query = query)
    (rows : listing.rows table query (previous.map (·.after)) = left) (suffix : left <:+ listing.rows table query none)
    (call : listing.readPage budget moment table query previous store = (.ok page, store')) :
    listing.pageBytes page ≤ budget ∧ ∃ rest, left = page.items ++ rest ∧ (page.nextCursor = none → rest = []) ∧
      ∀ token, page.nextCursor = some token → page.items ≠ [] ∧ ∃ state : CursorState Q K, state.query = query ∧
        (∀ other, (token, other) ∈ store' → other = listing.put state) ∧
        listing.rows table query (some state.after) = rest := by
  obtain ⟨_, _⟩ := h.limit
  unfold Listing.readPage Listing.buildPage at call
  dsimp only at call
  rw [if_neg (by omega), rows] at call
  split at call
  · cases call
  rename_i enough
  split at call
  · cases call
  rename_i items filled
  obtain ⟨n, rfl, _, -, bytes⟩ := Listing.fill_ok (by omega) (Nat.zero_le _) filled
  rw [take_take, min_eq_left (by omega)] at call bytes
  have length : (left.take n).length ≤ n := length_take_le n left
  unfold pageWrapperBytes at bytes
  split at call
  next none =>
    split at call
    next empty =>
      cases call
      have nothing : left = [] := by
        cases left with
        | nil => rfl
        | cons => cases empty
      refine ⟨?_, [], nothing, fun _ => rfl, by rintro _ ⟨⟩⟩
      unfold Listing.pageBytes
      simp
      omega
    · cases call
  next last ends =>
    have front := dropLast_append_getLast? last ends
    have parts := take_append_drop n left
    split at call
    · split at call
      · cases call
      next _ _ issued =>
        cases call
        refine ⟨?_, left.drop n, parts.symm, by rintro ⟨⟩, ?_⟩
        · unfold Listing.pageBytes
          simp only [reduceCtorEq, if_false]
          omega
        rintro _ ⟨⟩
        refine ⟨fun empty => ?_, _, ?_, eq_of_mem_issue _ issued, ?_⟩
        · have nothing : left.take n = [] := empty
          rw [nothing] at ends
          cases ends
        · cases previous with
          | none => rfl
          | some state => exact same state rfl
        have boundary : listing.rows table query (some (listing.key last)) = left.drop n := by
          obtain ⟨ahead, whole⟩ := suffix
          apply h.rows_below
          calc listing.rows table query none = ahead ++ (left.take n ++ left.drop n) := by rw [parts, whole]
            _ = ahead ++ ((left.take n).dropLast ++ [last] ++ left.drop n) := by rw [front]
            _ = ahead ++ (left.take n).dropLast ++ last :: left.drop n := by simp
        cases previous <;> exact boundary
    next all =>
      cases call
      rw [length_take, length_take] at all
      have whole : left.take n = left := take_of_length_le (by omega)
      refine ⟨?_, [], by rw [append_nil, whole], fun _ => rfl, by rintro _ ⟨⟩⟩
      unfold Listing.pageBytes
      simp only [if_true]
      omega

/-- Only the cursor store can make a page fail. -/
theorem readPage_error {store store' : CursorStore S}
    {error : Error} (suffix : listing.rows table query (previous.map (·.after)) <:+ listing.rows table query none)
    (call : listing.readPage budget moment table query previous store = (.error error, store')) :
    error = invalidCursor ∨ error = cursorUnavailable := by
  obtain ⟨_, _⟩ := h.limit
  have wrapper := h.wrapper
  have fits (row : R) (member : row ∈ (listing.rows table query (previous.map (·.after))).take
    (listing.limit query + 1)) : ∃ size, listing.size row = some size ∧ pageWrapperBytes + (size + 1) ≤ budget := by
    obtain ⟨inTable, selected⟩ := Listing.mem_rows.1 (suffix.subset (mem_of_mem_take member))
    exact h.fits row inTable selected
  unfold Listing.readPage Listing.buildPage at call
  dsimp only at call
  rw [if_neg (by omega), if_neg (by omega)] at call
  obtain ⟨_, filled⟩ := Listing.fill_total (listing.limit query) budget 0 pageWrapperBytes
    fun row member => (fits row member).imp fun _ known => known.1
  rw [filled] at call
  dsimp only at call
  split at call
  next none =>
    split at call
    · cases call
    rename_i some
    -- A first row that fits is on the page.
    obtain ⟨row, rest, rows⟩ := exists_cons_of_ne_nil some
    obtain ⟨size, known, _⟩ := fits row (by rw [rows]; exact mem_cons_self)
    rw [rows, Listing.fill, if_neg (by omega), known] at filled
    dsimp only at filled
    rw [if_neg (by omega)] at filled
    cases others : listing.fill (listing.limit query) budget (0 + 1) (pageWrapperBytes + (size + 1)) rest <;>
      rw [others] at filled <;> cases filled
    rw [getLast?_eq_none_iff] at none
    cases none
  · split at call
    · split at call
      next issued =>
        cases call
        exact issue_error _ issued
      · cases call
    · cases call

/-- What a request has still to deliver: an initial one all rows, a token those below its key. -/
def Delivers (listing : Listing R Q K S) (table : List R) (query : Q) (store : CursorStore S) (left : List R) :
    Q ⊕ Uuid → Prop
  | .inl initial => initial = query ∧ listing.accepts query = true ∧ left = listing.rows table query none
  | .inr token => left <:+ listing.rows table query none ∧ ∃ state : CursorState Q K, state.query = query ∧
    (∀ other, (token, other) ∈ store → other = listing.put state) ∧ listing.rows table query (some state.after) = left

/-- A call reads a page, unless the store has lost the token. -/
theorem list_cases (moment : Moment) {store : CursorStore S} {request : Q ⊕ Uuid} {left : List R}
    (delivers : Delivers listing table query store left request) :
    (∃ store', listing.list budget moment table store request = (.error invalidCursor, store')) ∨
    ∃ (previous : Option (CursorState Q K)) (store' : CursorStore S), (∀ state ∈ previous, state.query = query) ∧
      listing.rows table query (previous.map (·.after)) = left ∧ left <:+ listing.rows table query none ∧
      listing.list budget moment table store request = listing.readPage budget moment table query previous store' := by
  cases request with
  | inl =>
    obtain ⟨rfl, accepted, rfl⟩ := delivers
    exact .inr ⟨none, store, nofun, rfl, suffix_rfl, if_pos accepted⟩
  | inr token =>
    obtain ⟨suffix, state, rfl, only, rows⟩ := delivers
    rcases found : find listing.expiry listing.get moment.looked store token with ⟨_ | _, store'⟩
    · exact .inl ⟨store', by rw [Listing.list, found]⟩
    obtain ⟨entry, member, accepted⟩ := mem_of_find _ found
    rw [only entry member, h.stored] at accepted
    cases accepted
    exact .inr ⟨some state, store', by rintro _ ⟨⟩; rfl, rows, suffix, by rw [Listing.list, found]⟩

/-- The pages of a session are, in order, the first part of what its request has to deliver, and all
of it when the last page has no token. -/
theorem session {store : CursorStore S} {request : Q ⊕ Uuid} {pages : List (Page R)} {failure : Option Error}
    (run : Session listing budget table store request pages failure) :
    ∀ {left : List R}, Delivers listing table query store left request →
    (∀ page ∈ pages, listing.pageBytes page ≤ budget) ∧ pages.length ≤ left.length + 1 ∧
    (∀ error ∈ failure, error = invalidCursor ∨ error = cursorUnavailable) ∧
    ∃ rest, left = pages.flatMap (·.items) ++ rest ∧
      (failure = none → (∀ last ∈ pages.getLast?, last.nextCursor = none) → rest = []) := by
  induction run with
  | stop moment call =>
    intro left delivers
    rcases h.list_cases moment delivers with ⟨_, lost⟩ | ⟨previous, _, same, rows, suffix, read⟩
    · rw [lost] at call
      cases call
    rw [read] at call
    obtain ⟨bytes, rest, parts, ended, -⟩ := h.readPage_ok same rows suffix call
    exact ⟨by simpa using bytes, by simp, by rintro _ ⟨⟩, rest, by simpa using parts, fun _ last => ended (last _ rfl)⟩
  | fail moment call =>
    intro left delivers
    refine ⟨fun _ hp => absurd hp List.not_mem_nil, Nat.zero_le _, ?_, left, rfl, by rintro ⟨⟩⟩
    rintro _ ⟨⟩
    rcases h.list_cases moment delivers with ⟨_, lost⟩ | ⟨previous, _, same, rfl, suffix, read⟩
    · rw [lost] at call
      cases call
      exact .inl rfl
    · rw [read] at call
      exact h.readPage_error suffix call
  | next moment call more kept _ ih =>
    intro _ delivers
    rcases h.list_cases moment delivers with ⟨_, lost⟩ | ⟨_, _, same, rows, suffix, read⟩
    · rw [lost] at call
      cases call
    rw [read] at call
    obtain ⟨bytes, _, rfl, -, onward⟩ := h.readPage_ok same rows suffix call
    obtain ⟨filled, state, sameQuery, only, below⟩ := onward _ more
    obtain ⟨fit, _, failure, behind, parts, ended⟩ := ih
      ⟨(suffix_append _ _).trans suffix, state, sameQuery, fun other member => only other (kept other member), below⟩
    refine ⟨forall_mem_cons.2 ⟨bytes, fit⟩, ?_, failure, behind, ?_, fun done last => ended done fun page isLast => ?_⟩
    · have := length_pos_of_ne_nil filled
      rw [length_cons, length_append]
      omega
    · rw [flatMap_cons, append_assoc, ← parts]
    · refine last page ?_
      rw [getLast?_cons, Option.mem_def.1 isLast]
      rfl

end Listing.Pageable

end

/-! ## Runs and attempts -/

structure UtcRange where
  start : Option Int := none
  stop : Option Int := none

structure RunFilters where
  queueId : Option Uuid := none
  jobId : Option Uuid := none
  state : Option RunState := none
  states : Option (List RunState) := none
  origin : Option RunOrigin := none
  type : Option JobType := none
  planned : UtcRange := {}
  started : UtcRange := {}
  completed : UtcRange := {}

structure RunQuery where
  filters : RunFilters := {}
  limit : Nat := 100

structure AttemptQuery where
  runId : Uuid
  limit : Nat := 100

/-- `add_range`: a bound that is given holds of no null. -/
def UtcRange.contains (range : UtcRange) (column : Option Int) : Bool :=
  range.start.all (fun bound => column.any (storedTime bound ≤ ·)) &&
    range.stop.all (fun bound => column.any (· < storedTime bound))

def RunFilters.accept (filters : RunFilters) (run : JobRun) : Bool :=
  filters.queueId.all (run.queueId = ·) && filters.jobId.all (run.jobId = ·) &&
    (match filters.state, filters.states with
      | some state, _ => run.state = state
      | none, some states => run.state ∈ states
      | none, none => true) && filters.origin.all (run.origin = ·) && filters.type.all (run.type = ·) &&
    filters.planned.contains (some run.plannedAt) && filters.started.contains run.startedAt &&
    filters.completed.contains run.completedAt

/-- The states of both families, which share one store. -/
inductive State where
  | run (state : CursorState RunQuery (ℤ ×ₗ Uuid))
  | attempt (state : CursorState AttemptQuery Nat)

def State.expiresAt : State → Int
  | .run state => state.expiresAt
  | .attempt state => state.expiresAt

/-- The codecs: which queries are accepted, and how long a summary's JSON is. -/
structure Codecs where
  acceptsRuns : RunQuery → Bool
  acceptsAttempts : AttemptQuery → Bool
  runBytes : JobRun → Option Nat
  attemptBytes : JobAttempt → Option Nat
  runLimit : ∀ query, acceptsRuns query = true → 1 ≤ query.limit ∧ query.limit ≤ 200
  attemptLimit : ∀ query, acceptsAttempts query = true → 1 ≤ query.limit ∧ query.limit ≤ 200

variable (codecs : Codecs)

def runs : Listing JobRun RunQuery (ℤ ×ₗ Uuid) State where
  key run := toLex (run.plannedAt, run.id)
  limit query := query.limit
  accepts := codecs.acceptsRuns
  selects query after run := query.filters.accept run && after.all fun key =>
    run.plannedAt < storedTime (ofLex key).1 || run.plannedAt = storedTime (ofLex key).1 && run.id < (ofLex key).2
  size := codecs.runBytes
  put := .run
  get | .run state => some state | .attempt _ => none
  expiry := State.expiresAt

def attempts : Listing JobAttempt AttemptQuery Nat State where
  key attempt := attempt.attemptNumber
  limit query := query.limit
  accepts := codecs.acceptsAttempts
  selects query before attempt :=
    decide (attempt.runId = query.runId) && before.all fun number => attempt.attemptNumber < number
  size := codecs.attemptBytes
  put := .attempt
  get | .attempt state => some state | .run _ => none
  expiry := State.expiresAt

/-! ## Whole listings -/

/-- A client that pages through a query gets all its rows, once and in descending order. -/
structure Lossless {R Q K S : Type} [LinearOrder K] (listing : Listing R Q K S) (budget : Nat) (table : List R)
    (query : Q) : Prop where
  matching : (listing.rows table query none).Perm (table.filter (listing.selects query none))
  descending : (listing.rows table query none).Pairwise fun a b => listing.key b < listing.key a
  session : ∀ store pages failure, Session listing budget table store (.inl query) pages failure →
    (∀ page ∈ pages, listing.pageBytes page ≤ budget) ∧ pages.length ≤ (listing.rows table query none).length + 1 ∧
    (∀ error ∈ failure, error = invalidCursor ∨ error = cursorUnavailable) ∧
    ∃ rest, listing.rows table query none = pages.flatMap (·.items) ++ rest ∧
      (failure = none → (∀ last ∈ pages.getLast?, last.nextCursor = none) → rest = [])

variable {budget : Nat}

theorem Listing.Pageable.lossless {R Q K S : Type} [LinearOrder K] {listing : Listing R Q K S}
    {table : List R} {query : Q} (h : listing.Pageable budget table query) (accepted : listing.accepts query = true) :
    Lossless listing budget table query where
  matching := List.perm_insertionSort _ _
  descending := h.descending none nofun
  session _ _ _ run := h.session run ⟨rfl, accepted, rfl⟩

/-- The table of runs: its identifiers are unique, and a planned time is stored in microseconds. -/
structure RunTable where
  rows : List JobRun
  ids : (rows.map (·.id)).Nodup
  stored : ∀ run ∈ rows, storedTime run.plannedAt = run.plannedAt

/-- The table of attempts, whose primary key is the run with the number. -/
structure AttemptTable where
  rows : List JobAttempt
  keys : (rows.map fun attempt => (attempt.runId, attempt.attemptNumber)).Nodup

variable {codecs}

theorem runs_pageable {table : RunTable} {query : RunQuery} (accepted : codecs.acceptsRuns query = true)
    (wrapper : pageWrapperBytes ≤ budget) (fits : ∀ run ∈ table.rows, query.filters.accept run = true →
      ∃ size, codecs.runBytes run = some size ∧ pageWrapperBytes + (size + 1) ≤ budget) :
    (runs codecs).Pageable budget table.rows query where
  limit := codecs.runLimit query accepted
  wrapper := wrapper
  below last inTable run := by
    have stored := table.stored last inTable
    have order : (toLex (run.plannedAt, run.id) < toLex (last.plannedAt, last.id)) ↔
      run.plannedAt < last.plannedAt ∨ run.plannedAt = last.plannedAt ∧ run.id < last.id := Prod.Lex.toLex_lt_toLex
    rw [Bool.eq_iff_iff]
    simp only [runs, Option.all_some, Option.all_none, Bool.and_true, Bool.and_eq_true, Bool.or_eq_true, stored,
      decide_eq_true_iff, ofLex_toLex, order]
    exact Iff.and Iff.rfl (Iff.or Iff.rfl (Iff.and Iff.rfl decide_eq_true_iff))
  distinct := by
    have ids := table.ids.sublist ((filter_sublist (p := (runs codecs).selects query none)).map (·.id))
    rw [List.Nodup, pairwise_map] at ids ⊢
    exact ids.imp fun apart same => apart (congrArg (fun key => (ofLex key).2) same)
  fits run member selected := fits run member (by simpa [runs] using selected)
  stored _ := rfl

theorem attempts_pageable {table : AttemptTable} {query : AttemptQuery}
    (accepted : codecs.acceptsAttempts query = true) (wrapper : pageWrapperBytes ≤ budget)
    (fits : ∀ attempt ∈ table.rows, attempt.runId = query.runId →
      ∃ size, codecs.attemptBytes attempt = some size ∧ pageWrapperBytes + (size + 1) ≤ budget) :
    (attempts codecs).Pageable budget table.rows query where
  limit := codecs.attemptLimit query accepted
  wrapper := wrapper
  below last _ attempt := by
    rw [Bool.eq_iff_iff]
    simp only [attempts, Option.all_some, Option.all_none, Bool.and_true, Bool.and_eq_true, decide_eq_true_iff]
    exact Iff.and Iff.rfl decide_eq_true_iff.symm
  distinct := by
    have keys := table.keys.sublist ((filter_sublist (p := (attempts codecs).selects query none)).map
      fun attempt => (attempt.runId, attempt.attemptNumber))
    rw [List.Nodup, pairwise_map] at keys ⊢
    refine keys.imp_of_mem ?_
    intro a b left right apart same
    have first : a.runId = query.runId := by simpa [attempts] using (mem_filter.1 left).2
    have second : b.runId = query.runId := by simpa [attempts] using (mem_filter.1 right).2
    exact apart (Prod.ext (first.trans second.symm) same)
  fits attempt member selected := fits attempt member (by simpa [attempts] using selected)
  stored _ := rfl

/-- A run of a hundred bytes, in a budget of one run a page. -/
def onlyRun : JobRun :=
  { id := ⟨1, by decide⟩, jobId := Uuid.nil, queueId := Uuid.nil, plannedAt := 0, runnableAt := 0, payload := ⟨""⟩ }

def shortCodecs : Codecs :=
  ⟨fun query => query.limit == 1, fun query => query.limit == 1, fun _ => some 100, fun _ => some 100,
    fun query accepted => by have := beq_iff_eq.1 accepted; omega,
    fun query accepted => by have := beq_iff_eq.1 accepted; omega⟩

end Jobu.History
