import Gears.OData.Tokens
import Gears.Lib.Pointwise

/-!
# Reading a listing to its end

* `Listing.Reads`, `reads_of_pageAt` : following the next cursor, from any page on.
* `cursor_pagination_exact` : the pages are the matching rows in order, and each leads back.
-/

namespace Gears.OData

open Except List

variable {t : Text} {order : ODataOrderBy}

/-! ### Texts -/

/-- A name without separators. -/
structure Plain (t : Text) : Prop where
  ne_nil : t ≠ []
  comma : ',' ∉ t
  space : ∀ c ∈ t, isWhitespace c = false

theorem trim_eq_self (h : ∀ c ∈ t, isWhitespace c = false) : trim t = t := by
  have hleft : t.dropWhile isWhitespace = t := by
    cases t with
    | nil => rfl
    | cons c t => exact dropWhile_cons_of_neg (by simp [h c mem_cons_self])
  rw [trim, hleft, rdropWhile_eq_self_iff]
  intro hne
  simp [h _ (getLast_mem hne)]

theorem Plain.carried (h : Plain t) : Carried t :=
  ⟨h.ne_nil, h.comma, trim_eq_self h.space⟩

theorem mem_of_mem_trim {c : Char} (h : c ∈ trim t) : c ∈ t :=
  (dropWhile_suffix _).subset ((List.rdropWhile_prefix _ _).subset h)

theorem of_mem_splitOnP {p : Char → Bool} {w : Text} (h : w ∈ t.splitOnP p) :
    ∀ c ∈ w, c ∈ t ∧ p c = false := by
  induction t generalizing w with
  | nil =>
    rw [splitOnP_nil, mem_singleton] at h
    simp [h]
  | cons x t ih =>
    rw [splitOnP_cons_eq_if_modifyHead] at h
    split at h
    · rcases mem_cons.1 h with rfl | h
      · simp
      · exact fun c hc => (ih h c hc).imp_left (mem_cons_of_mem _)
    · next hx =>
      obtain ⟨first, rest, hsplit⟩ := exists_cons_of_ne_nil (splitOnP_ne_nil p t)
      rw [hsplit] at h ih
      rcases mem_cons.1 h with rfl | h
      · intro c hc
        rcases mem_cons.1 hc with rfl | hc
        · exact ⟨mem_cons_self, by simpa using hx⟩
        · exact (ih mem_cons_self c hc).imp_left (mem_cons_of_mem _)
      · exact fun c hc => (ih (mem_cons_of_mem _ h) c hc).imp_left (mem_cons_of_mem _)

theorem mem_of_clauseKey {part : Text} {key : OrderKey} (h : clauseKey part = some key) :
    key.field ∈ splitWhitespace part := by
  unfold clauseKey at h
  split at h
  · next field hsplit =>
    cases h
    simp [hsplit]
  · next field dir hsplit =>
    obtain ⟨dir, -, rfl⟩ := Option.map_eq_some_iff.1 h
    simp [hsplit]
  · cases h

theorem plain_of_readClause {keys keys' : ODataOrderBy} {part : Text} (hcomma : ',' ∉ part)
    (h : readClause keys part = .ok keys') (hkeys : ∀ k ∈ keys, Plain k.field) :
    ∀ k ∈ keys', Plain k.field := by
  unfold readClause at h
  split at h
  · cases h
    exact hkeys
  · simp only [ok_iffs] at h
    obtain ⟨key, hkey, -, -, rfl⟩ := h
    have hword := mem_of_clauseKey hkey
    obtain ⟨hword, hne⟩ := mem_filter.1 hword
    have hchars := of_mem_splitOnP hword
    intro k hk
    rcases List.mem_concat_iff.1 hk with hk | rfl
    · exact hkeys k hk
    · exact ⟨by simpa using hne, fun hc => hcomma (mem_of_mem_trim (hchars _ hc).1),
        fun c hc => (hchars c hc).2⟩

theorem parseOrderby_plain {raw : Text} (h : parseOrderby raw = .ok order) :
    ∀ k ∈ order, Plain k.field := by
  unfold parseOrderby at h
  split at h
  · cases h
    simp
  · simp only [ok_iffs] at h
    obtain ⟨-, -, keys, hkeys, -, -, rfl⟩ := h
    refine foldlM_invariant
      (fun keys part hpart keys' hI hstep => plain_of_readClause ?_ hstep hI) hkeys (by simp)
    exact fun hc => by simpa using (of_mem_splitOnP hpart _ hc).2

/-- The effective order names the tiebreaker, and what it leaves out of the client's order with the
tiebreaker last comes after it. -/
theorem ensureTiebreaker_spec (order : ODataOrderBy) (tiebreaker : OrderKey) :
    (∃ k ∈ ensureTiebreaker order tiebreaker, k.field = tiebreaker.field) ∧
      ∃ rest, order ++ [tiebreaker] = ensureTiebreaker order tiebreaker ++ rest := by
  unfold ensureTiebreaker
  split
  · next hany =>
    obtain ⟨k, hk, hfield⟩ := any_eq_true.1 hany
    exact ⟨⟨k, hk, of_decide_eq_true hfield⟩, [tiebreaker], rfl⟩
  · exact ⟨⟨tiebreaker, by simp, rfl⟩, [], (append_nil _).symm⟩

/-! ### Cursors of rows -/

section Pages

variable {Row Field Filter : Type} {Value : Field → Type} {L : Listing Row Field Filter Value}
  {order : ODataOrderBy} {keys : List (Field × SortDir)} {hash : Option Text} {direction : Text}
  {r : Row} {c : CursorV1}

/-- JSON and base64 round-trip. -/
def Codec.Faithful (codec : Codec) : Prop :=
  ∀ w, ∃ token, codec.toToken w = .ok token ∧ codec.ofToken token = .ok w

/-- The key names an orderable column of the listing whose values the cursor codec round-trips. -/
structure Listing.Serves (L : Listing Row Field Filter Value) (k : OrderKey)
    (key : Field × SortDir) : Prop where
  name : L.mapping.fromName k.field = some key.1
  dir : k.dir = key.2
  orderable : L.mapping.isOrderable key.1 = true
  roundTrip : ∀ row ∈ L.table, ∃ text,
    L.mapping.encodeCursorValue key.1 (L.mapping.extractCursorValue row key.1) = .ok text ∧
      L.mapping.parseCursorValue key.1 text = .ok (L.mapping.column key.1 row)

variable (L order keys hash direction r) in
/-- The cursor points at a row of the listing. -/
structure Points (c : CursorV1) : Prop where
  values : Forall₂ (fun text key =>
    L.mapping.parseCursorValue key.1 text = .ok (L.mapping.column key.1 r)) c.k keys
  s : c.s = toSignedTokens order
  f : c.f = hash
  d : c.d = direction

theorem exists_serves (h : ∀ k ∈ order, ∃ key, L.Serves k key) :
    ∃ keys, Forall₂ L.Serves order keys := by
  induction order with
  | nil => exact ⟨[], .nil⟩
  | cons k order ih =>
    obtain ⟨hk, h⟩ := forall_mem_cons.1 h
    obtain ⟨key, hkey⟩ := hk
    obtain ⟨keys, hkeys⟩ := ih h
    exact ⟨key :: keys, .cons hkey hkeys⟩

theorem resolveKey_eq {k : OrderKey} {key : Field × SortDir} (h : L.Serves k key) :
    resolveKey L.mapping k = .ok key := by
  simp [resolveKey, h.name, h.dir]

theorem exists_points (horder : Forall₂ L.Serves order keys) (hr : r ∈ L.table)
    (hash : Option Text) (direction : Text) :
    ∃ c, buildCursorFromModel L.mapping r order hash direction = .ok c ∧
      Points L order keys hash direction r c := by
  have htexts : ∃ texts, Forall₂ (fun k t => encodeKey L.mapping r k = .ok t) order texts ∧
      Forall₂ (fun text key =>
        L.mapping.parseCursorValue key.1 text = .ok (L.mapping.column key.1 r)) texts keys := by
    induction horder with
    | nil => exact ⟨[], .nil, .nil⟩
    | cons hk _ ih =>
      obtain ⟨texts, hencode, hparse⟩ := ih
      obtain ⟨text, he, hp⟩ := hk.roundTrip r hr
      refine ⟨text :: texts, .cons ?_ hencode, .cons hp hparse⟩
      simp [encodeKey, hk.name, he]
  obtain ⟨texts, hencode, hparse⟩ := htexts
  refine ⟨⟨texts, (order.head?.map OrderKey.dir).getD .desc, toSignedTokens order, hash, direction⟩,
    ?_, hparse, rfl, rfl, rfl⟩
  rw [buildCursorFromModel, mapM_eq_ok_iff.2 hencode]
  rfl

theorem isWhitespace_of_trim_eq_nil (h : trim t = []) : ∀ c ∈ t, isWhitespace c := by
  rw [trim] at h
  cases hdrop : t.dropWhile isWhitespace with
  | nil => exact dropWhile_eq_nil_iff.1 hdrop
  | cons c rest =>
    have hhead := head?_dropWhile_not isWhitespace t
    simp_all

theorem trim_toSignedTokens_ne_nil (hne : order ≠ []) : trim (toSignedTokens order) ≠ [] := by
  intro htrim
  obtain ⟨k, rest, rfl⟩ := exists_cons_of_ne_nil hne
  have hmem : (if k.dir = .asc then '+' else '-') ∈ toSignedTokens (k :: rest) := by
    cases rest <;> simp [toSignedTokens, signedToken]
  have := isWhitespace_of_trim_eq_nil htrim _ hmem
  revert this
  split <;> decide

theorem exists_token (hcodec : L.codec.Faithful) (horder : Forall₂ L.Serves order keys)
    (hne : order ≠ []) (hdir : direction = fwd ∨ direction = bwd)
    (hc : Points L order keys hash direction r c) :
    ∃ token, c.encode L.codec = .ok token ∧ CursorV1.decode L.codec token = .ok c := by
  obtain ⟨token, hto, hof⟩ := hcodec ⟨1, c.k, c.o.text, c.s, c.f, c.d⟩
  have hk : c.k ≠ [] := by
    rw [← length_pos_iff, hc.values.length_eq, ← horder.length_eq, length_pos_iff]
    exact hne
  have hs : trim c.s ≠ [] := hc.s ▸ trim_toSignedTokens_ne_nil hne
  have ho : SortDir.ofText c.o.text = some c.o := by cases c.o <;> rfl
  have hd : ¬(c.d ≠ fwd ∧ c.d ≠ bwd) := by
    rw [hc.d]
    tauto
  refine ⟨token, hto, ?_⟩
  simp only [CursorV1.decode, hof, ho, ok_bind, rejectIf_of_not hk,
    rejectIf_of_not hs, rejectIf_of_not hd]
  rfl

theorem follow_eq {query : ODataQuery Filter} {token : Text}
    (h : CursorV1.decode L.codec token = .ok c) :
    L.follow query token = .ok { query with cursor := some c, order := [] } := by
  simp [Listing.follow, h]

/-- The keys in the reverse directions. -/
def reverseKeys (keys : List (Field × SortDir)) : List (Field × SortDir) :=
  keys.map fun key => (key.1, key.2.reverse)

theorem mapM_resolveKey (h : Forall₂ L.Serves order keys) (isBackward : Bool) :
    (if isBackward then reverseDirections order else order).mapM (resolveKey L.mapping) =
      .ok (if isBackward then reverseKeys keys else keys) := by
  rw [mapM_eq_ok_iff]
  cases isBackward with
  | false => exact h.imp fun _ _ hk => resolveKey_eq hk
  | true =>
    refine forall₂_map_left_iff.2 (forall₂_map_right_iff.2 (h.imp fun k key hk => ?_))
    simp [resolveKey, hk.name, hk.dir]

variable [∀ f, LinearOrder (Value f)] {m : FieldMapping Row Field Value} {row : Row}

instance transCmp_compareKey (key : Field × SortDir) : Std.TransCmp (compareKey m key) :=
  match key with
  | (f, .asc) => inferInstanceAs (Std.TransCmp (compareOn (m.column f)))
  | (f, .desc) =>
    have hasc : Std.TransCmp (compareOn (m.column f)) := inferInstance
    @Std.TransCmp.opposite _ _ hasc

theorem transCmp_compareKeys (keys : List (Field × SortDir)) :
    Std.TransCmp (compareKeys m keys) := by
  induction keys with
  | nil => exact { eq_swap := rfl, isLE_trans := fun _ _ => rfl }
  | cons key keys ih => exact inferInstanceAs (Std.TransCmp (compareLex (compareKey m key) _))

theorem compareKeys_reverseKeys (a b : Row) :
    compareKeys m (reverseKeys keys) a b = compareKeys m keys b a := by
  induction keys with
  | nil => rfl
  | cons key keys ih =>
    obtain ⟨f, dir⟩ := key
    change (compareKey m _ a b).then (compareKeys m (reverseKeys keys) a b) = _
    rw [ih]
    cases dir <;> rfl

/-- The values of a row, as its cursor carries them. -/
def valuesAt (m : FieldMapping Row Field Value) (keys : List (Field × SortDir)) (r : Row) :
    List (CursorValue Field Value) :=
  keys.map fun key => ⟨key.1, m.column key.1 r, key.2⟩

theorem cursorCondition_cons (isBackward : Bool) (v : CursorValue Field Value)
    (vs : List (CursorValue Field Value)) : cursorCondition m isBackward (v :: vs) row =
      (v.passes m isBackward row ||
        (decide (m.column v.field row = v.value) && cursorCondition m isBackward vs row)) := by
  rw [cursorCondition, length_cons, range_succ_eq_map, any_cons, any_map]
  refine congrArg₂ _ (by simp) ?_
  rw [Bool.eq_iff_iff]
  simp only [cursorCondition, any_eq_true, Function.comp_apply, take_succ_cons,
    all_cons, Bool.and_eq_true]
  constructor
  · rintro ⟨i, hi, ⟨heq, hall⟩, hpass⟩
    exact ⟨heq, i, hi, hall, hpass⟩
  · rintro ⟨heq, i, hi, hall, hpass⟩
    exact ⟨i, hi, ⟨heq, hall⟩, hpass⟩

theorem cursorCondition_valuesAt (isBackward : Bool) :
    cursorCondition m isBackward (valuesAt m keys r) row =
      decide ((if isBackward then compareKeys m keys row r
        else compareKeys m keys r row) = .lt) := by
  induction keys with
  | nil => cases isBackward <;> rfl
  | cons key keys ih =>
    obtain ⟨f, dir⟩ := key
    rw [valuesAt, map_cons, cursorCondition_cons]
    change (_ || (_ && cursorCondition m isBackward (valuesAt m keys r) row)) = _
    rw [ih]
    cases isBackward <;> cases dir <;>
      simp [CursorValue.passes, compareKeys, compareKey, Ordering.then_eq_lt, compare_lt_iff_lt,
        eq_comm (a := m.column f r)]

theorem buildCursorPredicate_eq (horder : Forall₂ L.Serves order keys)
    (hc : Points L order keys hash direction r c) : buildCursorPredicate L.mapping c order =
      .ok (cursorCondition L.mapping (direction = bwd) (valuesAt L.mapping keys r)) := by
  have hparse : ∀ texts, Forall₂ (fun text key =>
      L.mapping.parseCursorValue key.1 text = .ok (L.mapping.column key.1 r)) texts keys →
      Forall₂ (fun p v => parseKey L.mapping p = .ok v) (texts.zip order)
        (valuesAt L.mapping keys r) := by
    clear hc
    induction horder with
    | nil =>
      intro texts h
      cases h
      exact .nil
    | cons hk _ ih =>
      intro texts h
      cases h with
      | cons hp h =>
        refine .cons ?_ (ih _ h)
        simp [parseKey, hk.name, hk.dir, hp]
  have hlength : c.k.length = order.length := hc.values.length_eq.trans horder.length_eq.symm
  rw [buildCursorPredicate, rejectIf_of_not (not_not.2 hlength),
    mapM_eq_ok_iff.2 (hparse _ hc.values), hc.d]
  rfl

/-! ### One page -/

variable (L order keys hash direction r) in
/-- The token leads to a row. -/
def Leads (o : Option Text) : Prop :=
  ∃ token c, o = some token ∧ CursorV1.decode L.codec token = .ok c ∧
    Points L order keys hash direction r c

variable (L order keys) in
/-- The listing can serve an order that tells its rows apart. -/
structure Listing.Ordered : Prop where
  codec : L.codec.Faithful
  serves : Forall₂ L.Serves order keys
  plain : ∀ k ∈ order, Plain k.field
  ne_nil : order ≠ []
  distinct : Keyset.Distinct (compareKeys L.mapping keys) L.table
  max_pos : 1 ≤ L.limitCfg.max
  max_lt : L.limitCfg.max < 2 ^ 63

theorem buildCursorFromRow_spec (h : L.Ordered order keys) {o : Option Row}
    (ho : ∀ r ∈ o, r ∈ L.table) (hdir : direction = fwd ∨ direction = bwd) (wanted : Bool)
    (hash : Option Text) :
    ∃ t, buildCursorFromRow L.mapping L.codec wanted o order hash direction = .ok t ∧
      (wanted = false → t = none) ∧
      (wanted = true → ∀ r ∈ o, Leads L order keys hash direction r t) := by
  cases wanted with
  | false => exact ⟨none, rfl, fun _ => rfl, by simp⟩
  | true =>
    cases o with
    | none => exact ⟨none, rfl, fun _ => rfl, by simp⟩
    | some r =>
      obtain ⟨c, hbuild, hc⟩ := exists_points h.serves (ho r rfl) hash direction
      obtain ⟨token, hencode, hdecode⟩ := exists_token h.codec h.serves h.ne_nil hdir hc
      refine ⟨some token, ?_, by simp, fun _ r' hr' => ?_⟩
      · simp [buildCursorFromRow, hbuild, hencode]
      · cases hr'
        exact ⟨token, c, rfl, hdecode, hc⟩

variable {query : ODataQuery Filter} {p after : Row → Bool} {isBackward : Bool} {limit : ℕ}
  {l : List Row}

/-- The rows of a page, when `l` are the rows of its side in the order of the query. -/
def pageOf (isBackward : Bool) (limit : ℕ) (l : List Row) : List Row :=
  if isBackward then (l.take limit).reverse else l.take limit

theorem clampLimit_bounds (h : L.Ordered order keys) (req : Option ℕ) :
    1 ≤ clampLimit req L.limitCfg ∧ clampLimit req L.limitCfg < 2 ^ 63 := by
  have := h.max_pos
  have := h.max_lt
  unfold clampLimit
  dsimp only
  split <;> omega

variable (L order keys query isBackward limit l) in
/-- What a page says about the rows of its side. -/
structure PageAt (page : List Row × PageInfo) : Prop where
  rows : page.1 = pageOf isBackward limit l
  last : isBackward = false → l.length ≤ limit → page.2.nextCursor = none
  next : limit < l.length → ∀ r ∈ (pageOf isBackward limit l).getLast?,
    Leads L order keys query.filterHash fwd r page.2.nextCursor
  prev : isBackward = false → query.cursor.isSome → ∀ r ∈ (pageOf isBackward limit l).head?,
    Leads L order keys query.filterHash bwd r page.2.prevCursor

theorem cut_take (n : ℕ) : (if n < (l.take (n + 1)).length then (l.take (n + 1)).dropLast
    else l.take (n + 1)) = l.take n ∧
    (if n < (l.take (n + 1)).length then (l.take (n + 1)).take n else l.take (n + 1)) =
      l.take n := by
  rw [dropLast_eq_take, length_take]
  split
  · rw [take_take, take_take]
    constructor <;> congr 1 <;> omega
  · rw [take_of_length_le (by omega), take_of_length_le (by omega)]
    exact ⟨rfl, rfl⟩

section

variable (h : L.Ordered order keys)
include h

theorem page_spec (horder : effectiveOrder query L.tiebreaker = .ok order)
    (hhash : ∀ cf ∈ query.cursor.bind CursorV1.f, query.filterHash = some cf)
    (hfilter : L.filterCondition query.filter = .ok p)
    (hafter : cursorPredicate L.mapping query.cursor order = .ok after)
    (hback : (query.cursor.any fun c => c.d = bwd) = isBackward)
    (hl : Keyset.sorted (compareKeys L.mapping (if isBackward then reverseKeys keys else keys))
      ((L.table.filter p).filter after) = l)
    (hlimit : clampLimit query.limit L.limitCfg = limit) :
    ∃ page, L.paginateOdataCollect query = .ok page ∧
      PageAt L order keys query isBackward limit l page := by
  obtain ⟨hpos, hlt⟩ := hlimit ▸ clampLimit_bounds h query.limit
  have hfetch : (limit + 1) % 2 ^ 64 = limit + 1 := Nat.mod_eq_of_lt (by omega)
  have hchecked : order.forM (checkOrderable L.mapping) = .ok () := by
    refine forM_eq_ok_iff.2 fun k hk => ?_
    obtain ⟨key, -, hkey⟩ := h.serves.exists_of_mem_left hk
    simp [checkOrderable, hkey.name, hkey.orderable]
  have hmatch : ¬∃ cf ∈ query.cursor.bind CursorV1.f, query.filterHash ≠ some cf := by
    rintro ⟨cf, hcf, hne⟩
    exact hne (hhash cf hcf)
  have hmem : ∀ r ∈ pageOf isBackward limit l, r ∈ L.table := fun r hr => by
    have hr : r ∈ l.take limit := by
      cases isBackward with
      | false => exact hr
      | true => exact mem_reverse.1 hr
    have hr := mem_of_mem_take hr
    rw [← hl, Keyset.sorted_perm.mem_iff] at hr
    exact mem_of_mem_filter (mem_of_mem_filter hr)
  have hmore : limit < (l.take (limit + 1)).length ↔ limit < l.length := by
    rw [length_take]
    omega
  obtain ⟨next, hnext, hnone, hsome⟩ := buildCursorFromRow_spec h
    (fun r hr => hmem r (mem_of_getLast? hr))
    (.inl rfl) (isBackward || decide (limit < l.length)) query.filterHash
  obtain ⟨prev, hprev, -, hleads⟩ := buildCursorFromRow_spec h
    (fun r hr => hmem r (mem_of_head? hr))
    (.inr rfl) (if isBackward then decide (limit < l.length) else query.cursor.isSome)
    query.filterHash
  refine ⟨(pageOf isBackward limit l, ⟨next, prev, limit⟩), ?_, rfl, ?_, ?_, ?_⟩
  · unfold Listing.paginateOdataCollect
    simp only [horder, hchecked, rejectIf_of_not hmatch, hfilter, hafter, hback,
      mapM_resolveKey h.serves, hlimit, hfetch, hl, ok_bind, decide_eq_true_eq,
      (cut_take limit).1, (cut_take limit).2, hmore]
    rw [pageOf] at hnext hprev ⊢
    rw [hnext, hprev]
    rfl
  · rintro rfl hle
    exact hnone (by simpa using hle)
  · intro hlt
    exact hsome (by simp [hlt])
  · rintro rfl hcursor
    exact hleads hcursor

/-- The matching rows in the order of the keys. -/
def Listing.ordered (L : Listing Row Field Filter Value) (keys : List (Field × SortDir))
    (p : Row → Bool) : List Row :=
  Keyset.sorted (compareKeys L.mapping keys) (L.table.filter p)

theorem increasing_ordered (p : Row → Bool) :
    Keyset.Increasing (compareKeys L.mapping keys) (L.ordered keys p) :=
  have := transCmp_compareKeys (m := L.mapping) keys
  Keyset.increasing_sorted (h.distinct.filter p)

theorem sorted_after {pre post : List Row} (hsplit : L.ordered keys p = pre ++ r :: post)
    (isBackward : Bool) :
    Keyset.sorted (compareKeys L.mapping (if isBackward then reverseKeys keys else keys))
        ((L.table.filter p).filter
          (cursorCondition L.mapping isBackward (valuesAt L.mapping keys r))) =
      if isBackward then pre.reverse else post := by
  have := transCmp_compareKeys (m := L.mapping) keys
  have hinc := increasing_ordered h p
  rw [hsplit] at hinc
  obtain ⟨hafter, hbefore⟩ := Keyset.filter_split hinc
  cases isBackward with
  | false =>
    rw [if_neg Bool.false_ne_true, Keyset.sorted_filter _ (h.distinct.filter p)]
    change (L.ordered keys p).filter _ = post
    rw [hsplit]
    conv_rhs => rw [← hafter]
    exact filter_congr fun row _ => cursorCondition_valuesAt false
  | true =>
    have hswap : compareKeys L.mapping (reverseKeys keys) =
        fun a b => compareKeys L.mapping keys b a := by
      funext a b
      exact compareKeys_reverseKeys a b
    rw [if_pos rfl, hswap, Keyset.sorted_swap ((h.distinct.filter p).filter _),
      Keyset.sorted_filter _ (h.distinct.filter p)]
    change ((L.ordered keys p).filter _).reverse = _
    rw [hsplit]
    conv_rhs => rw [← hbefore]
    exact congrArg _ (filter_congr fun row _ => cursorCondition_valuesAt true)

end

section Cursor

variable {q : ODataQuery Filter} {pre post : List Row} (h : L.Ordered order keys)
  (hfilter : L.filterCondition q.filter = .ok p) (hcursor : q.cursor = some c)
  (hlimit : clampLimit q.limit L.limitCfg = limit)
  (hsplit : L.ordered keys p = pre ++ r :: post)
include h hfilter hcursor hlimit hsplit

theorem page_of_points (hc : Points L order keys q.filterHash direction r c) :
    ∃ page, L.paginateOdataCollect q = .ok page ∧
      PageAt L order keys q (direction = bwd) limit (if direction = bwd then pre.reverse else post)
        page := by
  refine page_spec h ?_ ?_ hfilter ?_ ?_ ((sorted_after h hsplit _).trans (by simp)) hlimit
  · have horder := fromSignedTokens_toSignedTokens h.ne_nil fun k hk => (h.plain k hk).carried
    simp [effectiveOrder, hcursor, hc.s, horder]
  · simp [hcursor, hc.f]
  · rw [hcursor, cursorPredicate, buildCursorPredicate_eq h.serves hc]
  · simp [hcursor, hc.d]

theorem page_backward (hc : Points L order keys q.filterHash bwd r c) :
    ∃ page, L.paginateOdataCollect q = .ok page ∧ page.1 = pre.drop (pre.length - limit) := by
  obtain ⟨page, hpage, hat⟩ := page_of_points h hfilter hcursor hlimit hsplit hc
  refine ⟨page, hpage, hat.rows.trans ?_⟩
  change (pre.reverse.take limit).reverse = _
  rw [take_reverse, reverse_reverse]

end Cursor

theorem page_first (h : L.Ordered order keys) (hfilter : L.filterCondition query.filter = .ok p)
    (hcursor : query.cursor = none) (horder : ensureTiebreaker query.order L.tiebreaker = order)
    (hlimit : clampLimit query.limit L.limitCfg = limit) :
    ∃ page, L.paginateOdataCollect query = .ok page ∧
      PageAt L order keys query false limit (L.ordered keys p) page := by
  have hafter : cursorPredicate L.mapping query.cursor order = .ok fun _ => true := by
    rw [hcursor, cursorPredicate]
  refine page_spec h ?_ (by simp [hcursor]) hfilter hafter ?_ ?_ hlimit
  · rw [effectiveOrder, hcursor, horder]
  · simp [hcursor]
  · simp [Listing.ordered]

/-- The pages a client reads from a query on, following the next cursor until there is none. -/
inductive Listing.Reads (L : Listing Row Field Filter Value) :
    ODataQuery Filter → List (List Row × PageInfo) → Prop
  | last {query : ODataQuery Filter} {page : List Row × PageInfo} :
    L.paginateOdataCollect query = .ok page → page.2.nextCursor = none → Reads L query [page]
  | next {query query' : ODataQuery Filter} {page : List Row × PageInfo} {token : Text}
    {pages : List (List Row × PageInfo)} :
    L.paginateOdataCollect query = .ok page → page.2.nextCursor = some token →
    L.follow query token = .ok query' → Reads L query' pages → Reads L query (page :: pages)

/-- The previous cursor of the second page leads back to the first. -/
def Listing.LeadsBack (L : Listing Row Field Filter Value) (query : ODataQuery Filter)
    (page page' : List Row × PageInfo) : Prop :=
  ∃ token query' back, page'.2.prevCursor = some token ∧ L.follow query token = .ok query' ∧
    L.paginateOdataCollect query' = .ok back ∧ back.1 = page.1

/-- **From any page on** the pages are the rest of the listing, and each leads back to the one
before. -/
theorem reads_of_pageAt (h : L.Ordered order keys) {base query : ODataQuery Filter}
    (hfilter : L.filterCondition base.filter = .ok p)
    (hlimit : clampLimit base.limit L.limitCfg = limit) {page : List Row × PageInfo}
    (rest : List Row) {pre : List Row} (hsplit : L.ordered keys p = pre ++ rest)
    (hquery : ∀ token, L.follow query token = L.follow base token)
    (hhash : query.filterHash = base.filterHash) (hpage : L.paginateOdataCollect query = .ok page)
    (hat : PageAt L order keys query false limit rest page) :
    ∃ pages, L.Reads query (page :: pages) ∧ (page :: pages).flatMap Prod.fst = rest ∧
      (page :: pages).IsChain (L.LeadsBack base) := by
  by_cases hmore : limit < rest.length
  · have hpos : 1 ≤ limit := hlimit ▸ (clampLimit_bounds h base.limit).1
    have hchunk : (rest.take limit).length = limit := by
      rw [length_take]
      omega
    have hne : rest.take limit ≠ [] := ne_nil_of_length_pos (by omega)
    obtain ⟨token, c, htoken, hdecode, hc⟩ := hat.next hmore _ (getLast?_eq_some_getLast hne)
    -- the next page starts after the last row of this one
    have hrest : L.ordered keys p = (pre ++ rest.take limit) ++ rest.drop limit := by
      rw [hsplit, append_assoc, take_append_drop]
    have hsplit' : L.ordered keys p = (pre ++ (rest.take limit).dropLast) ++
        (rest.take limit).getLast hne :: rest.drop limit := by
      rw [hrest, append_assoc, append_assoc, append_cons, dropLast_append_getLast]
    obtain ⟨page', hpage', hat'⟩ := page_of_points
      (q := { base with cursor := some c, order := [] }) h hfilter rfl hlimit hsplit' (hhash ▸ hc)
    have hquery' : ∀ token, L.follow { base with cursor := some c, order := [] } token =
        L.follow base token := fun _ => rfl
    obtain ⟨pages, hreads, hflat, hchain⟩ :=
      reads_of_pageAt h hfilter hlimit (rest.drop limit) hrest hquery' rfl hpage' hat'
    have hfollow := (hquery token).trans (follow_eq hdecode)
    refine ⟨page' :: pages, .next hpage htoken hfollow hreads, ?_, .cons_cons ?_ hchain⟩
    · rw [flatMap_cons, hflat, hat.rows]
      exact take_append_drop limit rest
    · -- and its first row is the one that this page ends before
      obtain ⟨x, xs, hx⟩ := exists_cons_of_length_pos (l := rest.drop limit)
        (by rw [length_drop]; omega)
      have hfirst : ((rest.drop limit).take limit).head? = some x := by
        rw [hx, head?_take, if_neg (by omega)]
        rfl
      obtain ⟨token', c', htoken', hdecode', hc'⟩ := hat'.prev rfl rfl x hfirst
      obtain ⟨back, hback, hrows⟩ := page_backward
        (q := { base with cursor := some c', order := [] }) h hfilter rfl hlimit (hx ▸ hrest) hc'
      refine ⟨token', _, back, htoken', follow_eq hdecode', hback, ?_⟩
      rw [hrows, hat.rows, length_append, hchunk, Nat.add_sub_cancel, drop_left]
      rfl
  · refine ⟨[], .last hpage (hat.last rfl (by omega)), ?_, .singleton _⟩
    rw [flatMap_singleton, hat.rows]
    exact take_of_length_le (by omega)

theorem compareKeys_eq_eq {a b : Row} (h : compareKeys m keys a b = .eq) :
    ∀ key ∈ keys, m.column key.1 a = m.column key.1 b := by
  induction keys with
  | nil => simp
  | cons key keys ih =>
    obtain ⟨hkey, hkeys⟩ := Ordering.then_eq_eq.1 h
    refine forall_mem_cons.2 ⟨?_, ih hkeys⟩
    obtain ⟨f, dir⟩ := key
    cases dir with
    | asc => exact compare_eq_iff_eq.1 hkey
    | desc => exact (compare_eq_iff_eq.1 hkey).symm

theorem compareKeys_append {a b : Row} (ks : List (Field × SortDir))
    (h : compareKeys m keys a b = .lt) : compareKeys m (keys ++ ks) a b = .lt := by
  induction keys with
  | nil => cases h
  | cons key keys ih =>
    refine Ordering.then_eq_lt.2 ((Ordering.then_eq_lt.1 h).imp id fun h => ⟨h.1, ih h.2⟩)

/-- **Cursor pagination enumerates exactly.**  Following the next cursor from the first page until
there is none yields every matching row once, in the client's order with the tiebreaker last, and
the previous cursor of each page leads back to the page before. -/
theorem cursor_pagination_exact {raw : Text} (hcodec : L.codec.Faithful)
    (hmax : 1 ≤ L.limitCfg.max) (hlt : L.limitCfg.max < 2 ^ 63)
    (hraw : parseOrderby raw = .ok query.order) (hname : Plain L.tiebreaker.field)
    (hserves : ∀ k ∈ query.order ++ [L.tiebreaker], ∃ key, L.Serves k key)
    (hunique : ∀ f, L.mapping.fromName L.tiebreaker.field = some f →
      (L.table.map (L.mapping.column f)).Nodup)
    (hcursor : query.cursor = none) (hfilter : L.filterCondition query.filter = .ok p) :
    ∃ pages keys, L.Reads query pages ∧
      (query.order ++ [L.tiebreaker]).mapM (resolveKey L.mapping) = .ok keys ∧
      (pages.flatMap Prod.fst).Perm (L.table.filter p) ∧
      (pages.flatMap Prod.fst).Pairwise (fun a b => compareKeys L.mapping keys a b = .lt) ∧
      pages.IsChain (L.LeadsBack query) := by
  obtain ⟨htie, rest, hrest⟩ := ensureTiebreaker_spec query.order L.tiebreaker
  have hplain : ∀ k ∈ query.order ++ [L.tiebreaker], Plain k.field := by
    intro k hk
    rcases mem_append.1 hk with hk | hk
    · exact parseOrderby_plain hraw k hk
    · exact mem_singleton.1 hk ▸ hname
  rw [hrest] at hplain hserves ⊢
  obtain ⟨keys, hkeys⟩ := exists_serves fun k hk => hserves k (mem_append_left _ hk)
  obtain ⟨ks, hks⟩ := exists_serves fun k hk => hserves k (mem_append_right _ hk)
  have hordered : L.Ordered (ensureTiebreaker query.order L.tiebreaker) keys := by
    refine ⟨hcodec, hkeys, fun k hk => hplain k (mem_append_left _ hk), ?_, ?_, hmax, hlt⟩
    · obtain ⟨k, hk, -⟩ := htie
      exact ne_nil_of_mem hk
    · obtain ⟨k, hk, hfield⟩ := htie
      obtain ⟨key, hkey, hs⟩ := hkeys.exists_of_mem_left hk
      refine (pairwise_map.1 (hunique key.1 (hfield ▸ hs.name))).imp fun hne heq => ?_
      exact hne (compareKeys_eq_eq heq key hkey)
  obtain ⟨page, hpage, hat⟩ := page_first hordered hfilter hcursor rfl rfl
  obtain ⟨pages, hreads, hflat, hchain⟩ := reads_of_pageAt hordered hfilter rfl (L.ordered keys p)
    (nil_append _).symm (fun _ => rfl) rfl hpage hat
  refine ⟨page :: pages, keys ++ ks, hreads, ?_, ?_, ?_, hchain⟩
  · exact mapM_eq_ok_iff.2 ((rel_append hkeys hks).imp fun _ _ hk => resolveKey_eq hk)
  · rw [hflat]
    exact Keyset.sorted_perm
  · rw [hflat]
    exact (increasing_ordered hordered p).imp fun hab => compareKeys_append ks hab

end Pages

/-! ### A sample listing -/

/-- The parts of the JSON object as one value. -/
def Wire.parts (w : Wire) : ℕ × List Text × Text × Text × Option Text × Text :=
  (w.v, w.k, w.o, w.s, w.f, w.d)

instance encodableChar : Encodable Char :=
  Encodable.ofLeftInverse Char.toNat Char.ofNat Char.ofNat_toNat

/-- Objects numbered and written as decimals, in place of the JSON text in base64. -/
def sampleCodec : Codec where
  toToken w := .ok (Nat.toDigits 10 (Encodable.encode w.parts))
  ofToken t := match (Encodable.decode (Nat.ofDigitChars 10 t 0) :
      Option (ℕ × List Text × Text × Text × Option Text × Text)) with
    | some (v, k, o, s, f, d) => .ok ⟨v, k, o, s, f, d⟩
    | none => .error .cursorInvalidJson

/-- People with an id and an age; the cursor carries decimals. -/
def sampleListing : Listing (ℕ × ℕ) Bool Unit (fun _ => ℕ) where
  mapping :=
    { fromName := fun t =>
        if t = "id".toList then some false else if t = "age".toList then some true else none
      isOrderable := fun _ => true
      column := fun f row => if f then row.2 else row.1
      extractCursorValue := fun row f => if f then row.2 else row.1
      encodeCursorValue := fun _ n => .ok (Nat.toDigits 10 n)
      parseCursorValue := fun _ t => .ok (Nat.ofDigitChars 10 t 0) }
  codec := sampleCodec
  condition := fun _ => .ok fun row => row.1 ≠ 4
  tiebreaker := ⟨"id".toList, .asc⟩
  limitCfg := ⟨2, 10⟩
  table := [(1, 7), (2, 5), (3, 7), (4, 1), (5, 5)]

/-- The people in the filter by age, the oldest first. -/
def sampleQuery : ODataQuery Unit where
  filter := some ()
  order := [⟨"age".toList, .desc⟩]
  limit := none
  cursor := none
  filterHash := some "h".toList

theorem cursor_pagination_exact_sample : ∃ pages, sampleListing.Reads sampleQuery pages ∧
    (pages.flatMap Prod.fst).Perm [(1, 7), (2, 5), (3, 7), (5, 5)] ∧
    pages.IsChain (sampleListing.LeadsBack sampleQuery) := by
  have hcodec : sampleListing.codec.Faithful := by
    intro w
    refine ⟨_, rfl, ?_⟩
    simp only [sampleListing, sampleCodec, Nat.ofDigitChars_ten_toDigits, Encodable.encodek]
    rfl
  have hserves : ∀ k ∈ sampleQuery.order ++ [sampleListing.tiebreaker],
      ∃ key, sampleListing.Serves k key :=
    forall_mem_cons.2
      ⟨⟨(true, .desc), rfl, rfl, rfl,
          fun _ _ => ⟨_, rfl, congrArg _ Nat.ofDigitChars_ten_toDigits⟩⟩,
        forall_mem_singleton.2 ⟨(false, .asc), rfl, rfl, rfl,
          fun _ _ => ⟨_, rfl, congrArg _ Nat.ofDigitChars_ten_toDigits⟩⟩⟩
  have hunique : ∀ f, sampleListing.mapping.fromName sampleListing.tiebreaker.field = some f →
      (sampleListing.table.map (sampleListing.mapping.column f)).Nodup := by
    intro f hf
    cases hf
    decide
  have hraw : parseOrderby " age desc".toList = .ok sampleQuery.order := by decide +kernel
  have hname : Plain sampleListing.tiebreaker.field :=
    ⟨by decide, by decide, by simp [sampleListing, isWhitespace]⟩
  have hlt : sampleListing.limitCfg.max < 2 ^ 63 := by norm_num [sampleListing]
  have hfilter : sampleListing.filterCondition sampleQuery.filter =
      .ok (fun row => decide (row.1 ≠ 4)) := by
    simp [Listing.filterCondition, sampleListing, sampleQuery]
  obtain ⟨pages, keys, hreads, -, hperm, -, hchain⟩ :=
    cursor_pagination_exact hcodec (by decide) hlt hraw hname hserves hunique rfl hfilter
  exact ⟨pages, hreads, by simpa [sampleListing] using hperm, hchain⟩

end Gears.OData
