import Gears.OData.Paging

/-!
# The two readers of a cursor's order

The order of a cursor is read by `fromSignedTokens`, and compared with an order by a second reader
of the same text.

* `equalsSignedTokens` : the comparison, which passes over what it cannot read.
* `signed_token_readers` : both readers, and the way back from an order's own text.
-/

namespace Gears.OData

open Except List

variable {order keys out : ODataOrderBy}

/-! ### The comparison -/

/-- What the comparison reads in a segment. -/
def readToken (t : Text) : Option (Text × SortDir) :=
  match trim t with
  | [] => none
  | c :: rest =>
    let (dir, name) := if c = '+' then (SortDir.asc, rest) else if c = '-' then (.desc, rest)
      else (.asc, c :: rest)
    if name = [] then none else some (name, dir)

/-- Does the signed text name the order? -/
def equalsSignedTokens (order : ODataOrderBy) (signed : Text) : Bool :=
  let theirs := (signed.splitOn ',').filterMap readToken
  if theirs.length ≠ order.length then false
  else (order.zip theirs).all fun (a, n, d) => a.field = n && a.dir = d

/-- A segment with a sign and no name. -/
def IsBareSign (seg : Text) : Prop := trim seg = ['+'] ∨ trim seg = ['-']

instance (seg : Text) : Decidable (IsBareSign seg) :=
  inferInstanceAs (Decidable (trim seg = ['+'] ∨ trim seg = ['-']))

/-- The key that the comparison reads in a segment. -/
def segmentKey (seg : Text) : Option OrderKey := (readToken seg).map fun (n, d) => ⟨n, d⟩

theorem equalsSignedTokens_iff {signed : Text} :
    equalsSignedTokens order signed ↔ (signed.splitOn ',').filterMap segmentKey = order := by
  unfold equalsSignedTokens segmentKey
  rw [← map_filterMap]
  generalize (signed.splitOn ',').filterMap readToken = theirs
  induction order generalizing theirs with
  | nil => cases theirs <;> simp
  | cons k order ih =>
    cases theirs with
    | nil => simp
    | cons token theirs =>
      obtain ⟨field, dir⟩ := k
      grind

theorem readSegment_iff {seg : Text} : readSegment out seg = .ok keys ↔
      ¬ IsBareSign seg ∧ out ++ (segmentKey seg).toList = keys := by
  unfold readSegment IsBareSign segmentKey readToken
  cases trim seg with
  | nil => simp
  | cons c rest => grind

theorem foldlM_readSegment_iff {segs : List Text} : segs.foldlM readSegment out = .ok keys ↔
      (∀ seg ∈ segs, ¬ IsBareSign seg) ∧ out ++ segs.filterMap segmentKey = keys := by
  induction segs generalizing out with
  | nil => simp
  | cons seg segs ih =>
    simp only [foldlM_cons, ok_iffs, readSegment_iff, ih, filterMap_cons]
    cases segmentKey seg <;> simp [and_assoc]

/-- The strict reader returns what the comparison accepts, for a non-empty order and a text without
bare signs. -/
theorem fromSignedTokens_iff {signed : Text} : fromSignedTokens signed = .ok order ↔
      equalsSignedTokens order signed ∧ order ≠ [] ∧
        ∀ seg ∈ signed.splitOn ',', ¬ IsBareSign seg := by
  simp only [fromSignedTokens, ok_iffs, foldlM_readSegment_iff, equalsSignedTokens_iff]
  constructor
  · rintro ⟨out, ⟨hbare, hout⟩, -, hne, rfl⟩
    exact ⟨hout, hne, hbare⟩
  · rintro ⟨hout, hne, hbare⟩
    exact ⟨order, ⟨hbare, hout⟩, (), hne, rfl⟩

/-- A name that a signed token can carry. -/
structure Carried (t : Text) : Prop where
  ne_nil : t ≠ []
  comma : ',' ∉ t
  trimmed : trim t = t

theorem trim_signedToken {k : OrderKey} (hk : Carried k.field) :
    trim (signedToken k) = signedToken k := by
  have hsign : isWhitespace (if k.dir = .asc then '+' else '-') = false := by split <;> decide
  have hleft : k.field.dropWhile isWhitespace = k.field := by
    have hprefix := rdropWhile_prefix isWhitespace (k.field.dropWhile isWhitespace)
    refine (dropWhile_suffix _).eq_of_length_le ?_
    calc k.field.length = (trim k.field).length := by rw [hk.trimmed]
      _ ≤ (k.field.dropWhile isWhitespace).length := hprefix.length_le
  have hlast := hk.trimmed
  rw [trim, hleft, rdropWhile_eq_self_iff] at hlast
  rw [signedToken, trim, dropWhile_cons_of_neg (by simp [hsign]), rdropWhile_eq_self_iff]
  intro hne
  rw [getLast_cons hk.ne_nil]
  exact hlast hk.ne_nil

theorem segmentKey_signedToken {k : OrderKey} (hk : Carried k.field) :
    segmentKey (signedToken k) = some k ∧ ¬ IsBareSign (signedToken k) := by
  rw [segmentKey, readToken, IsBareSign, trim_signedToken hk]
  obtain ⟨field, dir⟩ := k
  cases dir <;> simp [signedToken, hk.ne_nil]

theorem fromSignedTokens_toSignedTokens (hne : order ≠ []) (hnames : ∀ k ∈ order, Carried k.field) :
    fromSignedTokens (toSignedTokens order) = .ok order := by
  have hsplit : (toSignedTokens order).splitOn ',' = order.map signedToken := by
    refine splitOn_intercalate _ (fun t ht => ?_) (by simpa using hne)
    obtain ⟨k, hk, rfl⟩ := mem_map.1 ht
    intro hc
    rcases mem_cons.1 hc with hc | hc
    · revert hc
      split <;> decide
    · exact (hnames k hk).comma hc
  rw [fromSignedTokens_iff, equalsSignedTokens_iff, hsplit]
  refine ⟨?_, hne, ?_⟩
  · rw [filterMap_map]
    calc order.filterMap (segmentKey ∘ signedToken) = order.filterMap some :=
          filterMap_congr fun k hk => (segmentKey_signedToken (hnames k hk)).1
      _ = order := filterMap_some
  · intro seg hseg
    obtain ⟨k, hk, rfl⟩ := mem_map.1 hseg
    exact (segmentKey_signedToken (hnames k hk)).2

/-- **The two readers of a cursor's order.**  The strict reader returns an order exactly if the
comparison accepts it, the order is not empty and no segment of the text is a bare sign; and the
text of an order is read back as the order. -/
theorem signed_token_readers (order : ODataOrderBy) :
    (∀ signed, fromSignedTokens signed = .ok order ↔
      equalsSignedTokens order signed ∧ order ≠ [] ∧
        ∀ seg ∈ signed.splitOn ',', ¬ IsBareSign seg) ∧
    (order ≠ [] → (∀ k ∈ order, Carried k.field) →
      fromSignedTokens (toSignedTokens order) = .ok order) :=
  ⟨fun _ => fromSignedTokens_iff, fromSignedTokens_toSignedTokens⟩

/-- The comparison passes over a bare sign that the strict reader refuses. -/
theorem bare_sign_passed_over :
    ¬ ∀ (order : ODataOrderBy) (signed : Text),
      (equalsSignedTokens order signed ↔ fromSignedTokens signed = .ok order) := by
  intro h
  have := h [⟨['a'], .asc⟩] ['+', 'a', ',', '-']
  revert this
  decide

end Gears.OData
