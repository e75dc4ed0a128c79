import Gears.Lib.Except
import Gears.Lib.Keyset

/-!
# Cursor pagination

A listing is read page by page: a page is cut from the rows in the requested order, one row more
than the limit is fetched to see whether there are others, and a cursor names the row that the next
page starts after or that the previous page ends before.

* `ODataOrderBy`, `parseOrderby`, `toSignedTokens`, `fromSignedTokens` : the order and its texts.
* `CursorV1` : the cursor with its token.
* `FieldMapping` : what the listing supplies about its fields and columns.
* `paginateOdataCollect` : one page; `Listing.follow` is the query of the request after it.
-/

namespace Gears.OData

open Except

/-- The characters of a string. -/
abbrev Text := List Char

/-- The white space of `str::trim` and `str::split_whitespace`. -/
def isWhitespace (c : Char) : Bool :=
  let n := c.toNat
  decide (9 ≤ n ∧ n ≤ 13) || [0x20, 0x85, 0xA0, 0x1680].contains n ||
    decide (0x2000 ≤ n ∧ n ≤ 0x200A) || [0x2028, 0x2029, 0x202F, 0x205F, 0x3000].contains n

/-- The text without white space at its ends. -/
def trim (t : Text) : Text := (t.dropWhile isWhitespace).rdropWhile isWhitespace

/-- The words of a text. -/
def splitWhitespace (t : Text) : List Text := (t.splitOnP isWhitespace).filter (· ≠ [])

/-! ### The order -/

/-- The errors of a listing that the model can meet. -/
inductive ODataError
  | invalidFilter (reason : Text)
  | invalidOrderByField (field : Text)
  | filterMismatch
  | invalidCursor
  | cursorInvalidBase64
  | cursorInvalidJson
  | cursorInvalidVersion
  | cursorInvalidKeys
  | cursorInvalidFields
  | cursorInvalidDirection
  deriving DecidableEq

/-- The direction of a key. -/
inductive SortDir
  | asc
  | desc
  deriving DecidableEq

namespace SortDir

/-- The other direction. -/
def reverse : SortDir → SortDir
  | asc => desc
  | desc => asc

/-- The wire name of a direction. -/
def text : SortDir → Text
  | asc => "asc".toList
  | desc => "desc".toList

/-- The direction of a wire name. -/
def ofText (t : Text) : Option SortDir :=
  if t = text asc then some asc else if t = text desc then some desc else none

end SortDir

/-- One key of an order. -/
structure OrderKey where
  field : Text
  dir : SortDir
  deriving DecidableEq

/-- An order, its first key first. -/
abbrev ODataOrderBy := List OrderKey

/-- Append the tiebreaker if it is missing. -/
def ensureTiebreaker (order : ODataOrderBy) (tiebreaker : OrderKey) : ODataOrderBy :=
  if order.any fun k => k.field = tiebreaker.field then order else order ++ [tiebreaker]

/-- Reverse every direction. -/
def reverseDirections (order : ODataOrderBy) : ODataOrderBy :=
  order.map fun k => { k with dir := k.dir.reverse }

/-- A key as it stands in a cursor. -/
def signedToken (k : OrderKey) : Text := (if k.dir = .asc then '+' else '-') :: k.field

/-- The order as it stands in a cursor: `+f1,-f2`. -/
def toSignedTokens (order : ODataOrderBy) : Text := [','].intercalate (order.map signedToken)

/-- One segment of the signed tokens. -/
def readSegment (out : ODataOrderBy) (seg : Text) : Except ODataError ODataOrderBy :=
  match trim seg with
  | [] => .ok out
  | c :: rest =>
    let key : OrderKey := if c = '+' then ⟨rest, .asc⟩ else if c = '-' then ⟨rest, .desc⟩
      else ⟨c :: rest, .asc⟩
    if key.field = [] then .error (.invalidOrderByField (c :: rest)) else .ok (out ++ [key])

/-- Read the order of a cursor. -/
def fromSignedTokens (signed : Text) : Except ODataError ODataOrderBy := do
  let out ← (signed.splitOn ',').foldlM readSegment []
  rejectIf (out = []) (.invalidOrderByField "empty order".toList)
  pure out

/-- The most bytes of `$orderby`. -/
def maxOrderbyLen : ℕ := 1024

/-- The most keys of `$orderby`. -/
def maxOrderFields : ℕ := 10

/-- The words of a clause: a field, and a direction if there is one. -/
def clauseKey (part : Text) : Option OrderKey :=
  match splitWhitespace part with
  | [field] => some ⟨field, .asc⟩
  | [field, dir] => (SortDir.ofText dir).map (⟨field, ·⟩)
  | _ => none

/-- One clause of `$orderby`. -/
def readClause (keys : ODataOrderBy) (part : Text) : Except ODataError ODataOrderBy :=
  if trim part = [] then .ok keys
  else do
    let key ← okOr (clauseKey (trim part))
      (.invalidOrderByField ("invalid orderby clause: ".toList ++ trim part))
    rejectIf (key.field = [])
      (.invalidOrderByField "empty field name in orderby".toList)
    pure (keys ++ [key])

/-- Parse the text of `$orderby`. -/
def parseOrderby (raw : Text) : Except ODataError ODataOrderBy :=
  if trim raw = [] then .ok []
  else do
    rejectIf (maxOrderbyLen < ((trim raw).map Char.utf8Size).sum)
      (.invalidOrderByField "orderby too long".toList)
    let keys ← ((trim raw).splitOn ',').foldlM readClause []
    rejectIf (maxOrderFields < keys.length)
      (.invalidOrderByField "too many order fields".toList)
    pure keys

/-- The cursor of a next page. -/
def fwd : Text := "fwd".toList

/-- The cursor of a previous page. -/
def bwd : Text := "bwd".toList

/-- The row that a page starts after or ends before. -/
structure CursorV1 where
  /-- The values of the row, one for each key of the order. -/
  k : List Text
  o : SortDir
  /-- The order, as signed tokens. -/
  s : Text
  /-- The hash of the filter. -/
  f : Option Text
  /-- `fwd` or `bwd`. -/
  d : Text
  deriving DecidableEq

/-- The JSON object of a cursor; the version is a natural number for `u8`. -/
structure Wire where
  v : ℕ
  k : List Text
  o : Text
  s : Text
  f : Option Text
  d : Text

/-- The text form of the JSON object: `serde_json` and the URL-safe base64. -/
structure Codec where
  toToken : Wire → Except Unit Text
  ofToken : Text → Except ODataError Wire

/-- The token of a cursor. -/
def CursorV1.encode (codec : Codec) (c : CursorV1) : Except Unit Text :=
  codec.toToken ⟨1, c.k, c.o.text, c.s, c.f, c.d⟩

/-- The cursor of a token. -/
def CursorV1.decode (codec : Codec) (token : Text) : Except ODataError CursorV1 := do
  let w ← codec.ofToken token
  rejectIf (w.v ≠ 1) .cursorInvalidVersion
  let o ← okOr (SortDir.ofText w.o) .cursorInvalidDirection
  rejectIf (w.k = []) .cursorInvalidKeys
  rejectIf (trim w.s = []) .cursorInvalidFields
  rejectIf (w.d ≠ fwd ∧ w.d ≠ bwd) .cursorInvalidDirection
  pure ⟨w.k, o, w.s, w.f, w.d⟩

/-! ### One page -/

section Page

variable {Row Field Filter : Type} {Value : Field → Type} [∀ f, LinearOrder (Value f)]

/-- What a listing says about its fields: how they are named, the columns they are mapped to, and
the texts of their values in a cursor. -/
structure FieldMapping (Row Field : Type) (Value : Field → Type) where
  fromName : Text → Option Field
  isOrderable : Field → Bool
  /-- The value in the column that the field is mapped to. -/
  column : (f : Field) → Row → Value f
  extractCursorValue : Row → (f : Field) → Value f
  encodeCursorValue : (f : Field) → Value f → Except Text Text
  parseCursorValue : (f : Field) → Text → Except Text (Value f)

/-- The limits of a listing, natural numbers for `u64`. -/
structure LimitCfg where
  default : ℕ
  max : ℕ

/-- Clamp the requested limit to the configured bounds. -/
def clampLimit (req : Option ℕ) (cfg : LimitCfg) : ℕ :=
  let l := req.getD cfg.default
  min (if l = 0 then 1 else l) cfg.max

/-- One request for a page. -/
structure ODataQuery (Filter : Type) where
  filter : Option Filter
  order : ODataOrderBy
  limit : Option ℕ
  cursor : Option CursorV1
  filterHash : Option Text

/-- The cursors and the limit of a page. -/
structure PageInfo where
  nextCursor : Option Text
  prevCursor : Option Text
  limit : ℕ

variable (m : FieldMapping Row Field Value)

/-- The comparison of one key: `Asc` or `Desc` of its column. -/
def compareKey (key : Field × SortDir) (a b : Row) : Ordering :=
  match key.2 with
  | .asc => compare (m.column key.1 a) (m.column key.1 b)
  | .desc => compare (m.column key.1 b) (m.column key.1 a)

/-- The comparison of a list of keys, the first one first. -/
def compareKeys (m : FieldMapping Row Field Value) : List (Field × SortDir) → Row → Row → Ordering
  | [], _, _ => .eq
  | key :: keys, a, b => (compareKey m key a b).then (compareKeys m keys a b)

/-- The field that a key names. -/
def resolveKey (k : OrderKey) : Except ODataError (Field × SortDir) := do
  let field ← okOr (m.fromName k.field) (.invalidOrderByField k.field)
  pure (field, k.dir)

/-- A value of a cursor with the column it is compared with. -/
structure CursorValue (Field : Type) (Value : Field → Type) where
  field : Field
  value : Value field
  dir : SortDir

/-- The comparison of the column with the value, in the direction of the page. -/
def CursorValue.passes (isBackward : Bool) (v : CursorValue Field Value) (row : Row) : Bool :=
  match isBackward, v.dir with
  | true, .asc | false, .desc => m.column v.field row < v.value
  | true, .desc | false, .asc => v.value < m.column v.field row

/-- The disjunction over the keys: equal in the keys before, past the cursor in this one. -/
def cursorCondition (isBackward : Bool)
    (values : List (CursorValue Field Value)) (row : Row) : Bool :=
  (List.range values.length).any fun i =>
    (values.take i).all (fun v => m.column v.field row = v.value) &&
      values[i]?.any (CursorValue.passes m isBackward · row)

/-- The value of a cursor for one key. -/
def parseKey (key : Text × OrderKey) : Except ODataError (CursorValue Field Value) := do
  let field ← okOr (m.fromName key.2.field) (.invalidOrderByField key.2.field)
  let value ← (m.parseCursorValue field key.1).mapError fun _ => .invalidCursor
  pure ⟨field, value, key.2.dir⟩

/-- The condition that a cursor stands for. -/
def buildCursorPredicate (cursor : CursorV1)
    (order : ODataOrderBy) : Except ODataError (Row → Bool) := do
  rejectIf (cursor.k.length ≠ order.length) .invalidCursor
  let values ← (cursor.k.zip order).mapM (parseKey m)
  pure (cursorCondition m (cursor.d = bwd) values)

/-- The text of a row's value for one key. -/
def encodeKey (row : Row) (k : OrderKey) : Except ODataError Text := do
  let field ← okOr (m.fromName k.field) .invalidCursor
  (m.encodeCursorValue field (m.extractCursorValue row field)).mapError fun _ => .invalidCursor

/-- The cursor at a row. -/
def buildCursorFromModel (row : Row) (order : ODataOrderBy)
    (filterHash : Option Text) (direction : Text) : Except ODataError CursorV1 := do
  let keys ← order.mapM (encodeKey m row)
  -- the primary direction is that of the first key
  pure ⟨keys, (order.head?.map OrderKey.dir).getD .desc, toSignedTokens order, filterHash,
    direction⟩

/-- The token of a cursor at the given row, where one is wanted and there is a row. -/
def buildCursorFromRow (codec : Codec) (wanted : Bool)
    (row : Option Row) (order : ODataOrderBy) (filterHash : Option Text) (direction : Text) :
    Except ODataError (Option Text) :=
  match wanted, row with
  | true, some row => do
    let c ← buildCursorFromModel m row order filterHash direction
    let token ← (c.encode codec).mapError fun _ => .invalidCursor
    pure (some token)
  | _, _ => .ok none

/-- The order of a page: the one in the cursor, or the client's with the tiebreaker. -/
def effectiveOrder (query : ODataQuery Filter) (tiebreaker : OrderKey) :
    Except ODataError ODataOrderBy :=
  match query.cursor with
  | some cur => (fromSignedTokens cur.s).mapError fun _ => .invalidCursor
  | none => .ok (ensureTiebreaker query.order tiebreaker)

/-- The key names a field that can be ordered by. -/
def checkOrderable (k : OrderKey) : Except ODataError Unit := do
  let field ← okOr (m.fromName k.field) (.invalidOrderByField k.field)
  rejectIf (m.isOrderable field = false) (.invalidOrderByField k.field)

/-- The listing a page is cut from: its table and what the caller fixes. -/
structure Listing (Row Field Filter : Type) (Value : Field → Type) where
  mapping : FieldMapping Row Field Value
  codec : Codec
  /-- The condition of a filter. -/
  condition : Filter → Except Text (Row → Bool)
  tiebreaker : OrderKey
  limitCfg : LimitCfg
  table : List Row

variable (L : Listing Row Field Filter Value)

/-- The condition of the query's filter. -/
def Listing.filterCondition (filter : Option Filter) : Except ODataError (Row → Bool) :=
  match filter with
  | none => .ok fun _ => true
  | some f => (L.condition f).mapError .invalidFilter

/-- The condition of the query's cursor. -/
def cursorPredicate (cursor : Option CursorV1)
    (order : ODataOrderBy) : Except ODataError (Row → Bool) :=
  match cursor with
  | none => .ok fun _ => true
  | some c => buildCursorPredicate m c order

/-- One page of the listing with its cursors. -/
def Listing.paginateOdataCollect (query : ODataQuery Filter) :
    Except ODataError (List Row × PageInfo) := do
  let limit := clampLimit query.limit L.limitCfg
  let fetch := (limit + 1) % 2 ^ 64
  let order ← effectiveOrder query L.tiebreaker
  order.forM (checkOrderable L.mapping)
  rejectIf (∃ cf ∈ query.cursor.bind CursorV1.f, query.filterHash ≠ some cf) .filterMismatch
  let filter ← L.filterCondition query.filter
  let isBackward : Bool := query.cursor.any fun c => c.d = bwd
  let after ← cursorPredicate L.mapping query.cursor order
  let keys ← (if isBackward then reverseDirections order else order).mapM (resolveKey L.mapping)
  let fetched := (Keyset.sorted (compareKeys L.mapping keys)
    ((L.table.filter filter).filter after)).take fetch
  let hasMore : Bool := limit < fetched.length
  let rows := if isBackward then (if hasMore then fetched.dropLast else fetched).reverse
    else if hasMore then fetched.take limit else fetched
  let nextCursor ← buildCursorFromRow L.mapping L.codec (isBackward || hasMore) rows.getLast?
    order query.filterHash fwd
  let prevCursor ← buildCursorFromRow L.mapping L.codec
    (if isBackward then hasMore else query.cursor.isSome) rows.head? order query.filterHash bwd
  pure (rows, ⟨nextCursor, prevCursor, limit⟩)

/-- The query of a request that follows a cursor, with the same filter and limit. -/
def Listing.follow (query : ODataQuery Filter)
    (token : Text) : Except ODataError (ODataQuery Filter) := do
  let cursor ← (CursorV1.decode L.codec token).mapError fun _ => .invalidCursor
  pure { query with cursor := some cursor, order := [] }

end Page

end Gears.OData
