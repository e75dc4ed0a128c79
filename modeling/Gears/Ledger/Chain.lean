import Gears.Ledger.Model
import Gears.Lib.Framing
import Gears.Money.Text
import Mathlib

/-!
# The tamper-evidence chain

Every posted entry is sealed with a hash over a canonical serialisation of its header, its lines
and the hash before it.  The serialisation is a frame of length-prefixed fields, so it can be
read back:

* `chainRowPreimage`, `genesisPreimage` : the byte strings that are hashed.
* `chainRowPreimage_eq_frame` : a row is the domain tag and the frame of its `rowFields`.
* `chain_row_preimage_injective` : **no two different rows are hashed from the same bytes**, and no
  row from the bytes of a genesis hash.
-/

namespace Gears.Ledger

open Money List

variable {lines' lines : List NewLine}

/-! ### Framing primitives -/

/-- The UTF-8 bytes of a string. -/
def utf8 (s : String) : Bytes := s.toByteArray.data.toList

/-- Frame a text. -/
def putStr (s : String) : Bytes := put (utf8 s)

/-- Frame a text that may be absent. -/
def putOptStr (s : Option String) : Bytes := putOpt (s.map utf8)

/-- Frame an id. -/
def putUuid (u : Uuid) : Bytes := put u.bytes

/-- Frame an id that may be absent. -/
def putOptUuid (u : Option Uuid) : Bytes := putOpt (u.map Uuid.bytes)

/-- The two's-complement bytes of a signed integer. -/
def signedBytes (width : ℕ) (n : ℤ) : Bytes := beBytes width (n % 256 ^ width).toNat

/-- Frame an `i64`. -/
def putI64 (n : ℤ) : Bytes := put (signedBytes 8 n)

/-- Frame an `i32`. -/
def putI32 (n : ℤ) : Bytes := put (signedBytes 4 n)

/-- Frame the canonical text of an amount with both dimensions of its currency. -/
def putMoney (m : PostedMoney) : Bytes :=
  putStr (canonicalDecimal m.amount) ++ putStr m.currency.code ++
    put [UInt8.ofNat m.currency.scale]

/-- An absent amount is a triple of absent fields. -/
def putOptMoney : Option PostedMoney → Bytes
  | some m => putMoney m
  | none => putNone ++ putNone ++ putNone

/-- An `i64` that saturates at its bounds. -/
def saturate (n : ℤ) : ℤ := max (-2 ^ 63) (min (2 ^ 63 - 1) n)

/-- Microseconds since the Unix epoch. -/
def timestampMicros (t : Instant) : ℤ :=
  saturate (saturate (t.unixTimestamp * 1000000) + (t.nanosecond / 1000 : ℕ))

/-! ### The hashed bytes -/

/-- The versioned domain-separation tag. -/
def chainDomainSep : Bytes := utf8 "VHP-BSS-LEDGER-CHAIN-v2" ++ [0x1f]

/-- A SHA-256 digest. -/
abbrev Digest := { b : Bytes // b.length = 32 }

/-- What the genesis hash of a tenant is computed from. -/
def genesisPreimage (tenantId : Uuid) : Bytes :=
  chainDomainSep ++ putUuid tenantId ++ putStr "GENESIS"

/-- Lines are hashed in the order of their ids. -/
def orderedLines (lines : List NewLine) : List NewLine :=
  lines.insertionSort fun a b => a.lineId.toNat ≤ b.lineId.toNat

/-- The bytes of one line, field after field.  The slot after the mapping status is reserved. -/
def linePreimage (l : NewLine) : Bytes :=
  [putUuid l.lineId, putUuid l.accountId, putStr l.accountClass.asStr, putOptStr l.glCode,
    putStr l.side.asStr, putMoney l.money, putOptMoney l.functionalMoney,
    putUuid l.payerTenantId, putOptUuid l.sellerTenantId, putOptUuid l.resourceTenantId,
    putOptStr l.invoiceId, putOptStr l.revenueStream, putOptStr l.taxJurisdiction,
    putOptStr l.taxFilingPeriod, putOptStr l.taxRateRef, putOptStr l.arStatus,
    putStr l.mappingStatus.asStr, putNone, putOptStr l.creditGrantEventType,
    putOptStr l.invoiceItemRef, putOptStr l.skuOrPlanRef, putOptStr l.priceId,
    putOptStr l.pricingSnapshotRef, putOptStr l.poAllocationGroup,
    putOptUuid l.legalEntityId].flatten

/-- The bytes of the header, field after field. -/
def entryPreimage (e : NewEntry) : Bytes :=
  [putUuid e.tenantId, putUuid e.entryId, putStr e.periodId, putUuid e.legalEntityId,
    putStr e.entryCurrency, putStr e.sourceDocType.asStr, putStr e.sourceBusinessId,
    putOptUuid e.reversesEntryId, putOptStr e.reversesPeriodId,
    putI32 e.effectiveAt.numDaysFromCe, putI64 (timestampMicros e.postedAtUtc),
    putStr e.origin, putUuid e.postedByActorId].flatten

variable (entry : NewEntry)

/-- What the hash of a row is computed from: the header, the number of lines, the lines and the
hash before. -/
def chainRowPreimage (lines : List NewLine) (prevHash : Digest) : Bytes :=
  chainDomainSep ++ entryPreimage entry ++
    put (beBytes 8 (min (orderedLines lines).length (2 ^ 64 - 1))) ++
    (orderedLines lines).flatMap linePreimage ++ put prevHash.val

/-! ### Rows as frames -/

/-- The three fields of an amount. -/
def moneyFields (m : PostedMoney) : List (Option Bytes) :=
  [some (utf8 (canonicalDecimal m.amount)), some (utf8 m.currency.code),
    some [UInt8.ofNat m.currency.scale]]

/-- The three fields of an amount that may be absent. -/
def optMoneyFields : Option PostedMoney → List (Option Bytes)
  | some m => moneyFields m
  | none => [none, none, none]

/-- The fields of a line. -/
def lineFields (l : NewLine) : List (Option Bytes) :=
  [some l.lineId.bytes, some l.accountId.bytes, some (utf8 l.accountClass.asStr),
    l.glCode.map utf8, some (utf8 l.side.asStr)] ++ moneyFields l.money ++
  optMoneyFields l.functionalMoney ++
  [some l.payerTenantId.bytes, l.sellerTenantId.map Uuid.bytes, l.resourceTenantId.map Uuid.bytes,
    l.invoiceId.map utf8, l.revenueStream.map utf8, l.taxJurisdiction.map utf8,
    l.taxFilingPeriod.map utf8, l.taxRateRef.map utf8, l.arStatus.map utf8,
    some (utf8 l.mappingStatus.asStr), none, l.creditGrantEventType.map utf8,
    l.invoiceItemRef.map utf8, l.skuOrPlanRef.map utf8, l.priceId.map utf8,
    l.pricingSnapshotRef.map utf8, l.poAllocationGroup.map utf8, l.legalEntityId.map Uuid.bytes]

/-- The fields of a header. -/
def entryFields (e : NewEntry) : List (Option Bytes) :=
  [some e.tenantId.bytes, some e.entryId.bytes, some (utf8 e.periodId),
    some e.legalEntityId.bytes, some (utf8 e.entryCurrency), some (utf8 e.sourceDocType.asStr),
    some (utf8 e.sourceBusinessId), e.reversesEntryId.map Uuid.bytes,
    e.reversesPeriodId.map utf8, some (signedBytes 4 e.effectiveAt.numDaysFromCe),
    some (signedBytes 8 (timestampMicros e.postedAtUtc)), some (utf8 e.origin),
    some e.postedByActorId.bytes]

/-- The fields of a row, in the order they are hashed. -/
def rowFields (lines : List NewLine) (prevHash : Digest) : List (Option Bytes) :=
  entryFields entry ++ some (beBytes 8 (min (orderedLines lines).length (2 ^ 64 - 1))) ::
    ((orderedLines lines).flatMap lineFields ++ [some prevHash.val])

theorem putMoney_eq_frame (m : PostedMoney) : putMoney m = frame (moneyFields m) := by
  simp only [putMoney, moneyFields, frame_cons, frame_nil, putStr, putOpt_some, append_assoc,
    append_nil]

theorem putOptMoney_eq_frame (m : Option PostedMoney) :
    putOptMoney m = frame (optMoneyFields m) := by
  cases m with
  | none => rfl
  | some m => exact putMoney_eq_frame m

theorem linePreimage_eq_frame (l : NewLine) : linePreimage l = frame (lineFields l) := by
  simp only [linePreimage, lineFields, putMoney_eq_frame, putOptMoney_eq_frame,
    flatten_cons, flatten_nil, frame_append, frame_cons, frame_nil, putStr, putUuid,
    putOptStr, putOptUuid, putOpt_some, putOpt_none, append_assoc, nil_append]

theorem entryPreimage_eq_frame (e : NewEntry) : entryPreimage e = frame (entryFields e) := by
  simp only [entryPreimage, entryFields, flatten_cons, flatten_nil, frame_cons,
    frame_nil, putStr, putUuid, putI32, putI64, putOptStr, putOptUuid, putOpt_some]

theorem chainRowPreimage_eq_frame (lines : List NewLine) (prevHash : Digest) :
    chainRowPreimage entry lines prevHash =
      chainDomainSep ++ frame (rowFields entry lines prevHash) := by
  have hlines : (orderedLines lines).flatMap linePreimage =
      frame ((orderedLines lines).flatMap lineFields) := by
    rw [frame_flatMap]
    exact flatMap_congr fun l _ => linePreimage_eq_frame l
  rw [chainRowPreimage, rowFields, hlines, entryPreimage_eq_frame, frame_append, frame_cons,
    frame_append, frame_cons, frame_nil, putOpt_some, putOpt_some]
  simp only [append_assoc, append_nil]

/-! ### What the fields determine -/

theorem utf8_inj {s t : String} (h : utf8 s = utf8 t) : s = t :=
  String.toByteArray_inj.1 (ByteArray.ext (Array.toList_inj.1 h))

theorem bytes_inj {u v : Uuid} (h : u.bytes = v.bytes) : u = v :=
  BitVec.eq_of_toNat_eq (beBytes_inj (w := 16) (by have := u.isLt; omega)
    (by have := v.isLt; omega) h)

theorem signedBytes_inj {w : ℕ} {n m b : ℤ} (hb : 2 * b ≤ 256 ^ w) (hn : -b ≤ n ∧ n < b)
    (hm : -b ≤ m ∧ m < b) (h : signedBytes w n = signedBytes w m) : n = m := by
  have hlt : ∀ k : ℤ, (k % 256 ^ w).toNat < 256 ^ w := by
    zify
    omega
  have hmod : n % 256 ^ w = m % 256 ^ w := by
    have := beBytes_inj (hlt n) (hlt m) h
    omega
  have hdvd : (256 ^ w : ℤ) ∣ n - m :=
    Int.dvd_of_emod_eq_zero (Int.emod_eq_emod_iff_emod_sub_eq_zero.1 hmod)
  -- the range is shorter than the modulus
  have habs : |n - m| < 256 ^ w := by
    rw [abs_lt]
    omega
  exact sub_eq_zero.1 (Int.eq_zero_of_abs_lt_dvd hdvd habs)

theorem timestampMicros_eq (t : Instant) :
    timestampMicros t = t.unixTimestamp * 1000000 + (t.nanosecond / 1000 : ℕ) := by
  have h₁ := t.lower
  have h₂ := t.upper
  have h₃ := t.nanosecond_lt
  unfold timestampMicros saturate
  omega

theorem accountClass_asStr_inj : Function.Injective AccountClass.asStr := by
  intro a b
  cases a <;> cases b <;> decide

theorem sourceDocType_asStr_inj : Function.Injective SourceDocType.asStr := by
  intro a b
  cases a <;> cases b <;> decide

theorem side_asStr_inj : Function.Injective Side.asStr := by
  intro a b
  cases a <;> cases b <;> decide

theorem mappingStatus_asStr_inj : Function.Injective MappingStatus.asStr := by
  intro a b
  cases a <;> cases b <;> decide

theorem moneyFields_inj {m n : PostedMoney} (h : moneyFields m = moneyFields n) : m = n := by
  simp only [moneyFields, List.cons.injEq, Option.some.injEq, and_true] at h
  obtain ⟨htext, hcode, hscale⟩ := h
  have hamount := canonicalDecimal_inj m.normalized n.normalized (utf8_inj htext)
  have hscale : m.currency.scale = n.currency.scale := by
    have h₁ := m.currency.scale_le
    have h₂ := n.currency.scale_le
    have := congrArg UInt8.toNat hscale
    simp only [UInt8.toNat_ofNat'] at this
    omega
  have hcurrency : m.currency = n.currency := by
    have hcode := utf8_inj hcode
    cases hm : m.currency
    simp_all
  cases m
  simp_all

theorem optMoneyFields_inj {m n : Option PostedMoney} (h : optMoneyFields m = optMoneyFields n) :
    m = n := by
  cases m with
  | none =>
    cases n with
    | none => rfl
    | some n => simp [optMoneyFields, moneyFields] at h
  | some m =>
    cases n with
    | none => simp [optMoneyFields, moneyFields] at h
    | some n => exact congrArg some (moneyFields_inj h)

/-- What a row hash covers of a line: everything but the due date. -/
def NewLine.covered (l : NewLine) : NewLine := { l with dueDate := none }

/-- The instant without the part of a microsecond that is not stored. -/
def Instant.toMicros (t : Instant) : Instant :=
  { t with
    nanosecond := t.nanosecond / 1000 * 1000
    nanosecond_lt := (Nat.div_mul_le_self _ _).trans_lt t.nanosecond_lt }

/-- What a row hash covers of a header: everything but the correlation id, and the posting instant
to the microsecond. -/
def NewEntry.covered (e : NewEntry) : NewEntry :=
  { e with correlationId := Uuid.nil, postedAtUtc := e.postedAtUtc.toMicros }

theorem length_lineFields (l : NewLine) : (lineFields l).length = 29 := by
  cases hf : l.functionalMoney <;> simp [lineFields, moneyFields, optMoneyFields, hf]

theorem map_utf8_inj {s t : Option String} (h : s.map utf8 = t.map utf8) : s = t :=
  Option.map_injective (fun _ _ => utf8_inj) h

theorem map_bytes_inj {u v : Option Uuid} (h : u.map Uuid.bytes = v.map Uuid.bytes) : u = v :=
  Option.map_injective (fun _ _ => bytes_inj) h

theorem lineFields_inj {l l' : NewLine} (h : lineFields l = lineFields l') :
    l.covered = l'.covered := by
  have hlen : ∀ m, (optMoneyFields m).length = 3 := by
    intro m
    cases m <;> rfl
  -- the groups of fields have fixed lengths, so the lists split from the end
  obtain ⟨h, htail⟩ := append_inj' h rfl
  obtain ⟨h, hfunctional⟩ := append_inj' h (by rw [hlen, hlen])
  obtain ⟨hhead, hmoney⟩ := append_inj' h rfl
  have hmoney := moneyFields_inj hmoney
  have hfunctional := optMoneyFields_inj hfunctional
  simp only [List.cons.injEq, Option.some.injEq, and_true, true_and] at hhead htail
  obtain ⟨h₁, h₂, h₃, h₄, h₅⟩ := hhead
  obtain ⟨t₁, t₂, t₃, t₄, t₅, t₆, t₇, t₈, t₉, t₁₀, t₁₁, t₁₂, t₁₃, t₁₄, t₁₅, t₁₆, t₁₇⟩ := htail
  simp only [NewLine.covered, NewLine.mk.injEq, true_and]
  exact ⟨bytes_inj h₁, bytes_inj t₁, map_bytes_inj t₂, map_bytes_inj t₃, bytes_inj h₂,
    accountClass_asStr_inj (utf8_inj h₃), map_utf8_inj h₄, side_asStr_inj (utf8_inj h₅), hmoney,
    map_utf8_inj t₄, map_utf8_inj t₅, mappingStatus_asStr_inj (utf8_inj t₁₀), hfunctional,
    map_utf8_inj t₆, map_utf8_inj t₇, map_utf8_inj t₈, map_bytes_inj t₁₇, map_utf8_inj t₁₂,
    map_utf8_inj t₁₃, map_utf8_inj t₁₄, map_utf8_inj t₁₅, map_utf8_inj t₁₆, map_utf8_inj t₁₁,
    map_utf8_inj t₉⟩

theorem timestampMicros_inj {t u : Instant} (h : timestampMicros t = timestampMicros u) :
    t.toMicros = u.toMicros := by
  rw [timestampMicros_eq, timestampMicros_eq] at h
  have h₁ := t.nanosecond_lt
  have h₂ := u.nanosecond_lt
  simp only [Instant.toMicros, Instant.mk.injEq]
  omega

theorem entryFields_inj {e e' : NewEntry} (h : entryFields e = entryFields e') :
    e.covered = e'.covered := by
  simp only [entryFields, List.cons.injEq, Option.some.injEq, and_true] at h
  obtain ⟨h₁, h₂, h₃, h₄, h₅, h₆, h₇, h₈, h₉, h₁₀, h₁₁, h₁₂, h₁₃⟩ := h
  have hdays : e.effectiveAt = e'.effectiveAt := by
    have hlo := e.effectiveAt.lower
    have hhi := e.effectiveAt.upper
    have hlo' := e'.effectiveAt.lower
    have hhi' := e'.effectiveAt.upper
    have := signedBytes_inj (b := 2 ^ 31) (by norm_num) (by omega) (by omega) h₁₀
    cases he : e.effectiveAt
    simp_all
  have hmicros : e.postedAtUtc.toMicros = e'.postedAtUtc.toMicros := by
    refine timestampMicros_inj (signedBytes_inj (b := 2 ^ 63) (by norm_num) ?_ ?_ h₁₁)
    · unfold timestampMicros saturate
      omega
    · unfold timestampMicros saturate
      omega
  simp only [NewEntry.covered, NewEntry.mk.injEq, and_true]
  exact ⟨bytes_inj h₂, bytes_inj h₁, bytes_inj h₄, utf8_inj h₃, utf8_inj h₅,
    sourceDocType_asStr_inj (utf8_inj h₆), utf8_inj h₇, map_bytes_inj h₈, map_utf8_inj h₉, hmicros,
    hdays, utf8_inj h₁₂, bytes_inj h₁₃⟩

/-! ### Rows -/

theorem orderedLines_perm (lines : List NewLine) : (orderedLines lines).Perm lines :=
  perm_insertionSort _ _

theorem orderedLines_congr (hid : (lines.map NewLine.lineId).Nodup) (h : lines'.Perm lines) :
    orderedLines lines' = orderedLines lines := by
  have hsorted : ∀ ls, (orderedLines ls).Pairwise fun a b => a.lineId.toNat ≤ b.lineId.toNat := by
    intro ls
    exact pairwise_insertionSort _ _
  refine Perm.eq_of_pairwise ?_ (hsorted _) (hsorted _)
    ((orderedLines_perm _).trans (h.trans (orderedLines_perm _).symm))
  intro a b ha hb hab hba
  have ha := h.subset ((orderedLines_perm _).subset ha)
  have hb := (orderedLines_perm _).subset hb
  exact inj_on_of_nodup_map hid ha hb (BitVec.eq_of_toNat_eq (le_antisymm hab hba))

/-- **The order in which lines are supplied does not matter.** -/
theorem chainRowPreimage_perm (prevHash : Digest) (hid : (lines.map NewLine.lineId).Nodup)
    (h : lines'.Perm lines) :
    chainRowPreimage entry lines' prevHash = chainRowPreimage entry lines prevHash := by
  rw [chainRowPreimage, chainRowPreimage, orderedLines_congr hid h]

theorem chainRowPreimage_covered (lines : List NewLine) (prevHash : Digest) :
    chainRowPreimage entry.covered (lines.map NewLine.covered) prevHash =
      chainRowPreimage entry lines prevHash := by
  have hmicros : timestampMicros entry.postedAtUtc.toMicros =
    timestampMicros entry.postedAtUtc := by
    rw [timestampMicros_eq, timestampMicros_eq]
    simp only [Instant.toMicros]
    omega
  have hentry : entryPreimage entry.covered = entryPreimage entry := by
    simp only [entryPreimage, NewEntry.covered, hmicros]
  have hlines : orderedLines (lines.map NewLine.covered) =
      (orderedLines lines).map NewLine.covered :=
    (map_insertionSort _ _ NewLine.covered _ fun a _ b _ => Iff.rfl).symm
  have hbytes : ((orderedLines lines).map NewLine.covered).flatMap linePreimage =
      (orderedLines lines).flatMap linePreimage := by
    rw [flatMap_map]
    rfl
  rw [chainRowPreimage, chainRowPreimage, hentry, hlines, hbytes, length_map]

theorem rowFields_inj {e e' : NewEntry} {ls ls' : List NewLine} {p p' : Digest}
    (h : rowFields e ls p = rowFields e' ls' p') : p = p' ∧ e.covered = e'.covered ∧
      (orderedLines ls).map NewLine.covered = (orderedLines ls').map NewLine.covered := by
  -- a header has thirteen fields, and only the previous hash follows the lines
  obtain ⟨hentry, h⟩ := append_inj h rfl
  obtain ⟨hlines, hprev⟩ := append_inj' (List.cons.inj h).2 rfl
  refine ⟨?_, entryFields_inj hentry, ?_⟩
  · simpa [Subtype.ext_iff] using hprev
  · exact flatMap_inj_of_length (by decide) length_lineFields (fun _ _ => lineFields_inj) hlines

/-- A row and a genesis hash part at their second field: an id has sixteen bytes, the genesis
marker seven. -/
theorem chainRowPreimage_ne_genesisPreimage (lines : List NewLine)
    (prevHash : Digest) (tenantId : Uuid) :
    chainRowPreimage entry lines prevHash ≠ genesisPreimage tenantId := by
  intro h
  have hlen : ∀ u : Uuid, u.bytes.length < 2 ^ 32 := fun u => by simp [Uuid.bytes]
  have hmark : (utf8 "GENESIS").length = 7 := by decide +kernel
  rw [chainRowPreimage_eq_frame] at h
  have h := append_cancel_left h
  obtain ⟨-, h⟩ := put_append_inj (hlen _) (hlen _) h
  obtain ⟨h, -⟩ := put_append_inj (hlen _) (by omega) h
  have hbytes := congrArg List.length h
  rw [hmark] at hbytes
  simp [Uuid.bytes] at hbytes

/-- **The hashed bytes determine the row.**  For rows with distinct line ids and fields shorter
than `2 ^ 32` bytes, the bytes are equal exactly when the previous hashes, the covered headers and
the covered lines are; the order of the lines does not matter; and a row is never hashed from the
bytes of a genesis hash. -/
theorem chain_row_preimage_injective {e e' : NewEntry} {ls ls' : List NewLine} {p p' : Digest}
    (hid : (ls.map NewLine.lineId).Nodup) (hid' : (ls'.map NewLine.lineId).Nodup)
    (hshort : ∀ f ∈ rowFields e ls p, ShortField f)
    (hshort' : ∀ f ∈ rowFields e' ls' p', ShortField f) :
    (chainRowPreimage e ls p = chainRowPreimage e' ls' p' ↔ p = p' ∧ e.covered = e'.covered ∧
        (ls.map NewLine.covered).Perm (ls'.map NewLine.covered)) ∧
    (∀ ls₂ : List NewLine, ls₂.Perm ls → chainRowPreimage e ls₂ p = chainRowPreimage e ls p) ∧
    ∀ tenantId, chainRowPreimage e ls p ≠ genesisPreimage tenantId := by
  refine ⟨⟨fun h => ?_, ?_⟩, fun ls₂ h => chainRowPreimage_perm e p hid h,
    chainRowPreimage_ne_genesisPreimage e ls p⟩
  · rw [chainRowPreimage_eq_frame, chainRowPreimage_eq_frame] at h
    obtain ⟨hp, he, hls⟩ := rowFields_inj (frame_inj hshort hshort' (append_cancel_left h))
    refine ⟨hp, he, ((orderedLines_perm ls).symm.map _).trans ?_⟩
    rw [hls]
    exact (orderedLines_perm ls').map _
  · rintro ⟨rfl, he, hls⟩
    rw [← chainRowPreimage_covered e, ← chainRowPreimage_covered e', he]
    refine chainRowPreimage_perm _ _ ?_ hls
    rw [map_map]
    exact hid'

/-- The epoch. -/
def sampleInstant : Instant := ⟨0, 0, by decide, by decide, by decide⟩

/-- An entry header in dollars. -/
def sampleEntry (id : Uuid) : NewEntry where
  entryId := id
  tenantId := 9
  legalEntityId := 3
  periodId := "2026-01"
  entryCurrency := "USD"
  sourceDocType := .invoicePost
  sourceBusinessId := "doc"
  reversesEntryId := none
  reversesPeriodId := none
  postedAtUtc := sampleInstant
  effectiveAt := ⟨0, by decide, by decide⟩
  origin := "API"
  postedByActorId := 4
  correlationId := 5

/-- A line of ten dollars. -/
def sampleLine (id : Uuid) : NewLine :=
  NewLine.plain id 7 100 .ar .debit (.cents 1000)

/-- An all-zero digest. -/
def zeroDigest : Digest := ⟨List.replicate 32 0, length_replicate⟩

theorem chain_row_preimage_injective_sample :
    chainRowPreimage (sampleEntry 1) [sampleLine 2, sampleLine 1] zeroDigest =
        chainRowPreimage (sampleEntry 1) [sampleLine 1, sampleLine 2] zeroDigest ∧
      chainRowPreimage (sampleEntry 1) [sampleLine 1] zeroDigest ≠
        chainRowPreimage (sampleEntry 1) [{ sampleLine 1 with glCode := some "" }] zeroDigest := by
  constructor
  · refine (chain_row_preimage_injective ?_ ?_ ?_ ?_).1.2 ⟨rfl, rfl, Perm.swap _ _ _⟩
    · decide
    · decide
    · decide +kernel
    · decide +kernel
  · intro h
    obtain ⟨-, -, hperm⟩ := (chain_row_preimage_injective (by decide) (by decide)
      (by decide +kernel) (by decide +kernel)).1.1 h
    have hline := singleton_perm_singleton.1 hperm
    simp [NewLine.covered, sampleLine, NewLine.plain] at hline

end Gears.Ledger
