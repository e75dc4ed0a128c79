import Mathlib.Algebra.Order.Ring.Nat
import Mathlib.Data.List.Forall2
import Mathlib.Data.Nat.ModEq

/-!
# Length-prefixed framing

A record is framed as a sequence of fields, each either absent or a string of bytes behind its
length.  The framing can be read back from the front:

* `beBytes` : big-endian bytes of a fixed width, injective below `256 ^ w` (`beBytes_inj`).
* `put`, `putNone`, `putOpt` : a present field, an absent one, an optional one.
* `putOpt_append_inj` : the first field of a frame and what follows it are determined.
* `frame_inj` : **a frame determines its fields**, also their number.
-/

namespace Gears

open List

/-- A byte string. -/
abbrev Bytes := List UInt8

/-! ### Big-endian numbers -/

/-- The low `w` bytes of `n`, most significant first. -/
def beBytes (w n : ℕ) : Bytes := (List.range w).map fun i => UInt8.ofNat (n / 256 ^ (w - 1 - i))

@[simp] theorem length_beBytes (w n : ℕ) : (beBytes w n).length = w := by simp [beBytes]

theorem mod_eq_of_digits {w n m : ℕ}
    (h : ∀ j < w, n / 256 ^ j % 256 = m / 256 ^ j % 256) : n % 256 ^ w = m % 256 ^ w := by
  induction w with
  | zero => simp [Nat.mod_one]
  | succ w ih =>
    rw [Nat.mod_pow_succ, Nat.mod_pow_succ, ih fun j hj => h j (by omega), h w (by omega)]

/-- The bytes determine the number below the width. -/
theorem beBytes_inj {w n m : ℕ} (hn : n < 256 ^ w) (hm : m < 256 ^ w)
    (h : beBytes w n = beBytes w m) : n = m := by
  rw [← Nat.mod_eq_of_lt hn, ← Nat.mod_eq_of_lt hm]
  refine mod_eq_of_digits fun j hj => ?_
  -- the digit of weight `256 ^ j` stands at position `w - 1 - j`
  have hget : (beBytes w n)[w - 1 - j]? = (beBytes w m)[w - 1 - j]? := by rw [h]
  have hj' : w - 1 - (w - 1 - j) = j := by omega
  simp only [beBytes, List.getElem?_map, getElem?_range (show w - 1 - j < w by omega),
    Option.map_some, Option.some.injEq, hj'] at hget
  simpa using congrArg UInt8.toNat hget

/-! ### Fields -/

/-- A present field: a marker, the length in four bytes (saturating), the bytes. -/
def put (bytes : Bytes) : Bytes := 1 :: (beBytes 4 (min bytes.length (2 ^ 32 - 1)) ++ bytes)

/-- An absent field: a bare marker. -/
def putNone : Bytes := [0]

/-- An optional field. -/
def putOpt : Option Bytes → Bytes
  | some bytes => put bytes
  | none => putNone

theorem putOpt_some (bytes : Bytes) : putOpt (some bytes) = put bytes := rfl

theorem putOpt_none : putOpt none = putNone := rfl

/-- The field's length fits its prefix. -/
def ShortField (f : Option Bytes) : Prop := ∀ b ∈ f, b.length < 2 ^ 32

instance (f : Option Bytes) : Decidable (ShortField f) :=
  match f with
  | none => .isTrue fun _ h => by cases h
  | some b => decidable_of_iff (b.length < 2 ^ 32) ⟨fun h _ hb => by cases hb; exact h,
      fun h => h b rfl⟩

theorem put_append_inj {a b s t : Bytes} (ha : a.length < 2 ^ 32) (hb : b.length < 2 ^ 32)
    (h : put a ++ s = put b ++ t) : a = b ∧ s = t := by
  simp only [put, cons_append, append_assoc, List.cons.injEq, true_and] at h
  obtain ⟨hlen, h⟩ := append_inj h (by simp)
  have hlen := beBytes_inj (by omega) (by omega) hlen
  exact append_inj h (by omega)

theorem putOpt_append_inj {f g : Option Bytes} {s t : Bytes} (hf : ShortField f)
    (hg : ShortField g) (h : putOpt f ++ s = putOpt g ++ t) : f = g ∧ s = t := by
  cases f with
  | none =>
    cases g with
    | none => exact ⟨rfl, append_cancel_left h⟩
    | some b => simp [putOpt, putNone, put] at h
  | some a =>
    cases g with
    | none => simp [putOpt, putNone, put] at h
    | some b =>
      obtain ⟨hab, hst⟩ := put_append_inj (hf a rfl) (hg b rfl) h
      exact ⟨congrArg some hab, hst⟩

/-- Framed fields, one after another. -/
def frame (fields : List (Option Bytes)) : Bytes := fields.flatMap putOpt

@[simp] theorem frame_nil : frame [] = [] := rfl

@[simp] theorem frame_cons (f : Option Bytes) (fs : List (Option Bytes)) :
    frame (f :: fs) = putOpt f ++ frame fs := rfl

theorem frame_append (fs gs : List (Option Bytes)) : frame (fs ++ gs) = frame fs ++ frame gs :=
  flatMap_append

theorem frame_flatMap {α : Type*} (l : List α) (fields : α → List (Option Bytes)) :
    frame (l.flatMap fields) = l.flatMap fun a => frame (fields a) :=
  flatMap_assoc

theorem putOpt_ne_nil (f : Option Bytes) : putOpt f ≠ [] := by
  cases f <;> simp [putOpt, put, putNone]

/-- **A frame determines its fields.** -/
theorem frame_inj {fs gs : List (Option Bytes)} (hf : ∀ f ∈ fs, ShortField f)
    (hg : ∀ g ∈ gs, ShortField g) (h : frame fs = frame gs) : fs = gs := by
  induction fs generalizing gs with
  | nil =>
    cases gs with
    | nil => rfl
    | cons g gs =>
      have hnil := (append_eq_nil_iff.1 h.symm).1
      exact absurd hnil (putOpt_ne_nil g)
  | cons f fs ih =>
    cases gs with
    | nil =>
      have hnil := (append_eq_nil_iff.1 h).1
      exact absurd hnil (putOpt_ne_nil f)
    | cons g gs =>
      obtain ⟨rfl, hrest⟩ := putOpt_append_inj (hf f mem_cons_self)
        (hg g mem_cons_self) h
      rw [ih (fun a ha => hf a (mem_cons_of_mem _ ha))
        (fun a ha => hg a (mem_cons_of_mem _ ha)) hrest]

/-- Records of one size are determined by the sequence of their fields, as far as the fields of one
record determine it. -/
theorem flatMap_inj_of_length {α β γ : Type*} {fields : α → List β} {n : ℕ} (hn : n ≠ 0)
    (hlen : ∀ a, (fields a).length = n) {g : α → γ} (hg : ∀ a b, fields a = fields b → g a = g b)
    {l l' : List α} (h : l.flatMap fields = l'.flatMap fields) : l.map g = l'.map g := by
  induction l generalizing l' with
  | nil =>
    cases l' with
    | nil => rfl
    | cons b l' =>
      have hb := congrArg List.length h
      simp only [flatMap_nil, length_nil, flatMap_cons, length_append, hlen] at hb
      omega
  | cons a l ih =>
    cases l' with
    | nil =>
      have ha := congrArg List.length h
      simp only [flatMap_nil, length_nil, flatMap_cons, length_append, hlen] at ha
      omega
    | cons b l' =>
      obtain ⟨hab, hrest⟩ := append_inj h (by rw [hlen, hlen])
      rw [map_cons, map_cons, hg a b hab, ih hrest]

end Gears
