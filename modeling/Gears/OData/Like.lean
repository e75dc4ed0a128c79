import Gears.OData.Paging

/-!
# Text filters as `LIKE` patterns

The two filter compilers turn `contains`, `startswith` and `endswith` into `LIKE` patterns, each
with an escape function of its own.

* `escapeLike`, `likeEscape` : the two escape functions.
* `textPattern`, `likeContains`, `likeStarts`, `likeEnds` : the patterns around the escaped text.
* `like` : what a database matches under `ESCAPE '\'`.
* `text_filters_literal` : the patterns match the text itself.
-/

namespace Gears.OData

open List

/-- The escape function of the typed compiler. -/
def escapeLike (s : Text) : Text :=
  s.foldl (fun out ch => match ch with
    | '%' | '_' | '\\' => out ++ ['\\'] ++ [ch]
    | c => out ++ [c]) []

/-- The escape function of the legacy compiler. -/
def likeEscape (s : Text) : Text :=
  s.foldl (fun out ch => match ch with
    | '%' | '_' | '\\' => out ++ ['\\'] ++ [ch]
    | c => out ++ [c]) []

/-- The text operators of a filter. -/
inductive TextOp
  | contains
  | startsWith
  | endsWith

/-- The pattern that the typed compiler binds. -/
def textPattern (s : Text) : TextOp → Text
  | .contains => ['%'] ++ escapeLike s ++ ['%']
  | .startsWith => escapeLike s ++ ['%']
  | .endsWith => ['%'] ++ escapeLike s

/-- The legacy pattern of `contains`. -/
def likeContains (s : Text) : Text := ['%'] ++ likeEscape s ++ ['%']

/-- The legacy pattern of `startswith`. -/
def likeStarts (s : Text) : Text := likeEscape s ++ ['%']

/-- The legacy pattern of `endswith`. -/
def likeEnds (s : Text) : Text := ['%'] ++ likeEscape s

/-! ### Matching -/

/-- `t LIKE p ESCAPE '\'`.  A pattern that ends in its escape character matches nothing. -/
def like : Text → Text → Bool
  | [], t => t.isEmpty
  | '%' :: p, t => t.tails.any (like p)
  | '_' :: p, t => t ≠ [] && like p t.tail
  | ['\\'], _ => false
  | '\\' :: c :: p, t => t.head? = some c && like p t.tail
  | c :: p, t => t.head? = some c && like p t.tail

theorem head_and_tail {t : Text} {c : Char} {P : Text → Prop} :
    t.head? = some c ∧ P t.tail ↔ ∃ r, t = c :: r ∧ P r := by
  cases t <;> simp

theorem like_percent {p t : Text} : like ('%' :: p) t ↔ ∃ r, r <:+ t ∧ like p r := by
  simp [like]

theorem like_escaped (c : Char) {p t : Text} :
    like (escapeLike [c] ++ p) t ↔ ∃ r, t = c :: r ∧ like p r := by
  rw [← head_and_tail]
  change like ((match c with
    | '%' | '_' | '\\' => [] ++ ['\\'] ++ [c]
    | d => [] ++ [d]) ++ p) t ↔ _
  split
  iterate 3 simp [like]
  · rw [nil_append, singleton_append, like]
    · simp
    all_goals simp_all

theorem escapeLike_cons (c : Char) (s : Text) :
    escapeLike (c :: s) = escapeLike [c] ++ escapeLike s := by
  have hpush : ∀ out : Text, s.foldl (fun out ch => match ch with
      | '%' | '_' | '\\' => out ++ ['\\'] ++ [ch]
      | c => out ++ [c]) out = out ++ escapeLike s := by
    unfold escapeLike
    induction s with
    | nil => simp
    | cons c s ih =>
      intro out
      rw [foldl_cons, foldl_cons, ih, ih (match c with | '%' | '_' | '\\' => _ | c => _)]
      split <;> simp
  exact hpush _

theorem like_escapeLike {s p t : Text} :
    like (escapeLike s ++ p) t ↔ ∃ r, t = s ++ r ∧ like p r := by
  induction s generalizing t with
  | nil => simp [escapeLike]
  | cons c s ih =>
    rw [escapeLike_cons, append_assoc, like_escaped]
    simp only [ih]
    constructor
    · rintro ⟨_, rfl, r, rfl, hr⟩
      exact ⟨r, rfl, hr⟩
    · rintro ⟨r, rfl, hr⟩
      exact ⟨_, rfl, r, rfl, hr⟩

theorem like_any (t : Text) : like ['%'] t := like_percent.2 ⟨[], nil_suffix, rfl⟩

/-- **Text filters match literally.**  Whatever wildcards the text of a filter holds, the pattern
built for it matches the texts that contain it, start with it or end with it. -/
theorem text_filters_literal (s t : Text) :
    (like (textPattern s .contains) t ↔ s <:+: t) ∧
    (like (textPattern s .startsWith) t ↔ s <+: t) ∧
    (like (textPattern s .endsWith) t ↔ s <:+ t) ∧
    likeEscape s = escapeLike s ∧
    likeContains s = textPattern s .contains ∧ likeStarts s = textPattern s .startsWith ∧
    likeEnds s = textPattern s .endsWith := by
  refine ⟨?_, ?_, ?_, rfl, rfl, rfl, rfl⟩
  · rw [textPattern, append_assoc, singleton_append, like_percent]
    simp only [like_escapeLike]
    constructor
    · rintro ⟨_, ⟨l, rfl⟩, r, rfl, -⟩
      exact ⟨l, r, append_assoc ..⟩
    · rintro ⟨l, r, rfl⟩
      exact ⟨s ++ r, ⟨l, (append_assoc ..).symm⟩, r, rfl, like_any r⟩
  · rw [textPattern, like_escapeLike]
    constructor
    · rintro ⟨r, rfl, -⟩
      exact prefix_append s r
    · rintro ⟨r, rfl⟩
      exact ⟨r, rfl, like_any r⟩
  · have hend := @like_escapeLike s []
    rw [append_nil] at hend
    rw [textPattern, singleton_append, like_percent]
    simp [hend, like]

end Gears.OData
