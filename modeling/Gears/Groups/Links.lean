import Gears.Groups.Sound

/-!
# Links and closure change together

The three ways in which the tables change: a group is inserted, a subtree is hung elsewhere, a
subtree is removed.  Each keeps the closure a list of the walks.

* `Linked.insertGroup` : insertion below a group that is there, or as a root.
* `Linked.reparent` : the rebuilt closure with the new parent link.
* `Linked.removeGroups` : removal of groups with all that is below them.
-/

namespace Gears.Groups

open Forest Table

namespace GroupStore

open List Function

variable {s s' s₁ : GroupStore} {id p a x : Uuid} {n : ℕ} {group : Group}

/-! ### Insertion -/

/-- What an insertion leaves. -/
structure Inserted (s s' : GroupStore) (group : Group) : Prop where
  free : s.findModelById group.id = none
  groups : s'.groups = s.groups ++ [group]
  keys : Keyed ClosureRow.key s'.closure
  rows : ∀ row, row ∈ s'.closure ↔ row ∈ s.closure ∨ row = ⟨group.id, group.id, 0⟩ ∨
    ∃ p ∈ group.parentId, ∃ r ∈ s.closure, r.descendantId = p ∧
      row = ⟨r.ancestorId, group.id, r.depth + 1⟩

theorem inserted_of_insertGroup (hk : Keyed ClosureRow.key s.closure)
    (hp : group.parentId ≠ some group.id) (h : s.insertGroup group = .ok s') :
    Inserted s s' group := by
  simp only [insertGroup, insertClosureRows, Except.ok_iffs, insert_eq_some_iff,
    Except.ok.injEq] at h
  obtain ⟨groups, ⟨hfree, rfl⟩, s₁, ⟨closure, hself, rfl⟩, h⟩ := h
  obtain ⟨rfl, hk₁⟩ := append_of_insertMany hself hk
  split at h
  case h_1 hnone =>
    cases h
    refine ⟨hfree, rfl, hk₁, fun row => ?_⟩
    simp [hnone]
  case h_2 p hsome =>
    simp only [insertAncestorClosureRows, insertClosureRows, Except.ok_iffs, Except.ok.injEq] at h
    obtain ⟨closure, hrows, rfl⟩ := h
    obtain ⟨rfl, hk₂⟩ := append_of_insertMany hrows hk₁
    refine ⟨hfree, rfl, hk₂, fun row => ?_⟩
    have hne : group.id ≠ p := fun h => hp (hsome.trans (congrArg some h.symm))
    simp only [mem_append, mem_singleton, mem_map, mem_filter,
      decide_eq_true_eq, hsome, Option.mem_def, Option.some.injEq, exists_eq_left', or_assoc]
    refine or_congr_right (or_congr_right (exists_congr fun r => ?_))
    constructor
    · rintro ⟨⟨hr | rfl, hrp⟩, rfl⟩
      · exact ⟨hr, hrp, rfl⟩
      · exact absurd hrp hne
    · rintro ⟨hr, hrp, rfl⟩
      exact ⟨⟨.inl hr, hrp⟩, rfl⟩

section

variable (h : Inserted s s' group)
include h

theorem Inserted.find (x : Uuid) :
    s'.findModelById x = if x = group.id then some group else s.findModelById x := by
  rw [findModelById, h.groups]
  exact lookup_append_singleton h.free x

theorem Inserted.parentOf : s'.parentOf = update s.parentOf group.id group.parentId := by
  funext x
  rw [GroupStore.parentOf, h.find, update_apply]
  split <;> rfl

theorem Inserted.present_iff : s'.Present x ↔ x = group.id ∨ s.Present x := by
  rw [Present, h.find]
  split
  case isTrue hx => exact iff_of_true rfl (.inl hx)
  case isFalse hx => exact (or_iff_right hx).symm

theorem Inserted.ne_of_present (hx : s.Present x) : x ≠ group.id := by
  rintro rfl
  rw [Present, h.free] at hx
  cases hx

theorem Inserted.up_of_present (hs : s.Linked) (hx : s.Present x) :
    up s'.parentOf n x = up s.parentOf n x := by
  rw [h.parentOf]
  exact up_update_of_forall_ne fun k _ hup => h.ne_of_present (hs.present_of_up hx hup) rfl

theorem Inserted.up_self_succ (hs : s.Linked) (hparent : ∀ p ∈ group.parentId, s.Present p) :
    up s'.parentOf (n + 1) group.id = some a ↔
      ∃ p ∈ group.parentId, up s.parentOf n p = some a := by
  rw [up_succ_eq_some_iff, h.parentOf, update_self, ← h.parentOf]
  refine exists_congr fun p => and_congr_right fun hp => ?_
  rw [h.up_of_present hs (hparent p hp)]

theorem Inserted.linked (hs : s.Linked) (hparent : ∀ p ∈ group.parentId, s.Present p) :
    s'.Linked where
  ids := by
    rw [h.groups]
    exact hs.ids.append_singleton h.free
  keys := h.keys
  present := by
    intro x p hp
    rw [h.present_iff]
    rw [h.parentOf, update_apply] at hp
    split at hp
    · exact .inr (hparent p hp)
    · exact .inr (hs.present x p hp)
  acyclic := by
    rw [h.parentOf]
    refine hs.acyclic.update fun p hp k hup => ?_
    exact h.ne_of_present (hs.present_of_up (hparent p hp) hup) rfl
  rows := by
    rintro ⟨a, d, n⟩
    rw [h.rows, Describes, h.present_iff]
    constructor
    · rintro (hold | hself | ⟨p, hp, r, hr, rfl, hrow⟩)
      · obtain ⟨hd, hup⟩ := hs.mem_closure_iff.1 hold
        exact ⟨.inr hd, (h.up_of_present hs hd).trans hup⟩
      · cases hself
        exact ⟨.inl rfl, rfl⟩
      · cases hrow
        exact ⟨.inl rfl, (h.up_self_succ hs hparent).2 ⟨_, hp, ((hs.rows r).1 hr).2⟩⟩
    · rintro ⟨rfl | hd, hup⟩
      · cases n with
        | zero =>
          cases hup
          exact .inr (.inl rfl)
        | succ n =>
          obtain ⟨p, hp, hup⟩ := (h.up_self_succ hs hparent).1 hup
          refine .inr (.inr ⟨p, hp, ⟨a, p, n⟩, ?_, rfl, rfl⟩)
          exact hs.mem_closure_iff.2 ⟨hparent p hp, hup⟩
      · rw [h.up_of_present hs hd] at hup
        exact .inl (hs.mem_closure_iff.2 ⟨hd, hup⟩)

end

/-! ### A new parent -/

/-- The group is in the subtree. -/
def Below (s : GroupStore) (id x : Uuid) : Prop := ∃ k, up s.parentOf k x = some id

theorem Linked.mem_subtree (hs : s.Linked) (hx : s.Present x) :
    x ∈ (s.closure.filter fun r => r.ancestorId = id).map ClosureRow.descendantId ↔ s.Below id x :=
  hs.mem_subtree_iff.trans (and_iff_right hx)

/-- Cutting a subtree off keeps the walks that do not leave through its root. -/
theorem Linked.kept_iff (hs : s.Linked) {d : Uuid} (hup : up s.parentOf n d = some a) :
    ¬ (s.Below id d ∧ ¬ s.Below id a) ↔ ∀ k < n, up s.parentOf k d ≠ some id := by
  constructor
  · intro hkept k hk hroot
    refine hkept ⟨⟨k, hroot⟩, ?_⟩
    rintro ⟨j, hj⟩
    have hlong : up s.parentOf (n + j) d = some id := by
      rw [up_add, hup, Option.bind_some, hj]
    have := hs.acyclic.eq_of_up hroot hlong
    omega
  · rintro hbefore ⟨⟨k, hroot⟩, hout⟩
    have hle : n ≤ k := Nat.le_of_not_lt fun hk => hbefore k hk hroot
    obtain ⟨y, hy, hrest⟩ := exists_up_of_le hroot hle
    obtain rfl := Option.some.inj (hup.symm.trans hy)
    exact hout ⟨_, hrest⟩

/-- What the rebuilding of a closure leaves. -/
structure Rebuilt (s s₁ : GroupStore) (id : Uuid) (q : Option Uuid) : Prop where
  groups : s₁.groups = s.groups
  keys : Keyed ClosureRow.key s₁.closure
  rows : ∀ row, row ∈ s₁.closure ↔
    (row ∈ s.closure ∧ ∀ k < row.depth, up s.parentOf k row.descendantId ≠ some id) ∨
      ∃ p ∈ q, ∃ pa ∈ s.closure, ∃ st ∈ s.closure, pa.descendantId = p ∧ st.ancestorId = id ∧
        row = ⟨pa.ancestorId, st.descendantId, pa.depth + st.depth + 1⟩

theorem Linked.rebuilt {q : Option Uuid} (hs : s.Linked)
    (hq : ∀ p ∈ q, ∀ k, up s.parentOf k p ≠ some id)
    (h : s.rebuildSubtreeClosure id q = .ok s₁) : Rebuilt s s₁ id q := by
  have hkept : ∀ row, row ∈ deleteWhere (fun r =>
      r.descendantId ∈ (s.closure.filter fun r => r.ancestorId = id).map ClosureRow.descendantId ∧
        r.ancestorId ∉ (s.closure.filter fun r => r.ancestorId = id).map ClosureRow.descendantId)
      s.closure ↔
      row ∈ s.closure ∧ ∀ k < row.depth, up s.parentOf k row.descendantId ≠ some id := by
    intro row
    rw [mem_deleteWhere, decide_eq_true_eq]
    refine and_congr_right fun hrow => ?_
    obtain ⟨hd, hup⟩ := (hs.rows row).1 hrow
    rw [hs.mem_subtree hd, hs.mem_subtree (hs.present_of_up hd hup)]
    exact hs.kept_iff hup
  unfold rebuildSubtreeClosure at h
  split at h
  case h_1 =>
    cases h
    refine ⟨rfl, hs.keys.deleteWhere, fun row => ?_⟩
    simpa using hkept row
  case h_2 p =>
    simp only [insertClosureRows, Except.ok_iffs, Except.ok.injEq] at h
    obtain ⟨-, -, closure, hrows, rfl⟩ := h
    obtain ⟨rfl, hk⟩ := append_of_insertMany hrows hs.keys.deleteWhere
    refine ⟨rfl, hk, fun row => ?_⟩
    rw [mem_append, hkept]
    refine or_congr_right ?_
    simp only [mem_flatMap, mem_map, mem_filter, hkept, decide_eq_true_eq,
      Option.mem_def, Option.some.injEq, exists_eq_left']
    constructor
    · rintro ⟨pa, ⟨⟨hpa, -⟩, hpad⟩, st, ⟨⟨hst, -⟩, hsta⟩, rfl⟩
      exact ⟨pa, hpa, st, hst, hpad, hsta, rfl⟩
    · -- neither the rows of the new parent nor those inside the subtree were cut
      rintro ⟨pa, hpa, st, hst, hpad, hsta, rfl⟩
      refine ⟨pa, ⟨⟨hpa, fun k _ => ?_⟩, hpad⟩, st, ⟨⟨hst, fun k hk hup => ?_⟩, hsta⟩, rfl⟩
      · rw [hpad]
        exact hq p rfl k
      · have hst := ((hs.rows st).1 hst).2
        rw [hsta] at hst
        have := hs.acyclic.eq_of_up hup hst
        omega

theorem find_updateGroupRow (s : GroupStore) (id : Uuid) (q : Option Uuid) (name : String)
    (x : Uuid) : (s.updateGroupRow id q name).findModelById x = (s.findModelById x).map fun g =>
        if x = id then { g with parentId := q, name := name } else g := by
  refine (lookup_updateWhere_key (by intro g; rfl) id x).trans ?_
  split
  · rfl
  · rw [Option.map_id']
    rfl

section

variable (hgroups : s₁.groups = s.groups)
include hgroups

theorem find_of_groups_eq (x : Uuid) : s₁.findModelById x = s.findModelById x := by
  rw [findModelById, findModelById, hgroups]

theorem present_updateGroupRow {q : Option Uuid} {name : String} :
    (s₁.updateGroupRow id q name).Present x ↔ s.Present x := by
  rw [Present, Present, find_updateGroupRow, Option.isSome_map, find_of_groups_eq hgroups]

theorem parentOf_updateGroupRow (hid : s.Present id) (q : Option Uuid) (name : String) :
    (s₁.updateGroupRow id q name).parentOf = update s.parentOf id q := by
  funext x
  rw [parentOf, find_updateGroupRow, find_of_groups_eq hgroups, update_apply, Option.bind_map]
  split
  case isTrue hx =>
    subst hx
    obtain ⟨g, hg⟩ := Option.isSome_iff_exists.1 hid
    rw [hg]
    rfl
  case isFalse hx => rfl

end

/-- **A move keeps the closure a list of the walks.** -/
theorem Linked.reparent {q : Option Uuid} (hs : s.Linked) (hid : s.Present id)
    (hq : ∀ p ∈ q, s.Present p ∧ ∀ k, up s.parentOf k p ≠ some id)
    (h : s.rebuildSubtreeClosure id q = .ok s₁) (name : String) :
    (s₁.updateGroupRow id q name).Linked := by
  have hrebuilt := hs.rebuilt (fun p hp => (hq p hp).2) h
  have hparent := parentOf_updateGroupRow hrebuilt.groups hid q name
  refine ⟨?_, hrebuilt.keys, ?_, ?_, ?_⟩
  · have hids : Keyed Group.id s₁.groups := hrebuilt.groups ▸ hs.ids
    exact hids.updateWhere fun _ => rfl
  · intro x p hp
    rw [present_updateGroupRow hrebuilt.groups]
    rw [hparent, update_apply] at hp
    split at hp
    · exact (hq p hp).1
    · exact hs.present x p hp
  · rw [hparent]
    exact hs.acyclic.update fun p hp => (hq p hp).2
  · rintro ⟨a, d, n⟩
    rw [Describes, present_updateGroupRow hrebuilt.groups, hparent,
      hs.acyclic.up_update_iff fun p hp => (hq p hp).2]
    refine (hrebuilt.rows _).trans ?_
    dsimp only
    constructor
    · rintro (⟨hrow, hbefore⟩ | ⟨p, hp, pa, hpa, st, hst, hpad, hsta, hrow⟩)
      · obtain ⟨hd, hup⟩ := hs.mem_closure_iff.1 hrow
        exact ⟨hd, .inl ⟨hup, hbefore⟩⟩
      · cases hrow
        obtain ⟨-, hup⟩ := (hs.rows pa).1 hpa
        obtain ⟨hd, hst⟩ := (hs.rows st).1 hst
        exact ⟨hd, .inr ⟨st.depth, pa.depth, p, hsta ▸ hst, hp, hpad ▸ hup, by omega⟩⟩
    · rintro ⟨hd, ⟨hup, hbefore⟩ | ⟨k, m, p, hk, hp, hm, rfl⟩⟩
      · exact .inl ⟨hs.mem_closure_iff.2 ⟨hd, hup⟩, hbefore⟩
      · refine .inr ⟨p, hp, ⟨a, p, m⟩, hs.mem_closure_iff.2 ⟨(hq p hp).1, hm⟩, ⟨id, d, k⟩,
          hs.mem_closure_iff.2 ⟨hd, hk⟩, rfl, rfl, ?_⟩
        rw [ClosureRow.mk.injEq]
        refine ⟨rfl, rfl, ?_⟩
        dsimp only
        omega

/-- Remove groups and their closure rows. -/
def removeGroups (s : GroupStore) (ids : List Uuid) : GroupStore :=
  (s.deleteAllClosureRowsMany ids).deleteByIdMany ids

variable {ids : List Uuid}

theorem find_removeGroups (x : Uuid) :
    (s.removeGroups ids).findModelById x = if x ∈ ids then none else s.findModelById x := by
  refine (lookup_filter_key (fun k => !decide (k ∈ ids)) x).trans ?_
  by_cases hx : x ∈ ids
  · simp [hx]
  · simp only [hx]
    rfl

theorem present_removeGroups : (s.removeGroups ids).Present x ↔ x ∉ ids ∧ s.Present x := by
  rw [Present, find_removeGroups]
  split
  case isTrue hx => exact iff_of_false (by simp) fun h => h.1 hx
  case isFalse hx => exact (and_iff_right hx).symm

theorem parentOf_removeGroups_of_notMem (hx : x ∉ ids) :
    (s.removeGroups ids).parentOf x = s.parentOf x := by
  rw [parentOf, parentOf, find_removeGroups, if_neg hx]

theorem parentOf_of_removeGroups (h : (s.removeGroups ids).parentOf x = some p) :
    x ∉ ids ∧ s.parentOf x = some p := by
  have hx : x ∉ ids := by
    obtain ⟨g, hg, -⟩ := parentOf_eq_some_iff.1 h
    intro hx
    rw [find_removeGroups, if_pos hx] at hg
    cases hg
  exact ⟨hx, parentOf_removeGroups_of_notMem hx ▸ h⟩

theorem mem_closure_removeGroups {row : ClosureRow} : row ∈ (s.removeGroups ids).closure ↔
      row ∈ s.closure ∧ row.ancestorId ∉ ids ∧ row.descendantId ∉ ids := by
  simp [removeGroups, deleteByIdMany, deleteAllClosureRowsMany, and_assoc]

/-- **Removal keeps the closure a list of the walks**, when all that is below goes too. -/
theorem Linked.removeGroups (hs : s.Linked)
    (hdown : ∀ x p, s.parentOf x = some p → p ∈ ids → x ∈ ids) : (s.removeGroups ids).Linked := by
  have hclosed : ∀ x ∈ {x | x ∉ ids}, ∀ p, s.parentOf x = some p → p ∈ {x | x ∉ ids} :=
    fun x hx p hp hmem => hx (hdown x p hp hmem)
  have hup : ∀ {x n}, x ∉ ids → up (s.removeGroups ids).parentOf n x = up s.parentOf n x :=
    fun hx => up_congr hclosed (fun _ => parentOf_removeGroups_of_notMem) hx _
  refine ⟨hs.ids.deleteWhere, hs.keys.deleteWhere.deleteWhere, ?_, ?_, ?_⟩
  · intro x p hp
    obtain ⟨hx, hp⟩ := parentOf_of_removeGroups hp
    exact present_removeGroups.2 ⟨hclosed x hx p hp, hs.present x p hp⟩
  · exact hs.acyclic.mono fun x p hp => (parentOf_of_removeGroups hp).2
  · intro row
    rw [mem_closure_removeGroups, Describes, present_removeGroups]
    constructor
    · rintro ⟨hrow, -, hd⟩
      obtain ⟨hpresent, hwalk⟩ := (hs.rows row).1 hrow
      exact ⟨⟨hd, hpresent⟩, (hup hd).trans hwalk⟩
    · rintro ⟨⟨hd, hpresent⟩, hwalk⟩
      rw [hup hd] at hwalk
      exact ⟨(hs.rows row).2 ⟨hpresent, hwalk⟩, mem_of_up hclosed hd hwalk, hd⟩

end GroupStore

end Gears.Groups
