import Gears.Groups.Links

/-!
# Every history keeps the forest and its closure in step

* `Sound.insert`, `Sound.place`, `Sound.removeGroups` : limits, types and tenants over the three
  kinds of change.
* `Sound.step` : every transaction keeps the store sound.
* `forest_and_closure_agree` : the store is sound after every history.
-/

namespace Gears.Groups

open Forest Except List Table

variable {rgType : GroupType}

namespace GroupStore

variable {s s' s₁ : GroupStore} {cfg : GroupConfig} {id p : Uuid} {g group : Group}
  {q : Option Uuid} {name : String}

/-- The place and the type of a group that is inserted fit. -/
structure NewFits (cfg : GroupConfig) (s : GroupStore) (group : Group) : Prop where
  present : ∀ p ∈ group.parentId, s.Present p
  type : s.TypeFits cfg group
  tenant : s.TenantFits cfg group
  depth : ∀ m ∈ cfg.profile.maxDepth, ∀ p ∈ group.parentId, s.getDepth p + 1 < m.toNat
  width : ∀ m ∈ cfg.profile.maxWidth, ∀ p ∈ group.parentId, s.countChildren p < m.toNat
  root : TenantRoot cfg group → ∀ g ∈ s.groups, ¬ TenantRoot cfg g

theorem findRoot_eq_none_iff :
    s.findRootIdWithTypePrefixes cfg = none ↔ ∀ g ∈ s.groups, ¬ TenantRoot cfg g := by
  simp [findRootIdWithTypePrefixes, TenantRoot]

theorem newFits_of_checkCreate {tenantId groupId : Uuid} {code : String}
    (hty : cfg.findByCode code = some rgType)
    (h : checkCreate cfg s rgType name tenantId q = .ok ()) : NewFits cfg s
      ⟨groupId, q, code, name, if cfg.isTenant rgType.code then groupId else tenantId⟩ := by
  obtain rfl : rgType.code = code := key_of_lookup hty
  cases q with
  | none =>
    simp only [checkCreate, checkCreateRoot, checkRootType, ok_iffs, onlyIf_eq_ok_iff,
      refuse_eq_ok_iff, Option.map_eq_none_iff, not_not] at h
    obtain ⟨-, hroot, htenant⟩ := h
    exact {
      present := by simp
      type := ⟨rgType, hty, fun _ => hroot, by simp⟩
      tenant := fun _ _ hp => by cases hp
      depth := by simp
      width := by simp
      root := fun h => findRoot_eq_none_iff.1 (htenant h.2) }
  | some p =>
    simp only [checkCreate, checkCreateUnder, checkParentType, ok_iffs, not_not] at h
    obtain ⟨parent, hparent, -, hallowed, -, htenant, _, hdepth, hwidth⟩ := h
    exact {
      present := by
        rintro _ ⟨⟩
        exact Option.isSome_of_mem hparent
      type := ⟨rgType, hty, by simp, by
        rintro _ ⟨⟩ r hr
        rw [← Option.mem_unique hparent hr]
        exact hallowed⟩
      tenant := by
        rintro hnot _ ⟨⟩ r hr
        rw [← Option.mem_unique hparent hr]
        simp only [hnot, Bool.false_eq_true, not_false_eq_true, true_and, not_not]
          at htenant ⊢
        exact htenant.symm
      depth := by
        rintro m hm _ ⟨⟩
        exact lt_of_checkDepth hdepth m hm
      width := by
        rintro m hm _ ⟨⟩
        exact lt_of_checkWidth hwidth m hm
      root := fun h => absurd h.1 (by simp) }

/-- **Creation keeps the store sound.** -/
theorem Sound.insert (hs : s.Sound cfg) (hcfg : ∀ m ∈ cfg.profile.maxDepth, 1 ≤ m.toNat)
    (hfits : NewFits cfg s group) (h : s.insertGroup group = .ok s') : s'.Sound cfg := by
  have hself : group.parentId ≠ some group.id := by
    intro hself
    have hpresent := hfits.present _ hself
    simp only [insertGroup, ok_iffs, insert_eq_some_iff] at h
    obtain ⟨-, ⟨hfree, -⟩, -⟩ := h
    rw [Present, findModelById, hfree] at hpresent
    cases hpresent
  have hins := inserted_of_insertGroup hs.keys hself h
  have hold : ∀ {p r}, s.Present p → s'.findModelById p = some r → s.findModelById p = some r := by
    intro p r hp hr
    rwa [hins.find, if_neg (hins.ne_of_present hp)] at hr
  have hgroups : ∀ g ∈ s'.groups, g ∈ s.groups ∨ g = group := by
    intro g hg
    rw [hins.groups] at hg
    simpa using hg
  have hfit : ∀ g ∈ s'.groups,
      s.TypeFits cfg g ∧ s.TenantFits cfg g ∧ ∀ p ∈ g.parentId, s.Present p := by
    intro g hg
    rcases hgroups g hg with hg | rfl
    · exact ⟨hs.types g hg, hs.tenants g hg,
        fun p hp => hs.present g.id p (hs.parentOf_of_mem hg ▸ hp)⟩
    · exact ⟨hfits.type, hfits.tenant, hfits.present⟩
  refine { hins.linked hs.toLinked hfits.present with
    depth := ?_, width := ?_, types := ?_, tenants := ?_, oneRoot := ?_ }
  · intro m hm x hx n a ha
    rcases hins.present_iff.1 hx with rfl | hx
    · cases n with
      | zero => exact hcfg m hm
      | succ n =>
        obtain ⟨p, hp, hup⟩ := (hins.up_self_succ hs.toLinked hfits.present).1 ha
        have hle := hs.le_getDepth (hfits.present p hp) hup
        have := hfits.depth m hm p hp
        omega
    · rw [hins.up_of_present hs.toLinked hx] at ha
      exact hs.depth m hm x hx n a ha
  · intro m hm p
    rw [countChildren, hins.groups, countP_append, countP_singleton]
    have hle : s.countChildren p ≤ m.toNat := hs.width m hm p
    rw [countChildren] at hle
    split
    case isTrue hp =>
      have hlt := hfits.width m hm p (of_decide_eq_true hp)
      rw [countChildren] at hlt
      omega
    case isFalse => omega
  · intro g hg
    obtain ⟨⟨ty, hty, hroot, hallowed⟩, -, hpresent⟩ := hfit g hg
    exact ⟨ty, hty, hroot, fun p hp r hr => hallowed p hp r (hold (hpresent p hp) hr)⟩
  · intro g hg hnot p hp r hr
    obtain ⟨-, htenant, hpresent⟩ := hfit g hg
    exact htenant hnot p hp r (hold (hpresent p hp) hr)
  · intro g hg hroot g' hg' hroot'
    rcases hgroups g hg with hg | rfl <;> rcases hgroups g' hg' with hg' | rfl
    · exact hs.oneRoot g hg hroot g' hg' hroot'
    · exact absurd hroot (hfits.root hroot' g hg)
    · exact absurd hroot' (hfits.root hroot g' hg')
    · rfl

theorem Sound.createGroup {req : CreateGroupRequest} {fresh callerTenantId : Uuid}
    (hs : s.Sound cfg) (hcfg : ∀ m ∈ cfg.profile.maxDepth, 1 ≤ m.toNat)
    (h : createGroup cfg s req fresh callerTenantId = .ok s') : s'.Sound cfg := by
  simp only [Groups.createGroup, createGroupInner, ok_iffs] at h
  obtain ⟨-, -, -, -, rgType, hty, _, hcheck, hinsert⟩ := h
  exact hs.insert hcfg (newFits_of_checkCreate hty hcheck) hinsert

/-- The place that a group is given fits it. -/
structure PlaceFits (cfg : GroupConfig) (s : GroupStore) (g : Group) (q : Option Uuid) : Prop where
  type : s.TypeFits cfg { g with parentId := q }
  tenant : s.TenantFits cfg { g with parentId := q }
  width : ∀ m ∈ cfg.profile.maxWidth, ∀ p ∈ q, g.parentId = q ∨ s.countChildren p < m.toNat
  root : q = none → cfg.isTenant g.code = true → ∀ r ∈ s.groups, TenantRoot cfg r → r.id = g.id

theorem Sound.placeFits_self (hs : s.Sound cfg) (hg : g ∈ s.groups) :
    PlaceFits cfg s g g.parentId where
  type := hs.types g hg
  tenant := hs.tenants g hg
  width _ _ _ _ := .inl rfl
  root hnone htenant r hr hroot := by rw [hs.oneRoot g hg ⟨hnone, htenant⟩ r hr hroot]

/-- A group of the store after a row was written, and the group it was before: its place fits, and
is the old one but for the group of the row. -/
theorem Sound.exists_of_mem_place {g' : Group} (hs : s.Sound cfg) (hg : g ∈ s.groups)
    (hfits : PlaceFits cfg s g q) (hgroups : s₁.groups = s.groups)
    (hg' : g' ∈ (s₁.updateGroupRow g.id q name).groups) :
    ∃ u ∈ s.groups, g'.id = u.id ∧ g'.code = u.code ∧ g'.tenantId = u.tenantId ∧
      PlaceFits cfg s u g'.parentId ∧ (u = g ∨ g'.parentId = u.parentId) := by
  obtain ⟨u, hu, rfl⟩ := mem_updateWhere.1 hg'
  rw [hgroups] at hu
  refine ⟨u, hu, ?_⟩
  by_cases hid : u.id = g.id
  · obtain rfl := hs.ids.eq_of_mem hu hg hid
    simp [hfits]
  · simp [hid, hs.placeFits_self hu]

theorem code_tenantId_of_find_updateGroupRow {x : Uuid} {r : Group} (hgroups : s₁.groups = s.groups)
    (hr : (s₁.updateGroupRow id q name).findModelById x = some r) :
    ∃ u, s.findModelById x = some u ∧ r.code = u.code ∧ r.tenantId = u.tenantId := by
  rw [find_updateGroupRow, Option.map_eq_some_iff] at hr
  obtain ⟨u, hu, rfl⟩ := hr
  refine ⟨u, ?_, ?_⟩
  · rwa [find_of_groups_eq hgroups] at hu
  · by_cases hx : x = id <;> simp [hx]

theorem Sound.width_place (hs : s.Sound cfg) (hg : g ∈ s.groups) (hfits : PlaceFits cfg s g q)
    (hgroups : s₁.groups = s.groups) : (s₁.updateGroupRow g.id q name).WithinWidth cfg := by
  intro m hm p
  have hold := hs.width m hm p
  have hcount : (s₁.updateGroupRow g.id q name).countChildren p =
      (updateWhere (·.id = g.id) (fun g => { g with parentId := q, name := name })
        s.groups).countP fun g => g.parentId = some p := by
    rw [countChildren, updateGroupRow, hgroups]
  rw [hcount]
  by_cases hmoved : q = some p ∧ g.parentId ≠ q
  · have hlt := (hfits.width m hm p hmoved.1).resolve_left hmoved.2
    exact (hs.ids.countP_updateWhere_le g.id _).trans hlt
  · -- no group becomes a child of this parent that was not one
    refine le_trans ?_ hold
    rw [updateWhere, countP_map]
    refine countP_mono_left fun u hu hp => ?_
    rw [decide_eq_true_eq]
    by_cases hid : u.id = g.id
    · obtain rfl := hs.ids.eq_of_mem hu hg hid
      have hp : q = some p := by simpa using hp
      have hsame : u.parentId = q := not_not.1 fun hne => hmoved ⟨hp, hne⟩
      exact hsame.trans hp
    · simpa [hid] using hp

theorem Sound.place (hs : s.Sound cfg) (hg : g ∈ s.groups) (hfits : PlaceFits cfg s g q)
    (hgroups : s₁.groups = s.groups) (hlinked : (s₁.updateGroupRow g.id q name).Linked)
    (hdepth : (s₁.updateGroupRow g.id q name).WithinDepth cfg) :
    (s₁.updateGroupRow g.id q name).Sound cfg := by
  refine { hlinked with
    depth := hdepth, width := hs.width_place hg hfits hgroups, types := ?_, tenants := ?_,
    oneRoot := ?_ }
  · intro g' hg'
    obtain ⟨u, hu, -, hcode, -, hplace, -⟩ := hs.exists_of_mem_place hg hfits hgroups hg'
    obtain ⟨ty, hty, hroot, hallowed⟩ := hplace.type
    refine ⟨ty, hcode ▸ hty, hroot, fun p hp r hr => ?_⟩
    obtain ⟨r₀, hr₀, hcode₀, -⟩ := code_tenantId_of_find_updateGroupRow hgroups hr
    exact hcode₀ ▸ hallowed p hp r₀ hr₀
  · intro g' hg' hnot p hp r hr
    obtain ⟨u, hu, -, hcode, htenant, hplace, -⟩ := hs.exists_of_mem_place hg hfits hgroups hg'
    obtain ⟨r₀, hr₀, -, htenant₀⟩ := code_tenantId_of_find_updateGroupRow hgroups hr
    rw [htenant, htenant₀]
    exact hplace.tenant (hcode ▸ hnot) p hp r₀ hr₀
  · intro g₁ hg₁ hroot₁ g₂ hg₂ hroot₂
    refine hlinked.ids.eq_of_mem hg₁ hg₂ ?_
    obtain ⟨u₁, hu₁, hid₁, hcode₁, -, hplace₁, hold₁⟩ :=
      hs.exists_of_mem_place hg hfits hgroups hg₁
    obtain ⟨u₂, hu₂, hid₂, hcode₂, -, hplace₂, hold₂⟩ :=
      hs.exists_of_mem_place hg hfits hgroups hg₂
    rw [hid₁, hid₂]
    -- one of the two was a tenant root before, unless both are the group of the row
    rcases hold₁ with rfl | hold₁
    · rcases hold₂ with rfl | hold₂
      · rfl
      · exact (hplace₁.root hroot₁.1 (hcode₁ ▸ hroot₁.2) u₂ hu₂
          ⟨hold₂ ▸ hroot₂.1, hcode₂ ▸ hroot₂.2⟩).symm
    · exact hplace₂.root hroot₂.1 (hcode₂ ▸ hroot₂.2) u₁ hu₁
        ⟨hold₁ ▸ hroot₁.1, hcode₁ ▸ hroot₁.2⟩

/-! ### Moves -/

/-- The snapshot of a new parent is the parent, in the tenant of the group. -/
def SnapshotFits (s : GroupStore) (g : Group) (q : Option Uuid) (parent : Option Group) : Prop :=
  ∀ p ∈ q, ∀ r ∈ parent, s.findModelById p = some r ∧ r.tenantId = g.tenantId

/-- What the checks of a move say. -/
structure MoveFits (cfg : GroupConfig) (s : GroupStore) (g : Group) (q : Option Uuid) :
    Prop extends PlaceFits cfg s g q where
  above : ∀ p ∈ q, s.Present p ∧ ∀ k, up s.parentOf k p ≠ some g.id
  depth : ∀ m ∈ cfg.profile.maxDepth, ∀ p ∈ q,
    s.getDepth p + 1 + s.getMaxDescendantDepth g.id < m.toNat

variable {parent : Option Group}

section

variable (hs : s.Sound cfg)
include hs

theorem Sound.moveFits_of_checkMove (hty : cfg.findByCode g.code = some rgType)
    (hsnap : s.SnapshotFits g q parent) (h : checkMove cfg s g.id rgType parent q = .ok ()) :
    MoveFits cfg s g q := by
  have hcode : rgType.code = g.code := key_of_lookup hty
  cases q with
  | none =>
    simp only [checkMove, checkMoveToRoot, checkRootType, ok_iffs, onlyIf_eq_ok_iff, not_not,
      hcode] at h
    obtain ⟨-, hroot, htenant⟩ := h
    refine {
      type := ⟨rgType, hty, fun _ => hroot, by simp⟩
      tenant := fun _ _ hp => by cases hp
      width := by simp
      root := fun _ hten r hr hrroot => ?_
      above := by simp
      depth := by simp }
    -- the one tenant root there may be is the group itself
    have hfilter := htenant hten
    cases hfind : s.groups.find? fun g => g.parentId = none ∧ cfg.isTenant g.code with
    | none =>
      have hnone : s.findRootIdWithTypePrefixes cfg = none := by
        rw [findRootIdWithTypePrefixes, hfind, Option.map_none]
      exact absurd hrroot (findRoot_eq_none_iff.1 hnone r hr)
    | some r₀ =>
      have hroot₀ : TenantRoot cfg r₀ := by simpa [TenantRoot] using find?_some hfind
      rw [hs.oneRoot r hr hrroot r₀ (mem_of_find?_eq_some hfind) hroot₀]
      rw [findRootIdWithTypePrefixes, hfind] at hfilter
      simpa using hfilter
  | some p =>
    simp only [checkMove, checkMoveUnder, checkParentType, ok_iffs, not_not] at h
    obtain ⟨-, hcycle, r, hr, -, hallowed, _, hdepth, hwidth⟩ := h
    obtain ⟨hfind, htenant⟩ := hsnap p rfl r hr
    have hpresent : s.Present p := Option.isSome_of_mem hfind
    exact {
      type := ⟨rgType, hty, by simp, by
        rintro _ ⟨⟩ r' hr'
        rw [← Option.mem_unique hfind hr']
        exact hallowed⟩
      tenant := by
        rintro - _ ⟨⟩ r' hr'
        rw [← Option.mem_unique hfind hr']
        exact htenant.symm
      width := by
        rintro m hm _ ⟨⟩
        exact .inr (lt_of_checkWidth hwidth m hm)
      root := by simp
      above := by
        rintro _ ⟨⟩
        exact ⟨hpresent, fun k hup => hcycle (hs.isDescendant_of_up hpresent hup)⟩
      depth := by
        rintro m hm _ ⟨⟩
        exact lt_of_checkDepth hdepth m hm }

/-- **A move keeps the store sound.** -/
theorem Sound.move (hg : s.findModelById g.id = some g) (hty : cfg.findByCode g.code = some rgType)
    (hsnap : s.SnapshotFits g q parent) (h : moveGroupInternal cfg s g.id q parent rgType = .ok s₁)
    (name : String) : (s₁.updateGroupRow g.id q name).Sound cfg := by
  simp only [moveGroupInternal, bind_eq_ok_iff] at h
  obtain ⟨_, hcheck, hrebuild⟩ := h
  have hfits := hs.moveFits_of_checkMove hty hsnap hcheck
  have hpresent : s.Present g.id := Option.isSome_of_mem hg
  have hlinked := hs.toLinked.reparent hpresent hfits.above hrebuild name
  have hrebuilt := hs.toLinked.rebuilt (fun p hp => (hfits.above p hp).2) hrebuild
  refine hs.place (mem_of_lookup hg) hfits.toPlaceFits hrebuilt.groups hlinked ?_
  intro m hm x hx n a ha
  have hx : s.Present x := (present_updateGroupRow hrebuilt.groups).1 hx
  rw [parentOf_updateGroupRow hrebuilt.groups hpresent,
    hs.acyclic.up_update_iff fun p hp => (hfits.above p hp).2] at ha
  rcases ha with ⟨ha, -⟩ | ⟨k, j, p, hk, hp, hj, rfl⟩
  · exact hs.depth m hm x hx n a ha
  · have hbelow := hs.le_getMaxDescendantDepth hx hk
    have habove := hs.le_getDepth (hfits.above p hp).1 hj
    have := hfits.depth m hm p hp
    omega

theorem Sound.rename (hg : s.findModelById g.id = some g) (name : String) :
    (s.updateGroupRow g.id g.parentId name).Sound cfg := by
  have hpresent : s.Present g.id := Option.isSome_of_mem hg
  have hparent : (s.updateGroupRow g.id g.parentId name).parentOf = s.parentOf := by
    rw [parentOf_updateGroupRow rfl hpresent]
    have hself : s.parentOf g.id = g.parentId := by rw [parentOf, hg, Option.bind_some]
    rw [← hself]
    exact Function.update_eq_self _ _
  refine hs.place (mem_of_lookup hg) (hs.placeFits_self (mem_of_lookup hg)) rfl ?_ ?_
  · refine ⟨hs.ids.updateWhere fun _ => rfl, hs.keys, ?_, hparent ▸ hs.acyclic, fun row => ?_⟩
    · intro x p hp
      rw [hparent] at hp
      exact (present_updateGroupRow rfl).2 (hs.present x p hp)
    · rw [Describes, present_updateGroupRow rfl, hparent]
      exact hs.rows row
  · intro m hm x hx n a ha
    rw [hparent] at ha
    exact hs.depth m hm x ((present_updateGroupRow rfl).1 hx) n a ha

theorem Sound.updateGroup (h : updateGroup cfg s id q name = .ok s') : s'.Sound cfg := by
  simp only [Groups.updateGroup, ok_iffs] at h
  obtain ⟨g, hg, snapshot, hsnap, h⟩ := h
  obtain rfl : g.id = id := key_of_lookup hg
  split at h
  case isTrue hsame =>
    cases h
    subst hsame
    exact hs.rename hg name
  case isFalse =>
    simp only [ok_iffs, ok.injEq] at h
    obtain ⟨rgType, hty, s₁, hmove, rfl⟩ := h
    refine hs.move hg hty ?_ hmove name
    intro p hp r hr
    obtain rfl : q = some p := hp
    unfold newParentSnapshot at hsnap
    dsimp only at hsnap
    split at hsnap
    · cases hsnap
      cases hr
    · simp only [ok_iffs, ok.injEq, not_not] at hsnap
      obtain ⟨r', hr', -, htenant, rfl⟩ := hsnap
      obtain rfl := Option.some.inj hr
      exact ⟨hr', htenant⟩

theorem Sound.moveGroup (h : moveGroup cfg s id q = .ok s') : s'.Sound cfg := by
  simp only [Groups.moveGroup, ok_iffs, forSome_eq_ok_iff, Except.ok.injEq, not_not]
    at h
  obtain ⟨g, hg, rgType, hty, -, -, s₁, hmove, -, htenant, rfl⟩ := h
  obtain rfl : g.id = id := key_of_lookup hg
  refine hs.move hg hty (fun p hp r hr => ?_) hmove g.name
  obtain rfl : q = some p := hp
  exact ⟨hr, htenant r hr⟩

theorem Sound.removeGroups {ids : List Uuid}
    (hdown : ∀ x p, s.parentOf x = some p → p ∈ ids → x ∈ ids) :
    (s.removeGroups ids).Sound cfg := by
  have hmem : ∀ g ∈ (s.removeGroups ids).groups, g ∈ s.groups :=
    fun g hg => (mem_deleteWhere.1 hg).1
  have hfind : ∀ {p r}, (s.removeGroups ids).findModelById p = some r →
      s.findModelById p = some r := by
    intro p r hr
    rw [find_removeGroups] at hr
    split at hr
    · cases hr
    · exact hr
  refine { hs.toLinked.removeGroups hdown with
    depth := ?_, width := ?_, types := ?_, tenants := ?_, oneRoot := ?_ }
  · intro m hm x hx n a ha
    have ha := up_mono (fun x p hp => (parentOf_of_removeGroups hp).2) ha
    exact hs.depth m hm x (present_removeGroups.1 hx).2 n a ha
  · intro m hm p
    exact (filter_sublist.countP_le).trans (hs.width m hm p)
  · intro g hg
    obtain ⟨ty, hty, hroot, hallowed⟩ := hs.types g (hmem g hg)
    exact ⟨ty, hty, hroot, fun p hp r hr => hallowed p hp r (hfind hr)⟩
  · intro g hg hnot p hp r hr
    exact hs.tenants g (hmem g hg) hnot p hp r (hfind hr)
  · intro g hg hroot g' hg' hroot'
    exact hs.oneRoot g (hmem g hg) hroot g' (hmem g' hg') hroot'

theorem Sound.withMemberships (memberships : List Uuid) :
    ({ s with memberships := memberships } : GroupStore).Sound cfg := { hs with }

theorem Sound.forceDeleteSubtree (id : Uuid) : (forceDeleteSubtree s id).Sound cfg := by
  refine (hs.withMemberships _).removeGroups fun x p hp hmem => ?_
  have hx : s.Present x := present_of_parentOf hp
  have hwalk : ∃ k, up s.parentOf k p = some id := by
    rcases mem_cons.1 hmem with rfl | hmem
    · exact ⟨0, rfl⟩
    · obtain ⟨r, hr, rfl⟩ := mem_map.1 hmem
      obtain ⟨hr, hra⟩ := mem_filter.1 hr
      obtain ⟨hra, -⟩ := of_decide_eq_true hra
      exact ⟨r.depth, hra ▸ ((hs.rows r).1 hr).2⟩
  obtain ⟨k, hk⟩ := hwalk
  refine mem_cons_of_mem _ (mem_map.2 ⟨⟨id, x, k + 1⟩, mem_filter.2 ⟨?_, ?_⟩, rfl⟩)
  · exact hs.mem_closure_iff.2 ⟨hx, up_succ_eq_some_iff.2 ⟨p, hp, hk⟩⟩
  · exact decide_eq_true ⟨rfl, Nat.succ_ne_zero k⟩

theorem Sound.deleteGroup {force : Bool} (h : deleteGroup s id force = .ok s') :
    s'.Sound cfg := by
  simp only [Groups.deleteGroup, bind_eq_ok_iff] at h
  obtain ⟨-, -, h⟩ := h
  split at h
  · cases h
    exact hs.forceDeleteSubtree id
  · simp only [ok_iffs, ok.injEq, not_not] at h
    obtain ⟨-, hchildren, -, -, rfl⟩ := h
    refine hs.removeGroups fun x p hp hmem => ?_
    obtain rfl := mem_singleton.1 hmem
    obtain ⟨g, hg, hp⟩ := parentOf_eq_some_iff.1 hp
    exact absurd (decide_eq_true hp) (countP_eq_zero.1 hchildren g (mem_of_lookup hg))

end

/-! ### Histories -/

theorem sound_empty (cfg : GroupConfig) : empty.Sound cfg where
  ids := keyed_nil
  keys := keyed_nil
  present _ _ h := by cases h
  acyclic n x h := by cases h
  rows row := iff_of_false (by simp [empty]) fun h => by cases h.1
  depth _ _ _ h := by cases h
  width _ _ _ := Nat.zero_le _
  types _ h := by cases h
  tenants _ h := by cases h
  oneRoot _ h := by cases h

theorem Sound.step {e : GroupEvent} (hcfg : ∀ m ∈ cfg.profile.maxDepth, 1 ≤ m.toNat)
    (hs : s.Sound cfg) (h : s.step cfg e = .ok s') : s'.Sound cfg := by
  cases e with
  | create req fresh callerTenantId => exact hs.createGroup hcfg h
  | update groupId parentId name => exact hs.updateGroup h
  | move groupId newParentId => exact hs.moveGroup h
  | delete groupId force => exact hs.deleteGroup h
  | addMembership groupId =>
    cases h
    exact hs.withMemberships _

end GroupStore

/-- **The group forest and its closure agree.**  After every history of transactions from the
empty store, under one type table and one profile whose depth limit is at least one, the links form
a forest, the closure lists its walks, and limits, types and tenants are kept. -/
theorem forest_and_closure_agree {cfg : GroupConfig}
    (hcfg : ∀ m ∈ cfg.profile.maxDepth, 1 ≤ m.toNat) {events : List GroupEvent} {s : GroupStore}
    (hrun : Machine.run (GroupStore.step cfg) .empty events = .ok s) : s.Sound cfg :=
  Machine.run_invariant (fun _ _ _ hs h => hs.step hcfg h) hrun (GroupStore.sound_empty cfg)

/-- Two types: tenants, which may be roots, and teams below a tenant or a team. -/
def sampleConfig : GroupConfig where
  types := [⟨"tn", true, []⟩, ⟨"team", false, ["tn", "team"]⟩]
  profile := ⟨some 4, some 2⟩
  tenantPrefixes := ["tn"]

/-- A tenant root with teams, one of which moves with what is below it and is then removed. -/
def sampleHistory : List GroupEvent :=
  let team (id parent : Uuid) : GroupEvent := .create ⟨none, "team", "t", some parent, none⟩ id 1
  [ .create ⟨some 1, "tn", "root", none, none⟩ 0 9, team 2 1, team 3 1, team 4 3, team 5 4,
    .move 4 (some 2), .update 5 (some 2) "five", .update 2 (some 1) "two",
    .delete 3 false, .delete 4 true ]

/-- The history runs, and the closure holds the walks that are left. -/
theorem forest_and_closure_agree_sample :
    ∃ s, Machine.run (GroupStore.step sampleConfig) .empty sampleHistory = .ok s ∧
      s.closure = [⟨1, 1, 0⟩, ⟨2, 2, 0⟩, ⟨1, 2, 1⟩, ⟨5, 5, 0⟩, ⟨2, 5, 1⟩, ⟨1, 5, 2⟩] ∧
        s.Sound sampleConfig := by
  have hdepth : ∀ m ∈ sampleConfig.profile.maxDepth, 1 ≤ m.toNat := by
    intro m hm
    cases hm
    decide
  exact exists_ok_of (by decide +kernel)
    fun s hs hclosure => ⟨hclosure, forest_and_closure_agree hdepth hs⟩

end Gears.Groups
