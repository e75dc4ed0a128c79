import Gears.Orders.Claims
import Gears.Lib.Machine
import Mathlib

/-!
# Claims over runs

What any interleaving of transitions of any number of orders leaves of their claims.

* `releaseClaims_eq_ok`, `offerAll_eq_ok`, `plan_eq_ok` : what each statement does.
* `replaceClaims_eq_ok` : a replacement acquires everything and releases what is superseded, or
  leaves the live claims as they were.
* `Store.Exact` : the invariant; `one_order_in_flight` : what follows for every run.
-/

namespace Gears.Orders

open Except List Function

/-- The claims that are not released. -/
def live (claims : List ClaimRow) : List ClaimRow := claims.filter (·.releasedAt = none)

/-- The tuples an order holds. -/
def heldTuples (claims : List ClaimRow) (orderId : Uuid) : List ClaimTuple :=
  (liveClaims claims orderId).map (·.tuple)

variable {claims claims' rows : List ClaimRow} {order : OrderRow} {orderId id : Uuid}
  {ids : List Uuid} {c : ClaimRow} {t : ClaimTuple} {now : Timestamp} {session : Session}
  {authority : ProposalAuthority} {proposal : ProposedClaims} {target : OrderState}

theorem mem_live : c ∈ live claims ↔ c ∈ claims ∧ c.releasedAt = none := by
  simp [live]

theorem live_append : live (claims ++ rows) = live claims ++ live rows := filter_append ..

theorem mem_heldTuples :
    t ∈ heldTuples claims orderId ↔ ∃ c ∈ live claims, c.orderId = orderId ∧ c.tuple = t := by
  simp only [heldTuples, liveClaims, mem_map, mem_filter, decide_eq_true_eq, mem_live]
  constructor
  · rintro ⟨c, ⟨hc, horder, hlive⟩, rfl⟩
    exact ⟨c, ⟨hc, hlive⟩, horder, rfl⟩
  · rintro ⟨c, ⟨hc, hlive⟩, horder, rfl⟩
    exact ⟨c, ⟨hc, horder, hlive⟩, rfl⟩

/-! ### Statements -/

/-- What a release writes. -/
def releaseRow (orderId : Uuid) (ids : List Uuid) (now : Timestamp) (c : ClaimRow) : ClaimRow :=
  if Releases orderId ids c then { c with releasedAt := some now } else c

theorem releaseRow_claimId : (releaseRow orderId ids now c).claimId = c.claimId := by
  unfold releaseRow
  split <;> rfl

theorem releaseClaims_eq_ok (h : releaseClaims claims order ids now = .ok claims') :
    claims' = claims.map (releaseRow order.orderId ids now) := by
  unfold releaseClaims at h
  split at h
  · rename_i hnil
    cases h
    have hnone : ∀ c ∈ claims, releaseRow order.orderId ids now c = c := fun c _ =>
      if_neg fun hr => by simp [Releases, hnil] at hr
    rw [map_congr_left hnone, map_id']
  · simp only [ok_iffs, exists_const] at h
    exact h.2.2.2.symm

theorem map_claimId_release :
    (claims.map (releaseRow orderId ids now)).map (·.claimId) = claims.map (·.claimId) := by
  rw [map_map]
  exact map_congr_left fun c _ => releaseRow_claimId

theorem live_release : live (claims.map (releaseRow orderId ids now)) =
    (live claims).filter (¬ Releases orderId ids ·) := by
  induction claims with
  | nil => rfl
  | cons c claims ih =>
    by_cases hr : Releases orderId ids c
    · have hlive : c.releasedAt = none := hr.2.2
      simp only [live, map_cons, releaseRow] at ih ⊢
      simp [hr, ih]
    · simp only [live, map_cons, releaseRow] at ih ⊢
      by_cases hlive : c.releasedAt = none <;> simp [hlive, hr, ih]

theorem heldClaim_eq (row : ClaimRow) : heldClaim row = .ok ⟨row.claimId, row.tuple⟩ := by
  unfold heldClaim
  rw [OverlapScopeKey.tryFrom_text]
  rfl

variable {held : List HeldClaim} {post : OrderRow}

theorem planHeld_eq_ok {seen seen' : List ClaimTuple}
    {retained retained' superseded superseded' : List Uuid}
    (h : planHeld proposal held (seen, retained, superseded) =
      .ok (seen', retained', superseded')) : seen' = seen ++ held.map (·.tuple) ∧
      superseded' = superseded ++ (held.filter (·.tuple ∉ proposal.tuples)).map (·.claimId) := by
  induction held generalizing seen retained superseded with
  | nil =>
    cases h
    simp
  | cons claim held ih =>
    rw [planHeld] at h
    split at h
    · cases h
    · split at h
      · rename_i hmem
        obtain ⟨rfl, rfl⟩ := ih h
        simp [hmem]
      · rename_i hmem
        obtain ⟨rfl, rfl⟩ := ih h
        simp [hmem]

theorem plan_eq_ok {p : ClaimPlan} (h : plan held proposal = .ok p) :
    p.missing = proposal.tuples.filter (· ∉ held.map (·.tuple)) ∧
      p.superseded = (held.filter (·.tuple ∉ proposal.tuples)).map (·.claimId) := by
  simp only [plan, bind_eq_ok_iff] at h
  obtain ⟨⟨seen, retained, superseded⟩, hloop, h⟩ := h
  cases h
  obtain ⟨rfl, rfl⟩ := planHeld_eq_ok hloop
  simp

/-- **Offering the missing tuples.** The tuples without a live claim get one, under new ids. -/
theorem offerAll_eq_ok {missing : List ClaimTuple} {acquired : List AcquiredClaim}
    (h : offerAll order authority session missing claims = .ok (acquired, claims'))
    (hmissing : missing.Nodup) (hids : (claims.map (·.claimId)).Nodup) :
    ∃ rows, claims' = claims ++ rows ∧ acquired = rows.map (fun r => ⟨r.claimId, r.tuple⟩) ∧
      rows.map (·.tuple) = missing.filter (· ∉ (live claims).map (·.tuple)) ∧
      (∀ r ∈ rows, r.orderId = order.orderId ∧ r.releasedAt = none) ∧
      ((claims ++ rows).map (·.claimId)).Nodup := by
  induction missing generalizing claims acquired with
  | nil =>
    cases h
    exact ⟨[], by simp [hids]⟩
  | cons tuple missing ih =>
    obtain ⟨hhead, hmissing⟩ := nodup_cons.1 hmissing
    simp only [offerAll, offerTuple, ok_iffs, exists_const] at h
    obtain ⟨⟨inserted, claims₁⟩, ⟨-, hoffer⟩, ⟨acquired', claims₂⟩, hrest, h⟩ := h
    cases h
    split at hoffer
    -- a live claim on the tuple blocks it and nothing is inserted
    · rename_i htaken
      cases hoffer
      obtain ⟨rows, rfl, rfl, htuples, hrows, hids⟩ := ih hrest hmissing hids
      refine ⟨rows, rfl, rfl, ?_, hrows, hids⟩
      obtain ⟨c, hc, rfl, hlive⟩ := htaken
      have hmem : c.tuple ∈ (live claims).map (·.tuple) :=
        mem_map.2 ⟨c, mem_live.2 ⟨hc, hlive⟩, rfl⟩
      rw [htuples, filter_cons_of_neg (by simpa using hmem)]
    · rename_i hfree
      simp only [ok_iffs, exists_const] at hoffer
      obtain ⟨hfresh, rfl, rfl⟩ := hoffer
      have hids₁ : ((claims ++ [(⟨session.newId tuple, tuple, order.orderId,
          authority.proposedVersion, session.now, none⟩ : ClaimRow)]).map
            (·.claimId)).Nodup := by
        rw [map_append, nodup_append]
        refine ⟨hids, by simp, ?_⟩
        rintro a ha b hb rfl
        obtain ⟨c, hc, hid⟩ := mem_map.1 ha
        exact hfresh ⟨c, hc, hid.trans (mem_singleton.1 hb)⟩
      obtain ⟨rows, rfl, rfl, htuples, hrows, hids⟩ := ih hrest hmissing hids₁
      refine ⟨⟨session.newId tuple, tuple, order.orderId, authority.proposedVersion, session.now,
        none⟩ :: rows, by simp, rfl, ?_, ?_, by simpa using hids⟩
      · have hnot : tuple ∉ (live claims).map (·.tuple) := by
          rintro hmem
          obtain ⟨c, hc, rfl⟩ := mem_map.1 hmem
          exact hfree ⟨c, (mem_live.1 hc).1, rfl, (mem_live.1 hc).2⟩
        rw [map_cons, htuples, filter_cons_of_pos (by simpa using hnot)]
        congr 1
        -- the new claim has the offered tuple, which is not offered again
        refine filter_congr fun t ht => ?_
        have hne : t ≠ tuple := fun heq => hhead (heq ▸ ht)
        simp [live, hne]
      · intro r hr
        rcases mem_cons.1 hr with rfl | hr
        · exact ⟨rfl, rfl⟩
        · exact hrows r hr

/-! ### Replacements -/

/-- The claims of a replacement that was refused: `blocked` are the missing tuples with a live
claim, and the live claims are those before. -/
structure Refused (claims claims' : List ClaimRow) (orderId : Uuid) (proposal : ProposedClaims)
    (conflict : OverlapConflict) : Prop where
  live_eq : live claims' = live claims
  blocked_eq : conflict.blocked.map (·.tuple) = proposal.tuples.filter fun t =>
    t ∉ heldTuples claims orderId ∧ t ∈ (live claims).map (·.tuple)
  provisional : ∀ id ∈ conflict.provisionalReleased, id ∉ (live claims').map (·.claimId)

/-- The claims of a replacement that was admitted: the superseded claims are gone, and there is a
new one for every missing tuple, none of which had a live claim. -/
structure Replaced (claims claims' rows : List ClaimRow) (orderId : Uuid)
    (proposal : ProposedClaims) : Prop where
  live_eq : live claims' =
    (live claims).filter (fun c => c.orderId = orderId → c.tuple ∈ proposal.tuples) ++ rows
  tuples_eq : rows.map (·.tuple) = proposal.tuples.filter (· ∉ heldTuples claims orderId)
  free : ∀ r ∈ rows, r.tuple ∉ (live claims).map (·.tuple)
  orderId_eq : ∀ r ∈ rows, r.orderId = orderId

theorem Replaced.mem_heldTuples_iff (h : Replaced claims claims' rows orderId proposal) :
    t ∈ heldTuples claims' orderId ↔ t ∈ proposal.tuples := by
  rw [mem_heldTuples, h.live_eq]
  constructor
  · rintro ⟨c, hc, horder, rfl⟩
    rcases mem_append.1 hc with hc | hc
    · exact of_decide_eq_true (mem_filter.1 hc).2 horder
    · have hmem : c.tuple ∈ rows.map (·.tuple) := mem_map.2 ⟨c, hc, rfl⟩
      rw [h.tuples_eq] at hmem
      exact mem_of_mem_filter hmem
  · intro ht
    by_cases hheld : t ∈ heldTuples claims orderId
    · obtain ⟨c, hc, horder, rfl⟩ := mem_heldTuples.1 hheld
      refine ⟨c, mem_append_left _ (mem_filter.2 ⟨hc, ?_⟩), horder, rfl⟩
      exact decide_eq_true fun _ => ht
    · have hmem : t ∈ rows.map (·.tuple) := by
        rw [h.tuples_eq]
        exact mem_filter.2 ⟨ht, decide_eq_true hheld⟩
      obtain ⟨r, hr, rfl⟩ := mem_map.1 hmem
      exact ⟨r, mem_append_right _ hr, h.orderId_eq r hr, rfl⟩

theorem releases_superseded_iff (hids : (claims.map (·.claimId)).Nodup) (hc : c ∈ live claims) :
    Releases orderId (((liveClaims claims orderId).filter (·.tuple ∉ proposal.tuples)).map
      (·.claimId)) c ↔ c.orderId = orderId ∧ c.tuple ∉ proposal.tuples := by
  obtain ⟨hmem, hlive⟩ := mem_live.1 hc
  constructor
  · rintro ⟨horder, hid, -⟩
    obtain ⟨c', hc', hid⟩ := mem_map.1 hid
    obtain ⟨hlive', htuple⟩ := mem_filter.1 hc'
    obtain rfl := inj_on_of_nodup_map hids (mem_of_mem_filter hlive') hmem hid
    exact ⟨horder, of_decide_eq_true htuple⟩
  · rintro ⟨horder, htuple⟩
    refine ⟨horder, mem_map.2 ⟨c, mem_filter.2 ⟨?_, decide_eq_true htuple⟩, rfl⟩, hlive⟩
    exact mem_filter.2 ⟨hmem, decide_eq_true ⟨horder, hlive⟩⟩

theorem mapM_heldClaim (h : rows.mapM heldClaim = .ok held) :
    held = rows.map fun r => ⟨r.claimId, r.tuple⟩ := by
  have hmap : held.map id = rows.map fun r => (⟨r.claimId, r.tuple⟩ : HeldClaim) := by
    refine map_eq_of_mapM h fun row claim hrow => ?_
    rw [heldClaim_eq] at hrow
    exact (Except.ok.inj hrow).symm
  simpa using hmap

theorem live_eq_self (h : ∀ r ∈ rows, r.releasedAt = none) : live rows = rows :=
  filter_eq_self.2 fun r hr => decide_eq_true (h r hr)

theorem live_release_rows (hids : ((claims ++ rows).map (·.claimId)).Nodup)
    (hrows : ∀ r ∈ rows, r.orderId = orderId ∧ r.releasedAt = none) :
    live ((claims ++ rows).map (releaseRow orderId (rows.map (·.claimId)) now)) = live claims := by
  rw [map_append, nodup_append] at hids
  rw [live_release, live_append, filter_append, live_eq_self fun r hr => (hrows r hr).2]
  have hold : (live claims).filter (¬ Releases orderId (rows.map (·.claimId)) ·) = live claims := by
    refine filter_eq_self.2 fun c hc => decide_eq_true fun hr => ?_
    exact hids.2.2 _ (mem_map.2 ⟨c, (mem_live.1 hc).1, rfl⟩) _ hr.2.1 rfl
  have hnew : rows.filter (¬ Releases orderId (rows.map (·.claimId)) ·) = [] := by
    refine filter_eq_nil_iff.2 fun r hr hkept => of_decide_eq_true hkept ?_
    exact ⟨(hrows r hr).1, mem_map.2 ⟨r, hr, rfl⟩, (hrows r hr).2⟩
  rw [hold, hnew, append_nil]

theorem live_release_superseded (hids : ((claims ++ rows).map (·.claimId)).Nodup)
    (hrows : ∀ r ∈ rows, r.orderId = orderId ∧ r.releasedAt = none) :
    live ((claims ++ rows).map (releaseRow orderId (((liveClaims claims orderId).filter
        (·.tuple ∉ proposal.tuples)).map (·.claimId)) now)) =
      (live claims).filter (fun c => c.orderId = orderId → c.tuple ∈ proposal.tuples) ++ rows := by
  rw [map_append, nodup_append] at hids
  rw [live_release, live_append, filter_append, live_eq_self fun r hr => (hrows r hr).2]
  congr 1
  · refine filter_congr fun c hc => ?_
    rw [decide_eq_decide, releases_superseded_iff hids.1 hc]
    tauto
  · refine filter_eq_self.2 fun r hr => decide_eq_true fun hreleases => ?_
    obtain ⟨c, hc, hid⟩ := mem_map.1 hreleases.2.1
    have hmem : c ∈ claims := mem_of_mem_filter (mem_of_mem_filter hc)
    exact hids.2.2 _ (mem_map.2 ⟨c, hmem, rfl⟩) _ (mem_map.2 ⟨r, hr, rfl⟩) hid

/-- **A replacement** acquires everything, or changes no live claim. -/
theorem replaceClaims_eq_ok {outcome : ClaimOutcome} (hids : (claims.map (·.claimId)).Nodup)
    (h : replaceClaims claims order proposal authority session = .ok (outcome, claims')) :
    (claims'.map (·.claimId)).Nodup ∧
      ((∃ conflict, outcome = .conflict conflict ∧
          Refused claims claims' order.orderId proposal conflict) ∨
        ((∀ conflict, outcome ≠ .conflict conflict) ∧
          ∃ rows, Replaced claims claims' rows order.orderId proposal)) := by
  simp only [replaceClaims, ok_iffs, exists_const] at h
  obtain ⟨-, -, -, now, -, held, hheld, p, hplan, ⟨acquired, claims₁⟩, hoffer, h⟩ := h
  obtain rfl := mapM_heldClaim hheld
  obtain ⟨retained, missing, superseded⟩ := p
  obtain ⟨hmissing, hsuperseded⟩ := plan_eq_ok hplan
  simp only at hmissing hsuperseded
  have hseen : ((liveClaims claims order.orderId).map fun r =>
      (⟨r.claimId, r.tuple⟩ : HeldClaim)).map (·.tuple) = heldTuples claims order.orderId := by
    rw [map_map]
    rfl
  rw [hseen] at hmissing
  obtain ⟨rows, rfl, rfl, htuples, hrows, hids₁⟩ :=
    offerAll_eq_ok hoffer (hmissing ▸ proposal.nodup.filter _) hids
  have hprovisional : (rows.map fun r => (⟨r.claimId, r.tuple⟩ : AcquiredClaim)).map
      (·.claimId) = rows.map (·.claimId) := by rw [map_map]; rfl
  -- a shortfall, then a full acquisition
  split at h
  · simp only [ok_iffs] at h
    obtain ⟨claims₂, hrelease, rfl, rfl⟩ := h
    rw [hprovisional] at hrelease ⊢
    obtain rfl := releaseClaims_eq_ok hrelease
    have hlive := @live_release_rows _ _ _ now hids₁ hrows
    refine ⟨by rwa [map_claimId_release], .inl ⟨_, rfl, hlive, ?_, ?_⟩⟩
    · simp only [map_map, comp_def, map_id']
      rw [htuples, hmissing, filter_filter]
      refine filter_congr fun t ht => Bool.eq_iff_iff.2 ?_
      simp only [mem_filter, decide_eq_true_eq, Bool.and_eq_true]
      tauto
    · intro id hid hmem
      rw [hlive] at hmem
      rw [map_append, nodup_append] at hids₁
      obtain ⟨c, hc, rfl⟩ := mem_map.1 hmem
      exact hids₁.2.2 _ (mem_map.2 ⟨c, (mem_live.1 hc).1, rfl⟩) _ hid rfl
  · rename_i hall
    simp only [ok_iffs] at h
    obtain ⟨claims₂, hrelease, rfl, rfl⟩ := h
    obtain rfl := releaseClaims_eq_ok hrelease
    -- as many rows as missing tuples, so none of them was blocked
    have hfree : missing.filter (· ∉ (live claims).map (·.tuple)) = missing := by
      refine filter_eq_self.2 (length_filter_eq_length_iff.1 ?_)
      refine le_antisymm (length_filter_le _ _) ?_
      rw [← htuples]
      simpa using hall
    rw [hfree] at htuples
    refine ⟨by rwa [map_claimId_release], .inr ⟨by simp, rows, ?_, ?_, ?_, ?_⟩⟩
    · rw [hsuperseded, filter_map, map_map]
      exact live_release_superseded hids₁ hrows
    · rw [htuples, hmissing]
    · intro r hr hmem
      have hr : r.tuple ∈ missing := htuples ▸ mem_map.2 ⟨r, hr, rfl⟩
      exact of_decide_eq_true (filter_eq_self.1 hfree _ hr) hmem
    · exact fun r hr => (hrows r hr).1

/-- What a committed attempt does to the store. -/
inductive AttemptStep (s : Store) (attempt : Attempt) (order : OrderRow) : Settled → Store → Prop
  | released {target : OrderState} {outcome : ClaimOutcome} {claims : List ClaimRow}
      (hterminal : isTerminal target = true)
      (hlive : live claims = (live s.claims).filter (·.orderId ≠ order.orderId)) :
      AttemptStep s attempt order (.admitted outcome)
        (s.commit attempt (order.post target attempt) claims)
  | retained {target : OrderState} {outcome : ClaimOutcome} (hopen : isTerminal target = false)
      (htrigger : attempt.trigger ∉ acquiringTriggers) :
      AttemptStep s attempt order (.admitted outcome)
        (s.commit attempt (order.post target attempt) s.claims)
  | replaced {target : OrderState} {outcome : ClaimOutcome} {proposal : ProposedClaims}
      {claims rows : List ClaimRow} (hopen : isTerminal target = false)
      (htrigger : attempt.trigger ∈ acquiringTriggers) (hclaims : attempt.claims = some proposal)
      (hreplaced : Replaced s.claims claims rows order.orderId proposal) :
      AttemptStep s attempt order (.admitted outcome)
        (s.commit attempt (order.post target attempt) claims)
  | refused {conflict : OverlapConflict} {proposal : ProposedClaims} {claims : List ClaimRow}
      (hclaims : attempt.claims = some proposal)
      (hrefused : Refused s.claims claims order.orderId proposal conflict) :
      AttemptStep s attempt order (.refused conflict) { s with claims := claims }

theorem forTransition_eq_ok {trigger : Trigger} {proposed : Option ProposedClaims}
    {directive : ClaimDirective}
    (h : ClaimDirective.forTransition trigger target proposed = .ok directive) :
    (directive = .releaseAll ∧ isTerminal target = true) ∨
      (directive = .retain ∧ isTerminal target = false ∧ trigger ∉ acquiringTriggers) ∨
      ∃ proposal, directive = .replace proposal ∧ isTerminal target = false ∧
        trigger ∈ acquiringTriggers ∧ proposed = some proposal := by
  unfold ClaimDirective.forTransition at h
  cases hterminal : isTerminal target <;>
    by_cases htrigger : trigger ∈ acquiringTriggers <;>
    cases proposed <;>
    simp [hterminal, htrigger, eq_comm] at h ⊢ <;>
    exact h

theorem live_release_all :
    live (claims.map (releaseRow orderId ((liveClaims claims orderId).map (·.claimId)) now)) =
      (live claims).filter (·.orderId ≠ orderId) := by
  rw [live_release]
  refine filter_congr fun c hc => decide_eq_decide.2 (not_congr ⟨fun h => h.1, fun h => ?_⟩)
  obtain ⟨hmem, hlive⟩ := mem_live.1 hc
  refine ⟨h, mem_map.2 ⟨c, ?_, rfl⟩, hlive⟩
  exact mem_filter.2 ⟨hmem, decide_eq_true ⟨h, hlive⟩⟩

variable {s s' : Store} {attempt : Attempt} {settled : Settled}

theorem authority_replace {o : Option ProposalAuthority}
    (h : attempt.authority post (.replace proposal) = .ok o) : ∃ authority, o = some authority := by
  simp only [Attempt.authority] at h
  split at h
  · cases h
    exact ⟨_, rfl⟩
  · cases h

/-- **Everything an attempt can do.** -/
theorem admitRow_eq_ok (hids : (s.claims.map (·.claimId)).Nodup)
    (h : s.admitRow attempt session = .ok (settled, s')) :
    (s'.claims.map (·.claimId)).Nodup ∧ ∃ order, s.orders attempt.orderId = some order ∧
      isTerminal order.state = false ∧ AttemptStep s attempt order settled s' := by
  unfold Store.admitRow at h
  split at h
  · cases h
  rename_i order horder
  split at h
  · cases h
  rename_i row hrow
  have htrigger := (findRow_eq_some hrow).2.2
  simp only [ok_iffs, exists_const] at h
  obtain ⟨-, h⟩ := h
  split at h
  · cases h
  simp only [ok_iffs, exists_const] at h
  obtain ⟨-, directive, hdirective, authority, hauthority, ⟨outcome, claims⟩, hmaintain, h⟩ := h
  rw [htrigger] at hdirective
  -- both branches of the settlement store the maintained claims
  suffices hstep : (claims.map (·.claimId)).Nodup ∧ AttemptStep s attempt order settled s' by
    refine ⟨?_, order, horder, findRow_not_terminal hrow, hstep.2⟩
    split at h <;> · cases h; exact hstep.1
  rcases forTransition_eq_ok hdirective with ⟨rfl, hterminal⟩ | ⟨rfl, hopen, htrigger⟩ |
    ⟨proposal, rfl, hopen, htrigger, hclaims⟩
  · cases hauthority
    simp only [maintainClaims, ok_iffs] at hmaintain
    obtain ⟨now, -, claims', hrelease, rfl, rfl⟩ := hmaintain
    obtain rfl := releaseClaims_eq_ok hrelease
    cases h
    exact ⟨by rwa [map_claimId_release], .released hterminal live_release_all⟩
  · cases hauthority
    cases hmaintain
    cases h
    exact ⟨hids, .retained hopen htrigger⟩
  · obtain ⟨authority, rfl⟩ := authority_replace hauthority
    obtain ⟨hids', ⟨conflict, rfl, hrefused⟩ | ⟨hnot, rows, hreplaced⟩⟩ :=
      replaceClaims_eq_ok hids hmaintain
    · cases h
      exact ⟨hids', .refused hclaims hrefused⟩
    · split at h
      · rename_i conflict heq
        exact absurd heq (hnot conflict)
      · cases h
        exact ⟨hids', .replaced hopen htrigger hclaims hreplaced⟩

/-! ### The invariant -/

/-- The order is in flight and was last admitted with the tuple. -/
def Store.Claimed (s : Store) (orderId : Uuid) (t : ClaimTuple) : Prop :=
  ∃ order proposal, s.orders orderId = some order ∧ isTerminal order.state = false ∧
    s.lastProposal orderId = some proposal ∧ t ∈ proposal.tuples

/-- The claims are exact: ids are unique, no two live claims share a tuple, and the tuples an order
holds are those it was last admitted with, as long as it is in flight. -/
structure Store.Exact (s : Store) : Prop where
  keyed : ∀ orderId order, s.orders orderId = some order → order.orderId = orderId
  fresh : ∀ orderId, s.orders orderId = none → s.lastProposal orderId = none
  ids : (s.claims.map (·.claimId)).Nodup
  unique : ((live s.claims).map (·.tuple)).Nodup
  held : ∀ orderId t, t ∈ heldTuples s.claims orderId ↔ s.Claimed orderId t

section

variable (hne : orderId ≠ attempt.orderId)
include hne

theorem commit_orders_ne : (s.commit attempt post claims).orders orderId = s.orders orderId :=
  update_of_ne hne ..

theorem commit_lastProposal_ne :
    (s.commit attempt post claims).lastProposal orderId = s.lastProposal orderId := by
  simp only [Store.commit]
  split
  · exact update_of_ne hne ..
  · rfl

theorem claimed_commit_ne :
    (s.commit attempt post claims).Claimed orderId t ↔ s.Claimed orderId t := by
  rw [Store.Claimed, commit_lastProposal_ne hne, commit_orders_ne hne, Store.Claimed]

end

theorem claimed_iff (horder : s.orders orderId = some order) :
    s.Claimed orderId t ↔ isTerminal order.state = false ∧
      ∃ proposal, s.lastProposal orderId = some proposal ∧ t ∈ proposal.tuples := by
  constructor
  · rintro ⟨order', proposal, ho, hopen, hlast, ht⟩
    cases horder.symm.trans ho
    exact ⟨hopen, proposal, hlast, ht⟩
  · rintro ⟨hopen, proposal, hlast, ht⟩
    exact ⟨order, proposal, horder, hopen, hlast, ht⟩

theorem heldTuples_congr_of_ne {claims rows : List ClaimRow} {keep : ClaimRow → Bool}
    (hlive : live claims' = (live claims).filter keep ++ rows)
    (hkeep : ∀ c ∈ live claims, c.orderId = orderId → keep c = true)
    (hrows : ∀ r ∈ rows, r.orderId ≠ orderId) :
    t ∈ heldTuples claims' orderId ↔ t ∈ heldTuples claims orderId := by
  simp only [mem_heldTuples, hlive, mem_append, mem_filter]
  constructor
  · rintro ⟨c, ⟨hc, -⟩ | hc, horder, rfl⟩
    · exact ⟨c, hc, horder, rfl⟩
    · exact absurd horder (hrows c hc)
  · rintro ⟨c, hc, horder, rfl⟩
    exact ⟨c, .inl ⟨hc, hkeep c hc horder⟩, horder, rfl⟩

/-- A commit keeps the claims exact that leaves those of other orders alone. -/
theorem Store.Exact.commit (hs : s.Exact) (horder : s.orders attempt.orderId = some order)
    (hids : (claims.map (·.claimId)).Nodup) (hunique : ((live claims).map (·.tuple)).Nodup)
    (hothers : ∀ id ≠ attempt.orderId, ∀ t, t ∈ heldTuples claims id ↔ t ∈ heldTuples s.claims id)
    (hself : ∀ t, t ∈ heldTuples claims attempt.orderId ↔
      isTerminal target = false ∧ ∃ proposal,
      (s.commit attempt (order.post target attempt) claims).lastProposal attempt.orderId =
      some proposal ∧ t ∈ proposal.tuples) :
    (s.commit attempt (order.post target attempt) claims).Exact where
  keyed id row hrow := by
    by_cases hid : id = attempt.orderId
    · subst hid
      cases (update_self ..).symm.trans hrow
      exact hs.keyed _ order horder
    · exact hs.keyed id row ((commit_orders_ne hid).symm.trans hrow)
  fresh id hnone := by
    by_cases hid : id = attempt.orderId
    · subst hid
      cases (update_self ..).symm.trans hnone
    · rw [commit_lastProposal_ne hid]
      exact hs.fresh id ((commit_orders_ne hid).symm.trans hnone)
  ids := hids
  unique := hunique
  held id t := by
    by_cases hid : id = attempt.orderId
    · subst hid
      rw [claimed_iff (update_self ..)]
      exact hself t
    · rw [claimed_commit_ne hid, ← hs.held]
      exact hothers id hid t

/-- **A step keeps the claims exact.** -/
theorem AttemptStep.exact (hstep : AttemptStep s attempt order settled s') (hs : s.Exact)
    (hids : (s'.claims.map (·.claimId)).Nodup) (horder : s.orders attempt.orderId = some order)
    (hopen : isTerminal order.state = false) : s'.Exact := by
  have hid : order.orderId = attempt.orderId := hs.keyed _ order horder
  cases hstep with
  | released hterminal hlive =>
    rw [hid] at hlive
    refine hs.commit horder hids ?_ (fun id hne t => ?_) fun t => ?_
    · rw [hlive]
      exact hs.unique.sublist (Sublist.map _ filter_sublist)
    · refine heldTuples_congr_of_ne (hlive.trans (append_nil _).symm) (fun c _ hc => ?_)
        (by simp)
      exact decide_eq_true (hc ▸ hne)
    · simp +contextual [mem_heldTuples, hlive, hterminal]
  | retained hopen' htrigger =>
    have hlast : ∀ post, (s.commit attempt post s.claims).lastProposal = s.lastProposal :=
      fun _ => if_neg htrigger
    refine hs.commit horder hids hs.unique (fun _ _ _ => Iff.rfl) fun t => ?_
    rw [hlast, hs.held, claimed_iff horder, hopen, hopen']
  | replaced hopen' htrigger hclaims hreplaced =>
    rename_i target outcome proposal claims rows
    rw [hid] at hreplaced
    refine hs.commit horder hids ?_ (fun id hne t => ?_) fun t => ?_
    · rw [hreplaced.live_eq, map_append, nodup_append]
      refine ⟨hs.unique.sublist (Sublist.map _ filter_sublist), ?_, ?_⟩
      · rw [hreplaced.tuples_eq]
        exact proposal.nodup.filter _
      · rintro a ha b hb rfl
        obtain ⟨c, hc, rfl⟩ := mem_map.1 ha
        obtain ⟨r, hr, htuple⟩ := mem_map.1 hb
        exact hreplaced.free r hr (mem_map.2 ⟨c, mem_of_mem_filter hc, htuple.symm⟩)
    · refine heldTuples_congr_of_ne hreplaced.live_eq (fun c _ hc => ?_) fun r hr => ?_
      · exact decide_eq_true fun hc' => absurd (hc.symm.trans hc') hne
      · rw [hreplaced.orderId_eq r hr]
        exact Ne.symm hne
    · rw [hreplaced.mem_heldTuples_iff]
      simp [Store.commit, htrigger, hclaims, hopen']
  | refused hclaims hrefused =>
    refine ⟨hs.keyed, hs.fresh, hids, ?_, fun id t => ?_⟩
    · rw [hrefused.live_eq]
      exact hs.unique
    · show t ∈ heldTuples _ id ↔ s.Claimed id t
      rw [← hs.held, mem_heldTuples, mem_heldTuples, hrefused.live_eq]

theorem exact_init : Store.init.Exact where
  keyed := nofun
  fresh _ _ := rfl
  ids := nodup_nil
  unique := nodup_nil
  held id t := by
    refine ⟨nofun, ?_⟩
    rintro ⟨order, -, horder, -⟩
    cases horder

theorem exact_create {parties : ClaimParties} (hs : s.Exact)
    (h : s.create orderId parties = .ok s') : s'.Exact := by
  simp only [Store.create, ok_iffs, exists_const] at h
  obtain ⟨hfree, rfl⟩ := h
  have hfree : s.orders orderId = none := by simpa using hfree
  refine ⟨fun id row hrow => ?_, fun id hnone => ?_, hs.ids, hs.unique,
    fun id t => (hs.held id t).trans ?_⟩
  · by_cases hid : id = orderId
    · subst hid
      cases (update_self ..).symm.trans hrow
      rfl
    · exact hs.keyed id row ((update_of_ne hid ..).symm.trans hrow)
  · by_cases hid : id = orderId
    · subst hid
      cases (update_self ..).symm.trans hnone
    · exact hs.fresh id ((update_of_ne hid ..).symm.trans hnone)
  · by_cases hid : id = orderId
    · subst hid
      constructor
      · rintro ⟨order, -, horder, -⟩
        cases hfree.symm.trans horder
      · rintro ⟨-, proposal, -, -, hproposal, -⟩
        cases (hs.fresh id hfree).symm.trans hproposal
    · simp only [Store.Claimed, update_of_ne hid]

theorem exact_step {event : Event} (hs : s.Exact) (h : s.step event = .ok s') : s'.Exact := by
  cases event with
  | create orderId parties => exact exact_create hs h
  | attempt attempt session =>
    obtain ⟨⟨settled, s₁⟩, hadmit, rfl⟩ := map_eq_ok_iff.1 h
    obtain ⟨hids, order, horder, hopen, hstep⟩ := admitRow_eq_ok hs.ids hadmit
    exact hstep.exact hs hids horder hopen

/-- **One order in flight per product.** In every store that a run reaches, no two live claims
share a tuple, and the tuples an order holds are exactly those of its last admitted submit or
amendment while its state is not terminal, and none once it is.  An attempt that collides leaves
every live claim live and none of its own, and names exactly the proposed tuples that the order
does not hold and another order does. -/
theorem one_order_in_flight {events : List Event}
    (hrun : Machine.run Store.step Store.init events = .ok s) :
    ((s.claims.filter (·.releasedAt = none)).map (·.tuple)).Nodup ∧
    (∀ orderId order, s.orders orderId = some order → ∀ t,
      (∃ c ∈ s.claims, c.releasedAt = none ∧ c.orderId = orderId ∧ c.tuple = t) ↔
        isTerminal order.state = false ∧
          ∃ proposal, s.lastProposal orderId = some proposal ∧ t ∈ proposal.tuples) ∧
    ∀ (attempt : Attempt) (session : Session) (conflict : OverlapConflict) (s' : Store),
      s.admitRow attempt session = .ok (.refused conflict, s') →
      s'.claims.filter (·.releasedAt = none) = s.claims.filter (·.releasedAt = none) ∧
      (∀ c ∈ s'.claims, c.claimId ∈ conflict.provisionalReleased → c.releasedAt ≠ none) ∧
      ∀ t, t ∈ conflict.blocked.map (·.tuple) ↔
        (∃ proposal, attempt.claims = some proposal ∧ t ∈ proposal.tuples) ∧
        (¬ ∃ c ∈ s.claims, c.releasedAt = none ∧ c.orderId = attempt.orderId ∧ c.tuple = t) ∧
        ∃ c ∈ s.claims, c.releasedAt = none ∧ c.orderId ≠ attempt.orderId ∧ c.tuple = t := by
  have hs : s.Exact :=
    Machine.run_invariant (fun _ _ _ hs hstep => exact_step hs hstep) hrun exact_init
  have hheld : ∀ claims orderId t, t ∈ heldTuples claims orderId ↔
      ∃ c ∈ claims, c.releasedAt = none ∧ c.orderId = orderId ∧ c.tuple = t := by
    intro claims orderId t
    simp only [mem_heldTuples, mem_live, and_assoc]
  refine ⟨hs.unique, fun orderId order horder t => ?_, fun attempt session conflict s' hadmit => ?_⟩
  · rw [← hheld, hs.held, claimed_iff horder]
  · obtain ⟨-, order, horder, -, hstep⟩ := admitRow_eq_ok hs.ids hadmit
    have hid : order.orderId = attempt.orderId := hs.keyed _ order horder
    cases hstep with
    | refused hclaims hrefused =>
      rename_i proposal claims
      rw [hid] at hrefused
      refine ⟨hrefused.live_eq, fun c hc hprovisional hlive => ?_, fun t => ?_⟩
      · exact hrefused.provisional _ hprovisional
          (mem_map.2 ⟨c, mem_live.2 ⟨hc, hlive⟩, rfl⟩)
      · rw [hrefused.blocked_eq, mem_filter, decide_eq_true_eq, ← hheld]
        constructor
        · rintro ⟨ht, hnot, hmem⟩
          obtain ⟨c, hc, rfl⟩ := mem_map.1 hmem
          refine ⟨⟨proposal, hclaims, ht⟩, hnot, c, (mem_live.1 hc).1, (mem_live.1 hc).2, ?_, rfl⟩
          exact fun horder => hnot (mem_heldTuples.2 ⟨c, hc, horder, rfl⟩)
        · rintro ⟨⟨_, hproposal, ht⟩, hnot, c, hc, hlive, -, rfl⟩
          cases hclaims.symm.trans hproposal
          exact ⟨ht, hnot, mem_map.2 ⟨c, mem_live.2 ⟨hc, hlive⟩, rfl⟩⟩

/-! ### A sample run -/

/-- A product key. -/
def sampleKey (text : String)
    (valid : text ≠ "" ∧ text.utf8ByteSize ≤ maxKeyBytes ∧ Char.ofNat 0 ∉ text.toList) :
    OverlapScopeKey := ⟨text, valid⟩

/-- A submit of payer 1 and resource tenant 2. -/
def sampleSubmit (orderId : Uuid) (keys : List OverlapScopeKey) : Attempt where
  orderId := orderId
  trigger := .submit
  claims := some (.new ⟨1, 2⟩ keys)
  candidate := some 2
  proposed := none
  disclosure := some fun _ => true
  inScope := true

/-- A transaction whose new ids start with a given number. -/
def sampleSession (base : ℕ) : Session where
  now := 0
  isolation := "read committed"
  newId t := BitVec.ofNat 128 (base + t.overlapScopeKey.text.length)

/-- Two orders for one product: the second is refused, and admitted when the first is cancelled. -/
def sampleEvents : List Event :=
  let vm := sampleKey "vm" (by decide)
  let mail := sampleKey "mail" (by decide)
  [.create 5 ⟨1, 2⟩, .create 6 ⟨1, 2⟩, .attempt (sampleSubmit 5 [vm]) (sampleSession 10),
    .attempt (sampleSubmit 6 [mail, vm]) (sampleSession 20),
    .attempt ⟨5, .cancel, none, none, none, none, true⟩ (sampleSession 30),
    .attempt (sampleSubmit 6 [mail, vm, vm]) (sampleSession 40)]

theorem one_order_in_flight_sample : ∃ s, Machine.run Store.step Store.init sampleEvents = .ok s ∧
      s.claims.map (fun c => (c.orderId, c.releasedAt.isNone)) =
        [(5, false), (6, false), (6, true), (6, true)] ∧
      ((s.claims.filter (·.releasedAt = none)).map (·.tuple)).Nodup :=
  exists_ok_of (by decide +kernel) fun _ hs hclaims => ⟨hclaims, (one_order_in_flight hs).1⟩

end Gears.Orders
