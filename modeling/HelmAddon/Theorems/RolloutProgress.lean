import HelmAddon.Theorems.Convergence
import HelmAddon.Theorems.Readiness

/-! A rollout that installs reaches every selected cluster. rolloutReconcile writes one batch of
    clusters per pass and waits, between batches, for the aggregation to find every listed release
    Ready; the HelmReleaseProxy controller, which the model does not run, reports on the releases in
    between. A round here is one pass followed by a report on every release (`Store.rolloutRound`),
    and what the reports must say is one clause, `HelmReleaseProxyStatus.Installed`.

    The rollout moves through three states, each a structure over the store with the rollout invariant
    of `RolloutRun` as a field: a HelmChartProxy just created (`Initial`), the first batch written and
    HelmReleaseProxiesReady not yet set (`Store.FirstBatch`), and HelmReleaseProxiesReady True at Count
    `k` (`Store.RollingOut`). One lemma per state says what a round does from it, each assembled from
    one lemma on the live branch (`reconcileLive_first`, `reconcileLive_waiting`, `reconcileLive_next`)
    and one on the pass around it (`Store.pass_live`). The True state moves Count forward at every round,
    so after one round more than there are selected clusters every one of them has a release
    (`rollout_reaches_every_cluster`). Once Count reaches the number of selected clusters, the Completed
    check of rolloutReconcile fires; the rounds from there keep a fourth state, `Store.Completed`, and
    within two rounds more than there are selected clusters HelmReleaseProxiesRolloutCompleted is True
    (`rollout_completes`). -/

namespace HelmAddon

open Pass

/-! ### Reports of the HelmReleaseProxy controller -/

namespace HelmReleaseProxy

variable (h : HelmReleaseProxy) (st : HelmReleaseProxyStatus) (fs : List String)

@[simp] theorem key_setStatus : (h.setStatus st fs).key = h.key := by cases h; rfl
@[simp] theorem status_setStatus : (h.setStatus st fs).status = st := by cases h; rfl
@[simp] theorem generation_setStatus : (h.setStatus st fs).generation = h.generation := by cases h; rfl
@[simp] theorem deletionTimestamp_setStatus : (h.setStatus st fs).deletionTimestamp = h.deletionTimestamp := by
  cases h; rfl
@[simp] theorem shape_setStatus : (h.setStatus st fs).shape = h.shape := by cases h; rfl

end HelmReleaseProxy

namespace Store

@[simp] theorem setReleases_setReleases (s : Store) (rs rs' : List HelmReleaseProxy) :
    (s.setReleases rs).setReleases rs' = s.setReleases rs' := by cases s; rfl

theorem setReleases_self (s : Store) : s.setReleases s.releases = s := by cases s; rfl

/-- A report of the HelmReleaseProxy controller on a store whose releases are not being deleted
    rewrites the status and finalizers of the releases of that name and removes none. --/
theorem updateRelease_of_live {s : Store} (hl : ∀ h ∈ s.releases, h.deletionTimestamp = false) (key : ObjectKey)
    (status : HelmReleaseProxyStatus) (fs : List String) :
    s.updateRelease key status fs =
      s.setReleases (s.releases.map fun h => if h.key = key then h.setStatus status fs else h) := by
  unfold Store.updateRelease
  congr 1
  refine List.filterMap_eq_map_iff_forall_eq_some.mpr fun h mem => ?_
  simp only [hl h mem, Bool.false_and, Bool.false_eq_true, if_false]
  split <;> rfl

/-- The HelmReleaseProxy controller reports on every release: each one gets the status `st` and keeps
    its finalizers. --/
def reportAll (s : Store) (st : HelmReleaseProxyStatus) : Store :=
  s.run (s.releases.map fun h => .updateRelease h.key st h.finalizers)

/-- Reports by name on releases that are not being deleted: every release keeps its namespace,
    labels, cluster, name and generation, and a release that is named gets the status `st`. --/
theorem run_reports (st : HelmReleaseProxyStatus) :
    ∀ (rs : List HelmReleaseProxy) {s : Store}, (∀ h ∈ s.releases, h.deletionTimestamp = false) →
      ∃ g : HelmReleaseProxy → HelmReleaseProxy,
        s.run (rs.map fun h => .updateRelease h.key st h.finalizers) = s.setReleases (s.releases.map g) ∧
        ∀ h, (g h).shape = h.shape ∧ (g h).key = h.key ∧ (g h).generation = h.generation ∧
          (g h).status = if h.key ∈ rs.map HelmReleaseProxy.key then st else h.status
  | [], s, _ => ⟨id, by simp [setReleases_self], fun h => by simp⟩
  | r :: rs, s, hl => by
    let u : HelmReleaseProxy → HelmReleaseProxy := fun h => if h.key = r.key then h.setStatus st r.finalizers else h
    have hu : ∀ h, (u h).shape = h.shape ∧ (u h).key = h.key ∧ (u h).generation = h.generation ∧
        (u h).status = if h.key = r.key then st else h.status := fun h => by
      simp only [u]; split <;> simp [*]
    have hl₁ : ∀ h ∈ (s.setReleases (s.releases.map u)).releases, h.deletionTimestamp = false := by
      simp only [setReleases_releases, List.mem_map]
      rintro _ ⟨h, mem, rfl⟩
      have := congrArg (·.2.2.1) (hu h).1
      exact this.trans (hl h mem)
    obtain ⟨g, e, hg⟩ := run_reports st rs hl₁
    refine ⟨g ∘ u, ?_, fun h => ?_⟩
    · rw [List.map_cons, run_cons, step, updateRelease_of_live hl, e]
      simp
    · obtain ⟨shape, key, gen, status⟩ := hg (u h)
      obtain ⟨shape', key', gen', status'⟩ := hu h
      refine ⟨shape.trans shape', key.trans key', gen.trans gen', ?_⟩
      simp only [Function.comp_apply, status, key', status', List.map_cons, List.mem_cons]
      by_cases h₁ : h.key ∈ rs.map HelmReleaseProxy.key <;> by_cases h₂ : h.key = r.key <;> simp [h₁, h₂]

end Store

/-! ### Writes for clusters without a release -/

namespace Store

variable {s : Store} {p : HelmChartProxy} {cl : Cluster} {L : List Cluster}

/-- The write for a cluster that no release targets creates its release. --/
theorem applyRelease_fresh (hf : ∀ h ∈ s.releases, h.clusterKey ≠ cl.key) :
    (s.applyRelease p cl).releases = s.releases ++ [newRelease p cl s.nextSuffix] := by
  unfold applyRelease
  rw [if_neg (by simpa [isReleaseFor] using fun h mem _ _ => hf h mem)]
  rfl

/-- A batch of writes for distinct clusters that no release targets: every release after it was there
    before or is new. --/
theorem mem_foldl_applyRelease_fresh (hL : (L.map Cluster.key).Nodup)
    (hf : ∀ h ∈ s.releases, ∀ cl ∈ L, h.clusterKey ≠ cl.key) :
    ∀ h ∈ (L.foldl (·.applyRelease p ·) s).releases, h ∈ s.releases ∨ ∃ cl ∈ L, ∃ n, h = newRelease p cl n := by
  induction L generalizing s with
  | nil => exact fun h mem => .inl mem
  | cons cl L ih =>
    obtain ⟨notin, hL'⟩ := List.nodup_cons.mp hL
    have hf' : ∀ h ∈ (s.applyRelease p cl).releases, ∀ cl' ∈ L, h.clusterKey ≠ cl'.key := by
      rw [applyRelease_fresh fun h mem => hf h mem cl (List.mem_cons_self cl L)]
      intro h mem cl' mem_cl'
      rcases List.mem_append.mp mem with mem | mem
      · exact hf h mem cl' (List.mem_cons_of_mem cl mem_cl')
      · rw [List.mem_singleton.mp mem, newRelease_clusterKey]
        exact fun e => notin (e ▸ List.mem_map_of_mem Cluster.key mem_cl')
    intro h mem
    rcases ih hL' hf' h mem with mem₁ | ⟨cl', mem', n, rfl⟩
    · rw [applyRelease_fresh fun h mem => hf h mem cl (List.mem_cons_self cl L)] at mem₁
      rcases List.mem_append.mp mem₁ with mem₂ | mem₂
      · exact .inl mem₂
      · exact .inr ⟨cl, List.mem_cons_self cl L, _, List.mem_singleton.mp mem₂⟩
    · exact .inr ⟨cl', List.mem_cons_of_mem cl mem', n, rfl⟩

/-- After a batch of writes for distinct clusters that no release targets, a release of the batch has
    not observed its generation yet. --/
theorem unobserved_foldl_applyRelease_fresh (hL : (L.map Cluster.key).Nodup)
    (hf : ∀ h ∈ s.releases, ∀ cl ∈ L, h.clusterKey ≠ cl.key) (hcl : cl ∈ L) :
    ∃ h ∈ (L.foldl (·.applyRelease p ·) s).listReleases p.namespace (ownerLabels p),
      h.generation ≠ h.status.observedGeneration := by
  obtain ⟨h, mem, key⟩ := (hasRelease_foldl_applyRelease p L (s := s) (x := cl)).mpr (.inr ⟨cl, hcl, rfl⟩)
  rcases mem_foldl_applyRelease_fresh hL hf h mem with old | ⟨cl', -, n, rfl⟩
  · exact absurd key (hf h old cl hcl)
  · exact ⟨_, List.mem_filter.mpr ⟨mem, by simp [newRelease, hasLabels, ownerLabels]⟩, by simp [newRelease]⟩

/-- After the reports every release reports `st`; nothing else of the store changes. --/
theorem reportAll_eq {s : Store} (hl : ∀ h ∈ s.releases, h.deletionTimestamp = false) (st : HelmReleaseProxyStatus) :
    ∃ g : HelmReleaseProxy → HelmReleaseProxy, s.reportAll st = s.setReleases (s.releases.map g) ∧
      ∀ h, (g h).shape = h.shape ∧ (g h).generation = h.generation ∧ (h ∈ s.releases → (g h).status = st) := by
  obtain ⟨g, e, hg⟩ := run_reports st s.releases hl
  exact ⟨g, e, fun h => ⟨(hg h).1, (hg h).2.2.1, fun mem => by rw [(hg h).2.2.2, if_pos (List.mem_map_of_mem _ mem)]⟩⟩

end Store

/-! ### The live branch in the install phase -/

section Stages

variable {cs : List Cluster} {hs : List HelmReleaseProxy} {k : Nat} {c : Ctx} {r : Rollout} {o : RolloutOptions}

/-- reconcileNormal in the install phase of a rollout, over releases that are no orphans: the Deletes
    find nothing to delete, and the rollout runs. --/
theorem reconcileNormal_install (hr : c.proxy.spec.rollout = some r) (hgen : c.proxy.generation = 1)
    (ho : r.install = some o) (horph : ∀ h ∈ hs, isOrphan cs h = false) :
    reconcileNormal cs hs c = rolloutReconcile cs hs .install c := by
  have none : hs.filter (isOrphan cs) = [] := List.filter_eq_nil_iff.mpr fun h mem => by simp [horph h mem]
  simp only [reconcileNormal, deleteOrphanedHelmReleaseProxies, none, bind_apply, getProxy_apply]
  split <;> simp [hr, hgen, ho, bind_apply]

variable {iou : InstallOrUpgrade} {inc lim ini : Int}

/-- The True branch of a rollout whose first `k` clusters hold releases, all Ready, and no other: the
    next batch of clusters in rollout order, added to Count, with the new step size. --/
theorem rolloutReconcile_next (hd : (cs.map Cluster.key).Nodup) (hr : c.proxy.spec.rollout = some r)
    (ho : r.options iou = some o) (hn : (cs.length : Int) ≠ c.proxy.status.rolloutCount)
    (hrel : ∀ h ∈ hs, ∃ x ∈ (sortClusters cs).take k, x.key = h.clusterKey)
    (hcov : ∀ x ∈ (sortClusters cs).take k, ∃ h ∈ hs, h.clusterKey = x.key)
    (hready : ∀ h ∈ hs, h.status.conditions.isTrue .helmReleaseReady = true)
    (ht : c.proxy.status.conditions.isTrue .helmReleaseProxiesReady = true)
    (hinc : resolveStep o.stepIncrement cs.length = .ok inc) (hlim : resolveStep o.stepLimit cs.length = .ok lim)
    (hini : resolveStep o.stepInit cs.length = .ok ini) (happly : c.faults.Succeeds .apply) :
    rolloutReconcile cs hs iou c =
      let s := nextStepSize c.proxy.status.rolloutStepSize inc lim ini
      let batch := ((sortClusters cs).drop k).take s.toNat
      ((batch.foldl Ctx.applied (c.rollingOut cs.length)).modifyProxy
        (·.modifyStatus (·.setRollout ⟨some (wrapInt64 (c.proxy.status.rolloutCount + batch.length)), some s⟩)),
        .ok requeue) := by
  have found : hs.any (isOrphan cs) = false :=
    List.any_eq_false.mpr fun h mem => ne_true_of_eq_false (not_orphan hrel h mem)
  have ht' : (c.rollingOut cs.length).proxy.status.conditions.isTrue .helmReleaseProxiesReady = true := by
    simpa using ht
  rw [rolloutReconcile_eq hr ho hn, rolloutMetaSorted_eq _ hd, if_neg (by simp [found]),
    rolloutMetaOf_split hd hrel hcov hready]
  dsimp only
  rw [rolloutByReadiness_true ht', rolloutWhenTrue_eq hinc hlim hini (c := c.rollingOut cs.length) happly]
  dsimp only
  rw [takeWhile_settled_filter (fun a mem => ?_) (fun b mem => ?_), if_pos (List.all_eq_true.mpr fun a mem => ?_)]
  · simp [List.map_take, List.map_map, Function.comp_def]
  all_goals obtain ⟨x, -, rfl⟩ := List.mem_map.mp mem; rfl

/-- After reconcileNormal, the live branch marks HelmReleaseProxySpecsUpToDate True, aggregates and
    returns what reconcileNormal returned. --/
theorem live_rest {c₃ c₄ c₅ : Ctx} {res : Result} (e : reconcileNormal cs hs c₃ = (c₄, .ok res))
    (e' : aggregateHelmReleaseProxyReadyCondition
      (c₄.modifyProxy (·.modifyStatus (·.modifyConditions (·.markTrue .helmReleaseProxySpecsUpToDate)))) = (c₅, .ok ())) :
    (do
      let res ← reconcileNormal cs hs
      modifyConditions (·.markTrue .helmReleaseProxySpecsUpToDate)
      aggregateHelmReleaseProxyReadyCondition
      return res : Pass Result) c₃ = (c₅, .ok res) := by
  simp only [bind_apply, e, modifyConditions, modifyProxy_apply, e', pure_apply]

/-- The live branch of an object without its finalizer registers it with a patch first. --/
theorem reconcileLive_register {q : HelmChartProxy} (hc : c.faults.Succeeds .patch)
    (hfin : helmChartProxyFinalizer ∉ c.proxy.finalizers) (hq : c.store.proxy = some q) :
    reconcileLive cs hs c = (do
      let res ← reconcileNormal cs hs
      modifyConditions (·.markTrue .helmReleaseProxySpecsUpToDate)
      aggregateHelmReleaseProxyReadyCondition
      return res : Pass Result)
        (patchHelmChartProxy (c.modifyProxy fun p => p.setFinalizers (p.finalizers ++ [helmChartProxyFinalizer]))).1 := by
  obtain ⟨c₃, e₃, -⟩ := patchHelmChartProxy_ok
    (c := c.modifyProxy fun p => p.setFinalizers (p.finalizers ++ [helmChartProxyFinalizer])) hc hq
  simp only [reconcileLive, bind_apply, getProxy_apply]
  rw [if_pos (by simpa using hfin), bind_apply, modifyProxy_apply]
  dsimp only
  rw [bind_apply, e₃]
  rfl

/-- reconcileNormal writing a nonempty batch of distinct clusters that no release targets, and then
    recording the rollout status `R`: the aggregation finds a release of the batch that has not observed
    its generation, so the rest of the live branch leaves HelmReleaseProxiesReady as it is. --/
theorem live_rest_batch (hc : c.faults.Clear) {batch : List Cluster} {R : RolloutStatus}
    (e : reconcileNormal cs hs c = ((batch.foldl Ctx.applied (c.rollingOut cs.length)).modifyProxy
      (·.modifyStatus (·.setRollout R)), .ok requeue))
    (hbatch : (batch.map Cluster.key).Nodup) (hfresh : ∀ h ∈ c.store.releases, ∀ x ∈ batch, h.clusterKey ≠ x.key)
    {x₀ : Cluster} (hx₀ : x₀ ∈ batch) :
    ∃ c', (do
        let res ← reconcileNormal cs hs
        modifyConditions (·.markTrue .helmReleaseProxySpecsUpToDate)
        aggregateHelmReleaseProxyReadyCondition
        return res : Pass Result) c = (c', .ok requeue) ∧ c'.faults.Clear ∧
      c'.store = batch.foldl (·.applyRelease c.proxy ·) c.store ∧ c'.proxy.finalizers = c.proxy.finalizers ∧
      c'.proxy.status.rollout = some R ∧
      c'.proxy.status.conditions.get .helmReleaseProxiesReady =
        c.proxy.status.conditions.get .helmReleaseProxiesReady := by
  obtain ⟨h, hm, unobserved⟩ := Store.unobserved_foldl_applyRelease_fresh (p := c.proxy) hbatch hfresh hx₀
  set c₅ : Ctx := ((batch.foldl Ctx.applied (c.rollingOut cs.length)).modifyProxy
    (·.modifyStatus (·.setRollout R))).modifyProxy
      (·.modifyStatus (·.modifyConditions (·.markTrue .helmReleaseProxySpecsUpToDate)))
  have hm' : h ∈ c₅.store.listReleases c₅.proxy.namespace (ownerLabels c₅.proxy) := by
    simpa [c₅, Ctx.foldl_applied_store, Ctx.rollingOut, modifyConditions, ownerLabels] using hm
  have hc₅ : c₅.faults.Clear := fun k' => by
    simpa [c₅] using Ctx.foldl_applied_succeeds batch (c := c.rollingOut cs.length) (hc k')
  obtain ⟨msg, e₂⟩ := aggregate_unobserved (hc₅ .list) hm' unobserved
  refine ⟨_, live_rest e e₂, by simpa using hc₅.next .list, ?_, ?_, ?_, ?_⟩
  · simp [c₅, Ctx.foldl_applied_store]
  · simp [c₅, Ctx.rollingOut, modifyConditions]
  · simp [c₅]
  · simp [c₅, Ctx.rollingOut, modifyConditions, Conditions.markTrue, Conditions.markFalse, Conditions.get_set_of_ne]

/-- The Unknown state of the install phase before any release: the rest of the live branch writes the
    first batch of `s0` clusters in rollout order, sets Count to its size and the step size to `s0`, and
    leaves HelmReleaseProxiesReady unset. --/
theorem live_rest_first (hc : c.faults.Clear) (hgen : c.proxy.generation = 1) (hr : c.proxy.spec.rollout = some r)
    (ho : r.install = some o) (hd : (cs.map Cluster.key).Nodup) (hrs : c.store.releases = [])
    (hcount : c.proxy.status.rolloutCount = 0) (hlt : 0 < cs.length)
    (hu : c.proxy.status.conditions.get .helmReleaseProxiesReady = none) {s0 : Int}
    (hinit : getScaledValueFromIntOrPercent o.stepInit cs.length true = .ok s0) (hs0 : 1 ≤ s0) :
    let batch := (sortClusters cs).take s0.toNat
    ∃ c', (do
        let res ← reconcileNormal cs []
        modifyConditions (·.markTrue .helmReleaseProxySpecsUpToDate)
        aggregateHelmReleaseProxyReadyCondition
        return res : Pass Result) c = (c', .ok requeue) ∧ c'.faults.Clear ∧
      c'.store = batch.foldl (·.applyRelease c.proxy ·) c.store ∧ c'.proxy.finalizers = c.proxy.finalizers ∧
      c'.proxy.status.rollout = some ⟨some batch.length, some s0⟩ ∧
      c'.proxy.status.conditions.get .helmReleaseProxiesReady = none := by
  intro batch
  obtain ⟨x₀, hx₀⟩ : ∃ x₀, x₀ ∈ batch := by
    obtain ⟨x₀, rest, e⟩ := List.exists_cons_of_length_pos
      (show 0 < (sortClusters cs).length by simp [sortClusters, List.length_insertionSort]; omega)
    obtain ⟨m, hm⟩ : ∃ m, s0.toNat = m + 1 := ⟨s0.toNat - 1, by omega⟩
    exact ⟨x₀, by simp only [batch, e, hm, List.take_succ_cons, List.mem_cons_self]⟩
  have hu' : (c.rollingOut cs.length).proxy.status.conditions.isUnknown .helmReleaseProxiesReady = true := by
    rw [Ctx.rollingOut_isUnknown]; simp [Conditions.isUnknown, hu]
  have e₁ : reconcileNormal cs [] c = ((batch.foldl Ctx.applied (c.rollingOut cs.length)).modifyProxy
      (·.modifyStatus (·.setRollout ⟨some batch.length, some s0⟩)), .ok requeue) := by
    have ho' : r.options .install = some o := ho
    rw [reconcileNormal_install hr hgen ho (by simp), rolloutReconcile_eq hr ho' (by rw [hcount]; omega),
      rolloutMetaSorted_eq _ hd, if_neg (by simp)]
    dsimp only
    rw [rolloutByReadiness_unknown hu', rolloutWhenUnknown_eq hinit (c := c.rollingOut cs.length) (hc .apply)]
    simp [batch, List.map_take, List.map_map, Function.comp_def]
  obtain ⟨c', e', hc', store', fin', rollout', ready'⟩ := live_rest_batch hc e₁
    (((List.take_sublist _ _).map _).nodup (sortClusters_keys_nodup hd)) (by simp [hrs]) hx₀
  exact ⟨c', e', hc', store', fin', rollout', ready'.trans hu⟩

/-- The live branch of an object that holds its finalizer goes straight to reconcileNormal. --/
theorem reconcileLive_of_finalizer (hfin : helmChartProxyFinalizer ∈ c.proxy.finalizers) :
    reconcileLive cs hs c = (do
      let res ← reconcileNormal cs hs
      modifyConditions (·.markTrue .helmReleaseProxySpecsUpToDate)
      aggregateHelmReleaseProxyReadyCondition
      return res : Pass Result) c := by
  simp [reconcileLive, bind_apply, getProxy_apply, hfin]

/-- The True state of the install phase, with the first `k` clusters in rollout order holding
    releases, all Ready, and no other release stored: the live branch writes the next batch, moves
    Count on by its size, records the new step size and leaves HelmReleaseProxiesReady as it is. --/
theorem reconcileLive_next (hc : c.faults.Clear) (hfin : helmChartProxyFinalizer ∈ c.proxy.finalizers)
    (hgen : c.proxy.generation = 1) (hr : c.proxy.spec.rollout = some r) (ho : r.install = some o)
    (hd : (cs.map Cluster.key).Nodup) (hrs : c.store.releases = hs)
    (hrel : ∀ h ∈ hs, ∃ x ∈ (sortClusters cs).take k, x.key = h.clusterKey)
    (hcov : ∀ x ∈ (sortClusters cs).take k, ∃ h ∈ hs, h.clusterKey = x.key)
    (hready : ∀ h ∈ hs, h.status.conditions.isTrue .helmReleaseReady = true)
    (ht : c.proxy.status.conditions.isTrue .helmReleaseProxiesReady = true)
    (hk : c.proxy.status.rolloutCount = k) (hlt : k < cs.length) (hN : cs.length < 9223372036854775808)
    (hinc : resolveStep o.stepIncrement cs.length = .ok inc) (hlim : resolveStep o.stepLimit cs.length = .ok lim)
    (hini : resolveStep o.stepInit cs.length = .ok ini)
    (hpos : 1 ≤ nextStepSize c.proxy.status.rolloutStepSize inc lim ini) :
    let step := nextStepSize c.proxy.status.rolloutStepSize inc lim ini
    let batch := ((sortClusters cs).drop k).take step.toNat
    ∃ c', reconcileLive cs hs c = (c', .ok requeue) ∧ c'.faults.Clear ∧
      c'.store = batch.foldl (·.applyRelease c.proxy ·) c.store ∧ c'.proxy.finalizers = c.proxy.finalizers ∧
      c'.proxy.status.rollout = some ⟨some (k + batch.length), some step⟩ ∧
      c'.proxy.status.conditions.get .helmReleaseProxiesReady =
        c.proxy.status.conditions.get .helmReleaseProxiesReady := by
  intro step batch
  have keys := sortClusters_keys_nodup hd
  have hbatch : (batch.map Cluster.key).Nodup := (((List.take_sublist _ _).trans (List.drop_sublist _ _)).map _).nodup keys
  have hfresh : ∀ h ∈ c.store.releases, ∀ x ∈ batch, h.clusterKey ≠ x.key := fun h mem x hx e => by
    obtain ⟨y, hy, hyk⟩ := hrel h (hrs ▸ mem)
    have hx' := List.mem_of_mem_take hx
    obtain rfl : y = x := List.inj_on_of_nodup_map keys (List.mem_of_mem_take hy) (List.mem_of_mem_drop hx') (hyk.trans e)
    exact List.disjoint_take_drop keys.of_map le_rfl hy hx'
  obtain ⟨x₀, hx₀⟩ : ∃ x₀, x₀ ∈ batch := by
    have : 0 < ((sortClusters cs).drop k).length := by simp [sortClusters, List.length_insertionSort]; omega
    obtain ⟨x₀, rest, e⟩ := List.exists_cons_of_length_pos this
    obtain ⟨m, hm⟩ : ∃ m, step.toNat = m + 1 := ⟨step.toNat - 1, by omega⟩
    exact ⟨x₀, by simp only [batch, e, hm, List.take_succ_cons, List.mem_cons_self]⟩
  have e₁ : reconcileNormal cs hs c = ((batch.foldl Ctx.applied (c.rollingOut cs.length)).modifyProxy
      (·.modifyStatus (·.setRollout ⟨some (wrapInt64 (k + batch.length)), some step⟩)), .ok requeue) := by
    have ho' : r.options .install = some o := ho
    rw [reconcileNormal_install hr hgen ho (not_orphan hrel),
      rolloutReconcile_next hd hr ho' (by rw [hk]; omega) hrel hcov hready ht hinc hlim hini (hc .apply), hk]
  have hlen : batch.length ≤ cs.length - k := by simp [batch, sortClusters, List.length_insertionSort]
  rw [wrapInt64_of_lt (by omega) (by omega)] at e₁
  obtain ⟨c', e', rest⟩ := live_rest_batch hc e₁ hbatch hfresh hx₀
  exact ⟨c', (reconcileLive_of_finalizer hfin).trans e', rest⟩

/-- The Unknown state of the install phase once the first batch has releases, all of which have
    observed their generation and are Ready: the rollout waits, and the aggregation marks
    HelmReleaseProxiesReady True. --/
theorem reconcileLive_waiting (hc : c.faults.Clear) (hfin : helmChartProxyFinalizer ∈ c.proxy.finalizers)
    (hgen : c.proxy.generation = 1) (hr : c.proxy.spec.rollout = some r) (ho : r.install = some o)
    (hd : (cs.map Cluster.key).Nodup) (horph : ∀ h ∈ hs, isOrphan cs h = false) (hne : hs ≠ [])
    (hu : c.proxy.status.conditions.get .helmReleaseProxiesReady = none)
    (hn : (cs.length : Int) ≠ c.proxy.status.rolloutCount)
    (hsettled : ∀ h ∈ c.store.listReleases c.proxy.namespace (ownerLabels c.proxy),
      h.generation = h.status.observedGeneration ∧ Conditions.holdsTrue h.status.conditions.ready = true) :
    ∃ c', reconcileLive cs hs c = (c', .ok requeue) ∧ c'.faults.Clear ∧ c'.store = c.store ∧
      c'.proxy.finalizers = c.proxy.finalizers ∧ c'.proxy.status.rollout = c.proxy.status.rollout ∧
      c'.proxy.status.conditions.isTrue .helmReleaseProxiesReady = true := by
  have found : hs.any (isOrphan cs) = false := List.any_eq_false.mpr fun h mem => by simp [horph h mem]
  have hu' : (c.rollingOut cs.length).proxy.status.conditions.isUnknown .helmReleaseProxiesReady = true := by
    rw [Ctx.rollingOut_isUnknown]; simp [Conditions.isUnknown, hu]
  have e₁ : reconcileNormal cs hs c = (c.rollingOut cs.length, .ok requeue) := by
    have ho' : r.options .install = some o := ho
    rw [reconcileNormal_install hr hgen ho horph, rolloutReconcile_eq hr ho' hn,
      rolloutMetaSorted_eq _ hd, if_neg (by simp [found])]
    dsimp only
    rw [rolloutByReadiness_unknown hu', rolloutWhenUnknown_of_ne_nil hne]
  set c₅ : Ctx := (c.rollingOut cs.length).modifyProxy
    (·.modifyStatus (·.modifyConditions (·.markTrue .helmReleaseProxySpecsUpToDate)))
  have e₂ := aggregate_settled (c := c₅) (hc .list) (by simpa [c₅, Ctx.rollingOut, modifyConditions, ownerLabels] using hsettled)
  refine ⟨_, (reconcileLive_of_finalizer hfin).trans (live_rest e₁ e₂), ?_, rfl, ?_, ?_, ?_⟩
  · exact hc.next .list
  · simp [c₅, Ctx.rollingOut, modifyConditions]
  · simp [c₅, Ctx.rollingOut, modifyConditions]
  · simp [c₅, Conditions.isTrue, Conditions.markTrue, Conditions.trueCondition]

/-- The Completed check of the install phase, with Count at the number of listed clusters:
    rolloutReconcile marks HelmReleaseProxiesRolloutCompleted True and writes nothing, and the rest of the
    live branch keeps that condition and the rollout status. --/
theorem live_rest_completed (hc : c.faults.Clear) (hgen : c.proxy.generation = 1) (hr : c.proxy.spec.rollout = some r)
    (ho : r.install = some o) (horph : ∀ h ∈ hs, isOrphan cs h = false)
    (hn : (cs.length : Int) = c.proxy.status.rolloutCount) :
    ∃ c', (do
        let res ← reconcileNormal cs hs
        modifyConditions (·.markTrue .helmReleaseProxySpecsUpToDate)
        aggregateHelmReleaseProxyReadyCondition
        return res : Pass Result) c = (c', .ok {}) ∧ c'.faults.Clear ∧ c'.store = c.store ∧
      c'.proxy.finalizers = c.proxy.finalizers ∧ c'.proxy.status.rollout = c.proxy.status.rollout ∧
      c'.proxy.status.conditions.isTrue .helmReleaseProxiesRolloutCompleted = true := by
  have e₁ : reconcileNormal cs hs c =
      ((modifyConditions (·.markTrue .helmReleaseProxiesRolloutCompleted) c).1, .ok {}) := by
    have ho' : r.options .install = some o := ho
    rw [reconcileNormal_install hr hgen ho horph, rolloutReconcile_completed hr ho' hn]
  obtain ⟨f, e₂, hf⟩ := aggregate_keeps_completed (c := (modifyConditions
    (·.markTrue .helmReleaseProxiesRolloutCompleted) c).1.modifyProxy
      (·.modifyStatus (·.modifyConditions (·.markTrue .helmReleaseProxySpecsUpToDate)))) (hc .list)
  refine ⟨_, live_rest e₁ e₂, hc.next .list, ?_, ?_, ?_, ?_⟩
  · simp [modifyConditions]
  · simp [modifyConditions]
  · simp [modifyConditions]
  · simp [modifyConditions, Conditions.isTrue, hf, Conditions.markTrue, Conditions.trueCondition]

end Stages

/-! ### The stored HelmChartProxy after a pass -/

/-- A patch without fault of a stored object that is not being deleted writes the in-memory
    finalizers and the summarized status into it. --/
theorem patchHelmChartProxy_store_live {c : Ctx} {q : HelmChartProxy} (h : c.faults.Succeeds .patch)
    (hq : c.store.proxy = some q) (hl : q.deletionTimestamp = false) :
    (patchHelmChartProxy c).1.store =
      c.store.setProxy (some ((q.setFinalizers c.proxy.finalizers).modifyStatus fun _ => c.proxy.summarized.status)) := by
  rw [patchHelmChartProxy_fst h]
  simp [Store.patchProxy, hq, hl]

/-- The live branch of a stored object that is not being deleted and lacks its finalizer registers
    it: the patch writes the finalizer and the summarized status into the stored object, and the rest of
    the branch runs from the summarized object. --/
theorem reconcileLive_registers (cs : List Cluster) (hs : List HelmReleaseProxy) {c : Ctx} (hc : c.faults.Clear)
    (hfin : helmChartProxyFinalizer ∉ c.proxy.finalizers) {q : HelmChartProxy} (hq : c.store.proxy = some q)
    (hl : q.deletionTimestamp = false) :
    ∃ (c₃ : Ctx) (fs : List String) (st : HelmChartProxyStatus), c₃.faults.Clear ∧
      c₃.proxy = (c.proxy.setFinalizers (c.proxy.finalizers ++ [helmChartProxyFinalizer])).summarized ∧
      c₃.store = c.store.setProxy (some ((q.setFinalizers fs).modifyStatus fun _ => st)) ∧
      reconcileLive cs hs c = (do
        let res ← reconcileNormal cs hs
        modifyConditions (·.markTrue .helmReleaseProxySpecsUpToDate)
        aggregateHelmReleaseProxyReadyCondition
        return res : Pass Result) c₃ := by
  have hc₀ : (c.modifyProxy fun p => p.setFinalizers (p.finalizers ++ [helmChartProxyFinalizer])).faults.Succeeds .patch :=
    hc .patch
  have store₃ := patchHelmChartProxy_store_live hc₀ hq hl
  obtain ⟨c₃, e₃, hf₃, hp₃, -⟩ := patchHelmChartProxy_ok hc₀ hq
  rw [e₃] at store₃
  exact ⟨c₃, _, _, hf₃ ▸ hc.next .patch, by simpa using hp₃, store₃, by rw [reconcileLive_register (hc .patch) hfin hq, e₃]⟩

/-- The first pass of the install phase over an object without its finalizer and without releases:
    the finalizer is registered with a patch, which writes it into the stored object, and the first batch
    is written. --/
theorem reconcileLive_first {cs : List Cluster} {c : Ctx} {r : Rollout} {o : RolloutOptions} (hc : c.faults.Clear)
    (hfin : helmChartProxyFinalizer ∉ c.proxy.finalizers)
    {q : HelmChartProxy} (hq : c.store.proxy = some q) (hl : q.deletionTimestamp = false)
    (hgen : c.proxy.generation = 1) (hr : c.proxy.spec.rollout = some r) (ho : r.install = some o)
    (hd : (cs.map Cluster.key).Nodup) (hrs : c.store.releases = []) (hcount : c.proxy.status.rolloutCount = 0)
    (hlt : 0 < cs.length) (hu : c.proxy.status.conditions.get .helmReleaseProxiesReady = none) {s0 : Int}
    (hinit : getScaledValueFromIntOrPercent o.stepInit cs.length true = .ok s0) (hs0 : 1 ≤ s0) :
    let batch := (sortClusters cs).take s0.toNat
    ∃ c' P fs st', reconcileLive cs [] c = (c', .ok requeue) ∧ c'.faults.Clear ∧
      c'.store = batch.foldl (·.applyRelease P ·) (c.store.setProxy (some ((q.setFinalizers fs).modifyStatus fun _ => st'))) ∧
      P.namespace = c.proxy.namespace ∧ P.name = c.proxy.name ∧
      c'.proxy.finalizers = c.proxy.finalizers ++ [helmChartProxyFinalizer] ∧
      c'.proxy.status.rollout = some ⟨some batch.length, some s0⟩ ∧
      c'.proxy.status.conditions.get .helmReleaseProxiesReady = none := by
  intro batch
  obtain ⟨c₃, fs, st', hc₃, hp₃, store₃, e₃⟩ := reconcileLive_registers cs [] hc hfin hq hl
  obtain ⟨c', e', hc', store', fin', rollout', ready'⟩ := live_rest_first hc₃
    (by simp [hp₃, hgen]) (by simp [hp₃, hr]) ho hd (by simp [store₃, hrs]) (by simpa [hp₃] using hcount) hlt
    (by simpa [hp₃, HelmChartProxy.summarized_get] using hu) hinit hs0
  exact ⟨c', c₃.proxy, fs, st', e₃.trans e', hc', by rw [store', store₃], by simp [hp₃], by simp [hp₃],
    by simp [fin', hp₃], rollout', ready'⟩

/-- A pass without faults over a stored HelmChartProxy `q` that is not being deleted and whose selector
    converts: the live branch runs from the listed object, and when it succeeds, the deferred patch
    writes the object's finalizers and summarized status into the stored object. --/
theorem Store.pass_live {s : Store} {env : Env} {q : HelmChartProxy} {sel : Selector} (hq : s.proxy = some q)
    (hlive : q.deletionTimestamp = false) (hsel : labelSelectorAsSelector q.spec.clusterSelector = .ok sel)
    (hclear : env.faults.Clear) :
    ∃ c : Ctx, c.faults.Clear ∧ c.store = s ∧
      c.proxy = q.modifyStatus (·.setMatchingClusters ((s.listClusters q.namespace sel).map Cluster.ref)) ∧
      ∀ {c' : Ctx} {res : Result} {q₀ : HelmChartProxy},
        reconcileLive (s.listClusters q.namespace sel) (s.listReleases q.namespace (ownerLabels q)) c = (c', .ok res) →
        c'.faults.Clear → c'.store.proxy = some q₀ → q₀.deletionTimestamp = false →
        (s.pass env).1.store =
          c'.store.setProxy (some ((q₀.setFinalizers c'.proxy.finalizers).modifyStatus fun _ => c'.proxy.summarized.status)) := by
  obtain ⟨c, hc, rfl, -, -, -, -, -, e, hcp⟩ := Store.pass_listed hq hsel hclear
  simp only [hlive, Bool.false_eq_true, if_false] at e
  refine ⟨c, hc, rfl, hcp, fun e' hc' hq₀ hl₀ => ?_⟩
  rw [e, e', patchHelmChartProxy_store_live (hc' .patch) hq₀ hl₀]

/-- The step size of the True branch stays at least one, and grows by at most the increment, when
    the increment is not negative, the initial step is at least one and the sum does not wrap. --/
theorem nextStepSize_bounds {old inc lim ini : Int} (hold : 1 ≤ old) (hinc : 0 ≤ inc) (hini : 1 ≤ ini)
    (hwrap : old + inc < 9223372036854775808) :
    1 ≤ nextStepSize old inc lim ini ∧ nextStepSize old inc lim ini ≤ old + inc := by
  simp only [nextStepSize, wrapInt64_of_lt (by omega) hwrap]
  split <;> omega

/-! ### Rounds of a rollout -/

/-- What the HelmReleaseProxy controller reports of a release it installed in its first generation:
    the generation observed, and Ready and HelmReleaseReady True. --/
structure HelmReleaseProxyStatus.Installed (st : HelmReleaseProxyStatus) : Prop where
  observed : st.observedGeneration = 1
  ready : Conditions.holdsTrue st.conditions.ready = true
  helmReleaseReady : st.conditions.isTrue .helmReleaseReady = true

/-- A round of a rollout: a pass, after which the HelmReleaseProxy controller reports `st` on every
    release. --/
def Store.rolloutRound (env : Env) (st : HelmReleaseProxyStatus) (s : Store) : Store :=
  (s.step (.reconcile env)).reportAll st

/-- The stored HelmChartProxy in the install phase of its rollout at Count `k`: its spec, its first
    generation, not being deleted and holding its finalizer. --/
structure HelmChartProxy.AtCount (spec : HelmChartProxySpec) (k : Nat) (q : HelmChartProxy) : Prop where
  spec : q.spec = spec
  generation : q.generation = 1
  live : q.deletionTimestamp = false
  finalizer : helmChartProxyFinalizer ∈ q.finalizers
  count : q.status.rolloutCount = k

/-- The stored HelmChartProxy at Count `k` with a step size of at least one, as the Unknown and True
    states of a rollout record it, and of at most `ini + k * inc`: the step starts at `ini` and each
    batch, of at least one cluster, adds at most `inc` to it. --/
structure HelmChartProxy.Installing (spec : HelmChartProxySpec) (ini inc : Int) (k : Nat) (q : HelmChartProxy)
    extends HelmChartProxy.AtCount spec k q : Prop where
  stepSize : 1 ≤ q.status.rolloutStepSize
  stepBound : q.status.rolloutStepSize ≤ ini + k * inc

/-- The object a pass stores: the stored one with the finalizers and status of the in-memory one. --/
theorem HelmChartProxy.atCount_patched {spec : HelmChartProxySpec} {k : Nat} {q : HelmChartProxy} {fs : List String}
    {st : HelmChartProxyStatus} (hspec : q.spec = spec) (hgen : q.generation = 1) (hlive : q.deletionTimestamp = false)
    (hfin : helmChartProxyFinalizer ∈ fs) (hcount : st.rolloutCount = k) :
    ((q.setFinalizers fs).modifyStatus fun _ => st).AtCount spec k :=
  ⟨by simp [hspec], by simp [hgen], by simp [hlive], by simp [hfin], by simp [hcount]⟩

/-- A store in the True state of the install phase at `k`: the rollout invariant at `k`, the stored
    HelmChartProxy installing with HelmReleaseProxiesReady True, and every release reporting `st`. --/
structure Store.RollingOut (spec : HelmChartProxySpec) (st : HelmReleaseProxyStatus) (ini inc : Int) (k : Nat) (s : Store) :
    Prop where
  inv : RolloutInv s k
  proxy : ∃ q, s.proxy = some q ∧ q.Installing spec ini inc k ∧ q.status.conditions.isTrue .helmReleaseProxiesReady = true
  reported : ∀ h ∈ s.releases, h.status = st

@[simp] theorem HelmChartProxyStatus.rolloutCount_setMatchingClusters (m : List ObjectKey) (st : HelmChartProxyStatus) :
    (st.setMatchingClusters m).rolloutCount = st.rolloutCount := rfl

@[simp] theorem HelmChartProxyStatus.rolloutStepSize_setMatchingClusters (m : List ObjectKey) (st : HelmChartProxyStatus) :
    (st.setMatchingClusters m).rolloutStepSize = st.rolloutStepSize := rfl

/-- The reports keep the rollout invariant, the clusters and the stored HelmChartProxy, and leave
    every release reporting `st`. --/
theorem RolloutInv.reportAll {s : Store} {k : Nat} (inv : RolloutInv s k) (st : HelmReleaseProxyStatus) :
    RolloutInv (s.reportAll st) k ∧ (s.reportAll st).clusters = s.clusters ∧ (s.reportAll st).proxy = s.proxy ∧
      (∀ h ∈ (s.reportAll st).releases, h.status = st) ∧
      (s.reportAll st).releases.map HelmReleaseProxy.generation = s.releases.map HelmReleaseProxy.generation := by
  obtain ⟨p, hp, -⟩ := inv.live
  obtain ⟨g, e, hg⟩ := Store.reportAll_eq (fun h mem => (inv.owned p hp h mem).2.2) st
  rw [e]
  refine ⟨inv.map_releases fun h => (hg h).1, rfl, rfl, ?_, ?_⟩
  · simp only [Store.setReleases_releases, List.mem_map]
    rintro _ ⟨h, mem, rfl⟩
    exact (hg h).2.2 mem
  · simp [Function.comp_def, (hg _).2.1]

section Progress

variable {spec : HelmChartProxySpec} {st : HelmReleaseProxyStatus} {r : Rollout} {o : RolloutOptions}
  {sel : Selector} {inc lim ini : Int} {env : Env} {s : Store} {k : Nat}

theorem HelmChartProxyStatus.rolloutCount_eq {st : HelmChartProxyStatus} {x y : Int}
    (h : st.rollout = some ⟨some x, some y⟩) : st.rolloutCount = x := by
  simp [HelmChartProxyStatus.rolloutCount, h]

theorem HelmChartProxyStatus.rolloutStepSize_eq {st : HelmChartProxyStatus} {x y : Int}
    (h : st.rollout = some ⟨some x, some y⟩) : st.rolloutStepSize = y := by
  simp [HelmChartProxyStatus.rolloutStepSize, h]

/-- A pass without faults in the True state of the install phase at `k`, short of the number of
    selected clusters: it writes the next batch, and the stored HelmChartProxy stays in the True state,
    at the larger Count the batch brings. --/
theorem Store.RollingOut.pass (hs : s.RollingOut spec st ini inc k) (hk : k < s.selected.length)
    (hr : spec.rollout = some r) (ho : r.install = some o) (hsel : labelSelectorAsSelector spec.clusterSelector = .ok sel)
    (hinc : resolveStep o.stepIncrement s.selected.length = .ok inc) (hinc0 : 0 ≤ inc)
    (hlim : resolveStep o.stepLimit s.selected.length = .ok lim)
    (hini : resolveStep o.stepInit s.selected.length = .ok ini) (hini1 : 1 ≤ ini)
    (hwrap : ini + s.selected.length * inc < 9223372036854775808) (hN : s.selected.length < 9223372036854775808)
    (hready : st.conditions.isTrue .helmReleaseReady = true) (hclear : env.faults.Clear) :
    ∃ k', k < k' ∧ k' ≤ s.selected.length ∧ RolloutInv (s.pass env).1.store k' ∧
      ∃ q, (s.pass env).1.store.proxy = some q ∧ q.Installing spec ini inc k' ∧
        q.status.conditions.isTrue .helmReleaseProxiesReady = true := by
  obtain ⟨q, hq, hq', hready'⟩ := hs.proxy
  have hframe : s.proxy.map HelmChartProxy.frame = some q.frame := by rw [hq]; rfl
  have hselq : labelSelectorAsSelector q.spec.clusterSelector = .ok sel := hq'.spec ▸ hsel
  have selected := Store.selected_of_frame hframe hselq
  have listed := hs.inv.listReleases_eq hframe
  have hrel := hs.inv.release_targets
  have hcov := hs.inv.release_covers
  rw [selected] at hk hinc hlim hini hrel hcov hwrap hN
  obtain ⟨c, hc, rfl, hcp, pass⟩ := Store.pass_live hq hq'.live hselq hclear
  have hold : c.proxy.status.rolloutStepSize ≤ ini + k * inc := by simpa [hcp] using hq'.stepBound
  have hmore : ((k : Int) + 1) * inc ≤ (c.store.listClusters q.namespace sel).length * inc :=
    Int.mul_le_mul_of_nonneg_right (by omega) hinc0
  have hdist : ((k : Int) + 1) * inc = k * inc + inc := by rw [Int.add_mul, Int.one_mul]
  have ⟨hstep, hstep_le⟩ : 1 ≤ nextStepSize c.proxy.status.rolloutStepSize inc lim ini ∧
      nextStepSize c.proxy.status.rolloutStepSize inc lim ini ≤ c.proxy.status.rolloutStepSize + inc :=
    nextStepSize_bounds (by simpa [hcp] using hq'.stepSize) hinc0 hini1 (by omega)
  have hd : ((c.store.listClusters q.namespace sel).map Cluster.key).Nodup :=
    ((List.filter_sublist _).map _).nodup c.store.clusters.distinct
  obtain ⟨c', e', hc', store', fin', rollout', ready'⟩ := reconcileLive_next (k := k) hc
    (by simpa [hcp] using hq'.finalizer) (by simpa [hcp] using hq'.generation) (by simpa [hcp, hq'.spec] using hr) ho
    hd listed.symm (listed ▸ hrel) (listed ▸ hcov)
    (fun h mem => by rw [hs.reported h (listed ▸ mem)]; exact hready) (by simpa [hcp] using hready')
    (by simpa [hcp] using hq'.count) hk hN hinc hlim hini hstep
  have hq₀ : c'.store.proxy = some q := by rw [store', Store.foldl_applyRelease_proxy]; exact hq
  have pass_store := pass e' hc' hq₀ hq'.live
  generalize hbatch : ((sortClusters (c.store.listClusters q.namespace sel)).drop k).take
    (nextStepSize c.proxy.status.rolloutStepSize inc lim ini).toNat = batch at store' rollout'
  have hlen : k < k + batch.length ∧ k + batch.length ≤ (c.store.listClusters q.namespace sel).length := by
    rw [← hbatch]
    simp [sortClusters, List.length_insertionSort]
    omega
  have taken : ((sortClusters (c.store.listClusters q.namespace sel)).drop k).take batch.length = batch := by
    rw [← hbatch]; simp [List.take_eq_take]
  refine ⟨k + batch.length, hlen.1, selected ▸ hlen.2, ?_, _, by rw [pass_store]; rfl, ?_⟩
  · have inv₁ := hs.inv.applied (p := c.proxy) (L := batch) (m := batch.length) hq (by simp [hcp]) (by simp [hcp])
      (fun x mem => by rw [selected, List.take_add, taken]; exact List.mem_append_right _ mem)
      (fun x mem => by rwa [selected, taken] at mem)
    rw [← store'] at inv₁
    rw [pass_store]
    exact inv₁.keeps ⟨rfl, rfl, by rw [hq₀]; simp⟩
  · have hss : c'.proxy.summarized.status.rolloutStepSize = _ :=
      HelmChartProxyStatus.rolloutStepSize_eq (by rw [HelmChartProxy.summarized_rollout]; exact rollout')
    have hgrow : 1 * inc ≤ (batch.length : Int) * inc := Int.mul_le_mul_of_nonneg_right (by omega) hinc0
    refine ⟨⟨HelmChartProxy.atCount_patched hq'.spec hq'.generation hq'.live (by simp [fin', hcp, hq'.finalizer])
      ?_, ?_, ?_⟩, ?_⟩
    · simpa using HelmChartProxyStatus.rolloutCount_eq (by simpa using rollout')
    · simpa [hss] using hstep
    · simp only [HelmChartProxy.modifyStatus_status, hss, Int.natCast_add, Int.add_mul]
      omega
    · simp only [Conditions.isTrue] at hready' ⊢
      simpa [HelmChartProxy.summarized_get, ready', hcp] using hready'

/-- A store in the Unknown state of the install phase at `k`, the first batch written and reported:
    the rollout invariant at `k`, the stored HelmChartProxy installing with HelmReleaseProxiesReady not
    set, and every release in its first generation, reporting `st`. --/
structure Store.FirstBatch (spec : HelmChartProxySpec) (st : HelmReleaseProxyStatus) (ini inc : Int) (k : Nat) (s : Store) :
    Prop where
  inv : RolloutInv s k
  proxy : ∃ q, s.proxy = some q ∧ q.Installing spec ini inc k ∧ q.status.conditions.get .helmReleaseProxiesReady = none
  reported : ∀ h ∈ s.releases, h.generation = 1 ∧ h.status = st

/-- The pass after the first batch is reported installed: the rollout waits, and HelmReleaseProxiesReady
    becomes True. --/
theorem Store.FirstBatch.pass (hs : s.FirstBatch spec st ini inc k) (h0 : 0 < k) (hk : k < s.selected.length)
    (hr : spec.rollout = some r) (ho : r.install = some o) (hsel : labelSelectorAsSelector spec.clusterSelector = .ok sel)
    (hst : st.Installed) (hclear : env.faults.Clear) :
    (s.pass env).1.store.releases = s.releases ∧ RolloutInv (s.pass env).1.store k ∧
      ∃ q, (s.pass env).1.store.proxy = some q ∧ q.Installing spec ini inc k ∧
        q.status.conditions.isTrue .helmReleaseProxiesReady = true := by
  obtain ⟨q, hq, hq', hu⟩ := hs.proxy
  have hframe : s.proxy.map HelmChartProxy.frame = some q.frame := by rw [hq]; rfl
  have hselq : labelSelectorAsSelector q.spec.clusterSelector = .ok sel := hq'.spec ▸ hsel
  have selected := Store.selected_of_frame hframe hselq
  have listed := hs.inv.listReleases_eq hframe
  have hrel := hs.inv.release_targets
  have hcov := hs.inv.release_covers
  rw [selected] at hk hrel hcov
  obtain ⟨c, hc, rfl, hcp, pass⟩ := Store.pass_live hq hq'.live hselq hclear
  have hne : c.store.listReleases q.namespace (ownerLabels q) ≠ [] := by
    obtain ⟨x, rest, e⟩ := List.exists_cons_of_length_pos
      (show 0 < (sortClusters (c.store.listClusters q.namespace sel)).length by
        simp [sortClusters, List.length_insertionSort]; omega)
    obtain ⟨m, rfl⟩ : ∃ m, k = m + 1 := ⟨k - 1, by omega⟩
    obtain ⟨h, mem, -⟩ := hcov x (by rw [e]; simp)
    exact listed ▸ List.ne_nil_of_mem mem
  have hn : ((c.store.listClusters q.namespace sel).length : Int) ≠ c.proxy.status.rolloutCount := by
    rw [hcp]; simp [hq'.count]; omega
  obtain ⟨c', e', hc', store', fin', rollout', ready'⟩ := reconcileLive_waiting hc
    (by simpa [hcp] using hq'.finalizer) (by simpa [hcp] using hq'.generation) (by simpa [hcp, hq'.spec] using hr) ho
    (((List.filter_sublist _).map _).nodup c.store.clusters.distinct) (listed ▸ not_orphan hrel) hne
    (by simpa [hcp] using hu) hn
    (fun h mem => by
      obtain ⟨gen, status⟩ := hs.reported h (List.mem_of_mem_filter mem)
      rw [gen, status]
      exact ⟨hst.observed.symm, hst.ready⟩)
  have hq₀ : c'.store.proxy = some q := by rw [store']; exact hq
  have pass_store := pass e' hc' hq₀ hq'.live
  refine ⟨by rw [pass_store, store']; rfl, by rw [pass_store, store']; exact hs.inv.keeps ⟨rfl, rfl, by rw [hq]; simp⟩,
    _, by rw [pass_store]; rfl, ⟨HelmChartProxy.atCount_patched hq'.spec hq'.generation hq'.live
      (by simp [fin', hcp, hq'.finalizer]) ?_, ?_, ?_⟩, ?_⟩
  · simpa [HelmChartProxyStatus.rolloutCount, rollout', hcp] using hq'.count
  · simpa [HelmChartProxyStatus.rolloutStepSize, rollout', hcp] using hq'.stepSize
  · simpa [HelmChartProxyStatus.rolloutStepSize, rollout', hcp] using hq'.stepBound
  · simp only [Conditions.isTrue] at ready' ⊢
    simpa [HelmChartProxy.summarized_get] using ready'

/-- A round keeps the rollout invariant, at a Count no smaller, and the selection. --/
theorem RolloutInv.round (inv : RolloutInv s k) (st : HelmReleaseProxyStatus) (hclear : env.faults.Clear) :
    ∃ k', k ≤ k' ∧ RolloutInv (s.rolloutRound env st) k' ∧ (s.rolloutRound env st).selected = s.selected := by
  obtain ⟨k', le, inv', selected⟩ := Store.pass_advances inv (hclear .apply)
  obtain ⟨inv'', clusters, proxy, -⟩ := inv'.reportAll st
  exact ⟨k', le, inv'', (Store.selected_congr clusters (by rw [proxy])).trans selected⟩

theorem resolveStep_of_getScaled {v : Option IntOrString} {n : Nat} {x : Int}
    (h : getScaledValueFromIntOrPercent v n true = .ok x) : resolveStep v n = .ok x := by
  cases v with
  | none => cases h
  | some v => exact h

/-- The first round from a HelmChartProxy just created, whose rollout installs and whose selector
    selects some cluster: the pass registers the finalizer and writes the first batch, of `ini` clusters
    in rollout order, and once its releases report `st` the store is in the Unknown state at the size
    of that batch, over the same selection. --/
theorem Store.FirstBatch.initial {p : HelmChartProxy} (hi : Initial s) (hp : s.proxy = some p)
    (hr : p.spec.rollout = some r) (ho : r.install = some o) (hsel : labelSelectorAsSelector p.spec.clusterSelector = .ok sel)
    (hini : getScaledValueFromIntOrPercent o.stepInit s.selected.length true = .ok ini) (hini1 : 1 ≤ ini)
    (hinc0 : 0 ≤ inc) (hpos : 0 < s.selected.length) (hclear : env.faults.Clear) :
    (s.rolloutRound env st).FirstBatch p.spec st ini inc (min ini.toNat s.selected.length) ∧
      (s.rolloutRound env st).selected = s.selected := by
  have inv := RolloutInv.initial hi
  obtain ⟨-, -, -, selected'⟩ := inv.round st hclear
  obtain ⟨hrel, p', hp', gen, live, fins, status⟩ := hi
  cases hp.symm.trans hp'
  have hframe : s.proxy.map HelmChartProxy.frame = some p.frame := by rw [hp]; rfl
  have selected := Store.selected_of_frame hframe hsel
  have listed : s.listReleases p.namespace (ownerLabels p) = [] := by simp [Store.listReleases, hrel]
  rw [selected] at hini hpos
  obtain ⟨c, hc, rfl, hcp, pass⟩ := Store.pass_live hp live hsel hclear
  have hd : ((c.store.listClusters p.namespace sel).map Cluster.key).Nodup :=
    ((List.filter_sublist _).map _).nodup c.store.clusters.distinct
  obtain ⟨c', P, fs, st', e', hc', store', ns, name, fin', rollout', ready'⟩ := reconcileLive_first
    hc (by simp [hcp, fins]) hp live (by simp [hcp, gen]) (by simp [hcp, hr]) ho hd hrel
    (by simp [hcp, status, HelmChartProxyStatus.rolloutCount]) hpos (by simp [hcp, status, Conditions.get]) hini hini1
  set batch := (sortClusters (c.store.listClusters p.namespace sel)).take ini.toNat with hbatch
  set q₃ := (p.setFinalizers fs).modifyStatus fun _ => st'
  have hq₀ : c'.store.proxy = some q₃ := by rw [store', Store.foldl_applyRelease_proxy]; rfl
  have pass_store := pass (by rw [listed]; exact e') hc' hq₀ (by simp [q₃, live])
  have inv₀ : RolloutInv (c.store.setProxy (some q₃)) 0 := inv.keeps ⟨rfl, rfl, by simp [hp, q₃]⟩
  have same : (c.store.setProxy (some q₃)).selected = c.store.selected := Store.selected_congr rfl (by simp [hp, q₃])
  have selected₀ := same.trans selected
  have taken : (sortClusters (c.store.listClusters p.namespace sel)).take batch.length = batch := by
    simp [batch, List.take_take]
  have inv₁ := inv₀.applied (p := P) (L := batch) (m := batch.length) rfl (by simp [ns, hcp, q₃]) (by simp [name, hcp, q₃])
    (fun x mem => by rwa [selected₀, Nat.zero_add, taken]) (fun x mem => by rwa [selected₀, List.drop_zero, taken] at mem)
  rw [Nat.zero_add, ← store'] at inv₁
  have inv₂ : RolloutInv (c.store.pass env).1.store batch.length := by
    rw [pass_store]; exact inv₁.keeps ⟨rfl, rfl, by rw [hq₀]; simp⟩
  obtain ⟨inv₃, -, proxy, reported, generations⟩ := inv₂.reportAll st
  have hlen : batch.length = min ini.toNat c.store.selected.length := by
    simp [batch, selected, sortClusters, List.length_insertionSort]
  refine ⟨⟨hlen ▸ inv₃, ⟨_, proxy.trans (by rw [pass_store]; rfl), ⟨HelmChartProxy.atCount_patched (by simp [q₃])
    (by simp [q₃, gen]) (by simp [q₃, live]) (by simp [fin', hcp]) ?_, ?_, ?_⟩, by simpa [HelmChartProxy.summarized_get] using ready'⟩, fun h mem => ⟨?_, reported h mem⟩⟩,
    selected'⟩
  all_goals have hss : c'.proxy.summarized.status.rolloutStepSize = ini :=
    HelmChartProxyStatus.rolloutStepSize_eq (by rw [HelmChartProxy.summarized_rollout]; exact rollout')
  · rw [← hlen]; simpa using HelmChartProxyStatus.rolloutCount_eq (by rw [HelmChartProxy.summarized_rollout]; exact rollout')
  · simpa [hss] using hini1
  · simpa [hss] using Int.le_add_of_nonneg_right (a := ini)
      (Int.mul_nonneg (Int.ofNat_nonneg (min ini.toNat c.store.selected.length)) hinc0)
  · obtain ⟨h₀, mem₀, e₀⟩ := List.mem_map.mp (generations ▸ List.mem_map_of_mem HelmReleaseProxy.generation mem)
    rw [pass_store, store'] at mem₀
    rcases Store.mem_foldl_applyRelease_fresh (((List.take_sublist _ _).map _).nodup
      (sortClusters_keys_nodup (((List.filter_sublist _).map _).nodup c.store.clusters.distinct))) (by simp [hrel]) h₀ mem₀
      with old | ⟨cl, -, n, rfl⟩
    · simp [hrel] at old
    · rw [← e₀]; rfl

/-- The round after the first batch is reported installed ends in the True state at the same Count. --/
theorem Store.FirstBatch.round (hs : s.FirstBatch spec st ini inc k) (h0 : 0 < k) (hk : k < s.selected.length)
    (hr : spec.rollout = some r) (ho : r.install = some o) (hsel : labelSelectorAsSelector spec.clusterSelector = .ok sel)
    (hst : st.Installed) (hclear : env.faults.Clear) :
    (s.rolloutRound env st).RollingOut spec st ini inc k ∧ (s.rolloutRound env st).selected = s.selected := by
  obtain ⟨-, inv, q, hq, hq', ready⟩ := hs.pass h0 hk hr ho hsel hst hclear
  obtain ⟨inv', -, proxy, reported, -⟩ := inv.reportAll st
  obtain ⟨-, -, -, selected⟩ := hs.inv.round st hclear
  exact ⟨⟨inv', ⟨q, proxy.trans hq, hq', ready⟩, reported⟩, selected⟩

/-- A round in the True state of the install phase at `k`, short of the number of selected clusters,
    ends in the True state at a larger Count, over the same selection. --/
theorem Store.RollingOut.round (hs : s.RollingOut spec st ini inc k) (hk : k < s.selected.length)
    (hr : spec.rollout = some r) (ho : r.install = some o) (hsel : labelSelectorAsSelector spec.clusterSelector = .ok sel)
    (hinc : resolveStep o.stepIncrement s.selected.length = .ok inc) (hinc0 : 0 ≤ inc)
    (hlim : resolveStep o.stepLimit s.selected.length = .ok lim)
    (hini : resolveStep o.stepInit s.selected.length = .ok ini) (hini1 : 1 ≤ ini)
    (hwrap : ini + s.selected.length * inc < 9223372036854775808) (hN : s.selected.length < 9223372036854775808)
    (hst : st.Installed) (hclear : env.faults.Clear) :
    ∃ k', k < k' ∧ k' ≤ s.selected.length ∧ (s.rolloutRound env st).RollingOut spec st ini inc k' ∧
      (s.rolloutRound env st).selected = s.selected := by
  obtain ⟨k', lt, le, inv, q, hq, hq', ready⟩ :=
    hs.pass hk hr ho hsel hinc hinc0 hlim hini hini1 hwrap hN hst.helmReleaseReady hclear
  obtain ⟨inv', -, proxy, reported, -⟩ := inv.reportAll st
  obtain ⟨-, -, -, selected⟩ := hs.inv.round st hclear
  exact ⟨k', lt, le, ⟨inv', ⟨q, proxy.trans hq, hq', ready⟩, reported⟩, selected⟩

/-- Rounds from the True state at `k`: after `j` of them the selection is the same, and the rollout
    invariant holds at some Count `k'` that, short of the number of selected clusters, is at least
    `k + j` and comes with the True state. --/
theorem Store.RollingOut.rounds (hs : s.RollingOut spec st ini inc k)
    (hr : spec.rollout = some r) (ho : r.install = some o) (hsel : labelSelectorAsSelector spec.clusterSelector = .ok sel)
    (hinc : resolveStep o.stepIncrement s.selected.length = .ok inc) (hinc0 : 0 ≤ inc)
    (hlim : resolveStep o.stepLimit s.selected.length = .ok lim)
    (hini : resolveStep o.stepInit s.selected.length = .ok ini) (hini1 : 1 ≤ ini)
    (hwrap : ini + s.selected.length * inc < 9223372036854775808) (hN : s.selected.length < 9223372036854775808)
    (hst : st.Installed) (hclear : env.faults.Clear) (j : Nat) :
    ∃ k', RolloutInv ((Store.rolloutRound env st)^[j] s) k' ∧ ((Store.rolloutRound env st)^[j] s).selected = s.selected ∧
      (k' < s.selected.length → ((Store.rolloutRound env st)^[j] s).RollingOut spec st ini inc k' ∧ k + j ≤ k') := by
  induction j with
  | zero => exact ⟨k, hs.inv, rfl, fun _ => ⟨hs, le_rfl⟩⟩
  | succ j ih =>
    obtain ⟨k', inv, selected, rolling⟩ := ih
    rw [Function.iterate_succ_apply']
    by_cases hlt : k' < s.selected.length
    · obtain ⟨ht, hle⟩ := rolling hlt
      rw [← selected] at hlt hinc hlim hini hwrap hN
      obtain ⟨k'', lt, -, ht', selected'⟩ := ht.round hlt hr ho hsel hinc hinc0 hlim hini hini1 hwrap hN hst hclear
      exact ⟨k'', ht'.inv, selected'.trans selected, fun _ => ⟨ht', by omega⟩⟩
    · obtain ⟨k'', le, inv', selected'⟩ := inv.round st hclear
      exact ⟨k'', inv', selected'.trans selected, fun h => absurd h (by omega)⟩

/-- Rounds keep the rollout invariant, at a Count no smaller, and the selection. --/
theorem RolloutInv.rounds (inv : RolloutInv s k) (st : HelmReleaseProxyStatus) (hclear : env.faults.Clear) (j : Nat) :
    ∃ k', k ≤ k' ∧ RolloutInv ((Store.rolloutRound env st)^[j] s) k' ∧
      ((Store.rolloutRound env st)^[j] s).selected = s.selected := by
  induction j with
  | zero => exact ⟨k, le_rfl, inv, rfl⟩
  | succ j ih =>
    obtain ⟨k', le, inv', selected⟩ := ih
    obtain ⟨k'', le', inv'', selected'⟩ := inv'.round st hclear
    rw [Function.iterate_succ_apply']
    exact ⟨k'', le.trans le', inv'', selected'.trans selected⟩

/-- Once Count reaches the number of selected clusters, every selected cluster has a release. --/
theorem RolloutInv.hasRelease_of_le (inv : RolloutInv s k) (hk : s.selected.length ≤ k) :
    ∀ x ∈ s.selected, s.HasRelease x := fun x mem =>
  inv.release_covers x (by
    rw [List.take_of_length_le (by simpa [sortClusters, List.length_insertionSort] using hk)]
    exact (List.mem_insertionSort _).mpr mem)

/-- A rollout that installs reaches every selected cluster. Take a HelmChartProxy just created, whose
    selector converts, whose step options resolve, and whose step size starts at one or more and never
    shrinks. Let its rounds run without faults, each release reporting itself installed. Then every
    selected cluster has a release after one round more than there are selected clusters, and at every
    round after that. --/
theorem rollout_reaches_every_cluster {p : HelmChartProxy} (hi : Initial s) (hp : s.proxy = some p)
    (hr : p.spec.rollout = some r) (ho : r.install = some o) (hsel : labelSelectorAsSelector p.spec.clusterSelector = .ok sel)
    (hinc : resolveStep o.stepIncrement s.selected.length = .ok inc) (hinc0 : 0 ≤ inc)
    (hlim : resolveStep o.stepLimit s.selected.length = .ok lim)
    (hini : getScaledValueFromIntOrPercent o.stepInit s.selected.length true = .ok ini) (hini1 : 1 ≤ ini)
    (hwrap : ini + s.selected.length * inc < 9223372036854775808) (hN : s.selected.length < 9223372036854775808)
    (hst : st.Installed) (hclear : env.faults.Clear) {j : Nat} (hj : s.selected.length < j) :
    ∀ x ∈ s.selected, ((Store.rolloutRound env st)^[j] s).HasRelease x := by
  rcases Nat.eq_zero_or_pos s.selected.length with hnil | hpos
  · simp [List.length_eq_zero.mp hnil]
  have ⟨first, selected₁⟩ : (s.rolloutRound env st).FirstBatch p.spec st ini inc (min ini.toNat s.selected.length) ∧
      (s.rolloutRound env st).selected = s.selected := Store.FirstBatch.initial hi hp hr ho hsel hini hini1 hinc0 hpos hclear
  have h0 : 0 < min ini.toNat s.selected.length := by omega
  obtain ⟨m, rfl⟩ : ∃ m, j = m + 1 := ⟨j - 1, by omega⟩
  rw [Function.iterate_succ_apply]
  by_cases hk₀ : min ini.toNat s.selected.length < s.selected.length
  · obtain ⟨m, rfl⟩ : ∃ m', m = m' + 1 := ⟨m - 1, by omega⟩
    rw [Function.iterate_succ_apply]
    obtain ⟨rolling, selected₂⟩ := first.round h0 (selected₁ ▸ hk₀) hr ho hsel hst hclear
    have same := selected₂.trans selected₁
    obtain ⟨k', inv, selected, bound⟩ := rolling.rounds hr ho hsel (same ▸ hinc) hinc0 (same ▸ hlim)
      (same ▸ resolveStep_of_getScaled hini) hini1 (same ▸ hwrap) (same ▸ hN) hst hclear m
    rw [same] at bound selected
    have hk' : s.selected.length ≤ k' := by
      by_contra hlt
      have := (bound (by omega)).2
      omega
    exact selected ▸ inv.hasRelease_of_le (selected ▸ hk')
  · obtain ⟨k', le, inv, selected⟩ := first.inv.rounds st hclear m
    rw [selected₁] at selected
    exact selected ▸ inv.hasRelease_of_le (by rw [selected]; omega)

/-- Two clusters, a first step of one and an increment of one: three rounds give both a release. --/
theorem freshFleet_rollout_reaches :
    prodCluster "a" ∈ freshFleet.selected ∧
      ((Store.rolloutRound {} ⟨releaseConditions true, 1⟩)^[3] freshFleet).HasRelease (prodCluster "a") :=
  ⟨by decide, rollout_reaches_every_cluster (s := freshFleet) (j := 3) ⟨rfl, _, rfl, rfl, rfl, rfl, rfl⟩ rfl rfl rfl rfl
    rfl (by decide) rfl rfl (by decide) (by decide) (by decide) ⟨by rfl, by rfl, by rfl⟩ Faults.clear_empty (by decide) _
    (by decide)⟩

/-! ### Completion -/

/-- A pass without faults once Count has reached the number of selected clusters: the stored
    HelmChartProxy stays at that Count, with HelmReleaseProxiesRolloutCompleted True. --/
theorem Store.pass_completed {q : HelmChartProxy} (inv : RolloutInv s k) (hk : s.selected.length = k)
    (hq : s.proxy = some q) (hq' : q.AtCount spec k) (hr : spec.rollout = some r) (ho : r.install = some o)
    (hsel : labelSelectorAsSelector spec.clusterSelector = .ok sel) (hclear : env.faults.Clear) :
    RolloutInv (s.pass env).1.store k ∧ ∃ q', (s.pass env).1.store.proxy = some q' ∧ q'.AtCount spec k ∧
      q'.status.conditions.isTrue .helmReleaseProxiesRolloutCompleted = true := by
  have hframe : s.proxy.map HelmChartProxy.frame = some q.frame := by rw [hq]; rfl
  have hselq : labelSelectorAsSelector q.spec.clusterSelector = .ok sel := hq'.spec ▸ hsel
  have selected := Store.selected_of_frame hframe hselq
  have listed := inv.listReleases_eq hframe
  have hrel := inv.release_targets
  rw [selected] at hk hrel
  obtain ⟨c, hc, rfl, hcp, pass⟩ := Store.pass_live hq hq'.live hselq hclear
  obtain ⟨c', e', hc', store', fin', rollout', done'⟩ := live_rest_completed hc
    (by simpa [hcp] using hq'.generation) (by simpa [hcp, hq'.spec] using hr) ho (listed ▸ not_orphan hrel)
    (by rw [hcp]; simp [hq'.count, hk])
  have hq₀ : c'.store.proxy = some q := by rw [store']; exact hq
  have pass_store := pass ((reconcileLive_of_finalizer (by simpa [hcp] using hq'.finalizer)).trans e') hc' hq₀ hq'.live
  refine ⟨by rw [pass_store, store']; exact inv.keeps ⟨rfl, rfl, by rw [hq]; simp⟩, _, by rw [pass_store]; rfl,
    HelmChartProxy.atCount_patched hq'.spec hq'.generation hq'.live (by simp [fin', hcp, hq'.finalizer]) ?_, ?_⟩
  · simpa [HelmChartProxyStatus.rolloutCount, rollout', hcp] using hq'.count
  · simpa [Conditions.isTrue, HelmChartProxy.summarized_get] using done'

/-- A store whose rollout has completed: the rollout invariant at Count `k`, the number of selected
    clusters, and the stored HelmChartProxy at that Count with HelmReleaseProxiesRolloutCompleted
    True. --/
structure Store.Completed (spec : HelmChartProxySpec) (k : Nat) (s : Store) : Prop where
  inv : RolloutInv s k
  selected : s.selected.length = k
  proxy : ∃ q, s.proxy = some q ∧ q.AtCount spec k ∧
    q.status.conditions.isTrue .helmReleaseProxiesRolloutCompleted = true

/-- From a stored object at Count `k`, the number of selected clusters, a round completes the
    rollout. --/
theorem Store.completed_round {q : HelmChartProxy} (inv : RolloutInv s k) (hk : s.selected.length = k)
    (hq : s.proxy = some q) (hq' : q.AtCount spec k) (hr : spec.rollout = some r) (ho : r.install = some o)
    (hsel : labelSelectorAsSelector spec.clusterSelector = .ok sel) (st : HelmReleaseProxyStatus)
    (hclear : env.faults.Clear) : (s.rolloutRound env st).Completed spec k := by
  obtain ⟨inv', q', hq₁, hq₁', done⟩ := Store.pass_completed inv hk hq hq' hr ho hsel hclear
  obtain ⟨inv'', -, proxy, -, -⟩ := inv'.reportAll st
  obtain ⟨-, -, -, selected⟩ := inv.round st hclear
  exact ⟨inv'', by rw [selected, hk], q', proxy.trans hq₁, hq₁', done⟩

/-- A completed rollout stays completed, round after round. --/
theorem Store.Completed.rounds (hs : s.Completed spec k) (hr : spec.rollout = some r) (ho : r.install = some o)
    (hsel : labelSelectorAsSelector spec.clusterSelector = .ok sel) (st : HelmReleaseProxyStatus)
    (hclear : env.faults.Clear) (j : Nat) : ((Store.rolloutRound env st)^[j] s).Completed spec k := by
  induction j with
  | zero => exact hs
  | succ j ih =>
    obtain ⟨q, hq, hq', -⟩ := ih.proxy
    rw [Function.iterate_succ_apply']
    exact Store.completed_round ih.inv ih.selected hq hq' hr ho hsel st hclear

/-- Rounds from the True state at `k`: once there have been more rounds than clusters left to roll out,
    the rollout has completed. --/
theorem Store.RollingOut.completes (hs : s.RollingOut spec st ini inc k) (hk : k ≤ s.selected.length)
    (hr : spec.rollout = some r) (ho : r.install = some o) (hsel : labelSelectorAsSelector spec.clusterSelector = .ok sel)
    (hinc : resolveStep o.stepIncrement s.selected.length = .ok inc) (hinc0 : 0 ≤ inc)
    (hlim : resolveStep o.stepLimit s.selected.length = .ok lim)
    (hini : resolveStep o.stepInit s.selected.length = .ok ini) (hini1 : 1 ≤ ini)
    (hwrap : ini + s.selected.length * inc < 9223372036854775808) (hN : s.selected.length < 9223372036854775808)
    (hst : st.Installed) (hclear : env.faults.Clear) {j : Nat} (hj : s.selected.length - k < j) :
    ((Store.rolloutRound env st)^[j] s).Completed spec s.selected.length := by
  induction j generalizing s k with
  | zero => omega
  | succ j ih =>
    rw [Function.iterate_succ_apply]
    rcases Nat.lt_or_ge k s.selected.length with hlt | hge
    · obtain ⟨k', lt, le, ht, selected⟩ := hs.round hlt hr ho hsel hinc hinc0 hlim hini hini1 hwrap hN hst hclear
      rw [← selected] at hinc hlim hini hwrap hN le ⊢
      exact ih ht le hinc hlim hini hwrap hN (by rw [selected] at le ⊢; omega)
    · obtain ⟨q, hq, hq', -⟩ := hs.proxy
      have hk' : s.selected.length = k := by omega
      rw [hk']
      exact (Store.completed_round hs.inv hk' hq hq'.toAtCount hr ho hsel st hclear).rounds hr ho hsel st hclear j

/-- A HelmChartProxy just created whose selector selects no cluster: the first round registers the
    finalizer and completes the rollout at once. --/
theorem Store.Completed.initial {p : HelmChartProxy} (hi : Initial s) (hp : s.proxy = some p)
    (hr : p.spec.rollout = some r) (ho : r.install = some o) (hsel : labelSelectorAsSelector p.spec.clusterSelector = .ok sel)
    (hnil : s.selected.length = 0) (st : HelmReleaseProxyStatus) (hclear : env.faults.Clear) :
    (s.rolloutRound env st).Completed p.spec 0 := by
  have inv := RolloutInv.initial hi
  obtain ⟨-, -, -, selected'⟩ := inv.round st hclear
  obtain ⟨hrel, p', hp', gen, live, fins, status⟩ := hi
  cases hp.symm.trans hp'
  have hframe : s.proxy.map HelmChartProxy.frame = some p.frame := by rw [hp]; rfl
  have selected := Store.selected_of_frame hframe hsel
  have listed : s.listReleases p.namespace (ownerLabels p) = [] := by simp [Store.listReleases, hrel]
  rw [selected] at hnil
  obtain ⟨c, hc, rfl, hcp, pass⟩ := Store.pass_live hp live hsel hclear
  obtain ⟨c₃, fs, st', hc₃, hp₃, store₃, e₃⟩ :=
    reconcileLive_registers (c.store.listClusters p.namespace sel) [] hc (by simp [hcp, fins]) hp live
  have horph : ∀ h ∈ ([] : List HelmReleaseProxy), isOrphan (c.store.listClusters p.namespace sel) h = false := by
    simp
  obtain ⟨c', e', hc', store', fin', rollout', done'⟩ := live_rest_completed hc₃ (by simp [hp₃, hcp, gen])
    (by simp [hp₃, hcp, hr]) ho horph (by simp [hp₃, hcp, hnil, status, HelmChartProxyStatus.rolloutCount])
  set q₃ := (p.setFinalizers fs).modifyStatus fun _ => st'
  have hq₀ : c'.store.proxy = some q₃ := by rw [store', store₃]; rfl
  have pass_store := pass (by rw [listed]; exact e₃.trans e') hc' hq₀ (by simp [q₃, live])
  have inv₂ : RolloutInv (c.store.pass env).1.store 0 := by
    rw [pass_store, store', store₃]; exact inv.keeps ⟨rfl, rfl, by simp [hp, q₃]⟩
  obtain ⟨inv₃, -, proxy, -, -⟩ := inv₂.reportAll st
  refine ⟨inv₃, by rw [selected', selected, hnil], _, proxy.trans (by rw [pass_store]; rfl),
    HelmChartProxy.atCount_patched (by simp [q₃]) (by simp [q₃, gen]) (by simp [q₃, live]) (by simp [fin', hp₃]) ?_, ?_⟩
  · simp [rollout', hp₃, hcp, status, HelmChartProxyStatus.rolloutCount]
  · simpa [Conditions.isTrue, HelmChartProxy.summarized_get] using done'

/-- A rollout that installs completes. Under the hypotheses of `rollout_reaches_every_cluster`, the
    stored HelmChartProxy has HelmReleaseProxiesRolloutCompleted True after two rounds more than there
    are selected clusters, and at every round after that. --/
theorem rollout_completes {p : HelmChartProxy} (hi : Initial s) (hp : s.proxy = some p)
    (hr : p.spec.rollout = some r) (ho : r.install = some o) (hsel : labelSelectorAsSelector p.spec.clusterSelector = .ok sel)
    (hinc : resolveStep o.stepIncrement s.selected.length = .ok inc) (hinc0 : 0 ≤ inc)
    (hlim : resolveStep o.stepLimit s.selected.length = .ok lim)
    (hini : getScaledValueFromIntOrPercent o.stepInit s.selected.length true = .ok ini) (hini1 : 1 ≤ ini)
    (hwrap : ini + s.selected.length * inc < 9223372036854775808) (hN : s.selected.length < 9223372036854775808)
    (hst : st.Installed) (hclear : env.faults.Clear) {j : Nat} (hj : s.selected.length + 2 ≤ j) :
    ∃ q, ((Store.rolloutRound env st)^[j] s).proxy = some q ∧
      q.status.conditions.isTrue .helmReleaseProxiesRolloutCompleted = true := by
  suffices done : ((Store.rolloutRound env st)^[j] s).Completed p.spec s.selected.length by
    obtain ⟨q, hq, -, completed⟩ := done.proxy
    exact ⟨q, hq, completed⟩
  obtain ⟨m, rfl⟩ : ∃ m, j = m + 1 := ⟨j - 1, by omega⟩
  rw [Function.iterate_succ_apply]
  rcases Nat.eq_zero_or_pos s.selected.length with hnil | hpos
  · exact hnil ▸ (Store.Completed.initial hi hp hr ho hsel hnil st hclear).rounds hr ho hsel st hclear m
  have ⟨first, selected₁⟩ : (s.rolloutRound env st).FirstBatch p.spec st ini inc (min ini.toNat s.selected.length) ∧
      (s.rolloutRound env st).selected = s.selected := Store.FirstBatch.initial hi hp hr ho hsel hini hini1 hinc0 hpos hclear
  obtain ⟨m, rfl⟩ : ∃ m', m = m' + 1 := ⟨m - 1, by omega⟩
  rw [Function.iterate_succ_apply]
  by_cases hk₀ : min ini.toNat s.selected.length < s.selected.length
  · obtain ⟨rolling, selected₂⟩ := first.round (by omega) (selected₁ ▸ hk₀) hr ho hsel hst hclear
    have same := selected₂.trans selected₁
    rw [← same] at hinc hlim hini hwrap hN ⊢
    exact rolling.completes (by rw [same]; omega) hr ho hsel hinc hinc0 hlim (resolveStep_of_getScaled hini) hini1
      hwrap hN hst hclear (by rw [same]; omega)
  · have e : min ini.toNat s.selected.length = s.selected.length := by omega
    rw [e] at first
    obtain ⟨q, hq, hq', -⟩ := first.proxy
    exact (Store.completed_round first.inv (by rw [selected₁]) hq hq'.toAtCount hr ho hsel st hclear).rounds
      hr ho hsel st hclear m

/-- Two clusters, a first step of one and an increment of one: four rounds complete the rollout. --/
theorem freshFleet_rollout_completes :
    ∃ q, ((Store.rolloutRound {} ⟨releaseConditions true, 1⟩)^[4] freshFleet).proxy = some q ∧
      q.status.conditions.isTrue .helmReleaseProxiesRolloutCompleted = true :=
  rollout_completes (s := freshFleet) (j := 4) ⟨rfl, _, rfl, rfl, rfl, rfl, rfl⟩ rfl rfl rfl rfl rfl (by decide) rfl rfl
    (by decide) (by decide) (by decide) ⟨by rfl, by rfl, by rfl⟩ Faults.clear_empty (by decide)

end Progress

end HelmAddon
