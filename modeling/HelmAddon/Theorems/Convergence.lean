import HelmAddon.Theorems.PassWrites

/-! Convergence of a pass. On a live HelmChartProxy without rollout options, a pass in which every
    call succeeds brings the releases to what the selection asks for. Every selected cluster has a
    release with the spec the HelmChartProxy wants there. Unless the strategy is InstallOnce, every
    release left is on a selected cluster or marked for deletion. The pass is taken apart in the
    stages it runs. The orphan Deletes run over a listing of every release, and leave off the selection
    only marked releases (`pruned_foldl_deleted`). The writes give each cluster its desired release and
    keep the others (`desired_foldl_applyRelease`). The stages around them write no release. A store
    that is converged already is left as it is (`pass_converged_keeps_releases`). On a HelmChartProxy
    marked for deletion the same kind of pass marks every release (`Store.pass_marked`), and once the
    HelmReleaseProxy controller has cleared their finalizers, the next pass leaves no release and
    takes the finalizer off (`teardown_completes`). -/

namespace HelmAddon

/-! ### The writes of reconcileForCluster, per cluster -/

namespace HelmReleaseProxy

variable (h : HelmReleaseProxy)

@[simp] theorem deletionTimestamp_markDeleted : h.markDeleted.deletionTimestamp = true := by cases h; rfl

@[simp] theorem finalizers_markDeleted : h.markDeleted.finalizers = h.finalizers := by cases h; rfl

@[simp] theorem finalizers_updateSpec (sp : HelmReleaseProxySpec) : (h.updateSpec sp).finalizers = h.finalizers := by
  cases h
  simp only [updateSpec]
  split <;> rfl

/-- A release already marked for deletion is left as it is by a second mark. --/
theorem markDeleted_of_marked (hd : h.deletionTimestamp = true) : h.markDeleted = h := by
  cases h
  cases hd
  rfl

/-- An update to the spec a release already has leaves it as it is. --/
theorem updateSpec_of_spec {sp : HelmReleaseProxySpec} (hs : h.spec = sp) : h.updateSpec sp = h := by
  cases h
  cases hs
  simp [updateSpec]

end HelmReleaseProxy

namespace HelmChartProxy

variable (p : HelmChartProxy)

@[simp] theorem spec_summarized : p.summarized.spec = p.spec := by cases p; rfl

end HelmChartProxy

namespace Store

variable {s : Store} {p : HelmChartProxy} {cl x : Cluster}

/-- A release of the store targets the cluster and has the spec the HelmChartProxy wants there. --/
def Desired (s : Store) (p : HelmChartProxy) (x : Cluster) : Prop :=
  ∃ h ∈ s.releases, h.clusterKey = x.key ∧ h.spec = desiredSpec p x

/-- The write for a cluster leaves it with its desired release: the one it had, updated, or a new one. --/
theorem desired_applyRelease : (s.applyRelease p cl).Desired p cl := by
  unfold applyRelease
  split
  · obtain ⟨h, mem, hfor⟩ := List.any_eq_true.mp ‹_›
    exact ⟨_, List.mem_map_of_mem _ mem, by simp only [hfor, if_true, clusterKey_updateSpec_desired],
      by simp only [hfor, if_true, HelmReleaseProxy.spec_updateSpec]⟩
  · exact ⟨_, List.mem_append_right _ (List.mem_singleton_self _), rfl, rfl⟩

/-- The write for one cluster leaves the release of another as it is. --/
theorem Desired.applyRelease {q : HelmChartProxy} (hd : s.Desired p x) (hne : cl.key ≠ x.key) :
    (s.applyRelease q cl).Desired p x := by
  obtain ⟨h, mem, hk, hs⟩ := hd
  have other : isReleaseFor q cl h = false := by simp [isReleaseFor, hk, Ne.symm hne]
  unfold Store.applyRelease
  split
  · exact ⟨h, List.mem_map.mpr ⟨h, mem, by rw [other]; rfl⟩, hk, hs⟩
  · exact ⟨h, List.mem_append_left _ mem, hk, hs⟩

theorem Desired.foldl_applyRelease {q : HelmChartProxy} {L : List Cluster} (hd : s.Desired p x)
    (hL : ∀ y ∈ L, y.key ≠ x.key) : (L.foldl (·.applyRelease q ·) s).Desired p x := by
  induction L generalizing s with
  | nil => exact hd
  | cons y L ih =>
    exact ih (hd.applyRelease (hL y (List.mem_cons_self _ _))) fun z mem => hL z (List.mem_cons_of_mem _ mem)

variable (p) in
/-- The writes for clusters of distinct namespaced names leave each with its desired release. --/
theorem desired_foldl_applyRelease (L : List Cluster) (hL : (L.map Cluster.key).Nodup) :
    ∀ x ∈ L, (L.foldl (·.applyRelease p ·) s).Desired p x := by
  induction L generalizing s with
  | nil => intro x mem; cases mem
  | cons y L ih =>
    rw [List.map_cons, List.nodup_cons] at hL
    rintro x (_ | ⟨_, mem⟩)
    · exact desired_applyRelease.foldl_applyRelease fun z mem e => hL.1 (e ▸ List.mem_map_of_mem _ mem)
    · exact ih hL.2 x mem

/-- Every release of the store is marked for deletion or targets one of the clusters `S`. --/
def Pruned (s : Store) (S : List Cluster) : Prop :=
  ∀ h ∈ s.releases, h.deletionTimestamp = true ∨ ∃ y ∈ S, y.key = h.clusterKey

/-- A write for a cluster of `S` keeps the store pruned to `S`. --/
theorem Pruned.applyRelease {S : List Cluster} (hs : s.Pruned S) (hcl : cl ∈ S) : (s.applyRelease p cl).Pruned S :=
  forall_applyRelease hs (fun _ _ => .inr ⟨cl, hcl, (clusterKey_updateSpec_desired _).symm⟩)
    fun _ => .inr ⟨cl, hcl, rfl⟩

theorem Pruned.foldl_applyRelease {S L : List Cluster} (hs : s.Pruned S) (hL : ∀ cl ∈ L, cl ∈ S) :
    (L.foldl (·.applyRelease p ·) s).Pruned S := by
  induction L generalizing s with
  | nil => exact hs
  | cons cl L ih =>
    exact ih (hs.applyRelease (hL cl (List.mem_cons_self _ _))) fun y mem => hL y (List.mem_cons_of_mem _ mem)

end Store

/-! ### The Delete of the orphans -/

open Pass

/-- A Delete that finds no release changes nothing. --/
theorem Store.filterMap_afterDelete_of_none {s : Store} {key : ObjectKey} (e : s.deleteRelease key = none) :
    s.releases.filterMap (Store.afterDelete key) = s.releases := by
  unfold Store.deleteRelease at e
  split at e
  · rename_i hnone
    refine (List.filterMap_congr fun h mem => ?_).trans (List.filterMap_some _)
    have hk : h.key ≠ key := by simpa using List.find?_eq_none.mp hnone h mem
    simp [Store.afterDelete, hk]
  · cases e

/-- The context after deleteHelmReleaseProxy when the Delete call succeeds: one outcome is consumed,
    and the release is removed or marked, or nothing changes when it is gone already. --/
def Ctx.deleted (c : Ctx) (h : HelmReleaseProxy) : Ctx :=
  (c.setFaults (c.faults.next .delete).2).setStore
    (c.store.setReleases (c.store.releases.filterMap (Store.afterDelete h.key)))

namespace Ctx

variable {c : Ctx} (h : HelmReleaseProxy)

@[simp] theorem deleted_proxy : (c.deleted h).proxy = c.proxy := rfl
@[simp] theorem deleted_faults : (c.deleted h).faults = (c.faults.next .delete).2 := rfl
@[simp] theorem deleted_releases :
    (c.deleted h).store.releases = c.store.releases.filterMap (Store.afterDelete h.key) := rfl

end Ctx

variable {c : Ctx}

theorem deleteHelmReleaseProxy_ok (release : HelmReleaseProxy) (h : c.faults.Succeeds .delete) :
    deleteHelmReleaseProxy release c = (c.deleted release, .ok ()) := by
  unfold deleteHelmReleaseProxy
  rw [Pass.tryCatch_apply, deleteRelease_ok _ h]
  cases hd : c.store.deleteRelease release.key with
  | none =>
    simp only [Ctx.deleted, Store.filterMap_afterDelete_of_none hd, pure_apply, Prod.mk.injEq, and_true]
    cases c; rfl
  | some s' => rw [Store.deleteRelease_eq_some hd]; rfl

theorem forM_deleteHelmReleaseProxy (releases : List HelmReleaseProxy) (h : c.faults.Clear) :
    releases.forM deleteHelmReleaseProxy c = (releases.foldl Ctx.deleted c, .ok ()) := by
  induction releases generalizing c with
  | nil => rfl
  | cons release releases ih =>
    simp only [List.forM_cons', bind_apply, deleteHelmReleaseProxy_ok release (h .delete), List.foldl_cons]
    exact ih (c := c.deleted release) (h.next .delete)

theorem Ctx.foldl_deleted_clear (releases : List HelmReleaseProxy) (h : c.faults.Clear) :
    (releases.foldl Ctx.deleted c).faults.Clear := by
  induction releases generalizing c with
  | nil => exact h
  | cons release releases ih => exact ih (h.next .delete)

@[simp] theorem Ctx.foldl_deleted_proxy (releases : List HelmReleaseProxy) :
    (releases.foldl Ctx.deleted c).proxy = c.proxy := by
  induction releases generalizing c <;> simp [*]

/-- What one Delete does to a release: it goes or is marked when the key is its own, and is left as it
    is otherwise. --/
theorem Store.afterDelete_cases {key : ObjectKey} {h h' : HelmReleaseProxy} (e : Store.afterDelete key h = some h') :
    (h' = h ∧ h.key ≠ key) ∨ (h' = h.markDeleted ∧ h.finalizers ≠ []) := by
  unfold Store.afterDelete at e
  split at e
  · split at e
    · cases e
    · rename_i hf
      cases e
      exact .inr ⟨rfl, fun hnil => hf (by rw [hnil]; rfl)⟩
  · cases e; exact .inl ⟨rfl, ‹_›⟩

/-- After Deletes of the releases `os`, each release left comes from one before, with its key and
    cluster, and is marked for deletion unless it was so already or its key was never deleted. --/
theorem foldl_deleted_origin (os : List HelmReleaseProxy) :
    ∀ h' ∈ (os.foldl Ctx.deleted c).store.releases, ∃ h ∈ c.store.releases, h'.key = h.key ∧
      h'.clusterKey = h.clusterKey ∧ (h'.deletionTimestamp = true ∨
        h'.deletionTimestamp = h.deletionTimestamp ∧ h.key ∉ os.map HelmReleaseProxy.key) := by
  induction os generalizing c with
  | nil => exact fun h' mem => ⟨h', mem, rfl, rfl, .inr ⟨rfl, List.not_mem_nil _⟩⟩
  | cons o os ih =>
    intro h' mem
    obtain ⟨h₁, mem₁, k₁, ck₁, d₁⟩ := ih h' mem
    obtain ⟨h, mem, e⟩ := List.mem_filterMap.mp mem₁
    rcases Store.afterDelete_cases e with ⟨rfl, hne⟩ | ⟨rfl, -⟩
    · refine ⟨h₁, mem, k₁, ck₁, d₁.imp_right fun ⟨dt, hn⟩ => ⟨dt, ?_⟩⟩
      simpa only [List.map_cons, List.mem_cons, not_or] using ⟨hne, hn⟩
    · refine ⟨h, mem, k₁.trans h.markDeleted_key, ck₁.trans h.clusterKey_markDeleted, .inl ?_⟩
      rcases d₁ with d₁ | ⟨d₁, -⟩ <;> simpa using d₁

/-- The orphan Deletes over a listing of every release leave each release marked for deletion or on
    one of the clusters. --/
theorem pruned_foldl_deleted {cs : List Cluster} {rl : List HelmReleaseProxy}
    (hrl : ∀ h ∈ c.store.releases, h ∈ rl) : ((rl.filter (isOrphan cs)).foldl Ctx.deleted c).store.Pruned cs := by
  intro h' mem
  obtain ⟨h, mem, -, ck, d⟩ := foldl_deleted_origin _ h' mem
  refine d.imp_right fun ⟨_, hn⟩ => ?_
  have kept : isOrphan cs h = false := by
    by_contra orphan
    exact hn (List.mem_map_of_mem _ (List.mem_filter.mpr ⟨hrl h mem, by simpa using orphan⟩))
  obtain ⟨y, mem_y, hy⟩ : ∃ y ∈ cs, y.key = h.clusterKey := by simpa [isOrphan] using kept
  exact ⟨y, mem_y, hy.trans ck.symm⟩

/-! ### A pass without faults and without rollout -/

theorem Store.Desired.of_spec {s : Store} {p q : HelmChartProxy} {x : Cluster} (hd : s.Desired q x)
    (h : q.spec = p.spec) : s.Desired p x := by
  obtain ⟨r, mem, hk, hs⟩ := hd
  exact ⟨r, mem, hk, by rw [hs, Store.desiredSpec, Store.desiredSpec, h]⟩

theorem reconcileWithoutRollout_ok (cs : List Cluster) (hc : c.faults.Clear) :
    ∃ c', reconcileWithoutRollout cs c = (c', .ok {}) ∧ c'.faults.Clear ∧
      c'.store = cs.foldl (·.applyRelease c.proxy ·) c.store := by
  simp only [reconcileWithoutRollout, bind_apply, modifyConditions, modifyProxy_apply,
    forM_reconcileForCluster (c := c.modifyProxy _) cs (hc .apply), pure_apply]
  exact ⟨_, rfl, fun k => Ctx.foldl_applied_succeeds _ (hc k), by simp [Ctx.foldl_applied_store]⟩

/-- reconcileNormal without rollout options and without faults: the orphans are deleted (unless the
    strategy is InstallOnce), then every cluster is written, and the pass goes on. --/
theorem reconcileNormal_eq (cs : List Cluster) (rs : List HelmReleaseProxy) (hro : c.proxy.spec.rollout = none)
    (hc : c.faults.Clear) :
    ∃ c', reconcileNormal cs rs c = (c', .ok {}) ∧ c'.faults.Clear ∧
      c'.store = cs.foldl (·.applyRelease c.proxy ·)
        (if c.proxy.spec.reconcileStrategy ≠ reconcileStrategyInstallOnce then
          ((rs.filter (isOrphan cs)).foldl Ctx.deleted c).store else c.store) := by
  simp only [reconcileNormal, bind_apply, getProxy_apply]
  by_cases hs : c.proxy.spec.reconcileStrategy ≠ reconcileStrategyInstallOnce
  · rw [if_pos hs, bind_apply, deleteOrphanedHelmReleaseProxies, forM_deleteHelmReleaseProxy _ hc]
    simp only [hro, if_pos hs]
    obtain ⟨c', e, hc', hst⟩ := reconcileWithoutRollout_ok cs (Ctx.foldl_deleted_clear (rs.filter (isOrphan cs)) hc)
    exact ⟨c', e, hc', by rw [hst, Ctx.foldl_deleted_proxy]⟩
  · rw [if_neg hs, bind_apply]
    simp only [pure_apply, hro, if_neg hs]
    exact reconcileWithoutRollout_ok cs hc

theorem aggregateHelmReleaseProxyReadyCondition_ok (h : c.faults.Succeeds .list) :
    ∃ c', aggregateHelmReleaseProxyReadyCondition c = (c', .ok ()) ∧ c'.store = c.store := by
  simp only [aggregateHelmReleaseProxyReadyCondition, listInstalledReleases, bind_apply, getProxy_apply,
    listReleases_ok _ _ h]
  split
  · exact ⟨_, rfl, rfl⟩
  · split <;> exact ⟨_, rfl, rfl⟩

/-- A patch of a stored HelmChartProxy that succeeds writes nothing but the HelmChartProxy. --/
theorem patchHelmChartProxy_ok {q : HelmChartProxy} (h : c.faults.Succeeds .patch) (hq : c.store.proxy = some q) :
    ∃ c', patchHelmChartProxy c = (c', .ok ()) ∧ c'.faults = (c.faults.next .patch).2 ∧
      c'.proxy = c.proxy.summarized ∧ c'.store.releases = c.store.releases := by
  rw [patchHelmChartProxy_eq, patchProxy_ok (c := c.modifyProxy _) h]
  simp only [Store.patchProxy, Ctx.modifyProxy_store, hq, Ctx.modifyProxy_proxy]
  exact ⟨_, rfl, rfl, rfl, rfl⟩

section Live

variable (cs : List Cluster) (rs : List HelmReleaseProxy)

/-- The live branch without faults registers the finalizer if it is missing, which writes no release
    and keeps the namespace, name and spec of the object, and goes on with reconcileNormal. --/
theorem reconcileLive_registered (hc : c.faults.Clear) {q : HelmChartProxy} (hq : c.store.proxy = some q) :
    ∃ c₃ : Ctx, c₃.faults.Clear ∧ c₃.proxy.key = c.proxy.key ∧ c₃.proxy.spec = c.proxy.spec ∧
      c₃.store.releases = c.store.releases ∧
      reconcileLive cs rs c = (do
        let res ← reconcileNormal cs rs
        modifyConditions (·.markTrue .helmReleaseProxySpecsUpToDate)
        aggregateHelmReleaseProxyReadyCondition
        return res : Pass Result) c₃ := by
  simp only [reconcileLive, bind_apply, getProxy_apply]
  split
  · rw [bind_apply, modifyProxy_apply]
    dsimp only
    rw [bind_apply]
    obtain ⟨c₃, e₃, hf₃, hp₃, hr₃⟩ := patchHelmChartProxy_ok (c := c.modifyProxy
      fun p => p.setFinalizers (p.finalizers ++ [helmChartProxyFinalizer])) (hc .patch) hq
    rw [e₃]
    exact ⟨c₃, hf₃ ▸ hc.next .patch, by rw [hp₃]; rfl, by simp [hp₃], hr₃, rfl⟩
  · exact ⟨c, hc, rfl, rfl, rfl, rfl⟩

/-- After reconcileNormal the live branch changes only the in-memory object, when the listing of
    the aggregation succeeds. --/
theorem reconcileLive_rest {c₃ c₄ : Ctx} {r : Result} (e : reconcileNormal cs rs c₃ = (c₄, .ok r))
    (h : c₄.faults.Succeeds .list) :
    ∃ c', (do
        let res ← reconcileNormal cs rs
        modifyConditions (·.markTrue .helmReleaseProxySpecsUpToDate)
        aggregateHelmReleaseProxyReadyCondition
        return res : Pass Result) c₃ = (c', .ok r) ∧ c'.store = c₄.store := by
  obtain ⟨c', e', store⟩ := aggregateHelmReleaseProxyReadyCondition_ok
    (c := c₄.modifyProxy (·.modifyStatus (·.modifyConditions (·.markTrue .helmReleaseProxySpecsUpToDate)))) h
  exact ⟨c', by simp only [bind_apply, e, modifyConditions, modifyProxy_apply, e', pure_apply], store⟩

/-- The live branch without rollout options and without faults returns an empty result. Each cluster
    is left with its desired release. With the orphans deleted from a listing of every release, every
    release left is marked for deletion or on one of the clusters. --/
theorem reconcileLive_ok (hro : c.proxy.spec.rollout = none) (hc : c.faults.Clear) (hd : (cs.map Cluster.key).Nodup)
    {q : HelmChartProxy} (hq : c.store.proxy = some q) :
    ∃ c', reconcileLive cs rs c = (c', .ok {}) ∧ (∀ x ∈ cs, c'.store.Desired c.proxy x) ∧
      (c.proxy.spec.reconcileStrategy ≠ reconcileStrategyInstallOnce → (∀ h ∈ c.store.releases, h ∈ rs) →
        c'.store.Pruned cs) := by
  obtain ⟨c₃, hc₃, -, spec, same, e⟩ := reconcileLive_registered cs rs hc hq
  obtain ⟨c₄, e₄, hc₄, st⟩ := reconcileNormal_eq cs rs (spec ▸ hro) hc₃
  obtain ⟨c', e', store⟩ := reconcileLive_rest cs rs e₄ (hc₄ .list)
  refine ⟨c', e.trans e', fun x mem => ?_, fun hs hrl => ?_⟩
  · rw [store, st]
    exact (Store.desired_foldl_applyRelease _ cs hd x mem).of_spec spec
  · rw [store, st, if_pos (spec ▸ hs)]
    exact (pruned_foldl_deleted (same ▸ hrl)).foldl_applyRelease fun _ => id

end Live

/-! ### A whole pass -/

/-- The deferred patch writes no release, whether it succeeds or not. --/
theorem patchHelmChartProxy_releases (c : Ctx) : (patchHelmChartProxy c).1.store.releases = c.store.releases := by
  rw [patchHelmChartProxy_eq]
  exact preserves_patchProxy (P := fun s _ => s.releases = c.store.releases)
    (fun h e => (Store.patchProxy_releases e).trans h) _ rfl

/-- A pass over a stored HelmChartProxy whose selector converts, in which every call succeeds, runs the
    branch its deletion mark picks on the stored object's selection and listing; the deferred patch
    after it writes no release. --/
theorem Store.pass_listed {s : Store} {env : Env} {p : HelmChartProxy} {sel : Selector} (hp : s.proxy = some p)
    (hsel : labelSelectorAsSelector p.spec.clusterSelector = .ok sel) (hclear : env.faults.Clear) :
    ∃ c, c.faults.Clear ∧ c.store = s ∧ c.proxy.key = p.key ∧ c.proxy.spec = p.spec ∧
      c.proxy.finalizers = p.finalizers ∧
      (s.pass env).2 = ((if p.deletionTimestamp then reconcileDeleting (s.listReleases p.namespace (ownerLabels p))
        else reconcileLive (s.listClusters p.namespace sel) (s.listReleases p.namespace (ownerLabels p))) c).2 ∧
      (s.pass env).1.store.releases = ((if p.deletionTimestamp then reconcileDeleting (s.listReleases p.namespace (ownerLabels p))
        else reconcileLive (s.listClusters p.namespace sel) (s.listReleases p.namespace (ownerLabels p))) c).1.store.releases ∧
      (s.pass env).1 = (patchHelmChartProxy ((if p.deletionTimestamp then
        reconcileDeleting (s.listReleases p.namespace (ownerLabels p))
        else reconcileLive (s.listClusters p.namespace sel) (s.listReleases p.namespace (ownerLabels p))) c).1).1 ∧
      c.proxy = p.modifyStatus (·.setMatchingClusters ((s.listClusters p.namespace sel).map Cluster.ref)) := by
  have hc : (Ctx.init s env).faults.Clear := hclear
  have fetch : getHelmChartProxy (Ctx.init s env) =
      ((Ctx.init s env).setFaults ((Ctx.init s env).faults.next .get).2, .ok (some p)) := by
    rw [getHelmChartProxy_ok (hc .get), show (Ctx.init s env).store.proxy = some p from hp]
  rw [Store.pass, reconcile_fetched fetch, reconcileFetched_listed (by simpa using hsel) ((hc.next .get) .list)]
  exact ⟨_, ((hc.next .get).next .list).next .list, rfl, rfl, by simp, by cases p; rfl, rfl,
    patchHelmChartProxy_releases _, rfl, rfl⟩

variable {s : Store} {env : Env} {p : HelmChartProxy} {sel : Selector}

/-- A pass without faults over a live HelmChartProxy without rollout options gives every selected
    cluster a release with the spec the HelmChartProxy wants there, and returns without requeueing. --/
theorem pass_writes_desired_releases (hp : s.proxy = some p) (hlive : p.deletionTimestamp = false)
    (hro : p.spec.rollout = none) (hsel : labelSelectorAsSelector p.spec.clusterSelector = .ok sel)
    (hclear : env.faults.Clear) :
    (s.pass env).2 = .ok {} ∧
      ∀ x ∈ s.selected, ∃ h ∈ (s.pass env).1.store.releases, h.clusterKey = x.key ∧ h.spec = Store.desiredSpec p x := by
  obtain ⟨c, hc, rfl, -, spec, -, result, releases, -⟩ := Store.pass_listed hp hsel hclear
  simp only [hlive, Bool.false_eq_true, if_false] at result releases
  rw [Store.selected_of_frame (by rw [hp]; rfl) hsel]
  obtain ⟨c', e, desired, -⟩ := reconcileLive_ok (c.store.listClusters p.namespace sel) (c.store.listReleases p.namespace (ownerLabels p)) (spec ▸ hro) hc
    (((List.filter_sublist _).map _).nodup c.store.clusters.distinct) hp
  refine ⟨by rw [result, e], fun x mem => ?_⟩
  obtain ⟨h, mem', hk, hs⟩ := (desired x mem).of_spec spec
  exact ⟨h, by rw [releases, e]; exact mem', hk, hs⟩

theorem plainFleet_pass_writes_desired_releases :
    (plainFleet.pass {}).2 = .ok {} ∧ ∀ x ∈ plainFleet.selected, ∃ h ∈ (plainFleet.pass {}).1.store.releases,
      h.clusterKey = x.key ∧ h.spec = Store.desiredSpec (nginxProxy none) x :=
  pass_writes_desired_releases rfl rfl rfl rfl Faults.clear_empty

/-- A pass without faults over a live HelmChartProxy without rollout options, unless its strategy is
    InstallOnce, leaves every release of a reachable store marked for deletion or on a selected
    cluster: the orphans it lists are all of them. --/
theorem pass_prunes_orphans (hr : Reachable s) (hp : s.proxy = some p) (hlive : p.deletionTimestamp = false)
    (hro : p.spec.rollout = none) (hsel : labelSelectorAsSelector p.spec.clusterSelector = .ok sel)
    (hclear : env.faults.Clear) (hstrat : p.spec.reconcileStrategy ≠ reconcileStrategyInstallOnce) :
    ∀ h ∈ (s.pass env).1.store.releases, h.deletionTimestamp = true ∨ ∃ x ∈ s.selected, x.key = h.clusterKey := by
  have hg := hr.safe.guarded hp
  obtain ⟨c, hc, rfl, -, spec, -, -, releases, -⟩ := Store.pass_listed hp hsel hclear
  simp only [hlive, Bool.false_eq_true, if_false] at releases
  rw [Store.selected_of_frame (by rw [hp]; rfl) hsel, releases]
  obtain ⟨c', e, -, pruned⟩ := reconcileLive_ok (c.store.listClusters p.namespace sel) (c.store.listReleases p.namespace (ownerLabels p)) (spec ▸ hro) hc
    (((List.filter_sublist _).map _).nodup c.store.clusters.distinct) hp
  rw [e]
  exact pruned (spec ▸ hstrat) fun h mem => (hg.owned h mem).mem_listReleases mem

/-- The fleet after a first pass, once the release on b holds a finalizer and b leaves the
    selection. --/
def shrunkFleet : Store :=
  plainFleet.run [.reconcile {}, .updateRelease ⟨"default", "nginx-b-1"⟩ {} ["finalizer"],
    .setClusters ⟨[prodCluster "a"], by decide⟩]

theorem shrunkFleet_pass_prunes_orphans :
    Reachable shrunkFleet ∧ ∀ h ∈ (shrunkFleet.pass {}).1.store.releases,
      h.deletionTimestamp = true ∨ ∃ x ∈ shrunkFleet.selected, x.key = h.clusterKey :=
  have hr : Reachable shrunkFleet := (Reachable.init ⟨rfl, _, rfl, rfl, rfl, rfl, rfl⟩).run _
  ⟨hr, pass_prunes_orphans hr rfl rfl rfl rfl Faults.clear_empty (by decide)⟩

/-! ### Releases marked for deletion -/

namespace Store

@[simp] theorem editSpec_releases (s : Store) (spec : HelmChartProxySpec) : (s.editSpec spec).releases = s.releases := by
  unfold editSpec
  split
  · rfl
  · split <;> rfl

@[simp] theorem deleteProxy_releases (s : Store) : s.deleteProxy.releases = s.releases := by
  unfold deleteProxy
  split <;> rfl

/-- Every release marked for deletion still has finalizers: the API server removes one that has
    none. --/
def MarkedHeld (s : Store) : Prop :=
  ∀ h ∈ s.releases, h.deletionTimestamp = true → h.finalizers ≠ []

namespace MarkedHeld

variable {s t : Store}

theorem of_releases (hs : s.MarkedHeld) (hr : t.releases = s.releases) : t.MarkedHeld := fun h mem =>
  hs h (hr ▸ mem)

theorem applyRelease (hs : s.MarkedHeld) (p : HelmChartProxy) (cl : Cluster) : (s.applyRelease p cl).MarkedHeld :=
  forall_applyRelease hs (fun h mem => by simpa using hs h mem) fun _ d => by simp [newRelease] at d

/-- A Delete marks only a release that has finalizers. --/
theorem deleteRelease {key : ObjectKey} (hs : s.MarkedHeld) (e : s.deleteRelease key = some t) : t.MarkedHeld := by
  rw [deleteRelease_eq_some e]
  intro h' mem d
  obtain ⟨h, mem, e⟩ := List.mem_filterMap.mp mem
  rcases afterDelete_cases e with ⟨rfl, -⟩ | ⟨rfl, hf⟩
  · exact hs h' mem d
  · simpa using hf

/-- The HelmReleaseProxy controller removes a release marked for deletion once it clears its
    finalizers. --/
theorem updateRelease (hs : s.MarkedHeld) (key : ObjectKey) (status : HelmReleaseProxyStatus)
    (finalizers : List String) : (s.updateRelease key status finalizers).MarkedHeld := by
  intro h' mem d
  obtain ⟨h, mem, e⟩ := List.mem_filterMap.mp mem
  split at e
  · split at e
    · cases e
    · rename_i hkeep
      cases e
      have hd : h.deletionTimestamp = true := by simpa [HelmReleaseProxy.setStatus] using d
      simpa [HelmReleaseProxy.setStatus, hd] using hkeep
  · cases e
    exact hs _ mem d

theorem step (hs : s.MarkedHeld) : ∀ e : Event, (s.step e).MarkedHeld
  | .reconcile env => Store.pass_keeps (fun p cl h => h.applyRelease p cl) (fun _ h e => h.deleteRelease e)
      (fun _ h e => h.of_releases (Store.patchProxy_releases e)) hs env
  | .setClusters _ => hs.of_releases rfl
  | .editSpec spec => hs.of_releases (s.editSpec_releases spec)
  | .deleteProxy => hs.of_releases s.deleteProxy_releases
  | .updateRelease key status finalizers => hs.updateRelease key status finalizers

end MarkedHeld

end Store

theorem Reachable.markedHeld {s : Store} (hr : Reachable s) : s.MarkedHeld := by
  induction hr with
  | init h => intro r mem; rw [h.1] at mem; cases mem
  | step e _ ih => exact ih.step e

/-! ### A converged store is a fixpoint -/

/-- Deletes of releases whose namesakes are all marked for deletion and still held leave the releases
    as they are. --/
theorem foldl_deleted_releases_eq (os : List HelmReleaseProxy)
    (hos : ∀ o ∈ os, ∀ h ∈ c.store.releases, h.key = o.key → h.deletionTimestamp = true ∧ h.finalizers ≠ []) :
    (os.foldl Ctx.deleted c).store.releases = c.store.releases := by
  induction os generalizing c with
  | nil => rfl
  | cons o os ih =>
    have same : (c.deleted o).store.releases = c.store.releases := by
      rw [Ctx.deleted_releases]
      refine (List.filterMap_congr fun h mem => ?_).trans (List.filterMap_some _)
      unfold Store.afterDelete
      split
      · obtain ⟨d, hf⟩ := hos o (List.mem_cons_self _ _) h mem ‹_›
        rw [if_neg (by simpa [List.isEmpty_iff] using hf), h.markDeleted_of_marked d]
      · rfl
    rw [List.foldl_cons, ih fun o' mem' h mem => hos o' (List.mem_cons_of_mem _ mem') h (same ▸ mem), same]

section Fixpoint

variable {q : HelmChartProxy} (hb : ∀ h ∈ s.releases, BelongsTo q h)
  (hu : (s.releases.map HelmReleaseProxy.clusterKey).Nodup)
include hb hu

/-- The write for a cluster whose release already has the desired spec changes nothing: the release
    the label lookup finds is that one. --/
theorem Store.applyRelease_of_desired {x : Cluster} (hd : s.Desired q x) : s.applyRelease q x = s := by
  obtain ⟨h₀, mem₀, hk₀, hs₀⟩ := hd
  have found : s.releases.any (isReleaseFor q x) = true :=
    List.any_eq_true.mpr ⟨h₀, mem₀, by simp [(hb h₀ mem₀).isReleaseFor_eq, hk₀]⟩
  have kept : ∀ h ∈ s.releases, (if isReleaseFor q x h then h.updateSpec (desiredSpec q x) else h) = h := by
    intro h mem
    rw [(hb h mem).isReleaseFor_eq]
    split
    · obtain rfl : h = h₀ := List.inj_on_of_nodup_map hu mem mem₀ ((beq_iff_eq.mp ‹_›).trans hk₀.symm)
      exact h.updateSpec_of_spec hs₀
    · rfl
  unfold Store.applyRelease
  rw [if_pos found, List.map_congr_left kept, List.map_id']
  cases s; rfl

theorem Store.foldl_applyRelease_of_desired (L : List Cluster) (hd : ∀ x ∈ L, s.Desired q x) :
    L.foldl (·.applyRelease q ·) s = s := by
  induction L with
  | nil => rfl
  | cons x L ih =>
    rw [List.foldl_cons, Store.applyRelease_of_desired hb hu (hd x (List.mem_cons_self _ _))]
    exact ih fun y mem => hd y (List.mem_cons_of_mem _ mem)

end Fixpoint

/-- A pass without faults over a live HelmChartProxy without rollout options changes no release of a
    converged reachable store: one in which every selected cluster has its desired release, every
    other release is marked for deletion, and release names are distinct. The controller does not
    churn once the releases match the selection. --/
theorem pass_converged_keeps_releases (hr : Reachable s) (hp : s.proxy = some p) (hlive : p.deletionTimestamp = false)
    (hro : p.spec.rollout = none) (hsel : labelSelectorAsSelector p.spec.clusterSelector = .ok sel)
    (hclear : env.faults.Clear) (hkeys : (s.releases.map HelmReleaseProxy.key).Nodup)
    (hdes : ∀ x ∈ s.selected, ∃ h ∈ s.releases, h.clusterKey = x.key ∧ h.spec = Store.desiredSpec p x)
    (hpruned : ∀ h ∈ s.releases, h.deletionTimestamp = true ∨ ∃ x ∈ s.selected, x.key = h.clusterKey) :
    (s.pass env).1.store.releases = s.releases := by
  have hg := hr.safe.guarded hp
  have held := hr.markedHeld
  obtain ⟨c, hc, rfl, key, spec, -, -, releases, -⟩ := Store.pass_listed hp hsel hclear
  simp only [hlive, Bool.false_eq_true, if_false] at releases
  rw [Store.selected_of_frame (by rw [hp]; rfl) hsel] at hdes hpruned
  obtain ⟨c₃, hc₃, key₃, spec₃, same, e⟩ :=
    reconcileLive_registered (c.store.listClusters p.namespace sel) (c.store.listReleases p.namespace (ownerLabels p)) hc hp
  obtain ⟨c₄, e₄, hc₄, st⟩ := reconcileNormal_eq _ _ (spec₃.trans spec ▸ hro) hc₃
  obtain ⟨c', e', store⟩ := reconcileLive_rest _ _ e₄ (hc₄ .list)
  rw [releases, e, e', store, st]
  -- The orphans it deletes are marked for deletion and still held, and each is the only release of its name.
  have stage : (if c₃.proxy.spec.reconcileStrategy ≠ reconcileStrategyInstallOnce then
      (((c.store.listReleases p.namespace (ownerLabels p)).filter
        (isOrphan (c.store.listClusters p.namespace sel))).foldl Ctx.deleted c₃).store
      else c₃.store).releases = c.store.releases := by
    split
    · refine (foldl_deleted_releases_eq _ fun o mem h memh hk => ?_).trans same
      obtain ⟨listed, orphan⟩ := List.mem_filter.mp mem
      have memo : o ∈ c.store.releases := List.mem_of_mem_filter listed
      obtain rfl : h = o := List.inj_on_of_nodup_map hkeys (same ▸ memh) memo hk
      have off : ¬∃ x ∈ c.store.listClusters p.namespace sel, x.key = h.clusterKey := by
        simpa [isOrphan] using orphan
      have d := (hpruned h memo).resolve_right off
      exact ⟨d, held h memo d⟩
    · exact same
  rw [Store.foldl_applyRelease_of_desired (fun h mem => (hg.owned h (stage ▸ mem)).of_key (key₃.trans key))
    (stage ▸ hg.unique) _ fun x mem => ?_, stage]
  obtain ⟨h, memh, hk, hs⟩ := hdes x mem
  exact Store.Desired.of_spec ⟨h, stage.symm ▸ memh, hk, hs⟩ (spec₃.trans spec).symm

/-- The fleet after the pass that pruned b: a's release is desired and b's is marked, held by its
    finalizer. --/
def prunedFleet : Store := shrunkFleet.step (.reconcile {})

theorem prunedFleet_pass_converged_keeps_releases :
    Reachable prunedFleet ∧ (prunedFleet.pass {}).1.store.releases = prunedFleet.releases :=
  have hr : Reachable prunedFleet := ((Reachable.init ⟨rfl, _, rfl, rfl, rfl, rfl, rfl⟩).run _).step _
  ⟨hr, pass_converged_keeps_releases hr rfl rfl rfl rfl Faults.clear_empty (by decide) (by decide) (by decide)⟩

/-! ### A pass without faults over an object marked for deletion -/

/-- Every release of the store is marked for deletion, or has one of the namespaced names `keys`. --/
def Store.MarkedOr (keys : List ObjectKey) (s : Store) : Prop :=
  ∀ h ∈ s.releases, h.deletionTimestamp = true ∨ h.key ∈ keys

theorem Store.MarkedOr.of_releases {keys : List ObjectKey} {s t : Store} (hm : s.MarkedOr keys)
    (hr : t.releases = s.releases) : t.MarkedOr keys :=
  fun h mem => hm h (hr ▸ mem)

/-- A Delete marks or removes the release of its key, and leaves the others. --/
theorem Store.MarkedOr.deleted {keys : List ObjectKey} {r : HelmReleaseProxy} (hm : c.store.MarkedOr (r.key :: keys)) :
    (c.deleted r).store.MarkedOr keys := by
  intro h' mem
  obtain ⟨h, mem, e⟩ := List.mem_filterMap.mp mem
  rcases Store.afterDelete_cases e with ⟨rfl, hne⟩ | ⟨rfl, -⟩
  · exact (hm h' mem).imp_right fun hk => (List.mem_cons.mp hk).resolve_left hne
  · exact .inl h.deletionTimestamp_markDeleted

/-- Without faults, the loop of reconcileDelete runs to its end and marks or removes every release of
    the names it deletes. --/
theorem deleteAndConfirm_marked (rl : List HelmReleaseProxy) (hc : c.faults.Clear)
    (hm : c.store.MarkedOr (rl.map HelmReleaseProxy.key)) :
    ∃ c' found, deleteAndConfirm rl c = (c', .ok found) ∧ c'.store.MarkedOr [] := by
  induction rl generalizing c with
  | nil => exact ⟨c, [], rfl, hm⟩
  | cons r rl ih =>
    obtain ⟨c', found, e, hm'⟩ := ih (c := (c.deleted r).setFaults ((c.deleted r).faults.next .get).2)
      ((hc.next .delete).next .get) hm.deleted
    simp only [deleteAndConfirm, bind_apply, tryCatch_apply, deleteHelmReleaseProxy_ok r (hc .delete),
      getHelmReleaseProxy_ok (c := c.deleted r) r.key ((hc.next .delete) .get)]
    cases (c.deleted r).store.getRelease r.key with
    | none => exact ⟨c', found, e, hm'⟩
    | some current => exact ⟨c', current :: found, by dsimp only; rw [bind_apply, e]; rfl, hm'⟩

/-- Without faults, the deletion branch over an object that holds the finalizer marks or removes every
    release it lists; the requeue, or the removal of the finalizer and the patch, write no release. --/
theorem reconcileDeleting_marked (rl : List HelmReleaseProxy) (hc : c.faults.Clear)
    (hfin : helmChartProxyFinalizer ∈ c.proxy.finalizers) (hm : c.store.MarkedOr (rl.map HelmReleaseProxy.key)) :
    (reconcileDeleting rl c).1.store.MarkedOr [] := by
  obtain ⟨c', found, e, hm'⟩ := deleteAndConfirm_marked rl hc hm
  by_cases pending : found = []
  · subst pending
    rw [reconcileDeleting_done hfin e]
    exact hm'.of_releases (patchHelmChartProxy_releases _)
  · rw [reconcileDeleting_pending hfin e pending]
    exact hm'

/-- A pass without faults over a HelmChartProxy marked for deletion, whose selector converts, marks
    or removes every release of a reachable store. --/
theorem Store.pass_marked (hr : Reachable s) (hp : s.proxy = some p) (hd : p.deletionTimestamp = true)
    (hsel : labelSelectorAsSelector p.spec.clusterSelector = .ok sel) (hclear : env.faults.Clear) :
    (s.pass env).1.store.MarkedOr [] := by
  have hg := hr.safe.guarded hp
  obtain ⟨c, hc, rfl, -, -, fin, -, releases, -⟩ := Store.pass_listed hp hsel hclear
  simp only [hd, if_true] at releases
  refine Store.MarkedOr.of_releases ?_ releases
  by_cases hfin : helmChartProxyFinalizer ∈ p.finalizers
  · exact reconcileDeleting_marked _ hc (fin ▸ hfin) fun h mem =>
      .inr (List.mem_map_of_mem _ ((hg.owned h mem).mem_listReleases mem))
  · have hnil : c.store.releases = [] := by
      by_contra ne
      exact hfin (hg.armed ne).1
    have idle : reconcileDeleting (c.store.listReleases p.namespace (ownerLabels p)) c = (c, .ok {}) := by
      simp [reconcileDeleting, bind_apply, getProxy_apply, fin, hfin]
    rw [idle]
    exact fun h mem => absurd (hnil ▸ mem) (List.not_mem_nil h)

/-- A pass without faults over a HelmChartProxy marked for deletion, whose selector converts, requests
    the Delete of every release of a reachable store: each release left is marked for deletion, and
    those without finalizers are gone. --/
theorem pass_marks_releases_deleted (hr : Reachable s) (hp : s.proxy = some p) (hd : p.deletionTimestamp = true)
    (hsel : labelSelectorAsSelector p.spec.clusterSelector = .ok sel) (hclear : env.faults.Clear) :
    ∀ h ∈ (s.pass env).1.store.releases, h.deletionTimestamp = true := fun h mem =>
  (Store.pass_marked hr hp hd hsel hclear h mem).resolve_right (List.not_mem_nil _)

/-- `nginx` once deleted, with its release still held by a finalizer: the release stays, marked. --/
theorem heldStore_pass_marks_releases_deleted :
    Reachable heldStore ∧ (heldStore.pass {}).1.store.releases.length = 1 ∧
      ∀ h ∈ (heldStore.pass {}).1.store.releases, h.deletionTimestamp = true :=
  have hr : Reachable heldStore := (reachable_settledStore.step _).step _
  ⟨hr, rfl, pass_marks_releases_deleted hr rfl rfl rfl Faults.clear_empty⟩

/-! ### Teardown completes -/

/-- The HelmReleaseProxy controller, once it has uninstalled each release of the store, clears its
    finalizers. --/
def Store.releaseFinalizers (s : Store) (status : HelmReleaseProxyStatus) : Store :=
  s.run (s.releases.map fun h => .updateRelease h.key status [])

/-- Clearing the finalizers of marked releases, by their names, removes them and leaves the
    HelmChartProxy as it is. --/
theorem Store.run_releaseFinalizers (status : HelmReleaseProxyStatus) (rs : List HelmReleaseProxy) {s : Store}
    (hm : ∀ h ∈ s.releases, h.deletionTimestamp = true ∧ h.key ∈ rs.map HelmReleaseProxy.key) :
    (s.run (rs.map fun h => .updateRelease h.key status [])).releases = [] ∧
      (s.run (rs.map fun h => .updateRelease h.key status [])).proxy = s.proxy := by
  induction rs generalizing s with
  | nil => exact ⟨List.eq_nil_iff_forall_not_mem.mpr fun h mem => List.not_mem_nil _ (hm h mem).2, rfl⟩
  | cons r rs ih =>
    refine ih (s := s.updateRelease r.key status []) fun h' mem => ?_
    obtain ⟨h, mem, e⟩ := List.mem_filterMap.mp mem
    obtain ⟨d, hk⟩ := hm h mem
    split at e
    · simp [d] at e
    · cases e
      exact ⟨d, (List.mem_cons.mp hk).resolve_left ‹_›⟩

/-- A patch keeps the namespace, name, deletion mark and selector of the stored object. --/
theorem Store.patchProxy_frame {s t : Store} {p : HelmChartProxy} (e : s.patchProxy p = some t) :
    ∀ q' ∈ t.proxy, ∃ q ∈ s.proxy, q'.frame = q.frame := by
  unfold Store.patchProxy at e
  split at e
  · cases e
  · rename_i q hq
    cases e
    intro q' mem
    simp only [Store.setProxy_proxy] at mem
    split at mem
    · cases mem
    · cases mem
      exact ⟨q, hq, by simp⟩

/-- Every pass keeps the namespace, name, deletion mark and selector of the stored HelmChartProxy
    while it exists. --/
theorem Store.pass_frame {s : Store} {f : String × String × Bool × LabelSelector} (hs : ∀ q ∈ s.proxy, q.frame = f)
    (env : Env) : ∀ q ∈ (s.pass env).1.store.proxy, q.frame = f :=
  Store.pass_keeps (Q := fun t => ∀ q ∈ t.proxy, q.frame = f) (fun _ _ h => by simpa only [Store.applyRelease_proxy] using h)
    (fun _ h e => by rw [Store.deleteRelease_eq_some e]; exact h)
    (fun _ h e q mem => by
      obtain ⟨q₀, mem₀, hq⟩ := Store.patchProxy_frame e q mem
      exact hq.trans (h q₀ mem₀)) hs env

/-- With no release listed, the deletion branch without faults takes the finalizer off the in-memory
    object, patching it when it was there, and writes no release. --/
theorem reconcileDeleting_nil (hc : c.faults.Clear) :
    (reconcileDeleting [] c).1.faults.Clear ∧ helmChartProxyFinalizer ∉ (reconcileDeleting [] c).1.proxy.finalizers ∧
      (reconcileDeleting [] c).1.store.releases = c.store.releases := by
  by_cases hfin : helmChartProxyFinalizer ∈ c.proxy.finalizers
  · rw [reconcileDeleting_done hfin rfl]
    have hpatch : (c.modifyProxy fun p =>
        p.setFinalizers (p.finalizers.filter (· != helmChartProxyFinalizer))).faults.Succeeds .patch := hc .patch
    refine ⟨patchHelmChartProxy_faults hpatch ▸ hc.next .patch, ?_, patchHelmChartProxy_releases _⟩
    rw [patchHelmChartProxy_proxy hpatch]
    simp
  · have idle : reconcileDeleting [] c = (c, .ok {}) := by simp [reconcileDeleting, bind_apply, getProxy_apply, hfin]
    rw [idle]
    exact ⟨hc, hfin, rfl⟩

/-- Teardown completes. After a pass without faults over a HelmChartProxy marked for deletion whose
    selector converts, once the HelmReleaseProxy controller has cleared the finalizers of the releases
    left, the next pass without faults leaves no release, and the HelmChartProxy, if still there, no
    longer holds the finalizer. --/
theorem teardown_completes (hr : Reachable s) (hp : s.proxy = some p) (hd : p.deletionTimestamp = true)
    (hsel : labelSelectorAsSelector p.spec.clusterSelector = .ok sel) (hclear : env.faults.Clear) {env' : Env}
    (hclear' : env'.faults.Clear) (status : HelmReleaseProxyStatus) :
    ((((s.pass env).1.store.releaseFinalizers status).pass env').1.store.releases = [] ∧
      ∀ q ∈ (((s.pass env).1.store.releaseFinalizers status).pass env').1.store.proxy,
        helmChartProxyFinalizer ∉ q.finalizers) := by
  have marked := Store.pass_marked hr hp hd hsel hclear
  have framed := Store.pass_frame (f := p.frame) (fun q hq => by rw [hp, Option.mem_some_iff] at hq; rw [hq]) env
  obtain ⟨hnil, same⟩ := Store.run_releaseFinalizers status (s.pass env).1.store.releases (s := (s.pass env).1.store)
    fun h mem => ⟨(marked h mem).resolve_right (List.not_mem_nil _), List.mem_map_of_mem _ mem⟩
  unfold Store.releaseFinalizers
  generalize (s.pass env).1.store.run _ = s₂ at hnil same
  cases hq : s₂.proxy with
  | none =>
    rcases s₂.pass_cases env' with e | ⟨c, q, hq', -⟩
    · rw [e, hq]
      exact ⟨hnil, fun _ h => nomatch h⟩
    · rw [hq] at hq'
      cases hq'
  | some q =>
    obtain ⟨-, -, hdq, hselq⟩ : q.namespace = p.namespace ∧ q.name = p.name ∧ q.deletionTimestamp = p.deletionTimestamp ∧
        q.spec.clusterSelector = p.spec.clusterSelector := by
      simpa [HelmChartProxy.frame] using framed q (same ▸ hq)
    obtain ⟨c, hc, rfl, -, -, -, -, -, e, -⟩ := Store.pass_listed hq (hselq ▸ hsel) hclear'
    simp only [hdq, hd, if_true] at e
    have listed : c.store.listReleases q.namespace (ownerLabels q) = [] := by simp [Store.listReleases, hnil]
    obtain ⟨hc', hfin, hrel⟩ := reconcileDeleting_nil (c := c) hc
    rw [e, listed]
    exact ⟨(patchHelmChartProxy_releases _).trans (hrel.trans hnil), patchHelmChartProxy_drops (hc' .patch) hfin⟩

/-- The first pass leaves b's release, held by its finalizer; once that is cleared the next pass
    finishes the teardown. --/
theorem heldStore_teardown_completes :
    (heldStore.pass {}).1.store.releases.length = 1 ∧
      (((heldStore.pass {}).1.store.releaseFinalizers {}).pass {}).1.store.releases = [] ∧
      ∀ q ∈ (((heldStore.pass {}).1.store.releaseFinalizers {}).pass {}).1.store.proxy,
        helmChartProxyFinalizer ∉ q.finalizers :=
  have hr : Reachable heldStore := (reachable_settledStore.step _).step _
  ⟨rfl, teardown_completes hr rfl rfl rfl Faults.clear_empty Faults.clear_empty {}⟩

end HelmAddon
