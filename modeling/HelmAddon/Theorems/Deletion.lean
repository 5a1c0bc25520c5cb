import HelmAddon.Theorems.Reconcile
import HelmAddon.Theorems.RolloutBatch

/-! The deletion of a HelmChartProxy. A pass over an object marked for deletion deletes every listed
    release and reads it again; a release without finalizers is gone at once, one with finalizers is
    found again, marked. When every call succeeds and the selector converts, the finalizer is removed
    exactly when no listed release has finalizers. The listing of the clusters comes first, so a
    selector that does not convert ends every such pass before any release is deleted. -/

namespace HelmAddon

theorem HelmReleaseProxy.markDeleted_key (h : HelmReleaseProxy) : h.markDeleted.key = h.key := by
  cases h; rfl

/-! ### The Delete of one release -/

namespace Store

variable {s : Store} {h : HelmReleaseProxy}

/-- With distinct keys, the Get of a stored release's key finds it. --/
theorem getRelease_of_mem (hk : (s.releases.map HelmReleaseProxy.key).Nodup) (hm : h ∈ s.releases) :
    s.getRelease h.key = some h := by
  unfold getRelease
  cases hf : s.releases.find? (·.key == h.key) with
  | none => exact absurd (List.find?_eq_none.mp hf h hm) (by simp)
  | some h' =>
    have hb := List.find?_some hf
    rw [List.inj_on_of_nodup_map hk (List.mem_of_find?_eq_some hf) hm (beq_iff_eq.mp hb)]

/-- What a Delete of `key` does to one release, as `Store.deleteRelease` applies it: without
    finalizers it goes, with them it is marked. --/
def afterDelete (key : ObjectKey) (h : HelmReleaseProxy) : Option HelmReleaseProxy :=
  if h.key = key then (if h.finalizers.isEmpty then none else some h.markDeleted) else some h

theorem afterDelete_key {key : ObjectKey} {h h' : HelmReleaseProxy} (e : afterDelete key h = some h') :
    h'.key = h.key := by
  unfold afterDelete at e
  split at e
  · split at e
    · cases e
    · cases e; rfl
  · cases e; rfl

theorem deleteRelease_of_mem (hk : (s.releases.map HelmReleaseProxy.key).Nodup) (hm : h ∈ s.releases) :
    s.deleteRelease h.key = some (s.setReleases (s.releases.filterMap (afterDelete h.key))) := by
  simp only [deleteRelease, getRelease_of_mem hk hm]
  rfl

theorem map_key_filterMap_sublist (key : ObjectKey) (rs : List HelmReleaseProxy) :
    ((rs.filterMap (afterDelete key)).map HelmReleaseProxy.key).Sublist (rs.map HelmReleaseProxy.key) := by
  induction rs with
  | nil => exact List.Sublist.slnil
  | cons r rs ih =>
    rw [List.filterMap_cons]
    cases e : afterDelete key r with
    | none => exact ih.cons _
    | some r' => rw [List.map_cons, afterDelete_key e]; exact ih.cons₂ _

theorem mem_filterMap_afterDelete {key : ObjectKey} {rs : List HelmReleaseProxy} {h' : HelmReleaseProxy}
    (hm : h' ∈ rs) (hne : h'.key ≠ key) : h' ∈ rs.filterMap (afterDelete key) :=
  List.mem_filterMap.mpr ⟨h', hm, by simp [afterDelete, hne]⟩

/-- After the Delete, the Get of the key finds the marked release, or nothing. --/
theorem getRelease_afterDelete (hk : (s.releases.map HelmReleaseProxy.key).Nodup) (hm : h ∈ s.releases) :
    (s.setReleases (s.releases.filterMap (afterDelete h.key))).getRelease h.key =
      if h.finalizers.isEmpty then none else some h.markDeleted := by
  split
  · rename_i hf
    refine List.find?_eq_none.mpr fun x hx => ?_
    obtain ⟨y, hy, e⟩ := List.mem_filterMap.mp hx
    by_cases hyk : y.key = h.key
    · rw [List.inj_on_of_nodup_map hk hy hm hyk] at e
      simp [afterDelete, hf] at e
    · simp only [afterDelete, hyk, if_false, Option.some.injEq] at e
      subst e
      simpa using hyk
  · rename_i hf
    have hk' := (map_key_filterMap_sublist h.key s.releases).nodup hk
    have hm' : h.markDeleted ∈ s.releases.filterMap (afterDelete h.key) :=
      List.mem_filterMap.mpr ⟨h, hm, by simp [afterDelete, hf]⟩
    simpa [HelmReleaseProxy.markDeleted_key] using getRelease_of_mem (s := s.setReleases _) hk' hm'

end Store

/-! ### reconcileDelete -/

variable {c c' : Ctx} {hs getters : List HelmReleaseProxy}

/-- The loop of reconcileDelete when every call succeeds and release keys are distinct: every listed
    release is deleted, and those with finalizers are found again, marked for deletion. --/
theorem deleteAndConfirm_eq (hs : List HelmReleaseProxy) (hc : c.faults.Clear)
    (hk : (c.store.releases.map HelmReleaseProxy.key).Nodup) (hm : ∀ h ∈ hs, h ∈ c.store.releases)
    (hd : (hs.map HelmReleaseProxy.key).Nodup) :
    ∃ c', deleteAndConfirm hs c =
        (c', .ok ((hs.filter (!·.finalizers.isEmpty)).map HelmReleaseProxy.markDeleted)) ∧
      c'.proxy = c.proxy ∧ c'.store.proxy = c.store.proxy ∧ c'.faults.Clear := by
  induction hs generalizing c with
  | nil => exact ⟨c, rfl, rfl, rfl, hc⟩
  | cons h hs ih =>
    obtain ⟨hhead, htail⟩ := List.nodup_cons.mp hd
    have hmem := hm h (List.mem_cons_self h hs)
    let s' := c.store.setReleases (c.store.releases.filterMap (Store.afterDelete h.key))
    let c₂ := ((c.setFaults (c.faults.next .delete).2).setStore s').setFaults
      ((c.faults.next .delete).2.next .get).2
    have hk' : (s'.releases.map HelmReleaseProxy.key).Nodup :=
      (Store.map_key_filterMap_sublist h.key c.store.releases).nodup hk
    have hm' : ∀ h' ∈ hs, h' ∈ s'.releases := fun h' mem =>
      Store.mem_filterMap_afterDelete (hm h' (List.mem_cons_of_mem h mem))
        fun e => hhead (List.mem_map.mpr ⟨h', mem, e⟩)
    obtain ⟨c', run, proxy, storeProxy, clear⟩ := ih (c := c₂) ((hc.next .delete).next .get) hk' hm' htail
    refine ⟨c', ?_, proxy, storeProxy, clear⟩
    have hget : ((c.setFaults (c.faults.next .delete).2).setStore s').faults.Succeeds .get :=
      (hc .get).next .delete
    simp only [deleteAndConfirm, Pass.bind_apply, Pass.tryCatch_apply, deleteHelmReleaseProxy,
      deleteRelease_ok h.key (hc .delete), Store.deleteRelease_of_mem hk hmem, getHelmReleaseProxy_ok _ hget,
      Ctx.setStore_store, Store.getRelease_afterDelete hk hmem]
    cases hf : h.finalizers.isEmpty
    · simp only [Bool.false_eq_true, if_false, Pass.bind_apply, Ctx.setStore_faults, Ctx.setFaults_faults]
      rw [run]
      simp [hf]
    · simpa [hf] using run

/-- Releases still found after their deletion: HelmReleaseProxiesReady aggregates them, the pass
    requeues and the finalizer stays. --/
theorem reconcileDeleting_pending (hfin : helmChartProxyFinalizer ∈ c.proxy.finalizers)
    (hdel : deleteAndConfirm hs c = (c', .ok getters)) (hne : getters ≠ []) :
    (reconcileDeleting hs c).1 = c'.modifyProxy (·.modifyStatus (·.modifyConditions
      (·.setAggregate .helmReleaseProxiesReady (getters.map (·.status.conditions.ready))))) := by
  have hlen : getters.length > 0 := List.length_pos.mpr hne
  simp [reconcileDeleting, reconcileDelete, Pass.bind_apply, hfin, hdel, hlen, modifyConditions, requeue,
    Result.isZero]

/-- No release found after its deletion: the finalizer is removed and the object patched. --/
theorem reconcileDeleting_done (hfin : helmChartProxyFinalizer ∈ c.proxy.finalizers)
    (hdel : deleteAndConfirm hs c = (c', .ok [])) :
    (reconcileDeleting hs c).1 = (patchHelmChartProxy
      (c'.modifyProxy fun p => p.setFinalizers (p.finalizers.filter (· != helmChartProxyFinalizer)))).1 := by
  simp [reconcileDeleting, reconcileDelete, Pass.bind_apply, hfin, hdel, Result.isZero]
  split <;> simp_all

/-- The deletion branch and the patch after it, when every call succeeds: the finalizer is gone from
    the stored object exactly when no release it deletes has finalizers. --/
theorem reconcileDeleting_finalizer {q : HelmChartProxy} (hfin : helmChartProxyFinalizer ∈ c.proxy.finalizers)
    (hclear : c.faults.Clear) (hq : c.store.proxy = some q)
    (hk : (c.store.releases.map HelmReleaseProxy.key).Nodup) (hm : ∀ h ∈ hs, h ∈ c.store.releases)
    (hd : (hs.map HelmReleaseProxy.key).Nodup) :
    (∀ q' ∈ (patchHelmChartProxy (reconcileDeleting hs c).1).1.store.proxy,
      helmChartProxyFinalizer ∉ q'.finalizers) ↔ ∀ h ∈ hs, h.finalizers = [] := by
  obtain ⟨c', run, proxy, storeProxy, clear'⟩ := deleteAndConfirm_eq hs hclear hk hm hd
  by_cases pending : (hs.filter (!·.finalizers.isEmpty)).map HelmReleaseProxy.markDeleted = []
  · have released : ∀ h ∈ hs, h.finalizers = [] := fun h mem => by
      simpa using List.filter_eq_nil_iff.mp (List.map_eq_nil_iff.mp pending) h mem
    rw [pending] at run
    rw [reconcileDeleting_done hfin run]
    have hpatch : (c'.modifyProxy fun p =>
        p.setFinalizers (p.finalizers.filter (· != helmChartProxyFinalizer))).faults.Succeeds .patch := clear' .patch
    refine iff_of_true (patchHelmChartProxy_drops ?_ ?_) released
    · exact patchHelmChartProxy_faults hpatch ▸ (clear'.next .patch) .patch
    · simp [patchHelmChartProxy_proxy hpatch]
  · have held : ¬ ∀ h ∈ hs, h.finalizers = [] := fun all => pending (by
      rw [List.filter_eq_nil_iff.mpr fun h mem => by simp [all h mem]]; rfl)
    have after := reconcileDeleting_pending hfin run pending
    refine iff_of_false (fun gone => ?_) held
    obtain ⟨q', mem, kept⟩ := patchHelmChartProxy_keeps (c := (reconcileDeleting hs c).1) (q := q)
      (x := helmChartProxyFinalizer) (by rw [after]; exact clear' .patch) (by rw [after]; simp [storeProxy, hq])
      (by rw [after]; simp [proxy, hfin])
    exact gone q' mem kept

/-! ### A pass over a deleted HelmChartProxy -/

/-- A pass over a HelmChartProxy whose selector does not convert, whatever the environment: the listing
    of the clusters fails before the branch on the deletion mark, so the pass returns an error, deletes
    no release, and the stored object keeps its finalizers. --/
theorem Store.pass_malformed {s : Store} {env : Env} {p : HelmChartProxy} {e : String} (hp : s.proxy = some p)
    (hsel : labelSelectorAsSelector p.spec.clusterSelector = .error e) (hfin : p.finalizers ≠ []) :
    (s.pass env).2.toBool = false ∧ (s.pass env).1.store.releases = s.releases ∧
      (s.pass env).1.store.proxy.map (·.finalizers) = some p.finalizers := by
  have init : (Ctx.init s env).store = s := rfl
  rw [Store.pass]
  rcases getHelmChartProxy_cases (Ctx.init s env) with fetch | fetch
  · rw [init, hp] at fetch
    rw [reconcile_fetched fetch, reconcileFetched_malformed (by simpa using hsel)]
    dsimp only
    have filled : p.finalizers.isEmpty = false := by simpa using hfin
    refine ⟨rfl, ?_⟩
    rcases patchHelmChartProxy_store_cases _ with patched | patched <;> rw [patched] <;>
      simp [Store.patchProxy_getD, Store.patchProxy_finalizers, init, hp, filled]
  · simp [reconcile, Pass.bind_apply, fetch, init, hp, Except.toBool]

/-- A pass over a HelmChartProxy being deleted. When its selector converts and every store call
    succeeds, the pass removes HelmChartProxyFinalizer exactly when no release it lists has finalizers:
    those are the releases a Get finds again after their Delete. When its selector does not convert,
    every pass, whatever fails in it, returns an error, deletes no release and leaves the finalizers. --/
theorem reconcile_deleting_finalizer_iff {s : Store} {p : HelmChartProxy}
    (hp : s.proxy = some p) (hdel : p.deletionTimestamp = true) (hfin : helmChartProxyFinalizer ∈ p.finalizers)
    (hkeys : (s.releases.map HelmReleaseProxy.key).Nodup) :
    (∀ {env : Env} {sel : Selector}, labelSelectorAsSelector p.spec.clusterSelector = .ok sel → env.faults.Clear →
      ((∀ q ∈ (s.pass env).1.store.proxy, helmChartProxyFinalizer ∉ q.finalizers) ↔
        ∀ h ∈ s.listReleases p.namespace (ownerLabels p), h.finalizers = [])) ∧
    (∀ {env : Env} {e : String}, labelSelectorAsSelector p.spec.clusterSelector = .error e →
      (s.pass env).2.toBool = false ∧ (s.pass env).1.store.releases = s.releases ∧
        (s.pass env).1.store.proxy.map (·.finalizers) = some p.finalizers) := by
  refine ⟨fun {env sel} hsel hclear => ?_, fun hsel => Store.pass_malformed hp hsel (List.ne_nil_of_mem hfin)⟩
  have hc : (Ctx.init s env).faults.Clear := hclear
  have fetch : getHelmChartProxy (Ctx.init s env) =
      ((Ctx.init s env).setFaults ((Ctx.init s env).faults.next .get).2, .ok (some p)) := by
    rw [getHelmChartProxy_ok (hc .get), show (Ctx.init s env).store.proxy = some p from hp]
  rw [Store.pass, reconcile_fetched fetch, reconcileFetched_listed (by simpa using hsel) ((hc.next .get) .list)]
  dsimp only
  rw [if_pos (by simpa using hdel)]
  exact reconcileDeleting_finalizer (by simpa using hfin) (((hc.next .get).next .list).next .list)
    (by simpa using hp) hkeys (fun _ mem => List.mem_of_mem_filter mem) (((List.filter_sublist _).map _).nodup hkeys)

/-- The settled rollout after b's release reports a finalizer of its own, once the user deletes the
    HelmChartProxy. --/
def heldStore : Store :=
  (settledStore.step (.updateRelease ⟨"default", "nginx-b-0"⟩ ⟨releaseConditions true, 1⟩ ["finalizer"])).step
    .deleteProxy

theorem reconcile_deleting_finalizer_iff_held :
    ((∀ q ∈ (heldStore.pass {}).1.store.proxy, helmChartProxyFinalizer ∉ q.finalizers) ↔
      ∀ h ∈ heldStore.listReleases "default" (ownerLabels (nginxProxy none)), h.finalizers = []) ∧
    (heldStore.pass {}).1.store.proxy.map (·.finalizers) = some [helmChartProxyFinalizer] :=
  ⟨(reconcile_deleting_finalizer_iff (p := heldStore.proxy.get rfl) (Option.some_get _).symm rfl (by decide)
    (by decide)).1 rfl Faults.clear_empty, rfl⟩

/-- A selector with an operator that LabelSelectorAsSelector rejects. --/
def malformedSelector : LabelSelector :=
  { matchLabels := [("env", "prod")], matchExpressions := [⟨"tier", "Near", []⟩] }

/-- The settled rollout after its selector is edited into a malformed one and the user deletes the
    HelmChartProxy. --/
def blockedStore : Store :=
  (settledStore.step (.editSpec
    { (nginxProxy (some (installRollout 1 1))).spec with clusterSelector := malformedSelector })).step .deleteProxy

theorem reconcile_selector_blocks_teardown :
    Reachable blockedStore ∧ blockedStore.proxy.map (·.deletionTimestamp) = some true ∧
      (blockedStore.pass {}).2.toBool = false ∧
      (blockedStore.step (.reconcile {})).proxy.map (·.finalizers) = some [helmChartProxyFinalizer] ∧
      (blockedStore.step (.reconcile {})).releases = blockedStore.releases :=
  ⟨(reachable_settledStore.step _).step _, rfl, rfl, rfl, rfl⟩

end HelmAddon
