import HelmAddon.Theorems.PassBase

/-! A pass of Reconcile, stage by stage. After the fetch the body runs on the fetched object and the
    deferred patch follows it whatever the body returned; after the two listings the pass branches on
    the deletion timestamp. The patch writes the in-memory finalizers and status into the stored
    object, and removes an object marked for deletion that is left without finalizers. -/

namespace HelmAddon

variable {c c₁ : Ctx} {p : HelmChartProxy}

/-! ### The stages of Reconcile -/

/-- A pass whose fetch finds the HelmChartProxy: the body runs on it, then the deferred patch, whose
    error is dropped; the pass returns what the body returned. --/
theorem reconcile_fetched (h : getHelmChartProxy c = (c₁, .ok (some p))) :
    reconcile c = ((patchHelmChartProxy (reconcileFetched (c₁.modifyProxy fun _ => p)).1).1,
      (reconcileFetched (c₁.modifyProxy fun _ => p)).2) := by
  simp only [reconcile, Pass.bind_apply, h, setProxy_apply, Pass.attempt_apply]
  rcases (reconcileFetched (c₁.modifyProxy fun _ => p)).2 with e | r <;> rfl

/-- The body once the selector converts and both List calls succeed: the matching clusters are
    recorded, and the pass takes the deletion branch or the live one. --/
theorem reconcileFetched_listed {sel : Selector}
    (hsel : labelSelectorAsSelector c.proxy.spec.clusterSelector = .ok sel) (hlist : c.faults.Succeeds .list) :
    reconcileFetched c =
      let clusterList := c.store.listClusters c.proxy.namespace sel
      let releaseList := c.store.listReleases c.proxy.namespace (ownerLabels c.proxy)
      (if c.proxy.deletionTimestamp then reconcileDeleting releaseList else reconcileLive clusterList releaseList)
        (((c.setFaults (c.faults.next .list).2).modifyProxy
          (·.modifyStatus (·.setMatchingClusters (clusterList.map Cluster.ref)))).setFaults
            ((c.faults.next .list).2.next .list).2) := by
  have hlist' : (c.faults.next .list).2.Succeeds .list := hlist.next .list
  simp [reconcileFetched, listClustersWithLabels, listInstalledReleases, Pass.bind_apply, hsel, Except.mapError,
    Pass.tryCatch_apply, listClusters_ok _ _ hlist, listReleases_ok, hlist']

/-- The body when the selector does not convert: SpecsUpToDate is marked False with the
    conversion's message and the error is returned, before any call. --/
theorem reconcileFetched_malformed {e : String}
    (hsel : labelSelectorAsSelector c.proxy.spec.clusterSelector = .error e) :
    reconcileFetched c = (c.modifyProxy (·.modifyStatus (·.modifyConditions (·.markFalse
      .helmReleaseProxySpecsUpToDate clusterSelectionFailedReason .error (Error.invalid e).error))),
      .error (.invalid e)) := by
  simp [reconcileFetched, listClustersWithLabels, Pass.bind_apply, Pass.tryCatch_apply, hsel, Except.mapError,
    modifyConditions]

/-! ### The patch -/

/-- The stored object after a patch has the patching object's finalizers, or is gone once it is
    marked for deletion and has none. --/
theorem Store.patchProxy_finalizers (s : Store) (p : HelmChartProxy) :
    ((s.patchProxy p).getD s).proxy.map (·.finalizers) =
      s.proxy.bind fun q => if q.deletionTimestamp && p.finalizers.isEmpty then none else some p.finalizers := by
  unfold Store.patchProxy
  cases hq : s.proxy with
  | none => simp [hq]
  | some q =>
    cases q
    simp only [Option.getD_some, Option.bind_some]
    split <;> simp_all [HelmChartProxy.setFinalizers, HelmChartProxy.modifyStatus]

/-- The patch stores the patched object's status, and writes no release. --/
theorem Store.patchProxy_getD (s : Store) (p : HelmChartProxy) :
    (∀ q ∈ ((s.patchProxy p).getD s).proxy, q.status = p.status) ∧ ((s.patchProxy p).getD s).releases = s.releases := by
  unfold Store.patchProxy
  cases hq : s.proxy with
  | none => simp [hq]
  | some q => simp only [Option.getD_some, Store.setProxy_proxy, Store.setProxy_releases]; split <;> simp

/-- The object patchHelmChartProxy writes: Ready summarizes the three owned conditions, and the
    observed generation is recorded. --/
def HelmChartProxy.summarized (p : HelmChartProxy) : HelmChartProxy :=
  (p.modifyStatus (·.modifyConditions (·.setSummary
    [.helmReleaseProxySpecsUpToDate, .helmReleaseProxiesReady, .helmReleaseProxiesRolloutCompleted]))).observeGeneration

@[simp] theorem HelmChartProxy.summarized_finalizers (p : HelmChartProxy) : p.summarized.finalizers = p.finalizers := by
  cases p; rfl

theorem patchHelmChartProxy_eq (c : Ctx) : patchHelmChartProxy c = patchProxy (c.modifyProxy HelmChartProxy.summarized) := by
  simp only [patchHelmChartProxy, modifyConditions, Pass.bind_apply, modifyProxy_apply]
  cases c; rfl

/-- What patchHelmChartProxy leaves when the patch call succeeds: the object it wrote, and the store
    patched with it (unchanged when the object is gone). --/
theorem patchHelmChartProxy_fst (h : c.faults.Succeeds .patch) :
    (patchHelmChartProxy c).1 = (((c.modifyProxy HelmChartProxy.summarized).setFaults (c.faults.next .patch).2).setStore
      ((c.store.patchProxy c.proxy.summarized).getD c.store)) := by
  have h' : (c.modifyProxy HelmChartProxy.summarized).faults.Succeeds .patch := h
  simp only [patchHelmChartProxy, modifyConditions, Pass.bind_apply, modifyProxy_apply]
  rw [show ((c.modifyProxy _).modifyProxy HelmChartProxy.observeGeneration) = c.modifyProxy HelmChartProxy.summarized by
    cases c; rfl, patchProxy_ok h']
  simp only [Ctx.modifyProxy_store, Ctx.modifyProxy_proxy, Ctx.modifyProxy_faults]
  cases c.store.patchProxy c.proxy.summarized
  · cases c; rfl
  · rfl

theorem patchHelmChartProxy_faults (h : c.faults.Succeeds .patch) :
    (patchHelmChartProxy c).1.faults = (c.faults.next .patch).2 := by
  rw [patchHelmChartProxy_fst h]; rfl

theorem patchHelmChartProxy_proxy (h : c.faults.Succeeds .patch) :
    (patchHelmChartProxy c).1.proxy = c.proxy.summarized := by
  rw [patchHelmChartProxy_fst h]; rfl

theorem patchHelmChartProxy_finalizers (h : c.faults.Succeeds .patch) :
    (patchHelmChartProxy c).1.store.proxy.map (·.finalizers) =
      c.store.proxy.bind fun q => if q.deletionTimestamp && c.proxy.finalizers.isEmpty then none
        else some c.proxy.finalizers := by
  rw [patchHelmChartProxy_fst h]
  simpa using Store.patchProxy_finalizers c.store c.proxy.summarized

/-- The deferred patch either fails and leaves the store as it was, or patches it with the summarized
    object. --/
theorem patchHelmChartProxy_store_cases (c : Ctx) :
    (patchHelmChartProxy c).1.store = c.store ∨
      (patchHelmChartProxy c).1.store = (c.store.patchProxy c.proxy.summarized).getD c.store := by
  rw [patchHelmChartProxy_eq]
  exact patchProxy_store_cases _

/-- A patch keeps a finalizer the in-memory object has. --/
theorem patchHelmChartProxy_keeps {q : HelmChartProxy} {x : String} (h : c.faults.Succeeds .patch)
    (hq : c.store.proxy = some q) (hx : x ∈ c.proxy.finalizers) :
    ∃ q' ∈ (patchHelmChartProxy c).1.store.proxy, x ∈ q'.finalizers := by
  have filled : c.proxy.finalizers.isEmpty = false := List.isEmpty_eq_false_iff_exists_mem.mpr ⟨x, hx⟩
  have after := patchHelmChartProxy_finalizers h
  simp only [hq, Option.some_bind, filled, Bool.and_false, Bool.false_eq_true, if_false] at after
  obtain ⟨q', mem, kept⟩ := Option.map_eq_some'.mp after
  exact ⟨q', mem, kept ▸ hx⟩

/-- A patch drops a finalizer the in-memory object no longer has, or the object goes. --/
theorem patchHelmChartProxy_drops {x : String} (h : c.faults.Succeeds .patch) (hx : x ∉ c.proxy.finalizers) :
    ∀ q' ∈ (patchHelmChartProxy c).1.store.proxy, x ∉ q'.finalizers := fun q' mem => by
  have := Option.mem_map_of_mem (fun q : HelmChartProxy => q.finalizers) mem
  rw [patchHelmChartProxy_finalizers h] at this
  obtain ⟨a, -, ha⟩ := Option.bind_eq_some.mp this
  split at ha
  · cases ha
  · have e : c.proxy.finalizers = q'.finalizers := Option.some.inj ha
    exact e ▸ hx

end HelmAddon
