import HelmAddon.Theorems.Finalizer

/-! What a pass writes. Every write of a pass goes through the create or update of a release, its
    Delete, or the patch of the HelmChartProxy, and every change of the in-memory object keeps its
    spec; a property those keep, every pass keeps (`Store.pass_keeps`). Two consequences follow.
    Whatever calls fail, in whatever order the map is read and whatever the rollout options, a pass
    installs or upgrades a release only on a selected cluster, and only to the spec the
    HelmChartProxy wants there (`pass_installs_only_desired`). Once the object is marked for deletion,
    no run installs anything: the object stays marked until it is gone, and every release keeps the
    namespaced name and the spec of a release that was there when the mark was set
    (`teardown_run_installs_nothing`). A pass over a marked object takes the deletion branch,
    whatever its listings return, and that branch writes only through Deletes and the patch. Under the
    InstallOnce strategy a pass over a live object takes no Delete at all
    (`pass_installOnce_keeps_releases`). -/

namespace HelmAddon

open Pass

/-! ### The writes of a pass -/

variable {P : Store → HelmChartProxy → Prop}

/-- The rollout metadata of listed clusters is metadata of those clusters. --/
theorem rolloutMetaSorted_clusters {mo : MapOrder} {cs : List Cluster} {hs : List HelmReleaseProxy}
    {metas : List RolloutMeta} (hd : (cs.map Cluster.key).Nodup) (e : rolloutMetaSorted mo cs hs = some metas) :
    ∀ m ∈ metas, m.cluster ∈ cs := by
  rw [rolloutMetaSorted_eq mo hd] at e
  split at e
  · cases e
  · cases e
    intro m mem
    obtain ⟨x, mem_x, rfl⟩ := List.mem_map.mp mem
    rw [rolloutMetaOf_cluster]
    exact (List.mem_insertionSort _).mp mem_x

section Body

variable (hproxy : ∀ f : HelmChartProxy → HelmChartProxy, (∀ q, (f q).spec = q.spec) → (modifyProxy f).Preserves P)
  (hpatch : patchProxy.Preserves P)
include hproxy hpatch

theorem preserves_patchHelmChartProxy : patchHelmChartProxy.Preserves P :=
  (hproxy _ fun q => by cases q; rfl).bind fun _ => (hproxy _ fun q => by cases q; rfl).bind fun _ => hpatch

/-- The deletion branch writes only through the Deletes of its releases and the patch of the
    HelmChartProxy. --/
theorem preserves_reconcileDeleting (hdel : ∀ key, (deleteRelease key).Preserves P) (rl : List HelmReleaseProxy) :
    (reconcileDeleting rl).Preserves P := by
  have delete : (reconcileDelete rl).Preserves P :=
    (preserves_deleteAndConfirm hdel rl).bind fun _ => ((hproxy _ fun q => by cases q; rfl).bind fun _ =>
      preserves_pure _).ite ((preserves_pure _).bind fun _ => preserves_pure _)
  refine preserves_getProxy.bind fun _ => ((delete.bind fun _ => ?_).ite ((preserves_pure _).bind fun _ =>
    preserves_pure _))
  exact (preserves_pure _).ite ((hproxy _ fun q => by cases q; rfl).bind fun _ =>
    (preserves_patchHelmChartProxy hproxy hpatch).bind fun _ => preserves_pure _)

/-- The live branch writes only through reconcileNormal, the conditions and the patch that registers
    the finalizer. --/
theorem preserves_reconcileLive {S : Cluster → Prop} (hA : ApplyWrites S P) {cl : List Cluster}
    {rl : List HelmReleaseProxy} (hnormal : (reconcileNormal cl rl).Preserves P) :
    (reconcileLive cl rl).Preserves P := by
  have rest : ∀ _ : Unit, Preserves P (do
      let res ← reconcileNormal cl rl
      modifyConditions (·.markTrue .helmReleaseProxySpecsUpToDate)
      aggregateHelmReleaseProxyReadyCondition
      return res) := fun _ =>
    hnormal.bind fun _ => (hA.conditions _).bind fun _ => hA.aggregateHelmReleaseProxyReadyCondition.bind fun _ =>
      preserves_pure _
  exact preserves_getProxy.bind fun _ => Preserves.ite ((hproxy _ fun q => by cases q; rfl).bind fun _ =>
    (preserves_patchHelmChartProxy hproxy hpatch).bind rest) ((preserves_pure _).bind rest)

omit hpatch in
/-- The body of Reconcile writes only through the branch its deletion mark picks, run on the selection
    its selector converts to: the listings, the handler of a failed selection and the record of the
    matching clusters change nothing else. --/
theorem preserves_reconcileFetched_of {c : Ctx}
    (hbranch : ∀ sel, labelSelectorAsSelector c.proxy.spec.clusterSelector = .ok sel → ∀ rl,
      (if c.proxy.deletionTimestamp then reconcileDeleting rl
        else reconcileLive (c.store.listClusters c.proxy.namespace sel) rl).Preserves P)
    (hc : P c.store c.proxy) : P (reconcileFetched c).1.store (reconcileFetched c).1.proxy := by
  simp only [reconcileFetched, bind_apply, getProxy_apply]
  split <;> rename_i c₁ cl heq <;>
    have h₁ := ((preserves_listClustersWithLabels _ _).tryCatch fun _ => (hproxy _ fun q => by cases q; rfl).bind
      fun _ => preserves_throw _).of_eq heq hc
  · have listed := Pass.tryCatch_of_ok (fun _ _ => by rfl) (congrArg Prod.snd heq)
    obtain ⟨sel, hsel, rfl⟩ := listClustersWithLabels_value (listed ▸ congrArg Prod.snd heq)
    simp only [modifyProxy_apply]
    have h₂ := hproxy (·.modifyStatus (·.setMatchingClusters ((c.store.listClusters c.proxy.namespace sel).map
      Cluster.ref))) (fun q => by cases q; rfl) c₁ h₁
    split <;> rename_i c₃ rl heq₃
    · exact hbranch sel hsel rl c₃ ((preserves_listReleases _ _).of_eq heq₃ h₂)
    · exact (preserves_listReleases _ _).of_eq heq₃ h₂
  · exact h₁

/-- On an object marked for deletion the body takes the deletion branch, whatever the listings
    return. --/
theorem preserves_reconcileFetched_deleting (hdel : ∀ key, (deleteRelease key).Preserves P) {c : Ctx}
    (hd : c.proxy.deletionTimestamp = true) (hc : P c.store c.proxy) :
    P (reconcileFetched c).1.store (reconcileFetched c).1.proxy :=
  preserves_reconcileFetched_of hproxy (fun _ _ rl => by
    rw [if_pos hd]
    exact preserves_reconcileDeleting hproxy hpatch hdel rl) hc

/-- The body writes only through the writes of reconcileNormal for the clusters it lists, the Deletes
    of the deletion branch and the patch. --/
theorem preserves_reconcileFetched {S : Cluster → Prop} (hP : NormalWrites S P) {c : Ctx}
    (hS : ∀ sel, labelSelectorAsSelector c.proxy.spec.clusterSelector = .ok sel →
      ∀ x ∈ c.store.listClusters c.proxy.namespace sel, S x)
    (hc : P c.store c.proxy) : P (reconcileFetched c).1.store (reconcileFetched c).1.proxy :=
  preserves_reconcileFetched_of hproxy (fun sel hsel _ =>
    (preserves_reconcileDeleting hproxy hpatch hP.delete _).ite (preserves_reconcileLive hproxy hpatch hP.toApplyWrites
      (hP.reconcileNormal (hS sel hsel) fun _ _ e m mem => hS sel hsel _ (rolloutMetaSorted_clusters
        (((List.filter_sublist _).map _).nodup c.store.clusters.distinct) e m mem)))) hc

end Body

/-- A property of the store that the create or update of a release, its Delete and the patch of the
    HelmChartProxy keep, every pass keeps. --/
theorem Store.pass_keeps {Q : Store → Prop} (happly : ∀ {s} p cl, Q s → Q (s.applyRelease p cl))
    (hdel : ∀ {s t} key, Q s → s.deleteRelease key = some t → Q t)
    (hpatch : ∀ {s t} p, Q s → s.patchProxy p = some t → Q t) {s : Store} (hs : Q s) (env : Env) :
    Q (s.pass env).1.store := by
  have hproxy : ∀ f : HelmChartProxy → HelmChartProxy, (∀ q, (f q).spec = q.spec) →
      (modifyProxy f).Preserves fun s _ => Q s := fun _ _ => preserves_modifyProxy id
  have hP : NormalWrites (fun _ => True) fun s _ => Q s :=
    { status := fun _ => hproxy _ fun q => by cases q; rfl
      apply := fun cl _ => preserves_applyRelease fun h => happly _ cl h
      delete := preserves_deleteRelease hdel }
  have hpatch' := preserves_patchProxy (P := fun s _ => Q s) fun h e => hpatch _ h e
  rcases s.pass_cases env with e | ⟨c, p, -, rfl, rfl, e⟩
  · rwa [e]
  · rw [e]
    exact preserves_patchHelmChartProxy hproxy hpatch' _
      (preserves_reconcileFetched hproxy hpatch' hP (fun _ _ _ _ => trivial) hs)

/-! ### What a pass installs -/

/-- A patch writes no release. --/
theorem Store.patchProxy_releases {s s' : Store} {p : HelmChartProxy} (e : s.patchProxy p = some s') :
    s'.releases = s.releases := by
  unfold Store.patchProxy at e
  split at e
  · cases e
  · cases e; rfl

/-- What Helm installs for a release: its namespaced name, and the chart and cluster of its spec. --/
def HelmReleaseProxy.installed (h : HelmReleaseProxy) : ObjectKey × HelmReleaseProxySpec := (h.key, h.spec)

namespace HelmReleaseProxy

variable (h : HelmReleaseProxy)

@[simp] theorem key_updateSpec (sp : HelmReleaseProxySpec) : (h.updateSpec sp).key = h.key := by
  cases h
  simp only [updateSpec]
  split <;> rfl

@[simp] theorem spec_updateSpec (sp : HelmReleaseProxySpec) : (h.updateSpec sp).spec = sp := by
  cases h
  simp only [updateSpec]
  split
  · assumption
  · rfl

@[simp] theorem deletionTimestamp_updateSpec (sp : HelmReleaseProxySpec) :
    (h.updateSpec sp).deletionTimestamp = h.deletionTimestamp := by
  cases h
  simp only [updateSpec]
  split <;> rfl

@[simp] theorem installed_updateSpec (sp : HelmReleaseProxySpec) : (h.updateSpec sp).installed = (h.key, sp) :=
  Prod.ext (h.key_updateSpec sp) (h.spec_updateSpec sp)

@[simp] theorem installed_markDeleted : h.markDeleted.installed = h.installed := by cases h; rfl

@[simp] theorem installed_setStatus (st : HelmReleaseProxyStatus) (fs : List String) :
    (h.setStatus st fs).installed = h.installed := by
  cases h; rfl

/-- A release with the spec the HelmChartProxy wants on a cluster targets that cluster. --/
theorem clusterKey_of_spec {p : HelmChartProxy} {x : Cluster} (e : h.spec = Store.desiredSpec p x) :
    h.clusterKey = x.key := by
  unfold clusterKey
  rw [e]
  rfl

end HelmReleaseProxy

namespace Store

variable {s t : Store} {p : HelmChartProxy} {cl : Cluster}

/-- The spec a HelmChartProxy wants reads only its spec. --/
theorem desiredSpec_of_spec {q : HelmChartProxy} (e : q.spec = p.spec) (x : Cluster) :
    desiredSpec q x = desiredSpec p x := by
  unfold desiredSpec
  rw [e]

theorem clusterKey_updateSpec_desired (h : HelmReleaseProxy) : (h.updateSpec (desiredSpec p cl)).clusterKey = cl.key :=
  HelmReleaseProxy.clusterKey_of_spec _ (h.spec_updateSpec _)

/-- What holds of every release before the write, of an updated release and of a new one holds of
    every release after it. --/
theorem forall_applyRelease {Q : HelmReleaseProxy → Prop} (hQ : ∀ h ∈ s.releases, Q h)
    (hupd : ∀ h ∈ s.releases, Q (h.updateSpec (desiredSpec p cl))) (hnew : ∀ n, Q (newRelease p cl n)) :
    ∀ h ∈ (s.applyRelease p cl).releases, Q h := by
  unfold applyRelease
  split
  · simp only [setReleases_releases, List.mem_map]
    rintro _ ⟨h, mem, rfl⟩
    split
    exacts [hupd h mem, hQ h mem]
  · simp only [addRelease_releases, List.mem_append, List.mem_singleton]
    rintro h (mem | rfl)
    exacts [hQ h mem, hnew _]

/-- Every release of the store installs what `Q` allows. --/
def InstallsOnly (Q : ObjectKey × HelmReleaseProxySpec → Prop) (s : Store) : Prop :=
  ∀ h ∈ s.releases, Q h.installed

namespace InstallsOnly

variable {Q : ObjectKey × HelmReleaseProxySpec → Prop}

theorem of_releases (hs : s.InstallsOnly Q) (hr : t.releases = s.releases) : t.InstallsOnly Q :=
  fun h mem => hs h (hr ▸ mem)

/-- A rewrite of the releases that drops some and keeps what the others install. --/
theorem filterMap (hs : s.InstallsOnly Q) {g : HelmReleaseProxy → Option HelmReleaseProxy}
    (hg : ∀ h h', g h = some h' → h'.installed = h.installed) :
    (s.setReleases (s.releases.filterMap g)).InstallsOnly Q := fun h mem => by
  obtain ⟨h₀, mem₀, e₀⟩ := List.mem_map.mp ((map_filterMap_sublist _ hg s.releases).subset (List.mem_map_of_mem _ mem))
  exact e₀ ▸ hs h₀ mem₀

/-- A Delete removes a release or marks it, and a marked release installs what it did. --/
theorem deleteRelease {key : ObjectKey} (hs : s.InstallsOnly Q) (e : s.deleteRelease key = some t) :
    t.InstallsOnly Q := by
  rw [Store.deleteRelease_eq_some e]
  exact hs.filterMap fun h _ e => by rcases Store.afterDelete_eq_some e with rfl | rfl <;> simp

theorem patchProxy (hs : s.InstallsOnly Q) (e : s.patchProxy p = some t) : t.InstallsOnly Q :=
  hs.of_releases (patchProxy_releases e)

/-- The HelmReleaseProxy controller writes status and finalizers, never what a release installs. --/
theorem updateRelease (hs : s.InstallsOnly Q) (key : ObjectKey) (status : HelmReleaseProxyStatus)
    (finalizers : List String) : (s.updateRelease key status finalizers).InstallsOnly Q := by
  refine hs.filterMap fun h h' e => ?_
  split at e
  · split at e
    · cases e
    · cases e; simp
  · cases e; rfl

/-- The write for a cluster installs, under some name, the spec the HelmChartProxy wants there. --/
theorem applyRelease (hs : s.InstallsOnly Q) (hQ : ∀ key, Q (key, desiredSpec p cl)) :
    (s.applyRelease p cl).InstallsOnly Q :=
  forall_applyRelease (Q := fun h => Q h.installed) hs
    (fun h _ => by simp only [HelmReleaseProxy.installed_updateSpec]; exact hQ h.key) fun _ => hQ _

end InstallsOnly

end Store

/-- The body of Reconcile and the patch after it install, under any name, only what the HelmChartProxy
    wants on a cluster its selector lists, whatever the calls return. --/
theorem installsOnly_reconcileFetched {c : Ctx} {Q : ObjectKey × HelmReleaseProxySpec → Prop}
    (hQ : ∀ sel, labelSelectorAsSelector c.proxy.spec.clusterSelector = .ok sel →
      ∀ x ∈ c.store.listClusters c.proxy.namespace sel, ∀ key, Q (key, Store.desiredSpec c.proxy x))
    (hc : c.store.InstallsOnly Q) : (patchHelmChartProxy (reconcileFetched c).1).1.store.InstallsOnly Q := by
  let P : Store → HelmChartProxy → Prop := fun s q => q.spec = c.proxy.spec ∧ s.InstallsOnly Q
  have hproxy : ∀ f : HelmChartProxy → HelmChartProxy, (∀ q, (f q).spec = q.spec) → (modifyProxy f).Preserves P :=
    fun _ hf => preserves_modifyProxy fun ⟨e, hs⟩ => ⟨(hf _).trans e, hs⟩
  have hpatch := preserves_patchProxy (P := P) fun ⟨e, hs⟩ et => ⟨e, hs.patchProxy et⟩
  have hP : NormalWrites (fun x => ∀ key, Q (key, Store.desiredSpec c.proxy x)) P :=
    { status := fun _ => hproxy _ fun q => by cases q; rfl
      apply := fun _ hx => preserves_applyRelease fun ⟨e, hs⟩ =>
        ⟨e, hs.applyRelease fun key => (Store.desiredSpec_of_spec e _).symm ▸ hx key⟩
      delete := preserves_deleteRelease fun _ ⟨e, hs⟩ et => ⟨e, hs.deleteRelease et⟩ }
  exact (preserves_patchHelmChartProxy hproxy hpatch _ (preserves_reconcileFetched hproxy hpatch hP hQ ⟨rfl, hc⟩)).2

/-- Whatever its calls return and whatever the rollout options, a pass installs or upgrades a release
    only on a cluster the selector of the HelmChartProxy lists, and only to the spec the HelmChartProxy
    wants there: every release after the pass has the namespaced name and spec of a release the pass
    began with, or that desired spec. --/
theorem pass_installs_only_desired (s : Store) (env : Env) : ∀ h ∈ (s.pass env).1.store.releases,
    (h.key, h.spec) ∈ s.releases.map (fun h₀ => (h₀.key, h₀.spec)) ∨
      ∃ p, s.proxy = some p ∧ ∃ x ∈ s.selected, h.clusterKey = x.key ∧ h.spec = Store.desiredSpec p x := by
  have kept : s.InstallsOnly (· ∈ s.releases.map HelmReleaseProxy.installed) := fun h mem => List.mem_map_of_mem _ mem
  rcases s.pass_cases env with e | ⟨c, p, hp, rfl, rfl, e⟩
  · rw [e]
    exact fun h mem => .inl (kept h mem)
  · rw [e]
    have hQ : ∀ sel, labelSelectorAsSelector c.proxy.spec.clusterSelector = .ok sel →
        ∀ x ∈ c.store.listClusters c.proxy.namespace sel, ∀ key,
          (key, Store.desiredSpec c.proxy x) ∈ c.store.releases.map HelmReleaseProxy.installed ∨
            ∃ y ∈ c.store.selected, Store.desiredSpec c.proxy x = Store.desiredSpec c.proxy y := by
      intro sel hsel x mem _
      refine .inr ⟨x, ?_, rfl⟩
      simpa only [Store.selected, hp, hsel] using mem
    refine fun h mem => (installsOnly_reconcileFetched (Q := fun i => i ∈ c.store.releases.map HelmReleaseProxy.installed ∨
      ∃ y ∈ c.store.selected, i.2 = Store.desiredSpec c.proxy y) hQ (fun h mem => .inl (kept h mem)) h mem).imp id ?_
    rintro ⟨x, mem_x, hx⟩
    exact ⟨c.proxy, hp, x, mem_x, h.clusterKey_of_spec hx, hx⟩

/-- The first pass over cluster a creates its release with the desired spec. --/
theorem fleetStore_pass_installs_only_desired :
    Store.newRelease (nginxProxy none) (prodCluster "a") 0 ∈
        ((fleetStore ⟨[prodCluster "a"], by decide⟩ none).pass {}).1.store.releases ∧
      (((Store.newRelease (nginxProxy none) (prodCluster "a") 0).key, (Store.newRelease (nginxProxy none) (prodCluster "a") 0).spec) ∈
          (fleetStore ⟨[prodCluster "a"], by decide⟩ none).releases.map (fun h₀ => (h₀.key, h₀.spec)) ∨
        ∃ p, (fleetStore ⟨[prodCluster "a"], by decide⟩ none).proxy = some p ∧
          ∃ x ∈ (fleetStore ⟨[prodCluster "a"], by decide⟩ none).selected,
            (Store.newRelease (nginxProxy none) (prodCluster "a") 0).clusterKey = x.key ∧
            (Store.newRelease (nginxProxy none) (prodCluster "a") 0).spec = Store.desiredSpec p x) :=
  have mem : Store.newRelease (nginxProxy none) (prodCluster "a") 0 ∈
      ((fleetStore ⟨[prodCluster "a"], by decide⟩ none).pass {}).1.store.releases := by
    decide
  ⟨mem, pass_installs_only_desired _ _ _ mem⟩

/-! ### InstallOnce -/

/-- Every release of `rs` is in the store under its namespaced name, with its deletion mark. --/
def Store.Retains (rs : List HelmReleaseProxy) (s : Store) : Prop :=
  ∀ h ∈ rs, ∃ h' ∈ s.releases, h'.key = h.key ∧ h'.deletionTimestamp = h.deletionTimestamp

namespace Store.Retains

variable {rs : List HelmReleaseProxy} {s t : Store}

theorem releases (s : Store) : s.Retains s.releases := fun h mem => ⟨h, mem, rfl, rfl⟩

/-- The write for a cluster updates a release in place or adds one: it removes and marks none. --/
theorem applyRelease (hk : s.Retains rs) (p : HelmChartProxy) (cl : Cluster) : (s.applyRelease p cl).Retains rs :=
  fun h mem => by
  obtain ⟨h', mem', hkey, hmark⟩ := hk h mem
  unfold Store.applyRelease
  split
  · refine ⟨_, List.mem_map_of_mem _ mem', ?_⟩
    split <;> simp only [HelmReleaseProxy.key_updateSpec, HelmReleaseProxy.deletionTimestamp_updateSpec, hkey, hmark,
      and_self]
  · exact ⟨h', List.mem_append_left _ mem', hkey, hmark⟩

theorem patchProxy {p : HelmChartProxy} (hk : s.Retains rs) (e : s.patchProxy p = some t) : t.Retains rs :=
  fun h mem => Store.patchProxy_releases e ▸ hk h mem

end Store.Retains

/-- Under the InstallOnce strategy a pass over a live HelmChartProxy deletes no release, whatever its
    calls return: every release the store held is still there after the pass, under its namespaced
    name and with its deletion mark, orphans included. --/
theorem pass_installOnce_keeps_releases {s : Store} {p : HelmChartProxy} (hp : s.proxy = some p)
    (hlive : p.deletionTimestamp = false) (hio : p.spec.reconcileStrategy = reconcileStrategyInstallOnce)
    (env : Env) : ∀ h ∈ s.releases, ∃ h' ∈ (s.pass env).1.store.releases,
      h'.key = h.key ∧ h'.deletionTimestamp = h.deletionTimestamp := by
  let P : Store → HelmChartProxy → Prop := fun t q => q.spec = p.spec ∧ t.Retains s.releases
  have hproxy : ∀ f : HelmChartProxy → HelmChartProxy, (∀ q, (f q).spec = q.spec) → (modifyProxy f).Preserves P :=
    fun _ hf => preserves_modifyProxy fun ⟨e, hk⟩ => ⟨(hf _).trans e, hk⟩
  have hpatch := preserves_patchProxy (P := P) fun ⟨e, hk⟩ et => ⟨e, hk.patchProxy et⟩
  have hA : ApplyWrites (fun _ => True) P :=
    { status := fun _ => hproxy _ fun q => by cases q; rfl
      apply := fun cl _ => preserves_applyRelease fun ⟨e, hk⟩ => ⟨e, hk.applyRelease _ cl⟩ }
  rcases s.pass_cases env with e | ⟨c, q, hq, rfl, hc, e⟩
  · rw [e]
    exact Store.Retains.releases s
  · obtain rfl : q = p := Option.some_injective _ (hq.symm.trans hp)
    rw [e]
    refine (preserves_patchHelmChartProxy hproxy hpatch _ (preserves_reconcileFetched_of hproxy (fun _ _ rl => ?_)
      ⟨hc ▸ rfl, Store.Retains.releases _⟩)).2
    rw [hc, hlive, if_neg Bool.false_ne_true]
    exact preserves_reconcileLive hproxy hpatch hA (hA.reconcileNormal_installOnce (fun _ _ hc' => hc'.1 ▸ hio)
      (fun _ _ => trivial) fun _ _ _ _ _ => trivial)

/-- The settled store once `nginx` is switched to InstallOnce and cluster b has left the fleet: the
    release on b is an orphan, which a pass under the default strategy deletes. --/
def installOnceStore : Store :=
  settledStore.run [.editSpec { (nginxProxy (some (installRollout 1 1))).spec with
    reconcileStrategy := reconcileStrategyInstallOnce }, .setClusters ⟨[], by decide⟩]

theorem installOnceStore_pass_keeps_releases :
    nginxRelease (prodCluster "b") true ∈ installOnceStore.releases ∧
      ∃ h' ∈ (installOnceStore.pass {}).1.store.releases, h'.key = (nginxRelease (prodCluster "b") true).key ∧
        h'.deletionTimestamp = (nginxRelease (prodCluster "b") true).deletionTimestamp :=
  have mem : nginxRelease (prodCluster "b") true ∈ installOnceStore.releases := by decide
  ⟨mem, pass_installOnce_keeps_releases rfl rfl rfl {} _ mem⟩

/-- Under the default strategy the same pass deletes the orphan. --/
example : ((settledStore.run [.setClusters ⟨[], by decide⟩]).pass {}).1.store.releases = [] := by decide

/-! ### Teardown -/

/-- The store during the teardown of a HelmChartProxy: the object is marked for deletion or gone,
    and every release installs what one of the releases `rs` installed. --/
structure Store.Teardown (rs : List HelmReleaseProxy) (s : Store) : Prop where
  deleting : ∀ q ∈ s.proxy, q.deletionTimestamp = true
  installed : s.InstallsOnly (· ∈ rs.map HelmReleaseProxy.installed)

namespace Store.Teardown

variable {rs : List HelmReleaseProxy} {s : Store}

theorem of_store {t : Store} (ht : s.Teardown rs) (hp : t.proxy = s.proxy) (hr : t.releases = s.releases) :
    t.Teardown rs :=
  ⟨hp ▸ ht.deleting, ht.installed.of_releases hr⟩

theorem deleteRelease {t : Store} {key : ObjectKey} (ht : s.Teardown rs) (e : s.deleteRelease key = some t) :
    t.Teardown rs :=
  ⟨Store.deleteRelease_eq_some e ▸ ht.deleting, ht.installed.deleteRelease e⟩

/-- A patch keeps the deletion mark of the stored object, or removes it. --/
theorem patchProxy {t : Store} {p : HelmChartProxy} (ht : s.Teardown rs) (e : s.patchProxy p = some t) :
    t.Teardown rs := by
  refine ⟨fun q' hq' => ?_, ht.installed.patchProxy e⟩
  unfold Store.patchProxy at e
  split at e
  · cases e
  · rename_i q hq
    cases e
    simp only [Store.setProxy_proxy] at hq'
    split at hq'
    · cases hq'
    · cases hq'
      simpa [HelmChartProxy.modifyStatus, HelmChartProxy.setFinalizers] using ht.deleting q hq

/-- A pass over an object marked for deletion writes only through Deletes and patches. --/
theorem pass (ht : s.Teardown rs) (env : Env) : (s.pass env).1.store.Teardown rs := by
  have hproxy : ∀ f : HelmChartProxy → HelmChartProxy, (∀ q, (f q).spec = q.spec) →
      (modifyProxy f).Preserves fun s _ => s.Teardown rs := fun _ _ => preserves_modifyProxy id
  have hdel := preserves_deleteRelease (P := fun s _ => s.Teardown rs) fun _ ht e => ht.deleteRelease e
  have hpatch := preserves_patchProxy (P := fun s _ => s.Teardown rs) fun ht e => ht.patchProxy e
  rcases s.pass_cases env with e | ⟨c, p, hp, rfl, rfl, e⟩
  · rwa [e]
  · rw [e]
    exact preserves_patchHelmChartProxy hproxy hpatch _
      (preserves_reconcileFetched_deleting hproxy hpatch hdel (ht.deleting _ hp) ht)

theorem editSpec (ht : s.Teardown rs) (spec : HelmChartProxySpec) : (s.editSpec spec).Teardown rs := by
  unfold Store.editSpec
  split
  · exact ht
  · rename_i p hp
    split
    · exact ht
    · refine ⟨fun q hq => ?_, ht.installed⟩
      rw [Store.setProxy_proxy, Option.mem_some_iff] at hq
      subst hq
      simpa [HelmChartProxy.editSpec] using ht.deleting p hp

theorem deleteProxy (ht : s.Teardown rs) : s.deleteProxy.Teardown rs := by
  unfold Store.deleteProxy
  split
  · exact ht
  · refine ⟨fun q hq => ?_, ht.installed⟩
    simp only [Store.setProxy_proxy] at hq
    split at hq
    · cases hq
    · cases hq
      cases ‹HelmChartProxy›; rfl

theorem updateRelease (ht : s.Teardown rs) (key : ObjectKey) (status : HelmReleaseProxyStatus)
    (finalizers : List String) : (s.updateRelease key status finalizers).Teardown rs :=
  ⟨ht.deleting, ht.installed.updateRelease key status finalizers⟩

/-- Every event keeps the teardown going. --/
theorem step (ht : s.Teardown rs) : ∀ e : Event, (s.step e).Teardown rs
  | .reconcile env => ht.pass env
  | .setClusters cs => ht.of_store (t := s.setClusters cs) rfl rfl
  | .editSpec spec => ht.editSpec spec
  | .deleteProxy => ht.deleteProxy
  | .updateRelease key status finalizers => ht.updateRelease key status finalizers

theorem run (ht : s.Teardown rs) (es : List Event) : (s.run es).Teardown rs := by
  induction es generalizing s with
  | nil => exact ht
  | cons e es ih => exact ih (ht.step e)

end Store.Teardown

/-- Once the HelmChartProxy is marked for deletion, no run installs anything new: whatever the other
    actors do and whichever calls fail, the object stays marked until it is gone, and every release
    has the namespaced name and the spec of a release that was there when the mark was set. --/
theorem teardown_run_installs_nothing {s : Store} (hd : ∀ q ∈ s.proxy, q.deletionTimestamp = true)
    (es : List Event) : (∀ q ∈ (s.run es).proxy, q.deletionTimestamp = true) ∧
      ∀ h ∈ (s.run es).releases, (h.key, h.spec) ∈ s.releases.map fun h₀ => (h₀.key, h₀.spec) := by
  have ht := (⟨hd, fun h mem => List.mem_map_of_mem _ mem⟩ : s.Teardown s.releases).run es
  exact ⟨ht.deleting, ht.installed⟩

/-- The deleted `nginx` whose release is held by a finalizer: through a pass, an edit of the spec
    and another pass, the object stays marked and the release stays, with its name and spec. --/
theorem heldStore_run_installs_nothing :
    (∀ q ∈ heldStore.proxy, q.deletionTimestamp = true) ∧
      (heldStore.run [.reconcile {}, .editSpec (nginxProxy none).spec, .reconcile {}]).proxy.isSome = true ∧
      (heldStore.run [.reconcile {}, .editSpec (nginxProxy none).spec, .reconcile {}]).releases.length = 1 ∧
      (∀ q ∈ (heldStore.run [.reconcile {}, .editSpec (nginxProxy none).spec, .reconcile {}]).proxy,
        q.deletionTimestamp = true) ∧
      ∀ h ∈ (heldStore.run [.reconcile {}, .editSpec (nginxProxy none).spec, .reconcile {}]).releases,
        (h.key, h.spec) ∈ heldStore.releases.map fun h₀ => (h₀.key, h₀.spec) :=
  have hd : ∀ q ∈ heldStore.proxy, q.deletionTimestamp = true := by decide
  ⟨hd, rfl, rfl, teardown_run_installs_nothing hd _⟩

end HelmAddon
