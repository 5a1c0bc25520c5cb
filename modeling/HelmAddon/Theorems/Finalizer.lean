import HelmAddon.Theorems.RolloutRun
import HelmAddon.Theorems.Deletion

/-! The finalizer protocol. The HelmChartProxy keeps its finalizer while any of its HelmReleaseProxies
    exists, so the API server removes it only after its releases. This holds in every store a run
    reaches, whichever calls fail, in whatever order the map is read, and whatever the other actors
    do: clusters change, the spec is edited, the HelmChartProxy is deleted, the HelmReleaseProxy
    controller writes a release.

    The invariant (`Guarded`) says more than that, because a pass relies on it: every release carries
    the labels and the controller reference of the HelmChartProxy, so that the listing finds it and
    the watch maps it back, and no two releases target one cluster. A pass keeps it stage by stage
    (`Pass.Preserves`): the live branch patches the finalizer before it writes any release, and the
    deletion branch removes the finalizer only once the releases it listed, which are all of them,
    are gone. -/

namespace HelmAddon

/-! ### Steps that keep a property of the store and the in-memory object -/

/-- A step keeps `P` of the store and the in-memory HelmChartProxy, whatever it returns. --/
def Pass.Preserves {α : Type} (P : Store → HelmChartProxy → Prop) (x : Pass α) : Prop :=
  ∀ c, P c.store c.proxy → P (x c).1.store (x c).1.proxy

namespace Pass

variable {α β : Type} {P : Store → HelmChartProxy → Prop} {x : Pass α} {f : α → Pass β}

theorem preserves_of_eq (h : ∀ c, (x c).1.store = c.store ∧ (x c).1.proxy = c.proxy) : x.Preserves P :=
  fun c hc => by rw [(h c).1, (h c).2]; exact hc

theorem Preserves.bind (hx : x.Preserves P) (hf : ∀ a, (f a).Preserves P) : (x >>= f).Preserves P := fun c hc => by
  have h := hx c hc
  rw [bind_apply]
  generalize x c = r at h ⊢
  obtain ⟨c', e | a⟩ := r
  · exact h
  · exact hf a c' h

theorem Preserves.tryCatch {h : Error → Pass α} (hx : x.Preserves P) (hh : ∀ e, (h e).Preserves P) :
    (tryCatch x h : Pass α).Preserves P := fun c hc => by
  have h' := hx c hc
  rw [tryCatch_apply]
  generalize x c = r at h' ⊢
  obtain ⟨c', e | a⟩ := r
  · exact hh e c' h'
  · exact h'

theorem Preserves.ite {b : Prop} [Decidable b] {y : Pass α} (hx : x.Preserves P) (hy : y.Preserves P) :
    (if b then x else y).Preserves P := by
  split <;> assumption

theorem Preserves.of_eq {c c' : Ctx} {r : Except Error α} (hx : x.Preserves P) (e : x c = (c', r))
    (hc : P c.store c.proxy) : P c'.store c'.proxy := by
  simpa only [e] using hx c hc

theorem Preserves.attempt (hx : x.Preserves P) : (attempt x).Preserves P := hx

theorem preserves_forM {γ : Type} {f : γ → Pass Unit} {l : List γ} (hf : ∀ a ∈ l, (f a).Preserves P) :
    (l.forM f).Preserves P := by
  induction l with
  | nil => exact preserves_of_eq fun _ => ⟨rfl, rfl⟩
  | cons a l ih => exact (hf a (List.mem_cons_self _ _)).bind fun _ => ih fun b mem => hf b (List.mem_cons_of_mem _ mem)

/-- A bind that succeeds ran both of its parts with success. --/
theorem bind_eq_ok {c c' : Ctx} {b : β} (e : (x >>= f) c = (c', .ok b)) :
    ∃ c₁ a, x c = (c₁, .ok a) ∧ f a c₁ = (c', .ok b) := by
  rw [bind_apply] at e
  split at e
  · exact ⟨_, _, ‹_›, e⟩
  · cases (Prod.mk.inj e).2

/-- A step whose handler rethrows succeeds only when the step itself does. --/
theorem tryCatch_throw_eq_ok {g : Error → Error} {c c' : Ctx} {a : α}
    (e : (tryCatch x fun err => throw (g err) : Pass α) c = (c', .ok a)) : x c = (c', .ok a) := by
  rw [tryCatch_apply] at e
  split at e
  · rename_i heq; exact heq.trans e
  · cases (Prod.mk.inj e).2

theorem preserves_pure (a : α) : (pure a : Pass α).Preserves P := preserves_of_eq fun _ => ⟨rfl, rfl⟩

theorem preserves_throw (e : Error) : (throw e : Pass α).Preserves P := preserves_of_eq fun _ => ⟨rfl, rfl⟩

theorem preserves_ofExcept (r : Except Error α) : (ofExcept r).Preserves P := by
  cases r <;> exact preserves_of_eq fun _ => ⟨rfl, rfl⟩

end Pass

open Pass

variable {P : Store → HelmChartProxy → Prop}

theorem preserves_modifyProxy {f : HelmChartProxy → HelmChartProxy} (hf : ∀ {s p}, P s p → P s (f p)) :
    (modifyProxy f).Preserves P := fun _ hc => hf hc

theorem preserves_getProxy : getProxy.Preserves P := preserves_of_eq fun _ => ⟨rfl, rfl⟩

theorem preserves_getMapOrder : getMapOrder.Preserves P := preserves_of_eq fun _ => ⟨rfl, rfl⟩

theorem preserves_storeCall (k : StoreCall) : (storeCall k).Preserves P :=
  preserves_of_eq fun c => by simp [storeCall_fst]

theorem preserves_listClusters (ns : String) (sel : Selector) : (listClusters ns sel).Preserves P :=
  (preserves_storeCall _).bind fun _ => (preserves_of_eq fun _ => ⟨rfl, rfl⟩).bind fun _ => preserves_pure _

theorem preserves_listReleases (ns : String) (want : Labels) : (listReleases ns want).Preserves P :=
  (preserves_storeCall _).bind fun _ => (preserves_of_eq fun _ => ⟨rfl, rfl⟩).bind fun _ => preserves_pure _

theorem preserves_getHelmReleaseProxy (key : ObjectKey) : (getHelmReleaseProxy key).Preserves P :=
  (preserves_storeCall _).bind fun _ => (preserves_of_eq fun _ => ⟨rfl, rfl⟩).bind fun _ => preserves_pure _

theorem preserves_listClustersWithLabels (ns : String) (selector : LabelSelector) :
    (listClustersWithLabels ns selector).Preserves P :=
  (preserves_ofExcept _).bind fun _ => preserves_listClusters _ _

/-! ### The writes of reconcileNormal -/

/-- A property that the writes of reconcileNormal other than Deletes keep: the status of the
    in-memory object, and the create or update of the release of a cluster that `S` admits. --/
structure ApplyWrites (S : Cluster → Prop) (P : Store → HelmChartProxy → Prop) : Prop where
  status : ∀ f : HelmChartProxyStatus → HelmChartProxyStatus, (modifyProxy (·.modifyStatus f)).Preserves P
  apply : ∀ cl, S cl → (applyRelease cl).Preserves P

/-- A property that each write of reconcileNormal keeps, the Delete of a release included. --/
structure NormalWrites (S : Cluster → Prop) (P : Store → HelmChartProxy → Prop) extends ApplyWrites S P : Prop where
  delete : ∀ key, (deleteRelease key).Preserves P

namespace ApplyWrites

variable {S : Cluster → Prop} (hP : ApplyWrites S P)
include hP

theorem conditions (f : Conditions → Conditions) : (modifyConditions f).Preserves P := hP.status _

theorem reconcileForCluster {cl : Cluster} (hcl : S cl) : (reconcileForCluster cl).Preserves P :=
  (preserves_of_eq fun _ => ⟨rfl, rfl⟩).bind fun _ => hP.apply cl hcl

theorem reconcileWithoutRollout {clusters : List Cluster} (hcs : ∀ cl ∈ clusters, S cl) :
    (reconcileWithoutRollout clusters).Preserves P :=
  (hP.conditions _).bind fun _ => (preserves_forM fun cl mem => hP.reconcileForCluster (hcs cl mem)).bind fun _ =>
    preserves_pure _

theorem reconcileFirstBatch (stepSize : Int) {metas : List RolloutMeta} (hm : ∀ m ∈ metas, S m.cluster) (count : Int) :
    (reconcileFirstBatch stepSize metas count).Preserves P := by
  induction metas generalizing count with
  | nil => exact preserves_pure _
  | cons meta metas ih =>
    unfold HelmAddon.reconcileFirstBatch
    refine (preserves_pure _).ite ((hP.reconcileForCluster (hm meta (List.mem_cons_self _ _))).attempt.bind
      fun r => ?_)
    split
    exacts [preserves_pure _, ih (fun m mem => hm m (List.mem_cons_of_mem _ mem)) _]

theorem reconcileNextBatch (stepSize : Int) {metas : List RolloutMeta} (hm : ∀ m ∈ metas, S m.cluster) (count : Int) :
    (reconcileNextBatch stepSize metas count).Preserves P := by
  induction metas generalizing count with
  | nil => exact preserves_pure _
  | cons meta metas ih =>
    have tail := ih fun m mem => hm m (List.mem_cons_of_mem _ mem)
    unfold HelmAddon.reconcileNextBatch
    refine (preserves_pure _).ite ((preserves_pure _).ite ((tail _).ite
      ((hP.reconcileForCluster (hm meta (List.mem_cons_self _ _))).attempt.bind fun r => ?_)))
    split
    exacts [preserves_pure _, tail _]

theorem rolloutReconcile {clusters : List Cluster} {helmReleaseProxies : List HelmReleaseProxy}
    (hmeta : ∀ mo metas, rolloutMetaSorted mo clusters helmReleaseProxies = some metas → ∀ m ∈ metas, S m.cluster)
    (installOrUpgrade : InstallOrUpgrade) :
    (rolloutReconcile clusters helmReleaseProxies installOrUpgrade).Preserves P := by
  have unknown : ∀ o metas, (∀ m ∈ metas, S m.cluster) →
      (rolloutWhenUnknown clusters helmReleaseProxies o metas).Preserves P := fun o metas hm => by
    simp only [rolloutWhenUnknown]
    refine (preserves_pure _).ite ((preserves_pure _).bind fun _ => (preserves_ofExcept _).bind fun _ => ?_)
    split <;> refine Preserves.bind ?_ fun _ => (hP.status _).bind fun _ => preserves_ofExcept _
    exacts [preserves_pure _, hP.reconcileFirstBatch _ hm _]
  have true_ : ∀ o metas, (∀ m ∈ metas, S m.cluster) → (rolloutWhenTrue clusters o metas).Preserves P :=
    fun o metas hm => preserves_getProxy.bind fun _ => (preserves_ofExcept _).bind fun _ => (preserves_ofExcept _).bind
      fun _ => (preserves_ofExcept _).bind fun _ => (hP.reconcileNextBatch _ hm _).bind fun _ =>
        preserves_getProxy.bind fun _ => (hP.status _).bind fun _ => preserves_ofExcept _
  refine preserves_getProxy.bind fun p => ?_
  split
  · split
    · refine ((hP.conditions _).bind fun _ => preserves_pure _).ite
        ((preserves_pure _).bind fun _ => (hP.conditions _).bind fun _ => preserves_getMapOrder.bind fun mo => ?_)
      split
      · rename_i metas hsorted
        have hm := hmeta mo metas hsorted
        exact preserves_getProxy.bind fun _ => (unknown _ _ hm).ite (((preserves_forM fun m mem =>
          (hP.reconcileForCluster (hm m mem)).ite (preserves_pure _)).bind fun _ => preserves_pure _).ite (true_ _ _ hm))
      · exact preserves_throw _
    · exact preserves_pure _
  · exact preserves_throw _

theorem aggregateHelmReleaseProxyReadyCondition : aggregateHelmReleaseProxyReadyCondition.Preserves P := by
  refine preserves_getProxy.bind fun _ => (preserves_listReleases _ _).bind fun _ =>
    ((hP.conditions _).bind fun _ => preserves_pure _).ite ((preserves_pure _).bind fun _ => ?_)
  split <;> exact hP.conditions _

/-- Under the InstallOnce strategy reconcileNormal takes no Delete, so a property that the other
    writes keep, and that holds only of InstallOnce objects, it keeps. --/
theorem reconcileNormal_installOnce
    (hio : ∀ s p, P s p → p.spec.reconcileStrategy = reconcileStrategyInstallOnce)
    {clusters : List Cluster} {helmReleaseProxies : List HelmReleaseProxy} (hcs : ∀ cl ∈ clusters, S cl)
    (hmeta : ∀ mo metas, rolloutMetaSorted mo clusters helmReleaseProxies = some metas → ∀ m ∈ metas, S m.cluster) :
    (reconcileNormal clusters helmReleaseProxies).Preserves P := fun c hc => by
  have without := hP.reconcileWithoutRollout hcs
  have rollout := hP.rolloutReconcile hmeta
  rw [HelmAddon.reconcileNormal, bind_apply, getProxy_apply]
  dsimp only
  rw [if_neg (not_not.mpr (hio _ _ hc))]
  refine ((preserves_pure _).bind fun _ => ?_) c hc
  split
  all_goals first | exact without | exact (without.ite (rollout _)).ite (without.ite (rollout _))

end ApplyWrites

namespace NormalWrites

variable {S : Cluster → Prop} (hP : NormalWrites S P)
include hP

theorem deleteOrphanedHelmReleaseProxies (clusters : List Cluster) (releases : List HelmReleaseProxy) :
    (deleteOrphanedHelmReleaseProxies clusters releases).Preserves P := by
  refine preserves_forM fun release _ => (hP.delete _).tryCatch fun e => ?_
  split
  exacts [preserves_pure _, preserves_throw _]

theorem reconcileNormal {clusters : List Cluster} {helmReleaseProxies : List HelmReleaseProxy}
    (hcs : ∀ cl ∈ clusters, S cl)
    (hmeta : ∀ mo metas, rolloutMetaSorted mo clusters helmReleaseProxies = some metas → ∀ m ∈ metas, S m.cluster) :
    (reconcileNormal clusters helmReleaseProxies).Preserves P := by
  have without := hP.reconcileWithoutRollout hcs
  have rollout := hP.rolloutReconcile hmeta
  refine preserves_getProxy.bind fun p => Preserves.ite ((hP.deleteOrphanedHelmReleaseProxies _ _).bind fun _ => ?_)
    ((preserves_pure _).bind fun _ => ?_) <;> split
  all_goals first | exact without | exact (without.ite (rollout _)).ite (without.ite (rollout _))

end NormalWrites

/-! ### Releases of a HelmChartProxy -/

/-- What the owner of a release is read from: its namespace, labels and owner references. --/
def HelmReleaseProxy.owner (h : HelmReleaseProxy) : String × Labels × List OwnerReference :=
  (h.namespace, h.labels, h.ownerReferences)

namespace HelmReleaseProxy

variable (h : HelmReleaseProxy)

@[simp] theorem owner_updateSpec (sp : HelmReleaseProxySpec) : (h.updateSpec sp).owner = h.owner := by
  cases h
  simp only [updateSpec]
  split <;> rfl

@[simp] theorem owner_markDeleted : h.markDeleted.owner = h.owner := by cases h; rfl

@[simp] theorem owner_setStatus (st : HelmReleaseProxyStatus) (fs : List String) : (h.setStatus st fs).owner = h.owner := by
  cases h; rfl

@[simp] theorem clusterKey_markDeleted : h.markDeleted.clusterKey = h.clusterKey := by cases h; rfl

@[simp] theorem clusterKey_setStatus (st : HelmReleaseProxyStatus) (fs : List String) :
    (h.setStatus st fs).clusterKey = h.clusterKey := by
  cases h; rfl

end HelmReleaseProxy

/-- A release of the HelmChartProxy: labelled with its name, and with it as controller owner, so that
    the watch on HelmReleaseProxies maps the release back to it. --/
def BelongsTo (p : HelmChartProxy) (h : HelmReleaseProxy) : Prop :=
  hasLabels h.labels (ownerLabels p) = true ∧ helmReleaseProxyToHelmChartProxyMapper h = [p.key]

namespace BelongsTo

variable {p q : HelmChartProxy} {h h' : HelmReleaseProxy}

theorem of_owner (hb : BelongsTo p h) (e : h'.owner = h.owner) : BelongsTo p h' := by
  simp only [HelmReleaseProxy.owner, Prod.mk.injEq] at e
  obtain ⟨ns, labels, refs⟩ := e
  simpa only [BelongsTo, helmReleaseProxyToHelmChartProxyMapper, ns, labels, refs] using hb

theorem of_key (hb : BelongsTo p h) (e : q.key = p.key) : BelongsTo q h := by
  have name : q.name = p.name := congrArg ObjectKey.name e
  simpa only [BelongsTo, ownerLabels, name, e] using hb

theorem namespace_eq (hb : BelongsTo p h) : h.namespace = p.namespace := by
  have := hb.2
  unfold helmReleaseProxyToHelmChartProxyMapper at this
  split at this
  · exact congrArg ObjectKey.namespace (List.singleton_inj.mp this)
  · cases this

/-- The release reconcileForCluster creates belongs to its HelmChartProxy. --/
theorem of_newRelease (p : HelmChartProxy) (cl : Cluster) (n : Nat) : BelongsTo p (Store.newRelease p cl n) := by
  simp [BelongsTo, hasLabels, ownerLabels, Store.newRelease, helmReleaseProxyToHelmChartProxyMapper,
    HelmChartProxy.key]

/-- The listing of the HelmChartProxy's releases finds every stored release that belongs to it. --/
theorem mem_listReleases {s : Store} (hb : BelongsTo p h) (mem : h ∈ s.releases) :
    h ∈ s.listReleases p.namespace (ownerLabels p) := by
  simpa [Store.listReleases, hb.namespace_eq] using And.intro mem hb.1

/-- A release that belongs to the HelmChartProxy is one that its label lookup finds for its cluster. --/
theorem isReleaseFor_eq (hb : BelongsTo p h) (cl : Cluster) : Store.isReleaseFor p cl h = (h.clusterKey == cl.key) := by
  simp [Store.isReleaseFor, hb.namespace_eq, hb.1]

end BelongsTo

/-! ### The invariant of a pass -/

/-- Both the in-memory HelmChartProxy and the stored one carry the finalizer. --/
def Armed (s : Store) (p : HelmChartProxy) : Prop :=
  helmChartProxyFinalizer ∈ p.finalizers ∧ ∃ q, s.proxy = some q ∧ helmChartProxyFinalizer ∈ q.finalizers

/-- The in-memory HelmChartProxy `p` of a pass guards the releases of the store `s`: the stored object
    is `p` by namespace and name, each release belongs to `p`, the finalizer is on both objects while
    a release exists, and no two releases target one cluster. --/
structure Guarded (s : Store) (p : HelmChartProxy) : Prop where
  key : ∀ q ∈ s.proxy, q.key = p.key
  owned : ∀ h ∈ s.releases, BelongsTo p h
  armed : s.releases ≠ [] → Armed s p
  unique : (s.releases.map HelmReleaseProxy.clusterKey).Nodup

theorem Armed.of_proxy {s s' : Store} {p : HelmChartProxy} (ha : Armed s p) (e : s'.proxy = s.proxy) : Armed s' p :=
  ⟨ha.1, e ▸ ha.2⟩

theorem Guarded.of_nil {s : Store} {p : HelmChartProxy} (hnil : s.releases = []) (hk : ∀ q ∈ s.proxy, q.key = p.key) :
    Guarded s p :=
  ⟨hk, by simp [hnil], fun h => absurd hnil h, by simp [hnil]⟩

/-- Guarding reads only the stored HelmChartProxy and the releases. --/
theorem Guarded.of_store {s t : Store} {p : HelmChartProxy} (hg : Guarded s p) (hp : t.proxy = s.proxy)
    (hr : t.releases = s.releases) : Guarded t p :=
  ⟨hp ▸ hg.key, hr ▸ hg.owned, fun ne => (hg.armed (hr ▸ ne)).of_proxy hp, hr ▸ hg.unique⟩

/-- A change of the in-memory object that keeps its namespace and name and never drops the
    finalizer. --/
theorem Guarded.modifyProxy {s : Store} {p : HelmChartProxy} {f : HelmChartProxy → HelmChartProxy}
    (hg : Guarded s p) (hk : (f p).key = p.key)
    (hf : helmChartProxyFinalizer ∈ p.finalizers → helmChartProxyFinalizer ∈ (f p).finalizers) :
    Guarded s (f p) :=
  ⟨fun q hq => (hg.key q hq).trans hk.symm, fun h mem => (hg.owned h mem).of_key hk,
    fun ne => ⟨hf (hg.armed ne).1, (hg.armed ne).2⟩, hg.unique⟩

/-! ### The writes of a pass, on the store -/

/-- A rewrite of the releases that drops some and keeps a view of the others: the view of what is left
    is a sublist. --/
theorem map_filterMap_sublist {β : Type} (view : HelmReleaseProxy → β) {g : HelmReleaseProxy → Option HelmReleaseProxy}
    (hg : ∀ h h', g h = some h' → view h' = view h) (rs : List HelmReleaseProxy) :
    ((rs.filterMap g).map view).Sublist (rs.map view) := by
  induction rs with
  | nil => exact List.Sublist.slnil
  | cons r rs ih =>
    cases hr : g r with
    | none => simpa [List.filterMap_cons, hr] using ih.cons _
    | some r' => simpa [List.filterMap_cons, hr, hg r r' hr] using ih.cons₂ (view r)

theorem Store.afterDelete_eq_some {key : ObjectKey} {h h' : HelmReleaseProxy} (e : Store.afterDelete key h = some h') :
    h' = h ∨ h' = h.markDeleted := by
  unfold Store.afterDelete at e
  split at e
  · split at e
    · cases e
    · cases e; exact .inr rfl
  · cases e; exact .inl rfl

theorem map_filterMap_afterDelete_sublist {β : Type} (view : HelmReleaseProxy → β)
    (hv : ∀ h, view h.markDeleted = view h) (key : ObjectKey) (rs : List HelmReleaseProxy) :
    ((rs.filterMap (Store.afterDelete key)).map view).Sublist (rs.map view) :=
  map_filterMap_sublist view (fun h _ e => by rcases Store.afterDelete_eq_some e with rfl | rfl; rfl; exact hv h) rs

theorem Store.deleteRelease_eq_some {s s' : Store} {key : ObjectKey} (e : s.deleteRelease key = some s') :
    s' = s.setReleases (s.releases.filterMap (Store.afterDelete key)) := by
  unfold Store.deleteRelease at e
  split at e
  · cases e
  · exact (Option.some.inj e).symm

variable {s s' : Store} {p : HelmChartProxy}

/-- A rewrite of the releases that drops some and keeps the owner and the cluster of the others keeps
    them guarded. --/
theorem Guarded.filterMap (hg : Guarded s p) {g : HelmReleaseProxy → Option HelmReleaseProxy}
    (hv : ∀ h h', g h = some h' → h'.owner = h.owner ∧ h'.clusterKey = h.clusterKey) :
    Guarded (s.setReleases (s.releases.filterMap g)) p := by
  have owners := (map_filterMap_sublist _ (fun h h' e => (hv h h' e).1) s.releases).subset
  refine ⟨hg.key, fun h mem => ?_, fun ne => (hg.armed fun hnil => ne (by simp [hnil])).of_proxy rfl,
    (map_filterMap_sublist _ (fun h h' e => (hv h h' e).2) s.releases).nodup hg.unique⟩
  obtain ⟨h₀, mem₀, e₀⟩ := List.mem_map.mp (owners (List.mem_map_of_mem _ mem))
  exact (hg.owned h₀ mem₀).of_owner e₀.symm

/-- A Delete keeps the releases guarded: it removes releases or marks them. --/
theorem Guarded.deleteRelease {key : ObjectKey} (hg : Guarded s p) (e : s.deleteRelease key = some s') :
    Guarded s' p := by
  rw [Store.deleteRelease_eq_some e]
  exact hg.filterMap fun h _ e => by rcases Store.afterDelete_eq_some e with rfl | rfl <;> simp

/-- The write of reconcileForCluster, made while both objects carry the finalizer, keeps the releases
    guarded: it updates the cluster's release in place, or creates one when the cluster has none. --/
theorem Guarded.applyRelease (hg : Guarded s p) (ha : Armed s p) (cl : Cluster) :
    Guarded (s.applyRelease p cl) p := by
  unfold Store.applyRelease
  split
  · refine ⟨hg.key, ?_, fun _ => ha.of_proxy rfl, ?_⟩
    · simp only [Store.setReleases_releases, List.mem_map]
      rintro _ ⟨h, mem, rfl⟩
      split
      · exact (hg.owned h mem).of_owner (h.owner_updateSpec _)
      · exact hg.owned h mem
    · simpa only [Store.setReleases_releases, List.map_map, Function.comp_def, Store.clusterKey_applied] using hg.unique
  · rename_i hnone
    refine ⟨hg.key, ?_, fun _ => ha.of_proxy rfl, ?_⟩
    · simp only [Store.addRelease_releases, List.mem_append, List.mem_singleton]
      rintro h (mem | rfl)
      exacts [hg.owned h mem, .of_newRelease p cl _]
    · rw [Store.addRelease_releases, List.map_append, List.nodup_append]
      refine ⟨hg.unique, List.nodup_singleton _, List.disjoint_singleton.mpr fun mem => ?_⟩
      obtain ⟨h, memh, hk⟩ := List.mem_map.mp mem
      exact hnone (List.any_eq_true.mpr ⟨h, memh, by simp [(hg.owned h memh).isReleaseFor_eq, hk]⟩)

/-- A Patch writes the in-memory finalizers: with a release left, they hold the finalizer, so the
    stored object stays and carries it. --/
theorem Guarded.patchProxy (hg : Guarded s p) (e : s.patchProxy p = some s') : Guarded s' p := by
  unfold Store.patchProxy at e
  split at e
  · cases e
  · rename_i q hq
    cases e
    have fin : s.releases ≠ [] → (((q.setFinalizers p.finalizers).modifyStatus fun _ => p.status).finalizers.isEmpty) = false :=
      fun ne => by simpa using List.ne_nil_of_mem (hg.armed ne).1
    refine ⟨fun q' hq' => ?_, hg.owned, fun ne => ⟨(hg.armed ne).1, ?_⟩, hg.unique⟩
    · split at hq'
      · cases hq'
      · cases hq'
        simpa [HelmChartProxy.key] using hg.key q hq
    · simp only [Store.setProxy_proxy, fin ne, Bool.and_false]
      exact ⟨_, rfl, by simpa using (hg.armed ne).1⟩

/-! ### The writes of a pass -/

section Writes

variable {s s' : Store} {p : HelmChartProxy} {c : Ctx}

/-- The pass-level Delete keeps what the store-level one keeps. --/
theorem preserves_deleteRelease (hP : ∀ {s s' p} key, P s p → s.deleteRelease key = some s' → P s' p) (key : ObjectKey) :
    (deleteRelease key).Preserves P := fun c hc => by
  rcases storeCall_cases .delete c with h | h <;>
    simp only [deleteRelease, bind_apply, h, getStore_apply, Ctx.setFaults_store, Ctx.setFaults_proxy]
  · cases hd : c.store.deleteRelease key
    · exact hc
    · exact hP key hc hd
  · exact hc

theorem preserves_applyRelease {cl : Cluster} (hP : ∀ {s p}, P s p → P (s.applyRelease p cl) p) :
    (applyRelease cl).Preserves P := fun c hc => by
  rcases storeCall_cases .apply c with h | h <;> simp only [applyRelease, bind_apply, h, getStore_apply, getProxy_apply]
  exacts [hP hc, hc]

theorem preserves_patchProxy (hP : ∀ {s s' p}, P s p → s.patchProxy p = some s' → P s' p) : patchProxy.Preserves P :=
  fun c hc => by
  rcases storeCall_cases .patch c with h | h <;>
    simp only [patchProxy, bind_apply, h, getStore_apply, getProxy_apply, Ctx.setFaults_store, Ctx.setFaults_proxy]
  · cases hd : c.store.patchProxy c.proxy
    · exact hc
    · exact hP hc hd
  · exact hc

end Writes

/-! ### The pass keeps the releases guarded -/

/-- The stored HelmChartProxy carries the in-memory finalizers, as just after the fetch. --/
def Synced (s : Store) (p : HelmChartProxy) : Prop := ∃ q, s.proxy = some q ∧ q.finalizers = p.finalizers

theorem Synced.armed {s : Store} {p : HelmChartProxy} (hs : Synced s p) (hf : helmChartProxyFinalizer ∈ p.finalizers) :
    Armed s p := by
  obtain ⟨q, hq, e⟩ := hs
  exact ⟨hf, q, hq, e ▸ hf⟩

/-- Within reconcileNormal both objects keep the finalizer, and the releases stay guarded. --/
theorem normalWrites_guarded : NormalWrites (fun _ => True) fun s p => Guarded s p ∧ Armed s p where
  status _ := preserves_modifyProxy fun ⟨hg, ha⟩ => ⟨hg.modifyProxy rfl id, ha⟩
  apply cl _ := preserves_applyRelease fun ⟨hg, ha⟩ => ⟨hg.applyRelease ha cl, ha.of_proxy Store.applyRelease_proxy⟩
  delete := preserves_deleteRelease fun _ ⟨hg, ha⟩ e =>
    ⟨hg.deleteRelease e, ha.of_proxy (by rw [Store.deleteRelease_eq_some e]; rfl)⟩

/-- The final patch keeps the releases guarded. --/
theorem guarded_patchHelmChartProxy : patchHelmChartProxy.Preserves Guarded :=
  (preserves_modifyProxy fun hg => hg.modifyProxy rfl id).bind fun _ =>
    (preserves_modifyProxy fun hg => hg.modifyProxy rfl id).bind fun _ => preserves_patchProxy fun hg e => hg.patchProxy e

/-- A Patch that succeeds writes the in-memory finalizers: with the finalizer among them, both objects
    carry it. --/
theorem Store.patchProxy_armed {s s' : Store} {p : HelmChartProxy} (e : s.patchProxy p = some s')
    (hf : helmChartProxyFinalizer ∈ p.finalizers) : Armed s' p := by
  unfold Store.patchProxy at e
  split at e
  · cases e
  · rename_i q _
    cases e
    have kept : ((q.setFinalizers p.finalizers).modifyStatus fun _ => p.status).finalizers.isEmpty = false := by
      simpa using List.ne_nil_of_mem hf
    simp only [Store.setProxy_proxy, kept, Bool.and_false]
    exact ⟨hf, _, rfl, by simpa using hf⟩

theorem patchProxy_eq_ok {c c' : Ctx} {u : Unit} (e : patchProxy c = (c', .ok u)) :
    ∃ s', c.store.patchProxy c.proxy = some s' ∧ c'.store = s' ∧ c'.proxy = c.proxy := by
  rcases storeCall_cases .patch c with h | h <;>
    simp only [patchProxy, bind_apply, h, getStore_apply, getProxy_apply, Ctx.setFaults_store, Ctx.setFaults_proxy] at e
  · cases hd : c.store.patchProxy c.proxy <;> simp only [hd, setStore_apply, throw_apply, Prod.mk.injEq] at e
    · cases e.2
    · exact ⟨_, rfl, by rw [← e.1]; rfl, by rw [← e.1]; rfl⟩
  · cases (Prod.mk.inj e).2

/-- Once the finalizer is in memory, a final patch that succeeds leaves both objects carrying it. --/
theorem patchHelmChartProxy_armed {c c' : Ctx} (e : patchHelmChartProxy c = (c', .ok ()))
    (hf : helmChartProxyFinalizer ∈ c.proxy.finalizers) : Armed c'.store c'.proxy := by
  rw [patchHelmChartProxy_eq] at e
  obtain ⟨s', hp, hs, hq⟩ := patchProxy_eq_ok e
  rw [hs, hq]
  exact Store.patchProxy_armed hp (by simpa using hf)

/-- The live branch adds the finalizer and patches it before any release is written; a failed patch
    ends the pass before reconcileNormal. --/
theorem guarded_reconcileLive (cl : List Cluster) (rl : List HelmReleaseProxy) {c : Ctx}
    (hg : Guarded c.store c.proxy) (hs : Synced c.store c.proxy) :
    Guarded (reconcileLive cl rl c).1.store (reconcileLive cl rl c).1.proxy := by
  have rest : ∀ _ : Unit, Preserves (fun s p => Guarded s p ∧ Armed s p) (do
      let res ← reconcileNormal cl rl
      modifyConditions (·.markTrue .helmReleaseProxySpecsUpToDate)
      aggregateHelmReleaseProxyReadyCondition
      return res) := fun _ =>
    (normalWrites_guarded.reconcileNormal (fun _ _ => trivial) fun _ _ _ _ _ => trivial).bind fun _ => (normalWrites_guarded.conditions _).bind fun _ =>
      normalWrites_guarded.aggregateHelmReleaseProxyReadyCondition.bind fun _ => preserves_pure _
  simp only [reconcileLive, bind_apply, getProxy_apply]
  split
  · rw [bind_apply, modifyProxy_apply]
    dsimp only
    rw [bind_apply]
    have hg₁ := hg.modifyProxy (f := fun p => p.setFinalizers (p.finalizers ++ [helmChartProxyFinalizer])) rfl
      fun h => by simp [h]
    split
    · rename_i c₂ _ heq
      exact (rest () c₂ ⟨guarded_patchHelmChartProxy.of_eq heq hg₁, patchHelmChartProxy_armed heq (by simp)⟩).1
    · rename_i c₂ _ heq
      exact guarded_patchHelmChartProxy.of_eq heq hg₁
  · rename_i hhas
    exact (((preserves_pure _).bind rest) c ⟨hg, hs.armed (by simpa using hhas)⟩).1

/-! ### The deletion branch -/

theorem preserves_deleteAndConfirm (hd : ∀ key, (deleteRelease key).Preserves P) (releases : List HelmReleaseProxy) :
    (deleteAndConfirm releases).Preserves P := by
  induction releases with
  | nil => exact preserves_pure _
  | cons release releases ih =>
    have delete : (deleteHelmReleaseProxy release).Preserves P := (hd _).tryCatch fun e => by
      split
      exacts [preserves_pure _, preserves_throw _]
    refine (delete.tryCatch fun _ => preserves_throw _).bind fun _ =>
      ((preserves_getHelmReleaseProxy _).tryCatch fun _ => preserves_throw _).bind fun found => ?_
    split
    exacts [ih, ih.bind fun _ => preserves_pure _]

/-- A Delete only removes or marks releases: the keys left are keys of the store before. --/
theorem keys_deleteRelease (keys : List ObjectKey) (key : ObjectKey) :
    (deleteRelease key).Preserves fun s _ => ∀ h ∈ s.releases, h.key ∈ keys :=
  preserves_deleteRelease (fun key hk e h mem => by
    rw [Store.deleteRelease_eq_some e] at mem
    obtain ⟨h₀, mem₀, e₀⟩ := List.mem_map.mp
      ((map_filterMap_afterDelete_sublist _ HelmReleaseProxy.markDeleted_key key _).subset (List.mem_map_of_mem _ mem))
    exact e₀ ▸ hk h₀ mem₀) key

theorem getHelmReleaseProxy_eq_ok {c c' : Ctx} {key : ObjectKey} {found : Option HelmReleaseProxy}
    (e : getHelmReleaseProxy key c = (c', .ok found)) : found = c.store.getRelease key ∧ c'.store = c.store := by
  rcases storeCall_cases .get c with h | h <;>
    simp only [getHelmReleaseProxy, bind_apply, h, getStore_apply, pure_apply, Prod.mk.injEq] at e
  · obtain ⟨rfl, e⟩ := e
    exact ⟨(Except.ok.inj e).symm, rfl⟩
  · cases e.2

/-- The loop of reconcileDelete hands back every release it still finds: after it, a release of the
    store is one it found again, or one it was not given. --/
theorem deleteAndConfirm_confirmed {releases found : List HelmReleaseProxy} {c c' : Ctx}
    (e : deleteAndConfirm releases c = (c', .ok found)) :
    ∀ h ∈ c'.store.releases, h.key ∈ found.map HelmReleaseProxy.key ∨ h.key ∉ releases.map HelmReleaseProxy.key := by
  induction releases generalizing c found with
  | nil => exact fun h _ => .inr (List.not_mem_nil _)
  | cons release releases ih =>
    simp only [deleteAndConfirm] at e
    obtain ⟨c₁, _, -, e⟩ := bind_eq_ok e
    obtain ⟨c₂, found?, get, e⟩ := bind_eq_ok e
    obtain ⟨rfl, same⟩ := getHelmReleaseProxy_eq_ok (tryCatch_throw_eq_ok get)
    have shrink {c₃ : Ctx} {r : Except Error (List HelmReleaseProxy)} (e₃ : deleteAndConfirm releases c₂ = (c₃, r)) :
        ∀ h ∈ c₃.store.releases, h.key ∈ c₁.store.releases.map HelmReleaseProxy.key :=
      (preserves_deleteAndConfirm (keys_deleteRelease _) releases).of_eq e₃ fun h mem =>
        List.mem_map_of_mem _ (same ▸ mem)
    intro h mem
    cases hget : c₁.store.getRelease release.key with
    | none =>
      rw [hget] at e
      refine (ih e h mem).imp_right fun hn => List.not_mem_cons_of_ne_of_not_mem (fun hk => ?_) hn
      obtain ⟨h₀, mem₀, k₀⟩ := List.mem_map.mp (shrink e h mem)
      exact List.find?_eq_none.mp hget h₀ mem₀ (by simp [k₀, hk])
    | some cur =>
      rw [hget] at e
      obtain ⟨c₃, found', e₃, e⟩ := bind_eq_ok e
      simp only [pure_apply, Prod.mk.injEq, Except.ok.injEq] at e
      obtain ⟨rfl, rfl⟩ := e
      have hcur : cur.key = release.key := by
        unfold Store.getRelease at hget
        simpa using List.find?_some hget
      by_cases hk : h.key = release.key
      · exact .inl (List.mem_map.mpr ⟨cur, List.mem_cons_self _ _, hcur.trans hk.symm⟩)
      · exact (ih e₃ h mem).imp (List.mem_cons_of_mem _) (List.not_mem_cons_of_ne_of_not_mem hk)

/-- reconcileDelete returns a zero result only when its loop finds no release again. --/
theorem reconcileDelete_isZero {rl : List HelmReleaseProxy} {c c' : Ctx} {r : Result}
    (e : reconcileDelete rl c = (c', .ok r)) (hz : r.isZero = true) : deleteAndConfirm rl c = (c', .ok []) := by
  obtain ⟨c₁, getters, e₁, e⟩ := bind_eq_ok e
  dsimp only at e
  split at e
  · obtain ⟨_, _, -, e⟩ := bind_eq_ok e
    simp only [pure_apply, Prod.mk.injEq, Except.ok.injEq] at e
    rw [← e.2] at hz
    cases hz
  · rename_i hlen
    simp only [bind_apply, pure_apply, Prod.mk.injEq] at e
    rw [← e.1, e₁, List.eq_nil_of_length_eq_zero (Nat.eq_zero_of_not_pos hlen)]

/-- The deletion branch removes the finalizer only once every release it was given is gone; given
    every release of the store, it leaves none. --/
theorem guarded_reconcileDeleting (rl : List HelmReleaseProxy) {c : Ctx} (hg : Guarded c.store c.proxy)
    (hrl : ∀ h ∈ c.store.releases, h.key ∈ rl.map HelmReleaseProxy.key) :
    Guarded (reconcileDeleting rl c).1.store (reconcileDeleting rl c).1.proxy := by
  have delete : (reconcileDelete rl).Preserves Guarded :=
    (preserves_deleteAndConfirm (preserves_deleteRelease fun _ hg e => hg.deleteRelease e) rl).bind fun _ =>
      ((preserves_modifyProxy fun hg => hg.modifyProxy rfl id).bind fun _ => preserves_pure _).ite
        ((preserves_pure _).bind fun _ => preserves_pure _)
  simp only [reconcileDeleting, bind_apply, getProxy_apply]
  split
  · rw [bind_apply]
    split
    · rename_i c₁ r heq
      have hg₁ := delete.of_eq heq hg
      split
      · exact hg₁
      · rename_i hz
        have e := reconcileDelete_isZero heq (by simpa using hz)
        have shrink := (preserves_deleteAndConfirm (keys_deleteRelease _) rl).of_eq e hrl
        have hnil : c₁.store.releases = [] := List.eq_nil_iff_forall_not_mem.mpr fun h mem =>
          ((deleteAndConfirm_confirmed e h mem).resolve_left (List.not_mem_nil _)) (shrink h mem)
        simp only [bind_apply, pure_apply, modifyProxy_apply]
        exact (guarded_patchHelmChartProxy.bind fun _ => preserves_pure _) _
          (Guarded.of_nil hnil fun q hq => (hg₁.key q hq).trans rfl)
    · rename_i c₁ _ heq
      exact delete.of_eq heq hg
  · exact hg

/-- The body of Reconcile, from the fetched object: the releases it lists are every release of the store,
    and each branch keeps them guarded. --/
theorem guarded_reconcileFetched {c : Ctx} (hg : Guarded c.store c.proxy) (hs : Synced c.store c.proxy) :
    Guarded (reconcileFetched c).1.store (reconcileFetched c).1.proxy := by
  have status : ∀ f, (modifyProxy (·.modifyStatus f)).Preserves
      fun s p => Guarded s p ∧ Synced s p ∧ p.key = c.proxy.key := fun _ =>
    preserves_modifyProxy fun ⟨hg, hs, hk⟩ => ⟨hg.modifyProxy rfl id, hs, hk⟩
  simp only [reconcileFetched, bind_apply, getProxy_apply]
  split <;> rename_i c₁ cl heq <;>
    have h₁ := ((preserves_listClustersWithLabels _ _).tryCatch fun _ => (status _).bind fun _ =>
      preserves_throw _).of_eq heq ⟨hg, hs, rfl⟩
  · simp only [modifyProxy_apply]
    have h₂ := status (·.setMatchingClusters (cl.map Cluster.ref)) c₁ h₁
    split <;> rename_i c₃ rl heq
    · obtain ⟨hg₃, hs₃, hk₃⟩ :=
        (preserves_listReleases (P := fun s p => Guarded s p ∧ Synced s p ∧ p.key = c.proxy.key) _ _).of_eq heq h₂
      have same : c₃.store = c₁.store := by
        rw [← (Prod.mk.inj heq).1]
        show (listReleases _ _ _).1.store = _
        rw [listReleases_fst]
        rfl
      have listed : rl = c₁.store.listReleases c.proxy.namespace (ownerLabels c.proxy) := by
        simpa using listReleases_value (congrArg Prod.snd heq)
      split
      · refine guarded_reconcileDeleting rl hg₃ fun h mem => List.mem_map_of_mem _ ?_
        rw [listed, ← same]
        exact ((hg₃.owned h mem).of_key hk₃.symm).mem_listReleases mem
      · exact guarded_reconcileLive _ rl hg₃ hs₃
    · exact ((preserves_listReleases (P := fun s p => Guarded s p ∧ Synced s p ∧ p.key = c.proxy.key) _ _).of_eq
        heq h₂).1
  · exact h₁.1

/-! ### Whole passes and runs -/

/-- A store in which the finalizer protects every release: the releases are guarded by the stored
    HelmChartProxy, and there are none once it is gone. --/
def Store.Safe (s : Store) : Prop :=
  match s.proxy with
  | some p => Guarded s p
  | none => s.releases = []

theorem Guarded.safe {s : Store} {p : HelmChartProxy} (hg : Guarded s p) : s.Safe := by
  unfold Store.Safe
  split
  · rename_i q hq
    have hk := hg.key q hq
    exact ⟨fun q' hq' => by rw [hq] at hq'; cases hq'; rfl, fun h mem => (hg.owned h mem).of_key hk,
      fun ne => ⟨by obtain ⟨q', hq', fin⟩ := (hg.armed ne).2; rw [hq] at hq'; cases hq'; exact fin, (hg.armed ne).2⟩,
      hg.unique⟩
  · rename_i hnone
    exact List.eq_nil_iff_forall_not_mem.mpr fun h mem => by
      obtain ⟨q, hq, -⟩ := (hg.armed (List.ne_nil_of_mem mem)).2
      rw [hnone] at hq
      cases hq

/-- A pass leaves the store as it is, or runs the body from the store and the object it fetched there
    and then the deferred patch. --/
theorem Store.pass_cases (s : Store) (env : Env) : (s.pass env).1.store = s ∨
    ∃ c : Ctx, ∃ p, s.proxy = some p ∧ c.store = s ∧ c.proxy = p ∧
      (s.pass env).1 = (patchHelmChartProxy (reconcileFetched c).1).1 := by
  unfold Store.pass
  generalize hc : Ctx.init s env = c
  obtain rfl : c.store = s := by rw [← hc]; rfl
  rcases getHelmChartProxy_cases c with h | h
  · cases hp : c.store.proxy with
    | none => exact .inl (by simp [reconcile, bind_apply, h, hp])
    | some p => exact .inr ⟨(c.setFaults _).modifyProxy fun _ => p, p, rfl, rfl, rfl,
      by rw [reconcile_fetched (by rw [h, hp])]⟩
  · exact .inl (by simp [reconcile, bind_apply, h])

namespace Store

variable {s : Store} {p : HelmChartProxy}

theorem Safe.guarded (hs : s.Safe) (hp : s.proxy = some p) : Guarded s p := by
  unfold Store.Safe at hs
  rw [hp] at hs
  exact hs

theorem Safe.releases_eq_nil (hs : s.Safe) (hp : s.proxy = none) : s.releases = [] := by
  unfold Store.Safe at hs
  rw [hp] at hs
  exact hs

/-- A pass keeps the releases guarded, whichever calls fail and in whatever order it reads the map. --/
theorem Safe.pass (hs : s.Safe) (env : Env) : (s.pass env).1.store.Safe := by
  rcases s.pass_cases env with e | ⟨c, p, hp, rfl, rfl, e⟩
  · rwa [e]
  · rw [e]
    exact (guarded_patchHelmChartProxy _ (guarded_reconcileFetched (hs.guarded hp) ⟨c.proxy, hp, rfl⟩)).safe

theorem safe_of_releases_eq_nil (h : s.releases = []) : s.Safe := by
  unfold Store.Safe
  split
  · rename_i p hp
    exact Guarded.of_nil h fun q hq => by rw [hp, Option.mem_some_iff] at hq; rw [hq]
  · exact h

/-- The HelmReleaseProxy controller's writes keep the releases guarded: they drop releases or keep
    each one's owner and cluster. --/
theorem Safe.updateRelease (hs : s.Safe) (key : ObjectKey) (status : HelmReleaseProxyStatus)
    (finalizers : List String) : (s.updateRelease key status finalizers).Safe := by
  unfold Store.updateRelease
  cases hp : s.proxy with
  | none => exact safe_of_releases_eq_nil (by simp [hs.releases_eq_nil hp])
  | some p =>
    refine ((hs.guarded hp).filterMap fun h h' e => ?_).safe
    split at e
    · split at e
      · cases e
      · cases e; simp
    · cases e; exact ⟨rfl, rfl⟩

end Store

/-- A new version of the stored HelmChartProxy with its namespace, name and finalizers guards what
    the old one guarded. --/
theorem Guarded.setProxy (hg : Guarded s p) {q : HelmChartProxy} (hk : q.key = p.key)
    (hf : q.finalizers = p.finalizers) : Guarded (s.setProxy (some q)) q where
  key q' hq' := by rw [Store.setProxy_proxy, Option.mem_some_iff] at hq'; rw [hq']
  owned h mem := (hg.owned h mem).of_key hk
  armed ne := ⟨hf ▸ (hg.armed ne).1, q, rfl, hf ▸ (hg.armed ne).1⟩
  unique := hg.unique

namespace Store

variable {s : Store}

/-- The clusters joining, leaving or being relabelled touch neither the HelmChartProxy nor a release. --/
theorem Safe.setClusters (hs : s.Safe) (clusters : ClusterList) : (s.setClusters clusters).Safe := by
  cases hp : s.proxy with
  | none => exact safe_of_releases_eq_nil (hs.releases_eq_nil hp)
  | some p => exact ((hs.guarded hp).of_store (t := s.setClusters clusters) rfl rfl).safe

theorem Safe.editSpec (hs : s.Safe) (spec : HelmChartProxySpec) : (s.editSpec spec).Safe := by
  unfold Store.editSpec
  split
  · exact hs
  · rename_i p hp
    split
    · exact hs
    · exact ((hs.guarded hp).setProxy (q := p.editSpec spec) (by cases p; rfl) (by cases p; rfl)).safe

/-- The user's Delete removes the HelmChartProxy only when it has no finalizers, and then it has no
    release left; otherwise it only marks it. --/
theorem Safe.deleteProxy (hs : s.Safe) : s.deleteProxy.Safe := by
  unfold Store.deleteProxy
  split
  · exact hs
  · rename_i p hp
    by_cases hnil : s.releases = []
    · exact safe_of_releases_eq_nil hnil
    obtain ⟨q, hq, fin⟩ := ((hs.guarded hp).armed hnil).2
    rw [hp, Option.some.injEq] at hq
    have kept : p.finalizers.isEmpty = false := by simpa [hq] using List.ne_nil_of_mem fin
    simp only [kept, Bool.false_eq_true, if_false]
    exact ((hs.guarded hp).setProxy (q := p.markDeleted) (by cases p; rfl) (by cases p; rfl)).safe

/-- Every event keeps the releases guarded. --/
theorem Safe.step (hs : s.Safe) : ∀ e : Event, (s.step e).Safe
  | .reconcile env => hs.pass env
  | .setClusters cs => hs.setClusters cs
  | .editSpec spec => hs.editSpec spec
  | .deleteProxy => hs.deleteProxy
  | .updateRelease key status finalizers => hs.updateRelease key status finalizers

end Store

theorem Reachable.safe {s : Store} (hr : Reachable s) : s.Safe := by
  induction hr with
  | init h => exact Store.safe_of_releases_eq_nil h.1
  | step e _ ih => exact ih.step e

/-! ### What every reachable store satisfies -/

variable {s : Store} {h : HelmReleaseProxy}

/-- A store a run reaches with a release in it holds a HelmChartProxy that guards its releases. --/
theorem Reachable.guarded_of_mem (hr : Reachable s) (mem : h ∈ s.releases) : ∃ p, s.proxy = some p ∧ Guarded s p := by
  have hs := hr.safe
  unfold Store.Safe at hs
  split at hs
  · exact ⟨_, ‹_›, hs⟩
  · rw [hs] at mem
    cases mem

/-- The finalizer protects every release: while a release exists, the HelmChartProxy is stored and
    carries the finalizer, so the API server cannot remove it. --/
theorem release_proxy_finalized (hr : Reachable s) (mem : h ∈ s.releases) :
    ∃ p, s.proxy = some p ∧ helmChartProxyFinalizer ∈ p.finalizers := by
  obtain ⟨p, -, hg⟩ := hr.guarded_of_mem mem
  exact (hg.armed (List.ne_nil_of_mem mem)).2

theorem settledStore_release_finalized :
    Reachable settledStore ∧ nginxRelease (prodCluster "b") true ∈ settledStore.releases ∧
      ∃ p, settledStore.proxy = some p ∧ helmChartProxyFinalizer ∈ p.finalizers :=
  ⟨reachable_settledStore, List.mem_singleton_self _,
    release_proxy_finalized reachable_settledStore (List.mem_singleton_self _)⟩

/-- Every release is found by the listing of its HelmChartProxy's releases, and the watch on
    HelmReleaseProxies maps it back to that HelmChartProxy. --/
theorem release_maps_to_proxy (hr : Reachable s) (mem : h ∈ s.releases) :
    ∃ p, s.proxy = some p ∧ h ∈ s.listReleases p.namespace (ownerLabels p) ∧
      helmReleaseProxyToHelmChartProxyMapper h = [p.key] := by
  obtain ⟨p, hp, hg⟩ := hr.guarded_of_mem mem
  exact ⟨p, hp, (hg.owned h mem).mem_listReleases mem, (hg.owned h mem).2⟩

theorem settledStore_release_maps_to_proxy :
    Reachable settledStore ∧ nginxRelease (prodCluster "b") true ∈ settledStore.releases ∧
      ∃ p, settledStore.proxy = some p ∧
        nginxRelease (prodCluster "b") true ∈ settledStore.listReleases p.namespace (ownerLabels p) ∧
        helmReleaseProxyToHelmChartProxyMapper (nginxRelease (prodCluster "b") true) = [p.key] :=
  ⟨reachable_settledStore, List.mem_singleton_self _,
    release_maps_to_proxy reachable_settledStore (List.mem_singleton_self _)⟩

end HelmAddon
