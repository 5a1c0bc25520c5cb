import HelmAddon.Theorems.Reconcile
import HelmAddon.Theorems.RolloutBatch

/-! The rollout invariant: while a HelmChartProxy is not being deleted, its releases target selected
    clusters, and the selected clusters that have a release are the first ones in the order of the
    rollout. Every way through rolloutReconcile, and reconcileNormal around it, writes releases for a
    batch that takes the first `k` clusters in that order to the first `k + m`, and such a batch keeps
    the invariant. -/

namespace HelmAddon

/-! ### What a pass never writes -/

/-- What the rollout invariant reads of a HelmChartProxy: its namespace and name, whether it is being
    deleted, and its cluster selector. --/
def HelmChartProxy.frame (p : HelmChartProxy) : String × String × Bool × LabelSelector :=
  (p.namespace, p.name, p.deletionTimestamp, p.spec.clusterSelector)

namespace HelmChartProxy

variable (p : HelmChartProxy)

@[simp] theorem frame_modifyStatus (f : HelmChartProxyStatus → HelmChartProxyStatus) :
    (p.modifyStatus f).frame = p.frame := by cases p; rfl

@[simp] theorem frame_setFinalizers (fs : List String) : (p.setFinalizers fs).frame = p.frame := by cases p; rfl

@[simp] theorem frame_observeGeneration : p.observeGeneration.frame = p.frame := by cases p; rfl

end HelmChartProxy

/-- The clusters the HelmChartProxy selects, as a pass lists them once the selector converts. --/
def Store.selected (s : Store) : List Cluster :=
  match s.proxy with
  | some p =>
    match labelSelectorAsSelector p.spec.clusterSelector with
    | .ok sel => s.listClusters p.namespace sel
    | .error _ => []
  | none => []

/-- A release of the store targets the cluster. --/
def Store.HasRelease (s : Store) (x : Cluster) : Prop := ∃ h ∈ s.releases, h.clusterKey = x.key

/-- The selection reads the clusters, and the namespace and selector of the HelmChartProxy. --/
theorem Store.selected_congr {s s' : Store} (hc : s'.clusters = s.clusters)
    (hp : s'.proxy.map HelmChartProxy.frame = s.proxy.map HelmChartProxy.frame) : s'.selected = s.selected := by
  unfold Store.selected Store.listClusters
  rw [hc]
  cases hq : s.proxy <;> cases hq' : s'.proxy <;> simp only [hq, hq', Option.map_none', Option.map_some',
    Option.some.injEq, reduceCtorEq] at hp ⊢
  · simp only [HelmChartProxy.frame, Prod.mk.injEq] at hp
    rw [hp.1, hp.2.2.2]

/-- The selected clusters have distinct namespaced names. --/
theorem Store.selected_nodup (s : Store) : (s.selected.map Cluster.key).Nodup := by
  unfold Store.selected
  split
  · split
    · exact ((List.filter_sublist _).map _).nodup s.clusters.distinct
    · exact List.nodup_nil
  · exact List.nodup_nil

/-- Two stores that differ at most in the finalizers and status of the HelmChartProxy. --/
structure Store.Keeps (s s' : Store) : Prop where
  clusters : s'.clusters = s.clusters
  releases : s'.releases = s.releases
  proxy : s'.proxy.map HelmChartProxy.frame = s.proxy.map HelmChartProxy.frame

namespace Store.Keeps

variable {s s' s'' : Store}

theorem refl (s : Store) : s.Keeps s := ⟨rfl, rfl, rfl⟩

theorem trans (h : s.Keeps s') (h' : s'.Keeps s'') : s.Keeps s'' :=
  ⟨h'.clusters.trans h.clusters, h'.releases.trans h.releases, h'.proxy.trans h.proxy⟩

theorem selected (h : s.Keeps s') : s'.selected = s.selected := Store.selected_congr h.clusters h.proxy

end Store.Keeps

/-- A release the HelmChartProxy owns: in its namespace, labelled with its name, not being deleted. --/
def Owns (p : HelmChartProxy) (h : HelmReleaseProxy) : Prop :=
  h.namespace = p.namespace ∧ hasLabels h.labels (ownerLabels p) = true ∧ h.deletionTimestamp = false

/-- A rollout in progress: a HelmChartProxy that is not being deleted, releases that it owns and that
    target selected clusters, and the selected clusters with a release the first `k` in rollout
    order. --/
structure RolloutInv (s : Store) (k : Nat) : Prop where
  live : ∃ p, s.proxy = some p ∧ p.deletionTimestamp = false
  owned : ∀ p ∈ s.proxy, ∀ h ∈ s.releases, Owns p h
  targets : ∀ h ∈ s.releases, ∃ x ∈ s.selected, x.key = h.clusterKey
  released : ∀ x ∈ s.selected, s.HasRelease x ↔ x ∈ (sortClusters s.selected).take k

theorem ownerLabels_frame {p q : HelmChartProxy} (h : p.frame = q.frame) : ownerLabels p = ownerLabels q := by
  simp only [HelmChartProxy.frame, Prod.mk.injEq] at h
  simp [ownerLabels, h.2.1]

theorem RolloutInv.keeps {s s' : Store} {k : Nat} (inv : RolloutInv s k) (h : s.Keeps s') : RolloutInv s' k := by
  obtain ⟨p, hp, live⟩ := inv.live
  have frame := h.proxy
  rw [hp, Option.map_some'] at frame
  obtain ⟨p', hp', same⟩ := Option.map_eq_some'.mp frame
  have same' := same
  simp only [HelmChartProxy.frame, Prod.mk.injEq] at same'
  refine ⟨⟨p', hp', same'.2.2.1 ▸ live⟩, ?_, ?_, ?_⟩
  · intro q hq r hr
    rw [hp'] at hq
    cases Option.some.inj hq
    obtain ⟨ns, labels, deleted⟩ := inv.owned p hp r (h.releases ▸ hr)
    exact ⟨ns.trans same'.1.symm, ownerLabels_frame same ▸ labels, deleted⟩
  · simpa only [h.releases, h.selected] using inv.targets
  · simpa only [Store.HasRelease, h.releases, h.selected] using inv.released

/-! ### The write of reconcileForCluster -/

namespace Store

variable {s : Store} {p q : HelmChartProxy} {cl x : Cluster}

/-- An update of the spec keeps what the selection and ownership read. --/
theorem updateSpec_fields (h : HelmReleaseProxy) (sp : HelmReleaseProxySpec) :
    (h.updateSpec sp).namespace = h.namespace ∧ (h.updateSpec sp).labels = h.labels ∧
      (h.updateSpec sp).deletionTimestamp = h.deletionTimestamp := by
  cases h
  simp only [HelmReleaseProxy.updateSpec]
  split <;> exact ⟨rfl, rfl, rfl⟩

/-- The update of reconcileForCluster keeps the cluster a release targets. --/
theorem clusterKey_applied (h : HelmReleaseProxy) :
    (if isReleaseFor p cl h then h.updateSpec (desiredSpec p cl) else h).clusterKey = h.clusterKey := by
  split
  · rename_i hr
    have hk : h.clusterKey = cl.key := (by simpa [isReleaseFor] using hr : _ ∧ _).2
    cases h
    simp only [HelmReleaseProxy.updateSpec]
    split
    · rfl
    · exact hk.symm
  · rfl

@[simp] theorem newRelease_clusterKey (n : Nat) : (newRelease p cl n).clusterKey = cl.key := rfl

theorem applyRelease_clusters : (s.applyRelease p cl).clusters = s.clusters := by
  unfold applyRelease; split <;> rfl

theorem applyRelease_proxy : (s.applyRelease p cl).proxy = s.proxy := by
  unfold applyRelease; split <;> rfl

/-- After the write, the clusters with a release are those before and the written one. --/
theorem hasRelease_applyRelease : (s.applyRelease p cl).HasRelease x ↔ s.HasRelease x ∨ cl.key = x.key := by
  unfold applyRelease HasRelease
  split
  · rename_i hany
    obtain ⟨h₀, mem₀, for₀⟩ := List.any_eq_true.mp hany
    have key₀ : h₀.clusterKey = cl.key := (by simpa [isReleaseFor] using for₀ : _ ∧ _).2
    simp only [setReleases_releases, List.mem_map, exists_exists_and_eq_and, clusterKey_applied]
    exact ⟨.inl, fun held => held.elim id fun e => ⟨h₀, mem₀, key₀.trans e⟩⟩
  · simp only [addRelease_releases, List.mem_append, List.mem_singleton, or_and_right, exists_or,
      exists_eq_left, newRelease_clusterKey]

/-- The write keeps every release owned when it writes for an object of the same name and namespace. --/
theorem owns_applyRelease (hown : ∀ h ∈ s.releases, Owns q h) (hns : p.namespace = q.namespace)
    (hname : p.name = q.name) : ∀ h ∈ (s.applyRelease p cl).releases, Owns q h := by
  unfold applyRelease
  split
  · simp only [setReleases_releases, List.mem_map]
    rintro _ ⟨h, mem, rfl⟩
    obtain ⟨ns, labels, deleted⟩ := hown h mem
    split
    · obtain ⟨ns', labels', deleted'⟩ := updateSpec_fields h (desiredSpec p cl)
      exact ⟨ns'.trans ns, labels' ▸ labels, deleted'.trans deleted⟩
    · exact ⟨ns, labels, deleted⟩
  · simp only [addRelease_releases, List.mem_append, List.mem_singleton]
    rintro h (mem | rfl)
    · exact hown h mem
    · exact ⟨hns, by simp [hasLabels, ownerLabels, newRelease, hname], rfl⟩

/-- The write keeps every release on a cluster of `S` when it writes for one. --/
theorem targets_applyRelease {S : List Cluster} (htar : ∀ h ∈ s.releases, ∃ y ∈ S, y.key = h.clusterKey)
    (hcl : cl ∈ S) : ∀ h ∈ (s.applyRelease p cl).releases, ∃ y ∈ S, y.key = h.clusterKey := by
  unfold applyRelease
  split
  · simp only [setReleases_releases, List.mem_map]
    rintro _ ⟨h, mem, rfl⟩
    rw [clusterKey_applied]
    exact htar h mem
  · simp only [addRelease_releases, List.mem_append, List.mem_singleton]
    rintro h (mem | rfl)
    · exact htar h mem
    · exact ⟨cl, hcl, rfl⟩

variable (p) (L : List Cluster)

theorem foldl_applyRelease_clusters : (L.foldl (·.applyRelease p ·) s).clusters = s.clusters := by
  induction L generalizing s with
  | nil => rfl
  | cons cl L ih => exact ih.trans applyRelease_clusters

theorem foldl_applyRelease_proxy : (L.foldl (·.applyRelease p ·) s).proxy = s.proxy := by
  induction L generalizing s with
  | nil => rfl
  | cons cl L ih => exact ih.trans applyRelease_proxy

theorem foldl_applyRelease_selected : (L.foldl (·.applyRelease p ·) s).selected = s.selected :=
  selected_congr (foldl_applyRelease_clusters p L) (by rw [foldl_applyRelease_proxy])

theorem hasRelease_foldl_applyRelease :
    (L.foldl (·.applyRelease p ·) s).HasRelease x ↔ s.HasRelease x ∨ ∃ cl ∈ L, cl.key = x.key := by
  induction L generalizing s with
  | nil => simp
  | cons cl L ih =>
    rw [List.foldl_cons, ih, hasRelease_applyRelease]
    simp only [List.mem_cons, exists_eq_or_imp, or_assoc]

theorem owns_foldl_applyRelease (hown : ∀ h ∈ s.releases, Owns q h) (hns : p.namespace = q.namespace)
    (hname : p.name = q.name) : ∀ h ∈ (L.foldl (·.applyRelease p ·) s).releases, Owns q h := by
  induction L generalizing s with
  | nil => exact hown
  | cons cl L ih => exact ih (owns_applyRelease hown hns hname)

theorem targets_foldl_applyRelease {S : List Cluster} (htar : ∀ h ∈ s.releases, ∃ y ∈ S, y.key = h.clusterKey)
    (hL : ∀ cl ∈ L, cl ∈ S) : ∀ h ∈ (L.foldl (·.applyRelease p ·) s).releases, ∃ y ∈ S, y.key = h.clusterKey := by
  induction L generalizing s with
  | nil => exact htar
  | cons cl L ih =>
    exact ih (targets_applyRelease htar (hL cl (List.mem_cons_self cl L))) fun y mem => hL y (List.mem_cons_of_mem cl mem)

end Store

/-- Writes that extend the first `k` clusters in rollout order to the first `k + m` keep the rollout
    invariant, at `k + m`. --/
theorem RolloutInv.applied {s : Store} {k m : Nat} {L : List Cluster} {p q : HelmChartProxy}
    (inv : RolloutInv s k) (hq : s.proxy = some q) (hns : p.namespace = q.namespace) (hname : p.name = q.name)
    (hL : ∀ x ∈ L, x ∈ (sortClusters s.selected).take (k + m))
    (hcover : ∀ x ∈ ((sortClusters s.selected).drop k).take m, x ∈ L) :
    RolloutInv (L.foldl (·.applyRelease p ·) s) (k + m) := by
  have same := Store.foldl_applyRelease_selected (s := s) p L
  have selected : ∀ x ∈ L, x ∈ s.selected := fun x mem =>
    (List.mem_insertionSort _).mp (List.mem_of_mem_take (hL x mem))
  refine ⟨?_, ?_, ?_, ?_⟩
  · rw [Store.foldl_applyRelease_proxy]; exact inv.live
  · rw [Store.foldl_applyRelease_proxy, hq]
    intro q' hq'
    cases Option.mem_some_iff.mp hq'
    exact Store.owns_foldl_applyRelease p L (inv.owned q hq) hns hname
  · rw [same]
    exact Store.targets_foldl_applyRelease p L inv.targets selected
  · rw [same]
    intro x hx
    have written : (∃ cl ∈ L, cl.key = x.key) ↔ x ∈ L :=
      ⟨fun ⟨cl, mem, key⟩ => List.inj_on_of_nodup_map s.selected_nodup (selected cl mem) hx key ▸ mem,
        fun mem => ⟨x, mem, rfl⟩⟩
    rw [Store.hasRelease_foldl_applyRelease, inv.released x hx, written, List.take_add, List.mem_append]
    constructor
    · rintro (before | new)
      · exact .inl before
      · exact (List.mem_append.mp (List.take_add .. ▸ hL x new))
    · rintro (before | new)
      · exact .inl before
      · exact .inr (hcover x new)

/-! ### The batch of a pass -/

/-- From `c` to `c'` releases are written for clusters `L` that take the first `k` clusters in the
    order of the rollout over `cs` to the first `k + m`. --/
def Extends (cs : List Cluster) (k : Nat) (c c' : Ctx) : Prop :=
  ∃ (L : List Cluster) (m : Nat), c'.store = L.foldl (·.applyRelease c.proxy ·) c.store ∧
    (∀ x ∈ L, x ∈ (sortClusters cs).take (k + m)) ∧ ∀ x ∈ ((sortClusters cs).drop k).take m, x ∈ L

theorem Extends.of_store_eq {cs : List Cluster} {k : Nat} {c c' : Ctx} (h : c'.store = c.store) :
    Extends cs k c c' := ⟨[], 0, h, by simp, by simp⟩

theorem Extends.rollingOut {cs : List Cluster} {k n : Nat} {c c' : Ctx} (h : Extends cs k (c.rollingOut n) c') :
    Extends cs k c c' := by
  obtain ⟨L, m, hs, hL, hcover⟩ := h
  exact ⟨L, m, by simpa using hs, hL, hcover⟩

section Branches

variable {cs : List Cluster} {hs : List HelmReleaseProxy} {k : Nat} {c : Ctx} (hd : (cs.map Cluster.key).Nodup)
  (hrel : ∀ h ∈ hs, ∃ x ∈ (sortClusters cs).take k, x.key = h.clusterKey)
  (hcov : ∀ x ∈ (sortClusters cs).take k, ∃ h ∈ hs, h.clusterKey = x.key)

include hd hrel hcov in
/-- The False branch reconciles the clusters that have a release: the first `k`, again. --/
theorem reconcileExisting_extends :
    Extends cs k c (((((sortClusters cs).map (rolloutMetaOf hs)).filter (·.hrpExists)).map (·.cluster)).foldl
      Ctx.applied c) := by
  refine ⟨_, 0, Ctx.foldl_applied_store _, fun x mem => ?_, by simp⟩
  simp only [List.filter_map, List.map_map, Function.comp_def, rolloutMetaOf_cluster, List.map_id', List.mem_filter,
    rolloutMetaOf_hrpExists] at mem
  exact (any_release_iff hd hrel hcov mem.1).mp mem.2

include hcov in
/-- The Unknown branch writes the first batch only while no release is listed, from `k = 0`. --/
theorem rolloutWhenUnknown_extends (o : RolloutOptions) (happly : c.faults.Succeeds .apply) :
    Extends cs k c (rolloutWhenUnknown cs hs o ((sortClusters cs).map (rolloutMetaOf hs)) c).1 := by
  by_cases hne : hs = []
  · subst hne
    have none : (sortClusters cs).take k = [] :=
      List.eq_nil_iff_forall_not_mem.mpr fun x mem => by simpa using hcov x mem
    cases hinit : getScaledValueFromIntOrPercent o.stepInit cs.length true with
    | error e => exact .of_store_eq (by simp [rolloutWhenUnknown, hinit, Except.mapError, Pass.bind_apply])
    | ok s0 =>
      rw [rolloutWhenUnknown_eq hinit happly]
      refine ⟨(sortClusters cs).take s0.toNat, s0.toNat,
        by simp [List.map_take, List.map_map, Function.comp_def, Ctx.foldl_applied_store], ?_⟩
      rcases List.take_eq_nil_iff.mp none with rfl | empty
      · simp
      · simp [empty]
  · exact .of_store_eq (by rw [rolloutWhenUnknown_of_ne_nil hne])

include hd hrel hcov in
/-- The True branch walks past the first `k` clusters only when all their releases are Ready, and
    then writes the next clusters in rollout order. --/
theorem rolloutWhenTrue_extends (o : RolloutOptions) (happly : c.faults.Succeeds .apply) :
    Extends cs k c (rolloutWhenTrue cs o ((sortClusters cs).map (rolloutMetaOf hs)) c).1 := by
  cases hinc : resolveStep o.stepIncrement cs.length with
  | error e => exact .of_store_eq (by simp [rolloutWhenTrue, hinc, Except.mapError, Pass.bind_apply])
  | ok inc =>
  cases hlim : resolveStep o.stepLimit cs.length with
  | error e => exact .of_store_eq (by simp [rolloutWhenTrue, hinc, hlim, Except.mapError, Pass.bind_apply])
  | ok lim =>
  cases hini : resolveStep o.stepInit cs.length with
  | error e => exact .of_store_eq (by simp [rolloutWhenTrue, hinc, hlim, hini, Except.mapError, Pass.bind_apply])
  | ok ini =>
  have released : ∀ a ∈ ((sortClusters cs).take k).map (rolloutMetaOf hs), a.hrpExists = true := fun a mem => by
    obtain ⟨x, mem_x, rfl⟩ := List.mem_map.mp mem
    simpa using (any_release_iff hd hrel hcov (List.mem_of_mem_take mem_x)).mpr mem_x
  have fresh : ∀ b ∈ ((sortClusters cs).drop k).map (rolloutMetaOf hs), b.hrpExists = false := fun b mem => by
    obtain ⟨x, mem_x, rfl⟩ := List.mem_map.mp mem
    simpa using any_release_of_drop hd hrel hcov mem_x
  rw [rolloutWhenTrue_eq hinc hlim hini happly]
  dsimp only
  rw [← List.take_append_drop k (sortClusters cs), List.map_append, takeWhile_settled_filter released fresh]
  split
  · refine ⟨_, (nextStepSize c.proxy.status.rolloutStepSize inc lim ini).toNat,
      by simp [List.map_take, List.map_map, Function.comp_def, Ctx.foldl_applied_store], fun x mem => ?_, fun x mem => mem⟩
    rw [List.take_add]
    exact List.mem_append_right _ mem
  · exact .of_store_eq (by simp)

include hd hrel hcov in
theorem rolloutByReadiness_extends (o : RolloutOptions) (happly : c.faults.Succeeds .apply) :
    Extends cs k c (rolloutByReadiness cs hs o ((sortClusters cs).map (rolloutMetaOf hs)) c).1 := by
  cases hu : c.proxy.status.conditions.isUnknown .helmReleaseProxiesReady
  · cases hf : c.proxy.status.conditions.isFalse .helmReleaseProxiesReady
    · rw [rolloutByReadiness_true (Conditions.isTrue_of_not hu hf)]
      exact rolloutWhenTrue_extends hd hrel hcov o happly
    · rw [rolloutByReadiness_false hu hf happly]
      exact reconcileExisting_extends hd hrel hcov
  · rw [rolloutByReadiness_unknown hu]
    exact rolloutWhenUnknown_extends hcov o happly

include hd hrel hcov in
/-- Every way through rolloutReconcile writes releases that take the first `k` clusters in rollout
    order to a longer first part of that order. --/
theorem rolloutReconcile_extends (iou : InstallOrUpgrade) (happly : c.faults.Succeeds .apply) :
    Extends cs k c (rolloutReconcile cs hs iou c).1 := by
  cases hr : c.proxy.spec.rollout with
  | none => exact .of_store_eq (by simp [rolloutReconcile, hr, Pass.bind_apply])
  | some r =>
  cases ho : r.options iou with
  | none => exact .of_store_eq (by simp [rolloutReconcile, hr, ho, Pass.bind_apply])
  | some o =>
  by_cases hn : (cs.length : Int) = c.proxy.status.rolloutCount
  · exact .of_store_eq (by rw [rolloutReconcile_completed hr ho hn]; rfl)
  have found : hs.any (isOrphan cs) = false :=
    List.any_eq_false.mpr fun h mem => ne_true_of_eq_false (not_orphan hrel h mem)
  rw [rolloutReconcile_eq hr ho hn, rolloutMetaSorted_eq _ hd, if_neg (by simp [found])]
  dsimp only
  exact (rolloutByReadiness_extends hd hrel hcov o (c := c.rollingOut cs.length) happly).rollingOut

/-- Without rollout options every selected cluster is written. --/
theorem reconcileWithoutRollout_extends (happly : c.faults.Succeeds .apply) :
    Extends cs k c (reconcileWithoutRollout cs c).1 := by
  refine ⟨cs, cs.length, ?_, fun x mem => ?_, fun x mem => ?_⟩
  · simp [reconcileWithoutRollout, Pass.bind_apply, modifyConditions, forM_reconcileForCluster, happly,
      Ctx.foldl_applied_store]
  · rw [List.take_of_length_le (by simp [sortClusters, List.length_insertionSort])]
    exact (List.mem_insertionSort _).mpr mem
  · exact (List.mem_insertionSort _).mp (List.mem_of_mem_drop (List.mem_of_mem_take mem))

include hd hrel hcov in
theorem reconcileNormal_extends (happly : c.faults.Succeeds .apply) :
    Extends cs k c (reconcileNormal cs hs c).1 := by
  have kept : hs.filter (isOrphan cs) = [] := List.filter_eq_nil_iff.mpr fun h mem => by simp [not_orphan hrel h mem]
  simp only [reconcileNormal, deleteOrphanedHelmReleaseProxies, kept, Pass.bind_apply, getProxy_apply, List.forM_nil', Pass.pure_bind, ite_self]
  have without : Extends cs k c (reconcileWithoutRollout cs c).1 := reconcileWithoutRollout_extends happly
  have rollout := fun iou => rolloutReconcile_extends hd hrel hcov iou happly
  cases c.proxy.spec.rollout with
  | none => exact without
  | some r =>
    dsimp only
    split <;> split
    · exact without
    · exact rollout .install
    · exact without
    · exact rollout .upgrade

end Branches

end HelmAddon
