import HelmAddon.Theorems.RolloutMetadata
import HelmAddon.System

/-! The batch loops of rolloutReconcile and its branches, when every write of reconcileForCluster
    succeeds: which clusters a pass reconciles, in which order, and what it records in
    Status.Rollout. -/

namespace HelmAddon

/-- A cluster the True branch walks past: it has no release, or a Ready one. --/
def RolloutMeta.settled (m : RolloutMeta) : Bool := !(m.hrpExists && !m.hrpReady)

theorem Conditions.isTrue_exclusive {cs : Conditions} {t : ConditionType} :
    cs.isTrue t = true → cs.isUnknown t = false ∧ cs.isFalse t = false := by
  unfold Conditions.isTrue Conditions.isUnknown Conditions.isFalse
  cases cs.get t with
  | none => simp
  | some c => obtain ⟨st, _, _, _⟩ := c; cases st <;> simp

theorem Conditions.isTrue_of_not {cs : Conditions} {t : ConditionType} :
    cs.isUnknown t = false → cs.isFalse t = false → cs.isTrue t = true := by
  unfold Conditions.isTrue Conditions.isUnknown Conditions.isFalse
  cases cs.get t with
  | none => simp
  | some c => obtain ⟨st, _, _, _⟩ := c; cases st <;> simp

/-! ### The loops -/

variable {c : Ctx}

/-- The loop of the Unknown branch reconciles the first clusters, as many as the step size allows. --/
theorem reconcileFirstBatch_eq (stepSize : Int) (metas : List RolloutMeta) (count : Int)
    (h : c.faults.Succeeds .apply) :
    reconcileFirstBatch stepSize metas count c =
      (((metas.take (stepSize - count).toNat).map (·.cluster)).foldl Ctx.applied c,
        .ok (count + (metas.take (stepSize - count).toNat).length, .ok requeue)) := by
  induction metas generalizing count c with
  | nil => simp [reconcileFirstBatch]
  | cons m metas ih =>
    by_cases hc : count ≥ stepSize
    · have : (stepSize - count).toNat = 0 := by omega
      simp [reconcileFirstBatch, hc, this]
    · obtain ⟨n, hn⟩ : ∃ n, (stepSize - count).toNat = n + 1 := ⟨(stepSize - (count + 1)).toNat, by omega⟩
      have hn' : (stepSize - (count + 1)).toNat = n := by omega
      simp only [reconcileFirstBatch, if_neg hc, Pass.bind_apply, Pass.attempt_apply, reconcileForCluster_ok _ h,
        ih (c := c.applied m.cluster) (count + 1) (h.next .apply), hn, hn', List.take_succ_cons, List.map_cons,
        List.foldl_cons, List.length_cons]
      congr 3
      omega

/-- The loop of the True branch reconciles the clusters without a release that come before the first
    release that is not Ready, as many as the step size allows. --/
theorem reconcileNextBatch_eq (stepSize : Int) (metas : List RolloutMeta) (count : Int)
    (h : c.faults.Succeeds .apply) :
    reconcileNextBatch stepSize metas count c =
      let batch := ((metas.takeWhile RolloutMeta.settled).filter (!·.hrpExists)).take (stepSize - count).toNat
      ((batch.map (·.cluster)).foldl Ctx.applied c, .ok (count + batch.length, .ok requeue)) := by
  induction metas generalizing count c with
  | nil => simp [reconcileNextBatch]
  | cons m metas ih =>
    obtain ⟨cl, exists_, ready⟩ := m
    by_cases hc : count ≥ stepSize
    · have : (stepSize - count).toNat = 0 := by omega
      cases exists_ <;> cases ready <;> simp [reconcileNextBatch, RolloutMeta.settled, hc, this]
    obtain ⟨n, hn⟩ : ∃ n, (stepSize - count).toNat = n + 1 := ⟨(stepSize - (count + 1)).toNat, by omega⟩
    have hn' : (stepSize - (count + 1)).toNat = n := by omega
    cases exists_
    · -- no release yet: the cluster is reconciled
      simp only [reconcileNextBatch, Bool.false_and, Bool.false_eq_true, if_false, if_neg hc, Pass.bind_apply,
        Pass.attempt_apply, reconcileForCluster_ok _ h, ih (c := c.applied cl) (count + 1) (h.next .apply),
        RolloutMeta.settled, Bool.not_false, List.takeWhile_cons_of_pos, List.filter_cons_of_pos, hn, hn',
        List.take_succ_cons, List.map_cons, List.foldl_cons, List.length_cons]
      congr 3
      omega
    cases ready
    · -- a release that is not Ready: the walk stops
      simp [reconcileNextBatch, RolloutMeta.settled]
    · -- a Ready release: the cluster is skipped
      simp [reconcileNextBatch, RolloutMeta.settled, hc, ih count h]

/-- The loop of the False branch reconciles the clusters that have a release. --/
theorem reconcileExisting_eq (metas : List RolloutMeta) (h : c.faults.Succeeds .apply) :
    reconcileExisting metas c = (((metas.filter (·.hrpExists)).map (·.cluster)).foldl Ctx.applied c, .ok ()) := by
  induction metas generalizing c with
  | nil => rfl
  | cons m metas ih =>
    unfold reconcileExisting at ih ⊢
    by_cases he : m.hrpExists = true
    · simp [he, Pass.bind_apply, reconcileForCluster_ok _ h, ih (c := c.applied m.cluster) (h.next .apply)]
    · simp [he, Pass.bind_apply, ih h]

/-! ### The branches -/

variable {cs : List Cluster} {hs : List HelmReleaseProxy} {o : RolloutOptions} {metas : List RolloutMeta}

/-- The Unknown branch with no release yet: the first batch, and its size recorded as Count. --/
theorem rolloutWhenUnknown_eq {s0 : Int} (hinit : getScaledValueFromIntOrPercent o.stepInit cs.length true = .ok s0)
    (h : c.faults.Succeeds .apply) :
    rolloutWhenUnknown cs [] o metas c =
      ((((metas.take s0.toNat).map (·.cluster)).foldl Ctx.applied c).modifyProxy
        (·.modifyStatus (·.setRollout ⟨some (metas.take s0.toNat).length, some s0⟩)), .ok requeue) := by
  by_cases h0 : s0 = 0
  · subst h0
    simp [rolloutWhenUnknown, hinit, Except.mapError, Pass.bind_apply]
  · simp [rolloutWhenUnknown, hinit, h0, Except.mapError, Pass.bind_apply, reconcileFirstBatch_eq _ _ _ h]

/-- The Unknown branch once releases exist: a requeue and nothing else. --/
theorem rolloutWhenUnknown_of_ne_nil (hne : hs ≠ []) : rolloutWhenUnknown cs hs o metas c = (c, .ok requeue) := by
  simp [rolloutWhenUnknown, hne]

/-- The True branch: the next batch, added to Count, with the new step size. --/
theorem rolloutWhenTrue_eq {inc lim ini : Int} (hinc : resolveStep o.stepIncrement cs.length = .ok inc)
    (hlim : resolveStep o.stepLimit cs.length = .ok lim) (hini : resolveStep o.stepInit cs.length = .ok ini)
    (h : c.faults.Succeeds .apply) :
    rolloutWhenTrue cs o metas c =
      let stepSize := nextStepSize c.proxy.status.rolloutStepSize inc lim ini
      let batch := ((metas.takeWhile RolloutMeta.settled).filter (!·.hrpExists)).take stepSize.toNat
      ((((batch.map (·.cluster)).foldl Ctx.applied c).modifyProxy
        (·.modifyStatus (·.setRollout ⟨some (wrapInt64 (c.proxy.status.rolloutCount + batch.length)),
          some stepSize⟩))),
        .ok requeue) := by
  simp [rolloutWhenTrue, hinc, hlim, hini, Except.mapError, Pass.bind_apply, reconcileNextBatch_eq _ _ _ h]

theorem rolloutByReadiness_unknown (hu : c.proxy.status.conditions.isUnknown .helmReleaseProxiesReady = true) :
    rolloutByReadiness cs hs o metas c = rolloutWhenUnknown cs hs o metas c := by
  simp [rolloutByReadiness, Pass.bind_apply, hu]

theorem rolloutByReadiness_false (hu : c.proxy.status.conditions.isUnknown .helmReleaseProxiesReady = false)
    (hf : c.proxy.status.conditions.isFalse .helmReleaseProxiesReady = true) (h : c.faults.Succeeds .apply) :
    rolloutByReadiness cs hs o metas c =
      (((metas.filter (·.hrpExists)).map (·.cluster)).foldl Ctx.applied c, .ok requeue) := by
  simp [rolloutByReadiness, Pass.bind_apply, hu, hf, reconcileExisting_eq _ h]

theorem rolloutByReadiness_true (ht : c.proxy.status.conditions.isTrue .helmReleaseProxiesReady = true) :
    rolloutByReadiness cs hs o metas c = rolloutWhenTrue cs o metas c := by
  obtain ⟨hu, hf⟩ := Conditions.isTrue_exclusive ht
  simp [rolloutByReadiness, Pass.bind_apply, hu, hf]

/-! ### rolloutReconcile -/

/-- The context once rolloutReconcile has marked HelmReleaseProxiesRolloutCompleted False. --/
def Ctx.rollingOut (c : Ctx) (clusters : Nat) : Ctx :=
  (modifyConditions (·.markFalse .helmReleaseProxiesRolloutCompleted helmReleaseProxiesRolloutNotCompleteReason
    .info (notRolledOutMessage (wrapInt64 ((clusters : Int) - c.proxy.status.rolloutCount)))) c).1

namespace Ctx

variable (n : Nat)

@[simp] theorem rollingOut_store : (c.rollingOut n).store = c.store := rfl
@[simp] theorem rollingOut_faults : (c.rollingOut n).faults = c.faults := rfl
@[simp] theorem rollingOut_mapOrder : (c.rollingOut n).mapOrder = c.mapOrder := rfl
@[simp] theorem rollingOut_reconciled : (c.rollingOut n).reconciled = c.reconciled := rfl
@[simp] theorem rollingOut_rollout : (c.rollingOut n).proxy.status.rollout = c.proxy.status.rollout := rfl

@[simp] theorem rollingOut_rolloutCount :
    (c.rollingOut n).proxy.status.rolloutCount = c.proxy.status.rolloutCount := rfl
@[simp] theorem rollingOut_rolloutStepSize :
    (c.rollingOut n).proxy.status.rolloutStepSize = c.proxy.status.rolloutStepSize := rfl

/-- The write reads no condition. --/
@[simp] theorem rollingOut_applyRelease (s : Store) (cl : Cluster) :
    s.applyRelease (c.rollingOut n).proxy cl = s.applyRelease c.proxy cl :=
  Store.applyRelease_modifyStatus _ _ _ _

theorem rollingOut_proxiesReady :
    (c.rollingOut n).proxy.status.conditions.get .helmReleaseProxiesReady =
      c.proxy.status.conditions.get .helmReleaseProxiesReady :=
  by simp [Ctx.rollingOut, modifyConditions, Conditions.markFalse, Conditions.get_set_of_ne]

@[simp] theorem rollingOut_isUnknown :
    (c.rollingOut n).proxy.status.conditions.isUnknown .helmReleaseProxiesReady =
      c.proxy.status.conditions.isUnknown .helmReleaseProxiesReady := by
  simp only [Conditions.isUnknown, rollingOut_proxiesReady]

@[simp] theorem rollingOut_isFalse :
    (c.rollingOut n).proxy.status.conditions.isFalse .helmReleaseProxiesReady =
      c.proxy.status.conditions.isFalse .helmReleaseProxiesReady := by
  simp only [Conditions.isFalse, rollingOut_proxiesReady]

@[simp] theorem rollingOut_isTrue :
    (c.rollingOut n).proxy.status.conditions.isTrue .helmReleaseProxiesReady =
      c.proxy.status.conditions.isTrue .helmReleaseProxiesReady := by
  simp only [Conditions.isTrue, rollingOut_proxiesReady]

end Ctx

variable {iou : InstallOrUpgrade} {r : Rollout}

/-- The Completed branch: HelmReleaseProxiesRolloutCompleted is marked True and nothing is
    reconciled. --/
theorem rolloutReconcile_completed (hr : c.proxy.spec.rollout = some r) (ho : r.options iou = some o)
    (hn : (cs.length : Int) = c.proxy.status.rolloutCount) :
    rolloutReconcile cs hs iou c = ((modifyConditions (·.markTrue .helmReleaseProxiesRolloutCompleted) c).1, .ok {}) := by
  simp [rolloutReconcile, Pass.bind_apply, hr, ho, hn, modifyConditions]

/-- Past the completion check, the rollout is marked as under way and the sorted metadata decides. --/
theorem rolloutReconcile_eq (hr : c.proxy.spec.rollout = some r) (ho : r.options iou = some o)
    (hn : (cs.length : Int) ≠ c.proxy.status.rolloutCount) :
    rolloutReconcile cs hs iou c =
      match rolloutMetaSorted c.mapOrder cs hs with
      | some metas => rolloutByReadiness cs hs o metas (c.rollingOut cs.length)
      | none => (c.rollingOut cs.length, .error .nilPointerDereference) := by
  simp only [rolloutReconcile, Pass.bind_apply, Pass.pure_apply, getProxy_apply, hr, ho, if_neg hn,
    modifyConditions, modifyProxy_apply, getMapOrder_apply, Ctx.modifyProxy_mapOrder]
  cases rolloutMetaSorted c.mapOrder cs hs <;> rfl

/-- A listed release whose cluster is not listed: once the Completed check fails, the write through
    the map's nil entry panics. --/
theorem rolloutReconcile_orphan (hd : (cs.map Cluster.key).Nodup) (hr : c.proxy.spec.rollout = some r)
    (ho : r.options iou = some o) (hn : (cs.length : Int) ≠ c.proxy.status.rolloutCount)
    (horphan : hs.any (isOrphan cs) = true) :
    (rolloutReconcile cs hs iou c).2 = .error .nilPointerDereference := by
  rw [rolloutReconcile_eq hr ho hn, rolloutMetaSorted_eq _ hd, if_pos horphan]

/-! ### A fleet

The concrete cases run on clusters of the `default` namespace labelled `env=prod`, and on a
HelmChartProxy `nginx` that selects them. -/

/-- A production cluster. --/
def prodCluster (name : String) : Cluster := ⟨"default", name, [("env", "prod")]⟩

/-- The HelmChartProxy `nginx`, just created, with the given rollout. --/
def nginxProxy (rollout : Option Rollout) : HelmChartProxy :=
  ⟨"default", "nginx", 1, false, [], ⟨{ matchLabels := [("env", "prod")] }, ⟨"nginx", "repo", "1.0", ""⟩, "", rollout⟩,
    {}⟩

/-- An install rollout in absolute steps. --/
def installRollout (stepInit stepIncrement : Int) : Rollout :=
  { install := some { stepInit := some (.int stepInit), stepIncrement := some (.int stepIncrement) } }

/-- The conditions a release reports: Ready and HelmReleaseReady both True, or both False. --/
def releaseConditions (ready : Bool) : Conditions :=
  let c : Condition := if ready then Conditions.trueCondition else ⟨.conditionFalse, "", .error, ""⟩
  { ready := some c, helmReleaseReady := some c }

/-- The release of `nginx` on a cluster, its generation observed, Ready or not. --/
def nginxRelease (cl : Cluster) (ready : Bool) : HelmReleaseProxy :=
  (Store.newRelease (nginxProxy none) cl 0).setStatus ⟨releaseConditions ready, 1⟩ []

/-- A store holding `nginx` and the given clusters, before any pass. --/
def fleetStore (clusters : ClusterList) (rollout : Option Rollout) : Store :=
  ⟨clusters, some (nginxProxy rollout), [], 0⟩

/-- `nginx` without rollout options over clusters a and b, before any pass. --/
def plainFleet : Store := fleetStore ⟨[prodCluster "a", prodCluster "b"], by decide⟩ none

/-- `nginx` with its finalizer and a settled status: every condition True, the given clusters
    matched, and the rollout status recorded. --/
def settledProxy (rollout : Option Rollout) (clusters : List Cluster) (count stepSize : Int) : HelmChartProxy :=
  let t := Conditions.trueCondition
  ⟨"default", "nginx", 1, false, [helmChartProxyFinalizer], (nginxProxy rollout).spec,
    ⟨{ ready := some t, helmReleaseProxySpecsUpToDate := some t, helmReleaseProxiesReady := some t,
       helmReleaseProxiesRolloutCompleted := some t }, clusters.map Cluster.ref, some ⟨some count, some stepSize⟩, 1⟩⟩

/-- A rollout of `nginx` in steps of one on cluster b alone, settled: b's release is observed and
    Ready, every condition of `nginx` is True, Count 1 and step size 1. --/
def settledStore : Store :=
  ⟨⟨[prodCluster "b"], by decide⟩, some (settledProxy (some (installRollout 1 1)) [prodCluster "b"] 1 1),
    [nginxRelease (prodCluster "b") true], 1⟩

/-- Two passes reach it: the first creates b's release, the second, once the release reports Ready,
    completes the rollout and aggregates readiness. --/
theorem settledStore_eq_run : (fleetStore ⟨[prodCluster "b"], by decide⟩ (some (installRollout 1 1))).run
    [.reconcile {}, .updateRelease ⟨"default", "nginx-b-0"⟩ ⟨releaseConditions true, 1⟩ [], .reconcile {}] =
      settledStore := rfl

theorem reachable_settledStore : Reachable settledStore :=
  settledStore_eq_run ▸ (Reachable.init ⟨rfl, _, rfl, rfl, rfl, rfl, rfl⟩).run _

/-- A pass of the True branch on clusters a, b and c: Count 1, step size 1, HelmReleaseProxiesReady
    True. --/
def nextBatchCtx : Ctx :=
  ⟨fleetStore ⟨[prodCluster "a", prodCluster "b", prodCluster "c"], by decide⟩ (some (installRollout 1 1)),
    (nginxProxy (some (installRollout 1 1))).modifyStatus fun _ =>
      { conditions := { helmReleaseProxiesReady := some Conditions.trueCondition }, rollout := some ⟨some 1, some 1⟩ },
    {}, MapOrder.insertion, []⟩

/-! ### Batches

When the clusters with a release are the first `k` in rollout order, a cluster has a release exactly
when it is one of them. When all those releases are Ready too, the metadata splits at `k`, and each
branch reconciles a slice of the sorted clusters. -/

/-- The walk of the True branch over metadata whose first part has releases and whose second has
    none: it passes the second part only when every release of the first is settled. --/
theorem takeWhile_settled_filter {A B : List RolloutMeta} (hA : ∀ a ∈ A, a.hrpExists = true)
    (hB : ∀ b ∈ B, b.hrpExists = false) :
    ((A ++ B).takeWhile RolloutMeta.settled).filter (!·.hrpExists) = if A.all RolloutMeta.settled then B else [] := by
  induction A with
  | nil =>
    have settled : ∀ b ∈ B, b.settled = true := fun b mem => by simp [RolloutMeta.settled, hB b mem]
    simp only [List.nil_append, List.all_nil, if_true, List.takeWhile_eq_self_iff.mpr settled]
    exact List.filter_eq_self.mpr fun b mem => by simp [hB b mem]
  | cons a A ih =>
    have ha := hA a (List.mem_cons_self a A)
    rw [List.cons_append, List.takeWhile_cons, List.all_cons]
    cases hs : a.settled
    · simp
    · simp [ha, ih fun a' mem => hA a' (List.mem_cons_of_mem a mem)]

section Released

variable {k : Nat} (hd : (cs.map Cluster.key).Nodup)
  (hrel : ∀ h ∈ hs, ∃ x ∈ (sortClusters cs).take k, x.key = h.clusterKey)
  (hcov : ∀ x ∈ (sortClusters cs).take k, ∃ h ∈ hs, h.clusterKey = x.key)

include hd in
theorem sortClusters_keys_nodup : ((sortClusters cs).map Cluster.key).Nodup :=
  ((List.perm_insertionSort _ cs).map _).nodup_iff.mpr hd

include hrel in
/-- A release on one of the clusters is no orphan. --/
theorem not_orphan : ∀ h ∈ hs, isOrphan cs h = false := fun h mem => by
  obtain ⟨x, mem_x, hx⟩ := hrel h mem
  have : x ∈ cs := (List.mem_insertionSort _).mp (List.mem_of_mem_take mem_x)
  simpa [isOrphan] using ⟨x, this, hx⟩

include hd hrel hcov in
/-- A cluster has a release exactly when it is one of the first `k`. --/
theorem any_release_iff {x : Cluster} (hx : x ∈ sortClusters cs) :
    hs.any (·.clusterKey == x.key) = true ↔ x ∈ (sortClusters cs).take k := by
  constructor
  · intro found
    obtain ⟨h, mem, hk⟩ := List.any_eq_true.mp found
    obtain ⟨y, mem_y, hy⟩ := hrel h mem
    have : y = x := List.inj_on_of_nodup_map (sortClusters_keys_nodup hd) (List.mem_of_mem_take mem_y) hx
      (hy.trans (beq_iff_eq.mp hk))
    exact this ▸ mem_y
  · intro mem
    obtain ⟨h, mem_h, hk⟩ := hcov x mem
    exact List.any_eq_true.mpr ⟨h, mem_h, by simp [hk]⟩

include hd hrel hcov in
theorem any_release_of_drop {x : Cluster} (hx : x ∈ (sortClusters cs).drop k) :
    hs.any (·.clusterKey == x.key) = false :=
  Bool.eq_false_iff.mpr fun found => List.disjoint_take_drop ((sortClusters_keys_nodup hd).of_map _) le_rfl
    ((any_release_iff hd hrel hcov (List.mem_of_mem_drop hx)).mp found) hx

include hd hrel hcov in
/-- The metadata of a rollout whose first `k` clusters have releases, all Ready, and no other. --/
theorem rolloutMetaOf_split (hready : ∀ h ∈ hs, h.status.conditions.isTrue .helmReleaseReady = true) :
    (sortClusters cs).map (rolloutMetaOf hs) =
      ((sortClusters cs).take k).map (fun x => ⟨x, true, true⟩) ++
        ((sortClusters cs).drop k).map (fun x => ⟨x, false, false⟩) := by
  have meta_eq : ∀ x, rolloutMetaOf hs x =
      ⟨x, hs.any (·.clusterKey == x.key), hs.any (·.clusterKey == x.key)⟩ := fun x => by
    rw [rolloutMetaOf_of_agree fun h mem _ => hready h mem, Bool.and_true]
  conv_lhs => rw [← List.take_append_drop k (sortClusters cs), List.map_append]
  congr 1
  · refine List.map_congr_left fun x mem => ?_
    rw [meta_eq, (any_release_iff hd hrel hcov (List.mem_of_mem_take mem)).mpr mem]
  · refine List.map_congr_left fun x mem => ?_
    rw [meta_eq, any_release_of_drop hd hrel hcov mem]

end Released

/-- The True branch on the listed releases: it reconciles the clusters without a release that sort
    before the first cluster whose release is not Ready, as many as the step size allows. A release
    that is not Ready later in the order does not hold it back. --/
theorem rolloutReconcile_true {inc lim ini : Int} (hd : (cs.map Cluster.key).Nodup)
    (hr : c.proxy.spec.rollout = some r) (ho : r.options iou = some o)
    (hn : (cs.length : Int) ≠ c.proxy.status.rolloutCount) (horphan : hs.any (isOrphan cs) = false)
    (ht : c.proxy.status.conditions.isTrue .helmReleaseProxiesReady = true)
    (hinc : resolveStep o.stepIncrement cs.length = .ok inc) (hlim : resolveStep o.stepLimit cs.length = .ok lim)
    (hini : resolveStep o.stepInit cs.length = .ok ini) (happly : c.faults.Succeeds .apply) :
    (rolloutReconcile cs hs iou c).1.reconciled = c.reconciled ++
      (((((sortClusters cs).map (rolloutMetaOf hs)).takeWhile RolloutMeta.settled).filter (!·.hrpExists)).take
        (nextStepSize c.proxy.status.rolloutStepSize inc lim ini).toNat).map (·.cluster) := by
  have ht' : (c.rollingOut cs.length).proxy.status.conditions.isTrue .helmReleaseProxiesReady = true := by
    simpa using ht
  rw [rolloutReconcile_eq hr ho hn, rolloutMetaSorted_eq _ hd, if_neg (by simp [horphan])]
  dsimp only
  rw [rolloutByReadiness_true ht', rolloutWhenTrue_eq hinc hlim hini (c := c.rollingOut cs.length) happly]
  simp

/-- Cluster a joins the settled rollout, and b's release stops being Ready. --/
def unreadyStore : Store :=
  (settledStore.step (.setClusters ⟨[prodCluster "a", prodCluster "b"], by decide⟩)).step
    (.updateRelease ⟨"default", "nginx-b-0"⟩ ⟨releaseConditions false, 1⟩ [])

/-- The True branch takes its batch from the clusters that sort before the first unsettled one, so a
    release that is not Ready later in the order does not stop a new batch; after b's release stops
    being Ready, the pass still reconciles a. --/
theorem rolloutReconcile_true_passes_unready :
    (∀ {cs : List Cluster} {hs : List HelmReleaseProxy} {iou : InstallOrUpgrade} {c : Ctx} {r : Rollout}
        {o : RolloutOptions} {inc lim ini : Int}, (cs.map Cluster.key).Nodup → c.proxy.spec.rollout = some r →
        r.options iou = some o → (cs.length : Int) ≠ c.proxy.status.rolloutCount →
        hs.any (isOrphan cs) = false → c.proxy.status.conditions.isTrue .helmReleaseProxiesReady = true →
        resolveStep o.stepIncrement cs.length = .ok inc → resolveStep o.stepLimit cs.length = .ok lim →
        resolveStep o.stepInit cs.length = .ok ini → c.faults.Succeeds .apply →
        (rolloutReconcile cs hs iou c).1.reconciled = c.reconciled ++
          (((((sortClusters cs).map (rolloutMetaOf hs)).takeWhile RolloutMeta.settled).filter (!·.hrpExists)).take
            (nextStepSize c.proxy.status.rolloutStepSize inc lim ini).toNat).map (·.cluster)) ∧
      Reachable unreadyStore ∧ unreadyStore.releases.map (·.status.conditions.isTrue .ready) = [false] ∧
      (unreadyStore.pass {}).1.reconciled = [prodCluster "a"] :=
  ⟨rolloutReconcile_true, (reachable_settledStore.step _).step _, rfl, rfl⟩

/-- The settled rollout after cluster c joins the selection. --/
def grownStore : Store := settledStore.step (.setClusters ⟨[prodCluster "b", prodCluster "c"], by decide⟩)

/-- The settled rollout after every cluster leaves the selection. --/
def deselectedStore : Store := settledStore.step (.setClusters ⟨[], by decide⟩)

/-- rolloutReconcile panics whenever a listed release targets no listed cluster and Count is not the
    number of clusters; the settled rollout reaches such a pass once every cluster leaves the
    selection. --/
theorem rolloutReconcile_deselected_panics :
    (∀ {cs : List Cluster} {hs : List HelmReleaseProxy} {iou : InstallOrUpgrade} {c : Ctx} {r : Rollout}
        {o : RolloutOptions}, (cs.map Cluster.key).Nodup → c.proxy.spec.rollout = some r →
        r.options iou = some o → (cs.length : Int) ≠ c.proxy.status.rolloutCount →
        hs.any (isOrphan cs) = true → (rolloutReconcile cs hs iou c).2 = .error .nilPointerDereference) ∧
      Reachable deselectedStore ∧ (deselectedStore.pass {}).2 = .error .nilPointerDereference :=
  ⟨rolloutReconcile_orphan, reachable_settledStore.step _, rfl⟩

end HelmAddon
