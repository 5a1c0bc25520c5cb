import HelmAddon.Store

/-! The HelmChartProxy controller of helmchartproxy_controller.go: Reconcile, reconcileNormal,
    rolloutReconcile, reconcileDelete, the aggregation of readiness and the watch mappers. A loop
    becomes a structural recursion that returns what the loop leaves behind, its counter and its
    return value, so that the `defer` after it can read them. -/

namespace HelmAddon

/-! ### Functions of the package outside src/ -/

/-- Modelled from the spec: reconcileForCluster (not in src/), which creates the cluster's
    HelmReleaseProxy or updates it in place; a failed write is its error. --/
def reconcileForCluster (cluster : Cluster) : Pass Unit := do
  logReconciled cluster
  applyRelease cluster

/-- Modelled from the spec: deleteHelmReleaseProxy (not in src/) requests the deletion; NotFound is
    success. --/
def deleteHelmReleaseProxy (release : HelmReleaseProxy) : Pass Unit :=
  tryCatch (deleteRelease release.key) fun
    | .notFound _ => pure ()
    | err => throw err

/-- A release whose cluster is not among the given ones. --/
def isOrphan (clusters : List Cluster) (h : HelmReleaseProxy) : Bool :=
  !clusters.any (·.key == h.clusterKey)

/-- Modelled from the spec: deleteOrphanedHelmReleaseProxies (not in src/), "for every existing
    ClusterRelease whose target cluster is not in the current candidate set, delete it"; the first
    failure is returned. --/
def deleteOrphanedHelmReleaseProxies (clusters : List Cluster) (releases : List HelmReleaseProxy) :
    Pass Unit :=
  (releases.filter (isOrphan clusters)).forM deleteHelmReleaseProxy

/-! ### Listing and patching -/

/-- listClustersWithLabels: the selector is converted, then the matching clusters are listed. --/
def listClustersWithLabels (ns : String) (selector : LabelSelector) : Pass (List Cluster) := do
  let labelSelector ← Pass.ofExcept ((labelSelectorAsSelector selector).mapError .invalid)
  listClusters ns labelSelector

/-- listInstalledReleases. --/
def listInstalledReleases (ns : String) (labels : Labels) : Pass (List HelmReleaseProxy) :=
  listReleases ns labels

/-- patchHelmChartProxy: Ready becomes the summary of the three owned conditions, the observed
    generation is recorded (WithStatusObservedGeneration), and the object is patched. --/
def patchHelmChartProxy : Pass Unit := do
  modifyConditions (·.setSummary
    [.helmReleaseProxySpecsUpToDate, .helmReleaseProxiesReady, .helmReleaseProxiesRolloutCompleted])
  modifyProxy HelmChartProxy.observeGeneration
  patchProxy

/-! ### Rollout metadata -/

/-- clusterNnRolloutMeta: Go's map from namespaced name to rollout metadata, in insertion order. --/
abbrev RolloutMetaMap := List (String × RolloutMeta)

/-- The assignment `m[k] = v`: the entry of `k` is replaced, or added at the end. --/
def RolloutMetaMap.insert : RolloutMetaMap → String → RolloutMeta → RolloutMetaMap
  | [], k, v => [(k, v)]
  | (k', v') :: m, k, v => if k' = k then (k, v) :: m else (k', v') :: insert m k v

/-- The first loop: every cluster gets fresh metadata under its namespaced name. --/
def insertClusters : RolloutMetaMap → List Cluster → RolloutMetaMap
  | m, [] => m
  | m, c :: cs => insertClusters (m.insert c.key ⟨c, false, false⟩) cs

/-- The second loop: every release marks the metadata of its cluster. A release whose cluster has no
    entry writes through the nil pointer the map returns, which panics (`none`). --/
def markReleases : RolloutMetaMap → List HelmReleaseProxy → Option RolloutMetaMap
  | m, [] => some m
  | m, h :: hs =>
    match m.lookup h.clusterKey with
    | none => none
    | some meta =>
      markReleases (m.insert h.clusterKey
        ⟨meta.cluster, true, h.status.conditions.isTrue .helmReleaseReady⟩) hs

/-- The order of SortStableFunc: namespaced names compared in Go's byte order, which on UTF-8 text
    is the order of code points. --/
def RolloutMeta.le (a b : RolloutMeta) : Prop :=
  a.cluster.key.toList ≤ b.cluster.key.toList

instance : DecidableRel RolloutMeta.le := fun a b =>
  inferInstanceAs (Decidable (a.cluster.key.toList ≤ b.cluster.key.toList))

/-- slices.SortStableFunc by namespaced name, as an insertion sort (every stable sort agrees). --/
def sortRolloutMeta (metas : List RolloutMeta) : List RolloutMeta :=
  metas.insertionSort RolloutMeta.le

/-- rolloutMetaSorted: the map is built, its entries are read in the map's iteration order and
    sorted. `none` is the nil dereference of a release whose cluster is not listed. --/
def rolloutMetaSorted (mapOrder : MapOrder) (clusters : List Cluster)
    (helmReleaseProxies : List HelmReleaseProxy) : Option (List RolloutMeta) :=
  (markReleases (insertClusters [] clusters) helmReleaseProxies).map fun clusterNnRolloutMeta =>
    sortRolloutMeta (mapOrder.order (clusterNnRolloutMeta.map (·.2)))

/-! ### rolloutReconcile -/

/-- The loop of the Unknown branch: clusters are reconciled in order until `stepSize` of them are. --/
def reconcileFirstBatch (stepSize : Int) : List RolloutMeta → Int → Pass (Int × Except Error Result)
  | [], count => pure (count, .ok requeue)
  | meta :: metas, count =>
    if count ≥ stepSize then pure (count, .ok requeue)
    else do
      match ← Pass.attempt (reconcileForCluster meta.cluster) with
      | .error err => pure (count, .error err)
      | .ok () => reconcileFirstBatch stepSize metas (count + 1)

/-- The Unknown branch: with no release yet, the first batch is created. The deferred status update
    records the count reached and the step size. --/
def rolloutWhenUnknown (clusters : List Cluster) (helmReleaseProxies : List HelmReleaseProxy)
    (rolloutOptions : RolloutOptions) (rolloutMetaSorted : List RolloutMeta) : Pass Result := do
  if helmReleaseProxies.length ≠ 0 then return requeue
  let stepSize ← Pass.ofExcept
    ((getScaledValueFromIntOrPercent rolloutOptions.stepInit clusters.length true).mapError .invalid)
  let (count, result) ←
    if stepSize = helmReleaseProxies.length then pure (0, .ok requeue)
    else reconcileFirstBatch stepSize rolloutMetaSorted 0
  modifyProxy (·.modifyStatus (·.setRollout ⟨some count, some stepSize⟩))
  Pass.ofExcept result

/-- The loop of the False branch: only clusters that have a release are reconciled. --/
def reconcileExisting (rolloutMetaSorted : List RolloutMeta) : Pass Unit :=
  rolloutMetaSorted.forM fun meta => if meta.hrpExists then reconcileForCluster meta.cluster else pure ()

/-- A step value of the True branch: resolved when it is set, 0 otherwise. --/
def resolveStep (value : Option IntOrString) (total : Nat) : Except String Int :=
  match value with
  | none => .ok 0
  | some v => getScaledValueFromIntOrPercent (some v) total true

/-- The new step size: the old one plus the increment, a sum of Go ints that wraps, capped at the
    limit only when the limit exceeds the initial step. --/
def nextStepSize (oldStepSize stepIncrement stepLimit stepInit : Int) : Int :=
  let stepSize := wrapInt64 (oldStepSize + stepIncrement)
  if stepLimit > stepInit ∧ stepSize > stepLimit then stepLimit else stepSize

/-- The loop of the True branch: it stops at a release that is not Ready or once `stepSize` clusters
    are reconciled, and skips the clusters that have a release. --/
def reconcileNextBatch (stepSize : Int) : List RolloutMeta → Int → Pass (Int × Except Error Result)
  | [], count => pure (count, .ok requeue)
  | meta :: metas, count =>
    if meta.hrpExists && !meta.hrpReady then pure (count, .ok requeue)
    else if count ≥ stepSize then pure (count, .ok requeue)
    else if meta.hrpExists then reconcileNextBatch stepSize metas count
    else do
      match ← Pass.attempt (reconcileForCluster meta.cluster) with
      | .error err => pure (count, .error err)
      | .ok () => reconcileNextBatch stepSize metas (count + 1)

/-- The True branch: the next batch. The deferred status update adds the count reached to the old
    count, a sum of Go ints that wraps, and records the new step size. --/
def rolloutWhenTrue (clusters : List Cluster) (rolloutOptions : RolloutOptions)
    (rolloutMetaSorted : List RolloutMeta) : Pass Result := do
  let oldStepSize := (← getProxy).status.rolloutStepSize
  let stepIncrement ← Pass.ofExcept ((resolveStep rolloutOptions.stepIncrement clusters.length).mapError .invalid)
  let stepLimit ← Pass.ofExcept ((resolveStep rolloutOptions.stepLimit clusters.length).mapError .invalid)
  let stepInit ← Pass.ofExcept ((resolveStep rolloutOptions.stepInit clusters.length).mapError .invalid)
  let stepSize := nextStepSize oldStepSize stepIncrement stepLimit stepInit
  let (count, result) ← reconcileNextBatch stepSize rolloutMetaSorted 0
  let oldCount := (← getProxy).status.rolloutCount
  modifyProxy (·.modifyStatus (·.setRollout ⟨some (wrapInt64 (oldCount + count)), some stepSize⟩))
  Pass.ofExcept result

/-- The three ways of rolloutReconcile, on HelmReleaseProxiesReady: the first batch when it is
    Unknown, the existing releases only when it is False, the next batch when it is True. --/
def rolloutByReadiness (clusters : List Cluster) (helmReleaseProxies : List HelmReleaseProxy)
    (rolloutOptions : RolloutOptions) (rolloutMetaSorted : List RolloutMeta) : Pass Result := do
  let conditions := (← getProxy).status.conditions
  if conditions.isUnknown .helmReleaseProxiesReady then
    rolloutWhenUnknown clusters helmReleaseProxies rolloutOptions rolloutMetaSorted
  else if conditions.isFalse .helmReleaseProxiesReady then
    reconcileExisting rolloutMetaSorted
    return requeue
  else
    rolloutWhenTrue clusters rolloutOptions rolloutMetaSorted

/-- The switch on installOrUpgrade: the rollout options of the phase. --/
def Rollout.options (rollout : Rollout) : InstallOrUpgrade → Option RolloutOptions
  | .install => rollout.install
  | .upgrade => rollout.upgrade

/-- The message of HelmReleaseProxiesRolloutCompleted while a rollout is under way. --/
def notRolledOutMessage (notRolledOut : Int) : String :=
  toString notRolledOut ++ " Helm release proxies not yet rolled out"

/-- rolloutReconcile: the rollout of the active phase, driven by HelmReleaseProxiesReady. --/
def rolloutReconcile (clusters : List Cluster) (helmReleaseProxies : List HelmReleaseProxy)
    (installOrUpgrade : InstallOrUpgrade) : Pass Result := do
  let helmChartProxy ← getProxy
  let some rollout := helmChartProxy.spec.rollout | throw .nilPointerDereference
  let some rolloutOptions := rollout.options installOrUpgrade | return {}
  let rolloutCount := helmChartProxy.status.rolloutCount
  if (clusters.length : Int) = rolloutCount then
    modifyConditions (·.markTrue .helmReleaseProxiesRolloutCompleted)
    return {}
  modifyConditions (·.markFalse .helmReleaseProxiesRolloutCompleted
    helmReleaseProxiesRolloutNotCompleteReason .info
    (notRolledOutMessage (wrapInt64 ((clusters.length : Int) - rolloutCount))))
  let some rolloutMetaSorted := rolloutMetaSorted (← getMapOrder) clusters helmReleaseProxies
    | throw .nilPointerDereference
  rolloutByReadiness clusters helmReleaseProxies rolloutOptions rolloutMetaSorted

/-! ### reconcileNormal and reconcileDelete -/

/-- The branch reconcileNormal repeats when the active phase has no rollout options: the rollout is
    marked as not used and every cluster is reconciled. --/
def reconcileWithoutRollout (clusters : List Cluster) : Pass Result := do
  modifyConditions (·.markTrueWithNegativePolarity .helmReleaseProxiesRolloutCompleted
    helmReleaseProxiesRolloutUndefinedReason .info hrpRolloutCompletedMsg)
  clusters.forM reconcileForCluster
  return {}

/-- reconcileNormal: orphans are deleted unless the strategy is InstallOnce; then the install phase
    rolls out on the first generation and the upgrade phase on later ones. --/
def reconcileNormal (clusters : List Cluster) (helmReleaseProxies : List HelmReleaseProxy) :
    Pass Result := do
  let helmChartProxy ← getProxy
  if helmChartProxy.spec.reconcileStrategy ≠ reconcileStrategyInstallOnce then
    deleteOrphanedHelmReleaseProxies clusters helmReleaseProxies
  match helmChartProxy.spec.rollout with
  | none => reconcileWithoutRollout clusters
  | some rollout =>
    if helmChartProxy.generation = 1 then
      if rollout.install.isNone then reconcileWithoutRollout clusters
      else rolloutReconcile clusters helmReleaseProxies .install
    else if rollout.upgrade.isNone then reconcileWithoutRollout clusters
    else rolloutReconcile clusters helmReleaseProxies .upgrade

/-- The loop of reconcileDelete: each release is deleted and read again; those still found are
    returned in order. --/
def deleteAndConfirm : List HelmReleaseProxy → Pass (List HelmReleaseProxy)
  | [] => pure []
  | release :: releases => do
    tryCatch (deleteHelmReleaseProxy release) fun err =>
      throw (.wrapped ("failed to delete release " ++ release.name ++ " from cluster " ++
        release.spec.clusterRef.name) err)
    let found ← tryCatch (getHelmReleaseProxy release.key) fun err =>
      throw (.wrapped ("failed to get HelmReleaseProxy " ++ release.name) err)
    match found with
    | none => deleteAndConfirm releases
    | some current => return current :: (← deleteAndConfirm releases)

/-- reconcileDelete: while a release is still found, HelmReleaseProxiesReady aggregates the pending
    ones and the pass requeues. --/
def reconcileDelete (releases : List HelmReleaseProxy) : Pass Result := do
  let getters ← deleteAndConfirm releases
  if getters.length > 0 then
    modifyConditions (·.setAggregate .helmReleaseProxiesReady (getters.map (·.status.conditions.ready)))
    return requeue
  return {}

/-- aggregateHelmReleaseProxyReadyCondition: with no release HelmReleaseProxiesReady is True; a
    release whose generation is not observed yet marks HelmReleaseProxySpecsUpToDate False instead;
    otherwise HelmReleaseProxiesReady aggregates the releases' Ready conditions. --/
def aggregateHelmReleaseProxyReadyCondition : Pass Unit := do
  let helmChartProxy ← getProxy
  let releaseList ← listInstalledReleases helmChartProxy.namespace (ownerLabels helmChartProxy)
  if releaseList.length = 0 then
    modifyConditions (·.markTrue .helmReleaseProxiesReady)
    return
  match releaseList.find? fun h => h.generation != h.status.observedGeneration with
  | some h =>
    modifyConditions (·.markFalse .helmReleaseProxySpecsUpToDate helmReleaseProxySpecsUpdatingReason .info
      ("Helm release proxy \x27" ++ h.name ++ "\x27 is not updated yet"))
  | none =>
    modifyConditions (·.setAggregate .helmReleaseProxiesReady (releaseList.map (·.status.conditions.ready)))

/-! ### Reconcile -/

/-- The branch of Reconcile for an object that is not being deleted: the finalizer is registered,
    then reconcileNormal runs and readiness is aggregated. --/
def reconcileLive (clusterList : List Cluster) (releaseList : List HelmReleaseProxy) : Pass Result := do
  if !(← getProxy).finalizers.contains helmChartProxyFinalizer then
    modifyProxy fun p => p.setFinalizers (p.finalizers ++ [helmChartProxyFinalizer])
    patchHelmChartProxy
  let res ← reconcileNormal clusterList releaseList
  modifyConditions (·.markTrue .helmReleaseProxySpecsUpToDate)
  aggregateHelmReleaseProxyReadyCondition
  return res

/-- The branch of Reconcile for an object being deleted: once reconcileDelete finds no release left,
    the finalizer is removed. --/
def reconcileDeleting (releaseList : List HelmReleaseProxy) : Pass Result := do
  if (← getProxy).finalizers.contains helmChartProxyFinalizer then
    let result ← reconcileDelete releaseList
    if !result.isZero then return {}
    modifyProxy fun p => p.setFinalizers (p.finalizers.filter (· != helmChartProxyFinalizer))
    patchHelmChartProxy
  return {}

/-- The body of Reconcile after the HelmChartProxy is fetched and the patch is deferred. --/
def reconcileFetched : Pass Result := do
  let helmChartProxy ← getProxy
  let clusterList ←
    tryCatch (listClustersWithLabels helmChartProxy.namespace helmChartProxy.spec.clusterSelector)
      fun err => do
        modifyConditions (·.markFalse .helmReleaseProxySpecsUpToDate clusterSelectionFailedReason .error
          err.error)
        throw err
  modifyProxy (·.modifyStatus (·.setMatchingClusters (clusterList.map Cluster.ref)))
  let releaseList ← listInstalledReleases helmChartProxy.namespace (ownerLabels helmChartProxy)
  if helmChartProxy.deletionTimestamp then reconcileDeleting releaseList
  else reconcileLive clusterList releaseList

/-- Reconcile. After the fetch, the deferred patch runs on every path. Its error is assigned to
    `reterr`, a local variable and not a named result, so it never reaches the caller. --/
def reconcile : Pass Result := do
  let some fetched ← getHelmChartProxy | return {}
  setProxy fetched
  let result ← Pass.attempt reconcileFetched
  let _ ← Pass.attempt patchHelmChartProxy
  Pass.ofExcept result

/-! ### Watch mappers -/

/-- The loop of ClusterToHelmChartProxiesMapper: a selector that does not convert ends the mapping
    with no request at all. --/
def collectSelecting (cluster : Cluster) : List HelmChartProxy → List ObjectKey → List ObjectKey
  | [], results => results
  | p :: ps, results =>
    match labelSelectorAsSelector p.spec.clusterSelector with
    | .error _ => []
    | .ok selector =>
      collectSelecting cluster ps (if selector.matches cluster.labels then results ++ [p.key] else results)

/-- ClusterToHelmChartProxiesMapper, given the outcome of listing the HelmChartProxies of the
    cluster's namespace: a failed List gives no request. --/
def clusterToHelmChartProxiesMapper (cluster : Cluster) (listed : Except Error (List HelmChartProxy)) :
    List ObjectKey :=
  match listed with
  | .error _ => []
  | .ok helmChartProxies => collectSelecting cluster helmChartProxies []

/-- HelmReleaseProxyToHelmChartProxyMapper: the controller owner of the release. --/
def helmReleaseProxyToHelmChartProxyMapper (h : HelmReleaseProxy) : List ObjectKey :=
  match h.ownerReferences.find? (·.controller == some true) with
  | some ref => [⟨h.namespace, ref.name⟩]
  | none => []

end HelmAddon
