import HelmAddon.Theorems.RolloutBatch

/-! The order of the inputs of rolloutReconcile. The pass reads the iteration order of the metadata
    map only to sort what it reads, and it reads the listed clusters and releases only through their
    number and the sorted metadata. Two invocations whose lists are permutations of each other, under
    any two map orders, are therefore the same run, provided the releases of one cluster agree on
    readiness. When they do not, the release read last decides, and the order of the list matters. -/

namespace HelmAddon

/-! ### Steps that never read the map order -/

/-- The context with another iteration order of the metadata map. --/
def Ctx.setMapOrder (mo : MapOrder) : Ctx → Ctx
  | ⟨s, p, fs, _, r⟩ => ⟨s, p, fs, mo, r⟩

/-- A step that never reads the map's iteration order: under another order it does the same, and
    keeps that order. --/
def Pass.OrderFree {α : Type} (x : Pass α) : Prop :=
  ∀ c mo, x (c.setMapOrder mo) = ((x c).1.setMapOrder mo, (x c).2)

namespace Pass

variable {α β : Type} {x : Pass α} {f : α → Pass β}

theorem orderFree_pure (a : α) : (pure a : Pass α).OrderFree := fun _ _ => rfl

theorem orderFree_throw (e : Error) : (throw e : Pass α).OrderFree := fun _ _ => rfl

theorem orderFree_ofExcept (r : Except Error α) : (ofExcept r).OrderFree := by
  cases r <;> exact fun _ _ => rfl

theorem OrderFree.bind (hx : x.OrderFree) (hf : ∀ a, (f a).OrderFree) : (x >>= f).OrderFree := by
  intro c mo
  rw [bind_apply, bind_apply, hx c mo]
  cases x c with
  | mk c' r => cases r with
    | error e => rfl
    | ok a => exact hf a c' mo

theorem OrderFree.attempt (hx : x.OrderFree) : (attempt x).OrderFree := fun c mo => by
  simp only [attempt_apply, hx c mo]

/-- Reading the map order is harmless when what follows does not use it. --/
theorem OrderFree.getMapOrder_bind {y : Pass β} (hy : y.OrderFree) : (getMapOrder >>= fun _ => y).OrderFree :=
  fun c mo => by cases c; exact hy _ mo

theorem orderFree_forM {l : List α} {g : α → Pass Unit} (hg : ∀ a, (g a).OrderFree) : (l.forM g).OrderFree := by
  induction l with
  | nil => exact orderFree_pure ()
  | cons a l ih => rw [List.forM_cons']; exact (hg a).bind fun _ => ih

end Pass

open Pass

theorem orderFree_getProxy : getProxy.OrderFree := fun c _ => by cases c; rfl

theorem orderFree_modifyProxy (f : HelmChartProxy → HelmChartProxy) : (modifyProxy f).OrderFree :=
  fun c _ => by cases c; rfl

theorem orderFree_getStore : getStore.OrderFree := fun c _ => by cases c; rfl

theorem orderFree_setStore (s : Store) : (setStore s).OrderFree := fun c _ => by cases c; rfl

theorem orderFree_logReconciled (cl : Cluster) : (logReconciled cl).OrderFree := fun c _ => by cases c; rfl

theorem orderFree_storeCall (k : StoreCall) : (storeCall k).OrderFree := fun c _ => by
  cases c
  dsimp only [storeCall, Ctx.setMapOrder]
  split <;> rfl

theorem orderFree_reconcileForCluster (cl : Cluster) : (reconcileForCluster cl).OrderFree :=
  (orderFree_logReconciled cl).bind fun _ => (orderFree_storeCall .apply).bind fun _ =>
    orderFree_getProxy.bind fun _ => orderFree_getStore.bind fun _ => orderFree_setStore _

/-! ### rolloutByReadiness never reads the map order -/

/-- One iteration of a batch loop: the call, then the rest of the loop or the stop on its error. --/
theorem orderFree_attempt_reconcileForCluster {γ : Type} (cl : Cluster) {stop : Error → Pass γ}
    {next : Pass γ} (hstop : ∀ e, (stop e).OrderFree) (hnext : next.OrderFree) :
    (attempt (reconcileForCluster cl) >>= fun r => match r with
      | .error e => stop e
      | .ok () => next).OrderFree :=
  (orderFree_reconcileForCluster cl).attempt.bind fun r => by
    rcases r with e | ⟨⟩
    exacts [hstop e, hnext]

theorem orderFree_reconcileFirstBatch (stepSize : Int) (metas : List RolloutMeta) (count : Int) :
    (reconcileFirstBatch stepSize metas count).OrderFree := by
  induction metas generalizing count with
  | nil => exact orderFree_pure _
  | cons m metas ih =>
    unfold reconcileFirstBatch
    split
    · exact orderFree_pure _
    · exact orderFree_attempt_reconcileForCluster _ (fun _ => orderFree_pure _) (ih _)

theorem orderFree_reconcileNextBatch (stepSize : Int) (metas : List RolloutMeta) (count : Int) :
    (reconcileNextBatch stepSize metas count).OrderFree := by
  induction metas generalizing count with
  | nil => exact orderFree_pure _
  | cons m metas ih =>
    unfold reconcileNextBatch
    split
    · exact orderFree_pure _
    split
    · exact orderFree_pure _
    split
    · exact ih _
    · exact orderFree_attempt_reconcileForCluster _ (fun _ => orderFree_pure _) (ih _)

variable {cs cs' : List Cluster} {hs hs' : List HelmReleaseProxy} {o : RolloutOptions}

theorem orderFree_rolloutWhenUnknown (metas : List RolloutMeta) :
    (rolloutWhenUnknown cs hs o metas).OrderFree := by
  unfold rolloutWhenUnknown
  split
  · exact orderFree_pure _
  refine (orderFree_ofExcept _).bind fun stepSize => ?_
  dsimp only
  split <;> refine OrderFree.bind ?_ fun ⟨_, result⟩ =>
    (orderFree_modifyProxy _).bind fun _ => orderFree_ofExcept result
  exacts [orderFree_pure _, orderFree_reconcileFirstBatch _ _ _]

theorem orderFree_rolloutWhenTrue (metas : List RolloutMeta) : (rolloutWhenTrue cs o metas).OrderFree :=
  orderFree_getProxy.bind fun _ => (orderFree_ofExcept _).bind fun _ => (orderFree_ofExcept _).bind fun _ =>
    (orderFree_ofExcept _).bind fun _ => (orderFree_reconcileNextBatch _ _ _).bind fun ⟨_, result⟩ =>
      orderFree_getProxy.bind fun _ => (orderFree_modifyProxy _).bind fun _ => orderFree_ofExcept result

theorem orderFree_rolloutByReadiness (metas : List RolloutMeta) :
    (rolloutByReadiness cs hs o metas).OrderFree := by
  refine orderFree_getProxy.bind fun p => ?_
  dsimp only
  split
  · exact orderFree_rolloutWhenUnknown metas
  split
  · exact (orderFree_forM fun _ => by split; exacts [orderFree_reconcileForCluster _, orderFree_pure _]).bind
      fun _ => orderFree_pure _
  · exact orderFree_rolloutWhenTrue metas

/-! ### The sorted metadata forgets both orders -/

theorem any_eq_of_perm {α : Type} {l l' : List α} (hp : l.Perm l') (p : α → Bool) : l.any p = l'.any p :=
  Bool.eq_iff_iff.mpr (by simp only [List.any_eq_true, hp.mem_iff])

theorem sortClusters_perm (hp : cs.Perm cs') (hd : (cs.map Cluster.key).Nodup) :
    sortClusters cs = sortClusters cs' := by
  let fresh : Cluster → RolloutMeta := fun c => ⟨c, false, false⟩
  have keys : ((cs.map fresh).map (·.cluster.key)).Nodup := by simpa [fresh, Function.comp_def] using hd
  apply List.map_injective_iff.mpr (fun _ _ h => congrArg RolloutMeta.cluster h : Function.Injective fresh)
  rw [map_sortClusters (fun _ => rfl), map_sortClusters (fun _ => rfl), sortRolloutMeta_perm (hp.map fresh) keys]

/-- The releases of one cluster agree on HelmReleaseReady. --/
def ReadinessAgrees (hs : List HelmReleaseProxy) : Prop :=
  ∀ h ∈ hs, ∀ h' ∈ hs, h.clusterKey = h'.clusterKey →
    h.status.conditions.isTrue .helmReleaseReady = h'.status.conditions.isTrue .helmReleaseReady

instance (hs : List HelmReleaseProxy) : Decidable (ReadinessAgrees hs) :=
  inferInstanceAs (Decidable (∀ h ∈ hs, ∀ h' ∈ hs, h.clusterKey = h'.clusterKey →
    h.status.conditions.isTrue .helmReleaseReady = h'.status.conditions.isTrue .helmReleaseReady))

/-- A cluster's metadata does not depend on the order of its releases when they agree. --/
theorem rolloutMetaOf_perm (hp : hs.Perm hs') (ha : ReadinessAgrees hs) (c : Cluster) :
    rolloutMetaOf hs c = rolloutMetaOf hs' c := by
  obtain ⟨r, hr⟩ : ∃ r, ∀ h ∈ hs, h.clusterKey = c.key → h.status.conditions.isTrue .helmReleaseReady = r := by
    by_cases found : ∃ h ∈ hs, h.clusterKey = c.key
    · obtain ⟨h₀, mem₀, key₀⟩ := found
      exact ⟨_, fun h mem key => ha h mem h₀ mem₀ (key.trans key₀.symm)⟩
    · exact ⟨false, fun h mem key => absurd ⟨h, mem, key⟩ found⟩
  rw [rolloutMetaOf_of_agree hr, rolloutMetaOf_of_agree fun h mem => hr h (hp.mem_iff.mpr mem),
    any_eq_of_perm hp]

theorem rolloutMetaSorted_perm (hcs : cs.Perm cs') (hd : (cs.map Cluster.key).Nodup) (hhs : hs.Perm hs')
    (ha : ReadinessAgrees hs) (mo mo' : MapOrder) :
    rolloutMetaSorted mo' cs' hs' = rolloutMetaSorted mo cs hs := by
  have orphans : hs'.any (isOrphan cs') = hs.any (isOrphan cs) := by
    rw [any_eq_of_perm hhs.symm]
    congr 1
    funext h
    simp only [isOrphan, any_eq_of_perm hcs.symm]
  rw [rolloutMetaSorted_eq mo' ((hcs.map _).nodup_iff.mp hd), rolloutMetaSorted_eq mo hd, orphans,
    sortClusters_perm hcs.symm ((hcs.map _).nodup_iff.mp hd), funext (rolloutMetaOf_perm hhs ha)]

/-! ### Order independence -/

theorem rolloutByReadiness_congr (hc : cs'.length = cs.length) (hh : hs'.length = hs.length)
    (metas : List RolloutMeta) : rolloutByReadiness cs' hs' o metas = rolloutByReadiness cs hs o metas := by
  simp only [rolloutByReadiness, rolloutWhenUnknown, rolloutWhenTrue, hc, hh]

/-- rolloutReconcile reads its lists only through their lengths and the sorted metadata. --/
theorem rolloutReconcile_congr (hcs : cs.Perm cs') (hd : (cs.map Cluster.key).Nodup) (hhs : hs.Perm hs')
    (ha : ReadinessAgrees hs) (iou : InstallOrUpgrade) :
    rolloutReconcile cs' hs' iou = rolloutReconcile cs hs iou := by
  have metas : ∀ mo, rolloutMetaSorted mo cs' hs' = rolloutMetaSorted mo cs hs :=
    fun mo => rolloutMetaSorted_perm hcs hd hhs ha mo mo
  simp only [rolloutReconcile, hcs.length_eq.symm, metas,
    rolloutByReadiness_congr hcs.length_eq.symm hhs.length_eq.symm]

/-- rolloutReconcile never reads the map order beyond sorting what it reads. --/
theorem orderFree_rolloutReconcile (hd : (cs.map Cluster.key).Nodup) (iou : InstallOrUpgrade) :
    (rolloutReconcile cs hs iou).OrderFree := by
  have metas : ∀ mo, rolloutMetaSorted mo cs hs = rolloutMetaSorted .insertion cs hs := fun mo => by
    rw [rolloutMetaSorted_eq mo hd, rolloutMetaSorted_eq _ hd]
  unfold rolloutReconcile
  simp only [metas]
  refine orderFree_getProxy.bind fun p => ?_
  split
  · split
    · split
      · exact (orderFree_modifyProxy _).bind fun _ => orderFree_pure _
      refine (orderFree_pure _).bind fun _ => (orderFree_modifyProxy _).bind fun _ => OrderFree.getMapOrder_bind ?_
      split
      · exact orderFree_rolloutByReadiness _
      · exact orderFree_throw _
    · exact orderFree_pure _
  · exact orderFree_throw _

/-- Two invocations of rolloutReconcile, on permuted lists and under any two map orders, are one run:
    the same calls of reconcileForCluster, result, HelmChartProxy, store and outcomes left, when the
    releases of each cluster agree on readiness. --/
theorem rolloutReconcile_perm (hcs : cs.Perm cs') (hd : (cs.map Cluster.key).Nodup) (hhs : hs.Perm hs')
    (ha : ReadinessAgrees hs) (iou : InstallOrUpgrade) (c : Ctx) (mo : MapOrder) :
    rolloutReconcile cs' hs' iou (c.setMapOrder mo) =
      ((rolloutReconcile cs hs iou c).1.setMapOrder mo, (rolloutReconcile cs hs iou c).2) := by
  rw [rolloutReconcile_congr hcs hd hhs ha]
  exact orderFree_rolloutReconcile hd iou c mo

/-- Iteration in reverse insertion order. --/
def MapOrder.reversed : MapOrder := ⟨List.reverse, List.reverse_perm⟩

theorem rolloutReconcile_perm_rotated :
    rolloutReconcile [prodCluster "b", prodCluster "c", prodCluster "a"] [nginxRelease (prodCluster "a") true]
        .install (nextBatchCtx.setMapOrder .reversed) =
      ((rolloutReconcile [prodCluster "c", prodCluster "a", prodCluster "b"] [nginxRelease (prodCluster "a") true]
          .install nextBatchCtx).1.setMapOrder .reversed,
        (rolloutReconcile [prodCluster "c", prodCluster "a", prodCluster "b"] [nginxRelease (prodCluster "a") true]
          .install nextBatchCtx).2) :=
  rolloutReconcile_perm (by decide) (by decide) (by decide) (by decide) _ _ _

/-- Two releases of cluster a, as a List call can return them: the first Ready, the second not. --/
def twinReleases : List HelmReleaseProxy :=
  [nginxRelease (prodCluster "a") true,
    (Store.newRelease (nginxProxy none) (prodCluster "a") 1).setStatus ⟨releaseConditions false, 1⟩ []]

theorem rolloutReconcile_release_order_matters :
    twinReleases.Perm twinReleases.reverse ∧
      (rolloutReconcile [prodCluster "a", prodCluster "b"] twinReleases .install nextBatchCtx).1.reconciled = [] ∧
      (rolloutReconcile [prodCluster "a", prodCluster "b"] twinReleases.reverse .install nextBatchCtx).1.reconciled =
        [prodCluster "b"] :=
  ⟨(List.reverse_perm _).symm, rfl, rfl⟩

end HelmAddon
