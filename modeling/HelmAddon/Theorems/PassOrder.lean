import HelmAddon.Theorems.RolloutOrder
import HelmAddon.Theorems.RolloutRun

/-! The map order and a whole pass. Go iterates the map of rollout metadata in an order of its own
    choosing, which the model reads from the environment (`MapOrder`). rolloutReconcile reads that order
    only to sort what it reads, once its clusters have distinct namespaced names
    (`orderFree_rolloutReconcile`), and no other step of a pass reads it. The clusters a pass hands on
    come from one List of the store, whose clusters have distinct namespaced names. So under any two
    orders a pass from the same store, with the same call outcomes, leaves the same store and returns
    the same result (`pass_mapOrder_irrelevant`). -/

namespace HelmAddon

open Pass

/-! ### Closure -/

namespace Pass

variable {α β : Type} {x : Pass α} {f : α → Pass β}

theorem OrderFree.tryCatch {h : Error → Pass α} (hx : x.OrderFree) (hh : ∀ e, (h e).OrderFree) :
    (tryCatch x h : Pass α).OrderFree := fun c mo => by
  rw [tryCatch_apply, tryCatch_apply, hx c mo]
  cases x c with
  | mk c' r => cases r with
    | error e => exact hh e c' mo
    | ok a => rfl

theorem OrderFree.ite {b : Prop} [Decidable b] {y : Pass α} (hx : x.OrderFree) (hy : y.OrderFree) :
    (if b then x else y).OrderFree := by
  split <;> assumption

/-- A bind whose continuation never reads the map order on the values the first step returns. --/
theorem OrderFree.bind_of_ok {Q : α → Prop} (hx : x.OrderFree) (hQ : ∀ c a, (x c).2 = .ok a → Q a)
    (hf : ∀ a, Q a → (f a).OrderFree) : (x >>= f).OrderFree := fun c mo => by
  rw [bind_apply, bind_apply, hx c mo]
  cases e : x c with
  | mk c' r => cases r with
    | error _ => rfl
    | ok a => exact hf a (hQ c a (by rw [e])) c' mo

end Pass

theorem Ctx.setMapOrder_store (c : Ctx) (mo : MapOrder) : (c.setMapOrder mo).store = c.store := by cases c; rfl

theorem orderFree_setProxy (p : HelmChartProxy) : (setProxy p).OrderFree := fun c _ => by cases c; rfl

theorem orderFree_modifyConditions (f : Conditions → Conditions) : (modifyConditions f).OrderFree :=
  orderFree_modifyProxy _

/-! ### Remote calls -/

theorem orderFree_getHelmChartProxy : getHelmChartProxy.OrderFree :=
  (orderFree_storeCall _).bind fun _ => orderFree_getStore.bind fun _ => orderFree_pure _

theorem orderFree_getHelmReleaseProxy (key : ObjectKey) : (getHelmReleaseProxy key).OrderFree :=
  (orderFree_storeCall _).bind fun _ => orderFree_getStore.bind fun _ => orderFree_pure _

theorem orderFree_listClusters (ns : String) (sel : Selector) : (listClusters ns sel).OrderFree :=
  (orderFree_storeCall _).bind fun _ => orderFree_getStore.bind fun _ => orderFree_pure _

theorem orderFree_listReleases (ns : String) (want : Labels) : (listReleases ns want).OrderFree :=
  (orderFree_storeCall _).bind fun _ => orderFree_getStore.bind fun _ => orderFree_pure _

theorem orderFree_deleteRelease (key : ObjectKey) : (deleteRelease key).OrderFree := by
  refine (orderFree_storeCall _).bind fun _ => orderFree_getStore.bind fun _ => ?_
  split
  exacts [orderFree_setStore _, orderFree_throw _]

theorem orderFree_patchProxy : patchProxy.OrderFree := by
  refine (orderFree_storeCall _).bind fun _ => orderFree_getProxy.bind fun _ => orderFree_getStore.bind fun _ => ?_
  split
  exacts [orderFree_setStore _, orderFree_throw _]

theorem orderFree_patchHelmChartProxy : patchHelmChartProxy.OrderFree :=
  (orderFree_modifyConditions _).bind fun _ => (orderFree_modifyProxy _).bind fun _ => orderFree_patchProxy

theorem orderFree_listClustersWithLabels (ns : String) (selector : LabelSelector) :
    (listClustersWithLabels ns selector).OrderFree :=
  (orderFree_ofExcept _).bind fun _ => orderFree_listClusters _ _

theorem orderFree_deleteHelmReleaseProxy (release : HelmReleaseProxy) : (deleteHelmReleaseProxy release).OrderFree :=
  (orderFree_deleteRelease _).tryCatch fun _ => by
    split
    exacts [orderFree_pure _, orderFree_throw _]

/-! ### The live branch -/

variable {cs : List Cluster}

theorem orderFree_reconcileWithoutRollout (clusters : List Cluster) : (reconcileWithoutRollout clusters).OrderFree :=
  (orderFree_modifyConditions _).bind fun _ => (orderFree_forM orderFree_reconcileForCluster).bind fun _ =>
    orderFree_pure _

theorem orderFree_reconcileNormal (hd : (cs.map Cluster.key).Nodup) (hs : List HelmReleaseProxy) :
    (reconcileNormal cs hs).OrderFree := by
  have without := orderFree_reconcileWithoutRollout cs
  have rollout : ∀ iou, (rolloutReconcile cs hs iou).OrderFree := fun iou => orderFree_rolloutReconcile hd iou
  refine orderFree_getProxy.bind fun p => OrderFree.ite ((orderFree_forM orderFree_deleteHelmReleaseProxy).bind
    fun _ => ?_) ((orderFree_pure _).bind fun _ => ?_) <;> split
  all_goals first | exact without | exact (without.ite (rollout _)).ite (without.ite (rollout _))

theorem orderFree_aggregateHelmReleaseProxyReadyCondition : aggregateHelmReleaseProxyReadyCondition.OrderFree := by
  refine orderFree_getProxy.bind fun _ => (orderFree_listReleases _ _).bind fun _ =>
    ((orderFree_modifyConditions _).bind fun _ => orderFree_pure _).ite ((orderFree_pure _).bind fun _ => ?_)
  split <;> exact orderFree_modifyConditions _

theorem orderFree_reconcileLive (hd : (cs.map Cluster.key).Nodup) (releaseList : List HelmReleaseProxy) :
    (reconcileLive cs releaseList).OrderFree := by
  refine orderFree_getProxy.bind fun _ => OrderFree.ite ((orderFree_modifyProxy _).bind fun _ =>
    orderFree_patchHelmChartProxy.bind fun _ => ?_) ((orderFree_pure _).bind fun _ => ?_) <;>
  exact (orderFree_reconcileNormal hd _).bind fun _ => (orderFree_modifyConditions _).bind fun _ =>
    orderFree_aggregateHelmReleaseProxyReadyCondition.bind fun _ => orderFree_pure _

/-! ### The deletion branch -/

theorem orderFree_deleteAndConfirm (releases : List HelmReleaseProxy) : (deleteAndConfirm releases).OrderFree := by
  induction releases with
  | nil => exact orderFree_pure _
  | cons release releases ih =>
    refine ((orderFree_deleteHelmReleaseProxy _).tryCatch fun _ => orderFree_throw _).bind fun _ =>
      ((orderFree_getHelmReleaseProxy _).tryCatch fun _ => orderFree_throw _).bind fun found => ?_
    split
    exacts [ih, ih.bind fun _ => orderFree_pure _]

theorem orderFree_reconcileDeleting (releaseList : List HelmReleaseProxy) : (reconcileDeleting releaseList).OrderFree := by
  have delete : (reconcileDelete releaseList).OrderFree := (orderFree_deleteAndConfirm _).bind fun _ =>
    ((orderFree_modifyConditions _).bind fun _ => orderFree_pure _).ite ((orderFree_pure _).bind fun _ => orderFree_pure _)
  refine orderFree_getProxy.bind fun _ => OrderFree.ite (delete.bind fun _ => ?_)
    ((orderFree_pure _).bind fun _ => orderFree_pure _)
  exact (orderFree_pure _).ite ((orderFree_pure _).bind fun _ => (orderFree_modifyProxy _).bind fun _ =>
    orderFree_patchHelmChartProxy.bind fun _ => orderFree_pure _)

/-! ### A pass -/

/-- The body of Reconcile never reads the map order beyond rolloutReconcile's sort: the clusters it
    hands on are one List of the store. --/
theorem orderFree_reconcileFetched : reconcileFetched.OrderFree :=
  orderFree_getProxy.bind fun _ =>
    ((orderFree_listClustersWithLabels _ _).tryCatch fun _ => (orderFree_modifyConditions _).bind fun _ =>
      orderFree_throw _).bind_of_ok (Q := fun cl : List Cluster => (cl.map Cluster.key).Nodup)
      (fun c cl e => by
        obtain ⟨sel, -, rfl⟩ := listClustersWithLabels_value (Pass.tryCatch_of_ok (fun _ _ => by rfl) e ▸ e)
        exact ((List.filter_sublist _).map _).nodup c.store.clusters.distinct)
      fun _ hd => (orderFree_modifyProxy _).bind fun _ => (orderFree_listReleases _ _).bind fun _ =>
        (orderFree_reconcileDeleting _).ite (orderFree_reconcileLive hd _)

theorem orderFree_reconcile : reconcile.OrderFree := by
  refine orderFree_getHelmChartProxy.bind fun fetched => ?_
  split
  · exact (orderFree_setProxy _).bind fun _ => orderFree_reconcileFetched.attempt.bind fun _ =>
      orderFree_patchHelmChartProxy.attempt.bind fun _ => orderFree_ofExcept _
  · exact orderFree_pure _

/-- Go's iteration order of the rollout metadata map never changes what a pass does: from the same
    store and with the same call outcomes, a pass under any map order leaves the same store and returns
    the same result. --/
theorem pass_mapOrder_irrelevant (s : Store) (env : Env) (mo : MapOrder) :
    (s.pass ⟨env.faults, mo⟩).1.store = (s.pass env).1.store ∧ (s.pass ⟨env.faults, mo⟩).2 = (s.pass env).2 := by
  have e : s.pass ⟨env.faults, mo⟩ = ((s.pass env).1.setMapOrder mo, (s.pass env).2) :=
    orderFree_reconcile (Ctx.init s env) mo
  rw [e]
  exact ⟨Ctx.setMapOrder_store _ _, rfl⟩

end HelmAddon
