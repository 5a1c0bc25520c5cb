import HelmAddon.Controller

/-! What each step of a pass does to its context, said once so that the proofs about whole passes
    never unfold a step: which calls the environment lets fail, what the remote calls return, and
    what the write of reconcileForCluster changes. -/

namespace HelmAddon

/-! ### Faults -/

namespace Faults

/-- The outcomes left for the calls of a kind. --/
def calls (f : Faults) : StoreCall → List Bool
  | .get => f.get
  | .list => f.list
  | .patch => f.patch
  | .apply => f.apply
  | .delete => f.delete

/-- Every call of the kind succeeds. --/
def Succeeds (f : Faults) (k : StoreCall) : Prop := ∀ b ∈ f.calls k, b = false

/-- Every call succeeds. --/
def Clear (f : Faults) : Prop := ∀ k, f.Succeeds k

theorem next_fst (f : Faults) (k : StoreCall) : (f.next k).1 = (f.calls k).headD false := by
  cases k <;> rfl

theorem calls_next (f : Faults) (k k' : StoreCall) :
    (f.next k).2.calls k' = if k = k' then (f.calls k').tail else f.calls k' := by
  cases k <;> cases k' <;> rfl

variable {f : Faults} {k k' : StoreCall}

theorem Succeeds.next_fst_eq (h : f.Succeeds k) : (f.next k).1 = false := by
  rw [next_fst]
  cases hc : f.calls k with
  | nil => rfl
  | cons b bs => exact h b (hc ▸ List.mem_cons_self b bs)

theorem Succeeds.next (h : f.Succeeds k') (k : StoreCall) : (f.next k).2.Succeeds k' := by
  intro b hb
  rw [calls_next] at hb
  split at hb
  exacts [h b (List.mem_of_mem_tail hb), h b hb]

theorem Clear.next (h : f.Clear) (k : StoreCall) : (f.next k).2.Clear := fun k' => (h k').next k

theorem clear_empty : Faults.Clear {} := fun k b hb => by cases k <;> simp [calls] at hb

end Faults

/-! ### The monad -/

namespace Pass

variable {α β : Type}

@[simp] theorem pure_bind (a : α) (f : α → Pass β) : (pure a >>= f) = f a := rfl

@[simp] theorem throw_bind (e : Error) (f : α → Pass β) : (throw e >>= f : Pass β) = throw e := rfl

theorem tryCatch_apply (x : Pass α) (h : Error → Pass α) (c : Ctx) :
    (tryCatch x h : Pass α) c = match x c with
      | (c', .ok a) => (c', .ok a)
      | (c', .error e) => h e c' := rfl

end Pass

/-! ### Remote calls -/

variable {c : Ctx} {k : StoreCall}

theorem storeCall_fst (k : StoreCall) (c : Ctx) : (storeCall k c).1 = c.setFaults (c.faults.next k).2 := by
  unfold storeCall
  split <;> simp_all

theorem storeCall_ok (h : c.faults.Succeeds k) : storeCall k c = (c.setFaults (c.faults.next k).2, .ok ()) := by
  have hb := h.next_fst_eq
  unfold storeCall
  split <;> simp_all

/-- A call either succeeds or fails with its own error, and consumes one outcome either way. --/
theorem storeCall_cases (k : StoreCall) (c : Ctx) :
    storeCall k c = (c.setFaults (c.faults.next k).2, .ok ()) ∨
      storeCall k c = (c.setFaults (c.faults.next k).2, .error (.store k)) := by
  unfold storeCall
  split <;> simp_all

theorem getHelmChartProxy_ok (h : c.faults.Succeeds .get) :
    getHelmChartProxy c = (c.setFaults (c.faults.next .get).2, .ok c.store.proxy) := by
  simp [getHelmChartProxy, Pass.bind_apply, storeCall_ok h]

theorem getHelmChartProxy_cases (c : Ctx) :
    getHelmChartProxy c = (c.setFaults (c.faults.next .get).2, .ok c.store.proxy) ∨
      getHelmChartProxy c = (c.setFaults (c.faults.next .get).2, .error (.store .get)) := by
  rcases storeCall_cases .get c with h | h <;> simp [getHelmChartProxy, Pass.bind_apply, h]

theorem getHelmReleaseProxy_ok (key : ObjectKey) (h : c.faults.Succeeds .get) :
    getHelmReleaseProxy key c = (c.setFaults (c.faults.next .get).2, .ok (c.store.getRelease key)) := by
  simp [getHelmReleaseProxy, Pass.bind_apply, storeCall_ok h]

theorem listClusters_ok (ns : String) (sel : Selector) (h : c.faults.Succeeds .list) :
    listClusters ns sel c = (c.setFaults (c.faults.next .list).2, .ok (c.store.listClusters ns sel)) := by
  simp [listClusters, Pass.bind_apply, storeCall_ok h]

theorem listReleases_ok (ns : String) (want : Labels) (h : c.faults.Succeeds .list) :
    listReleases ns want c = (c.setFaults (c.faults.next .list).2, .ok (c.store.listReleases ns want)) := by
  simp [listReleases, Pass.bind_apply, storeCall_ok h]

/-- A list call changes nothing but the outcomes left. --/
theorem listReleases_fst (ns : String) (want : Labels) (c : Ctx) :
    (listReleases ns want c).1 = c.setFaults (c.faults.next .list).2 := by
  rcases storeCall_cases .list c with h | h <;> simp [listReleases, Pass.bind_apply, h]

theorem listClusters_fst (ns : String) (sel : Selector) (c : Ctx) :
    (listClusters ns sel c).1 = c.setFaults (c.faults.next .list).2 := by
  rcases storeCall_cases .list c with h | h <;> simp [listClusters, Pass.bind_apply, h]

theorem patchProxy_ok (h : c.faults.Succeeds .patch) :
    patchProxy c = match c.store.patchProxy c.proxy with
      | some s => ((c.setFaults (c.faults.next .patch).2).setStore s, .ok ())
      | none => (c.setFaults (c.faults.next .patch).2, .error (.notFound c.proxy.key)) := by
  cases hp : c.store.patchProxy c.proxy <;>
    simp [patchProxy, Pass.bind_apply, storeCall_ok h, hp]

/-- A patch call that fails leaves the store as it was; one that succeeds patches it. --/
theorem patchProxy_store_cases (c : Ctx) :
    (patchProxy c).1.store = c.store ∨ (patchProxy c).1.store = (c.store.patchProxy c.proxy).getD c.store := by
  rcases storeCall_cases .patch c with e | e <;> cases hp : c.store.patchProxy c.proxy <;>
    simp [patchProxy, Pass.bind_apply, e, hp]

theorem deleteRelease_ok (key : ObjectKey) (h : c.faults.Succeeds .delete) :
    deleteRelease key c = match c.store.deleteRelease key with
      | some s => ((c.setFaults (c.faults.next .delete).2).setStore s, .ok ())
      | none => (c.setFaults (c.faults.next .delete).2, .error (.notFound key)) := by
  cases hd : c.store.deleteRelease key <;>
    simp [deleteRelease, Pass.bind_apply, storeCall_ok h, hd]

/-! ### The write of reconcileForCluster -/

/-- The write reads the HelmChartProxy's namespace, name and chart, never its status. --/
@[simp] theorem Store.applyRelease_modifyStatus (s : Store) (p : HelmChartProxy)
    (f : HelmChartProxyStatus → HelmChartProxyStatus) (cl : Cluster) :
    s.applyRelease (p.modifyStatus f) cl = s.applyRelease p cl := by
  simp [Store.applyRelease, Store.isReleaseFor, ownerLabels, Store.desiredSpec, Store.newRelease]

/-- The context after a call of reconcileForCluster whose write succeeds: the call is logged, one
    outcome is consumed and the release is created or updated. --/
def Ctx.applied (c : Ctx) (cl : Cluster) : Ctx :=
  ((c.logReconciled cl).setFaults (c.faults.next .apply).2).setStore (c.store.applyRelease c.proxy cl)

namespace Ctx

variable (cl : Cluster)

@[simp] theorem applied_store : (c.applied cl).store = c.store.applyRelease c.proxy cl := rfl
@[simp] theorem applied_proxy : (c.applied cl).proxy = c.proxy := rfl
@[simp] theorem applied_faults : (c.applied cl).faults = (c.faults.next .apply).2 := rfl
@[simp] theorem applied_mapOrder : (c.applied cl).mapOrder = c.mapOrder := rfl
@[simp] theorem applied_reconciled : (c.applied cl).reconciled = c.reconciled ++ [cl] := rfl

end Ctx

theorem reconcileForCluster_ok (cl : Cluster) (h : c.faults.Succeeds .apply) :
    reconcileForCluster cl c = (c.applied cl, .ok ()) := by
  have h' : (c.logReconciled cl).faults.Succeeds .apply := h
  simp [reconcileForCluster, applyRelease, Pass.bind_apply, storeCall_ok h', Ctx.applied]

/-- A run of reconcileForCluster calls whose writes all succeed. --/
theorem forM_reconcileForCluster (cls : List Cluster) (h : c.faults.Succeeds .apply) :
    cls.forM reconcileForCluster c = (cls.foldl Ctx.applied c, .ok ()) := by
  induction cls generalizing c with
  | nil => rfl
  | cons cl cls ih =>
    simp only [List.forM_cons', Pass.bind_apply, reconcileForCluster_ok cl h, List.foldl_cons]
    exact ih (c := c.applied cl) (h.next .apply)

namespace Ctx

variable (cls : List Cluster)

@[simp] theorem foldl_applied_proxy : (cls.foldl applied c).proxy = c.proxy := by
  induction cls generalizing c <;> simp [*]

@[simp] theorem foldl_applied_mapOrder : (cls.foldl applied c).mapOrder = c.mapOrder := by
  induction cls generalizing c <;> simp [*]

@[simp] theorem foldl_applied_reconciled : (cls.foldl applied c).reconciled = c.reconciled ++ cls := by
  induction cls generalizing c <;> simp [*]

theorem foldl_applied_store : (cls.foldl applied c).store = cls.foldl (·.applyRelease c.proxy ·) c.store := by
  induction cls generalizing c <;> simp [*]

theorem foldl_applied_succeeds (h : c.faults.Succeeds k) : (cls.foldl applied c).faults.Succeeds k := by
  induction cls generalizing c with
  | nil => exact h
  | cons cl cls ih => exact ih (c := c.applied cl) (h.next .apply)

end Ctx

end HelmAddon
