import HelmAddon.Theorems.Reconcile
import HelmAddon.Theorems.RolloutBatch

/-! Errors of a pass. A remote call that fails uses up a failing outcome of the environment. Every
    step of the body of Reconcile either uses up none or returns the error of a failed call, so a call
    of the body that fails reaches the caller, on the live branch and on the deletion branch; the loops
    of the rollout hand the error back beside their count, and the deferred status update returns it.
    The deferred patch is the exception: its error is dropped, so a pass whose patch fails is reported
    as a success while the store keeps the status from before the pass. -/

namespace HelmAddon

/-! ### Failing outcomes -/

namespace Faults

/-- The failing outcomes left for the calls of a pass. --/
def failures (f : Faults) : Nat :=
  f.get.count true + f.list.count true + f.patch.count true + f.apply.count true + f.delete.count true

theorem count_true_tail (l : List Bool) : l.tail.count true + (l.headD false).toNat = l.count true := by
  cases l with
  | nil => rfl
  | cons b l => cases b <;> simp [List.count_cons]

/-- A call uses up one outcome, and one failure when it fails. --/
theorem failures_next (f : Faults) (k : StoreCall) : (f.next k).2.failures + (f.next k).1.toNat = f.failures := by
  obtain ⟨g, l, p, a, d⟩ := f
  have := count_true_tail g
  have := count_true_tail l
  have := count_true_tail p
  have := count_true_tail a
  have := count_true_tail d
  cases k <;> simp only [next, failures] <;> omega

/-- Every call succeeds exactly when no failing outcome is left. --/
theorem clear_iff_failures (f : Faults) : f.Clear ↔ f.failures = 0 := by
  have none_true : ∀ l : List Bool, (∀ b ∈ l, b = false) ↔ l.count true = 0 := fun l => by
    simp [List.count_eq_zero]
  simp only [Clear, Succeeds, failures, Nat.add_eq_zero_iff, ← none_true]
  constructor
  · intro h
    exact ⟨⟨⟨⟨h .get, h .list⟩, h .patch⟩, h .apply⟩, h .delete⟩
  · rintro ⟨⟨⟨⟨g, l⟩, p⟩, a⟩, d⟩ k
    cases k
    exacts [g, l, p, a, d]

end Faults

/-! ### Steps that report their failed calls -/

/-- An error raised by a failed call, as it is or wrapped. --/
def Error.fromCall : Error → Bool
  | .store _ => true
  | .wrapped _ cause => cause.fromCall
  | _ => false

/-- The outcome of a step that returns the error of a failed call. --/
def CallFailed {α : Type} (r : Except Error α) : Prop := ∃ e, r = .error e ∧ e.fromCall = true

@[simp] theorem callFailed_error {α : Type} (e : Error) : CallFailed (.error e : Except Error α) ↔ e.fromCall = true :=
  ⟨fun ⟨_, he, h⟩ => Except.error.inj he ▸ h, fun h => ⟨e, rfl, h⟩⟩

@[simp] theorem not_callFailed_ok {α : Type} (a : α) : ¬CallFailed (.ok a : Except Error α) := fun ⟨_, he, _⟩ => nomatch he

/-- A step that reports the calls it lets fail: either it uses up no failing outcome, or it uses up
    some and returns a call's error. --/
def Pass.Reports {α : Type} (x : Pass α) : Prop :=
  ∀ c, (x c).1.faults.failures = c.faults.failures ∨
    ((x c).1.faults.failures < c.faults.failures ∧ CallFailed (x c).2)

namespace Pass

variable {α β : Type} {x : Pass α} {f : α → Pass β}

theorem reports_of_faults (h : ∀ c, (x c).1.faults = c.faults) : x.Reports := fun c => .inl (by rw [h])

theorem Reports.bind (hx : x.Reports) (hf : ∀ a, (f a).Reports) : (x >>= f).Reports := fun c => by
  have hc := hx c
  rw [bind_apply]
  generalize x c = r at hc ⊢
  obtain ⟨c', e | a⟩ := r
  · simpa using hc
  · dsimp only at hc ⊢
    rcases hc with hc | ⟨-, hfail⟩
    · rcases hf a c' with h | ⟨h, hfail⟩
      · exact .inl (h.trans hc)
      · exact .inr ⟨hc ▸ h, hfail⟩
    · exact absurd hfail (not_callFailed_ok a)

theorem Reports.consumes (hx : x.Reports) (c : Ctx) : (x c).1.faults.failures ≤ c.faults.failures :=
  (hx c).elim Nat.le_of_eq fun h => h.1.le

/-- A step that succeeds let no call fail. --/
theorem Reports.failures_eq {c c' : Ctx} {a : α} (hx : x.Reports) (h : x c = (c', .ok a)) :
    c'.faults.failures = c.faults.failures := by
  have := (hx c).resolve_right fun ⟨_, hfail⟩ => not_callFailed_ok a (by rwa [h] at hfail)
  rwa [h] at this

/-- A step that reports its failed calls keeps an environment without failing outcomes so. --/
theorem Reports.clear (hx : x.Reports) {c : Ctx} (hc : c.faults.Clear) : (x c).1.faults.Clear :=
  (Faults.clear_iff_failures _).mpr
    (Nat.le_zero.mp ((hx.consumes c).trans ((Faults.clear_iff_failures _).mp hc).le))

/-- A handler that turns a call's error into a call's error. --/
def Rethrows (h : Error → Pass α) : Prop := ∀ e c, e.fromCall = true → CallFailed (h e c).2

theorem Reports.tryCatch {h : Error → Pass α} (hx : x.Reports) (hh : ∀ e, (h e).Reports) (hre : Rethrows h) :
    (tryCatch x h : Pass α).Reports := fun c => by
  have hc := hx c
  rw [tryCatch_apply]
  generalize x c = r at hc ⊢
  obtain ⟨c', e | a⟩ := r
  · dsimp only at hc ⊢
    rcases hc with hc | ⟨hlt, hfail⟩
    · exact hc ▸ hh e c'
    · exact .inr ⟨lt_of_le_of_lt ((hh e).consumes c') hlt, hre e c' ((callFailed_error e).mp hfail)⟩
  · exact hc

theorem reports_forM {γ : Type} {f : γ → Pass Unit} (hf : ∀ a, (f a).Reports) (l : List γ) :
    (l.forM f).Reports := by
  induction l with
  | nil => exact reports_of_faults fun _ => rfl
  | cons a l ih => exact (hf a).bind fun _ => ih

theorem reports_pure (a : α) : (pure a : Pass α).Reports := reports_of_faults fun _ => rfl

theorem reports_throw (e : Error) : (throw e : Pass α).Reports := reports_of_faults fun _ => rfl

theorem reports_ofExcept (r : Except Error α) : (ofExcept r).Reports := by
  cases r <;> exact reports_of_faults fun _ => rfl

theorem Reports.ite {b : Prop} [Decidable b] {y : Pass α} (hx : x.Reports) (hy : y.Reports) :
    (if b then x else y).Reports := by
  split <;> assumption

/-- The handlers of reconcileDelete wrap the error they rethrow. --/
theorem rethrows_wrapped (message : String) : Rethrows fun err => (throw (.wrapped message err) : Pass α) :=
  fun _ _ he => by simpa [Error.fromCall] using he

/-- A loop of the rollout that hands the error of a failed call back with its count, for the
    deferred status update to record the count before the error is returned. --/
def ReportsInResult (x : Pass (Int × Except Error Result)) : Prop :=
  ∀ c, (x c).1.faults.failures = c.faults.failures ∨
    ((x c).1.faults.failures < c.faults.failures ∧ ∃ n r, (x c).2 = .ok (n, r) ∧ CallFailed r)

theorem ReportsInResult.bind {x : Pass (Int × Except Error Result)} {f : Int × Except Error Result → Pass β}
    (hx : x.ReportsInResult) (hf : ∀ a, (f a).Reports) (hre : ∀ n r c, CallFailed r → CallFailed (f (n, r) c).2) :
    (x >>= f).Reports := fun c => by
  have hc := hx c
  rw [bind_apply]
  generalize x c = r at hc ⊢
  obtain ⟨c', e | a⟩ := r
  · rcases hc with hc | ⟨-, n, r, he, -⟩
    · exact .inl hc
    · cases he
  · dsimp only at hc ⊢
    rcases hc with hc | ⟨hlt, n, r, he, hfail⟩
    · exact hc ▸ hf a c'
    · cases he
      exact .inr ⟨lt_of_le_of_lt ((hf _).consumes c') hlt, hre n r c' hfail⟩

end Pass

open Pass

theorem reports_getProxy : getProxy.Reports := reports_of_faults fun _ => rfl

theorem reports_modifyProxy (f : HelmChartProxy → HelmChartProxy) : (modifyProxy f).Reports :=
  reports_of_faults fun _ => rfl

theorem reports_modifyConditions (f : Conditions → Conditions) : (modifyConditions f).Reports :=
  reports_modifyProxy _

theorem reports_getStore : getStore.Reports := reports_of_faults fun _ => rfl

theorem reports_setStore (s : Store) : (setStore s).Reports := reports_of_faults fun _ => rfl

theorem reports_getMapOrder : getMapOrder.Reports := reports_of_faults fun _ => rfl

/-! ### Remote calls -/

/-- A call that fails returns its own error. --/
theorem reports_storeCall (k : StoreCall) : (storeCall k).Reports := fun c => by
  have hn := c.faults.failures_next k
  unfold storeCall
  split <;> rename_i fs heq <;> simp [heq, Error.fromCall] at hn ⊢ <;> omega

theorem storeCall_failed {c : Ctx} {k : StoreCall} (h : (c.faults.next k).1 = true) :
    storeCall k c = (c.setFaults (c.faults.next k).2, .error (.store k)) := by
  unfold storeCall
  split <;> simp_all

theorem reports_listClusters (ns : String) (sel : Selector) : (listClusters ns sel).Reports :=
  (reports_storeCall _).bind fun _ => reports_getStore.bind fun _ => reports_pure _

theorem reports_listReleases (ns : String) (want : Labels) : (listReleases ns want).Reports :=
  (reports_storeCall _).bind fun _ => reports_getStore.bind fun _ => reports_pure _

theorem reports_getHelmReleaseProxy (key : ObjectKey) : (getHelmReleaseProxy key).Reports :=
  (reports_storeCall _).bind fun _ => reports_getStore.bind fun _ => reports_pure _

theorem reports_getHelmChartProxy : getHelmChartProxy.Reports :=
  (reports_storeCall _).bind fun _ => reports_getStore.bind fun _ => reports_pure _

theorem reports_patchProxy : patchProxy.Reports := by
  refine (reports_storeCall _).bind fun _ => reports_getProxy.bind fun p => reports_getStore.bind fun s => ?_
  split
  exacts [reports_setStore _, reports_throw _]

theorem reports_deleteRelease (key : ObjectKey) : (deleteRelease key).Reports := by
  refine (reports_storeCall _).bind fun _ => reports_getStore.bind fun s => ?_
  split
  exacts [reports_setStore _, reports_throw _]

theorem reports_applyRelease (cl : Cluster) : (applyRelease cl).Reports :=
  (reports_storeCall _).bind fun _ => reports_getProxy.bind fun _ => reports_getStore.bind fun _ => reports_setStore _

theorem reports_patchHelmChartProxy : patchHelmChartProxy.Reports :=
  (reports_modifyConditions _).bind fun _ => (reports_modifyProxy _).bind fun _ => reports_patchProxy

/-- A patch whose call fails writes nothing and uses up the failing outcome. --/
theorem patchHelmChartProxy_call_failed {c : Ctx} (h : (c.faults.next .patch).1 = true) :
    (patchHelmChartProxy c).1.store = c.store ∧ (patchHelmChartProxy c).1.faults = (c.faults.next .patch).2 ∧
      (patchHelmChartProxy c).2 = .error (.store .patch) := by
  simp [patchHelmChartProxy, patchProxy, modifyConditions, bind_apply, storeCall_failed, h]

theorem reports_listClustersWithLabels (ns : String) (selector : LabelSelector) :
    (listClustersWithLabels ns selector).Reports :=
  (reports_ofExcept _).bind fun _ => reports_listClusters _ _

theorem reports_reconcileForCluster (cl : Cluster) : (reconcileForCluster cl).Reports :=
  (reports_of_faults fun _ => rfl).bind fun _ => reports_applyRelease cl

/-- deleteHelmReleaseProxy takes NotFound for success, and no failed call raises NotFound. --/
theorem reports_deleteHelmReleaseProxy (release : HelmReleaseProxy) : (deleteHelmReleaseProxy release).Reports := by
  refine (reports_deleteRelease _).tryCatch (fun e => ?_) fun e c he => ?_
  · split
    exacts [reports_pure _, reports_throw _]
  · cases e <;> simp_all [Error.fromCall]

theorem reports_reconcileWithoutRollout (clusters : List Cluster) : (reconcileWithoutRollout clusters).Reports :=
  (reports_modifyConditions _).bind fun _ => (reports_forM reports_reconcileForCluster _).bind fun _ => reports_pure _

/-! ### The loops of the rollout -/

/-- One turn of either loop: a failed reconcileForCluster ends the loop with its error beside the
    count. --/
theorem reportsInResult_attempt {k : Pass (Int × Except Error Result)} (hk : k.ReportsInResult) (cl : Cluster)
    (count : Int) :
    ReportsInResult (attempt (reconcileForCluster cl) >>= fun r => match r with
      | .error err => pure (count, .error err)
      | .ok () => k) := fun c => by
  rw [bind_apply, attempt_apply]
  have hc := reports_reconcileForCluster cl c
  generalize reconcileForCluster cl c = r at hc ⊢
  obtain ⟨c', e | ⟨⟩⟩ := r <;> dsimp only at hc ⊢
  · exact hc.imp_right fun ⟨hlt, hfail⟩ => ⟨hlt, count, _, rfl, (callFailed_error e).mpr ((callFailed_error e).mp hfail)⟩
  · rcases hc with hc | ⟨-, hfail⟩
    · exact hc ▸ hk c'
    · exact absurd hfail (not_callFailed_ok _)

theorem reportsInResult_reconcileFirstBatch (stepSize : Int) (metas : List RolloutMeta) (count : Int) :
    (reconcileFirstBatch stepSize metas count).ReportsInResult := by
  induction metas generalizing count with
  | nil => exact fun c => .inl rfl
  | cons meta metas ih =>
    unfold reconcileFirstBatch
    split
    · exact fun c => .inl rfl
    · exact reportsInResult_attempt (ih _) _ _

theorem reportsInResult_reconcileNextBatch (stepSize : Int) (metas : List RolloutMeta) (count : Int) :
    (reconcileNextBatch stepSize metas count).ReportsInResult := by
  induction metas generalizing count with
  | nil => exact fun c => .inl rfl
  | cons meta metas ih =>
    unfold reconcileNextBatch
    split
    · exact fun c => .inl rfl
    split
    · exact fun c => .inl rfl
    split
    · exact ih _
    · exact reportsInResult_attempt (ih _) _ _

theorem reports_deleteOrphanedHelmReleaseProxies (clusters : List Cluster) (releases : List HelmReleaseProxy) :
    (deleteOrphanedHelmReleaseProxies clusters releases).Reports :=
  reports_forM reports_deleteHelmReleaseProxy _

/-! ### rolloutReconcile -/

theorem reports_rolloutWhenUnknown (clusters : List Cluster) (helmReleaseProxies : List HelmReleaseProxy)
    (rolloutOptions : RolloutOptions) (rolloutMetaSorted : List RolloutMeta) :
    (rolloutWhenUnknown clusters helmReleaseProxies rolloutOptions rolloutMetaSorted).Reports := by
  simp only [rolloutWhenUnknown]
  refine (reports_pure _).ite ((reports_pure _).bind fun _ => (reports_ofExcept _).bind fun stepSize => ?_)
  split <;> refine ReportsInResult.bind ?_ (fun _ => (reports_modifyProxy _).bind fun _ => reports_ofExcept _)
    fun n r c ⟨e, he, h⟩ => by simpa [he, bind_apply] using h
  exacts [fun c => .inl rfl, reportsInResult_reconcileFirstBatch _ _ _]

theorem reports_rolloutWhenTrue (clusters : List Cluster) (rolloutOptions : RolloutOptions)
    (rolloutMetaSorted : List RolloutMeta) : (rolloutWhenTrue clusters rolloutOptions rolloutMetaSorted).Reports := by
  refine reports_getProxy.bind fun _ => (reports_ofExcept _).bind fun _ => (reports_ofExcept _).bind fun _ =>
    (reports_ofExcept _).bind fun _ => ReportsInResult.bind (reportsInResult_reconcileNextBatch _ _ _)
      (fun _ => reports_getProxy.bind fun _ => (reports_modifyProxy _).bind fun _ => reports_ofExcept _)
      fun n r c ⟨e, he, h⟩ => by simpa [he, bind_apply] using h

theorem reports_rolloutByReadiness (clusters : List Cluster) (helmReleaseProxies : List HelmReleaseProxy)
    (rolloutOptions : RolloutOptions) (rolloutMetaSorted : List RolloutMeta) :
    (rolloutByReadiness clusters helmReleaseProxies rolloutOptions rolloutMetaSorted).Reports :=
  reports_getProxy.bind fun _ => (reports_rolloutWhenUnknown _ _ _ _).ite <|
    ((reports_forM (fun _ => (reports_reconcileForCluster _).ite (reports_pure _)) _).bind fun _ =>
      reports_pure _).ite (reports_rolloutWhenTrue _ _ _)

theorem reports_rolloutReconcile (clusters : List Cluster) (helmReleaseProxies : List HelmReleaseProxy)
    (installOrUpgrade : InstallOrUpgrade) : (rolloutReconcile clusters helmReleaseProxies installOrUpgrade).Reports := by
  refine reports_getProxy.bind fun p => ?_
  split
  · split
    · refine ((reports_modifyConditions _).bind fun _ => reports_pure _).ite
        ((reports_pure _).bind fun _ => (reports_modifyConditions _).bind fun _ => reports_getMapOrder.bind fun _ => ?_)
      split
      exacts [reports_rolloutByReadiness _ _ _ _, reports_throw _]
    · exact reports_pure _
  · exact reports_throw _

/-! ### The live branch -/

theorem reports_reconcileNormal (clusters : List Cluster) (helmReleaseProxies : List HelmReleaseProxy) :
    (reconcileNormal clusters helmReleaseProxies).Reports := by
  have without := reports_reconcileWithoutRollout clusters
  have rollout := reports_rolloutReconcile clusters helmReleaseProxies
  refine reports_getProxy.bind fun p => Reports.ite ((reports_deleteOrphanedHelmReleaseProxies _ _).bind fun _ => ?_)
    ((reports_pure _).bind fun _ => ?_) <;> split
  all_goals first | exact without | exact (without.ite (rollout _)).ite (without.ite (rollout _))

theorem reports_aggregateHelmReleaseProxyReadyCondition : aggregateHelmReleaseProxyReadyCondition.Reports := by
  refine reports_getProxy.bind fun _ => (reports_listReleases _ _).bind fun _ =>
    ((reports_modifyConditions _).bind fun _ => reports_pure _).ite ((reports_pure _).bind fun _ => ?_)
  split <;> exact reports_modifyConditions _

theorem reports_reconcileLive (clusterList : List Cluster) (releaseList : List HelmReleaseProxy) :
    (reconcileLive clusterList releaseList).Reports := by
  refine reports_getProxy.bind fun _ => Reports.ite ((reports_modifyProxy _).bind fun _ =>
    reports_patchHelmChartProxy.bind fun _ => ?_) ((reports_pure _).bind fun _ => ?_) <;>
  exact (reports_reconcileNormal _ _).bind fun _ => (reports_modifyConditions _).bind fun _ =>
    reports_aggregateHelmReleaseProxyReadyCondition.bind fun _ => reports_pure _

/-! ### The deletion branch -/

theorem reports_deleteAndConfirm (releases : List HelmReleaseProxy) : (deleteAndConfirm releases).Reports := by
  induction releases with
  | nil => exact reports_pure _
  | cons release releases ih =>
    refine ((reports_deleteHelmReleaseProxy _).tryCatch (fun _ => reports_throw _) (rethrows_wrapped _)).bind fun _ =>
      ((reports_getHelmReleaseProxy _).tryCatch (fun _ => reports_throw _) (rethrows_wrapped _)).bind fun found => ?_
    split
    exacts [ih, ih.bind fun _ => reports_pure _]

theorem reports_reconcileDelete (releases : List HelmReleaseProxy) : (reconcileDelete releases).Reports :=
  (reports_deleteAndConfirm _).bind fun _ =>
    ((reports_modifyConditions _).bind fun _ => reports_pure _).ite ((reports_pure _).bind fun _ => reports_pure _)

theorem reports_reconcileDeleting (releaseList : List HelmReleaseProxy) : (reconcileDeleting releaseList).Reports := by
  refine reports_getProxy.bind fun _ => Reports.ite ((reports_reconcileDelete _).bind fun _ => ?_)
    ((reports_pure _).bind fun _ => reports_pure _)
  exact (reports_pure _).ite ((reports_pure _).bind fun _ => (reports_modifyProxy _).bind fun _ =>
    reports_patchHelmChartProxy.bind fun _ => reports_pure _)

/-- The body of Reconcile returns the error of any call it lets fail, on either branch. --/
theorem reports_reconcileFetched : reconcileFetched.Reports := by
  refine reports_getProxy.bind fun p =>
    ((reports_listClustersWithLabels _ _).tryCatch (fun _ => (reports_modifyConditions _).bind fun _ => reports_throw _)
      fun e c he => by simpa [bind_apply, modifyConditions] using he).bind fun _ =>
    (reports_modifyProxy _).bind fun _ => (reports_listReleases _ _).bind fun _ =>
      (reports_reconcileDeleting _).ite (reports_reconcileLive _ _)

/-! ### Reconcile -/

variable {c c₁ c₂ : Ctx} {p : HelmChartProxy}

/-- Once the HelmChartProxy is fetched, a call of the body that fails reaches the caller: a pass that
    uses up a failing outcome before the deferred patch returns a call's error. --/
theorem reconcile_reports_body (hfetch : getHelmChartProxy c = (c₁, .ok (some p)))
    (hfail : (reconcileFetched (c₁.modifyProxy fun _ => p)).1.faults.failures < c₁.faults.failures) :
    CallFailed (reconcile c).2 := by
  rw [reconcile_fetched hfetch]
  exact (reports_reconcileFetched _ |>.resolve_left hfail.ne).2

/-- The listing of the clusters fails: the pass returns that call's error. --/
theorem failedList_reconcile_reports_body :
    CallFailed (reconcile (Ctx.init (fleetStore ⟨[prodCluster "a"], by decide⟩ none) { faults := { list := [true] } })).2 :=
  reconcile_reports_body rfl (by decide)

/-- A pass reported as a success let no call fail before the deferred patch: either the
    HelmChartProxy was not found and no call failed, or every call up to the patch succeeded. --/
theorem reconcile_ok_before_patch {r : Result} (h : (reconcile c).2 = .ok r) :
    (reconcile c).1.faults.failures = c.faults.failures ∨
      ∃ c₂, c₂.faults.failures = c.faults.failures ∧ (reconcile c).1 = (patchHelmChartProxy c₂).1 := by
  rcases hget : getHelmChartProxy c with ⟨c₁, e | _ | p⟩
  · simp [reconcile, bind_apply, hget] at h
  all_goals have fetched := reports_getHelmChartProxy.failures_eq hget
  · left
    simpa only [reconcile, bind_apply, hget]
  · right
    rw [reconcile_fetched hget] at h ⊢
    exact ⟨_, (reports_reconcileFetched.failures_eq (Prod.ext rfl h)).trans fetched, rfl⟩

/-- The deferred patch's failure does not reach the caller: after a body that succeeds, a pass whose
    patch fails returns the body's result, having let a call fail, and leaves the store as the body
    left it, without the status the pass computed. --/
theorem reconcile_patch_failure_dropped {r : Result} (hfetch : getHelmChartProxy c = (c₁, .ok (some p)))
    (hbody : reconcileFetched (c₁.modifyProxy fun _ => p) = (c₂, .ok r)) (hpatch : (c₂.faults.next .patch).1 = true) :
    (reconcile c).2 = .ok r ∧ (reconcile c).1.store = c₂.store ∧ (reconcile c).1.faults.failures < c.faults.failures := by
  obtain ⟨store, faults, -⟩ := patchHelmChartProxy_call_failed hpatch
  have fetched : c₁.faults.failures ≤ c.faults.failures := by
    simpa [hfetch] using reports_getHelmChartProxy.consumes c
  have body : c₂.faults.failures ≤ c₁.faults.failures := by
    simpa [hbody] using reports_reconcileFetched.consumes (c₁.modifyProxy fun _ => p)
  have patch := c₂.faults.failures_next .patch
  rw [hpatch] at patch
  rw [reconcile_fetched hfetch, hbody]
  exact ⟨rfl, store, by rw [faults]; simp at patch; omega⟩

/-! ### A patch that fails -/

/-- Of the calls of a pass, only the deferred patch can fail unreported, and its failure never reaches the
    caller; a pass over the grown rollout whose patch fails returns a requeue and leaves the stored
    status behind. --/
theorem reconcile_patch_failure_unreported :
    (∀ {c c₁ c₂ : Ctx} {p : HelmChartProxy} {r : Result}, getHelmChartProxy c = (c₁, .ok (some p)) →
        reconcileFetched (c₁.modifyProxy fun _ => p) = (c₂, .ok r) → (c₂.faults.next .patch).1 = true →
        (reconcile c).2 = .ok r ∧ (reconcile c).1.store = c₂.store ∧
          (reconcile c).1.faults.failures < c.faults.failures) ∧
    (∀ {c : Ctx} {r : Result}, (reconcile c).2 = .ok r → (reconcile c).1.faults.failures = c.faults.failures ∨
        ∃ c₂, c₂.faults.failures = c.faults.failures ∧ (reconcile c).1 = (patchHelmChartProxy c₂).1) ∧
    Reachable grownStore ∧ (grownStore.pass { faults := { patch := [true] } }).2 = .ok requeue ∧
      (grownStore.pass { faults := { patch := [true] } }).1.faults.failures = 0 ∧
      (grownStore.pass { faults := { patch := [true] } }).1.proxy.status.rollout = some ⟨some 2, some 2⟩ ∧
      (grownStore.pass { faults := { patch := [true] } }).1.store.proxy.map (·.status.rollout) =
        some (some ⟨some 1, some 1⟩) ∧
      (grownStore.pass { faults := { patch := [true] } }).1.store.releases.map HelmReleaseProxy.clusterKey =
        ["default/b", "default/c"] :=
  ⟨reconcile_patch_failure_dropped, reconcile_ok_before_patch, reachable_settledStore.step _, rfl, rfl, rfl, rfl,
    rfl⟩

end HelmAddon
