import HelmAddon.Theorems.RolloutBatch

/-! Status.Rollout across passes. rolloutReconcile counts its calls of reconcileForCluster: the
    Unknown branch records the first batch, the True branch adds its batch to the old Count, and no
    branch compares Count with the releases that exist. The completion check then compares that
    counter with the number of clusters selected now. The runs at the end start from the settled
    rollout of `RolloutBatch` and change the selection, the spec, or a release's readiness. -/

namespace HelmAddon

/-- What a step may do to Status.Rollout: leave it, set Count to the number of clusters it
    reconciled with some step size, or add that number to Count, a sum of Go ints that wraps at 64
    bits, with some step size. --/
def RecordsCalls (c c' : Ctx) : Prop :=
  c'.proxy.status.rollout = c.proxy.status.rollout ∨
    (∃ s0, c'.proxy.status.rollout =
      some ⟨some ((c'.reconciled.length - c.reconciled.length : Nat) : Int), some s0⟩) ∨
    ∃ s, c'.proxy.status.rollout =
      some ⟨some (wrapInt64 (c.proxy.status.rolloutCount + (c'.reconciled.length - c.reconciled.length : Nat))),
        some s⟩

namespace RecordsCalls

variable {c c₁ c' : Ctx}

theorem of_rollout_eq (h : c'.proxy.status.rollout = c.proxy.status.rollout) : RecordsCalls c c' := .inl h

/-- A step that marks conditions first records what the rest records. --/
theorem of_marked (hr : c₁.proxy.status.rollout = c.proxy.status.rollout) (hrec : c₁.reconciled = c.reconciled)
    (h : RecordsCalls c₁ c') : RecordsCalls c c' := by
  have count : c₁.proxy.status.rolloutCount = c.proxy.status.rolloutCount := by
    simp [HelmChartProxyStatus.rolloutCount, hr]
  unfold RecordsCalls at h ⊢
  rwa [hr, hrec, count] at h

end RecordsCalls

variable {c : Ctx} {cs : List Cluster} {hs : List HelmReleaseProxy} {o : RolloutOptions}
  {metas : List RolloutMeta} {iou : InstallOrUpgrade}

theorem rolloutWhenUnknown_recordsCalls (happly : c.faults.Succeeds .apply) :
    RecordsCalls c (rolloutWhenUnknown cs hs o metas c).1 := by
  by_cases hne : hs = []
  · subst hne
    cases hinit : getScaledValueFromIntOrPercent o.stepInit cs.length true with
    | error e => exact .of_rollout_eq (by simp [rolloutWhenUnknown, hinit, Except.mapError, Pass.bind_apply])
    | ok s0 => exact .inr (.inl ⟨s0, by simp [rolloutWhenUnknown_eq hinit happly]⟩)
  · exact .of_rollout_eq (by simp [rolloutWhenUnknown_of_ne_nil hne])

theorem rolloutWhenTrue_recordsCalls (happly : c.faults.Succeeds .apply) :
    RecordsCalls c (rolloutWhenTrue cs o metas c).1 := by
  cases hinc : resolveStep o.stepIncrement cs.length with
  | error e => exact .of_rollout_eq (by simp [rolloutWhenTrue, hinc, Except.mapError, Pass.bind_apply])
  | ok inc =>
  cases hlim : resolveStep o.stepLimit cs.length with
  | error e => exact .of_rollout_eq (by simp [rolloutWhenTrue, hinc, hlim, Except.mapError, Pass.bind_apply])
  | ok lim =>
  cases hini : resolveStep o.stepInit cs.length with
  | error e => exact .of_rollout_eq (by simp [rolloutWhenTrue, hinc, hlim, hini, Except.mapError, Pass.bind_apply])
  | ok ini => exact .inr (.inr ⟨nextStepSize c.proxy.status.rolloutStepSize inc lim ini,
      by simp [rolloutWhenTrue_eq hinc hlim hini happly]⟩)

/-- Status.Rollout after rolloutReconcile: unchanged, the first batch, or the old Count plus the
    batch. Count counts calls of reconcileForCluster; no branch looks at which selected clusters have
    a release. --/
theorem rolloutReconcile_recordsCalls (happly : c.faults.Succeeds .apply) :
    RecordsCalls c (rolloutReconcile cs hs iou c).1 := by
  cases hr : c.proxy.spec.rollout with
  | none => exact .of_rollout_eq (by simp [rolloutReconcile, hr, Pass.bind_apply])
  | some r =>
  cases ho : r.options iou with
  | none => exact .of_rollout_eq (by simp [rolloutReconcile, hr, ho, Pass.bind_apply])
  | some o =>
  by_cases hn : (cs.length : Int) = c.proxy.status.rolloutCount
  · exact .of_rollout_eq (by simp [rolloutReconcile_completed hr ho hn, modifyConditions])
  rw [rolloutReconcile_eq hr ho hn]
  cases rolloutMetaSorted c.mapOrder cs hs with
  | none => exact .of_rollout_eq (by simp)
  | some metas =>
    dsimp only
    refine .of_marked (Ctx.rollingOut_rollout cs.length) (Ctx.rollingOut_reconciled cs.length) ?_
    have happly' : (c.rollingOut cs.length).faults.Succeeds .apply := happly
    cases hu : (c.rollingOut cs.length).proxy.status.conditions.isUnknown .helmReleaseProxiesReady
    · cases hf : (c.rollingOut cs.length).proxy.status.conditions.isFalse .helmReleaseProxiesReady
      · rw [rolloutByReadiness_true (Conditions.isTrue_of_not hu hf)]
        exact rolloutWhenTrue_recordsCalls happly'
      · exact .of_rollout_eq (by simp [rolloutByReadiness_false hu hf happly'])
    · rw [rolloutByReadiness_unknown hu]
      exact rolloutWhenUnknown_recordsCalls happly'

theorem nextBatchCtx_recordsCalls :
    RecordsCalls nextBatchCtx (rolloutReconcile [prodCluster "a", prodCluster "b", prodCluster "c"] [] .install
      nextBatchCtx).1 :=
  rolloutReconcile_recordsCalls (Faults.clear_empty .apply)

/-! ### Runs -/

/-- The settled rollout after cluster b leaves the selection and cluster c joins it. --/
def swappedStore : Store := settledStore.step (.setClusters ⟨[prodCluster "c"], by decide⟩)

theorem rolloutReconcile_count_not_recomputed :
    Reachable swappedStore ∧ (swappedStore.pass {}).1.reconciled = [] ∧
      (swappedStore.pass {}).1.store.releases = [] ∧
      (swappedStore.pass {}).1.store.proxy.map (·.status.conditions.isTrue .helmReleaseProxiesRolloutCompleted) =
        some true ∧
      (((deselectedStore.step (.reconcile {})).pass {}).1.store.proxy.bind
        (·.status.conditions.helmReleaseProxiesRolloutCompleted)).map (·.message) =
        some "-1 Helm release proxies not yet rolled out" :=
  ⟨reachable_settledStore.step _, rfl, rfl, rfl, rfl⟩

/-- An edit of the settled spec: a new chart version, and upgrade options. --/
def upgradedSpec : HelmChartProxySpec :=
  ⟨{ matchLabels := [("env", "prod")] }, ⟨"nginx", "repo", "2.0", ""⟩, "",
    some { install := (installRollout 1 1).install, upgrade := some { stepInit := some (.int 1) } }⟩

def editedStore : Store := settledStore.step (.editSpec upgradedSpec)

theorem rolloutReconcile_upgrade_completed_at_once :
    Reachable editedStore ∧ editedStore.proxy.map (·.generation) = some 2 ∧ (editedStore.pass {}).1.reconciled = [] ∧
      (editedStore.pass {}).1.store.proxy.map (·.status.conditions.isTrue .helmReleaseProxiesRolloutCompleted) =
        some true ∧
      (editedStore.pass {}).1.store.releases.map (·.spec.chart.version) = ["1.0"] :=
  ⟨reachable_settledStore.step _, rfl, rfl, rfl, rfl⟩

/-- The settled rollout after cluster c joins the selection and b's release stops being Ready. --/
def stalledStore : Store :=
  (settledStore.step (.setClusters ⟨[prodCluster "b", prodCluster "c"], by decide⟩)).step
    (.updateRelease ⟨"default", "nginx-b-0"⟩ ⟨releaseConditions false, 1⟩ [])

theorem rolloutReconcile_abort_grows_step :
    Reachable stalledStore ∧ stalledStore.proxy.bind (·.status.rollout) = some ⟨some 1, some 1⟩ ∧
      (stalledStore.pass {}).1.reconciled = [] ∧
      (stalledStore.pass {}).1.store.proxy.bind (·.status.rollout) = some ⟨some 1, some 2⟩ :=
  ⟨(reachable_settledStore.step _).step _, rfl, rfl, rfl⟩

end HelmAddon
