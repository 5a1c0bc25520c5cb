import HelmAddon.Theorems.Convergence
import HelmAddon.Theorems.ErrorPropagation

/-! HelmReleaseProxiesReady, the condition whose value chooses the branch of the rollout. The
    aggregation sets it with cluster-api's SetAggregate over the listed releases' Ready conditions,
    once every listed release has observed its generation. While one has not, it marks
    HelmReleaseProxySpecsUpToDate False instead, and HelmReleaseProxiesReady keeps the value an
    earlier pass gave it (`aggregate_stale`). Beside a True HelmReleaseProxySpecsUpToDate, a True
    HelmReleaseProxiesReady still says less than that every release is Ready: the merge ranks True
    above Unknown and skips a release without a Ready condition, and when no release has one it
    sets nothing. What it does say is `ReadyAggregate`, and it holds of the releases a pass leaves
    whenever the pass stores both conditions True (`pass_ready_of_specs_up_to_date`). -/

namespace HelmAddon

open Pass

/-! ### The aggregation -/

section Aggregation

variable {c : Ctx}

/-- The aggregation once its List call succeeds. --/
theorem aggregate_listed (hlist : c.faults.Succeeds .list) :
    aggregateHelmReleaseProxyReadyCondition c =
      let releaseList := c.store.listReleases c.proxy.namespace (ownerLabels c.proxy)
      ((c.setFaults (c.faults.next .list).2).modifyProxy (·.modifyStatus (·.modifyConditions fun cs =>
        if releaseList.length = 0 then cs.markTrue .helmReleaseProxiesReady
        else match releaseList.find? fun h => h.generation != h.status.observedGeneration with
          | some h => cs.markFalse .helmReleaseProxySpecsUpToDate helmReleaseProxySpecsUpdatingReason .info
              ("Helm release proxy \x27" ++ h.name ++ "\x27 is not updated yet")
          | none => cs.setAggregate .helmReleaseProxiesReady (releaseList.map (·.status.conditions.ready)))),
        .ok ()) := by
  simp only [aggregateHelmReleaseProxyReadyCondition, listInstalledReleases, Pass.bind_apply, getProxy_apply,
    listReleases_ok _ _ hlist]
  split
  · simp [modifyConditions, Pass.bind_apply, *]
  · split <;> simp [modifyConditions, Pass.bind_apply, *]

/-- While a listed release has not observed its generation, the aggregation only marks
    HelmReleaseProxySpecsUpToDate False. --/
theorem aggregate_unobserved (hlist : c.faults.Succeeds .list) {h : HelmReleaseProxy}
    (hm : h ∈ c.store.listReleases c.proxy.namespace (ownerLabels c.proxy))
    (hgen : h.generation ≠ h.status.observedGeneration) :
    ∃ msg, aggregateHelmReleaseProxyReadyCondition c =
      ((c.setFaults (c.faults.next .list).2).modifyProxy (·.modifyStatus (·.modifyConditions
        (·.markFalse .helmReleaseProxySpecsUpToDate helmReleaseProxySpecsUpdatingReason .info msg))), .ok ()) := by
  have hne : (c.store.listReleases c.proxy.namespace (ownerLabels c.proxy)).length ≠ 0 :=
    (List.length_pos.mpr (List.ne_nil_of_mem hm)).ne'
  obtain ⟨h', found⟩ := Option.isSome_iff_exists.mp
    (List.find?_isSome (p := fun h => h.generation != h.status.observedGeneration) |>.mpr ⟨h, hm, by simpa using hgen⟩)
  rw [aggregate_listed hlist]
  exact ⟨_, by simp only [hne, found, if_false]; rfl⟩

/-- While a listed release has not observed its generation, HelmReleaseProxiesReady keeps the value
    an earlier pass gave it, beside a False HelmReleaseProxySpecsUpToDate. --/
theorem aggregate_stale (hlist : c.faults.Succeeds .list) {h : HelmReleaseProxy}
    (hm : h ∈ c.store.listReleases c.proxy.namespace (ownerLabels c.proxy))
    (hgen : h.generation ≠ h.status.observedGeneration) :
    (aggregateHelmReleaseProxyReadyCondition c).1.proxy.status.conditions.get .helmReleaseProxiesReady =
        c.proxy.status.conditions.get .helmReleaseProxiesReady ∧
      (aggregateHelmReleaseProxyReadyCondition c).1.proxy.status.conditions.isFalse
        .helmReleaseProxySpecsUpToDate = true := by
  obtain ⟨msg, e⟩ := aggregate_unobserved hlist hm hgen
  rw [e]
  simp [Conditions.markFalse, Conditions.isFalse]

/-- Once every listed release has observed its generation and is Ready, the aggregation marks
    HelmReleaseProxiesReady True. --/
theorem aggregate_settled (hlist : c.faults.Succeeds .list)
    (hs : ∀ h ∈ c.store.listReleases c.proxy.namespace (ownerLabels c.proxy),
      h.generation = h.status.observedGeneration ∧ Conditions.holdsTrue h.status.conditions.ready = true) :
    aggregateHelmReleaseProxyReadyCondition c =
      ((c.setFaults (c.faults.next .list).2).modifyProxy
        (·.modifyStatus (·.modifyConditions (·.markTrue .helmReleaseProxiesReady))), .ok ()) := by
  rw [aggregate_listed hlist]
  dsimp only
  split
  · rfl
  · rename_i hne
    have found : (c.store.listReleases c.proxy.namespace (ownerLabels c.proxy)).find?
        (fun h => h.generation != h.status.observedGeneration) = none :=
      List.find?_eq_none.mpr fun h mem => by simp [(hs h mem).1]
    have merged : Conditions.merge ((c.store.listReleases c.proxy.namespace (ownerLabels c.proxy)).map
        (·.status.conditions.ready)) = some Conditions.trueCondition :=
      Conditions.merge_of_holdsTrue (by simpa using hne) (by simpa using fun h mem => (hs h mem).2)
    simp only [found, Conditions.setAggregate, merged, Conditions.markTrue]

/-- The aggregation writes HelmReleaseProxiesReady or HelmReleaseProxySpecsUpToDate, never
    HelmReleaseProxiesRolloutCompleted. --/
theorem aggregate_keeps_completed (hlist : c.faults.Succeeds .list) :
    ∃ f : Conditions → Conditions, aggregateHelmReleaseProxyReadyCondition c =
        ((c.setFaults (c.faults.next .list).2).modifyProxy (·.modifyStatus (·.modifyConditions f)), .ok ()) ∧
      ∀ cs, (f cs).get .helmReleaseProxiesRolloutCompleted = cs.get .helmReleaseProxiesRolloutCompleted := by
  rw [aggregate_listed hlist]
  refine ⟨_, rfl, fun cs => ?_⟩
  dsimp only
  split
  · simp [Conditions.markTrue]
  · split
    · simp [Conditions.markFalse]
    · unfold Conditions.setAggregate
      split <;> simp

end Aggregation

/-! ### What a True HelmReleaseProxiesReady says -/

/-- What the merge's True says of the releases it merged: every one has observed its generation,
    none is False with a severity (that group would rank above True), and one is Ready unless none
    has a Ready condition at all. --/
structure ReadyAggregate (releases : List HelmReleaseProxy) : Prop where
  observed : ∀ h ∈ releases, h.generation = h.status.observedGeneration
  notFailed : ∀ h ∈ releases, ∀ d, h.status.conditions.ready = some d →
    d.status = .conditionFalse → d.severity = .none
  someReady : (∃ h ∈ releases, Conditions.holdsTrue h.status.conditions.ready = true) ∨
    ∀ h ∈ releases, h.status.conditions.ready = none

/-- A True HelmReleaseProxiesReady beside a True HelmReleaseProxySpecsUpToDate after the aggregation
    says `ReadyAggregate` of the listed releases. --/
theorem aggregate_ready {c : Ctx} (hlist : c.faults.Succeeds .list)
    (hup : (aggregateHelmReleaseProxyReadyCondition c).1.proxy.status.conditions.isTrue
      .helmReleaseProxySpecsUpToDate = true)
    (hready : (aggregateHelmReleaseProxyReadyCondition c).1.proxy.status.conditions.isTrue
      .helmReleaseProxiesReady = true) :
    ReadyAggregate (c.store.listReleases c.proxy.namespace (ownerLabels c.proxy)) := by
  have observed : ∀ h ∈ c.store.listReleases c.proxy.namespace (ownerLabels c.proxy),
      h.generation = h.status.observedGeneration := fun h hm => by
    by_contra hgen
    have := (Conditions.isTrue_exclusive hup).2
    rw [(aggregate_stale hlist hm hgen).2] at this
    cases this
  rw [aggregate_listed hlist] at hready
  dsimp only at hready
  generalize c.store.listReleases c.proxy.namespace (ownerLabels c.proxy) = L at observed hready ⊢
  by_cases hne : L = []
  · subst hne
    exact ⟨by simp, by simp, .inr (by simp)⟩
  have found : L.find? (fun h => h.generation != h.status.observedGeneration) = none :=
    List.find?_eq_none.mpr fun h mem => by simp [observed h mem]
  simp only [Ctx.modifyProxy_proxy, HelmChartProxy.modifyStatus_status,
    HelmChartProxyStatus.modifyConditions_conditions, List.length_eq_zero, hne, found, if_false] at hready
  rcases Conditions.isTrue_setAggregate hready with ⟨⟨s, hs, ht⟩, hsev⟩ | ⟨hnone, -⟩
  · obtain ⟨h, hm, rfl⟩ := List.mem_map.mp hs
    exact ⟨observed, fun h' hm' d hd => hsev d (hd ▸ List.mem_map_of_mem _ hm'), .inl ⟨h, hm, ht⟩⟩
  · have none_ready : ∀ h ∈ L, h.status.conditions.ready = none := fun h hm => hnone _ (List.mem_map_of_mem _ hm)
    exact ⟨observed, fun h hm d hd => by simp [none_ready h hm] at hd, .inr none_ready⟩

/-! ### After a whole pass -/

/-- The writes of reconcileNormal keep the namespaced name of the in-memory object. --/
theorem normalWrites_key (k : ObjectKey) : NormalWrites (fun _ => True) fun _ q => q.key = k where
  status _ := preserves_modifyProxy fun h => by simpa [HelmChartProxy.key] using h
  apply _ _ := preserves_applyRelease id
  delete := preserves_deleteRelease fun _ h _ => h

/-- The live branch after the finalizer, without faults, returns without error only when
    reconcileNormal does, and then the aggregation runs after it: on a context without failing
    outcomes and with the same namespaced name, to one without failing outcomes. --/
theorem liveTail_ok {cs : List Cluster} {rs : List HelmReleaseProxy} {c₃ c' : Ctx} {r : Result}
    (hc₃ : c₃.faults.Clear)
    (e : (do
        let res ← reconcileNormal cs rs
        modifyConditions (·.markTrue .helmReleaseProxySpecsUpToDate)
        aggregateHelmReleaseProxyReadyCondition
        return res : Pass Result) c₃ = (c', .ok r)) :
    ∃ c₄ : Ctx, c₄.faults.Clear ∧ c₄.proxy.key = c₃.proxy.key ∧ c'.faults.Clear ∧
      c' = (aggregateHelmReleaseProxyReadyCondition c₄).1 := by
  have hc₄ := (reports_reconcileNormal cs rs).clear hc₃
  have key₄ : (reconcileNormal cs rs c₃).1.proxy.key = c₃.proxy.key :=
    (normalWrites_key _).reconcileNormal (fun _ _ => trivial) (fun _ _ _ _ _ => trivial) c₃ rfl
  obtain ⟨c₄, r₄, e₄, e⟩ := bind_eq_ok e
  rw [e₄] at hc₄ key₄
  simp only [modifyConditions, bind_apply, modifyProxy_apply] at e
  obtain ⟨c₅, ⟨⟩, e₅, e⟩ := bind_eq_ok e
  cases e
  have hc₅ : c'.faults.Clear := (Faults.clear_iff_failures _).mpr
    ((reports_aggregateHelmReleaseProxyReadyCondition.failures_eq e₅).trans ((Faults.clear_iff_failures _).mp hc₄))
  refine ⟨_, ?_, ?_, hc₅, by rw [e₅]⟩
  exacts [hc₄, by simpa [HelmChartProxy.key] using key₄]

namespace HelmChartProxy

variable (p : HelmChartProxy)

@[simp] theorem summarized_rollout : p.summarized.status.rollout = p.status.rollout := by
  simp [summarized]

@[simp] theorem summarized_namespace : p.summarized.namespace = p.namespace := by cases p; rfl
@[simp] theorem summarized_name : p.summarized.name = p.name := by cases p; rfl
@[simp] theorem summarized_generation : p.summarized.generation = p.generation := by cases p; rfl

/-- The summary writes Ready only. --/
theorem summarized_get {t : ConditionType} (ht : t ≠ .ready) :
    p.summarized.status.conditions.get t = p.status.conditions.get t := by
  simp only [summarized, observeGeneration_status_conditions, modifyStatus_status,
    HelmChartProxyStatus.modifyConditions_conditions, Conditions.setSummary, Conditions.setAggregate]
  split <;> simp [Conditions.get_set_of_ne, Ne.symm ht]

theorem summarized_isTrue {t : ConditionType} (ht : t ≠ .ready) :
    p.summarized.status.conditions.isTrue t = p.status.conditions.isTrue t := by
  simp only [Conditions.isTrue, summarized_get p ht]

end HelmChartProxy

/-- A patch without fault stores the summarized status of the in-memory object, and writes no
    release. --/
theorem patchHelmChartProxy_stored {c : Ctx} (h : c.faults.Succeeds .patch) :
    (∀ q ∈ (patchHelmChartProxy c).1.store.proxy, q.status = c.proxy.summarized.status) ∧
      (patchHelmChartProxy c).1.store.releases = c.store.releases := by
  rw [patchHelmChartProxy_fst h]
  exact Store.patchProxy_getD _ _

variable {s : Store} {env : Env} {p : HelmChartProxy} {sel : Selector}

/-- A pass over a live HelmChartProxy whose selector converts, in which every call succeeds and that
    returns without error, and that stores HelmReleaseProxiesReady and HelmReleaseProxySpecsUpToDate
    both True: the releases listed for the HelmChartProxy after the pass, which are those the
    aggregation read, are as `ReadyAggregate` says. --/
theorem pass_ready_of_specs_up_to_date (hp : s.proxy = some p) (hlive : p.deletionTimestamp = false)
    (hsel : labelSelectorAsSelector p.spec.clusterSelector = .ok sel) (hclear : env.faults.Clear)
    {r : Result} (hok : (s.pass env).2 = .ok r)
    (hup : (s.pass env).1.store.proxy.map (·.status.conditions.isTrue .helmReleaseProxySpecsUpToDate) = some true)
    (hready : (s.pass env).1.store.proxy.map (·.status.conditions.isTrue .helmReleaseProxiesReady) = some true) :
    ReadyAggregate ((s.pass env).1.store.listReleases p.namespace (ownerLabels p)) := by
  obtain ⟨c, hc, rfl, key, -, -, result, -, state, -⟩ := Store.pass_listed hp hsel hclear
  simp only [hlive, Bool.false_eq_true, if_false] at result state
  obtain ⟨c₃, hc₃, key₃, -, -, e⟩ := reconcileLive_registered _ _ hc hp
  rw [e] at result state
  obtain ⟨c₄, hc₄, key₄, hc₅, e₅⟩ := liveTail_ok hc₃ (Prod.ext rfl (result.symm.trans hok))
  obtain ⟨stored, releases⟩ := patchHelmChartProxy_stored (hc₅ .patch)
  rw [← state] at stored releases
  obtain ⟨q, hq, -⟩ := Option.map_eq_some'.mp hup
  simp only [hq, Option.map_some', Option.some.injEq] at hup hready
  rw [stored q hq, HelmChartProxy.summarized_isTrue _ (by decide), e₅] at hup hready
  have ready := aggregate_ready (hc₄ .list) hup hready
  obtain ⟨_, agg, same⟩ := aggregateHelmReleaseProxyReadyCondition_ok (hc₄ .list)
  rw [e₅, agg] at releases
  have hname : c₄.proxy.namespace = p.namespace ∧ c₄.proxy.name = p.name := by
    simpa [HelmChartProxy.key] using key₄.trans (key₃.trans key)
  rwa [Store.listReleases, hname.1, ownerLabels, hname.2, ← same, ← releases] at ready

/-- `nginx` without rollout options on clusters a and b after a first pass, once a's release reports
    Ready True and b's release Ready Unknown, both with their generation observed. --/
def mixedFleet : Store :=
  plainFleet.run [.reconcile {}, .updateRelease ⟨"default", "nginx-a-0"⟩ ⟨releaseConditions true, 1⟩ [],
    .updateRelease ⟨"default", "nginx-b-1"⟩ ⟨{ ready := some Conditions.unknownCondition }, 1⟩ []]

theorem mixedFleet_pass_ready :
    ReadyAggregate ((mixedFleet.pass {}).1.store.listReleases "default" (ownerLabels (nginxProxy none))) :=
  pass_ready_of_specs_up_to_date (p := mixedFleet.proxy.get rfl) (r := {}) (Option.some_get _).symm rfl rfl
    Faults.clear_empty rfl rfl rfl

/-! ### What a True HelmReleaseProxiesReady does not say -/

/-- HelmReleaseProxiesReady stays True after a pass while a listed release has not observed its
    generation: the settled rollout after cluster c joins, where the aggregation leaves the value of
    the pass before. It is also True while a listed release is Ready Unknown, which the merge ranks
    below True. --/
theorem pass_ready_overstates :
    (Reachable grownStore ∧ (grownStore.pass {}).2 = .ok requeue ∧
      (grownStore.pass {}).1.store.proxy.map (·.status.conditions.isTrue .helmReleaseProxiesReady) = some true ∧
      (grownStore.pass {}).1.store.releases.map (fun h => (h.generation, h.status.observedGeneration)) =
        [(1, 1), (1, 0)]) ∧
    (Reachable mixedFleet ∧ (mixedFleet.pass {}).2 = .ok {} ∧
      (mixedFleet.pass {}).1.store.proxy.map (·.status.conditions.isTrue .helmReleaseProxiesReady) = some true ∧
      (mixedFleet.pass {}).1.store.releases.map (·.status.conditions.ready) =
        [some Conditions.trueCondition, some Conditions.unknownCondition]) :=
  ⟨⟨reachable_settledStore.step _, rfl, rfl, rfl⟩,
    ⟨(Reachable.init ⟨rfl, _, rfl, rfl, rfl, rfl, rfl⟩).run _, rfl, rfl, rfl⟩⟩

end HelmAddon
