import HelmAddon.Theorems.RolloutInvariant

/-! Runs of a rollout. The steps of a pass other than the writes of reconcileForCluster are quiet:
    they write at most the finalizers and status of the HelmChartProxy. Composing the stages of
    Reconcile, a pass over a rollout in progress keeps the selection and extends the released
    clusters, whatever call other than those writes fails; reports on releases and spec edits that
    keep the selector are quiet. By induction, along every run from a HelmChartProxy just created the
    selected clusters with a release are the first ones in namespaced-name order, and each event
    extends them in that order. -/

namespace HelmAddon

/-! ### Quiet steps -/

/-- A stored HelmChartProxy that is not being deleted, if there is one. --/
def Store.Live (s : Store) : Prop := ∀ q ∈ s.proxy, q.deletionTimestamp = false

theorem Store.Keeps.live {s s' : Store} (h : s.Keeps s') (hl : s.Live) : s'.Live := fun q' hq' => by
  obtain ⟨q, hq, same⟩ := Option.map_eq_some'.mp (h.proxy.symm.trans (by rw [hq']; rfl))
  simp only [HelmChartProxy.frame, Prod.mk.injEq] at same
  exact same.2.2.1 ▸ hl q hq

theorem RolloutInv.store_live {s : Store} {k : Nat} (inv : RolloutInv s k) : s.Live := fun q hq => by
  obtain ⟨p, hp, live⟩ := inv.live
  rw [hp] at hq
  exact Option.some.inj hq ▸ live

/-- A step that writes at most the finalizers and status of the HelmChartProxy, in memory and, while
    the stored object is not being deleted, in the store; and that makes no write of
    reconcileForCluster. --/
def Pass.Quiet {α : Type} (x : Pass α) : Prop :=
  ∀ c : Ctx, c.store.Live →
    c.store.Keeps (x c).1.store ∧ (x c).1.proxy.frame = c.proxy.frame ∧ (x c).1.faults.apply = c.faults.apply

namespace Pass

variable {α β : Type} {x : Pass α} {f : α → Pass β}

theorem quiet_pure (a : α) : (pure a : Pass α).Quiet := fun _ _ => ⟨.refl _, rfl, rfl⟩

theorem quiet_throw (e : Error) : (throw e : Pass α).Quiet := fun _ _ => ⟨.refl _, rfl, rfl⟩

theorem quiet_ofExcept (r : Except Error α) : (ofExcept r).Quiet := by
  cases r <;> exact fun _ _ => ⟨.refl _, rfl, rfl⟩

theorem Quiet.bind (hx : x.Quiet) (hf : ∀ a, (f a).Quiet) : (x >>= f).Quiet := fun c live => by
  have hc := hx c live
  rw [bind_apply]
  generalize x c = r at hc ⊢
  obtain ⟨c', _ | a⟩ := r
  · exact hc
  · obtain ⟨keeps, frame, faults⟩ := hc
    obtain ⟨keeps', frame', faults'⟩ := hf a c' (keeps.live live)
    exact ⟨keeps.trans keeps', frame'.trans frame, faults'.trans faults⟩

theorem Quiet.tryCatch {h : Error → Pass α} (hx : x.Quiet) (hh : ∀ e, (h e).Quiet) :
    (tryCatch x h : Pass α).Quiet := fun c live => by
  have hc := hx c live
  rw [tryCatch_apply]
  generalize x c = r at hc ⊢
  obtain ⟨c', e | _⟩ := r
  · obtain ⟨keeps, frame, faults⟩ := hc
    obtain ⟨keeps', frame', faults'⟩ := hh e c' (keeps.live live)
    exact ⟨keeps.trans keeps', frame'.trans frame, faults'.trans faults⟩
  · exact hc

end Pass

open Pass

theorem quiet_getProxy : getProxy.Quiet := fun _ _ => ⟨.refl _, rfl, rfl⟩

theorem quiet_modifyProxy {f : HelmChartProxy → HelmChartProxy} (hf : ∀ p, (f p).frame = p.frame) :
    (modifyProxy f).Quiet := fun c _ => ⟨.refl _, hf c.proxy, rfl⟩

theorem quiet_modifyConditions (f : Conditions → Conditions) : (modifyConditions f).Quiet :=
  quiet_modifyProxy fun p => p.frame_modifyStatus _

theorem Faults.next_apply (f : Faults) {k : StoreCall} (hk : k ≠ .apply) : (f.next k).2.apply = f.apply := by
  cases k <;> first | exact absurd rfl hk | rfl

theorem quiet_listClusters (ns : String) (sel : Selector) : (listClusters ns sel).Quiet := fun c _ => by
  rw [listClusters_fst]
  exact ⟨.refl _, rfl, c.faults.next_apply (by decide)⟩

theorem quiet_listReleases (ns : String) (want : Labels) : (listReleases ns want).Quiet := fun c _ => by
  rw [listReleases_fst]
  exact ⟨.refl _, rfl, c.faults.next_apply (by decide)⟩

/-- A patch of a stored object that is not being deleted writes its finalizers and status only. --/
theorem Store.patchProxy_keeps {s s' : Store} {p : HelmChartProxy} (hl : s.Live) (h : s.patchProxy p = some s') :
    s.Keeps s' := by
  unfold Store.patchProxy at h
  split at h
  · cases h
  · rename_i q hq
    cases h
    have live : q.deletionTimestamp = false := hl q hq
    refine ⟨rfl, rfl, ?_⟩
    cases q
    simp_all [HelmChartProxy.setFinalizers, HelmChartProxy.modifyStatus, HelmChartProxy.frame]

theorem quiet_patchProxy : patchProxy.Quiet := fun c live => by
  rcases storeCall_cases .patch c with h | h
  · cases hp : c.store.patchProxy c.proxy with
    | none =>
      simp only [patchProxy, Pass.bind_apply, h, getProxy_apply, getStore_apply, Ctx.setFaults_proxy,
        Ctx.setFaults_store, hp, throw_apply, Ctx.setFaults_faults]
      exact ⟨.refl _, trivial, c.faults.next_apply (by decide)⟩
    | some s' =>
      simp only [patchProxy, Pass.bind_apply, h, getProxy_apply, getStore_apply, Ctx.setFaults_proxy,
        Ctx.setFaults_store, hp, setStore_apply, Ctx.setStore_store, Ctx.setStore_proxy, Ctx.setStore_faults,
        Ctx.setFaults_faults]
      exact ⟨Store.patchProxy_keeps live hp, trivial, c.faults.next_apply (by decide)⟩
  · simp only [patchProxy, Pass.bind_apply, h]
    exact ⟨.refl _, rfl, c.faults.next_apply (by decide)⟩

theorem quiet_patchHelmChartProxy : patchHelmChartProxy.Quiet :=
  (quiet_modifyConditions _).bind fun _ =>
    (quiet_modifyProxy HelmChartProxy.frame_observeGeneration).bind fun _ => quiet_patchProxy

theorem quiet_aggregateHelmReleaseProxyReadyCondition : aggregateHelmReleaseProxyReadyCondition.Quiet := by
  refine quiet_getProxy.bind fun p => (quiet_listReleases _ _).bind fun rl => ?_
  dsimp only
  split
  · exact (quiet_modifyConditions _).bind fun _ => quiet_pure _
  · split <;> exact quiet_modifyConditions _

/-! ### Passes over a rollout in progress -/

/-- A context of a pass over a rollout in progress: the store keeps the rollout invariant at `k`, and
    the in-memory object is the stored one but for its finalizers and status. --/
structure Ctx.Rolling (c : Ctx) (k : Nat) : Prop where
  inv : RolloutInv c.store k
  frame : c.store.proxy.map HelmChartProxy.frame = some c.proxy.frame

theorem Faults.succeeds_apply {f f' : Faults} (e : f'.apply = f.apply) (h : f.Succeeds .apply) :
    f'.Succeeds .apply := fun b hb => h b (by rw [Faults.calls, ← e]; exact hb)

/-- A step that, from a context over a rollout in progress at `k` that satisfies `P` and whose writes
    of reconcileForCluster succeed, keeps the selection and leaves the rollout in progress at `k` or
    further. --/
def Pass.Advances {α : Type} (P : Ctx → Prop) (x : Pass α) : Prop :=
  ∀ c k, P c → c.Rolling k → c.faults.Succeeds .apply →
    ∃ k', k ≤ k' ∧ RolloutInv (x c).1.store k' ∧ (x c).1.store.selected = c.store.selected

namespace Pass

variable {α β : Type} {x : Pass α} {f : α → Pass β} {P : Ctx → Prop}

theorem Quiet.rolling (hx : x.Quiet) {c : Ctx} {k : Nat} (h : c.Rolling k) : (x c).1.Rolling k := by
  obtain ⟨keeps, frame, -⟩ := hx c h.inv.store_live
  exact ⟨h.inv.keeps keeps, by rw [keeps.proxy, h.frame, frame]⟩

/-- A quiet step, then advancing ones that need what the step returns and leaves. --/
theorem Quiet.bind_advances {Q : α → Ctx → Prop} (hx : x.Quiet)
    (hv : ∀ c k a, P c → c.Rolling k → (x c).2 = .ok a → Q a (x c).1) (hf : ∀ a, (f a).Advances (Q a)) :
    (x >>= f).Advances P := fun c k hP h happly => by
  have rolling := hx.rolling h
  obtain ⟨keeps, -, faults⟩ := hx c h.inv.store_live
  have value : ∀ a, (x c).2 = .ok a → Q a (x c).1 := fun a => hv c k a hP h
  rw [bind_apply]
  generalize x c = r at rolling keeps faults value ⊢
  obtain ⟨c', e | a⟩ := r
  · exact ⟨k, le_rfl, rolling.inv, keeps.selected⟩
  · obtain ⟨k', le, inv, sel⟩ := hf a c' k (value a rfl) rolling (Faults.succeeds_apply faults happly)
    exact ⟨k', le, inv, sel.trans keeps.selected⟩

/-- A quiet step, then advancing ones that need a condition of the store that quiet steps keep. --/
theorem Quiet.bind_store {S : Store → Prop} (hx : x.Quiet) (hS : ∀ {s s'}, s.Keeps s' → S s → S s')
    (hf : ∀ a, (f a).Advances fun c => S c.store) : (x >>= f).Advances fun c => S c.store :=
  hx.bind_advances (fun c _ _ hP h _ => hS (hx c h.inv.store_live).1 hP) hf

/-- An advancing step, then quiet ones. --/
theorem Advances.bind_quiet (hx : x.Advances P) (hf : ∀ a, (f a).Quiet) : (x >>= f).Advances P :=
  fun c k hP h happly => by
    obtain ⟨k', le, inv, sel⟩ := hx c k hP h happly
    rw [bind_apply]
    generalize x c = r at inv sel ⊢
    obtain ⟨c', e | a⟩ := r
    · exact ⟨k', le, inv, sel⟩
    · have keeps := (hf a c' inv.store_live).1
      exact ⟨k', le, inv.keeps keeps, keeps.selected.trans sel⟩

end Pass

open Pass

/-! ### The stages of a pass -/

variable {s : Store} {k : Nat} {p : HelmChartProxy}

theorem RolloutInv.release_targets (inv : RolloutInv s k) :
    ∀ h ∈ s.releases, ∃ x ∈ (sortClusters s.selected).take k, x.key = h.clusterKey := fun h mem => by
  obtain ⟨x, sel, key⟩ := inv.targets h mem
  exact ⟨x, (inv.released x sel).mp ⟨h, mem, key.symm⟩, key⟩

theorem RolloutInv.release_covers (inv : RolloutInv s k) :
    ∀ x ∈ (sortClusters s.selected).take k, ∃ h ∈ s.releases, h.clusterKey = x.key := fun x mem =>
  (inv.released x ((List.mem_insertionSort _).mp (List.mem_of_mem_take mem))).mpr mem

/-- The clusters a pass lists are the selected ones, when its object has the stored one's selector. --/
theorem Store.selected_of_frame {sel : Selector} (hq : s.proxy.map HelmChartProxy.frame = some p.frame)
    (hsel : labelSelectorAsSelector p.spec.clusterSelector = .ok sel) : s.selected = s.listClusters p.namespace sel := by
  obtain ⟨q, hq, same⟩ := Option.map_eq_some'.mp hq
  simp only [HelmChartProxy.frame, Prod.mk.injEq] at same
  simp [Store.selected, hq, same.1, same.2.2.2, hsel]

/-- The releases a pass lists are all the stored ones, since the HelmChartProxy owns them all. --/
theorem RolloutInv.listReleases_eq (inv : RolloutInv s k) (hq : s.proxy.map HelmChartProxy.frame = some p.frame) :
    s.listReleases p.namespace (ownerLabels p) = s.releases := by
  obtain ⟨q, hq, same⟩ := Option.map_eq_some'.mp hq
  refine List.filter_eq_self.mpr fun h mem => ?_
  obtain ⟨ns, labels, -⟩ := inv.owned q hq h mem
  simp only [HelmChartProxy.frame, Prod.mk.injEq] at same
  simp [ns, same.1, ← ownerLabels_frame (by simp [HelmChartProxy.frame, same] : q.frame = p.frame), labels]

theorem advances_reconcileNormal (cl : List Cluster) (rl : List HelmReleaseProxy) :
    (reconcileNormal cl rl).Advances fun c => c.store.selected = cl ∧ c.store.releases = rl := by
  rintro c k ⟨rfl, rfl⟩ h happly
  obtain ⟨q, hq, -⟩ := h.inv.live
  have same : q.frame = c.proxy.frame := by simpa [hq] using h.frame
  simp only [HelmChartProxy.frame, Prod.mk.injEq] at same
  obtain ⟨L, m, store, hL, hcover⟩ :=
    reconcileNormal_extends c.store.selected_nodup h.inv.release_targets h.inv.release_covers happly
  exact ⟨k + m, Nat.le_add_right k m, store ▸ h.inv.applied hq same.1.symm same.2.1.symm hL hcover,
    store ▸ Store.foldl_applyRelease_selected _ L⟩

theorem advances_reconcileLive (cl : List Cluster) (rl : List HelmReleaseProxy) :
    (reconcileLive cl rl).Advances fun c => c.store.selected = cl ∧ c.store.releases = rl := by
  have listed : ∀ {s s' : Store}, s.Keeps s' → s.selected = cl ∧ s.releases = rl → s'.selected = cl ∧ s'.releases = rl :=
    fun keeps ⟨hsel, hrel⟩ => ⟨keeps.selected.trans hsel, keeps.releases.trans hrel⟩
  have normal := (advances_reconcileNormal cl rl).bind_quiet (f := fun res => do
      modifyConditions (·.markTrue .helmReleaseProxySpecsUpToDate)
      aggregateHelmReleaseProxyReadyCondition
      pure res) fun res =>
    (quiet_modifyConditions _).bind fun _ => quiet_aggregateHelmReleaseProxyReadyCondition.bind fun _ => quiet_pure res
  refine quiet_getProxy.bind_store listed fun p => ?_
  dsimp only
  split
  · exact (quiet_modifyProxy fun p => p.frame_setFinalizers _).bind_store listed fun _ =>
      quiet_patchHelmChartProxy.bind_store listed fun _ => normal
  · exact normal

/-- A caught step whose handler always fails returns a value only when the step itself does. --/
theorem Pass.tryCatch_of_ok {α : Type} {x : Pass α} {h : Error → Pass α} {c : Ctx} {a : α}
    (hh : ∀ e c', (h e c').2.toBool = false) (e : (tryCatch x h c).2 = .ok a) : tryCatch x h c = x c := by
  rw [tryCatch_apply] at e ⊢
  generalize x c = r at e ⊢
  obtain ⟨c', e' | a'⟩ := r
  · have := hh e' c'
    rw [e] at this
    cases this
  · rfl

theorem listClustersWithLabels_store (ns : String) (selector : LabelSelector) (c : Ctx) :
    (listClustersWithLabels ns selector c).1.store = c.store := by
  cases hsel : labelSelectorAsSelector selector <;>
    simp [listClustersWithLabels, hsel, Except.mapError, Pass.bind_apply, listClusters_fst]

theorem listReleases_value {c : Ctx} {ns : String} {want : Labels} {rl : List HelmReleaseProxy}
    (e : (listReleases ns want c).2 = .ok rl) : rl = c.store.listReleases ns want := by
  rcases storeCall_cases .list c with h | h <;> simp_all [listReleases, Pass.bind_apply]

theorem listClustersWithLabels_value {c : Ctx} {ns : String} {selector : LabelSelector} {cl : List Cluster}
    (e : (listClustersWithLabels ns selector c).2 = .ok cl) :
    ∃ sel, labelSelectorAsSelector selector = .ok sel ∧ cl = c.store.listClusters ns sel := by
  cases hsel : labelSelectorAsSelector selector with
  | error _ => simp [listClustersWithLabels, hsel, Except.mapError, Pass.bind_apply] at e
  | ok sel =>
    rcases storeCall_cases .list c with h | h <;>
      simp_all [listClustersWithLabels, Except.mapError, Pass.bind_apply, listClusters]

theorem advances_reconcileFetched : reconcileFetched.Advances fun _ => True := by
  refine quiet_getProxy.bind_advances (Q := fun p c => c.store.proxy.map HelmChartProxy.frame = some p.frame)
    (fun c k p _ h e => ?_) fun p => ?_
  · cases e; exact h.frame
  refine ((quiet_ofExcept _).bind fun sel => quiet_listClusters _ sel).tryCatch
    (fun _ => (quiet_modifyConditions _).bind fun _ => quiet_throw _) |>.bind_advances
    (Q := fun cl c => c.store.proxy.map HelmChartProxy.frame = some p.frame ∧ c.store.selected = cl)
    (fun c k cl hp h e => ?_) fun cl => ?_
  · have caught := Pass.tryCatch_of_ok (fun _ _ => by rfl) e
    rw [caught] at e ⊢
    obtain ⟨sel, hsel, rfl⟩ := listClustersWithLabels_value e
    dsimp only at hp ⊢
    rw [listClustersWithLabels_store]
    exact ⟨hp, Store.selected_of_frame hp hsel⟩
  refine (quiet_modifyProxy fun q => q.frame_modifyStatus _).bind_store
    (S := fun s => s.proxy.map HelmChartProxy.frame = some p.frame ∧ s.selected = cl)
    (fun keeps ⟨hp, hsel⟩ => ⟨keeps.proxy.trans hp, keeps.selected.trans hsel⟩) fun _ => ?_
  refine (quiet_listReleases _ _).bind_advances
    (Q := fun rl c => c.store.selected = cl ∧ c.store.releases = rl ∧ p.deletionTimestamp = false)
    (fun c k rl ⟨hp, hsel⟩ h e => ?_) fun rl => ?_
  · have keeps := (quiet_listReleases p.namespace (ownerLabels p) c h.inv.store_live).1
    obtain ⟨q, hq, live⟩ := h.inv.live
    have same : q.frame = p.frame := by simpa [hq] using hp
    simp only [HelmChartProxy.frame, Prod.mk.injEq] at same
    refine ⟨keeps.selected.trans hsel, keeps.releases.trans ?_, same.2.2.1 ▸ live⟩
    rw [listReleases_value e, h.inv.listReleases_eq hp]
  rintro c k ⟨hsel, hrel, hdel⟩ h happly
  simp only [hdel, Bool.false_eq_true, if_false]
  exact advances_reconcileLive cl rl c k ⟨hsel, hrel⟩ h happly

/-- A pass over a rollout in progress whose writes of reconcileForCluster succeed keeps it in progress,
    with the selected clusters that have a release the first `k'` in rollout order for some `k' ≥ k`,
    whatever else fails. --/
theorem Store.pass_advances {env : Env} (inv : RolloutInv s k) (happly : env.faults.Succeeds .apply) :
    ∃ k', k ≤ k' ∧ RolloutInv (s.pass env).1.store k' ∧ (s.pass env).1.store.selected = s.selected := by
  obtain ⟨q, hq, -⟩ := inv.live
  unfold Store.pass
  rcases storeCall_cases .get (Ctx.init s env) with h | h
  · have fetched : getHelmChartProxy (Ctx.init s env) =
        ((Ctx.init s env).setFaults (env.faults.next .get).2, .ok (some q)) := by
      simp only [getHelmChartProxy, Pass.bind_apply, h]
      simp [Ctx.init, hq]
    rw [reconcile_fetched fetched]
    dsimp only
    have rolling : (((Ctx.init s env).setFaults (env.faults.next .get).2).modifyProxy fun _ => q).Rolling k :=
      ⟨inv, by simp [Ctx.init, hq]⟩
    obtain ⟨k', le, inv', sel⟩ := advances_reconcileFetched _ k trivial rolling
      (Faults.succeeds_apply (env.faults.next_apply (by decide)) happly)
    have keeps := (quiet_patchHelmChartProxy _ inv'.store_live).1
    exact ⟨k', le, inv'.keeps keeps, keeps.selected.trans sel⟩
  · simp only [reconcile, getHelmChartProxy, Pass.bind_apply, h]
    exact ⟨k, le_rfl, inv, rfl⟩

/-! ### The other events of a run -/

/-- A spec edit that keeps the selector writes nothing the invariant reads. --/
theorem Store.editSpec_keeps {spec : HelmChartProxySpec}
    (hsel : ∀ p ∈ s.proxy, spec.clusterSelector = p.spec.clusterSelector) : s.Keeps (s.editSpec spec) := by
  unfold Store.editSpec
  split
  · exact .refl s
  · rename_i p hp
    split
    · exact .refl s
    · refine ⟨rfl, rfl, ?_⟩
      have kept := hsel p hp
      cases p
      simp_all [HelmChartProxy.editSpec, HelmChartProxy.frame]

/-- What the invariant reads of a release: its namespace, labels, deletion mark and cluster. --/
def HelmReleaseProxy.shape (h : HelmReleaseProxy) : String × Labels × Bool × String :=
  (h.namespace, h.labels, h.deletionTimestamp, h.clusterKey)

/-- Writes to the releases that keep what the invariant reads of each keep the invariant. --/
theorem RolloutInv.map_releases (inv : RolloutInv s k) {g : HelmReleaseProxy → HelmReleaseProxy}
    (hg : ∀ h, (g h).shape = h.shape) : RolloutInv (s.setReleases (s.releases.map g)) k := by
  have same : (s.setReleases (s.releases.map g)).selected = s.selected := Store.selected_congr rfl rfl
  have shape : ∀ h, (g h).namespace = h.namespace ∧ (g h).labels = h.labels ∧
      (g h).deletionTimestamp = h.deletionTimestamp ∧ (g h).clusterKey = h.clusterKey := fun h => by
    simpa [HelmReleaseProxy.shape] using hg h
  refine ⟨inv.live, ?_, ?_, ?_⟩
  · simp only [Store.setReleases_proxy, Store.setReleases_releases, List.mem_map]
    rintro p hp _ ⟨h, mem, rfl⟩
    obtain ⟨ns, labels, deleted⟩ := inv.owned p hp h mem
    obtain ⟨ns', labels', deleted', -⟩ := shape h
    exact ⟨ns'.trans ns, labels' ▸ labels, deleted'.trans deleted⟩
  · simp only [same, Store.setReleases_releases, List.mem_map]
    rintro _ ⟨h, mem, rfl⟩
    rw [(shape h).2.2.2]
    exact inv.targets h mem
  · intro x hx
    rw [same] at hx ⊢
    rw [← inv.released x hx]
    simp only [Store.HasRelease, Store.setReleases_releases, List.mem_map, exists_exists_and_eq_and, (shape _).2.2.2]

/-- A report of the HelmReleaseProxy controller: no release of a rollout in progress is being
    deleted, so none goes, and only statuses and finalizers change. --/
theorem RolloutInv.updateRelease (inv : RolloutInv s k) (key : ObjectKey) (status : HelmReleaseProxyStatus)
    (fs : List String) : RolloutInv (s.updateRelease key status fs) k := by
  obtain ⟨p, hp, -⟩ := inv.live
  have written : s.updateRelease key status fs =
      s.setReleases (s.releases.map fun h => if h.key = key then h.setStatus status fs else h) := by
    unfold Store.updateRelease
    congr 1
    refine List.filterMap_eq_map_iff_forall_eq_some.mpr fun h mem => ?_
    simp only [(inv.owned p hp h mem).2.2, Bool.false_and, Bool.false_eq_true, if_false]
    split <;> rfl
  rw [written]
  refine inv.map_releases fun h => ?_
  dsimp only
  split
  · cases h; rfl
  · rfl

/-! ### Rollout runs -/

/-- The events of a rollout run in a store: passes whose writes of reconcileForCluster succeed, while
    any other call may fail, status patches included; reports of the HelmReleaseProxy controller; and
    spec edits that keep the selector. The clusters stay, and the HelmChartProxy is not deleted. --/
def Event.InRollout (s : Store) : Event → Prop
  | .reconcile env => env.faults.Succeeds .apply
  | .editSpec spec => ∀ p ∈ s.proxy, spec.clusterSelector = p.spec.clusterSelector
  | .updateRelease _ _ _ => True
  | .setClusters _ => False
  | .deleteProxy => False

/-- The stores a rollout run reaches from a HelmChartProxy just created. --/
inductive RolloutReachable : Store → Prop
  | init {s : Store} : Initial s → RolloutReachable s
  | step {s : Store} (e : Event) : e.InRollout s → RolloutReachable s → RolloutReachable (s.step e)

theorem RolloutInv.initial (h : Initial s) : RolloutInv s 0 := by
  obtain ⟨none, p, hp, -, live, -⟩ := h
  refine ⟨⟨p, hp, live⟩, ?_, ?_, ?_⟩ <;> simp [none, Store.HasRelease]

/-- Every event of a rollout run keeps the selection and the rollout in progress, and moves the end
    of the released clusters only forward. --/
theorem RolloutInv.step {e : Event} (inv : RolloutInv s k) (he : e.InRollout s) :
    ∃ k', k ≤ k' ∧ RolloutInv (s.step e) k' ∧ (s.step e).selected = s.selected := by
  cases e with
  | reconcile env => exact Store.pass_advances inv he
  | editSpec spec =>
    have keeps := Store.editSpec_keeps he
    exact ⟨k, le_rfl, inv.keeps keeps, keeps.selected⟩
  | updateRelease key status fs => exact ⟨k, le_rfl, inv.updateRelease key status fs, Store.selected_congr rfl rfl⟩
  | setClusters _ => exact he.elim
  | deleteProxy => exact he.elim

theorem RolloutReachable.inv (h : RolloutReachable s) : ∃ k, RolloutInv s k := by
  induction h with
  | init fresh => exact ⟨0, .initial fresh⟩
  | step e he _ ih =>
    obtain ⟨k, inv⟩ := ih
    obtain ⟨k', -, inv', -⟩ := inv.step he
    exact ⟨k', inv'⟩

/-- Along a rollout run the selected clusters that have a HelmReleaseProxy are the first ones in
    namespaced-name order, and every event keeps the selection and extends them, in that order,
    without skipping a cluster. --/
theorem rolloutRun_released_extends {e : Event} (hs : RolloutReachable s) (he : e.InRollout s) :
    (s.step e).selected = s.selected ∧
      ∃ k k', k ≤ k' ∧
        (∀ x ∈ s.selected, s.HasRelease x ↔ x ∈ (sortClusters s.selected).take k) ∧
        ∀ x ∈ s.selected, (s.step e).HasRelease x ↔ x ∈ (sortClusters s.selected).take k' := by
  obtain ⟨k, inv⟩ := hs.inv
  obtain ⟨k', le, inv', sel⟩ := inv.step he
  refine ⟨sel, k, k', le, inv.released, fun x hx => ?_⟩
  rw [← sel] at hx ⊢
  exact inv'.released x hx

/-- The HelmChartProxy `nginx` just created, over clusters a and b. --/
def freshFleet : Store := fleetStore ⟨[prodCluster "a", prodCluster "b"], by decide⟩ (some (installRollout 1 1))

theorem rolloutRun_released_extends_fresh :
    (freshFleet.step (.reconcile {})).selected = freshFleet.selected ∧
      ∃ k k', k ≤ k' ∧
        (∀ x ∈ freshFleet.selected, freshFleet.HasRelease x ↔ x ∈ (sortClusters freshFleet.selected).take k) ∧
        ∀ x ∈ freshFleet.selected,
          (freshFleet.step (.reconcile {})).HasRelease x ↔ x ∈ (sortClusters freshFleet.selected).take k' :=
  rolloutRun_released_extends (.init ⟨rfl, _, rfl, rfl, rfl, rfl, rfl⟩) (Faults.clear_empty .apply)

end HelmAddon
