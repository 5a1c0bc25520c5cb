import HelmAddon.Theorems.RolloutProgress

/-! The rollout status never claims more than was written. Along a run of a HelmChartProxy whose spec has
    rollout options for both phases (`HelmChartProxySpec.Staged`), through passes whose writes of
    reconcileForCluster succeed while any other call may fail, reports of the HelmReleaseProxy controller
    and spec edits that keep the spec staged, Count is never negative, the first Count selected clusters
    in rollout order have a HelmReleaseProxy, and HelmReleaseProxiesRolloutCompleted is True only once
    every selected cluster has one (`stagedRun_count_sound`).

    The invariant is `Store.Sound`: the rollout invariant of `RolloutRun` at some `k`, and a stored
    status whose Count is at most the number of the first `k` clusters in rollout order and equals the
    number of selected clusters while HelmReleaseProxiesRolloutCompleted is True
    (`HelmChartProxy.CountSound`). Within a pass `Ctx.Sound` asks the same of the in-memory object too.
    Every step of a pass but rolloutReconcile keeps Count and HelmReleaseProxiesRolloutCompleted in
    memory and writes at most those into the stored object (`Pass.Calm`); rolloutReconcile has one lemma
    per branch that writes them: the Completed check, the first batch of the Unknown branch, and the
    batch of the True branch (`rolloutReconcile_sound`). The staged spec is needed: without rollout
    options for the active phase, reconcileWithoutRollout marks HelmReleaseProxiesRolloutCompleted True
    and leaves Count as it is. -/

namespace HelmAddon

open Pass

/-! ### Sound rollout status -/

/-- A rollout with options for both phases: reconcileNormal then always takes rolloutReconcile. --/
def HelmChartProxySpec.Staged (spec : HelmChartProxySpec) : Prop :=
  ∃ r, spec.rollout = some r ∧ r.install.isSome ∧ r.upgrade.isSome

/-- What the soundness of a rollout status reads: Count and HelmReleaseProxiesRolloutCompleted. --/
def HelmChartProxy.rolloutSig (q : HelmChartProxy) : Int × Option Condition :=
  (q.status.rolloutCount, q.status.conditions.get .helmReleaseProxiesRolloutCompleted)

/-- The rollout status of `q` against `r` released clusters of `n` selected: Count is between zero and
    `r`, and HelmReleaseProxiesRolloutCompleted is True only with Count at `n`. --/
structure HelmChartProxy.CountSound (n r : Nat) (q : HelmChartProxy) : Prop where
  nonneg : 0 ≤ q.status.rolloutCount
  le : q.status.rolloutCount ≤ r
  completed : q.status.conditions.isTrue .helmReleaseProxiesRolloutCompleted = true → q.status.rolloutCount = n

namespace HelmChartProxy.CountSound

variable {n r r' : Nat} {q q' : HelmChartProxy}

theorem of_sig (h : q.CountSound n r) (e : q'.rolloutSig = q.rolloutSig) : q'.CountSound n r := by
  simp only [rolloutSig, Prod.mk.injEq] at e
  exact ⟨e.1 ▸ h.nonneg, e.1 ▸ h.le, fun hc => e.1 ▸ h.completed (by simpa [Conditions.isTrue, e.2] using hc)⟩

theorem mono (h : q.CountSound n r) (hr : r ≤ r') : q.CountSound n r' :=
  ⟨h.nonneg, h.le.trans (by exact_mod_cast hr), h.completed⟩

end HelmChartProxy.CountSound

/-- The number of selected clusters among the first `k` in rollout order. --/
def Store.released (s : Store) (k : Nat) : Nat := ((sortClusters s.selected).take k).length

theorem Store.released_congr {s s' : Store} (h : s'.selected = s.selected) (k : Nat) : s'.released k = s.released k := by
  simp [Store.released, h]

theorem Store.released_mono (s : Store) {k k' : Nat} (h : k ≤ k') : s.released k ≤ s.released k' := by
  simp only [Store.released, List.length_take]
  omega

/-- A context of a pass over a rollout in progress at `k` with a staged spec, fewer than 2^63 selected
    clusters (so that Go's int sums of Count never wrap) and a sound rollout status, in memory and in
    the store. --/
structure Ctx.Sound (c : Ctx) (k : Nat) extends Ctx.Rolling c k : Prop where
  staged : c.proxy.spec.Staged
  small : c.store.selected.length < 9223372036854775808
  memory : c.proxy.CountSound c.store.selected.length (c.store.released k)
  stored : ∀ q ∈ c.store.proxy, q.CountSound c.store.selected.length (c.store.released k)

/-! ### Calm steps -/

/-- A quiet step that keeps the spec and what soundness reads of the in-memory object, and writes into
    the stored object at most what soundness reads of the in-memory one. --/
def Pass.Calm {α : Type} (x : Pass α) : Prop :=
  x.Quiet ∧ ∀ c : Ctx, (x c).1.proxy.spec = c.proxy.spec ∧ (x c).1.proxy.rolloutSig = c.proxy.rolloutSig ∧
    ∀ q' ∈ (x c).1.store.proxy, (∃ q ∈ c.store.proxy, q'.rolloutSig = q.rolloutSig) ∨ q'.rolloutSig = c.proxy.rolloutSig

namespace Pass

variable {α β : Type} {x : Pass α} {f : α → Pass β}

theorem calm_of_eq (hq : x.Quiet) (h : ∀ c, (x c).1.proxy = c.proxy ∧ (x c).1.store = c.store) : x.Calm :=
  ⟨hq, fun c => ⟨by rw [(h c).1], by rw [(h c).1], fun q' mem => .inl ⟨q', (h c).2 ▸ mem, rfl⟩⟩⟩

theorem calm_pure (a : α) : (pure a : Pass α).Calm := calm_of_eq (quiet_pure a) fun _ => ⟨rfl, rfl⟩

theorem calm_throw (e : Error) : (throw e : Pass α).Calm := calm_of_eq (quiet_throw e) fun _ => ⟨rfl, rfl⟩

theorem calm_ofExcept (r : Except Error α) : (ofExcept r).Calm :=
  calm_of_eq (quiet_ofExcept r) fun _ => by cases r <;> exact ⟨rfl, rfl⟩

/-- The stored object after two steps, each calm. --/
theorem Calm.stored_trans {c c' c'' : Ctx} (sig : c'.proxy.rolloutSig = c.proxy.rolloutSig)
    (h : ∀ q' ∈ c'.store.proxy, (∃ q ∈ c.store.proxy, q'.rolloutSig = q.rolloutSig) ∨ q'.rolloutSig = c.proxy.rolloutSig)
    (h' : ∀ q'' ∈ c''.store.proxy, (∃ q' ∈ c'.store.proxy, q''.rolloutSig = q'.rolloutSig) ∨
      q''.rolloutSig = c'.proxy.rolloutSig) :
    ∀ q'' ∈ c''.store.proxy, (∃ q ∈ c.store.proxy, q''.rolloutSig = q.rolloutSig) ∨ q''.rolloutSig = c.proxy.rolloutSig :=
  fun q'' mem => by
    rcases h' q'' mem with ⟨q', mem', e'⟩ | e'
    · rcases h q' mem' with ⟨q, mem, e⟩ | e
      · exact .inl ⟨q, mem, e'.trans e⟩
      · exact .inr (e'.trans e)
    · exact .inr (e'.trans sig)

theorem Calm.bind (hx : x.Calm) (hf : ∀ a, (f a).Calm) : (x >>= f).Calm := by
  refine ⟨hx.1.bind fun a => (hf a).1, fun c => ?_⟩
  obtain ⟨spec, sig, stored⟩ := hx.2 c
  rw [bind_apply]
  generalize x c = r at spec sig stored ⊢
  obtain ⟨c', e | a⟩ := r
  · exact ⟨spec, sig, stored⟩
  · obtain ⟨spec', sig', stored'⟩ := (hf a).2 c'
    exact ⟨spec'.trans spec, sig'.trans sig, Calm.stored_trans sig stored stored'⟩

theorem Calm.tryCatch {h : Error → Pass α} (hx : x.Calm) (hh : ∀ e, (h e).Calm) : (tryCatch x h : Pass α).Calm := by
  refine ⟨hx.1.tryCatch fun e => (hh e).1, fun c => ?_⟩
  obtain ⟨spec, sig, stored⟩ := hx.2 c
  rw [tryCatch_apply]
  generalize x c = r at spec sig stored ⊢
  obtain ⟨c', e | a⟩ := r
  · obtain ⟨spec', sig', stored'⟩ := (hh e).2 c'
    exact ⟨spec'.trans spec, sig'.trans sig, Calm.stored_trans sig stored stored'⟩
  · exact ⟨spec, sig, stored⟩

theorem Calm.ite {b : Prop} [Decidable b] {y : Pass α} (hx : x.Calm) (hy : y.Calm) : (if b then x else y).Calm := by
  split <;> assumption

end Pass

theorem calm_getProxy : getProxy.Calm := calm_of_eq quiet_getProxy fun _ => ⟨rfl, rfl⟩

theorem calm_modifyProxy {f : HelmChartProxy → HelmChartProxy}
    (hf : ∀ p, (f p).frame = p.frame ∧ (f p).spec = p.spec ∧ (f p).rolloutSig = p.rolloutSig) :
    (modifyProxy f).Calm :=
  ⟨quiet_modifyProxy fun p => (hf p).1, fun c => ⟨(hf c.proxy).2.1, (hf c.proxy).2.2, fun q' mem => .inl ⟨q', mem, rfl⟩⟩⟩

/-- A change of conditions other than HelmReleaseProxiesRolloutCompleted. --/
theorem calm_modifyConditions {f : Conditions → Conditions}
    (hf : ∀ cs, (f cs).get .helmReleaseProxiesRolloutCompleted = cs.get .helmReleaseProxiesRolloutCompleted) :
    (modifyConditions f).Calm :=
  calm_modifyProxy fun p => ⟨p.frame_modifyStatus _, by simp,
    by simp [HelmChartProxy.rolloutSig, hf, HelmChartProxyStatus.rolloutCount]⟩

theorem calm_listClusters (ns : String) (sel : Selector) : (listClusters ns sel).Calm :=
  calm_of_eq (quiet_listClusters ns sel) fun c => by rw [listClusters_fst]; exact ⟨rfl, rfl⟩

theorem calm_listReleases (ns : String) (want : Labels) : (listReleases ns want).Calm :=
  calm_of_eq (quiet_listReleases ns want) fun c => by rw [listReleases_fst]; exact ⟨rfl, rfl⟩

/-- A patch writes the in-memory finalizers and status over the stored object. --/
theorem Store.patchProxy_written {s t : Store} {p : HelmChartProxy} (e : s.patchProxy p = some t) :
    ∀ q' ∈ t.proxy, ∃ q ∈ s.proxy, q' = (q.setFinalizers p.finalizers).modifyStatus fun _ => p.status := by
  unfold Store.patchProxy at e
  split at e
  · cases e
  · rename_i q hq
    cases e
    intro q' mem
    simp only [Store.setProxy_proxy] at mem
    split at mem
    · cases mem
    · cases mem
      exact ⟨q, hq, rfl⟩

theorem calm_patchProxy : patchProxy.Calm := by
  refine ⟨quiet_patchProxy, fun c => ?_⟩
  rcases storeCall_cases .patch c with h | h
  · cases hp : c.store.patchProxy c.proxy with
    | none =>
      simp only [patchProxy, Pass.bind_apply, h, getProxy_apply, getStore_apply, Ctx.setFaults_proxy,
        Ctx.setFaults_store, hp, throw_apply]
      exact ⟨by trivial, by trivial, fun q' mem => .inl ⟨q', mem, rfl⟩⟩
    | some s' =>
      simp only [patchProxy, Pass.bind_apply, h, getProxy_apply, getStore_apply, Ctx.setFaults_proxy,
        Ctx.setFaults_store, hp, setStore_apply, Ctx.setStore_store, Ctx.setStore_proxy]
      refine ⟨by trivial, by trivial, fun q' mem => .inr ?_⟩
      obtain ⟨q, -, rfl⟩ := Store.patchProxy_written hp q' mem
      simp [HelmChartProxy.rolloutSig]
  · simp only [patchProxy, Pass.bind_apply, h]
    exact ⟨rfl, rfl, fun q' mem => .inl ⟨q', mem, rfl⟩⟩

/-- The summary writes Ready only. --/
theorem summarized_rolloutSig (p : HelmChartProxy) : p.summarized.rolloutSig = p.rolloutSig := by
  simp [HelmChartProxy.rolloutSig, HelmChartProxy.summarized_get, HelmChartProxyStatus.rolloutCount]

theorem calm_patchHelmChartProxy : patchHelmChartProxy.Calm := by
  refine (calm_modifyConditions fun cs => ?_).bind fun _ => (calm_modifyProxy fun p => ⟨p.frame_observeGeneration, ?_, ?_⟩).bind
    fun _ => calm_patchProxy
  · simp [Conditions.setSummary, Conditions.setAggregate]
    split <;> simp
  · cases p; rfl
  · cases p; simp [HelmChartProxy.rolloutSig, HelmChartProxy.observeGeneration, HelmChartProxyStatus.rolloutCount]

theorem calm_aggregateHelmReleaseProxyReadyCondition : aggregateHelmReleaseProxyReadyCondition.Calm := by
  refine calm_getProxy.bind fun p => (calm_listReleases _ _).bind fun rl => ?_
  dsimp only
  split
  · exact (calm_modifyConditions fun cs => by simp [Conditions.markTrue]).bind fun _ => calm_pure _
  · split
    · exact calm_modifyConditions fun cs => by simp [Conditions.markFalse]
    · exact calm_modifyConditions fun cs => by unfold Conditions.setAggregate; split <;> simp

/-- A calm step keeps a context sound. --/
theorem Pass.Calm.sound {α : Type} {x : Pass α} (hx : x.Calm) {c : Ctx} {k : Nat} (h : c.Sound k) : (x c).1.Sound k := by
  obtain ⟨keeps, -, -⟩ := hx.1 c h.inv.store_live
  obtain ⟨spec, sig, stored⟩ := hx.2 c
  have sel := keeps.selected
  refine ⟨hx.1.rolling h.toRolling, spec ▸ h.staged, sel ▸ h.small, ?_, fun q' mem => ?_⟩
  · rw [sel, Store.released_congr sel]
    exact h.memory.of_sig sig
  · rw [sel, Store.released_congr sel]
    rcases stored q' mem with ⟨q, mem₀, e⟩ | e
    · exact (h.stored q mem₀).of_sig e
    · exact h.memory.of_sig e

/-! ### Steps that keep the rollout status sound -/

/-- A step that, from a sound context over a rollout in progress that satisfies `P` and whose writes of
    reconcileForCluster succeed, keeps the selection and leaves a sound context. --/
def Pass.KeepsSound {α : Type} (P : Ctx → Prop) (x : Pass α) : Prop :=
  ∀ c k, P c → c.Sound k → c.faults.Succeeds .apply →
    ∃ k', (x c).1.Sound k' ∧ (x c).1.store.selected = c.store.selected

namespace Pass

variable {α β : Type} {x : Pass α} {f : α → Pass β} {P : Ctx → Prop}

/-- A calm step, then steps that keep soundness under what the step returns and leaves. --/
theorem Calm.bind_keepsSound {Q : α → Ctx → Prop} (hx : x.Calm)
    (hv : ∀ c k a, P c → c.Sound k → (x c).2 = .ok a → Q a (x c).1) (hf : ∀ a, (f a).KeepsSound (Q a)) :
    (x >>= f).KeepsSound P := fun c k hP h happly => by
  have sound := hx.sound h
  obtain ⟨keeps, -, faults⟩ := hx.1 c h.inv.store_live
  have value : ∀ a, (x c).2 = .ok a → Q a (x c).1 := fun a => hv c k a hP h
  rw [bind_apply]
  generalize x c = r at sound keeps faults value ⊢
  obtain ⟨c', e | a⟩ := r
  · exact ⟨k, sound, keeps.selected⟩
  · obtain ⟨k', sound', sel⟩ := hf a c' k (value a rfl) sound (Faults.succeeds_apply faults happly)
    exact ⟨k', sound', sel.trans keeps.selected⟩

/-- A calm step, then steps that need a condition of the store that calm steps keep. --/
theorem Calm.bind_store {S : Store → Prop} (hx : x.Calm) (hS : ∀ {s s'}, s.Keeps s' → S s → S s')
    (hf : ∀ a, (f a).KeepsSound fun c => S c.store) : (x >>= f).KeepsSound fun c => S c.store :=
  hx.bind_keepsSound (fun c _ _ hP h _ => hS (hx.1 c h.inv.store_live).1 hP) hf

/-- A step that keeps soundness, then calm ones. --/
theorem KeepsSound.bind_calm (hx : x.KeepsSound P) (hf : ∀ a, (f a).Calm) : (x >>= f).KeepsSound P :=
  fun c k hP h happly => by
    obtain ⟨k', sound, sel⟩ := hx c k hP h happly
    rw [bind_apply]
    generalize x c = r at sound sel ⊢
    obtain ⟨c', e | a⟩ := r
    · exact ⟨k', sound, sel⟩
    · exact ⟨k', (hf a).sound sound, ((hf a).1 c' sound.inv.store_live).1.selected.trans sel⟩

end Pass

/-! ### rolloutReconcile -/

variable {c : Ctx} {k : Nat}

/-- A change of the in-memory status alone keeps a context sound, when the new status is sound. --/
theorem Ctx.Sound.modifyStatus (h : c.Sound k) {f : HelmChartProxyStatus → HelmChartProxyStatus}
    (hf : (c.proxy.modifyStatus f).CountSound c.store.selected.length (c.store.released k)) :
    (c.modifyProxy (·.modifyStatus f)).Sound k :=
  ⟨⟨h.inv, by simpa using h.frame⟩, by simpa using h.staged, h.small, hf, h.stored⟩

/-- A change of conditions keeps a context sound, when it marks HelmReleaseProxiesRolloutCompleted True
    only with Count at the number of selected clusters. --/
theorem Ctx.Sound.modifyConditions (h : c.Sound k) {f : Conditions → Conditions}
    (hf : (f c.proxy.status.conditions).isTrue .helmReleaseProxiesRolloutCompleted = true →
      c.proxy.status.rolloutCount = c.store.selected.length) :
    (modifyConditions f c).1.Sound k :=
  h.modifyStatus ⟨h.memory.nonneg, h.memory.le, hf⟩

/-- Writes that take the first `k` clusters in rollout order to the first `k + m` keep a context
    sound, when the in-memory object keeps its frame and spec and its status is sound against the first
    `k + m`. --/
theorem Ctx.Sound.extend {c' : Ctx} {m : Nat} {L : List Cluster} (h : c.Sound k)
    (hstore : c'.store = L.foldl (·.applyRelease c.proxy ·) c.store)
    (hL : ∀ x ∈ L, x ∈ (sortClusters c.store.selected).take (k + m))
    (hcover : ∀ x ∈ ((sortClusters c.store.selected).drop k).take m, x ∈ L)
    (hframe : c'.proxy.frame = c.proxy.frame) (hspec : c'.proxy.spec = c.proxy.spec)
    (hmem : c'.proxy.CountSound c.store.selected.length (c.store.released (k + m))) : c'.Sound (k + m) := by
  obtain ⟨q, hq, -⟩ := h.inv.live
  have same : q.frame = c.proxy.frame := by simpa [hq] using h.frame
  simp only [HelmChartProxy.frame, Prod.mk.injEq] at same
  have sel : c'.store.selected = c.store.selected := hstore ▸ Store.foldl_applyRelease_selected _ L
  refine ⟨⟨hstore ▸ h.inv.applied hq same.1.symm same.2.1.symm hL hcover,
    by rw [hstore, Store.foldl_applyRelease_proxy, h.frame, hframe]⟩, hspec ▸ h.staged, sel ▸ h.small, ?_,
    fun q' mem => ?_⟩
  · rwa [sel, Store.released_congr sel]
  · rw [hstore, Store.foldl_applyRelease_proxy] at mem
    rw [sel, Store.released_congr sel]
    exact (h.stored q' mem).mono (c.store.released_mono (Nat.le_add_right k m))

/-- A rollout status written while HelmReleaseProxiesRolloutCompleted is not True is sound when its Count
    is. --/
theorem HelmChartProxy.countSound_setRollout {p : HelmChartProxy} {n r : Nat} {count : Int} {stepSize : Option Int}
    (hcomp : p.status.conditions.isTrue .helmReleaseProxiesRolloutCompleted = false) (h0 : 0 ≤ count)
    (hr : count ≤ r) : (p.modifyStatus (·.setRollout ⟨some count, stepSize⟩)).CountSound n r := by
  obtain ⟨cs, m, ro, og⟩ := p.status
  refine ⟨?_, ?_, fun hc => ?_⟩ <;> simp_all [HelmChartProxyStatus.setRollout, HelmChartProxyStatus.rolloutCount]

theorem Ctx.rollingOut_completed (n : Nat) :
    (c.rollingOut n).proxy.status.conditions.isTrue .helmReleaseProxiesRolloutCompleted = false := by
  simp [Ctx.rollingOut, modifyConditions, Conditions.markFalse, Conditions.isTrue]

section Branches

variable (h : c.Sound k) (happly : c.faults.Succeeds .apply)
  (hcomp : c.proxy.status.conditions.isTrue .helmReleaseProxiesRolloutCompleted = false)
include h happly hcomp

/-- The Unknown branch writes the first batch, and its size as Count, only while no release exists. --/
theorem rolloutWhenUnknown_sound (o : RolloutOptions) :
    ∃ k', (rolloutWhenUnknown c.store.selected c.store.releases o
      ((sortClusters c.store.selected).map (rolloutMetaOf c.store.releases)) c).1.Sound k' := by
  by_cases hne : c.store.releases = []
  · have none : (sortClusters c.store.selected).take k = [] :=
      List.eq_nil_iff_forall_not_mem.mpr fun x mem => by simpa [hne] using h.inv.release_covers x mem
    rw [hne]
    cases hinit : getScaledValueFromIntOrPercent o.stepInit c.store.selected.length true with
    | error e => exact ⟨k, by simpa [rolloutWhenUnknown, hinit, Except.mapError, Pass.bind_apply] using h⟩
    | ok s0 =>
      rw [rolloutWhenUnknown_eq hinit happly]
      refine ⟨k + s0.toNat, h.extend (L := (sortClusters c.store.selected).take s0.toNat)
        (by simp [List.map_take, List.map_map, Function.comp_def, Ctx.foldl_applied_store])
        (fun x mem => List.take_subset_take_left _ (Nat.le_add_left _ _) mem) (fun x mem => ?_) (by simp) (by simp) ?_⟩
      · rcases List.take_eq_nil_iff.mp none with rfl | empty
        · simpa using mem
        · simp [empty] at mem
      · simp only [Ctx.modifyProxy_proxy, Ctx.foldl_applied_proxy]
        refine HelmChartProxy.countSound_setRollout hcomp (by omega) ?_
        simp only [Store.released, List.length_take, List.length_map]
        omega
  · exact ⟨k, by rw [rolloutWhenUnknown_of_ne_nil hne]; exact h⟩

omit happly hcomp in
/-- The False branch writes the released clusters again and leaves Count. --/
theorem reconcileExisting_sound :
    ∃ k', ((((sortClusters c.store.selected).map (rolloutMetaOf c.store.releases)).filter (·.hrpExists)).map
      (·.cluster)).foldl Ctx.applied c |>.Sound k' := by
  obtain ⟨L, m, store, hL, hcover⟩ :=
    reconcileExisting_extends c.store.selected_nodup h.inv.release_targets h.inv.release_covers (c := c)
  exact ⟨k + m, h.extend store hL hcover (by simp) (by simp)
    (by simpa using h.memory.mono (c.store.released_mono (Nat.le_add_right k m)))⟩

/-- The True branch adds to Count the clusters it writes, and walks past the first `k` only when all of
    them are Ready. --/
theorem rolloutWhenTrue_sound (o : RolloutOptions) :
    ∃ k', (rolloutWhenTrue c.store.selected o
      ((sortClusters c.store.selected).map (rolloutMetaOf c.store.releases)) c).1.Sound k' := by
  cases hinc : resolveStep o.stepIncrement c.store.selected.length with
  | error e => exact ⟨k, by simpa [rolloutWhenTrue, hinc, Except.mapError, Pass.bind_apply] using h⟩
  | ok inc =>
  cases hlim : resolveStep o.stepLimit c.store.selected.length with
  | error e => exact ⟨k, by simpa [rolloutWhenTrue, hinc, hlim, Except.mapError, Pass.bind_apply] using h⟩
  | ok lim =>
  cases hini : resolveStep o.stepInit c.store.selected.length with
  | error e => exact ⟨k, by simpa [rolloutWhenTrue, hinc, hlim, hini, Except.mapError, Pass.bind_apply] using h⟩
  | ok ini =>
  have hd := c.store.selected_nodup
  have hrel := h.inv.release_targets
  have hcov := h.inv.release_covers
  have released : ∀ a ∈ ((sortClusters c.store.selected).take k).map (rolloutMetaOf c.store.releases),
      a.hrpExists = true := fun a mem => by
    obtain ⟨x, mem_x, rfl⟩ := List.mem_map.mp mem
    simpa using (any_release_iff hd hrel hcov (List.mem_of_mem_take mem_x)).mpr mem_x
  have fresh : ∀ b ∈ ((sortClusters c.store.selected).drop k).map (rolloutMetaOf c.store.releases),
      b.hrpExists = false := fun b mem => by
    obtain ⟨x, mem_x, rfl⟩ := List.mem_map.mp mem
    simpa using any_release_of_drop hd hrel hcov mem_x
  rw [rolloutWhenTrue_eq hinc hlim hini happly]
  dsimp only
  rw [← List.take_append_drop k (sortClusters c.store.selected), List.map_append,
    takeWhile_settled_filter released fresh]
  have le := h.memory.le
  have nonneg := h.memory.nonneg
  have small := h.small
  split
  · set m := (nextStepSize c.proxy.status.rolloutStepSize inc lim ini).toNat
    refine ⟨k + m, h.extend (L := ((sortClusters c.store.selected).drop k).take m)
      (by simp [List.map_take, List.map_map, Function.comp_def, Ctx.foldl_applied_store])
      (fun x mem => by rw [List.take_add]; exact List.mem_append_right _ mem) (fun x mem => mem) (by simp) (by simp) ?_⟩
    simp only [Ctx.modifyProxy_proxy, Ctx.foldl_applied_proxy]
    simp only [Store.released, List.take_add, List.length_append, List.length_take, List.length_map,
      List.length_drop, sortClusters, List.length_insertionSort] at le ⊢
    rw [wrapInt64_of_lt (by omega) (by omega)]
    exact HelmChartProxy.countSound_setRollout hcomp (by omega) (by omega)
  · simp only [Store.released, List.length_take, sortClusters, List.length_insertionSort] at le
    have nowrap : wrapInt64 c.proxy.status.rolloutCount = c.proxy.status.rolloutCount :=
      wrapInt64_of_lt (by omega) (by omega)
    exact ⟨k, by simpa [nowrap] using h.modifyStatus (HelmChartProxy.countSound_setRollout hcomp nonneg
      (by simpa using h.memory.le))⟩

theorem rolloutByReadiness_sound (o : RolloutOptions) :
    ∃ k', (rolloutByReadiness c.store.selected c.store.releases o
      ((sortClusters c.store.selected).map (rolloutMetaOf c.store.releases)) c).1.Sound k' := by
  cases hu : c.proxy.status.conditions.isUnknown .helmReleaseProxiesReady
  · cases hf : c.proxy.status.conditions.isFalse .helmReleaseProxiesReady
    · rw [rolloutByReadiness_true (Conditions.isTrue_of_not hu hf)]
      exact rolloutWhenTrue_sound h happly hcomp o
    · rw [rolloutByReadiness_false hu hf happly]
      exact reconcileExisting_sound h
  · rw [rolloutByReadiness_unknown hu]
    exact rolloutWhenUnknown_sound h happly hcomp o

end Branches

/-- rolloutReconcile keeps a context sound: its Completed check marks HelmReleaseProxiesRolloutCompleted
    True only with Count at the number of selected clusters, and past it Count grows only with the
    clusters it writes. --/
theorem rolloutReconcile_sound (h : c.Sound k) (happly : c.faults.Succeeds .apply) (iou : InstallOrUpgrade) :
    ∃ k', (rolloutReconcile c.store.selected c.store.releases iou c).1.Sound k' := by
  cases hr : c.proxy.spec.rollout with
  | none => exact ⟨k, by simpa [rolloutReconcile, hr, Pass.bind_apply] using h⟩
  | some r =>
  cases ho : r.options iou with
  | none => exact ⟨k, by simpa [rolloutReconcile, hr, ho, Pass.bind_apply] using h⟩
  | some o =>
  by_cases hn : (c.store.selected.length : Int) = c.proxy.status.rolloutCount
  · rw [rolloutReconcile_completed hr ho hn]
    exact ⟨k, h.modifyConditions fun _ => hn.symm⟩
  have found : c.store.releases.any (isOrphan c.store.selected) = false :=
    List.any_eq_false.mpr fun x mem => ne_true_of_eq_false (not_orphan h.inv.release_targets x mem)
  have h₀ : (c.rollingOut c.store.selected.length).Sound k :=
    h.modifyConditions fun hc => by simp [Conditions.markFalse, Conditions.isTrue] at hc
  rw [rolloutReconcile_eq hr ho hn, rolloutMetaSorted_eq _ c.store.selected_nodup, if_neg (by simp [found])]
  exact rolloutByReadiness_sound h₀ happly (Ctx.rollingOut_completed _) o

/-! ### The stages of a pass -/

/-- With a staged spec and no orphaned release, reconcileNormal is rolloutReconcile of its phase. --/
theorem reconcileNormal_staged {cs : List Cluster} {hs : List HelmReleaseProxy} (hst : c.proxy.spec.Staged)
    (horph : ∀ h ∈ hs, isOrphan cs h = false) : ∃ iou, reconcileNormal cs hs c = rolloutReconcile cs hs iou c := by
  obtain ⟨r, hr, hi, hu⟩ := hst
  have none : hs.filter (isOrphan cs) = [] := List.filter_eq_nil_iff.mpr fun h mem => by simp [horph h mem]
  by_cases hgen : c.proxy.generation = 1
  · refine ⟨.install, ?_⟩
    simp only [reconcileNormal, deleteOrphanedHelmReleaseProxies, none, bind_apply, getProxy_apply]
    split <;> simp [hr, hgen, Option.isSome_iff_ne_none.mp hi, bind_apply]
  · refine ⟨.upgrade, ?_⟩
    simp only [reconcileNormal, deleteOrphanedHelmReleaseProxies, none, bind_apply, getProxy_apply]
    split <;> simp [hr, hgen, Option.isSome_iff_ne_none.mp hu, bind_apply]

theorem keepsSound_reconcileNormal (cl : List Cluster) (rl : List HelmReleaseProxy) :
    (reconcileNormal cl rl).KeepsSound fun c => c.store.selected = cl ∧ c.store.releases = rl := by
  rintro c k ⟨rfl, rfl⟩ h happly
  obtain ⟨iou, e⟩ := reconcileNormal_staged h.staged (not_orphan h.inv.release_targets)
  obtain ⟨k', sound⟩ := rolloutReconcile_sound h happly iou
  obtain ⟨L, m, store, -, -⟩ :=
    rolloutReconcile_extends c.store.selected_nodup h.inv.release_targets h.inv.release_covers iou happly
  rw [e]
  exact ⟨k', sound, store ▸ Store.foldl_applyRelease_selected _ L⟩

theorem keepsSound_reconcileLive (cl : List Cluster) (rl : List HelmReleaseProxy) :
    (reconcileLive cl rl).KeepsSound fun c => c.store.selected = cl ∧ c.store.releases = rl := by
  have listed : ∀ {s s' : Store}, s.Keeps s' → s.selected = cl ∧ s.releases = rl → s'.selected = cl ∧ s'.releases = rl :=
    fun keeps ⟨hsel, hrel⟩ => ⟨keeps.selected.trans hsel, keeps.releases.trans hrel⟩
  have normal := (keepsSound_reconcileNormal cl rl).bind_calm (f := fun res => do
      modifyConditions (·.markTrue .helmReleaseProxySpecsUpToDate)
      aggregateHelmReleaseProxyReadyCondition
      pure res) fun res =>
    (calm_modifyConditions fun cs => by simp [Conditions.markTrue]).bind fun _ =>
      calm_aggregateHelmReleaseProxyReadyCondition.bind fun _ => calm_pure res
  refine calm_getProxy.bind_store listed fun p => ?_
  dsimp only
  split
  · exact (calm_modifyProxy fun p => ⟨p.frame_setFinalizers _, by simp, by simp [HelmChartProxy.rolloutSig]⟩).bind_store
      listed fun _ => calm_patchHelmChartProxy.bind_store listed fun _ => normal
  · exact normal

theorem keepsSound_reconcileFetched : reconcileFetched.KeepsSound fun _ => True := by
  refine calm_getProxy.bind_keepsSound (Q := fun p c => c.store.proxy.map HelmChartProxy.frame = some p.frame)
    (fun c k p _ h e => ?_) fun p => ?_
  · cases e; exact h.frame
  refine ((calm_ofExcept _).bind fun sel => calm_listClusters _ sel).tryCatch
    (fun _ => (calm_modifyConditions fun cs => by simp [Conditions.markFalse]).bind fun _ => calm_throw _)
    |>.bind_keepsSound (Q := fun cl c => c.store.proxy.map HelmChartProxy.frame = some p.frame ∧ c.store.selected = cl)
    (fun c k cl hp h e => ?_) fun cl => ?_
  · have caught := Pass.tryCatch_of_ok (fun _ _ => by rfl) e
    rw [caught] at e ⊢
    obtain ⟨sel, hsel, rfl⟩ := listClustersWithLabels_value e
    dsimp only at hp ⊢
    rw [listClustersWithLabels_store]
    exact ⟨hp, Store.selected_of_frame hp hsel⟩
  refine (calm_modifyProxy fun q => ⟨q.frame_modifyStatus _, by simp, by simp [HelmChartProxy.rolloutSig]⟩).bind_store
    (S := fun s => s.proxy.map HelmChartProxy.frame = some p.frame ∧ s.selected = cl)
    (fun keeps ⟨hp, hsel⟩ => ⟨keeps.proxy.trans hp, keeps.selected.trans hsel⟩) fun _ => ?_
  refine (calm_listReleases _ _).bind_keepsSound
    (Q := fun rl c => c.store.selected = cl ∧ c.store.releases = rl ∧ p.deletionTimestamp = false)
    (fun c k rl ⟨hp, hsel⟩ h e => ?_) fun rl => ?_
  · have keeps := (quiet_listReleases p.namespace (ownerLabels p) c h.inv.store_live).1
    obtain ⟨q, hq, live⟩ := h.inv.live
    have same : q.frame = p.frame := by simpa [hq] using hp
    simp only [HelmChartProxy.frame, Prod.mk.injEq] at same
    refine ⟨keeps.selected.trans hsel, keeps.releases.trans ?_, same.2.2.1 ▸ live⟩
    rw [listReleases_value e, h.inv.listReleases_eq hp]
  rintro c k ⟨hsel, hrel, hdel⟩ h happly
  simp only [hdel, Bool.false_eq_true, if_false]
  exact keepsSound_reconcileLive cl rl c k ⟨hsel, hrel⟩ h happly

/-! ### Runs -/

/-- A store over a rollout in progress at `k` whose HelmChartProxy has a staged spec and a sound rollout
    status. --/
structure Store.Sound (s : Store) (k : Nat) : Prop where
  inv : RolloutInv s k
  small : s.selected.length < 9223372036854775808
  proxy : ∀ q ∈ s.proxy, q.spec.Staged ∧ q.CountSound s.selected.length (s.released k)

/-- A patch keeps the spec of the stored object. --/
theorem Store.patchProxy_staged {s t : Store} {p : HelmChartProxy} (hs : ∀ q ∈ s.proxy, q.spec.Staged)
    (e : s.patchProxy p = some t) : ∀ q' ∈ t.proxy, q'.spec.Staged := fun q' mem => by
  obtain ⟨q, hq, rfl⟩ := Store.patchProxy_written e q' mem
  simpa using hs q hq

/-- A pass over a staged rollout whose writes of reconcileForCluster succeed keeps its status sound,
    whatever else fails. --/
theorem Store.pass_sound {s : Store} {k : Nat} {env : Env} (h : s.Sound k) (happly : env.faults.Succeeds .apply) :
    ∃ k', (s.pass env).1.store.Sound k' ∧ (s.pass env).1.store.selected = s.selected := by
  have staged : ∀ q ∈ (s.pass env).1.store.proxy, q.spec.Staged :=
    Store.pass_keeps (Q := fun t => ∀ q ∈ t.proxy, q.spec.Staged) (fun _ _ h => by simpa only [Store.applyRelease_proxy] using h)
      (fun _ h e => by rw [Store.deleteRelease_eq_some e]; exact h) (fun _ h e => Store.patchProxy_staged h e)
      (fun q hq => (h.proxy q hq).1) env
  obtain ⟨q, hq, -⟩ := h.inv.live
  obtain ⟨hst, count⟩ := h.proxy q hq
  unfold Store.pass at staged ⊢
  rcases storeCall_cases .get (Ctx.init s env) with hc | hc
  · have fetched : getHelmChartProxy (Ctx.init s env) =
        ((Ctx.init s env).setFaults (env.faults.next .get).2, .ok (some q)) := by
      simp only [getHelmChartProxy, Pass.bind_apply, hc]
      simp [Ctx.init, hq]
    rw [reconcile_fetched fetched] at staged ⊢
    dsimp only at staged ⊢
    have sound : (((Ctx.init s env).setFaults (env.faults.next .get).2).modifyProxy fun _ => q).Sound k :=
      ⟨⟨h.inv, by simp [Ctx.init, hq]⟩, hst, h.small, count, fun q' mem => by
        simp only [Ctx.modifyProxy_store, Ctx.setFaults_store, Ctx.init, hq, Option.mem_def, Option.some.injEq] at mem
        exact mem ▸ count⟩
    obtain ⟨k', sound', sel⟩ := keepsSound_reconcileFetched _ k trivial sound
      (Faults.succeeds_apply (env.faults.next_apply (by decide)) happly)
    have patched := calm_patchHelmChartProxy.sound sound'
    have keeps := (quiet_patchHelmChartProxy _ sound'.inv.store_live).1
    exact ⟨k', ⟨patched.inv, patched.small, fun q' mem => ⟨staged q' mem, patched.stored q' mem⟩⟩,
      keeps.selected.trans sel⟩
  · simp only [reconcile, getHelmChartProxy, Pass.bind_apply, hc]
    exact ⟨k, h, rfl⟩

/-- A spec edit that keeps the selector and a staged spec keeps a store sound: it writes no status. --/
theorem Store.Sound.editSpec {s : Store} {k : Nat} {spec : HelmChartProxySpec} (h : s.Sound k)
    (hsel : ∀ p ∈ s.proxy, spec.clusterSelector = p.spec.clusterSelector) (hst : spec.Staged) :
    (s.editSpec spec).Sound k := by
  have keeps := Store.editSpec_keeps hsel
  refine ⟨h.inv.keeps keeps, keeps.selected ▸ h.small, fun q' mem => ?_⟩
  rw [keeps.selected, Store.released_congr keeps.selected]
  unfold Store.editSpec at mem
  split at mem
  · exact h.proxy q' mem
  · rename_i p hp
    split at mem
    · exact h.proxy q' mem
    · simp only [Store.setProxy_proxy, Option.mem_def, Option.some.injEq] at mem
      subst mem
      obtain ⟨-, count⟩ := h.proxy p hp
      cases p
      exact ⟨hst, count.of_sig rfl⟩

/-- The events of a staged rollout: spec edits keep the spec staged. --/
def Event.KeepsStaged : Event → Prop
  | .editSpec spec => spec.Staged
  | _ => True

/-- Every event of a staged rollout run keeps the selection and the rollout status sound. --/
theorem Store.Sound.step {s : Store} {k : Nat} {e : Event} (h : s.Sound k) (he : e.InRollout s) (hst : e.KeepsStaged) :
    ∃ k', (s.step e).Sound k' ∧ (s.step e).selected = s.selected := by
  cases e with
  | reconcile env => exact Store.pass_sound h he
  | editSpec spec => exact ⟨k, h.editSpec he hst, (Store.editSpec_keeps he).selected⟩
  | updateRelease key status fs =>
    have sel : (s.step (.updateRelease key status fs)).selected = s.selected := Store.selected_congr rfl rfl
    refine ⟨k, ⟨h.inv.updateRelease key status fs, sel ▸ h.small, fun q mem => ?_⟩, sel⟩
    rw [sel, Store.released_congr sel]
    exact h.proxy q mem
  | setClusters _ => exact he.elim
  | deleteProxy => exact he.elim

/-- The stores a run reaches from a HelmChartProxy just created with a staged spec over fewer than 2^63
    selected clusters, through the events of a rollout run that keep the spec staged. --/
inductive StagedReachable : Store → Prop
  | init {s : Store} : Initial s → (∀ p ∈ s.proxy, p.spec.Staged) → s.selected.length < 9223372036854775808 →
      StagedReachable s
  | step {s : Store} (e : Event) : e.InRollout s → e.KeepsStaged → StagedReachable s → StagedReachable (s.step e)

theorem Store.Sound.initial {s : Store} (h : Initial s) (hst : ∀ p ∈ s.proxy, p.spec.Staged)
    (hsmall : s.selected.length < 9223372036854775808) : s.Sound 0 := by
  refine ⟨.initial h, hsmall, fun q mem => ⟨hst q mem, ?_⟩⟩
  obtain ⟨-, p, hp, -, -, -, status⟩ := h
  rw [hp, Option.mem_def, Option.some.injEq] at mem
  subst mem
  exact ⟨by simp [status, HelmChartProxyStatus.rolloutCount], by simp [status, HelmChartProxyStatus.rolloutCount, Store.released],
    by simp [status, Conditions.isTrue, Conditions.get]⟩

theorem StagedReachable.sound {s : Store} (h : StagedReachable s) : ∃ k, s.Sound k := by
  induction h with
  | init fresh hst hsmall => exact ⟨0, .initial fresh hst hsmall⟩
  | step e he hst _ ih =>
    obtain ⟨k, sound⟩ := ih
    obtain ⟨k', sound', -⟩ := sound.step he hst
    exact ⟨k', sound'⟩

/-- Along a staged rollout run, whatever calls other than the writes of reconcileForCluster fail, the
    stored rollout status claims no more than was written: Count is never negative, the first Count
    selected clusters in rollout order have a HelmReleaseProxy, and HelmReleaseProxiesRolloutCompleted is
    True only once every selected cluster has one. --/
theorem stagedRun_count_sound {s : Store} (hs : StagedReachable s) :
    ∀ q ∈ s.proxy, 0 ≤ q.status.rolloutCount ∧
      (∀ x ∈ (sortClusters s.selected).take q.status.rolloutCount.toNat, s.HasRelease x) ∧
      (q.status.conditions.isTrue .helmReleaseProxiesRolloutCompleted = true → ∀ x ∈ s.selected, s.HasRelease x) := by
  obtain ⟨k, sound⟩ := hs.sound
  intro q hq
  obtain ⟨-, count⟩ := sound.proxy q hq
  have le := count.le
  simp only [Store.released, List.length_take, sortClusters, List.length_insertionSort] at le
  have released : ∀ x ∈ (sortClusters s.selected).take k, s.HasRelease x := fun x mem =>
    (sound.inv.released x ((List.mem_insertionSort _).mp (List.mem_of_mem_take mem))).mpr mem
  refine ⟨count.nonneg, fun x mem => released x (List.take_subset_take_left _ (by omega) mem), fun hc x hx => ?_⟩
  have all : s.selected.length ≤ k := by have := count.completed hc; omega
  refine released x ?_
  rw [List.take_of_length_le (by simpa [sortClusters] using all)]
  exact (List.mem_insertionSort _).mpr hx

/-- A rollout in steps of one for install and with default steps for upgrade. --/
def stagedRollout : Rollout := { installRollout 1 1 with upgrade := some {} }

/-- The staged rollout of `nginx` on cluster a alone after two passes: the first writes a's release at
    Count 1, the second finds Count at the number of selected clusters and completes the rollout. --/
def stagedOne : Store :=
  ((fleetStore ⟨[prodCluster "a"], by decide⟩ (some stagedRollout)).step (.reconcile {})).step (.reconcile {})

theorem stagedOne_count_sound :
    stagedOne.proxy.map (fun q => (q.status.rolloutCount,
      q.status.conditions.isTrue .helmReleaseProxiesRolloutCompleted)) = some (1, true) ∧
    ∀ q ∈ stagedOne.proxy, 0 ≤ q.status.rolloutCount ∧
      (∀ x ∈ (sortClusters stagedOne.selected).take q.status.rolloutCount.toNat, stagedOne.HasRelease x) ∧
      (q.status.conditions.isTrue .helmReleaseProxiesRolloutCompleted = true →
        ∀ x ∈ stagedOne.selected, stagedOne.HasRelease x) :=
  have fresh : StagedReachable (fleetStore ⟨[prodCluster "a"], by decide⟩ (some stagedRollout)) :=
    .init ⟨rfl, _, rfl, rfl, rfl, rfl, rfl⟩ (fun _ hp => by cases hp; exact ⟨_, rfl, rfl, rfl⟩) (by decide)
  ⟨rfl, stagedRun_count_sound (.step _ (Faults.clear_empty .apply) trivial
    (.step _ (Faults.clear_empty .apply) trivial fresh))⟩

end HelmAddon
