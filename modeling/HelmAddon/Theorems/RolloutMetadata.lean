import HelmAddon.Theorems.PassBase

/-! The rollout metadata of rolloutReconcile. When the listed clusters have distinct namespaced names
    and every release targets one of them, the sorted metadata is the clusters in namespaced-name
    order, each with what its releases say, and the map's iteration order plays no part. A release
    whose cluster is not listed makes the lookup return the nil pointer. -/

namespace HelmAddon

/-! ### The order of the rollout -/

/-- Clusters compared by namespaced name, as SortStableFunc compares their metadata. --/
def Cluster.le (a b : Cluster) : Prop := a.key.toList ≤ b.key.toList

instance : DecidableRel Cluster.le := fun a b => inferInstanceAs (Decidable (a.key.toList ≤ b.key.toList))

/-- The clusters in the order of the rollout. --/
def sortClusters (cs : List Cluster) : List Cluster := cs.insertionSort Cluster.le

/-- Strictly before in the order of the rollout. --/
def RolloutMeta.lt (a b : RolloutMeta) : Prop := a.cluster.key.toList < b.cluster.key.toList

instance : IsTotal RolloutMeta RolloutMeta.le := ⟨fun _ _ => le_total _ _⟩
instance : IsTrans RolloutMeta RolloutMeta.le := ⟨fun _ _ _ => le_trans⟩
instance : IsAntisymm RolloutMeta RolloutMeta.lt := ⟨fun _ _ h h' => absurd h' (lt_asymm h)⟩

/-- Sorting forgets the order it is given when no two entries share a namespaced name. --/
theorem sortRolloutMeta_perm {l l' : List RolloutMeta} (hp : l.Perm l')
    (hd : (l.map (·.cluster.key)).Nodup) : sortRolloutMeta l = sortRolloutMeta l' := by
  have strict : ∀ {l₀ : List RolloutMeta}, l₀.Perm l → (sortRolloutMeta l₀).Sorted RolloutMeta.lt := by
    intro l₀ hp₀
    have hd₀ : ((sortRolloutMeta l₀).map (·.cluster.key)).Nodup :=
      (((List.perm_insertionSort _ l₀).trans hp₀).map _).nodup_iff.mpr hd
    exact (List.sorted_insertionSort RolloutMeta.le l₀).imp₂ (fun _ _ hab hne => lt_of_le_of_ne hab (hne ∘ String.ext))
      (List.pairwise_map.mp hd₀)
  exact List.eq_of_perm_of_sorted
    ((List.perm_insertionSort _ l).trans (hp.trans (List.perm_insertionSort _ l').symm))
    (strict (List.Perm.refl l)) (strict hp.symm)

/-- Sorting metadata that keeps its cluster is sorting the clusters. --/
theorem map_sortClusters {f : Cluster → RolloutMeta} (hf : ∀ c, (f c).cluster = c) (cs : List Cluster) :
    (sortClusters cs).map f = sortRolloutMeta (cs.map f) :=
  List.map_insertionSort _ _ _ _ fun a _ b _ => by simp only [RolloutMeta.le, Cluster.le, hf]

/-! ### What the releases say about a cluster -/

/-- What a release says about a cluster's metadata: the last release of the cluster decides. --/
def metaStep (c : Cluster) (m : RolloutMeta) (h : HelmReleaseProxy) : RolloutMeta :=
  if h.clusterKey = c.key then ⟨c, true, h.status.conditions.isTrue .helmReleaseReady⟩ else m

/-- The metadata of a cluster once every release is read. --/
def rolloutMetaOf (hs : List HelmReleaseProxy) (c : Cluster) : RolloutMeta :=
  hs.foldl (metaStep c) ⟨c, false, false⟩

variable {hs : List HelmReleaseProxy} {c : Cluster}

theorem foldl_metaStep_cluster (hs : List HelmReleaseProxy) {m : RolloutMeta} (hm : m.cluster = c) :
    (hs.foldl (metaStep c) m).cluster = c := by
  induction hs generalizing m with
  | nil => exact hm
  | cons h hs ih => exact ih (by unfold metaStep; split <;> simp [hm])

@[simp] theorem rolloutMetaOf_cluster (hs : List HelmReleaseProxy) (c : Cluster) :
    (rolloutMetaOf hs c).cluster = c :=
  foldl_metaStep_cluster hs rfl

theorem foldl_metaStep_hrpExists (hs : List HelmReleaseProxy) (m : RolloutMeta) :
    (hs.foldl (metaStep c) m).hrpExists = (hs.any (·.clusterKey == c.key) || m.hrpExists) := by
  induction hs generalizing m with
  | nil => simp
  | cons h hs ih =>
    rw [List.foldl_cons, ih, metaStep]
    by_cases hk : h.clusterKey = c.key
    · simp [hk]
    · simp [hk, beq_false_of_ne hk]

/-- A cluster has a release exactly when some listed release targets it. --/
@[simp] theorem rolloutMetaOf_hrpExists (hs : List HelmReleaseProxy) (c : Cluster) :
    (rolloutMetaOf hs c).hrpExists = hs.any (·.clusterKey == c.key) := by
  simp [rolloutMetaOf, foldl_metaStep_hrpExists]

/-- When the releases of a cluster agree on readiness, that readiness is the cluster's. --/
theorem foldl_metaStep_of_agree {r : Bool}
    (hr : ∀ h ∈ hs, h.clusterKey = c.key → h.status.conditions.isTrue .helmReleaseReady = r) (m : RolloutMeta) :
    hs.foldl (metaStep c) m = if hs.any (·.clusterKey == c.key) then ⟨c, true, r⟩ else m := by
  induction hs generalizing m with
  | nil => simp
  | cons h hs ih =>
    rw [List.foldl_cons, ih fun h' mem => hr h' (List.mem_cons_of_mem h mem), metaStep]
    by_cases hk : h.clusterKey = c.key
    · simp [hk, hr h (List.mem_cons_self h hs) hk]
    · simp [hk, beq_false_of_ne hk]

theorem rolloutMetaOf_of_agree {r : Bool}
    (hr : ∀ h ∈ hs, h.clusterKey = c.key → h.status.conditions.isTrue .helmReleaseReady = r) :
    rolloutMetaOf hs c = ⟨c, hs.any (·.clusterKey == c.key), hs.any (·.clusterKey == c.key) && r⟩ := by
  rw [rolloutMetaOf, foldl_metaStep_of_agree hr]
  split <;> simp_all

/-! ### The map -/

namespace RolloutMetaMap

theorem insert_of_not_mem {m : RolloutMetaMap} {k : String} (v : RolloutMeta) (h : ∀ e ∈ m, e.1 ≠ k) :
    m.insert k v = m ++ [(k, v)] := by
  induction m with
  | nil => rfl
  | cons e m ih =>
    rw [insert, if_neg (h e (List.mem_cons_self e m)), ih fun e' mem => h e' (List.mem_cons_of_mem e mem)]
    rfl

/-- On a map with distinct keys, assigning a present key replaces its entry in place. --/
theorem insert_eq_map {m : RolloutMetaMap} {k : String} (hd : (m.map (·.1)).Nodup) (hk : k ∈ m.map (·.1))
    (v : RolloutMeta) : m.insert k v = m.map fun e => if e.1 = k then (k, v) else e := by
  induction m with
  | nil => simp at hk
  | cons e m ih =>
    simp only [List.map_cons, List.nodup_cons, List.mem_map, List.mem_cons] at hd hk
    rw [insert]
    by_cases he : e.1 = k
    · have rest : ∀ e' ∈ m, e'.1 ≠ k := fun e' mem h' => hd.1 ⟨e', mem, h'.trans he.symm⟩
      simp only [he, if_true, List.map_cons, List.cons.injEq, true_and]
      exact (List.map_congr_left fun e' mem => if_neg (rest e' mem)).trans (List.map_id' m) |>.symm
    · have hk' : k ∈ m.map (·.1) := by
        rcases hk with rfl | ⟨e', mem, rfl⟩
        · exact absurd rfl he
        · exact List.mem_map_of_mem _ mem
      simp only [he, if_false, List.map_cons, ih hd.2 hk']

end RolloutMetaMap

variable {cs : List Cluster}

theorem lookup_map_key (g : Cluster → RolloutMeta) (k : String) :
    (cs.map fun c => (c.key, g c)).lookup k = (cs.find? fun c => k == c.key).map g := by
  induction cs with
  | nil => rfl
  | cons c cs ih =>
    simp only [List.map_cons, List.lookup_cons, List.find?_cons]
    cases k == c.key <;> simp [ih]

/-- The first loop gives every listed cluster fresh metadata, in list order. --/
theorem insertClusters_eq (cs₀ : List Cluster) (hd : ((cs₀ ++ cs).map Cluster.key).Nodup) :
    insertClusters (cs₀.map fun c => (c.key, ⟨c, false, false⟩)) cs =
      (cs₀ ++ cs).map fun c => (c.key, ⟨c, false, false⟩) := by
  induction cs generalizing cs₀ with
  | nil => simp [insertClusters]
  | cons c cs ih =>
    have fresh : ∀ e ∈ cs₀.map fun c => (c.key, (⟨c, false, false⟩ : RolloutMeta)), e.1 ≠ c.key := by
      simp only [List.map_append, List.map_cons, List.nodup_append, List.nodup_cons] at hd
      simp only [List.mem_map]
      rintro _ ⟨c', mem, rfl⟩ hk
      exact hd.2.2 (List.mem_map_of_mem _ mem) (List.mem_cons.mpr (Or.inl hk))
    rw [insertClusters, RolloutMetaMap.insert_of_not_mem _ fresh, ← List.map_singleton (f := fun c =>
      (c.key, (⟨c, false, false⟩ : RolloutMeta))) (a := c), ← List.map_append, ih (cs₀ ++ [c]) (by simpa using hd)]
    simp

/-- The second loop: every release marks its cluster's metadata, unless some release is an orphan,
    whose nil entry is written through. --/
theorem markReleases_eq (hd : (cs.map Cluster.key).Nodup) (hs : List HelmReleaseProxy) (g : Cluster → RolloutMeta)
    (hg : ∀ c, (g c).cluster = c) :
    markReleases (cs.map fun c => (c.key, g c)) hs =
      if hs.any (isOrphan cs) then none else some (cs.map fun c => (c.key, hs.foldl (metaStep c) (g c))) := by
  induction hs generalizing g with
  | nil => simp [markReleases]
  | cons h hs ih =>
    rw [markReleases, lookup_map_key]
    cases hf : cs.find? fun c => h.clusterKey == c.key with
    | none =>
      have : isOrphan cs h = true := by
        simp only [isOrphan, Bool.not_eq_true', List.any_eq_false, beq_iff_eq]
        intro c mem hk
        simpa [hk] using List.find?_eq_none.mp hf c mem
      simp [this]
    | some c₀ =>
      have mem₀ := List.mem_of_find?_eq_some hf
      have key₀ : c₀.key = h.clusterKey := by
        have hb := List.find?_some hf
        exact (beq_iff_eq.mp hb).symm
      have found : isOrphan cs h = false := by
        simpa [isOrphan] using ⟨c₀, mem₀, key₀⟩
      have keys : ((cs.map fun c => (c.key, g c)).map (·.1)) = cs.map Cluster.key := by
        rw [List.map_map]
        rfl
      have step : RolloutMetaMap.insert (cs.map fun c => (c.key, g c)) h.clusterKey
          ⟨(g c₀).cluster, true, h.status.conditions.isTrue .helmReleaseReady⟩ =
          cs.map fun c => (c.key, metaStep c (g c) h) := by
        have present : h.clusterKey ∈ (cs.map fun c => (c.key, g c)).map (·.1) := by
          rw [keys, ← key₀]
          exact List.mem_map_of_mem _ mem₀
        rw [RolloutMetaMap.insert_eq_map (by rw [keys]; exact hd) present, List.map_map]
        refine List.map_congr_left fun c mem => ?_
        by_cases hk : c.key = h.clusterKey
        · obtain rfl : c = c₀ := List.inj_on_of_nodup_map hd mem mem₀ (hk.trans key₀.symm)
          simp [metaStep, hk, hg]
        · simp [metaStep, hk, Ne.symm hk]
      have hg' : ∀ c, (metaStep c (g c) h).cluster = c := fun c => by unfold metaStep; split <;> simp [hg]
      simp only [Option.map_some', step, ih _ hg', List.any_cons, found, Bool.false_or, List.foldl_cons]

/-- The sorted rollout metadata: the clusters in the order of the rollout, each with what its releases
    say; `none` exactly when some release is an orphan. --/
theorem rolloutMetaSorted_eq (mapOrder : MapOrder) (hd : (cs.map Cluster.key).Nodup) (hs : List HelmReleaseProxy) :
    rolloutMetaSorted mapOrder cs hs =
      if hs.any (isOrphan cs) then none else some ((sortClusters cs).map (rolloutMetaOf hs)) := by
  have fresh := insertClusters_eq [] (show (([] ++ cs).map Cluster.key).Nodup by simpa using hd)
  rw [List.nil_append, List.map_nil] at fresh
  rw [rolloutMetaSorted, fresh, markReleases_eq hd hs _ fun _ => rfl]
  split
  · rfl
  · have values : ((cs.map fun c => (c.key, hs.foldl (metaStep c) ⟨c, false, false⟩)).map (·.2)) =
        cs.map (rolloutMetaOf hs) := by simp [rolloutMetaOf]
    have keys : ((cs.map (rolloutMetaOf hs)).map (·.cluster.key)).Nodup := by simpa [Function.comp_def] using hd
    rw [Option.map_some', values, map_sortClusters (rolloutMetaOf_cluster hs),
      sortRolloutMeta_perm (mapOrder.perm _) (((mapOrder.perm _).map _).nodup_iff.mpr keys)]

end HelmAddon
