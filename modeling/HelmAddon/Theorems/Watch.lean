import HelmAddon.Theorems.Deletion
import HelmAddon.Theorems.RolloutInvariant

/-! The watch on Clusters. ClusterToHelmChartProxiesMapper requests a HelmChartProxy of the cluster's
    namespace when its selector converts and matches the cluster's labels, the condition under which
    listClustersWithLabels for that HelmChartProxy lists the cluster. But its loop returns no request
    at all as soon as one selector of the list does not convert, so a single malformed selector in a
    namespace silences the watch for every HelmChartProxy there. -/

namespace HelmAddon

/-! ### The loop -/

/-- The selector of a HelmChartProxy converts with LabelSelectorAsSelector. --/
def HelmChartProxy.converts (p : HelmChartProxy) : Bool :=
  (labelSelectorAsSelector p.spec.clusterSelector).toBool

/-- The selector of a HelmChartProxy converts and matches the cluster's labels. --/
def HelmChartProxy.selects (p : HelmChartProxy) (c : Cluster) : Bool :=
  match labelSelectorAsSelector p.spec.clusterSelector with
  | .ok sel => sel.matches c.labels
  | .error _ => false

/-- The loop keeps the requests of the HelmChartProxies that select the cluster, in list order, unless
    some selector of the list does not convert. --/
theorem collectSelecting_eq (c : Cluster) (ps : List HelmChartProxy) (results : List ObjectKey) :
    collectSelecting c ps results =
      if ps.all HelmChartProxy.converts then results ++ (ps.filter (·.selects c)).map HelmChartProxy.key
      else [] := by
  induction ps generalizing results with
  | nil => simp [collectSelecting]
  | cons p ps ih =>
    unfold collectSelecting
    cases h : labelSelectorAsSelector p.spec.clusterSelector with
    | error e => simp [HelmChartProxy.converts, h, Except.toBool]
    | ok sel =>
      dsimp only
      rw [ih]
      by_cases hm : sel.matches c.labels <;>
        simp [HelmChartProxy.converts, HelmChartProxy.selects, h, Except.toBool, hm, List.filter_cons]

/-- A request for `h` exactly when every selector of the list converts and `h`'s selects the cluster. --/
theorem clusterToHelmChartProxiesMapper_mem_iff (c : Cluster) {ps : List HelmChartProxy} {h : HelmChartProxy}
    (hh : h ∈ ps) (hkeys : (ps.map HelmChartProxy.key).Nodup) :
    h.key ∈ clusterToHelmChartProxiesMapper c (.ok ps) ↔ (∀ p ∈ ps, p.converts = true) ∧ h.selects c = true := by
  rw [clusterToHelmChartProxiesMapper, collectSelecting_eq]
  split
  · rename_i hall
    simp only [List.nil_append, List.mem_map, List.mem_filter]
    exact ⟨fun ⟨p, ⟨mem, sel⟩, key⟩ => ⟨List.all_eq_true.mp hall, List.inj_on_of_nodup_map hkeys mem hh key ▸ sel⟩,
      fun ⟨_, sel⟩ => ⟨h, ⟨hh, sel⟩, rfl⟩⟩
  · rename_i hall
    simp only [List.not_mem_nil, false_iff, not_and]
    exact fun all => absurd (List.all_eq_true.mpr all) hall

/-- One selector that does not convert, and the mapping requests nothing. --/
theorem clusterToHelmChartProxiesMapper_of_malformed (c : Cluster) {ps : List HelmChartProxy} {p : HelmChartProxy}
    (hp : p ∈ ps) (hbad : p.converts = false) : clusterToHelmChartProxiesMapper c (.ok ps) = [] := by
  rw [clusterToHelmChartProxiesMapper, collectSelecting_eq, if_neg]
  simpa using ⟨p, hp, hbad⟩

/-! ### The listing it should agree with -/

/-- With the List call succeeding, listClustersWithLabels for a HelmChartProxy lists a stored cluster of
    its namespace exactly when the HelmChartProxy selects it. --/
theorem listClustersWithLabels_mem_iff {ctx : Ctx} {c : Cluster} (p : HelmChartProxy)
    (hlist : ctx.faults.Succeeds .list) (hc : c ∈ ctx.store.clusters.items) (hns : c.namespace = p.namespace) :
    (∃ cl, (listClustersWithLabels p.namespace p.spec.clusterSelector ctx).2 = .ok cl ∧ c ∈ cl) ↔
      p.selects c = true := by
  cases h : labelSelectorAsSelector p.spec.clusterSelector with
  | error e => simp [listClustersWithLabels, HelmChartProxy.selects, h, Except.mapError, Pass.bind_apply]
  | ok sel =>
    simp [listClustersWithLabels, HelmChartProxy.selects, h, Except.mapError, Pass.bind_apply,
      listClusters_ok _ _ hlist, Store.listClusters, hc, hns]

/-- When every selector of the namespace converts, the watch requests the stored HelmChartProxy for a
    stored cluster of its namespace exactly when the selection of that HelmChartProxy holds the
    cluster: the selection a pass lists and writes releases for. --/
theorem clusterToHelmChartProxiesMapper_iff_selected {s : Store} {p : HelmChartProxy} {ps : List HelmChartProxy}
    {c : Cluster} (hp : s.proxy = some p) (mem : p ∈ ps) (hkeys : (ps.map HelmChartProxy.key).Nodup)
    (hall : ∀ q ∈ ps, q.converts = true) (hc : c ∈ s.clusters.items) (hns : c.namespace = p.namespace) :
    p.key ∈ clusterToHelmChartProxiesMapper c (.ok ps) ↔ c ∈ s.selected := by
  rw [clusterToHelmChartProxiesMapper_mem_iff c mem hkeys, and_iff_right hall, Store.selected, hp]
  have conv := hall p mem
  cases h : labelSelectorAsSelector p.spec.clusterSelector with
  | error e => simp [HelmChartProxy.converts, h, Except.toBool] at conv
  | ok sel => simp [HelmChartProxy.selects, h, Store.listClusters, hc, hns]

/-- A second HelmChartProxy of the namespace, whose selector converts and picks the clusters labelled
    env=dev. --/
def devProxy : HelmChartProxy :=
  ⟨"default", "redis", 1, false, [], { (nginxProxy none).spec with clusterSelector := { matchLabels := [("env", "dev")] } },
    {}⟩

theorem fleetStore_mapper_iff_selected :
    ((nginxProxy none).key ∈ clusterToHelmChartProxiesMapper (prodCluster "a") (.ok [devProxy, nginxProxy none]) ↔
      prodCluster "a" ∈ (fleetStore ⟨[prodCluster "a"], by decide⟩ none).selected) ∧
    clusterToHelmChartProxiesMapper (prodCluster "a") (.ok [devProxy, nginxProxy none]) = [(nginxProxy none).key] :=
  ⟨clusterToHelmChartProxiesMapper_iff_selected rfl (by decide) (by decide) (by decide) (by decide) rfl, rfl⟩

/-! ### A malformed neighbour -/

/-- A second HelmChartProxy of the namespace, whose selector does not convert. --/
def brokenProxy : HelmChartProxy :=
  ⟨"default", "broken", 1, false, [], { (nginxProxy none).spec with clusterSelector := malformedSelector }, {}⟩

/-- The watch requests a HelmChartProxy only when every selector of the list converts, and one that
    does not convert empties the mapping, while listClustersWithLabels for a HelmChartProxy lists the
    clusters its own selector picks. A malformed neighbour of `nginx` silences the watch for a cluster
    that `nginx` lists. --/
theorem clusterToHelmChartProxiesMapper_sibling_silences :
    (∀ (c : Cluster) {ps : List HelmChartProxy} {h : HelmChartProxy}, h ∈ ps → (ps.map HelmChartProxy.key).Nodup →
      (h.key ∈ clusterToHelmChartProxiesMapper c (.ok ps) ↔ (∀ p ∈ ps, p.converts = true) ∧ h.selects c = true)) ∧
    (∀ (c : Cluster) {ps : List HelmChartProxy} {p : HelmChartProxy}, p ∈ ps → p.converts = false →
      clusterToHelmChartProxiesMapper c (.ok ps) = []) ∧
    (∀ {ctx : Ctx} {c : Cluster} (p : HelmChartProxy), ctx.faults.Succeeds .list → c ∈ ctx.store.clusters.items →
      c.namespace = p.namespace →
      ((∃ cl, (listClustersWithLabels p.namespace p.spec.clusterSelector ctx).2 = .ok cl ∧ c ∈ cl) ↔
        p.selects c = true)) ∧
    (listClustersWithLabels "default" (nginxProxy none).spec.clusterSelector
        (Ctx.init (fleetStore ⟨[prodCluster "a"], by decide⟩ none) {})).2 = .ok [prodCluster "a"] ∧
      (nginxProxy none).selects (prodCluster "a") = true ∧ brokenProxy.converts = false ∧
      clusterToHelmChartProxiesMapper (prodCluster "a") (.ok [nginxProxy none, brokenProxy]) = [] :=
  ⟨clusterToHelmChartProxiesMapper_mem_iff, clusterToHelmChartProxiesMapper_of_malformed,
    listClustersWithLabels_mem_iff, rfl, rfl, rfl,
    clusterToHelmChartProxiesMapper_of_malformed _ (List.mem_cons_of_mem _ (List.mem_singleton_self _)) rfl⟩

end HelmAddon
