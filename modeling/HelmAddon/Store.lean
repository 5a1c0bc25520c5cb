import HelmAddon.Library

/-! The remote store seen by one HelmChartProxy, and the monad of a reconcile pass. A pass reads and
    writes the store, mutates its in-memory copy of the HelmChartProxy, and returns a result or a Go
    error. Writes made before an error stay in the store, as they do on the API server. The
    environment decides which remote calls fail and in which order Go iterates a map. -/

namespace HelmAddon

/-! ### The store -/

/-- clusterv1.ClusterList as the store holds it: no two clusters share a namespaced name. --/
structure ClusterList where
  items : List Cluster
  distinct : (items.map Cluster.key).Nodup
  deriving DecidableEq

/-- Everything the reconciler of one HelmChartProxy can observe: the clusters, the HelmChartProxy
    itself (gone once deleted) and the HelmReleaseProxies, with the counter the API server uses to
    generate release names. --/
structure Store where
  clusters : ClusterList
  proxy : Option HelmChartProxy
  releases : List HelmReleaseProxy
  nextSuffix : Nat
  deriving DecidableEq

/-- client.MatchingLabels: every wanted label is on the object. --/
def hasLabels (ls want : Labels) : Bool :=
  want.all fun kv => ls.lookup kv.1 == some kv.2

/-- The owner label a HelmChartProxy puts on its releases. --/
def ownerLabels (p : HelmChartProxy) : Labels :=
  [(helmChartProxyLabelName, p.name)]

namespace Store

def setClusters (cs : ClusterList) : Store → Store
  | ⟨_, p, rs, n⟩ => ⟨cs, p, rs, n⟩

def setProxy (p : Option HelmChartProxy) : Store → Store
  | ⟨cs, _, rs, n⟩ => ⟨cs, p, rs, n⟩

def setReleases (rs : List HelmReleaseProxy) : Store → Store
  | ⟨cs, p, _, n⟩ => ⟨cs, p, rs, n⟩

/-- A created release; the name suffix counter moves on. --/
def addRelease (h : HelmReleaseProxy) : Store → Store
  | ⟨cs, p, rs, n⟩ => ⟨cs, p, rs ++ [h], n + 1⟩

@[simp] theorem setClusters_clusters (cs : ClusterList) (s : Store) : (s.setClusters cs).clusters = cs := rfl
@[simp] theorem setClusters_proxy (cs : ClusterList) (s : Store) : (s.setClusters cs).proxy = s.proxy := rfl
@[simp] theorem setClusters_releases (cs : ClusterList) (s : Store) : (s.setClusters cs).releases = s.releases :=
  rfl
@[simp] theorem setProxy_clusters (p : Option HelmChartProxy) (s : Store) : (s.setProxy p).clusters = s.clusters :=
  rfl
@[simp] theorem setProxy_proxy (p : Option HelmChartProxy) (s : Store) : (s.setProxy p).proxy = p := rfl
@[simp] theorem setProxy_releases (p : Option HelmChartProxy) (s : Store) : (s.setProxy p).releases = s.releases :=
  rfl
@[simp] theorem setReleases_clusters (rs : List HelmReleaseProxy) (s : Store) :
    (s.setReleases rs).clusters = s.clusters := rfl
@[simp] theorem setReleases_proxy (rs : List HelmReleaseProxy) (s : Store) : (s.setReleases rs).proxy = s.proxy :=
  rfl
@[simp] theorem setReleases_releases (rs : List HelmReleaseProxy) (s : Store) : (s.setReleases rs).releases = rs :=
  rfl
@[simp] theorem addRelease_clusters (h : HelmReleaseProxy) (s : Store) : (s.addRelease h).clusters = s.clusters :=
  rfl
@[simp] theorem addRelease_proxy (h : HelmReleaseProxy) (s : Store) : (s.addRelease h).proxy = s.proxy := rfl
@[simp] theorem addRelease_releases (h : HelmReleaseProxy) (s : Store) :
    (s.addRelease h).releases = s.releases ++ [h] := rfl

/-- List of clusters: those of the namespace that the selector matches. --/
def listClusters (s : Store) (ns : String) (sel : Selector) : List Cluster :=
  s.clusters.items.filter fun c => c.namespace == ns && sel.matches c.labels

/-- List of HelmReleaseProxies: those of the namespace that carry the labels. --/
def listReleases (s : Store) (ns : String) (want : Labels) : List HelmReleaseProxy :=
  s.releases.filter fun h => h.namespace == ns && hasLabels h.labels want

/-- Get of a HelmReleaseProxy by key; `none` is NotFound. --/
def getRelease (s : Store) (key : ObjectKey) : Option HelmReleaseProxy :=
  s.releases.find? (·.key == key)

/-- Delete of a HelmReleaseProxy: without finalizers it goes at once, with finalizers it is marked
    for deletion and stays. `none` is NotFound. --/
def deleteRelease (s : Store) (key : ObjectKey) : Option Store :=
  match s.getRelease key with
  | none => none
  | some _ =>
    some (s.setReleases (s.releases.filterMap fun h =>
      if h.key = key then (if h.finalizers.isEmpty then none else some h.markDeleted) else some h))

/-- A HelmReleaseProxy of the HelmChartProxy for the cluster, as the label lookup finds it. --/
def isReleaseFor (p : HelmChartProxy) (c : Cluster) (h : HelmReleaseProxy) : Bool :=
  h.namespace == p.namespace && hasLabels h.labels (ownerLabels p) && h.clusterKey == c.key

/-- The spec a HelmChartProxy wants for its release on a cluster. --/
def desiredSpec (p : HelmChartProxy) (c : Cluster) : HelmReleaseProxySpec :=
  ⟨c.ref, p.spec.chart⟩

/-- A new HelmReleaseProxy of the HelmChartProxy for the cluster, with a generated name. --/
def newRelease (p : HelmChartProxy) (c : Cluster) (suffix : Nat) : HelmReleaseProxy where
  «namespace» := p.namespace
  name := p.name ++ "-" ++ c.name ++ "-" ++ toString suffix
  labels := ownerLabels p ++ [(clusterNameLabel, c.name)]
  ownerReferences := [⟨p.name, some true⟩]
  generation := 1
  deletionTimestamp := false
  finalizers := []
  spec := desiredSpec p c
  status := {}

/-- Modelled from the spec: the write reconcileForCluster makes (the function is not in src/). A
    release "created by the Rollout State Machine when a cluster enters a batch; updated on every
    reconcile of that cluster": the existing release is updated in place, or a new one is created. --/
def applyRelease (s : Store) (p : HelmChartProxy) (c : Cluster) : Store :=
  if s.releases.any (isReleaseFor p c) then
    s.setReleases (s.releases.map fun h => if isReleaseFor p c h then h.updateSpec (desiredSpec p c) else h)
  else s.addRelease (newRelease p c s.nextSuffix)

/-- Patch of the HelmChartProxy's metadata and status. An object marked for deletion that is left
    without finalizers is removed. `none` is NotFound. --/
def patchProxy (s : Store) (p : HelmChartProxy) : Option Store :=
  match s.proxy with
  | none => none
  | some q =>
    let q' := (q.setFinalizers p.finalizers).modifyStatus fun _ => p.status
    some (s.setProxy (if q'.deletionTimestamp && q'.finalizers.isEmpty then none else some q'))

end Store

/-! ### Failures and map order -/

/-- The kinds of remote call a pass makes. `apply` is the create or update of reconcileForCluster. --/
inductive StoreCall
  | get
  | list
  | patch
  | apply
  | delete
  deriving DecidableEq, Repr

/-- For each kind of remote call, whether its successive calls in one pass fail (`true`); calls past
    the end of a list succeed. --/
structure Faults where
  get : List Bool := []
  list : List Bool := []
  patch : List Bool := []
  apply : List Bool := []
  delete : List Bool := []
  deriving DecidableEq, Repr

/-- Whether the next call of a kind fails, and the faults left after it. --/
def Faults.next (f : Faults) (k : StoreCall) : Bool × Faults :=
  match f, k with
  | ⟨g, l, p, a, d⟩, .get => (g.headD false, ⟨g.tail, l, p, a, d⟩)
  | ⟨g, l, p, a, d⟩, .list => (l.headD false, ⟨g, l.tail, p, a, d⟩)
  | ⟨g, l, p, a, d⟩, .patch => (p.headD false, ⟨g, l, p.tail, a, d⟩)
  | ⟨g, l, p, a, d⟩, .apply => (a.headD false, ⟨g, l, p, a.tail, d⟩)
  | ⟨g, l, p, a, d⟩, .delete => (d.headD false, ⟨g, l, p, a, d.tail⟩)

/-- An iteration order of a Go map: each `range` over it visits every entry exactly once. --/
structure MapOrder where
  order : List RolloutMeta → List RolloutMeta
  perm : ∀ l, (order l).Perm l

/-- Iteration in insertion order. --/
def MapOrder.insertion : MapOrder := ⟨id, fun _ => List.Perm.refl _⟩

/-- What the environment decides for one pass. --/
structure Env where
  faults : Faults := {}
  mapOrder : MapOrder := MapOrder.insertion

/-! ### Errors -/

/-- The errors a pass returns. --/
inductive Error
  | store (call : StoreCall)
  | notFound (key : ObjectKey)
  | invalid (message : String)
  | wrapped (message : String) (cause : Error)
  | nilPointerDereference
  deriving DecidableEq, Repr

/-- err.Error(). --/
def Error.error : Error → String
  | .store _ => "the request to the API server failed"
  | .notFound key => "\"" ++ key.name ++ "\" not found"
  | .invalid message => message
  | .wrapped message cause => message ++ ": " ++ cause.error
  | .nilPointerDereference => "runtime error: invalid memory address or nil pointer dereference"

/-! ### The pass monad -/

/-- The state of one pass: the store, the in-memory HelmChartProxy, the environment's decisions, and
    the clusters reconcileForCluster was called for, in order. --/
structure Ctx where
  store : Store
  proxy : HelmChartProxy
  faults : Faults
  mapOrder : MapOrder
  reconciled : List Cluster

/-- The context a pass starts from; the in-memory object is the zero value until it is fetched. --/
def Ctx.init (s : Store) (env : Env) : Ctx :=
  ⟨s, default, env.faults, env.mapOrder, []⟩

/-- A step of a pass: it returns a value or an error, and keeps its effects either way. --/
def Pass (α : Type) : Type := Ctx → Ctx × Except Error α

namespace Pass

variable {α β : Type}

protected def pure (a : α) : Pass α := fun c => (c, .ok a)

protected def bind (x : Pass α) (f : α → Pass β) : Pass β := fun c =>
  match x c with
  | (c', .ok a) => f a c'
  | (c', .error e) => (c', .error e)

instance : Monad Pass where
  pure := Pass.pure
  bind := Pass.bind

protected def throw (e : Error) : Pass α := fun c => (c, .error e)

protected def tryCatch (x : Pass α) (h : Error → Pass α) : Pass α := fun c =>
  match x c with
  | (c', .ok a) => (c', .ok a)
  | (c', .error e) => h e c'

instance : MonadExceptOf Error Pass where
  throw := Pass.throw
  tryCatch := Pass.tryCatch

/-- Runs a step and returns its outcome, error or not, as a value. --/
def attempt (x : Pass α) : Pass (Except Error α) := fun c =>
  match x c with
  | (c', r) => (c', .ok r)

def ofExcept : Except Error α → Pass α
  | .ok a => Pass.pure a
  | .error e => Pass.throw e

@[simp] theorem pure_apply (a : α) (c : Ctx) : (pure a : Pass α) c = (c, .ok a) := rfl

theorem bind_apply (x : Pass α) (f : α → Pass β) (c : Ctx) :
    (x >>= f) c = match x c with
      | (c', .ok a) => f a c'
      | (c', .error e) => (c', .error e) := rfl

theorem bind_ok {x : Pass α} {f : α → Pass β} {c c' : Ctx} {a : α} (h : x c = (c', .ok a)) :
    (x >>= f) c = f a c' := by
  rw [bind_apply, h]

theorem bind_error {x : Pass α} {f : α → Pass β} {c c' : Ctx} {e : Error} (h : x c = (c', .error e)) :
    (x >>= f) c = (c', .error e) := by
  rw [bind_apply, h]

@[simp] theorem throw_apply (e : Error) (c : Ctx) : (throw e : Pass α) c = (c, .error e) := rfl

@[simp] theorem attempt_apply (x : Pass α) (c : Ctx) : attempt x c = ((x c).1, .ok (x c).2) := rfl

@[simp] theorem ofExcept_ok (a : α) (c : Ctx) : ofExcept (.ok a) c = (c, .ok a) := rfl

@[simp] theorem ofExcept_error (e : Error) (c : Ctx) : (ofExcept (.error e) : Pass α) c = (c, .error e) :=
  rfl

end Pass

/-! ### Steps on the context -/

namespace Ctx

def setStore (s : Store) : Ctx → Ctx
  | ⟨_, p, fs, mo, r⟩ => ⟨s, p, fs, mo, r⟩

def modifyProxy (f : HelmChartProxy → HelmChartProxy) : Ctx → Ctx
  | ⟨s, p, fs, mo, r⟩ => ⟨s, f p, fs, mo, r⟩

def setFaults (fs : Faults) : Ctx → Ctx
  | ⟨s, p, _, mo, r⟩ => ⟨s, p, fs, mo, r⟩

def logReconciled (cl : Cluster) : Ctx → Ctx
  | ⟨s, p, fs, mo, r⟩ => ⟨s, p, fs, mo, r ++ [cl]⟩

@[simp] theorem setStore_store (s : Store) (c : Ctx) : (c.setStore s).store = s := rfl
@[simp] theorem setStore_proxy (s : Store) (c : Ctx) : (c.setStore s).proxy = c.proxy := rfl
@[simp] theorem setStore_faults (s : Store) (c : Ctx) : (c.setStore s).faults = c.faults := rfl
@[simp] theorem setStore_mapOrder (s : Store) (c : Ctx) : (c.setStore s).mapOrder = c.mapOrder := rfl
@[simp] theorem setStore_reconciled (s : Store) (c : Ctx) : (c.setStore s).reconciled = c.reconciled := rfl
@[simp] theorem modifyProxy_store (f : HelmChartProxy → HelmChartProxy) (c : Ctx) :
    (c.modifyProxy f).store = c.store := rfl
@[simp] theorem modifyProxy_proxy (f : HelmChartProxy → HelmChartProxy) (c : Ctx) :
    (c.modifyProxy f).proxy = f c.proxy := rfl
@[simp] theorem modifyProxy_faults (f : HelmChartProxy → HelmChartProxy) (c : Ctx) :
    (c.modifyProxy f).faults = c.faults := rfl
@[simp] theorem modifyProxy_mapOrder (f : HelmChartProxy → HelmChartProxy) (c : Ctx) :
    (c.modifyProxy f).mapOrder = c.mapOrder := rfl
@[simp] theorem modifyProxy_reconciled (f : HelmChartProxy → HelmChartProxy) (c : Ctx) :
    (c.modifyProxy f).reconciled = c.reconciled := rfl
@[simp] theorem setFaults_store (fs : Faults) (c : Ctx) : (c.setFaults fs).store = c.store := rfl
@[simp] theorem setFaults_proxy (fs : Faults) (c : Ctx) : (c.setFaults fs).proxy = c.proxy := rfl
@[simp] theorem setFaults_faults (fs : Faults) (c : Ctx) : (c.setFaults fs).faults = fs := rfl
@[simp] theorem setFaults_mapOrder (fs : Faults) (c : Ctx) : (c.setFaults fs).mapOrder = c.mapOrder := rfl
@[simp] theorem setFaults_reconciled (fs : Faults) (c : Ctx) : (c.setFaults fs).reconciled = c.reconciled := rfl
@[simp] theorem logReconciled_store (cl : Cluster) (c : Ctx) : (c.logReconciled cl).store = c.store := rfl
@[simp] theorem logReconciled_proxy (cl : Cluster) (c : Ctx) : (c.logReconciled cl).proxy = c.proxy := rfl
@[simp] theorem logReconciled_faults (cl : Cluster) (c : Ctx) : (c.logReconciled cl).faults = c.faults := rfl
@[simp] theorem logReconciled_mapOrder (cl : Cluster) (c : Ctx) : (c.logReconciled cl).mapOrder = c.mapOrder :=
  rfl
@[simp] theorem logReconciled_reconciled (cl : Cluster) (c : Ctx) :
    (c.logReconciled cl).reconciled = c.reconciled ++ [cl] := rfl

end Ctx

def getProxy : Pass HelmChartProxy := fun c => (c, .ok c.proxy)

def setProxy (p : HelmChartProxy) : Pass Unit := fun c => (c.modifyProxy fun _ => p, .ok ())

def modifyProxy (f : HelmChartProxy → HelmChartProxy) : Pass Unit := fun c => (c.modifyProxy f, .ok ())

/-- A change of the in-memory object's conditions (conditions.Mark*, Set*). --/
def modifyConditions (f : Conditions → Conditions) : Pass Unit :=
  modifyProxy (·.modifyStatus (·.modifyConditions f))

def getStore : Pass Store := fun c => (c, .ok c.store)

def setStore (s : Store) : Pass Unit := fun c => (c.setStore s, .ok ())

def getMapOrder : Pass MapOrder := fun c => (c, .ok c.mapOrder)

/-- Records a call of reconcileForCluster. --/
def logReconciled (cl : Cluster) : Pass Unit := fun c => (c.logReconciled cl, .ok ())

/-- A remote call: it fails when the environment says so, and then has no effect. --/
def storeCall (k : StoreCall) : Pass Unit := fun c =>
  match c.faults.next k with
  | (true, fs) => (c.setFaults fs, .error (.store k))
  | (false, fs) => (c.setFaults fs, .ok ())

@[simp] theorem getProxy_apply (c : Ctx) : getProxy c = (c, .ok c.proxy) := rfl
@[simp] theorem setProxy_apply (p : HelmChartProxy) (c : Ctx) : setProxy p c = (c.modifyProxy fun _ => p, .ok ()) :=
  rfl
@[simp] theorem modifyProxy_apply (f : HelmChartProxy → HelmChartProxy) (c : Ctx) :
    modifyProxy f c = (c.modifyProxy f, .ok ()) := rfl
@[simp] theorem getStore_apply (c : Ctx) : getStore c = (c, .ok c.store) := rfl
@[simp] theorem setStore_apply (s : Store) (c : Ctx) : setStore s c = (c.setStore s, .ok ()) := rfl
@[simp] theorem getMapOrder_apply (c : Ctx) : getMapOrder c = (c, .ok c.mapOrder) := rfl
@[simp] theorem logReconciled_apply (cl : Cluster) (c : Ctx) : logReconciled cl c = (c.logReconciled cl, .ok ()) :=
  rfl

/-! ### Remote calls -/

/-- client.Get of the requested HelmChartProxy; `none` is NotFound. --/
def getHelmChartProxy : Pass (Option HelmChartProxy) := do
  storeCall .get
  return (← getStore).proxy

/-- client.Get of a HelmReleaseProxy; `none` is NotFound. --/
def getHelmReleaseProxy (key : ObjectKey) : Pass (Option HelmReleaseProxy) := do
  storeCall .get
  return (← getStore).getRelease key

/-- client.List of the clusters of a namespace that a selector matches. --/
def listClusters (ns : String) (sel : Selector) : Pass (List Cluster) := do
  storeCall .list
  return (← getStore).listClusters ns sel

/-- client.List of the HelmReleaseProxies of a namespace that carry the labels. --/
def listReleases (ns : String) (want : Labels) : Pass (List HelmReleaseProxy) := do
  storeCall .list
  return (← getStore).listReleases ns want

/-- client.Delete of a HelmReleaseProxy. --/
def deleteRelease (key : ObjectKey) : Pass Unit := do
  storeCall .delete
  match (← getStore).deleteRelease key with
  | some s => setStore s
  | none => throw (.notFound key)

/-- The create or update of a HelmChartProxy's release on a cluster. --/
def applyRelease (cl : Cluster) : Pass Unit := do
  storeCall .apply
  let p ← getProxy
  setStore ((← getStore).applyRelease p cl)

/-- patch.Helper.Patch of the in-memory HelmChartProxy. --/
def patchProxy : Pass Unit := do
  storeCall .patch
  let p ← getProxy
  match (← getStore).patchProxy p with
  | some s => setStore s
  | none => throw (.notFound p.key)

end HelmAddon
