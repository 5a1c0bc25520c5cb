import HelmAddon.Controller

/-! The controller in its environment. Passes of Reconcile for the HelmChartProxy run one at a time
    (its key is the unit of mutual exclusion), interleaved with what other actors do: clusters join,
    leave or are relabelled, the spec is edited, the HelmChartProxy is deleted, and the
    HelmReleaseProxy controller reports on releases and finishes their removal. -/

namespace HelmAddon

/-- One pass of Reconcile from a store. --/
def Store.pass (s : Store) (env : Env) : Ctx × Except Error Result :=
  reconcile (Ctx.init s env)

/-- What happens to the store between two instants. --/
inductive Event
  | reconcile (env : Env)
  | setClusters (clusters : ClusterList)
  | editSpec (spec : HelmChartProxySpec)
  | deleteProxy
  | updateRelease (key : ObjectKey) (status : HelmReleaseProxyStatus) (finalizers : List String)

namespace Store

/-- A spec edit; the generation rises when the spec changes. --/
def editSpec (s : Store) (spec : HelmChartProxySpec) : Store :=
  match s.proxy with
  | none => s
  | some p =>
    if p.spec = spec then s else s.setProxy (some (p.editSpec spec))

/-- The user deletes the HelmChartProxy: without finalizers it goes at once, otherwise it is marked. --/
def deleteProxy (s : Store) : Store :=
  match s.proxy with
  | none => s
  | some p => s.setProxy (if p.finalizers.isEmpty then none else some p.markDeleted)

/-- The HelmReleaseProxy controller writes a release's status and finalizers; a release marked for
    deletion that is left without finalizers is removed. --/
def updateRelease (s : Store) (key : ObjectKey) (status : HelmReleaseProxyStatus) (finalizers : List String) :
    Store :=
  s.setReleases (s.releases.filterMap fun h =>
    if h.key = key then
      if h.deletionTimestamp && finalizers.isEmpty then none else some (h.setStatus status finalizers)
    else some h)

def step (s : Store) : Event → Store
  | .reconcile env => (s.pass env).1.store
  | .setClusters cs => s.setClusters cs
  | .editSpec spec => s.editSpec spec
  | .deleteProxy => s.deleteProxy
  | .updateRelease key status finalizers => s.updateRelease key status finalizers

def run (s : Store) : List Event → Store
  | [] => s
  | e :: es => (s.step e).run es

@[simp] theorem run_nil (s : Store) : s.run [] = s := rfl

@[simp] theorem run_cons (s : Store) (e : Event) (es : List Event) : s.run (e :: es) = (s.step e).run es :=
  rfl

theorem run_append (s : Store) (es fs : List Event) : s.run (es ++ fs) = (s.run es).run fs := by
  induction es generalizing s with
  | nil => rfl
  | cons e es ih => exact ih (s.step e)

end Store

/-- A HelmChartProxy just created: first generation, no finalizer, empty status, no release. --/
def Initial (s : Store) : Prop :=
  s.releases = [] ∧ ∃ p, s.proxy = some p ∧ p.generation = 1 ∧ p.deletionTimestamp = false ∧
    p.finalizers = [] ∧ p.status = {}

/-- The stores a run from a fresh HelmChartProxy reaches. --/
inductive Reachable : Store → Prop
  | init {s : Store} : Initial s → Reachable s
  | step {s : Store} (e : Event) : Reachable s → Reachable (s.step e)

theorem Reachable.run {s : Store} (h : Reachable s) : ∀ es : List Event, Reachable (s.run es)
  | [] => h
  | e :: es => (h.step e).run es

end HelmAddon
