import Mathlib.Data.List.Sort
import Mathlib.Data.String.Basic

/-! The objects the HelmChartProxy controller reads and writes: Clusters, HelmChartProxies and
    HelmReleaseProxies, with their conditions, rollout options and rollout status. Names follow the Go
    API types; an object keeps only the fields the controller reads or writes. -/

namespace HelmAddon

/-! ### Conditions -/

/-- corev1.ConditionStatus. --/
inductive ConditionStatus
  | conditionTrue
  | conditionFalse
  | conditionUnknown
  deriving DecidableEq, Repr, Inhabited

/-- clusterv1.ConditionSeverity; `none` is the empty severity of a True condition. --/
inductive ConditionSeverity
  | none
  | error
  | warning
  | info
  deriving DecidableEq, Repr, Inhabited

/-- clusterv1.Condition without its type (the slot it sits in) and without timestamps. --/
structure Condition where
  status : ConditionStatus
  reason : String
  severity : ConditionSeverity
  message : String
  deriving DecidableEq, Repr, Inhabited

/-- The condition types the controller reads or writes, on either kind of object. --/
inductive ConditionType
  | ready
  | helmReleaseReady
  | helmReleaseProxySpecsUpToDate
  | helmReleaseProxiesReady
  | helmReleaseProxiesRolloutCompleted
  deriving DecidableEq, Repr, Inhabited

/-- clusterv1.Conditions, one slot per condition type; an absent condition is `none`. --/
structure Conditions where
  ready : Option Condition := none
  helmReleaseReady : Option Condition := none
  helmReleaseProxySpecsUpToDate : Option Condition := none
  helmReleaseProxiesReady : Option Condition := none
  helmReleaseProxiesRolloutCompleted : Option Condition := none
  deriving DecidableEq, Repr, Inhabited

/-! ### Object metadata -/

/-- client.ObjectKey, also the namespace and name of a corev1.ObjectReference. --/
structure ObjectKey where
  «namespace» : String
  name : String
  deriving DecidableEq, Repr, Inhabited

/-- A label map as key and value pairs; `List.lookup` reads the entry of a key. --/
abbrev Labels := List (String × String)

/-- getNamespacedNameStringFor: types.NamespacedName.String(), namespace and name joined by `/`. --/
def getNamespacedNameStringFor (ns name : String) : String :=
  ns ++ "/" ++ name

/-! ### Clusters and selectors -/

/-- metav1.LabelSelectorRequirement; the operator is the string the object holds. --/
structure LabelSelectorRequirement where
  key : String
  operator : String
  values : List String
  deriving DecidableEq, Repr, Inhabited

/-- metav1.LabelSelector. --/
structure LabelSelector where
  matchLabels : Labels := []
  matchExpressions : List LabelSelectorRequirement := []
  deriving DecidableEq, Repr, Inhabited

/-- clusterv1.Cluster, by its metadata. --/
structure Cluster where
  «namespace» : String
  name : String
  labels : Labels
  deriving DecidableEq, Repr, Inhabited

/-- The namespaced name the controller identifies a cluster by. --/
def Cluster.key (c : Cluster) : String :=
  getNamespacedNameStringFor c.namespace c.name

/-- The reference a HelmReleaseProxy and the status of a HelmChartProxy keep of a cluster. --/
def Cluster.ref (c : Cluster) : ObjectKey :=
  ⟨c.namespace, c.name⟩

/-! ### HelmChartProxy -/

/-- intstr.IntOrString; `int` holds an int32. --/
inductive IntOrString
  | int (intVal : Int)
  | string (strVal : String)
  deriving DecidableEq, Repr, Inhabited

/-- addonsv1alpha1.RolloutOptions: the step sizes of one phase, each optional. --/
structure RolloutOptions where
  stepInit : Option IntOrString := none
  stepIncrement : Option IntOrString := none
  stepLimit : Option IntOrString := none
  deriving DecidableEq, Repr, Inhabited

/-- addonsv1alpha1.Rollout: the options of the install phase and of the upgrade phase. --/
structure Rollout where
  install : Option RolloutOptions := none
  upgrade : Option RolloutOptions := none
  deriving DecidableEq, Repr, Inhabited

/-- addonsv1alpha1.RolloutStatus. --/
structure RolloutStatus where
  count : Option Int := none
  stepSize : Option Int := none
  deriving DecidableEq, Repr, Inhabited

/-- The chart reference and values template a HelmChartProxy hands to its HelmReleaseProxies. --/
structure ChartSpec where
  chartName : String
  repoURL : String
  version : String
  valuesTemplate : String
  deriving DecidableEq, Repr, Inhabited

structure HelmChartProxySpec where
  clusterSelector : LabelSelector
  chart : ChartSpec
  reconcileStrategy : String
  rollout : Option Rollout
  deriving DecidableEq, Repr, Inhabited

structure HelmChartProxyStatus where
  conditions : Conditions := {}
  matchingClusters : List ObjectKey := []
  rollout : Option RolloutStatus := none
  observedGeneration : Nat := 0
  deriving DecidableEq, Repr, Inhabited

/-- addonsv1alpha1.HelmChartProxy; `deletionTimestamp` says whether the timestamp is set. --/
structure HelmChartProxy where
  «namespace» : String
  name : String
  generation : Nat
  deletionTimestamp : Bool
  finalizers : List String
  spec : HelmChartProxySpec
  status : HelmChartProxyStatus
  deriving DecidableEq, Repr, Inhabited

def HelmChartProxy.key (p : HelmChartProxy) : ObjectKey :=
  ⟨p.namespace, p.name⟩

/-! Updates are written by matching on the object, so that evaluating a pass forces each object
once instead of re-reading it through every later field access. -/

namespace HelmChartProxyStatus

def modifyConditions (f : Conditions → Conditions) : HelmChartProxyStatus → HelmChartProxyStatus
  | ⟨cs, m, r, o⟩ => ⟨f cs, m, r, o⟩

/-- SetMatchingClusters. --/
def setMatchingClusters (m : List ObjectKey) : HelmChartProxyStatus → HelmChartProxyStatus
  | ⟨cs, _, r, o⟩ => ⟨cs, m, r, o⟩

def setRollout (r : RolloutStatus) : HelmChartProxyStatus → HelmChartProxyStatus
  | ⟨cs, m, _, o⟩ => ⟨cs, m, some r, o⟩

def setObservedGeneration (o : Nat) : HelmChartProxyStatus → HelmChartProxyStatus
  | ⟨cs, m, r, _⟩ => ⟨cs, m, r, o⟩

@[simp] theorem modifyConditions_conditions (f : Conditions → Conditions) (s : HelmChartProxyStatus) :
    (s.modifyConditions f).conditions = f s.conditions := rfl
@[simp] theorem modifyConditions_rollout (f : Conditions → Conditions) (s : HelmChartProxyStatus) :
    (s.modifyConditions f).rollout = s.rollout := rfl
@[simp] theorem setMatchingClusters_conditions (m : List ObjectKey) (s : HelmChartProxyStatus) :
    (s.setMatchingClusters m).conditions = s.conditions := rfl
@[simp] theorem setMatchingClusters_rollout (m : List ObjectKey) (s : HelmChartProxyStatus) :
    (s.setMatchingClusters m).rollout = s.rollout := rfl
@[simp] theorem setRollout_conditions (r : RolloutStatus) (s : HelmChartProxyStatus) :
    (s.setRollout r).conditions = s.conditions := rfl
@[simp] theorem setRollout_rollout (r : RolloutStatus) (s : HelmChartProxyStatus) :
    (s.setRollout r).rollout = some r := rfl
@[simp] theorem setObservedGeneration_conditions (o : Nat) (s : HelmChartProxyStatus) :
    (s.setObservedGeneration o).conditions = s.conditions := rfl
@[simp] theorem setObservedGeneration_rollout (o : Nat) (s : HelmChartProxyStatus) :
    (s.setObservedGeneration o).rollout = s.rollout := rfl

end HelmChartProxyStatus

namespace HelmChartProxy

def modifyStatus (f : HelmChartProxyStatus → HelmChartProxyStatus) : HelmChartProxy → HelmChartProxy
  | ⟨ns, n, g, d, fs, sp, st⟩ => ⟨ns, n, g, d, fs, sp, f st⟩

def setFinalizers (fs : List String) : HelmChartProxy → HelmChartProxy
  | ⟨ns, n, g, d, _, sp, st⟩ => ⟨ns, n, g, d, fs, sp, st⟩

/-- A spec edit; the API server raises the generation. --/
def editSpec (sp : HelmChartProxySpec) : HelmChartProxy → HelmChartProxy
  | ⟨ns, n, g, d, fs, _, st⟩ => ⟨ns, n, g + 1, d, fs, sp, st⟩

/-- A delete request on an object with finalizers sets its deletion timestamp. --/
def markDeleted : HelmChartProxy → HelmChartProxy
  | ⟨ns, n, g, _, fs, sp, st⟩ => ⟨ns, n, g, true, fs, sp, st⟩

/-- WithStatusObservedGeneration: the status records the object's generation. --/
def observeGeneration : HelmChartProxy → HelmChartProxy
  | ⟨ns, n, g, d, fs, sp, st⟩ => ⟨ns, n, g, d, fs, sp, st.setObservedGeneration g⟩

@[simp] theorem modifyStatus_status (f : HelmChartProxyStatus → HelmChartProxyStatus) (p : HelmChartProxy) :
    (p.modifyStatus f).status = f p.status := rfl
@[simp] theorem modifyStatus_spec (f : HelmChartProxyStatus → HelmChartProxyStatus) (p : HelmChartProxy) :
    (p.modifyStatus f).spec = p.spec := rfl
@[simp] theorem modifyStatus_namespace (f : HelmChartProxyStatus → HelmChartProxyStatus) (p : HelmChartProxy) :
    (p.modifyStatus f).namespace = p.namespace := rfl
@[simp] theorem modifyStatus_name (f : HelmChartProxyStatus → HelmChartProxyStatus) (p : HelmChartProxy) :
    (p.modifyStatus f).name = p.name := rfl
@[simp] theorem modifyStatus_generation (f : HelmChartProxyStatus → HelmChartProxyStatus) (p : HelmChartProxy) :
    (p.modifyStatus f).generation = p.generation := rfl
@[simp] theorem modifyStatus_deletionTimestamp (f : HelmChartProxyStatus → HelmChartProxyStatus)
    (p : HelmChartProxy) : (p.modifyStatus f).deletionTimestamp = p.deletionTimestamp := rfl
@[simp] theorem modifyStatus_finalizers (f : HelmChartProxyStatus → HelmChartProxyStatus) (p : HelmChartProxy) :
    (p.modifyStatus f).finalizers = p.finalizers := rfl
@[simp] theorem observeGeneration_status_conditions (p : HelmChartProxy) :
    p.observeGeneration.status.conditions = p.status.conditions := rfl
@[simp] theorem observeGeneration_status_rollout (p : HelmChartProxy) :
    p.observeGeneration.status.rollout = p.status.rollout := rfl
@[simp] theorem observeGeneration_finalizers (p : HelmChartProxy) :
    p.observeGeneration.finalizers = p.finalizers := rfl
@[simp] theorem observeGeneration_deletionTimestamp (p : HelmChartProxy) :
    p.observeGeneration.deletionTimestamp = p.deletionTimestamp := rfl
@[simp] theorem setFinalizers_finalizers (fs : List String) (p : HelmChartProxy) :
    (p.setFinalizers fs).finalizers = fs := rfl
@[simp] theorem setFinalizers_status (fs : List String) (p : HelmChartProxy) :
    (p.setFinalizers fs).status = p.status := rfl
@[simp] theorem setFinalizers_spec (fs : List String) (p : HelmChartProxy) :
    (p.setFinalizers fs).spec = p.spec := rfl
@[simp] theorem setFinalizers_namespace (fs : List String) (p : HelmChartProxy) :
    (p.setFinalizers fs).namespace = p.namespace := rfl
@[simp] theorem setFinalizers_name (fs : List String) (p : HelmChartProxy) :
    (p.setFinalizers fs).name = p.name := rfl
@[simp] theorem setFinalizers_generation (fs : List String) (p : HelmChartProxy) :
    (p.setFinalizers fs).generation = p.generation := rfl
@[simp] theorem setFinalizers_deletionTimestamp (fs : List String) (p : HelmChartProxy) :
    (p.setFinalizers fs).deletionTimestamp = p.deletionTimestamp := rfl

end HelmChartProxy

/-- `Status.Rollout.Count`, read as 0 when absent (`ptr.Deref`). --/
def HelmChartProxyStatus.rolloutCount (s : HelmChartProxyStatus) : Int :=
  (s.rollout.bind (·.count)).getD 0

/-- `Status.Rollout.StepSize`, read as 0 when absent. --/
def HelmChartProxyStatus.rolloutStepSize (s : HelmChartProxyStatus) : Int :=
  (s.rollout.bind (·.stepSize)).getD 0

/-! ### HelmReleaseProxy -/

/-- metav1.OwnerReference, by the fields the mapper reads. --/
structure OwnerReference where
  name : String
  controller : Option Bool
  deriving DecidableEq, Repr, Inhabited

structure HelmReleaseProxySpec where
  clusterRef : ObjectKey
  chart : ChartSpec
  deriving DecidableEq, Repr, Inhabited

structure HelmReleaseProxyStatus where
  conditions : Conditions := {}
  observedGeneration : Nat := 0
  deriving DecidableEq, Repr, Inhabited

/-- addonsv1alpha1.HelmReleaseProxy. --/
structure HelmReleaseProxy where
  «namespace» : String
  name : String
  labels : Labels
  ownerReferences : List OwnerReference
  generation : Nat
  deletionTimestamp : Bool
  finalizers : List String
  spec : HelmReleaseProxySpec
  status : HelmReleaseProxyStatus
  deriving DecidableEq, Repr, Inhabited

def HelmReleaseProxy.key (h : HelmReleaseProxy) : ObjectKey :=
  ⟨h.namespace, h.name⟩

namespace HelmReleaseProxy

/-- An update of the spec; the API server raises the generation when the spec changes. --/
def updateSpec (sp : HelmReleaseProxySpec) : HelmReleaseProxy → HelmReleaseProxy
  | ⟨ns, n, ls, os, g, d, fs, old, st⟩ =>
    if old = sp then ⟨ns, n, ls, os, g, d, fs, old, st⟩ else ⟨ns, n, ls, os, g + 1, d, fs, sp, st⟩

/-- A delete request on an object with finalizers sets its deletion timestamp. --/
def markDeleted : HelmReleaseProxy → HelmReleaseProxy
  | ⟨ns, n, ls, os, g, _, fs, sp, st⟩ => ⟨ns, n, ls, os, g, true, fs, sp, st⟩

/-- What the HelmReleaseProxy controller writes: status and finalizers. --/
def setStatus (st : HelmReleaseProxyStatus) (fs : List String) : HelmReleaseProxy → HelmReleaseProxy
  | ⟨ns, n, ls, os, g, d, _, sp, _⟩ => ⟨ns, n, ls, os, g, d, fs, sp, st⟩

end HelmReleaseProxy

/-- The namespaced name of the cluster a release targets, `Spec.ClusterRef`. --/
def HelmReleaseProxy.clusterKey (h : HelmReleaseProxy) : String :=
  getNamespacedNameStringFor h.spec.clusterRef.namespace h.spec.clusterRef.name

/-! ### API constants

The api package is not in src/. Its constants are modelled from the spec, which names the finalizer,
the owner label and the `InstallOnce` strategy; each string is its constant's identifier or its
documented value. -/

/-- Modelled from the spec: addonsv1alpha1.HelmChartProxyFinalizer, the well-known marker. --/
def helmChartProxyFinalizer : String := "addons.cluster.x-k8s.io"

/-- Modelled from the spec: addonsv1alpha1.HelmChartProxyLabelName, the label linking a release to
    its HelmChartProxy. --/
def helmChartProxyLabelName : String := "helmchartproxy.addons.cluster.x-k8s.io/name"

/-- Modelled from the spec: clusterv1.ClusterNameLabel, the label naming a release's cluster. --/
def clusterNameLabel : String := "cluster.x-k8s.io/cluster-name"

/-- Modelled from the spec: addonsv1alpha1.ReconcileStrategyInstallOnce. --/
def reconcileStrategyInstallOnce : String := "InstallOnce"

/-- Modelled from the spec: the reasons the controller writes. --/
def clusterSelectionFailedReason : String := "ClusterSelectionFailed"
def helmReleaseProxySpecsUpdatingReason : String := "HelmReleaseProxySpecsUpdating"
def helmReleaseProxiesRolloutUndefinedReason : String := "HelmReleaseProxiesRolloutUndefined"
def helmReleaseProxiesRolloutNotCompleteReason : String := "HelmReleaseProxiesRolloutNotComplete"

/-! ### Controller types -/

/-- helmReleaseProxyRolloutMeta: a matching cluster, whether a HelmReleaseProxy exists for it, and
    whether that release's HelmReleaseReady condition is True. --/
structure RolloutMeta where
  cluster : Cluster
  hrpExists : Bool
  hrpReady : Bool
  deriving DecidableEq, Repr, Inhabited

/-- installOrUpgrade: which phase's rollout options a rollout follows. --/
inductive InstallOrUpgrade
  | install
  | upgrade
  deriving DecidableEq, Repr, Inhabited

def hrpRolloutCompletedMsg : String := "HelmChartProxy does not use rollout"

/-- ctrl.Result; `RequeueAfter` is never set by this controller. --/
structure Result where
  requeue : Bool := false
  deriving DecidableEq, Repr, Inhabited

def Result.isZero (r : Result) : Bool := !r.requeue

/-- `ctrl.Result{Requeue: true}`. --/
def requeue : Result := { requeue := true }

end HelmAddon
