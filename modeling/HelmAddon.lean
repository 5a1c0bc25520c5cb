import HelmAddon.Api
import HelmAddon.Library
import HelmAddon.Store
import HelmAddon.Controller
import HelmAddon.System
import HelmAddon.Theorems.PassBase
import HelmAddon.Theorems.RolloutMetadata
import HelmAddon.Theorems.RolloutBatch
import HelmAddon.Theorems.RolloutStatus
import HelmAddon.Theorems.RolloutOrder
import HelmAddon.Theorems.Reconcile
import HelmAddon.Theorems.Deletion
import HelmAddon.Theorems.RolloutInvariant
import HelmAddon.Theorems.RolloutRun
import HelmAddon.Theorems.Watch
import HelmAddon.Theorems.ErrorPropagation
import HelmAddon.Theorems.Finalizer
import HelmAddon.Theorems.PassWrites
import HelmAddon.Theorems.Convergence
import HelmAddon.Theorems.PassOrder
import HelmAddon.Theorems.Readiness
import HelmAddon.Theorems.RolloutProgress
import HelmAddon.Theorems.RolloutCount
