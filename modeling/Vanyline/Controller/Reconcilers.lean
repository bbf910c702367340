import Vanyline.Controller.Api
import Vanyline.Crds.Names

/-!
# The reconcilers

The reconcilers of Owners, Projects, Sandboxes and Applications as programs over
the requests of `Vanyline.Controller.Api`, each in a namespace of its own.  A
Sandbox and a Project have an `apply` and, before their finalizer is released, a
`cleanup`; the reconciler of an Owner does both itself; an Application has no
finalizer.

The contents of Pods, Jobs, policies and the like are left out: of those objects
only the identity matters here.
-/

namespace Vanyline.Controller

open Vanyline.Lib Vanyline.Crds Vanyline.Controller.Api

/-! ## Requests by name -/

def cacheLookup (ns : Name) : Reconciler (Option Name) := Program.request (Request.cacheLookup ns)

def cacheInsert (ns app : Name) : Reconciler Unit := Program.request (Request.cacheInsert ns app)

def getProject (ns name : Name) : Reconciler Project := do
  orFail (← Program.request (.getProject ns name))

def getOwner (ns name : Name) : Reconciler Owner := do
  orFail (← Program.request (.getOwner ns name))

def getApplication (ns name : Name) : Reconciler Application := do
  orFail (← Program.request (.getApplication ns name))

def getNamespace (name : Name) : Reconciler Namespace := do
  orFail (← Program.request (.getNamespace name))

def getOptJob (ns name : Name) : Reconciler (Option Job) := do
  orFail (← Program.request (.getOptJob ns name))

def getOptPod (ns name : Name) : Reconciler (Option Pod) := do
  orFail (← Program.request (.getOptPod ns name))

def create (ns : Name) (manifest : Manifest) : Reconciler Unit := do
  orFail (← Program.request (.create ns manifest))

/-- A forced server-side apply. -/
def patchApply (ns name : Name) (manifest : Manifest) : Reconciler Unit := do
  orFail (← Program.request (.apply ns name manifest))

def delete (kind : Kind) (ns name : Name) : Reconciler Unit := do
  orFail (← Program.request (.delete kind ns name))

/-- Delete the object when it is there. -/
def deleteIfPresent (kind : Kind) (ns name : Name) : Reconciler Unit := do
  if (← orFail (← Program.request (.getOpt kind ns name))).isSome then
    delete kind ns name

def listProjects (ns : Name) : Reconciler (List Project) := do
  orFail (← Program.request (.listProjects ns))

def listSandboxes (ns : Name) : Reconciler (List Sandbox) := do
  orFail (← Program.request (.listSandboxes ns))

def bump (ns sandbox : Name) : Reconciler Unit := do
  orFail (← Program.request (.bump ns sandbox))

section Rules

variable {past : List (Exchange Answer)} {ns name : Name} {α : Type}

/-- The result of a request: an error of the apiserver is an error of the controller. -/
def kubeResult : Except ApiError α → Except ControllerError α
  | .ok a => .ok a
  | .error e => .error (.kube e)

theorem meets_orFail {P : List (Exchange Answer) → Except ControllerError α → Prop}
    {x : Except ApiError α} : (orFail x).Meets P past ↔ P past (kubeResult x) := by
  cases x <;> rfl

theorem meets_decided {P : List (Exchange Answer) → Except ControllerError α → Prop}
    {x : Except ControllerError α} : (decided x).Meets P past ↔ P past x := Iff.rfl

theorem meets_cacheLookup {P : List (Exchange Answer) → Except ControllerError (Option Name) → Prop} :
    (cacheLookup ns).Meets P past ↔ ∀ x, P (⟨.cacheLookup ns, x⟩ :: past) (.ok x) := Iff.rfl

theorem meets_cacheInsert {app : Name} {P : List (Exchange Answer) → Except ControllerError Unit → Prop} :
    (cacheInsert ns app).Meets P past ↔ P (⟨.cacheInsert ns app, ()⟩ :: past) (.ok ()) :=
  ⟨fun h => h (), fun h _ => h⟩

theorem meets_getProject {P : List (Exchange Answer) → Except ControllerError Project → Prop} :
    (getProject ns name).Meets P past ↔
      ∀ x, P (⟨.getProject ns name, x⟩ :: past) (kubeResult x) :=
  forall_congr' fun _ => meets_orFail

theorem meets_getOwner {P : List (Exchange Answer) → Except ControllerError Owner → Prop} :
    (getOwner ns name).Meets P past ↔ ∀ x, P (⟨.getOwner ns name, x⟩ :: past) (kubeResult x) :=
  forall_congr' fun _ => meets_orFail

theorem meets_getApplication {P : List (Exchange Answer) → Except ControllerError Application → Prop} :
    (getApplication ns name).Meets P past ↔
      ∀ x, P (⟨.getApplication ns name, x⟩ :: past) (kubeResult x) :=
  forall_congr' fun _ => meets_orFail

theorem meets_getNamespace {P : List (Exchange Answer) → Except ControllerError Namespace → Prop} :
    (getNamespace name).Meets P past ↔ ∀ x, P (⟨.getNamespace name, x⟩ :: past) (kubeResult x) :=
  forall_congr' fun _ => meets_orFail

theorem meets_getOptJob {P : List (Exchange Answer) → Except ControllerError (Option Job) → Prop} :
    (getOptJob ns name).Meets P past ↔ ∀ x, P (⟨.getOptJob ns name, x⟩ :: past) (kubeResult x) :=
  forall_congr' fun _ => meets_orFail

theorem meets_create {m : Manifest} {P : List (Exchange Answer) → Except ControllerError Unit → Prop} :
    (create ns m).Meets P past ↔ ∀ x, P (⟨.create ns m, x⟩ :: past) (kubeResult x) :=
  forall_congr' fun _ => meets_orFail

theorem meets_delete {kind : Kind} {P : List (Exchange Answer) → Except ControllerError Unit → Prop} :
    (delete kind ns name).Meets P past ↔
      ∀ x, P (⟨.delete kind ns name, x⟩ :: past) (kubeResult x) :=
  forall_congr' fun _ => meets_orFail

end Rules

section Asks

variable {R : Request → Prop} {α : Type}

theorem asks_orFail (x : Except ApiError α) : (orFail x).Asks R := by
  cases x with
  | ok a => exact Program.asks_pure
  | error e => exact Program.asks_throw

theorem asks_decided (x : Except ControllerError α) : (decided x).Asks R := trivial

/-- A request and what is done with its answer. -/
theorem asks_call {q : Request} (hq : R q) {f : Answer q → Reconciler α}
    (hf : ∀ x, (f x).Asks R) : (Program.request q >>= f).Asks R :=
  (Program.asks_request hq).bind hf

end Asks

/-! ## Names of the objects -/

def podName (sandbox : Name) : Name := "sandbox-".toList ++ sandbox

def checkoutJobName (sandbox : Name) : Name := "sandbox-".toList ++ sandbox ++ "-checkout".toList

def worktreeRemoveJobName (sandbox : Name) : Name :=
  "sandbox-".toList ++ sandbox ++ "-remove".toList

def netpolName (sandbox : Name) : Name := "sandbox-".toList ++ sandbox

def ingressName (sandbox : Name) : Name := "sandbox-".toList ++ sandbox

def netpolEgressName (sandbox : Name) : Name := "sandbox-".toList ++ sandbox ++ "-egress".toList

def restateServiceName (application : Name) : Name := application ++ "-restate".toList

def applicationName (application : Name) : Name := "application-".toList ++ application

def cookieSecretName (application : Name) : Name := application ++ "-cookie".toList

/-- The Secret for the certificate of an Ingress. -/
def tlsSecretName (ingress : Name) : Name := ingress ++ "-cert".toList

def homePvcName (owner : Name) : Name := "owner-".toList ++ owner ++ "-home".toList

def serviceAccountName (owner : Name) : Name := "owner-".toList ++ owner

def projectPvcName (project : Name) : Name := "project-".toList ++ project

def maintSaName (project : Name) : Name := "project-".toList ++ project ++ "-maint".toList

def initJobName (project : Name) : Name := "project-".toList ++ project ++ "-init".toList

def fetchCronjobName (project : Name) : Name := "project-".toList ++ project ++ "-fetch".toList

def purgeJobName (project : Name) : Name := "project-".toList ++ project ++ "-purge".toList

/-- The annotation that names the issuer of certificates. -/
def certManagerAnnotationKey (tlsIssuerKind : Option Name) : Name :=
  if tlsIssuerKind = some "Issuer".toList then "cert-manager.io/issuer".toList
  else "cert-manager.io/cluster-issuer".toList

/-! ## The namespace of an Owner -/

namespace OwnerNamespaces

/-- `crds::owner_namespace_name` with the error of the controller. -/
def ownerNamespaceName (appNamespace owner : Name) : Except ControllerError Name :=
  match Crds.ownerNamespaceName appNamespace owner with
  | .ok name => .ok name
  | .error reason => .error (.invalidNamespaceName (appNamespace ++ '-' :: owner) reason)

def buildOwnerNamespace (owner : Owner) (appNamespace : Name) : Except ControllerError Manifest :=
  (ownerNamespaceName appNamespace owner.name).map fun name => .free .ownerNamespace name none

/-- Does the namespace carry the labels of this Owner? -/
def ownedBy (ns : Namespace) (owner appNamespace : Name) : Bool :=
  ns.ownerLabel = some owner && ns.appNamespaceLabel = some appNamespace

/-- May the namespace be applied? -/
def ensureDecision (existing : Option Namespace) (owner appNamespace : Name) :
    Except ControllerError Unit :=
  match existing with
  | none => .ok ()
  | some ns =>
    if !ownedBy ns owner appNamespace then .error (.namespaceCollision ns.name owner)
    else if ns.deletionTimestamp then .error (.namespaceTerminating ns.name)
    else .ok ()

inductive CleanupStep
  | done
  | delete
  | wait
  deriving DecidableEq

/-- What `cleanupNamespace` returns. -/
inductive Cleanup
  | done
  | pending
  deriving DecidableEq

/-- What is left to do to delete the namespace? -/
def cleanupDecision (existing : Option Namespace) (owner appNamespace : Name) :
    Except ControllerError CleanupStep :=
  match existing with
  | none => .ok .done
  | some ns =>
    if !ownedBy ns owner appNamespace then .error (.namespaceCollision ns.name owner)
    else if ns.deletionTimestamp then .ok .wait
    else .ok .delete

/-- The binding of the app's rights, when the Owner has an Application. -/
def appRoleBindingFor (owner : Owner) (applicationResolves : Bool) (ownerNamespace : Name) :
    Option Manifest :=
  match owner.applicationRef with
  | some _ =>
    if applicationResolves then some (.free .roleBinding "vanyline-app".toList (some ownerNamespace))
    else none
  | none => none

/-- The label of a namespace, or the error that it has none. -/
def appNamespaceOfNamespace (ns : Namespace) : Except ControllerError Name :=
  match ns.appNamespaceLabel with
  | some app => .ok app
  | none => .error (.namespaceNotManaged ns.name)

/-- The application namespace of the namespace of an Owner: from the cache of the
process, or from the label, which then goes to the cache. -/
def appNamespaceOf (ns : Name) : Reconciler Name := do
  match ← cacheLookup ns with
  | some app => return app
  | none =>
    let app ← decided (appNamespaceOfNamespace (← getNamespace ns))
    cacheInsert ns app
    return app

/-- Does the reference of the Owner lead to an Application? -/
def applicationResolves (owner : Owner) (appNamespace : Name) : Reconciler Bool :=
  match owner.applicationRef with
  | some name => do
    return (← orFail (← Program.request (.getOptApplication appNamespace name))).isSome
  | none => return false

/-- Apply the namespace of the Owner, and the binding of the app's rights. -/
def ensureNamespace (owner : Owner) (appNamespace : Name) : Reconciler Unit := do
  let ownerNamespace ← decided (ownerNamespaceName appNamespace owner.name)
  let existing ← orFail (← Program.request (.getOptNamespace ownerNamespace))
  decided (ensureDecision existing owner.name appNamespace)
  let ns ← decided (buildOwnerNamespace owner appNamespace)
  patchApply [] ownerNamespace ns
  let resolves ← applicationResolves owner appNamespace
  match appRoleBindingFor owner resolves ownerNamespace with
  | some binding => patchApply ownerNamespace "vanyline-app".toList binding
  | none => return

/-- Delete the namespace of the Owner; done when it is gone. -/
def cleanupNamespace (owner : Owner) (appNamespace : Name) : Reconciler Cleanup := do
  let ownerNamespace ← decided (ownerNamespaceName appNamespace owner.name)
  let existing ← orFail (← Program.request (.getOptNamespace ownerNamespace))
  match ← decided (cleanupDecision existing owner.name appNamespace) with
  | .done => return .done
  | .wait => return .pending
  | .delete =>
    delete .ownerNamespace [] ownerNamespace
    return .pending

end OwnerNamespaces

/-! ## Owners -/

namespace OwnerReconciler

def ownerFinalizer : Name := "vanyline.solidite.fr/owner-namespace".toList

/-- The namespace of the CR, `default` when it has none. -/
def appNamespaceOfCr (owner : Owner) : Name := owner.ns.getD "default".toList

/-- The computed namespace, if the name is valid. -/
def ownerNamespaceOfCr (owner : Owner) : Option Name :=
  (OwnerNamespaces.ownerNamespaceName (appNamespaceOfCr owner) owner.name).toOption

def buildHomePvc (owner : Owner) : Manifest :=
  .free .persistentVolumeClaim (homePvcName owner.name) (ownerNamespaceOfCr owner)

def buildServiceAccount (owner : Owner) : Manifest :=
  .free .serviceAccount (serviceAccountName owner.name) (ownerNamespaceOfCr owner)

def computeStatus (owner : Owner) : OwnerStatus where
  ns := ownerNamespaceOfCr owner
  pvcName := some (homePvcName owner.name)
  serviceAccount := some (serviceAccountName owner.name)

/-- The part for an Owner that is being deleted. -/
def reconcileDeleted (owner : Owner) : Reconciler Action := do
  let app := appNamespaceOfCr owner
  match ← OwnerNamespaces.cleanupNamespace owner app with
  | .pending => return .requeue 30
  | .done =>
    let remaining := owner.finalizers.filter (· ≠ ownerFinalizer)
    orFail (← Program.request (.patchFinalizers app owner.name remaining))
    return .awaitChange

/-- Add the finalizer when it is missing. -/
def ensureFinalizer (owner : Owner) (app : Name) : Reconciler Unit := do
  if ownerFinalizer ∈ owner.finalizers then return
  else orFail (← Program.request
    (.patchFinalizers app owner.name (owner.finalizers ++ [ownerFinalizer])))

/-- Touch the Sandboxes of the Projects of the Owner, so that they are reconciled. -/
def bumpSandboxes (owner : Owner) (ownerNs : Name) : Reconciler Unit := do
  let projects ← listProjects ownerNs
  let projectNames := (projects.filter (·.owner = owner.name)).map (·.name)
  if projectNames = [] then return
  else
    let sandboxes ← listSandboxes ownerNs
    (sandboxes.filter (·.project ∈ projectNames)).forM fun sandbox => bump ownerNs sandbox.name

/-- The part for an Owner that is there to stay. -/
def reconcileLive (owner : Owner) : Reconciler Action := do
  let app := appNamespaceOfCr owner
  ensureFinalizer owner app
  OwnerNamespaces.ensureNamespace owner app
  let ownerNs ← decided (OwnerNamespaces.ownerNamespaceName app owner.name)
  patchApply ownerNs (homePvcName owner.name) (buildHomePvc owner)
  patchApply ownerNs (serviceAccountName owner.name) (buildServiceAccount owner)
  orFail (← Program.request (.patchOwnerStatus app owner.name (computeStatus owner)))
  bumpSandboxes owner ownerNs
  return .requeue 300

def reconcile (owner : Owner) : Reconciler Action :=
  if owner.deletionTimestamp then reconcileDeleted owner else reconcileLive owner

end OwnerReconciler

/-! ## Projects -/

namespace ProjectReconciler

/-- The Owner lives in the application namespace. -/
def fetchOwner (project : Project) (ns : Name) : Reconciler Owner := do
  let appNs ← OwnerNamespaces.appNamespaceOf ns
  getOwner appNs project.owner

/-- An object of the Project. -/
def owned (project : Project) (kind : Kind) (name : Name) : Manifest :=
  .owned kind name project.ns (.project, project.name)

def buildInitJob (project : Project) : Manifest := owned project .job (initJobName project.name)

def buildPurgeJob (project : Project) : Manifest := owned project .job (purgeJobName project.name)

def computeStatus (project : Project) (cloned : Bool) : ProjectStatus :=
  ⟨some (projectPvcName project.name), cloned⟩

/-- Has the init Job succeeded?  It is created when it is not there. -/
def reconcileInit (project : Project) (ns : Name) : Reconciler Bool := do
  match ← getOptJob ns (initJobName project.name) with
  | some job => return decide (0 < job.succeeded.getD 0)
  | none =>
    create ns (buildInitJob project)
    return false

/-- The fetch CronJob, once the repository is cloned. -/
def reconcileFetch (project : Project) (ns : Name) (cloned : Bool) : Reconciler Unit :=
  if cloned then
    patchApply ns (fetchCronjobName project.name)
      (owned project .cronJob (fetchCronjobName project.name))
  else pure ()

def apply (project : Project) (ns : Name) : Reconciler Action := do
  let owner ← fetchOwner project ns
  let some _ownerPvcName := owner.status.bind (·.pvcName)
    | Program.throw (.ownerNotReady project.owner project.name)
  let maint := maintSaName project.name
  patchApply ns maint (owned project .serviceAccount maint)
  patchApply ns maint (owned project .role maint)
  patchApply ns maint (owned project .roleBinding maint)
  let pvc := projectPvcName project.name
  patchApply ns pvc (owned project .persistentVolumeClaim pvc)
  let cloned ← reconcileInit project ns
  reconcileFetch project ns cloned
  orFail (← Program.request (.patchProjectStatus ns project.name (computeStatus project cloned)))
  let sandboxes ← listSandboxes ns
  (sandboxes.filter (·.project = project.name)).forM fun sandbox => bump ns sandbox.name
  return .requeue (if cloned then 300 else 15)

/-- The PVC of the Owner; `none` also when the Owner cannot be read. -/
def ownerPvcName (project : Project) (ns : Name) : Reconciler (Option Name) := do
  match ← (fetchOwner project ns).attempt with
  | .ok owner => return owner.status.bind (·.pvcName)
  | .error _ => return none

def cleanup (project : Project) (ns : Name) : Reconciler Action := do
  let some _ownerPvcName ← ownerPvcName project ns | return .awaitChange
  match ← getOptJob ns (purgeJobName project.name) with
  | some job =>
    if 0 < job.succeeded.getD 0 then return .awaitChange
    else Program.throw (.purgePending project.name)
  | none =>
    create ns (buildPurgeJob project)
    Program.throw (.purgePending project.name)

end ProjectReconciler

/-! ## Sandboxes -/

namespace SandboxReconciler

/-- An issuer is there and not empty. -/
def requireTokenIssuer (issuer : Option Name) : Except ControllerError Name :=
  match issuer with
  | some issuer => if issuer ≠ [] then .ok issuer else .error .sandboxIssuerUnavailable
  | none => .error .sandboxIssuerUnavailable

def requireNamespace (sandbox : Sandbox) : Except ControllerError Name :=
  match sandbox.ns with
  | some ns => .ok ns
  | none => .error (.sandboxNamespaceMissing sandbox.name)

/-- An object of the Sandbox. -/
def owned (sandbox : Sandbox) (kind : Kind) (name : Name) : Manifest :=
  .owned kind name sandbox.ns (.sandbox, sandbox.name)

def buildCheckoutJob (sandbox : Sandbox) : Manifest :=
  owned sandbox .job (checkoutJobName sandbox.name)

def buildWorktreeRemoveJob (sandbox : Sandbox) : Manifest :=
  owned sandbox .job (worktreeRemoveJobName sandbox.name)

def buildSandboxPod (sandbox : Sandbox) : Manifest := owned sandbox .pod (podName sandbox.name)

def buildSandboxService (sandbox : Sandbox) : Manifest :=
  owned sandbox .service (serviceName sandbox.name)

def buildSandboxNetpol (sandbox : Sandbox) : Manifest :=
  owned sandbox .networkPolicy (netpolName sandbox.name)

/-- No policy when nobody declares a rule. -/
def buildSandboxEgressNetpol (sandbox : Sandbox) (ownerEgress projectEgress : List EgressRule) :
    Option Manifest :=
  if (ownerEgress ++ projectEgress ++ sandbox.egress).isEmpty then none
  else some (owned sandbox .networkPolicy (netpolEgressName sandbox.name))

def buildSandboxIngress (sandbox : Sandbox) (application : Application) : Manifest :=
  let host := sandbox.name ++ ".sandboxes.".toList ++ application.host
  let name := ingressName sandbox.name
  { kind := .ingress
    metadata :=
      { name
        ns := sandbox.ns
        annotations := Function.update application.ingressAnnotations
          (certManagerAnnotationKey application.tlsIssuerKind) (some application.tlsIssuerName)
        owner := some (.sandbox, sandbox.name) }
    ingress := some
      { ingressClassName := application.ingressClassName
        tlsHosts := [host]
        tlsSecretName := tlsSecretName name
        ruleHost := host
        path := "/".toList
        backendService := serviceName sandbox.name
        backendPort := mcpPort } }

def fetchProject (sandbox : Sandbox) (ns : Name) : Reconciler Project :=
  getProject ns sandbox.project

/-- The Owner lives in the application namespace. -/
def fetchOwner (project : Project) (ns : Name) : Reconciler Owner := do
  let appNs ← OwnerNamespaces.appNamespaceOf ns
  getOwner appNs project.owner

/-- The Application lives in the application namespace too. -/
def fetchApplication (owner : Owner) (ns : Name) : Reconciler (Option Application) := do
  let some name := owner.applicationRef | return none
  let appNs ← OwnerNamespaces.appNamespaceOf ns
  some <$> getApplication appNs name

/-- The Application and its namespace, if it has the workflow engine. -/
def fetchRestate (owner : Owner) (ns : Name) : Reconciler (Option (Name × Name)) := do
  match owner.applicationRef with
  | some name =>
    let appNs ← OwnerNamespaces.appNamespaceOf ns
    let app ← getApplication appNs name
    return if app.restate then some (name, appNs) else none
  | none => return none

/-- The phase that a Pod gives. -/
def podPhase (pod : Pod) : Name :=
  if pod.phase = some "Running".toList then "Running".toList
  else if pod.phase = some "Failed".toList then "Failed".toList
  else "Provisioning".toList

/-- Suspend the Sandbox, wait for the checkout, or look after the Pod. -/
def reconcilePod (sandbox : Sandbox) (ns : Name) (checkedOut : Bool) : Reconciler Name := do
  if sandbox.suspended then
    if (← getOptPod ns (podName sandbox.name)).isSome then
      delete .pod ns (podName sandbox.name)
    return "Suspended".toList
  else if !checkedOut then
    return "Provisioning".toList
  else
    match ← getOptPod ns (podName sandbox.name) with
    | some pod => return podPhase pod
    | none =>
      create ns (buildSandboxPod sandbox)
      return "Provisioning".toList

/-- Apply the egress policy, or remove it when there is none. -/
def reconcileEgress (sandbox : Sandbox) (ns : Name) (ownerEgress projectEgress : List EgressRule) :
    Reconciler Unit :=
  match buildSandboxEgressNetpol sandbox ownerEgress projectEgress with
  | some netpol => patchApply ns (netpolEgressName sandbox.name) netpol
  | none => deleteIfPresent .networkPolicy ns (netpolEgressName sandbox.name)

/-- Apply the Ingress, or remove it when there is no Application. -/
def reconcileIngress (sandbox : Sandbox) (ns : Name) (application : Option Application) :
    Reconciler Unit :=
  match application with
  | some application =>
    patchApply ns (ingressName sandbox.name) (buildSandboxIngress sandbox application)
  | none => deleteIfPresent .ingress ns (ingressName sandbox.name)

/-- Has the checkout Job succeeded?  It is created when it is not there. -/
def reconcileCheckout (sandbox : Sandbox) (ns : Name) : Reconciler Bool := do
  match ← getOptJob ns (checkoutJobName sandbox.name) with
  | some job => return decide (0 < job.succeeded.getD 0)
  | none =>
    create ns (buildCheckoutJob sandbox)
    return false

def apply (tokenIssuer : Option Name) (sandbox : Sandbox) (ns : Name) : Reconciler Action := do
  let _tokenIssuer ← decided (requireTokenIssuer tokenIssuer)
  let project ← fetchProject sandbox ns
  if !project.status.any (·.cloned) then
    Program.throw (.projectNotReady sandbox.project sandbox.name)
  else
  let owner ← fetchOwner project ns
  let some _ownerPvcName := owner.status.bind (·.pvcName)
    | Program.throw (.ownerNotReady project.owner sandbox.project)
  let some _ownerServiceAccount := owner.status.bind (·.serviceAccount)
    | Program.throw (.ownerNotReady project.owner sandbox.project)
  let checkedOut ← reconcileCheckout sandbox ns
  let _restate ← fetchRestate owner ns
  let phase ← reconcilePod sandbox ns checkedOut
  let application ← fetchApplication owner ns
  patchApply ns (serviceName sandbox.name) (buildSandboxService sandbox)
  let _appNs ← OwnerNamespaces.appNamespaceOf ns
  patchApply ns (netpolName sandbox.name) (buildSandboxNetpol sandbox)
  reconcileEgress sandbox ns owner.egress project.egress
  reconcileIngress sandbox ns application
  orFail (← Program.request (.patchSandboxStatus ns sandbox.name phase (serviceName sandbox.name)))
  return .requeue (if phase = "Running".toList ∨ phase = "Suspended".toList then 300 else 15)

/-- The PVC of the Owner; `none` also when the Owner cannot be read. -/
def ownerPvcName (project : Project) (ns : Name) : Reconciler (Option Name) := do
  match ← (fetchOwner project ns).attempt with
  | .ok owner => return owner.status.bind (·.pvcName)
  | .error _ => return none

/-- Create the remove Job and ask to come back. -/
def startRemoval (sandbox : Sandbox) (ns : Name) : Reconciler Action := do
  create ns (buildWorktreeRemoveJob sandbox)
  Program.throw (.worktreeRemovalPending sandbox.name)

def cleanup (sandbox : Sandbox) (ns : Name) : Reconciler Action := do
  let .ok project ← (fetchProject sandbox ns).attempt | return .awaitChange
  let some _ownerPvcName ← ownerPvcName project ns | return .awaitChange
  match ← getOptJob ns (worktreeRemoveJobName sandbox.name) with
  | some job =>
    if 0 < job.succeeded.getD 0 then return .awaitChange
    -- A Job that is there and has not succeeded is created once more.
    else startRemoval sandbox ns
  | none => startRemoval sandbox ns

end SandboxReconciler

/-! ## Applications -/

namespace ApplicationReconciler

/-- An object of the Application. -/
def owned (app : Application) (kind : Kind) (name : Name) : Manifest :=
  .owned kind name app.ns (.application, app.name)

/-- An object under the common name of the Application. -/
def named (app : Application) (kind : Kind) : Manifest := owned app kind (applicationName app.name)

def appPort : Nat := 8080

def buildApplicationIngress (app : Application) : Manifest :=
  { kind := .ingress
    metadata :=
      { name := applicationName app.name
        ns := app.ns
        annotations := Function.update app.ingressAnnotations
          (certManagerAnnotationKey app.tlsIssuerKind) (some app.tlsIssuerName)
        owner := some (.application, app.name) }
    ingress := some
      { ingressClassName := app.ingressClassName
        tlsHosts := [app.host]
        tlsSecretName := tlsSecretName (applicationName app.name)
        ruleHost := app.host
        path := "/".toList
        backendService := applicationName app.name
        backendPort := appPort } }

def buildCookieSecret (app : Application) : Manifest :=
  owned app .secret (cookieSecretName app.name)

def restateNetpolName (application : Name) : Name :=
  restateServiceName application ++ "-netpol".toList

/-- Create the cookie Secret, unless one is given or there. -/
def ensureCookieSecret (app : Application) (ns : Name) : Reconciler Unit := do
  if app.cookieSecretRef.isSome then return
  else if (← orFail (← Program.request (.getOpt .secret ns (cookieSecretName app.name)))).isSome then
    return
  else create ns (buildCookieSecret app)

/-- The phase that the conditions of the Deployment give. -/
def deploymentPhase (conditions : Option (List DeploymentCondition)) : Name :=
  let some? (p : DeploymentCondition → Bool) := (conditions.getD []).any p
  let available := some? fun c => c.type_ = "Available".toList && c.status = "True".toList
  let failed := some? fun c => c.type_ = "Available".toList && c.status = "False".toList &&
    (c.reason = some "Failed".toList || c.reason = some "ProgressDeadlineExceeded".toList)
  if available then "Running".toList
  else if failed then "Failed".toList
  else "Provisioning".toList

/-- The objects of the workflow engine: applied, or removed when it is not
wanted. -/
def reconcileRestate (app : Application) (ns : Name) : Reconciler Unit := do
  let restate := restateServiceName app.name
  let netpol := restateNetpolName app.name
  if app.restate then
    patchApply ns restate (owned app .statefulSet restate)
    patchApply ns restate (owned app .service restate)
    patchApply ns netpol (owned app .networkPolicy netpol)
  else
    deleteIfPresent .statefulSet ns restate
    deleteIfPresent .service ns restate
    deleteIfPresent .networkPolicy ns netpol

/-- The phase of the Deployment that is there. -/
def fetchPhase (app : Application) (ns : Name) : Reconciler Name := do
  match ← orFail (← Program.request (.getOptDeployment ns (applicationName app.name))) with
  | none => return "Provisioning".toList
  | some d => return deploymentPhase d.conditions

def reconcile (app : Application) : Reconciler Action := do
  let ns := app.ns.getD "default".toList
  let name := applicationName app.name
  ensureCookieSecret app ns
  patchApply ns name (named app .serviceAccount)
  patchApply ns name (named app .role)
  patchApply ns name (named app .roleBinding)
  let phase ← fetchPhase app ns
  patchApply ns name (named app .deployment)
  patchApply ns name (named app .service)
  patchApply ns name (buildApplicationIngress app)
  reconcileRestate app ns
  orFail (← Program.request (.patchApplicationStatus ns app.name phase))
  return .requeue (if phase = "Running".toList then 300 else 15)

end ApplicationReconciler

/-! ## A quiet cluster -/

/-- Everything is there and ready, and every write succeeds. -/
def ready : ∀ q, Answer q
  | .cacheLookup _ => some []
  | .cacheInsert _ _ => ()
  | .getNamespace name => .ok ⟨name, none, some [], false⟩
  | .getOptNamespace _ => .ok none
  | .getOwner _ name => .ok ⟨name, none, false, [], none, [], some ⟨none, some [], some []⟩⟩
  | .getProject _ name => .ok ⟨name, none, [], [], some ⟨none, true⟩⟩
  | .getApplication _ _ => .error .notFound
  | .getOptApplication _ _ => .ok none
  | .getOptJob _ _ => .ok (some ⟨some 1⟩)
  | .getOptPod _ _ => .ok (some ⟨some "Running".toList⟩)
  | .getOptDeployment _ _ => .ok none
  | .getOpt _ _ _ => .ok (some ())
  | .listProjects _ => .ok []
  | .listSandboxes _ => .ok []
  | .create _ _ => .ok ()
  | .apply _ _ _ => .ok ()
  | .delete _ _ _ => .ok ()
  | .patchFinalizers _ _ _ => .ok ()
  | .patchOwnerStatus _ _ _ => .ok ()
  | .patchProjectStatus _ _ _ => .ok ()
  | .patchSandboxStatus _ _ _ _ => .ok ()
  | .patchApplicationStatus _ _ _ => .ok ()
  | .bump _ _ => .ok ()

end Vanyline.Controller
