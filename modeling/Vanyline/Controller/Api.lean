import Mathlib.Logic.Function.Basic
import Vanyline.Lib.Program

/-!
# The requests of the reconcilers

The reconcilers read and write objects of the cluster through the apiserver, and
keep one cache of their own.  Each read and each write is a request; the answer
to a request of the apiserver is its result or an error.

An object is modelled with what the reconcilers read of it.  Of what they write,
the model has the identity, the owner reference and, for an Ingress, the spec.
-/

namespace Vanyline.Controller

abbrev Name := List Char

namespace Api

open Vanyline.Lib

/-! ## Objects -/

inductive Kind
  | pod | job | cronJob | service | networkPolicy | ingress | secret
  | deployment | statefulSet | serviceAccount | role | roleBinding
  | persistentVolumeClaim | ownerNamespace | owner | project | sandbox | application
  deriving DecidableEq

/-- One object of the cluster; the namespace is empty for a cluster-wide one. -/
structure Ref where
  kind : Kind
  ns : Name
  name : Name
  deriving DecidableEq

structure EgressPort where
  port : Int
  protocol : Option Name

structure LabelSelector where
  matchLabels : List (Name × Name)
  matchExpressions : List (Name × Name × List Name)

structure EgressRule where
  cidr : Option Name
  podSelector : Option LabelSelector
  namespaceSelector : Option LabelSelector
  ports : List EgressPort

structure OwnerStatus where
  ns : Option Name
  pvcName : Option Name
  serviceAccount : Option Name

structure Owner where
  name : Name
  ns : Option Name
  deletionTimestamp : Bool
  finalizers : List Name
  applicationRef : Option Name
  egress : List EgressRule
  status : Option OwnerStatus

structure ProjectStatus where
  pvcName : Option Name
  cloned : Bool

structure Project where
  name : Name
  ns : Option Name
  owner : Name
  egress : List EgressRule
  status : Option ProjectStatus

structure Sandbox where
  name : Name
  ns : Option Name
  project : Name
  suspended : Bool
  egress : List EgressRule

structure Application where
  name : Name
  ns : Option Name
  host : Name
  ingressClassName : Name
  ingressAnnotations : Name → Option Name
  tlsIssuerName : Name
  tlsIssuerKind : Option Name
  cookieSecretRef : Option Name
  restate : Bool

/-- A namespace with the two labels that the controller looks at. -/
structure Namespace where
  name : Name
  ownerLabel : Option Name
  appNamespaceLabel : Option Name
  deletionTimestamp : Bool

/-- A Job, with `status.succeeded`. -/
structure Job where
  succeeded : Option Nat

/-- A Pod, with `status.phase`. -/
structure Pod where
  phase : Option Name

structure DeploymentCondition where
  type_ : Name
  status : Name
  reason : Option Name

structure Deployment where
  conditions : Option (List DeploymentCondition)

structure IngressSpec where
  ingressClassName : Name
  tlsHosts : List Name
  tlsSecretName : Name
  ruleHost : Name
  path : Name
  backendService : Name
  backendPort : Nat

structure ObjectMeta where
  name : Name
  ns : Option Name
  annotations : Name → Option Name
  owner : Option (Kind × Name)

/-- What is sent to create or apply an object. -/
structure Manifest where
  kind : Kind
  metadata : ObjectMeta
  ingress : Option IngressSpec

/-- A manifest without annotations, controlled by its owner. -/
def Manifest.owned (kind : Kind) (name : Name) (ns : Option Name) (owner : Kind × Name) :
    Manifest := ⟨kind, ⟨name, ns, fun _ => none, some owner⟩, none⟩

/-- A manifest without annotations and owner. -/
def Manifest.free (kind : Kind) (name : Name) (ns : Option Name) : Manifest :=
  ⟨kind, ⟨name, ns, fun _ => none, none⟩, none⟩

/-! ## Errors -/

/-- Errors of the apiserver: the object is not there, the object is already
there, or anything else. -/
inductive ApiError
  | notFound
  | alreadyExists
  | other
  deriving DecidableEq

inductive ControllerError
  | kube (e : ApiError)
  | ownerNotReady (owner project : Name)
  | purgePending (project : Name)
  | projectNotReady (project sandbox : Name)
  | worktreeRemovalPending (sandbox : Name)
  | invalidNamespaceName (name reason : Name)
  | namespaceCollision (ns owner : Name)
  | namespaceTerminating (ns : Name)
  | namespaceNotManaged (ns : Name)
  | sandboxIssuerUnavailable
  | sandboxNamespaceMissing (sandbox : Name)
  deriving DecidableEq

/-- The marker at the start of the error text. -/
def ControllerError.code : ControllerError → String
  | .kube _ => "VNL-CTL-001"
  | .ownerNotReady _ _ => "VNL-CTL-002"
  | .purgePending _ => "VNL-CTL-003"
  | .projectNotReady _ _ => "VNL-CTL-005"
  | .worktreeRemovalPending _ => "VNL-CTL-006"
  | .invalidNamespaceName _ _ => "VNL-CTL-007"
  | .namespaceCollision _ _ => "VNL-CTL-008"
  | .namespaceTerminating _ => "VNL-CTL-009"
  | .namespaceNotManaged _ => "VNL-CTL-010"
  | .sandboxIssuerUnavailable => "VNL-CTL-011"
  | .sandboxNamespaceMissing _ => "VNL-CTL-012"

/-- What a reconciler returns: when to come back, in seconds, or not before a
change. -/
inductive Action
  | requeue (seconds : Nat)
  | awaitChange
  deriving DecidableEq

/-! ## Requests -/

/-- `get` fails for an object that is not there, `getOpt` returns `none`. -/
inductive Request
  | cacheLookup (ns : Name)
  | cacheInsert (ns appNamespace : Name)
  | getNamespace (name : Name)
  | getOptNamespace (name : Name)
  | getOwner (ns name : Name)
  | getProject (ns name : Name)
  | getApplication (ns name : Name)
  | getOptApplication (ns name : Name)
  | getOptJob (ns name : Name)
  | getOptPod (ns name : Name)
  | getOptDeployment (ns name : Name)
  | getOpt (kind : Kind) (ns name : Name)
  | listProjects (ns : Name)
  | listSandboxes (ns : Name)
  | create (ns : Name) (manifest : Manifest)
  | apply (ns name : Name) (manifest : Manifest)
  | delete (kind : Kind) (ns name : Name)
  | patchFinalizers (ns name : Name) (finalizers : List Name)
  | patchOwnerStatus (ns name : Name) (status : OwnerStatus)
  | patchProjectStatus (ns name : Name) (status : ProjectStatus)
  | patchSandboxStatus (ns name : Name) (phase service : Name)
  | patchApplicationStatus (ns name : Name) (phase : Name)
  | bump (ns sandbox : Name)

/-- The type of the answer to a request. -/
abbrev Answer : Request → Type
  | .cacheLookup _ => Option Name
  | .cacheInsert _ _ => Unit
  | .getNamespace _ => Except ApiError Namespace
  | .getOptNamespace _ => Except ApiError (Option Namespace)
  | .getOwner _ _ => Except ApiError Owner
  | .getProject _ _ => Except ApiError Project
  | .getApplication _ _ => Except ApiError Application
  | .getOptApplication _ _ => Except ApiError (Option Application)
  | .getOptJob _ _ => Except ApiError (Option Job)
  | .getOptPod _ _ => Except ApiError (Option Pod)
  | .getOptDeployment _ _ => Except ApiError (Option Deployment)
  | .getOpt _ _ _ => Except ApiError (Option Unit)
  | .listProjects _ => Except ApiError (List Project)
  | .listSandboxes _ => Except ApiError (List Sandbox)
  | _ => Except ApiError Unit

/-- A reconciler, up to its result. -/
abbrev Reconciler := Program Request Answer ControllerError

/-- Go on with the answer of the apiserver, or end with its error. -/
def orFail {α : Type} : Except ApiError α → Reconciler α
  | .ok a => pure a
  | .error e => Program.throw (.kube e)

/-- A decision of a pure function. -/
def decided {α : Type} : Except ControllerError α → Reconciler α := Program.done

end Api

end Vanyline.Controller
