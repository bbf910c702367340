import Vanyline.Controller.SandboxPod

/-!
# What a Sandbox may reach

The egress rules of an Owner, of a Project and of a Sandbox become one NetworkPolicy.  It is applied
with the other objects of the Sandbox, and deleted when there is no rule.

* The reconciler is `SandboxReconciler.apply` with the contents of the policies (`erase_apply`).
* `MayReach` is what Kubernetes makes of the policies: without an egress policy a Pod may reach
  everything, and otherwise what some rule allows.
* `Intended` is what the rules say.
* `mayReach_applied`: after an `apply` that succeeds the Pod may reach what is intended, whatever
  was there before.  Every successful `apply` is meant (`applied_of_path`), and there is one from
  any state (`exists_applied`).
* `conforms_iff`: the policy is one that the apiserver accepts exactly when every rule has a block
  or a selector.
-/

namespace Vanyline.Controller.EgressPolicy

open Vanyline.Lib Vanyline.Crds Vanyline.Controller.Api

/-! ## Policies -/

structure IpBlock where
  cidr : Name
  excluded : Option (List Name)

structure Peer where
  ipBlock : Option IpBlock
  podSelector : Option LabelSelector
  namespaceSelector : Option LabelSelector

structure PolicyPort where
  port : Option Int
  protocol : Option Name
  endPort : Option Int

structure PolicyRule where
  to_ : Option (List Peer)
  ports : Option (List PolicyPort)

/-- A policy as far as egress is concerned. -/
structure NetworkPolicy where
  name : Name
  ns : Option Name
  owner : Kind × Name
  podSelector : LabelSelector
  policyTypes : List Name
  egress : List PolicyRule

def metadataName : Name := "kubernetes.io/metadata.name".toList

def sandboxLabel : Name := "vanyline.solidite.fr/sandbox".toList

def restateLabel : Name := "vanyline.solidite.fr/restate".toList

def restateIngressPort : Int := 8080

def tcp : Name := "TCP".toList

def udp : Name := "UDP".toList

/-- The selector for one label. -/
def labelled (key value : Name) : LabelSelector := ⟨[(key, value)], []⟩

/-- A block wins over the selectors. -/
def egressRuleToPeer (rule : EgressRule) : Peer :=
  match rule.cidr with
  | some cidr => ⟨some ⟨cidr, none⟩, none, none⟩
  | none => ⟨none, rule.podSelector, rule.namespaceSelector⟩

def egressPortsToNetpolPorts (ports : List EgressPort) : Option (List PolicyPort) :=
  if ports.isEmpty then none
  else some (ports.map fun p => ⟨some p.port, some (p.protocol.getD tcp), none⟩)

def dnsEgressRule : PolicyRule where
  to_ := none
  ports := some [⟨some 53, some udp, none⟩, ⟨some 53, some tcp, none⟩]

def restateEgressRule (applicationName appNamespace : Name) : PolicyRule where
  to_ := some [⟨none, some (labelled restateLabel applicationName),
    some (labelled metadataName appNamespace)⟩]
  ports := some [⟨some restateIngressPort, some tcp, none⟩]

/-- The ingress policy, of which only its type matters here. -/
def buildSandboxNetpol (sandbox : Sandbox) : NetworkPolicy where
  name := netpolName sandbox.name
  ns := sandbox.ns
  owner := (.sandbox, sandbox.name)
  podSelector := labelled sandboxLabel sandbox.name
  policyTypes := ["Ingress".toList]
  egress := []

/-- No policy when nobody declares a rule, also when there is a workflow engine. -/
def buildSandboxEgressNetpol (sandbox : Sandbox) (ownerEgress projectEgress : List EgressRule)
    (restate : Option (Name × Name)) : Option NetworkPolicy :=
  let allRules := ownerEgress ++ projectEgress ++ sandbox.egress
  if allRules.isEmpty then none
  else some
    { name := netpolEgressName sandbox.name
      ns := sandbox.ns
      owner := (.sandbox, sandbox.name)
      podSelector := labelled sandboxLabel sandbox.name
      policyTypes := ["Egress".toList]
      egress := [dnsEgressRule] ++
        allRules.map (fun rule =>
          ⟨some [egressRuleToPeer rule], egressPortsToNetpolPorts rule.ports⟩) ++
        (match restate with
          | some (applicationName, appNamespace) =>
              [restateEgressRule applicationName appNamespace]
          | none => []) }

/-! ## The reconciler -/

/-- A request, with its contents when it applies a policy. -/
inductive Request
  | plain (q : Api.Request)
  | applyPolicy (ns name : Name) (policy : NetworkPolicy)

abbrev Request.erase : Request → Api.Request
  | .plain q => q
  | .applyPolicy ns name policy =>
      .apply ns name (.owned .networkPolicy policy.name policy.ns policy.owner)

abbrev Answer (q : Request) : Type := Api.Answer q.erase

abbrev Applying := Program Request Answer ControllerError

/-- A program that has nothing to do with the contents of policies. -/
def lift {α : Type} (p : Reconciler α) : Applying α := Program.mapRequests Request.plain p

def applyPolicy (ns name : Name) (policy : NetworkPolicy) : Applying Unit := do
  Program.done (kubeResult (← Program.request (.applyPolicy ns name policy)))

def reconcileEgress (sandbox : Sandbox) (ns : Name) (ownerEgress projectEgress : List EgressRule)
    (restate : Option (Name × Name)) : Applying Unit :=
  match buildSandboxEgressNetpol sandbox ownerEgress projectEgress restate with
  | some netpol => applyPolicy ns (netpolEgressName sandbox.name) netpol
  | none => lift (deleteIfPresent .networkPolicy ns (netpolEgressName sandbox.name))

/-- What `apply` does once it has read everything and has looked after the Pod. -/
def applyChildren (sandbox : Sandbox) (ns : Name) (ownerEgress projectEgress : List EgressRule)
    (restate : Option (Name × Name)) (application : Option Application) (phase : Name) :
    Applying Action := do
  lift (patchApply ns (serviceName sandbox.name) (SandboxReconciler.buildSandboxService sandbox))
  let _appNs ← lift (OwnerNamespaces.appNamespaceOf ns)
  applyPolicy ns (netpolName sandbox.name) (buildSandboxNetpol sandbox)
  reconcileEgress sandbox ns ownerEgress projectEgress restate
  lift (SandboxReconciler.reconcileIngress sandbox ns application)
  lift (do
    orFail (← Program.request
      (.patchSandboxStatus ns sandbox.name phase (serviceName sandbox.name))))
  return .requeue (if phase = "Running".toList ∨ phase = "Suspended".toList then 300 else 15)

/-- What `apply` has read when it has looked after the Pod. -/
structure Inputs where
  project : Project
  owner : Owner
  restate : Option (Name × Name)
  phase : Name
  application : Option Application

def gather (tokenIssuer : Option Name) (sandbox : Sandbox) (ns : Name) : Applying Inputs := do
  let _tokenIssuer ← lift (decided (SandboxReconciler.requireTokenIssuer tokenIssuer))
  let project ← lift (SandboxReconciler.fetchProject sandbox ns)
  if !project.status.any (·.cloned) then
    Program.throw (.projectNotReady sandbox.project sandbox.name)
  else
  let owner ← lift (SandboxReconciler.fetchOwner project ns)
  let some _ownerPvcName := owner.status.bind (·.pvcName)
    | Program.throw (.ownerNotReady project.owner sandbox.project)
  let some _ownerServiceAccount := owner.status.bind (·.serviceAccount)
    | Program.throw (.ownerNotReady project.owner sandbox.project)
  let checkedOut ← lift (SandboxReconciler.reconcileCheckout sandbox ns)
  let restate ← lift (SandboxReconciler.fetchRestate owner ns)
  let phase ← lift (SandboxReconciler.reconcilePod sandbox ns checkedOut)
  let application ← lift (SandboxReconciler.fetchApplication owner ns)
  return ⟨project, owner, restate, phase, application⟩

def apply (tokenIssuer : Option Name) (sandbox : Sandbox) (ns : Name) : Applying Action := do
  let i ← gather tokenIssuer sandbox ns
  applyChildren sandbox ns i.owner.egress i.project.egress i.restate i.application i.phase

theorem erase_lift {α : Type} (p : Reconciler α) : (lift p).mapRequests Request.erase = p := by
  unfold lift
  induction p with
  | done r => rfl
  | ask q next ih => exact congrArg (Program.ask q) (funext ih)

theorem erase_applyPolicy (ns name : Name) (policy : NetworkPolicy) :
    (applyPolicy ns name policy).mapRequests Request.erase =
      patchApply ns name (.owned .networkPolicy policy.name policy.ns policy.owner) :=
  congrArg (Program.ask _) (funext fun x => by cases x <;> rfl)

theorem erase_reconcileEgress (sandbox : Sandbox) (ns : Name)
    (ownerEgress projectEgress : List EgressRule) (restate : Option (Name × Name)) :
    (reconcileEgress sandbox ns ownerEgress projectEgress restate).mapRequests Request.erase =
      SandboxReconciler.reconcileEgress sandbox ns ownerEgress projectEgress := by
  unfold reconcileEgress SandboxReconciler.reconcileEgress buildSandboxEgressNetpol
    SandboxReconciler.buildSandboxEgressNetpol
  by_cases hempty : (ownerEgress ++ projectEgress ++ sandbox.egress).isEmpty
  · simp only [hempty, if_true, erase_lift]
  · simp only [hempty]
    exact erase_applyPolicy ..

/-- Without the contents of the policies this is the program of the reconciler of Sandboxes. -/
theorem erase_apply (tokenIssuer : Option Name) (sandbox : Sandbox) (ns : Name) :
    (apply tokenIssuer sandbox ns).mapRequests Request.erase =
      SandboxReconciler.apply tokenIssuer sandbox ns := by
  unfold apply gather SandboxReconciler.apply applyChildren
  rw [Program.mapRequests_bind, Program.mapRequests_bind, erase_lift, Program.bind_assoc]
  refine bind_congr fun _ => ?_
  rw [Program.mapRequests_bind, erase_lift, Program.bind_assoc]
  refine bind_congr fun project => ?_
  split_ifs
  · rfl
  · rw [Program.mapRequests_bind, erase_lift, Program.bind_assoc]
    refine bind_congr fun owner => ?_
    cases owner.status.bind (·.pvcName) with
    | none => rfl
    | some ownerPvcName =>
        cases owner.status.bind (·.serviceAccount) with
        | none => rfl
        | some ownerServiceAccount =>
            simp only [Program.mapRequests_bind, Program.bind_assoc, erase_lift,
              erase_applyPolicy, erase_reconcileEgress]
            rfl

/-! ## What Kubernetes makes of a policy -/

/-- A Pod, as a destination. -/
structure PodTarget where
  ns : Name
  nsLabels : Name → Option Name
  labels : Name → Option Name

/-- Where a connection goes; there need not be a Pod of the cluster. -/
structure Destination (Address : Type) where
  address : Address
  pod : Option PodTarget
  port : Int
  protocol : Name

/-- An expression of a selector: the key, the operator and the values. -/
def meetsExpression (labels : Name → Option Name) (e : Name × Name × List Name) : Prop :=
  if e.2.1 = "In".toList then ∃ value ∈ e.2.2, labels e.1 = some value
  else if e.2.1 = "NotIn".toList then ∀ value ∈ e.2.2, labels e.1 ≠ some value
  else if e.2.1 = "Exists".toList then labels e.1 ≠ none
  else if e.2.1 = "DoesNotExist".toList then labels e.1 = none
  else False

/-- The labels have all that the selector asks for. -/
def Selects (selector : LabelSelector) (labels : Name → Option Name) : Prop :=
  (∀ label ∈ selector.matchLabels, labels label.1 = some label.2) ∧
    ∀ e ∈ selector.matchExpressions, meetsExpression labels e

section Meaning

variable {Address : Type} (inBlock : Name → Address → Prop)

/-- The Pods that the selectors of a peer mean, in a policy of the namespace `ns`.  Without a
selector for namespaces these are Pods of the same namespace. -/
def SelectsPod (ns : Name) (podSelector namespaceSelector : Option LabelSelector)
    (pod : Option PodTarget) : Prop :=
  match podSelector, namespaceSelector with
  | some pods, some namespaces =>
      ∃ target, pod = some target ∧ Selects namespaces target.nsLabels ∧ Selects pods target.labels
  | some pods, none => ∃ target, pod = some target ∧ target.ns = ns ∧ Selects pods target.labels
  | none, some namespaces => ∃ target, pod = some target ∧ Selects namespaces target.nsLabels
  | none, none => False

/-- Something is said, and a block stands alone. -/
def Peer.Accepted (peer : Peer) : Prop :=
  (peer.ipBlock.isSome ∨ peer.podSelector.isSome ∨ peer.namespaceSelector.isSome) ∧
    (peer.ipBlock.isSome → peer.podSelector = none ∧ peer.namespaceSelector = none)

def NetworkPolicy.Accepted (policy : NetworkPolicy) : Prop :=
  ∀ rule ∈ policy.egress, ∀ peers, rule.to_ = some peers → ∀ peer ∈ peers, peer.Accepted

def Peer.Matches (ns : Name) (peer : Peer) (d : Destination Address) : Prop :=
  match peer.ipBlock with
  | some block =>
      inBlock block.cidr d.address ∧ ∀ cidr ∈ block.excluded.getD [], ¬ inBlock cidr d.address
  | none => SelectsPod ns peer.podSelector peer.namespaceSelector d.pod

def PolicyPort.Matches (p : PolicyPort) (d : Destination Address) : Prop :=
  p.protocol.getD tcp = d.protocol ∧
    match p.port, p.endPort with
    | some port, some endPort => port ≤ d.port ∧ d.port ≤ endPort
    | some port, none => d.port = port
    | none, _ => True

/-- Without peers the rule is for every destination, without ports for every port. -/
def PolicyRule.Allows (ns : Name) (rule : PolicyRule) (d : Destination Address) : Prop :=
  (∀ peers, rule.to_ = some peers → peers ≠ [] → ∃ peer ∈ peers, peer.Matches inBlock ns d) ∧
    ∀ ports, rule.ports = some ports → ports ≠ [] → ∃ p ∈ ports, p.Matches d

/-- The policies of the cluster, by namespace and name. -/
abbrev Policies := Name → Name → Option NetworkPolicy

/-- An egress policy of the Sandbox that selects its Pod. -/
structure Isolates (w : Policies) (sandbox : Sandbox) (ownerName ns : Name)
    (policy : NetworkPolicy) : Prop where
  there : w ns (netpolName sandbox.name) = some policy ∨
    w ns (netpolEgressName sandbox.name) = some policy
  egress : "Egress".toList ∈ policy.policyTypes
  selects : Selects policy.podSelector (SandboxPod.podLabels sandbox ownerName).lookup

/-- The Pod is free when no egress policy selects it, and otherwise what some rule allows is
allowed. -/
def MayReach (w : Policies) (sandbox : Sandbox) (ownerName ns : Name) (d : Destination Address) :
    Prop :=
  (∀ policy, ¬ Isolates w sandbox ownerName ns policy) ∨
    ∃ policy, Isolates w sandbox ownerName ns policy ∧
      ∃ rule ∈ policy.egress, rule.Allows inBlock ns d

/-! ## What the rules say -/

/-- A rule opens its ports, or all ports when it names none, towards its block or its Pods. -/
def Opens (ns : Name) (rule : EgressRule) (d : Destination Address) : Prop :=
  (match rule.cidr with
    | some cidr => inBlock cidr d.address
    | none => SelectsPod ns rule.podSelector rule.namespaceSelector d.pod) ∧
    (rule.ports = [] ∨ ∃ p ∈ rule.ports, d.port = p.port ∧ d.protocol = p.protocol.getD tcp)

/-- The workflow engine of an Application. -/
def IsRestate (applicationName appNamespace : Name) (d : Destination Address) : Prop :=
  (∃ target, d.pod = some target ∧ target.nsLabels metadataName = some appNamespace ∧
    target.labels restateLabel = some applicationName) ∧
    d.port = restateIngressPort ∧ d.protocol = tcp

inductive Intended (ns : Name) (rules : List EgressRule) (restate : Option (Name × Name))
    (d : Destination Address) : Prop
  | free (h : rules = [])
  | dns (h : rules ≠ []) (hport : d.port = 53) (hprotocol : d.protocol = udp ∨ d.protocol = tcp)
  | rule {rule : EgressRule} (hrule : rule ∈ rules) (hopens : Opens inBlock ns rule d)
  | restate {applicationName appNamespace : Name} (h : rules ≠ [])
      (hrestate : restate = some (applicationName, appNamespace))
      (hd : IsRestate applicationName appNamespace d)

/-! ## The meaning of the policy -/

variable {inBlock} {ns : Name} {d : Destination Address}

theorem matches_egressRuleToPeer {rule : EgressRule} :
    (egressRuleToPeer rule).Matches inBlock ns d ↔
      match rule.cidr with
      | some cidr => inBlock cidr d.address
      | none => SelectsPod ns rule.podSelector rule.namespaceSelector d.pod := by
  unfold egressRuleToPeer Peer.Matches
  cases rule.cidr with
  | none => rfl
  | some cidr => simp

theorem allows_one {peer : Peer} {ports : Option (List PolicyPort)} :
    PolicyRule.Allows inBlock ns ⟨some [peer], ports⟩ d ↔ peer.Matches inBlock ns d ∧
      ∀ ps, ports = some ps → ps ≠ [] → ∃ p ∈ ps, p.Matches d := by
  simp [PolicyRule.Allows]

theorem matches_port {port : Int} {protocol : Name} :
    (⟨some port, some protocol, none⟩ : PolicyPort).Matches d ↔
      d.port = port ∧ d.protocol = protocol := by
  rw [@eq_comm _ d.protocol, and_comm]
  rfl

theorem allows_dnsEgressRule : dnsEgressRule.Allows inBlock ns d ↔
    d.port = 53 ∧ (d.protocol = udp ∨ d.protocol = tcp) := by
  constructor
  · intro h
    rcases h.2 _ rfl (by simp) with ⟨p, hp, hmatches⟩
    simp only [List.mem_cons, List.not_mem_nil, or_false] at hp
    rcases hp with rfl | rfl
    · exact ⟨(matches_port.1 hmatches).1, .inl (matches_port.1 hmatches).2⟩
    · exact ⟨(matches_port.1 hmatches).1, .inr (matches_port.1 hmatches).2⟩
  · intro h
    refine ⟨?_, ?_⟩
    · intro peers hpeers
      cases hpeers
    · intro ports hports _
      cases hports
      rcases h.2 with hprotocol | hprotocol
      · exact ⟨_, .head _, matches_port.2 ⟨h.1, hprotocol⟩⟩
      · exact ⟨_, .tail _ (.head _), matches_port.2 ⟨h.1, hprotocol⟩⟩

theorem allows_rule {rule : EgressRule} :
    PolicyRule.Allows inBlock ns
      ⟨some [egressRuleToPeer rule], egressPortsToNetpolPorts rule.ports⟩ d ↔
      Opens inBlock ns rule d := by
  rw [allows_one, matches_egressRuleToPeer, Opens]
  refine and_congr_right fun _ => ?_
  by_cases hports : rule.ports = []
  · simp [egressPortsToNetpolPorts, hports]
  · rw [egressPortsToNetpolPorts, if_neg fun h => hports (List.isEmpty_iff.1 h),
      or_iff_right hports]
    constructor
    · intro h
      rcases h _ rfl (by simpa using hports) with ⟨p, hp, hmatches⟩
      rcases List.mem_map.1 hp with ⟨source, hsource, rfl⟩
      exact ⟨source, hsource, matches_port.1 hmatches⟩
    · intro h ports heq _
      cases heq
      rcases h with ⟨source, hsource, hd⟩
      exact ⟨_, List.mem_map_of_mem hsource, matches_port.2 hd⟩

theorem selects_labelled {key value : Name} {labels : Name → Option Name} :
    Selects (labelled key value) labels ↔ labels key = some value := by
  simp [Selects, labelled]

theorem allows_restateEgressRule {applicationName appNamespace : Name} :
    (restateEgressRule applicationName appNamespace).Allows inBlock ns d ↔
      IsRestate applicationName appNamespace d := by
  rw [restateEgressRule, allows_one, IsRestate]
  refine and_congr ?_ ?_
  · simp only [Peer.Matches, SelectsPod, selects_labelled]
  · simp [matches_port]

theorem allows_policy {sandbox : Sandbox} {ownerEgress projectEgress : List EgressRule}
    {restate : Option (Name × Name)} {policy : NetworkPolicy}
    (h : buildSandboxEgressNetpol sandbox ownerEgress projectEgress restate = some policy) :
    (∃ rule ∈ policy.egress, rule.Allows inBlock ns d) ↔
      Intended inBlock ns (ownerEgress ++ projectEgress ++ sandbox.egress) restate d := by
  unfold buildSandboxEgressNetpol at h
  generalize ownerEgress ++ projectEgress ++ sandbox.egress = rules at h ⊢
  by_cases hempty : rules.isEmpty
  · rw [if_pos hempty] at h
    cases h
  · rw [if_neg hempty] at h
    cases h
    have hne : rules ≠ [] := fun hnil => hempty (List.isEmpty_iff.2 hnil)
    constructor
    · intro hallows
      rcases hallows with ⟨rule, hrule, hallows⟩
      rcases List.mem_append.1 hrule with hrule | hrule
      · rcases List.mem_append.1 hrule with hrule | hrule
        · cases List.mem_singleton.1 hrule
          rcases allows_dnsEgressRule.1 hallows with ⟨hport, hprotocol⟩
          exact .dns hne hport hprotocol
        · rcases List.mem_map.1 hrule with ⟨source, hsource, rfl⟩
          exact .rule hsource (allows_rule.1 hallows)
      · cases restate with
        | none => cases hrule
        | some names =>
            cases List.mem_singleton.1 hrule
            exact .restate hne rfl (allows_restateEgressRule.1 hallows)
    · intro hintended
      cases hintended with
      | free hnil => exact absurd hnil hne
      | dns _ hport hprotocol =>
          exact ⟨dnsEgressRule, .head _, allows_dnsEgressRule.2 ⟨hport, hprotocol⟩⟩
      | @rule source hsource hopens =>
          refine ⟨_, ?_, allows_rule.2 hopens⟩
          exact List.mem_append_left _ (List.mem_append_right _ (List.mem_map_of_mem hsource))
      | restate _ hrestate hd =>
          cases hrestate
          exact ⟨_, List.mem_append_right _ (.head _), allows_restateEgressRule.2 hd⟩

theorem buildSandboxEgressNetpol_eq_none {sandbox : Sandbox}
    {ownerEgress projectEgress : List EgressRule} {restate : Option (Name × Name)} :
    buildSandboxEgressNetpol sandbox ownerEgress projectEgress restate = none ↔
      ownerEgress ++ projectEgress ++ sandbox.egress = [] := by
  unfold buildSandboxEgressNetpol
  generalize ownerEgress ++ projectEgress ++ sandbox.egress = rules
  cases rules with
  | nil => exact ⟨fun _ => rfl, fun _ => rfl⟩
  | cons rule rules =>
      constructor
      · intro h
        cases h
      · intro h
        cases h

/-- A rule says where it leads. -/
def HasPeer (rule : EgressRule) : Prop :=
  rule.cidr.isSome ∨ rule.podSelector.isSome ∨ rule.namespaceSelector.isSome

theorem accepted_egressRuleToPeer {rule : EgressRule} :
    (egressRuleToPeer rule).Accepted ↔ HasPeer rule := by
  unfold egressRuleToPeer HasPeer Peer.Accepted
  cases rule.cidr with
  | none => simp
  | some cidr => simp

/-- The policy has everything that the rules need, and is accepted when the rules lead somewhere. -/
theorem buildSandboxEgressNetpol_spec {sandbox : Sandbox}
    {ownerEgress projectEgress : List EgressRule} {restate : Option (Name × Name)}
    {policy : NetworkPolicy}
    (h : buildSandboxEgressNetpol sandbox ownerEgress projectEgress restate = some policy) :
    policy.podSelector = labelled sandboxLabel sandbox.name ∧
      policy.policyTypes = ["Egress".toList] ∧
      (policy.Accepted ↔
        ∀ rule ∈ ownerEgress ++ projectEgress ++ sandbox.egress, HasPeer rule) := by
  unfold buildSandboxEgressNetpol at h
  generalize ownerEgress ++ projectEgress ++ sandbox.egress = rules at h ⊢
  by_cases hempty : rules.isEmpty
  · rw [if_pos hempty] at h
    cases h
  · rw [if_neg hempty] at h
    cases h
    refine ⟨rfl, rfl, ?_⟩
    constructor
    · intro haccepted rule hrule
      have hmem := List.mem_map_of_mem (f := fun rule : EgressRule =>
        (⟨some [egressRuleToPeer rule], egressPortsToNetpolPorts rule.ports⟩ : PolicyRule)) hrule
      exact accepted_egressRuleToPeer.1 (haccepted _
        (List.mem_append_left _ (List.mem_append_right _ hmem)) _ rfl _ (.head _))
    · intro hrules rule hrule peers hpeers peer hpeer
      rcases List.mem_append.1 hrule with hrule | hrule
      · rcases List.mem_append.1 hrule with hrule | hrule
        · cases List.mem_singleton.1 hrule
          cases hpeers
        · rcases List.mem_map.1 hrule with ⟨source, hsource, rfl⟩
          cases hpeers
          cases List.mem_singleton.1 hpeer
          exact accepted_egressRuleToPeer.2 (hrules source hsource)
      · cases restate with
        | none => cases hrule
        | some names =>
            cases List.mem_singleton.1 hrule
            cases hpeers
            cases List.mem_singleton.1 hpeer
            refine ⟨.inr (.inl rfl), ?_⟩
            intro hblock
            cases hblock

/-- What is intended depends on which rules there are only. -/
theorem Intended.grows {rules rules' : List EgressRule} {restate : Option (Name × Name)}
    (hne : rules ≠ []) (hsub : ∀ rule ∈ rules, rule ∈ rules')
    (h : Intended inBlock ns rules restate d) : Intended inBlock ns rules' restate d := by
  have hne' : rules' ≠ [] := by
    rcases List.exists_mem_of_ne_nil rules hne with ⟨rule, hrule⟩
    exact List.ne_nil_of_mem (hsub rule hrule)
  cases h with
  | free hnil => exact absurd hnil hne
  | dns _ hport hprotocol => exact .dns hne' hport hprotocol
  | rule hrule hopens => exact .rule (hsub _ hrule) hopens
  | restate _ hrestate hd => exact .restate hne' hrestate hd

theorem intended_congr {rules rules' : List EgressRule} {restate : Option (Name × Name)}
    (hsame : ∀ rule, rule ∈ rules ↔ rule ∈ rules') :
    Intended inBlock ns rules restate d ↔ Intended inBlock ns rules' restate d := by
  by_cases hnil : rules = []
  · have hnil' : rules' = [] := by
      rw [List.eq_nil_iff_forall_not_mem]
      intro rule hrule
      rw [← hsame, hnil] at hrule
      cases hrule
    rw [hnil, hnil']
  · have hnil' : rules' ≠ [] := by
      rcases List.exists_mem_of_ne_nil rules hnil with ⟨rule, hrule⟩
      exact List.ne_nil_of_mem ((hsame rule).1 hrule)
    exact ⟨.grows hnil fun rule => (hsame rule).1, .grows hnil' fun rule => (hsame rule).2⟩

end Meaning

/-! ## The policies while the reconciler runs -/

def Policies.set (w : Policies) (ns name : Name) (now : Option NetworkPolicy) : Policies :=
  Function.update w ns (Function.update (w ns) name now)

@[simp] theorem Policies.set_self (w : Policies) (ns name : Name) (now : Option NetworkPolicy) :
    w.set ns name now ns name = now := by
  rw [Policies.set, Function.update_self, Function.update_self]

theorem Policies.set_of_ne (w : Policies) {ns name name' : Name} (h : name' ≠ name)
    (now : Option NetworkPolicy) : w.set ns name now ns name' = w ns name' := by
  rw [Policies.set, Function.update_self, Function.update_of_ne h]

def AboutPolicies : Api.Request → Prop
  | .getOpt kind _ _ | .delete kind _ _ => kind = .networkPolicy
  | .create _ manifest | .apply _ _ manifest => manifest.kind = .networkPolicy
  | _ => False

/-- What a request does to the policies.  A forced server-side apply replaces the selector, the
types and the list of rules, each as a whole; it can be performed while its answer is lost. -/
inductive Served : Policies → Exchange Answer → Policies → Prop
  | applied {w : Policies} {ns name : Name} {policy : NetworkPolicy} (h : policy.Accepted) :
      Served w ⟨.applyPolicy ns name policy, .ok ()⟩ (w.set ns name (some policy))
  | applyLost {w : Policies} {ns name : Name} {policy : NetworkPolicy} (e : ApiError)
      (h : policy.Accepted) :
      Served w ⟨.applyPolicy ns name policy, .error e⟩ (w.set ns name (some policy))
  | refused {w : Policies} {ns name : Name} {policy : NetworkPolicy} (e : ApiError) :
      Served w ⟨.applyPolicy ns name policy, .error e⟩ w
  | found {w : Policies} {ns name : Name} :
      Served w ⟨.plain (.getOpt .networkPolicy ns name), .ok ((w ns name).map fun _ => ())⟩ w
  | notRead {w : Policies} {ns name : Name} (e : ApiError) :
      Served w ⟨.plain (.getOpt .networkPolicy ns name), .error e⟩ w
  | deleted {w : Policies} {ns name : Name} :
      Served w ⟨.plain (.delete .networkPolicy ns name), .ok ()⟩ (w.set ns name none)
  | deleteLost {w : Policies} {ns name : Name} (e : ApiError) :
      Served w ⟨.plain (.delete .networkPolicy ns name), .error e⟩ (w.set ns name none)
  | notDeleted {w : Policies} {ns name : Name} (e : ApiError) :
      Served w ⟨.plain (.delete .networkPolicy ns name), .error e⟩ w
  | other {w : Policies} {q : Api.Request} {x : Api.Answer q} (h : ¬ AboutPolicies q) :
      Served w ⟨.plain q, x⟩ w

section Runs

variable {pre : Policies → Prop} {ns name : Name}

theorem triple_lift {α : Type} {p : Reconciler α} (hp : p.Asks fun q => ¬ AboutPolicies q) :
    Program.Triple Served pre (lift p) fun _ => pre := by
  have hlift : (lift p).Asks fun q => ∃ q', q = .plain q' ∧ ¬ AboutPolicies q' := by
    unfold lift
    induction p with
    | done r => trivial
    | ask q next ih => exact ⟨⟨q, rfl, hp.1⟩, fun x => ih x (hp.2 x)⟩
  refine Program.triple_of_asks hlift ?_
  intro s q x t hq hserved hpre
  rcases hq with ⟨q', rfl, hq'⟩
  cases hserved with
  | found => exact absurd rfl hq'
  | notRead e => exact absurd rfl hq'
  | deleted => exact absurd rfl hq'
  | deleteLost e => exact absurd rfl hq'
  | notDeleted e => exact absurd rfl hq'
  | other h => exact hpre

theorem triple_applyPolicy {policy : NetworkPolicy} :
    Program.Triple Served pre (applyPolicy ns name policy) fun _ w =>
      ∃ v, pre v ∧ policy.Accepted ∧ w = v.set ns name (some policy) := by
  refine Program.triple_ask (fun x w => x = .ok () →
    ∃ v, pre v ∧ policy.Accepted ∧ w = v.set ns name (some policy)) ?_ ?_
  · intro s x t hpre hserved hx
    cases hserved with
    | applied h => exact ⟨s, hpre, h, rfl⟩
    | applyLost e h => cases hx
    | refused e => cases hx
  · intro x
    refine Program.triple_done ?_
    intro s a ha hmid
    cases x with
    | error e => cases ha
    | ok _ => exact hmid rfl

theorem triple_deleteIfPresent :
    Program.Triple Served pre (lift (deleteIfPresent .networkPolicy ns name)) fun _ w =>
      w ns name = none ∧ ∃ v, pre v ∧ (w = v ∨ w = v.set ns name none) := by
  refine Program.triple_ask (fun x w => pre w ∧ (x = .ok none → w ns name = none)) ?_ ?_
  · intro s x t hpre hserved
    cases hserved with
    | found =>
        refine ⟨hpre, fun hnone => ?_⟩
        simpa using hnone
    | notRead e => exact ⟨hpre, fun hnone => by cases hnone⟩
    | other h => exact absurd rfl h
  · intro x
    rcases x with e | _ | _
    · exact Program.triple_throw
    · refine Program.triple_pure ?_
      intro s hmid
      exact ⟨hmid.2 rfl, s, hmid.1, .inl rfl⟩
    · refine Program.triple_ask (fun x w => x = .ok () →
        w ns name = none ∧ ∃ v, pre v ∧ (w = v ∨ w = v.set ns name none)) ?_ ?_
      · intro s x t hmid hserved hx
        cases hserved with
        | deleted => exact ⟨Policies.set_self .., s, hmid.1, .inr rfl⟩
        | deleteLost e => cases hx
        | notDeleted e => cases hx
        | other h => exact absurd rfl h
      · intro x
        cases x with
        | error e => exact Program.triple_throw
        | ok _ => exact Program.triple_pure fun s hmid => hmid rfl

/-- The two policies of the Sandbox are those that its rules give. -/
structure Settled (sandbox : Sandbox) (ns : Name) (ownerEgress projectEgress : List EgressRule)
    (restate : Option (Name × Name)) (w : Policies) : Prop where
  ingress : w ns (netpolName sandbox.name) = some (buildSandboxNetpol sandbox)
  egress : w ns (netpolEgressName sandbox.name) =
    buildSandboxEgressNetpol sandbox ownerEgress projectEgress restate

theorem netpolName_ne (sandbox : Name) : netpolName sandbox ≠ netpolEgressName sandbox := by
  intro h
  exact absurd (List.self_eq_append_right.1 h) (by decide)

variable {sandbox : Sandbox} {ownerEgress projectEgress : List EgressRule}
  {restate : Option (Name × Name)}

theorem triple_reconcileEgress :
    Program.Triple Served (fun w => w ns (netpolName sandbox.name) =
        some (buildSandboxNetpol sandbox))
      (reconcileEgress sandbox ns ownerEgress projectEgress restate)
      fun _ => Settled sandbox ns ownerEgress projectEgress restate := by
  unfold reconcileEgress
  cases hbuild : buildSandboxEgressNetpol sandbox ownerEgress projectEgress restate with
  | some policy =>
      refine triple_applyPolicy.imp (fun _ h => h) ?_
      intro _ w h
      rcases h with ⟨v, hingress, -, rfl⟩
      refine ⟨?_, ?_⟩
      · rw [Policies.set_of_ne v (netpolName_ne sandbox.name)]
        exact hingress
      · rw [hbuild, Policies.set_self]
  | none =>
      refine triple_deleteIfPresent.imp (fun _ h => h) ?_
      intro _ w h
      rcases h with ⟨hnone, v, hingress, hw⟩
      refine ⟨?_, hnone.trans hbuild.symm⟩
      rcases hw with rfl | rfl
      · exact hingress
      · rw [Policies.set_of_ne v (netpolName_ne sandbox.name)]
        exact hingress

theorem asks_appNamespaceOf :
    (OwnerNamespaces.appNamespaceOf ns).Asks fun q => ¬ AboutPolicies q := by
  unfold OwnerNamespaces.appNamespaceOf
  refine asks_call id fun cached => ?_
  cases cached with
  | some app => exact Program.asks_pure
  | none =>
      refine (asks_call id asks_orFail).bind fun found => ?_
      refine (asks_decided _).bind fun app => ?_
      exact asks_call id fun _ => Program.asks_pure

theorem asks_patchApply {manifest : Manifest} (h : manifest.kind ≠ .networkPolicy) :
    (patchApply ns name manifest).Asks fun q => ¬ AboutPolicies q := asks_call h asks_orFail

theorem asks_reconcileIngress {application : Option Application} :
    (SandboxReconciler.reconcileIngress sandbox ns application).Asks
      fun q => ¬ AboutPolicies q := by
  have hkind : Kind.ingress ≠ .networkPolicy := by decide
  unfold SandboxReconciler.reconcileIngress
  cases application with
  | some application => exact asks_patchApply hkind
  | none =>
      unfold deleteIfPresent
      refine asks_call hkind fun answer => (asks_orFail answer).bind fun found => ?_
      split
      · exact asks_call hkind asks_orFail
      · exact Program.asks_pure

theorem triple_applyChildren {application : Option Application} {phase : Name} :
    Program.Triple Served (fun _ => True)
      (applyChildren sandbox ns ownerEgress projectEgress restate application phase)
      fun _ => Settled sandbox ns ownerEgress projectEgress restate := by
  unfold applyChildren
  refine Program.triple_bind (triple_lift (asks_patchApply (by intro h; cases h))) fun _ => ?_
  refine Program.triple_bind (triple_lift asks_appNamespaceOf) fun _ => ?_
  refine Program.triple_bind triple_applyPolicy fun _ => ?_
  refine Program.triple_bind (triple_reconcileEgress.imp ?_ fun _ _ h => h) fun _ => ?_
  · intro w h
    rcases h with ⟨v, -, -, rfl⟩
    exact Policies.set_self ..
  · refine Program.triple_bind (triple_lift asks_reconcileIngress) fun _ => ?_
    refine Program.triple_bind (triple_lift ?_) fun _ => Program.triple_pure fun _ h => h
    exact asks_call id asks_orFail

/-- An `apply` that read these rules has succeeded. -/
def Applied (sandbox : Sandbox) (ns : Name) (ownerEgress projectEgress : List EgressRule)
    (restate : Option (Name × Name)) (w w' : Policies) : Prop :=
  ∃ tokenIssuer inputs mid es action,
    (gather tokenIssuer sandbox ns).Path [] mid (.ok inputs) ∧
      inputs.owner.egress = ownerEgress ∧ inputs.project.egress = projectEgress ∧
      inputs.restate = restate ∧
      (applyChildren sandbox ns ownerEgress projectEgress restate inputs.application
        inputs.phase).Path mid es (.ok action) ∧
      Program.Follows Served w es w'

theorem applied_of_path {tokenIssuer : Option Name} {es : List (Exchange Answer)} {action : Action}
    {w w' : Policies} (hpath : (apply tokenIssuer sandbox ns).Path [] es (.ok action))
    (hfollows : Program.Follows Served w es w') :
    ∃ ownerEgress projectEgress restate,
      Applied sandbox ns ownerEgress projectEgress restate w w' := by
  rcases Program.path_bind_ok.1 hpath with ⟨inputs, mid, hgather, hchildren⟩
  exact ⟨_, _, _, tokenIssuer, inputs, mid, es, action, hgather, rfl, rfl, rfl, hchildren, hfollows⟩

theorem Applied.settled {w w' : Policies}
    (h : Applied sandbox ns ownerEgress projectEgress restate w w') :
    Settled sandbox ns ownerEgress projectEgress restate w' := by
  rcases h with ⟨tokenIssuer, inputs, mid, es, action, -, -, -, -, hpath, hfollows⟩
  exact triple_applyChildren.of_path hpath hfollows fun _ _ => trivial

/-! ## What the Pod may reach -/

variable {Address : Type} {inBlock : Name → Address → Prop} {ownerName : Name}
  {d : Destination Address}

theorem selects_podLabels :
    Selects (labelled sandboxLabel sandbox.name)
      (SandboxPod.podLabels sandbox ownerName).lookup := by
  rw [selects_labelled]
  show ((SortedMap.update _ sandboxLabel fun _ => sandbox.name).lookup sandboxLabel) = _
  rw [SortedMap.lookup_update, if_pos rfl]

theorem Settled.isolates_iff {w : Policies} {policy : NetworkPolicy}
    (h : Settled sandbox ns ownerEgress projectEgress restate w) :
    Isolates w sandbox ownerName ns policy ↔
      buildSandboxEgressNetpol sandbox ownerEgress projectEgress restate = some policy := by
  constructor
  · intro hisolates
    rcases hisolates.there with hthere | hthere
    · rw [h.ingress, Option.some.injEq] at hthere
      have hegress := hisolates.egress
      rw [← hthere] at hegress
      cases List.mem_singleton.1 hegress
    · exact h.egress.symm.trans hthere
  · intro hbuild
    rcases buildSandboxEgressNetpol_spec hbuild with ⟨hselector, htypes, -⟩
    refine ⟨.inr (h.egress.trans hbuild), ?_, ?_⟩
    · rw [htypes]
      exact .head _
    · rw [hselector]
      exact selects_podLabels

/-- Whatever was there before, the Pod may reach what is intended. -/
theorem mayReach_settled {w : Policies}
    (h : Settled sandbox ns ownerEgress projectEgress restate w) :
    MayReach inBlock w sandbox ownerName ns d ↔
      Intended inBlock ns (ownerEgress ++ projectEgress ++ sandbox.egress) restate d := by
  unfold MayReach
  simp only [h.isolates_iff]
  cases hbuild : buildSandboxEgressNetpol sandbox ownerEgress projectEgress restate with
  | none =>
      constructor
      · exact fun _ => .free (buildSandboxEgressNetpol_eq_none.1 hbuild)
      · intro _
        left
        intro policy hpolicy
        cases hpolicy
  | some policy =>
      rw [← allows_policy hbuild]
      constructor
      · intro hmay
        rcases hmay with hfree | ⟨policy', hpolicy', hallows⟩
        · exact absurd rfl (hfree policy)
        · rw [Option.some.injEq] at hpolicy'
          rw [hpolicy']
          exact hallows
      · exact fun hallows => .inr ⟨policy, rfl, hallows⟩

theorem mayReach_applied {w w' : Policies}
    (h : Applied sandbox ns ownerEgress projectEgress restate w w') :
    MayReach inBlock w' sandbox ownerName ns d ↔
      Intended inBlock ns (ownerEgress ++ projectEgress ++ sandbox.egress) restate d :=
  mayReach_settled h.settled

end Runs

/-! ## The property -/

section Property

variable {Address : Type} (inBlock : Name → Address → Prop) (ownerName : Name) (sandbox : Sandbox)
  (ns : Name) (ownerEgress projectEgress : List EgressRule) (restate : Option (Name × Name))

/-- The policy is accepted and means what the rules say.  The order and the level of the rules do
not count, and with a further rule more is allowed. -/
structure Conforms : Prop where
  accepted : ∀ policy,
    buildSandboxEgressNetpol sandbox ownerEgress projectEgress restate = some policy →
    policy.Accepted
  reaches : ∀ w w', Applied sandbox ns ownerEgress projectEgress restate w w' → ∀ d,
    (MayReach inBlock w' sandbox ownerName ns d ↔
      Intended inBlock ns (ownerEgress ++ projectEgress ++ sandbox.egress) restate d)
  sameRules : ∀ ownerEgress' projectEgress' egress',
    (∀ rule, rule ∈ ownerEgress ++ projectEgress ++ sandbox.egress ↔
      rule ∈ ownerEgress' ++ projectEgress' ++ egress') →
    ∀ w w' v v', Applied sandbox ns ownerEgress projectEgress restate w w' →
      Applied { sandbox with egress := egress' } ns ownerEgress' projectEgress' restate v v' →
      ∀ d, (MayReach inBlock w' sandbox ownerName ns d ↔
        MayReach inBlock v' { sandbox with egress := egress' } ownerName ns d)
  grows : ∀ ownerEgress' projectEgress' egress',
    ownerEgress ++ projectEgress ++ sandbox.egress ≠ [] →
    (∀ rule ∈ ownerEgress ++ projectEgress ++ sandbox.egress,
      rule ∈ ownerEgress' ++ projectEgress' ++ egress') →
    ∀ w w' v v', Applied sandbox ns ownerEgress projectEgress restate w w' →
      Applied { sandbox with egress := egress' } ns ownerEgress' projectEgress' restate v v' →
      ∀ d, MayReach inBlock w' sandbox ownerName ns d →
        MayReach inBlock v' { sandbox with egress := egress' } ownerName ns d

/-- The egress policy conforms exactly when every rule has a block or a selector. -/
theorem conforms_iff :
    Conforms inBlock ownerName sandbox ns ownerEgress projectEgress restate ↔
      ∀ rule ∈ ownerEgress ++ projectEgress ++ sandbox.egress, HasPeer rule := by
  constructor
  · intro h rule hrule
    cases hbuild : buildSandboxEgressNetpol sandbox ownerEgress projectEgress restate with
    | none =>
        rw [buildSandboxEgressNetpol_eq_none.1 hbuild] at hrule
        cases hrule
    | some policy =>
        exact (buildSandboxEgressNetpol_spec hbuild).2.2.1 (h.accepted policy hbuild) rule hrule
  · intro h
    refine ⟨?_, ?_, ?_, ?_⟩
    · intro policy hbuild
      exact (buildSandboxEgressNetpol_spec hbuild).2.2.2 h
    · intro w w' happlied d
      exact mayReach_applied happlied
    · intro ownerEgress' projectEgress' egress' hsame w w' v v' happlied happlied' d
      rw [mayReach_applied happlied, mayReach_applied happlied']
      exact intended_congr hsame
    · intro ownerEgress' projectEgress' egress' hne hsub w w' v v' happlied happlied' d hmay
      rw [mayReach_applied happlied']
      exact ((mayReach_applied happlied).1 hmay).grows hne hsub

/-! ## Calls that succeed -/

theorem follows_plain {w w' : Policies} {q : Api.Request} {x : Api.Answer q}
    {es : List (Exchange Answer)} (hq : ¬ AboutPolicies q) (h : Program.Follows Served w es w') :
    Program.Follows Served w (⟨.plain q, x⟩ :: es) w' := .step h (.other hq)

theorem exists_gather (w : Policies) : ∃ inputs mid,
    (gather (some "i".toList) sandbox ns).Path [] mid (.ok inputs) ∧
      inputs.owner.egress = ownerEgress ∧ inputs.project.egress = projectEgress ∧
      inputs.restate = none ∧ inputs.application = none ∧ Program.Follows Served w mid w := by
  rcases sandbox with ⟨name, ns', projectName, suspended, egress⟩
  let project : Project := ⟨projectName, some ns, "o".toList, projectEgress, some ⟨none, true⟩⟩
  let owner : Owner :=
    ⟨"o".toList, none, false, [], none, ownerEgress, some ⟨none, some [], some []⟩⟩
  let reads : List (Exchange Answer) :=
    [⟨.plain (.getOptJob ns (checkoutJobName name)), .ok (some ⟨none⟩)⟩,
      ⟨.plain (.getOwner [] "o".toList), .ok owner⟩, ⟨.plain (.cacheLookup ns), some []⟩,
      ⟨.plain (.getProject ns projectName), .ok project⟩]
  have hreads : Program.Follows Served w reads w :=
    follows_plain id (follows_plain id (follows_plain id (follows_plain id .refl)))
  cases suspended with
  | false =>
      refine ⟨⟨project, owner, none, "Provisioning".toList, none⟩, reads, ?_, rfl, rfl, rfl, rfl,
        hreads⟩
      exact .ask (.ok project) (.ask (some []) (.ask (.ok owner) (.ask (.ok (some ⟨none⟩)) .done)))
  | true =>
      refine ⟨⟨project, owner, none, "Suspended".toList, none⟩,
        ⟨.plain (.getOptPod ns (podName name)), .ok none⟩ :: reads, ?_, rfl, rfl, rfl, rfl,
        follows_plain id hreads⟩
      exact .ask (.ok project) (.ask (some []) (.ask (.ok owner) (.ask (.ok (some ⟨none⟩))
        (.ask (.ok none) .done))))

theorem exists_reconcileEgress {w v : Policies} {mid : List (Exchange Answer)}
    (h : ∀ rule ∈ ownerEgress ++ projectEgress ++ sandbox.egress, HasPeer rule)
    (hmid : Program.Follows Served w mid v) : ∃ es v',
      (reconcileEgress sandbox ns ownerEgress projectEgress restate).Path mid es (.ok ()) ∧
        Program.Follows Served w es v' := by
  unfold reconcileEgress
  cases hbuild : buildSandboxEgressNetpol sandbox ownerEgress projectEgress restate with
  | some policy =>
      have haccepted := (buildSandboxEgressNetpol_spec hbuild).2.2.2 h
      exact ⟨_, _, .ask (.ok ()) .done, .step hmid (.applied haccepted)⟩
  | none =>
      have hfound : Served v ⟨.plain (.getOpt .networkPolicy ns (netpolEgressName sandbox.name)),
          .ok ((v ns (netpolEgressName sandbox.name)).map fun _ => ())⟩ v := .found
      cases hold : v ns (netpolEgressName sandbox.name) with
      | none =>
          rw [hold] at hfound
          exact ⟨_, v, .ask (.ok none) .done, .step hmid hfound⟩
      | some policy =>
          rw [hold] at hfound
          exact ⟨_, _, .ask (.ok (some ())) (.ask (.ok ()) .done),
            .step (.step hmid hfound) .deleted⟩

/-- Whatever was there before, an `apply` can succeed. -/
theorem exists_applied (h : ∀ rule ∈ ownerEgress ++ projectEgress ++ sandbox.egress, HasPeer rule)
    (w : Policies) : ∃ w', Applied sandbox ns ownerEgress projectEgress none w w' := by
  rcases exists_gather sandbox ns ownerEgress projectEgress w with
    ⟨inputs, mid, hgather, howner, hproject, hrestate, happlication, hmid⟩
  have hservice : Program.Follows Served w (⟨.plain (.apply ns (serviceName sandbox.name)
      (SandboxReconciler.buildSandboxService sandbox)), .ok ()⟩ :: mid) w :=
    follows_plain (by intro hkind; cases hkind) hmid
  have hcached : Program.Follows Served w (⟨.plain (.cacheLookup ns), some []⟩ :: _) w :=
    follows_plain id hservice
  have hingress : (buildSandboxNetpol sandbox).Accepted := by
    intro rule hrule
    cases hrule
  have hpolicy : Program.Follows Served w (⟨.applyPolicy ns (netpolName sandbox.name)
      (buildSandboxNetpol sandbox), .ok ()⟩ :: _) _ := .step hcached (.applied hingress)
  rcases exists_reconcileEgress sandbox ns ownerEgress projectEgress none h hpolicy with
    ⟨es, w', hegress, hes⟩
  let after : List (Exchange Answer) :=
    [⟨.plain (.patchSandboxStatus ns sandbox.name inputs.phase (serviceName sandbox.name)), .ok ()⟩,
      ⟨.plain (.getOpt .ingress ns (ingressName sandbox.name)), .ok none⟩]
  have hafter : Program.Follows Served w (after ++ es) w' :=
    follows_plain id (follows_plain (by intro hkind; cases hkind) hes)
  have hpath : (applyChildren sandbox ns ownerEgress projectEgress none none inputs.phase).Path mid
      (after ++ es) (.ok (.requeue (if inputs.phase = "Running".toList ∨
        inputs.phase = "Suspended".toList then 300 else 15))) := by
    refine Program.path_bind_ok.2 ⟨(), _, .ask (.ok ()) .done, ?_⟩
    refine Program.path_bind_ok.2 ⟨[], _, .ask (some []) .done, ?_⟩
    refine Program.path_bind_ok.2 ⟨(), _, .ask (.ok ()) .done, ?_⟩
    refine Program.path_bind_ok.2 ⟨(), es, hegress, ?_⟩
    refine Program.path_bind_ok.2 ⟨(), _, .ask (.ok none) .done, ?_⟩
    exact Program.path_bind_ok.2 ⟨(), _, .ask (.ok ()) .done, .done⟩
  rw [← happlication] at hpath
  exact ⟨w', some "i".toList, inputs, mid, _, _, hgather, howner, hproject, hrestate, hpath, hafter⟩

end Property

/-- A rule that says nothing. -/
def emptyRule : EgressRule := ⟨none, none, none, []⟩

theorem emptyRule_not_accepted :
    ¬ ∀ (Address : Type) (inBlock : Name → Address → Prop) (ownerName : Name) (sandbox : Sandbox)
        (ns : Name) (ownerEgress projectEgress : List EgressRule)
        (restate : Option (Name × Name)),
      Conforms inBlock ownerName sandbox ns ownerEgress projectEgress restate := by
  intro h
  have hconforms := h Unit (fun _ _ => True) [] ⟨"s".toList, some "n".toList, "p".toList, false, []⟩
    "n".toList [emptyRule] [] none
  have hpeer := (hconforms.accepted _ rfl _ (.tail _ (.head _)) _ rfl _ (.head _)).1
  rcases hpeer with hblock | hpods | hnamespaces
  · cases hblock
  · cases hpods
  · cases hnamespaces

end Vanyline.Controller.EgressPolicy
