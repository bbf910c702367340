import Mathlib.Data.List.Nodup
import Vanyline.App.Owners
import Vanyline.Controller.Reconcilers
import Vanyline.Lib.Pool

/-!
# Public hosts of the Sandboxes

Each Sandbox has an Ingress with the host `{sandbox}.sandboxes.{host of the
Application}`.  The controller computes it, and so does the application for the
browser that asks for a WebSocket ticket.

The model has one Application and any number of users, each with an Owner of that
Application.  The calls of `create_project`, `create_sandbox` and `ws_ticket` are
programs over requests to the data base, the apiserver and the sandboxes, and run
side by side.  The apiserver refuses a second Sandbox of one name in one namespace,
but every Owner has a namespace of its own.

`HostsUnique` says that no two Sandboxes have the same host, and that a ticket names
the host of the user's own Sandbox and of no other.  It fails as soon as two Owners
have a Sandbox of the same name (`namesakes_share_host`).  `hostsUnique_of_run` proves
it for the runs in which that does not happen (`NoNamesake`).
-/

namespace Vanyline.App.SandboxHosts

open Vanyline.Lib Vanyline.Crds Vanyline.Controller.Api

abbrev Name := List Char

/-! ## Requests -/

inductive AppError
  | forbidden
  | sandboxBranchEmpty
  | sandboxNotExposed
  | sandboxRelayUnavailable
  | k8sConfigError
  | k8sApiError
  | internalError
  deriving DecidableEq

/-- The marker at the start of the error text. -/
def AppError.code : AppError → String
  | .forbidden => "VNL-AUTH-004"
  | .sandboxBranchEmpty => "VNL-SBX-002"
  | .sandboxNotExposed => "VNL-SBX-001"
  | .sandboxRelayUnavailable => "VNL-SBX-017"
  | .k8sConfigError => "VNL-K8S-001"
  | .k8sApiError => "VNL-K8S-002"
  | .internalError => "VNL-INT-001"

/-- The body of a request to create a Project. -/
structure CreateProjectBody where
  name : Name
  egress : List EgressRule

/-- The body of a request to create a Sandbox. -/
structure CreateSandboxBody where
  name : Name
  project : Name
  branch : Name
  suspended : Bool
  egress : List EgressRule

/-- The requests of the handlers; objects of Owners are in the namespace `ns`. -/
inductive Request
  | resolveUser (user : Nat)
  | resolveOwnerName (user : Nat)
  | ensureOwner (user : Nat)
  | client
  | waitOwnerReady (owner : Name)
  | getOwner (name : Name)
  | getApplication (name : Name)
  | getProject (ns name : Name)
  | createProject (ns : Name) (project : Project)
  | getSandbox (ns name : Name)
  | createSandbox (ns : Name) (sandbox : Sandbox)
  | ownerToken (owner : Name)
  | postWsTicket (url token : Name)

abbrev Answer : Request → Type
  | .resolveUser _ => Except AppError Unit
  | .resolveOwnerName _ => Except AppError (Option Name)
  | .ensureOwner _ => Except AppError Name
  | .client => Except AppError Unit
  | .waitOwnerReady _ => Unit
  | .getOwner _ => Except AppError Owner
  | .getApplication _ => Except AppError Application
  | .getProject _ _ => Except AppError Project
  | .createProject _ _ => Except AppError Unit
  | .getSandbox _ _ => Except AppError Sandbox
  | .createSandbox _ _ => Except AppError Unit
  | .ownerToken _ => Except AppError Name
  | .postWsTicket _ _ => Except AppError Name

inductive Response
  | project (project : Project)
  | sandbox (sandbox : Sandbox)
  | wsTicket (ticket wsHost : Name)

abbrev Handler := Program Request Answer AppError

/-! ## Handlers -/

/-- The application namespace and the Application that all Owners refer to. -/
structure Config where
  appNamespace : Name
  application : Application

section Handlers

variable (cfg : Config)

def orFail {α : Type} (x : Except AppError α) : Handler α := Program.done x

/-- The namespace of the Owner, computed by the client. -/
def ownerNamespace (owner : Name) : Handler Name :=
  match ownerNamespaceName cfg.appNamespace owner with
  | .ok ns => pure ns
  | .error _ => Program.throw .k8sApiError

def getProject (owner name : Name) : Handler Project := do
  let ns ← ownerNamespace cfg owner
  orFail (← Program.request (.getProject ns name))

def getSandbox (owner name : Name) : Handler Sandbox := do
  let ns ← ownerNamespace cfg owner
  orFail (← Program.request (.getSandbox ns name))

/-- The Owner of the user; without one the request is forbidden. -/
def requireOwner (user : Nat) : Handler Name := do
  orFail (← Program.request (.resolveUser user))
  match ← orFail (← Program.request (.resolveOwnerName user)) with
  | some owner => return owner
  | none => Program.throw .forbidden

def createProject (user : Nat) (body : CreateProjectBody) : Handler Response := do
  orFail (← Program.request (.resolveUser user))
  let owner ← orFail (← Program.request (.ensureOwner user))
  orFail (← Program.request .client)
  let _ ← Program.request (Request.waitOwnerReady owner)
  let ns ← ownerNamespace cfg owner
  let project : Project := ⟨body.name, some ns, owner, body.egress, none⟩
  orFail (← Program.request (.createProject ns project))
  return .project project

def createSandbox (user : Nat) (body : CreateSandboxBody) : Handler Response := do
  if body.branch.all isWhitespace then Program.throw .sandboxBranchEmpty
  else
    let owner ← requireOwner user
    orFail (← Program.request .client)
    let project ← getProject cfg owner body.project
    if project.owner ≠ owner then Program.throw .forbidden
    else
      let ns ← ownerNamespace cfg owner
      let sandbox : Sandbox := ⟨body.name, some ns, body.project, body.suspended, body.egress⟩
      orFail (← Program.request (.createSandbox ns sandbox))
      return .sandbox sandbox

/-- The internal address of the ticket endpoint. -/
def sandboxWsTicketUrl (owner name : Name) : Handler Name := do
  let ns ← ownerNamespace cfg owner
  let _ ← orFail (← Program.request (.getSandbox ns name))
  return "http://".toList ++ serviceName name ++ '.' :: ns ++ ".svc:3000/ws/ticket".toList

def wsTicket (user : Nat) (name : Name) : Handler Response := do
  let owner ← requireOwner user
  orFail (← Program.request .client)
  let sandbox ← getSandbox cfg owner name
  let project ← getProject cfg owner sandbox.project
  if project.owner ≠ owner then Program.throw .forbidden
  else
    let ownerObj ← orFail (← Program.request (.getOwner owner))
    match ownerObj.applicationRef with
    | none => Program.throw .sandboxNotExposed
    | some appRef =>
      let application ← orFail (← Program.request (.getApplication appRef))
      let wsHost := name ++ ".sandboxes.".toList ++ application.host
      let token ← orFail (← Program.request (.ownerToken owner))
      let url ← sandboxWsTicketUrl cfg owner name
      let ticket ← orFail (← Program.request (.postWsTicket url token))
      return .wsTicket ticket wsHost

inductive Call
  | createProject (user : Nat) (body : CreateProjectBody)
  | createSandbox (user : Nat) (body : CreateSandboxBody)
  | wsTicket (user : Nat) (name : Name)

def program : Call → Handler Response
  | .createProject user body => createProject cfg user body
  | .createSandbox user body => createSandbox cfg user body
  | .wsTicket user name => wsTicket cfg user name

end Handlers

/-! ## The cluster -/

/-- The links from users to Owners, and the objects. -/
structure Cluster where
  links : Nat → Option Name
  owners : List Name
  projects : List Project
  sandboxes : List Sandbox

def Cluster.project? (w : Cluster) (ns name : Name) : Option Project :=
  w.projects.find? fun p => p.ns = some ns && p.name = name

def Cluster.sandbox? (w : Cluster) (ns name : Name) : Option Sandbox :=
  w.sandboxes.find? fun sb => sb.ns = some ns && sb.name = name

/-- What the environment decides: the request fails, or it is carried out, and then
the Owner and the texts that are not computed here. -/
inductive Outcome
  | fail (e : AppError)
  | ok (text : Name)
  deriving DecidableEq

/-- How a request is carried out. -/
def serve (cfg : Config) (w : Cluster) : (q : Request) → Outcome → Option (Cluster × Answer q)
  | .resolveUser _, .ok _ => some (w, .ok ())
  | .resolveOwnerName user, .ok _ => some (w, .ok (w.links user))
  | .ensureOwner user, .ok owner =>
      some ({ w with links := Function.update w.links user (some owner), owners := owner :: w.owners },
        .ok owner)
  | .client, .ok _ => some (w, .ok ())
  | .waitOwnerReady _, _ => some (w, ())
  | .getOwner name, .ok _ =>
      if w.owners.contains name then
        some (w, .ok ⟨name, some cfg.appNamespace, false, [], some cfg.application.name, [], none⟩)
      else some (w, .error .k8sApiError)
  | .getApplication name, .ok _ =>
      if name = cfg.application.name then some (w, .ok cfg.application)
      else some (w, .error .k8sApiError)
  | .getProject ns name, .ok _ =>
      match w.project? ns name with
      | some project => some (w, .ok project)
      | none => some (w, .error .k8sApiError)
  | .createProject ns project, .ok _ =>
      if (w.project? ns project.name).isSome then some (w, .error .k8sApiError)
      else some ({ w with projects := project :: w.projects }, .ok ())
  | .getSandbox ns name, .ok _ =>
      match w.sandbox? ns name with
      | some sandbox => some (w, .ok sandbox)
      | none => some (w, .error .k8sApiError)
  | .createSandbox ns sandbox, .ok _ =>
      if (w.sandbox? ns sandbox.name).isSome then some (w, .error .k8sApiError)
      else some ({ w with sandboxes := sandbox :: w.sandboxes }, .ok ())
  | .ownerToken _, .ok token => some (w, .ok token)
  | .postWsTicket _ _, .ok ticket => some (w, .ok ticket)
  | .resolveUser _, .fail e => some (w, .error e)
  | .resolveOwnerName _, .fail e => some (w, .error e)
  | .ensureOwner _, .fail e => some (w, .error e)
  | .client, .fail e => some (w, .error e)
  | .getOwner _, .fail e => some (w, .error e)
  | .getApplication _, .fail e => some (w, .error e)
  | .getProject _ _, .fail e => some (w, .error e)
  | .createProject _ _, .fail e => some (w, .error e)
  | .getSandbox _ _, .fail e => some (w, .error e)
  | .createSandbox _ _, .fail e => some (w, .error e)
  | .ownerToken _, .fail e => some (w, .error e)
  | .postWsTicket _ _, .fail e => some (w, .error e)

/-- The cluster with its requests; it makes no moves of its own. -/
def world (cfg : Config) : World Cluster Request Answer Outcome Empty where
  serve := serve cfg
  move := fun _ x => nomatch x

abbrev State := Pool Cluster Nat Call Request Answer AppError Response

abbrev Action := PoolAction Nat Call Outcome Empty

def step (cfg : Config) : State → Action → Option State := Pool.step (world cfg) (program cfg)

def State.init : State := Pool.init ⟨fun _ => none, [], [], []⟩

/-! ## The property -/

/-- The host in the Ingress that the controller builds for the Sandbox. -/
def ingressHost (cfg : Config) (sandbox : Sandbox) : Option Name :=
  (Controller.SandboxReconciler.buildSandboxIngress sandbox cfg.application).ingress.map (·.ruleHost)

/-- The hosts are distinct, and every ticket names the host of the Sandbox that the
user has asked for, which no other Sandbox has. -/
structure HostsUnique (cfg : Config) (s : State) : Prop where
  distinct : (s.world.sandboxes.map (ingressHost cfg)).Nodup
  ticket : ∀ i user name ticket host past,
    s.threads i = some ⟨.wsTicket user name, .done (.ok (.wsTicket ticket host)), past⟩ →
      ∃ owner ns sandbox, ⟨.resolveOwnerName user, .ok (some owner)⟩ ∈ past ∧
        ownerNamespaceName cfg.appNamespace owner = .ok ns ∧
        s.world.sandbox? ns name = some sandbox ∧ ingressHost cfg sandbox = some host ∧
        ∀ other ∈ s.world.sandboxes, other ≠ sandbox → ingressHost cfg other ≠ some host

/-- The Sandbox that a call asks the apiserver to create, and its namespace. -/
def creating (s : State) (i : Nat) : Option (Name × Sandbox) :=
  match s.threads i with
  | some ⟨_, .ask (.createSandbox ns sandbox) _, _⟩ => some (ns, sandbox)
  | _ => none

/-- No other Owner's Sandbox has the name of the new one. -/
def NewName (w : Cluster) : Option (Name × Sandbox) → Prop
  | some (ns, sandbox) => ∀ other ∈ w.sandboxes, other.name = sandbox.name → other.ns = some ns
  | none => True

/-- A Sandbox is created only under a name that no other Owner's Sandbox has. -/
def NoNamesake (s : State) : Action → Prop
  | .serve i (.ok _) => NewName s.world (creating s i)
  | _ => True

instance (w : Cluster) : (new : Option (Name × Sandbox)) → Decidable (NewName w new)
  | some (ns, sandbox) => inferInstanceAs
      (Decidable (∀ other ∈ w.sandboxes, other.name = sandbox.name → other.ns = some ns))
  | none => isTrue trivial

instance (s : State) : (a : Action) → Decidable (NoNamesake s a)
  | .serve i (.ok _) => inferInstanceAs (Decidable (NewName s.world (creating s i)))
  | .serve _ (.fail _) => isTrue trivial
  | .start _ _ => isTrue trivial
  | .move _ => isTrue trivial

/-! ## Hosts and names -/

section Proofs

variable {cfg : Config}

/-- The host begins with the name and ends alike for all Sandboxes. -/
theorem ingressHost_inj {a b : Sandbox} : ingressHost cfg a = ingressHost cfg b ↔ a.name = b.name := by
  simp only [ingressHost, Controller.SandboxReconciler.buildSandboxIngress, Option.map_some,
    Option.some.injEq, List.append_assoc, List.append_left_inj]

/-- Distinct names give distinct hosts. -/
theorem nodup_hosts {sandboxes : List Sandbox} (h : (sandboxes.map (·.name)).Nodup) :
    (sandboxes.map (ingressHost cfg)).Nodup := by
  rw [List.Nodup, List.pairwise_map] at h ⊢
  exact h.imp fun hne heq => hne (ingressHost_inj.1 heq)

/-- With distinct names, a Sandbox is known by its name. -/
theorem eq_of_name_eq {sandboxes : List Sandbox} (h : (sandboxes.map (·.name)).Nodup)
    {a b : Sandbox} (ha : a ∈ sandboxes) (hb : b ∈ sandboxes) (hname : a.name = b.name) : a = b :=
  List.inj_on_of_nodup_map h ha hb hname

/-- A Sandbox that is found is there, under this key. -/
theorem Cluster.sandbox?_spec {w : Cluster} {ns name : Name} {sandbox : Sandbox}
    (h : w.sandbox? ns name = some sandbox) :
    sandbox ∈ w.sandboxes ∧ sandbox.ns = some ns ∧ sandbox.name = name := by
  have hkey := List.find?_some h
  simp only [Bool.and_eq_true, decide_eq_true_eq] at hkey
  exact ⟨List.mem_of_find?_eq_some h, hkey⟩

/-- No Sandbox is there under a key that is not found. -/
theorem Cluster.sandbox?_none {w : Cluster} {ns name : Name} (h : w.sandbox? ns name = none)
    {sandbox : Sandbox} (hmem : sandbox ∈ w.sandboxes) (hname : sandbox.name = name) :
    sandbox.ns ≠ some ns := by
  intro hns
  have hkey := List.find?_eq_none.1 h sandbox hmem
  simp [hns, hname] at hkey

/-! ## The invariant -/

/-- No two Sandboxes of the cluster have the same name. -/
def DistinctNames (w : Cluster) : Prop := (w.sandboxes.map (·.name)).Nodup

/-- What stays true of an answer: a Sandbox that was read is still there, and there is
only one Application. -/
def Fact (cfg : Config) (w : Cluster) : Exchange Answer → Prop
  | ⟨.getSandbox ns name, .ok sandbox⟩ => w.sandbox? ns name = some sandbox
  | ⟨.getApplication _, .ok application⟩ => application = cfg.application
  | _ => True

/-- A request leaves the Sandboxes as they are and its answer tells the truth about
them, or it creates a Sandbox under a new key. -/
theorem serve_cases {w w' : Cluster} {q : Request} {outcome : Outcome} {x : Answer q}
    (h : serve cfg w q outcome = some (w', x)) :
    (w'.sandboxes = w.sandboxes ∧ Fact cfg w' ⟨q, x⟩) ∨
      ∃ ns sandbox text, q = .createSandbox ns sandbox ∧ outcome = .ok text ∧
        w.sandbox? ns sandbox.name = none ∧
        w' = { w with sandboxes := sandbox :: w.sandboxes } := by
  cases q with
  | createSandbox ns sandbox =>
      cases outcome with
      | fail e =>
          simp only [serve, Option.some.injEq, Prod.mk.injEq] at h
          obtain ⟨rfl, rfl⟩ := h
          exact .inl ⟨rfl, trivial⟩
      | ok text =>
          simp only [serve] at h
          split_ifs at h with hthere
          · simp only [Option.some.injEq, Prod.mk.injEq] at h
            obtain ⟨rfl, rfl⟩ := h
            exact .inl ⟨rfl, trivial⟩
          · simp only [Option.some.injEq, Prod.mk.injEq] at h
            obtain ⟨rfl, rfl⟩ := h
            exact .inr ⟨ns, sandbox, text, rfl, rfl, by simpa using hthere, rfl⟩
  | getSandbox ns name =>
      left
      cases outcome with
      | fail e =>
          cases h
          exact ⟨rfl, trivial⟩
      | ok text =>
          simp only [serve] at h
          split at h
          · next sandbox hfound =>
            cases h
            exact ⟨rfl, hfound⟩
          · cases h
            exact ⟨rfl, trivial⟩
  | getApplication name =>
      left
      cases outcome with
      | fail e =>
          cases h
          exact ⟨rfl, trivial⟩
      | ok text =>
          simp only [serve] at h
          split at h
          · cases h
            exact ⟨rfl, rfl⟩
          · cases h
            exact ⟨rfl, trivial⟩
  | _ =>
      left
      cases outcome <;> simp only [serve] at h <;> (try split at h) <;> cases h <;>
        exact ⟨rfl, trivial⟩

/-- With a new name the names stay distinct. -/
theorem distinctNames_cons {w : Cluster} {ns : Name} {sandbox : Sandbox} (hw : DistinctNames w)
    (hnone : w.sandbox? ns sandbox.name = none)
    (hguard : ∀ other ∈ w.sandboxes, other.name = sandbox.name → other.ns = some ns) :
    DistinctNames { w with sandboxes := sandbox :: w.sandboxes } := by
  refine List.nodup_cons.2 ⟨?_, hw⟩
  intro hmem
  obtain ⟨other, hother, hname⟩ := List.mem_map.1 hmem
  exact w.sandbox?_none hnone hother hname (hguard other hother hname)

/-- A Sandbox that was read is still found after one with a new name is created. -/
theorem fact_cons {w : Cluster} {ns : Name} {sandbox : Sandbox}
    (hnone : w.sandbox? ns sandbox.name = none)
    (hguard : ∀ other ∈ w.sandboxes, other.name = sandbox.name → other.ns = some ns)
    {e : Exchange Answer} (he : Fact cfg w e) :
    Fact cfg { w with sandboxes := sandbox :: w.sandboxes } e := by
  unfold Fact at he ⊢
  split
  · next ns' name' found =>
    obtain ⟨hmem, hns, hname⟩ := w.sandbox?_spec he
    show List.find? _ (sandbox :: w.sandboxes) = some found
    rw [List.find?_cons_of_neg]
    · exact he
    · intro hkey
      simp only [Bool.and_eq_true, decide_eq_true_eq] at hkey
      have hsame : found.name = sandbox.name := by rw [hname, hkey.2]
      exact w.sandbox?_none hnone hmem hsame (hguard found hmem hsame)
  · exact he
  · trivial

/-- The application namespace decides the namespace of the Owner. -/
theorem returns_ownerNamespace {owner : Name} {past : List (Exchange Answer)}
    {P : List (Exchange Answer) → Name → Prop}
    (h : ∀ ns, ownerNamespaceName cfg.appNamespace owner = .ok ns → P past ns) :
    (ownerNamespace cfg owner).Returns P past := by
  unfold ownerNamespace
  split
  · next ns hns => exact Program.returns_pure.2 (h ns hns)
  · exact Program.returns_throw

/-- What the ticket call has read when it returns a host. -/
theorem wsTicket_returns (user : Nat) (name : Name) : (wsTicket cfg user name).Returns
    (fun es response => ∀ ticket host, response = .wsTicket ticket host →
      ∃ owner ns sandbox appRef application,
        ⟨.resolveOwnerName user, .ok (some owner)⟩ ∈ es ∧
        ownerNamespaceName cfg.appNamespace owner = .ok ns ∧
        ⟨.getSandbox ns name, .ok sandbox⟩ ∈ es ∧
        ⟨.getApplication appRef, .ok application⟩ ∈ es ∧
        host = name ++ ".sandboxes.".toList ++ application.host) [] := by
  unfold wsTicket requireOwner getSandbox getProject sandboxWsTicketUrl orFail
  simp only [Program.returns_bind, Program.returns_request, Program.returns_done]
  intro x _ hx link _ hlink
  subst hx hlink
  split
  · next owner =>
    rw [Program.returns_pure]
    intro y _ hy
    subst hy
    refine returns_ownerNamespace fun ns hns => ?_
    intro z sandbox hz
    subst hz
    refine returns_ownerNamespace fun ns' _ => ?_
    intro v project hv
    subst hv
    split
    · exact Program.returns_throw
    · simp only [Program.returns_bind, Program.returns_request, Program.returns_done]
      intro a ownerObj ha
      subst ha
      split
      · exact Program.returns_throw
      · next appRef _ =>
        simp only [Program.returns_bind, Program.returns_request, Program.returns_done]
        intro b application hb c _ hc
        subst hb hc
        refine returns_ownerNamespace fun ns'' _ => ?_
        intro d _ hd
        subst hd
        rw [Program.returns_pure]
        intro t ticket ht
        subst ht
        rw [Program.returns_pure]
        rintro _ _ ⟨⟩
        exact ⟨owner, ns, sandbox, appRef, application, by simp, hns, by simp, by simp, rfl⟩
  · exact Program.returns_throw

/-! ## Runs -/

/-- The invariant: the names are distinct, the calls follow their programs, and what
they have read is still true. -/
structure Inv (cfg : Config) (s : State) : Prop where
  facts : s.Facts DistinctNames (Fact cfg)
  valid : s.Valid (program cfg)

theorem inv_init : Inv cfg .init where
  facts := Pool.facts_init List.nodup_nil
  valid := Pool.valid_init

theorem inv_step {s t : State} {a : Action} (hs : Inv cfg s) (hok : NoNamesake s a)
    (h : step cfg s a = some t) : Inv cfg t where
  facts := by
    refine Pool.facts_step hs.facts ?_ (fun x => nomatch x) h
    intro i outcome call q next past w x ha hthread hserve
    subst ha
    rcases serve_cases hserve with ⟨hsame, hfact⟩ | ⟨ns, sandbox, text, rfl, rfl, hnone, rfl⟩
    · refine ⟨?_, hfact, ?_⟩
      · rw [DistinctNames, hsame]
        exact hs.facts.world
      · intro e he
        unfold Fact Cluster.sandbox? at he ⊢
        rw [hsame]
        exact he
    · have hguard : ∀ other ∈ s.world.sandboxes, other.name = sandbox.name → other.ns = some ns := by
        simpa only [NoNamesake, NewName, creating, hthread] using hok
      exact ⟨distinctNames_cons hs.facts.world hnone hguard, trivial,
        fun e he => fact_cons hnone hguard he⟩
  valid := Pool.valid_step hs.valid h

theorem hostsUnique_of_inv {s : State} (hs : Inv cfg s) : HostsUnique cfg s where
  distinct := nodup_hosts hs.facts.world
  ticket := by
    intro i user name ticket host past hthread
    obtain ⟨owner, ns, sandbox, appRef, application, howner, hns, hsandbox, happ, rfl⟩ :=
      hs.valid.meets hthread (wsTicket_returns user name) _ rfl ticket host rfl
    have hfound : s.world.sandbox? ns name = some sandbox := hs.facts.past i _ hthread _ hsandbox
    have happlication : application = cfg.application := hs.facts.past i _ hthread _ happ
    obtain ⟨hmem, -, hname⟩ := s.world.sandbox?_spec hfound
    have hhost : ingressHost cfg sandbox =
        some (name ++ ".sandboxes.".toList ++ application.host) := by
      rw [happlication, ← hname]
      rfl
    refine ⟨owner, ns, sandbox, howner, hns, hfound, hhost, ?_⟩
    intro other hother hne heq
    rw [← hhost] at heq
    exact hne (eq_of_name_eq hs.facts.world hother hmem (ingressHost_inj.1 heq))

/-- The hosts are unique in every run in which no two Owners have a Sandbox of the
same name. -/
theorem hostsUnique_of_run {as : List Action} {t : State}
    (h : Run (step cfg) NoNamesake .init as t) : HostsUnique cfg t :=
  hostsUnique_of_inv (h.invariant inv_init fun _ _ _ hs hok hnext => inv_step hs hok hnext)

end Proofs

/-! ## Namesakes -/

/-- The Application `app` of the namespace `vny`, with the host `v.org`. -/
def demoConfig : Config where
  appNamespace := "vny".toList
  application := ⟨"app".toList, some "vny".toList, "v.org".toList, "nginx".toList, fun _ => none,
    "issuer".toList, none, none, false⟩

/-- Carry out the next `n` requests of a call. -/
def serveAll (i n : Nat) : List Action := List.replicate n (.serve i (.ok []))

/-- The user creates the Project `p`, which gives him his Owner. -/
def createsProject (i user : Nat) (owner : Name) : List Action :=
  [.start i (.createProject user ⟨"p".toList, []⟩), .serve i (.ok []), .serve i (.ok owner)] ++
    serveAll i 3

/-- The user creates a Sandbox of the Project `p`. -/
def createsSandbox (i user : Nat) (name : Name) : List Action :=
  .start i (.createSandbox user ⟨name, "p".toList, "main".toList, false, []⟩) :: serveAll i 5

/-- The user asks for a ticket. -/
def asksTicket (i user : Nat) (name : Name) : List Action :=
  .start i (.wsTicket user name) :: serveAll i 10

/-- Two users create a Sandbox each. -/
def twoUsers (name name' : Name) : List Action :=
  createsProject 0 1 "a".toList ++ createsProject 1 2 "b".toList ++ createsSandbox 2 1 name ++
    createsSandbox 3 2 name' ++ asksTicket 4 1 name

/-- The host in the answer of a ticket call. -/
def ticketHost (s : State) (i : Nat) : Option Name :=
  match s.threads i with
  | some ⟨_, .done (.ok (.wsTicket _ host)), _⟩ => some host
  | _ => none

/-- Two users have a Sandbox `x` each, under one host, and the ticket of the first one
names it. -/
theorem namesakes_share_host : ∃ s,
    Run (step demoConfig) free .init (twoUsers "x".toList "x".toList) s ∧
      s.world.sandboxes.map (·.ns) = [some "vny-b".toList, some "vny-a".toList] ∧
      s.world.sandboxes.map (ingressHost demoConfig) = [ticketHost s 4, ticketHost s 4] ∧
      ¬HostsUnique demoConfig s := by
  obtain ⟨s, hrun, htest⟩ : ∃ s, Run (step demoConfig) free .init (twoUsers "x".toList "x".toList) s ∧
      decide (s.world.sandboxes.map (·.ns) = [some "vny-b".toList, some "vny-a".toList] ∧
        s.world.sandboxes.map (ingressHost demoConfig) = [ticketHost s 4, ticketHost s 4]) = true :=
    Run.exists_of_exec _ (by decide)
  obtain ⟨hns, hhosts⟩ := of_decide_eq_true htest
  refine ⟨s, hrun, hns, hhosts, fun hunique => ?_⟩
  have hdistinct := hunique.distinct
  rw [hhosts] at hdistinct
  simp at hdistinct

/-- Two users have a Sandbox `x` and a Sandbox `y`. -/
theorem distinct_names_apart : ∃ s,
    Run (step demoConfig) NoNamesake .init (twoUsers "x".toList "y".toList) s ∧
      ticketHost s 4 = some "x.sandboxes.v.org".toList ∧ HostsUnique demoConfig s := by
  obtain ⟨s, hrun, htest⟩ : ∃ s,
      Run (step demoConfig) NoNamesake .init (twoUsers "x".toList "y".toList) s ∧
        decide (ticketHost s 4 = some "x.sandboxes.v.org".toList) = true :=
    Run.exists_of_exec _ (by decide)
  exact ⟨s, hrun, of_decide_eq_true htest, hostsUnique_of_run hrun⟩

end Vanyline.App.SandboxHosts
