import Vanyline.App.RhaiValues
import Vanyline.Lib.Effect

/-!
# The bridge to the MCP servers

A rhai script of a workflow can list the MCP servers of its run and call their tools.

* The list of the servers is made at the first use and kept: those of the user, and behind them
  the `sandbox` of the run.  A name stands for the first server of the list that has it.
* `request` is what both kinds of calls do: find the server, take a call of the quota, send.
  `exec_request` says how it can end.
* `Inv` holds after every sequence of calls: what was sent went to the server that the name stands
  for, and there are at most `maxMcpCalls` requests.
* `crossing_iff` puts the conversions and the calls together: a value crosses the bridge unchanged
  when its integers are `i64`, and `sandbox` is the sandbox of the run when no server of the user
  takes its name.

What the servers answer is part of a call, and how JSON is written and read is a parameter.
-/

namespace Vanyline.App.RhaiBridge

open Vanyline.Lib Vanyline.Lib.TextLines

variable {fl : Floats}

/-! ## Servers -/

def maxMcpCalls : Nat := 200

structure BridgeServer where
  name : Text
  url : Text
  headers : List (Text × Text)
  deriving DecidableEq

def planServers (user : List BridgeServer) : Option BridgeServer → List BridgeServer
  | some sandbox => user ++ [sandbox]
  | none => user

def sandboxName : Text := "sandbox".toList

/-- The server of the sandbox at a base URL, with the token of the Owner. -/
def sandboxServer (base token : Text) : BridgeServer where
  name := sandboxName
  url := base ++ "/mcp".toList
  headers := [("Authorization".toList, "Bearer ".toList ++ token)]

/-- What the lookups of a run give: the servers of the user and, in a sandbox, the token of the
Owner and the base URL. -/
structure Env where
  user : Except Text (List BridgeServer)
  sandbox : Option (Except Text Text × Except Text Text)

/-- The list that `rhai_step` makes. -/
def Env.list (env : Env) : Except Text (List BridgeServer) :=
  match env.user with
  | .error e => .error e
  | .ok user =>
    match env.sandbox with
    | none => .ok (planServers user none)
    | some (.error e, _) => .error e
    | some (.ok _, .error e) => .error e
    | some (.ok token, .ok base) => .ok (planServers user (some (sandboxServer base token)))

/-! ## Requests -/

/-- A request, and the name that the script gave for the server. -/
structure Sent (fl : Floats) where
  asked : Text
  server : BridgeServer
  method : Text
  params : Json fl

/-- The bridge of one execution, with the requests that were sent. -/
structure McpBridge (fl : Floats) where
  servers : Option (Except Text (List BridgeServer))
  calls : Nat
  sent : List (Sent fl)

def McpBridge.start : McpBridge fl := ⟨none, 0, []⟩

/-- What came back for a request. -/
inductive HttpReply (fl : Floats) where
  | unreachable (e : Text)
  | refused (status : Text)
  | invalid (e : Text)
  | envelope (value : Json fl)

/-- How JSON is written and read. -/
structure Serde (fl : Floats) where
  render : Json fl → Text
  parse : Text → Option (Json fl)

def Json.get (key : Text) : Json fl → Option (Json fl)
  | .object fields => fields.lookup key
  | _ => none

def Json.asArray : Json fl → Option (List (Json fl))
  | .array items => some items
  | _ => none

def Json.asStr : Json fl → Option Text
  | .string s => some s
  | _ => none

def Json.asBool : Json fl → Option Bool
  | .bool b => some b
  | _ => none

abbrev Bridge (fl : Floats) (α : Type) := Effect (McpBridge fl) Text α

/-- The list is made once. -/
def getServers (env : Env) : Bridge fl (List BridgeServer) := fun b =>
  let listed := b.servers.getD env.list
  (listed.mapError ("serveurs MCP indisponibles : ".toList ++ ·), { b with servers := some listed })

def takeCall : Bridge fl Unit := fun b =>
  (if maxMcpCalls ≤ b.calls then .error "plafond d'appels MCP (200) atteint".toList else .ok (),
    { b with calls := b.calls + 1 })

/-- The first server with the name. -/
def find (env : Env) (name : Text) : Bridge fl BridgeServer := do
  let servers ← getServers env
  match servers.find? (·.name == name) with
  | some server => pure server
  | none => throw ("serveur MCP inconnu : « ".toList ++ name ++ " »".toList)

def named (srv : BridgeServer) : Text := "« ".toList ++ srv.name ++ " »".toList

/-- The result of a reply.  The errors do not tell what the headers are. -/
def rpcResult (serde : Serde fl) (srv : BridgeServer) : HttpReply fl → Except Text (Json fl)
  | .unreachable e => .error ("serveur MCP ".toList ++ named srv ++ " injoignable : ".toList ++ e)
  | .refused status =>
    let authorized := srv.headers.any fun header =>
      header.1.map Char.toLower == "authorization".toList
    .error ("serveur MCP ".toList ++ named srv ++ " : HTTP ".toList ++ status ++ " (".toList ++
      (if authorized then "avec" else "sans").toList ++ " en-tête d'authentification)".toList)
  | .invalid e =>
    .error ("enveloppe JSON-RPC invalide de ".toList ++ named srv ++ " : ".toList ++ e)
  | .envelope value =>
    match value.get "error".toList with
    | some e => .error ("erreur MCP de ".toList ++ named srv ++ " : ".toList ++ serde.render e)
    | none =>
      match value.get "result".toList with
      | some result => .ok result
      | none => .error ("enveloppe sans `result` de ".toList ++ named srv)

def rpc (serde : Serde fl) (asked : Text) (srv : BridgeServer) (method : Text) (params : Json fl)
    (reply : HttpReply fl) : Bridge fl (Json fl) := fun b =>
  (rpcResult serde srv reply, { b with sent := b.sent ++ [⟨asked, srv, method, params⟩] })

/-- What `list_tools` and `call_tool` begin with. -/
def request (serde : Serde fl) (env : Env) (asked method : Text) (params : Json fl)
    (reply : HttpReply fl) : Bridge fl (BridgeServer × Json fl) := do
  let srv ← find env asked
  takeCall
  let result ← rpc serde asked srv method params reply
  pure (srv, result)

/-! ## The functions of a script -/

def serverNames (env : Env) : Bridge fl (List (Dynamic fl)) := do
  let servers ← getServers env
  pure (servers.map fun srv => .string srv.name)

/-- A field of a tool, `null` when it has none. -/
def toolField (tool : Json fl) (key : String) : Dynamic fl :=
  jsonToDynamic ((tool.get key.toList).getD .null)

def toolEntry (tool : Json fl) : Dynamic fl :=
  .map (insertEntry "input_schema".toList (toolField tool "inputSchema")
    (insertEntry "description".toList (toolField tool "description")
      (insertEntry "name".toList (toolField tool "name") [])))

def listTools (serde : Serde fl) (env : Env) (server : Text) (reply : HttpReply fl) :
    Bridge fl (List (Dynamic fl)) := do
  let (_, result) ← request serde env server "tools/list".toList (.object []) reply
  let tools := ((result.get "tools".toList).bind Json.asArray).getD []
  pure (tools.map toolEntry)

/-- The texts of the parts of a result. -/
def resultText (result : Json fl) : Text :=
  match (result.get "content".toList).bind Json.asArray with
  | some parts => (parts.filterMap fun part =>
      if (part.get "type".toList).bind Json.asStr = some "text".toList then
        (part.get "text".toList).bind Json.asStr
      else none).flatten
  | none => []

def callParams (tool : Text) (args : List (Text × Dynamic fl)) : Json fl :=
  .object [("arguments".toList, dynamicToJson (.map args)), ("name".toList, .string tool)]

def callTool (serde : Serde fl) (env : Env) (server tool : Text)
    (args : List (Text × Dynamic fl)) (reply : HttpReply fl) : Bridge fl (Dynamic fl) := do
  let (srv, result) ← request serde env server "tools/call".toList (callParams tool args) reply
  if ((result.get "isError".toList).bind Json.asBool).getD false then
    throw ("erreur d'outil ".toList ++ named srv ++ " : ".toList ++ tool)
  else
    match serde.parse (resultText result) with
    | some value => pure (jsonToDynamic value)
    | none => pure (.string (resultText result))

/-! ## Executions -/

/-- A call of a script, with what comes back for its request. -/
inductive Call (fl : Floats) where
  | serverNames
  | listTools (server : Text) (reply : HttpReply fl)
  | callTool (server tool : Text) (args : List (Text × Dynamic fl)) (reply : HttpReply fl)

def perform (serde : Serde fl) (env : Env) (b : McpBridge fl) : Call fl → McpBridge fl
  | .serverNames => ((serverNames env).exec b).2
  | .listTools server reply => ((listTools serde env server reply).exec b).2
  | .callTool server tool args reply => ((callTool serde env server tool args reply).exec b).2

/-- The bridge after the calls of a script. -/
def execute (serde : Serde fl) (env : Env) (calls : List (Call fl)) : McpBridge fl :=
  calls.foldl (perform serde env) .start

/-- The server that a name stands for. -/
def resolve (listed : Except Text (List BridgeServer)) (name : Text) : Option BridgeServer :=
  match listed with
  | .ok servers => servers.find? (·.name == name)
  | .error _ => none

/-- The bridge after a request. -/
def afterRequest (env : Env) (asked method : Text) (params : Json fl) (b : McpBridge fl) :
    McpBridge fl :=
  let listed := b.servers.getD env.list
  match resolve listed asked with
  | none => { b with servers := some listed }
  | some srv =>
    if maxMcpCalls ≤ b.calls then { b with servers := some listed, calls := b.calls + 1 }
    else ⟨some listed, b.calls + 1, b.sent ++ [⟨asked, srv, method, params⟩]⟩

theorem exec_getServers (env : Env) (b : McpBridge fl) :
    (getServers env).exec b =
      ((b.servers.getD env.list).mapError ("serveurs MCP indisponibles : ".toList ++ ·),
        { b with servers := some (b.servers.getD env.list) }) := rfl

theorem exec_find (env : Env) (name : Text) (b : McpBridge fl) :
    ∃ e, (find env name).exec b =
      (match resolve (b.servers.getD env.list) name with
        | some server => Except.ok server
        | none => Except.error e,
        { b with servers := some (b.servers.getD env.list) }) := by
  unfold find resolve
  rw [Effect.exec_bind, exec_getServers]
  cases b.servers.getD env.list with
  | error e => exact ⟨_, rfl⟩
  | ok servers =>
    dsimp only [Except.mapError]
    cases servers.find? (·.name == name) with
    | none => exact ⟨_, rfl⟩
    | some server => exact ⟨[], rfl⟩

theorem exec_takeCall (b : McpBridge fl) :
    takeCall.exec b =
      (if maxMcpCalls ≤ b.calls then .error "plafond d'appels MCP (200) atteint".toList
        else .ok (), { b with calls := b.calls + 1 }) := rfl

theorem exec_rpc (serde : Serde fl) (asked : Text) (srv : BridgeServer) (method : Text)
    (params : Json fl) (reply : HttpReply fl) (b : McpBridge fl) :
    (rpc serde asked srv method params reply).exec b =
      (rpcResult serde srv reply, { b with sent := b.sent ++ [⟨asked, srv, method, params⟩] }) :=
  rfl

/-- All that a request can do to the bridge. -/
theorem snd_exec_request (serde : Serde fl) (env : Env) (asked method : Text) (params : Json fl)
    (reply : HttpReply fl) (b : McpBridge fl) :
    ((request serde env asked method params reply).exec b).2 =
      afterRequest env asked method params b := by
  obtain ⟨e, hfind⟩ := exec_find env asked b
  unfold request afterRequest
  rw [Effect.exec_bind, hfind]
  dsimp only
  cases resolve (b.servers.getD env.list) asked with
  | none => rfl
  | some srv =>
    dsimp only
    rw [Effect.exec_bind, exec_takeCall]
    dsimp only
    split_ifs with hcap
    · rfl
    · dsimp only
      rw [Effect.snd_exec_bind fun _ => Effect.readOnly_pure _, exec_rpc]

theorem perform_serverNames (serde : Serde fl) (env : Env) (b : McpBridge fl) :
    perform serde env b .serverNames = { b with servers := some (b.servers.getD env.list) } := by
  show ((serverNames env).exec b).2 = _
  unfold serverNames
  rw [Effect.snd_exec_bind fun _ => Effect.readOnly_pure _, exec_getServers]

theorem perform_listTools (serde : Serde fl) (env : Env) (b : McpBridge fl) (server : Text)
    (reply : HttpReply fl) :
    perform serde env b (.listTools server reply) =
      afterRequest env server "tools/list".toList (.object []) b := by
  show ((listTools serde env server reply).exec b).2 = _
  unfold listTools
  rw [Effect.snd_exec_bind fun _ => Effect.readOnly_pure _, snd_exec_request]

theorem perform_callTool (serde : Serde fl) (env : Env) (b : McpBridge fl) (server tool : Text)
    (args : List (Text × Dynamic fl)) (reply : HttpReply fl) :
    perform serde env b (.callTool server tool args reply) =
      afterRequest env server "tools/call".toList (callParams tool args) b := by
  show ((callTool serde env server tool args reply).exec b).2 = _
  unfold callTool
  rw [Effect.snd_exec_bind, snd_exec_request]
  rintro ⟨srv, result⟩
  dsimp only
  split_ifs
  · exact Effect.readOnly_throw _
  · cases serde.parse (resultText result) with
    | none => exact Effect.readOnly_pure _
    | some value => exact Effect.readOnly_pure _

/-! ## What holds of every execution -/

/-- The list is the one of the run, each request went to the server that its name stands for, and
their number is bounded. -/
structure Inv (env : Env) (b : McpBridge fl) : Prop where
  listed : b.servers.getD env.list = env.list
  resolved : ∀ r ∈ b.sent, resolve env.list r.asked = some r.server
  counted : b.sent.length ≤ b.calls
  bounded : b.sent.length ≤ maxMcpCalls

theorem inv_start (env : Env) : Inv env (McpBridge.start : McpBridge fl) where
  listed := rfl
  resolved := fun _ hr => (nomatch hr)
  counted := Nat.le_refl _
  bounded := Nat.zero_le _

theorem inv_afterRequest {env : Env} {b : McpBridge fl} (h : Inv env b) (asked method : Text)
    (params : Json fl) : Inv env (afterRequest env asked method params b) := by
  have hcounted := h.counted
  have hbounded := h.bounded
  unfold afterRequest
  rw [h.listed]
  dsimp only
  cases hresolve : resolve env.list asked with
  | none => exact ⟨rfl, h.resolved, hcounted, hbounded⟩
  | some srv =>
    dsimp only
    split_ifs with hcap
    · exact ⟨rfl, h.resolved, Nat.le_succ_of_le hcounted, hbounded⟩
    · refine ⟨rfl, ?_, ?_, ?_⟩
      · intro r hr
        rcases List.mem_append.1 hr with hr | hr
        · exact h.resolved r hr
        · rw [List.mem_singleton.1 hr]
          exact hresolve
      · show (b.sent ++ [_]).length ≤ b.calls + 1
        rw [List.length_append, List.length_singleton]
        omega
      · show (b.sent ++ [_]).length ≤ maxMcpCalls
        rw [List.length_append, List.length_singleton]
        omega

theorem inv_perform {env : Env} {b : McpBridge fl} (h : Inv env b) (serde : Serde fl)
    (call : Call fl) : Inv env (perform serde env b call) := by
  cases call with
  | serverNames =>
    rw [perform_serverNames, h.listed]
    exact ⟨rfl, h.resolved, h.counted, h.bounded⟩
  | listTools server reply =>
    rw [perform_listTools]
    exact inv_afterRequest h _ _ _
  | callTool server tool args reply =>
    rw [perform_callTool]
    exact inv_afterRequest h _ _ _

theorem inv_execute (serde : Serde fl) (env : Env) (calls : List (Call fl)) :
    Inv env (execute serde env calls) := by
  have hfold : ∀ b : McpBridge fl, Inv env b → Inv env (calls.foldl (perform serde env) b) := by
    induction calls with
    | nil => exact fun b h => h
    | cons call calls ih => exact fun b h => ih _ (inv_perform h serde call)
  exact hfold _ (inv_start env)

/-! ## The sandbox of the run -/

/-- In a sandbox whose token and base URL were found, the server is the one of the sandbox. -/
def OwnSandbox (env : Env) (srv : BridgeServer) : Prop :=
  ∃ token base, env.sandbox = some (.ok token, .ok base) ∧ srv = sandboxServer base token

/-- No server of the user has the name of the sandbox, or the first that has is its very server. -/
def NotShadowed (env : Env) : Prop :=
  ∀ user token base, env.user = .ok user → env.sandbox = some (.ok token, .ok base) →
    ∀ srv, user.find? (·.name == sandboxName) = some srv → srv = sandboxServer base token

theorem list_eq_ok {env : Env} {servers : List BridgeServer} (hscope : env.sandbox.isSome)
    (h : env.list = .ok servers) :
    ∃ user token base, env.user = .ok user ∧ env.sandbox = some (.ok token, .ok base) ∧
      servers = user ++ [sandboxServer base token] := by
  unfold Env.list at h
  cases huser : env.user with
  | error e =>
    rw [huser] at h
    cases h
  | ok user =>
    rw [huser] at h
    rcases hsandbox : env.sandbox with _ | ⟨_ | token, _ | base⟩
    · rw [hsandbox] at hscope
      cases hscope
    · rw [hsandbox] at h
      cases h
    · rw [hsandbox] at h
      cases h
    · rw [hsandbox] at h
      cases h
    · rw [hsandbox] at h
      cases h
      exact ⟨user, token, base, rfl, rfl, rfl⟩

/-- The name of the sandbox in a list that has its server at the end. -/
theorem resolve_sandbox (user : List BridgeServer) (base token : Text) :
    resolve (.ok (user ++ [sandboxServer base token])) sandboxName =
      some ((user.find? (·.name == sandboxName)).getD (sandboxServer base token)) := by
  show (user ++ [sandboxServer base token]).find? (·.name == sandboxName) = _
  rw [List.find?_append]
  cases user.find? (·.name == sandboxName) with
  | none => rfl
  | some srv => rfl

/-- A run of sandbox scope. -/
def sandboxEnv (user : Except Text (List BridgeServer)) (token base : Except Text Text) : Env :=
  ⟨user, some (token, base)⟩

theorem execute_callTool (serde : Serde fl) {env : Env} {servers : List BridgeServer}
    (hlist : env.list = .ok servers) {name : Text} {srv : BridgeServer}
    (hresolve : resolve (.ok servers) name = some srv) (tool : Text)
    (args : List (Text × Dynamic fl)) (reply : HttpReply fl) :
    (execute serde env [.callTool name tool args reply]).sent =
      [⟨name, srv, "tools/call".toList, callParams tool args⟩] := by
  show (perform serde env .start (.callTool name tool args reply)).sent = _
  have hlisted : (McpBridge.start : McpBridge fl).servers.getD env.list = env.list := rfl
  rw [perform_callTool, afterRequest, hlisted, hlist, hresolve]
  rfl

theorem sandbox_iff (serde : Serde fl) (user : Except Text (List BridgeServer))
    (token base : Except Text Text) :
    (∀ calls, ∀ r ∈ (execute serde (sandboxEnv user token base) calls).sent,
        r.asked = sandboxName → OwnSandbox (sandboxEnv user token base) r.server) ↔
      NotShadowed (sandboxEnv user token base) := by
  constructor
  · intro hown servers token' base' huser hsandbox srv hsrv
    have hlist : (sandboxEnv user token base).list =
        .ok (servers ++ [sandboxServer base' token']) := by
      unfold Env.list
      rw [huser, hsandbox]
      rfl
    have hresolve : resolve (.ok (servers ++ [sandboxServer base' token'])) sandboxName =
        some srv := by
      rw [resolve_sandbox, hsrv]
      rfl
    have hsent := execute_callTool serde hlist hresolve [] [] (.unreachable [])
    obtain ⟨token'', base'', hsandbox', hserver⟩ := hown _ _
      (by rw [hsent]; exact List.mem_singleton.2 rfl) rfl
    rw [hsandbox] at hsandbox'
    cases hsandbox'
    exact hserver
  · intro hshadow calls r hr hasked
    have hresolved := (inv_execute serde (sandboxEnv user token base) calls).resolved r hr
    rw [hasked] at hresolved
    cases hlist : (sandboxEnv user token base).list with
    | error e =>
      rw [hlist] at hresolved
      cases hresolved
    | ok servers =>
      obtain ⟨listed, token', base', huser, hsandbox, rfl⟩ := list_eq_ok rfl hlist
      refine ⟨token', base', hsandbox, ?_⟩
      rw [hlist, resolve_sandbox] at hresolved
      rw [← Option.some.inj hresolved]
      cases hfind : listed.find? (·.name == sandboxName) with
      | none => rfl
      | some srv => exact hshadow listed token' base' huser hsandbox srv hfind

/-- A value that goes to a script and back is the same exactly when its integers are `i64`.  In
every execution at most `maxMcpCalls` requests are sent, all of them to servers of the list.  In a
run of sandbox scope, `sandbox` is its own sandbox in every execution exactly when no server of
the user has that name. -/
theorem crossing_iff (serde : Serde fl) (v : Value fl) (env : Env)
    (user : Except Text (List BridgeServer)) (token base : Except Text Text) :
    (dynamicToJson (jsonToDynamic v.json) = v.json ↔ v.json.Fits) ∧
    (∀ calls, (execute serde env calls).sent.length ≤ maxMcpCalls ∧
      ∀ r ∈ (execute serde env calls).sent, ∃ servers, env.list = .ok servers ∧
        r.server ∈ servers) ∧
    ((∀ calls, ∀ r ∈ (execute serde (sandboxEnv user token base) calls).sent,
        r.asked = sandboxName → OwnSandbox (sandboxEnv user token base) r.server) ↔
      NotShadowed (sandboxEnv user token base)) := by
  refine ⟨roundTrip_iff v.json v.sorted, ?_, sandbox_iff serde user token base⟩
  intro calls
  have hinv := inv_execute serde env calls
  refine ⟨hinv.bounded, ?_⟩
  intro r hr
  have hresolved := hinv.resolved r hr
  cases hlist : env.list with
  | error e =>
    rw [hlist] at hresolved
    cases hresolved
  | ok servers =>
    rw [hlist] at hresolved
    exact ⟨servers, rfl, List.mem_of_find?_eq_some hresolved⟩

/-! ### What goes wrong -/

/-- The floats that are whole numbers. -/
def wholeFloats : Floats where
  Carrier := Int
  finite := fun _ => true
  ofU64 := fun n => n.toNat
  ofI64 := Int64.toInt

/-- The least integer that is no `i64`. -/
def bigInteger : Value wholeFloats := ⟨.number (.posInt 9223372036854775808), trivial⟩

def elsewhere : BridgeServer := ⟨sandboxName, "http://elsewhere/mcp".toList, []⟩

/-- A big integer becomes a float, and a server of the user takes the place of the sandbox. -/
theorem crossing_changes :
    (¬∀ v : Value wholeFloats, dynamicToJson (jsonToDynamic v.json) = v.json) ∧
      ¬∀ (serde : Serde wholeFloats) (user : Except Text (List BridgeServer))
          (token base : Except Text Text) (calls : List (Call wholeFloats)),
        ∀ r ∈ (execute serde (sandboxEnv user token base) calls).sent,
          r.asked = sandboxName → OwnSandbox (sandboxEnv user token base) r.server := by
  constructor
  · intro hall
    have hfits := (roundTrip_iff bigInteger.json trivial).1 (hall bigInteger)
    exact absurd hfits (show ¬(9223372036854775808 : UInt64).toNat < 9223372036854775808 by decide)
  · intro hall
    have hshadow := (sandbox_iff ⟨fun _ => [], fun _ => none⟩ (.ok [elsewhere]) (.ok "t".toList)
      (.ok "http://sbx".toList)).1 (hall _ _ _ _)
    have hserver := hshadow [elsewhere] "t".toList "http://sbx".toList rfl rfl elsewhere rfl
    exact absurd (congrArg BridgeServer.headers hserver) (by decide)

end Vanyline.App.RhaiBridge
