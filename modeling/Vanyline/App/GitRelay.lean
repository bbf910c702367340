import Vanyline.Crds.Names
import Vanyline.Lib.UrlPath

/-!
# The git relay

The application relays requests on `/sandboxes/{name}/git/{*path}` to the git
routes of a sandbox, with the token of its Owner.  `raw_git_tail` cuts the tail
out of the raw request path, refuses the segments that decode to nothing, to
`.` or to `..`, and passes the others on as they are.  `sandbox_git_url` puts
the tail behind `/git/`, and the HTTP client parses and normalises the result.

The two sides disagree on the backslash: `raw_git_tail` reads it as a character
of a segment, the client as a separator.  `relay_stays_iff` gives the condition
under which the relayed URL stays below `/git/`, and `keepsGit_of_no_backslash`
shows that every accepted tail without a backslash meets it: for these the
check of `raw_git_tail` covers all the dot segments that the client knows.

The lookup of a sandbox is a parameter.  The model relies on one thing about
it: the cluster has no object whose name is not a DNS subdomain.
-/

namespace Vanyline.App

open Vanyline.Lib.UrlPath Vanyline.Crds

/-! ## The tail of the request path -/

/-- The error of a refused path, `VNL-SBX-003: invalid git path segment`. -/
inductive GitPathError
  | gitPathInvalid
  deriving DecidableEq

def GitPathError.message : GitPathError → String
  | .gitPathInvalid => "VNL-SBX-003: invalid git path segment"

/-- Are these bytes the encoding of a text? -/
def isUtf8 (bytes : List UInt8) : Bool := ByteArray.validateUTF8 ⟨bytes.toArray⟩

/-- The check of one segment, on its decoded text. -/
def validGitSegment (seg : Segment) : Bool :=
  let decoded := percentDecode seg
  isUtf8 decoded &&
    !(decoded == utf8 "".toList || decoded == utf8 ".".toList || decoded == utf8 "..".toList)

/-- What is left of the raw path after `sandboxes`, the name and `git`. -/
def gitTailSegments (uriPath : List Char) : List Segment :=
  ((uriPath.dropWhile (· == '/')).splitOn '/').drop 3

/-- The raw tail of the path, or a refusal. -/
def rawGitTail (uriPath : List Char) : Except GitPathError (List Char) :=
  if (gitTailSegments uriPath).all validGitSegment then
    .ok (['/'].intercalate (gitTailSegments uriPath))
  else .error .gitPathInvalid

/-! ## The URL of the sandbox -/

/-- A name that the cluster admits for an object. -/
def IsDnsSubdomain (name : List Char) : Prop :=
  name ≠ [] ∧ name.length ≤ 253 ∧ ∀ c ∈ name, isLabelChar c = true ∨ c = '.'

/-- The lookup of a sandbox by namespace and name. -/
structure SandboxApi where
  get : List Char → List Char → Except (List Char) Unit
  get_ok : ∀ ns name, get ns name = .ok () → IsDnsSubdomain name

inductive VnyError
  | k8sApiError (message : List Char)
  deriving DecidableEq

/-- The internal URL of a git route of the sandbox. -/
def sandboxGitUrl (api : SandboxApi) (appNamespace owner name rawPath : List Char) :
    Except VnyError (List Char) :=
  match ownerNamespaceName appNamespace owner with
  | .error e => .error (.k8sApiError e)
  | .ok ns =>
    match api.get ns name with
    | .error e => .error (.k8sApiError e)
    | .ok () =>
      .ok ("http://".toList ++ serviceName name ++ ".".toList ++ ns ++ ".svc:".toList ++
        (toString mcpPort).toList ++ "/git/".toList ++ rawPath)

/-- The URL that is requested: the query string comes back behind it. -/
def gitProxyUrl (baseUrl : List Char) (query : Option (List Char)) : List Char :=
  match query with
  | some q => baseUrl ++ '?' :: q
  | none => baseUrl

/-! ## What the relay promises -/

def gitSegment : Segment := "git".toList

/-- The host of the Service of the sandbox `name`. -/
def sandboxHost (appNamespace owner name : List Char) : List Char :=
  serviceName name ++ '.' :: ((appNamespace ++ '-' :: owner) ++ ".svc".toList)

/-- The segment is the piece `p` of the tail, with the percent-encoded slashes
where they were. -/
def KeepsSlashes (p seg : Segment) : Prop :=
  seg = encode p ∧ ∀ esc ∈ ["%2F".toList, "%2f".toList], ∀ pre post, p = pre ++ esc ++ post →
    seg = encode pre ++ esc ++ encode post

/-- The client requests the sandbox Service below `/git/`, and no segment of the
path is anything but `git`, empty or a piece of the tail as it was written. -/
def StaysInGit (appNamespace owner name tail url : List Char) : Prop :=
  ∃ u, parseHttp url = some u ∧ u.host = sandboxHost appNamespace owner name ∧
    u.port = "3000".toList ∧ (∃ x rest, u.path = gitSegment :: x :: rest) ∧
    ∀ seg ∈ u.path, seg = gitSegment ∨ seg = [] ∨ ∃ p ∈ pieces tail, KeepsSlashes p seg

/-- Among the pieces of `git/` and the tail there is one `git` that starts at
the top of the path, that no later piece cancels, and that is not the last. -/
def KeepsGit (ps : List Segment) : Prop :=
  ∃ pre post, gitSegment :: ps = pre ++ gitSegment :: post ∧ post ≠ [] ∧ climb 0 pre = 0 ∧
    StaysUp 1 post

/-- The characters of a request path: no query, no fragment, nothing that the
HTTP layer refuses. -/
def IsUriPath (s : List Char) : Prop := ∀ c ∈ s, ' ' < c ∧ c ≠ '?' ∧ c ≠ '#'

instance (s : List Char) : Decidable (IsUriPath s) := List.decidableBAll _ s

/-- The path of a request that is routed to the relay. -/
def routePath (rawName tail : List Char) : List Char :=
  "/sandboxes/".toList ++ (rawName ++ '/' :: ("git".toList ++ '/' :: tail))

/-! ## What the tail is -/

section

variable {api : SandboxApi} {appNamespace owner name rawName tail raw url : List Char}

/-- The positional cut finds the tail of the route, whatever the name is. -/
theorem gitTailSegments_routePath (hname : '/' ∉ rawName) :
    gitTailSegments (routePath rawName tail) = tail.splitOn '/' := by
  have hpath : (routePath rawName tail).dropWhile (· == '/') =
      "sandboxes".toList ++ '/' :: (rawName ++ '/' :: ("git".toList ++ '/' :: tail)) := rfl
  rw [gitTailSegments, hpath, List.splitOn_append_cons_self_of_not_mem (by decide),
    List.splitOn_append_cons_self_of_not_mem hname,
    List.splitOn_append_cons_self_of_not_mem (by decide)]
  rfl

/-- An accepted tail comes back as it was written, and every segment of it
passed the check. -/
theorem rawGitTail_routePath (hname : '/' ∉ rawName)
    (h : rawGitTail (routePath rawName tail) = .ok raw) :
    raw = tail ∧ ∀ seg ∈ tail.splitOn '/', validGitSegment seg = true := by
  rw [rawGitTail, gitTailSegments_routePath hname, List.intercalate_splitOn] at h
  split_ifs at h with hvalid
  exact ⟨(Except.ok.inj h).symm, List.all_eq_true.1 hvalid⟩

/-- A checked segment is no way to write `.` or `..`. -/
theorem not_dot_of_validGitSegment {seg : Segment} (h : validGitSegment seg = true) :
    isSingleDot seg = false ∧ isDoubleDot seg = false := by
  simp only [validGitSegment, Bool.and_eq_true, Bool.not_eq_true', Bool.or_eq_false_iff] at h
  obtain ⟨-, ⟨-, hsingle⟩, hdouble⟩ := h
  constructor
  · by_contra hdot
    rw [percentDecode_of_isSingleDot (by simpa using hdot), beq_self_eq_true] at hsingle
    cases hsingle
  · by_contra hdot
    rw [percentDecode_of_isDoubleDot (by simpa using hdot), beq_self_eq_true] at hdouble
    cases hdouble

/-! ## What the client makes of it -/

/-- Every character of the Service's host name is one that the client keeps. -/
theorem isHostChar_of_mem_sandboxHost (hname : IsDnsSubdomain name)
    (hns : ∀ c ∈ appNamespace ++ '-' :: owner, isLabelChar c = true) :
    ∀ c ∈ sandboxHost appNamespace owner name, isHostChar c = true := by
  have hlabel : ∀ c, isLabelChar c = true → isHostChar c = true := fun c hc => by
    simp only [isLabelChar, isHostChar, Bool.or_eq_true] at hc ⊢
    exact .inl hc
  have hservice : ∀ c ∈ "sandbox-".toList, isHostChar c = true :=
    List.all_eq_true.1 (by decide)
  have hsvc : ∀ c ∈ ".svc".toList, isHostChar c = true := List.all_eq_true.1 (by decide)
  have hdot : isHostChar '.' = true := by decide
  intro c hc
  rcases List.mem_append.1 hc with hc | hc
  · rcases List.mem_append.1 hc with hc | hc
    · exact hservice c hc
    · rcases hname.2.2 c hc with hc | rfl
      · exact hlabel c hc
      · exact hdot
  · rcases List.mem_cons.1 hc with rfl | hc
    · exact hdot
    · rcases List.mem_append.1 hc with hc | hc
      · exact hlabel c (hns c hc)
      · exact hsvc c hc

/-- The URL is the sandbox host, the port, and the path `git/` and the tail. -/
theorem sandboxGitUrl_ok (h : sandboxGitUrl api appNamespace owner name raw = .ok url) :
    (∀ c ∈ sandboxHost appNamespace owner name, isHostChar c = true) ∧
    url = "http://".toList ++ ((sandboxHost appNamespace owner name ++ ':' :: "3000".toList) ++
      '/' :: ("git".toList ++ '/' :: raw)) := by
  rw [sandboxGitUrl] at h
  cases hns : ownerNamespaceName appNamespace owner with
  | error e => simp [hns] at h
  | ok ns =>
      cases hget : api.get ns name with
      | error e => simp [hns, hget] at h
      | ok =>
          obtain ⟨heq, hlabel⟩ := ownerNamespaceName_ok hns
          simp only [hns, hget, Except.ok.injEq] at h
          have hport : (toString mcpPort).toList = "3000".toList := by decide
          refine ⟨isHostChar_of_mem_sandboxHost (api.get_ok _ _ hget) (heq ▸ hlabel), ?_⟩
          rw [← h, heq, hport, sandboxHost]
          simp

/-- The requested URL reads as the sandbox Service and the normalised path. -/
theorem parseHttp_gitProxyUrl (hchars : IsUriPath raw)
    (h : sandboxGitUrl api appNamespace owner name raw = .ok url) (query : Option (List Char)) :
    parseHttp (gitProxyUrl url query) = some ⟨sandboxHost appNamespace owner name, "3000".toList,
      walkPieces [] (gitSegment :: pieces raw) ++ endSlash (gitSegment :: pieces raw)⟩ := by
  obtain ⟨hhost, rfl⟩ := sandboxGitUrl_ok h
  have hpieces : pieces ("git".toList ++ '/' :: raw) = gitSegment :: pieces raw :=
    List.splitOnP_append_cons_of_forall_mem (by simp [isSeparator]) '/' (by decide) raw
  have hgit : ∀ c ∈ "git".toList, endsPath c = false := by simp [endsPath]
  have hslash : endsPath '/' = false := by decide
  have hpath : ∀ c ∈ "git".toList ++ '/' :: raw, endsPath c = false := by
    intro c hc
    rcases List.mem_append.1 hc with hc | hc
    · exact hgit c hc
    · rcases List.mem_cons.1 hc with rfl | hc
      · exact hslash
      · obtain ⟨-, hq, hf⟩ := hchars c hc
        simp [endsPath, hq, hf]
  have hne : sandboxHost appNamespace owner name ≠ [] := by simp [sandboxHost]
  have hnormal : normalize ("git".toList ++ '/' :: raw) =
      walkPieces [] (gitSegment :: pieces raw) ++ endSlash (gitSegment :: pieces raw) := by
    rw [Lib.UrlPath.normalize, hpieces]
  have hport : "3000".toList ≠ [] ∧ ∀ c ∈ "3000".toList, c.isDigit = true :=
    ⟨by decide, List.all_eq_true.1 (by decide)⟩
  rw [← hnormal]
  cases query with
  | none =>
      have hparse := parseHttp_eq hne hhost hport.1 hport.2 hpath (.inl rfl)
      rw [List.append_nil] at hparse
      exact hparse
  | some q =>
      have hparse := parseHttp_eq hne hhost hport.1 hport.2 hpath
        (.inr ⟨'?', q, rfl, by decide⟩)
      rw [← hparse, gitProxyUrl]
      simp

/-! ## When the relay stays below `/git/` -/

/-- The text `git` is the normal form of the segment `git` only. -/
theorem encode_eq_gitSegment {p : Segment} : encode p = gitSegment ↔ p = gitSegment := by
  constructor
  · intro h
    have hpercent : '%' ∉ encode p := by
      rw [h]
      decide
    rw [← encode_eq_of_notMem hpercent, h]
  · rintro rfl
    decide

/-- The normalised path starts with `/git/` exactly when the pieces keep `git`. -/
theorem keepsGit_iff {ps : List Segment} :
    (∃ y rest, walkPieces [] (gitSegment :: ps) ++ endSlash (gitSegment :: ps) =
      gitSegment :: y :: rest) ↔ KeepsGit ps := by
  rw [normalize_eq_cons_cons_iff]
  constructor
  · rintro ⟨pre, p, post, heq, hne, -, -, henc, hzero, hup⟩
    rw [encode_eq_gitSegment] at henc
    subst henc
    exact ⟨pre, post, heq, hne, hzero, hup⟩
  · rintro ⟨pre, post, heq, hne, hzero, hup⟩
    exact ⟨pre, gitSegment, post, heq, hne, by decide, by decide, by decide, hzero, hup⟩

/-- The relay keeps an accepted path below `/git/` of the sandbox exactly when
the pieces of its tail between slashes and backslashes keep `git`. -/
theorem relay_stays_iff (hname : '/' ∉ rawName) (hchars : IsUriPath tail)
    (haccept : rawGitTail (routePath rawName tail) = .ok raw)
    (hurl : sandboxGitUrl api appNamespace owner name raw = .ok url)
    (query : Option (List Char)) :
    StaysInGit appNamespace owner name tail (gitProxyUrl url query) ↔ KeepsGit (pieces tail) := by
  obtain ⟨rfl, -⟩ := rawGitTail_routePath hname haccept
  have hparse := parseHttp_gitProxyUrl hchars hurl query
  rw [← keepsGit_iff]
  constructor
  · rintro ⟨u, hu, -, -, hgit, -⟩
    rw [hparse, Option.some.injEq] at hu
    subst hu
    exact hgit
  · intro hgit
    refine ⟨_, hparse, rfl, rfl, hgit, fun seg hseg => ?_⟩
    rcases List.mem_append.1 hseg with hseg | hseg
    · rcases mem_walkPieces hseg with hnil | ⟨p, hp, rfl⟩
      · simp at hnil
      · rcases List.mem_cons.1 hp with rfl | hp
        · exact .inl (encode_eq_gitSegment.2 rfl)
        · refine .inr (.inr ⟨p, hp, rfl, ?_⟩)
          rintro esc hesc pre post rfl
          have hplain : ∀ esc ∈ ["%2F".toList, "%2f".toList], ∀ c ∈ esc, isEncoded c = false := by
            simp [isEncoded]
          exact encode_append_append (hplain esc hesc) pre post
    · right
      left
      rw [endSlash] at hseg
      split at hseg
      · split_ifs at hseg
        · exact List.mem_singleton.1 hseg
        · simp at hseg
      · simp at hseg

/-- Without dot segments the depth only grows. -/
theorem staysUp_of_not_dot {ps : List Segment} {depth : Nat} (hdepth : depth ≠ 0)
    (h : ∀ p ∈ ps, isSingleDot p = false ∧ isDoubleDot p = false) : StaysUp depth ps := by
  induction ps generalizing depth with
  | nil => exact staysUp_nil.2 hdepth
  | cons p ps ih =>
      obtain ⟨hsd, hdd⟩ := h p (by simp)
      refine staysUp_cons.2 ⟨hdepth, ?_⟩
      simp only [hdd, hsd, Bool.false_eq_true, if_false]
      exact ih (by omega) fun q hq => h q (by simp [hq])

/-- An accepted tail without a backslash keeps `git`. -/
theorem keepsGit_of_no_backslash (hname : '/' ∉ rawName) (hback : '\\' ∉ tail)
    (haccept : rawGitTail (routePath rawName tail) = .ok raw) : KeepsGit (pieces tail) := by
  obtain ⟨-, hvalid⟩ := rawGitTail_routePath hname haccept
  have hpieces : pieces tail = tail.splitOn '/' := by
    rw [pieces, List.splitOn_eq_splitOnP]
    have hsep : ∀ c ∈ tail, isSeparator c = (c == '/') := fun c hc => by
      have hne : c ≠ '\\' := fun h => hback (h ▸ hc)
      simp [isSeparator, hne]
    clear haccept hvalid
    induction tail with
    | nil => rfl
    | cons c rest ih =>
        rw [List.splitOnP_cons_eq_if_modifyHead, List.splitOnP_cons_eq_if_modifyHead,
          hsep c (by simp),
          ih (fun h => hback (by simp [h])) fun d hd => hsep d (by simp [hd])]
  refine ⟨[], pieces tail, rfl, List.splitOnP_ne_nil _ _, rfl, ?_⟩
  refine staysUp_of_not_dot (by decide) fun p hp => ?_
  exact not_dot_of_validGitSegment (hvalid p (hpieces ▸ hp))

end

/-! ## A tail with a backslash -/

/-- A cluster with the sandbox `foo` in every namespace. -/
def fooApi : SandboxApi where
  get _ name := if name = "foo".toList then .ok () else .error "not found".toList
  get_ok ns name h := by
    split_ifs at h with hname
    subst hname
    have hlabel : ∀ c ∈ "foo".toList, isLabelChar c = true := List.all_eq_true.1 (by decide)
    exact ⟨by decide, by decide, fun c hc => .inl (hlabel c hc)⟩

/-- The accepted tail `..\mcp` is requested at `/mcp`. -/
theorem backslash_leaves_git :
    rawGitTail "/sandboxes/foo/git/..\\mcp".toList = .ok "..\\mcp".toList ∧
    ∃ url, sandboxGitUrl fooApi "vny".toList "alice".toList "foo".toList "..\\mcp".toList =
        .ok url ∧
      parseHttp url =
        some ⟨"sandbox-foo.vny-alice.svc".toList, "3000".toList, ["mcp".toList]⟩ ∧
      ¬ StaysInGit "vny".toList "alice".toList "foo".toList "..\\mcp".toList url := by
  have hparse : parseHttp "http://sandbox-foo.vny-alice.svc:3000/git/..\\mcp".toList =
      some ⟨"sandbox-foo.vny-alice.svc".toList, "3000".toList, ["mcp".toList]⟩ := by decide
  refine ⟨by decide, _, by decide, hparse, ?_⟩
  rintro ⟨u, hu, -, -, ⟨x, rest, hpath⟩, -⟩
  rw [hparse, Option.some.injEq] at hu
  subst hu
  simp at hpath

theorem keepsGit_refs : KeepsGit (pieces "info/refs".toList) :=
  keepsGit_of_no_backslash (show '/' ∉ "foo".toList by decide) (by decide)
    (show rawGitTail (routePath "foo".toList "info/refs".toList) = .ok "info/refs".toList by decide)

/-- The condition decides the tail `..\mcp`. -/
theorem backslash_iff :
    StaysInGit "vny".toList "alice".toList "foo".toList "..\\mcp".toList
      (gitProxyUrl "http://sandbox-foo.vny-alice.svc:3000/git/..\\mcp".toList none) ↔
    KeepsGit (pieces "..\\mcp".toList) := by
  have haccept : rawGitTail (routePath "foo".toList "..\\mcp".toList) =
      .ok "..\\mcp".toList := by decide
  have hurl : sandboxGitUrl fooApi "vny".toList "alice".toList "foo".toList "..\\mcp".toList =
      .ok "http://sandbox-foo.vny-alice.svc:3000/git/..\\mcp".toList := by decide
  exact relay_stays_iff (by decide) (by decide) haccept hurl none

end Vanyline.App
