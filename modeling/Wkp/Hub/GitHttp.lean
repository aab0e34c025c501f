import Wkp.Hub.Enrollment
import Wkp.Hub.TenantPod

/-!
# Git over HTTP

* `Hub.gitHttpPath` : the tenant and the suffix of a path.
* `Hub.handleGitHttp` : the front door checks the client certificate, starts the pod of the tenant if
  it is not running, and relays the request to it.
* `Hub.serveSingleTenant` : the pod of a tenant serves its one repository.
-/

namespace Wkp

open Rust

namespace Hub

/-! ### Requests -/

/-- `Incoming`. -/
structure Incoming where
  /-- The headers. -/
  headers : List (Str × Str)
  /-- The body. -/
  body : List UInt8

/-- `Incoming::header`: the first header of that name, in any case. -/
def Incoming.header (request : Incoming) (name : Str) : Option Str :=
  (request.headers.find? fun h => h.1.map Char.toLower = name.map Char.toLower).map Prod.snd

/-- Not the end of an authority, a path or a query. -/
def isUrlDelimiter (c : Char) : Bool := c = '/' ∨ c = '?' ∨ c = '#'

/-- The path and the query of a request target, from the first slash of the path on. -/
def pathAndQuery (target : Str) : Str :=
  if target.head? = some '/' then target
  else match find "://".toList target with
    | none => []
    | some (_, rest) => rest.dropWhile fun c => ¬ isUrlDelimiter c

/-- The path and the query that the front door reads from a request target: `split`. -/
def splitTarget (target : Str) : Str × Str :=
  let text := (pathAndQuery target).takeWhile (· ≠ '#')
  match splitOnce '?' text with
  | none => (text, [])
  | some (path, query) => (path, query)

/-- `git_http_path`. -/
def gitHttpPath (path : Str) : Option (Str × Str) :=
  match stripPrefix path ['/'] with
  | none => none
  | some rest =>
    match splitOnce '/' rest with
    | none => none
    | some (repo, suffix) =>
      match stripSuffix repo ".git".toList with
      | none => none
      | some tenantSlug =>
        if tenantSlug = [] ∨ suffix = [] then none else some (tenantSlug, suffix)

/-- `GitHttpRoute`. -/
structure GitHttpRoute where
  /-- The slug of the tenant. -/
  tenantSlug : Str
  /-- What follows the repository. -/
  suffix : Str
  /-- The query. -/
  query : Str
  deriving DecidableEq, Repr

/-! ### The pod of a tenant -/

/-- `CgiRequest`, with the directory that `run_http_backend` is given. -/
structure CgiRequest where
  /-- `GIT_PROJECT_ROOT`. -/
  projectRoot : Str
  /-- `REQUEST_METHOD`. -/
  method : Str
  /-- `PATH_INFO`. -/
  pathInfo : Str
  /-- `QUERY_STRING`. -/
  queryString : Str
  /-- `CONTENT_TYPE`. -/
  contentType : Option Str
  /-- `REMOTE_USER`. -/
  remoteUser : Str
  /-- The body. -/
  body : List UInt8
  deriving DecidableEq, Repr

/-- The request that `serve_git_http` hands to `git http-backend`. -/
def serveGitHttp (request : Incoming) (method tenantSlug suffix query reposRoot remoteUser : Str) :
    CgiRequest :=
  { projectRoot := Path.joinStr reposRoot tenantSlug
    method := method
    pathInfo := "/repo.git/".toList ++ suffix
    queryString := query
    contentType := request.header "Content-Type".toList
    remoteUser := remoteUser
    body := request.body }

/-- A request to the server of `serve_single_tenant`: a response, or a request for
`git http-backend`. -/
def serveSingleTenant (tenantSlug reposRoot method url : Str) (request : Incoming) :
    Except Rendered CgiRequest :=
  let path := url.takeWhile (· ≠ '?')
  let query := match splitOnce '?' url with
    | none => []
    | some (_, query) => query
  if method ≠ "GET".toList ∧ method ≠ "POST".toList then .error (.statusOnly 405)
  else match gitHttpPath path with
    | none => .error (.statusOnly 404)
    | some (slug, suffix) =>
      if slug = tenantSlug then
        .ok (serveGitHttp request method slug suffix query reposRoot "pod".toList)
      else .error (.statusOnly 404)

/-! ### The front door -/

/-- A request to the pod of a tenant. -/
def proxy (request : ProxyRequest) : Handler (Except Str ProxyResponse) :=
  Program.perform (Call.proxy request)

/-- The name of the header is `Content-Type`, in any case. -/
def isContentType (header : Str × Str) : Bool :=
  header.1.map Char.toLower = "content-type".toList

/-- The response of a pod, as it is relayed. -/
def relay (response : ProxyResponse) : Rendered :=
  ⟨response.status, .relayed
    (((response.headers.filter isContentType).getLast?.map Prod.snd).getD
      "application/octet-stream".toList)
    (response.headers.filter fun h => ¬ isContentType h) response.body⟩

/-- The attempts of `proxy_to_tenant_pod` that are left. -/
def proxyAttempts (request : ProxyRequest) : ℕ → Handler Rendered
  | 0 => pure (.statusOnly 502)
  | attempts + 1 => do
    match ← proxy request with
    | .ok response => pure (relay response)
    | .error _ => proxyAttempts request attempts

/-- The URL of `proxy_to_tenant_pod`. -/
def proxyUrl (route : GitHttpRoute) : Str :=
  "http://".toList ++ route.tenantSlug ++ ":".toList ++ idStr servePort ++ "/".toList ++
    route.tenantSlug ++ ".git/".toList ++ route.suffix ++ "?".toList ++ route.query

/-- `proxy_to_tenant_pod`.  Only a `POST` sends the body. -/
def proxyToTenantPod (route : GitHttpRoute) (method : Str) (contentType : Option Str)
    (body : List UInt8) : Handler Rendered :=
  if method = "GET".toList then proxyAttempts ⟨proxyUrl route, method, contentType, []⟩ 10
  else if method = "POST".toList then proxyAttempts ⟨proxyUrl route, method, contentType, body⟩ 10
  else pure (.statusOnly 405)

/-- What the front door knows when it handles a request. -/
structure FrontDoor where
  /-- The orchestrator. -/
  orchestrator : PodOrchestrator
  /-- `cert_serial_hex`. -/
  certSerialHex : List UInt8 → Option Str
  /-- The repositories root. -/
  reposRoot : Str
  /-- The image of the pods. -/
  image : Str

section Handler

variable (F : FrontDoor) (request : Incoming) (method : Str) (route : GitHttpRoute)

/-- `handle_git_http` from the running pod on. -/
def relayGitHttp : Handler Rendered :=
  proxyToTenantPod route method (request.header "Content-Type".toList) request.body

/-- `handle_git_http` where the pod is not running. -/
def coldStart (tenant : Tenant) : Handler Rendered := do
  match ← F.orchestrator.startPod F.image F.reposRoot route.tenantSlug with
  | .error _ => pure (.statusOnly 503)
  | .ok () =>
    let _ ← sql (.recordPodStarted tenant.id)
    relayGitHttp request method route

/-- `handle_git_http` from the authorised tenant on.  Whether its activity is recorded is ignored. -/
def serveTenant (tenant : Tenant) : Handler Rendered := do
  let _ ← sql (.touchLastActive tenant.id)
  if tenant.podRunning then relayGitHttp request method route
  else coldStart F request method route tenant

/-- `handle_git_http` from the device on. -/
def authorizeTenant (device : Device) : Handler Rendered := do
  match ← sql (.findTenantBySlug route.tenantSlug) with
  | .error _ => pure (.statusOnly 500)
  | .ok none => pure (.statusOnly 404)
  | .ok (some tenant) =>
    if device.tenantId ≠ tenant.id then pure (.statusOnly 404)
    else serveTenant F request method route tenant

/-- `handle_git_http` from the connection on. -/
def authorizeDevice (certSerial : Str) : Handler Rendered := do
  match ← sql (.findDeviceByCertSerial certSerial) with
  | .error _ => pure (.statusOnly 500)
  | .ok none => pure (.statusOnly 401)
  | .ok (some device) =>
    if device.revokedAt.isSome then pure (.statusOnly 401)
    else authorizeTenant F request method route device

/-- `handle_git_http` from the serial number on. -/
def connectGitHttp (certSerial : Str) : Handler Rendered := do
  match ← connect with
  | .error _ => pure (.statusOnly 500)
  | .ok () => authorizeDevice F request method route certSerial

/-- `handle_git_http`. -/
def handleGitHttp (peerCert : Option (List UInt8)) : Handler Rendered :=
  if method ≠ "GET".toList ∧ method ≠ "POST".toList then pure (.statusOnly 405)
  else match peerCert with
    | none => pure (.statusOnly 401)
    | some der =>
      match F.certSerialHex der with
      | none => pure (.statusOnly 401)
      | some certSerial => connectGitHttp F request method route certSerial

/-- `git_http` of the front door: the request target decides the route. -/
def gitHttp (target : Str) (peerCert : Option (List UInt8)) : Handler Rendered :=
  let (path, query) := splitTarget target
  match gitHttpPath path with
  | none => pure (.jsonError 404 "not_found")
  | some (tenantSlug, suffix) => handleGitHttp F request method ⟨tenantSlug, suffix, query⟩ peerCert

end Handler

end Hub

end Wkp
