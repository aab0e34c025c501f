import Wkp.Hub.GitHttp
import Wkp.Hub.Polled

/-!
# Requests reach the pod of their tenant

* `Hub.Authorized` : a device of the tenant that is not revoked has the serial number.
* `Hub.checked_handleGitHttp` : the handler looks the device and the tenant up before it starts a pod
  or relays to one.
* `Hub.relayed_handleGitHttp` : an authorised request gets the answer of the pod where no call fails.
* `Hub.serveSingleTenant_proxyUrl` : a pod parses the relayed URL back.
* `Hub.tenant_isolation` : **the front door starts and relays only for a device of the tenant, and the
  pod serves the request that was made, and no other tenant's.**
-/

namespace Wkp

open Rust

namespace Hub

/-! ### Paths and URLs -/

theorem gitHttpPath_eq_some_iff {path slug suffix : Str} :
    gitHttpPath path = some (slug, suffix) ↔
      path = '/' :: (slug ++ ".git".toList ++ '/' :: suffix) ∧ '/' ∉ slug ∧ slug ≠ [] ∧
        suffix ≠ [] := by
  constructor
  · intro h
    unfold gitHttpPath at h
    -- a slash, the name of the repository up to the next one, and its suffix
    cases hrest : stripPrefix path ['/'] with
    | none => rw [hrest] at h; cases h
    | some rest =>
      rw [hrest] at h
      dsimp only at h
      cases hsplit : splitOnce '/' rest with
      | none => rw [hsplit] at h; cases h
      | some parts =>
        obtain ⟨repo, tail⟩ := parts
        rw [hsplit] at h
        dsimp only at h
        cases hrepo : stripSuffix repo ".git".toList with
        | none => rw [hrepo] at h; cases h
        | some name =>
          rw [hrepo] at h
          dsimp only at h
          split_ifs at h with hnil
          obtain ⟨rfl, rfl⟩ := Prod.mk.inj (Option.some.inj h)
          obtain ⟨rfl, hslash⟩ := splitOnce_eq_some hsplit
          obtain rfl := stripSuffix_eq_some_iff.1 hrepo
          rw [not_or] at hnil
          exact ⟨stripPrefix_eq_some_iff.1 hrest, fun hmem => hslash (List.mem_append_left _ hmem),
            hnil⟩
  · rintro ⟨rfl, hslash, hslug, hsuffix⟩
    have hrepo : '/' ∉ slug ++ ".git".toList := by
      rw [List.mem_append, not_or]
      exact ⟨hslash, by decide⟩
    have hstrip : stripPrefix ('/' :: (slug ++ ".git".toList ++ '/' :: suffix)) ['/'] =
        some (slug ++ ".git".toList ++ '/' :: suffix) := stripPrefix_eq_some_iff.2 rfl
    unfold gitHttpPath
    rw [hstrip]
    dsimp only
    rw [splitOnce_append hrepo]
    dsimp only
    rw [stripSuffix_append]
    dsimp only
    rw [if_neg (by simp [hslug, hsuffix])]

theorem notMem_of_splitTarget {target path query : Str} (h : splitTarget target = (path, query)) :
    '?' ∉ path := by
  unfold splitTarget at h
  dsimp only at h
  cases hsplit : splitOnce '?' ((pathAndQuery target).takeWhile (· ≠ '#')) with
  | none =>
    rw [hsplit] at h
    obtain ⟨rfl, -⟩ := Prod.mk.inj h
    intro hmem
    obtain ⟨s, t, hst, hs⟩ := List.eq_append_cons_of_mem hmem
    rw [hst, splitOnce_append hs] at hsplit
    cases hsplit
  | some parts =>
    rw [hsplit] at h
    obtain ⟨rfl, rfl⟩ := Prod.mk.inj h
    exact (splitOnce_eq_some hsplit).2

/-- The authority and the target of an `http` URL. -/
def parseUrl (url : Str) : Option (Str × Str) :=
  (stripPrefix url "http://".toList).map fun rest =>
    (rest.takeWhile fun c => ¬ isUrlDelimiter c, rest.dropWhile fun c => ¬ isUrlDelimiter c)

/-- The host of an authority. -/
def hostOf (authority : Str) : Str :=
  let hostPort := match splitOnce '@' authority with
    | none => authority
    | some (_, hostPort) => hostPort
  hostPort.takeWhile (· ≠ ':')

/-- No delimiter of a URL is in the slug. -/
def UrlSafe (slug : Str) : Prop :=
  ∀ c ∈ slug, c ≠ ':' ∧ c ≠ '/' ∧ c ≠ '?' ∧ c ≠ '#' ∧ c ≠ '[' ∧ c ≠ ']' ∧ c ≠ '@'

/-- The URL of a pod has its tenant as host, and the path and the query of the request. -/
theorem parseUrl_proxyUrl {route : GitHttpRoute} (h : UrlSafe route.tenantSlug) :
    parseUrl (proxyUrl route) = some (route.tenantSlug ++ ":8080".toList,
      '/' :: (route.tenantSlug ++ ".git".toList ++ '/' :: route.suffix) ++ '?' :: route.query) := by
  have hurl : proxyUrl route = "http://".toList ++ ((route.tenantSlug ++ ":8080".toList) ++
      ('/' :: (route.tenantSlug ++ ".git".toList ++ '/' :: route.suffix) ++ '?' :: route.query)) := by
    have hport : idStr servePort = "8080".toList := by decide
    have hcolon : ":8080".toList = ":".toList ++ "8080".toList := by decide
    have hgit : ".git/".toList = ".git".toList ++ ['/'] := by decide
    have hslash : "/".toList = ['/'] := rfl
    have hquery : "?".toList = ['?'] := rfl
    unfold proxyUrl
    rw [hport, hcolon, hgit, hslash, hquery]
    simp only [List.append_assoc, List.cons_append, List.nil_append]
  have hauthority : ∀ c ∈ route.tenantSlug ++ ":8080".toList,
      decide (¬ isUrlDelimiter c = true) = true := by
    intro c hc
    rw [decide_eq_true_eq]
    unfold isUrlDelimiter
    rcases List.mem_append.1 hc with hc | hc
    · obtain ⟨-, hslash, hquery, hhash, -⟩ := h c hc
      simp [hslash, hquery, hhash]
    · have hdigits : ":8080".toList = [':', '8', '0', '8', '0'] := rfl
      rw [hdigits] at hc
      simp only [List.mem_cons, List.not_mem_nil, or_false] at hc
      rcases hc with rfl | rfl | rfl | rfl | rfl <;> decide
  unfold parseUrl
  rw [hurl, stripPrefix_append, Option.map_some, List.takeWhile_append_of_pos hauthority,
    List.dropWhile_append_of_pos hauthority, List.cons_append,
    List.takeWhile_cons_of_neg (by decide), List.dropWhile_cons_of_neg (by decide), List.append_nil]

theorem hostOf_authority {slug : Str} (h : UrlSafe slug) : hostOf (slug ++ ":8080".toList) = slug := by
  have hat : splitOnce '@' (slug ++ ":8080".toList) = none := by
    cases hsplit : splitOnce '@' (slug ++ ":8080".toList) with
    | none => rfl
    | some parts =>
      obtain ⟨p, r⟩ := parts
      have hmem : '@' ∈ slug ++ ":8080".toList := by
        rw [(splitOnce_eq_some hsplit).1]
        exact List.mem_append_right _ List.mem_cons_self
      rcases List.mem_append.1 hmem with hmem | hmem
      · exact absurd rfl (h '@' hmem).2.2.2.2.2.2
      · exact absurd hmem (by decide)
  have hslug : ∀ c ∈ slug, decide (c ≠ ':') = true := fun c hc => decide_eq_true (h c hc).1
  have hdigits : ":8080".toList = ':' :: "8080".toList := rfl
  unfold hostOf
  rw [hat]
  dsimp only
  rw [List.takeWhile_append_of_pos hslug, hdigits, List.takeWhile_cons_of_neg (by decide),
    List.append_nil]

/-- **A pod parses the relayed URL back.** -/
theorem serveSingleTenant_proxyUrl {path slug suffix query : Str} (hquery : '?' ∉ path)
    (hpath : gitHttpPath path = some (slug, suffix)) (tenantSlug reposRoot method : Str)
    (request : Incoming) (hmethod : method = "GET".toList ∨ method = "POST".toList) :
    serveSingleTenant tenantSlug reposRoot method (path ++ '?' :: query) request =
      if slug = tenantSlug then
        .ok (serveGitHttp request method slug suffix query reposRoot "pod".toList)
      else .error (.statusOnly 404) := by
  have htake : (path ++ '?' :: query).takeWhile (· ≠ '?') = path := by
    have hall : ∀ c ∈ path, decide (c ≠ '?') = true := by
      intro c hc
      rw [decide_eq_true_eq]
      rintro rfl
      exact hquery hc
    rw [List.takeWhile_append_of_pos hall, List.takeWhile_cons_of_neg (by decide), List.append_nil]
  unfold serveSingleTenant
  dsimp only
  rw [htake, splitOnce_append hquery, hpath]
  rw [if_neg (by rcases hmethod with rfl | rfl <;> decide)]

/-! ### What the handler checks -/

/-- A device of the tenant that is not revoked has the serial number. -/
def Authorized (db : Db) (certSerial tenantSlug : Str) : Prop :=
  ∃ device ∈ db.devices, device.certSerial = some certSerial ∧ device.revokedAt = none ∧
    ∃ tenant ∈ db.tenants, tenant.slug = tenantSlug ∧ device.tenantId = tenant.id

/-- The orchestrator whose calls are observed as they are. -/
def callOrchestrator : PodOrchestrator where
  startPod image reposRoot tenantSlug := Program.perform (Call.startPod image reposRoot tenantSlug)
  stopPod tenantSlug := Program.perform (Call.stopPod tenantSlug)

/-- A call that reaches a pod. -/
def ReachesPod : Call → Prop
  | .startPod _ _ _ | .stopPod _ | .podman _ | .proxy _ => True
  | _ => False

/-- A call that reaches the pod of the tenant of a route. -/
inductive ReachesTenant (route : GitHttpRoute) : Call → Prop
  | start (image reposRoot : Str) : ReachesTenant route (.startPod image reposRoot route.tenantSlug)
  | relay (method : Str) (contentType : Option Str) (body : List UInt8) :
      ReachesTenant route (.proxy ⟨proxyUrl route, method, contentType, body⟩)

/-- The lookups showed a device of the tenant that is not revoked. -/
def Checked (certSerial tenantSlug : Str) (es : List (Program.Exchange Reply)) : Prop :=
  ∃ device tenant, (⟨.sql (.findDeviceByCertSerial certSerial), .ok (some device)⟩ :
      Program.Exchange Reply) ∈ es ∧ device.revokedAt = none ∧
    (⟨.sql (.findTenantBySlug tenantSlug), .ok (some tenant)⟩ : Program.Exchange Reply) ∈ es ∧
    device.tenantId = tenant.id

/-- The calls of the handler after the given ones: pods only after the checks. -/
def Checks (certSerial : Str) (route : GitHttpRoute) (es : List (Program.Exchange Reply)) :
    Call → Prop
  | .connect => True
  | .sql (.findDeviceByCertSerial serial) => serial = certSerial
  | .sql (.findTenantBySlug slug) => slug = route.tenantSlug
  | .sql (.touchLastActive _) | .sql (.recordPodStarted _) => True
  | c => ReachesTenant route c ∧ Checked certSerial route.tenantSlug es

section Checks

variable {certSerial : Str} {route : GitHttpRoute} {es : List (Program.Exchange Reply)}

variable (certSerial route) in
/-- The program makes its calls as the handler does. -/
abbrev Careful {α : Type} (es : List (Program.Exchange Reply)) (p : Handler α) : Prop :=
  p.Follows (Checks certSerial route) (fun es e es' => es' = es ++ [e]) (fun _ _ => True) es

theorem Checked.append (h : Checked certSerial route.tenantSlug es)
    (e : Program.Exchange Reply) : Checked certSerial route.tenantSlug (es ++ [e]) := by
  obtain ⟨device, tenant, hdevice, hrevoked, htenant, hid⟩ := h
  exact ⟨device, tenant, List.mem_append_left _ hdevice, hrevoked, List.mem_append_left _ htenant,
    hid⟩

theorem checked_proxyAttempts {method : Str} {contentType : Option Str} {body : List UInt8}
    (h : Checked certSerial route.tenantSlug es) (attempts : ℕ) :
    Careful certSerial route es
      (proxyAttempts ⟨proxyUrl route, method, contentType, body⟩ attempts) := by
  induction attempts generalizing es with
  | zero => trivial
  | succ attempts ih =>
    refine ⟨⟨.relay _ _ _, h⟩, fun r es' hes' => ?_⟩
    obtain rfl := hes'
    cases r with
    | ok response => trivial
    | error e => exact ih (h.append _)

theorem checked_relayGitHttp (request : Incoming) (method : Str)
    (h : Checked certSerial route.tenantSlug es) :
    Careful certSerial route es (relayGitHttp request method route) := by
  unfold relayGitHttp proxyToTenantPod
  split_ifs
  · exact checked_proxyAttempts h 10
  · exact checked_proxyAttempts h 10
  · trivial

variable {F : FrontDoor} (hF : F.orchestrator = callOrchestrator) (request : Incoming) (method : Str)

include hF

theorem checked_serveTenant (tenant : Tenant) (h : Checked certSerial route.tenantSlug es) :
    Careful certSerial route es (serveTenant F request method route tenant) := by
  refine ⟨trivial, fun r es' hes' => ?_⟩
  obtain rfl := hes'
  have h' := @Checked.append _ route _ h ⟨.sql (.touchLastActive tenant.id), r⟩
  simp only [Program.pure_bind]
  split_ifs
  · exact checked_relayGitHttp request method h'
  · unfold coldStart
    rw [hF]
    refine ⟨⟨.start _ _, h'⟩, fun r' es' hes' => ?_⟩
    obtain rfl := hes'
    rcases r' with e | ⟨⟩
    · trivial
    · refine ⟨trivial, fun r'' es' hes' => ?_⟩
      obtain rfl := hes'
      exact checked_relayGitHttp request method ((h'.append _).append _)

/-- The handler looks the device and the tenant up before it starts a pod or relays to one. -/
theorem checked_handleGitHttp {der : List UInt8} (hserial : F.certSerialHex der = some certSerial) :
    Careful certSerial route [] (handleGitHttp F request method route (some der)) := by
  unfold handleGitHttp
  split_ifs
  · trivial
  · dsimp only
    rw [hserial]
    refine ⟨trivial, fun r es' hes' => ?_⟩
    obtain rfl := hes'
    rcases r with e | ⟨⟩
    · trivial
    · refine ⟨rfl, fun r es' hes' => ?_⟩
      obtain rfl := hes'
      rcases r with e | _ | device
      · trivial
      · trivial
      · simp only [Program.pure_bind]
        split_ifs with hrevoked
        · trivial
        · refine ⟨rfl, fun r es' hes' => ?_⟩
          obtain rfl := hes'
          rcases r with e | _ | tenant
          · trivial
          · trivial
          · simp only [Program.pure_bind]
            split_ifs with hid
            · trivial
            · refine checked_serveTenant hF request method tenant ⟨device, tenant, ?_, ?_, ?_, ?_⟩
              · simp
              · simpa using hrevoked
              · simp
              · exact not_not.1 hid

end Checks

/-! ### What the handler relays -/

/-- The response is what the pod of the tenant answered. -/
def Relayed (route : GitHttpRoute) (method : Str) (es : List (Program.Exchange Reply))
    (response : Rendered) : Prop :=
  ∃ contentType body answer, (⟨.proxy ⟨proxyUrl route, method, contentType, body⟩, .ok answer⟩ :
    Program.Exchange Reply) ∈ es ∧ response = relay answer

section Relayed

variable {C : Crypto} {w w' : World} {es : List (Program.Exchange Reply)} {response : Rendered}
variable {request : Incoming} {method : Str} {route : GitHttpRoute}

theorem Relayed.append (h : Relayed route method es response)
    (es' : List (Program.Exchange Reply)) : Relayed route method (es' ++ es) response := by
  obtain ⟨contentType, body, answer, hmem, hresponse⟩ := h
  exact ⟨contentType, body, answer, List.mem_append_right _ hmem, hresponse⟩

theorem relayed_proxyAttempts {contentType : Option Str} {body : List UInt8} {attempts : ℕ}
    (h : Program.Returns (Answers C)
      (proxyAttempts ⟨proxyUrl route, method, contentType, body⟩ (attempts + 1)) w es response w') :
    Relayed route method es response := by
  obtain ⟨reply, w₁, es', rfl, hexec, h⟩ := Program.returns_call.1 h
  cases hexec with
  | proxy _ answer =>
    obtain ⟨rfl, rfl, rfl⟩ := Program.returns_pure.1 h
    exact ⟨contentType, body, answer, List.mem_cons_self, rfl⟩

theorem relayed_relayGitHttp (hmethod : method = "GET".toList ∨ method = "POST".toList)
    (h : Program.Returns (Answers C) (relayGitHttp request method route) w es response w') :
    Relayed route method es response := by
  unfold relayGitHttp proxyToTenantPod at h
  split_ifs at h with hget hpost
  · exact relayed_proxyAttempts h
  · exact relayed_proxyAttempts h
  · exact (hmethod.elim hget hpost).elim

variable {F : FrontDoor} (hF : F.orchestrator = callOrchestrator)

include hF

theorem relayed_serveTenant {tenant : Tenant}
    (hmethod : method = "GET".toList ∨ method = "POST".toList)
    (h : Program.Returns (Answers C) (serveTenant F request method route tenant) w es response w') :
    Relayed route method es response := by
  obtain ⟨reply, w₁, es₁, rfl, -, h⟩ := Program.returns_call.1 h
  refine Relayed.append ?_ [_]
  simp only [Program.pure_bind] at h
  split_ifs at h
  · exact relayed_relayGitHttp hmethod h
  · unfold coldStart at h
    rw [hF] at h
    obtain ⟨reply, w₂, es₂, rfl, hexec, h⟩ := Program.returns_call.1 h
    cases hexec with
    | startPod =>
      obtain ⟨reply, w₃, es₃, rfl, -, h⟩ := Program.returns_call.1 h
      exact ((relayed_relayGitHttp hmethod h).append [_]).append [_]

/-- **An authorised request is relayed** where no call fails: its response is that of the pod. -/
theorem relayed_handleGitHttp {der : List UInt8} {certSerial : Str}
    (hserial : F.certSerialHex der = some certSerial)
    (hmethod : method = "GET".toList ∨ method = "POST".toList) (hwf : w.db.WellFormed)
    (hauthorized : Authorized w.db certSerial route.tenantSlug)
    (h : Program.Returns (Answers C) (handleGitHttp F request method route (some der)) w es response
      w') : Relayed route method es response := by
  obtain ⟨device, hdevice, hdserial, hrevoked, tenant, htenant, hslug, hid⟩ := hauthorized
  have hfound := hwf.findDeviceByCertSerial.2 ⟨hdevice, hdserial⟩
  have hnamed := hwf.findTenantBySlug.2 ⟨htenant, hslug⟩
  unfold handleGitHttp at h
  rw [if_neg fun hne => hmethod.elim hne.1 hne.2] at h
  dsimp only at h
  rw [hserial] at h
  obtain ⟨reply, w₁, es₁, rfl, hexec, h⟩ := Program.returns_call.1 h
  cases hexec with
  | connect =>
    obtain ⟨reply, w₂, es₂, rfl, hexec, h⟩ := Program.returns_call.1 h
    cases hexec with
    | sql =>
      simp only [Statement.run, hfound, Program.pure_bind] at h
      rw [if_neg (by rw [hrevoked]; exact Bool.false_ne_true)] at h
      obtain ⟨reply, w₃, es₃, rfl, hexec, h⟩ := Program.returns_call.1 h
      cases hexec with
      | sql =>
        simp only [Statement.run, hnamed, Program.pure_bind] at h
        rw [if_neg (not_not.2 hid)] at h
        exact (((relayed_serveTenant hF hmethod h).append [_]).append [_]).append [_]

end Relayed

/-! ### What the lookups show -/

/-- What the lookups showed is in the tables at the beginning, and the names in the tables stay. -/
structure LooksUp (db₀ : Db) (es : List (Program.Exchange Reply)) (db : Db) : Prop where
  /-- The devices stay. -/
  devices : db.devices = db₀.devices
  /-- The tenants keep their ids and slugs. -/
  tenants : db₀.SameNames db
  /-- A device that was found. -/
  found : ∀ certSerial device, (⟨.sql (.findDeviceByCertSerial certSerial), .ok (some device)⟩ :
    Program.Exchange Reply) ∈ es → device ∈ db₀.devices ∧ device.certSerial = some certSerial
  /-- A tenant that was found. -/
  named : ∀ slug tenant, (⟨.sql (.findTenantBySlug slug), .ok (some tenant)⟩ :
    Program.Exchange Reply) ∈ es → ∃ t ∈ db₀.tenants, t.id = tenant.id ∧ t.slug = slug

theorem LooksUp.authorized {db₀ db : Db} {es : List (Program.Exchange Reply)}
    (h : LooksUp db₀ es db) {certSerial tenantSlug : Str}
    (hchecked : Checked certSerial tenantSlug es) : Authorized db₀ certSerial tenantSlug := by
  obtain ⟨device, tenant, hdevice, hrevoked, htenant, hid⟩ := hchecked
  obtain ⟨hmem, hserial⟩ := h.found _ _ hdevice
  obtain ⟨t, ht, htid, hslug⟩ := h.named _ _ htenant
  exact ⟨device, hmem, hserial, hrevoked, t, ht, hslug, hid.trans htid.symm⟩

theorem Exec.keeps_names {C : Crypto} {certSerial : Str} {route : GitHttpRoute}
    {es : List (Program.Exchange Reply)} {w w' : World} {e : Program.Exchange Reply}
    (hchecks : Checks certSerial route es e.1) (hexec : Exec C w e w') :
    w'.db.devices = w.db.devices ∧ w.db.SameNames w'.db := by
  obtain ⟨c, r⟩ := e
  cases c with
  | sql q =>
    rcases hexec.sql_cases with rfl | rfl
    · exact ⟨rfl, .refl _⟩
    · cases q with
      | findDeviceByCertSerial | findTenantBySlug => exact ⟨rfl, .refl _⟩
      | touchLastActive =>
        exact ⟨Db.updateTenant_devices, Db.updateTenant_sameNames (fun _ => rfl) fun _ => rfl⟩
      | recordPodStarted =>
        exact ⟨Db.updateTenant_devices, Db.updateTenant_sameNames (fun _ => rfl) fun _ => rfl⟩
      | _ => cases hchecks.1
  | _ =>
    rw [hexec.db_eq (by intro q h; cases h)]
    exact ⟨rfl, .refl _⟩

theorem LooksUp.step {C : Crypto} {certSerial : Str} {route : GitHttpRoute} {db₀ : Db}
    {es : List (Program.Exchange Reply)} {w w' : World} {e : Program.Exchange Reply}
    (h : LooksUp db₀ es w.db) (hchecks : Checks certSerial route es e.1) (hexec : Exec C w e w') :
    LooksUp db₀ (es ++ [e]) w'.db := by
  obtain ⟨hdevices, hnames⟩ := hexec.keeps_names hchecks
  refine ⟨hdevices.trans h.devices, h.tenants.trans hnames, ?_, ?_⟩
  · intro serial device hmem
    rcases List.mem_append.1 hmem with hmem | hmem
    · exact h.found serial device hmem
    · rw [← List.mem_singleton.1 hmem] at hexec
      have hfind : w.db.findDeviceByCertSerial serial = some device :=
        Except.ok.inj hexec.sql_ok.1
      rw [← h.devices]
      exact ⟨List.mem_of_find?_eq_some hfind, by simpa using List.find?_some hfind⟩
  · intro slug tenant hmem
    rcases List.mem_append.1 hmem with hmem | hmem
    · exact h.named slug tenant hmem
    · rw [← List.mem_singleton.1 hmem] at hexec
      have hfind : w.db.findTenantBySlug slug = some tenant := Except.ok.inj hexec.sql_ok.1
      obtain ⟨t, ht, hid, hslug⟩ := h.tenants tenant (List.mem_of_find?_eq_some hfind)
      exact ⟨t, ht, hid, hslug.trans (by simpa using List.find?_some hfind)⟩

theorem Careful.run {C : Crypto} {certSerial : Str} {route : GitHttpRoute} {w w' : World}
    {p p' : Handler Rendered} {es : List (Program.Exchange Reply)}
    (h : Careful certSerial route [] p) (run : Trace.Run (Program.Step (Exec C)) (p, w) es (p', w')) :
    ∀ e ∈ es, ReachesPod e.1 →
      ReachesTenant route e.1 ∧ Authorized w.db certSerial route.tenantSlug := by
  have hinv : Careful certSerial route es p' ∧ LooksUp w.db es w'.db ∧ ∀ e ∈ es, ReachesPod e.1 →
      ReachesTenant route e.1 ∧ Authorized w.db certSerial route.tenantSlug := by
    refine Trace.Run.history (I := fun es s => Careful certSerial route es s.1 ∧
      LooksUp w.db es s.2.db ∧ ∀ e ∈ es, ReachesPod e.1 →
        ReachesTenant route e.1 ∧ Authorized w.db certSerial route.tenantSlug) ?_ ?_ run
    · exact ⟨h, ⟨rfl, .refl _, by simp, by simp⟩, by simp⟩
    · rintro es ⟨p₁, w₁⟩ e ⟨p₂, w₂⟩ - ⟨hp, hw, hes⟩ ⟨hnext, hexec⟩
      obtain ⟨hchecks, hp'⟩ := hp.step hnext rfl
      refine ⟨hp', hw.step hchecks hexec, fun e' he' hpod => ?_⟩
      rcases List.mem_append.1 he' with he' | he'
      · exact hes e' he' hpod
      · obtain rfl := List.mem_singleton.1 he'
        obtain ⟨c, r⟩ := e'
        have hreaches : ReachesTenant route c ∧ Checked certSerial route.tenantSlug es := by
          cases c with
          | connect | sql | now | signDeviceCsr => exact hpod.elim
          | _ => exact hchecks
        exact ⟨hreaches.1, hw.authorized hreaches.2⟩
  exact hinv.2.2

/-- **The front door starts and relays only for a device of the tenant, and the pod serves the request
that was made, and no other tenant's.** -/
theorem tenant_isolation (C : Crypto) (F : FrontDoor) :
    (∀ request method route peerCert w es p w', Trace.Run (Program.Step (Exec C))
      (handleGitHttp { F with orchestrator := callOrchestrator } request method route peerCert, w) es
        (p, w') →
      ∀ e ∈ es, ReachesPod e.1 → ReachesTenant route e.1 ∧
        ∃ der certSerial, peerCert = some der ∧ F.certSerialHex der = some certSerial ∧
          Authorized w.db certSerial route.tenantSlug) ∧
    (∀ target path query slug suffix, splitTarget target = (path, query) →
      gitHttpPath path = some (slug, suffix) → UrlSafe slug →
      ∃ authority podTarget, parseUrl (proxyUrl ⟨slug, suffix, query⟩) = some (authority, podTarget) ∧
        hostOf authority = slug ∧
        ∀ tenantSlug reposRoot method request, method = "GET".toList ∨ method = "POST".toList →
          serveSingleTenant tenantSlug reposRoot method podTarget request =
            if slug = tenantSlug then
              .ok (serveGitHttp request method slug suffix query reposRoot "pod".toList)
            else .error (.statusOnly 404)) ∧
    (∀ tenantSlug reposRoot method url request slug suffix,
      gitHttpPath (url.takeWhile (· ≠ '?')) = some (slug, suffix) → slug ≠ tenantSlug →
      method = "GET".toList ∨ method = "POST".toList →
      serveSingleTenant tenantSlug reposRoot method url request = .error (.statusOnly 404)) := by
  refine ⟨?_, ?_, ?_⟩
  · intro request method route peerCert w es p w' run e he hpod
    -- without a certificate, or with one that does not parse, the handler makes no call
    have hnone : (∃ response, handleGitHttp { F with orchestrator := callOrchestrator } request
        method route peerCert = pure response) → ReachesTenant route e.1 ∧
        ∃ der certSerial, peerCert = some der ∧ F.certSerialHex der = some certSerial ∧
          Authorized w.db certSerial route.tenantSlug := by
      rintro ⟨response, hresponse⟩
      rw [hresponse] at run
      cases run with
      | nil => cases he
      | cons hstep _ => exact absurd hstep.1 Program.not_next_pure
    cases peerCert with
    | none =>
      refine hnone ?_
      unfold handleGitHttp
      split_ifs <;> exact ⟨_, rfl⟩
    | some der =>
      cases hserial : F.certSerialHex der with
      | none =>
        refine hnone ?_
        unfold handleGitHttp
        dsimp only
        rw [hserial]
        split_ifs <;> exact ⟨_, rfl⟩
      | some certSerial =>
        obtain ⟨hreaches, hauthorized⟩ :=
          (checked_handleGitHttp (F := { F with orchestrator := callOrchestrator }) rfl request method
            hserial).run run e he hpod
        exact ⟨hreaches, der, certSerial, rfl, hserial, hauthorized⟩
  · intro target path query slug suffix hsplit hpath hsafe
    have hquery := notMem_of_splitTarget hsplit
    refine ⟨_, _, parseUrl_proxyUrl hsafe, hostOf_authority hsafe, ?_⟩
    intro tenantSlug reposRoot method request hmethod
    dsimp only
    rw [← (gitHttpPath_eq_some_iff.1 hpath).1]
    exact serveSingleTenant_proxyUrl hquery hpath tenantSlug reposRoot method request hmethod
  · intro tenantSlug reposRoot method url request slug suffix hpath hne hmethod
    unfold serveSingleTenant
    dsimp only
    rw [hpath, if_neg (by rcases hmethod with rfl | rfl <;> decide)]
    exact if_neg hne

/-! ### A request of an approved device -/

/-- Certificates are serial numbers. -/
def exampleFrontDoor : FrontDoor :=
  { orchestrator := callOrchestrator
    certSerialHex := fun der => some (der.map fun b => Char.ofNat b.toNat)
    reposRoot := "/srv/wkp-hub/repos".toList
    image := "localhost/wkp-hub".toList }

/-- A request for the references of the repository. -/
def exampleRoute : GitHttpRoute :=
  ⟨"acme".toList, "info/refs".toList, "service=git-upload-pack".toList⟩

/-- Its target. -/
def exampleTarget : Str := "/acme.git/info/refs?service=git-upload-pack".toList

/-- The handler starts a pod for the device that was approved.  The pod serves the request, and the pod
of another tenant does not, whether it is passed on or made at once. -/
theorem tenant_isolation_example :
    ((∃ es p w', Trace.Run (Program.Step (Exec exampleCrypto))
      (handleGitHttp exampleFrontDoor ⟨[], []⟩ "GET".toList exampleRoute (some [48, 49]),
        exampleApproved) es (p, w') ∧ ∃ e ∈ es, ReachesPod e.1) ∧
      Authorized exampleApproved.db "01".toList "acme".toList) ∧
    (∃ authority podTarget, parseUrl (proxyUrl exampleRoute) = some (authority, podTarget) ∧
      hostOf authority = "acme".toList ∧
      serveSingleTenant "acme".toList "/repos".toList "GET".toList podTarget ⟨[], []⟩ =
        .ok (serveGitHttp ⟨[], []⟩ "GET".toList "acme".toList "info/refs".toList
          "service=git-upload-pack".toList "/repos".toList "pod".toList) ∧
      serveSingleTenant "umbrella".toList "/repos".toList "GET".toList podTarget ⟨[], []⟩ =
        .error (.statusOnly 404)) ∧
    serveSingleTenant "umbrella".toList "/repos".toList "GET".toList exampleTarget ⟨[], []⟩ =
      .error (.statusOnly 404) := by
  obtain ⟨hdoor, hpodServes, hpodRefuses⟩ := tenant_isolation exampleCrypto exampleFrontDoor
  refine ⟨?_, ?_, ?_⟩
  · -- the door reaches the pod of its tenant in the fifth call
    have run := Program.returns_eval (exec_exampleAnswer []) (handleGitHttp exampleFrontDoor ⟨[], []⟩
      "GET".toList exampleRoute (some [48, 49])) exampleApproved
    have hpod : (⟨.startPod "localhost/wkp-hub".toList "/srv/wkp-hub/repos".toList "acme".toList,
        .error []⟩ : Program.Exchange Reply) ∈ ((handleGitHttp exampleFrontDoor ⟨[], []⟩ "GET".toList
          exampleRoute (some [48, 49])).eval (exampleAnswer []) exampleApproved).1 :=
      List.mem_of_getElem? (i := 4) rfl
    refine ⟨⟨_, _, _, run, _, hpod, trivial⟩, ?_⟩
    obtain ⟨-, der, certSerial, hder, hserial, hauthorized⟩ :=
      hdoor _ _ _ _ _ _ _ _ run _ hpod trivial
    obtain rfl := Option.some.inj hder
    have hdigits : certSerial = "01".toList := (Option.some.inj hserial).symm
    rwa [hdigits] at hauthorized
  · obtain ⟨authority, podTarget, hurl, hhost, hserves⟩ := hpodServes exampleTarget
      "/acme.git/info/refs".toList "service=git-upload-pack".toList "acme".toList "info/refs".toList
      (by decide) (by decide) (by simp [UrlSafe])
    refine ⟨authority, podTarget, hurl, hhost, ?_, ?_⟩
    · exact (hserves "acme".toList _ _ _ (.inl rfl)).trans (if_pos rfl)
    · exact (hserves "umbrella".toList _ _ _ (.inl rfl)).trans (if_neg (by decide))
  · exact hpodRefuses _ _ _ _ _ "acme".toList "info/refs".toList (by decide) (by decide) (.inl rfl)

end Hub

end Wkp
