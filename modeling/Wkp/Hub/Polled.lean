import Wkp.Hub.Approval

/-!
# What a poll answers

* `Hub.GrantStep` : the calls of the enrollment handlers in any order, and polls between them.
* `Hub.poll_answers` : what a poll answers, from the tables and the time.
* `Hub.poll_monotone_iff` : **a poll answers with the certificate once it is stored, and that the grant
  is expired only if it was not approved, unless an approved grant is polled after its expiry.**
-/

namespace Wkp

open Rust

namespace Hub

variable {C : Crypto}

/-! ### Calls that are carried out -/

theorem Answers.connect_iff {w w' : World} {r : Except Error Unit} :
    Answers C w ⟨.connect, r⟩ w' ↔ r = .ok () ∧ w' = w := by
  constructor
  · intro h
    cases h with
    | connect => exact ⟨rfl, rfl⟩
  · rintro ⟨rfl, rfl⟩
    exact .connect _

theorem Answers.now_iff {w w' : World} {t : ℕ} :
    Answers C w ⟨.now, t⟩ w' ↔ w.clock ≤ t ∧ w' = { w with clock := t } := by
  constructor
  · intro h
    cases h with
    | now h => exact ⟨h, rfl⟩
  · rintro ⟨h, rfl⟩
    exact .now h

theorem Answers.sql_iff {w w' : World} {q : Statement} {r : Except Error q.Result} :
    Answers C w ⟨.sql q, r⟩ w' ↔
      r = (q.run w.clock w.db).1 ∧ w' = { w with db := (q.run w.clock w.db).2 } := by
  constructor
  · intro h
    generalize he : (⟨.sql q, r⟩ : Program.Exchange Reply) = e at h
    cases h with
    | sql q' =>
      obtain ⟨hq, hr⟩ := Sigma.mk.inj he
      obtain rfl : q = q' := Call.sql.inj hq
      exact ⟨eq_of_heq hr, rfl⟩
    | _ => cases he
  · rintro ⟨rfl, rfl⟩
    exact .sql w q

/-! ### A poll -/

/-- The answer to a poll for a grant at a time. -/
inductive PollAnswer (C : Crypto) (db : Db) (grant : DeviceGrant) (now : ℕ) : Rendered → Prop
  | expired (h : grant.isExpired now = true) : PollAnswer C db grant now .expiredToken
  | unapproved (hnow : grant.isExpired now = false) (h : grant.approvedDeviceId = none) :
      PollAnswer C db grant now .authorizationPending
  | unissued (hnow : grant.isExpired now = false) {device : Device} (hd : device ∈ db.devices)
      (happroved : grant.approvedDeviceId = some device.id) (h : device.certificatePem = none) :
      PollAnswer C db grant now .authorizationPending
  | issued (hnow : grant.isExpired now = false) {device : Device} (hd : device ∈ db.devices)
      (happroved : grant.approvedDeviceId = some device.id) {tenant : Tenant}
      (ht : tenant ∈ db.tenants) (htenant : tenant.id = grant.tenantId) {certificatePem : Str}
      (h : device.certificatePem = some certificatePem) :
      PollAnswer C db grant now (.certificate C tenant device.id certificatePem)

theorem poll_answers {deviceCode : Str} {w w' : World} {es : List (Program.Exchange Reply)}
    {response : Rendered} (hw : w.db.WellFormed)
    (h : Program.Returns (Answers C) (handleDeviceToken C (.ok deviceCode)) w es response w') :
    w'.db = w.db ∧
      ((∃ grant ∈ w.db.grants, grant.deviceCode = deviceCode ∧
        PollAnswer C w.db grant w'.clock response) ∨
      (∀ grant ∈ w.db.grants, grant.deviceCode ≠ deviceCode) ∧
        response = .jsonError 400 "invalid_grant") := by
  obtain ⟨r, w₁, es₁, -, hconnect, h₁⟩ := Program.returns_call.1 h
  obtain ⟨rfl, rfl⟩ := Answers.connect_iff.1 hconnect
  obtain ⟨r, w₂, es₂, -, hfind, h₂⟩ := Program.returns_call.1 h₁
  obtain ⟨rfl, rfl⟩ := Answers.sql_iff.1 hfind
  dsimp only [Statement.run] at h₂
  cases hfound : w₁.db.findGrantByDeviceCode deviceCode with
  | none =>
    rw [hfound] at h₂
    obtain ⟨-, rfl, rfl⟩ := Program.returns_pure.1 h₂
    exact ⟨rfl, .inr ⟨Table.find?_eq_none_iff.1 hfound, rfl⟩⟩
  | some g =>
    rw [hfound] at h₂
    obtain ⟨hg, hcode⟩ := hw.findGrantByDeviceCode.1 hfound
    -- from here on no call writes, and the answer is about the one grant
    suffices hanswer : w'.db = w₁.db ∧ PollAnswer C w₁.db g w'.clock response from
      ⟨hanswer.1, .inl ⟨g, hg, hcode, hanswer.2⟩⟩
    obtain ⟨now, w₃, es₃, -, hnow, h₃⟩ := Program.returns_call.1 h₂
    obtain ⟨hle, rfl⟩ := Answers.now_iff.1 hnow
    rw [Program.pure_bind] at h₃
    -- the expiry comes first, whether the grant is approved or not
    cases hexpired : g.isExpired now with
    | true =>
      rw [hexpired, if_pos rfl] at h₃
      obtain ⟨-, rfl, rfl⟩ := Program.returns_pure.1 h₃
      exact ⟨rfl, .expired hexpired⟩
    | false =>
      rw [hexpired, if_neg Bool.false_ne_true] at h₃
      cases happroved : g.approvedDeviceId with
      | none =>
        rw [happroved] at h₃
        obtain ⟨-, rfl, rfl⟩ := Program.returns_pure.1 h₃
        exact ⟨rfl, .unapproved hexpired happroved⟩
      | some deviceId =>
        rw [happroved] at h₃
        obtain ⟨r, w₄, es₄, -, htenant, h₄⟩ := Program.returns_call.1 h₃
        obtain ⟨rfl, rfl⟩ := Answers.sql_iff.1 htenant
        obtain ⟨t, ht, htid⟩ := hw.grantTenant g hg
        have htfound : w₁.db.findTenantById g.tenantId = some t := hw.findTenantById.2 ⟨ht, htid⟩
        dsimp only [Statement.run] at h₄
        rw [htfound] at h₄
        obtain ⟨r, w₅, es₅, -, hdevice, h₅⟩ := Program.returns_call.1 h₄
        obtain ⟨rfl, rfl⟩ := Answers.sql_iff.1 hdevice
        obtain ⟨d, hd, rfl⟩ := hw.approvedDevice g hg deviceId happroved
        have hdfound : w₁.db.findDeviceById d.id = some d := hw.findDeviceById.2 ⟨hd, rfl⟩
        dsimp only [Statement.run] at h₅
        rw [hdfound] at h₅
        simp only [Program.pure_bind] at h₅
        cases hpem : d.certificatePem with
        | none =>
          rw [hpem] at h₅
          obtain ⟨-, rfl, rfl⟩ := Program.returns_pure.1 h₅
          exact ⟨rfl, .unissued hexpired hd happroved hpem⟩
        | some pem =>
          rw [hpem] at h₅
          obtain ⟨-, rfl, rfl⟩ := Program.returns_pure.1 h₅
          exact ⟨rfl, .issued hexpired hd happroved ht htid hpem⟩

theorem PollAnswer.returns {grant : DeviceGrant} {w : World} {now : ℕ} {response : Rendered}
    (hanswer : PollAnswer C w.db grant now response) (hw : w.db.WellFormed)
    (hgrant : grant ∈ w.db.grants) (hnow : w.clock ≤ now) :
    ∃ es, Program.Returns (Answers C) (handleDeviceToken C (.ok grant.deviceCode)) w es response
      { w with clock := now } := by
  have hfound : w.db.findGrantByDeviceCode grant.deviceCode = some grant :=
    hw.findGrantByDeviceCode.2 ⟨hgrant, rfl⟩
  -- from the grant on
  suffices hgrantOn : ∃ es, Program.Returns (Answers C) (relayGrant C grant) w es response
      { w with clock := now } by
    refine Program.exists_returns_call (.connect w) ?_
    refine Program.exists_returns_call (.sql w (.findGrantByDeviceCode grant.deviceCode)) ?_
    dsimp only [Statement.run]
    rw [hfound]
    exact hgrantOn
  -- from the device on
  have hdeviceOn : ∀ {device : Device}, device ∈ w.db.devices →
      grant.approvedDeviceId = some device.id → grant.isExpired now = false →
      ∀ tenant ∈ w.db.tenants, tenant.id = grant.tenantId → ∀ {r : Rendered},
      (device.certificatePem = none → r = .authorizationPending) →
      (∀ pem, device.certificatePem = some pem → r = .certificate C tenant device.id pem) →
      ∃ es, Program.Returns (Answers C) (relayGrant C grant) w es r { w with clock := now } := by
    intro device hdevice happroved hexpired tenant htenant hid r hpending hcertificate
    have htfound : w.db.findTenantById grant.tenantId = some tenant :=
      hw.findTenantById.2 ⟨htenant, hid⟩
    have hdfound : w.db.findDeviceById device.id = some device :=
      hw.findDeviceById.2 ⟨hdevice, rfl⟩
    refine Program.exists_returns_call (.now hnow) ?_
    rw [Program.pure_bind, hexpired, if_neg Bool.false_ne_true, happroved]
    refine Program.exists_returns_call (.sql _ (.findTenantById grant.tenantId)) ?_
    dsimp only [Statement.run]
    rw [htfound]
    refine Program.exists_returns_call (.sql _ (.findDeviceById device.id)) ?_
    dsimp only [Statement.run]
    rw [hdfound]
    simp only [Program.pure_bind]
    cases hpem : device.certificatePem with
    | none =>
      rw [hpending hpem]
      exact Program.exists_returns_pure _ _
    | some pem =>
      rw [hcertificate pem hpem]
      exact Program.exists_returns_pure _ _
  cases hanswer with
  | expired hexpired =>
    refine Program.exists_returns_call (.now hnow) ?_
    rw [Program.pure_bind, hexpired, if_pos rfl]
    exact Program.exists_returns_pure _ _
  | unapproved hexpired happroved =>
    refine Program.exists_returns_call (.now hnow) ?_
    rw [Program.pure_bind, hexpired, if_neg Bool.false_ne_true, happroved]
    exact Program.exists_returns_pure _ _
  | unissued hexpired hdevice happroved hpem =>
    obtain ⟨tenant, htenant, hid⟩ := hw.grantTenant grant hgrant
    exact hdeviceOn hdevice happroved hexpired tenant htenant hid (fun _ => rfl) fun pem hsome => by
      rw [hpem] at hsome
      cases hsome
  | issued hexpired hdevice happroved htenant hid hpem =>
    refine hdeviceOn hdevice happroved hexpired _ htenant hid (fun hnone => ?_) fun pem' hsome => ?_
    · rw [hpem] at hnone
      cases hnone
    · rw [Option.some.inj (hpem.symm.trans hsome)]

/-! ### Runs -/

/-- What happens to the grants. -/
inductive GrantLabel
  | handler (l : Pool.Label (Program.Exchange Reply))
  | poll (deviceCode : Str) (response : Rendered)

variable (C) in
/-- A call of a handler, which may fail, or a poll in between. -/
inductive GrantStep :
    Pool (Handler Rendered) World → GrantLabel → Pool (Handler Rendered) World → Prop
  | handler {pool pool' : Pool (Handler Rendered) World} {l : Pool.Label (Program.Exchange Reply)}
      (h : Pool.Step Program.Next (Exec C) (Starts C) pool l pool') :
      GrantStep pool (.handler l) pool'
  | poll {threads : ℕ → Option (Handler Rendered)} {w w' : World} {deviceCode : Str}
      {es : List (Program.Exchange Reply)} {response : Rendered}
      (h : Program.Returns (Answers C) (handleDeviceToken C (.ok deviceCode)) w es response w') :
      GrantStep ⟨threads, w⟩ (.poll deviceCode response) ⟨threads, w'⟩

/-- The grant is approved. -/
def Db.Approved (db : Db) (deviceCode : Str) : Prop :=
  ∃ grant ∈ db.grants, grant.deviceCode = deviceCode ∧ grant.approvedDeviceId.isSome = true

/-- The grant is expired at the time. -/
def Db.Expired (db : Db) (deviceCode : Str) (now : ℕ) : Prop :=
  ∃ grant ∈ db.grants, grant.deviceCode = deviceCode ∧ grant.isExpired now = true

/-- The grant is approved, and the certificate of its device is stored. -/
def Db.Issued (db : Db) (deviceCode : Str) : Prop :=
  ∃ grant ∈ db.grants, grant.deviceCode = deviceCode ∧ ∃ device ∈ db.devices,
    grant.approvedDeviceId = some device.id ∧ device.certificatePem.isSome = true

theorem Db.Issued.approved {db : Db} {deviceCode : Str} (h : db.Issued deviceCode) :
    db.Approved deviceCode := by
  obtain ⟨grant, hgrant, hcode, device, -, happroved, -⟩ := h
  exact ⟨grant, hgrant, hcode, by rw [happroved]; rfl⟩

theorem Db.Extends.issued {db db' : Db} (h : db.Extends db') {deviceCode : Str}
    (hissued : db.Issued deviceCode) : db'.Issued deviceCode := by
  obtain ⟨grant, hgrant, hcode, device, hdevice, happroved, hpem⟩ := hissued
  obtain ⟨grant', hgrant', hafter⟩ := h.grants grant hgrant
  obtain ⟨device', hdevice', hafter'⟩ := h.devices device hdevice
  refine ⟨grant', hgrant', hafter.deviceCode_eq.trans hcode, device', hdevice', ?_,
    hafter'.issued hpem⟩
  rw [hafter'.id_eq]
  exact hafter.approved _ happroved

theorem Approving.of_db_eq {threads : ℕ → Option Stage} {w w' : World}
    (h : Approving C ⟨threads, w⟩) (hdb : w'.db = w.db) : Approving C ⟨threads, w'⟩ := by
  obtain ⟨hwf, hlinked, hholds, hunrecorded, hapart⟩ := h
  dsimp only at hwf hlinked hholds hunrecorded
  rw [← hdb] at hwf hlinked hholds hunrecorded
  exact ⟨hwf, hlinked, hholds, hunrecorded, hapart⟩

theorem GrantStep.approving {P : Pool Stage World} (hP : Approving C P) {l : GrantLabel}
    {pool' : Pool (Handler Rendered) World} (h : GrantStep C (P.map (Stage.program C)) l pool') :
    ∃ P' : Pool Stage World, pool' = P'.map (Stage.program C) ∧ Approving C P' ∧
      P.state.db.Extends P'.state.db := by
  obtain ⟨threads, w⟩ := P
  generalize hpool : Pool.map (Stage.program C) ⟨threads, w⟩ = pool at h
  cases h with
  | handler hstep =>
    subst hpool
    obtain ⟨P', rfl, hstep'⟩ := hstep.simulate (fun p hp => hp.exists_stage C)
      fun _ _ _ hnext => Stage.exists_next hnext
    obtain ⟨hP', hext⟩ := hP.step hstep'
    exact ⟨P', rfl, hP', hext⟩
  | @poll _ w₁ w' _ _ _ hpoll =>
    obtain ⟨rfl, rfl⟩ := Pool.mk.inj hpool
    have hdb := (poll_answers hP.wellFormed hpoll).1
    exact ⟨⟨threads, w'⟩, rfl, hP.of_db_eq hdb, by dsimp only; rw [hdb]; exact .refl _⟩

theorem GrantStep.run {P : Pool Stage World} (hP : Approving C P) {ls : List GrantLabel}
    {pool' : Pool (Handler Rendered) World}
    (run : Trace.Run (GrantStep C) (P.map (Stage.program C)) ls pool') :
    ∃ P' : Pool Stage World, pool' = P'.map (Stage.program C) ∧ Approving C P' ∧
      P.state.db.Extends P'.state.db := by
  refine run.invariant (I := fun pool => ∃ P' : Pool Stage World,
    pool = P'.map (Stage.program C) ∧ Approving C P' ∧ P.state.db.Extends P'.state.db) ?_
    ⟨P, rfl, hP, .refl _⟩
  rintro _ l pool₂ ⟨P₁, rfl, hP₁, hext⟩ hstep
  obtain ⟨P₂, rfl, hP₂, hext'⟩ := GrantStep.approving hP₁ hstep
  exact ⟨P₂, rfl, hP₂, hext.trans hext'⟩

/-- A poll answers with the certificate if the grant was issued at an earlier time, and that the grant
is expired only if it is expired and not approved. -/
def PollMonotone (C : Crypto) (earlier now : World) (deviceCode : Str) (response : Rendered) : Prop :=
  (earlier.db.Issued deviceCode → ∃ tenant ∈ now.db.tenants, ∃ grant ∈ now.db.grants,
    ∃ device ∈ now.db.devices, ∃ certificatePem, grant.deviceCode = deviceCode ∧
      tenant.id = grant.tenantId ∧ grant.approvedDeviceId = some device.id ∧
      device.certificatePem = some certificatePem ∧
      response = .certificate C tenant device.id certificatePem) ∧
  (response = .expiredToken →
    now.db.Expired deviceCode now.clock ∧ ¬ now.db.Approved deviceCode)

/-- **A poll answers with the certificate once it is stored, and that the grant is expired only if it
was not approved, unless an approved grant is polled after its expiry.** -/
theorem poll_monotone_iff {w₀ : World} (hw : w₀.db.WellFormed) (hgrants : w₀.db.grants = [])
    {ls₁ ls₂ : List GrantLabel} {earlier before after : Pool (Handler Rendered) World}
    {deviceCode : Str} {response : Rendered}
    (run₁ : Trace.Run (GrantStep C) ⟨fun _ => none, w₀⟩ ls₁ earlier)
    (run₂ : Trace.Run (GrantStep C) earlier ls₂ before)
    (poll : GrantStep C before (.poll deviceCode response) after) :
    PollMonotone C earlier.state after.state deviceCode response ↔
      ¬ (before.state.db.Approved deviceCode ∧
        before.state.db.Expired deviceCode after.state.clock) := by
  have hP₀ : Approving C ⟨fun _ => none, w₀⟩ := by
    refine .init hw ?_
    intro grant hgrant
    rw [hgrants] at hgrant
    cases hgrant
  obtain ⟨P₁, rfl, hP₁, -⟩ := GrantStep.run hP₀ run₁
  obtain ⟨P₂, rfl, hP₂, hext⟩ := GrantStep.run hP₁ run₂
  obtain ⟨threads, w⟩ := P₂
  have hwf : w.db.WellFormed := hP₂.wellFormed
  generalize hpool : Pool.map (Stage.program C) ⟨threads, w⟩ = pool at poll
  cases poll with
  | @poll _ _ w' _ _ _ hpoll =>
  obtain ⟨-, rfl⟩ := Pool.mk.inj hpool
  obtain ⟨hdb, hanswers⟩ := poll_answers hwf hpoll
  -- the poll leaves the tables as they are
  unfold PollMonotone
  dsimp only [Pool.map] at hext ⊢
  rw [hdb]
  have hanswer : ∀ grant ∈ w.db.grants, grant.deviceCode = deviceCode →
      PollAnswer C w.db grant w'.clock response := by
    intro grant hgrant hcode
    rcases hanswers with ⟨g, hg, hgcode, hanswer⟩ | ⟨hnone, -⟩
    · rwa [hwf.deviceCode.eq_of_key_eq hgrant hg (hcode.trans hgcode.symm)]
    · exact absurd hcode (hnone grant hgrant)
  constructor
  · -- an approved grant that is polled after its expiry is said to be expired
    rintro ⟨-, hexpired⟩ ⟨⟨grant, hgrant, hcode, happroved⟩, grant', hgrant', hcode', hnow⟩
    obtain rfl := hwf.deviceCode.eq_of_key_eq hgrant hgrant' (hcode.trans hcode'.symm)
    have hresponse : response = .expiredToken := by
      cases hanswer grant hgrant hcode with
      | expired => rfl
      | unapproved hnot => rw [hnot] at hnow; cases hnow
      | unissued hnot => rw [hnot] at hnow; cases hnow
      | issued hnot => rw [hnot] at hnow; cases hnow
    exact (hexpired hresponse).2 ⟨grant, hgrant, hcode, happroved⟩
  · intro hnot
    refine ⟨fun hissued => ?_, fun hresponse => ?_⟩
    · obtain ⟨grant, hgrant, hcode, device, hdevice, happroved, hpem⟩ := hext.issued hissued
      have hnow : grant.isExpired w'.clock = false := by
        cases hnow : grant.isExpired w'.clock with
        | false => rfl
        | true =>
          exact absurd ⟨(hext.issued hissued).approved, grant, hgrant, hcode, hnow⟩ hnot
      cases hanswer grant hgrant hcode with
      | expired hexpired => rw [hnow] at hexpired; cases hexpired
      | unapproved _ hnone => rw [hnone] at happroved; cases happroved
      | @unissued _ device' hdevice' happroved' hnone =>
        have hid : device.id = device'.id :=
          Option.some.inj (happroved.symm.trans happroved')
        obtain rfl := hwf.deviceId.eq_of_key_eq hdevice hdevice' hid
        rw [hnone] at hpem
        cases hpem
      | @issued _ device' hdevice' happroved' tenant htenant hid pem hpem' =>
        exact ⟨tenant, htenant, grant, hgrant, device', hdevice', pem, hcode, hid, happroved',
          hpem', rfl⟩
    · rcases hanswers with ⟨g, hg, hgcode, hanswer⟩ | ⟨-, hinvalid⟩
      · have hexpired : g.isExpired w'.clock = true := by
          cases hanswer with
          | expired h => exact h
          | unapproved => exact absurd hresponse (by decide)
          | unissued => exact absurd hresponse (by decide)
          | issued => cases hresponse
        exact ⟨⟨g, hg, hgcode, hexpired⟩, fun happroved =>
          hnot ⟨happroved, g, hg, hgcode, hexpired⟩⟩
      · exact absurd (hinvalid.symm.trans hresponse) (by decide)

/-! ### A grant that is approved in time -/

/-- A device asks for a grant, and a human approves it. -/
def exampleApproved : World :=
  ((handleVerifySubmit exampleCrypto (some "uc".toList)).eval (exampleAnswer "01".toList)
    ((handleDeviceCode exampleCrypto (.ok ("acme".toList, "key".toList)) "dc".toList
      "uc".toList).eval (exampleAnswer []) exampleWorld).2.2).2.2

theorem run_exampleApproved : ∃ ls threads, Trace.Run (GrantStep exampleCrypto)
    ⟨fun _ => none, exampleWorld⟩ ls ⟨threads, exampleApproved⟩ := by
  have hcode := Program.returns_eval (exec_exampleAnswer [])
    (handleDeviceCode exampleCrypto (.ok ("acme".toList, "key".toList)) "dc".toList "uc".toList)
    exampleWorld
  have hverify := Program.returns_eval (exec_exampleAnswer "01".toList)
    (handleVerifySubmit exampleCrypto (some "uc".toList))
    ((handleDeviceCode exampleCrypto (.ok ("acme".toList, "key".toList)) "dc".toList
      "uc".toList).eval (exampleAnswer []) exampleWorld).2.2
  have run₁ : Pool.Run Program.Next (Exec exampleCrypto) (Starts exampleCrypto)
      ⟨fun _ => none, exampleWorld⟩ _ _ :=
    .of_returns (i := 0) hcode rfl (.inl ⟨_, _, _, rfl⟩)
  have run₂ := run₁.append (Pool.Run.of_returns (i := 1) hverify
    (Function.update_of_ne Nat.one_ne_zero _ _) (.inr (.inr ⟨_, rfl⟩)))
  exact ⟨_, _, run₂.map .handler fun _ _ _ h => .handler h⟩

theorem exampleApproved_db : exampleApproved.db =
    { exampleWorld.db with
      devices := [⟨1, 1, "key".toList, 0, none, some "01".toList, some "01".toList, some 0, some 1⟩]
      nextDeviceId := 2
      grants := [⟨1, 1, "dc".toList, "uc".toList, "key".toList, 600, some 1⟩]
      nextGrantId := 2 } := by
  decide

theorem exampleApproved_issued : exampleApproved.db.Issued "dc".toList := by
  rw [exampleApproved_db]
  exact ⟨_, List.mem_singleton_self _, rfl, _, List.mem_singleton_self _, rfl, rfl⟩

theorem exampleApproved_wellFormed : exampleApproved.db.WellFormed := by
  rw [exampleApproved_db]
  constructor <;> simp [exampleWorld, Table.Keyed]

theorem poll_exampleApproved (threads : ℕ → Option (Handler Rendered)) {now : ℕ}
    {response : Rendered} (h : PollAnswer exampleCrypto exampleApproved.db
      ⟨1, 1, "dc".toList, "uc".toList, "key".toList, 600, some 1⟩ now response) :
    GrantStep exampleCrypto ⟨threads, exampleApproved⟩ (.poll "dc".toList response)
      ⟨threads, { exampleApproved with clock := now }⟩ := by
  have hclock : exampleApproved.clock = 0 := by decide
  obtain ⟨es, hes⟩ := h.returns exampleApproved_wellFormed
    (by rw [exampleApproved_db]; exact List.mem_singleton_self _) (by omega)
  exact .poll hes

/-- **An approved device is told that its grant expired.** -/
theorem not_pollMonotone : ∃ ls threads, Trace.Run (GrantStep exampleCrypto)
    ⟨fun _ => none, exampleWorld⟩ ls ⟨threads, exampleApproved⟩ ∧
    GrantStep exampleCrypto ⟨threads, exampleApproved⟩ (.poll "dc".toList .expiredToken)
      ⟨threads, { exampleApproved with clock := 600 }⟩ ∧
    ¬ PollMonotone exampleCrypto exampleApproved { exampleApproved with clock := 600 } "dc".toList
      .expiredToken := by
  obtain ⟨ls, threads, run⟩ := run_exampleApproved
  refine ⟨ls, threads, run, poll_exampleApproved threads (.expired rfl), fun h => ?_⟩
  exact (h.2 rfl).2 exampleApproved_issued.approved

/-- A device that polls in time gets its certificate. -/
theorem pollMonotone_exampleApproved : PollMonotone exampleCrypto exampleApproved
    { exampleApproved with clock := 5 } "dc".toList
    (.certificate exampleCrypto ⟨1, "acme".toList, false, false, none, 0⟩ 1 "01".toList) := by
  obtain ⟨ls, threads, run⟩ := run_exampleApproved
  have hanswer : PollAnswer exampleCrypto exampleApproved.db
      ⟨1, 1, "dc".toList, "uc".toList, "key".toList, 600, some 1⟩ 5
      (.certificate exampleCrypto ⟨1, "acme".toList, false, false, none, 0⟩ 1 "01".toList) := by
    have hdevice : (⟨1, 1, "key".toList, 0, none, some "01".toList, some "01".toList, some 0,
        some 1⟩ : Device) ∈ exampleApproved.db.devices := by
      rw [exampleApproved_db]
      exact List.mem_singleton_self _
    have htenant : (⟨1, "acme".toList, false, false, none, 0⟩ : Tenant) ∈
        exampleApproved.db.tenants := by
      rw [exampleApproved_db]
      exact List.mem_singleton_self _
    exact .issued rfl hdevice rfl htenant rfl rfl
  refine (poll_monotone_iff exampleWorld_wellFormed rfl run (.nil _)
    (poll_exampleApproved threads hanswer)).2 fun h => ?_
  obtain ⟨-, grant, hgrant, -, hexpired⟩ := h
  rw [exampleApproved_db] at hgrant
  rw [List.mem_singleton.1 hgrant] at hexpired
  simp [DeviceGrant.isExpired] at hexpired

end Hub

end Wkp
