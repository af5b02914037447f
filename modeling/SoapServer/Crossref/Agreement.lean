import SoapServer.Crossref.Scenarios

/-! What a scenario that passes has shown. -/

set_option autoImplicit false

namespace SoapServer.Crossref

open Markup hiding localName
open Traced (Passage Tells tells_pure tells_ofExcept tells_mapError)

variable {σ α : Type} {peers : Peers σ} {endpoints : Endpoints} {name evidence : Text}

/-! What is asked in a run. -/

/-- A question of the harness, with the reply. -/
inductive Exchange where
  | readToString (file text : Text)
  | read (file bytes : Text)
  | posted (url request contentType : Text) (answer : Nat × Text)
  | got (url : Text) (answer : Nat × Text)
  | validated (text schema : Text) (result : ValidationResult)
  | canonicalized (text canon : Text)
  | notCanonicalized (text e : Text)
  | ran (service : Text) (output : ClientOutput)

/-- The reply was given in the first state and left the second one. -/
def Peers.Gave (peers : Peers σ) : Exchange → σ → σ → Prop
  | .readToString file text, s, t => peers.readToString file s = (.ok text, t)
  | .read file bytes, s, t => peers.read file s = (.ok bytes, t)
  | .posted url request contentType answer, s, t => peers.post url request contentType s = (.ok answer, t)
  | .got url answer, s, t => peers.get url s = (.ok answer, t)
  | .validated text schema result, s, t => peers.validate text schema s = (.ok result, t)
  | .canonicalized text canon, s, t => peers.c14n text s = (.ok canon, t)
  | .notCanonicalized text e, s, t => peers.c14n text s = (.error e, t)
  | .ran service output, s, t => peers.runClient service s = (.ok output, t)

/-- What is said about a scenario on both sides before anything is compared. -/
structure Replies where
  toml : Text
  scenario : Scenario
  request : Text
  our : Nat × Text
  cxf : Nat × Text
  ourEnvelope : ValidationResult
  cxfEnvelope : ValidationResult

/-- One request is sent to both sides, and both answers are validated. -/
def Replies.opening (replies : Replies) (name ourUrl cxfUrl schema : Text) : List Exchange :=
  [.readToString (name ++ ".toml".toList) replies.toml,
    .read replies.scenario.requestFile replies.request,
    .posted ourUrl replies.request replies.scenario.contentType replies.our,
    .posted cxfUrl replies.request replies.scenario.contentType replies.cxf,
    .validated replies.our.2 schema replies.ourEnvelope, .validated replies.cxf.2 schema replies.cxfEnvelope]

/-- Both answers are valid, and ours has the declared status. -/
structure Replies.Expected (peers : Peers σ) (replies : Replies) : Prop where
  loaded : peers.parseScenario replies.toml = .ok replies.scenario
  status : replies.our.1 = replies.scenario.expectedStatus
  ours : replies.ourEnvelope.valid = true
  theirs : replies.cxfEnvelope.valid = true

/-- The body of a success is validated by itself. -/
def Peers.BodyValid (peers : Peers σ) (scenario : Scenario) (body : Text)
    (talk : List Exchange) : Prop :=
  if scenario.outcome = .success then
    ∃ child result, extractBodyChild peers.reader body = some child ∧ result.valid = true ∧
      talk = [.validated child "controlled".toList result]
  else talk = []

/-- What is compared of an answer. -/
def Peers.Masked (peers : Peers σ) (scenario : Scenario) (body masked : Text) : Prop :=
  maskOnly peers.rawReader body (reasonMasks scenario).1 (reasonMasks scenario).2 = .ok masked

/-- What is compared of an answer to a scenario of WS-Security. -/
def Peers.BodyMasked (peers : Peers σ) (body masked : Text) : Prop :=
  maskOnlyWithDrops peers.rawReader body [.new "Envelope/Body/Fault/Reason/Text".toList]
    [.new "Envelope/Body/Fault/Reason/Text".toList "xml:lang".toList] [.new "Envelope/Header".toList] =
      .ok masked

/-- The oracle is not asked about nothing. -/
def BodyCanon (masked canon : Text) (talk : List Exchange) : Prop :=
  if masked = [] then canon = [] ∧ talk = [] else talk = [.canonicalized masked canon]

/-- Two answers that the oracle writes as one text. -/
def Compared (peers : Peers σ) (endpoints : Endpoints) (name : Text) (talk : List Exchange)
    (evidence : Text) :
    Prop :=
  ∃ replies : Replies, replies.Expected peers ∧ peers.assertFault name replies.scenario replies.our.2 = none ∧
    ∃ ourChild cxfChild ourMasked cxfMasked, peers.BodyValid replies.scenario replies.our.2 ourChild ∧
      peers.BodyValid replies.scenario replies.cxf.2 cxfChild ∧
      peers.Masked replies.scenario replies.our.2 ourMasked ∧
      peers.Masked replies.scenario replies.cxf.2 cxfMasked ∧
      talk = replies.opening name ((VersionRouting.forScenario replies.scenario endpoints).ourUrl endpoints)
          (VersionRouting.forScenario replies.scenario endpoints).cxfUrl
          (VersionRouting.forScenario replies.scenario endpoints).envelopeSchema ++ (ourChild ++ (cxfChild ++
        [.canonicalized ourMasked evidence, .canonicalized cxfMasked evidence]))

/-- Two answers with the declared outcome, and one body if that is a success. -/
def Secured (peers : Peers σ) (endpoints : Endpoints) (name : Text) (talk : List Exchange)
    (evidence : Text) :
    Prop :=
  ∃ replies : Replies, replies.Expected peers ∧
    (∀ answer ∈ [replies.our, replies.cxf], (answer.1 = 200 ↔ replies.scenario.outcome = .success)) ∧
    ∃ ourMasked cxfMasked ourTalk cxfTalk cxfCanon, peers.BodyMasked replies.our.2 ourMasked ∧
      peers.BodyMasked replies.cxf.2 cxfMasked ∧ BodyCanon ourMasked evidence ourTalk ∧
      BodyCanon cxfMasked cxfCanon cxfTalk ∧ (replies.scenario.outcome = .success → cxfCanon = evidence) ∧
      talk = replies.opening name (endpoints.ourBase ++ wssecPath name) (endpoints.cxfBase ++ wssecPath name)
        "soap12-envelope".toList ++ (ourTalk ++ cxfTalk)

/-- A valid WSDL whose addresses are rewritten. -/
def Rewritten (peers : Peers σ) (endpoints : Endpoints) (multi : Bool) (talk : List Exchange)
    (evidence : Text) : Prop :=
  ∃ validation : ValidationResult, validation.valid = true ∧
    peers.checkRewrite multi evidence endpoints.ourBase = .ok () ∧
    talk = [.got (endpoints.ourBase ++ (if multi then "/soap/a".toList else "/soap".toList) ++ "?wsdl".toList)
      (200, evidence), .validated evidence "wsdl11".toList validation]

/-- What the output of a client is kept as. -/
def OutputKept (stdout evidence : Text) (talk : List Exchange) : Prop :=
  if (trimUnicode stdout).head? = some '<' then
    talk = [.canonicalized (trimUnicode stdout) evidence] ∨
      evidence = trimUnicode stdout ∧ ∃ e, talk = [.notCanonicalized (trimUnicode stdout) e]
  else evidence = trimUnicode stdout ∧ talk = []

/-- A client that has ended without complaint. -/
def Driven (client : InteropClient) (talk : List Exchange) (evidence : Text) : Prop :=
  ∃ output kept, output.exitCode = 0 ∧ OutputKept output.stdout evidence kept ∧
    talk = .ran client.service output :: kept

theorem forall_both {β : Type} {P : β → Prop} {a b : β} (left : P a) (right : P b) :
    ∀ x ∈ [a, b], P x :=
  List.forall_mem_cons.mpr ⟨left, List.forall_mem_singleton.mpr right⟩

/-! Verdicts. -/

/-- Without known divergences only one text on both sides is accepted. -/
theorem evaluate_accepted {sut reference : Except Text Text}
    (accepted : (evaluate ⟨sut, reference, []⟩).accepted = true) :
    evaluate ⟨sut, reference, []⟩ = .pass ∧ ∃ text, sut = .ok text ∧ reference = .ok text := by
  cases sut with
  | error msg => cases accepted
  | ok ours =>
    cases reference with
    | error msg => cases accepted
    | ok theirs =>
      by_cases same : ours = theirs
      · subst same
        exact ⟨if_pos rfl, ours, rfl, rfl⟩
      · have differs : evaluate ⟨.ok ours, .ok theirs, []⟩ =
            .sutFail ("outputs differ: ".toList ++ diffReason ours theirs) :=
          if_neg same
        rw [differs] at accepted
        cases accepted

theorem side_ok {response canon text : Text} {envelope child : ValidationResult}
    (passed : peers.side response envelope child canon = .ok text) :
    envelope.valid = true ∧ child.valid = true ∧ canon = text := by
  unfold Peers.side at passed
  split at passed
  next both => exact ⟨(Bool.and_eq_true_iff.mp both).1, (Bool.and_eq_true_iff.mp both).2,
    Except.ok.inj passed⟩
  next => cases passed

/-- The outcomes are the declared one, and a success has one body. -/
theorem evaluateOutcomeEquivalence_accepted {declared : Bool} {our cxf : Resp}
    (accepted : (evaluateOutcomeEquivalence declared our cxf).accepted = true) :
    evaluateOutcomeEquivalence declared our cxf = .pass ∧ our.schemaValid = true ∧ cxf.schemaValid = true ∧
      our.isSuccess = declared ∧ cxf.isSuccess = declared ∧
      (declared = true → our.maskedBodyCanon = cxf.maskedBodyCanon) := by
  rcases our with ⟨_ | _, success, body⟩
  · cases accepted
  · by_cases mine : success = declared
    · rcases cxf with ⟨_ | _, success', body'⟩
      · simp [evaluateOutcomeEquivalence, mine, Verdict.accepted] at accepted
      · by_cases theirs : success' = declared
        · subst mine theirs
          cases success'
          · exact ⟨rfl, rfl, rfl, rfl, rfl, nofun⟩
          · by_cases same : body = body'
            · exact ⟨by simp [evaluateOutcomeEquivalence, same], rfl, rfl, rfl, rfl, fun _ => same⟩
            · simp [evaluateOutcomeEquivalence, same, Verdict.accepted] at accepted
        · simp [evaluateOutcomeEquivalence, mine, theirs, Verdict.accepted] at accepted
    · simp [evaluateOutcomeEquivalence, mine, Verdict.accepted] at accepted

theorem enforceFaultCode_rejects {reader : Reader} {body code : Text} {soap11 : Bool}
    {verdict : Verdict} (found : enforceFaultCode reader body code name soap11 = some verdict) :
    verdict.accepted = false := by
  unfold enforceFaultCode at found
  split at found
  · split at found
    · cases found
    · obtain rfl := Option.some.inj found
      rfl
  · cases found

theorem enforceRawXmlChildDetail_rejects {reader : Reader} {body : Text} {verdict : Verdict}
    (found : enforceRawXmlChildDetail reader body name = some verdict) :
    verdict.accepted = false := by
  simp only [enforceRawXmlChildDetail] at found
  split at found
  · obtain rfl := Option.some.inj found
    rfl
  · split at found
    · obtain rfl := Option.some.inj found
      rfl
    · split at found
      · obtain rfl := Option.some.inj found
        rfl
      · cases found

theorem assertFault_rejects {scenario : Scenario} {body : Text} {verdict : Verdict}
    (found : peers.assertFault name scenario body = some verdict) : verdict.accepted = false := by
  unfold Peers.assertFault at found
  split at found
  · split at found
    next expect _ =>
      rcases Option.or_eq_some_iff.mp found with code | ⟨_, detail⟩
      · exact enforceFaultCode_rejects code
      · cases policy : expect.detailPolicy with
        | rawXmlChild =>
          rw [policy] at detail
          exact enforceRawXmlChildDetail_rejects detail
        | absent | present =>
          rw [policy] at detail
          cases detail
    · cases found
  · cases found

/-! What the steps of a scenario tell. -/

/-- A verdict that ends a scenario early is none that is accepted. -/
abbrev Rejects (verdict : Verdict) : Prop := verdict.accepted = false

theorem tells_needed (what : Text) {x : Traced σ Text α} (reply : α → Exchange)
    (gave : ∀ s a t, x s = (.ok a, t) → peers.Gave (reply a) s t) :
    Tells peers.Gave (needed what x) (fun talk a => talk = [reply a]) Rejects :=
  tells_mapError (fun _ => rfl) fun s a t given => ⟨_, .cons (gave s a t given) (.nil t), rfl⟩

theorem tells_fail {P : List Exchange → α → Prop} {verdict : Verdict}
    (rejects : verdict.accepted = false) :
    Tells peers.Gave (fail verdict : Traced σ Verdict α) P Rejects :=
  tells_ofExcept nofun fun _ same => Except.error.inj same ▸ rejects

theorem tells_needed_ofExcept (what : Text) (x : Except Text α) :
    Tells peers.Gave (needed what (Traced.ofExcept x : Traced σ Text α))
      (fun talk a => talk = [] ∧ x = .ok a) Rejects := by
  refine tells_mapError (fun _ => rfl) fun s a t given => ?_
  obtain ⟨same, rfl⟩ := Traced.ofExcept_eq_ok.mp given
  exact ⟨[], .nil s, rfl, same⟩

/-- A step that can fail on a document. -/
theorem tells_masked (what : Text) (f : Failure → Text) (x : Except Failure Text) :
    Tells peers.Gave (needed what (Traced.ofExcept (x.mapError f) : Traced σ Text Text))
      (fun talk masked => talk = [] ∧ x = .ok masked) Rejects := by
  apply (tells_needed_ofExcept _ _).mono
  rintro talk masked ⟨silent, same⟩
  cases x with
  | error e => cases same
  | ok text => exact ⟨silent, congrArg Except.ok (Except.ok.inj same)⟩

theorem loadScenario_tells (peers : Peers σ) (name : Text) :
    Tells peers.Gave (peers.loadScenario name) (fun talk scenario => ∃ toml,
      peers.parseScenario toml = .ok scenario ∧ talk = [.readToString (name ++ ".toml".toList) toml])
        Rejects := by
  refine (tells_needed _ (.readToString _) fun _ _ _ => id).bind fun _ toml read => ?_
  subst read
  apply (tells_needed_ofExcept _ _).mono
  rintro _ scenario ⟨rfl, parsed⟩
  exact ⟨toml, parsed, rfl⟩

theorem validateBodyChild_tells (peers : Peers σ) (side : Side) (scenario : Scenario)
    (body : Text) :
    Tells peers.Gave (peers.validateBodyChild side scenario body)
      (fun talk result => result.valid = true → peers.BodyValid scenario body talk) Rejects := by
  unfold Peers.validateBodyChild Peers.BodyValid
  split
  next success =>
    split
    next child found =>
      apply (tells_needed _ (.validated child "controlled".toList) fun _ _ _ => id).mono
      rintro _ result rfl valid
      exact ⟨child, result, found, valid, rfl⟩
    next => exact tells_pure nofun
  next => exact tells_pure fun _ => rfl

theorem canonBody_tells (peers : Peers σ) (side : Side) (valid : Bool) (body : Text) :
    Tells peers.Gave (peers.canonBody side valid body)
      (fun talk masked => talk = [] ∧ (valid = true → peers.BodyMasked body masked)) Rejects := by
  unfold Peers.canonBody
  split
  next =>
    apply (tells_masked _ _ _).mono
    rintro _ masked ⟨rfl, same⟩
    exact ⟨rfl, fun _ => same⟩
  next invalid => exact tells_pure ⟨rfl, fun valid => absurd valid invalid⟩

theorem canonOf_tells (peers : Peers σ) (side : Side) (valid : Bool) (masked : Text) :
    Tells peers.Gave (peers.canonOf side valid masked)
      (fun talk canon => valid = true → BodyCanon masked canon talk) Rejects := by
  unfold Peers.canonOf BodyCanon
  split
  next both =>
    apply (tells_needed _ (.canonicalized masked) fun _ _ _ => id).mono
    rintro _ canon rfl _
    rw [if_neg both.2]
  next none_ =>
    apply tells_pure
    intro valid
    have empty : masked = [] := by
      by_contra filled
      exact none_ ⟨valid, filled⟩
    rw [if_pos empty]
    exact ⟨rfl, rfl⟩

theorem clientEvidence_tells (peers : Peers σ) (stdout : Text) :
    Tells peers.Gave (peers.clientEvidence stdout)
      (fun talk evidence => OutputKept stdout evidence talk) Rejects where
  ends s evidence t ran := by
    unfold Peers.clientEvidence at ran
    split at ran
    next looks =>
      simp only [OutputKept, if_pos looks]
      rcases given : peers.c14n (trimUnicode stdout) s with ⟨e | canon, r⟩
      · rw [given] at ran
        cases ran
        exact ⟨[.notCanonicalized (trimUnicode stdout) e], .cons given (.nil _), .inr ⟨rfl, e, rfl⟩⟩
      · rw [given] at ran
        cases ran
        exact ⟨[.canonicalized (trimUnicode stdout) evidence], .cons given (.nil _), .inl rfl⟩
    next plain =>
      simp only [OutputKept, if_neg plain]
      cases ran
      exact ⟨[], .nil _, rfl, rfl⟩
  stops s e t ran := by
    unfold Peers.clientEvidence at ran
    split at ran
    · rcases given : peers.c14n (trimUnicode stdout) s with ⟨e' | canon, r⟩ <;>
        · rw [given] at ran
          cases ran
    · cases ran

theorem getBytes_gave {url bytes : Text} {s t : σ} (given : peers.getBytes url s = (.ok bytes, t)) :
    peers.Gave (.got url (200, bytes)) s t := by
  obtain ⟨⟨status, body⟩, r, given, rest⟩ := Traced.bind_eq_ok.mp given
  split at rest
  next ok =>
    obtain ⟨same, rfl⟩ := Prod.mk.inj rest
    obtain rfl : body = bytes := Except.ok.inj same
    obtain rfl : status = 200 := ok
    exact given
  next => cases rest

/-! What it takes to pass. -/

theorem judgeScenario_tells (peers : Peers σ) (endpoints : Endpoints) (name : Text) :
    Tells peers.Gave (peers.judgeScenario endpoints name)
      (fun talk judged => judged.1.accepted = true → judged.1 = .pass ∧
      Compared peers endpoints name talk judged.2) Rejects := by
  refine (loadScenario_tells peers name).bind fun _ scenario loaded => ?_
  obtain ⟨toml, parsed, rfl⟩ := loaded
  refine (tells_needed _ (.read _) fun _ _ _ => id).bind fun _ request read => ?_
  refine (tells_needed _ (.posted _ _ _) fun _ _ _ => id).bind fun _ our asked => ?_
  refine (tells_needed _ (.posted _ _ _) fun _ _ _ => id).bind fun _ cxf asked' => ?_
  refine (tells_needed _ (.validated _ _) fun _ _ _ => id).bind fun _ ourEnvelope validated => ?_
  refine (tells_needed _ (.validated _ _) fun _ _ _ => id).bind fun _ cxfEnvelope validated' => ?_
  refine (validateBodyChild_tells peers ours scenario our.2).bind fun ourTalk ourChild child => ?_
  refine (validateBodyChild_tells peers cxfs scenario cxf.2).bind fun cxfTalk cxfChild child' => ?_
  refine (tells_masked _ _ _).bind fun _ ourMasked masked => ?_
  refine (tells_masked _ _ _).bind fun _ cxfMasked masked' => ?_
  refine (tells_needed _ (.canonicalized _) fun _ _ _ => id).bind fun _ ourCanon canon => ?_
  refine (tells_needed _ (.canonicalized _) fun _ _ _ => id).bind fun _ cxfCanon canon' => ?_
  split
  next => exact tells_fail rfl
  next expected =>
    split
    next verdict found => exact tells_fail (assertFault_rejects found)
    next fault =>
      apply tells_pure
      intro accepted
      obtain ⟨pass, text, mine, theirs⟩ := evaluate_accepted accepted
      obtain ⟨envelope, inner, rfl⟩ := side_ok mine
      obtain ⟨envelope', inner', rfl⟩ := side_ok theirs
      obtain ⟨rfl, masked⟩ := masked
      obtain ⟨rfl, masked'⟩ := masked'
      subst read asked asked' validated validated' canon canon'
      exact ⟨pass, ⟨toml, scenario, request, our, cxf, ourEnvelope, cxfEnvelope⟩,
        ⟨parsed, not_ne_iff.mp expected, envelope, envelope'⟩, fault, ourTalk, cxfTalk, ourMasked, cxfMasked,
        child inner, child' inner', masked, masked', rfl⟩

theorem judgeWssecScenario_tells (peers : Peers σ) (endpoints : Endpoints) (name : Text) :
    Tells peers.Gave (peers.judgeWssecScenario endpoints name)
      (fun talk judged => judged.1.accepted = true → judged.1 = .pass ∧
      Secured peers endpoints name talk judged.2) Rejects := by
  refine (loadScenario_tells peers name).bind fun _ scenario loaded => ?_
  obtain ⟨toml, parsed, rfl⟩ := loaded
  refine (tells_needed _ (.read _) fun _ _ _ => id).bind fun _ request read => ?_
  refine (tells_needed _ (.posted _ _ _) fun _ _ _ => id).bind fun _ our asked => ?_
  refine (tells_needed _ (.posted _ _ _) fun _ _ _ => id).bind fun _ cxf asked' => ?_
  refine (tells_needed _ (.validated _ _) fun _ _ _ => id).bind fun _ ourEnvelope validated => ?_
  refine (tells_needed _ (.validated _ _) fun _ _ _ => id).bind fun _ cxfEnvelope validated' => ?_
  refine (canonBody_tells peers ours ourEnvelope.valid our.2).bind fun _ ourMasked masked => ?_
  refine (canonBody_tells peers cxfs cxfEnvelope.valid cxf.2).bind fun _ cxfMasked masked' => ?_
  refine (canonOf_tells peers ours ourEnvelope.valid ourMasked).bind fun ourTalk ourCanon canon => ?_
  refine (canonOf_tells peers cxfs cxfEnvelope.valid cxfMasked).bind fun cxfTalk cxfCanon canon' => ?_
  split
  next => exact tells_fail rfl
  next expected =>
    apply tells_pure
    intro accepted
    obtain ⟨pass, valid, valid', mine, theirs, same⟩ := evaluateOutcomeEquivalence_accepted accepted
    obtain ⟨rfl, masked⟩ := masked
    obtain ⟨rfl, masked'⟩ := masked'
    subst read asked asked' validated validated'
    have outcomes : ∀ answer ∈ [our, cxf], (answer.1 = 200 ↔ scenario.outcome = .success) :=
      forall_both (decide_eq_decide.mp mine) (decide_eq_decide.mp theirs)
    refine ⟨pass, ⟨toml, scenario, request, our, cxf, ourEnvelope, cxfEnvelope⟩,
      ⟨parsed, not_ne_iff.mp expected, valid, valid'⟩, outcomes, ourMasked, cxfMasked, ourTalk, cxfTalk,
      cxfCanon, masked valid, masked' valid', canon valid, canon' valid', fun success => ?_, ?_⟩
    · exact (same (decide_eq_true success)).symm
    · rw [List.append_nil]
      rfl

theorem judgeRewrite_tells (peers : Peers σ) (endpoints : Endpoints) (multi : Bool) :
    Tells peers.Gave (peers.judgeRewrite endpoints multi)
      (fun talk judged => judged.1.accepted = true → judged.1 = .pass ∧
      Rewritten peers endpoints multi talk judged.2) Rejects := by
  refine (tells_needed _ (fun wsdl => .got _ (200, wsdl)) fun _ _ _ => getBytes_gave).bind
    fun _ wsdl served => ?_
  refine (tells_needed _ (.validated _ _) fun _ _ _ => id).bind fun _ validation validated => ?_
  subst served validated
  split
  next => exact tells_fail rfl
  next valid =>
    split
    next => exact tells_fail rfl
    next rewritten =>
      exact tells_pure fun _ => ⟨rfl, validation, by simpa using valid, rewritten, rfl⟩

theorem judgeClient_tells (peers : Peers σ) (client : InteropClient) :
    Tells peers.Gave (peers.judgeClient client) (fun talk judged => judged.1.accepted = true →
      judged.1 = .pass ∧ Driven client talk judged.2) Rejects := by
  refine (tells_needed _ (.ran _) fun _ _ _ => id).bind fun _ output ended => ?_
  subst ended
  split
  next => exact tells_fail rfl
  next =>
    split
    next => exact tells_fail rfl
    next zero =>
      refine (clientEvidence_tells peers output.stdout).bind fun kept evidence shape => ?_
      apply tells_pure
      intro _
      rw [List.append_nil]
      exact ⟨rfl, output, kept, not_ne_iff.mp zero, shape, rfl⟩

end SoapServer.Crossref
