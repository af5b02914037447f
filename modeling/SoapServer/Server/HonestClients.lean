import SoapServer.Dispatch.Verdicts
import SoapServer.Server.ConcurrentReplay
import SoapServer.Wssec.TokenInMessage

/-! Clients that keep to the protocol are served.

A client writes an envelope around its token and its body as it likes. Others that are served at the
same time cannot keep its request from its handler, unless they know a password and used the nonce
of its token before.
-/

set_option autoImplicit false

namespace SoapServer

open Markup

namespace Envelope.Message

variable (m : Message)

def headerTexts : List Text := m.headerParts.map fun el => (fragment (m.bindings m.headerTag) el).write

def bodyText : Text := (fragment (m.bindings m.body) m.first).write

/-- The key of the body element, with the namespace that is in scope where it stands. -/
def key : QName := expandedQName (elementName ((m.partScope m.body).enter m.first.tag.attributes)
    m.first.tag.name)

end Envelope.Message

namespace Server

open Wssec Wssec.RotatingNonceCache
open Xsd Dispatch
open Envelope (ParsedEnvelope Message fragment kept_allTags fragment_reads)
open CriticalSections (Task Event Run State ResultAt initial order inTurn)
open Loops (bind_eq_ok)

variable {H : Type} {ext : Externals} {svc : SoapService H} {call : Call H} {m : Message}
    {token : UsernameToken}
  {entry : DispatchEntry H} {authFn : AuthFn}

/-- What a client is answered with once a handler has returned. -/
def reply (ext : Externals) (version : SoapVersion) : Except SoapFault Text → Response
  | .ok bytes => ⟨200, responseContentType version, serializeEnvelope bytes version⟩
  | .error f => faultResponse ext f version

/-- The message was handed to the handler of the entry, and its result is the answer. -/
def handled (ext : Externals) (m : Message) (entry : DispatchEntry H)
    (respond : H → Text → List Text → Except SoapFault Text) : Answer H where
  response := some (reply ext m.version (respond entry.handler m.bodyText m.headerTexts))
  invoked := some ⟨entry, m.bodyText, m.headerTexts⟩

/-- The request is a message with a token that proves a password of the store, for an operation whose
required elements are there. -/
structure Honest (ext : Externals) (svc : SoapService H) (authFn : AuthFn) (call : Call H)
    (m : Message) (token : UsernameToken) (entry : DispatchEntry H) : Prop where
  reads : ext.xml.Reads call.request.body m.document
  extractable : Extractable m
  carries : ∃ attributes earlier later, Carries m token attributes earlier later
  announced : ∃ version, detectSoapVersion (call.request.contentType.getD []) = .ok version
  routed : ∃ table, call.table svc = some table ∧
    route table m.key (call.request.soapAction.map trimQuotes) = .ok entry
  filled : ∀ t, entry.validationType.bind svc.typeRegistry.lookup = some t →
    collectRequiredElementNames t ⊆ childNames m.first
  known : ∃ password, authFn token.username = some password ∧ token.Proves ext password

/-! The message on its way through the pipeline. -/

theorem kept_names (c : Content) :
    c.kept.elements.map (fun el => localName el.tag.name) =
      c.elements.map fun el => localName el.tag.name := by
  induction c with
  | nil => rfl
  | data d rest ih => cases d <;> exact ih
  | empty tag rest ih | element tag kids rest _ ih => exact congrArg (List.cons (localName tag.name)) ih

/-- The children of the fragment are those of its element. -/
theorem childNames_fragment (bindings : Scope) (el : Element) :
    (fragment bindings el).alone.coalesce.elements.map childNames = [childNames el] := by
  rcases el with ⟨tag, _ | kids⟩
  · rfl
  · simp only [fragment, Option.map_some, Element.alone, Content.coalesce, Content.elements,
      List.map_cons, List.map_nil,
      childNames, Content.elements_coalesce, List.map_map, Function.comp_def]
    rw [kept_names]

theorem validateRequest_message (lawful : ext.xml.Lawful) (extractable : Extractable m)
    {registry : TypeRegistry}
    {inputType : Option QName}
    (filled : ∀ t, inputType.bind registry.lookup = some t →
    collectRequiredElementNames t ⊆ childNames m.first) :
    validateRequest ext m.bodyText registry inputType = .ok () := by
  cases found : inputType.bind registry.lookup with
  | none => rw [validateRequest, found]
  | some t =>
    obtain ⟨q, rfl, known⟩ := Option.bind_eq_some_iff.mp found
    have member : (m.body, m.first) ∈ m.extracted := List.mem_append_right _ (.head _)
    have names := childNames_fragment (m.bindings m.body) m.first
    obtain ⟨root, rest, split⟩ := List.exists_cons_of_ne_nil
      (l := (fragment (m.bindings m.body) m.first).alone.coalesce.elements)
      (fun none_ => by rw [none_] at names; cases names)
    rw [split, List.map_cons, List.cons.injEq, List.map_eq_nil_iff] at names
    have document : OneRoot ext.xml m.bodyText root :=
      ⟨_, fragment_reads lawful extractable.sound extractable.quotes member, by rw [split, names.2]⟩
    rw [validateRequest_document lawful document known, verdict_eq_ok, names.1]
    exact filled t found

theorem proceed_valid {envelope : ParsedEnvelope}
    {respond : H → Text → List Text → Except SoapFault Text}
    (parsed : envelope = ⟨m.version, m.headerTexts, m.bodyText⟩)
    (valid : validateRequest ext m.bodyText svc.typeRegistry entry.validationType = .ok ()) :
    proceed ext svc envelope entry respond = handled ext m entry respond := by
  subst parsed
  simp only [proceed, valid, handled]
  cases respond entry.handler m.bodyText m.headerTexts <;> rfl

namespace Honest

variable (honest : Honest ext svc authFn call m token entry)

include honest

theorem request (lawful : ext.xml.Lawful) : ∃ table, call.table svc = some table ∧
    routeRequest ext table call.request = .ok (⟨m.version, m.headerTexts, m.bodyText⟩, entry) := by
  obtain ⟨table, reached, routed⟩ := honest.routed
  obtain ⟨version, announced⟩ := honest.announced
  have parsed := honest.extractable.parses lawful honest.reads
  have member : (m.body, m.first) ∈ m.extracted := List.mem_append_right _ (.head _)
  have key := honest.extractable.root lawful member
  refine ⟨table, reached, bind_eq_ok.mpr
    ⟨version, by rw [announced]; rfl, bind_eq_ok.mpr ⟨_, by rw [parsed]; rfl, ?_⟩⟩⟩
  refine bind_eq_ok.mpr ⟨m.key, ?_, bind_eq_ok.mpr ⟨entry, by rw [routed]; rfl, rfl⟩⟩
  exact congrArg (inVersion m.version) key

/-- Served with a fresh token whose nonce is in no bucket, the message reaches its handler. -/
theorem served (lawful : ext.xml.Lawful) (auth : svc.authFn = some authFn) {clock : Clock}
    {cache after : RotatingNonceCache} {answer : Answer H}
    (fresh : token.Fresh ext svc.timestampToleranceSecs clock.now)
    (unseen : ∀ nonce, token.nonce = some nonce → 0 < cache.halfWindowSecs ∧
    ¬ (cache.rotated clock.instant).contains nonce)
    (done : (call.task ext svc).alone clock cache = some (answer, after)) :
    answer = handled ext m entry call.respond := by
  obtain ⟨table, reached, routed⟩ := honest.request lawful
  obtain ⟨attributes, earlier, later, carries⟩ := honest.carries
  obtain ⟨password, known, proves⟩ := honest.known
  have authenticated := authenticate_ok_iff.mpr
    ⟨carries.parsed honest.extractable lawful, password, known, proves, fresh⟩
  have accepted := validateUsernameToken_ok_iff.mpr ⟨token, authenticated, rfl, unseen⟩
  -- the gate lets the message pass, whether it asks for a token or not
  obtain ⟨left, passed⟩ : ∃ left, authorize ext svc entry m.headerTexts cache
    (call.arriving clock).moment = (.ok (), left) := by
    cases required : entry.authRequired with
    | false => exact ⟨cache, if_neg fun both => by rw [required] at both; cases both.1⟩
    | true =>
      rcases authorize_required ext cache m.headerTexts (call.arriving clock).moment required auth with
        ⟨missing, _⟩ | ⟨securityBytes, found, step⟩
      · cases missing.symm.trans (carries.found honest.extractable lawful)
      · obtain rfl := Option.some.inj (found.symm.trans (carries.found honest.extractable lawful))
        refine ⟨_, step.trans (Prod.ext ?_ rfl)⟩
        exact congrArg (Except.map fun _ => ()) accepted
  have same := (task_alone done).1
  rw [serve_eq, reached] at same
  rw [← same, (postHandler_answer routed passed).1]
  exact proceed_valid rfl (validateRequest_message lawful honest.extractable honest.filled)

end Honest

/-! Runs. -/

/-- The call has a token with this nonce that proves a password of the store. -/
def Call.Vouches (ext : Externals) (svc : SoapService H) (call : Call H) (nonce : Text) : Prop :=
  ∃ securityBytes authFn token password, call.credentials ext svc = some (securityBytes, authFn) ∧
    parseUsernameToken ext securityBytes = .ok token ∧ token.nonce = some nonce ∧
    authFn token.username = some password ∧ token.Proves ext password

theorem check_vouches {clock : Clock} {check : Check}
    (comes : call.check ext svc clock = some check) :
    call.Vouches ext svc check.nonce ∧ check.instant = clock.instant := by
  obtain ⟨⟨securityBytes, authFn⟩, guarded, comes⟩ := Option.bind_eq_some_iff.mp comes
  obtain ⟨token, passed, comes⟩ := Option.bind_eq_some_iff.mp comes
  obtain ⟨nonce, hasNonce, same⟩ := Option.bind_eq_some_iff.mp comes
  obtain rfl := Option.some.inj same
  cases authenticated : authenticate ext securityBytes authFn svc.timestampToleranceSecs clock.now with
  | error e =>
    rw [authenticated] at passed
    cases passed
  | ok other =>
    rw [authenticated] at passed
    obtain rfl := Option.some.inj passed
    obtain ⟨parsed, password, known, proves, _⟩ := authenticate_ok_iff.mp authenticated
    exact ⟨⟨securityBytes, authFn, other, password, guarded, parsed, hasNonce, known, proves⟩, rfl⟩

section Runs

variable {ι : Type} {calls : ι → Call H} {turns before : List (ι × Clock)}

theorem checks_instants (ext : Externals) (svc : SoapService H) (calls : ι → Call H)
    (turns : List (ι × Clock)) :
    ((checks ext svc calls turns).map (·.instant)).Sublist (turns.map fun turn => turn.2.instant) := by
  induction turns with
  | nil => exact .slnil
  | cons turn rest ih =>
    simp only [checks, List.filterMap_cons]
    cases comes : (calls turn.1).check ext svc turn.2 with
    | none => exact ih.cons _
    | some check =>
      rw [List.map_cons, List.map_cons, (check_vouches comes).2]
      exact ih.cons_cons _

/-- A nonce that is held was presented before, with a password, no more than a window ago. -/
theorem held_vouched (positive : 0 < svc.nonceCache.halfWindowSecs)
    (empty : ∀ n, ¬ svc.nonceCache.contains n)
    (times : (svc.nonceCache.bucketStart :: before.map fun turn => turn.2.instant).Pairwise (· ≤ ·))
    {found : RotatingNonceCache}
    (reached : inTurn (fun i => (calls i).task ext svc) svc.nonceCache before = some found)
    {instant : Nat} {nonce : Text} (held : (found.rotated instant).contains nonce) :
    ∃ turn ∈ before, (calls turn.1).Vouches ext svc nonce ∧
      instant < turn.2.instant + 2 * svc.nonceCache.width := by
  have timely : Timely svc.nonceCache.bucketStart (checks ext svc calls before) :=
    times.sublist ((checks_instants ext svc calls before).cons_cons _)
  have accounted := (afterChecks_accounted positive empty timely).rotated instant
  obtain ⟨half, _⟩ := afterChecks_settings positive (checks ext svc calls before)
  rw [← inTurn_checks reached] at accounted half
  have width : found.width = svc.nonceCache.width := by
    rw [RotatingNonceCache.width, half]
    rfl
  have same : (found.rotated instant).width = found.width := by
    rw [RotatingNonceCache.width, rotated_halfWindowSecs]
    rfl
  obtain ⟨t, ⟨earlier, check, later, split, _, rfl, rfl⟩, recent⟩ :=
    accounted.recent (by rw [same]; exact lt_rotated_bucketStart (half ▸ positive)) held
  have member : check ∈ checks ext svc calls before := split ▸ List.mem_append_right _ (.head _)
  obtain ⟨turn, among, comes⟩ := List.mem_filterMap.mp member
  obtain ⟨vouches, when⟩ := check_vouches comes
  rw [same, width, when] at recent
  exact ⟨turn, among, vouches, recent⟩

/-- In every run of requests that are served at the same time, a message of an honest client that is
answered and was fresh when its token was checked has reached its handler: unless another request,
with a password, had used its nonce within the window of the cache. -/
theorem honest_client_served [DecidableEq ι] (lawful : ext.xml.Lawful) {host : Host} {fuel : Nat}
    {builder : ServerBuilder H} (built : build host fuel builder = .ok svc)
    (auth : builder.authFn = some authFn)
    (positive : 0 < builder.nonceCacheHalfWindowSecs) {since : Clock}
    (started : host.started ≤ since.instant)
    {events : List (Event ι Clock)} {s : State ι RotatingNonceCache Clock (Answer H)}
    (run : Run (fun i => (calls i).task ext svc) (initial svc.nonceCache since) events s) {i : ι}
    {answer : Answer H}
    (got : (s.stage i).result = some answer)
    (honest : Honest ext svc authFn (calls i) m token entry) :
    ∃ before clock after, order since events = before ++ (i, clock) :: after ∧
      (token.Fresh ext svc.timestampToleranceSecs clock.now →
        answer = handled ext m entry (calls i).respond ∨
        ∃ turn ∈ before, turn.1 ≠ i ∧
          (∃ nonce, token.nonce = some nonce ∧ (calls turn.1).Vouches ext svc nonce) ∧
          clock.instant < turn.2.instant + 2 * (nanosPerSec * builder.nonceCacheHalfWindowSecs)) := by
  obtain ⟨nodup, times, _, results, _⟩ := CriticalSections.linearizable run
  obtain ⟨before, clock, after, found, left, split, reached, done⟩ := results i answer got
  obtain ⟨cache, _⟩ := build_settings built
  obtain ⟨_, _, sameAuth, _⟩ := build_eq_ok built
  refine ⟨before, clock, after, split, fun fresh => ?_⟩
  have positive' : 0 < svc.nonceCache.halfWindowSecs := by
    rw [cache]
    exact positive
  -- the token was checked in turn, on the cache that the turns before it left
  by_cases unseen : ∀ nonce, token.nonce = some nonce → ¬ (found.rotated clock.instant).contains nonce
  · left
    have half : 0 < found.halfWindowSecs := by
      rw [inTurn_checks reached, (afterChecks_settings positive' (checks ext svc calls before)).1]
      exact positive'
    exact honest.served lawful (sameAuth.trans auth) fresh
      (fun nonce hasNonce => ⟨half, unseen nonce hasNonce⟩) done
  · right
    push Not at unseen
    obtain ⟨nonce, hasNonce, held⟩ := unseen
    -- the cache is empty when the service is built, so somebody has put the nonce in
    have empty : ∀ n, ¬ svc.nonceCache.contains n := by
      rw [cache]
      intro n contains
      rcases contains with member | member
      · exact absurd member (Finset.notMem_empty n)
      · exact absurd member (Finset.notMem_empty n)
    have instants : (svc.nonceCache.bucketStart :: before.map fun turn => turn.2.instant).Pairwise
        (· ≤ ·) := by
      have all := times.map Clock.instant fun _ _ later => later
      rw [split, List.map_cons, List.map_map, List.map_append] at all
      obtain ⟨later, ordered⟩ := List.pairwise_cons.mp all
      refine List.pairwise_cons.mpr ⟨fun t member => ?_, (List.pairwise_append.mp ordered).1⟩
      rw [cache]
      exact started.trans (later t (List.mem_append_left _ member))
    obtain ⟨turn, member, vouches, recent⟩ := held_vouched positive' empty instants reached held
    refine ⟨turn, member, ?_, ⟨nonce, hasNonce, vouches⟩, ?_⟩
    · -- a request is checked once
      rintro rfl
      rw [split, List.map_append, List.map_cons] at nodup
      exact (List.nodup_append.mp nodup).2.2 turn.1 (List.mem_map_of_mem member) turn.1 (.head _) rfl
    · rw [cache] at recent
      exact recent

end Runs

/-! The call of `Ping` as a message of a client. -/

def pingEnvelope : Tag := ⟨"s:Envelope".toList, [⟨"xmlns:s".toList, Envelope.soap11Ns⟩]⟩

def pingToken : UsernameToken := digestToken vectorNonce

def pingHeader : Element :=
  ⟨⟨"s:Header".toList, []⟩, some (pingToken.element securityTag.attributes).alone⟩

def pingFirst : Element := ⟨⟨"Ping".toList, [⟨"xmlns".toList, "urn:a".toList⟩]⟩, none⟩

def pingMessage : Message where
  version := .soap11
  prolog := .nil
  envelope := pingEnvelope
  kids := .element ⟨"s:Header".toList, []⟩ (pingToken.element securityTag.attributes).alone
    (.element ⟨"s:Body".toList, []⟩ pingFirst.alone .nil)
  epilog := .nil
  header := some pingHeader
  body := ⟨"s:Body".toList, []⟩
  bodyKids := pingFirst.alone
  first := pingFirst
  bare := Content.elements_nil
  named := by decide +kernel
  headers := by decide +kernel
  bodies := by decide +kernel
  firstChild := rfl

theorem pingMessage_extractable : Extractable pingMessage where
  sound := by decide +kernel
  quotes := by
    refine Message.forall_extracted.mpr
      ⟨fun el member => ?_, Envelope.alone_allTags.mp (by decide +kernel)⟩
    obtain rfl := List.mem_singleton.mp member
    exact Envelope.alone_allTags.mp (by decide +kernel)
  -- neither part declares a prefix
  declaredOnce := by
    refine Message.forall_extracted.mpr ⟨fun el _ p _ inHeader => ?_, fun p _ inBody => ?_⟩
    · cases inHeader
    · cases inBody

theorem pingMessage_carries : Carries pingMessage pingToken securityTag.attributes [] [] where
  parts := rfl
  first := fun _ absent => by cases absent
  wsse := by decide +kernel
  wsu := by decide +kernel
  plain := digestToken_plain vectorNonce_plain

theorem pingMessage_reads : Markup.scanner.Reads pingRequest.body pingMessage.document := by
  have written := Markup.scanner_lawful.written_tag (c := pingMessage.document) (by decide +kernel) (by decide +kernel)
  have same : pingMessage.document.write = pingRequest.body ∧ pingMessage.document.coalesce =
      pingMessage.document := by
    decide +kernel
  rwa [same.1, same.2] at written

/-- The entry of `Ping`, if its required elements are in the message. -/
def pingEntry (svc : SoapService Text) : Option (DispatchEntry Text) := do
  let entry ← (route svc.dispatchTable pingMessage.key none).toOption
  if (entry.validationType.bind svc.typeRegistry.lookup).all fun t =>
    collectRequiredElementNames t ⊆ childNames pingFirst
  then some entry else none

theorem pings_honest {svc : SoapService Text} (built : build pingHost 1 pingBuilder = .ok svc) :
    ∃ entry, Honest vector svc adminOnly (pings true) pingMessage pingToken entry := by
  have some_ : ((build pingHost 1 pingBuilder).toOption.bind pingEntry).isSome = true :=
    by decide +kernel
  rw [built, Except.toOption, Option.bind_some] at some_
  obtain ⟨entry, found⟩ := Option.isSome_iff_exists.mp some_
  obtain ⟨other, routed, found⟩ := Option.bind_eq_some_iff.mp found
  obtain ⟨filled, same⟩ := Option.ite_none_right_eq_some.mp found
  obtain rfl := Option.some.inj same
  refine ⟨other, pingMessage_reads, pingMessage_extractable, ⟨_, _, _, pingMessage_carries⟩,
    ⟨.soap11, by decide +kernel⟩,
    ⟨svc.dispatchTable, rfl, ?_⟩, fun t known => ?_, vectorPassword, by decide +kernel, vectorNonce,
      vectorCreated, rfl, rfl, ?_⟩
  · cases reached : route svc.dispatchTable pingMessage.key none with
    | error e => rw [reached] at routed; cases routed
    | ok entry' =>
      rw [reached] at routed
      exact (Option.some.inj routed) ▸ reached
  · rw [known] at filled
    exact of_decide_eq_true filled
  · rw [computeDigest, vectorNonce_decoded]
    rfl

theorem ping_honestly_served : ∃ svc entry s answer, build pingHost 1 pingBuilder = .ok svc ∧
    Run (fun i => (pings i).task vector svc) (initial svc.nonceCache pingClock)
      [.arrive true, .enter true, .use true] s ∧
    (s.stage true).result = some answer ∧
    ∃ before clock after, order pingClock [.arrive true, .enter true, .use true] =
      before ++ (true, clock) :: after ∧
      (pingToken.Fresh vector svc.timestampToleranceSecs clock.now →
        answer = handled vector pingMessage entry (pings true).respond ∨
        ∃ turn ∈ before, turn.1 ≠ true ∧
          (∃ nonce, pingToken.nonce = some nonce ∧ (pings turn.1).Vouches vector svc nonce) ∧
          clock.instant < turn.2.instant + 2 * (nanosPerSec * pingBuilder.nonceCacheHalfWindowSecs)) := by
  obtain ⟨svc, built⟩ := pingService_built
  obtain ⟨entry, honest⟩ := pings_honest built
  obtain ⟨access, wants⟩ := pings_use built
  obtain ⟨answer, cache, _, _, first, _⟩ := pings_checked built pings_once
  rw [wants] at first
  have start : Run (fun i => (pings i).task vector svc) (initial svc.nonceCache pingClock) [] _ :=
    .nil
  have run := ((start.snoc (.arrive (i := true) rfl)).snoc (.enter (i := true) rfl (wants true) rfl)).snoc
    (.use (i := true) rfl (wants true) first)
  exact ⟨svc, entry, _, answer, built, run, rfl,
    honest_client_served Markup.scanner_lawful built rfl (by decide)
    (by decide) run rfl honest⟩

end Server

end SoapServer
