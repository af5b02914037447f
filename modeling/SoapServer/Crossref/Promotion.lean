import SoapServer.Crossref.Agreement
import SoapServer.PieceScanner

/-! Which snapshots become verified.

A run judges its scenarios one after the other and promotes those that pass. Whatever the servers, the
oracle and the disk do in between, a name becomes verified only for answers that agree, which were given
when the run had come to the name, and they are its evidence.
-/

set_option autoImplicit false

namespace SoapServer.Crossref

open Markup hiding localName
open Maps
open Traced (Passage Tells Yields)

/-! Runs of the harness. -/

def wssecScenarios : List Text :=
  ["wssec_digest_success".toList, "wssec_bad_password".toList, "wssec_wrong_username".toList,
    "wssec_missing_auth".toList, "wssec_stale_timestamp".toList]

def wsdlRewriteScenarios : List Text := ["wsdl_rewrite_single".toList, "wsdl_rewrite_multi".toList]

def inScope : List Text :=
  ["op_echo_success".toList, "op_echo_missing_required".toList, "op_echo_empty_text".toList,
    "op_echo_special_chars".toList, "doc_literal_named_present".toList,
    "doc_literal_named_missing".toList, "ns_on_envelope".toList, "ns_on_header".toList,
    "ns_on_body".toList, "ns_on_operation".toList, "ns_on_nested_payload".toList,
    "ns_prefix_shadowing".toList, "soap11_echo_success".toList, "soap11_fault".toList,
    "soap11_named_present".toList] ++ wssecScenarios ++ wsdlRewriteScenarios ++ ["raw_xml_child".toList]

def clients : List InteropClient :=
  [⟨"cxf-client".toList, "interop_cxf_echo".toList⟩, ⟨"zeep-client".toList, "interop_zeep_echo".toList⟩]

structure Report where
  rows : List (Text × Verdict)
  unverifiedRemaining : Nat

def Report.isGreen (report : Report) : Bool := report.rows.all fun row => row.2.accepted

def Report.failCount (report : Report) : Nat := report.rows.countP fun row => !row.2.accepted

variable {σ : Type}

/-- A scenario by name, and how it is judged. -/
structure Task (σ : Type) where
  name : Text
  judge : Traced σ Verdict (Verdict × Text)

/-- A scenario that passes is promoted, if that is asked for. A promotion that fails changes no verdict. -/
def Task.run (disk : Disk σ) (promoteOnPass : Bool) (task : Task σ) (s : σ × SnapshotStore) :
    Verdict × σ × SnapshotStore :=
  match task.judge s.1 with
  | (.error verdict, world) => (verdict, world, s.2)
  | (.ok judged, world) =>
    if judged.1 = .pass ∧ promoteOnPass then (judged.1, (disk.promote task.name judged.2 (world, s.2)).2)
    else (judged.1, world, s.2)

def runTasks (disk : Disk σ) (promoteOnPass : Bool) :
    List (Task σ) → σ × SnapshotStore → List (Text × Verdict) × σ × SnapshotStore
  | [], s => ([], s)
  | task :: rest, s =>
    let done := task.run disk promoteOnPass s
    let later := runTasks disk promoteOnPass rest done.2
    ((task.name, done.1) :: later.1, later.2)

structure Options where
  promote : Bool
  scenarios : Option (List Text)
  interop : Bool

namespace Peers

variable (peers : Peers σ) (endpoints : Endpoints)

def scenarioTask (name : Text) : Task σ where
  name := name
  judge :=
    if name ∈ wsdlRewriteScenarios then peers.judgeWsdlRewriteScenario endpoints name
    else if name ∈ wssecScenarios then peers.judgeWssecScenario endpoints name
    else peers.judgeScenario endpoints name

def clientTask (client : InteropClient) : Task σ := ⟨client.scenario, peers.judgeClient client⟩

/-- The scenarios that are not filtered out. -/
def scenarioTasks (filter : Option (List Text)) : List (Task σ) :=
  (inScope.filter fun name => filter.all fun names => name ∈ names).map (peers.scenarioTask endpoints)

def run (promoteOnPass : Bool) (filter : Option (List Text)) (s : σ × SnapshotStore) :
    Report × σ × SnapshotStore :=
  let ran := runTasks peers.disk promoteOnPass (peers.scenarioTasks endpoints filter) s
  match peers.disk.unverifiedCount ran.2 with
  | (.ok n, after) => (⟨ran.1, n⟩, after)
  | (.error _, after) => (⟨ran.1, 0⟩, after)

def runInterop (promoteOnPass : Bool) (s : σ × SnapshotStore) :
    List (Text × Verdict) × σ × SnapshotStore :=
  runTasks peers.disk promoteOnPass (clients.map peers.clientTask) s

/-- The program, with the rows of the clients behind those of the scenarios. -/
def layer2 (options : Options) (s : σ × SnapshotStore) : Report × σ × SnapshotStore :=
  let conformance := peers.run endpoints options.promote options.scenarios s
  if options.interop then
    let interop := peers.runInterop options.promote conformance.2
    ({ conformance.1 with rows := conformance.1.rows ++ interop.1 }, interop.2)
  else conformance

end Peers

/-! What one scenario does. -/

/-- No verdict but a pass is accepted. -/
abbrev Task.Strict (task : Task σ) : Prop :=
  Yields task.judge (fun judged => judged.1.accepted = true → judged.1 = .pass) Rejects

/-- A run of tasks comes to a task in this state. -/
inductive ComesTo (disk : Disk σ) (promoteOnPass : Bool) :
    List (Task σ) → σ × SnapshotStore → Task σ → σ → Prop
  | here {task : Task σ} {rest : List (Task σ)} {s : σ × SnapshotStore} :
    ComesTo disk promoteOnPass (task :: rest) s task s.1
  | later {task other : Task σ} {rest : List (Task σ)} {s : σ × SnapshotStore} {world : σ}
    (comes : ComesTo disk promoteOnPass rest (task.run disk promoteOnPass s).2 other world) :
    ComesTo disk promoteOnPass (task :: rest) s other world

variable {disk : Disk σ} {promoteOnPass : Bool} {task : Task σ} {s : σ × SnapshotStore}

/-- A task leaves the store alone, or it passes and is promoted. -/
theorem Task.run_cases (strict : task.Strict) (disk : Disk σ) (promoteOnPass : Bool)
    (s : σ × SnapshotStore) :
    ((task.run disk promoteOnPass s).2.2 = s.2 ∧
        ((task.run disk promoteOnPass s).1.accepted = true → (task.run disk promoteOnPass s).1 = .pass ∧
          promoteOnPass = false)) ∨
      ((task.run disk promoteOnPass s).1 = .pass ∧ promoteOnPass = true ∧ ∃ evidence world,
        task.judge s.1 = (.ok (.pass, evidence), world) ∧
          (task.run disk promoteOnPass s).2.2 = (disk.promote task.name evidence (world, s.2)).2.2) := by
  unfold run
  rcases judged : task.judge s.1 with ⟨verdict | ⟨verdict, evidence⟩, world⟩
  · refine .inl ⟨rfl, fun accepted => ?_⟩
    rw [show verdict.accepted = false from strict.stops _ _ _ judged] at accepted
    cases accepted
  · by_cases promoted : verdict = .pass ∧ promoteOnPass = true
    · obtain ⟨rfl, on⟩ := promoted
      simp only [on, and_self, if_true]
      exact .inr ⟨trivial, trivial, evidence, world, rfl, rfl⟩
    · simp only [if_neg promoted]
      refine .inl ⟨trivial, fun accepted => ?_⟩
      have pass := strict.ends _ (verdict, evidence) _ judged accepted
      exact ⟨pass, Bool.eq_false_iff.mpr fun on => promoted ⟨pass, on⟩⟩

/-! What a list of tasks does. -/

/-- A name that became verified in a run has passed when the run came to it, and what it passed with is its
evidence. -/
structure Justified (tasks : List (Task σ)) (comes : Task σ → σ → Prop) (promoteOnPass : Bool)
    (rows : List (Text × Verdict)) (before after : SnapshotStore) : Prop where
  snapshots : after.snapshots = before.snapshots
  untouched : promoteOnPass = false → after = before
  others : ∀ name, name ∉ tasks.map Task.name → after.readCanonical name = before.readCanonical name
  verified : ∀ name, after.status name = some .verified → before.status name = some .verified ∨
    promoteOnPass = true ∧ (name, Verdict.pass) ∈ rows ∧
      ∃ evidence, after.readCanonical name = some evidence ∧ ∃ task ∈ tasks, task.name = name ∧
        ∃ world world', comes task world ∧ task.judge world = (.ok (.pass, evidence), world')

theorem Justified.nil (comes : Task σ → σ → Prop) (promoteOnPass : Bool) (store : SnapshotStore) :
    Justified [] comes promoteOnPass [] store store :=
  ⟨rfl, fun _ => rfl, fun _ _ => rfl, fun _ verified => .inl verified⟩

/-- Runs with different names one after the other. -/
theorem Justified.append {first second : List (Task σ)} {comes comes' : Task σ → σ → Prop}
    {rows rows' : List (Text × Verdict)} {before middle after : SnapshotStore}
    (apart : ∀ task ∈ first, task.name ∉ second.map Task.name)
    (left : Justified first comes promoteOnPass rows before middle)
    (right : Justified second comes' promoteOnPass rows' middle after) :
    Justified (first ++ second) (fun task world => comes task world ∨ comes' task world) promoteOnPass
      (rows ++ rows') before after where
  snapshots := right.snapshots.trans left.snapshots
  untouched off := (right.untouched off).trans (left.untouched off)
  others name absent := by
    rw [List.map_append, List.mem_append, not_or] at absent
    exact (right.others name absent.2).trans (left.others name absent.1)
  verified name verified := by
    rcases right.verified name verified with
      earlier | ⟨on, passed, evidence, kept, task, member, named, world, left', came, judged⟩
    · rcases left.verified name earlier with
        earliest | ⟨on, passed, evidence, kept, task, member, named, world, left', came, judged⟩
      · exact .inl earliest
      -- its evidence is not written again
      · refine .inr ⟨on, List.mem_append_left _ passed, evidence, ?_, task,
          List.mem_append_left _ member, named, world, left', .inl came, judged⟩
        rw [right.others name (named ▸ apart task member)]
        exact kept
    · exact .inr ⟨on, List.mem_append_right _ passed, evidence, kept, task,
        List.mem_append_right _ member, named, world, left', .inr came, judged⟩

theorem Justified.mono {tasks : List (Task σ)} {comes comes' : Task σ → σ → Prop}
    {rows : List (Text × Verdict)} {before after : SnapshotStore}
    (justified : Justified tasks comes promoteOnPass rows before after)
    (wider : ∀ task world, comes task world → comes' task world) :
    Justified tasks comes' promoteOnPass rows before after where
  snapshots := justified.snapshots
  untouched := justified.untouched
  others := justified.others
  verified name verified := by
    apply (justified.verified name verified).imp_right
    rintro ⟨on, passed, evidence, kept, task, member, named, world, left, came, judged⟩
    exact ⟨on, passed, evidence, kept, task, member, named, world, left, wider task world came,
      judged⟩

theorem Task.run_justified (strict : task.Strict) (disk : Disk σ) (promoteOnPass : Bool)
    (s : σ × SnapshotStore) :
    Justified [task] (ComesTo disk promoteOnPass [task] s) promoteOnPass
      [(task.name, (task.run disk promoteOnPass s).1)] s.2 (task.run disk promoteOnPass s).2.2 := by
  rcases task.run_cases strict disk promoteOnPass s with
    ⟨same, _⟩ | ⟨pass, on, evidence, world, judged, stored⟩
  · rw [same]
    exact ⟨rfl, fun _ => rfl, fun _ _ => rfl, fun _ verified => .inl verified⟩
  · have promoted := disk.promote_promoted task.name evidence (world, s.2)
    rw [stored, pass]
    refine ⟨promoted.snapshots, fun off => ?_, fun name absent => ?_, fun name verified => ?_⟩
    · rw [off] at on
      cases on
    · exact promoted.others name fun same => absent (by rw [same]; exact .head _)
    · rcases promoted.verified name verified with ⟨rfl, kept⟩ | earlier
      · exact .inr ⟨on, .head _, evidence, kept, task, .head _, rfl, s.1, world, .here, judged⟩
      · exact .inl earlier

theorem runTasks_justified {tasks : List (Task σ)} (strict : ∀ task ∈ tasks, task.Strict)
    (nodup : (tasks.map Task.name).Nodup) (disk : Disk σ) (promoteOnPass : Bool)
    (s : σ × SnapshotStore) :
    Justified tasks (ComesTo disk promoteOnPass tasks s) promoteOnPass
      (runTasks disk promoteOnPass tasks s).1 s.2 (runTasks disk promoteOnPass tasks s).2.2 := by
  induction tasks generalizing s with
  | nil => exact .nil _ promoteOnPass s.2
  | cons task rest ih =>
    obtain ⟨fresh, nodup⟩ := List.nodup_cons.mp nodup
    have first := task.run_justified (strict task (.head _)) disk promoteOnPass s
    have later := ih (fun other member => strict other (.tail _ member)) nodup
      (task.run disk promoteOnPass s).2
    have both := first.append (fun other member => List.mem_singleton.mp member ▸ fresh) later
    apply both.mono
    rintro other world (here | comes)
    · cases here with
      | here => exact .here
      | later none_ => cases none_
    · exact .later comes

theorem runTasks_names (disk : Disk σ) (promoteOnPass : Bool) (tasks : List (Task σ))
    (s : σ × SnapshotStore) :
    (runTasks disk promoteOnPass tasks s).1.map Prod.fst = tasks.map Task.name := by
  induction tasks generalizing s with
  | nil => rfl
  | cons task rest ih => exact congrArg (task.name :: ·) (ih _)

/-! The program. -/

/-- What was asked and replied about a name earns it its evidence, by the kind of its scenario. -/
inductive Earned (peers : Peers σ) (endpoints : Endpoints) : Text → List Exchange → Text → Prop
  | compared {name evidence : Text} {talk : List Exchange}
    (kind : name ∉ wssecScenarios ++ wsdlRewriteScenarios ++ clients.map InteropClient.scenario)
    (shown : Compared peers endpoints name talk evidence) : Earned peers endpoints name talk evidence
  | secured {name evidence : Text} {talk : List Exchange} (kind : name ∈ wssecScenarios)
    (shown : Secured peers endpoints name talk evidence) : Earned peers endpoints name talk evidence
  | rewrittenSingle {evidence : Text} {talk : List Exchange}
    (shown : Rewritten peers endpoints false talk evidence) :
    Earned peers endpoints "wsdl_rewrite_single".toList talk evidence
  | rewrittenMulti {evidence : Text} {talk : List Exchange}
    (shown : Rewritten peers endpoints true talk evidence) :
    Earned peers endpoints "wsdl_rewrite_multi".toList talk evidence
  | driven {client : InteropClient} {evidence : Text} {talk : List Exchange} (kind : client ∈ clients)
    (shown : Driven client talk evidence) : Earned peers endpoints client.scenario talk evidence

variable {peers : Peers σ} {endpoints : Endpoints}

theorem inScope_noClient : ∀ name ∈ inScope, name ∉ clients.map InteropClient.scenario := by
  decide +kernel

theorem scenarioTask_tells (peers : Peers σ) (endpoints : Endpoints) {name : Text}
    (member : name ∈ inScope) :
    Tells peers.Gave (peers.scenarioTask endpoints name).judge
      (fun talk judged => judged.1.accepted = true → judged.1 = .pass ∧
      Earned peers endpoints name talk judged.2) Rejects := by
  unfold Peers.scenarioTask
  split
  next =>
    unfold Peers.judgeWsdlRewriteScenario
    split
    next single =>
      subst single
      exact (judgeRewrite_tells peers endpoints false).mono fun _ _ shown accepted =>
        ⟨(shown accepted).1, .rewrittenSingle (shown accepted).2⟩
    next =>
      split
      next multi =>
        subst multi
        exact (judgeRewrite_tells peers endpoints true).mono fun _ _ shown accepted =>
          ⟨(shown accepted).1, .rewrittenMulti (shown accepted).2⟩
      next => exact tells_fail rfl
  next noRewrite =>
    split
    next kind =>
      exact (judgeWssecScenario_tells peers endpoints name).mono fun _ _ shown accepted =>
        ⟨(shown accepted).1, .secured kind (shown accepted).2⟩
    next noToken =>
      -- what is left has neither a token nor a rewritten address, and no client of its own
      have kind : name ∉ wssecScenarios ++ wsdlRewriteScenarios ++ clients.map InteropClient.scenario := by
        simp only [List.mem_append, not_or]
        exact ⟨⟨noToken, noRewrite⟩, inScope_noClient name member⟩
      exact (judgeScenario_tells peers endpoints name).mono fun _ _ shown accepted =>
        ⟨(shown accepted).1, .compared kind (shown accepted).2⟩

theorem clientTask_tells (peers : Peers σ) (endpoints : Endpoints) {client : InteropClient}
    (kind : client ∈ clients) :
    Tells peers.Gave (peers.clientTask client).judge (fun talk judged => judged.1.accepted = true →
      judged.1 = .pass ∧ Earned peers endpoints client.scenario talk judged.2) Rejects :=
  (judgeClient_tells peers client).mono fun _ _ shown accepted =>
    ⟨(shown accepted).1, .driven kind (shown accepted).2⟩

/-- The tasks of the program, in their order. -/
def Peers.tasks (peers : Peers σ) (endpoints : Endpoints) (options : Options) : List (Task σ) :=
  peers.scenarioTasks endpoints options.scenarios ++ if options.interop
    then clients.map peers.clientTask else []

theorem tasks_tell {options : Options} {task : Task σ}
    (member : task ∈ peers.tasks endpoints options) :
    Tells peers.Gave task.judge (fun talk judged => judged.1.accepted = true → judged.1 = .pass ∧
      Earned peers endpoints task.name talk judged.2) Rejects := by
  rcases List.mem_append.mp member with scenario | interop
  · obtain ⟨name, among, rfl⟩ := List.mem_map.mp scenario
    exact scenarioTask_tells peers endpoints (List.mem_filter.mp among).1
  · split at interop
    · obtain ⟨client, kind, rfl⟩ := List.mem_map.mp interop
      exact clientTask_tells peers endpoints kind
    · cases interop

theorem tasks_strict (peers : Peers σ) (endpoints : Endpoints) (options : Options) :
    ∀ task ∈ peers.tasks endpoints options, task.Strict :=
  fun _ member => (tasks_tell member).yields fun _ _ shown accepted => (shown accepted).1

theorem tasks_nodup (peers : Peers σ) (endpoints : Endpoints) (options : Options) :
    ((peers.tasks endpoints options).map Task.name).Nodup := by
  have all : (inScope ++ clients.map InteropClient.scenario).Nodup := by decide +kernel
  refine all.sublist ?_
  rw [Peers.tasks, List.map_append, Peers.scenarioTasks, List.map_map]
  refine List.Sublist.append ?_ ?_
  · have same : (Task.name ∘ peers.scenarioTask endpoints) = id := rfl
    rw [same, List.map_id]
    exact List.filter_sublist
  · split
    · rw [List.map_map]
      exact .refl _
    · exact List.nil_sublist _

/-- The program comes to a name in this state, in its scenarios or, after them, in its clients. -/
def Peers.ComesTo (peers : Peers σ) (endpoints : Endpoints) (options : Options)
    (s : σ × SnapshotStore) (task : Task σ) (world : σ) : Prop :=
  Crossref.ComesTo peers.disk options.promote (peers.scenarioTasks endpoints options.scenarios) s task world ∨
    Crossref.ComesTo peers.disk options.promote (if options.interop then clients.map peers.clientTask else [])
      (peers.run endpoints options.promote options.scenarios s).2 task world

/-- The clients come after the scenarios; counting the unverified in between changes no file. -/
theorem layer2_eq (peers : Peers σ) (endpoints : Endpoints) (options : Options)
    (s : σ × SnapshotStore) :
    let first := runTasks peers.disk options.promote (peers.scenarioTasks endpoints options.scenarios) s
    let counted := (peers.run endpoints options.promote options.scenarios s).2
    let second := runTasks peers.disk options.promote
      (if options.interop then clients.map peers.clientTask else []) counted
    counted.2 = first.2.2 ∧ (peers.layer2 endpoints options s).1.rows = first.1 ++ second.1 ∧
      (peers.layer2 endpoints options s).2 = second.2 := by
  intro first counted second
  refine ⟨rfl, ?_⟩
  unfold Peers.layer2
  cases interop : options.interop with
  | false =>
    simp only [second, interop]
    exact ⟨(List.append_nil _).symm, rfl⟩
  | true =>
    simp only [second, interop]
    exact ⟨rfl, rfl⟩

theorem layer2_justified (peers : Peers σ) (endpoints : Endpoints) (options : Options)
    (s : σ × SnapshotStore) :
    Justified (peers.tasks endpoints options) (peers.ComesTo endpoints options s) options.promote
      (peers.layer2 endpoints options s).1.rows s.2 (peers.layer2 endpoints options s).2.2 := by
  have strict := List.forall_mem_append.mp (tasks_strict peers endpoints options)
  have nodup := tasks_nodup peers endpoints options
  rw [Peers.tasks, List.map_append, List.nodup_append] at nodup
  obtain ⟨counted, rows, after⟩ := layer2_eq peers endpoints options s
  rw [rows, after]
  have first := runTasks_justified strict.1 nodup.1 peers.disk options.promote s
  rw [← counted] at first
  refine first.append (fun task member other => ?_)
    (runTasks_justified strict.2 nodup.2.1 peers.disk options.promote _)
  exact nodup.2.2 _ (List.mem_map_of_mem member) _ other rfl

/-! Histories. -/

/-- What is done with a store: a snapshot is captured, or the program runs. -/
inductive Activity where
  | capture (name normalized : Text)
  | layer2 (options : Options)

def Peers.after (peers : Peers σ) (endpoints : Endpoints) (s : σ × SnapshotStore) :
    Activity → σ × SnapshotStore
  | .capture name normalized => (peers.disk.writeUnverified name normalized s).2
  | .layer2 options => (peers.layer2 endpoints options s).2

/-- A run that promotes has passed the name. From the state in which the run came to the name, it asked
just what the scenario asks for, the replies were what they have to be, and they left the evidence that
the name had when the run was over. -/
def PromotedIn (peers : Peers σ) (endpoints : Endpoints) (activities : List Activity)
    (s : σ × SnapshotStore) (name : Text) :
    Prop :=
  ∃ earlier options later, activities = earlier ++ .layer2 options :: later ∧ options.promote = true ∧
    let start := earlier.foldl (peers.after endpoints) s
    let ran := peers.layer2 endpoints options start
    (name, .pass) ∈ ran.1.rows ∧ ∃ evidence talk task world world', task.name = name ∧
      peers.ComesTo endpoints options start task world ∧ Passage peers.Gave talk world world' ∧
      Earned peers endpoints name talk evidence ∧ ran.2.2.readCanonical name = some evidence

/-- In every history of captures and runs, whatever is answered and whatever fails, a name is verified
at the end only if it was at the beginning, or if a run has promoted it. -/
theorem verified_by_agreement (peers : Peers σ) (endpoints : Endpoints) (activities : List Activity)
    (s : σ × SnapshotStore) {name : Text}
    (verified : (activities.foldl (peers.after endpoints) s).2.status name = some .verified) :
    s.2.status name = some .verified ∨ PromotedIn peers endpoints activities s name := by
  induction activities using List.reverseRecOn with
  | nil => exact .inl verified
  | append_singleton before activity ih =>
    rw [List.foldl_append, List.foldl_cons, List.foldl_nil] at verified
    have extended (earliest : (before.foldl (peers.after endpoints) s).2.status name = some .verified) :
        s.2.status name = some .verified ∨ PromotedIn peers endpoints (before ++ [activity]) s name := by
      refine (ih earliest).imp_right ?_
      rintro ⟨earlier, options, later, rfl, shown⟩
      exact ⟨earlier, options, later ++ [activity], by rw [List.append_assoc, List.cons_append],
        shown⟩
    cases activity with
    | capture captured normalized => exact extended (Disk.writeUnverified_verified verified)
    | layer2 options =>
      have justified := layer2_justified peers endpoints options (before.foldl (peers.after endpoints) s)
      rcases justified.verified name verified with
        earlier | ⟨on, passed, evidence, kept, task, member, rfl, world, left, came, judged⟩
      · exact extended earlier
      · obtain ⟨talk, asked, shown⟩ := (tasks_tell member).ends world (.pass, evidence) left judged
        exact .inr ⟨before, options, [], rfl, on, passed, evidence, talk, task, world, left, rfl,
          came, asked, (shown rfl).2, kept⟩

/-! Runs on a disk that works. -/

theorem Task.run_status (works : disk.Works) (strict : task.Strict) (s : σ × SnapshotStore)
    (name : Text) :
    (task.run disk true s).2.2.status name =
      if name = task.name ∧ (task.run disk true s).1 = .pass then some .verified else s.2.status name := by
  rcases task.run_cases strict disk true s
      with ⟨same, refused⟩ | ⟨pass, _, evidence, world, _, stored⟩
  · have failed : ¬ (name = task.name ∧ (task.run disk true s).1 = .pass) := by
      rintro ⟨_, pass⟩
      cases (refused (by rw [pass]; rfl)).2
    rw [if_neg failed, same]
  · rw [stored, works.promote]
    by_cases same : name = task.name
    · rw [if_pos ⟨same, pass⟩, same, SnapshotStore.status]
      simp only [AList.lookup_insert, Option.bind_some, Status.parse_asStr]
    · rw [if_neg fun both => same both.1, SnapshotStore.status]
      simp only [AList.lookup_insert_ne same]
      rfl

/-- A run that promotes verifies what passes, and leaves every other status as it was. -/
theorem runTasks_status (works : disk.Works) {tasks : List (Task σ)}
    (strict : ∀ task ∈ tasks, task.Strict) (s : σ × SnapshotStore) (name : Text) :
    (runTasks disk true tasks s).2.2.status name =
      if (name, .pass) ∈ (runTasks disk true tasks s).1 then some .verified else s.2.status name := by
  induction tasks generalizing s with
  | nil => rfl
  | cons task rest ih =>
    have first := task.run_status works (strict task (.head _)) s name
    have later := ih (fun other member => strict other (.tail _ member)) (task.run disk true s).2
    have row : (name, Verdict.pass) = (task.name, (task.run disk true s).1) ↔
        name = task.name ∧ (task.run disk true s).1 = .pass := by
      rw [Prod.mk.injEq, eq_comm (a := Verdict.pass)]
    simp only [runTasks, List.mem_cons, row, later, first]
    split_ifs <;> tauto

theorem runTasks_accepted {tasks : List (Task σ)} (strict : ∀ task ∈ tasks, task.Strict)
    (disk : Disk σ) (promoteOnPass : Bool) (s : σ × SnapshotStore) :
    ∀ row ∈ (runTasks disk promoteOnPass tasks s).1, row.2.accepted = true → row.2 = .pass := by
  induction tasks generalizing s with
  | nil => exact nofun
  | cons task rest ih =>
    refine List.forall_mem_cons.mpr ⟨fun accepted => ?_,
      ih (fun other member => strict other (.tail _ member)) _⟩
    rcases task.run_cases (strict task (.head _)) disk promoteOnPass s with ⟨_, refused⟩ | ⟨pass, _⟩
    · exact (refused accepted).1
    · exact pass

/-- On a disk that works a run does what it is for. It has one verdict for each scenario that was asked
for, in order; it is green exactly when all of them pass; where it promotes, it verifies just those that
pass, and otherwise it changes no file. The snapshots stay as they were captured. -/
theorem run_verifies_passes (works : peers.disk.Works) (endpoints : Endpoints) (options : Options)
    (s : σ × SnapshotStore) :
    let ran := peers.layer2 endpoints options s
    ran.1.rows.map Prod.fst =
      (inScope.filter fun name => options.scenarios.all fun names => name ∈ names) ++
        (if options.interop then clients.map InteropClient.scenario else []) ∧
      (ran.1.isGreen = true ↔ ∀ row ∈ ran.1.rows, row.2 = .pass) ∧
      (∀ name, ran.2.2.status name =
        if options.promote = true ∧ (name, .pass) ∈ ran.1.rows then some .verified else s.2.status name) ∧
      ran.2.2.snapshots = s.2.snapshots ∧ (options.promote = false → ran.2.2 = s.2) := by
  have justified := layer2_justified peers endpoints options s
  have strict := List.forall_mem_append.mp (tasks_strict peers endpoints options)
  obtain ⟨counted, rows, after⟩ := layer2_eq peers endpoints options s
  refine ⟨?_, ⟨fun green row member => ?_, fun all => ?_⟩, fun name => ?_, justified.snapshots,
    justified.untouched⟩
  · rw [rows, List.map_append, runTasks_names, runTasks_names, Peers.scenarioTasks, List.map_map]
    have same : Task.name ∘ peers.scenarioTask endpoints = id := rfl
    rw [same, List.map_id]
    split
    · rw [List.map_map]
      rfl
    · rfl
  · -- a strict task is accepted with a pass only
    have accepted := List.all_eq_true.mp green row member
    rw [rows] at member
    rcases List.mem_append.mp member with first | second
    · exact runTasks_accepted strict.1 peers.disk options.promote s row first accepted
    · exact runTasks_accepted strict.2 peers.disk options.promote _ row second accepted
  · refine List.all_eq_true.mpr fun row member => ?_
    rw [all row member]
    rfl
  · cases on : options.promote with
    | false =>
      rw [justified.untouched on, if_neg (by simp)]
    | true =>
      rw [on] at counted
      rw [rows, after, on]
      rw [runTasks_status works strict.2, counted, runTasks_status works strict.1]
      simp only [List.mem_append]
      split_ifs <;> tauto

/-! Servers that agree. -/

def agreedResponse : Text :=
  serializeEnvelope "<c:EchoResponse xmlns:c=\"urn:c\"><c:Text>hi</c:Text></c:EchoResponse>".toList .soap12

/-- The state counts the requests. -/
def agreeing : Peers Nat where
  post _ _ _ := fun asked => (.ok (200, agreedResponse), asked + 1)
  get _ := pure (404, [])
  c14n text := pure text
  validate _ _ := pure ⟨true, []⟩
  readToString _ := pure []
  read _ := pure []
  runClient _ := pure ⟨0, "done".toList, []⟩
  parseScenario _ := .ok ⟨"application/soap+xml".toList, .soap12, 200, .success,
    "request.xml".toList, none⟩
  reader := Markup.scanner
  rawReader := pieceScanner
  disk := ⟨pure (), fun world => (.whole, world), fun world => (true, world)⟩
  failureText _ := []
  debugErrors _ := []
  debugAddresses _ := []

theorem agreeing_works : agreeing.disk.Works := ⟨fun _ => rfl, fun _ => rfl, fun _ => rfl⟩

def localhost : Endpoints := ⟨"http://localhost:8080/soap".toList, "http://localhost:8082/soap".toList⟩

def echoHistory : List Activity :=
  [.capture "op_echo_success".toList agreedResponse, .layer2 ⟨true, some ["op_echo_success".toList], true⟩]

theorem echo_promoted :
    PromotedIn agreeing localhost echoHistory (0, .empty) "op_echo_success".toList :=
  (verified_by_agreement agreeing localhost echoHistory (0, .empty) (by decide +kernel)).resolve_left
    (by decide)

theorem echo_run_verifies :
    let ran := agreeing.layer2 localhost ⟨true, some ["op_echo_success".toList], true⟩ (0, .empty)
    ran.1.isGreen = true ∧ ran.2.2.status "op_echo_success".toList = some .verified := by
  obtain ⟨_, _, statuses, _⟩ := run_verifies_passes agreeing_works localhost
    ⟨true, some ["op_echo_success".toList], true⟩ (0, .empty)
  refine ⟨by decide +kernel, (statuses _).trans (if_pos ⟨rfl, ?_⟩)⟩
  decide +kernel

end SoapServer.Crossref
