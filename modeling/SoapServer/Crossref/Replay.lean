import SoapServer.Crossref.Promotion
import SoapServer.Crossref.Regression

/-! Answers that are frozen, and replayed later.

An answer is captured when snapshots are made anew. From then on a replay is compared with it, whatever is
captured for other scenarios in between and whatever the harness promotes.
-/

set_option autoImplicit false

namespace SoapServer.Crossref

open Markup hiding localName

variable {σ : Type}

def defaultMasks : List MaskRule := []

/-- What is asserted of an answer by itself, and what is compared of it. -/
def Peers.normalized (peers : Peers σ) (name : Text) (scenario : Scenario) (answer : Nat × Text) :
    Except Text Text :=
  if answer.1 ≠ scenario.expectedStatus then .error (name ++ ": status".toList)
  else do
    let text ← (normalize peers.rawReader answer.2 defaultMasks).mapError fun e =>
      name ++ ": normalize failed: ".toList ++ peers.failureText e
    if scenario.outcome = .fault ∧ ¬ "Fault".toList <:+: text then
      .error (name ++ ": outcome=Fault but response contains no 'Fault' element".toList)
    else .ok text

/-- A text is captured where snapshots are made anew, and compared with the frozen one elsewhere. -/
def Disk.compare (disk : Disk σ) (regen : Bool) (name text : Text) : Stored σ Unit := fun s =>
  match s.2.read name with
  | none =>
    if regen then disk.writeUnverified name text s
    else (.error (name ++ ": no snapshot — run with CROSSREF_REGEN=1".toList), s)
  | some frozen =>
    if regen then if frozen ≠ text then disk.writeUnverified name text s else (.ok (), s)
    else if frozen = text then (.ok (), s) else (.error name, s)

/-- A scenario is replayed with the answer of the service. -/
def Peers.replay (peers : Peers σ) (regen : Bool) (name : Text) (scenario : Scenario)
    (answer : Nat × Text) : Stored σ Unit := do
  let text ← Traced.ofExcept (peers.normalized name scenario answer)
  peers.disk.compare regen name text

/-! What a capture does to the snapshots. -/

/-- One snapshot is written, or some of it. -/
structure Captured (name bytes : Text) (before : SnapshotStore) (result : Except Text Unit)
    (after : SnapshotStore) : Prop where
  others : ∀ other, other ≠ name → after.read other = before.read other
  whole : result = .ok () → after.read name = some bytes

theorem Disk.writeSnapshot_captured (disk : Disk σ) (name bytes : Text) (s : σ × SnapshotStore) :
    Captured name bytes s.2 (disk.writeSnapshot name bytes s).1 (disk.writeSnapshot name bytes s).2.2 := by
  rw [writeSnapshot]
  rcases disk.write s.1 with ⟨written, world⟩
  refine ⟨fun other apart => Written.lookup_files_of_ne apart _ _ written, fun ok => ?_⟩
  cases written with
  | whole => exact AList.lookup_insert _
  | _ => cases ok

theorem Disk.writeUnverified_captured (disk : Disk σ) (name bytes : Text) (s : σ × SnapshotStore) :
    Captured name bytes s.2 (disk.writeUnverified name bytes s).1
      (disk.writeUnverified name bytes s).2.2 := by
  let mark : Stored σ Unit := disk.loadStatusMap >>= fun map => disk.saveStatusMap
    (map.insert name Status.unverified.asStr)
  obtain ⟨r, same, next | ⟨e, stopped⟩⟩ :=
    disk.createDir_cases (fun _ => disk.writeSnapshot name bytes >>= fun _ => mark) s
  · rw [writeUnverified, next, ← same]
    have captured := disk.writeSnapshot_captured name bytes r
    rcases Traced.bind_cases (disk.writeSnapshot name bytes) (fun _ => mark) r with
      ⟨_, t, written, next⟩ | ⟨e, t, failed, stopped⟩
    · -- the table of statuses is another file
      rw [written] at captured
      have marked := (disk.mark_marked name .unverified t).snapshots
      rw [next]
      exact ⟨fun other apart => (congrArg (AList.lookup other) marked).trans (captured.others other apart),
        fun _ => (congrArg (AList.lookup name) marked).trans (captured.whole rfl)⟩
    · rw [failed] at captured
      rw [stopped]
      refine ⟨captured.others, fun ok => ?_⟩
      cases ok
  · rw [writeUnverified, stopped, ← same]
    refine ⟨fun _ _ => rfl, fun ok => ?_⟩
    cases ok

/-! What is frozen. -/

section

variable {peers : Peers σ} {endpoints : Endpoints} {name : Text} {scenario : Scenario}
    {answer : Nat × Text}
  {s t : σ × SnapshotStore}

theorem Peers.normalized_eq_ok {text : Text} : peers.normalized name scenario answer = .ok text ↔
    answer.1 = scenario.expectedStatus ∧ normalize peers.rawReader answer.2 defaultMasks = .ok text ∧
      (scenario.outcome = .fault → "Fault".toList <:+: text) := by
  unfold normalized
  by_cases status : answer.1 = scenario.expectedStatus
  · rw [if_neg (not_not.mpr status)]
    cases written : normalize peers.rawReader answer.2 defaultMasks with
    | error e => simp [Except.mapError, Bind.bind, Except.bind]
    | ok other =>
      simp only [Except.mapError, Bind.bind, Except.bind, status, true_and, Except.ok.injEq]
      by_cases unfaulty : scenario.outcome = .fault ∧ ¬ "Fault".toList <:+: other
      · rw [if_pos unfaulty]
        refine iff_of_false nofun ?_
        rintro ⟨rfl, found⟩
        exact unfaulty.2 (found unfaulty.1)
      · rw [if_neg unfaulty, Except.ok.injEq]
        refine ⟨?_, And.left⟩
        rintro rfl
        exact ⟨rfl, fun fault => not_not.mp fun absent => unfaulty ⟨fault, absent⟩⟩
  · rw [if_pos status]
    exact iff_of_false nofun fun all => status all.1

/-- Without capturing, a replay changes nothing, and passes exactly when its text is the frozen one. -/
theorem Disk.compare_frozen (disk : Disk σ) (name text : Text) (s : σ × SnapshotStore) :
    (disk.compare false name text s).2 = s ∧
      ((disk.compare false name text s).1 = .ok () ↔ s.2.read name = some text) := by
  unfold compare
  cases s.2.read name with
  | none => exact ⟨rfl, iff_of_false nofun nofun⟩
  | some frozen =>
    by_cases same : frozen = text
    · simp [same]
    · simp [same]

/-- A capture that passes leaves its text frozen. -/
theorem Disk.compare_captured (disk : Disk σ) (text : Text) (s : σ × SnapshotStore)
    (passed : (disk.compare true name text s).1 = .ok ()) :
    (disk.compare true name text s).2.2.read name = some text := by
  have written := (disk.writeUnverified_captured name text s).whole
  unfold compare at passed ⊢
  cases found : s.2.read name with
  | none =>
    rw [found] at passed
    exact written passed
  | some frozen =>
    rw [found] at passed
    by_cases same : frozen = text
    · simp only [same, ne_eq, not_true_eq_false, if_true, if_false]
      rw [found, same]
    · simp only [same, ne_eq, not_false_eq_true, if_true] at passed ⊢
      exact written passed

theorem Peers.replay_of_ok {text : Text}
    (accepted : peers.normalized name scenario answer = .ok text) (regen : Bool)
    (s : σ × SnapshotStore) :
    peers.replay regen name scenario answer s = peers.disk.compare regen name text s := by
  rw [replay, accepted]
  rfl

theorem Peers.replay_of_error {e : Text}
    (refused : peers.normalized name scenario answer = .error e) (regen : Bool)
    (s : σ × SnapshotStore) : peers.replay regen name scenario answer s = (.error e, s) := by
  rw [replay, refused]
  rfl

/-! Histories. -/

/-- What is done captures no snapshot of the name. -/
def Activity.Spares (name : Text) : Activity → Prop
  | .capture other _ => other ≠ name
  | .layer2 _ => True

theorem Peers.after_read {activity : Activity} (spares : activity.Spares name) :
    (peers.after endpoints s activity).2.read name = s.2.read name := by
  cases activity with
  | capture other bytes =>
    exact (peers.disk.writeUnverified_captured other bytes s).others name spares.symm
  | layer2 options =>
    exact congrArg (AList.lookup name) (layer2_justified peers endpoints options s).snapshots

theorem Peers.history_read {later : List Activity}
    (spared : ∀ activity ∈ later, activity.Spares name) :
    (later.foldl (peers.after endpoints) s).2.read name = s.2.read name := by
  induction later generalizing s with
  | nil => rfl
  | cons activity rest ih =>
    rw [List.foldl_cons, ih fun other member => spared other (.tail _ member)]
    exact peers.after_read (spared activity (.head _))

/-- An answer that was captured guards its scenario. Whatever was captured for other scenarios and
promoted since, and whatever failed, a replay changes nothing, and it passes exactly when the new answer
has the status that is declared and is the frozen one, apart from the order of attributes. -/
theorem frozen_answer_guards {answer' : Nat × Text} {events events' : List RawEvent}
    {c c' : Content} (captured : (peers.replay true name scenario answer s).1 = .ok ())
    (plain : Plain peers.rawReader answer.2 events c)
    (plain' : Plain peers.rawReader answer'.2 events' c') {later : List Activity}
    (spared : ∀ activity ∈ later, activity.Spares name) :
    let kept := later.foldl (peers.after endpoints) (peers.replay true name scenario answer s).2
    (peers.replay false name scenario answer' kept).2 = kept ∧
      ((peers.replay false name scenario answer' kept).1 = .ok () ↔
        answer'.1 = scenario.expectedStatus ∧ Unchanged defaultMasks [] c c') := by
  intro kept
  -- what was captured is still there
  obtain ⟨text, accepted, frozen⟩ : ∃ text, peers.normalized name scenario answer = .ok text ∧
      kept.2.read name = some text := by
    have here : kept.2.read name = (peers.replay true name scenario answer s).2.2.read name :=
      peers.history_read spared
    rw [here]
    cases accepted : peers.normalized name scenario answer with
    | error e =>
      rw [Peers.replay_of_error accepted] at captured
      cases captured
    | ok text =>
      rw [Peers.replay_of_ok accepted] at captured ⊢
      exact ⟨text, rfl, peers.disk.compare_captured text s captured⟩
  obtain ⟨_, written, faulty⟩ := Peers.normalized_eq_ok.mp accepted
  have compared := same_frozen_iff defaultMasks plain plain'
  rw [written] at compared
  cases accepted' : peers.normalized name scenario answer' with
  | ok text' =>
    rw [Peers.replay_of_ok accepted']
    obtain ⟨status, written', _⟩ := Peers.normalized_eq_ok.mp accepted'
    obtain ⟨untouched, passes⟩ := peers.disk.compare_frozen name text' kept
    rw [written', Except.ok.injEq] at compared
    refine ⟨untouched, passes.trans ?_⟩
    rw [frozen, Option.some.injEq, compared]
    exact (and_iff_right status).symm
  | error e =>
    rw [Peers.replay_of_error accepted']
    refine ⟨rfl, iff_of_false nofun ?_⟩
    rintro ⟨status, unchanged⟩
    have same : peers.normalized name scenario answer' = .ok text :=
      Peers.normalized_eq_ok.mpr ⟨status, (compared.mpr unchanged).symm, faulty⟩
    rw [accepted'] at same
    cases same

end

/-! An answer is captured, the harness runs, and the answer comes again with its attributes the other
way round. -/

def answered (first second : Attribute) : Content :=
  .element ⟨"e:Said".toList, [first, second]⟩ (.data (.text "hi".toList) .nil) .nil

def declaring : Attribute := ⟨"xmlns:e".toList, "urn:e".toList⟩

def counting : Attribute := ⟨"n".toList, "1".toList⟩

theorem answered_plain {first second : Attribute} (writable : (answered first second).Writable)
    (unique : (⟨"e:Said".toList, [first, second]⟩ : Tag).Unique) :
    Plain pieceScanner (answered first second).write (answered first second).pieces
      (answered first second) := by
  have normal : (answered first second).Normal := ⟨⟨by decide, nofun, trivial⟩, trivial⟩
  have tags : (answered first second).AllTags Tag.Unique := ⟨unique, trivial, trivial⟩
  refine ⟨⟨(Content.pieces_source _).symm, pieceScanner_readsBack.written _ writable normal tags (head_ne_byteOrderMark rfl), ?_⟩,
    normal, writable.quotes, writable.data⟩
  exact denotes_pieces ⟨⟨writable.tags.1, writable.quotes.1, unique⟩, trivial, trivial⟩
    ⟨⟨by decide, trivial⟩, trivial⟩

def said : Scenario := ⟨"application/soap+xml".toList, .soap12, 200, .success, "said.xml".toList, none⟩

theorem answer_guards :
    let captured := agreeing.replay true "said".toList said (200, (answered declaring counting).write)
      (0, .empty)
    let kept := echoHistory.foldl (agreeing.after localhost) captured.2
    (agreeing.replay false "said".toList said (200, (answered counting declaring).write) kept).1 =
      .ok () := by
  intro captured kept
  have passed : captured.1 = .ok () := by decide +kernel
  have first : Plain agreeing.rawReader (answered declaring counting).write _ _ :=
    answered_plain (by decide) (by decide)
  have second : Plain agreeing.rawReader (answered counting declaring).write _ _ :=
    answered_plain (by decide) (by decide)
  have spared : ∀ activity ∈ echoHistory, activity.Spares "said".toList := by
    have other : "op_echo_success".toList ≠ "said".toList := by decide
    exact List.forall_mem_cons.mpr ⟨other, List.forall_mem_singleton.mpr trivial⟩
  let again := agreeing.replay false "said".toList said (200, (answered counting declaring).write) kept
  have guards : again.2 = kept ∧ (again.1 = .ok () ↔
      200 = 200 ∧ Unchanged defaultMasks [] (answered declaring counting) (answered counting declaring)) :=
    frozen_answer_guards passed first second spared
  exact guards.2.mpr ⟨rfl, .element (.swap _ _ _) (.data .nil) .nil⟩

end SoapServer.Crossref
