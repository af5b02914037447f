import SoapServer.Library.Maps
import SoapServer.Library.Traced
import SoapServer.Markup.Document

/-! The snapshots of the harness on the disk, with their evidence and their status.

Writes can fail, and then some of what was to be written may be there. A promotion writes its evidence
first: whatever fails, a name that becomes verified has its evidence in whole.
-/

set_option autoImplicit false

namespace SoapServer.Crossref

open Maps
open Markup (Text)

inductive Status where
  | unverified
  | verified
  deriving DecidableEq, Repr

def Status.asStr : Status → Text
  | .unverified => "unverified".toList
  | .verified => "verified".toList

def Status.parse (s : Text) : Option Status :=
  if s = "unverified".toList then some .unverified
  else if s = "verified".toList then some .verified
  else none

@[simp] theorem Status.parse_asStr (status : Status) : Status.parse status.asStr = some status := by
  cases status <;> decide

/-- How the write of a file ends. A text that is cut has lost its end, a table some of its lines. -/
inductive Written where
  | whole
  | refused (e : Text)
  | cut (e : Text) (length : Nat) (lost : List Text)

namespace Written

def result : Written → Except Text Unit
  | .whole => .ok ()
  | .refused e | .cut e _ _ => .error e

/-- The files of a directory, one of which was written. -/
def files (before : HashMap Text Text) (name bytes : Text) : Written → HashMap Text Text
  | .whole => before.insert name bytes
  | .refused _ => before
  | .cut _ length _ => before.insert name (bytes.take length)

def table (before after : HashMap Text Text) : Written → HashMap Text Text
  | .whole => after
  | .refused _ => before
  | .cut _ _ lost => lost.foldl (fun left name => left.erase name) after

theorem lookup_files_of_ne {name other : Text} (apart : other ≠ name) (before : HashMap Text Text)
    (bytes : Text)
    (written : Written) : (written.files before name bytes).lookup other = before.lookup other := by
  cases written with
  | whole => exact AList.lookup_insert_ne apart
  | refused e => rfl
  | cut e length lost => exact AList.lookup_insert_ne apart

theorem lookup_erased {lost : List Text} {left : HashMap Text Text} {k v : Text}
    (found : (lost.foldl (fun left name => left.erase name) left).lookup k = some v) :
    left.lookup k = some v := by
  induction lost generalizing left with
  | nil => exact found
  | cons name lost ih =>
    have kept := ih found
    by_cases same : k = name
    · rw [same, AList.lookup_erase] at kept
      cases kept
    · rwa [AList.lookup_erase_ne same] at kept

/-- What a table holds was there before or was to be written. -/
theorem lookup_table {before after : HashMap Text Text} {written : Written} {k v : Text}
    (found : (written.table before after).lookup k = some v) : after.lookup k = some v ∨
    before.lookup k = some v := by
  cases written with
  | whole => exact .inl found
  | refused e => exact .inr found
  | cut e length lost => exact .inl (lookup_erased found)

end Written

/-- What the files say: a snapshot and the evidence for each name, and the table of statuses. -/
structure SnapshotStore where
  snapshots : HashMap Text Text
  canonical : HashMap Text Text
  statuses : HashMap Text Text

/-- How the file system answers. -/
structure Disk (σ : Type) where
  createDirAll : Traced σ Text Unit
  write : σ → Written × σ
  /-- Whether the table of statuses can be read. -/
  readable : σ → Bool × σ

variable {σ : Type}

abbrev Stored (σ α : Type) := Traced (σ × SnapshotStore) Text α

namespace SnapshotStore

def empty : SnapshotStore := ⟨∅, ∅, ∅⟩

def read (store : SnapshotStore) (name : Text) : Option Text := store.snapshots.lookup name

def readCanonical (store : SnapshotStore) (name : Text) : Option Text := store.canonical.lookup name

def status (store : SnapshotStore) (name : Text) : Option Status :=
  (store.statuses.lookup name).bind Status.parse

/-- The names whose status is the word of the unverified. -/
def unverified (store : SnapshotStore) : Nat :=
  (store.statuses.entries.map Sigma.snd).countP fun v => v = Status.unverified.asStr

end SnapshotStore

namespace Disk

variable (disk : Disk σ)

def createDir : Stored σ Unit := fun s =>
  match disk.createDirAll s.1 with
  | (result, world) => (result, world, s.2)

def writeSnapshot (name bytes : Text) : Stored σ Unit := fun s =>
  match disk.write s.1 with
  | (written, world) => (written.result, world,
      { s.2 with snapshots := written.files s.2.snapshots name bytes })

def writeEvidence (name bytes : Text) : Stored σ Unit := fun s =>
  match disk.write s.1 with
  | (written, world) => (written.result, world,
      { s.2 with canonical := written.files s.2.canonical name bytes })

/-- A table that cannot be read counts as empty. -/
def loadStatusMap : Stored σ (HashMap Text Text) := fun s =>
  match disk.readable s.1 with
  | (readable, world) => (.ok (if readable then s.2.statuses else ∅), world, s.2)

def saveStatusMap (map : HashMap Text Text) : Stored σ Unit := fun s =>
  match disk.write s.1 with
  | (written, world) => (written.result, world, { s.2 with statuses := written.table s.2.statuses map })

def writeUnverified (name normalized : Text) : Stored σ Unit := do
  disk.createDir
  disk.writeSnapshot name normalized
  let map ← disk.loadStatusMap
  disk.saveStatusMap (map.insert name Status.unverified.asStr)

def unverifiedCount : Stored σ Nat := do
  let map ← disk.loadStatusMap
  pure (SnapshotStore.unverified ⟨∅, ∅, map⟩)

def writeVerified (name : Text) : Stored σ Unit := do
  let map ← disk.loadStatusMap
  disk.saveStatusMap (map.insert name Status.verified.asStr)

def writeCanonical (name bytes : Text) : Stored σ Unit := do
  disk.createDir
  disk.writeEvidence name bytes

def promote (name canonical : Text) : Stored σ Unit := do
  disk.writeCanonical name canonical
  disk.writeVerified name

end Disk

/-! What an operation can do to the store. -/

section Effects

variable {disk : Disk σ} {name bytes : Text} {s : σ × SnapshotStore}

/-- A directory is made before what follows, or nothing follows. -/
theorem Disk.createDir_cases {α : Type} (disk : Disk σ) (next : Unit → Stored σ α)
    (s : σ × SnapshotStore) :
    ∃ r, r.2 = s.2 ∧ ((disk.createDir >>= next) s = next () r ∨ ∃ e, (disk.createDir >>= next) s =
      (.error e, r)) := by
  refine ⟨((disk.createDirAll s.1).2, s.2), rfl, ?_⟩
  rcases Traced.bind_cases disk.createDir next s with ⟨_, r, made, step⟩ | ⟨e, r, failed, step⟩
  · obtain rfl : ((disk.createDirAll s.1).2, s.2) = r := congrArg Prod.snd made
    exact .inl step
  · obtain rfl : ((disk.createDirAll s.1).2, s.2) = r := congrArg Prod.snd failed
    exact .inr ⟨e, step⟩

/-- The evidence of one name is written, or some of it. -/
structure Witnessed (name bytes : Text) (before : SnapshotStore) (result : Except Text Unit)
    (after : SnapshotStore) :
    Prop where
  snapshots : after.snapshots = before.snapshots
  statuses : after.statuses = before.statuses
  others : ∀ other, other ≠ name → after.readCanonical other = before.readCanonical other
  whole : result = .ok () → after.readCanonical name = some bytes

theorem Disk.writeCanonical_witnessed (disk : Disk σ) (name bytes : Text) (s : σ × SnapshotStore) :
    Witnessed name bytes s.2 (disk.writeCanonical name bytes s).1
      (disk.writeCanonical name bytes s).2.2 := by
  obtain ⟨r, same, next | ⟨e, stopped⟩⟩ :=
    disk.createDir_cases (fun _ => disk.writeEvidence name bytes) s
  · rw [writeCanonical, next, writeEvidence, ← same]
    rcases disk.write r.1 with ⟨written, world⟩
    refine ⟨rfl, rfl, fun other apart => Written.lookup_files_of_ne apart _ _ written, fun ok => ?_⟩
    cases written with
    | whole => exact AList.lookup_insert _
    | _ => cases ok
  · rw [writeCanonical, stopped, ← same]
    exact ⟨rfl, rfl, fun _ _ => rfl, nofun⟩

/-- Only the statuses are written, and only the given word is new in them. -/
structure Marked (name : Text) (status : Status) (before after : SnapshotStore) : Prop where
  snapshots : after.snapshots = before.snapshots
  canonical : after.canonical = before.canonical
  verified : ∀ other, after.status other = some .verified →
    other = name ∧ status = .verified ∨ before.status other = some .verified

/-- A table that is read, changed for one name and saved. -/
theorem Disk.mark_marked (disk : Disk σ) (name : Text) (status : Status) (s : σ × SnapshotStore) :
    Marked name status s.2 ((disk.loadStatusMap >>= fun map => disk.saveStatusMap
      (map.insert name status.asStr)) s).2.2 := by
  have step : (disk.loadStatusMap >>= fun map => disk.saveStatusMap (map.insert name status.asStr)) s =
      disk.saveStatusMap ((if (disk.readable s.1).1 then s.2.statuses else ∅ : HashMap Text Text).insert
        name status.asStr)
        ((disk.readable s.1).2, s.2) := rfl
  rw [step, saveStatusMap]
  rcases disk.write (disk.readable s.1).2 with ⟨written, world⟩
  refine ⟨rfl, rfl, fun other verified => ?_⟩
  obtain ⟨v, found, parsed⟩ := Option.bind_eq_some_iff.mp verified
  rcases Written.lookup_table found with saved | old
  · by_cases same : other = name
    · rw [same, AList.lookup_insert] at saved
      obtain rfl := Option.some.inj saved
      rw [Status.parse_asStr] at parsed
      exact .inl ⟨same, Option.some.inj parsed⟩
    · rw [AList.lookup_insert_ne same] at saved
      split at saved
      · exact .inr (Option.bind_eq_some_iff.mpr ⟨v, saved, parsed⟩)
      · cases saved
  · exact .inr (Option.bind_eq_some_iff.mpr ⟨v, old, parsed⟩)

/-- Nothing but one name is promoted, and that with its evidence. -/
structure Promoted (name bytes : Text) (before after : SnapshotStore) : Prop where
  snapshots : after.snapshots = before.snapshots
  others : ∀ other, other ≠ name → after.readCanonical other = before.readCanonical other
  verified : ∀ other, after.status other = some .verified →
    other = name ∧ after.readCanonical name = some bytes ∨ before.status other = some .verified

theorem Disk.promote_promoted (disk : Disk σ) (name bytes : Text) (s : σ × SnapshotStore) :
    Promoted name bytes s.2 (disk.promote name bytes s).2.2 := by
  have witnessed := disk.writeCanonical_witnessed name bytes s
  rcases Traced.bind_cases (disk.writeCanonical name bytes) (fun _ => disk.writeVerified name) s with
    ⟨_, r, written, next⟩ | ⟨e, r, failed, stopped⟩
  · rw [written] at witnessed
    have marked := disk.mark_marked name .verified r
    rw [promote, next]
    refine ⟨marked.snapshots.trans witnessed.snapshots, fun other apart => ?_,
      fun other verified => ?_⟩
    · exact (congrArg (AList.lookup other) marked.canonical).trans (witnessed.others other apart)
    · rcases marked.verified other verified with ⟨same, _⟩ | before
      · exact .inl ⟨same, (congrArg (AList.lookup name) marked.canonical).trans (witnessed.whole rfl)⟩
      · refine .inr ?_
        rw [SnapshotStore.status, ← witnessed.statuses]
        exact before
  · rw [failed] at witnessed
    rw [promote, stopped]
    refine ⟨witnessed.snapshots, witnessed.others, fun other verified => .inr ?_⟩
    rw [SnapshotStore.status, ← witnessed.statuses]
    exact verified

theorem Disk.writeSnapshot_statuses (disk : Disk σ) (name bytes : Text) (s : σ × SnapshotStore) :
    (disk.writeSnapshot name bytes s).2.2.statuses = s.2.statuses := by
  unfold writeSnapshot
  rcases disk.write s.1 with ⟨written, world⟩
  rfl

/-- A capture verifies nothing. -/
theorem Disk.writeUnverified_verified {other : Text}
    (verified : (disk.writeUnverified name bytes s).2.2.status other = some .verified) :
    s.2.status other = some .verified := by
  let mark : Stored σ Unit := disk.loadStatusMap >>= fun map => disk.saveStatusMap
    (map.insert name Status.unverified.asStr)
  obtain ⟨r, same, next | ⟨e, stopped⟩⟩ :=
    disk.createDir_cases (fun _ => disk.writeSnapshot name bytes >>= fun _ => mark) s
  · rw [writeUnverified, next] at verified
    have statuses := disk.writeSnapshot_statuses name bytes r
    rw [SnapshotStore.status, ← same, ← statuses]
    rcases Traced.bind_cases (disk.writeSnapshot name bytes) (fun _ => mark) r with
      ⟨_, t, written, next⟩ | ⟨e, t, failed, stopped⟩
    · rw [next] at verified
      rw [written]
      rcases (disk.mark_marked name .unverified t).verified other verified
          with ⟨_, absurd_⟩ | before
      · cases absurd_
      · exact before
    · rw [stopped] at verified
      rw [failed]
      exact verified
  · rw [writeUnverified, stopped] at verified
    rw [← same]
    exact verified

end Effects

/-! A disk that works. -/

structure Disk.Works (disk : Disk σ) : Prop where
  createDirAll : ∀ world, (disk.createDirAll world).1 = .ok ()
  write : ∀ world, (disk.write world).1 = .whole
  readable : ∀ world, (disk.readable world).1 = true

/-- Then a promotion does all it is for. -/
theorem Disk.Works.promote {disk : Disk σ} (works : disk.Works) (name bytes : Text)
    (s : σ × SnapshotStore) :
    (disk.promote name bytes s).2.2 = { s.2 with
      canonical := s.2.canonical.insert name bytes
      statuses := s.2.statuses.insert name Status.verified.asStr } := by
  have made (s : σ × SnapshotStore) : disk.createDir s = (.ok (), (disk.createDirAll s.1).2, s.2) := by
    rw [createDir, ← works.createDirAll s.1]
  have whole (world : σ) : disk.write world = (.whole, (disk.write world).2) :=
    by rw [← works.write world]
  have readable (world : σ) : disk.readable world =
      (true, (disk.readable world).2) := by rw [← works.readable world]
  have evidence (s : σ × SnapshotStore) : disk.writeEvidence name bytes s =
      (.ok (), (disk.write s.1).2, { s.2 with canonical := s.2.canonical.insert name bytes }) := by
    rw [writeEvidence, whole]
    rfl
  have loaded (s : σ × SnapshotStore) : disk.loadStatusMap s =
      (.ok s.2.statuses, (disk.readable s.1).2, s.2) := by
    rw [loadStatusMap, readable]
    rfl
  have saved (map : HashMap Text Text) (s : σ × SnapshotStore) : disk.saveStatusMap map s =
      (.ok (), (disk.write s.1).2, { s.2 with statuses := map }) := by
    rw [saveStatusMap, whole]
    rfl
  simp only [Disk.promote, writeCanonical, writeVerified, Bind.bind, made, evidence, loaded, saved]

end SoapServer.Crossref
