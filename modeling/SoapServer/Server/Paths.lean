import Mathlib.Data.List.Infix
import SoapServer.Library.Paths
import SoapServer.Wsdl.Resolver

/-! The files that imports are loaded from: an import location, joined to the directory of
the WSDL and normalised. Paths are those of Unix.
-/

set_option autoImplicit false

namespace SoapServer.Server

open Markup (Text)
open Paths
open Wsdl (WsdlLoader)

inductive Component where
  | rootDir
  | curDir
  | parentDir
  | normal (name : Text)
  deriving DecidableEq

def Component.text : Component → Text
  | .rootDir => "/".toList
  | .curDir => ".".toList
  | .parentDir => "..".toList
  | .normal name => name

def isAbsolute (path : Text) : Bool := path.head? = some '/'

/-- What a segment between two separators contributes to a path. -/
def parseSingleComponent (segment : Text) : Option Component :=
  if segment = [] ∨ segment = ".".toList then none
  else if segment = "..".toList then some .parentDir
  else some (.normal segment)

/-- `Path::components`. A dot is a component at the start of a relative path only. -/
def components (path : Text) : List Component :=
  let body := (path.splitOn '/').filterMap parseSingleComponent
  if isAbsolute path then .rootDir :: body
  else if (path.splitOn '/').head? = some ".".toList then .curDir :: body
  else body

/-- `Path::join`. An absolute location replaces the path. -/
def join (path location : Text) : Text :=
  if isAbsolute location then location
  else if path = [] ∨ path.getLast? = some '/' then path ++ location
  else path ++ '/' :: location

/-! A `PathBuf` that components are pushed to and popped from, as these components. -/

def push (path : List Component) : Component → List Component
  | .rootDir => [.rootDir]
  | component => path ++ [component]

/-- There is nothing to pop from an empty path, nor from the root. -/
def pop (path : List Component) : List Component :=
  match path.getLast? with
  | none | some .rootDir => path
  | some _ => path.dropLast

def normalizeStep (normalized : List Component) : Component → List Component
  | .parentDir => pop normalized
  | .curDir => normalized
  | other => push normalized other

def normalizePath (path : Text) : List Component := (components path).foldl normalizeStep []

def pathText : List Component → Text
  | .rootDir :: rest => '/' :: ['/'].intercalate (rest.map Component.text)
  | path => ['/'].intercalate (path.map Component.text)

/-- The path that an import is read from. -/
def importPath (baseDir location : Text) : Text := pathText (normalizePath (join baseDir location))

def fileWsdlLoader (readFile : Text → Except Text Text)
    (baseDir : Text) : WsdlLoader := fun location =>
  match readFile (importPath baseDir location) with
  | .ok bytes => .ok bytes
  | .error e => .error (.malformedXml ("Failed to load WSDL import '".toList ++ location ++ "' from '".toList ++
      importPath baseDir location ++ "': ".toList ++ e))

/-! What a path denotes. -/

/-- A segment, as the system walks it: an empty one asks for a directory, as a dot does. -/
def segmentStep (segment : Text) : Step Text :=
  if segment = [] ∨ segment = ".".toList then .stay
  else if segment = "..".toList then .up
  else .down segment

def pathSteps (path : Text) : List (Step Text) := (path.splitOn '/').map segmentStep

/-- The node a path denotes for a working directory. The empty path denotes nothing. -/
def denotes (tree : Paths.Tree Text) (workingDir : List Text) (path : Text) : Option (List Text) :=
  if path = [] then none else tree.walk (if isAbsolute path then [] else workingDir) (pathSteps path)

/-- What the first path denotes, the second denotes too, wherever one works. -/
def SameFile (path other : Text) : Prop :=
  ∀ (tree : Paths.Tree Text) (workingDir node : List Text), tree.kind workingDir = some .directory →
    denotes tree workingDir path = some node → denotes tree workingDir other = some node

/-- A path that never climbs above where it starts, nor back to it in the end. -/
def StaysBelow (path : Text) : Prop :=
  Grounded 0 (pathSteps path) ∧ ups (pathSteps path) < downs (pathSteps path)

variable {path : Text} {tree : Paths.Tree Text} {workingDir node : List Text}

/-! Segments and components. -/

theorem separator_notMem {segment : Text} (member : segment ∈ path.splitOn '/') :
    '/' ∉ segment := by
  induction path generalizing segment with
  | nil =>
    rw [List.splitOn_nil, List.mem_singleton] at member
    rw [member]
    exact List.not_mem_nil
  | cons c rest ih =>
    rw [List.splitOn_cons_eq_if_modifyHead] at member
    split at member
    · rcases List.mem_cons.mp member with rfl | member
      · exact List.not_mem_nil
      · exact ih member
    · next other =>
      obtain ⟨first, more, split⟩ := List.exists_cons_of_ne_nil (List.splitOn_ne_nil '/' rest)
      rw [split, List.modifyHead_cons] at member
      rcases List.mem_cons.mp member with rfl | member
      · have inner : '/' ∉ first := ih (by simp [split])
        simp only [List.mem_cons, not_or]
        exact ⟨fun same => other (by simp [← same]), inner⟩
      · exact ih (by simp [split, member])

/-- The components of names. -/
def names (stack : List Text) : List Component := stack.reverse.map .normal

@[simp] theorem names_cons (name : Text) (stack : List Text) :
    names (name :: stack) = names stack ++ [.normal name] := by
  simp [names]

/-- What lies below the names on the stack stays: the root or nothing. -/
theorem pop_names {base : List Component} (rooted : base = [] ∨ base = [.rootDir])
    (stack : List Text) :
    pop (base ++ names stack) = base ++ names stack.tail := by
  cases stack with
  | nil => rcases rooted with rfl | rfl <;> rfl
  | cons name stack => simp [pop, ← List.append_assoc]

/-- One segment does to the stack what its step does to the node. -/
theorem normalizeStep_segment {base : List Component} (rooted : base = [] ∨ base = [.rootDir])
    (stack : List Text) (segment : Text) :
    (parseSingleComponent segment).toList.foldl normalizeStep (base ++ names stack) =
      base ++ names ((segmentStep segment).from stack) := by
  unfold parseSingleComponent segmentStep
  split
  · rfl
  · split
    · exact pop_names rooted stack
    · simp [normalizeStep, push, Step.from]

theorem foldl_segments {base : List Component} (rooted : base = [] ∨ base = [.rootDir])
    (stack : List Text) (segments : List Text) :
    (segments.filterMap parseSingleComponent).foldl normalizeStep (base ++ names stack) =
      base ++ names (lands stack (segments.map segmentStep)) := by
  induction segments generalizing stack with
  | nil => rfl
  | cons segment rest ih =>
    have first := normalizeStep_segment rooted stack segment
    rw [List.map_cons, lands_cons, ← ih, ← first]
    cases h : parseSingleComponent segment with
    | none => rw [List.filterMap_cons_none h, Option.toList_none, List.foldl_nil]
    | some component => rw [List.filterMap_cons_some h, Option.toList_some, List.foldl_cons, List.foldl_cons, List.foldl_nil]

/-- The normalised path is the root, if any, and the names of where the steps land. -/
theorem normalizePath_eq (path : Text) :
    normalizePath path =
      (if isAbsolute path then [.rootDir] else []) ++ names (lands [] (pathSteps path)) := by
  unfold normalizePath components
  by_cases absolute : isAbsolute path = true
  · rw [if_pos absolute, if_pos absolute, List.foldl_cons]
    exact foldl_segments (.inr rfl) [] _
  · rw [if_neg absolute, if_neg absolute]
    split
    · rw [List.foldl_cons]
      exact foldl_segments (.inl rfl) [] _
    · exact foldl_segments (.inl rfl) [] _

/-! The text of a normalised path. -/

/-- A name that walks down to an entry of that name. -/
def IsName (name : Text) : Prop := '/' ∉ name ∧ segmentStep name = .down name

theorem not_isName_nil : ¬ IsName [] := by
  rintro ⟨_, wrong⟩
  cases wrong

theorem lands_names {segments : List Text} (single : ∀ segment ∈ segments, '/' ∉ segment)
    (each : ∀ name ∈ node, IsName name) :
    ∀ name ∈ lands node (segments.map segmentStep), IsName name := by
  induction segments generalizing node with
  | nil => exact each
  | cons segment rest ih =>
    refine ih (fun other member => single other (.tail _ member)) fun name member => ?_
    unfold segmentStep at member
    split at member
    · exact each name member
    · split at member
      · exact each name (List.mem_of_mem_tail member)
      · next notDot notUp =>
        rcases List.mem_cons.mp member with rfl | member
        · exact ⟨single name (.head _), by rw [segmentStep, if_neg notDot, if_neg notUp]⟩
        · exact each name member

/-- The names a path lands at from the root. -/
theorem stack_names (path : Text) : ∀ name ∈ lands [] (pathSteps path), IsName name :=
  lands_names (fun _ => separator_notMem) fun _ member => absurd member List.not_mem_nil

theorem map_text_names (stack : List Text) : (names stack).map Component.text = stack.reverse := by
  rw [names, List.map_map]
  exact List.map_id _

theorem pathText_names (stack : List Text) :
    pathText (names stack) = ['/'].intercalate stack.reverse := by
  have relative : ∀ rest, names stack ≠ .rootDir :: rest := by
    intro rest same
    have member : Component.rootDir ∈ names stack := same ▸ List.mem_cons_self
    obtain ⟨_, _, wrong⟩ := List.mem_map.mp member
    cases wrong
  rw [pathText, map_text_names]
  exact relative

theorem pathText_root_names (stack : List Text) :
    pathText ([.rootDir] ++ names stack) = '/' :: ['/'].intercalate stack.reverse := by
  rw [List.singleton_append, pathText, map_text_names]

/-- Names that are joined are found again. -/
theorem pathSteps_intercalate {stack : List Text} (some_ : stack ≠ [])
    (each : ∀ name ∈ stack, IsName name) :
    (['/'].intercalate stack.reverse).splitOn '/' = stack.reverse ∧
      pathSteps (['/'].intercalate stack.reverse) = stack.reverse.map .down := by
  have split : (['/'].intercalate stack.reverse).splitOn '/' = stack.reverse :=
    List.splitOn_intercalate '/' (fun name member => (each name (List.mem_reverse.mp member)).1)
      (by simpa using some_)
  refine ⟨split, ?_⟩
  rw [pathSteps, split]
  exact List.map_congr_left fun name member => (each name (List.mem_reverse.mp member)).2

theorem splitOn_cons_separator (rest : Text) :
    ('/' :: rest).splitOn '/' = [] :: rest.splitOn '/' := by
  rw [List.splitOn_cons_eq_if_modifyHead, if_pos (by rfl)]

theorem isAbsolute_iff : isAbsolute path = true ↔ ∃ rest, path = '/' :: rest := by
  cases path <;> simp [isAbsolute]

theorem denotes_names {stack : List Text} (some_ : stack ≠ []) (each : ∀ name ∈ stack, IsName name)
    (present : (tree.kind (stack ++ workingDir)).isSome = true) :
    denotes tree workingDir (pathText (names stack)) = some (stack ++ workingDir) := by
  obtain ⟨split, steps⟩ := pathSteps_intercalate some_ each
  have full : ∀ segment ∈ (['/'].intercalate stack.reverse).splitOn '/', segment ≠ [] := by
    rintro segment member rfl
    rw [split, List.mem_reverse] at member
    exact not_isName_nil (each [] member)
  have written : ['/'].intercalate stack.reverse ≠ [] := by
    intro none_
    exact full [] (by rw [none_]; exact .head _) rfl
  have relative : isAbsolute (['/'].intercalate stack.reverse) ≠ true := by
    intro absolute
    obtain ⟨rest, same⟩ := isAbsolute_iff.mp absolute
    exact full [] (by rw [same, splitOn_cons_separator]; exact .head _) rfl
  rw [denotes, pathText_names, if_neg written, if_neg relative, steps]
  have walked : tree.walk workingDir (stack.reverse.map .down) = some (stack.reverse.reverse ++ workingDir) :=
    Paths.Tree.walk_down (by simpa using present)
  rwa [List.reverse_reverse] at walked

theorem denotes_root_names {stack : List Text} (each : ∀ name ∈ stack, IsName name)
    (present : (tree.kind stack).isSome = true) :
    denotes tree workingDir (pathText ([.rootDir] ++ names stack)) = some stack := by
  have enters : tree.enter [] .stay = some [] :=
    Paths.Tree.enter_eq_some.mpr ⟨⟨tree.root, by rw [Step.from, tree.root]; rfl⟩, rfl⟩
  rw [denotes, pathText_root_names, if_neg (List.cons_ne_nil _ _), if_pos (by rfl), pathSteps,
    splitOn_cons_separator,
    List.map_cons, show segmentStep [] = .stay from rfl, Paths.Tree.walk_cons, enters, Option.bind_some]
  by_cases none_ : stack = []
  · subst none_
    change (tree.enter [] .stay).bind _ = _
    rw [enters]
    rfl
  · have walked : tree.walk [] (stack.reverse.map .down) = some (stack.reverse.reverse ++ []) :=
      Paths.Tree.walk_down (by simpa using present)
    rw [List.reverse_reverse, List.append_nil] at walked
    have steps := (pathSteps_intercalate none_ each).2
    rw [pathSteps] at steps
    rw [steps, walked]

/-! Normalising keeps the file. -/

theorem sameFile_of_absolute (absolute : isAbsolute path = true) :
    SameFile path (pathText (normalizePath path)) := by
  intro tree workingDir node _ found
  have written : path ≠ [] := by
    obtain ⟨rest, rfl⟩ := isAbsolute_iff.mp absolute
    exact List.cons_ne_nil _ _
  rw [denotes, if_neg written, if_pos absolute] at found
  obtain ⟨rfl, present⟩ := Paths.Tree.lands_of_walk (by rw [tree.root]; rfl) found
  rw [normalizePath_eq, if_pos absolute]
  exact denotes_root_names (stack_names path) present

theorem sameFile_of_staysBelow (relative : isAbsolute path ≠ true) (below : StaysBelow path) :
    SameFile path (pathText (normalizePath path)) := by
  obtain ⟨grounded, more⟩ := below
  intro tree workingDir node directory found
  have written : path ≠ [] := by
    rintro rfl
    exact absurd more (by decide)
  rw [denotes, if_neg written, if_neg relative] at found
  obtain ⟨rfl, present⟩ := Paths.Tree.lands_of_walk (by rw [directory]; rfl) found
  have apart : lands workingDir (pathSteps path) = lands [] (pathSteps path) ++ workingDir :=
    @lands_append_of_grounded _ _ _ [] grounded
  have some_ : lands [] (pathSteps path) ≠ [] := by
    intro none_
    have same := @length_lands _ _ [] grounded
    rw [none_, List.length_nil] at same
    omega
  rw [apart] at present ⊢
  rw [normalizePath_eq, if_neg relative, List.nil_append]
  exact denotes_names some_ (stack_names path) present

/-- In a tree of directories, from a deep one, a path that climbs is normalised to another. -/
theorem staysBelow_of_sameFile (written : path ≠ []) (relative : isAbsolute path ≠ true)
    (same : SameFile path (pathText (normalizePath path))) : StaysBelow path := by
  have found : denotes (.full Text) (List.replicate (ups (pathSteps path)) ['d']) path =
      some (lands (List.replicate (ups (pathSteps path)) ['d']) (pathSteps path)) := by
    rw [denotes, if_neg written, if_neg relative]
    exact Paths.Tree.walk_full _ _
  have other := same (.full Text) _ _ rfl found
  rw [normalizePath_eq, if_neg relative, List.nil_append] at other
  have some_ : lands [] (pathSteps path) ≠ [] := by
    intro none_
    rw [none_] at other
    cases other
  rw [denotes_names some_ (stack_names path) rfl, Option.some.injEq] at other
  have grounded := grounded_of_lands_append (by simp) other.symm
  refine ⟨grounded, ?_⟩
  have same := @length_lands _ _ [] grounded
  have := List.length_pos_iff.mpr some_
  rw [List.length_nil] at same
  omega

/-- The path an import is read from denotes what the joined path denotes exactly when that
path is absolute or empty, or stays below its start. -/
theorem importPath_sameFile_iff (baseDir location : Text) :
    SameFile (join baseDir location) (importPath baseDir location) ↔
      isAbsolute (join baseDir location) = true ∨ join baseDir location = [] ∨ StaysBelow (join baseDir location) := by
  constructor
  · intro same
    by_cases absolute : isAbsolute (join baseDir location) = true
    · exact .inl absolute
    · by_cases written : join baseDir location = []
      · exact .inr (.inl written)
      · exact .inr (.inr (staysBelow_of_sameFile written absolute same))
  · intro condition
    by_cases absolute : isAbsolute (join baseDir location) = true
    · exact sameFile_of_absolute absolute
    · rcases condition with wrong | none_ | below
      · exact absurd wrong absolute
      · intro tree workingDir node _ found
        rw [none_] at found
        cases found
      · exact sameFile_of_staysBelow absolute below

/-- A loader over the files of a tree loads what the joined path denotes there. -/
theorem fileWsdlLoader_loads {readFile : Text → Except Text Text}
    {contents : List Text → Option Text}
    (reads : ∀ path node bytes, denotes tree workingDir path = some node → contents node = some bytes →
      readFile path = .ok bytes)
    (directory : tree.kind workingDir = some .directory) {baseDir location bytes : Text}
    (same : SameFile (join baseDir location) (importPath baseDir location))
    (found : denotes tree workingDir (join baseDir location) = some node) (held : contents node = some bytes) :
    fileWsdlLoader readFile baseDir location = .ok bytes := by
  have read := reads _ _ _ (same tree workingDir node directory found) held
  rw [fileWsdlLoader, read]

/-- From a directory below the root, `../common.xsd` is read in that directory itself. -/
theorem climbing_import_misread :
    ¬ ∀ baseDir location, SameFile (join baseDir location) (importPath baseDir location) := by
  intro same
  have found : denotes (.full Text) ["wsdl".toList] (join [] "../common.xsd".toList) = some ["common.xsd".toList] := by
    decide +kernel
  have other : denotes (.full Text) ["wsdl".toList] (importPath [] "../common.xsd".toList) =
      some ["common.xsd".toList, "wsdl".toList] := by
    decide +kernel
  have wrong := (same [] "../common.xsd".toList (.full Text) ["wsdl".toList] _ rfl found).symm.trans other
  revert wrong
  decide +kernel

end SoapServer.Server
