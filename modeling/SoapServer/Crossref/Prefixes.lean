import SoapServer.Crossref.Masks
import SoapServer.Library.SortedSets
import SoapServer.Tree

/-! Canonical prefixes in the conformance harness: each namespace gets one prefix by the order
of the namespaces, declared on the root.
-/

set_option autoImplicit false

namespace SoapServer.Crossref

open Markup hiding localName

def xmlText : Text := "xml".toList

/-! The namespaces that the reader has in scope. -/

def pushScope (scope : Scope) (tag : ReadTag) : Except Failure Scope :=
  match tag.attributes.reduceOption.find? refusedBinding with
  | some a => .error (.namespace a.key)
  | none => .ok (scope.enter tag.attributes.reduceOption)

/-- The scope of the innermost open element. -/
def currentScope (scopes : List Scope) : Scope := scopes.headD Scope.initial

/-! The first pass: the namespaces in use. -/

def insertUnlessXml (uri : Text) (uris : List Text) : List Text :=
  if uri = xmlNamespace then uris else SortedSets.insert uri uris

/-- The prefix `xml` is reserved. -/
def isXmlKey (key : Text) : Bool := (stripPrefix "xml:".toList key).isSome

def collectAttrUris (scope : Scope) (uris : List Text)
    (read : Option Attribute) : Except Failure (List Text) :=
  match read with
  | none => .error .attribute
  | some a =>
    if a.declares.isSome || isXmlKey a.key then .ok uris
    else
      match resolveAttribute scope a.key with
      | .bound auri => .ok (insertUnlessXml auri uris)
      | .unbound | .unknown _ => .ok uris

def collectTag (scope : Scope) (uris : List Text) (tag : ReadTag) : Except Failure (List Text) :=
  match resolveElement scope tag.name with
  | .bound ns => tag.attributes.foldlM (collectAttrUris scope) (insertUnlessXml ns uris)
  | .unbound => tag.attributes.foldlM (collectAttrUris scope) uris
  | .unknown _ => .ok uris

structure CollectState where
  uris : List Text
  scopes : List Scope
  deriving DecidableEq, Repr

def collectEvent (s : CollectState) : Except Text RawEvent → Except Failure CollectState
  | .error e => .error (.reader e)
  | .ok (.start _ tag) => do
    let scope ← pushScope (currentScope s.scopes) tag
    let uris ← collectTag scope s.uris tag
    .ok ⟨uris, scope :: s.scopes⟩
  | .ok (.empty _ tag) => do
    let scope ← pushScope (currentScope s.scopes) tag
    let uris ← collectTag scope s.uris tag
    .ok ⟨uris, s.scopes⟩
  | .ok (.close _ _) => .ok ⟨s.uris, s.scopes.tail⟩
  | .ok (.data _) => .ok s

def collectUsedUris (reader : RawReader) (xml : Text) : Except Failure (List Text) :=
  ((reader xml).foldlM collectEvent ⟨[], []⟩).map CollectState.uris

/-! The second pass. -/

/-- Canonical prefixes by namespace. -/
abbrev PrefixMap := List (Text × Text)

/-- The prefix of the namespace with this index: `n0`, `n1` and so on. -/
def indexPrefix (i : Nat) : Text := 'n' :: Nat.toDigits 10 i

def uriToPrefix (usedUris : List Text) : PrefixMap := usedUris.zipIdx.map fun entry => (entry.1, indexPrefix entry.2)

/-- The canonical prefix of an element, empty without a namespace. -/
def resolvedCanonicalPrefix (resolve : ResolveResult)
    (prefixes : PrefixMap) : Except Failure Text :=
  match resolve with
  | .bound uri =>
    match prefixes.lookup uri with
    | some found => .ok found
    | none => .error (.message ("unmapped namespace URI: ".toList ++ uri))
  | .unbound => .ok []
  | .unknown pfx => .error (.message ("unknown namespace prefix: ".toList ++ pfx))

def qualified (pfx localPart : Text) : Text := if pfx = [] then localPart else pfx ++ ':' :: localPart

/-- In the order of the prefixes as texts: `n10` comes before `n2`. -/
def sortByPrefix (prefixes : PrefixMap) : PrefixMap := prefixes.insertionSort fun a b => a.2 ≤ b.2

def rootDeclarations (prefixes : PrefixMap) : List Attribute :=
  (sortByPrefix prefixes).map fun d => ⟨"xmlns:".toList ++ d.2, d.1⟩

/-- An attribute under its canonical name; none for a declaration. -/
def canonAttribute (scope : Scope) (prefixes : PrefixMap) (a : Attribute) : Option Attribute :=
  if a.declares.isSome then none
  else if isXmlKey a.key then some a
  else
    match splitOnce ':' a.key with
    | some (_, localPart) =>
      match resolveAttribute scope a.key with
      | .bound auri =>
        match prefixes.lookup auri with
        | some newPfx => some ⟨newPfx ++ ':' :: localPart, a.value⟩
        | none => some a
      | .unbound | .unknown _ => some a
    | none => some a

def attrValueChar (c : Char) : Text :=
  if c = '"' then "&quot;".toList else if c = '<' then "&lt;".toList else if c = '&' then "&amp;".toList else [c]

/-- The raw value is escaped: a reference in it loses its meaning. -/
def writeAttrValue (v : Text) : Text := v.flatMap attrValueChar

def writtenAttribute (a : Attribute) : Attribute := ⟨a.key, writeAttrValue a.value⟩

/-- A tag with its canonical names; the root declares all namespaces. -/
def canonTag (scope : Scope) (prefixes : PrefixMap) (isRoot : Bool) (cpfx localPart : Text)
    (attributes : List Attribute) :
    Tag :=
  ⟨qualified cpfx localPart, (if isRoot then rootDeclarations prefixes else []) ++
    (sortByKey (attributes.filterMap (canonAttribute scope prefixes))).map writtenAttribute⟩

def emitCanonStart (tag : ReadTag) (cpfx localPart : Text) (prefixes : PrefixMap) (scope : Scope)
    (isRoot isEmpty : Bool) : Except Failure Text := do
  let attributes ← allAttributes tag
  .ok (tagSource isEmpty (canonTag scope prefixes isRoot cpfx localPart attributes))

/-- The open elements by canonical prefix and local name, the innermost first. -/
structure CanonState where
  scopes : List Scope
  firstElement : Bool
  elemStack : List (Text × Text)
  deriving DecidableEq, Repr

def canonEvent (prefixes : PrefixMap) (s : CanonState) :
    RawEvent → Except Failure (Text × CanonState)
  | .start _ tag => do
    let scope ← pushScope (currentScope s.scopes) tag
    let cpfx ← resolvedCanonicalPrefix (resolveElement scope tag.name) prefixes
    let written ← emitCanonStart tag cpfx (localName tag) prefixes scope s.firstElement false
    .ok (written, ⟨scope :: s.scopes, false, (cpfx, localName tag) :: s.elemStack⟩)
  | .empty _ tag => do
    let scope ← pushScope (currentScope s.scopes) tag
    let cpfx ← resolvedCanonicalPrefix (resolveElement scope tag.name) prefixes
    let written ← emitCanonStart tag cpfx (localName tag) prefixes scope s.firstElement true
    .ok (written, ⟨s.scopes, false, s.elemStack⟩)
  | .close _ _ =>
    match s.elemStack with
    | (cpfx, localPart) :: rest => .ok (closeTag (qualified cpfx localPart), ⟨s.scopes.tail, s.firstElement, rest⟩)
    | [] => .error (.message "end tag without matching start".toList)
  | .data (.text raw) => .ok ((Data.text raw).write, s)
  | .data (.cdata raw) => .ok ((Data.cdata raw).write, s)
  | .data (.generalRef name) => .ok ((Data.generalRef name).write, s)
  | .data _ => .ok ([], s)

/-- Write a document again with a canonical prefix for each namespace in use. -/
def canonicalizePrefixes (reader : RawReader) (xml : Text) : Except Failure Text := do
  let usedUris ← collectUsedUris reader xml
  rewriteAll (canonEvent (uriToPrefix usedUris)) ⟨[], true, []⟩ (reader xml)

/-- Text and attribute masks, then canonical prefixes. -/
def maskOnly (reader : RawReader) (xml : Text) (textMasks : List MaskRule)
    (attrMasks : List AttrMaskRule) :
    Except Failure Text := do
  let masked ← applyMasks reader xml textMasks attrMasks
  canonicalizePrefixes reader masked

end SoapServer.Crossref
