import Mathlib.Data.Char
import Mathlib.Data.List.Lex
import Mathlib.Data.List.Sort
import SoapServer.Library.Transducers
import SoapServer.Markup.Pieces

/-! Masking in the conformance harness: the loops that write a document again with the text at
given paths replaced.

Attributes are sorted by the bytes of their names, which order as the characters do.
-/

set_option autoImplicit false

namespace SoapServer.Crossref

open Markup hiding localName

/-- Why the harness gives up on a document. -/
inductive Failure where
  | reader (message : Text)
  | attribute
  | namespace (declared : Text)
  | message (text : Text)
  deriving DecidableEq, Repr

def maskSentinel : Text := "__MASKED__".toList

structure MaskRule where
  segments : List Text
  deriving DecidableEq, Repr

def MaskRule.new (path : Text) : MaskRule := ⟨path.splitOn '/'⟩

def pathMatches (segments stack : List Text) : Bool :=
  stack.length = segments.length && (stack.zip segments).all fun pair => pair.1 = pair.2

def MaskRule.matchesStack (rule : MaskRule)
    (stack : List Text) : Bool := pathMatches rule.segments stack

/-- What stands behind the last colon of a name. -/
def localNameStr (raw : Text) : Text := (raw.reverse.takeWhile (· ≠ ':')).reverse

def localName (tag : ReadTag) : Text := localNameStr tag.name

/-- The attributes that the iterator yields, or its first error. -/
def allAttributes (tag : ReadTag) : Except Failure (List Attribute) :=
  tag.attributes.mapM fun read =>
    match read with
    | some a => .ok a
    | none => .error .attribute

def sortByKey (attributes : List Attribute) : List Attribute :=
  attributes.insertionSort fun a b => a.key ≤ b.key

/-- A tag in its text form. -/
def tagSource (empty : Bool) (tag : Tag) : Text :=
  if empty then emptyText tag.writeBody else startText tag.writeBody

/-- Values are stored as they stand, between double quotes. -/
def writeSortedStart (tag : ReadTag) (empty : Bool) : Except Failure Text := do
  let attributes ← allAttributes tag
  .ok (tagSource empty ⟨tag.name, sortByKey attributes⟩)

/-- The loop over the events of a reader, up to its end or first error. -/
def eachEvent {σ : Type} (step : σ → RawEvent → Except Failure (Text × σ)) (s : σ) :
    Except Text RawEvent → Except Failure (Text × σ)
  | .error e => .error (.reader e)
  | .ok event => step s event

def rewriteAll {σ : Type} (step : σ → RawEvent → Except Failure (Text × σ)) (start : σ)
    (items : List (Except Text RawEvent)) : Except Failure Text :=
  (Transducers.run (eachEvent step) start items).map Prod.fst

def masked (masks : List MaskRule) (stack : List Text) : Bool := masks.any (·.matchesStack stack)

/-- References come under the events that are written as they are. -/
def normalizeEvent (masks : List MaskRule) (stack : List Text) :
    RawEvent → Except Failure (Text × List Text)
  | .start _ tag => do
    let written ← writeSortedStart tag false
    .ok (written, stack ++ [localName tag])
  | .empty _ tag => do
    let written ← writeSortedStart tag true
    .ok (written, (stack ++ [localName tag]).dropLast)
  | .close name _ => .ok (closeTag name, stack.dropLast)
  | .data (.text raw) => .ok (if masked masks stack then maskSentinel else (Data.text raw).write, stack)
  | .data (.cdata raw) => .ok (if masked masks stack then maskSentinel else (Data.cdata raw).write, stack)
  | .data other => .ok (other.write, stack)

/-- Parse, mask the text at the given paths, and write the document with sorted attributes. -/
def normalize (reader : RawReader) (xml : Text) (masks : List MaskRule) : Except Failure Text :=
  rewriteAll (normalizeEvent masks) [] (reader xml)

structure AttrMaskRule where
  segments : List Text
  attr : Text
  deriving DecidableEq, Repr

def AttrMaskRule.new (path attr : Text) : AttrMaskRule := ⟨path.splitOn '/', attr⟩

def AttrMaskRule.matchesPath (rule : AttrMaskRule)
    (stack : List Text) : Bool := pathMatches rule.segments stack

def AttrMaskRule.shouldDropAttr (rule : AttrMaskRule) (stack : List Text)
    (attrName : Text) : Bool :=
  rule.matchesPath stack && rule.attr = attrName

def writeMaskedStart (tag : ReadTag) (stack : List Text) (attrMasks : List AttrMaskRule)
    (empty : Bool) :
    Except Failure Text := do
  let attributes ← allAttributes tag
  let kept := attributes.filter fun a => !attrMasks.any fun rule => rule.shouldDropAttr stack a.key
  .ok (tagSource empty ⟨tag.name, sortByKey kept⟩)

/-- The open elements, and whether the sentinel is written for the content of the current one. -/
structure MaskState where
  stack : List Text
  sentinelWritten : Bool
  deriving DecidableEq, Repr

/-- Character data at a masked path is written once, as the sentinel. -/
def maskRun (textMasks : List MaskRule) (s : MaskState) (d : Data) : Text × MaskState :=
  if masked textMasks s.stack then
    if s.sentinelWritten then ([], s) else (maskSentinel, { s with sentinelWritten := true })
  else (d.write, s)

def applyMasksEvent (textMasks : List MaskRule) (attrMasks : List AttrMaskRule) (s : MaskState) :
    RawEvent → Except Failure (Text × MaskState)
  | .start _ tag => do
    let stack := s.stack ++ [localName tag]
    let written ← writeMaskedStart tag stack attrMasks false
    .ok (written, ⟨stack, false⟩)
  | .empty _ tag => do
    let stack := s.stack ++ [localName tag]
    let written ← writeMaskedStart tag stack attrMasks true
    .ok (written, ⟨stack.dropLast, false⟩)
  | .close name _ => .ok (closeTag name, ⟨s.stack.dropLast, false⟩)
  | .data (.text raw) => .ok (maskRun textMasks s (.text raw))
  | .data (.cdata raw) => .ok (maskRun textMasks s (.cdata raw))
  -- a reference at a masked path is dropped, and no sentinel stands for it
  | .data (.generalRef name) =>
    .ok (if masked textMasks s.stack then [] else (Data.generalRef name).write, s)
  | .data other => .ok (other.write, s)

def applyMasks (reader : RawReader) (xml : Text) (textMasks : List MaskRule)
    (attrMasks : List AttrMaskRule) :
    Except Failure Text :=
  rewriteAll (applyMasksEvent textMasks attrMasks) ⟨[], false⟩ (reader xml)

end SoapServer.Crossref
