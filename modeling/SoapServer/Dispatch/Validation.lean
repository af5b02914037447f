import SoapServer.Externals
import SoapServer.Fault
import SoapServer.Xsd.Parser

/-! The structural check of a request body: that the required children are there. -/

set_option autoImplicit false

namespace SoapServer.Dispatch

open Markup (Text Event localName)
open Xsd

/-- A choice requires none of its elements. -/
def collectRequiredFromContent : ComplexContent → List Text
  | .sequence els | .all els => els.filterMap fun el => if el.minOccurs > 0 then el.name else none
  | .choice _ | .empty | .simpleContent _ => []
  -- content that was not resolved: the base is not looked at
  | .complexExtension _ content | .complexRestriction _ content => collectRequiredFromContent content

def collectRequiredElementNames : XsdType → List Text
  | .complex ct => collectRequiredFromContent ct.content
  | .simple _ => []

/-- The local names of the elements one level below the root. -/
def childElementNames : Nat → List Text → List (Except Text Event) → Except Text (List Text)
  | _, children, [] => .ok children
  | _, _, .error e :: _ => .error e
  | depth, children, .ok (.start tag) :: rest =>
    childElementNames (depth + 1) (if depth + 1 = 2 then localName tag.name :: children else children) rest
  | depth, children, .ok (.empty tag) :: rest =>
    childElementNames depth (if depth = 1 then localName tag.name :: children else children) rest
  | depth, children, .ok (.close _) :: rest =>
    -- an end tag with nothing open ends the reading
    if depth = 0 then .ok children else childElementNames (depth - 1) children rest
  | depth, children, .ok (.data _) :: rest => childElementNames depth children rest

def parseChildElementNames (ext : Externals) (bodyBytes : Text) : Except Text (List Text) :=
  childElementNames 0 [] (ext.xml.events true bodyBytes)

/-- The first required name that is missing is reported. -/
def validateRequest (ext : Externals) (bodyBytes : Text) (typeRegistry : TypeRegistry)
    (inputType : Option QName) : Outcome Unit :=
  match inputType.bind typeRegistry.lookup with
  -- a type that the registry does not know requires nothing
  | none => .ok ()
  | some xsdType =>
    let requiredNames := collectRequiredElementNames xsdType
    if requiredNames = [] then .ok ()
    else
      match parseChildElementNames ext bodyBytes with
      | .error e => senderFault ("Schema validation failed: malformed XML: ".toList ++ e)
      | .ok presentChildren =>
        match requiredNames.find? fun required => required ∉ presentChildren with
        | some required =>
          senderFault
            ("Schema validation failed: required element '".toList ++ required ++ "' is missing".toList)
        | none => .ok ()

end SoapServer.Dispatch
