import SoapServer.Markup.Text

/-! Qualified names. -/

set_option autoImplicit false

namespace SoapServer

open Markup (Text)

/-- A local name with an optional namespace URI. -/
structure QName where
  namespaceUri : Option Text
  localName : Text
  deriving DecidableEq, Repr

def QName.new (ns localName : Text) : QName := ⟨some ns, localName⟩

def QName.local (localName : Text) : QName := ⟨none, localName⟩

/-- The `Display` form: `{namespace}local`. -/
def QName.toText (q : QName) : Text :=
  match q.namespaceUri with
  | some ns => '{' :: (ns ++ '}' :: q.localName)
  | none => q.localName

end SoapServer
