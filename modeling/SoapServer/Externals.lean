import SoapServer.Markup.Scanner

/-! The libraries the server calls, as parameters. -/

set_option autoImplicit false

namespace SoapServer

open Markup (Text Reader)

/-- `escape` is the XML escaping of the reader's library. `parseRfc3339` gives
nanoseconds since the Unix epoch. `base64Decode` and `base64Encode` are the standard
alphabet with padding; a decoding error carries its message. -/
structure Externals where
  xml : Reader
  escape : Text → Text
  sha1 : List UInt8 → List UInt8
  base64Decode : Text → Except Text (List UInt8)
  base64Encode : List UInt8 → Text
  parseRfc3339 : Text → Option Int

def escapeChar : Char → Text
  | '<' => "&lt;".toList
  | '>' => "&gt;".toList
  | '&' => "&amp;".toList
  | '\'' => "&apos;".toList
  | '"' => "&quot;".toList
  | c => [c]

/-- The scanner as the reader; no digest, and no text that decodes or is a time. -/
def Externals.scanning : Externals where
  xml := Markup.scanner
  escape s := s.flatMap escapeChar
  sha1 _ := []
  base64Decode _ := .error "Invalid padding".toList
  base64Encode _ := []
  parseRfc3339 _ := none

theorem Externals.scanning_lawful : Externals.scanning.xml.Lawful := Markup.scanner_lawful

end SoapServer
