import SoapServer.Markup.Pieces
import SoapServer.TreeScanner

/-! A reader of pieces over the scanner, for documents that are written plainly. -/

set_option autoImplicit false

namespace Markup

/-- The documented behaviour of a reader of pieces: it reads back what is written plainly, where
no byte order mark comes first. -/
structure RawReader.ReadsBack (reader : RawReader) : Prop where
  written : ∀ c : Content, c.Writable → c.Normal → c.AllTags Tag.Unique → c.write.head? ≠ some byteOrderMark →
    reader c.write = stream c.pieces

end Markup

namespace SoapServer

open Markup

/-- The pieces of the document that the scanner finds in a text, if it finds one. -/
def pieceScanner : RawReader := fun xml =>
  match (scanner.events false xml).mapM id with
  | .error _ => []
  | .ok events =>
    match Tree.readContent (events.length + 1) events with
    | some (c, []) => stream c.pieces
    | _ => []

theorem pieceScanner_readsBack : RawReader.ReadsBack pieceScanner where
  written c writable normal unique markup := by
    have read : scanner.events false c.write = stream c.events := by
      have reads := scanner_lawful.written c writable markup
      rwa [Tree.coalesce_of_normal normal] at reads
    have found : Tree.readContent (c.events.length + 1) (c.events ++ []) = some (c, []) :=
      Tree.readContent_events unique (Nat.lt_succ_self c.events.length) (.inl rfl)
    rw [List.append_nil] at found
    rw [pieceScanner, read, Tree.mapM_stream]
    simp only [found]

end SoapServer
