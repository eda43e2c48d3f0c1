import AccessiblePdf.Document.Basic
import Std.Data.TreeMap

/-!
The role map: which standard roles the roles of a document stand for.
-/
namespace AccessiblePdf

namespace Document

/-- The role map of the root of the structure tree. -/
def roleMap (doc : Document) (root : Dict Object) : Std.TreeMap String String :=
  (((doc.entryDict? root "RoleMap").getD ∅).toList).foldl (fun map (role, target) =>
    match (doc.resolve target).nameText? with
    | some target => map.insert (Utf8.decodeLossy role) target
    | none => map) ∅

end Document

namespace Role

/-- Entries of the role map that are followed for one role. -/
def hops : Nat := 8

/-- Where the role map leads from a role within some hops. -/
def follow (map : Std.TreeMap String String) : Nat → String → String
  | 0, role => role
  | n + 1, role =>
    match map[role]? with
    | some next => if next = role then role else follow map n next
    | none => role

/-- The role that a role stands for. -/
def standard (map : Std.TreeMap String String) (role : String) : String := follow map hops role

end Role

end AccessiblePdf
