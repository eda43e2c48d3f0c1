import AccessiblePdf.Document.Basic

/-!
The objects that can be reached from the trailer of a document, and the document without the others.
-/
namespace AccessiblePdf

mutual

/-- The references in an object, in order. -/
def Object.references : Object → List ObjectId
  | .reference id => [id]
  | .array items => referencesIn items
  | .dictionary d => referencesOf d.entries
  | .stream d _ => referencesOf d.entries
  | _ => []

def referencesIn : List Object → List ObjectId
  | [] => []
  | o :: os => o.references ++ referencesIn os

def referencesOf : List (Bytes × Object) → List ObjectId
  | [] => []
  | (_, o) :: es => o.references ++ referencesOf es

end

namespace Document

/-- Adds the ids that are not seen yet, to what is seen and to the frontier. -/
def discover (seen frontier : List ObjectId) : List ObjectId → List ObjectId × List ObjectId
  | [] => (seen, frontier)
  | id :: ids =>
    if seen.contains id then discover seen frontier ids
    else discover (id :: seen) (id :: frontier) ids

/-- The ids that are seen or can be reached from the frontier; at most `fuel` objects are looked
into. -/
def reachFrom (doc : Document) : Nat → List ObjectId → List ObjectId → List ObjectId
  | 0, seen, _ => seen
  | _ + 1, seen, [] => seen
  | fuel + 1, seen, id :: frontier =>
    match doc.objects.get? id with
    | some o =>
      let (seen, frontier) := discover seen frontier o.references
      reachFrom doc fuel seen frontier
    | none => reachFrom doc fuel seen frontier

/-- References anywhere in the document; each of them is on the frontier at most once. -/
def referenceCount (doc : Document) : Nat :=
  (referencesOf doc.trailer.entries).length +
    doc.objects.entries.foldl (fun n e => n + e.2.references.length) 0

/-- The ids that can be reached from the trailer. -/
def reachable (doc : Document) : List ObjectId :=
  let (seen, frontier) := discover [] [] (referencesOf doc.trailer.entries)
  doc.reachFrom (doc.referenceCount + 1) seen frontier

/-- The document without the objects that cannot be reached. -/
def prune (doc : Document) : Document :=
  let ids := doc.reachable
  { doc with objects := doc.objects.filterKeys ids.contains }

end Document

end AccessiblePdf
