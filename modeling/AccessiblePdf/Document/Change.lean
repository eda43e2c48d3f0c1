import AccessiblePdf.Document.Basic

/-!
Changes to the object table of a document: a new object, another object under an id, and another
dictionary or array in the object that an id stands for.
-/
namespace AccessiblePdf.Document

/-- Puts an object under an id. -/
def put (doc : Document) (id : ObjectId) (o : Object) : Document :=
  { doc with objects := doc.objects.insert id o }

/-- The id that the next new object gets. -/
def nextId (doc : Document) : ObjectId := ⟨doc.maxId + 1, 0⟩

/-- Gives the next id out, without an object under it. -/
def reserve (doc : Document) : Document := { doc with maxId := doc.maxId + 1 }

/-- Adds an object under a new id. -/
def add (doc : Document) (o : Object) : Document := doc.reserve.put doc.nextId o

/-- Changes the dictionary that an id stands for, if it stands for one. -/
def modifyDict? (doc : Document) (id : ObjectId) (f : Dict Object → Dict Object) :
    Option Document := do
  let target ← doc.target? id
  let d ← (← doc.objects.get? target).dictionary?
  some (doc.put target (.dictionary (f d)))

/-- Changes the array that an id stands for, if it stands for one. -/
def modifyArray? (doc : Document) (id : ObjectId) (f : List Object → List Object) :
    Option Document := do
  let target ← doc.target? id
  let items ← (← doc.objects.get? target).array?
  some (doc.put target (.array (f items)))

end AccessiblePdf.Document
