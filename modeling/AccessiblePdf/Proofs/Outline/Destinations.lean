import AccessiblePdf.Proofs.Document.Retention
import AccessiblePdf.Proofs.Report.Loops
import AccessiblePdf.Proofs.Table
import AccessiblePdf.Proofs.Text.Keys

/-!
Where the items of an outline lead. An item states its destination itself or in an action
(`HasDestination`), and the destination is an array, a dictionary that holds one, or a name or a string for
either (`LeadsTo`). The page of an item is that of the array in whichever of these forms it is given, but
for one: behind a name a dictionary is not read, and the item has no page (`outline_pages`).
-/
namespace AccessiblePdf

/-- The forms of a destination: an array, a dictionary that holds one, and a name or a string for an array
or for such a dictionary. -/
inductive DestinationForm where
  | explicit
  | held
  | named
  | namedHeld
deriving DecidableEq, Repr

namespace Document

variable {doc : Document} {catalog item d : Dict Object} {items : List Object} {o v : Object}
  {text : String} {form : DestinationForm}

/-! ## Names -/

/-- What the catalog gives names, in the order in which it is read: the dictionary of destinations, and
then the leaves of the name tree. -/
def destinationNames (doc : Document) (catalog : Dict Object) : List (String × Object) :=
  ((doc.entryDict? catalog "Dests").getD ∅).toList.map (fun e => (Utf8.decodeLossy e.1, e.2)) ++
    ((doc.entryDict? catalog "Names").bind (doc.entryDict? · "Dests")).toList.flatMap
      (doc.nameLeaves treeDepth)

/-- The catalog maps a text to a value; the last of several values counts. -/
def Maps (doc : Document) (catalog : Dict Object) (text : String) (v : Object) : Prop :=
  Table.IsLast (doc.destinationNames catalog) text v

theorem namedDestinations_eq (doc : Document) (catalog : Dict Object) (text : String) :
    (doc.namedDestinations catalog)[text]? = ((doc.destinationNames catalog).foldl
      (fun t e => t.insert e.1 e.2) (∅ : Std.TreeMap String Object))[text]? := by
  rw [namedDestinations, destinationNames, List.foldl_append, List.foldl_map]
  cases (doc.entryDict? catalog "Names").bind (doc.entryDict? · "Dests") with
  | none => rfl
  | some tree =>
    simp only [Option.toList_some, List.flatMap_singleton]
    rw [Table.getElem?_foldl_or (doc.nameLeaves treeDepth tree), Table.getElem?_foldl (fun o => o),
      Option.map_id']
    rfl

theorem namedDestinations_iff :
    (doc.namedDestinations catalog)[text]? = some v ↔ doc.Maps catalog text v := by
  rw [namedDestinations_eq]
  exact Table.getElem?_foldl_iff

/-! ## Destinations -/

/-- An object is a name or a string for a text. -/
inductive Spells (doc : Document) (o : Object) : String → Prop where
  | name {bytes : Bytes} (name : doc.resolve o = .name bytes) : Spells doc o (Utf8.decodeLossy bytes)
  | string {bytes : Bytes} {style : StringStyle} (string : doc.resolve o = .string bytes style) :
    Spells doc o (TextString.decode bytes)

theorem spells_utf8 (unmarked : TextString.unmark text = text) :
    doc.Spells (.string (utf8 text) .literal) text := by
  have hspells : doc.Spells (.string (utf8 text) .literal) (TextString.decode (utf8 text)) := .string rfl
  rwa [TextString.decode_utf8, unmarked] at hspells

/-- An object leads to an array, in one of the forms of a destination. -/
inductive LeadsTo (doc : Document) (catalog : Dict Object) (items : List Object) :
    DestinationForm → Object → Prop where
  | explicit {o : Object} (array : doc.resolve o = .array items) : LeadsTo doc catalog items .explicit o
  | held {o v : Object} {d : Dict Object} (dictionary : doc.resolve o = .dictionary d)
      (entry : d.get? "D" = some v) (array : doc.resolve v = .array items) :
    LeadsTo doc catalog items .held o
  | named {o v : Object} {text : String} (spells : doc.Spells o text) (maps : doc.Maps catalog text v)
      (array : doc.resolve v = .array items) : LeadsTo doc catalog items .named o
  | namedHeld {o v w : Object} {text : String} {d : Dict Object} (spells : doc.Spells o text)
      (maps : doc.Maps catalog text v) (dictionary : doc.resolve v = .dictionary d)
      (entry : d.get? "D" = some w) (array : doc.resolve w = .array items) :
    LeadsTo doc catalog items .namedHeld o

/-- An object is the destination of an item: its own, or, where it has none, that of its action. -/
inductive HasDestination (doc : Document) (item : Dict Object) (o : Object) : Prop where
  | own (entry : item.get? "Dest" = some o)
  | action {action : Dict Object} (absent : item.get? "Dest" = none)
      (dictionary : doc.entryDict? item "A" = some action)
      (goTo : doc.entryName? action "S" = some "GoTo") (entry : action.get? "D" = some o)

theorem resolve_resolve (doc : Document) (o : Object) : doc.resolve (doc.resolve o) = doc.resolve o := by
  cases o with
  | reference id =>
    rw [resolve]
    cases h : doc.get? id with
    | none => rfl
    | some o => exact resolve_of_direct doc (direct_of_get? h)
  | _ => rfl

theorem HasDestination.destination?_eq (h : doc.HasDestination item o) :
    doc.destination? item = some (doc.resolve o) := by
  cases h with
  | own entry => rw [destination?, value?, entry, Option.map_some]
  | @action action absent dictionary goTo entry =>
    rw [destination?, value?_of_none absent]
    simp only [dictionary]
    show (if doc.entryName? action "S" = some "GoTo" then doc.value? action "D" else none) = _
    rw [if_pos goTo, value?, entry, Option.map_some]

theorem Spells.destinationPage?_eq (h : doc.Spells o text) (pages : Std.TreeMap ObjectId Nat)
    (named : Std.TreeMap String Object) : doc.destinationPage? pages named o =
      ((named[text]?.map doc.resolve).bind Object.array?).bind (explicitPage? pages) := by
  cases h with
  | name name => simp only [destinationPage?, name]
  | string string => simp only [destinationPage?, string]

theorem LeadsTo.destinationPage?_eq (h : doc.LeadsTo catalog items form o) :
    doc.destinationPage? doc.pageNumbers (doc.namedDestinations catalog) o =
      if form = .namedHeld then none else explicitPage? doc.pageNumbers items := by
  cases h with
  | explicit array => simp [destinationPage?, array]
  | held dictionary entry array =>
    simp [destinationPage?, dictionary, entry, array, Object.array?]
  | named spells maps array =>
    rw [spells.destinationPage?_eq, namedDestinations_iff.mpr maps]
    simp [array, Object.array?]
  | namedHeld spells maps dictionary entry array =>
    -- Behind the name only an array is read, and here is a dictionary.
    rw [spells.destinationPage?_eq, namedDestinations_iff.mpr maps]
    simp [dictionary, Object.array?]

theorem destinationPage?_resolve (doc : Document) (pages : Std.TreeMap ObjectId Nat)
    (named : Std.TreeMap String Object) (o : Object) :
    doc.destinationPage? pages named (doc.resolve o) = doc.destinationPage? pages named o := by
  rw [destinationPage?, destinationPage?, resolve_resolve]

/-! ## Items -/

theorem HasDestination.page_eq {c : OutlineContext} (h : c.doc.HasDestination item o) :
    (c.item item).page = c.doc.destinationPage? c.pages c.named o := by
  show (c.doc.destination? item).bind _ = _
  rw [h.destination?_eq, Option.bind_some, destinationPage?_resolve]

/-- The outline of a document has the items of the objects that a reader enters, and the page of an item
is that of the array to which its destination leads, in whichever form and wherever the destination is
given, unless a name or a string stands for a dictionary that holds the array; then there is none. -/
theorem outline_pages (doc : Document) (catalog : Dict Object) :
    let c : OutlineContext := ⟨doc, doc.pageNumbers, doc.namedDestinations catalog⟩
    (∃ entered : List ObjectId, Tree.valuesAll (doc.outline catalog) =
      entered.filterMap fun id => (doc.dict? id).map c.item) ∧
    ∀ item o items form, doc.HasDestination item o → doc.LeadsTo catalog items form o →
      (c.item item).page =
        if form = .namedHeld then none else explicitPage? doc.pageNumbers items := by
  intro c
  refine ⟨?_, fun item o items form destined leads => ?_⟩
  · rw [outline]
    split
    · exact ⟨[], rfl⟩
    · next root hroot =>
      obtain ⟨entered, -, -, -, -, hitems⟩ :=
        readOutline_entered c maxOutlineItems ∅ (link? root "First")
      exact ⟨entered, hitems⟩
  · exact (HasDestination.page_eq (c := c) destined).trans leads.destinationPage?_eq

/-! ## Two chapters -/

/-- A destination on the page. -/
def wholePage : List Object := [.reference ⟨3, 0⟩, .name "Fit"]

/-- The names of two chapters: one for a destination, the other for a dictionary that holds it. -/
def chapterNames : Dict Object :=
  .ofList [(utf8 "one", .array wholePage), (utf8 "two", .ofEntries [(utf8 "D", .array wholePage)])]

/-- The catalog of a document of one page in which the chapters have names. -/
def chapterCatalog : Dict Object :=
  .ofList [(utf8 "Pages", .reference ⟨2, 0⟩), (utf8 "Dests", .dictionary chapterNames)]

def chapterDocument : Document where
  version := "1.7"
  trailer := .ofList [(utf8 "Root", .reference ⟨1, 0⟩)]
  objects := .ofList [(⟨1, 0⟩, .dictionary chapterCatalog),
    (⟨2, 0⟩, .ofEntries [(utf8 "Type", .name "Pages"), (utf8 "Kids", .array [.reference ⟨3, 0⟩])]),
    (⟨3, 0⟩, .ofEntries [(utf8 "Type", .name "Page")])]
  maxId := 3

/-- An item that leads to a chapter by its action. -/
def chapterItem (name : Bytes) : Dict Object :=
  .ofList [(utf8 "A", .ofEntries [(utf8 "S", .name "GoTo"), (utf8 "D", .string name .literal)])]

theorem chapterItem_destination (name : Bytes) :
    chapterDocument.HasDestination (chapterItem name) (.string name .literal) :=
  .action rfl rfl (entryName?_utf8 rfl) rfl

theorem destinationNames_chapterDocument : chapterDocument.destinationNames chapterCatalog =
    [("one", .array wholePage), ("two", .ofEntries [(utf8 "D", .array wholePage)])] := by
  with_unfolding_all rfl

theorem chapter_one : chapterDocument.LeadsTo chapterCatalog wholePage .named
    (.string (utf8 "one") .literal) :=
  .named (spells_utf8 rfl) ⟨[], _, destinationNames_chapterDocument, by decide⟩ rfl

theorem chapter_two : chapterDocument.LeadsTo chapterCatalog wholePage .namedHeld
    (.string (utf8 "two") .literal) :=
  .namedHeld (spells_utf8 rfl) ⟨[_], [], destinationNames_chapterDocument, by decide⟩ rfl rfl rfl

theorem explicitPage?_wholePage : explicitPage? chapterDocument.pageNumbers wholePage = some 1 := by
  have hpages : chapterDocument.pages = [⟨3, 0⟩] := pages_of_leaves rfl rfl (by decide) (by decide)
  rw [Document.pageNumbers, hpages]
  rfl

/-- One chapter has a page. -/
theorem outline_pages_chapters :
    let c : OutlineContext :=
      ⟨chapterDocument, chapterDocument.pageNumbers, chapterDocument.namedDestinations chapterCatalog⟩
    (c.item (chapterItem (utf8 "one"))).page = some 1 ∧
      (c.item (chapterItem (utf8 "two"))).page = none := by
  obtain ⟨-, hpage⟩ := outline_pages chapterDocument chapterCatalog
  exact ⟨(hpage _ _ _ _ (chapterItem_destination _) chapter_one).trans explicitPage?_wholePage,
    hpage _ _ _ _ (chapterItem_destination _) chapter_two⟩

/-- The other has none: a name does not agree with the dictionary for which it stands, given in place. -/
theorem chapters_disagree :
    let c : OutlineContext :=
      ⟨chapterDocument, chapterDocument.pageNumbers, chapterDocument.namedDestinations chapterCatalog⟩
    let two : Dict Object := .ofList [(utf8 "Dest", .ofEntries [(utf8 "D", .array wholePage)])]
    chapterDocument.LeadsTo chapterCatalog wholePage .namedHeld (.string (utf8 "two") .literal) ∧
      (c.item (chapterItem (utf8 "two"))).page = none ∧ (c.item two).page = some 1 := by
  intro c two
  have hdestination : c.doc.HasDestination two (.ofEntries [(utf8 "D", .array wholePage)]) := .own rfl
  have hheld : chapterDocument.LeadsTo chapterCatalog wholePage .held
    (.ofEntries [(utf8 "D", .array wholePage)]) := .held rfl rfl rfl
  exact ⟨chapter_two,
    (HasDestination.page_eq (c := c) (chapterItem_destination _)).trans chapter_two.destinationPage?_eq,
    hdestination.page_eq.trans (hheld.destinationPage?_eq.trans explicitPage?_wholePage)⟩

end Document

end AccessiblePdf
