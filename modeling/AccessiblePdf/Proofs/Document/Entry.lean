import AccessiblePdf.Proofs.Document.Lookup
import AccessiblePdf.Proofs.Text.RoundTrip
import AccessiblePdf.Report.Basic

/-!
Entries of dictionaries: what a look-up gives for a value that is no reference, and for names and
texts that were written; and what a report finds by the entries of the catalog.
-/
namespace AccessiblePdf.Document

variable {doc : Document} {d : Dict Object} {key : Bytes} {o : Object}

theorem value?_of_direct (h : d.get? key = some o) (direct : o.isDirect = true) :
    doc.value? d key = some o := by
  rw [value?, h, Option.map_some, resolve_of_direct doc direct]

theorem value?_of_none (h : d.get? key = none) : doc.value? d key = none := by
  rw [value?, h, Option.map_none]

theorem entryName?_utf8 {s : String} (h : d.get? key = some (.name (utf8 s))) :
    doc.entryName? d key = some s := by
  rw [entryName?, value?_of_direct h rfl, Option.bind_some, Object.nameText?, Object.name?,
    Option.map_some, Utf8.decodeLossy_utf8]

theorem entryText?_map {s : Option String} (h : d.get? key = s.map TextString.object) :
    doc.entryText? d key = s := by
  cases s with
  | none => rw [entryText?, value?_of_none h]
  | some s =>
    rw [entryText?, value?_of_direct (o := TextString.object s) h rfl]
    exact congrArg some (TextString.decode_encode s)

theorem entryDict?_reference {id : ObjectId} {x : Dict Object} (h : d.get? key = some (.reference id))
    (hx : doc.dict? id = some x) : doc.entryDict? d key = some x := by
  rw [entryDict?, value?, h, Option.map_some, resolve, get?_of_dict? hx]
  rfl

theorem report_error (hx : doc.catalogDict? = none) (o : ReportOptions) :
    doc.report o = .error (match (doc.trailer.get? "Root").bind Object.reference? with
      | none => .missing .catalog
      | some _ => .unreadable) := by
  rw [catalogDict?] at hx
  unfold report
  cases hid : (doc.trailer.get? "Root").bind Object.reference? with
  | none => rfl
  | some id =>
    rw [hid, Option.bind_some] at hx
    simp only [dict, hx]
    rfl

theorem report_ok {x : Dict Object} (hx : doc.catalogDict? = some x) (o : ReportOptions) :
    ∃ r, doc.report o = .ok r ∧ r.outline = doc.outline x ∧
      r.structureTree = (doc.entryDict? x "StructTreeRoot").map fun root => doc.structureFacts x root
        (((doc.entryDict? x "StructTreeRoot").map doc.parentEntries).getD ∅).size := by
  obtain ⟨id, hid, hdict⟩ := Option.bind_eq_some_iff.mp hx
  unfold report
  rw [hid]
  simp only [dict, hdict]
  exact ⟨_, rfl, rfl, rfl⟩

theorem report_document {x : Dict Object} (hx : doc.catalogDict? = some x) {o : ReportOptions}
    {r : Report} (h : doc.report o = .ok r) : r.document = doc.facts x := by
  obtain ⟨id, hid, hdict⟩ := Option.bind_eq_some_iff.mp hx
  rw [report, hid] at h
  simp only [dict, hdict] at h
  cases h
  rfl

end AccessiblePdf.Document
