import AccessiblePdf.Metadata.Settings
import AccessiblePdf.Proofs.Document.Appending
import AccessiblePdf.Proofs.Document.Entry
import AccessiblePdf.Proofs.Draft

/-!
The PDF/UA part in a packet. A reader takes the first statement in the whole packet (`stated?`), while a
part is written over the first attribute, over the first element, or behind the last description. So what
stands in front of that place (`keptFront`) decides: a statement there is read in place of what was written
(`stated?_withPart`), also by a report on the document (`report_setPdfuaPart`).
-/
namespace AccessiblePdf

namespace Xmp

variable {α : Type} {rest : List Char} {part : Int}

/-! ## The first match -/

theorem firstMatch?_append {p : List Char → Option α} (nil : p [] = none)
    (h : ∀ c cs, p (c :: cs ++ rest) = p (c :: cs)) (front : List Char) :
    firstMatch? p (front ++ rest) = (firstMatch? p front).or
      ((firstMatch? p rest).map fun m => (front ++ m.1, m.2)) := by
  induction front with
  | nil =>
    rw [firstMatch?, nil, Option.map_none, Option.none_or]
    exact Option.map_id'.symm
  | cons c front ih =>
    rw [List.cons_append, firstMatch?, firstMatch?, ← List.cons_append, h c front]
    cases p (c :: front) with
    | some a => rfl
    | none =>
      simp only [ih]
      cases firstMatch? p front <;> simp [Function.comp_def]

/-! ## Statements -/

/-- The value of an attribute or the content of an element behind its name and blanks. -/
def startValue? : List Char → Option (List Char)
  | '=' :: rest =>
    match skipBlanks rest with
    | q :: value => if isQuote q then some value else none
    | [] => none
  | '>' :: rest => some rest
  | _ => none

theorem startValue?_of_ne {c : Char} (noAttribute : c ≠ '=') (noElement : c ≠ '>') (cs : List Char) :
    startValue? (c :: cs) = none :=
  startValue?.eq_3 _ (fun _ h => noAttribute (List.cons.inj h).1)
    (fun _ h => noElement (List.cons.inj h).1)

/-- The digits with which a value starts, behind blanks. -/
def leadingDigits? (value : List Char) : Option (List Char) :=
  let digits := (skipBlanks value).takeWhile Text.isDecimalDigit
  if digits.isEmpty then none else some digits

theorem digitsHere?_eq (cs : List Char) : digitsHere? cs = (after? partName cs).bind fun rest =>
    (startValue? (skipBlanks rest)).bind leadingDigits? := by
  rw [digitsHere?]
  cases after? partName cs with
  | none => rfl
  | some rest =>
    simp only [Option.bind_eq_bind, Option.bind_some]
    generalize skipBlanks rest = behind
    split
    · next value =>
      rw [startValue?]
      cases skipBlanks value with
      | nil => rfl
      | cons q value =>
        simp only
        split <;> rfl
    · rfl
    · next hattribute helement =>
      rw [startValue?]
      · rfl
      · exact hattribute
      · exact helement

/-- The digits of the first statement of a part. -/
def stated? (cs : List Char) : Option (List Char) := (firstMatch? digitsHere? cs).map Prod.snd

/-- The part with some digits, if they are in ASCII and the number has 64 bits. -/
def partOf? (digits : List Char) : Option Int :=
  if digits.all Char.isDigit then
    let n : Int := digits.foldl (fun n c => n * 10 + (c.toNat - 0x30)) 0
    if n ≤ maxInt64 then some n else none
  else none

theorem part?_eq (packet : String) : part? packet = (stated? packet.toList).bind partOf? := by
  rw [part?, stated?]
  cases firstMatch? digitsHere? packet.toList <;> rfl

/-- No text in front takes its statements on into this text: it starts with a character that no statement
goes on with, and what a name lacks is not in front of it. -/
structure Apart (rest : List Char) : Prop where
  head : ∃ c cs, rest = c :: cs ∧ Text.isBlank c = false ∧ Text.isDecimalDigit c = false ∧
    isQuote c = false ∧ c ≠ '=' ∧ c ≠ '>'
  word : ∀ lacking, lacking ≠ [] → lacking <:+ partName.tail → after? lacking rest = none

theorem Apart.tag (cs : List Char) : Apart ('<' :: cs) where
  head := ⟨'<', cs, rfl, by decide, by decide, by decide, by decide, by decide⟩
  word := by
    intro lacking nonempty suffix
    cases lacking with
    | nil => exact absurd rfl nonempty
    | cons c lacking =>
      have hmem : c ∈ partName.tail := suffix.subset List.mem_cons_self
      have hne : c ≠ '<' := by
        rintro rfl
        exact absurd hmem (by decide)
      rw [after?, if_neg hne]

theorem partName_eq : partName = ['p', 'd', 'f', 'u', 'a', 'i', 'd', ':', 'p', 'a', 'r', 't'] :=
  toList_literal rfl

theorem Apart.name (cs : List Char) : Apart (partName ++ cs) where
  head := by
    rw [partName_eq]
    exact ⟨'p', _, rfl, by decide, by decide, by decide, by decide, by decide⟩
  word := by
    intro lacking nonempty suffix
    rw [partName_eq] at suffix ⊢
    simp only [List.tail_cons, List.suffix_cons_iff, List.suffix_nil] at suffix
    -- Only "part" starts with the letter with which the name starts, and it goes on with another one.
    rcases suffix with rfl | rfl | rfl | rfl | rfl | rfl | rfl | rfl | rfl | rfl | rfl | rfl
    all_goals first | rfl | exact absurd rfl nonempty

section Front

variable (h : Apart rest)
include h

theorem after?_append {word : List Char} (suffix : word <:+ partName.tail) (cs : List Char) :
    after? word (cs ++ rest) = (after? word cs).map (· ++ rest) := by
  induction word generalizing cs with
  | nil => rfl
  | cons c word ih =>
    cases cs with
    | nil => exact h.word _ (List.cons_ne_nil _ _) suffix
    | cons d cs =>
      rw [List.cons_append, after?, after?]
      split
      · exact ih ((List.suffix_cons c word).trans suffix) cs
      · rfl

theorem skipBlanks_append (cs : List Char) : skipBlanks (cs ++ rest) = skipBlanks cs ++ rest := by
  obtain ⟨c, cs', rfl, hblank, -⟩ := h.head
  rw [skipBlanks, List.dropWhile_append]
  split
  · next hempty =>
    rw [List.dropWhile_cons_of_neg (by rw [hblank]; exact Bool.false_ne_true), skipBlanks,
      List.isEmpty_iff.mp hempty]
    rfl
  · rfl

theorem startValue?_append (cs : List Char) :
    startValue? (cs ++ rest) = (startValue? cs).map (· ++ rest) := by
  obtain ⟨c, cs', hrest, -, -, hquote, hattribute, helement⟩ := h.head
  cases cs with
  | nil =>
    rw [List.nil_append, hrest]
    exact startValue?_of_ne hattribute helement cs'
  | cons d cs =>
    rw [List.cons_append]
    by_cases heq : d = '='
    · rw [heq, startValue?, startValue?, skipBlanks_append h]
      cases skipBlanks cs with
      | nil => simp only [List.nil_append, hrest, hquote]; rfl
      | cons q value =>
        simp only [List.cons_append]
        split <;> rfl
    · by_cases hgt : d = '>'
      · rw [hgt]
        rfl
      · rw [startValue?_of_ne heq hgt, startValue?_of_ne heq hgt, Option.map_none]

theorem leadingDigits?_append (cs : List Char) :
    leadingDigits? (cs ++ rest) = leadingDigits? cs := by
  obtain ⟨c, cs', hrest, -, hdigit, -⟩ := h.head
  have hnone : rest.takeWhile Text.isDecimalDigit = [] := by
    rw [hrest, List.takeWhile_cons_of_neg (by rw [hdigit]; exact Bool.false_ne_true)]
  have hdigits (value : List Char) :
      (value ++ rest).takeWhile Text.isDecimalDigit = value.takeWhile Text.isDecimalDigit := by
    rw [List.takeWhile_append, hnone, List.append_nil]
    split
    · next hall => exact (List.takeWhile_prefix _).eq_of_length hall |>.symm
    · rfl
  rw [leadingDigits?, skipBlanks_append h, hdigits, leadingDigits?]

theorem digitsHere?_append (c : Char) (cs : List Char) :
    digitsHere? (c :: cs ++ rest) = digitsHere? (c :: cs) := by
  have hname : after? partName (c :: cs ++ rest) = (after? partName (c :: cs)).map (· ++ rest) := by
    rw [partName_eq, List.cons_append, after?, after?]
    split
    · exact after?_append h (by rw [partName_eq]; exact List.suffix_rfl) cs
    · rfl
  rw [digitsHere?_eq, digitsHere?_eq, hname]
  cases after? partName (c :: cs) with
  | none => rfl
  | some behind =>
    simp only [Option.map_some, Option.bind_some, skipBlanks_append h, startValue?_append h,
      Option.bind_map, Function.comp_def, leadingDigits?_append h]

theorem stated?_append (front : List Char) :
    stated? (front ++ rest) = (stated? front).or (stated? rest) := by
  rw [stated?, firstMatch?_append rfl (digitsHere?_append h)]
  cases hfront : firstMatch? digitsHere? front <;> simp [stated?, hfront, Function.comp_def]

end Front

/-! ## What is written -/

theorem toString_part (valid : part = 1 ∨ part = 2) : (toString part).toList = ['1'] ∨
    (toString part).toList = ['2'] := by
  rcases valid with rfl | rfl
  · exact .inl (toList_literal rfl)
  · exact .inr (toList_literal rfl)

theorem stated?_attribute (valid : part = 1 ∨ part = 2) (cs : List Char) :
    stated? (partName ++ '=' :: '"' :: ((toString part).toList ++ '"' :: cs)) =
      some (toString part).toList := by
  rw [partName_eq]
  rcases toString_part valid with h | h <;> rw [h] <;> rfl

theorem toList_partElement (part : Int) : (partElement part).toList =
    '<' :: (partName ++ '>' :: ((toString part).toList ++ '<' :: '/' :: (partName ++ ['>']))) := by
  have hstart : "<pdfuaid:part>".toList = '<' :: (partName ++ ['>']) := by
    rw [partName_eq]
    exact toList_literal rfl
  have hend : "</pdfuaid:part>".toList = '<' :: '/' :: (partName ++ ['>']) := by
    rw [partName_eq]
    exact toList_literal rfl
  rw [partElement, String.toList_append, String.toList_append, hstart, hend]
  simp only [List.append_assoc, List.cons_append, List.nil_append]

theorem stated?_element (valid : part = 1 ∨ part = 2) (cs : List Char) :
    stated? ((partElement part).toList ++ cs) = some (toString part).toList := by
  rw [toList_partElement, partName_eq]
  rcases toString_part valid with h | h <;> rw [h] <;> rfl

theorem stated?_front {front : List Char} (silent : stated? front = none) (valid : part = 1 ∨ part = 2)
    (cs : List Char) :
    stated? (front ++ ((partElement part).toList ++ cs)) = some (toString part).toList := by
  have hapart : Apart ((partElement part).toList ++ cs) := by
    rw [toList_partElement]
    exact Apart.tag _
  calc stated? (front ++ ((partElement part).toList ++ cs))
      = (stated? front).or (stated? ((partElement part).toList ++ cs)) := stated?_append hapart front
    _ = stated? ((partElement part).toList ++ cs) := by rw [silent, Option.none_or]
    _ = some (toString part).toList := stated?_element valid cs

/-- What a description starts with. -/
def descriptionHead : String :=
  "<rdf:Description rdf:about=\"\" xmlns:pdfuaid=\"" ++ partNamespace ++ "\">"

theorem description_eq (part : Int) :
    description part = descriptionHead ++ (partElement part ++ "</rdf:Description>") := by
  rw [← String.append_assoc]
  rfl

theorem toList_descriptionHead : ∃ cs, descriptionHead.toList = '<' :: cs := by
  have hstart : "<rdf:Description rdf:about=\"\" xmlns:pdfuaid=\"".toList = _ := toList_literal rfl
  unfold descriptionHead
  rw [String.toList_append, String.toList_append, hstart]
  exact ⟨_, rfl⟩

theorem silent_descriptionHead : stated? descriptionHead.toList = none := by
  have hstart : "<rdf:Description rdf:about=\"\" xmlns:pdfuaid=\"".toList = _ := toList_literal rfl
  have hspace : partNamespace.toList = _ := toList_literal rfl
  have hend : "\">".toList = _ := toList_literal rfl
  unfold descriptionHead
  rw [String.toList_append, String.toList_append, hstart, hspace, hend]
  decide +kernel

theorem stated?_description (valid : part = 1 ∨ part = 2) (cs : List Char) :
    stated? ((description part).toList ++ cs) = some (toString part).toList := by
  rw [description_eq, String.toList_append, String.toList_append, List.append_assoc, List.append_assoc]
  exact stated?_front silent_descriptionHead valid _

/-- What a new packet starts with. -/
def packetHead : String :=
  "<?xpacket begin=\"\uFEFF\" id=\"W5M0MpCehiHzreSzNTczkc9d\"?>\n" ++
    "<x:xmpmeta xmlns:x=\"adobe:ns:meta/\">\n" ++
    "<rdf:RDF xmlns:rdf=\"http://www.w3.org/1999/02/22-rdf-syntax-ns#\">\n" ++ descriptionHead

theorem newPacket_eq (part : Int) (title : Option String) :
    ∃ behind, newPacket part title = packetHead ++ (partElement part ++ behind) := by
  refine ⟨"</rdf:Description>" ++ ("\n" ++ ((title.map titleDescription).getD "" ++
    "</rdf:RDF>\n</x:xmpmeta>\n<?xpacket end=\"w\"?>")), ?_⟩
  unfold newPacket packetHead
  simp only [description_eq, String.append_assoc]

theorem toList_packetHead : ∃ cs, packetHead.toList = '<' :: cs := by
  have hbegin : "<?xpacket begin=\"\uFEFF\" id=\"W5M0MpCehiHzreSzNTczkc9d\"?>\n".toList = _ :=
    toList_literal rfl
  unfold packetHead
  rw [String.toList_append, String.toList_append, String.toList_append, hbegin]
  exact ⟨_, rfl⟩

theorem silent_packetHead : stated? packetHead.toList = none := by
  have hbegin : "<?xpacket begin=\"\uFEFF\" id=\"W5M0MpCehiHzreSzNTczkc9d\"?>\n".toList = _ :=
    toList_literal rfl
  have hmeta : "<x:xmpmeta xmlns:x=\"adobe:ns:meta/\">\n".toList = _ := toList_literal rfl
  have hrdf : "<rdf:RDF xmlns:rdf=\"http://www.w3.org/1999/02/22-rdf-syntax-ns#\">\n".toList = _ :=
    toList_literal rfl
  obtain ⟨cs, hhead⟩ := toList_descriptionHead
  unfold packetHead
  rw [String.toList_append, hhead, stated?_append (Apart.tag cs), ← hhead, silent_descriptionHead,
    Option.or_none, String.toList_append, String.toList_append, hbegin, hmeta, hrdf]
  decide +kernel

theorem stated?_newPacket (valid : part = 1 ∨ part = 2) (title : Option String) :
    stated? (newPacket part title).toList = some (toString part).toList := by
  obtain ⟨behind, hpacket⟩ := newPacket_eq part title
  rw [hpacket, String.toList_append, String.toList_append]
  exact stated?_front silent_packetHead valid _

/-! ## The place -/

/-- What stands in front of the place where a part is written. -/
def keptFront (packet : String) : List Char :=
  match firstMatch? attributeHere? packet.toList with
  | some (front, _) => front
  | none =>
    match firstMatch? elementHere? packet.toList with
    | some (front, _) => front
    | none =>
      match splitLast? rdfEnd packet.toList with
      | some (front, _) => front
      | none => []

/-- Behind the front stands a text that states the part and that no statement in front goes on with. -/
theorem withPart_eq (valid : part = 1 ∨ part = 2) (packet : String) :
    ∃ written, (withPart packet part).toList = keptFront packet ++ written ∧
      Apart written ∧ stated? written = some (toString part).toList := by
  unfold withPart keptFront
  dsimp only
  cases firstMatch? attributeHere? packet.toList with
  | some m =>
    have hstart : "pdfuaid:part=\"".toList = partName ++ ['=', '"'] := by
      rw [partName_eq]
      exact toList_literal rfl
    have hend : "\"".toList = ['"'] := toList_literal rfl
    refine ⟨_, ?_, Apart.name _, stated?_attribute valid m.2⟩
    simp only [String.toList_append, String.toList_ofList, hstart, hend, List.append_assoc,
      List.cons_append, List.nil_append]
  | none =>
    dsimp only
    cases firstMatch? elementHere? packet.toList with
    | some m =>
      refine ⟨(partElement part).toList ++ m.2, ?_, ?_, stated?_element valid m.2⟩
      · simp only [String.toList_append, String.toList_ofList, List.append_assoc]
      · rw [toList_partElement]
        exact Apart.tag _
    | none =>
      dsimp only
      cases splitLast? rdfEnd packet.toList with
      | some m =>
        refine ⟨(description part).toList ++ m.2, ?_, ?_, stated?_description valid m.2⟩
        · simp only [String.toList_append, String.toList_ofList, List.append_assoc]
        · obtain ⟨cs, hhead⟩ := toList_descriptionHead
          rw [description_eq, String.toList_append, hhead]
          exact Apart.tag _
      | none =>
        refine ⟨(newPacket part none).toList, (List.nil_append _).symm, ?_, stated?_newPacket valid none⟩
        obtain ⟨behind, hpacket⟩ := newPacket_eq part none
        obtain ⟨cs, hhead⟩ := toList_packetHead
        rw [hpacket, String.toList_append, hhead]
        exact Apart.tag _

/-- A packet with a part states what is stated in front of that part, or else the part. -/
theorem stated?_withPart (valid : part = 1 ∨ part = 2) (packet : String) :
    stated? (withPart packet part).toList =
      (stated? (keptFront packet)).or (some (toString part).toList) := by
  obtain ⟨written, hpacket, hapart, hstated⟩ := withPart_eq valid packet
  calc stated? (withPart packet part).toList
      = (stated? (keptFront packet)).or (stated? written) := by rw [hpacket, stated?_append hapart]
    _ = (stated? (keptFront packet)).or (some (toString part).toList) := by rw [hstated]

theorem partOf?_toString (valid : part = 1 ∨ part = 2) : partOf? (toString part).toList = some part := by
  cases valid with
  | inl one =>
    have hdigits : (toString (1 : Int)).toList = ['1'] := toList_literal rfl
    rw [one, hdigits]
    rfl
  | inr two =>
    have hdigits : (toString (2 : Int)).toList = ['2'] := toList_literal rfl
    rw [two, hdigits]
    rfl

theorem part?_withPart (valid : part = 1 ∨ part = 2) (packet : String) : part? (withPart packet part) =
    if stated? (keptFront packet) = none then some part
    else part? (String.ofList (keptFront packet)) := by
  rw [part?_eq, stated?_withPart valid, part?_eq, String.toList_ofList]
  cases stated? (keptFront packet) with
  | none => exact partOf?_toString valid
  | some digits => rfl

theorem part?_newPacket (valid : part = 1 ∨ part = 2) (title : Option String) :
    part? (newPacket part title) = some part := by
  rw [part?_eq, stated?_newPacket valid]
  exact partOf?_toString valid

end Xmp

namespace Edit

variable {d d' : Draft} {part : Int} {title : Option String}

/-! ## Packets of documents -/

/-- The packet that is stored for a part. -/
def partPacket (doc : Document) (part : Int) (title : Option String) : String :=
  match packet? doc with
  | some packet => Xmp.withPart packet part
  | none => Xmp.newPacket part title

/-- The entries of a stream with a packet. -/
def packetEntries (packet : String) : Dict Object :=
  (OrderedMap.ofList [(utf8 "Type", Object.name "Metadata"), (utf8 "Subtype", .name "XML")]).insert
    "Length" (.integer (utf8 packet).length)

/-- A packet in a stream of its own. -/
def packetStream (packet : String) : Object := .stream (packetEntries packet) packet

/-- A document with the packet for a part. -/
def withPacket (doc : Document) (part : Int) (title : Option String) : Document :=
  doc.add (packetStream (partPacket doc part title))

theorem setPdfuaPart_ok {u : Unit} : (setPdfuaPart part title).run d = .ok u d' ↔
    ∃ catalog t x, (d.doc.trailer.get? "Root").bind Object.reference? = some catalog ∧
      (withPacket d.doc part title).target? catalog = some t ∧
      (withPacket d.doc part title).objects.get? t = some (.dictionary x) ∧
      d' = { d with doc := (withPacket d.doc part title).put t (.dictionary
        (x.insert "Metadata" (.reference d.doc.nextId))) } := by
  have hrun : (setPdfuaPart part title).run d =
      (modifyCatalog (·.insert "Metadata" (.reference d.doc.nextId))).run
        { d with doc := withPacket d.doc part title } := by
    rw [setPdfuaPart, run_bind (doc_ok.mpr ⟨rfl, rfl⟩), run_bind (add_ok.mpr ⟨rfl, rfl⟩), withPacket,
      partPacket]
    cases packet? d.doc <;> rfl
  rw [hrun, modifyCatalog, bind_ok]
  constructor
  · rintro ⟨catalog, d₁, hcatalog, hmodify⟩
    obtain ⟨hroot, rfl⟩ := catalogId_ok.mp hcatalog
    obtain ⟨t, x, ht, hx, rfl⟩ := modifyDict_ok.mp hmodify
    exact ⟨catalog, t, x, hroot, ht, hx, rfl⟩
  · rintro ⟨catalog, t, x, hroot, ht, hx, rfl⟩
    exact ⟨catalog, _, catalogId_ok.mpr ⟨hroot, rfl⟩, modifyDict_ok.mpr ⟨t, x, ht, hx, rfl⟩⟩

theorem exists_setPdfuaPart (unused : d.doc.Unused) {x : Dict Object}
    (hx : d.doc.catalogDict? = some x) (part : Int) (title : Option String) :
    ∃ d', (setPdfuaPart part title).run d = .ok () d' := by
  obtain ⟨catalog, hroot, hdict⟩ := Option.bind_eq_some_iff.mp hx
  obtain ⟨t, htarget, hxadd⟩ := Document.target?_of_dict? (Document.dict?_add unused _ hdict)
  exact ⟨_, setPdfuaPart_ok.mpr ⟨catalog, t, x, hroot, htarget, hxadd, rfl⟩⟩

theorem metadataText?_packetEntries (packet : String) :
    metadataText? (packetEntries packet) (utf8 packet) = some packet := by
  have hfilter : (packetEntries packet).contains (utf8 "Filter") = false := rfl
  rw [metadataText?, hfilter]
  exact congrArg some (Utf8.decodeLossy_utf8 packet)

theorem xmp?_setPdfuaPart {u : Unit} (hrun : (setPdfuaPart part title).run d = .ok u d') :
    ∃ y, d'.doc.catalogDict? = some y ∧ d'.doc.xmp? y = some (partPacket d.doc part title) := by
  obtain ⟨catalog, t, x, hroot, ht, hx, rfl⟩ := setPdfuaPart_ok.mp hrun
  refine ⟨x.insert "Metadata" (.reference d.doc.nextId), ?_, ?_⟩
  · show ((d.doc.trailer.get? "Root").bind Object.reference?).bind _ = _
    rw [hroot, Option.bind_some, Document.dict?_put hx, if_pos ht]
  · rw [Document.xmp?, Document.value?, OrderedMap.get?_insert_self, Option.map_some, withPacket,
      Document.resolve_add_put hx rfl Object.noConfusion]
    exact metadataText?_packetEntries _

theorem report_partPacket {u : Unit} (hrun : (setPdfuaPart part title).run d = .ok u d')
    (o : ReportOptions) : ∃ r, d'.doc.report o = .ok r ∧
      r.document.xmp = some (partPacket d.doc part title) ∧
      r.document.pdfuaPart = Xmp.part? (partPacket d.doc part title) := by
  obtain ⟨y, hy, hxmp⟩ := xmp?_setPdfuaPart hrun
  obtain ⟨r, hr, -⟩ := Document.report_ok hy o
  have hstored : r.document.xmp = some (partPacket d.doc part title) := by
    rw [Document.report_document hy hr]
    exact hxmp
  exact ⟨r, hr, hstored, by rw [DocumentFacts.pdfuaPart, hstored, Option.bind_some]⟩

/-- A part can be written into every document with a catalog. Afterwards a report has the packet that was
stored, and in it the part, 1 or 2, unless an old packet states one in front of the place where the part is
written; then it has that one. -/
theorem report_setPdfuaPart (valid : part = 1 ∨ part = 2) (title : Option String) :
    (∀ x, d.doc.Unused → d.doc.catalogDict? = some x →
      ∃ d', (setPdfuaPart part title).run d = .ok () d') ∧
    ∀ d', (setPdfuaPart part title).run d = .ok () d' → ∀ o, ∃ r, d'.doc.report o = .ok r ∧
      r.document.xmp = some (partPacket d.doc part title) ∧
      r.document.pdfuaPart = match packet? d.doc with
        | none => some part
        | some packet =>
          if Xmp.stated? (Xmp.keptFront packet) = none then some part
          else Xmp.part? (String.ofList (Xmp.keptFront packet)) := by
  refine ⟨fun x unused hx => exists_setPdfuaPart unused hx part title, fun d' hrun o => ?_⟩
  obtain ⟨r, hr, hxmp, hpart⟩ := report_partPacket hrun o
  refine ⟨r, hr, hxmp, ?_⟩
  rw [hpart, partPacket]
  cases packet? d.doc with
  | none => exact Xmp.part?_newPacket valid title
  | some packet => exact Xmp.part?_withPart valid packet

/-- A document with a packet. -/
def packetDocument (packet : String) : Document where
  version := "1.7"
  trailer := .ofList [(utf8 "Root", .reference ⟨1, 0⟩)]
  objects := .ofList [(⟨1, 0⟩, .ofEntries [(utf8 "Metadata", .reference ⟨2, 0⟩)]),
    (⟨2, 0⟩, packetStream packet)]
  maxId := 2

theorem packet?_packetDocument (packet : String) : packet? (packetDocument packet) = some packet := by
  exact metadataText?_packetEntries packet

/-- The part is the value of an attribute. -/
def attributePacket : String := "<rdf:Description pdfuaid:part=\"1\"/>"

/-- A part that is written over an attribute is read. -/
theorem report_setPdfuaPart_attribute : ((2 : Int) = 1 ∨ (2 : Int) = 2) ∧
    ∃ d', (setPdfuaPart 2 none).run { doc := packetDocument attributePacket } = .ok () d' ∧
      ∃ r, d'.doc.report {} = .ok r ∧ r.document.pdfuaPart = some 2 := by
  have valid : (2 : Int) = 1 ∨ (2 : Int) = 2 := .inr rfl
  have hsilent : Xmp.stated? (Xmp.keptFront attributePacket) = none := by
    have hpacket : attributePacket.toList = _ := toList_literal rfl
    rw [Xmp.keptFront, hpacket]
    decide +kernel
  obtain ⟨hexists, hreport⟩ :=
    report_setPdfuaPart (d := { doc := packetDocument attributePacket }) valid none
  obtain ⟨d', hrun⟩ := hexists _ rfl rfl
  obtain ⟨r, hr, -, hpart⟩ := hreport d' hrun {}
  rw [packet?_packetDocument] at hpart
  exact ⟨valid, d', hrun, r, hr, hpart.trans (if_pos hsilent)⟩

/-- A blank stands behind the name of the element. -/
def spacedPacket : String :=
  "<rdf:RDF><rdf:Description><pdfuaid:part >1</pdfuaid:part></rdf:Description></rdf:RDF>"

/-- The element with the blank is not written over, and it is read. -/
theorem setPdfuaPart_unread :
    ∃ d', (setPdfuaPart 2 none).run { doc := packetDocument spacedPacket } = .ok () d' ∧
      ∃ r, d'.doc.report {} = .ok r ∧ r.document.pdfuaPart = some 1 := by
  obtain ⟨d', hrun⟩ := exists_setPdfuaPart (d := { doc := packetDocument spacedPacket }) rfl rfl 2 none
  obtain ⟨r, hr, -, hpart⟩ := report_partPacket hrun {}
  refine ⟨d', hrun, r, hr, hpart.trans ?_⟩
  have hfront : Xmp.stated? (Xmp.keptFront spacedPacket) = some ['1'] := by
    have hpacket : spacedPacket.toList = _ := toList_literal rfl
    rw [Xmp.keptFront, hpacket]
    decide +kernel
  rw [partPacket, packet?_packetDocument]
  show Xmp.part? (Xmp.withPart spacedPacket 2) = _
  rw [Xmp.part?_eq, Xmp.stated?_withPart (.inr rfl), hfront]
  rfl

end Edit

end AccessiblePdf
