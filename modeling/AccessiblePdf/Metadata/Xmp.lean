import AccessiblePdf.Number
import AccessiblePdf.Text.Blank

/-!
The PDF/UA part in XMP packets: reading it, replacing it, and packets that state nothing else. The
part is the value of an attribute or the content of an element of one name.
-/
namespace AccessiblePdf.Xmp

/-- The name of the attribute and of the element. -/
def partName : List Char := "pdfuaid:part".toList

/-- The namespace of that name. -/
def partNamespace : String := "http://www.aiim.org/pdfua/ns/id/"

def apostrophe : Char := Char.ofNat 0x27

def isQuote (c : Char) : Bool := c == '"' || c == apostrophe

def skipBlanks (cs : List Char) : List Char := cs.dropWhile Text.isBlank

/-- What stands behind a lead, if that is in front. -/
def after? : List Char → List Char → Option (List Char)
  | [], cs => some cs
  | _ :: _, [] => none
  | l :: ls, c :: cs => if l = c then after? ls cs else none

/-! ## Finding -/

/-- The first place where a test on the rest of the text holds: what is before it, and what the test
gives there. -/
def firstMatch? {α : Type} (p : List Char → Option α) : List Char → Option (List Char × α)
  | [] => (p []).map fun a => ([], a)
  | c :: cs =>
    match p (c :: cs) with
    | some a => some ([], a)
    | none => (firstMatch? p cs).map fun (before, a) => (c :: before, a)

/-- What follows an attribute with the part here; the quotes may differ. -/
def attributeHere? (cs : List Char) : Option (List Char) := do
  let rest ← after? ['='] (skipBlanks (← after? partName cs))
  match skipBlanks rest with
  | q :: value =>
    if isQuote q then
      match value.dropWhile (fun c => !isQuote c) with
      | _ :: rest => some rest
      | [] => none
    else none
  | [] => none

/-- What follows an element with the part here. -/
def elementHere? (cs : List Char) : Option (List Char) := do
  let content ← after? ('<' :: partName ++ ['>']) cs
  after? (['<', '/'] ++ partName ++ ['>']) (content.dropWhile (· != '<'))

/-! ## Reading -/

/-- The digits of a part here, behind an attribute's quote or an element's start. -/
def digitsHere? (cs : List Char) : Option (List Char) := do
  let rest := skipBlanks (← after? partName cs)
  let value ← match rest with
    | '=' :: rest =>
      match skipBlanks rest with
      | q :: value => if isQuote q then some value else none
      | [] => none
    | '>' :: rest => some rest
    | _ => none
  let digits := (skipBlanks value).takeWhile Text.isDecimalDigit
  if digits.isEmpty then none else some digits

/-- The part that a packet states first, if it is a number of 64 bits in ASCII digits. -/
def part? (packet : String) : Option Int := do
  let (_, digits) ← firstMatch? digitsHere? packet.toList
  if digits.all Char.isDigit then
    let n : Int := digits.foldl (fun n c => n * 10 + (c.toNat - 0x30)) 0
    if n ≤ maxInt64 then some n else none
  else none

/-! ## Writing -/

/-- The element that states a part. -/
def partElement (part : Int) : String :=
  "<pdfuaid:part>" ++ toString part ++ "</pdfuaid:part>"

/-- A description that states a part. -/
def description (part : Int) : String :=
  "<rdf:Description rdf:about=\"\" xmlns:pdfuaid=\"" ++ partNamespace ++ "\">" ++
    partElement part ++ "</rdf:Description>"

/-- Text with the characters escaped that markup uses. -/
def escape (s : String) : String :=
  String.join (s.toList.map fun c =>
    match c with
    | '&' => "&amp;"
    | '<' => "&lt;"
    | '>' => "&gt;"
    | '"' => "&quot;"
    | c => String.singleton c)

/-- A description that states a title. -/
def titleDescription (title : String) : String :=
  "<rdf:Description rdf:about=\"\" xmlns:dc=\"http://purl.org/dc/elements/1.1/\">" ++
    "<dc:title><rdf:Alt><rdf:li xml:lang=\"x-default\">" ++ escape title ++
    "</rdf:li></rdf:Alt></dc:title></rdf:Description>\n"

/-- A packet that states a part, and a title if there is one. -/
def newPacket (part : Int) (title : Option String) : String :=
  "<?xpacket begin=\"\uFEFF\" id=\"W5M0MpCehiHzreSzNTczkc9d\"?>\n" ++
    "<x:xmpmeta xmlns:x=\"adobe:ns:meta/\">\n" ++
    "<rdf:RDF xmlns:rdf=\"http://www.w3.org/1999/02/22-rdf-syntax-ns#\">\n" ++
    description part ++ "\n" ++ (title.map titleDescription).getD "" ++
    "</rdf:RDF>\n</x:xmpmeta>\n<?xpacket end=\"w\"?>"

/-- The end of the descriptions of a packet. -/
def rdfEnd : List Char := "</rdf:RDF>".toList

/-- What stands before and from the last place on where a word stands. -/
def splitLast? (word : List Char) : List Char → Option (List Char × List Char)
  | [] => if word.isEmpty then some ([], []) else none
  | c :: cs =>
    match splitLast? word cs with
    | some (before, rest) => some (c :: before, rest)
    | none => if word.isPrefixOf (c :: cs) then some ([], c :: cs) else none

/-- A packet that states a part instead of what it stated first: the attribute changes if there is
one, else the element, else a description is added. -/
def withPart (packet : String) (part : Int) : String :=
  let cs := packet.toList
  match firstMatch? attributeHere? cs with
  | some (before, rest) =>
    String.ofList before ++ "pdfuaid:part=\"" ++ toString part ++ "\"" ++ String.ofList rest
  | none =>
    match firstMatch? elementHere? cs with
    | some (before, rest) => String.ofList before ++ partElement part ++ String.ofList rest
    | none =>
      match splitLast? rdfEnd cs with
      | some (before, rest) => String.ofList before ++ description part ++ String.ofList rest
      | none => newPacket part none

end AccessiblePdf.Xmp
