import AccessiblePdf.Content.Scan
import AccessiblePdf.Proofs.Object.Writing

/-!
Content streams that are written and read again (`readAll_writeAll`): operands with a space behind each,
then a word that is told from an object by how it starts (`Operation.Plain`). Between a save and a restore it
is read in the same way (`readsOn_lines`). What is read opens the same MCIDs (`openedMcid?_reread`).
-/
namespace AccessiblePdf

open Reader

namespace Operation

/-- An operation that is read from what it is written as: the operator is a word that starts like no
object and, without operands, like no inline image; the operands can be read and are no references. -/
structure Plain (op : Operation) : Prop where
  nonempty : utf8 op.operator ≠ []
  word : ∀ b ∈ utf8 op.operator, isOperatorByte b = true
  object : ∀ w ∈ [utf8 "null", utf8 "true", utf8 "false"], ¬w <+: utf8 op.operator
  image : op.operands = [] → ¬utf8 "BI" <+: utf8 op.operator
  operands : ∀ o ∈ op.operands, o.writable = true ∧ o.reference? = none

/-- The MCID of a property list in place is no real number, which could be read as a whole one. -/
def WholeMcid (op : Operation) : Prop :=
  ∀ d, op.operands[1]? = some (.dictionary d) → ∀ x, d.get? "MCID" ≠ some (.real x)

/-- What an operation is read as after it was written. -/
def reread (op : Operation) : Operation := { op with operands := Object.rereadAll op.operands }

variable {fuel n : Nat} {word rest : Bytes} {b : UInt8} {op : Operation} {ops : List Operation}

/-! ## Words -/

theorem operator_byte : ∀ b : UInt8, isOperatorByte b = true → Byte.isDigit b = false ∧
    ¬(b = 0x2B ∨ b = 0x2D) ∧ b ≠ 0x2E ∧ b ≠ 0x2F ∧ b ≠ 0x28 ∧ b ≠ 0x3C ∧ b ≠ 0x5B ∧ b ≠ 0x25 ∧
    isGap b = false :=
  forall_byte (by decide +kernel)

theorem lead_no_gap : ∀ b : UInt8, leads b = true → isGap b = false ∧ b ≠ 0x25 ∧ b ≠ 0x42 :=
  forall_byte (by decide +kernel)

/-- A word that does not start with another one, which could not go on behind it. -/
theorem dropLead?_eq_none {lead : Bytes} (hlead : lead.all isOperatorByte = true)
    (h : ¬lead <+: word) (stops : ∀ b ∈ rest.head?, isOperatorByte b = false) :
    Bytes.dropLead? lead (word ++ rest) = none := by
  induction lead generalizing word with
  | nil => exact absurd List.nil_prefix h
  | cons l lead ih =>
    rw [List.all_cons, Bool.and_eq_true] at hlead
    cases word with
    | nil =>
      cases rest with
      | nil => rfl
      | cons b rest =>
        have hne : l ≠ b := by
          rintro rfl
          rw [stops l rfl] at hlead
          cases hlead.1
        rw [List.nil_append, Bytes.dropLead?, if_neg (by simpa using hne)]
    | cons w word =>
      rw [List.cons_append, Bytes.dropLead?]
      split
      · next heq =>
        obtain rfl := eq_of_beq heq
        exact ih hlead.2 fun hprefix => h (List.cons_prefix_cons.mpr ⟨rfl, hprefix⟩)
      · rfl

/-- An operator is no object. -/
theorem objectFrom_operator (plain : op.Plain) (stops : ∀ b ∈ rest.head?, isOperatorByte b = false) :
    objectFrom false fuel (utf8 op.operator ++ rest) = none := by
  obtain ⟨hnull, htrue, hfalse⟩ : word (utf8 "null") .null (utf8 op.operator ++ rest) = none ∧
      word (utf8 "true") (.boolean true) (utf8 op.operator ++ rest) = none ∧
      word (utf8 "false") (.boolean false) (utf8 op.operator ++ rest) = none := by
    refine ⟨?_, ?_, ?_⟩ <;>
      rw [Reader.word, dropLead?_eq_none rfl (plain.object _ (by simp)) stops] <;> rfl
  obtain ⟨b, more, hword⟩ := List.exists_cons_of_ne_nil plain.nonempty
  obtain ⟨hdigit, hsign, hpoint, hname, hliteral, hhexadecimal, harray, -⟩ :=
    operator_byte b (plain.word b (by rw [hword]; exact List.mem_cons_self))
  rw [hword, List.cons_append] at hnull htrue hfalse ⊢
  cases fuel with
  | zero => rfl
  | succ fuel =>
    have hatom : atom false (b :: (more ++ rest)) = none := by
      simp [atom, hnull, htrue, hfalse, real_eq_none hsign hdigit hpoint, integer_eq_none hsign hdigit,
        name, hname, literal, hliteral, hexadecimal, hhexadecimal, as]
    rw [objectFrom.eq_def]
    dsimp only
    rw [hatom]
    dsimp only
    split
    · next h => exact absurd (List.cons.inj h).1 harray
    · next h => exact absurd (List.cons.inj h).1 hhexadecimal
    · rfl

/-! ## Operands -/

theorem gap_cons (h : isGap b = false) : gap (b :: rest) = b :: rest := by
  rw [gap, List.dropWhile_cons_of_neg (by simp [h])]

theorem gap_blank (h : isGap b = true) : gap (b :: rest) = gap rest := by
  rw [gap, List.dropWhile_cons_of_pos h, gap]

/-- Operands are read up to what is no object. -/
theorem operandsFrom_append {operands : List Object}
    (writable : ∀ o ∈ operands, o.writable = true ∧ o.reference? = none)
    (enough : ∀ o ∈ operands, 2 * (Writer.object o).length < fuel) (count : operands.length ≤ n)
    (hgap : gap rest = rest) (hnone : objectFrom false fuel rest = none) (done : List Object) :
    operandsFrom fuel done n ((operands.flatMap fun o => Writer.object o ++ [0x20]) ++ rest) =
      (done.reverse ++ Object.rereadAll operands, rest) := by
  induction operands generalizing n done with
  | nil =>
    rw [List.flatMap_nil, List.nil_append, Object.rereadAll, List.append_nil]
    cases n with
    | zero => rfl
    | succ n => rw [operandsFrom, hnone]
  | cons o operands ih =>
    obtain ⟨n, rfl⟩ : ∃ k, n = k + 1 := Nat.exists_eq_succ_of_ne_zero (by
      rintro rfl
      cases count)
    rw [List.forall_mem_cons] at writable enough
    have hread : ∀ rest, objectFrom false fuel (Writer.object o ++ 0x20 :: rest) =
        some (o.reread, 0x20 :: rest) := fun rest =>
      objectFrom_append o writable.1.1 ⟨by rintro _ ⟨⟩; rfl, writable.1.2⟩ enough.1
    have hrest : gap ((operands.flatMap fun o => Writer.object o ++ [0x20]) ++ rest) =
        (operands.flatMap fun o => Writer.object o ++ [0x20]) ++ rest := by
      cases operands with
      | nil => exact hgap
      | cons o' operands =>
        obtain ⟨b, more, htext, hleads, -⟩ := object_head (writable.2 o' List.mem_cons_self).1
        rw [List.flatMap_cons, htext, List.cons_append, List.cons_append, List.cons_append,
          gap_cons (lead_no_gap b hleads).1]
    rw [List.flatMap_cons, List.append_assoc, List.append_assoc, List.singleton_append, operandsFrom,
      hread]
    dsimp only
    rw [gap_blank rfl, hrest, ih writable.2 enough.2 (Nat.le_of_succ_le_succ count), Object.rereadAll,
      List.reverse_cons, List.append_assoc, List.singleton_append]

/-! ## Operations -/

theorem skipComments_of_head (h : ∀ b ∈ rest.head?, b ≠ 0x25) : skipComments fuel rest = rest := by
  cases fuel with
  | zero => rfl
  | succ fuel =>
    rw [skipComments.eq_def]
    dsimp only
    split
    · exact absurd rfl (h _ rfl)
    · rfl

/-- An operation starts with an object or with its operator. -/
theorem Plain.start (plain : op.Plain) (fuel : Nat) (rest : Bytes) :
    gap (op.write ++ 0x0A :: rest) = op.write ++ 0x0A :: rest ∧
      skipComments fuel (op.write ++ 0x0A :: rest) = op.write ++ 0x0A :: rest ∧
      Bytes.dropLead? (utf8 "BI") (op.write ++ 0x0A :: rest) = none := by
  rw [write]
  cases hoperands : op.operands with
  | nil =>
    obtain ⟨b, more, hword⟩ := List.exists_cons_of_ne_nil plain.nonempty
    obtain ⟨-, -, -, -, -, -, -, hcomment, hgap⟩ :=
      operator_byte b (plain.word b (by rw [hword]; exact List.mem_cons_self))
    rw [List.flatMap_nil, List.nil_append]
    refine ⟨?_, ?_, dropLead?_eq_none rfl (plain.image hoperands) (by rintro _ ⟨⟩; rfl)⟩
    · rw [hword, List.cons_append, gap_cons hgap]
    · rw [hword]
      exact skipComments_of_head (by rintro _ ⟨⟩; exact hcomment)
  | cons o operands =>
    obtain ⟨b, more, htext, hleads, -⟩ :=
      object_head (plain.operands o (by rw [hoperands]; exact List.mem_cons_self)).1
    obtain ⟨hgap, hcomment, himage⟩ := lead_no_gap b hleads
    rw [List.flatMap_cons, htext]
    refine ⟨gap_cons hgap, skipComments_of_head (by rintro _ ⟨⟩; exact hcomment), ?_⟩
    exact if_neg (by simpa using himage.symm)

theorem length_le_write (op : Operation) : op.operands.length ≤ op.write.length ∧
    ∀ o ∈ op.operands, (Writer.object o).length ≤ op.write.length := by
  have hall : ∀ operands : List Object,
      operands.length ≤ (operands.flatMap fun o => Writer.object o ++ [0x20]).length ∧
      ∀ o ∈ operands,
        (Writer.object o).length ≤ (operands.flatMap fun o => Writer.object o ++ [0x20]).length := by
    intro operands
    induction operands with
    | nil => exact ⟨Nat.le_refl _, fun o ho => absurd ho List.not_mem_nil⟩
    | cons o operands ih =>
      simp only [List.flatMap_cons, List.length_append, List.length_cons, List.length_nil,
        List.forall_mem_cons]
      exact ⟨by omega, by omega, fun o' ho' => Nat.le_add_left_of_le (ih.2 o' ho')⟩
  obtain ⟨hcount, hlength⟩ := hall op.operands
  rw [write, List.length_append]
  exact ⟨Nat.le_add_right_of_le hcount, fun o ho => Nat.le_add_right_of_le (hlength o ho)⟩

/-- An operation is read from its line. -/
theorem next_append (plain : op.Plain) (enough : 2 * op.write.length < fuel) (rest : Bytes) :
    next fuel (op.write ++ 0x0A :: rest) = .operation op.reread (gap rest) := by
  obtain ⟨-, hcomments, himage⟩ := plain.start fuel rest
  obtain ⟨hcount, hlength⟩ := length_le_write op
  have hstops : ∀ b ∈ (0x0A :: rest : Bytes).head?, isOperatorByte b = false := by
    rintro _ ⟨⟩
    rfl
  have hword : gap (utf8 op.operator ++ 0x0A :: rest) = utf8 op.operator ++ 0x0A :: rest := by
    obtain ⟨b, more, hword⟩ := List.exists_cons_of_ne_nil plain.nonempty
    obtain ⟨-, -, -, -, -, -, -, -, hgap⟩ :=
      operator_byte b (plain.word b (by rw [hword]; exact List.mem_cons_self))
    rw [hword, List.cons_append, gap_cons hgap]
  have hoperands : operandsFrom fuel [] fuel (op.write ++ 0x0A :: rest) =
      (Object.rereadAll op.operands, utf8 op.operator ++ 0x0A :: rest) := by
    rw [write, List.append_assoc]
    exact operandsFrom_append plain.operands (fun o ho => by have := hlength o ho; omega) (by omega)
      hword (objectFrom_operator plain hstops) []
  have htake : (utf8 op.operator ++ 0x0A :: rest).takeWhile isOperatorByte = utf8 op.operator ∧
      (utf8 op.operator ++ 0x0A :: rest).dropWhile isOperatorByte = 0x0A :: rest := by
    rw [List.takeWhile_append_of_pos plain.word, List.dropWhile_append_of_pos plain.word,
      List.takeWhile_cons_of_neg (by decide), List.dropWhile_cons_of_neg (by decide), List.append_nil]
    exact ⟨rfl, rfl⟩
  rw [next, hcomments]
  dsimp only
  rw [himage]
  dsimp only
  rw [hoperands]
  dsimp only
  rw [htake.1, htake.2, if_neg (by simpa using plain.nonempty), Utf8.decodeLossy_utf8, gap_blank rfl]
  rfl

/-- Operations, each on a line that is ended. -/
def lines (ops : List Operation) : Bytes := ops.flatMap fun op => op.write ++ [0x0A]

theorem lines_cons (op : Operation) (ops : List Operation) :
    lines (op :: ops) = op.write ++ 0x0A :: lines ops := by
  rw [lines, List.flatMap_cons, List.append_assoc]
  rfl

theorem writeAll_eq_lines (h : ops ≠ []) : writeAll ops ++ [0x0A] = lines ops := by
  have htail : ∀ ops : List Operation,
      (ops.flatMap fun o => 0x0A :: o.write) ++ [0x0A] = 0x0A :: lines ops := by
    intro ops
    induction ops with
    | nil => rfl
    | cons op ops ih =>
      rw [List.flatMap_cons, List.append_assoc, ih, lines_cons]
      rfl
  cases ops with
  | nil => exact absurd rfl h
  | cons op ops => rw [writeAll, List.append_assoc, htail, lines_cons]

/-- Operations are read line by line. -/
theorem readFrom_lines (plain : ∀ op ∈ ops, op.Plain) (enough : 2 * (lines ops).length < fuel)
    (count : ops.length ≤ n) (done : List Operation) :
    readFrom fuel done n (gap (lines ops)) = .ok (done.reverse ++ ops.map reread) := by
  induction ops generalizing n done with
  | nil =>
    have hobject : objectFrom false fuel [] = none := by cases fuel <;> rfl
    have hoperands : operandsFrom fuel [] fuel [] = ([], []) := by
      cases fuel with
      | zero => rfl
      | succ fuel => rw [operandsFrom, hobject, List.reverse_nil]
    have hnext : next fuel (gap (lines [])) = .nothing := by
      rw [show gap (lines []) = [] from rfl, next, skipComments_of_head (by simp)]
      dsimp only
      rw [show Bytes.dropLead? (utf8 "BI") [] = none from rfl]
      dsimp only
      rw [hoperands]
      rfl
    rw [List.map_nil, List.append_nil]
    cases n with
    | zero => rfl
    | succ n => rw [readFrom, hnext]
  | cons op ops ih =>
    obtain ⟨n, rfl⟩ : ∃ k, n = k + 1 := Nat.exists_eq_succ_of_ne_zero (by
      rintro rfl
      cases count)
    rw [List.forall_mem_cons] at plain
    rw [lines_cons, List.length_append, List.length_cons] at enough
    rw [lines_cons, (plain.1.start fuel _).1, readFrom, next_append plain.1 (by omega)]
    dsimp only
    rw [ih plain.2 (by omega) (Nat.le_of_succ_le_succ count), List.reverse_cons, List.append_assoc]
    rfl

theorem length_le_lines (ops : List Operation) : ops.length ≤ (lines ops).length := by
  induction ops with
  | nil => exact Nat.le_refl 0
  | cons op ops ih =>
    rw [lines_cons, List.length_append, List.length_cons, List.length_cons]
    omega

theorem readAll_lines (plain : ∀ op ∈ ops, op.Plain) : readAll (lines ops) = .ok (ops.map reread) := by
  have hlength := length_le_lines ops
  rw [readAll]
  exact readFrom_lines plain (by rw [fuelFor]; omega) (by omega) []

/-- Operations are read from what they are written as. -/
theorem readAll_writeAll (plain : ∀ op ∈ ops, op.Plain) :
    readAll (writeAll ops ++ [0x0A]) = .ok (ops.map reread) := by
  by_cases h : ops = []
  · subst h
    rfl
  · rw [writeAll_eq_lines h, readAll_lines plain]

theorem lines_append (ops ops' : List Operation) : lines (ops ++ ops') = lines ops ++ lines ops' :=
  List.flatMap_append

/-! ## Content in brackets -/

/-- Content is read as some operations, and is so between a save and a restore with more content behind
it. -/
structure ReadsOn (content : Bytes) (ops : List Operation) : Prop where
  alone : readAll content = .ok ops
  on : ∀ more, (∀ op ∈ more, op.Plain) → readAll (utf8 "q\n\n" ++ content ++ utf8 "Q\n" ++ lines more) =
    .ok (⟨"q", []⟩ :: (ops ++ ⟨"Q", []⟩ :: more.map reread))

theorem plain_save : Plain ⟨"q", []⟩ :=
  ⟨by decide, List.all_eq_true.mp (by decide), by decide +kernel, by decide +kernel, by simp⟩

theorem plain_restore : Plain ⟨"Q", []⟩ :=
  ⟨by decide, List.all_eq_true.mp (by decide), by decide +kernel, by decide +kernel, by simp⟩

/-- Content that is written line by line is read to its end. -/
theorem readsOn_lines (plain : ∀ op ∈ ops, op.Plain) : ReadsOn (lines ops) (ops.map reread) where
  alone := readAll_lines plain
  on more hmore := by
    set rest := ops ++ ⟨"Q", []⟩ :: more with hrest
    have hplain : ∀ op ∈ rest, op.Plain := by
      intro op hop
      rcases List.mem_append.mp hop with hop | hop
      · exact plain op hop
      · rcases List.mem_cons.mp hop with rfl | hop
        · exact plain_restore
        · exact hmore op hop
    have hcontent : utf8 "q\n\n" ++ lines ops ++ utf8 "Q\n" ++ lines more =
        write ⟨"q", []⟩ ++ 0x0A :: 0x0A :: lines rest := by
      rw [hrest, lines_append, lines_cons, show utf8 "q\n\n" = write ⟨"q", []⟩ ++ [0x0A, 0x0A] by decide,
        show utf8 "Q\n" = write ⟨"Q", []⟩ ++ [0x0A] by decide]
      simp only [List.append_assoc, List.cons_append, List.nil_append]
    have hlength := length_le_lines rest
    rw [hcontent, readAll, (plain_save.start 0 _).1, readFrom, next_append plain_save]
    · dsimp only
      rw [gap_blank rfl, readFrom_lines hplain]
      · rw [hrest, List.map_append, List.map_cons]
        rfl
      · simp only [fuelFor, List.length_append, List.length_cons]
        omega
      · simp only [List.length_append, List.length_cons]
        omega
    · simp only [fuelFor, List.length_append, List.length_cons]
      omega

/-! ## MCIDs -/

variable {r : ContentResources} {m : Int}

/-- Only marked content with properties has an MCID. -/
theorem openedMcid?_eq_some : PageScan.openedMcid? r op = some m ↔
    op.operator = "BDC" ∧ op.operands[1]?.bind (ContentResources.mcid? r.doc r.entries) = some m := by
  constructor
  · intro h
    rw [PageScan.openedMcid?] at h
    cases hcommand : op.command with
    | beginMarked tag properties =>
      rw [hcommand] at h
      rw [command] at hcommand
      split at hcommand
      all_goals first
        | (cases hcommand; done)
        | (cases hcommand; exact ⟨by assumption, h⟩)
        | (cases hcommand; cases h)
        | (repeat' split at hcommand) <;> cases hcommand
    | _ =>
      rw [hcommand] at h
      cases h
  · rintro ⟨hoperator, h⟩
    have hcommand : op.command = .beginMarked (op.nameText?.getD "") op.operands[1]? := by
      simp [command, hoperator]
    rw [PageScan.openedMcid?, hcommand]
    exact h

theorem get?_rereadEntries (es : List (Bytes × Object)) (key : Bytes) :
    (OrderedMap.mk (Object.rereadEntries es)).get? key =
      ((OrderedMap.mk es).get? key).map Object.reread := by
  induction es with
  | nil => rfl
  | cons e es ih =>
    obtain ⟨key', o⟩ := e
    rw [OrderedMap.get?, OrderedMap.get?, Object.rereadEntries, OrderedMap.find, OrderedMap.find]
    split
    · rfl
    · exact ih

/-- An MCID that was written as a real number is read as a whole one. No other property list gets an
MCID. -/
theorem mcid?_reread {doc : Document} {entries : Dict Object} {o : Object}
    (whole : ∀ d x, o = .dictionary d → d.get? "MCID" ≠ some (.real x))
    (h : ContentResources.mcid? doc entries o.reread = some m) :
    ContentResources.mcid? doc entries o = some m := by
  cases o with
  | dictionary d =>
    obtain ⟨n, hn, hm⟩ := Option.bind_eq_some_iff.mp h
    refine Option.bind_eq_some_iff.mpr ⟨n, ?_, hm⟩
    replace hn : doc.value? ⟨Object.rereadEntries d.entries⟩ "MCID" = some n := hn
    show doc.value? d "MCID" = some n
    rw [Document.value?, get?_rereadEntries] at hn
    rw [Document.value?]
    cases hentry : d.get? "MCID" with
    | none =>
      rw [hentry] at hn
      cases hn
    | some v =>
      rw [hentry] at hn
      cases v with
      | real x => exact absurd hentry (whole d x rfl)
      | array | dictionary =>
        obtain rfl := Option.some.inj hn
        cases hm
      | _ => exact hn
  | real x =>
    rw [Object.reread] at h
    rcases Object.rereadReal_cases x with ⟨y, hy⟩ | ⟨n, hn⟩
    · rw [hy] at h
      cases h
    · rw [hn] at h
      cases h
  | name => exact h
  | _ => cases h

theorem getElem?_rereadAll (os : List Object) (i : Nat) :
    (Object.rereadAll os)[i]? = os[i]?.map Object.reread := by
  induction os generalizing i with
  | nil => rfl
  | cons o os ih =>
    cases i with
    | zero => rfl
    | succ i => exact ih i

/-- An operation opens no MCID but the one that it opened before it was written. -/
theorem openedMcid?_reread (whole : op.WholeMcid) (h : PageScan.openedMcid? r op.reread = some m) :
    PageScan.openedMcid? r op = some m := by
  obtain ⟨hoperator, h⟩ := openedMcid?_eq_some.mp h
  obtain ⟨o, ho, hm⟩ := Option.bind_eq_some_iff.mp h
  rw [reread, getElem?_rereadAll] at ho
  obtain ⟨o, hoperand, rfl⟩ := Option.map_eq_some_iff.mp ho
  exact openedMcid?_eq_some.mpr ⟨hoperator, Option.bind_eq_some_iff.mpr
    ⟨o, hoperand, mcid?_reread (fun d x hd => whole d (hd ▸ hoperand) x) hm⟩⟩

end Operation

end AccessiblePdf
