import AccessiblePdf.Proofs.Ocr.Face
import AccessiblePdf.Proofs.Ocr.Names

/-!
What stands under the names of text layers. Edits of a text layer set such names only to fonts of the layer
(`Edit.Binding`), wherever in an object the dictionary is that has them (`Object.Within`): dictionaries are
copied when a page gets resources or fonts of its own. So a name that there was not before stands for a font
of the layer (`Document.LayerEntry`).
-/
namespace AccessiblePdf

open Edit Ocr

/-! ## Objects -/

/-- Entries stand in an object, which has them itself or in what an entry of it is. -/
inductive Object.Within (x : Dict Object) : Object → Prop where
  | here {o : Object} (entries : o.entries? = some x) : Within x o
  | inside {o v : Object} {y : Dict Object} {key : Bytes} (entries : o.entries? = some y)
      (entry : y.get? key = some v) (within : Within x v) : Within x o

/-- What stands in an object under names of layers may stand there. -/
def Object.Binds (E : Bytes → Object → Prop) (o : Object) : Prop :=
  ∀ x, Within x o → ∀ key v, IsLayerName key → x.get? key = some v → E key v

/-- What stands in a document under names of layers may stand there. -/
def Document.Binds (E : Bytes → Object → Prop) (doc : Document) : Prop :=
  ∀ id o, doc.objects.get? id = some o → o.Binds E

variable {E E' : Bytes → Object → Prop} {doc : Document} {x y : Dict Object} {key : Bytes} {o v : Object}
  {id t : ObjectId}

namespace Object

theorem Binds.mono (h : o.Binds E) (sub : ∀ key v, E key v → E' key v) : o.Binds E' :=
  fun x hx key v hkey hv => sub key v (h x hx key v hkey hv)

theorem binds_of_other (h : o.entries? = none) : o.Binds E := by
  intro x hx
  cases hx with
  | here entries => rw [h] at entries; cases entries
  | inside entries => rw [h] at entries; cases entries

theorem Binds.entry (h : o.Binds E) (hx : o.entries? = some x) (hv : x.get? key = some v) : v.Binds E :=
  fun y hy => h y (.inside hx hv hy)

theorem binds_of_entries (hx : o.entries? = some x)
    (h : ∀ key v, x.get? key = some v → v.Binds E ∧ (IsLayerName key → E key v)) : o.Binds E := by
  intro y hy key v hkey hv
  cases hy with
  | here entries =>
    obtain rfl := Option.some.inj (hx.symm.trans entries)
    exact (h key v hv).2 hkey
  | inside entries entry within =>
    obtain rfl := Option.some.inj (hx.symm.trans entries)
    exact (h _ _ entry).1 y within key v hkey hv

theorem Binds.congr (h : o.Binds E) {o' : Object} (same : o'.entries? = o.entries?) : o'.Binds E := by
  intro x hx
  cases hx with
  | here entries => exact h x (.here (same ▸ entries))
  | inside entries entry within => exact h x (.inside (same ▸ entries) entry within)

theorem Binds.insert (h : (dictionary x).Binds E) (ho : o.Binds E) (allowed : IsLayerName key → E key o) :
    (dictionary (x.insert key o)).Binds E := by
  refine binds_of_entries rfl fun key' v hv => ?_
  rw [OrderedMap.get?_insert] at hv
  split at hv
  · next hkey =>
    obtain rfl := Option.some.inj hv
    exact ⟨ho, hkey ▸ allowed⟩
  · exact ⟨h.entry rfl hv, fun hkey => h x (.here rfl) key' v hkey hv⟩

theorem binds_empty : (dictionary ∅).Binds E :=
  binds_of_entries rfl fun key o ho => by cases ho

theorem binds_ofEntries {entries : List (Bytes × Object)}
    (h : ∀ e ∈ entries, ¬IsLayerName e.1 ∧ e.2.Binds E) : (ofEntries entries).Binds E := by
  suffices ∀ x, (dictionary x).Binds E →
      (dictionary (entries.foldl (fun x e => x.insert e.1 e.2) x)).Binds E from this ∅ binds_empty
  induction entries with
  | nil => exact fun x hx => hx
  | cons e entries ih =>
    rw [List.forall_mem_cons] at h
    exact fun x hx => ih h.2 _ (hx.insert h.1.2 fun hkey => absurd hkey h.1.1)

theorem binds_contentStream (z : Compressor) (content : Bytes) : (contentStream z content).Binds E := by
  have hentries : (dictionary (contentEntries z content)).Binds E := by
    have hfilter : (dictionary (if (z.deflate? content).isSome then
        OrderedMap.ofList [(utf8 "Filter", .name "FlateDecode")] else ∅)).Binds E := by
      split
      · exact binds_empty.insert (binds_of_other rfl) fun h => absurd h (by decide)
      · exact binds_empty
    exact hfilter.insert (binds_of_other rfl) fun h => absurd h (by decide)
  exact hentries.congr rfl

theorem Binds.inPlace (h : (dictionary x).Binds E) (key : Bytes) :
    (dictionary (Edit.inPlace (x.get? key))).Binds E := by
  rw [Edit.inPlace]
  cases ho : x.get? key with
  | none => exact binds_empty
  | some o =>
    cases o with
    | dictionary y => exact h.entry rfl ho
    | _ => exact binds_empty

end Object

/-! ## Documents -/

namespace Document.Binds

theorem mono (h : doc.Binds E) (sub : ∀ key v, E key v → E' key v) : doc.Binds E' :=
  fun id o ho => (h id o ho).mono sub

theorem get? (h : doc.Binds E) (ho : doc.get? id = some o) : o.Binds E := by
  obtain ⟨t, -, hobject, -⟩ := target?_of_get? ho
  exact h t o hobject

theorem dict? (h : doc.Binds E) (hx : doc.dict? id = some x) : (Object.dictionary x).Binds E :=
  h.get? (get?_of_dict? hx)

theorem resolve (h : doc.Binds E) (ho : o.Binds E) : (doc.resolve o).Binds E := by
  cases o with
  | reference id =>
    rw [Document.resolve]
    cases hid : doc.get? id with
    | none => exact Object.binds_of_other rfl
    | some o => exact h.get? hid
  | _ => exact ho

theorem value? (h : doc.Binds E) (hx : (Object.dictionary x).Binds E) (hv : doc.value? x key = some v) :
    v.Binds E := by
  obtain ⟨o, ho, rfl⟩ := Option.map_eq_some_iff.mp hv
  exact h.resolve (hx.entry rfl ho)

theorem inheritedFrom (h : doc.Binds E) {depth : Nat} (hx : (Object.dictionary x).Binds E)
    (hv : doc.inheritedFrom key depth x = some v) : v.Binds E := by
  induction depth generalizing x with
  | zero => cases hv
  | succ depth ih =>
    rw [Document.inheritedFrom] at hv
    split at hv
    · next value hvalue =>
      obtain rfl := Option.some.inj hv
      exact h.value? hx hvalue
    · obtain ⟨node, hnode, hv⟩ := Option.bind_eq_some_iff.mp hv
      obtain ⟨o, ho, hentries⟩ := Option.bind_eq_some_iff.mp hnode
      exact ih ((h.value? hx ho).congr hentries.symm) hv

theorem pageResources (h : doc.Binds E) (page : ObjectId) :
    (Object.dictionary (doc.pageResources page)).Binds E := by
  rw [Document.pageResources]
  cases hz : doc.pageResources? page with
  | none => exact Object.binds_empty
  | some z =>
    obtain ⟨o, ho, hdictionary⟩ := Option.bind_eq_some_iff.mp hz
    obtain rfl := Object.dictionary?_eq_some.mp hdictionary
    obtain ⟨x, hx, hinherited⟩ := Option.bind_eq_some_iff.mp ho
    exact h.inheritedFrom (h.dict? hx) hinherited

theorem put (h : doc.Binds E) (t : ObjectId) (ho : o.Binds E) : (doc.put t o).Binds E := by
  intro id o' ho'
  rw [Document.put, OrderedMap.get?_insert] at ho'
  split at ho'
  · obtain rfl := Option.some.inj ho'
    exact ho
  · exact h id o' ho'

theorem add (h : doc.Binds E) (ho : o.Binds E) : (doc.add o).Binds E :=
  put (show doc.reserve.Binds E from h) _ ho

end Document.Binds

/-! ## Edits -/

namespace Edit

/-- An edit that sets under names of layers only what may stand there, and takes no object away. -/
def Binding (E : Bytes → Object → Prop) {α : Type} (e : Edit α) : Prop :=
  ∀ d d' a, e.run d = .ok a d' → d.doc.Binds E →
    d'.doc.Binds E ∧ d.doc.objects.size ≤ d'.doc.objects.size

namespace Binding

variable {α β : Type}

theorem of_same {e : Edit α} (h : ∀ d d' a, e.run d = .ok a d' → d'.doc = d.doc) : Binding E e := by
  intro d d' a hrun binds
  rw [h d d' a hrun]
  exact ⟨binds, Nat.le_refl _⟩

theorem pure (a : α) : Binding E (Pure.pure a) :=
  of_same fun _ _ _ hrun => by rw [(pure_ok.mp hrun).2]

theorem dict (id : ObjectId) : Binding E (Edit.dict id) :=
  of_same fun _ _ _ hrun => by rw [(dict_ok.mp hrun).2]

theorem bind {e : Edit α} {g : α → Edit β} (he : Binding E e) (hg : ∀ a, Binding E (g a)) :
    Binding E (e >>= g) := by
  intro d d' b hrun binds
  obtain ⟨a, d₁, hfirst, hrest⟩ := bind_ok.mp hrun
  obtain ⟨binds₁, hsize₁⟩ := he d d₁ a hfirst binds
  obtain ⟨binds', hsize'⟩ := hg a d₁ d' b hrest binds₁
  exact ⟨binds', Nat.le_trans hsize₁ hsize'⟩

theorem length_put (k : ObjectId) (a : Object) (l : List (ObjectId × Object)) :
    l.length ≤ (OrderedMap.put k a l).length := by
  induction l with
  | nil => exact Nat.zero_le _
  | cons e l ih =>
    rw [OrderedMap.put]
    split
    · exact Nat.le_refl _
    · exact Nat.succ_le_succ ih

theorem add (ho : o.Binds E) : Binding E (Edit.add o) := by
  intro d d' id hrun binds
  obtain ⟨-, rfl⟩ := add_ok.mp hrun
  exact ⟨binds.add ho, length_put _ _ _⟩

theorem stream (content : Bytes) : Binding E (Edit.stream content) :=
  of_same fun _ _ _ hrun => by rw [(Represents.stream_ok.mp hrun).2]

theorem setEntry (ho : o.Binds E) (allowed : IsLayerName key → E key o) (id : ObjectId) :
    Binding E (Edit.setEntry id key o) := by
  intro d d' u hrun binds
  obtain ⟨t, x, -, hx, rfl⟩ := setEntry_ok.mp hrun
  exact ⟨binds.put t ((binds t _ hx).insert ho allowed), length_put _ _ _⟩

theorem indirectDict (hkey : ¬IsLayerName key) (owner : ObjectId) :
    Binding E (Edit.indirectDict owner key) := by
  intro d d' id hrun binds
  obtain ⟨x, hx, hcases⟩ := indirectDict_ok.mp hrun
  split at hcases
  · obtain ⟨-, rfl⟩ := hcases
    exact ⟨binds, Nat.le_refl _⟩
  · obtain ⟨-, hset⟩ := hcases
    obtain ⟨binds', hsize⟩ :=
      setEntry (Object.binds_of_other rfl) (fun h => absurd h hkey) owner _ _ _ hset
        (binds.add ((binds.dict? hx).inPlace key))
    exact ⟨binds', Nat.le_trans (length_put _ _ _) hsize⟩

theorem pageResources (page : ObjectId) : Binding E (Edit.pageResources page) := by
  intro d d' id hrun binds
  obtain ⟨x, _, hdict, -⟩ := bind_ok.mp hrun
  obtain ⟨hx, -⟩ := dict_ok.mp hdict
  rw [run_pageResources hx] at hrun
  split at hrun
  · exact indirectDict (by decide) page _ _ _ hrun binds
  · obtain ⟨_, d₁, hset, hown⟩ := bind_ok.mp hrun
    obtain ⟨binds₁, hsize₁⟩ :=
      setEntry (binds.pageResources page) (fun h => absurd h (by decide)) page _ _ _ hset binds
    obtain ⟨binds', hsize'⟩ := indirectDict (by decide) page _ _ _ hown binds₁
    exact ⟨binds', Nat.le_trans hsize₁ hsize'⟩

theorem pageFonts (page : ObjectId) : Binding E (Edit.pageFonts page) := by
  unfold Edit.pageFonts
  exact (pageResources page).bind fun id => indirectDict (by decide) id

theorem addStream (content : Bytes) : Binding E (do Edit.add (← Edit.stream content)) := by
  intro d d' id hrun
  rw [run_bind (run_stream d content)] at hrun
  exact add (Object.binds_contentStream _ content) d d' id hrun

theorem appendContent (page : ObjectId) (content : Bytes) : Binding E (Edit.appendContent page content) := by
  have hset : ∀ items, Binding E (Edit.setEntry page "Contents" (.array items)) := fun items =>
    setEntry (Object.binds_of_other rfl) (fun h => absurd h (by decide)) page
  rw [appendContent_eq]
  refine (dict page).bind fun x => ?_
  unfold appendBehind
  split
  · rw [← bind_assoc]
    exact (addStream content).bind fun _ => hset _
  · refine (add (Object.binds_contentStream .plain _)).bind fun _ => ?_
    rw [← bind_assoc]
    exact (addStream _).bind fun _ => hset _

/-! ## The fonts of the layer -/

theorem addUniversalFont : Binding E Edit.addUniversalFont := by
  have hplain {entries : List (Bytes × Object)}
      (h : ∀ e ∈ entries, ¬IsLayerName e.1 ∧ e.2.entries? = none) : (Object.ofEntries entries).Binds E :=
    Object.binds_ofEntries fun e he => ⟨(h e he).1, Object.binds_of_other (h e he).2⟩
  unfold Edit.addUniversalFont
  rw [← bind_assoc]
  refine (addStream _).bind fun toUnicode => (add ?_).bind fun descriptor =>
    (add ?_).bind fun descendant => add ?_
  · exact hplain (by decide)
  · refine Object.binds_ofEntries fun e he => ?_
    simp only [List.mem_cons, List.not_mem_nil, or_false] at he
    rcases he with rfl | rfl | rfl | rfl | rfl | rfl | rfl
    case inr.inr.inr.inl => exact ⟨by decide, hplain (by decide)⟩
    all_goals exact ⟨by dsimp only; decide, Object.binds_of_other rfl⟩
  · refine hplain fun e he => ?_
    simp only [List.mem_cons, List.not_mem_nil, or_false] at he
    rcases he with rfl | rfl | rfl | rfl | rfl | rfl <;> exact ⟨by dsimp only; decide, rfl⟩

theorem layerFont (fonts : LayerFonts) (layer : LayerFont) : Binding E (Edit.layerFont fonts layer) := by
  have hlatin : Edit.latinFont.Binds E := by
    refine Object.binds_ofEntries fun e he => ?_
    simp only [List.mem_cons, List.not_mem_nil, or_false] at he
    rcases he with rfl | rfl | rfl | rfl | rfl | rfl | rfl <;>
      exact ⟨by decide, Object.binds_of_other rfl⟩
  cases layer with
  | latin =>
    simp only [Edit.layerFont]
    cases fonts.latin with
    | some id => exact pure _
    | none => exact (add hlatin).bind fun _ => pure _
  | universal =>
    simp only [Edit.layerFont]
    cases fonts.universal with
    | some id => exact pure _
    | none => exact addUniversalFont.bind fun _ => pure _

end Binding

end Edit

/-! ## Fonts of the layer under their names -/

namespace Document

variable {old : Document} {homes : ObjectId → Prop} {layer : LayerFont} {page : ObjectId} {z : Dict Object}

/-- A reference to a font of the layer. -/
def Face (doc : Document) (layer : LayerFont) (entry : Object) : Prop :=
  ∃ id x, entry = .reference id ∧ doc.dict? id = some x ∧ FontAt doc layer x

/-- A font of the layer under its name. -/
def LayerEntry (doc : Document) (key : Bytes) (entry : Object) : Prop :=
  ∃ layer : LayerFont, key = utf8 layer.resource ∧ doc.Face layer entry

/-- A page has a font of the layer under its name. -/
def FaceAt (doc : Document) (page : ObjectId) (layer : LayerFont) : Prop :=
  ∃ resources fonts entry, FontsAt doc page resources ∧ doc.dict? resources = some fonts ∧
    fonts.get? (utf8 layer.resource) = some entry ∧ doc.Face layer entry

theorem Face.overlays (h : old.Face layer v) (laid : Overlays homes old doc) : doc.Face layer v := by
  obtain ⟨id, x, hv, hx, hfont⟩ := h
  obtain ⟨_, y, -, hy, hpainted⟩ := laid.dict? hx
  exact ⟨id, y, hv, hy, hfont.painted laid hpainted⟩

theorem LayerEntry.overlays (h : old.LayerEntry key v) (laid : Overlays homes old doc) :
    doc.LayerEntry key v := by
  obtain ⟨layer, hkey, hface⟩ := h
  exact ⟨layer, hkey, hface.overlays laid⟩

theorem LayerEntry.face (h : doc.LayerEntry (utf8 layer.resource) v) : doc.Face layer v := by
  obtain ⟨layer', hkey, hface⟩ := h
  obtain rfl : layer = layer' := by
    cases layer <;> cases layer' <;> first | rfl | exact absurd hkey (by decide)
  exact hface

theorem Face.sameFont {font : ObjectId} (h : doc.Face layer v) (hfont : doc.Face layer (.reference font)) :
    doc.SameFont font v := by
  obtain ⟨id, theirs, rfl, htheirs, hfontAt⟩ := h
  obtain ⟨_, ours, ⟨⟩, hours, hfontAt'⟩ := hfont
  refine Or.inr ⟨theirs, ours, resolve_reference (get?_of_dict? htheirs), hours, fun key hkey => ?_⟩
  obtain ⟨name, hname⟩ := FontAt.exists_entryName doc layer key hkey
  exact ⟨name, hname ours hfontAt', hname theirs hfontAt⟩

theorem reference_of_painted {place : ObjectId} (h : old.Painted homes place x y)
    (hkey : ¬IsLayerName key) (hcontents : key ≠ utf8 "Contents") (hx : x.get? key = some (.reference id))
    (hid : old.dict? id = some z) : y.get? key = some (.reference id) := by
  rw [← hx]
  refine (h key).resolve_right ?_
  rintro (⟨hcontents', -⟩ | ⟨-, hown⟩ | ⟨hname, -⟩)
  · exact hcontents hcontents'
  · rw [hx, ownId?_reference, hid] at hown
    cases hown
  · exact hkey hname

end Document

variable {old : Document} {homes : ObjectId → Prop} {layer : LayerFont} {page : ObjectId} {z : Dict Object}

theorem Edit.FontsAt.overlays {resources : ObjectId} (h : FontsAt old page resources)
    (laid : Document.Overlays homes old doc) (hfonts : old.dict? resources = some z) :
    FontsAt doc page resources := by
  obtain ⟨x, id, w, hx, hid, hw, href⟩ := h
  obtain ⟨_, x', -, hx', hpainted⟩ := laid.dict? hx
  obtain ⟨_, w', -, hw', hpainted'⟩ := laid.dict? hw
  exact ⟨x', id, w', hx', Document.reference_of_painted hpainted (by decide) (by decide) hid hw, hw',
    Document.reference_of_painted hpainted' (by decide) (by decide) href hfonts⟩

theorem Document.FaceAt.overlays (h : old.FaceAt page layer) (laid : Overlays homes old doc) :
    doc.FaceAt page layer := by
  obtain ⟨resources, fonts, entry, hat, hfonts, hentry, hface⟩ := h
  obtain ⟨_, fonts', -, hfonts', hpainted⟩ := laid.dict? hfonts
  refine ⟨resources, fonts', entry, hat.overlays laid hfonts, hfonts', ?_, hface.overlays laid⟩
  exact hpainted.entry (by cases layer <;> unfold IsReplaced <;> decide) hentry

end AccessiblePdf
