import AccessiblePdf.Outline.Heading
import AccessiblePdf.Proofs.Document.Entry
import AccessiblePdf.Proofs.Document.Pages
import AccessiblePdf.Proofs.Structure.Readback

/-!
Lists of kids in objects of their own. No reader of the structure tree follows the reference under `K`:
where an array is referred to by lists of kids alone (`KidArray`), neither the report on the structure
tree nor the headings nor the MCIDs of an element tell what is in it. So moving the list of an element
into an object of its own loses all that is below the element (`kids_moved`).
-/
namespace AccessiblePdf

namespace Document

/-! ## Arrays that only lists of kids refer to -/

/-- An array to which nothing refers but entries for kids. All objects that a reader may meet on other
ways are among `Met`. -/
structure KidArray (doc : Document) (f : ObjectId) (Met : Object → Prop) : Prop where
  closed : doc.Closed
  array : ∃ items, doc.objects.get? f = some (.array items)
  objects : ∀ id o, id ≠ f → doc.objects.get? id = some o → Met o
  trailer : Met (.dictionary doc.trailer)
  null : Met .null
  reference : ∀ id, Met (.reference id) → id ≠ f
  item : ∀ items, Met (.array items) → ∀ o ∈ items, Met o
  entry : ∀ x, Met (.dictionary x) → ∀ e ∈ x.entries, Met e.2 ∨ e.1 = "K" ∧ e.2 = .reference f
  stream : ∀ x content, Met (.stream x content) → Met (.dictionary x)

namespace KidArray

variable {doc : Document} {f id : ObjectId} {Met : Object → Prop} {x : Dict Object} {key : Bytes}
  {o : Object} (h : doc.KidArray f Met) (items : List Object)

include h

/-! ## Look-ups -/

theorem target?_eq (id : ObjectId) : (doc.put f (.array items)).target? id = doc.target? id := by
  obtain ⟨_, harray⟩ := h.array
  exact target?_put harray rfl rfl id

theorem chase_ne {n : Nat} (hid : id ≠ f) : chase doc.objects n id ≠ some f := by
  induction n generalizing id with
  | zero =>
    rw [chase]
    split
    · exact fun h => absurd h (by simp)
    · exact fun h => absurd h (by simp)
    · exact fun hsome => hid (Option.some.inj hsome)
  | succ n ih =>
    rw [chase]
    split
    · exact fun h => absurd h (by simp)
    · next next hnext => exact ih (h.reference next (h.objects id _ hid hnext))
    · exact fun hsome => hid (Option.some.inj hsome)

theorem get?_eq (hid : id ≠ f) : (doc.put f (.array items)).get? id = doc.get? id := by
  obtain ⟨_, harray⟩ := h.array
  have htarget : doc.target? id ≠ some f := h.chase_ne hid
  rw [get?_put harray rfl rfl, if_neg htarget]

theorem get?_met (hid : id ≠ f) (ho : doc.get? id = some o) : Met o := by
  obtain ⟨t, ht, hto, -⟩ := target?_of_get? ho
  refine h.objects t o ?_ hto
  rintro rfl
  exact h.chase_ne hid ht

theorem dict?_array : (doc.put f (.array items)).dict? f = none ∧ doc.dict? f = none := by
  obtain ⟨_, harray⟩ := h.array
  have hput : (doc.put f (.array items)).objects.get? f = some (.array items) := by
    rw [put, OrderedMap.get?_insert_self]
  exact ⟨by rw [dict?, get?_of_direct hput rfl]; rfl, by rw [dict?, get?_of_direct harray rfl]; rfl⟩

theorem dict?_eq (id : ObjectId) : (doc.put f (.array items)).dict? id = doc.dict? id := by
  by_cases hid : id = f
  · obtain ⟨hput, hnone⟩ := h.dict?_array items
    rw [hid, hput, hnone]
  · rw [dict?, h.get?_eq items hid, dict?]

theorem dict?_met (hx : doc.dict? id = some x) : Met (.dictionary x) := by
  refine h.get?_met (fun hid => ?_) (get?_of_dict? hx)
  rw [hid, (h.dict?_array []).2] at hx
  exact absurd hx (by simp)

theorem resolve_eq (met : Met o) : (doc.put f (.array items)).resolve o = doc.resolve o := by
  cases o with
  | reference id => rw [resolve, resolve, h.get?_eq items (h.reference id met)]
  | _ => rfl

theorem resolve_met (met : Met o) : Met (doc.resolve o) := by
  cases o with
  | reference id =>
    rw [resolve]
    cases ho : doc.get? id with
    | none => exact h.null
    | some o => exact h.get?_met (h.reference id met) ho
  | _ => exact met

theorem resolve_array : (doc.put f (.array items)).resolve (.reference f) = .array items ∧
    ∃ items, doc.resolve (.reference f) = .array items := by
  obtain ⟨old, harray⟩ := h.array
  have hput : (doc.put f (.array items)).objects.get? f = some (.array items) := by
    rw [put, OrderedMap.get?_insert_self]
  exact ⟨by rw [resolve, get?_of_direct hput rfl]; rfl,
    old, by rw [resolve, get?_of_direct harray rfl]; rfl⟩

/-! ## Entries of dictionaries -/

theorem entry_met (met : Met (.dictionary x)) (hkey : key ≠ "K") (ho : x.get? key = some o) :
    Met o := by
  rcases h.entry x met _ (OrderedMap.mem_of_get? ho) with hmet | ⟨hk, -⟩
  · exact hmet
  · exact absurd hk hkey

theorem value?_eq (met : Met (.dictionary x)) (hkey : key ≠ "K") :
    (doc.put f (.array items)).value? x key = doc.value? x key := by
  rw [value?, value?]
  cases ho : x.get? key with
  | none => rfl
  | some o => rw [Option.map_some, Option.map_some, h.resolve_eq items (h.entry_met met hkey ho)]

theorem value?_met (met : Met (.dictionary x)) (hkey : key ≠ "K")
    (ho : doc.value? x key = some o) : Met o := by
  obtain ⟨entry, hentry, rfl⟩ := Option.map_eq_some_iff.mp ho
  exact h.resolve_met (h.entry_met met hkey hentry)

theorem entryDict?_met (met : Met (.dictionary x)) (hkey : key ≠ "K") {d : Dict Object}
    (hd : doc.entryDict? x key = some d) : Met (.dictionary d) := by
  obtain ⟨o, ho, hentries⟩ := Option.bind_eq_some_iff.mp hd
  have hmet := h.value?_met met hkey ho
  cases o with
  | dictionary d' =>
    rw [← Option.some.inj hentries]
    exact hmet
  | stream d' content =>
    rw [← Option.some.inj hentries]
    exact h.stream d' content hmet
  | _ => exact absurd hentries (by simp [Object.entries?])

theorem entryArray?_met (met : Met (.dictionary x)) (hkey : key ≠ "K") :
    ∀ o ∈ (doc.entryArray? x key).getD [], Met o := by
  intro o ho
  cases hitems : doc.entryArray? x key with
  | none =>
    rw [hitems] at ho
    exact absurd ho List.not_mem_nil
  | some items =>
    rw [hitems, Option.getD_some] at ho
    obtain ⟨value, hvalue, harray⟩ := Option.bind_eq_some_iff.mp hitems
    have hmet := h.value?_met met hkey hvalue
    cases value with
    | array items' =>
      obtain rfl := Option.some.inj harray
      exact h.item _ hmet o ho
    | _ => exact absurd harray (by simp [Object.array?])

theorem dictionaries_eq {l : List Object} (met : ∀ o ∈ l, Met o) :
    l.filterMap (fun o => ((doc.put f (.array items)).resolve o).dictionary?) =
      l.filterMap fun o => (doc.resolve o).dictionary? :=
  List.filterMap_congr fun o ho => by rw [h.resolve_eq items (met o ho)]

theorem dictionaries_met {l : List Object} (met : ∀ o ∈ l, Met o) :
    ∀ d ∈ l.filterMap (fun o => (doc.resolve o).dictionary?), Met (.dictionary d) := by
  intro d hd
  obtain ⟨o, ho, hd⟩ := List.mem_filterMap.mp hd
  have hmet := h.resolve_met (met o ho)
  cases hvalue : doc.resolve o with
  | dictionary d' =>
    rw [hvalue] at hd hmet
    rw [← Option.some.inj hd]
    exact hmet
  | _ =>
    rw [hvalue] at hd
    exact absurd hd (by simp [Object.dictionary?])

/-! ## Pages, roles and keys -/

theorem pages_eq : (doc.put f (.array items)).pages = doc.pages := by
  obtain ⟨_, harray⟩ := h.array
  have hkids : ∀ id, (doc.put f (.array items)).pageKids id = doc.pageKids id := by
    intro id
    rw [pageKids, pageKids, h.dict?_eq]
    cases hx : doc.dict? id with
    | none => rfl
    | some x =>
      rw [Option.bind_some, Option.bind_some, entryArray?, entryArray?,
        h.value?_eq items (h.dict?_met hx) (by decide)]
  have hlink : (doc.put f (.array items)).catalogDict? = doc.catalogDict? :=
    Option.bind_congr fun id _ => h.dict?_eq items id
  have hsize : (doc.put f (.array items)).objects.size = doc.objects.size := by
    have hkeys := congrArg List.length (OrderedMap.keys_insert harray (Object.array items))
    rw [OrderedMap.keys, OrderedMap.keys, List.length_map, List.length_map] at hkeys
    exact hkeys
  rw [h.closed.pages_eq (fun id _ => by rw [typeOf?, typeOf?, h.dict?_eq]) (fun id _ => hkids id)
    (by rw [hlink]), hsize]
  rfl

theorem pageNumbers_eq : (doc.put f (.array items)).pageNumbers = doc.pageNumbers := by
  rw [pageNumbers, pageNumbers, h.pages_eq]

theorem roleMap_eq (met : Met (.dictionary x)) :
    (doc.put f (.array items)).roleMap x = doc.roleMap x := by
  rw [roleMap, roleMap, entryDict?, entryDict?, h.value?_eq items met (by decide)]
  cases hroles : (doc.value? x "RoleMap").bind Object.entries? with
  | none => rfl
  | some roles =>
    have hmet : Met (.dictionary roles) :=
      h.entryDict?_met met (show utf8 "RoleMap" ≠ "K" by decide) hroles
    refine List.foldl_ext _ _ _ fun map e he => ?_
    rcases h.entry roles hmet e he with htarget | ⟨-, harray⟩
    · simp only [h.resolve_eq items htarget]
    · -- An array is the name of no role.
      obtain ⟨hput, old, hold⟩ := h.resolve_array items
      simp only [harray, hput, hold]
      rfl

theorem numberLeaves_eq (depth : Nat) (met : Met (.dictionary x)) :
    (doc.put f (.array items)).numberLeaves depth x = doc.numberLeaves depth x := by
  have hpairs : ∀ x, Met (.dictionary x) →
      (doc.put f (.array items)).numberPairs x = doc.numberPairs x := by
    intro x met
    have hmet := h.entryArray?_met met (show utf8 "Nums" ≠ "K" by decide)
    rw [numberPairs, numberPairs, entryArray?, h.value?_eq items met (by decide), ← entryArray?]
    generalize (doc.entryArray? x "Nums").getD [] = nums at hmet
    fun_induction pairs nums with
    | case1 key value rest ih =>
      have ih := ih fun o ho => hmet o (List.mem_cons_of_mem _ (List.mem_cons_of_mem _ ho))
      simp only [List.filterMap_cons, ih, h.resolve_eq items (hmet key List.mem_cons_self)]
    | case2 => rfl
  induction depth generalizing x with
  | zero => rw [numberLeaves, numberLeaves, hpairs x met]
  | succ depth ih =>
    have hmet := h.entryArray?_met met (show utf8 "Kids" ≠ "K" by decide)
    rw [numberLeaves, numberLeaves, hpairs x met, kidDicts, kidDicts, entryArray?,
      h.value?_eq items met (by decide), ← entryArray?, h.dictionaries_eq items hmet]
    congr 1
    exact List.flatMap_congr fun d hd => ih (h.dictionaries_met hmet d hd)

theorem parentEntries_eq (met : Met (.dictionary x)) :
    (doc.put f (.array items)).parentEntries x = doc.parentEntries x := by
  rw [parentEntries, parentEntries, entryDict?, entryDict?, h.value?_eq items met (by decide)]
  cases htree : (doc.value? x "ParentTree").bind Object.entries? with
  | none => rw [Option.map_none, Option.map_none]
  | some tree =>
    have hmet : Met (.dictionary tree) :=
      h.entryDict?_met met (show utf8 "ParentTree" ≠ "K" by decide) htree
    have hleaves : (doc.put f (.array items)).numberTree tree = doc.numberTree tree := by
      rw [numberTree, numberTree, h.numberLeaves_eq items treeDepth hmet]
    rw [Option.map_some, Option.map_some, hleaves]

/-! ## Elements -/

theorem attributes_eq (met : Met (.dictionary x)) :
    (doc.put f (.array items)).attributes x = doc.attributes x := by
  have hof : ∀ d, Met (.dictionary d) →
      (doc.put f (.array items)).attributesOf d = doc.attributesOf d := by
    intro d hd
    rw [attributesOf, attributesOf, entryName?, entryName?, h.value?_eq items hd (by decide)]
  rw [attributes, attributes, h.value?_eq items met (by decide)]
  cases hvalue : doc.value? x "A" with
  | none => rfl
  | some value =>
    have hmet := h.value?_met met (by decide) hvalue
    cases value with
    | dictionary d => exact hof d hmet
    | array l =>
      have hitems := h.item l hmet
      show ((l.filterMap _).flatMap _ : List AttributeFacts) = (l.filterMap _).flatMap _
      rw [h.dictionaries_eq items hitems]
      exact List.flatMap_congr fun d hd => hof d (h.dictionaries_met hitems d hd)
    | _ => rfl

theorem kidsOf_met (met : Met (.dictionary x)) : ∀ kid ∈ kidsOf x, Met kid ∨ kid = .reference f := by
  intro kid hkid
  rw [kidsOf] at hkid
  cases hlist : x.get? "K" with
  | none =>
    rw [hlist] at hkid
    exact absurd hkid List.not_mem_nil
  | some list =>
    have hmet := (h.entry x met _ (OrderedMap.mem_of_get? hlist)).imp_right And.right
    rw [hlist] at hkid
    cases list with
    | array l =>
      rcases hmet with hmet | heq
      · exact Or.inl (h.item l hmet kid hkid)
      · exact absurd heq (by simp)
    | _ =>
      rw [List.mem_singleton.mp hkid]
      exact hmet

section Contexts

variable (roles : Std.TreeMap String String) (pages : Std.TreeMap ObjectId Nat)

open ElementContext

theorem kid_eq (page : Option Nat) {kid : Object} (hkid : Met kid ∨ kid = .reference f) :
    (ElementContext.mk (doc.put f (.array items)) roles pages).kid page kid =
      (ElementContext.mk doc roles pages).kid page kid := by
  rcases hkid with hmet | rfl
  · have hresolve := h.resolve_met hmet
    simp only [ElementContext.kid, h.resolve_eq items hmet]
    split
    · rfl
    · next d hd =>
      rw [hd] at hresolve
      rw [entryName?, h.value?_eq items hresolve (by decide), ← entryName?, entryWhole?,
        entryNumber?, h.value?_eq items hresolve (by decide), ← entryNumber?, ← entryWhole?]
      rfl
    · rfl
  · obtain ⟨hput, old, hold⟩ := h.resolve_array items
    simp only [ElementContext.kid, hput, hold]

theorem facts_eq (page : Option Nat) (id : Option ObjectId) (met : Met (.dictionary x)) :
    (ElementContext.mk (doc.put f (.array items)) roles pages).facts page id x =
      (ElementContext.mk doc roles pages).facts page id x := by
  have hname : (doc.put f (.array items)).entryName? x "S" = doc.entryName? x "S" := by
    rw [entryName?, h.value?_eq items met (by decide), ← entryName?]
  have htext : ∀ key, key ≠ utf8 "K" →
      (doc.put f (.array items)).entryText? x key = doc.entryText? x key := by
    intro key hkey
    rw [entryText?, h.value?_eq items met hkey, ← entryText?]
  have hkids : ∀ page, (kidsOf x).map
        ((ElementContext.mk (doc.put f (.array items)) roles pages).kid page) =
      (kidsOf x).map ((ElementContext.mk doc roles pages).kid page) :=
    fun page => List.map_congr_left fun kid hkid =>
      h.kid_eq items roles pages page (h.kidsOf_met met kid hkid)
  simp only [ElementContext.facts, hname, h.attributes_eq items met, hkids]
  rw [htext "ID" (by decide), htext "T" (by decide), htext "Lang" (by decide),
    htext "Alt" (by decide), htext "ActualText" (by decide)]
  rfl

theorem elementKids_context_eq (page : Option Nat) (met : Met (.dictionary x)) :
    (ElementContext.mk (doc.put f (.array items)) roles pages).elementKids page x =
      (ElementContext.mk doc roles pages).elementKids page x :=
  List.filter_congr fun kid hkid => by
    rw [h.kid_eq items roles pages page (h.kidsOf_met met kid hkid)]

/-- Elements are read alike, with all that is below them. -/
theorem readAll_eq (levels : Nat) (page : Option Nat) (met : List ObjectId) {kids : List Object}
    (hkids : ∀ kid ∈ kids, Met kid ∨ kid = .reference f) :
    (ElementContext.mk (doc.put f (.array items)) roles pages).readAll levels page met kids =
      (ElementContext.mk doc roles pages).readAll levels page met kids := by
  induction levels generalizing page met kids with
  | zero => rfl
  | succ levels ih =>
    have hstep : ∀ read, ∀ kid ∈ kids,
        (ElementContext.mk (doc.put f (.array items)) roles pages).readKid levels page read kid =
          (ElementContext.mk doc roles pages).readKid levels page read kid := by
      rintro ⟨trees, met⟩ kid hkid
      rcases hkids kid hkid with hmet | rfl
      · have hresolve := h.resolve_met hmet
        simp only [readKid, h.resolve_eq items hmet]
        cases hd : (doc.resolve kid).dictionary? with
        | none => rfl
        | some d =>
          have hdict : Met (.dictionary d) := by
            cases hvalue : doc.resolve kid with
            | dictionary d' =>
              rw [hvalue] at hd hresolve
              rw [← Option.some.inj hd]
              exact hresolve
            | _ =>
              rw [hvalue] at hd
              exact absurd hd (by simp [Object.dictionary?])
          simp only [h.facts_eq items roles pages _ _ hdict,
            h.elementKids_context_eq items roles pages _ hdict]
          rw [ih]
          exact fun kid hkid => h.kidsOf_met hdict kid (List.mem_of_mem_filter hkid)
      · -- The array itself is no element.
        obtain ⟨hput, old, hold⟩ := h.resolve_array items
        simp only [readKid, hput, hold]
        rfl
    rw [readAll_succ, readAll_succ, List.foldl_ext _ _ _ hstep]

end Contexts

theorem structureTrees_eq (rootId : Option ObjectId) (met : Met (.dictionary x)) :
    (doc.put f (.array items)).structureTrees rootId x = doc.structureTrees rootId x := by
  rw [structureTrees, structureTrees, h.roleMap_eq items met, h.pageNumbers_eq]
  exact congrArg Prod.fst (h.readAll_eq items _ _ _ _ _ (h.kidsOf_met met))

/-- A report tells the same about the structure tree, whatever is in the array. -/
theorem report_eq (o : ReportOptions) :
    ((doc.put f (.array items)).report o).map (·.structureTree) =
      (doc.report o).map (·.structureTree) := by
  have hcatalog : (doc.put f (.array items)).catalogDict? = doc.catalogDict? :=
    Option.bind_congr fun id _ => h.dict?_eq items id
  cases hx : doc.catalogDict? with
  | none =>
    rw [report_error (hcatalog.trans hx), report_error hx]
    rfl
  | some x =>
    obtain ⟨id, -, hid⟩ := Option.bind_eq_some_iff.mp hx
    have hmet := h.dict?_met hid
    obtain ⟨r, hr, -, htree⟩ := report_ok hx o
    obtain ⟨r', hr', -, htree'⟩ := report_ok (hcatalog.trans hx) o
    have hroot : (doc.put f (.array items)).entryDict? x "StructTreeRoot" =
        doc.entryDict? x "StructTreeRoot" := by
      rw [entryDict?, h.value?_eq items hmet (by decide), ← entryDict?]
    rw [hr, hr']
    show Except.ok r'.structureTree = Except.ok r.structureTree
    rw [htree, htree', hroot]
    cases hd : doc.entryDict? x "StructTreeRoot" with
    | none => rw [Option.map_none, Option.map_none]
    | some root =>
      have hmet := h.entryDict?_met hmet (by decide) hd
      rw [Option.map_some, Option.map_some, Option.map_some, Option.map_some,
        h.parentEntries_eq items hmet, structureFacts, structureFacts, h.structureTrees_eq items _ hmet,
        entryWhole?, entryNumber?, h.value?_eq items hmet (by decide), ← entryNumber?, ← entryWhole?]

/-! ## Headings -/

theorem structureKids_eq (element : ObjectId) :
    (doc.put f (.array items)).structureKids element = doc.structureKids element := by
  rw [structureKids, structureKids, h.dict?_eq]

theorem elementKids_eq (element : ObjectId) :
    (doc.put f (.array items)).elementKids element = doc.elementKids element := by
  rw [elementKids, elementKids, h.structureKids_eq]
  simp only [h.dict?_eq]

theorem heading?_eq (map : Std.TreeMap String String) (element : ObjectId) :
    (doc.put f (.array items)).heading? map element = doc.heading? map element := by
  rw [heading?, heading?, h.dict?_eq]
  refine Option.bind_congr fun d hd => ?_
  rw [entryName?, h.value?_eq items (h.dict?_met hd) (by decide), ← entryName?]

theorem headingsFrom_eq (map : Std.TreeMap String String) (unvisited pending : List ObjectId) :
    (doc.put f (.array items)).headingsFrom map unvisited pending =
      doc.headingsFrom map unvisited pending := by
  fun_induction headingsFrom doc map unvisited pending with
  | case1 => rw [headingsFrom]
  | case2 unvisited element pending hmem ih =>
    rw [headingsFrom, if_pos hmem, h.heading?_eq, h.elementKids_eq, ih]
  | case3 unvisited element pending hmem ih => rw [headingsFrom, if_neg hmem, ih]

theorem headings_eq (root : ObjectId) :
    (doc.put f (.array items)).headings root = doc.headings root := by
  obtain ⟨_, harray⟩ := h.array
  have hkeys : (doc.put f (.array items)).objects.keys = doc.objects.keys :=
    OrderedMap.keys_insert harray _
  have hroles : (doc.put f (.array items)).roleMap ((doc.dict? root).getD ∅) =
      doc.roleMap ((doc.dict? root).getD ∅) := by
    cases hx : doc.dict? root with
    | none => rfl
    | some x => exact h.roleMap_eq items (h.dict?_met hx)
  rw [headings, headings, h.dict?_eq, hroles, hkeys, h.elementKids_eq, h.headingsFrom_eq]

theorem elementMcids_eq (element page : ObjectId) :
    (doc.put f (.array items)).elementMcids element page = doc.elementMcids element page := by
  rw [elementMcids, elementMcids, h.structureKids_eq]
  have hkids : ∀ kid ∈ doc.structureKids element, Met kid ∨ kid = .reference f := by
    intro kid hkid
    rw [structureKids] at hkid
    cases hx : doc.dict? element with
    | none =>
      rw [hx] at hkid
      exact absurd hkid List.not_mem_nil
    | some x =>
      rw [hx, Option.bind_some] at hkid
      exact h.kidsOf_met (h.dict?_met hx) kid hkid
  refine List.filterMap_congr fun kid hkid => ?_
  rcases hkids kid hkid with hmet | rfl
  · rw [h.resolve_eq items hmet]
  · obtain ⟨hput, old, hold⟩ := h.resolve_array items
    rw [hput, hold]

end KidArray

end Document

/-! ## Moving a list of kids -/

namespace Object

/-- The list of kids of one dictionary, anywhere in an object, is replaced by a reference. -/
inductive KidsMoved (f : ObjectId) (items : List Object) : Object → Object → Prop where
  | here {x : Dict Object} (list : x.get? "K" = some (.array items)) :
      KidsMoved f items (.dictionary x) (.dictionary (x.insert "K" (.reference f)))
  | entry {x : Dict Object} {key : Bytes} {o o' : Object} (value : x.get? key = some o)
      (moved : KidsMoved f items o o') :
      KidsMoved f items (.dictionary x) (.dictionary (x.insert key o'))
  | stream {x x' : Dict Object} (content : Bytes)
      (moved : KidsMoved f items (.dictionary x) (.dictionary x')) :
      KidsMoved f items (.stream x content) (.stream x' content)
  | item {before after : List Object} {o o' : Object} (moved : KidsMoved f items o o') :
      KidsMoved f items (.array (before ++ o :: after)) (.array (before ++ o' :: after))

namespace KidsMoved

variable {f : ObjectId} {items : List Object} {o o' : Object} {limit : Nat}

/-- Only the new reference comes into the object. -/
theorem keeps_below (moved : KidsMoved f items o o') (h : o.Below limit) (hf : f.number ≤ limit) :
    o'.Below limit := by
  induction moved with
  | here list =>
    refine below_dictionary.mpr fun e he => ?_
    rcases OrderedMap.mem_insert he with rfl | he
    · exact below_reference.mpr hf
    · exact below_dictionary.mp h _ he
  | entry value moved ih =>
    refine below_dictionary.mpr fun e he => ?_
    rcases OrderedMap.mem_insert he with rfl | he
    · exact ih (h.entry value)
    · exact below_dictionary.mp h _ he
  | stream content moved ih =>
    exact below_stream.mpr (ih (h.entries rfl))
  | item moved ih =>
    rw [below_array] at h ⊢
    intro p hp
    rcases List.mem_append.mp hp with hp | hp
    · exact h p (List.mem_append_left _ hp)
    · rcases List.mem_cons.mp hp with rfl | hp
      · exact ih (h _ (List.mem_append_right _ List.mem_cons_self))
      · exact h p (List.mem_append_right _ (List.mem_cons_of_mem _ hp))

end KidsMoved

end Object

namespace Document

variable {doc : Document} {id : ObjectId} {o o' : Object} {items : List Object}

/-- A list that was moved into a new object is referred to by one list of kids alone. -/
theorem Closed.kidArray (closed : doc.Closed) (ho : doc.objects.get? id = some o)
    (moved : Object.KidsMoved doc.nextId items o o') :
    ((doc.put id o').add (.array [])).KidArray doc.nextId fun o => o.Below doc.maxId ∨
      ∃ p, p.Below doc.maxId ∧ Object.KidsMoved doc.nextId items p o := by
  have hbelow := (closed.objects id o ho)
  have hget : ∀ i, ((doc.put id o').add (.array [])).objects.get? i =
      if i = doc.nextId then some (.array []) else if i = id then some o' else doc.objects.get? i := by
    intro i
    rw [objects_add, put, OrderedMap.get?_insert]
    rfl
  refine ⟨⟨fun i v hv => ?_, fun i hi => Nat.le_succ_of_le (closed.trailer i hi)⟩, ⟨[], ?_⟩,
    fun i v hi hv => ?_, Or.inl closed.trailer, Or.inl Object.below_null, ?_, ?_, ?_, ?_⟩
  · rw [hget] at hv
    split at hv
    · next hi =>
      rw [hi, ← Option.some.inj hv]
      exact ⟨Nat.le_refl _, Object.below_array.mpr fun _ h => absurd h List.not_mem_nil⟩
    · split at hv
      · next hi =>
        rw [hi, ← Option.some.inj hv]
        exact ⟨Nat.le_succ_of_le hbelow.1,
          moved.keeps_below (hbelow.2.mono (Nat.le_succ _)) (Nat.le_refl _)⟩
      · have h := closed.objects i v hv
        exact ⟨Nat.le_succ_of_le h.1, h.2.mono (Nat.le_succ _)⟩
  · rw [hget, if_pos rfl]
  · rw [hget, if_neg hi] at hv
    split at hv
    · rw [← Option.some.inj hv]
      exact Or.inr ⟨o, hbelow.2, moved⟩
    · exact Or.inl (closed.objects i v hv).2
  · rintro i (h | ⟨p, _, h⟩)
    · rintro rfl
      have hle : doc.maxId + 1 ≤ doc.maxId := Object.below_reference.mp h
      omega
    · cases h
  · rintro l (h | ⟨p, hp, h⟩) v hv
    · exact Or.inl (h.item hv)
    · cases h with
      | @item before after v₁ v₂ moved =>
        rcases List.mem_append.mp hv with hv | hv
        · exact Or.inl (hp.item (List.mem_append_left _ hv))
        · rcases List.mem_cons.mp hv with rfl | hv
          · exact Or.inr ⟨v₁, hp.item (List.mem_append_right _ List.mem_cons_self), moved⟩
          · exact Or.inl (hp.item (List.mem_append_right _ (List.mem_cons_of_mem _ hv)))
  · rintro x (h | ⟨p, hp, h⟩) e he
    · exact Or.inl (Or.inl (Object.below_dictionary.mp h _ he))
    · cases h with
      | here list =>
        rcases OrderedMap.mem_insert he with rfl | he
        · exact Or.inr ⟨rfl, rfl⟩
        · exact Or.inl (Or.inl (Object.below_dictionary.mp hp _ he))
      | @entry y key v₁ v₂ value moved =>
        rcases OrderedMap.mem_insert he with rfl | he
        · exact Or.inl (Or.inr ⟨v₁, hp.entry value, moved⟩)
        · exact Or.inl (Or.inl (Object.below_dictionary.mp hp _ he))
  · rintro x content (h | ⟨p, hp, h⟩)
    · exact Or.inl (h.entries rfl)
    · cases h with
      | @stream y _ _ moved => exact Or.inr ⟨.dictionary y, hp.entries rfl, moved⟩

/-- A list of kids that is moved into an object of its own is lost to all readers: the report on the
structure tree, the headings and the MCIDs of elements are those for an empty list in that object. -/
theorem kids_moved (closed : doc.Closed) (ho : doc.objects.get? id = some o)
    (moved : Object.KidsMoved doc.nextId items o o') :
    let full := (doc.put id o').add (.array items)
    let empty := (doc.put id o').add (.array [])
    (∀ options, (full.report options).map (·.structureTree) =
        (empty.report options).map (·.structureTree)) ∧
      (∀ root, full.headings root = empty.headings root) ∧
        ∀ element page, full.elementMcids element page = empty.elementMcids element page := by
  intro full empty
  have h := closed.kidArray ho moved
  have hfull : full = empty.put doc.nextId (.array items) := by
    have hobjects := OrderedMap.insert_insert (doc.put id o').objects doc.nextId (.array [])
      (.array items)
    show (doc.put id o').reserve.put doc.nextId (.array items) = _
    simp only [empty, add, put, reserve, nextId] at hobjects ⊢
    rw [hobjects]
  rw [hfull]
  exact ⟨h.report_eq items, h.headings_eq items, h.elementMcids_eq items⟩

/-! ## A heading that is lost -/

/-- A document with a heading below the root of its structure tree. -/
def withHeading : Document where
  version := "1.7"
  trailer := .ofList [(utf8 "Root", .reference ⟨1, 0⟩)]
  objects := .ofList [(⟨1, 0⟩, .ofEntries [(utf8 "StructTreeRoot", .reference ⟨2, 0⟩)]),
    (⟨2, 0⟩, .ofEntries [(utf8 "K", .array [.reference ⟨3, 0⟩])]),
    (⟨3, 0⟩, .ofEntries [(utf8 "S", .name "H1")])]
  maxId := 3

/-- The root of the structure tree with its list moved. -/
def movedRoot : Object := .ofEntries [(utf8 "K", .reference ⟨4, 0⟩)]

theorem closed_withHeading : withHeading.Closed := by
  have hall : ∀ e ∈ withHeading.objects.entries,
      e.1.number ≤ 3 ∧ ∀ id ∈ e.2.references, id.number ≤ 3 := by decide
  have htrailer : ∀ id ∈ (Object.dictionary withHeading.trailer).references, id.number ≤ 3 := by
    decide
  exact ⟨fun id o ho => hall _ (OrderedMap.mem_of_get? ho), htrailer⟩

theorem kidsMoved_movedRoot : withHeading.objects.get? ⟨2, 0⟩ =
      some (.ofEntries [(utf8 "K", .array [.reference ⟨3, 0⟩])]) ∧
    Object.KidsMoved withHeading.nextId [.reference ⟨3, 0⟩]
      (.ofEntries [(utf8 "K", .array [.reference ⟨3, 0⟩])]) movedRoot :=
  ⟨rfl, .here rfl⟩

/-- With its list moved, the root has no headings. -/
theorem kids_moved_heading : withHeading.Closed ∧
    Object.KidsMoved withHeading.nextId [.reference ⟨3, 0⟩]
      (.ofEntries [(utf8 "K", .array [.reference ⟨3, 0⟩])]) movedRoot ∧
    ((withHeading.put ⟨2, 0⟩ movedRoot).add (.array [.reference ⟨3, 0⟩])).headings ⟨2, 0⟩ =
      ((withHeading.put ⟨2, 0⟩ movedRoot).add (.array [])).headings ⟨2, 0⟩ := by
  obtain ⟨ho, hmoved⟩ := kidsMoved_movedRoot
  obtain ⟨-, hheadings, -⟩ := kids_moved closed_withHeading ho hmoved
  exact ⟨closed_withHeading, hmoved, hheadings ⟨2, 0⟩⟩

/-- Moving the list changes the report and the headings. -/
theorem kids_moved_lost :
    let moved := (withHeading.put ⟨2, 0⟩ movedRoot).add (.array [.reference ⟨3, 0⟩])
    ∃ r r', withHeading.report {} = .ok r ∧ moved.report {} = .ok r' ∧
      r.structureTree.map (·.elements.length) = some 1 ∧
      r'.structureTree.map (·.elements.length) = some 0 ∧
      (withHeading.headings ⟨2, 0⟩).map (·.element) = [⟨3, 0⟩] ∧ moved.headings ⟨2, 0⟩ = [] := by
  intro moved
  have hcatalog : withHeading.catalogDict? =
      some (.ofList [(utf8 "StructTreeRoot", .reference ⟨2, 0⟩)]) := rfl
  have hcatalog' : moved.catalogDict? =
      some (.ofList [(utf8 "StructTreeRoot", .reference ⟨2, 0⟩)]) := rfl
  obtain ⟨r, hr, -, htree⟩ := report_ok hcatalog {}
  obtain ⟨r', hr', -, htree'⟩ := report_ok hcatalog' {}
  refine ⟨r, r', hr, hr', ?_, ?_, ?_, ?_⟩
  · rw [htree]
    rfl
  · rw [htree']
    rfl
  · have hkids : withHeading.elementKids ⟨2, 0⟩ = [⟨3, 0⟩] := rfl
    have hunvisited : withHeading.objects.keys.erase ⟨2, 0⟩ = [⟨1, 0⟩, ⟨3, 0⟩] := rfl
    have hbelow : withHeading.elementKids ⟨3, 0⟩ = [] := rfl
    have hrole : withHeading.entryName? (.ofList [(utf8 "S", .name "H1")]) "S" = some "H1" :=
      entryName?_utf8 rfl
    have hheading : withHeading.heading? (withHeading.roleMap ((withHeading.dict? ⟨2, 0⟩).getD ∅))
        ⟨3, 0⟩ = some ⟨1, "H1", ⟨3, 0⟩, none⟩ := by
      have hx : withHeading.dict? ⟨3, 0⟩ = some (.ofList [(utf8 "S", .name "H1")]) := rfl
      rw [heading?, hx]
      simp only [bind, Option.bind_some, hrole]
      rfl
    rw [headings, hkids, hunvisited, headingsFrom, if_pos (by decide), hbelow, List.append_nil,
      headingsFrom, List.append_nil, hheading]
    rfl
  · have hkids : moved.elementKids ⟨2, 0⟩ = [] := rfl
    rw [headings, hkids, headingsFrom]

end Document

end AccessiblePdf
