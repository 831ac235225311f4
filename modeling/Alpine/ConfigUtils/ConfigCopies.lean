import Alpine.ConfigUtils.ConfigObjects

/-!
# Copies of configuration data

`Sound` says that each object has its own records for what its value has. The calls that fit keep
it; after each of the others an object answers what its value does not, a deleted record has an
owner, or a list that is not deleted has none.
-/

namespace Alpine

open Lib

namespace ConfigStore

/-! ## The loops -/

theorem find_indexElements {elements : Heap ConfigElement} {items : List Nat}
    {es : List ConfigElement} (hitems : items.map elements.get = es.map some)
    (index : UMap ConfigText Nat) (name : ConfigText) :
    ((indexElements elements index items).find name).map elements.get =
      ((index.find name).map elements.get).or
        ((es.find? fun element => element.elementName = name).map some) := by
  induction items generalizing es index with
  | nil =>
    cases es with
    | nil => simp [indexElements]
    | cons e es => simp at hitems
  | cons item items ih =>
    cases es with
    | nil => simp at hitems
    | cons e es =>
      rw [List.map_cons, List.map_cons, List.cons.injEq] at hitems
      obtain ⟨hitem, hitems⟩ := hitems
      rw [indexElements, hitem]
      dsimp only
      rw [ih hitems, UMap.find_emplace_eq_or, List.find?_cons]
      by_cases hname : e.elementName = name
      · cases index.find name <;> simp [hname, hitem]
      · cases index.find name <;> simp [hname]

theorem mem_of_indexElements {elements : Heap ConfigElement} {items : List Nat}
    {index : UMap ConfigText Nat} {name : ConfigText} {item : Nat}
    (h : (indexElements elements index items).find name = some item) :
    index.find name = some item ∨ item ∈ items := by
  induction items generalizing index with
  | nil => exact .inl h
  | cons first items ih =>
    rw [indexElements] at h
    split at h
    · exact (ih h).imp id (List.mem_cons_of_mem _)
    · rcases ih h with h | h
      · rcases UMap.of_find_emplace h with h | ⟨-, -, rfl⟩
        · exact .inl h
        · exact .inr List.mem_cons_self
      · exact .inr (List.mem_cons_of_mem _ h)

theorem readElements_eq {elements : Heap ConfigElement} {items : List Nat}
    {es : List ConfigElement} (hitems : items.map elements.get = es.map some) :
    readElements elements items = some es := by
  induction items generalizing es with
  | nil =>
    cases es with
    | nil => rfl
    | cons e es => simp at hitems
  | cons item items ih =>
    cases es with
    | nil => simp at hitems
    | cons e es =>
      rw [List.map_cons, List.map_cons, List.cons.injEq] at hitems
      have htail : items.mapM elements.get = some es := ih hitems.2
      rw [readElements, List.mapM_cons, hitems.1, htail]
      rfl

theorem deleteElements_eq {elements : Heap ConfigElement} {items : List Nat}
    (hlive : ∀ item ∈ items, (elements.get item).isSome) (hnodup : items.Nodup) :
    deleteElements elements items = some (elements.freeEach items) := by
  induction items generalizing elements with
  | nil => rfl
  | cons item items ih =>
    obtain ⟨hitem, hnodup⟩ := List.nodup_cons.mp hnodup
    rw [deleteElements, if_pos (hlive item List.mem_cons_self), Heap.freeEach]
    refine ih (fun other hother => ?_) hnodup
    have hne : other ≠ item := fun heq => hitem (heq ▸ hother)
    rw [Heap.get_free, if_neg hne]
    exact hlive other (List.mem_cons_of_mem _ hother)

/-- A record that is deleted once does not come back. -/
theorem get_of_deleteElements {elements elements' : Heap ConfigElement} {items : List Nat}
    (h : deleteElements elements items = some elements') {item : Nat}
    (hitem : elements.get item = none ∨ item ∈ items) : elements'.get item = none := by
  induction items generalizing elements with
  | nil =>
    cases h
    exact hitem.resolve_right List.not_mem_nil
  | cons first items ih =>
    rw [deleteElements] at h
    split at h
    · refine ih h ?_
      rw [Heap.get_free]
      by_cases hfirst : item = first
      · exact .inl (if_pos hfirst)
      · rw [if_neg hfirst]
        exact hitem.imp id fun hmem => (List.mem_cons.mp hmem).resolve_left hfirst
    · cases h

/-- The records that a constructor makes. -/
theorem map_get_allocEach (elements : Heap ConfigElement) (es : List ConfigElement) :
    (List.range' elements.next es.length).map (elements.allocEach es).get = es.map some := by
  refine List.ext_getElem? fun k => ?_
  rw [List.getElem?_map, List.getElem?_map]
  by_cases hk : k < es.length
  · rw [List.getElem?_range' hk, Option.map_some, Nat.one_mul, Heap.get_allocEach_add,
      List.getElem?_eq_getElem hk]
    rfl
  · rw [List.getElem?_eq_none (by simpa using hk), List.getElem?_eq_none (by simpa using hk)]
    rfl

/-- A copy of an object with lists has no index of its elements. -/
theorem empty_of_copyConstruct_lists {s s' : ConfigStore} {id : Nat} {copy : ConfigObject}
    (hcopy : s.copyConstruct id copy = some s') (hlists : copy.valueListIndex ≠ ∅) :
    ∃ o, s'.objects.find id = some o ∧ o.elementIndex = ∅ := by
  have hkeys : (AList.keys copy.valueListIndex).length > 0 := by
    refine List.length_pos_iff.mpr fun hnil => hlists (UMap.eq_empty_of_find fun name => ?_)
    have hnone : ¬ (copy.valueListIndex.find name).isSome := by
      rw [← UMap.mem_keys, hnil]
      exact List.not_mem_nil
    exact Option.not_isSome_iff_eq_none.mp hnone
  obtain ⟨es, -, hrest⟩ := Option.bind_eq_some_iff.mp hcopy
  dsimp only at hrest
  rw [if_pos hkeys] at hrest
  obtain ⟨⟨lists, index⟩, -, hs'⟩ := Option.bind_eq_some_iff.mp hrest
  cases hs'
  exact ⟨_, by rw [UMap.find_assign, if_pos rfl], rfl⟩

/-! ## An object and its value -/

/-- An object has its own records and lists for what a value has. -/
structure Represents (s : ConfigStore) (o : ConfigObject) (v : ConfigValue) : Prop where
  elements : o.elementList.map s.elements.get = v.elements.map some
  index : ∀ name, (o.elementIndex.find name).map s.elements.get =
    (v.elements.find? fun element => element.elementName = name).map some
  indexed : ∀ name item, o.elementIndex.find name = some item → item ∈ o.elementList
  values : ∀ name, o.valueIndex.find name = v.values.find name
  lists : ∀ name, (o.valueListIndex.find name).map s.lists.get = (v.lists.find name).map some

namespace Represents

variable {s s' : ConfigStore} {o : ConfigObject} {v : ConfigValue}

/-- The records and lists of others do not matter. -/
theorem congr (h : s.Represents o v)
    (helements : ∀ item ∈ o.elementList, s'.elements.get item = s.elements.get item)
    (hlists : ∀ name item, o.valueListIndex.find name = some item →
      s'.lists.get item = s.lists.get item) : s'.Represents o v where
  elements := by
    rw [← h.elements]
    exact List.map_congr_left helements
  index name := by
    rw [← h.index]
    cases hfind : o.elementIndex.find name with
    | none => rfl
    | some item => rw [Option.map_some, Option.map_some, helements _ (h.indexed name item hfind)]
  indexed := h.indexed
  values := h.values
  lists name := by
    rw [← h.lists]
    cases hfind : o.valueListIndex.find name with
    | none => rfl
    | some item => rw [Option.map_some, Option.map_some, hlists name item hfind]

theorem isSome_elements (h : s.Represents o v) {item : Nat} (hitem : item ∈ o.elementList) :
    (s.elements.get item).isSome := by
  have hmem : s.elements.get item ∈ o.elementList.map s.elements.get := List.mem_map_of_mem hitem
  rw [h.elements] at hmem
  obtain ⟨e, -, he⟩ := List.mem_map.mp hmem
  rw [← he]
  rfl

/-- What the index of the elements leads to. -/
theorem find (h : s.Represents o v) (name : ConfigText) :
    (o.elementIndex.find name = none ∧ listType v.elements name = none) ∨
      ∃ item e, o.elementIndex.find name = some item ∧ s.elements.get item = some e ∧
        listType v.elements name = some e.optionType.isList := by
  have hindex := h.index name
  cases hfind : o.elementIndex.find name with
  | none =>
    rw [hfind] at hindex
    refine .inl ⟨rfl, ?_⟩
    rw [listType, Option.map_eq_none_iff.mp hindex.symm]
    rfl
  | some item =>
    rw [hfind, Option.map_some] at hindex
    obtain ⟨e, he, hitem⟩ := Option.map_eq_some_iff.mp hindex.symm
    refine .inr ⟨item, e, rfl, hitem.symm, ?_⟩
    rw [listType, he]
    rfl

theorem lists_none (h : s.Represents o v) {name : ConfigText} :
    o.valueListIndex.find name = none ↔ v.lists.find name = none := by
  rw [← Option.map_eq_none_iff (f := s.lists.get), h.lists, Option.map_eq_none_iff]

theorem lists_isSome (h : s.Represents o v) (name : ConfigText) :
    (o.valueListIndex.find name).isSome = (v.lists.find name).isSome := by
  rw [← Option.isSome_map (f := s.lists.get), h.lists, Option.isSome_map]

theorem lists_eq_empty (h : s.Represents o v) :
    o.valueListIndex = ∅ ↔ ∀ name, v.lists.find name = none := by
  constructor
  · intro hempty name
    rw [← h.lists_none, hempty]
    rfl
  · exact fun hnone => UMap.eq_empty_of_find fun name => h.lists_none.mpr (hnone name)

theorem answers (h : s.Represents o v) (id : Nat) : s.Answers id o v where
  valueIsSet name := by
    rw [ConfigStore.valueIsSet, ConfigValue.valueIsSet]
    rcases h.find name with ⟨hfind, htype⟩ | ⟨item, e, hfind, hget, htype⟩
    · rw [hfind, htype]
    · rw [hfind, htype]
      dsimp only
      rw [hget, Option.bind_eq_bind, Option.bind_some, h.lists_isSome, h.values]
      cases e.optionType.isList <;> rfl
  getValue name := h.values name
  getValueList name := by
    have hlists := h.lists name
    rw [ConfigStore.getValueList]
    cases hfind : o.valueListIndex.find name with
    | none =>
      dsimp only
      rw [h.lists_none.mp hfind]
    | some item =>
      rw [hfind, Option.map_some] at hlists
      obtain ⟨valueList, hvalue, hitem⟩ := Option.map_eq_some_iff.mp hlists.symm
      dsimp only
      rw [← hitem, hvalue]
      rfl
  setValue name value := by
    rw [ConfigStore.setValue, ConfigValue.setValue]
    rcases h.find name with ⟨hfind, htype⟩ | ⟨item, e, hfind, hget, htype⟩
    · rw [hfind, dif_neg (by rw [htype]; nofun)]
      rfl
    · rw [hfind]
      dsimp only
      rw [hget, Option.bind_eq_bind, Option.bind_some]
      cases hlist : e.optionType.isList with
      | true =>
        rw [dif_neg (by rw [htype, hlist]; nofun)]
        rfl
      | false =>
        rw [dif_pos (by rw [htype, hlist])]
        rfl
  setValueList name valueList := by
    rw [ConfigStore.setValueList, ConfigValue.setValueList]
    rcases h.find name with ⟨hfind, htype⟩ | ⟨item, e, hfind, hget, htype⟩
    · rw [hfind, dif_neg (by rw [htype]; nofun)]
      rfl
    · rw [hfind]
      dsimp only
      rw [hget, Option.bind_eq_bind, Option.bind_some]
      cases hlist : e.optionType.isList with
      | true =>
        rw [dif_pos (by rw [htype, hlist])]
        rfl
      | false =>
        rw [dif_neg (by rw [htype, hlist]; nofun)]
        rfl

end Represents

/-! ## The invariant -/

/-- The objects are the values, and own their records and lists. -/
structure Sound (s : ConfigStore) (values : UMap Nat ConfigValue) : Prop where
  objects : ∀ id, (s.objects.find id).isSome = (values.find id).isSome
  represents : ∀ id o v, s.objects.find id = some o → values.find id = some v → s.Represents o v
  elements : s.elements.Owned s.elementOwner
  lists : s.lists.Owned s.listOwner

/-- A new object with new records and no lists, as the constructors make it. -/
def insertObject (s : ConfigStore) (id : Nat) (es : List ConfigElement) (valueIndex : ConfigMap) :
    ConfigStore :=
  let items := List.range' s.elements.next es.length
  let elements := s.elements.allocEach es
  let o : ConfigObject := ⟨items, indexElements elements ∅ items, valueIndex, ∅⟩
  { s with elements, objects := s.objects.assign id o }

theorem sound_empty : empty.Sound ∅ where
  objects _ := rfl
  represents _ _ _ ho _ := (nomatch ho)
  elements := Heap.owned_empty
  lists := Heap.owned_empty

namespace Sound

variable {s : ConfigStore} {values : UMap Nat ConfigValue} {id : Nat} {o : ConfigObject}

theorem agrees (h : s.Sound values) : s.Agrees values where
  objects := h.objects
  answers id o v ho hv := (h.represents id o v ho hv).answers id
  elements := h.elements
  lists := h.lists

theorem value (h : s.Sound values) (ho : s.objects.find id = some o) :
    ∃ v, values.find id = some v ∧ s.Represents o v := by
  have hsome := h.objects id
  rw [ho, Option.isSome_some] at hsome
  obtain ⟨v, hv⟩ := Option.isSome_iff_exists.mp hsome.symm
  exact ⟨v, hv, h.represents id o v ho hv⟩

theorem value_none (h : s.Sound values) (ho : s.objects.find id = none) :
    values.find id = none := by
  have hsome := h.objects id
  rw [ho, Option.isSome_none] at hsome
  exact Option.isNone_iff_eq_none.mp (Option.isSome_eq_false_iff.mp hsome.symm)

theorem elementOwner_of_getElem? (ho : s.objects.find id = some o) (k : Nat) :
    s.elementOwner (id, k) = o.elementList[k]? := by
  rw [elementOwner, ho, Option.bind_some]

theorem insertObject (h : s.Sound values) (hid : s.objects.find id = none) {v : ConfigValue}
    {valueIndex : ConfigMap} (hvalues : ∀ name, valueIndex.find name = v.values.find name)
    (hlists : ∀ name, v.lists.find name = none) :
    (s.insertObject id v.elements valueIndex).Sound (values.assign id v) where
  objects j := by
    rw [ConfigStore.insertObject, UMap.find_assign, UMap.find_assign]
    split
    · rfl
    · exact h.objects j
  represents j p w hp hw := by
    rw [ConfigStore.insertObject, UMap.find_assign] at hp
    rw [UMap.find_assign] at hw
    split at hp
    · next hj =>
      rw [if_pos hj] at hw
      cases hp
      cases hw
      exact
        { elements := map_get_allocEach s.elements v.elements
          index := fun name => find_indexElements (map_get_allocEach s.elements v.elements) ∅ name
          indexed := fun name item hitem => (mem_of_indexElements hitem).resolve_left nofun
          values := hvalues
          lists := fun name => by rw [hlists]; rfl }
    · next hj =>
      rw [if_neg hj] at hw
      have hrep := h.represents j p w hp hw
      exact hrep.congr (fun item hitem =>
        Heap.get_allocEach_of_lt (Heap.lt_next_of_get (hrep.isSome_elements hitem)) v.elements)
        fun _ _ _ => rfl
  elements := by
    refine h.elements.allocEach (f := fun k => (id, k)) v.elements (fun k _ => ?_) (fun k hk => ?_)
      fun j hj => ?_
    · rw [elementOwner, hid]
      rfl
    · rw [elementOwner, ConfigStore.insertObject, UMap.find_assign, if_pos rfl, Option.bind_some]
      rw [List.getElem?_range' hk, Nat.one_mul]
    · rw [elementOwner, elementOwner, ConfigStore.insertObject, UMap.find_assign]
      split
      · next hid' =>
        rw [hid', hid, Option.bind_some]
        refine List.getElem?_eq_none ?_
        rw [List.length_range']
        exact Nat.le_of_not_lt fun hlt => hj j.2 hlt (Prod.ext hid' rfl)
      · rfl
  lists := by
    have hown : (s.insertObject id v.elements valueIndex).listOwner = s.listOwner := by
      funext j
      rw [listOwner, listOwner, ConfigStore.insertObject, UMap.find_assign]
      split
      · next hid' =>
        rw [hid', hid]
        rfl
      · rfl
    rw [hown]
    exact h.lists

theorem elementOwner_of_mem (ho : s.objects.find id = some o) {item : Nat}
    (hitem : item ∈ o.elementList) : ∃ k, s.elementOwner (id, k) = some item := by
  obtain ⟨k, hk⟩ := List.mem_iff_getElem?.mp hitem
  exact ⟨k, by rw [elementOwner_of_getElem? ho, hk]⟩

theorem nodup (h : s.Sound values) (ho : s.objects.find id = some o) : o.elementList.Nodup := by
  refine List.nodup_iff_getElem?_ne_getElem?.mpr fun i j hij hj heq => ?_
  have hi : s.elementOwner (id, i) = some (o.elementList[j]) := by
    rw [elementOwner_of_getElem? ho, heq, List.getElem?_eq_getElem hj]
  have hj' : s.elementOwner (id, j) = some (o.elementList[j]) := by
    rw [elementOwner_of_getElem? ho, List.getElem?_eq_getElem hj]
  have hsame := h.elements.one _ _ _ hi hj'
  exact Nat.ne_of_lt hij (congrArg Prod.snd hsame)

theorem deleteElements (h : s.Sound values) (ho : s.objects.find id = some o) :
    deleteElements s.elements o.elementList = some (s.elements.freeEach o.elementList) := by
  obtain ⟨v, -, hrep⟩ := h.value ho
  exact deleteElements_eq (fun item hitem => hrep.isSome_elements hitem) (h.nodup ho)

/-- An object without lists is destroyed. -/
theorem destroy (h : s.Sound values) (ho : s.objects.find id = some o)
    (hlists : o.valueListIndex = ∅) :
    ∃ s', s.destroy id o = some s' ∧ s'.Sound (values.erase id) := by
  refine ⟨_, by rw [ConfigStore.destroy, h.deleteElements ho]; rfl, ?_, ?_, ?_, ?_⟩
  · intro j
    rw [UMap.find_erase, UMap.find_erase]
    split
    · rfl
    · exact h.objects j
  · intro j p w hp hw
    rw [UMap.find_erase] at hp hw
    split at hp
    · cases hp
    · next hj =>
      rw [if_neg hj] at hw
      refine (h.represents j p w hp hw).congr (fun item hitem => ?_) fun _ _ _ => rfl
      have hother : item ∉ o.elementList := fun hmem => by
        obtain ⟨k, hk⟩ := elementOwner_of_mem ho hmem
        obtain ⟨l, hl⟩ := elementOwner_of_mem hp hitem
        exact hj (congrArg Prod.fst (h.elements.one _ _ _ hl hk))
      exact Heap.get_freeEach_of_not_mem hother s.elements
  · have hfst : (o.elementList.zipIdx.map fun p => ((id, p.2), p.1)).map Prod.fst =
        (List.range' 0 o.elementList.length).map fun k => (id, k) := by
      rw [← List.zipIdx_map_snd, List.map_map, List.map_map]
      rfl
    have hsnd : (o.elementList.zipIdx.map fun p => ((id, p.2), p.1)).map Prod.snd =
        o.elementList := by
      rw [List.map_map]
      exact List.zipIdx_map_fst 0 o.elementList
    rw [← hsnd]
    refine h.elements.freeEach ?_ ?_ ?_ ?_
    · rw [hfst]
      exact (List.nodup_range' ..).map fun _ _ heq => congrArg Prod.snd heq
    · intro p hp
      obtain ⟨q, hq, rfl⟩ := List.mem_map.mp hp
      rw [elementOwner_of_getElem? ho]
      exact List.mem_zipIdx_iff_getElem?.mp hq
    · intro j hj
      rw [elementOwner, elementOwner, UMap.find_erase]
      split
      · next hid =>
        rw [hid, ho, Option.bind_some]
        refine (List.getElem?_eq_none (Nat.le_of_not_lt fun hlt => hj ?_)).symm
        rw [hfst]
        exact List.mem_map.mpr ⟨j.2, List.mem_range'_1.mpr ⟨Nat.zero_le _, by omega⟩,
          Prod.ext hid.symm rfl⟩
      · rfl
    · intro p hp
      obtain ⟨q, -, rfl⟩ := List.mem_map.mp hp
      rw [elementOwner, UMap.find_erase, if_pos rfl]
      rfl
  · have hown : listOwner
        { s with elements := s.elements.freeEach o.elementList, objects := s.objects.erase id } =
        s.listOwner := by
      funext j
      rw [listOwner, listOwner, UMap.find_erase]
      split
      · next hid =>
        rw [hid, ho, Option.bind_some, hlists]
        rfl
      · rfl
    rw [hown]
    exact h.lists

theorem elementOwner_assign (ho : s.objects.find id = some o) (o' : ConfigObject)
    (heq : o'.elementList = o.elementList) (lists : Heap (List ConfigText)) :
    elementOwner ⟨s.objects.assign id o', s.elements, lists⟩ = s.elementOwner := by
  funext j
  rw [elementOwner, elementOwner, UMap.find_assign]
  split
  · next hid => rw [hid, ho, Option.bind_some, Option.bind_some, heq]
  · rfl

theorem objects_assign (h : s.Sound values) (o' : ConfigObject) (w : ConfigValue) (j : Nat) :
    ((s.objects.assign id o').find j).isSome = ((values.assign id w).find j).isSome := by
  rw [UMap.find_assign, UMap.find_assign]
  split
  · rfl
  · exact h.objects j

/-- The scalars of an object are others. -/
theorem setValues (h : s.Sound values) (ho : s.objects.find id = some o) {v w : ConfigValue}
    (hv : values.find id = some v) {valueIndex : ConfigMap} (helements : w.elements = v.elements)
    (hvalues : ∀ name, valueIndex.find name = w.values.find name) (hlists : w.lists = v.lists) :
    Sound { s with objects := s.objects.assign id { o with valueIndex } } (values.assign id w) where
  objects := h.objects_assign _ w
  represents j p u hp hu := by
    rw [UMap.find_assign] at hp hu
    split at hp
    · next hj =>
      rw [if_pos hj] at hu
      cases hp
      cases hu
      have hrep := h.represents id o v ho hv
      exact
        { elements := by rw [helements]; exact hrep.elements
          index := by rw [helements]; exact hrep.index
          indexed := hrep.indexed
          values := hvalues
          lists := by rw [hlists]; exact hrep.lists }
    · next hj =>
      rw [if_neg hj] at hu
      exact (h.represents j p u hp hu).congr (fun _ _ => rfl) fun _ _ _ => rfl
  elements := by
    have hown := elementOwner_assign ho { o with valueIndex } rfl s.lists
    rw [hown]
    exact h.elements
  lists := by
    have hown : listOwner { s with objects := s.objects.assign id { o with valueIndex } } =
        s.listOwner := by
      funext j
      rw [listOwner, listOwner, UMap.find_assign]
      split
      · next hid =>
        rw [hid, ho]
        rfl
      · rfl
    rw [hown]
    exact h.lists

theorem listOwner_of_find (ho : s.objects.find id = some o) (name : ConfigText) :
    s.listOwner (id, name) = o.valueListIndex.find name := by
  rw [listOwner, ho, Option.bind_some]

/-- An object gets a list for a name that has none. -/
theorem setList (h : s.Sound values) (ho : s.objects.find id = some o) {v w : ConfigValue}
    (hv : values.find id = some v) {name : ConfigText}
    (hnone : o.valueListIndex.find name = none) (valueList : List ConfigText)
    (helements : w.elements = v.elements) (hvalues : w.values = v.values)
    (hlists : w.lists = v.lists.assign name valueList) :
    Sound ⟨s.objects.assign id
      { o with valueListIndex := o.valueListIndex.emplace name s.lists.next }, s.elements,
      s.lists.alloc valueList⟩ (values.assign id w) where
  objects := h.objects_assign _ w
  represents j p u hp hu := by
    have hkept : ∀ j p n item, s.objects.find j = some p → p.valueListIndex.find n = some item →
        (s.lists.alloc valueList).get item = s.lists.get item := fun j p n item hp hitem => by
      have hne : item ≠ s.lists.next :=
        h.lists.ne_next (i := (j, n)) (by rw [listOwner_of_find hp, hitem])
      rw [Heap.get_alloc, if_neg hne]
    rw [UMap.find_assign] at hp hu
    split at hp
    · next hj =>
      rw [if_pos hj] at hu
      cases hp
      cases hu
      have hrep := h.represents id o v ho hv
      refine
        { elements := by rw [helements]; exact hrep.elements
          index := by rw [helements]; exact hrep.index
          indexed := hrep.indexed
          values := by rw [hvalues]; exact hrep.values
          lists := fun n => ?_ }
      rw [hlists, UMap.find_emplace, UMap.find_assign]
      split
      · rw [hnone, Option.map_some, Option.getD_none, Heap.get_alloc, if_pos rfl]
        rfl
      · rw [← hrep.lists]
        cases hfind : o.valueListIndex.find n with
        | none => rfl
        | some item => rw [Option.map_some, Option.map_some, hkept id o n item ho hfind]
    · next hj =>
      rw [if_neg hj] at hu
      exact (h.represents j p u hp hu).congr (fun _ _ => rfl) fun n item hitem =>
        hkept j p n item hp hitem
  elements := by
    have hown := elementOwner_assign ho
      { o with valueListIndex := o.valueListIndex.emplace name s.lists.next } rfl
      (s.lists.alloc valueList)
    rw [hown]
    exact h.elements
  lists := by
    refine h.lists.alloc (i := (id, name)) valueList (by rw [listOwner_of_find ho, hnone])
      (fun j => ?_) ?_
    · rw [listOwner, listOwner, UMap.find_assign]
      split
      · next hid =>
        rw [hid, ho, Option.bind_some, Option.bind_some, UMap.find_emplace]
        split
        · next hname =>
          rw [hnone]
          exact .inr ⟨Prod.ext hid hname, rfl⟩
        · exact .inl rfl
      · exact .inl rfl
    · rw [listOwner, UMap.find_assign, if_pos rfl, Option.bind_some]
      exact UMap.find_emplace_of_none hnone _

/-- An object may be any value that it represents. -/
theorem assign_value (h : s.Sound values) (ho : s.objects.find id = some o) {w : ConfigValue}
    (hnew : s.Represents o w) : s.Sound (values.assign id w) where
  objects j := by
    rw [UMap.find_assign]
    split
    · next hj => rw [hj, ho]; rfl
    · exact h.objects j
  represents j p u hp hu := by
    rw [UMap.find_assign] at hu
    split at hu
    · next hj =>
      rw [hj, ho] at hp
      cases hp
      cases hu
      exact hnew
    · exact h.represents j p u hp hu
  elements := h.elements
  lists := h.lists

/-- Two values without elements are alike. -/
theorem represents_of_nil (h : s.Sound values) (ho : s.objects.find id = some o)
    (hnil : o.elementList = []) {w : ConfigValue} (hw : w.elements = []) : s.Represents o w := by
  have hempty : ∀ (u : ConfigValue), u.elements = [] → ∀ name,
      u.values.find name = none ∧ u.lists.find name = none := fun u hu name => by
    have htype : listType u.elements name = none := by rw [hu]; rfl
    constructor
    · by_contra hsome
      have := u.values_typed name (Option.isSome_iff_ne_none.mpr hsome)
      rw [htype] at this
      cases this
    · by_contra hsome
      have := u.lists_typed name (Option.isSome_iff_ne_none.mpr hsome)
      rw [htype] at this
      cases this
  obtain ⟨v, -, hrep⟩ := h.value ho
  have hv : v.elements = [] := by
    have helements := hrep.elements
    rw [hnil] at helements
    exact List.map_eq_nil_iff.mp helements.symm
  exact
    { elements := by rw [hw, ← hv]; exact hrep.elements
      index := by rw [hw, ← hv]; exact hrep.index
      indexed := hrep.indexed
      values := fun name => by rw [hrep.values, (hempty v hv name).1, (hempty w hw name).1]
      lists := fun name => by rw [hrep.lists, (hempty v hv name).2, (hempty w hw name).2] }

end Sound

/-! ## Calls that fit -/

/-- The call does to the objects what it does to the values. -/
def Keeps (s : ConfigStore) (values : UMap Nat ConfigValue) (c : ConfigObjectCall) : Prop :=
  ∃ s', s.call c = some ((callValues values c).1, s') ∧ s'.Sound (callValues values c).2

namespace Sound

variable {s : ConfigStore} {values : UMap Nat ConfigValue} {id : Nat} {o : ConfigObject}

attribute [local simp] call callValues

theorem keeps_constructFrom (h : s.Sound values) (id : Nat) (elementList : List ConfigElement) :
    s.Keeps values (.constructFrom id elementList) := by
  rw [Keeps, call, callValues, ← h.objects]
  split
  · exact ⟨s, rfl, h⟩
  · next hnot =>
    exact ⟨_, rfl, h.insertObject (Option.not_isSome_iff_eq_none.mp hnot)
      (v := .ofElements elementList) (fun _ => rfl) fun _ => rfl⟩

theorem keeps_construct (h : s.Sound values) (id : Nat) : s.Keeps values (.construct id) := by
  rw [Keeps, call, callValues, ← h.objects]
  split
  · exact ⟨s, rfl, h⟩
  · next hnot =>
    exact ⟨_, rfl, h.insertObject (Option.not_isSome_iff_eq_none.mp hnot)
      (v := .ofElements []) (fun _ => rfl) fun _ => rfl⟩

theorem keeps_copyConstruct (h : s.Sound values) (id source : Nat)
    (hfits : s.objects.find id = none →
      ∀ o, s.objects.find source = some o → o.valueListIndex = ∅) :
    s.Keeps values (.copyConstruct id source) := by
  rw [Keeps, call, callValues]
  cases hid : s.objects.find id with
  | some target =>
    obtain ⟨v, hv, -⟩ := h.value hid
    rw [hv]
    exact ⟨s, rfl, h⟩
  | none =>
    rw [h.value_none hid]
    cases hsource : s.objects.find source with
    | none =>
      rw [h.value_none hsource]
      exact ⟨s, rfl, h⟩
    | some copy =>
      obtain ⟨v, hv, hrep⟩ := h.value hsource
      have hempty := hfits hid copy hsource
      have hcopy : s.copyConstruct id copy =
          some (s.insertObject id v.elements copy.valueIndex) := by
        rw [copyConstruct, readElements_eq hrep.elements, Option.bind_eq_bind, Option.bind_some]
        dsimp only
        have hkeys : ¬ (AList.keys (∅ : UMap ConfigText Nat)).length > 0 := Nat.lt_irrefl 0
        rw [hempty, if_neg hkeys]
        rfl
      rw [hv]
      dsimp only
      rw [hcopy]
      exact ⟨_, rfl, h.insertObject hid hrep.values (hrep.lists_eq_empty.mp hempty)⟩

theorem keeps_assign (h : s.Sound values) (id source : Nat)
    (hfits : id ≠ source → ∀ target o, s.objects.find id = some target →
      s.objects.find source = some o → target.elementList = [] ∧ o.elementList = []) :
    s.Keeps values (.assign id source) := by
  rw [Keeps, call, callValues]
  cases hid : s.objects.find id with
  | none =>
    rw [h.value_none hid]
    exact ⟨s, by split <;> rfl, h⟩
  | some target =>
    obtain ⟨u, hu, hrep⟩ := h.value hid
    rw [hu]
    cases hsource : s.objects.find source with
    | none =>
      rw [h.value_none hsource]
      exact ⟨s, by split <;> rfl, h⟩
    | some o =>
      obtain ⟨v, hv, hrepv⟩ := h.value hsource
      rw [hv]
      dsimp only
      by_cases hsame : id = source
      · rw [if_pos hsame]
        rw [← hsame, hid] at hsource
        cases hsource
        exact ⟨s, rfl, h.assign_value hid hrepv⟩
      · obtain ⟨htarget, ho⟩ := hfits hsame target o hid hsource
        have hnil : v.elements = [] := by
          have helements := hrepv.elements
          rw [ho] at helements
          exact List.map_eq_nil_iff.mp helements.symm
        rw [if_neg hsame, assign, htarget]
        exact ⟨s, rfl, h.assign_value hid (h.represents_of_nil hid htarget hnil)⟩

theorem keeps_setValue (h : s.Sound values) (id : Nat) (name value : ConfigText)
    (hfits : ∀ o, s.objects.find id = some o →
      ∀ old, o.valueIndex.find name = some old → old = value) :
    s.Keeps values (.setValue id name value) := by
  rw [Keeps, call, callValues]
  cases ho : s.objects.find id with
  | none =>
    rw [h.value_none ho]
    exact ⟨s, rfl, h⟩
  | some o =>
    obtain ⟨v, hv, hrep⟩ := h.value ho
    rw [hv]
    dsimp only
    rw [setValue, ConfigValue.setValue]
    rcases hrep.find name with ⟨hfind, htype⟩ | ⟨item, e, hfind, hget, htype⟩
    · rw [hfind, dif_neg (by rw [htype]; nofun)]
      exact ⟨s, rfl, h.assign_value ho hrep⟩
    · rw [hfind]
      dsimp only
      rw [hget, Option.bind_eq_bind, Option.bind_some]
      cases hlist : e.optionType.isList with
      | true =>
        rw [dif_neg (by rw [htype, hlist]; nofun)]
        exact ⟨s, rfl, h.assign_value ho hrep⟩
      | false =>
        rw [dif_pos (by rw [htype, hlist])]
        refine ⟨_, rfl, h.setValues ho hv rfl (fun n => ?_) rfl⟩
        rw [UMap.find_emplace, UMap.find_assign, hrep.values, hrep.values]
        split
        · cases hold : v.values.find name with
          | none => rfl
          | some old => rw [hfits o ho old (by rw [hrep.values, hold]), Option.getD_some]
        · rfl

theorem keeps_setValueList (h : s.Sound values) (id : Nat) (name : ConfigText)
    (valueList : List ConfigText)
    (hfits : ∀ o, s.objects.find id = some o → o.valueListIndex.find name = none) :
    s.Keeps values (.setValueList id name valueList) := by
  rw [Keeps, call, callValues]
  cases ho : s.objects.find id with
  | none =>
    rw [h.value_none ho]
    exact ⟨s, rfl, h⟩
  | some o =>
    obtain ⟨v, hv, hrep⟩ := h.value ho
    rw [hv]
    dsimp only
    rw [setValueList, ConfigValue.setValueList]
    rcases hrep.find name with ⟨hfind, htype⟩ | ⟨item, e, hfind, hget, htype⟩
    · rw [hfind, dif_neg (by rw [htype]; nofun)]
      exact ⟨s, rfl, h.assign_value ho hrep⟩
    · rw [hfind]
      dsimp only
      rw [hget, Option.bind_eq_bind, Option.bind_some]
      cases hlist : e.optionType.isList with
      | true =>
        rw [dif_pos (by rw [htype, hlist])]
        exact ⟨_, rfl, h.setList ho hv (hfits o ho) valueList rfl rfl rfl⟩
      | false =>
        rw [dif_neg (by rw [htype, hlist]; nofun)]
        exact ⟨s, rfl, h.assign_value ho hrep⟩

theorem keeps_destroy (h : s.Sound values) (id : Nat)
    (hfits : ∀ o, s.objects.find id = some o → o.valueListIndex = ∅) :
    s.Keeps values (.destroy id) := by
  rw [Keeps, call, callValues]
  cases ho : s.objects.find id with
  | none =>
    rw [h.value_none ho]
    exact ⟨s, rfl, h⟩
  | some o =>
    obtain ⟨v, hv, -⟩ := h.value ho
    obtain ⟨s', hdestroy, hsound⟩ := h.destroy ho (hfits o ho)
    rw [hv]
    dsimp only
    rw [hdestroy]
    exact ⟨s', rfl, hsound⟩

/-! ## Calls that do not fit -/

theorem copyConstruct_of_agrees (h : s.Sound values) {id source : Nat} {s' : ConfigStore} {b : Bool}
    (hcall : s.call (.copyConstruct id source) = some (b, s'))
    (hagrees : s'.Agrees (callValues values (.copyConstruct id source)).2)
    (hid : s.objects.find id = none) (ho : s.objects.find source = some o) :
    o.valueListIndex = ∅ := by
  by_contra hlists
  obtain ⟨v, hv, hrep⟩ := h.value ho
  rw [call, hid, ho] at hcall
  dsimp only at hcall
  obtain ⟨s'', hcopy, heq⟩ := Option.map_eq_some_iff.mp hcall
  cases heq
  obtain ⟨o', ho', hempty⟩ := empty_of_copyConstruct_lists hcopy hlists
  rw [callValues, h.value_none hid, hv] at hagrees
  have hset := fun name => (hagrees.answers id o' v ho' (by simp)).valueIsSet name
  refine hlists (hrep.lists_eq_empty.mpr fun name => ?_)
  have hname := hset name
  rw [valueIsSet, hempty, UMap.find_empty, ConfigValue.valueIsSet, Option.some.injEq] at hname
  by_contra hsome
  have hsome' := Option.isSome_iff_ne_none.mpr hsome
  rw [v.lists_typed name hsome'] at hname
  dsimp only at hname
  rw [hsome'] at hname
  cases hname

theorem assign_of_agrees (h : s.Sound values) {id source : Nat} {s' : ConfigStore} {b : Bool}
    (hcall : s.call (.assign id source) = some (b, s'))
    (hagrees : s'.Agrees (callValues values (.assign id source)).2) (hne : id ≠ source)
    {target : ConfigObject} (htarget : s.objects.find id = some target)
    (ho : s.objects.find source = some o) : target.elementList = [] ∧ o.elementList = [] := by
  obtain ⟨u, hu, hrepu⟩ := h.value htarget
  obtain ⟨v, hv, hrep⟩ := h.value ho
  rw [call, if_neg hne, htarget, ho] at hcall
  dsimp only at hcall
  obtain ⟨s'', hassign, heq⟩ := Option.map_eq_some_iff.mp hcall
  cases heq
  obtain ⟨elements, hdelete, hs'⟩ := Option.bind_eq_some_iff.mp hassign
  cases hs'
  -- A record of the target would have an owner after its deletion.
  have hnil : target.elementList = [] := by
    refine List.eq_nil_iff_forall_not_mem.mpr fun item hitem => ?_
    obtain ⟨k, hk⟩ := elementOwner_of_mem htarget hitem
    have hlive := (hagrees.elements.live item).mpr ⟨(id, k), hk⟩
    rw [get_of_deleteElements hdelete (.inr hitem)] at hlive
    cases hlive
  refine ⟨hnil, ?_⟩
  -- The target has no elements, and so does not set what its source sets.
  rw [callValues, hu, hv] at hagrees
  have hanswers := hagrees.answers id target v htarget (by simp)
  have hfind : ∀ name, target.elementIndex.find name = none := fun name => by
    cases hfind : target.elementIndex.find name with
    | none => rfl
    | some item =>
      have hitem := hrepu.indexed name item hfind
      rw [hnil] at hitem
      cases hitem
  have hvnil : v.elements = [] := by
    refine List.eq_nil_iff_forall_not_mem.mpr fun e he => ?_
    have htype : listType v.elements e.elementName ≠ none := fun hnone => by
      rw [listType, Option.map_eq_none_iff, List.find?_eq_none] at hnone
      exact hnone e he (by simp)
    obtain ⟨isList, htype⟩ := Option.ne_none_iff_exists'.mp htype
    have hvalue := hanswers.setValue e.elementName []
    have hlist := hanswers.setValueList e.elementName []
    rw [setValue, hfind, ConfigValue.setValue] at hvalue
    rw [setValueList, hfind, ConfigValue.setValueList] at hlist
    cases isList with
    | true =>
      rw [dif_pos htype] at hlist
      cases hlist
    | false =>
      rw [dif_pos htype] at hvalue
      cases hvalue
  have helements := hrep.elements
  rw [hvnil] at helements
  exact List.map_eq_nil_iff.mp helements

theorem setValue_of_agrees (h : s.Sound values) {id : Nat} {name value : ConfigText}
    {s' : ConfigStore} {b : Bool} (hcall : s.call (.setValue id name value) = some (b, s'))
    (hagrees : s'.Agrees (callValues values (.setValue id name value)).2)
    (ho : s.objects.find id = some o) {old : ConfigText}
    (hold : o.valueIndex.find name = some old) : old = value := by
  obtain ⟨v, hv, hrep⟩ := h.value ho
  have htype : listType v.elements name = some false :=
    v.values_typed name (by rw [← hrep.values, hold]; rfl)
  rcases hrep.find name with ⟨-, hnone⟩ | ⟨item, e, hfind, hget, hlist⟩
  · rw [htype] at hnone
    cases hnone
  · rw [htype, Option.some.injEq] at hlist
    rw [call, ho] at hcall
    dsimp only at hcall
    rw [setValue, hfind] at hcall
    dsimp only at hcall
    rw [hget, Option.bind_eq_bind, Option.bind_some, ← hlist] at hcall
    cases hcall
    rw [callValues, hv] at hagrees
    dsimp only at hagrees
    rw [ConfigValue.setValue, dif_pos htype] at hagrees
    have hanswer := (hagrees.answers id _ _ (by rw [UMap.find_assign, if_pos rfl])
      (by rw [UMap.find_assign, if_pos rfl])).getValue name
    rw [getValue, UMap.find_emplace_of_some hold, UMap.find_assign, if_pos rfl] at hanswer
    exact Option.some.inj hanswer

theorem setValueList_of_agrees (h : s.Sound values) {id : Nat} {name : ConfigText}
    {valueList : List ConfigText} {s' : ConfigStore} {b : Bool}
    (hcall : s.call (.setValueList id name valueList) = some (b, s'))
    (hagrees : s'.Agrees (callValues values (.setValueList id name valueList)).2)
    (ho : s.objects.find id = some o) : o.valueListIndex.find name = none := by
  by_contra hsome
  obtain ⟨old, hold⟩ := Option.ne_none_iff_exists'.mp hsome
  obtain ⟨v, hv, hrep⟩ := h.value ho
  have htype : listType v.elements name = some true :=
    v.lists_typed name (by rw [← hrep.lists_isSome, hold]; rfl)
  rcases hrep.find name with ⟨-, hnone⟩ | ⟨item, e, hfind, hget, hlist⟩
  · rw [htype] at hnone
    cases hnone
  · rw [htype, Option.some.injEq] at hlist
    rw [call, ho] at hcall
    dsimp only at hcall
    rw [setValueList, hfind] at hcall
    dsimp only at hcall
    rw [hget, Option.bind_eq_bind, Option.bind_some, ← hlist] at hcall
    cases hcall
    -- The new list has no owner, since the index keeps the old one.
    obtain ⟨j, hj⟩ := (hagrees.lists.live s.lists.next).mp (by rw [Heap.get_alloc, if_pos rfl]; rfl)
    rw [UMap.emplace_of_find hold, listOwner, UMap.find_assign] at hj
    split at hj
    · next hid =>
      exact h.lists.ne_next (i := (id, j.2)) (by rw [listOwner_of_find ho]; exact hj) rfl
    · exact h.lists.ne_next (i := j) hj rfl

theorem destroy_of_agrees (h : s.Sound values) {id : Nat} {s' : ConfigStore} {b : Bool}
    (hcall : s.call (.destroy id) = some (b, s'))
    (hagrees : s'.Agrees (callValues values (.destroy id)).2)
    (ho : s.objects.find id = some o) : o.valueListIndex = ∅ := by
  refine UMap.eq_empty_of_find fun name => ?_
  by_contra hsome
  obtain ⟨item, hitem⟩ := Option.ne_none_iff_exists'.mp hsome
  rw [call, ho] at hcall
  dsimp only at hcall
  obtain ⟨s'', hdestroy, heq⟩ := Option.map_eq_some_iff.mp hcall
  cases heq
  obtain ⟨elements, -, hs'⟩ := Option.bind_eq_some_iff.mp hdestroy
  cases hs'
  have hown : s.listOwner (id, name) = some item := by rw [listOwner_of_find ho, hitem]
  -- The list of the name is not deleted, and the object that owned it is gone.
  obtain ⟨j, hj⟩ := (hagrees.lists.live item).mp (h.lists.isSome hown)
  rw [listOwner, UMap.find_erase] at hj
  split at hj
  · cases hj
  · next hid => exact hid (congrArg Prod.fst (h.lists.one j (id, name) item hj hown))

end Sound

end ConfigStore

namespace ConfigRun

variable {s : ConfigRun}

theorem refines_of_fits (h : s.store.Sound s.values) {c : ConfigObjectCall} (hfits : Fits [] s c) :
    s.store.Keeps s.values c := by
  cases c with
  | construct id => exact h.keeps_construct id
  | constructFrom id elementList => exact h.keeps_constructFrom id elementList
  | copyConstruct id source => exact h.keeps_copyConstruct id source hfits
  | assign id source => exact h.keeps_assign id source hfits
  | setValue id name value => exact h.keeps_setValue id name value hfits
  | setValueList id name valueList => exact h.keeps_setValueList id name valueList hfits
  | destroy id => exact h.keeps_destroy id hfits

theorem fits_of_refines (h : s.store.Sound s.values) {c : ConfigObjectCall}
    (hrefines : Refines [] s c) : Fits [] s c := by
  obtain ⟨s', hcall, hagrees⟩ := hrefines
  cases c with
  | construct id => trivial
  | constructFrom id elementList => trivial
  | copyConstruct id source => exact fun hid _ ho => h.copyConstruct_of_agrees hcall hagrees hid ho
  | assign id source => exact fun hne _ _ ht ho => h.assign_of_agrees hcall hagrees hne ht ho
  | setValue id name value => exact fun _ ho _ hold => h.setValue_of_agrees hcall hagrees ho hold
  | setValueList id name valueList => exact fun _ ho => h.setValueList_of_agrees hcall hagrees ho
  | destroy id => exact fun _ ho => h.destroy_of_agrees hcall hagrees ho

theorem sound_step (h : s.store.Sound s.values) {c : ConfigObjectCall} (hfits : Fits [] s c) :
    (step s c).1.store.Sound (step s c).1.values := by
  obtain ⟨s', hcall, hsound⟩ := refines_of_fits h hfits
  show (((s.store.call c).map Prod.snd).getD s.store).Sound _
  rw [hcall]
  exact hsound

/-- The calls of a run do to the objects what they do to the values exactly if they fit. -/
theorem along_refines_iff_fits (calls : List ConfigObjectCall) :
    machine.Along Refines [] start calls ↔ machine.Along Fits [] start calls := by
  refine Machine.along_congr (M := machine) (I := fun _ s => s.store.Sound s.values)
    (fun _ s c h hfits => sound_step h hfits)
    (fun _ s c h => ⟨fits_of_refines h, fun hfits => ?_⟩) ConfigStore.sound_empty
  obtain ⟨s', hcall, hsound⟩ := refines_of_fits h hfits
  exact ⟨s', hcall, hsound.agrees⟩

/-- The elements of a daemon with one option of each kind. -/
def daemonElements : List ConfigElement :=
  [⟨['p'], [], [], [], .string, false⟩, ⟨['l'], [], [], [], .stringList, false⟩]

/-- The second value of a name is not there. -/
theorem twice_not_refines : ¬ machine.Along Refines [] start
    [.constructFrom 0 daemonElements, .setValue 0 ['p'] ['1'], .setValue 0 ['p'] ['2']] := by
  rintro ⟨-, -, hlast, -⟩
  have hmade : (step start (.constructFrom 0 daemonElements)).1.store.Sound _ :=
    sound_step ConfigStore.sound_empty trivial
  have hset := sound_step (c := .setValue 0 ['p'] ['1']) hmade fun o ho old hold => by
    cases ho
    cases hold
  have hold := fits_of_refines hset hlast _ rfl ['1'] (by decide +kernel)
  exact absurd hold (by decide)

end ConfigRun

end Alpine
