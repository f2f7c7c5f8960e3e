import CodeIndex.Proofs.Config.Saving
import CodeIndex.Proofs.Json.Records
import CodeIndex.Proofs.Store.Distance
import CodeIndex.Proofs.Store.Nearest

set_option autoImplicit false

namespace CodeIndex

namespace Element

def pairs (element : Element) : List (String × Json) :=
  [("kind", element.kind.toJson), ("name", .text element.name), ("source_text", .text element.sourceText),
    ("docstring", .option .text element.docstring), ("comments", .arr (element.comments.map .text)),
    ("parent_class", .option .text element.parentClass), ("start_line", .nat element.startLine.toNat),
    ("end_line", .nat element.endLine.toNat)]

structure Told (element : Element) (given : List (String × Json)) : Prop where
  part : given.Sublist element.pairs
  rest : ∀ field ∈ element.pairs, field ∉ given → field = ("docstring", .null) ∨ field = ("parent_class", .null)

def Document (element : Element) (json : Json) : Prop := ∃ given, element.Told given ∧ Json.Gives fieldNames given json

def SetDocument (elements : List Element) (json : Json) : Prop :=
  ∃ items, List.Forall₂ Document elements items ∧ Json.Gives ["elements"] [("elements", .arr items)] json

theorem pairs_once (element : Element) : (element.pairs.map Prod.fst).Nodup := by
  rw [show element.pairs.map Prod.fst = fieldNames from rfl]
  decide

section Reading

variable (element : Element) (given : List (String × Json)) (told : element.Told given)

include told

theorem told_once : (given.map Prod.fst).Nodup := element.pairs_once.sublist (told.part.map Prod.fst)

theorem told_present (name : String) (value : Json) (member : (name, value) ∈ element.pairs)
    (required : name ≠ "docstring" ∧ name ≠ "parent_class") : given.lookup name = some value := by
  refine Json.lookup_once given (element.told_once given told) (name, value) ?_
  by_contra missing
  rcases told.rest _ member missing with same | same
  · exact required.1 (congrArg Prod.fst same)
  · exact required.2 (congrArg Prod.fst same)

theorem told_optional (name : String) (value : Option String) (member : (name, Json.option .text value) ∈ element.pairs) :
    Json.optional none (Json.asOption? Json.asText?) (given.lookup name) = some value := by
  by_cases here : (name, Json.option .text value) ∈ given
  · rw [Json.lookup_once given (element.told_once given told) _ here]
    cases value <;> rfl
  · have absent : Json.option Json.text value = .null := by
      rcases told.rest _ member here with same | same <;> exact congrArg Prod.snd same
    rw [Json.lookup_left_out given element.pairs told.part element.pairs_once _ member here]
    cases value with
    | none => rfl
    | some text => cases absent

theorem told_read : ofFields? (fieldNames.map fun name => given.lookup name) = some element := by
  have kind : ElementKind.ofJson? element.kind.toJson = some element.kind := kind_of_name element.kind
  have present := element.told_present given told
  have absent := element.told_optional given told
  have fields : fieldNames.map (fun name => given.lookup name) =
      [some element.kind.toJson, some (.text element.name), some (.text element.sourceText), given.lookup "docstring",
        some (.arr (element.comments.map .text)), given.lookup "parent_class", some (.nat element.startLine.toNat),
        some (.nat element.endLine.toNat)] := by
    simp only [fieldNames, List.map_cons, List.map_nil]
    rw [present "kind" element.kind.toJson (by simp [pairs]) (by decide),
      present "name" (.text element.name) (by simp [pairs]) (by decide),
      present "source_text" (.text element.sourceText) (by simp [pairs]) (by decide),
      present "comments" (.arr (element.comments.map .text)) (by simp [pairs]) (by decide),
      present "start_line" (.nat element.startLine.toNat) (by simp [pairs]) (by decide),
      present "end_line" (.nat element.endLine.toNat) (by simp [pairs]) (by decide)]
  rw [fields, ofFields?, absent "docstring" element.docstring (by simp [pairs]),
    absent "parent_class" element.parentClass (by simp [pairs])]
  simp only [Json.required, kind, Json.as_list_texts, Json.as_word_nat]
  rfl

end Reading

theorem of_document (element : Element) (json : Json) (document : element.Document json) : ofJson? json = some element := by
  obtain ⟨given, told, gives⟩ := document
  rw [ofJson?, Json.fields_given fieldNames (by decide) given json gives, Option.bind_some, element.told_read given told]

theorem set_of_document (elements : List Element) (json : Json) (document : SetDocument elements json) :
    setOfJson? json = some elements := by
  obtain ⟨items, each, gives⟩ := document
  have read : items.mapM ofJson? = some elements :=
    (Json.all_some_iff ofJson? items elements).mpr (each.flip.imp fun json element document => element.of_document json document)
  rw [setOfJson?, Json.fields_given ["elements"] (by decide) _ json gives]
  exact read

theorem to_json_document (element : Element) : element.Document element.toJson :=
  ⟨element.pairs, ⟨.refl _, fun _ member missing => absurd member missing⟩,
    Json.object_gives fieldNames element.pairs element.pairs_once fun _ member => List.mem_map_of_mem member⟩

theorem set_to_json_document (elements : List Element) : SetDocument elements (setToJson elements) := by
  refine ⟨elements.map toJson, List.forall₂_map_right_iff.mpr (List.forall₂_same.mpr fun element _ => to_json_document element), ?_⟩
  exact Json.object_gives ["elements"] _ (List.nodup_singleton _) (List.forall_mem_singleton.mpr List.mem_cons_self)

theorem set_of_text (elements : List Element) (json : Json) (text : String) (document : SetDocument elements json)
    (written : Json.Document json text) : (Json.read? text).bind setOfJson? = some elements := by
  rw [(Json.read_iff text json).mpr written, Option.bind_some, set_of_document elements json document]

end Element

namespace Store

section Search

variable (store after : Store) (legible : store.Legible) (id content : String) (vector : Embedding) (metadata : Metadata)
  (stored : store.upsertVector id content vector metadata = .ok after)

include legible stored

theorem upserted_legible : after.Legible := by
  obtain ⟨fits, rfl⟩ := (store.upsert_vector_ok_iff after id content vector metadata).mp stored
  exact ⟨store.put_vector_valid legible.valid id content vector metadata fits,
    store.put_vector_written legible.written id content vector metadata⟩

theorem upserted_item : after.item? id = some ⟨content, vector, metadata⟩ := by
  obtain ⟨fits, rfl⟩ := (store.upsert_vector_ok_iff after id content vector metadata).mp stored
  rw [store.put_vector_item legible.valid id content vector metadata fits, Function.update_self]

variable (query : Embedding) (k : UInt64)

theorem upserted_searched : after.search query k ≠ .error .unreadableMetadata := by
  intro failed
  by_cases fits : query.length = after.dimensions
  · have readable := store.upserted_legible after legible id content vector metadata stored
    obtain ⟨⟨hits, found⟩, -⟩ | ⟨missing, -⟩ := after.search_cases readable cosineDistance query fits k
    · cases found.symm.trans failed
    · cases missing.symm.trans failed
  · rw [search, searchBy, if_pos fits] at failed
    cases failed

theorem upserted_hit (hits : List Hit) (found : after.search query k = .ok hits) (hit : Hit) (member : hit ∈ hits)
    (named : hit.embeddingId = id) : hit.content = content ∧ hit.metadata = metadata := by
  have readable := store.upserted_legible after legible id content vector metadata stored
  obtain ⟨item, near, there, said, kept, -⟩ := after.hit_item cosineDistance query k hits found readable hit member
  have same := store.upserted_item after legible id content vector metadata stored
  rw [named, same] at there
  cases there
  exact ⟨said, kept⟩

theorem upserted_found (hits : List Hit) (found : after.search query k = .ok hits) (enough : after.embeddings.length ≤ k.toNat) :
    id ∈ hits.map (·.embeddingId) := by
  have readable := store.upserted_legible after legible id content vector metadata stored
  have item := store.upserted_item after legible id content vector metadata stored
  have listed : id ∈ after.embeddings.map (·.embeddingId) :=
    (after.item_some_iff readable.valid readable.written id).mp (by rw [item]; rfl)
  have length := after.search_length cosineDistance query k hits found readable.valid
  obtain ⟨rest, all, -⟩ := after.search_splits cosineDistance query k hits found readable
  have none : rest = [] := by
    have count := all.length_eq
    simp only [List.length_append, List.length_map, length] at count
    exact List.eq_nil_of_length_eq_zero (by split at count <;> omega)
  rw [none, List.append_nil] at all
  exact all.mem_iff.mpr listed

end Search

end Store

theorem elements_and_metadata_read_back :
    (∀ elements : List Element,
      (Json.read? (Element.setToJson elements).compactText).bind Element.setOfJson? = some elements ∧
      (Json.read? (Element.setToJson elements).prettyText).bind Element.setOfJson? = some elements ∧
      ∀ json text, Element.SetDocument elements json → Json.Document json text →
        (Json.read? text).bind Element.setOfJson? = some elements) ∧
    (∀ metadata : Metadata, (Json.read? metadata.toJson.compactText).bind Metadata.ofJson? = some metadata) ∧
    ∀ (store after : Store) (id content : String) (vector : Embedding) (metadata : Metadata), Reachable store →
      store.upsertVector id content vector metadata = .ok after → ∀ (query : Embedding) (k : UInt64),
        after.search query k ≠ .error .unreadableMetadata ∧
        ∀ hits, after.search query k = .ok hits →
          (∀ hit ∈ hits, hit.embeddingId = id → hit.content = content ∧ hit.metadata = metadata) ∧
          (after.embeddings.length ≤ k.toNat → id ∈ hits.map (·.embeddingId)) := by
  refine ⟨fun elements => ⟨?_, ?_, Element.set_of_text elements⟩, Metadata.read_written, ?_⟩
  · rw [Json.read_compact_text, Option.bind_some, Element.set_of_document _ _ (Element.set_to_json_document elements)]
  · rw [Json.read_pretty_text, Option.bind_some, Element.set_of_document _ _ (Element.set_to_json_document elements)]
  · intro store after id content vector metadata reachable stored query k
    have legible := reachable_legible store reachable
    exact ⟨store.upserted_searched after legible id content vector metadata stored query k, fun hits found =>
      ⟨store.upserted_hit after legible id content vector metadata stored query k hits found,
        store.upserted_found after legible id content vector metadata stored query k hits found⟩⟩

def loneMethod : Element := ⟨.method, "f", "", none, [], some "A", 1, 2⟩

def loneMembers : List (Literal × Json) :=
  [(some "kind", .text "method"), (some "v", .arr [.obj []]), (some "name", .text "f"), (some "source_text", .text ""),
    (some "comments", .arr []), (some "parent_class", .text "A"), (some "start_line", .nat 1), (some "end_line", .nat 2)]

def loneText : String :=
  "\x7b\"v\":0,\"elements\": [\x7b\"kind\":\"method\",\"v\":[\x7b\x7d],\"name\":\"\\u0066\",\"source_text\":\"\",\"comments\":[],\"parent_class\":\"A\",\"start_line\":1,\"end_line\":2\x7d]\x7d"

theorem lone_method_told : loneMethod.Document (.obj loneMembers) := by
  refine ⟨loneMethod.pairs.eraseIdx 3, ⟨List.eraseIdx_sublist _ 3, ?_⟩, .object _ (by decide) (by decide) (.of_eq rfl)⟩
  intro field member missing
  have either := (List.getElem_cons_eraseIdx_perm (l := loneMethod.pairs) (n := 3) (by decide)).mem_iff.mpr member
  exact .inl ((List.mem_cons.mp either).resolve_right missing)

def notedMethod : Store := emptyStore.putVector "a" "x" [1] (.ofElement "a.py" .python loneMethod)

theorem lone_method_read_back :
    (Json.read? loneText).bind Element.setOfJson? = some [loneMethod] ∧
    ∃ hits, notedMethod.search [1] 1 = .ok hits ∧ "a" ∈ hits.map (·.embeddingId) ∧
      ∀ hit ∈ hits, hit.embeddingId = "a" → hit.content = "x" ∧ hit.metadata = .ofElement "a.py" .python loneMethod := by
  obtain ⟨sets, -, searches⟩ := elements_and_metadata_read_back
  constructor
  · have document : Json.Document (.obj [(some "v", .nat 0), (some "elements", .arr [.obj loneMembers])]) loneText := by
      decide +kernel
    exact (sets [loneMethod]).2.2 _ loneText ⟨[.obj loneMembers], .cons lone_method_told .nil,
      .object _ (by decide) (by decide) (.of_eq rfl)⟩ document
  · have opened : Reachable emptyStore := ⟨1, emptyStore, [], rfl, rfl⟩
    have stored : emptyStore.upsertVector "a" "x" [1] (.ofElement "a.py" .python loneMethod) = .ok notedMethod := rfl
    have legible := emptyStore.upserted_legible notedMethod (reachable_legible emptyStore opened) _ _ _ _ stored
    obtain ⟨hits, found⟩ := notedMethod.search_measured legible cosineDistance [1] rfl 1 (.inr (by decide +kernel))
    obtain ⟨-, answers⟩ := searches emptyStore notedMethod _ _ _ _ opened stored [1] 1
    exact ⟨hits, found, (answers hits found).2 (by decide), (answers hits found).1⟩

end CodeIndex
