import CodeIndex.Embedding.Tokenizer
import CodeIndex.Proofs.Json.Records

set_option autoImplicit false

namespace CodeIndex

def Json.without (key : String) : Json → Json
  | .obj members => .obj (members.filter (·.1 ≠ some key))
  | json => json

theorem Json.last_without (json : Json) (key other : String) (differs : other ≠ key) :
    (json.without key).last? other = json.last? other := by
  cases json with
  | obj members =>
      have kept : ∀ pair : Literal × Json, (pair.1 == some other && decide (pair.1 ≠ some key)) = (pair.1 == some other) := by
        intro pair
        rw [Bool.and_eq_left_iff_imp]
        intro here
        rw [eq_of_beq here]
        exact decide_eq_true fun same => differs (Option.some.inj same)
      simp only [without, last?, valuesOf, List.filter_filter, kept]
  | _ => rfl

namespace Tokenizer

theorem known_without_truncation (json : Json) (accepted : known json = true) : known (json.without "truncation") = true := by
  cases json with
  | obj members =>
      rw [known, List.all_eq_true] at accepted
      rw [Json.without, known, List.all_eq_true]
      exact fun pair member => accepted pair (List.mem_of_mem_filter member)
  | _ => exact accepted

theorem of_json_without_truncation (json : Json) (tokenizer : Tokenizer) (read : ofJson? json = some tokenizer) :
    ofJson? (json.without "truncation") = some tokenizer := by
  have accepted : known json = true := by
    by_contra refused
    simp [ofJson?, refused] at read
  have kept := known_without_truncation json accepted
  rw [ofJson?, kept, json.last_without _ _ (by decide), json.last_without _ _ (by decide), json.last_without _ _ (by decide)]
  rwa [ofJson?, accepted] at read

theorem load_ok_iff (directory document : String) (tokenizer : Tokenizer) :
    load directory (some document) = .ok tokenizer ↔ (Json.read? document).bind ofJson? = some tokenizer := by
  rw [load]
  cases (Json.read? document).bind ofJson? with
  | none => exact ⟨(nomatch ·), (nomatch ·)⟩
  | some found => exact ⟨fun same => congrArg some (Except.ok.inj same), fun same => congrArg Except.ok (Option.some.inj same)⟩

theorem load_same (directory document other : String) (tokenizer reloaded : Tokenizer)
    (loaded : load directory (some document) = .ok tokenizer) (again : load directory (some other) = .ok reloaded)
    (alike : (Json.read? document).map (Json.without "truncation") = (Json.read? other).map (Json.without "truncation")) :
    tokenizer = reloaded := by
  have rest (text : String) (result : Tokenizer) (read : load directory (some text) = .ok result) :
      ((Json.read? text).map (Json.without "truncation")).bind ofJson? = some result := by
    obtain ⟨json, parsed, found⟩ := Option.bind_eq_some_iff.mp ((load_ok_iff directory text result).mp read)
    rw [parsed, Option.map_some, Option.bind_some, of_json_without_truncation json result found]
  have left := rest document tokenizer loaded
  rw [alike, rest other reloaded again] at left
  exact (Option.some.inj left).symm

def Knows (tokenizer : Tokenizer) (word : String) : Prop := word ∈ tokenizer.vocabulary.map Prod.fst

inductive Stands (tokenizer : Tokenizer) (word : List Char) (id : Nat) : Prop where
  | known (own : tokenizer.vocabulary.lookup (.ofList word) = some id) : Stands tokenizer word id
  | unknown (absent : ¬ tokenizer.Knows (.ofList word)) (shared : tokenizer.vocabulary.lookup tokenizer.unknown = some id) :
      Stands tokenizer word id

theorem lookup_none_iff (tokenizer : Tokenizer) (word : String) :
    tokenizer.vocabulary.lookup word = none ↔ ¬ tokenizer.Knows word := by
  rw [List.lookup_eq_none_iff, Knows, List.mem_map]
  constructor
  · rintro each ⟨pair, member, rfl⟩
    simpa using each pair member
  · intro absent pair member
    exact bne_iff_ne.mpr fun same => absent ⟨pair, member, same.symm⟩

theorem word_id_iff (tokenizer : Tokenizer) (word : List Char) (id : Nat) :
    tokenizer.wordId? word = some id ↔ tokenizer.Stands word id := by
  rw [wordId?]
  cases found : tokenizer.vocabulary.lookup (.ofList word) with
  | some own =>
      constructor
      · intro same
        exact .known (found.trans same)
      · rintro (same | ⟨absent, _⟩)
        · exact found.symm.trans same
        · rw [(tokenizer.lookup_none_iff _).mpr absent] at found
          cases found
  | none =>
      have absent := (tokenizer.lookup_none_iff _).mp found
      constructor
      · exact .unknown absent
      · rintro (own | ⟨_, shared⟩)
        · rw [found] at own
          cases own
        · exact shared

theorem word_id_none_iff (tokenizer : Tokenizer) (word : List Char) : tokenizer.wordId? word = none ↔
    ¬ tokenizer.Knows (.ofList word) ∧ ¬ tokenizer.Knows tokenizer.unknown := by
  rw [wordId?, ← lookup_none_iff, ← lookup_none_iff]
  cases tokenizer.vocabulary.lookup (.ofList word) <;> simp

theorem word_ids_none_iff (tokenizer : Tokenizer) (words : List (List Char)) : words.mapM tokenizer.wordId? = none ↔
    (∃ word ∈ words, ¬ tokenizer.Knows (.ofList word)) ∧ ¬ tokenizer.Knows tokenizer.unknown := by
  simp only [Json.one_none_iff, word_id_none_iff, ← and_assoc, exists_and_right]

theorem ids_take (tokenizer : Tokenizer) (words : List (List Char)) (ids : List Nat) (count : Nat)
    (looked : words.mapM tokenizer.wordId? = some ids) : (words.take count).mapM tokenizer.wordId? = some (ids.take count) :=
  (Json.all_some_iff _ _ _).mpr (List.forall₂_take count ((Json.all_some_iff _ _ _).mp looked))

def frame : Option (Nat × Nat) → List TemplatePart
  | none => [.words]
  | some (first, last) => [.special [first], .words, .special [last]]

def framed : Option (Nat × Nat) → List Nat → List Nat
  | none, ids => ids
  | some (first, last), ids => first :: (ids ++ [last])

def room : Option (Nat × Nat) → Nat
  | none => 512
  | some _ => 510

theorem framed_length (specials : Option (Nat × Nat)) (ids : List Nat) (fits : ids.length ≤ room specials) :
    (framed specials ids).length ≤ 512 := by
  cases specials with
  | none => exact fits
  | some pair =>
      have inner : ids.length ≤ 510 := fits
      simp only [framed, List.length_cons, List.length_append, List.length_nil]
      omega

section Framed

variable (tokenizer : Tokenizer) (specials : Option (Nat × Nat)) (template : tokenizer.template = frame specials)

include template

theorem encode_framed (text : String) : tokenizer.encode? text =
    ((Text.words text.toList).mapM tokenizer.wordId?).map fun ids =>
      ⟨framed specials (ids.take (room specials)), (framed specials (ids.take (room specials))).map fun _ => 1⟩ := by
  rw [encode?, template]
  cases specials with
  | none =>
      cases (Text.words text.toList).mapM tokenizer.wordId? <;>
        simp [frame, framed, room, maxLength, TemplatePart.fill]
  | some pair =>
      cases (Text.words text.toList).mapM tokenizer.wordId? <;>
        simp [frame, framed, room, maxLength, TemplatePart.fill]

theorem encode_none_iff (text : String) : tokenizer.encode? text = none ↔
    (∃ word ∈ Text.words text.toList, ¬ tokenizer.Knows (.ofList word)) ∧ ¬ tokenizer.Knows tokenizer.unknown := by
  rw [tokenizer.encode_framed specials template, Option.map_eq_none_iff, word_ids_none_iff]

theorem encode_some (text : String) (encoded : Encoded) (found : tokenizer.encode? text = some encoded) :
    encoded.mask = List.replicate encoded.ids.length 1 ∧ encoded.ids.length ≤ 512 ∧
    ∃ ids, List.Forall₂ tokenizer.Stands ((Text.words text.toList).take (room specials)) ids ∧
      encoded.ids = framed specials ids := by
  rw [tokenizer.encode_framed specials template, Option.map_eq_some_iff] at found
  obtain ⟨ids, looked, rfl⟩ := found
  refine ⟨List.map_const', framed_length specials _ (List.length_take_le _ _), ids.take (room specials), ?_, rfl⟩
  have each := (Json.all_some_iff _ _ _).mp looked
  exact List.forall₂_take _ (each.imp fun word id => (tokenizer.word_id_iff word id).mp)

theorem encode_same_start (a b : String) (left : tokenizer.encode? a ≠ none) (right : tokenizer.encode? b ≠ none)
    (alike : (Text.words a.toList).take (room specials) = (Text.words b.toList).take (room specials)) :
    tokenizer.encode? a = tokenizer.encode? b := by
  obtain ⟨encoded, found⟩ := Option.ne_none_iff_exists'.mp left
  obtain ⟨other, elsewhere⟩ := Option.ne_none_iff_exists'.mp right
  rw [tokenizer.encode_framed specials template, Option.map_eq_some_iff] at found elsewhere
  obtain ⟨ids, looked, -⟩ := found
  obtain ⟨others, again, -⟩ := elsewhere
  have start := ids_take tokenizer _ _ (room specials) looked
  rw [alike, ids_take tokenizer _ _ (room specials) again, Option.some.injEq] at start
  rw [tokenizer.encode_framed specials template, tokenizer.encode_framed specials template, looked, again,
    Option.map_some, Option.map_some, start]

end Framed

end Tokenizer

end CodeIndex
