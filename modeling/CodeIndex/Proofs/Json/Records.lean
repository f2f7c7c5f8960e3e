import CodeIndex.Json.Decode
import Mathlib.Data.List.Perm.Basic
import Mathlib.Data.List.Nodup
import Mathlib.Data.List.Forall2
import Mathlib.Data.Set.List

set_option autoImplicit false

namespace CodeIndex.Json

def known (names : List String) (member : Literal × Json) : Bool := names.any fun name => member.1 == some name

def named (field : String × Json) : Literal × Json := (some field.1, field.2)

theorem all_some_iff {α β : Type} (f : α → Option β) (items : List α) (results : List β) :
    items.mapM f = some results ↔ List.Forall₂ (fun item result => f item = some result) items results := by
  induction items generalizing results with
  | nil => simp [eq_comm]
  | cons item rest ih =>
      rw [List.mapM_cons, List.forall₂_cons_left_iff]
      constructor
      · intro found
        obtain ⟨first, here, found⟩ := Option.bind_eq_some_iff.mp found
        obtain ⟨others, later, found⟩ := Option.bind_eq_some_iff.mp found
        cases found
        exact ⟨first, others, here, (ih others).mp later, rfl⟩
      · rintro ⟨first, others, here, later, rfl⟩
        rw [here, (ih others).mpr later]
        rfl

theorem one_none_iff {α β : Type} (f : α → Option β) (items : List α) :
    items.mapM f = none ↔ ∃ item ∈ items, f item = none := by
  induction items with
  | nil => simp
  | cons item rest ih =>
      rw [List.exists_mem_cons_iff, ← ih, List.mapM_cons]
      cases f item <;> cases rest.mapM f <;> simp

theorem all_some_each {α β : Type} (f : α → Option β) (items : List α) (results : List β)
    (found : items.mapM f = some results) (item : α) (member : item ∈ items) : ∃ result, f item = some result := by
  induction (all_some_iff f items results).mp found with
  | nil => cases member
  | cons here later ih =>
      rcases List.mem_cons.mp member with rfl | elsewhere
      · exact ⟨_, here⟩
      · exact ih ((all_some_iff f _ _).mpr later) elsewhere

inductive Gives (names : List String) (given : List (String × Json)) : Json → Prop where
  | object (members : List (Literal × Json)) (texts : ∀ member ∈ members, member.1.isSome = true)
      (once : (given.map Prod.fst).Nodup) (same : (members.filter (known names)).Perm (given.map named)) :
      Gives names given (.obj members)
  | row (inOrder : given.map Prod.fst = names.take given.length) : Gives names given (.arr (given.map Prod.snd))

section Objects

theorem known_iff (names : List String) (member : Literal × Json) :
    known names member = true ↔ ∃ name ∈ names, member.1 = some name := by
  simp [known]

theorem values_known (names : List String) (name : String) (members : List (Literal × Json)) (member : name ∈ names) :
    valuesOf name (members.filter (known names)) = valuesOf name members := by
  rw [valuesOf, valuesOf, List.filter_filter]
  congr 2
  funext entry
  by_cases same : entry.1 = some name
  · simp [(known_iff names entry).mpr ⟨name, member, same⟩]
  · simp [same]

theorem values_cons (name : String) (field : String × Json) (members : List (Literal × Json)) :
    valuesOf name (named field :: members) = if field.1 = name then field.2 :: valuesOf name members else valuesOf name members := by
  by_cases same : field.1 = name
  · simp [valuesOf, named, same]
  · simp [valuesOf, named, same]

theorem values_listed (name : String) (given : List (String × Json)) :
    valuesOf name (given.map named) = [] ↔ name ∉ given.map Prod.fst := by
  induction given with
  | nil => simp [valuesOf]
  | cons field rest ih =>
      rw [List.map_cons, values_cons, List.map_cons, List.mem_cons, not_or, ← ih]
      split
      · next same => simp [same]
      · next different => simp [Ne.symm different]

theorem values_named (name : String) (given : List (String × Json)) (once : (given.map Prod.fst).Nodup) :
    valuesOf name (given.map named) = (given.lookup name).toList := by
  induction given with
  | nil => rfl
  | cons field rest ih =>
      obtain ⟨fresh, others⟩ := List.nodup_cons.mp once
      rw [List.map_cons, values_cons]
      split
      · next same =>
          subst same
          rw [(values_listed field.1 rest).mpr fresh, List.lookup_cons_self]
          rfl
      · next different =>
          rw [List.lookup_cons, beq_eq_false_iff_ne.mpr (Ne.symm different)]
          exact ih others

theorem named_once (given : List (String × Json))
    (single : ∀ name ∈ given.map Prod.fst, (valuesOf name (given.map named)).length ≤ 1) : (given.map Prod.fst).Nodup := by
  induction given with
  | nil => exact .nil
  | cons field rest ih =>
      refine List.nodup_cons.mpr ⟨fun again => ?_, ih fun name member => ?_⟩
      · have two := single field.1 List.mem_cons_self
        rw [List.map_cons, values_cons, if_pos rfl, List.length_cons] at two
        exact (values_listed field.1 rest).mp (List.eq_nil_of_length_eq_zero (by omega)) again
      · have more := single name (List.mem_cons_of_mem _ member)
        rw [List.map_cons, values_cons] at more
        split at more
        · exact Nat.le_of_succ_le more
        · exact more

theorem values_given (names : List String) (given : List (String × Json)) (members : List (Literal × Json)) (name : String)
    (member : name ∈ names) (once : (given.map Prod.fst).Nodup)
    (same : (members.filter (known names)).Perm (given.map named)) :
    valuesOf name members = (given.lookup name).toList := by
  have values : (valuesOf name members).Perm (given.lookup name).toList := by
    rw [← values_named name given once, ← values_known names name members member]
    exact (same.filter _).map _
  cases found : given.lookup name with
  | none =>
      rw [found] at values
      exact values.eq_nil
  | some value =>
      rw [found] at values
      exact values.eq_singleton

theorem member_given (names : List String) (given : List (String × Json)) (members : List (Literal × Json)) (name : String)
    (member : name ∈ names) (once : (given.map Prod.fst).Nodup)
    (same : (members.filter (known names)).Perm (given.map named)) :
    memberOf? members name = some (given.lookup name) := by
  rw [memberOf?, values_given names given members name member once same]
  cases given.lookup name <;> rfl

end Objects

section Lookups

variable (given : List (String × Json))

theorem lookup_once (once : (given.map Prod.fst).Nodup) (field : String × Json) (member : field ∈ given) :
    given.lookup field.1 = some field.2 := by
  induction given with
  | nil => cases member
  | cons first rest ih =>
      obtain ⟨fresh, others⟩ := List.nodup_cons.mp once
      rcases List.mem_cons.mp member with rfl | later
      · exact List.lookup_cons_self
      · have different : (field.1 == first.1) = false :=
          beq_eq_false_iff_ne.mpr fun same => fresh (same ▸ List.mem_map_of_mem later)
        rw [List.lookup_cons, different]
        exact ih others later

theorem lookup_absent (name : String) (absent : name ∉ given.map Prod.fst) : given.lookup name = none := by
  rw [List.lookup_eq_none_iff]
  exact fun field member => bne_iff_ne.mpr fun same => absent (same ▸ List.mem_map_of_mem member)

theorem lookup_left_out (fields : List (String × Json)) (part : given.Sublist fields) (once : (fields.map Prod.fst).Nodup)
    (field : String × Json) (member : field ∈ fields) (missing : field ∉ given) : given.lookup field.1 = none := by
  refine lookup_absent given field.1 fun listed => missing ?_
  obtain ⟨other, held, same⟩ := List.mem_map.mp listed
  exact List.inj_on_of_nodup_map once (part.subset held) member same ▸ held

theorem row_lookups (names : List String) (distinct : names.Nodup) (inOrder : given.map Prod.fst = names.take given.length) :
    given.map (fun field => some field.2) ++ List.replicate (names.length - given.length) none = names.map fun name => given.lookup name := by
  induction given generalizing names with
  | nil => simp
  | cons field rest ih =>
      cases names with
      | nil => cases inOrder
      | cons name names =>
          obtain ⟨rfl, keys⟩ := List.cons.inj inOrder
          obtain ⟨fresh, others⟩ := List.nodup_cons.mp distinct
          have elsewhere : ∀ name ∈ names, List.lookup name (field :: rest) = rest.lookup name := by
            intro name member
            have different : (name == field.1) = false := beq_eq_false_iff_ne.mpr fun same => fresh (same ▸ member)
            rw [List.lookup_cons, different]
          have here : List.lookup field.1 (field :: rest) = some field.2 := List.lookup_cons_self
          rw [List.map_cons, List.map_cons, List.map_congr_left elsewhere, ← ih names others keys, here]
          simp

end Lookups

section Fields

variable (names : List String) (distinct : names.Nodup) (given : List (String × Json)) (json : Json)

theorem given_known (gives : Gives names given json) (field : String × Json) (member : field ∈ given) : field.1 ∈ names := by
  cases gives with
  | object members texts once same =>
      have listed := same.mem_iff.mpr (List.mem_map_of_mem member)
      obtain ⟨name, known, key⟩ := (known_iff names _).mp (List.mem_filter.mp listed).2
      cases key
      exact known
  | row inOrder =>
      have key := List.mem_map_of_mem (f := Prod.fst) member
      rw [inOrder] at key
      exact List.mem_of_mem_take key

include distinct

theorem given_once (gives : Gives names given json) : (given.map Prod.fst).Nodup := by
  cases gives with
  | object members texts once same => exact once
  | row inOrder =>
      rw [inOrder]
      exact distinct.sublist (List.take_sublist _ _)

theorem fields_given (gives : Gives names given json) : json.fields? names = some (names.map fun name => given.lookup name) := by
  cases gives with
  | object members texts once same =>
      rw [fields?, if_pos (List.all_eq_true.mpr texts)]
      have each : ∀ name ∈ names, memberOf? members name = some (given.lookup name) :=
        fun name member => member_given names given members name member once same
      exact (all_some_iff _ names _).mpr (List.forall₂_map_right_iff.mpr (List.forall₂_same.mpr each))
  | row inOrder =>
      have short : given.length ≤ names.length := by
        have lengths := congrArg List.length inOrder
        simp only [List.length_map, List.length_take] at lengths
        omega
      rw [fields?, List.length_map, if_pos short, ← row_lookups given names distinct inOrder, List.map_map]
      rfl

omit distinct

theorem member_single (members : List (Literal × Json)) (name : String) (value : Option Json)
    (found : memberOf? members name = some value) : (valuesOf name members).length ≤ 1 := by
  rw [memberOf?] at found
  split at found
  · next none => rw [none]; exact Nat.zero_le 1
  · next one => rw [one]; exact Nat.le_refl 1
  · cases found

theorem fields_gives (fields : List (Option Json)) (found : json.fields? names = some fields) :
    ∃ given, Gives names given json := by
  cases json with
  | obj members =>
      rw [fields?] at found
      split at found
      · next texts =>
          rw [List.all_eq_true] at texts
          have each : ∀ member ∈ members.filter (known names), member ∈ Set.range named := by
            intro member held
            obtain ⟨name, key⟩ := Option.isSome_iff_exists.mp (texts member (List.mem_of_mem_filter held))
            exact ⟨(name, member.2), by rw [named, ← key]⟩
          obtain ⟨given, same⟩ := (Set.range_list_map named).symm.subset each
          refine ⟨given, .object members texts (named_once given fun name listed => ?_) (.of_eq same.symm)⟩
          obtain ⟨field, held, rfl⟩ := List.mem_map.mp listed
          have filtered : named field ∈ members.filter (known names) := same ▸ List.mem_map_of_mem held
          obtain ⟨name, member, key⟩ := (known_iff names _).mp (List.mem_filter.mp filtered).2
          cases key
          obtain ⟨value, single⟩ := all_some_each _ names fields found field.1 member
          rw [same, values_known names field.1 members member]
          exact member_single members field.1 value single
      · cases found
  | arr items =>
      rw [fields?] at found
      split at found
      · next short =>
          have keys : (names.zip items).map Prod.fst = names.take (names.zip items).length := by
            rw [List.zip_eq_zip_take_min, List.map_fst_zip (by simp)]
            simp [short]
          have row := Gives.row keys
          rw [List.map_snd_zip short] at row
          exact ⟨names.zip items, row⟩
      · cases found
  | _ => cases found

theorem object_gives (once : (given.map Prod.fst).Nodup) (listed : ∀ field ∈ given, field.1 ∈ names) :
    Gives names given (.object given) := by
  refine .object _ (fun member held => ?_) once (.of_eq ?_)
  · obtain ⟨field, -, rfl⟩ := List.mem_map.mp held
    rfl
  · refine List.filter_eq_self.mpr fun member held => ?_
    obtain ⟨field, inside, rfl⟩ := List.mem_map.mp held
    exact (known_iff names _).mpr ⟨field.1, listed field inside, rfl⟩

end Fields

section Settings

variable {R S : Type} (pair : S → String × Json) (set : R → S → R)

theorem settings_keep {α : Type} (get : R → α) (name : String) (settings : List S) (start : R)
    (keeps : ∀ setting record, (pair setting).1 ≠ name → get (set record setting) = get record)
    (absent : name ∉ (settings.map pair).map Prod.fst) : get (settings.foldl set start) = get start := by
  induction settings generalizing start with
  | nil => rfl
  | cons setting rest ih =>
      simp only [List.map_cons, List.mem_cons, not_or] at absent
      rw [List.foldl_cons, ih (set start setting) absent.2, keeps setting start (Ne.symm absent.1)]

theorem field_set {α : Type} (get : R → α) (name : String) (decode : Json → Option α) (settings : List S) (start : R)
    (once : ((settings.map pair).map Prod.fst).Nodup)
    (takes : ∀ setting record, (pair setting).1 = name → decode (pair setting).2 = some (get (set record setting)))
    (keeps : ∀ setting record, (pair setting).1 ≠ name → get (set record setting) = get record) :
    optional (get start) decode ((settings.map pair).lookup name) = some (get (settings.foldl set start)) := by
  induction settings generalizing start with
  | nil => rfl
  | cons setting rest ih =>
      obtain ⟨fresh, others⟩ := List.nodup_cons.mp once
      rw [List.map_cons, List.foldl_cons]
      by_cases here : (pair setting).1 = name
      · subst here
        rw [List.lookup_cons_self, settings_keep pair set get _ rest _ keeps fresh]
        exact takes setting start rfl
      · rw [List.lookup_cons, beq_eq_false_iff_ne.mpr (Ne.symm here), ← keeps setting start here]
        exact ih (set start setting) others

-- A document is read as a record exactly when each field that it gives is a setting.
theorem record_iff (names : List String) (distinct : names.Nodup) (ofFields? : List (Option Json) → Option R) (start : R)
    (reads : ∀ settings : List S, ((settings.map pair).map Prod.fst).Nodup →
      ofFields? (names.map fun name => (settings.map pair).lookup name) = some (settings.foldl set start))
    (typed : ∀ (given : List (String × Json)) (record : R), ofFields? (names.map fun name => given.lookup name) = some record →
      ∀ name ∈ names, ∀ value, given.lookup name = some value → ∃ setting, pair setting = (name, value))
    (json : Json) (record : R) : (json.fields? names).bind ofFields? = some record ↔
      ∃ settings : List S, Gives names (settings.map pair) json ∧ record = settings.foldl set start := by
  constructor
  · intro found
    obtain ⟨fields, listed, read⟩ := Option.bind_eq_some_iff.mp found
    obtain ⟨given, gives⟩ := fields_gives names json fields listed
    have fieldsGiven := fields_given names distinct given json gives
    rw [listed, Option.some.injEq] at fieldsGiven
    rw [fieldsGiven] at read
    have each : ∀ field ∈ given, field ∈ Set.range pair := fun field member =>
      typed given record read field.1 (given_known names given json gives field member) field.2
        (lookup_once given (given_once names distinct given json gives) field member)
    obtain ⟨settings, rfl⟩ := (Set.range_list_map pair).symm.subset each
    rw [reads settings (given_once names distinct _ json gives), Option.some.injEq] at read
    exact ⟨settings, gives, read.symm⟩
  · rintro ⟨settings, gives, rfl⟩
    rw [fields_given names distinct _ json gives, Option.bind_some]
    exact reads settings (given_once names distinct _ json gives)

def Faulty (names : List String) (members : List (Literal × Json)) : Prop :=
  ∃ name ∈ names, 1 < (valuesOf name members).length ∨
    ∃ value ∈ valuesOf name members, ∀ setting, pair setting ≠ (name, value)

theorem faulty_refused (names : List String) (members : List (Literal × Json)) (faulty : Faulty pair names members)
    (settings : List S) : ¬ Gives names (settings.map pair) (.obj members) := by
  intro gives
  cases gives with
  | object _ texts once same =>
      obtain ⟨name, listed, fault⟩ := faulty
      have values := values_given names (settings.map pair) members name listed once same
      rcases fault with twice | ⟨value, held, untyped⟩
      · rw [values] at twice
        cases found : List.lookup name (settings.map pair) <;> rw [found] at twice <;> contradiction
      · rw [values, Option.mem_toList] at held
        obtain ⟨front, back, parts, -⟩ := List.lookup_eq_some_iff.mp held
        have member : (name, value) ∈ settings.map pair := parts ▸ List.mem_append_right front List.mem_cons_self
        obtain ⟨setting, -, typed⟩ := List.mem_map.mp member
        exact untyped setting typed

end Settings

end CodeIndex.Json
