import CodeIndex.Command.Database
import CodeIndex.Proofs.Store.Swap

set_option autoImplicit false

namespace CodeIndex

namespace Entry

def database? (root : Entry) (names : List String) : Option Tables :=
  match root.find? names with
  | some (.file (.database tables)) => some tables
  | _ => none

def SameDatabases (before after : Entry) : Prop := ∀ names, after.database? names = before.database? names

theorem same_databases_trans (first second third : Entry) (before : SameDatabases first second)
    (after : SameDatabases second third) : SameDatabases first third := fun names => (after names).trans (before names)

structure Vacant (root : Entry) (names : List String) : Prop where
  free : ∀ items, root.find? names ≠ some (.dir items)
  above : ∃ items, root.find? names.dropLast = some (.dir items)

theorem lookup_cons (name wanted : String) (entry : Entry) (rest : List (String × Entry)) :
    ((name, entry) :: rest).lookup wanted = if wanted = name then some entry else rest.lookup wanted := by
  by_cases same : wanted = name
  · simp [same]
  · have unequal : (wanted == name) = false := by simpa using same
    simp [List.lookup_cons, same, unequal]

theorem lookup_insert (name wanted : String) (entry : Entry) (items : List (String × Entry)) :
    (insert name entry items).lookup wanted = if wanted = name then some entry else items.lookup wanted := by
  induction items with
  | nil => exact lookup_cons name wanted entry []
  | cons item rest ih =>
      obtain ⟨other, old⟩ := item
      by_cases same : name = other
      · subst same
        by_cases here : wanted = name <;> simp [insert, lookup_cons, here]
      · by_cases less : name < other
        · simp [insert, same, less, lookup_cons]
        · rw [insert, if_neg same, if_neg less, lookup_cons, ih, lookup_cons]
          by_cases here : wanted = name
          · simp [here, same]
          · simp [here]

theorem find_append (root : Entry) (names rest : List String) :
    root.find? (names ++ rest) = (root.find? names).bind (·.find? rest) := by
  induction names generalizing root with
  | nil => rfl
  | cons name names ih =>
      rw [List.cons_append, find?, find?]
      cases root.items.lookup name with
      | none => rfl
      | some below => exact ih below

theorem alter_cons (change : Option Entry → Entry) (entry : Option Entry) (name : String) (names : List String) :
    alter change entry (name :: names) = .dir (insert name (alter change
      (((entry.map Entry.items).getD []).lookup name) names) ((entry.map Entry.items).getD [])) := rfl

theorem find_alter_cons (change : Option Entry → Entry) (entry : Option Entry) (name wanted : String)
    (names rest : List String) : (alter change entry (name :: names)).find? (wanted :: rest) =
      if wanted = name then (alter change (entry.bind (·.items.lookup name)) names).find? rest
      else entry.bind (·.find? (wanted :: rest)) := by
  have lookup (other : String) : ((entry.map Entry.items).getD []).lookup other = entry.bind (·.items.lookup other) := by
    cases entry <;> rfl
  rw [alter_cons, find?, items, lookup_insert, lookup, lookup]
  by_cases here : wanted = name
  · rw [if_pos here, if_pos here]
    rfl
  · rw [if_neg here, if_neg here]
    cases entry <;> rfl

theorem find_alter_below (change : Option Entry → Entry) (entry : Option Entry) (names rest : List String) :
    (alter change entry names).find? (names ++ rest) = (change (entry.bind (·.find? names))).find? rest := by
  induction names generalizing entry with
  | nil => cases entry <;> rfl
  | cons name names ih =>
      rw [List.cons_append, find_alter_cons, if_pos rfl, ih, Option.bind_assoc]
      rfl

theorem find_alter_here (change : Option Entry → Entry) (entry : Option Entry) (names : List String) :
    (alter change entry names).find? names = some (change (entry.bind (·.find? names))) := by
  have below := find_alter_below change entry names []
  rw [List.append_nil] at below
  exact below

theorem find_alter_above (change : Option Entry → Entry) (entry : Option Entry) (above : List String) (name : String)
    (rest : List String) : ∃ items, (alter change entry (above ++ name :: rest)).find? above = some (.dir items) := by
  induction above generalizing entry with
  | nil => exact ⟨_, rfl⟩
  | cons first above ih =>
      rw [List.cons_append, find_alter_cons, if_pos rfl]
      exact ih _

theorem find_alter_beside (change : Option Entry → Entry) (entry : Option Entry) (above : List String) (name other : String)
    (rest more : List String) (different : other ≠ name) :
    (alter change entry (above ++ name :: rest)).find? (above ++ other :: more) =
      entry.bind (·.find? (above ++ other :: more)) := by
  induction above generalizing entry with
  | nil => rw [List.nil_append, List.nil_append, find_alter_cons, if_neg different]
  | cons first above ih =>
      rw [List.cons_append, List.cons_append, find_alter_cons, if_pos rfl, ih, Option.bind_assoc]
      rfl

theorem places (names other : List String) :
    (∃ rest, other = names ++ rest) ∨ (∃ name rest, names = other ++ name :: rest) ∨
    ∃ above name wanted rest more, names = above ++ name :: rest ∧ other = above ++ wanted :: more ∧ wanted ≠ name := by
  induction names generalizing other with
  | nil => exact .inl ⟨other, rfl⟩
  | cons name names ih =>
      cases other with
      | nil => exact .inr (.inl ⟨name, names, rfl⟩)
      | cons wanted more =>
          by_cases same : wanted = name
          · subst same
            rcases ih more with ⟨rest, rfl⟩ | ⟨next, rest, rfl⟩ | ⟨above, next, other, rest, more, rfl, rfl, different⟩
            · exact .inl ⟨rest, rfl⟩
            · exact .inr (.inl ⟨next, rest, rfl⟩)
            · exact .inr (.inr ⟨wanted :: above, next, other, rest, more, rfl, rfl, different⟩)
          · exact .inr (.inr ⟨[], name, wanted, names, more, rfl, rfl, same⟩)

theorem dir_above (root : Entry) (above rest : List String) (items : List (String × Entry))
    (found : root.find? (above ++ rest) = some (.dir items)) : ∃ items, root.find? above = some (.dir items) := by
  rw [find_append] at found
  obtain ⟨entry, here, below⟩ := Option.bind_eq_some_iff.mp found
  cases entry with
  | dir items => exact ⟨items, here⟩
  | file content =>
      cases rest with
      | nil => cases below
      | cons name rest => cases below

theorem database_none (root : Entry) (names : List String) (items : List (String × Entry))
    (found : root.find? names = some (.dir items)) : root.database? names = none := by
  rw [database?, found]

theorem alter_databases (root : Entry) (names : List String) (vacant : root.Vacant names) (change : Option Entry → Entry)
    (leaf : ∀ name rest, (change (root.find? names)).find? (name :: rest) = none) (other : List String)
    (different : other ≠ names) : (alter change (some root) names).database? other = root.database? other := by
  rcases places names other with ⟨rest, rfl⟩ | ⟨name, rest, rfl⟩ | ⟨above, name, wanted, rest, more, rfl, rfl, apart⟩
  · cases rest with
    | nil => exact absurd (List.append_nil names) different
    | cons name rest =>
        have before : root.find? (names ++ name :: rest) = none := by
          rw [find_append]
          cases found : root.find? names with
          | none => rfl
          | some entry =>
              cases entry with
              | dir items => exact absurd found (vacant.free items)
              | file content => rfl
        have after : (alter change (some root) names).find? (names ++ name :: rest) = none := by
          rw [find_alter_below]
          exact leaf name rest
        rw [database?, after, database?, before]
  · obtain ⟨after, afterDir⟩ := find_alter_above change (some root) other name rest
    obtain ⟨items, parent⟩ := vacant.above
    rw [List.dropLast_append_cons] at parent
    obtain ⟨before, beforeDir⟩ := dir_above root other _ items parent
    rw [database_none _ _ _ afterDir, database_none _ _ _ beforeDir]
  · rw [database?, find_alter_beside change (some root) above name wanted rest more apart, database?]
    rfl

theorem write_databases (root : Entry) (names : List String) (vacant : root.Vacant names) (tables : Tables)
    (other : List String) : (root.write names (.database tables)).database? other =
      if other = names then some tables else root.database? other := by
  by_cases here : other = names
  · subst here
    rw [if_pos rfl, write, database?, find_alter_here]
  · rw [if_neg here]
    exact root.alter_databases names vacant _ (fun _ _ => rfl) other here

theorem put_dir_databases (root : Entry) (names : List String) (vacant : root.Vacant names) (absent : root.find? names = none) :
    SameDatabases root (root.putDir names) := by
  intro other
  by_cases here : other = names
  · subst here
    rw [putDir, database?, find_alter_here, Option.bind_some, database?, absent]
  · apply root.alter_databases names vacant _ _ other here
    intro name rest
    rw [absent]
    rfl

theorem place_cases (root : Entry) (path last : String) (parts names : List String)
    (placed : root.place path parts = .ok (names, last)) :
    Path.check path = .ok () ∧ parts.dropLast.foldlM root.step [] = .ok names ∧ last = parts.getLastD "" ∧
      ∃ items, root.find? names = some (.dir items) := by
  obtain ⟨_, checked, located⟩ := (bind_ok_iff _ _ _).mp placed
  obtain ⟨way, steps, reached⟩ := (bind_ok_iff _ _ _).mp located
  cases found : root.find? way with
  | none => simp [found] at reached
  | some entry =>
      cases entry with
      | file content => simp [found] at reached
      | dir items =>
          simp only [found] at reached
          cases reached
          exact ⟨checked, steps, rfl, items, found⟩

theorem make_dir_databases (root after : Entry) (path : String) (made : root.makeDir path = .ok after) :
    SameDatabases root after := by
  obtain ⟨⟨names, last⟩, placed, rest⟩ := (bind_ok_iff _ _ _).mp made
  obtain ⟨_, _, _, items, above⟩ := root.place_cases path last _ names placed
  by_cases dots : (last = "." || last = "..") = true
  · simp [dots] at rest
  · by_cases long : (!Path.nameFits last) = true
    · simp [dots, long] at rest
    · cases found : root.find? (names ++ [last]) with
      | some entry => simp [dots, long, found] at rest
      | none =>
          have same : root.putDir (names ++ [last]) = after := by
            simp only [dots, long, found] at rest
            exact Except.ok.inj rest
          have vacant : root.Vacant (names ++ [last]) := by
            refine ⟨fun items here => ?_, items, ?_⟩
            · rw [found] at here
              cases here
            · rw [List.dropLast_concat]
              exact above
          exact same ▸ root.put_dir_databases _ vacant found

theorem settle_databases (root : Entry) (path : String) : SameDatabases root (root.settle path (root.makeDir path)).2 := by
  cases made : root.makeDir path with
  | ok after => exact root.make_dir_databases after path made
  | error error =>
      rw [settle]
      by_cases there : root.isDirAt path = true
      · rw [if_pos there]
        exact fun _ => rfl
      · rw [if_neg there]
        exact fun _ => rfl

theorem make_dirs_databases (root : Entry) (paths : List String) : SameDatabases root (root.makeDirs paths).2 := by
  induction paths with
  | nil => exact fun _ => rfl
  | cons path above ih =>
      rw [makeDirs]
      by_cases blank : path = ""
      · rw [if_pos blank]
        exact fun _ => rfl
      · rw [if_neg blank]
        -- Only a missing directory above is made first; then the directory itself is tried again.
        split
        · cases made : root.makeDirs above with
          | mk error after =>
              rw [made] at ih
              cases error with
              | some error => exact ih
              | none => exact same_databases_trans root after _ ih (after.settle_databases path)
        · exact root.settle_databases path

end Entry

theorem Database.names_above (root : Entry) (name : String) (names : List String) (found : Database.names? root name = some names) :
    ∃ items, root.find? names.dropLast = some (.dir items) := by
  obtain ⟨_, _, rest⟩ := Option.bind_eq_some_iff.mp found
  obtain ⟨way, _, checked⟩ := Option.bind_eq_some_iff.mp rest
  obtain ⟨_, _, last⟩ := Option.bind_eq_some_iff.mp checked
  cases above : root.find? way.dropLast with
  | none => simp [above] at last
  | some entry =>
      cases entry with
      | file content => simp [above] at last
      | dir items =>
          have same : way = names := by simpa [above] using last
          exact ⟨items, same ▸ above⟩

theorem Database.home_above (root : Entry) (path : String) (names : List String)
    (found : Database.home root path = .ok (.file names)) : ∃ items, root.find? names.dropLast = some (.dir items) := by
  rw [Database.home] at found
  by_cases zero : path.toList.contains '\x00' = true
  · rw [if_pos zero] at found
    cases found
  · rw [if_neg zero] at found
    cases named : Database.nameOf path with
    | mk name passing =>
        simp only [named] at found
        by_cases memory : (passing || name = "" || name = ":memory:") = true
        · simp [memory] at found
        · rw [if_neg memory] at found
          cases way : Database.names? root name with
          | none => simp [way] at found
          | some other =>
              have same : other = names := by simpa [way] using found
              exact Database.names_above root name names (same ▸ way)

namespace Workspace

theorem make_parents_databases (workspace : Workspace) (path : String) :
    Entry.SameDatabases workspace (workspace.makeParents path).2 := by
  rw [makeParents]
  cases Path.parent? path with
  | none => exact fun _ => rfl
  | some parent =>
      by_cases outside : (Path.resolve? parent).isNone = true
      · simp only [outside, if_true]
        exact fun _ => rfl
      · simp only [outside]
        exact Entry.make_dirs_databases workspace (Path.ancestors parent)

theorem tables_found (workspace : Workspace) (path : String) (names : List String) (tables : Tables)
    (found : workspace.tables path (.file names) = .ok tables) :
    (∀ items, workspace.find? names ≠ some (.dir items)) ∧ tables = (workspace.database? names).getD {} := by
  rw [Workspace.tables] at found
  rw [Entry.database?]
  cases here : workspace.find? names with
  | none =>
      simp only [here] at found
      exact ⟨fun _ => nofun, (Except.ok.inj found).symm⟩
  | some entry =>
      cases entry with
      | dir items => simp [here] at found
      | file content =>
          refine ⟨fun _ => nofun, ?_⟩
          cases content with
          | database stored =>
              simp only [here] at found
              exact (Except.ok.inj found).symm
          | source value =>
              by_cases blank : (Content.source value).isBlank = true
              · simp only [here, blank, if_true] at found
                exact (Except.ok.inj found).symm
              · simp [here, blank] at found
          | binary bytes =>
              by_cases blank : (Content.binary bytes).isBlank = true
              · simp only [here, blank, if_true] at found
                exact (Except.ok.inj found).symm
              · simp [here, blank] at found

inductive Opening (workspace : Workspace) (width : Nat) : Except Failure (Home × Store) × Workspace → Prop where
  | nowhere (failure : Failure) (after : Workspace) (same : Entry.SameDatabases workspace after) :
      Opening workspace width (.error failure, after)
  | passing (store : Store) (after : Workspace) (same : Entry.SameDatabases workspace after) :
      Opening workspace width (.ok (.passing, store), after)
  | refused (failure : Failure) (above : Workspace) (names : List String) (same : Entry.SameDatabases workspace above)
      (vacant : above.Vacant names) :
      Opening workspace width (.error failure, above.write names (.database ((above.database? names).getD {})))
  | opened (store : Store) (above : Workspace) (names : List String) (same : Entry.SameDatabases workspace above)
      (vacant : above.Vacant names) (opens : Store.ofTables ((above.database? names).getD {}) width = .ok store) :
      Opening workspace width (.ok (.file names, store), above.write names (.database store.toTables))

theorem open_database_cases (workspace : Workspace) (path : String) (width : Nat) :
    Opening workspace width (workspace.openDatabase path width) := by
  have same := workspace.make_parents_databases path
  rw [openDatabase]
  cases parents : workspace.makeParents path with
  | mk failure above =>
      rw [parents] at same
      cases failure with
      | some failure => exact .nowhere failure above same
      | none =>
          simp only
          cases found : (Database.home above path >>= fun home => above.tables path home >>= fun tables => pure (home, tables)) with
          | error error => exact .nowhere _ above same
          | ok both =>
              obtain ⟨home, located, rest⟩ := (bind_ok_iff _ _ _).mp found
              obtain ⟨tables, stored, paired⟩ := (bind_ok_iff _ _ _).mp rest
              cases paired
              simp only
              cases home with
              | passing =>
                  rw [if_neg (by decide)]
                  cases Store.ofTables tables width with
                  | error error => exact .nowhere _ above same
                  | ok store => exact .passing store above same
              | file names =>
                  obtain ⟨free, here⟩ := above.tables_found path names tables stored
                  have vacant : above.Vacant names := ⟨free, Database.home_above above path names located⟩
                  subst here
                  split
                  · exact .refused _ above names same vacant
                  · cases opens : Store.ofTables ((above.database? names).getD {}) width with
                    | error error => exact .refused _ above names same vacant
                    | ok store => exact .opened store above names same vacant opens

end Workspace
end CodeIndex
