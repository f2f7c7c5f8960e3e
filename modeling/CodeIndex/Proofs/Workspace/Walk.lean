import Mathlib.Data.List.Nodup
import CodeIndex.Workspace.Walk

set_option autoImplicit false

namespace CodeIndex

structure PlainName (name : String) : Prop where
  nonempty : name.toList ≠ []
  unslashed : '/' ∉ name.toList

inductive Tidy : List (String × Entry) → Prop
  | nil : Tidy []
  | file (name : String) (content : Content) (rest : List (String × Entry)) (plain : PlainName name)
      (own : name ∉ rest.map Prod.fst) (others : Tidy rest) : Tidy ((name, .file content) :: rest)
  | dir (name : String) (items rest : List (String × Entry)) (plain : PlainName name)
      (own : name ∉ rest.map Prod.fst) (below : Tidy items) (others : Tidy rest) : Tidy ((name, .dir items) :: rest)

theorem tidy_plain (items : List (String × Entry)) (tidy : Tidy items) (name : String)
    (listed : name ∈ items.map Prod.fst) : PlainName name := by
  induction tidy with
  | nil => cases listed
  | file first content rest plain own others ih =>
      rcases List.mem_cons.mp listed with rfl | later
      · exact plain
      · exact ih later
  | dir first items rest plain own below others ihBelow ih =>
      rcases List.mem_cons.mp listed with rfl | later
      · exact plain
      · exact ih later

theorem tidy_lookup (items : List (String × Entry)) (tidy : Tidy items) (name : String) (entry : Entry)
    (found : items.lookup name = some entry) : Tidy entry.items := by
  induction tidy with
  | nil => cases found
  | file first content rest plain own others ih =>
      rw [List.lookup_cons] at found
      split at found
      · cases found
        exact .nil
      · exact ih found
  | dir first items rest plain own below others ihBelow ih =>
      rw [List.lookup_cons] at found
      split at found
      · cases found
        exact below
      · exact ih found

theorem tidy_find (entry : Entry) (tidy : Tidy entry.items) (names : List String) (below : Entry)
    (found : entry.find? names = some below) : Tidy below.items := by
  induction names generalizing entry with
  | nil =>
      cases found
      exact tidy
  | cons name names ih =>
      obtain ⟨next, here, later⟩ := Option.bind_eq_some_iff.mp found
      exact ih next (tidy_lookup entry.items tidy name next here) later

def Path.base (path : String) : List Char :=
  if path.toList.getLast? = some '/' then path.toList else path.toList ++ ['/']

theorem join_plain (path name : String) (nonempty : path.toList ≠ []) (plain : PlainName name) :
    (Path.join path name).toList = Path.base path ++ name.toList := by
  have relative : Path.absolute name = false := by
    rw [Path.absolute, decide_eq_false_iff_not]
    intro slash
    exact plain.unslashed (List.mem_of_mem_head? slash)
  rw [Path.join, relative, Path.base]
  cases last : path.toList.getLast? with
  | none => exact absurd (List.getLast?_eq_none_iff.mp last) nonempty
  | some c =>
      by_cases slash : c = '/'
      · simp [slash]
      · simp [slash]

theorem join_base (path name : String) (nonempty : path.toList ≠ []) (plain : PlainName name) :
    Path.base (Path.join path name) = Path.base path ++ name.toList ++ ['/'] := by
  have joined := join_plain path name nonempty plain
  have last : (Path.join path name).toList.getLast? ≠ some '/' := by
    rw [joined, List.getLast?_append_of_ne_nil _ plain.nonempty]
    intro slash
    exact plain.unslashed (List.mem_of_getLast? slash)
  rw [Path.base, if_neg last, joined]

theorem join_nonempty (path name : String) (nonempty : path.toList ≠ []) (plain : PlainName name) :
    (Path.join path name).toList ≠ [] := by
  rw [join_plain path name nonempty plain]
  simp [plain.nonempty]

def Within (path name : String) (file : FoundFile) : Prop :=
  ∃ rest : List Char, file.path.toList = Path.base path ++ (name.toList ++ rest) ∧ (rest = [] ∨ ∃ more, rest = '/' :: more)

theorem name_read (name : String) (plain : PlainName name) (rest : List Char) (ends : rest = [] ∨ ∃ more, rest = '/' :: more) :
    (name.toList ++ rest).takeWhile (· ≠ '/') = name.toList := by
  have all : ∀ c ∈ name.toList, decide (c ≠ '/') = true := fun c member =>
    decide_eq_true fun slash => plain.unslashed (slash ▸ member)
  rw [List.takeWhile_append_of_pos all]
  rcases ends with rfl | ⟨more, rfl⟩
  · simp
  · simp

theorem within_same_name (path first second : String) (firstPlain : PlainName first) (secondPlain : PlainName second)
    (file other : FoundFile) (here : Within path first file) (there : Within path second other)
    (same : file.path = other.path) : first = second := by
  obtain ⟨rest, path, ends⟩ := here
  obtain ⟨otherRest, otherPath, otherEnds⟩ := there
  rw [same, otherPath] at path
  have names := congrArg (List.takeWhile (· ≠ '/')) (List.append_cancel_left path)
  rw [name_read second secondPlain otherRest otherEnds, name_read first firstPlain rest ends] at names
  exact (String.toList_inj.mp names).symm

theorem within_own (path name : String) (nonempty : path.toList ≠ []) (plain : PlainName name) (content : Content) :
    Within path name ⟨Path.join path name, content⟩ := by
  refine ⟨[], ?_, .inl rfl⟩
  rw [List.append_nil]
  exact join_plain path name nonempty plain

theorem within_join (path name inner : String) (nonempty : path.toList ≠ []) (plain : PlainName name) (file : FoundFile)
    (within : Within (Path.join path name) inner file) : Within path name file := by
  obtain ⟨rest, path, _⟩ := within
  refine ⟨'/' :: (inner.toList ++ rest), ?_, .inr ⟨_, rfl⟩⟩
  rw [path, join_base _ name nonempty plain]
  simp

namespace Walk

variable (root : Entry) (deep : Bool)

theorem files_within (items : List (String × Entry)) (tidy : Tidy items) (levels : List Ignore.Level) (path : String)
    (nonempty : path.toList ≠ []) (file : FoundFile) (found : file ∈ files root deep levels path items) :
    ∃ name ∈ items.map Prod.fst, Within path name file := by
  induction tidy generalizing levels path with
  | nil => simp [files] at found
  | file name content rest plain own others ih =>
      rw [files] at found
      rcases List.mem_append.mp found with here | later
      · split at here
        · cases here
        · rw [List.mem_singleton.mp here]
          exact ⟨name, List.mem_cons_self, within_own path name nonempty plain content⟩
      · obtain ⟨other, listed, within⟩ := ih levels path nonempty later
        exact ⟨other, List.mem_cons_of_mem _ listed, within⟩
  | dir name items rest plain own below others ihBelow ih =>
      rw [files] at found
      rcases List.mem_append.mp found with here | later
      · split at here
        · cases here
        · obtain ⟨inner, _, within⟩ := ihBelow _ _ (join_nonempty path name nonempty plain) here
          exact ⟨name, List.mem_cons_self, within_join path name inner nonempty plain file within⟩
      · obtain ⟨other, listed, within⟩ := ih levels path nonempty later
        exact ⟨other, List.mem_cons_of_mem _ listed, within⟩

-- The files of one entry and those of the entries after it: what stands below another name has another path.
theorem paths_apart (path name : String) (rest : List (String × Entry)) (tidy : Tidy rest) (levels : List Ignore.Level)
    (nonempty : path.toList ≠ []) (plain : PlainName name) (own : name ∉ rest.map Prod.fst) (here : List FoundFile)
    (within : ∀ file ∈ here, Within path name file) (distinct : (here.map (·.path)).Nodup)
    (others : ((files root deep levels path rest).map (·.path)).Nodup) :
    ((here ++ files root deep levels path rest).map (·.path)).Nodup := by
  rw [List.map_append]
  refine distinct.append others fun found left right => ?_
  obtain ⟨file, member, rfl⟩ := List.mem_map.mp left
  obtain ⟨other, later, same⟩ := List.mem_map.mp right
  obtain ⟨next, listed, there⟩ := files_within root deep rest tidy levels path nonempty other later
  have equal := within_same_name path next name (tidy_plain rest tidy next listed) plain other file there (within file member) same
  exact own (equal ▸ listed)

theorem files_paths_distinct (items : List (String × Entry)) (tidy : Tidy items) (levels : List Ignore.Level) (path : String)
    (nonempty : path.toList ≠ []) : ((files root deep levels path items).map (·.path)).Nodup := by
  induction tidy generalizing levels path with
  | nil => simp [files]
  | file name content rest plain own others ih =>
      rw [files]
      apply paths_apart root deep path name rest others levels nonempty plain own _ _ _ (ih levels path nonempty)
      · intro file here
        split at here
        · cases here
        · rw [List.mem_singleton.mp here]
          exact within_own path name nonempty plain content
      · split <;> simp
  | dir name items rest plain own below others ihBelow ih =>
      have inner := join_nonempty path name nonempty plain
      rw [files]
      apply paths_apart root deep path name rest others levels nonempty plain own _ _ _ (ih levels path nonempty)
      · intro file here
        split at here
        · cases here
        · obtain ⟨next, _, within⟩ := files_within root deep items below _ _ inner file here
          exact within_join path name next nonempty plain file within
      · split
        · simp
        · exact ihBelow _ _ inner

end Walk

theorem locate_nonempty (workspace : Workspace) (path : String) (names : List String)
    (located : workspace.locate path = .ok names) : path.toList ≠ [] := by
  intro empty
  have none : path = "" := String.toList_inj.mp empty
  rw [none] at located
  cases located

theorem walk_paths_distinct (workspace : Workspace) (tidy : Tidy workspace.items) (path : String) (deep : Bool) :
    ((workspace.walk path deep).map (·.path)).Nodup := by
  rw [Workspace.walk]
  cases located : workspace.locate path with
  | error error => exact List.nodup_nil
  | ok names =>
      have nonempty := locate_nonempty workspace path names located
      dsimp only
      cases found : workspace.find? names with
      | none => exact List.nodup_nil
      | some entry =>
          cases entry with
          | file content => exact List.nodup_singleton _
          | dir items => exact Walk.files_paths_distinct workspace deep items (tidy_find workspace tidy names _ found) _ path nonempty

end CodeIndex
