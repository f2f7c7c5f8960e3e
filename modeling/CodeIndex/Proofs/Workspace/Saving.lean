import CodeIndex.Proofs.Text.Lines
import CodeIndex.Proofs.Workspace.Databases

set_option autoImplicit false

namespace CodeIndex.Entry

theorem find_child (root : Entry) (names : List String) (part : String) (items : List (String × Entry))
    (found : root.find? names = some (.dir items)) : root.find? (names ++ [part]) = items.lookup part := by
  rw [find_append, found, Option.bind_some, find?, Entry.items]
  cases items.lookup part <;> rfl

theorem step_dir (root : Entry) (names : List String) (part : String) (items : List (String × Entry))
    (found : root.find? names = some (.dir items)) : root.step names part =
      if Path.idle part then .ok names
      else if part = ".." then (if names.isEmpty then .error .absent else .ok names.dropLast)
      else if !Path.nameFits part then .error .tooLong
      else if (root.find? (names ++ [part])).isSome then .ok (names ++ [part]) else .error .absent := by
  rw [step, found, root.find_child names part items found]

theorem step_from_dir (root : Entry) (names next : List String) (part : String) (steps : root.step names part = .ok next) :
    ∃ items, root.find? names = some (.dir items) := by
  rw [step] at steps
  cases found : root.find? names with
  | none =>
      rw [found] at steps
      cases steps
  | some entry =>
      cases entry with
      | file content =>
          rw [found] at steps
          cases steps
      | dir items => exact ⟨items, rfl⟩

section Written

variable (root : Entry) (place : List String) (free : ∀ items, root.find? place ≠ some (.dir items)) (content : Content)

include free

theorem written_present (names : List String) (entry : Entry) (found : root.find? names = some entry) :
    ∃ later, (root.write place content).find? names = some later := by
  rcases places place names with ⟨rest, rfl⟩ | ⟨name, rest, rfl⟩ | ⟨above, name, wanted, rest, more, rfl, rfl, apart⟩
  · cases rest with
    | nil =>
        rw [List.append_nil]
        exact ⟨_, find_alter_here _ _ place⟩
    | cons name rest =>
        -- Something is below the place, so a directory would be there.
        rw [find_append] at found
        obtain ⟨middle, here, below⟩ := Option.bind_eq_some_iff.mp found
        cases middle with
        | dir items => exact absurd here (free items)
        | file content => cases below
  · obtain ⟨items, there⟩ := find_alter_above (fun _ => .file content) (some root) names name rest
    exact ⟨.dir items, there⟩
  · exact ⟨entry, (find_alter_beside _ (some root) above name wanted rest more apart).trans found⟩

theorem written_dir (names : List String) (items : List (String × Entry)) (found : root.find? names = some (.dir items)) :
    ∃ later, (root.write place content).find? names = some (.dir later) := by
  rcases places place names with ⟨rest, rfl⟩ | ⟨name, rest, rfl⟩ | ⟨above, name, wanted, rest, more, rfl, rfl, apart⟩
  · obtain ⟨above, here⟩ := root.dir_above place rest items found
    exact absurd here (free above)
  · exact find_alter_above (fun _ => .file content) (some root) names name rest
  · exact ⟨items, (find_alter_beside _ (some root) above name wanted rest more apart).trans found⟩

theorem written_step (names next : List String) (part : String) (steps : root.step names part = .ok next) :
    (root.write place content).step names part = .ok next := by
  obtain ⟨items, found⟩ := root.step_from_dir names next part steps
  obtain ⟨later, there⟩ := root.written_dir place free content names items found
  rw [root.step_dir names part items found] at steps
  rw [step_dir _ names part later there]
  cases present : root.find? (names ++ [part]) with
  | some entry =>
      obtain ⟨other, kept⟩ := root.written_present place free content (names ++ [part]) entry present
      rw [present] at steps
      rw [kept]
      exact steps
  | none =>
      -- The step does not go to a new name, so it does not matter whether the name is there now.
      rw [present] at steps
      split at steps
      · rwa [if_pos ‹_›]
      · split at steps
        · rwa [if_neg ‹_›, if_pos ‹_›]
        · split at steps <;> cases steps

theorem written_steps (parts names next : List String) (steps : parts.foldlM root.step names = .ok next) :
    parts.foldlM (root.write place content).step names = .ok next := by
  induction parts generalizing names with
  | nil => exact steps
  | cons part rest ih =>
      rw [List.foldlM_cons] at steps ⊢
      obtain ⟨middle, first, others⟩ := (bind_ok_iff _ _ _).mp steps
      exact (bind_ok_iff _ _ _).mpr ⟨middle, root.written_step place free content names middle part first, ih middle others⟩

end Written

theorem parts_nonempty (path : String) : Path.parts path ≠ [] := by
  simpa [Path.parts] using Text.split_nonempty (· = '/') path.toList

structure Slot (root : Entry) (path : String) (names : List String) (last : String) : Prop where
  checked : Path.check path = .ok ()
  relative : Path.absolute path = false
  parts : Path.parts path = (Path.parts path).dropLast ++ [last]
  way : (Path.parts path).dropLast.foldlM root.step [] = .ok names
  above : ∃ items, root.find? names = some (.dir items)
  named : Path.nameFits last = true ∧ last ≠ "" ∧ last ≠ "." ∧ last ≠ ".."
  vacant : root.isDirAt path = false

theorem save_slot (root after : Entry) (path text : String) (saved : root.save? path text = some after) :
    ∃ names last, Slot root path names last ∧ after = root.write (names ++ [last]) (.source ⟨text, .error .noTree⟩) := by
  rw [save?] at saved
  obtain ⟨_, opened, saved⟩ := Option.bind_eq_some_iff.mp saved
  obtain ⟨⟨names, last⟩, placed, saved⟩ := Option.bind_eq_some_iff.mp saved
  obtain ⟨_, named, saved⟩ := Option.bind_eq_some_iff.mp saved
  cases saved
  have found : root.place path (Path.parts path) = .ok (names, last) := by
    cases done : root.place path (Path.parts path) with
    | error error =>
        rw [done] at placed
        cases placed
    | ok place =>
        rw [done] at placed
        cases placed
        rfl
  obtain ⟨checked, way, ending, above⟩ := root.place_cases path last _ names found
  have outside := (Option.guard_eq_some' _).mp opened
  have fit := (Option.guard_eq_some' _).mp named
  simp only [Bool.and_eq_true, Bool.not_eq_true', List.all_cons, List.all_nil, decide_eq_true_eq, Bool.and_true] at outside fit
  have parts : Path.parts path = (Path.parts path).dropLast ++ [last] := by
    rw [ending, List.getLastD_eq_getLast?, List.getLast?_eq_some_getLast (parts_nonempty path), Option.getD_some,
      List.dropLast_concat_getLast]
  exact ⟨names, last, ⟨checked, outside.1, parts, way, above,
    ⟨fit.1, fit.2.1.symm, fit.2.2.1.symm, fit.2.2.2.symm⟩, outside.2⟩, rfl⟩

section Slots

variable (root : Entry) (path : String) (names : List String) (last : String) (slot : Slot root path names last)

include slot

theorem slot_located (tree : Entry) (way : (Path.parts path).dropLast.foldlM tree.step [] = .ok names) :
    tree.locate path = tree.step names last := by
  have parts : (Path.parts path).foldlM tree.step [] = tree.step names last := by
    rw [slot.parts, List.foldlM_append, way]
    exact bind_pure (tree.step names last)
  rw [locate, slot.checked, parts, slot.relative]
  rfl

theorem slot_free (items : List (String × Entry)) : root.find? (names ++ [last]) ≠ some (.dir items) := by
  intro there
  obtain ⟨inside, above⟩ := slot.above
  have reached : root.step names last = .ok (names ++ [last]) := by
    obtain ⟨fits, empty, dot, dots⟩ := slot.named
    rw [root.step_dir names last inside above, there]
    simp [Path.idle, fits, empty, dot, dots]
  have here : root.at? path = some (.dir items) := by
    rw [at?, slot.checked, slot_located root path names last slot root slot.way, reached]
    exact there
  have dir := slot.vacant
  rw [isDirAt, here] at dir
  cases dir

theorem slot_written (content : Content) : (root.write (names ++ [last]) content).at? path = some (.file content) := by
  have free := slot_free root path names last slot
  obtain ⟨inside, above⟩ := slot.above
  obtain ⟨later, dir⟩ := root.written_dir (names ++ [last]) free content names inside above
  have there : (root.write (names ++ [last]) content).find? (names ++ [last]) = some (.file content) := find_alter_here _ _ _
  have reached : (root.write (names ++ [last]) content).step names last = .ok (names ++ [last]) := by
    obtain ⟨fits, empty, dot, dots⟩ := slot.named
    rw [step_dir _ names last later dir, there]
    simp [Path.idle, fits, empty, dot, dots]
  have way := root.written_steps (names ++ [last]) free content _ _ _ slot.way
  rw [at?, slot.checked, slot_located root path names last slot _ way, reached]
  exact there

end Slots

theorem save_found (root after : Entry) (path text : String) (saved : root.save? path text = some after) :
    after.at? path = some (.file (.source ⟨text, .error .noTree⟩)) := by
  obtain ⟨names, last, slot, rfl⟩ := root.save_slot after path text saved
  exact slot_written root path names last slot _

end CodeIndex.Entry
