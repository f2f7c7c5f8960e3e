import CodeIndex.Proofs.Reconcile.Tracking

set_option autoImplicit false

namespace CodeIndex

section Run

variable {n : Nat} (calls : Fin n → Call) (mint : Fin n → Nat → ChunkId) (start : Store) (keptStart : WellKept start)
  (minted : Minted calls mint start)

include keptStart minted

theorem run_returns (schedule : List (Fin n)) (i : Fin n) (complete : 2 ≤ schedule.count i) :
    (Moment.run calls mint start schedule).progress i = .returned ((calls i).reconcile (mint i) start).1 := by
  rw [(calls i).reconcile_answers (mint i) start keptStart (minted.unused i)]
  have ended := ((Turns.along_counted schedule).ended i).mpr complete
  cases (run_tracks calls mint start keptStart minted schedule).standing i with
  | waiting _ unended _ => exact absurd ended unended
  | refused _ _ _ progress => exact progress
  | registered _ _ _ _ unended _ _ _ => exact absurd ended unended
  | returned _ _ progress => exact progress

theorem in_turn_once_holds (order : List (Fin n)) (once : order.Nodup) :
    Holds calls mint start (order.filter fun i => (calls i).parses) (order.filter fun i => (calls i).parses)
      (Moment.inTurn calls mint start order) := by
  have holds := (run_tracks calls mint start keptStart minted (order.flatMap fun i => [i, i])).holds
  rw [Turns.along_in_turn order once, Moment.run_in_turn calls mint start order once] at holds
  exact holds

theorem in_turn_holds (order : List (Fin n)) (all : order.Perm (List.finRange n)) :
    Holds calls mint start (order.filter fun i => (calls i).parses) (order.filter fun i => (calls i).parses)
      (Moment.inTurn calls mint start order) :=
  in_turn_once_holds calls mint start keptStart minted order (all.nodup_iff.mpr (List.nodup_finRange n))

theorem run_same_contents (schedule : List (Fin n)) (complete : ∀ i, 2 ≤ schedule.count i) (other : Fin n → Nat → ChunkId)
    (otherMinted : Minted calls other start) (order : List (Fin n)) (all : order.Perm (List.finRange n))
    (listings : ∀ path, outcome calls start ((Turns.along schedule).registrars calls) ((Turns.along schedule).committers calls)
      path = outcome calls start (order.filter fun i => (calls i).parses) (order.filter fun i => (calls i).parses) path) :
    SameContents (Moment.run calls mint start schedule).store (Moment.inTurn calls other start order) := by
  have holds := (run_tracks calls mint start keptStart minted schedule).holds
  have otherHolds := in_turn_holds calls other start keptStart otherMinted order all
  obtain ⟨begun, ended⟩ := Turns.complete_perm schedule complete
  have registrars := (begun.trans all.symm).filter fun i => (calls i).parses
  have committers := (ended.trans all.symm).filter fun i => (calls i).parses
  exact holds.same_contents keptStart otherHolds registrars.length_eq (committers.map _).sum_nat listings

end Run

theorem latest_iff {n : Nat} (calls : Fin n → Call) (paths : Function.Injective fun i => (calls i).path) (path : String)
    (made : List (Fin n)) (i : Fin n) : latest calls path made = some i ↔ i ∈ made ∧ (calls i).path = path := by
  refine ⟨latest_made calls path made i, fun ⟨member, named⟩ => ?_⟩
  cases last : latest calls path made with
  | none => exact absurd named ((latest_none_iff calls path made).mp last i member)
  | some j =>
      have same : (calls j).path = (calls i).path := (latest_made calls path made j last).2.trans named.symm
      rw [paths same]

theorem latest_perm {n : Nat} (calls : Fin n → Call) (paths : Function.Injective fun i => (calls i).path) (path : String)
    (first second : List (Fin n)) (same : first.Perm second) : latest calls path first = latest calls path second := by
  apply Option.ext
  intro i
  rw [latest_iff calls paths, latest_iff calls paths, same.mem_iff]

theorem different_files_run_independently {n : Nat} (calls : Fin n → Call) (mint : Fin n → Nat → ChunkId) (start : Store)
    (reachable : Reachable start) (paths : Function.Injective fun i => (calls i).path) (minted : Minted calls mint start)
    (schedule : List (Fin n)) :
    (∀ i, 2 ≤ schedule.count i →
      (Moment.run calls mint start schedule).progress i = .returned ((calls i).reconcile (mint i) start).1 ∧
      ((calls i).parses = true → ∃ result, ((calls i).reconcile (mint i) start).1 = .ok result)) ∧
    (∀ i, schedule.count i ≤ 1 → ∀ file ∈ start.files, file.path = (calls i).path →
      (∃ later ∈ (Moment.run calls mint start schedule).store.files, later.id = file.id ∧ later.path = file.path) ∧
      Untouched start (Moment.run calls mint start schedule).store file.id) ∧
    ((∀ i, 2 ≤ schedule.count i) → ∀ other, Minted calls other start → ∀ order : List (Fin n),
      order.Perm (List.finRange n) → ∃ names : Renaming, names.Keeps start ∧
        names.Carries (Moment.run calls mint start schedule).store (Moment.inTurn calls other start order)) := by
  have kept := reachable_kept start reachable
  have holds := (run_tracks calls mint start kept minted schedule).holds
  refine ⟨fun i complete => ⟨run_returns calls mint start kept minted schedule i complete, fun parsed => ?_⟩, ?_, ?_⟩
  · obtain ⟨elements, selected⟩ := (calls i).parses_iff.mp parsed
    rw [(calls i).reconcile_answers (mint i) start kept (minted.unused i), Call.answer, selected]
    exact ⟨_, rfl⟩
  · intro i stopped file before named
    obtain ⟨later, member, number, path⟩ := holds.files.known file before
    have never : latest calls later.path ((Turns.along schedule).committers calls) = none := by
      rw [latest_none_iff]
      intro j committed same
      have here : j = i := paths ((same.trans path).trans named)
      have ended := ((Turns.along_counted schedule).ended j).mp (List.mem_of_mem_filter committed)
      rw [here] at ended
      omega
    refine ⟨⟨later, member, number, path⟩, ?_⟩
    rw [← number]
    exact holds.chunks.untouched later member never
  · intro complete other otherMinted order all
    have otherHolds := in_turn_holds calls other start kept otherMinted order all
    obtain ⟨begun, ended⟩ := Turns.complete_perm schedule complete
    have registrars (path : String) := latest_perm calls paths path _ _ ((begun.trans all.symm).filter fun i => (calls i).parses)
    have committers (path : String) := latest_perm calls paths path _ _ ((ended.trans all.symm).filter fun i => (calls i).parses)
    have same := run_same_contents calls mint start kept minted schedule complete other otherMinted order all fun path => by
      simp only [outcome, Turns.registrars, Turns.committers, registrars path, committers path]
    refine ⟨_, holds.renaming_keeps kept otherHolds minted same fun path none => ?_,
      Store.same_contents_carried _ _ holds.kept otherHolds.kept same⟩
    exact (committers path).symm.trans none

def neighbours (i : Fin 2) : Call := ⟨wholeFiles, if i = 0 then "a.rb" else "c.rb", plainSource, .ruby⟩

def turnIds (i : Fin 2) (k : Nat) : ChunkId := .serial (10 + 2 * k + i)

def spareIds (i : Fin 2) (k : Nat) : ChunkId := .serial (20 + 2 * k + i)

theorem neighbours_run_independently : ∃ names : Renaming, names.Keeps reconciledBefore ∧
    names.Carries (Moment.run neighbours turnIds reconciledBefore [0, 1, 1, 0]).store
      (Moment.inTurn neighbours spareIds reconciledBefore [1, 0]) := by
  have minted : Minted neighbours turnIds reconciledBefore :=
    ⟨fun i => ⟨by revert i; decide +kernel, by revert i; decide +kernel⟩, by decide +kernel, by decide +kernel⟩
  have spare : Minted neighbours spareIds reconciledBefore :=
    ⟨fun i => ⟨by revert i; decide +kernel, by revert i; decide +kernel⟩, by decide +kernel, by decide +kernel⟩
  have paths : Function.Injective fun i => (neighbours i).path := by
    unfold Function.Injective
    decide
  exact (different_files_run_independently neighbours turnIds reconciledBefore ⟨1, _, _, rfl, rfl⟩ paths minted
    [0, 1, 1, 0]).2.2 (by decide) spareIds spare [1, 0] (by decide)

section OneFile

variable {n : Nat} (calls : Fin n → Call) (mint : Fin n → Nat → ChunkId) (start : Store) (path : String)
  (shared : ∀ i, (calls i).path = path)

include shared

theorem latest_shared (made : List (Fin n)) : latest calls path made = made.getLast? := by
  rw [latest, ← List.head?_reverse]
  cases made.reverse with
  | nil => rfl
  | cons i rest => simp [shared i]

theorem latest_elsewhere (other : String) (different : other ≠ path) (made : List (Fin n)) :
    latest calls other made = none := by
  rw [latest_none_iff]
  intro i _ same
  exact different (same.symm.trans (shared i))

-- With one path the outcome is told by the last to register and the last to commit.
theorem outcome_shared (registered committed : List (Fin n)) (registrar committer : Fin n)
    (lastRegistered : registered.getLast? = some registrar) (lastCommitted : committed.getLast? = some committer) :
    outcome calls start registered committed path =
      some ⟨(calls registrar).language.name, (calls committer).passages start.dimensions⟩ := by
  simp only [outcome, latest_shared calls path shared, lastRegistered, lastCommitted, Option.map_some, Option.getD_some]

theorem outcome_elsewhere (registered committed : List (Fin n)) (other : String) (different : other ≠ path) :
    outcome calls start registered committed other = start.listing? other := by
  simp only [outcome, latest_elsewhere calls path shared other different]

variable (keptStart : WellKept start) (minted : Minted calls mint start) (schedule : List (Fin n))
  (complete : ∀ i, 2 ≤ schedule.count i) (registrar committer : Fin n)
  (lastRegistered : ((Turns.along schedule).registrars calls).getLast? = some registrar)
  (lastCommitted : ((Turns.along schedule).committers calls).getLast? = some committer)

include keptStart minted lastRegistered lastCommitted

theorem shared_listing : (Moment.run calls mint start schedule).store.listing? path =
    some ⟨(calls registrar).language.name, (calls committer).passages start.dimensions⟩ := by
  rw [(run_tracks calls mint start keptStart minted schedule).holds.listing keptStart,
    outcome_shared calls start path shared _ _ registrar committer lastRegistered lastCommitted]

include complete

-- Some order one after another leaves the same exactly if one call has both the language and the passages.
theorem shared_serial_iff (other : Fin n → Nat → ChunkId) (otherMinted : Minted calls other start) :
    (∃ (order : List (Fin n)) (names : Renaming), order.Perm (List.finRange n) ∧
      names.Carries (Moment.run calls mint start schedule).store (Moment.inTurn calls other start order)) ↔
    ∃ i, (calls i).parses = true ∧ (calls i).language.name = (calls registrar).language.name ∧
      (calls i).passages start.dimensions = (calls committer).passages start.dimensions := by
  have holds := (run_tracks calls mint start keptStart minted schedule).holds
  have listing := shared_listing calls mint start path shared keptStart minted schedule registrar committer lastRegistered
    lastCommitted
  constructor
  · rintro ⟨order, names, all, carried⟩
    have otherHolds := in_turn_holds calls other start keptStart otherMinted order all
    have parsed : registrar ∈ order.filter fun i => (calls i).parses := by
      have made := List.mem_filter.mp (List.mem_of_getLast? lastRegistered)
      exact List.mem_filter.mpr ⟨all.mem_iff.mpr (List.mem_finRange _), made.2⟩
    obtain ⟨last, found⟩ := Option.isSome_iff_exists.mp (List.getLast?_isSome.mpr (List.ne_nil_of_mem parsed))
    have same := Store.carried_listing _ _ holds.kept otherHolds.kept names carried path
    rw [listing, otherHolds.listing keptStart, outcome_shared calls start path shared _ _ last last found found] at same
    obtain ⟨language, passages⟩ := Listing.mk.inj (Option.some.inj same)
    exact ⟨last, (List.mem_filter.mp (List.mem_of_getLast? found)).2, language.symm, passages.symm⟩
  · rintro ⟨i, parsed, language, passages⟩
    have all : ((List.finRange n).erase i ++ [i]).Perm (List.finRange n) :=
      (List.perm_append_singleton i _).trans (List.perm_cons_erase (List.mem_finRange i)).symm
    have otherHolds := in_turn_holds calls other start keptStart otherMinted _ all
    have last : (((List.finRange n).erase i ++ [i]).filter fun j => (calls j).parses).getLast? = some i := by
      simp [List.filter_append, parsed]
    have same := run_same_contents calls mint start keptStart minted schedule complete other otherMinted _ all fun here => by
      by_cases own : here = path
      · rw [own, outcome_shared calls start path shared _ _ registrar committer lastRegistered lastCommitted,
          outcome_shared calls start path shared _ _ i i last last, language, passages]
      · rw [outcome_elsewhere calls start path shared _ _ here own, outcome_elsewhere calls start path shared _ _ here own]
    exact ⟨_, _, all, Store.same_contents_carried _ _ holds.kept otherHolds.kept same⟩

end OneFile

theorem one_file_last_turns_win {n : Nat} (calls : Fin n → Call) (mint : Fin n → Nat → ChunkId) (start : Store)
    (reachable : Reachable start) (path : String) (shared : ∀ i, (calls i).path = path) (minted : Minted calls mint start)
    (schedule : List (Fin n)) (complete : ∀ i, 2 ≤ schedule.count i) (registrar committer : Fin n)
    (lastRegistered : ((Turns.along schedule).registrars calls).getLast? = some registrar)
    (lastCommitted : ((Turns.along schedule).committers calls).getLast? = some committer) :
    (∀ i, (Moment.run calls mint start schedule).progress i = .returned ((calls i).reconcile (mint i) start).1) ∧
    (Moment.run calls mint start schedule).store.listing? path =
      some ⟨(calls registrar).language.name, (calls committer).passages start.dimensions⟩ ∧
    (∀ other, other ≠ path → (Moment.run calls mint start schedule).store.listing? other = start.listing? other) ∧
    ∀ other, Minted calls other start →
      ((∃ (order : List (Fin n)) (names : Renaming), order.Perm (List.finRange n) ∧
        names.Carries (Moment.run calls mint start schedule).store (Moment.inTurn calls other start order)) ↔
      ∃ i, (calls i).parses = true ∧ (calls i).language.name = (calls registrar).language.name ∧
        (calls i).passages start.dimensions = (calls committer).passages start.dimensions) := by
  have kept := reachable_kept start reachable
  refine ⟨fun i => run_returns calls mint start kept minted schedule i (complete i),
    shared_listing calls mint start path shared kept minted schedule registrar committer lastRegistered lastCommitted, ?_,
    shared_serial_iff calls mint start path shared kept minted schedule complete registrar committer lastRegistered
      lastCommitted⟩
  intro other different
  rw [(run_tracks calls mint start kept minted schedule).holds.listing kept,
    outcome_elsewhere calls start path shared _ _ other different]

def rivals (i : Fin 2) : Call := ⟨wholeFiles, "a.rb", plainSource, if i = 0 then .ruby else .unsupported⟩

theorem rivals_minted : Minted rivals turnIds reconciledBefore :=
  ⟨fun i => ⟨by revert i; decide +kernel, by revert i; decide +kernel⟩, by decide +kernel, by decide +kernel⟩

theorem rivals_in_step : ∃ (order : List (Fin 2)) (names : Renaming), order.Perm (List.finRange 2) ∧
    names.Carries (Moment.run rivals turnIds reconciledBefore [0, 1, 0, 1]).store
      (Moment.inTurn rivals turnIds reconciledBefore order) := by
  have whole := one_file_last_turns_win rivals turnIds reconciledBefore ⟨1, _, _, rfl, rfl⟩ "a.rb" (fun _ => rfl)
    rivals_minted [0, 1, 0, 1] (by decide) 1 1 (by decide +kernel) (by decide +kernel)
  exact (whole.2.2.2 turnIds rivals_minted).mpr ⟨1, by decide +kernel, rfl, rfl⟩

-- The second call runs within the first: the file is left with the language of the second call and
-- the chunk of the first, as after no order one after another.
theorem rivals_out_of_step : (∀ i, ([0, 1, 1, 0] : List (Fin 2)).count i = 2) ∧
    (∀ i, ∃ result, (Moment.run rivals turnIds reconciledBefore [0, 1, 1, 0]).progress i = .returned (.ok result)) ∧
    ∀ other, Minted rivals other reconciledBefore → ¬ ∃ (order : List (Fin 2)) (names : Renaming),
      order.Perm (List.finRange 2) ∧ names.Carries (Moment.run rivals turnIds reconciledBefore [0, 1, 1, 0]).store
        (Moment.inTurn rivals other reconciledBefore order) := by
  have kept := reachable_kept reconciledBefore ⟨1, _, _, rfl, rfl⟩
  have complete : ∀ i, 2 ≤ ([0, 1, 1, 0] : List (Fin 2)).count i := by decide
  have unlike : ∀ i, (rivals i).language.name = (rivals 1).language.name →
      ((rivals i).passages reconciledBefore.dimensions).length ≠ ((rivals 0).passages reconciledBefore.dimensions).length := by
    decide +kernel
  refine ⟨by decide, fun i => ?_, fun other minted => ?_⟩
  · have parsed : (rivals i).parses = true := by
      revert i
      decide +kernel
    obtain ⟨elements, selected⟩ := (rivals i).parses_iff.mp parsed
    have returned := run_returns rivals turnIds reconciledBefore kept rivals_minted [0, 1, 1, 0] i (complete i)
    rw [(rivals i).reconcile_answers _ _ kept (rivals_minted.unused i), Call.answer, selected] at returned
    exact ⟨_, returned⟩
  · rw [shared_serial_iff rivals turnIds reconciledBefore "a.rb" (fun _ => rfl) kept rivals_minted [0, 1, 1, 0] complete 1 0
      (by decide +kernel) (by decide +kernel) other minted]
    rintro ⟨i, _, language, passages⟩
    exact unlike i language (congrArg List.length passages)

end CodeIndex
