import CodeIndex.Proofs.Reconcile.Schedule

set_option autoImplicit false

namespace CodeIndex

def Turns.registrars {n : Nat} (calls : Fin n → Call) (turns : Turns n) : List (Fin n) :=
  turns.begun.filter fun i => (calls i).parses

def Turns.committers {n : Nat} (calls : Fin n → Call) (turns : Turns n) : List (Fin n) :=
  turns.ended.filter fun i => (calls i).parses

section

variable {n : Nat} (calls : Fin n → Call) (mint : Fin n → Nat → ChunkId) (start : Store)

inductive Standing (turns : Turns n) (now : Moment n) (i : Fin n) : Prop
  | waiting (unbegun : i ∉ turns.begun) (unended : i ∉ turns.ended) (progress : now.progress i = .waiting)
  | refused (error : ParseError) (selected : (calls i).selected = .error error) (begun : i ∈ turns.begun)
      (progress : now.progress i = .returned ((calls i).answer start.dimensions))
  | registered (elements : List Element) (file : FileRow) (selected : (calls i).selected = .ok elements)
      (begun : i ∈ turns.begun) (unended : i ∉ turns.ended) (known : file ∈ now.store.files)
      (named : file.path = (calls i).path)
      (progress : now.progress i = .registered ((calls i).prepared (mint i) start.dimensions file.id elements))
  | returned (begun : i ∈ turns.begun) (ended : i ∈ turns.ended)
      (progress : now.progress i = .returned ((calls i).answer start.dimensions))

structure Tracks (turns : Turns n) (now : Moment n) : Prop where
  holds : Holds calls mint start (turns.registrars calls) (turns.committers calls) now.store
  standing : ∀ i, Standing calls mint start turns now i

end

section Step

variable {n : Nat} (calls : Fin n → Call) (mint : Fin n → Nat → ChunkId) (start : Store) (turns : Turns n)
  (now : Moment n)

theorem standing_other (later : Moment n) (i j : Fin n) (different : j ≠ i) (progress : later.progress j = now.progress j)
    (files : ∀ file ∈ now.store.files, ∃ kept ∈ later.store.files, kept.id = file.id ∧ kept.path = file.path)
    (standing : Standing calls mint start turns now j) : Standing calls mint start (turns.next i) later j := by
  have begun : j ∈ (turns.next i).begun ↔ j ∈ turns.begun := by
    obtain ⟨_, same⟩ | ⟨_, _, same⟩ | ⟨_, _, same⟩ := turns.next_cases i <;> simp [same, different]
  have ended : j ∈ (turns.next i).ended ↔ j ∈ turns.ended := by
    obtain ⟨_, same⟩ | ⟨_, _, same⟩ | ⟨_, _, same⟩ := turns.next_cases i <;> simp [same, different]
  cases standing with
  | waiting unbegun unended here => exact .waiting (begun.not.mpr unbegun) (ended.not.mpr unended) (progress.trans here)
  | refused error selected made here => exact .refused error selected (begun.mpr made) (progress.trans here)
  | registered elements file selected made unended known named here =>
      obtain ⟨kept, member, number, path⟩ := files file known
      refine .registered elements kept selected (begun.mpr made) (ended.not.mpr unended) member (path.trans named) ?_
      rw [progress, here, number]
  | returned made done here => exact .returned (begun.mpr made) (ended.mpr done) (progress.trans here)

structure Advanced (i : Fin n) : Prop where
  holds : Holds calls mint start ((turns.next i).registrars calls) ((turns.next i).committers calls)
    (now.turn calls mint i).store
  standing : Standing calls mint start (turns.next i) (now.turn calls mint i) i
  files : ∀ file ∈ now.store.files, ∃ kept ∈ (now.turn calls mint i).store.files,
    kept.id = file.id ∧ kept.path = file.path

variable (holds : Holds calls mint start (turns.registrars calls) (turns.committers calls) now.store) (i : Fin n)

include holds

theorem turn_after_return (same : now.turn calls mint i = now)
    (registrars : (turns.next i).registrars calls = turns.registrars calls)
    (committers : (turns.next i).committers calls = turns.committers calls)
    (standing : Standing calls mint start (turns.next i) now i) : Advanced calls mint start turns now i := by
  refine ⟨?_, same.symm ▸ standing, fun file member => ⟨file, same.symm ▸ member, rfl, rfl⟩⟩
  rw [registrars, committers, same]
  exact holds

theorem first_turn_refused (error : ParseError) (unbegun : i ∉ turns.begun) (waiting : now.progress i = .waiting)
    (selected : (calls i).selected = .error error) : Advanced calls mint start turns now i := by
  have unparsed := (calls i).parses_error error selected
  have next := turns.next_begins i unbegun
  have turned := now.turn_refused calls mint i error waiting selected
  have registrars : (turns.next i).registrars calls = turns.registrars calls := by
    simp [next, Turns.registrars, unparsed]
  refine ⟨?_, ?_, ?_⟩
  · rw [registrars, next, turned]
    exact holds
  · refine .refused error selected (by simp [next]) ?_
    rw [turned, Call.answer, selected]
    exact Function.update_self i _ _
  · intro file member
    rw [turned]
    exact ⟨file, member, rfl, rfl⟩

theorem first_turn_registers (keptStart : WellKept start) (elements : List Element) (unbegun : i ∉ turns.begun)
    (unended : i ∉ turns.ended) (waiting : now.progress i = .waiting) (selected : (calls i).selected = .ok elements) :
    Advanced calls mint start turns now i := by
  have parsed : (calls i).parses = true := (calls i).parses_iff.mpr ⟨elements, selected⟩
  have next := turns.next_begins i unbegun
  have turned := now.turn_registers calls mint i elements waiting selected
  have registrars : (turns.next i).registrars calls = turns.registrars calls ++ [i] := by
    simp [next, Turns.registrars, parsed]
  have committers : (turns.next i).committers calls = turns.committers calls := by rw [next]; rfl
  refine ⟨?_, ?_, ?_⟩
  · rw [registrars, committers, turned]
    exact holds.register keptStart i
  · rw [turned, holds.counts.dimensions]
    refine .registered elements _ selected (by simp [next]) (by rw [next]; exact unended)
      ((now.store.upsert_file_mem holds.kept _ _ _).mpr (.inl rfl)) (now.store.upsert_file_row holds.kept _ _).1 ?_
    exact Function.update_self i _ _
  · rw [turned]
    exact now.store.upsert_file_keeps holds.kept _ _

theorem second_turn_commits (keptStart : WellKept start) (minted : Minted calls mint start) (elements : List Element)
    (file : FileRow) (selected : (calls i).selected = .ok elements) (begun : i ∈ turns.begun) (unended : i ∉ turns.ended)
    (known : file ∈ now.store.files) (named : file.path = (calls i).path)
    (registered : now.progress i = .registered ((calls i).prepared (mint i) start.dimensions file.id elements)) :
    Advanced calls mint start turns now i := by
  have parsed : (calls i).parses = true := (calls i).parses_iff.mpr ⟨elements, selected⟩
  have next := turns.next_ends i begun unended
  have registrars : (turns.next i).registrars calls = turns.registrars calls := by rw [next]; rfl
  have committers : (turns.next i).committers calls = turns.committers calls ++ [i] := by
    simp [next, Turns.committers, parsed]
  have uncommitted : i ∉ turns.committers calls := fun listed => unended (List.mem_of_mem_filter listed)
  have able := holds.commit_replaceable minted i uncommitted file known
  obtain ⟨removed, after, replaced⟩ : ∃ removed after,
      now.store.replaceChunks file.id ((calls i).chunks (mint i) start.dimensions) = .ok (removed, after) :=
    ⟨_, _, (Store.replace_chunks_ok_iff _ _ _ _ _).mpr ⟨able, rfl, rfl⟩⟩
  have committed := Reconciler.commit_ok now.store after
    ((calls i).prepared (mint i) start.dimensions file.id elements) removed replaced
  have turned := now.turn_commits calls mint i _ _ after registered committed
  refine ⟨?_, ?_, ?_⟩
  · rw [registrars, committers, turned]
    exact holds.commit keptStart i file known named after removed replaced minted
      (List.mem_filter.mpr ⟨begun, parsed⟩)
  · refine .returned (by rw [next]; exact begun) (by simp [next]) ?_
    rw [turned, (calls i).answer_prepared (mint i) start.dimensions file.id elements selected]
    exact Function.update_self i _ _
  · intro other member
    rw [turned]
    have files := (now.store.replace_frame after file.id _ removed replaced).files
    exact ⟨other, files.symm ▸ member, rfl, rfl⟩

end Step

theorem turn_advances {n : Nat} (calls : Fin n → Call) (mint : Fin n → Nat → ChunkId) (start : Store) (turns : Turns n)
    (now : Moment n) (keptStart : WellKept start) (minted : Minted calls mint start)
    (tracks : Tracks calls mint start turns now) (i : Fin n) : Advanced calls mint start turns now i := by
  have holds := tracks.holds
  cases tracks.standing i with
  | waiting unbegun unended waiting =>
      cases selected : (calls i).selected with
      | error error => exact first_turn_refused calls mint start turns now holds i error unbegun waiting selected
      | ok elements =>
          exact first_turn_registers calls mint start turns now holds i keptStart elements unbegun unended waiting selected
  | refused error selected begun progress =>
      have unparsed := (calls i).parses_error error selected
      have same := now.turn_returned calls mint i _ progress
      obtain ⟨unbegun, _⟩ | ⟨_, _, next⟩ | ⟨_, _, next⟩ := turns.next_cases i
      · exact absurd begun unbegun
      · apply turn_after_return calls mint start turns now holds i same
        · rw [next]
          rfl
        · simp [next, Turns.committers, unparsed]
        · exact .refused error selected (by rw [next]; exact begun) progress
      · apply turn_after_return calls mint start turns now holds i same
        · rw [next]
        · rw [next]
        · exact .refused error selected (by rw [next]; exact begun) progress
  | registered elements file selected begun unended known named progress =>
      exact second_turn_commits calls mint start turns now holds i keptStart minted elements file selected begun unended known
        named progress
  | returned begun ended progress =>
      have next := turns.next_idle i begun ended
      apply turn_after_return calls mint start turns now holds i (now.turn_returned calls mint i _ progress)
      · rw [next]
      · rw [next]
      · rw [next]
        exact .returned begun ended progress

theorem turn_tracks {n : Nat} (calls : Fin n → Call) (mint : Fin n → Nat → ChunkId) (start : Store) (turns : Turns n)
    (now : Moment n) (keptStart : WellKept start) (minted : Minted calls mint start)
    (tracks : Tracks calls mint start turns now) (i : Fin n) :
    Tracks calls mint start (turns.next i) (now.turn calls mint i) := by
  have advanced := turn_advances calls mint start turns now keptStart minted tracks i
  refine ⟨advanced.holds, fun j => ?_⟩
  by_cases here : j = i
  · rw [here]
    exact advanced.standing
  · exact standing_other calls mint start turns now _ i j here (now.turn_other calls mint i j here) advanced.files
      (tracks.standing j)

theorem run_tracks {n : Nat} (calls : Fin n → Call) (mint : Fin n → Nat → ChunkId) (start : Store)
    (keptStart : WellKept start) (minted : Minted calls mint start) (schedule : List (Fin n)) :
    Tracks calls mint start (Turns.along schedule) (Moment.run calls mint start schedule) := by
  induction schedule using List.reverseRecOn with
  | nil => exact ⟨Holds.start calls mint start keptStart, fun i => .waiting (by simp [Turns.along]) (by simp [Turns.along]) rfl⟩
  | append_singleton schedule i ih =>
      rw [Turns.along_concat, Moment.run_concat]
      exact turn_tracks calls mint start _ _ keptStart minted ih i

end CodeIndex
