import Mathlib.Data.List.Induction
import CodeIndex.Proofs.Reconcile.Listing

set_option autoImplicit false

namespace CodeIndex

inductive Progress where
  | waiting
  | registered (prepared : Prepared)
  | returned (answer : Except ReconcileError ReconcileResult)

structure Moment (n : Nat) where
  store : Store
  progress : Fin n → Progress

namespace Call

def reconcile (call : Call) (fresh : Nat → ChunkId) (store : Store) : Except ReconcileError ReconcileResult × Store :=
  call.reconciler.reconcile fresh store call.path call.source call.language

def prepared (call : Call) (fresh : Nat → ChunkId) (width : Nat) (fileId : Int) (elements : List Element) : Prepared :=
  ⟨fileId, call.chunks fresh width, elements.length - (call.embedded width).length⟩

def answer (call : Call) (width : Nat) : Except ReconcileError ReconcileResult :=
  match call.selected with
  | .error error => .error (.parse error)
  | .ok elements => .ok ⟨1, (call.embedded width).length, elements.length - (call.embedded width).length⟩

theorem parses_iff (call : Call) : call.parses = true ↔ ∃ elements, call.selected = .ok elements := by
  rw [parses]
  cases call.selected with
  | ok elements => exact ⟨fun _ => ⟨elements, rfl⟩, fun _ => rfl⟩
  | error error => exact ⟨(nomatch ·), fun ⟨_, same⟩ => nomatch same⟩

theorem parses_error (call : Call) (error : ParseError) (selected : call.selected = .error error) : call.parses = false := by
  rw [parses, selected]
  rfl

theorem register_prepared (call : Call) (fresh : Nat → ChunkId) (store : Store) (elements : List Element)
    (selected : call.selected = .ok elements) :
    call.reconciler.register fresh store call.path call.language elements =
      (call.prepared fresh store.dimensions (store.upsertFile call.path call.language.name).1.id elements,
       (store.upsertFile call.path call.language.name).2) := by
  rw [prepared, chunks, embedded, selected, Reconciler.register_prepares, ← Reconciler.embed_all_elements, List.length_map]

theorem answer_prepared (call : Call) (fresh : Nat → ChunkId) (width : Nat) (fileId : Int) (elements : List Element)
    (selected : call.selected = .ok elements) :
    call.answer width = .ok ⟨1, (call.prepared fresh width fileId elements).chunks.length,
      (call.prepared fresh width fileId elements).failed⟩ := by
  rw [answer, selected]
  simp only [prepared, chunks, Reconciler.newChunks, List.length_mapIdx]

theorem reconcile_answers (call : Call) (fresh : Nat → ChunkId) (store : Store) (kept : WellKept store)
    (unused : Unused store (call.drawn fresh store.dimensions)) :
    (call.reconcile fresh store).1 = call.answer store.dimensions := by
  obtain ⟨failure, selected, done⟩ | ⟨elements, removed, after, selected, _, done⟩ :=
    call.reconciler.reconcile_cases store kept fresh call.path call.source call.language unused
  · have here : call.selected = .error failure := selected
    rw [reconcile, done, answer, here]
  · have here : call.selected = .ok elements := selected
    rw [reconcile, done, answer, here, embedded, here]
    simp only [← Reconciler.embed_all_elements, List.length_map]

end Call

structure Turns (n : Nat) where
  begun : List (Fin n)
  ended : List (Fin n)

namespace Turns

variable {n : Nat}

def next (turns : Turns n) (i : Fin n) : Turns n :=
  if i ∉ turns.begun then { turns with begun := turns.begun ++ [i] }
  else if i ∉ turns.ended then { turns with ended := turns.ended ++ [i] }
  else turns

def along (schedule : List (Fin n)) : Turns n := schedule.foldl next ⟨[], []⟩

theorem along_concat (schedule : List (Fin n)) (i : Fin n) : along (schedule ++ [i]) = (along schedule).next i := by
  rw [along, List.foldl_append]
  rfl

theorem next_begins (turns : Turns n) (i : Fin n) (unbegun : i ∉ turns.begun) :
    turns.next i = { turns with begun := turns.begun ++ [i] } := by
  rw [next, if_pos unbegun]

theorem next_ends (turns : Turns n) (i : Fin n) (begun : i ∈ turns.begun) (unended : i ∉ turns.ended) :
    turns.next i = { turns with ended := turns.ended ++ [i] } := by
  rw [next, if_neg (not_not.mpr begun), if_pos unended]

theorem next_idle (turns : Turns n) (i : Fin n) (begun : i ∈ turns.begun) (ended : i ∈ turns.ended) :
    turns.next i = turns := by
  rw [next, if_neg (not_not.mpr begun), if_neg (not_not.mpr ended)]

theorem next_cases (turns : Turns n) (i : Fin n) :
    (i ∉ turns.begun ∧ turns.next i = { turns with begun := turns.begun ++ [i] }) ∨
    (i ∈ turns.begun ∧ i ∉ turns.ended ∧ turns.next i = { turns with ended := turns.ended ++ [i] }) ∨
    (i ∈ turns.begun ∧ i ∈ turns.ended ∧ turns.next i = turns) := by
  by_cases begun : i ∈ turns.begun
  · by_cases ended : i ∈ turns.ended
    · exact .inr (.inr ⟨begun, ended, turns.next_idle i begun ended⟩)
    · exact .inr (.inl ⟨begun, ended, turns.next_ends i begun ended⟩)
  · exact .inl ⟨begun, turns.next_begins i begun⟩

structure Counted (turns : Turns n) (schedule : List (Fin n)) : Prop where
  begunOnce : turns.begun.Nodup
  endedOnce : turns.ended.Nodup
  begun : ∀ i, i ∈ turns.begun ↔ 1 ≤ schedule.count i
  ended : ∀ i, i ∈ turns.ended ↔ 2 ≤ schedule.count i

theorem next_counted (turns : Turns n) (schedule : List (Fin n)) (counted : Counted turns schedule) (i : Fin n) :
    Counted (turns.next i) (schedule ++ [i]) := by
  have appended (made : List (Fin n)) (once : made.Nodup) (absent : i ∉ made) : (made ++ [i]).Nodup :=
    once.append (List.nodup_singleton i) (List.disjoint_singleton.mpr absent)
  have own : (schedule ++ [i]).count i = schedule.count i + 1 := by simp
  have other (j : Fin n) (different : j ≠ i) : (schedule ++ [i]).count j = schedule.count j := by
    simp [List.count_append, different.symm]
  have begun := counted.begun i
  have ended := counted.ended i
  obtain ⟨fresh, same⟩ | ⟨started, unfinished, same⟩ | ⟨started, finished, same⟩ := turns.next_cases i
  · rw [same]
    rw [begun] at fresh
    refine ⟨appended _ counted.begunOnce (begun.not.mpr fresh), counted.endedOnce, fun j => ?_, fun j => ?_⟩
    · by_cases here : j = i
      · simp [here, own]
      · simp [here, other j here, counted.begun j]
    · by_cases here : j = i
      · rw [here, own, ended]
        omega
      · rw [other j here]
        exact counted.ended j
  · rw [same]
    rw [begun] at started
    refine ⟨counted.begunOnce, appended _ counted.endedOnce unfinished, fun j => ?_, fun j => ?_⟩
    · by_cases here : j = i
      · rw [here, own, begun]
        omega
      · rw [other j here]
        exact counted.begun j
    · by_cases here : j = i
      · simp [here, own, started]
      · simp [here, other j here, counted.ended j]
  · rw [same]
    rw [ended] at finished
    refine ⟨counted.begunOnce, counted.endedOnce, fun j => ?_, fun j => ?_⟩
    · by_cases here : j = i
      · rw [here, own, begun]
        omega
      · rw [other j here]
        exact counted.begun j
    · by_cases here : j = i
      · rw [here, own, ended]
        omega
      · rw [other j here]
        exact counted.ended j

theorem along_counted (schedule : List (Fin n)) : Counted (along schedule) schedule := by
  induction schedule using List.reverseRecOn with
  | nil => exact ⟨List.nodup_nil, List.nodup_nil, by simp [along], by simp [along]⟩
  | append_singleton schedule i ih =>
      rw [along_concat]
      exact next_counted _ schedule ih i

theorem along_in_turn (order : List (Fin n)) (once : order.Nodup) :
    along (order.flatMap fun i => [i, i]) = ⟨order, order⟩ := by
  induction order using List.reverseRecOn with
  | nil => rfl
  | append_singleton order i ih =>
      obtain ⟨before, _, apart⟩ := List.nodup_append.mp once
      have absent : i ∉ order := fun member => apart i member i (List.mem_singleton.mpr rfl) rfl
      rw [List.flatMap_append]
      change along (_ ++ ([i] ++ [i])) = _
      rw [← List.append_assoc, along_concat, along_concat, ih before]
      simp [next, absent]

theorem complete_perm (schedule : List (Fin n)) (complete : ∀ i, 2 ≤ schedule.count i) :
    (along schedule).begun.Perm (List.finRange n) ∧ (along schedule).ended.Perm (List.finRange n) := by
  have counted := along_counted schedule
  constructor
  · refine (List.perm_ext_iff_of_nodup counted.begunOnce (List.nodup_finRange n)).mpr fun i => ?_
    exact ⟨fun _ => List.mem_finRange i, fun _ => (counted.begun i).mpr (Nat.le_of_succ_le (complete i))⟩
  · refine (List.perm_ext_iff_of_nodup counted.endedOnce (List.nodup_finRange n)).mpr fun i => ?_
    exact ⟨fun _ => List.mem_finRange i, fun _ => (counted.ended i).mpr (complete i)⟩

end Turns

namespace Moment

variable {n : Nat} (calls : Fin n → Call) (mint : Fin n → Nat → ChunkId)

def turn (now : Moment n) (i : Fin n) : Moment n :=
  match now.progress i with
  | .waiting =>
      match (calls i).selected with
      | .error error => ⟨now.store, Function.update now.progress i (.returned (.error (.parse error)))⟩
      | .ok elements =>
          let (prepared, registered) :=
            (calls i).reconciler.register (mint i) now.store (calls i).path (calls i).language elements
          ⟨registered, Function.update now.progress i (.registered prepared)⟩
  | .registered prepared =>
      match Reconciler.commit now.store prepared with
      | .error error => ⟨now.store, Function.update now.progress i (.returned (.error (.store error)))⟩
      | .ok (result, swapped) => ⟨swapped, Function.update now.progress i (.returned (.ok result))⟩
  | .returned _ => now

def run (start : Store) (schedule : List (Fin n)) : Moment n :=
  schedule.foldl (turn calls mint) ⟨start, fun _ => .waiting⟩

theorem run_concat (start : Store) (schedule : List (Fin n)) (i : Fin n) :
    run calls mint start (schedule ++ [i]) = (run calls mint start schedule).turn calls mint i := by
  rw [run, List.foldl_append]
  rfl

def inTurn (start : Store) (order : List (Fin n)) : Store :=
  order.foldl (fun store i => ((calls i).reconcile (mint i) store).2) start

theorem turn_other (now : Moment n) (i j : Fin n) (different : j ≠ i) :
    (now.turn calls mint i).progress j = now.progress j := by
  rw [turn]
  cases now.progress i with
  | waiting =>
      cases (calls i).selected with
      | error error => exact Function.update_of_ne different _ _
      | ok elements => exact Function.update_of_ne different _ _
  | registered prepared =>
      dsimp only
      cases Reconciler.commit now.store prepared with
      | error error => exact Function.update_of_ne different _ _
      | ok done => exact Function.update_of_ne different _ _
  | returned answer => rfl

theorem run_waiting (start : Store) (schedule : List (Fin n)) (i : Fin n) (absent : i ∉ schedule) :
    (run calls mint start schedule).progress i = .waiting := by
  induction schedule using List.reverseRecOn with
  | nil => rfl
  | append_singleton schedule j ih =>
      rw [List.mem_append, List.mem_singleton, not_or] at absent
      rw [run_concat, turn_other calls mint _ j i absent.2]
      exact ih absent.1

theorem turn_refused (now : Moment n) (i : Fin n) (error : ParseError) (waiting : now.progress i = .waiting)
    (selected : (calls i).selected = .error error) : now.turn calls mint i =
      ⟨now.store, Function.update now.progress i (.returned (.error (.parse error)))⟩ := by
  rw [turn, waiting]
  simp only [selected]

theorem turn_registers (now : Moment n) (i : Fin n) (elements : List Element) (waiting : now.progress i = .waiting)
    (selected : (calls i).selected = .ok elements) : now.turn calls mint i =
      ⟨(now.store.upsertFile (calls i).path (calls i).language.name).2,
       Function.update now.progress i (.registered ((calls i).prepared (mint i) now.store.dimensions
        (now.store.upsertFile (calls i).path (calls i).language.name).1.id elements))⟩ := by
  rw [turn, waiting]
  simp only [selected, (calls i).register_prepared (mint i) now.store elements selected]

theorem turn_commits (now : Moment n) (i : Fin n) (prepared : Prepared) (result : ReconcileResult) (swapped : Store)
    (registered : now.progress i = .registered prepared)
    (committed : Reconciler.commit now.store prepared = .ok (result, swapped)) :
    now.turn calls mint i = ⟨swapped, Function.update now.progress i (.returned (.ok result))⟩ := by
  rw [turn, registered]
  simp only [committed]

theorem turn_fails (now : Moment n) (i : Fin n) (prepared : Prepared) (error : StoreError)
    (registered : now.progress i = .registered prepared) (failed : Reconciler.commit now.store prepared = .error error) :
    now.turn calls mint i = ⟨now.store, Function.update now.progress i (.returned (.error (.store error)))⟩ := by
  rw [turn, registered]
  simp only [failed]

theorem turn_returned (now : Moment n) (i : Fin n) (answer : Except ReconcileError ReconcileResult)
    (returned : now.progress i = .returned answer) : now.turn calls mint i = now := by
  rw [turn, returned]

theorem two_turns (now : Moment n) (i : Fin n) (waiting : now.progress i = .waiting) :
    ((now.turn calls mint i).turn calls mint i).store = ((calls i).reconcile (mint i) now.store).2 := by
  rw [Call.reconcile, Reconciler.reconcile]
  cases selected : (calls i).selected with
  | error error =>
      have chosen : (calls i).reconciler.select (calls i).source (calls i).language = .error error := selected
      rw [turn_refused calls mint now i error waiting selected,
        turn_returned calls mint _ i _ (Function.update_self i _ _), chosen]
  | ok elements =>
      have chosen : (calls i).reconciler.select (calls i).source (calls i).language = .ok elements := selected
      rw [turn_registers calls mint now i elements waiting selected, chosen]
      simp only [(calls i).register_prepared (mint i) now.store elements selected]
      generalize (calls i).prepared (mint i) now.store.dimensions _ elements = prepared
      generalize (now.store.upsertFile (calls i).path (calls i).language.name).2 = next
      have registered : Function.update now.progress i (.registered prepared) i = .registered prepared :=
        Function.update_self i _ _
      cases committed : Reconciler.commit next prepared with
      | error error => rw [turn_fails calls mint ⟨next, _⟩ i prepared error registered committed]
      | ok done =>
          obtain ⟨result, swapped⟩ := done
          rw [turn_commits calls mint ⟨next, _⟩ i prepared result swapped registered committed]

theorem in_turn_concat (start : Store) (order : List (Fin n)) (i : Fin n) : inTurn calls mint start (order ++ [i]) =
    ((calls i).reconcile (mint i) (inTurn calls mint start order)).2 := by
  rw [inTurn, List.foldl_append]
  rfl

theorem run_in_turn (start : Store) (order : List (Fin n)) (once : order.Nodup) :
    (run calls mint start (order.flatMap fun i => [i, i])).store = inTurn calls mint start order := by
  induction order using List.reverseRecOn with
  | nil => rfl
  | append_singleton order i ih =>
      obtain ⟨before, _, apart⟩ := List.nodup_append.mp once
      have absent : i ∉ order.flatMap fun j => [j, j] := by
        intro member
        obtain ⟨j, listed, same⟩ := List.mem_flatMap.mp member
        have here : i = j := by simpa using same
        exact apart i (here ▸ listed) i (List.mem_singleton.mpr rfl) rfl
      have waiting := run_waiting calls mint start _ i absent
      rw [in_turn_concat, ← ih before, List.flatMap_append]
      change (run calls mint start (_ ++ ([i] ++ [i]))).store = _
      rw [← List.append_assoc, run_concat, run_concat]
      exact two_turns calls mint _ i waiting

end Moment
end CodeIndex
