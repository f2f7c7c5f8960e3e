import Mathlib.Data.List.DropRight
import CodeIndex.Proofs.Store.Replacement

set_option autoImplicit false

namespace CodeIndex

structure Remark where
  chunkId : String
  kind : String
  comment : Option String
deriving DecidableEq

def FeedbackRow.remark (row : FeedbackRow) : Remark := ⟨row.chunkId, row.kind, row.comment⟩

namespace Operation

def remark? : Operation → Option Remark
  | .addFeedback chunkId kind comment => some ⟨chunkId, kind, comment⟩
  | _ => none

def clears : Operation → Bool
  | .clear => true
  | _ => false

theorem feedback_cases (operation : Operation) : operation = .clear ∨
    (∃ chunkId kind comment, operation = .addFeedback chunkId kind comment) ∨
    (operation.remark? = none ∧ operation.clears = false) := by
  cases operation with
  | clear => exact .inl rfl
  | addFeedback chunkId kind comment => exact .inr (.inl ⟨chunkId, kind, comment, rfl⟩)
  | _ => exact .inr (.inr ⟨rfl, rfl⟩)

end Operation

def sinceClear (operations : List Operation) : List Operation := operations.rtakeWhile (! ·.clears)

def newerFirst (clock : Nat → Nat) (a b : FeedbackRow) : Bool :=
  decide (clock b.id < clock a.id) || (clock a.id == clock b.id && decide (b.id ≤ a.id))

theorem newer_first_trans (clock : Nat → Nat) (a b c : FeedbackRow) (first : newerFirst clock a b = true)
    (second : newerFirst clock b c = true) : newerFirst clock a c = true := by
  simp only [newerFirst, Bool.or_eq_true, Bool.and_eq_true, decide_eq_true_eq, beq_iff_eq] at first second ⊢
  omega

theorem newer_first_total (clock : Nat → Nat) (a b : FeedbackRow) : (newerFirst clock a b || newerFirst clock b a) = true := by
  simp only [newerFirst, Bool.or_eq_true, Bool.and_eq_true, decide_eq_true_eq, beq_iff_eq]
  omega

structure SameFeedback (before after : Store) : Prop where
  rows : after.feedback = before.feedback
  last : after.lastFeedback = before.lastFeedback

namespace Store

def feedbackByTime (store : Store) (clock : Nat → Nat) (chunkId : String) : List FeedbackRow :=
  (store.feedback.filter (·.chunkId == chunkId)).mergeSort (newerFirst clock)

theorem same_frame_feedback (before after : Store) (frame : SameFrame before after) : SameFeedback before after :=
  ⟨frame.feedback, frame.lastFeedback⟩

theorem same_feedback_listed (before after : Store) (same : SameFeedback before after) (chunkId : String) :
    after.listFeedback chunkId = before.listFeedback chunkId := by
  rw [listFeedback, same.rows, listFeedback]

theorem upsert_file_feedback (store : Store) (path language : String) :
    SameFeedback store (store.upsertFile path language).2 := by
  rw [upsert_file_rest]
  exact ⟨rfl, rfl⟩

theorem replace_feedback (store after : Store) (fileId : Int) (chunks : List NewChunk) (removed : Nat)
    (replaced : store.replaceChunks fileId chunks = .ok (removed, after)) : SameFeedback store after :=
  same_frame_feedback store after (store.replace_frame after fileId chunks removed replaced)

theorem delete_file_feedback (store : Store) (path : String) : SameFeedback store (store.deleteFile path).2 := by
  obtain ⟨_, same⟩ | ⟨file, _, same⟩ := store.delete_file_cases path
  · rw [same]
    exact ⟨rfl, rfl⟩
  · have frame := store.drop_chunks_frame file.id
    rw [same]
    exact ⟨frame.feedback, frame.lastFeedback⟩

theorem reopened_feedback (store after : Store) (requested : Nat)
    (opened : Store.ofTables store.toTables requested = .ok after) : SameFeedback store after := by
  rw [ofTables] at opened
  cases declared : store.declaration with
  | some declaration =>
      rw [declared] at opened
      cases opened
      exact ⟨rfl, rfl⟩
  | none =>
      rw [declared] at opened
      obtain ⟨_, _, same⟩ := (bind_ok_iff _ _ _).mp opened
      cases same
      exact ⟨rfl, rfl⟩

end Store

namespace Session

theorem keep_feedback (session : Session) (result : Except StoreError Store)
    (after : ∀ store, result = .ok store → SameFeedback session.store store) :
    SameFeedback session.store (session.keep result).store :=
  session.keep_store result (SameFeedback session.store) ⟨rfl, rfl⟩ after

theorem step_feedback (session : Session) (operation : Operation) (silent : operation.remark? = none)
    (keeps : operation.clears = false) : SameFeedback session.store (session.step operation).store := by
  cases operation with
  | upsertFile path language => exact session.store.upsert_file_feedback path language
  | replaceChunks fileId chunks =>
      refine session.keep_feedback _ fun after mapped => ?_
      obtain ⟨⟨removed, swapped⟩, replaced, rfl⟩ := map_ok _ _ _ mapped
      exact session.store.replace_feedback swapped fileId chunks removed replaced
  | deleteFile path => exact session.store.delete_file_feedback path
  | clear => cases keeps
  | rebuild width =>
      refine session.keep_feedback _ fun after rebuilt => ?_
      obtain ⟨_, rfl⟩ := (session.store.rebuild_ok_iff after width).mp rebuilt
      exact ⟨rfl, rfl⟩
  | addFeedback chunkId kind comment => cases silent
  | reopen requested =>
      exact session.keep_feedback _ fun after => session.store.reopened_feedback after requested
  | register reconciler fresh path source language =>
      simp only [step]
      cases reconciler.select source language with
      | error error => exact ⟨rfl, rfl⟩
      | ok elements => exact session.store.upsert_file_feedback path language.name
  | commit position =>
      simp only [step]
      cases session.pending[position]? with
      | none => exact ⟨rfl, rfl⟩
      | some prepared =>
          refine session.keep_feedback _ fun after mapped => ?_
          obtain ⟨⟨result, swapped⟩, committed, rfl⟩ := map_ok _ _ _ mapped
          obtain ⟨_, removed, replaced⟩ := commit_replaces session.store swapped prepared result committed
          exact session.store.replace_feedback swapped prepared.fileId prepared.chunks removed replaced
  | upsertVector id content vector metadata =>
      refine session.keep_feedback _ fun after upserted => ?_
      obtain ⟨_, rfl⟩ := (session.store.upsert_vector_ok_iff after id content vector metadata).mp upserted
      exact ⟨rfl, rfl⟩
  | deleteVectors ids => exact Store.same_frame_feedback _ _ (session.store.delete_vectors_frame ids).1

def notes? (session : Session) : Operation → Option FeedbackRow
  | .addFeedback chunkId kind comment => some (session.store.addFeedback chunkId kind comment).1
  | _ => none

def noted (session : Session) : List Operation → List FeedbackRow
  | [] => []
  | operation :: rest => (session.notes? operation).toList ++ (session.step operation).noted rest

theorem notes_none (session : Session) (operation : Operation) (silent : operation.remark? = none) :
    session.notes? operation = none := by
  cases operation with
  | addFeedback chunkId kind comment => cases silent
  | _ => rfl

theorem run_concat (session : Session) (operations : List Operation) (last : Operation) :
    session.run (operations ++ [last]) = (session.run operations).step last := by
  rw [run, List.foldl_append]
  rfl

-- By the last operation: dropping starts anew, adding appends, and all else leaves both sides alone.
theorem run_remarks (session : Session) (bare : session.store.feedback = []) (operations : List Operation) :
    (session.run operations).store.feedback.map FeedbackRow.remark = (sinceClear operations).filterMap Operation.remark? := by
  induction operations using List.reverseRecOn with
  | nil => simp [run, bare, sinceClear]
  | append_singleton operations last ih =>
      rw [run_concat]
      obtain rfl | ⟨chunkId, kind, comment, rfl⟩ | ⟨silent, keeps⟩ := last.feedback_cases
      · rw [sinceClear, List.rtakeWhile_concat_neg _ _ _ (by decide)]
        rfl
      · rw [sinceClear, List.rtakeWhile_concat_pos _ _ _ rfl, List.filterMap_append, ← sinceClear, ← ih]
        simp [step, Store.addFeedback, Operation.remark?, FeedbackRow.remark]
      · rw [sinceClear, List.rtakeWhile_concat_pos _ _ _ (by simp [keeps]), List.filterMap_append, ← sinceClear, ← ih,
          ((session.run operations).step_feedback last silent keeps).rows]
        simp [silent]

-- What holds of a session after rows were handed out: the table ends with the last of them, and they
-- are numbered from one on without a gap.
structure Entered (session : Session) (rows : List FeedbackRow) : Prop where
  latest : session.store.feedback <:+ rows
  numbers : rows.map (·.id) = List.range' 1 session.store.lastFeedback

theorem step_entered (session : Session) (rows : List FeedbackRow) (entered : session.Entered rows) (operation : Operation) :
    (session.step operation).Entered (rows ++ (session.notes? operation).toList) := by
  obtain rfl | ⟨chunkId, kind, comment, rfl⟩ | ⟨silent, keeps⟩ := operation.feedback_cases
  · refine ⟨List.nil_suffix, ?_⟩
    rw [session.notes_none .clear rfl, Option.toList_none, List.append_nil]
    exact entered.numbers
  · refine ⟨?_, ?_⟩
    · obtain ⟨earlier, same⟩ := entered.latest
      exact ⟨earlier, by simp [step, notes?, Store.addFeedback, ← same]⟩
    · simp [step, notes?, Store.addFeedback, entered.numbers, List.range'_concat, Nat.add_comm]
  · have same := session.step_feedback operation silent keeps
    rw [session.notes_none operation silent, Option.toList_none, List.append_nil]
    exact ⟨same.rows ▸ entered.latest, same.last ▸ entered.numbers⟩

theorem run_entered (session : Session) (rows : List FeedbackRow) (entered : session.Entered rows)
    (operations : List Operation) : (session.run operations).Entered (rows ++ session.noted operations) := by
  induction operations generalizing session rows with
  | nil =>
      rw [noted, List.append_nil]
      exact entered
  | cons operation rest ih =>
      have next := ih (session.step operation) _ (session.step_entered rows entered operation)
      rw [List.append_assoc] at next
      exact next

theorem entered_increasing (session : Session) (rows : List FeedbackRow) (entered : session.Entered rows) :
    (rows.map (·.id)).Pairwise (· < ·) := by
  rw [entered.numbers]
  exact List.pairwise_lt_range' 1

end Session

namespace Store

theorem reconcile_feedback (store : Store) (reconciler : Reconciler) (fresh : Nat → ChunkId) (path : String)
    (source : Source) (language : Language) :
    SameFeedback store (reconciler.reconcile fresh store path source language).2 := by
  have registered := Session.step_feedback ⟨store, []⟩ (.register reconciler fresh path source language) rfl rfl
  have committed := Session.step_feedback (Session.step ⟨store, []⟩ (.register reconciler fresh path source language))
    (.commit 0) rfl rfl
  rw [← Session.run_reconciles ⟨store, []⟩]
  exact ⟨committed.rows.trans registered.rows, committed.last.trans registered.last⟩

-- Numbers go up along the table and time does not go back, so sorting by time turns the rows around.
theorem feedback_by_time (store : Store) (increasing : (store.feedback.map (·.id)).Pairwise (· < ·)) (clock : Nat → Nat)
    (forward : ∀ early late, early ≤ late → clock early ≤ clock late) (chunkId : String) :
    store.feedbackByTime clock chunkId = store.listFeedback chunkId := by
  have rows : (store.feedback.filter (·.chunkId == chunkId)).Pairwise fun a b => a.id < b.id :=
    (List.pairwise_map.mp increasing).sublist List.filter_sublist
  have turned : (store.listFeedback chunkId).Pairwise fun a b => newerFirst clock a b = true := by
    rw [listFeedback, List.pairwise_reverse]
    refine rows.imp fun {a b} less => ?_
    have later := forward a.id b.id (Nat.le_of_lt less)
    simp only [newerFirst, Bool.or_eq_true, Bool.and_eq_true, decide_eq_true_eq, beq_iff_eq]
    omega
  have sorted := List.pairwise_mergeSort (newer_first_trans clock) (newer_first_total clock)
    (store.feedback.filter (·.chunkId == chunkId))
  have same : (store.feedbackByTime clock chunkId).Perm (store.listFeedback chunkId) :=
    (List.mergeSort_perm _ _).trans (List.reverse_perm _).symm
  refine List.Perm.eq_of_pairwise (fun a b first second before after => ?_) sorted turned same
  have number : a.id = b.id := by
    simp only [newerFirst, Bool.or_eq_true, Bool.and_eq_true, decide_eq_true_eq, beq_iff_eq] at before after
    omega
  have listed (row : FeedbackRow) (member : row ∈ store.listFeedback chunkId) : row ∈ store.feedback :=
    List.mem_of_mem_filter (List.mem_reverse.mp member)
  have distinct : (store.feedback.map (·.id)).Nodup := increasing.imp Nat.ne_of_lt
  exact List.inj_on_of_nodup_map distinct (listed a (same.mem_iff.mp first)) (listed b second) number

end Store

theorem opened_entered (requested : Nat) (opened : Store) (fresh : Store.ofTables {} requested = .ok opened) :
    Session.Entered ⟨opened, []⟩ [] := by
  obtain ⟨_, _, same⟩ := (bind_ok_iff (Width.check requested) _ opened).mp fresh
  cases same
  exact ⟨List.suffix_rfl, rfl⟩

theorem feedback_outlives_chunks (requested : Nat) (opened : Store) (operations : List Operation) (session : Session)
    (fresh : Store.ofTables {} requested = .ok opened) (ran : session = Session.run ⟨opened, []⟩ operations) :
    (∀ chunkId, (session.store.listFeedback chunkId).map FeedbackRow.remark =
      (((sinceClear operations).filterMap Operation.remark?).filter (·.chunkId == chunkId)).reverse) ∧
    (∀ chunkId, (session.store.listFeedback chunkId).reverse.Sublist (Session.noted ⟨opened, []⟩ operations)) ∧
    (∀ clock : Nat → Nat, (∀ early late, early ≤ late → clock early ≤ clock late) → ∀ chunkId,
      session.store.feedbackByTime clock chunkId = session.store.listFeedback chunkId) ∧
    (∀ operation : Operation, operation.remark? = none → operation.clears = false → ∀ chunkId,
      (session.step operation).store.listFeedback chunkId = session.store.listFeedback chunkId) ∧
    (∀ reconciler mint path source language chunkId,
      (Reconciler.reconcile reconciler mint session.store path source language).2.listFeedback chunkId =
        session.store.listFeedback chunkId) ∧
    ((Session.noted ⟨opened, []⟩ operations).map (·.id)).Pairwise (· < ·) := by
  have start := opened_entered requested opened fresh
  have entered := Session.run_entered ⟨opened, []⟩ [] start operations
  have increasing := Session.entered_increasing _ _ entered
  rw [List.nil_append] at entered increasing
  rw [← ran] at entered
  have remarks := Session.run_remarks ⟨opened, []⟩ (List.suffix_nil.mp start.latest) operations
  rw [← ran] at remarks
  have table : (session.store.feedback.map (·.id)).Pairwise (· < ·) := increasing.sublist (entered.latest.sublist.map _)
  refine ⟨fun chunkId => ?_, fun chunkId => ?_, session.store.feedback_by_time table, ?_, ?_, increasing⟩
  · rw [Store.listFeedback, ← remarks, List.map_reverse, List.filter_map]
    rfl
  · rw [Store.listFeedback, List.reverse_reverse]
    exact List.filter_sublist.trans entered.latest.sublist
  · intro operation silent keeps
    exact Store.same_feedback_listed _ _ (session.step_feedback operation silent keeps)
  · intro reconciler mint path source language
    exact Store.same_feedback_listed _ _ (session.store.reconcile_feedback reconciler mint path source language)

def rated : String := (ChunkId.serial 0).text

def ratings : List Operation :=
  [.addFeedback "c" "up" none, .clear, .register wholeFiles ChunkId.serial "a.py" plainSource .python, .commit 0,
    .addFeedback rated "up" none, .addFeedback "c" "down" none, .addFeedback rated "comment" (some "stale"),
    .deleteFile "a.py", .rebuild 0, .reopen 7]

theorem feedback_outlives_deleted_chunk :
    ∃ session, session = Session.run ⟨⟨{ declaration := some (Width.declaration 1) }, 1⟩, []⟩ ratings ∧
      session.store.chunks = [] ∧
      (session.store.listFeedback rated).map FeedbackRow.remark = [⟨rated, "comment", some "stale"⟩, ⟨rated, "up", none⟩] ∧
      (session.store.listFeedback "c").map FeedbackRow.remark = [⟨"c", "down", none⟩] ∧
      session.store.feedbackByTime (· / 2) rated = session.store.listFeedback rated := by
  refine ⟨_, rfl, by decide +kernel, ?_⟩
  obtain ⟨listed, _, byTime, _⟩ := feedback_outlives_chunks 1 _ ratings _ rfl rfl
  exact ⟨(listed rated).trans (by decide +kernel), (listed "c").trans (by decide +kernel),
    byTime (· / 2) (fun _ _ => Nat.div_le_div_right) rated⟩

end CodeIndex
