import CodeIndex.Proofs.Agreement
import CodeIndex.Proofs.Numeric.Zero
import CodeIndex.Proofs.Store.Catalog

set_option autoImplicit false

namespace CodeIndex

theorem nearer_trans (a b c : Option Float32) (first : nearer a b = true) (second : nearer b c = true) :
    nearer a c = true := by
  cases a with
  | none => rfl
  | some x =>
      cases b with
      | none => cases first
      | some y =>
          cases c with
          | none => cases second
          | some z =>
              simp only [nearer, decide_eq_true_eq] at first second ⊢
              exact Int.le_trans first second

theorem nearer_total (a b : Option Float32) : (nearer a b || nearer b a) = true := by
  cases a with
  | none => rfl
  | some x =>
      cases b with
      | none => rfl
      | some y =>
          simp only [nearer, Bool.or_eq_true, decide_eq_true_eq]
          exact Int.le_total (orderKey x) (orderKey y)

theorem nearer_missing (a : Option Float32) (before : nearer a none = true) : a = none := by
  cases a with
  | none => rfl
  | some x => cases before

def ranked (candidates : List Candidate) : List Candidate :=
  candidates.mergeSort fun a b => nearer a.distance b.distance

theorem ranked_sorted (candidates : List Candidate) :
    (ranked candidates).Pairwise fun a b => nearer a.distance b.distance = true :=
  List.pairwise_mergeSort (fun a b c => nearer_trans a.distance b.distance c.distance)
    (fun a b => nearer_total a.distance b.distance) candidates

theorem ranked_missing_first (candidates : List Candidate) (lost : Candidate) (member : lost ∈ candidates)
    (missing : lost.distance = none) : ∃ first rest, ranked candidates = first :: rest ∧ first.distance = none := by
  have sorted := ranked_sorted candidates
  have listed : lost ∈ ranked candidates := List.mem_mergeSort.mpr member
  cases order : ranked candidates with
  | nil => simp [order] at listed
  | cons first rest =>
      rw [order] at sorted listed
      refine ⟨first, rest, rfl, ?_⟩
      rcases List.mem_cons.mp listed with rfl | later
      · exact missing
      · have before := (List.pairwise_cons.mp sorted).1 lost later
        rw [missing] at before
        exact nearer_missing first.distance before

theorem limit_first {α : Type} (k : UInt64) (first : α) (rest : List α) (wanted : k ≠ 0) :
    ∃ more, limit k (first :: rest) = first :: more := by
  rw [limit]
  split
  · have positive : k.toNat ≠ 0 := fun zero => wanted (UInt64.toNat_inj.mp zero)
    exact ⟨rest.take (k.toNat - 1), List.take_cons (Nat.pos_of_ne_zero positive)⟩
  · exact ⟨rest, rfl⟩

theorem map_m_total {ε α β : Type} (f : α → Except ε β) (items : List α)
    (each : ∀ item ∈ items, ∃ result, f item = .ok result) : ∃ results, items.mapM f = .ok results := by
  induction items with
  | nil => exact ⟨[], rfl⟩
  | cons item rest ih =>
      obtain ⟨result, here⟩ := each item List.mem_cons_self
      obtain ⟨results, later⟩ := ih fun other member => each other (List.mem_cons_of_mem _ member)
      refine ⟨result :: results, ?_⟩
      rw [List.mapM_cons, here, later]
      rfl

namespace Store

variable (store : Store) (legible : store.Legible) (distance : Embedding → Embedding → Option Float32) (query : Embedding)

include legible

theorem candidate_reads (candidate : Candidate) (member : candidate ∈ store.candidates distance query) :
    match candidate.distance with
    | none => candidate.read = .error .missingDistance
    | some _ => ∃ hit, candidate.read = .ok hit := by
  have stored : candidate.row ∈ store.embeddings :=
    (store.candidate_rows legible.valid distance query).mem_iff.mp (List.mem_map_of_mem member)
  obtain ⟨metadata, _, text⟩ := legible.written candidate.row stored
  have decoded : (Json.read? candidate.row.metadata).bind Metadata.ofJson? = some metadata := by
    rw [text, Metadata.read_written]
  rw [Candidate.read, decoded]
  cases candidate.distance with
  | none => rfl
  | some near => exact ⟨_, rfl⟩

theorem candidate_of_vector (vector : VectorRow) (member : vector ∈ store.vectors) :
    ∃ candidate ∈ store.candidates distance query, candidate.distance = distance vector.vector query := by
  obtain ⟨row, stored, same⟩ := store.embedding_of_vector legible.valid vector member
  refine ⟨⟨row, distance vector.vector query⟩, List.mem_filterMap.mpr ⟨vector, member, ?_⟩, rfl⟩
  rw [(store.joined_row legible.valid vector row).mpr ⟨stored, same⟩]
  rfl

omit legible in
theorem vector_of_candidate (candidate : Candidate) (member : candidate ∈ store.candidates distance query) :
    ∃ vector ∈ store.vectors, candidate.distance = distance vector.vector query := by
  obtain ⟨vector, stored, measured⟩ := List.mem_filterMap.mp member
  obtain ⟨row, _, rfl⟩ := Option.map_eq_some_iff.mp measured
  exact ⟨vector, stored, rfl⟩

variable (fits : query.length = store.dimensions)

include fits

omit legible in
theorem search_fitting (k : UInt64) : store.searchBy distance query k =
    (limit k (ranked (store.candidates distance query))).mapM Candidate.read :=
  if_neg (not_not.mpr fits)

-- The first error wins, and what has no distance is read first.
theorem search_missing (k : UInt64) (wanted : k ≠ 0) (vector : VectorRow) (member : vector ∈ store.vectors)
    (missing : distance vector.vector query = none) : store.searchBy distance query k = .error .missingDistance := by
  obtain ⟨lost, listed, measured⟩ := store.candidate_of_vector legible distance query vector member
  obtain ⟨first, rest, order, without⟩ := ranked_missing_first _ lost listed (measured.trans missing)
  obtain ⟨more, chosen⟩ := limit_first k first rest wanted
  have candidate : first ∈ store.candidates distance query :=
    List.mem_mergeSort.mp (order ▸ List.mem_cons_self : first ∈ ranked (store.candidates distance query))
  have fails := store.candidate_reads legible distance query first candidate
  rw [without] at fails
  rw [store.search_fitting distance query fits, order, chosen, List.mapM_cons, fails]
  rfl

theorem search_measured (k : UInt64) (measured : k = 0 ∨ ∀ vector ∈ store.vectors, distance vector.vector query ≠ none) :
    ∃ hits, store.searchBy distance query k = .ok hits := by
  rw [store.search_fitting distance query fits]
  rcases measured with rfl | measured
  · exact ⟨[], rfl⟩
  · apply map_m_total
    intro candidate chosen
    have member : candidate ∈ store.candidates distance query := List.mem_mergeSort.mp (limit_mem k _ candidate chosen)
    obtain ⟨vector, stored, away⟩ := store.vector_of_candidate distance query candidate member
    have reads := store.candidate_reads legible distance query candidate member
    cases near : candidate.distance with
    | none => exact absurd (away.symm.trans near) (measured vector stored)
    | some _ =>
        rw [near] at reads
        exact reads

theorem search_cases (k : UInt64) :
    (∃ hits, store.searchBy distance query k = .ok hits) ∧
      (k = 0 ∨ ∀ vector ∈ store.vectors, distance vector.vector query ≠ none) ∨
    store.searchBy distance query k = .error .missingDistance ∧
      k ≠ 0 ∧ ∃ vector ∈ store.vectors, distance vector.vector query = none := by
  by_cases measured : k = 0 ∨ ∀ vector ∈ store.vectors, distance vector.vector query ≠ none
  · exact .inl ⟨store.search_measured legible distance query fits k measured, measured⟩
  · push Not at measured
    obtain ⟨wanted, vector, member, missing⟩ := measured
    exact .inr ⟨store.search_missing legible distance query fits k wanted vector member missing, wanted, vector, member, missing⟩

end Store

theorem search_fails_on_missing_distance (store : Store) (reachable : Reachable store) (query : Embedding)
    (fits : query.length = store.dimensions) (k : UInt64) :
    ((∃ hits, store.search query k = .ok hits) ↔
      k = 0 ∨ ∀ row ∈ store.vectors, cosineDistance row.vector query ≠ none) ∧
    (∀ error, store.search query k = .error error → error = .missingDistance) ∧
    (k ≠ 0 → (∃ row ∈ store.vectors, Blank row.vector ∨ Blank query) → store.search query k = .error .missingDistance) ∧
    ∀ vector, Blank vector → unitLength vector = vector ∧ Hashed.scale vector = vector := by
  have legible := reachable_legible store reachable
  have cases := store.search_cases legible cosineDistance query fits k
  refine ⟨?_, ?_, ?_, blank_unscaled⟩
  · constructor
    · rintro ⟨hits, found⟩
      obtain ⟨_, measured⟩ | ⟨failed, _⟩ := cases
      · exact measured
      · cases found.symm.trans failed
    · exact store.search_measured legible cosineDistance query fits k
  · intro error failed
    obtain ⟨⟨hits, found⟩, _⟩ | ⟨missing, _⟩ := cases
    · cases found.symm.trans failed
    · exact Except.error.inj (failed.symm.trans missing)
  · rintro wanted ⟨row, member, blank⟩
    exact store.search_missing legible cosineDistance query fits k wanted row member (blank_distance row.vector query blank)

def hashedFunctions : Reconciler := ⟨Hashed.embedder 1, false, none⟩

def idleFunction (name : String) : Source :=
  ⟨"def " ++ name ++ "(): pass", .ok (.mk "module" true ⟨0, 16, 0, 0⟩ [] [
    .mk "function_definition" true ⟨0, 16, 0, 0⟩ [("name", 0)] [.mk "identifier" true ⟨4, 8, 0, 0⟩ [] []]])⟩

def keepIndexed : Store :=
  (hashedFunctions.reconcile ChunkId.serial emptyStore "a.py" (idleFunction "keep") .python).2

-- The one component of this function's vector is zero.
def trieIndexed : Store :=
  (hashedFunctions.reconcile laterIds keepIndexed "b.py" (idleFunction "trie") .python).2

theorem keep_reachable : Reachable keepIndexed :=
  reconcile_reachable emptyStore ⟨1, emptyStore, [], rfl, rfl⟩ hashedFunctions ChunkId.serial _ _ _

theorem trie_reachable : Reachable trieIndexed :=
  reconcile_reachable keepIndexed keep_reachable hashedFunctions laterIds _ _ _

theorem trie_blank : ([1] : Embedding).length = trieIndexed.dimensions ∧ ∃ row ∈ trieIndexed.vectors, Blank row.vector := by
  decide +kernel

theorem search_fails_beside_trie : (∃ hits, keepIndexed.search [1] 1 = .ok hits) ∧
    trieIndexed.search [1] 1 = .error .missingDistance := by
  obtain ⟨fits, row, stored, blank⟩ := trie_blank
  have before := search_fails_on_missing_distance keepIndexed keep_reachable [1] (by decide +kernel) 1
  have after := search_fails_on_missing_distance trieIndexed trie_reachable [1] fits 1
  exact ⟨before.1.mpr (.inr (by decide +kernel)), after.2.2.1 (by decide) ⟨row, stored, .inl blank⟩⟩

theorem trie_blocks_search : Reachable trieIndexed ∧ ([1] : Embedding).length = trieIndexed.dimensions ∧
    ¬ ∃ hits, trieIndexed.search [1] 1 = .ok hits := by
  obtain ⟨fits, row, stored, blank⟩ := trie_blank
  have failed := trieIndexed.search_missing (reachable_legible _ trie_reachable) cosineDistance [1] fits 1 (by decide)
    row stored (blank_distance row.vector [1] (.inl blank))
  exact ⟨trie_reachable, fits, fun ⟨hits, found⟩ => nomatch found.symm.trans failed⟩

end CodeIndex
