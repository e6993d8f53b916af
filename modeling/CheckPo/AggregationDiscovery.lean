/-
Discovery writes the manifest graph below the roots into the temporary tables: every
chunk once, with the edges into it counted, and every object of a leaf with its
occurrences there.
-/
import CheckPo.ManifestGraph
import CheckPo.ReferenceAggregation
import CheckPo.ExceptRules

namespace CheckPo

open Relation

/-! Columns. -/

/-- A corruption error, reported for a reason. -/
def Corrupts (reason : Prop) (error : CheckPoError) : Prop :=
  (∃ message, error = .corruption message) ∧ reason

theorem Corrupts.mono {reason reason' : Prop} (h : reason → reason') (error : CheckPoError)
    (hcorrupts : Corrupts reason error) : Corrupts reason' error :=
  ⟨hcorrupts.1, h hcorrupts.2⟩

theorem rebuildU64_natCast (value : ℕ) (field : String) : rebuildU64 value field = .ok value := by
  rw [rebuildU64, if_pos (Int.natCast_nonneg value), Int.toNat_natCast]

theorem sqliteI64FromU64_ends (value : ℕ) (field : String) :
    Ends (sqliteI64FromU64 value field) (· = (value : ℤ)) (Corrupts (2 ^ 63 ≤ value)) := by
  rw [sqliteI64FromU64]
  by_cases h : value < 2 ^ 63
  · rw [if_pos h]
    exact rfl
  · rw [if_neg h]
    exact ⟨⟨_, rfl⟩, Nat.le_of_not_lt h⟩

theorem checkedU64_ends (value : ℕ) (message : String) :
    Ends (orError (checkedU64 value) (.corruption message)) (· = value)
      (Corrupts (2 ^ 64 ≤ value)) := by
  rw [checkedU64]
  by_cases h : value < 2 ^ 64
  · rw [if_pos h]
    exact rfl
  · rw [if_neg h]
    exact ⟨⟨_, rfl⟩, Nat.le_of_not_lt h⟩

theorem addedCount_ends (value amount : ℕ) (field message : String) :
    Ends (addedCount value field amount message) (· = value + amount)
      (Corrupts (2 ^ 64 ≤ value + amount)) := by
  rw [addedCount, rebuildU64_natCast]
  exact checkedU64_ends (value + amount) message

/-- A count that is added in `u64` and written back as a signed integer. -/
theorem storedCount_ends (value amount : ℕ) (field message field' : String) :
    Ends (addedCount value field amount message >>= fun next => sqliteI64FromU64 next field')
      (· = ((value + amount : ℕ) : ℤ)) (Corrupts (2 ^ 63 ≤ value + amount)) := by
  apply Ends.bind ((addedCount_ends value amount field message).mono (fun _ h => h)
    (Corrupts.mono fun h => le_trans (by norm_num) h))
  rintro _ rfl
  exact sqliteI64FromU64_ends (value + amount) field'

/-! Why an aggregation may fail. -/

namespace ManifestGraph

variable (graph : ManifestGraph) (roots : List ManifestRef)

/-- Two entries name one object with different sizes. -/
def SizeConflict : Prop :=
  ∃ leaf leaf', graph.Reachable roots leaf ∧ graph.Reachable roots leaf' ∧
    ∃ entry ∈ graph.entries leaf, ∃ entry' ∈ graph.entries leaf',
      entry.objectId = entry'.objectId ∧ entry.sizeBytes ≠ entry'.sizeBytes

/-- An entry's size is beyond SQLite's signed integers. -/
def SizeTooLarge : Prop :=
  ∃ leaf, graph.Reachable roots leaf ∧
    ∃ entry ∈ graph.entries leaf, 2 ^ 63 ≤ entry.sizeBytes.toNat

def occurrences (leaf : ManifestRef) (objectId : ObjectId) : ℕ :=
  (graph.entries leaf).countP (·.objectId = objectId)

/-- The objects of a leaf in the order of their ids. -/
def objectIds (leaf : ManifestRef) : List ObjectId :=
  ((graph.entries leaf).map LeafEntry.objectId).toFinset.sort (· ≤ ·)

/-- The reasons, with counts that the tables hold on the way. -/
inductive AggregationFailure : Prop
  | conflict (h : graph.SizeConflict roots)
  | size (h : graph.SizeTooLarge roots)
  | edges (child : ManifestRef) (hchild : child ∈ graph.reachable roots)
      (h : 2 ^ 63 ≤ ∑ parent ∈ graph.reachable roots, (graph.children parent).count child)
  | occurrences (leaf : ManifestRef) (hleaf : leaf ∈ graph.reachable roots)
      (objectId : ObjectId) (h : 2 ^ 63 ≤ graph.occurrences leaf objectId)
  | multiplicity (flow : Flow ManifestRef)
      (hflow : FlowSound graph.children roots (graph.reachable roots) flow)
      (reference : ManifestRef) (hreference : reference ∈ graph.reachable roots)
      (h : 2 ^ 63 ≤ flow.multiplicity reference)
  | references (flow : Flow ManifestRef)
      (hflow : FlowSound graph.children roots (graph.reachable roots) flow)
      (objectId : ObjectId) (h : 2 ^ 63 ≤ ∑ leaf ∈ flow.processed,
        flow.multiplicity leaf * graph.occurrences leaf objectId)
  | chunks (h : 2 ^ 64 ≤ (graph.reachable roots).card)
  | objects (h : 2 ^ 64 ≤ ∑ leaf ∈ graph.reachable roots, (graph.objectIds leaf).length)

end ManifestGraph

/-! What the tables hold while the graph is written into them. -/

variable (graph : ManifestGraph) (roots : List ManifestRef)

/-- The tables hold the edges that have been followed and the entries that have been
seen, and mark the chunks that are done.  The chunks that were taken are not pending. -/
structure Discovering (taken done : Finset ManifestRef)
    (followed : ManifestRef → List ManifestRef) (seen : ManifestRef → List LeafEntry)
    (tables : RebuildTables) : Prop where
  mem_chunks : ∀ reference, reference ∈ tables.chunks ↔
    reference ∈ roots ∨ ∃ parent ∈ graph.reachable roots, reference ∈ followed parent
  row : ∀ reference row, tables.chunks.lookup reference = some row →
    row = ⟨decide (reference ∈ done), false,
      (∑ parent ∈ graph.reachable roots, (followed parent).count reference : ℕ),
      roots.count reference⟩
  pending : ∀ reference, reference ∈ tables.pending ↔
    reference ∈ tables.chunks ∧ reference ∉ taken
  edge : ∀ parent child, tables.edges.lookup (parent, child) =
    if child ∈ followed parent then some ((followed parent).count child : ℤ) else none
  object : ∀ leaf objectId, tables.leafObjects.lookup (leaf, objectId) = none →
    ∀ entry ∈ seen leaf, entry.objectId ≠ objectId
  object_row : ∀ leaf objectId row, tables.leafObjects.lookup (leaf, objectId) = some row →
    row.occurrenceCount = ((seen leaf).countP (·.objectId = objectId) : ℕ) ∧
      ∃ size : ℕ, row.expectedSizeBytes = size ∧
        (∀ entry ∈ seen leaf, entry.objectId = objectId → entry.sizeBytes.toNat = size) ∧
        ∃ entry ∈ seen leaf, entry.objectId = objectId
  taken_known : ∀ reference ∈ taken, reference ∈ tables.chunks
  done_taken : done ⊆ taken

variable {graph roots} {taken done : Finset ManifestRef}
  {followed : ManifestRef → List ManifestRef} {seen : ManifestRef → List LeafEntry}
  {tables : RebuildTables}

theorem sum_count_update {nodes : Finset ManifestRef} {parent : ManifestRef}
    (hparent : parent ∈ nodes) (child reference : ManifestRef) :
    ∑ other ∈ nodes,
        (Function.update followed parent (followed parent ++ [child]) other).count reference =
      (∑ other ∈ nodes, (followed other).count reference) +
        if child = reference then 1 else 0 := by
  rw [← Finset.sum_erase_add nodes _ hparent, ← Finset.sum_erase_add nodes _ hparent,
    Function.update_self, List.count_append, List.count_singleton, ← Nat.add_assoc]
  simp only [beq_iff_eq]
  congr 2
  refine Finset.sum_congr rfl fun other hother => ?_
  rw [Function.update_of_ne (Finset.ne_of_mem_erase hother)]

theorem update_start {parent : ManifestRef} {child : ManifestRef}
    {rest : List ManifestRef} (hfollowed : ∀ other, followed other <+: graph.children other)
    (hnext : graph.children parent = followed parent ++ child :: rest) :
    ∀ other, Function.update followed parent (followed parent ++ [child]) other <+:
      graph.children other := by
  intro other
  by_cases hother : other = parent
  · subst hother
    rw [Function.update_self, hnext]
    exact ⟨rest, by rw [List.append_assoc]; rfl⟩
  · rw [Function.update_of_ne hother]
    exact hfollowed other

theorem followed_le (hfollowed : ∀ other, followed other <+: graph.children other)
    (nodes : Finset ManifestRef) (child : ManifestRef) :
    ∑ parent ∈ nodes, (followed parent).count child ≤
      ∑ parent ∈ nodes, (graph.children parent).count child :=
  Finset.sum_le_sum fun parent _ => (hfollowed parent).sublist.count_le child

/-- The row that a chunk has, or gets when it is inserted. -/
theorem Discovering.row_getD
    (hdiscovering : Discovering graph roots taken done followed seen tables)
    (reference : ManifestRef) :
    (tables.chunks.lookup reference).getD .new = ⟨decide (reference ∈ done), false,
      (∑ parent ∈ graph.reachable roots, (followed parent).count reference : ℕ),
      roots.count reference⟩ := by
  cases hrow : tables.chunks.lookup reference with
  | some row => exact hdiscovering.row reference row hrow
  | none =>
      have hunknown : reference ∉ tables.chunks := Finmap.lookup_eq_none.mp hrow
      have hnot := mt (hdiscovering.mem_chunks reference).mpr hunknown
      rw [not_or] at hnot
      have hdone : reference ∉ done := fun hdone =>
        hunknown (hdiscovering.taken_known reference (hdiscovering.done_taken hdone))
      have hsum : ∑ parent ∈ graph.reachable roots, (followed parent).count reference = 0 :=
        Finset.sum_eq_zero fun parent hparent =>
          List.count_eq_zero.mpr fun hmem => hnot.2 ⟨parent, hparent, hmem⟩
      rw [Option.getD_none, RebuildChunk.new, decide_eq_false hdone, hsum,
        List.count_eq_zero.mpr hnot.1]
      rfl

theorem Discovering.edge_count
    (hdiscovering : Discovering graph roots taken done followed seen tables)
    (parent child : ManifestRef) :
    Ends (nextEdgeCount tables parent child) (· = (followed parent).count child + 1)
      (Corrupts (2 ^ 64 ≤ (followed parent).count child + 1)) := by
  rw [nextEdgeCount, hdiscovering.edge]
  by_cases hmem : child ∈ followed parent
  · rw [if_pos hmem]
    exact addedCount_ends _ 1 _ _
  · rw [if_neg hmem, List.count_eq_zero.mpr hmem]
    exact rfl

theorem Discovering.follow
    (hdiscovering : Discovering graph roots taken done followed seen tables)
    {parent : ManifestRef} (hparent : parent ∈ graph.reachable roots) (child : ManifestRef) :
    Discovering graph roots taken done
      (Function.update followed parent (followed parent ++ [child])) seen
      { tables with
        chunks := tables.chunks.insert child
          ⟨decide (child ∈ done), false,
            (∑ parent ∈ graph.reachable roots, (followed parent).count child + 1 : ℕ),
            roots.count child⟩
        pending := if (tables.chunks.lookup child).isSome then tables.pending
          else insert child tables.pending
        edges := tables.edges.insert (parent, child) ((followed parent).count child + 1 : ℕ) } where
  mem_chunks reference := by
    rw [Finmap.mem_insert, hdiscovering.mem_chunks]
    have hupdate : (∃ other ∈ graph.reachable roots, reference ∈
        Function.update followed parent (followed parent ++ [child]) other) ↔
        reference = child ∨ ∃ other ∈ graph.reachable roots, reference ∈ followed other := by
      constructor
      · rintro ⟨other, hother, hmem⟩
        by_cases hsame : other = parent
        · subst hsame
          rw [Function.update_self, List.mem_append, List.mem_singleton] at hmem
          exact hmem.symm.imp_right fun hmem => ⟨other, hother, hmem⟩
        · rw [Function.update_of_ne hsame] at hmem
          exact Or.inr ⟨other, hother, hmem⟩
      · rintro (rfl | ⟨other, hother, hmem⟩)
        · exact ⟨parent, hparent, by simp⟩
        · refine ⟨other, hother, ?_⟩
          by_cases hsame : other = parent
          · subst hsame
            rw [Function.update_self]
            exact List.mem_append_left _ hmem
          · rw [Function.update_of_ne hsame]
            exact hmem
    rw [hupdate]
    exact or_left_comm
  row reference row hrow := by
    rw [sum_count_update hparent]
    by_cases hsame : reference = child
    · subst hsame
      rw [Finmap.lookup_insert, Option.some.injEq] at hrow
      rw [← hrow, if_pos rfl]
    · rw [Finmap.lookup_insert_of_ne _ hsame] at hrow
      rw [if_neg (Ne.symm hsame), Nat.add_zero]
      exact hdiscovering.row reference row hrow
  pending reference := by
    rw [Finmap.mem_insert]
    by_cases hknown : child ∈ tables.chunks
    · rw [if_pos (Finmap.lookup_isSome.mpr hknown), hdiscovering.pending]
      refine and_congr_left fun _ => ?_
      exact ⟨Or.inr, fun h => h.elim (fun h => h ▸ hknown) id⟩
    · rw [if_neg (mt Finmap.lookup_isSome.mp hknown), Finset.mem_insert, hdiscovering.pending]
      constructor
      · rintro (rfl | h)
        · exact ⟨Or.inl rfl, fun htaken => hknown (hdiscovering.taken_known reference htaken)⟩
        · exact ⟨Or.inr h.1, h.2⟩
      · rintro ⟨rfl | h, htaken⟩
        · exact Or.inl rfl
        · exact Or.inr ⟨h, htaken⟩
  edge other reference := by
    by_cases hsame : (other, reference) = (parent, child)
    · rw [hsame, Finmap.lookup_insert]
      cases hsame
      simp
    · rw [Finmap.lookup_insert_of_ne _ hsame, hdiscovering.edge]
      by_cases hother : other = parent
      · subst hother
        have hreference : reference ≠ child := fun h => hsame (by rw [h])
        rw [Function.update_self]
        simp [List.count_append, hreference, Ne.symm hreference]
      · rw [Function.update_of_ne hother]
  object := hdiscovering.object
  object_row := hdiscovering.object_row
  taken_known reference htaken := Finmap.mem_insert.mpr
    (Or.inr (hdiscovering.taken_known reference htaken))
  done_taken := hdiscovering.done_taken

/-- One edge into the tables. -/
theorem discoverRebuildEdge_ends
    (hdiscovering : Discovering graph roots taken done followed seen tables)
    (hfollowed : ∀ other, followed other <+: graph.children other)
    {parent child : ManifestRef} {rest : List ManifestRef}
    (hparent : parent ∈ graph.reachable roots)
    (hnext : graph.children parent = followed parent ++ child :: rest) :
    Ends (discoverRebuildEdge parent tables child)
      (Discovering graph roots taken done
        (Function.update followed parent (followed parent ++ [child])) seen)
      (Corrupts (graph.AggregationFailure roots)) := by
  have hchild : child ∈ graph.reachable roots :=
    ManifestGraph.reachable_below.child parent hparent child (by rw [hnext]; simp)
  have htotal : ∑ other ∈ graph.reachable roots, (followed other).count child + 1 ≤
      ∑ other ∈ graph.reachable roots, (graph.children other).count child := by
    have hle := followed_le (update_start hfollowed hnext) (graph.reachable roots) child
    rwa [sum_count_update hparent, if_pos rfl] at hle
  have hone : (followed parent).count child + 1 ≤
      ∑ other ∈ graph.reachable roots, (followed other).count child + 1 :=
    Nat.add_le_add_right (Finset.single_le_sum
      (f := fun other => (followed other).count child) (fun _ _ => Nat.zero_le _) hparent) 1
  have hfails : ∀ {bound}, 2 ^ 63 ≤ bound →
      bound ≤ (followed parent).count child + 1 ∨
        bound ≤ ∑ other ∈ graph.reachable roots, (followed other).count child + 1 →
      graph.AggregationFailure roots := fun hbound h =>
    .edges child hchild (hbound.trans (h.elim (fun h => (h.trans hone).trans htotal)
      fun h => h.trans htotal))
  rw [discoverRebuildEdge]
  apply Ends.bind ((hdiscovering.edge_count parent child).mono (fun _ h => h)
    (Corrupts.mono fun h => hfails (by norm_num) (Or.inl h)))
  rintro _ rfl
  apply Ends.bind ((sqliteI64FromU64_ends _ _).mono (fun _ h => h)
    (Corrupts.mono fun h => hfails h (Or.inl le_rfl)))
  rintro _ rfl
  rw [hdiscovering.row_getD]
  apply Ends.bind ((addedCount_ends _ 1 _ _).mono (fun _ h => h)
    (Corrupts.mono fun h => hfails (by norm_num) (Or.inr h)))
  rintro _ rfl
  apply Ends.bind ((sqliteI64FromU64_ends _ _).mono (fun _ h => h)
    (Corrupts.mono fun h => hfails h (Or.inr le_rfl)))
  rintro _ rfl
  exact hdiscovering.follow hparent child

/-- The entries that a leaf's table has seen with one more. -/
theorem Discovering.see
    (hdiscovering : Discovering graph roots taken done followed seen tables)
    (leaf : ManifestRef) (entry : LeafEntry) (row : RebuildLeafObject)
    (hcount : row.occurrenceCount =
      ((seen leaf).countP (·.objectId = entry.objectId) + 1 : ℕ))
    (hsize : row.expectedSizeBytes = entry.sizeBytes.toNat)
    (hagree : ∀ other ∈ seen leaf, other.objectId = entry.objectId →
      other.sizeBytes.toNat = entry.sizeBytes.toNat) :
    Discovering graph roots taken done followed
      (Function.update seen leaf (seen leaf ++ [entry]))
      { tables with leafObjects := tables.leafObjects.insert (leaf, entry.objectId) row } where
  mem_chunks := hdiscovering.mem_chunks
  row := hdiscovering.row
  pending := hdiscovering.pending
  edge := hdiscovering.edge
  object other objectId hnone := by
    by_cases hsame : (other, objectId) = (leaf, entry.objectId)
    · rw [hsame, Finmap.lookup_insert] at hnone
      exact absurd hnone nofun
    · rw [Finmap.lookup_insert_of_ne _ hsame] at hnone
      by_cases hother : other = leaf
      · subst hother
        rw [Function.update_self]
        intro seenEntry hmem
        rcases List.mem_append.mp hmem with hmem | hmem
        · exact hdiscovering.object other objectId hnone seenEntry hmem
        · rw [List.mem_singleton.mp hmem]
          exact fun h => hsame (by rw [h])
      · rw [Function.update_of_ne hother]
        exact hdiscovering.object other objectId hnone
  object_row other objectId found hfound := by
    by_cases hsame : (other, objectId) = (leaf, entry.objectId)
    · rw [hsame, Finmap.lookup_insert, Option.some.injEq] at hfound
      cases hsame
      rw [Function.update_self, ← hfound]
      refine ⟨?_, entry.sizeBytes.toNat, hsize, ?_, entry, by simp, rfl⟩
      · rw [hcount, List.countP_append]
        simp
      · intro seenEntry hmem hobject
        rcases List.mem_append.mp hmem with hmem | hmem
        · exact hagree seenEntry hmem hobject
        · rw [List.mem_singleton.mp hmem]
    · rw [Finmap.lookup_insert_of_ne _ hsame] at hfound
      by_cases hother : other = leaf
      · subst hother
        have hobject : entry.objectId ≠ objectId := fun h => hsame (by rw [h])
        rcases hdiscovering.object_row other objectId found hfound with
          ⟨hcount', size, hsize', hagree', seenEntry, hmem, hid⟩
        rw [Function.update_self]
        refine ⟨?_, size, hsize', ?_, seenEntry, List.mem_append_left _ hmem, hid⟩
        · rw [hcount', List.countP_append]
          simp [hobject]
        · intro other' hmem' hid'
          rcases List.mem_append.mp hmem' with hmem' | hmem'
          · exact hagree' other' hmem' hid'
          · rw [List.mem_singleton.mp hmem'] at hid'
            exact absurd hid' hobject
      · rw [Function.update_of_ne hother]
        exact hdiscovering.object_row other objectId found hfound
  taken_known := hdiscovering.taken_known
  done_taken := hdiscovering.done_taken

/-- One entry of a leaf into the tables. -/
theorem discoverRebuildLeafObject_ends
    (hdiscovering : Discovering graph roots taken done followed seen tables)
    {leaf : ManifestRef} {entry : LeafEntry} {rest : List LeafEntry}
    (hleaf : leaf ∈ graph.reachable roots)
    (hnext : graph.entries leaf = seen leaf ++ entry :: rest) :
    Ends (discoverRebuildLeafObject leaf tables entry)
      (Discovering graph roots taken done followed
        (Function.update seen leaf (seen leaf ++ [entry])))
      (Corrupts (graph.AggregationFailure roots)) := by
  have hreachable := ManifestGraph.mem_reachable.mp hleaf
  have hentry : entry ∈ graph.entries leaf := by rw [hnext]; simp
  have hcount : (seen leaf).countP (·.objectId = entry.objectId) + 1 ≤
      graph.occurrences leaf entry.objectId := by
    rw [ManifestGraph.occurrences, hnext, List.countP_append, List.countP_cons_of_pos (by simp)]
    omega
  rw [discoverRebuildLeafObject]
  split
  · next row hrow =>
      rcases hdiscovering.object_row leaf entry.objectId row hrow with
        ⟨hoccurrences, size, hsize, hagree, other, hother, hid⟩
      rw [hsize, rebuildU64_natCast, except_bind_ok]
      refine Ends.guard (fun hconflict => ⟨⟨_, rfl⟩, ?_⟩) fun hsame => ?_
      · refine .conflict ⟨leaf, leaf, hreachable, hreachable, other, ?_, entry, hentry, hid, ?_⟩
        · rw [hnext]
          exact List.mem_append_left _ hother
        · intro h
          rw [← h, hagree other hother hid] at hconflict
          exact hconflict rfl
      · have hsize' : size = entry.sizeBytes.toNat := not_not.mp hsame
        rw [hoccurrences]
        apply Ends.bind ((addedCount_ends _ 1 _ _).mono (fun _ h => h)
          (Corrupts.mono fun h => .occurrences leaf hleaf entry.objectId
            ((le_trans (by norm_num) h).trans hcount)))
        rintro _ rfl
        apply Ends.bind ((sqliteI64FromU64_ends _ _).mono (fun _ h => h)
          (Corrupts.mono fun h => .occurrences leaf hleaf entry.objectId (h.trans hcount)))
        rintro _ rfl
        exact hdiscovering.see leaf entry _ rfl (congrArg Nat.cast hsize')
          fun other hother hid => hsize' ▸ hagree other hother hid
  · next hnone =>
      have hobject := hdiscovering.object leaf entry.objectId hnone
      apply Ends.bind ((sqliteI64FromU64_ends _ _).mono (fun _ h => h)
        (Corrupts.mono fun h => .size ⟨leaf, hreachable, entry, hentry, h⟩))
      rintro _ rfl
      refine hdiscovering.see leaf entry _ ?_ rfl fun other hother hid =>
        absurd hid (hobject other hother)
      rw [List.countP_eq_zero.mpr fun other hother => by simpa using hobject other hother]
      rfl

/-! A chunk, and the loop. -/

theorem Discovering.take
    (hdiscovering : Discovering graph roots done done followed seen tables)
    {next : ManifestRef} (hnext : next ∈ tables.pending) :
    Discovering graph roots (insert next done) done followed seen
      { tables with pending := tables.pending.erase next } where
  mem_chunks := hdiscovering.mem_chunks
  row := hdiscovering.row
  pending reference := by
    rw [Finset.mem_erase, hdiscovering.pending, Finset.mem_insert, not_or]
    exact ⟨fun ⟨hne, hmem, hdone⟩ => ⟨hmem, hne, hdone⟩,
      fun ⟨hmem, hne, hdone⟩ => ⟨hne, hmem, hdone⟩⟩
  edge := hdiscovering.edge
  object := hdiscovering.object
  object_row := hdiscovering.object_row
  taken_known reference htaken := by
    rcases Finset.mem_insert.mp htaken with rfl | hdone
    · exact ((hdiscovering.pending reference).mp hnext).1
    · exact hdiscovering.taken_known reference hdone
  done_taken := Finset.subset_insert next done

theorem Discovering.finish {next : ManifestRef}
    (hdiscovering : Discovering graph roots (insert next done) done followed seen tables) :
    Discovering graph roots (insert next done) (insert next done) followed seen
      (tables.update next fun row => { row with discovered := true }) := by
  have hknown := hdiscovering.taken_known next (Finset.mem_insert_self next done)
  rcases Finmap.mem_iff.mp hknown with ⟨row, hrow⟩
  rw [RebuildTables.update, hrow]
  have hmem : ∀ reference, reference ∈ tables.chunks.insert next { row with discovered := true } ↔
      reference ∈ tables.chunks := fun reference => by
    rw [Finmap.mem_insert]
    exact ⟨fun h => h.elim (fun h => h ▸ hknown) id, Or.inr⟩
  exact {
    mem_chunks := fun reference => (hmem reference).trans (hdiscovering.mem_chunks reference)
    row := fun reference found hfound => by
      by_cases hsame : reference = next
      · subst hsame
        rw [Finmap.lookup_insert, Option.some.injEq] at hfound
        rw [← hfound, hdiscovering.row reference row hrow]
        simp
      · rw [Finmap.lookup_insert_of_ne _ hsame] at hfound
        rw [hdiscovering.row reference found hfound]
        simp [hsame]
    pending := fun reference => (hdiscovering.pending reference).trans
      (and_congr_left fun _ => (hmem reference).symm)
    edge := hdiscovering.edge
    object := hdiscovering.object
    object_row := hdiscovering.object_row
    taken_known := fun reference htaken =>
      (hmem reference).mpr (hdiscovering.taken_known reference htaken)
    done_taken := Finset.Subset.refl _ }

/-- What the chunks of a set hold, and the others nothing. -/
def heldBy {α : Type} (done : Finset ManifestRef) (held : ManifestRef → List α)
    (reference : ManifestRef) : List α :=
  if reference ∈ done then held reference else []

theorem heldBy_insert {α : Type} (done : Finset ManifestRef) (held : ManifestRef → List α)
    (next : ManifestRef) :
    Function.update (heldBy done held) next (held next) = heldBy (insert next done) held := by
  funext reference
  by_cases hsame : reference = next
  · subst hsame
    simp [heldBy]
  · simp [heldBy, hsame]

theorem heldBy_start {α : Type} (done : Finset ManifestRef) (held : ManifestRef → List α)
    (reference : ManifestRef) : heldBy done held reference <+: held reference := by
  by_cases hdone : reference ∈ done
  · rw [heldBy, if_pos hdone]
  · rw [heldBy, if_neg hdone]
    exact List.nil_prefix

variable (graph roots) in
/-- Between two turns: the chunks that are done have been written, the known others are
pending. -/
structure Discovered (done : Finset ManifestRef) (tables : RebuildTables) : Prop where
  subset : done ⊆ graph.reachable roots
  tables : Discovering graph roots done done (heldBy done graph.children)
    (heldBy done graph.entries) tables

theorem Discovered.reachable (hdiscovered : Discovered graph roots done tables)
    {reference : ManifestRef} (hknown : reference ∈ tables.chunks) :
    reference ∈ graph.reachable roots := by
  rcases (hdiscovered.tables.mem_chunks reference).mp hknown with hroot | ⟨parent, hparent, hmem⟩
  · exact ManifestGraph.reachable_below.root reference hroot
  · exact ManifestGraph.reachable_below.child parent hparent reference
      ((heldBy_start done graph.children parent).subset hmem)

theorem discoverRebuildContent_ends
    (hdiscovering : Discovering graph roots taken done (heldBy done graph.children)
      (heldBy done graph.entries) tables)
    {next : ManifestRef} {chunk : DecodedChunk} (hload : graph.load next = .ok chunk)
    (hreachable : next ∈ graph.reachable roots) (hnew : next ∉ done) :
    Ends (discoverRebuildContent next tables chunk)
      (Discovering graph roots taken done (heldBy (insert next done) graph.children)
        (heldBy (insert next done) graph.entries))
      (Corrupts (graph.AggregationFailure roots)) := by
  have hchildren := ManifestGraph.children_eq hload
  have hentries := ManifestGraph.entries_eq hload
  have hnone : ∀ {α : Type} (held : ManifestRef → List α), held next = [] →
      heldBy (insert next done) held = heldBy done held := fun held hheld => by
    rw [← heldBy_insert, hheld]
    exact Function.update_eq_self_iff.mpr (if_neg hnew).symm
  cases chunk with
  | node node bytes =>
      rw [hnone graph.entries (hentries.trans rfl), ← heldBy_insert done graph.children]
      apply Ends.mono (Ends.foldlM (fun passed => Discovering graph roots taken done
        (Function.update (heldBy done graph.children) next passed) (heldBy done graph.entries))
        ?_ ?_) (fun _ h => hchildren ▸ h) (fun _ h => h)
      · rwa [Function.update_eq_self_iff.mpr (if_neg hnew).symm]
      · intro passed child rest state hvalues hinv
        have hstarts : ∀ other, Function.update (heldBy done graph.children) next passed other <+:
            graph.children other := fun other => by
          by_cases hsame : other = next
          · subst hsame
            rw [Function.update_self, hchildren]
            exact ⟨child :: rest, hvalues.symm⟩
          · rw [Function.update_of_ne hsame]
            exact heldBy_start done graph.children other
        have hsplit : graph.children next =
            Function.update (heldBy done graph.children) next passed next ++ child :: rest := by
          rw [Function.update_self, hchildren]
          exact hvalues
        have hstep := discoverRebuildEdge_ends hinv hstarts hreachable hsplit
        rwa [Function.update_self, Function.update_idem] at hstep
  | leaf leaf bytes =>
      rw [hnone graph.children (hchildren.trans rfl), ← heldBy_insert done graph.entries]
      apply Ends.mono (Ends.foldlM (fun passed => Discovering graph roots taken done
        (heldBy done graph.children) (Function.update (heldBy done graph.entries) next passed))
        ?_ ?_) (fun _ h => hentries ▸ h) (fun _ h => h)
      · rwa [Function.update_eq_self_iff.mpr (if_neg hnew).symm]
      · intro passed entry rest state hvalues hinv
        have hsplit : graph.entries next =
            Function.update (heldBy done graph.entries) next passed next ++ entry :: rest := by
          rw [Function.update_self, hentries]
          exact hvalues
        have hstep := discoverRebuildLeafObject_ends hinv hreachable hsplit
        rwa [Function.update_self, Function.update_idem] at hstep

/-- One turn of the loop. -/
theorem discoverRebuildChunk_ends (hloads : graph.Loads roots)
    (hdiscovered : Discovered graph roots done tables) {next : ManifestRef}
    (hnext : next ∈ tables.pending) :
    Ends (discoverRebuildChunk graph.load tables next)
      (Discovered graph roots (insert next done))
      (Corrupts (graph.AggregationFailure roots)) := by
  rcases (hdiscovered.tables.pending next).mp hnext with ⟨hknown, hnew⟩
  have hreachable := hdiscovered.reachable hknown
  rcases hloads next (ManifestGraph.mem_reachable.mp hreachable) with ⟨chunk, hload⟩
  have hkind : next.kind ≠ .root := by
    rw [← graph.kind_eq next chunk hload]
    cases chunk <;> exact nofun
  rw [discoverRebuildChunk, manifestRefFromSql, if_neg hkind, except_bind_ok, hload,
    snapshotV2IndexError, Except.mapError, except_bind_ok]
  apply Ends.bind (discoverRebuildContent_ends (hdiscovered.tables.take hnext) hload
    hreachable hnew)
  intro written hwritten
  exact ⟨Finset.insert_subset hreachable hdiscovered.subset, hwritten.finish⟩

theorem Discovered.complete (hdiscovered : Discovered graph roots done tables)
    (hempty : tables.pending = ∅) : done = graph.reachable roots := by
  have hdone : ∀ reference ∈ tables.chunks, reference ∈ done := fun reference hknown => by
    by_contra hnew
    have hpending := (hdiscovered.tables.pending reference).mpr ⟨hknown, hnew⟩
    rw [hempty] at hpending
    exact Finset.notMem_empty reference hpending
  refine Finset.Subset.antisymm hdiscovered.subset (ManifestGraph.reachable_subset ?_ ?_)
  · exact fun root hroot => hdone root
      ((hdiscovered.tables.mem_chunks root).mpr (Or.inl hroot))
  · intro parent hparent child hchild
    refine hdone child ((hdiscovered.tables.mem_chunks child).mpr
      (Or.inr ⟨parent, hdiscovered.subset hparent, ?_⟩))
    rw [heldBy, if_pos hparent]
    exact hchild

/-- The loop ends when every reachable chunk has been written. -/
theorem discoverRebuildManifestGraph_ends (hloads : graph.Loads roots) (turns : ℕ)
    (hdiscovered : Discovered graph roots done tables)
    (hturns : (graph.reachable roots \ done).card < turns) :
    ∃ result, discoverRebuildManifestGraph graph.load turns tables = some result ∧
      Ends result (Discovered graph roots (graph.reachable roots))
        (Corrupts (graph.AggregationFailure roots)) := by
  induction turns generalizing done tables with
  | zero => exact absurd hturns (Nat.not_lt_zero _)
  | succ turns ih =>
      rw [discoverRebuildManifestGraph]
      cases hhead : (tables.pending.sort (· ≤ ·)).head? with
      | none =>
          have hempty : tables.pending = ∅ := by
            rw [← Finset.sort_toFinset tables.pending (· ≤ ·),
              List.head?_eq_none_iff.mp hhead, List.toFinset_nil]
          exact ⟨.ok tables, rfl, hdiscovered.complete hempty ▸ hdiscovered⟩
      | some next =>
          have hnext : next ∈ tables.pending :=
            (Finset.mem_sort (· ≤ ·)).mp (List.mem_of_head? hhead)
          have hstep := discoverRebuildChunk_ends hloads hdiscovered hnext
          cases hchunk : discoverRebuildChunk graph.load tables next with
          | error error =>
              rw [hchunk] at hstep
              simp only [hchunk]
              exact ⟨.error error, rfl, hstep⟩
          | ok written =>
              rw [hchunk] at hstep
              simp only [hchunk]
              apply ih hstep
              have hmem : next ∈ graph.reachable roots \ done := Finset.mem_sdiff.mpr
                ⟨hstep.subset (Finset.mem_insert_self next done),
                  ((hdiscovered.tables.pending next).mp hnext).2⟩
              rw [Finset.sdiff_insert]
              exact lt_of_lt_of_le (Finset.card_erase_lt_of_mem hmem)
                (Nat.le_of_lt_succ hturns)

end CheckPo
