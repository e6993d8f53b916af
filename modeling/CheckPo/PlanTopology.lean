/-
The directory changes of a plan: why they are needed, and that they can still be made
while the project has not changed.
-/
import CheckPo.DiscardExpansion
import CheckPo.PlanValidation

namespace CheckPo

variable {tree : WorkingTree}

/-- A path below a file can only be blocked by it. -/
theorem kind_eq_blockedByFile {path blocker : TrackedUnityFilePath} {kind : CurrentPathKind}
    {file : ProjectFile} (h : tree.Stands path.segments kind)
    (hbelow : path.isStrictDescendant blocker = true)
    (hfile : tree.lookup blocker.segments = some (.file file)) :
    kind = .blockedByFile blocker := by
  rcases TrackedUnityFilePath.isStrictDescendant_iff.mp hbelow with ⟨rest, hrest, hpath⟩
  have hnone : ∀ {base more : Path} {found : ProjectFile},
      tree.lookup base = some (.file found) → more ≠ [] → tree.lookup (base ++ more) = none := by
    intro base more found hfound hmore
    apply WorkingTree.not_below_of_ne_directory hmore
    rw [hfound]
    exact nofun
  cases kind with
  | missing =>
      rcases h with ⟨base, name, others, heq, hbase, hname⟩
      rw [hpath] at heq
      rcases List.append_eq_append_iff.mp heq with ⟨more, hmore, -⟩ | ⟨more, hmore, htail⟩
      · rcases more with _ | ⟨next, more⟩
        · rw [List.append_nil] at hmore
          rw [hmore, hfile] at hbase
          cases hbase
        · rw [hmore, hnone hfile (List.cons_ne_nil _ _)] at hbase
          cases hbase
      · rcases more with _ | ⟨next, more⟩
        · rw [List.append_nil] at hmore
          rw [← hmore, hfile] at hbase
          cases hbase
        · rw [List.cons_append, List.cons.injEq] at htail
          rw [← htail.1] at hmore
          rw [hmore] at hfile
          rcases more with _ | ⟨second, more⟩
          · rw [hname] at hfile
            cases hfile
          · rw [show base ++ name :: second :: more = (base ++ [name]) ++ second :: more by simp]
              at hfile
            rw [WorkingTree.directory_above (List.cons_ne_nil second more)
              (by rw [hfile]; exact nofun)] at hname
            cases hname
  | file =>
      rcases h with ⟨found, hfound⟩
      rw [hpath, hnone hfile hrest] at hfound
      cases hfound
  | directory =>
      have hgone := hnone hfile hrest
      rw [← hpath] at hgone
      exact nomatch hgone.symm.trans h
  | blockedByFile other =>
      rcases h with ⟨others, -, heq, found, hfound⟩
      rw [hpath] at heq
      have hsame : other.segments = blocker.segments := by
        rcases List.append_eq_append_iff.mp heq with ⟨more, hmore, -⟩ | ⟨more, hmore, -⟩
        · rcases more with _ | ⟨next, more⟩
          · rw [hmore, List.append_nil]
          · rw [hmore, hnone hfile (List.cons_ne_nil _ _)] at hfound
            cases hfound
        · rcases more with _ | ⟨next, more⟩
          · rw [hmore, List.append_nil]
          · rw [hmore, hnone hfound (List.cons_ne_nil _ _)] at hfile
            cases hfile
      rw [TrackedUnityFilePath.segments_injective hsame]

/-! Directories that go. -/

section Blocking

variable {deleted dirs : Finset TrackedUnityFilePath} {path directory : TrackedUnityFilePath}

/-- The directories that block a file are the one in its place and those below. -/
theorem directory_of_blocking (h : blockingDirectories tree deleted path = .ok dirs)
    (hdirectory : directory ∈ dirs) :
    tree.symlinkMetadata directory.segments = .ok .directory ∧
      directory.isSameOrDescendant path = true := by
  have hnone : ∀ {sets : Finset TrackedUnityFilePath},
      (.ok ∅ : CheckPoResult (Finset TrackedUnityFilePath)) = .ok sets → directory ∉ sets := by
    intro sets heq
    rw [← Except.ok.inj heq]
    exact Finset.notMem_empty directory
  rw [blockingDirectories] at h
  split at h
  · cases h
  · next hpath =>
      rcases ((gatherInto_eq_ok.mp h).2 directory).mp hdirectory with
        hempty | ⟨entry, hentry, part, hpart, hin⟩
      · exact absurd hempty (Finset.notMem_empty directory)
      · split at hpart
        · cases hpart
        · cases hpart
        · next hmetadata =>
            simp only [except_bind_eq_ok, except_pure_eq_ok] at hpart
            rcases hpart with ⟨found, hfound, rfl⟩
            rw [Finset.mem_singleton] at hin
            subst hin
            rcases List.mem_cons.mp hentry with rfl | hwalk
            · rw [TrackedUnityFilePath.joinParts_segments, TrackedUnityFilePath.parse_text, Except.ok.injEq] at hfound
              subst hfound
              exact ⟨hpath, by simp [TrackedUnityFilePath.isSameOrDescendant]⟩
            · have hsegments := segments_of_mem_walk hwalk hfound
              rcases FileTree.mem_below.mp (FileTree.mem_walk.mp hwalk) with
                ⟨-, ⟨rest, hrest⟩, hne⟩
              refine ⟨hsegments ▸ hmetadata, ?_⟩
              rw [TrackedUnityFilePath.isSameOrDescendant, Bool.or_eq_true]
              refine Or.inr (TrackedUnityFilePath.isStrictDescendant_iff.mpr ⟨rest, ?_, ?_⟩)
              · rintro rfl
                exact hne (by rw [← hrest, List.append_nil])
              · rw [hsegments, hrest]
        · simp only [except_bind_eq_ok] at hpart
          rcases hpart with ⟨tracked, -, hpart⟩
          split at hpart
          · cases hpart
          · rw [except_pure_eq_ok] at hpart
            exact absurd (hpart ▸ hin) (Finset.notMem_empty directory)
        · cases hpart
  · exact absurd hdirectory (hnone h)
  · cases h
  · exact absurd hdirectory (hnone h)
  · exact absurd hdirectory (hnone h)
  · cases h

/-- A directory in the place of a file goes. -/
theorem mem_blocking (h : blockingDirectories tree deleted path = .ok dirs)
    (hpath : tree.symlinkMetadata path.segments = .ok .directory) : path ∈ dirs := by
  rw [blockingDirectories, hpath] at h
  rcases gatherInto_eq_ok.mp h with ⟨-, hmem⟩
  rw [hmem]
  refine Or.inr ⟨path.segments, List.mem_cons_self, {path}, ?_, Finset.mem_singleton_self path⟩
  simp only [hpath, TrackedUnityFilePath.joinParts_segments, TrackedUnityFilePath.parse_text]
  rfl

end Blocking

/-! Directories that come. -/

/-- Nothing stands at a path, or only a file that goes, at it or above it. -/
def Vacated (tree : WorkingTree) (before : Finset TrackedUnityFilePath) (path : Path) : Prop :=
  (∃ base name rest, path = base ++ name :: rest ∧ tree.lookup base = some .directory ∧
      tree.lookup (base ++ [name]) = none) ∨
    ∃ blocker ∈ before, ∃ rest file, path = blocker.segments ++ rest ∧
      tree.lookup blocker.segments = some (.file file)

section Coming

variable {before : Finset TrackedUnityFilePath}

theorem Vacated.append {path : Path} (h : Vacated tree before path) (more : Path) :
    Vacated tree before (path ++ more) := by
  rcases h with ⟨base, name, rest, rfl, hbase, hname⟩ | ⟨blocker, hblocker, rest, file, rfl, hfile⟩
  · exact Or.inl ⟨base, name, rest ++ more, by simp, hbase, hname⟩
  · exact Or.inr ⟨blocker, hblocker, rest ++ more, file, by simp, hfile⟩

/-- What a lookup says of a vacated path. -/
theorem Vacated.symlinkMetadata {path : TrackedUnityFilePath}
    (h : Vacated tree before path.segments) :
    tree.symlinkMetadata path.segments = .error .notFound ∨
      (tree.symlinkMetadata path.segments = .error .notADirectory ∧
        hasTrackedAncestor path before = true) ∨
      path ∈ before ∧ ∃ file, tree.symlinkMetadata path.segments = .ok (.file file) := by
  rcases h with ⟨base, name, rest, hpath, hbase, hname⟩ |
    ⟨blocker, hblocker, rest, file, hpath, hfile⟩
  · rw [hpath]
    exact Or.inl (WorkingTree.resolveFrom_missing hbase hname)
  · rcases rest with _ | ⟨next, others⟩
    · rw [List.append_nil] at hpath
      obtain rfl := TrackedUnityFilePath.segments_injective hpath
      exact Or.inr (Or.inr ⟨hblocker, file, WorkingTree.symlinkMetadata_entry hfile⟩)
    · refine Or.inr (Or.inl ⟨?_, ?_⟩)
      · rw [hpath]
        exact WorkingTree.resolveFrom_belowFile (List.cons_ne_nil _ _) hfile
      · rw [hasTrackedAncestor, decide_eq_true_iff]
        exact ⟨blocker, hblocker, TrackedUnityFilePath.isStrictDescendant_iff.mpr
          ⟨next :: others, List.cons_ne_nil _ _, hpath⟩⟩

theorem recheckCreatedDirectory_of_vacated {directory : TrackedUnityFilePath}
    (h : Vacated tree before directory.segments) :
    recheckCreatedDirectory tree before directory = .ok () := by
  rw [recheckCreatedDirectory]
  rcases h.symlinkMetadata with hmissing | ⟨hbelow, hancestor⟩ | ⟨hbefore, file, hfile⟩
  · rw [hmissing]
  · rw [hbelow]
    simp only [hancestor, and_self, if_true]
  · rw [hfile]
    exact if_pos hbefore

/-- Below what is vacated a lookup finds nothing. -/
theorem lookup_of_symlinkMetadata {done : Path} {name : String} {entry : TreeEntry ProjectFile}
    (hdone : tree.lookup done = some .directory ∨ Vacated tree before done)
    (h : tree.symlinkMetadata (done ++ [name]) = .ok entry) :
    tree.lookup (done ++ [name]) = some entry := by
  rcases hdone with hdirectory | ⟨base, gone, rest, rfl, hbase, hgone⟩ |
    ⟨blocker, -, rest, file, rfl, hfile⟩
  · rw [WorkingTree.symlinkMetadata_name hdirectory] at h
    rcases hentry : tree.lookup (done ++ [name]) with _ | found
    · rw [hentry, orError] at h
      cases h
    · rw [hentry, orError, Except.ok.injEq] at h
      rw [h]
  · rw [List.append_assoc, List.cons_append, WorkingTree.symlinkMetadata,
      WorkingTree.resolveFrom_missing hbase hgone] at h
    cases h
  · rw [List.append_assoc, WorkingTree.symlinkMetadata,
      WorkingTree.resolveFrom_belowFile (by simp) hfile] at h
    cases h

theorem vacated_of_notFound {done : Path} {name : String}
    (hdone : tree.lookup done = some .directory ∨ Vacated tree before done)
    (h : tree.symlinkMetadata (done ++ [name]) = .error .notFound) :
    Vacated tree before (done ++ [name]) := by
  rcases hdone with hdirectory | hvacated
  · rw [WorkingTree.symlinkMetadata_name hdirectory] at h
    rcases hentry : tree.lookup (done ++ [name]) with _ | found
    · exact Or.inl ⟨done, name, [], rfl, hdirectory, hentry⟩
    · rw [hentry, orError] at h
      cases h
  · exact hvacated.append [name]

/-- A directory comes where nothing stands, above the file that needs it. -/
theorem directory_of_missing {path : TrackedUnityFilePath} {rest done : Path}
    {missingOrBlocked : Bool} {dirs : Finset TrackedUnityFilePath}
    (hpath : path.segments = done ++ rest)
    (hblocked : missingOrBlocked = true → Vacated tree before done)
    (hdone : tree.lookup done = some .directory ∨ Vacated tree before done)
    (hroot : done = [] → ∀ name others, rest = name :: others →
      tree.lookup [name] = some .directory ∨ Vacated tree before [name])
    (h : missingDirectoriesFrom tree before path done missingOrBlocked rest = .ok dirs) :
    ∀ directory ∈ dirs, path.isStrictDescendant directory = true ∧
      Vacated tree before directory.segments := by
  induction rest generalizing done missingOrBlocked dirs with
  | nil =>
      rw [missingDirectoriesFrom, Except.ok.injEq] at h
      · rw [← h]
        exact fun directory hin => absurd hin (Finset.notMem_empty directory)
      · intro name leaf rest hcons
        cases hcons
  | cons name rest ih =>
      rcases rest with _ | ⟨leaf, rest⟩
      · rw [missingDirectoriesFrom, Except.ok.injEq] at h
        · rw [← h]
          exact fun directory hin => absurd hin (Finset.notMem_empty directory)
        · intro other leaf rest hcons
          cases hcons
      have hnext : path.segments = (done ++ [name]) ++ leaf :: rest := by simpa using hpath
      have habove : ∀ directory, TrackedUnityFilePath.parse (joinParts (done ++ [name])) =
          .ok directory → directory.segments = done ++ [name] ∧
            path.isStrictDescendant directory = true := by
        intro directory hparse
        have hsegments := TrackedUnityFilePath.segments_of_parse hparse
          (fun part hpart => TrackedUnityFilePath.plainName_of_mem_segments
            (hnext ▸ List.mem_append_left _ hpart)) (by simp)
        exact ⟨hsegments, TrackedUnityFilePath.isStrictDescendant_iff.mpr
          ⟨leaf :: rest, List.cons_ne_nil _ _, hsegments.symm ▸ hnext⟩⟩
      have hcontinue : ∀ {blocked : Bool} {more : Finset TrackedUnityFilePath},
          (blocked = true → Vacated tree before (done ++ [name])) →
          (tree.lookup (done ++ [name]) = some .directory ∨
            Vacated tree before (done ++ [name])) →
          missingDirectoriesFrom tree before path (done ++ [name]) blocked (leaf :: rest) =
            .ok more →
          ∀ directory ∈ more, path.isStrictDescendant directory = true ∧
            Vacated tree before directory.segments := by
        intro blocked more hvacated hstands hmore
        exact ih hnext hvacated hstands (by simp) hmore
      have hinsert : ∀ {directory : TrackedUnityFilePath} {more : Finset TrackedUnityFilePath},
          TrackedUnityFilePath.parse (joinParts (done ++ [name])) = .ok directory →
          Vacated tree before (done ++ [name]) →
          missingDirectoriesFrom tree before path (done ++ [name]) true (leaf :: rest) =
            .ok more →
          ∀ found ∈ insert directory more, path.isStrictDescendant found = true ∧
            Vacated tree before found.segments := by
        intro directory more hparse hvacated hmore found hfound
        rcases Finset.mem_insert.mp hfound with rfl | hin
        · rcases habove found hparse with ⟨hsegments, hstrict⟩
          exact ⟨hstrict, hsegments.symm ▸ hvacated⟩
        · exact hcontinue (fun _ => hvacated) (Or.inr hvacated) hmore found hin
      rw [missingDirectoriesFrom] at h
      split at h
      · next hempty =>
          -- the tracked root is passed over
          subst hempty
          have hname := hroot rfl name (leaf :: rest) rfl
          apply hcontinue (fun hb => (hblocked hb).append [name]) hname
          exact h
      · simp only [except_bind_eq_ok] at h
        rcases h with ⟨directory, hparse, h⟩
        split at h
        · next hflag =>
            simp only [except_bind_eq_ok, except_pure_eq_ok] at h
            rcases h with ⟨more, hmore, rfl⟩
            exact hinsert hparse ((hblocked hflag).append [name]) hmore
        · split at h
          · cases h
          · next hmetadata =>
              have hname := lookup_of_symlinkMetadata hdone hmetadata
              exact hcontinue (by simp) (Or.inl hname) h
          · next file hmetadata =>
              have hname := lookup_of_symlinkMetadata hdone hmetadata
              rw [except_ensure_eq_ok] at h
              rcases h with ⟨hbefore, h⟩
              simp only [except_bind_eq_ok, except_pure_eq_ok] at h
              rcases h with ⟨more, hmore, rfl⟩
              have hsegments := (habove directory hparse).1
              apply hinsert hparse ?_ hmore
              exact Or.inr ⟨directory, hbefore, [], file, by simp [hsegments], hsegments ▸ hname⟩
          · cases h
          · next hmetadata =>
              simp only [except_bind_eq_ok, except_pure_eq_ok] at h
              rcases h with ⟨more, hmore, rfl⟩
              exact hinsert hparse (vacated_of_notFound hdone hmetadata) hmore
          · cases h

/-- A file in the place of a directory that is needed goes, and the directory comes. -/
theorem blocker_of_missing {path blocker : TrackedUnityFilePath} {file : ProjectFile}
    (hblocker : tree.lookup blocker.segments = some (.file file))
    {rest done more tail : Path} {dirs : Finset TrackedUnityFilePath}
    (hpath : path.segments = done ++ rest) (hsegments : blocker.segments = done ++ more)
    (hmore : more ≠ []) (hrest : rest = more ++ tail) (htail : tail ≠ [])
    (h : missingDirectoriesFrom tree before path done false rest = .ok dirs) :
    blocker ∈ before ∧ blocker ∈ dirs := by
  induction rest generalizing done more dirs with
  | nil => exact absurd (List.append_eq_nil_iff.mp hrest.symm).1 hmore
  | cons name rest ih =>
      rcases List.exists_cons_of_ne_nil hmore with ⟨first, more, rfl⟩
      rcases rest with _ | ⟨leaf, rest⟩
      · have hlength := congrArg List.length hrest
        have htailLength := List.length_pos_of_ne_nil htail
        simp only [List.length_append, List.length_cons, List.length_nil] at hlength
        omega
      have hname : name = first := (List.cons.inj hrest).1
      subst hname
      have hafter : leaf :: rest = more ++ tail := (List.cons.inj hrest).2
      have hnext : path.segments = (done ++ [name]) ++ leaf :: rest := by simpa using hpath
      rw [missingDirectoriesFrom] at h
      rcases more with _ | ⟨second, others⟩
      · -- the blocker itself, which is no tracked root
        have hdone : done ≠ [] := by
          rintro rfl
          have hlength := blocker.two_le_length_segments
          rw [hsegments] at hlength
          simp at hlength
        have hparse : TrackedUnityFilePath.parse (joinParts (done ++ [name])) = .ok blocker := by
          rw [← hsegments, TrackedUnityFilePath.joinParts_segments,
            TrackedUnityFilePath.parse_text]
        rw [if_neg hdone, hparse, ← hsegments,
          WorkingTree.symlinkMetadata_entry hblocker] at h
        simp only [except_bind_ok, Bool.false_eq_true, if_false, except_ensure_eq_ok,
          except_bind_eq_ok, except_pure_eq_ok] at h
        rcases h with ⟨hbefore, gone, -, rfl⟩
        exact ⟨hbefore, Finset.mem_insert_self _ _⟩
      · have hdeeper : blocker.segments = (done ++ [name]) ++ second :: others := by
          simpa using hsegments
        have hdirectory : tree.lookup (done ++ [name]) = some .directory := by
          apply WorkingTree.directory_above (List.cons_ne_nil second others)
          rw [← hdeeper, hblocker]
          exact Option.some_ne_none _
        have hagain : ∀ {found : Finset TrackedUnityFilePath},
            missingDirectoriesFrom tree before path (done ++ [name]) false (leaf :: rest) =
              .ok found → blocker ∈ before ∧ blocker ∈ found := fun hfound =>
          ih hnext hdeeper (List.cons_ne_nil _ _) hafter hfound
        split at h
        · exact hagain h
        · simp only [except_bind_eq_ok, Bool.false_eq_true, if_false,
            WorkingTree.symlinkMetadata_entry hdirectory] at h
          rcases h with ⟨-, -, h⟩
          exact hagain h

/-- The tracked root above a path that can be reached is there or vacated. -/
theorem root_of_stands {path : TrackedUnityFilePath} {kind : CurrentPathKind}
    (h : tree.Stands path.segments kind) {name : String} {others : Path}
    (hpath : path.segments = name :: others) :
    tree.lookup [name] = some .directory ∨ Vacated tree before [name] := by
  have hothers : others ≠ [] := by
    rintro rfl
    have hlength := path.two_le_length_segments
    rw [hpath] at hlength
    simp at hlength
  have habove : ∀ {more : Path} {entry : TreeEntry ProjectFile}, more ≠ [] →
      tree.lookup (name :: more) = some entry → tree.lookup [name] = some .directory := by
    intro more entry hmore hentry
    apply WorkingTree.directory_above hmore
    rw [List.singleton_append, hentry]
    exact nofun
  cases kind with
  | missing =>
      rcases h with ⟨base, gone, rest, heq, hbase, hgone⟩
      rcases base with _ | ⟨first, base⟩
      · rw [hpath, List.nil_append, List.cons.injEq] at heq
        rw [← heq.1] at hgone
        exact Or.inr (Or.inl ⟨[], name, [], rfl, hbase, hgone⟩)
      · rw [hpath, List.cons_append, List.cons.injEq] at heq
        rw [← heq.1] at hbase
        rcases base with _ | ⟨second, base⟩
        · exact Or.inl hbase
        · exact Or.inl (habove (List.cons_ne_nil _ _) hbase)
  | file =>
      rcases h with ⟨file, hentry⟩
      exact Or.inl (habove hothers (hpath ▸ hentry))
  | directory => exact Or.inl (habove hothers (hpath ▸ h))
  | blockedByFile blocker =>
      rcases h with ⟨rest, -, heq, file, hentry⟩
      have hlength := blocker.two_le_length_segments
      rcases hsegments : blocker.segments with _ | ⟨first, _ | ⟨second, more⟩⟩
      · rw [hsegments] at hlength
        simp at hlength
      · rw [hsegments] at hlength
        simp at hlength
      · rw [hpath, hsegments, List.cons_append, List.cons.injEq] at heq
        rw [hsegments, ← heq.1] at hentry
        exact Or.inl (habove (List.cons_ne_nil _ _) hentry)

end Coming

/-! The changes of a plan. -/

section Changes

variable {operations : List FileOperation} {remove create : List TrackedUnityFilePath}
  {path directory : TrackedUnityFilePath}

theorem planDirectoryTopologyChanges_eq_ok
    (h : planDirectoryTopologyChanges tree operations = .ok (remove, create)) :
    ∃ removed created,
      gatherInto (blockingDirectories tree (deletedFiles operations)) (afterFiles operations) ∅ =
        .ok removed ∧
      gatherInto (fun path => missingDirectoriesFrom tree (beforeFiles operations) path [] false
        path.segments) (afterFiles operations) ∅ = .ok created ∧
      remove = (removed.sort (· ≤ ·)).mergeSort removalOrder ∧ create = created.sort (· ≤ ·) := by
  rw [planDirectoryTopologyChanges, except_bind_eq_ok] at h
  rcases h with ⟨⟨removed, created⟩, hgathered, h⟩
  rcases foldlM_union_pair_eq_ok.mp hgathered with ⟨hremoved, hcreated⟩
  rw [except_pure_eq_ok, Prod.mk.injEq] at h
  exact ⟨removed, created, hremoved, hcreated, h.1.symm, h.2.symm⟩

/-- The directories that go are those that block a file. -/
theorem mem_remove_iff (h : planDirectoryTopologyChanges tree operations = .ok (remove, create)) :
    directory ∈ remove ↔ ∃ path ∈ afterFiles operations, ∃ dirs,
      blockingDirectories tree (deletedFiles operations) path = .ok dirs ∧ directory ∈ dirs := by
  rcases planDirectoryTopologyChanges_eq_ok h with ⟨removed, created, hremoved, -, rfl, -⟩
  rw [List.mem_mergeSort, Finset.mem_sort, (gatherInto_eq_ok.mp hremoved).2 directory]
  exact or_iff_right (Finset.notMem_empty directory)

theorem removed_of_plan (h : planDirectoryTopologyChanges tree operations = .ok (remove, create))
    (hdirectory : directory ∈ remove) :
    ∃ path ∈ afterFiles operations, tree.symlinkMetadata directory.segments = .ok .directory ∧
      directory.isSameOrDescendant path = true := by
  rcases (mem_remove_iff h).mp hdirectory with ⟨path, hpath, dirs, hdirs, hin⟩
  exact ⟨path, hpath, directory_of_blocking hdirs hin⟩

theorem mem_removed_of_plan
    (h : planDirectoryTopologyChanges tree operations = .ok (remove, create))
    (hpath : path ∈ afterFiles operations)
    (hdirectory : tree.symlinkMetadata path.segments = .ok .directory) : path ∈ remove := by
  rcases planDirectoryTopologyChanges_eq_ok h with ⟨removed, created, hremoved, -, -, -⟩
  rcases (gatherInto_eq_ok.mp hremoved).1 path hpath with ⟨dirs, hdirs⟩
  exact (mem_remove_iff h).mpr ⟨path, hpath, dirs, hdirs, mem_blocking hdirs hdirectory⟩

theorem created_of_plan (h : planDirectoryTopologyChanges tree operations = .ok (remove, create))
    (hstands : ∀ path ∈ afterFiles operations, ∃ kind, tree.Stands path.segments kind)
    (hdirectory : directory ∈ create) :
    ∃ path ∈ afterFiles operations, path.isStrictDescendant directory = true ∧
      Vacated tree (beforeFiles operations) directory.segments := by
  rcases planDirectoryTopologyChanges_eq_ok h with ⟨removed, created, -, hcreated, -, rfl⟩
  rw [Finset.mem_sort] at hdirectory
  rcases ((gatherInto_eq_ok.mp hcreated).2 directory).mp hdirectory with
    hempty | ⟨path, hpath, dirs, hdirs, hin⟩
  · exact absurd hempty (Finset.notMem_empty directory)
  · rcases hstands path hpath with ⟨kind, hkind⟩
    exact ⟨path, hpath, directory_of_missing rfl (by simp) (Or.inl tree.rooted)
      (fun _ name others hrest => root_of_stands hkind hrest) hdirs directory hin⟩

theorem blocker_of_plan {blocker : TrackedUnityFilePath}
    (h : planDirectoryTopologyChanges tree operations = .ok (remove, create))
    (hpath : path ∈ afterFiles operations)
    (hblocked : tree.Stands path.segments (.blockedByFile blocker)) :
    blocker ∈ beforeFiles operations ∧ blocker ∈ create := by
  rcases planDirectoryTopologyChanges_eq_ok h with ⟨removed, created, -, hcreated, -, rfl⟩
  rcases hblocked with ⟨tail, htail, hsegments, file, hfile⟩
  rcases (gatherInto_eq_ok.mp hcreated).1 path hpath with ⟨dirs, hdirs⟩
  rcases blocker_of_missing hfile (List.nil_append path.segments).symm
    (List.nil_append blocker.segments).symm blocker.segments_ne_nil hsegments htail hdirs
    with ⟨hbefore, hin⟩
  rw [Finset.mem_sort, (gatherInto_eq_ok.mp hcreated).2 blocker]
  exact ⟨hbefore, Or.inr ⟨path, hpath, dirs, hdirs, hin⟩⟩

end Changes

/-! The order of the changes. -/

theorem sortDedup_eq {order : TrackedUnityFilePath → TrackedUnityFilePath → Bool}
    {paths : List TrackedUnityFilePath}
    (hsorted : paths.Pairwise fun left right => order left right = true) (hnodup : paths.Nodup) :
    sortDedup order paths = paths := by
  rw [sortDedup, List.mergeSort_of_pairwise hsorted]
  exact List.destutter_of_isChain _ paths (List.Pairwise.isChain hnodup)

theorem removalOrder_trans (first second third : TrackedUnityFilePath) :
    removalOrder first second = true → removalOrder second third = true →
      removalOrder first third = true := by
  simp only [removalOrder, Bool.or_eq_true, decide_eq_true_eq, Bool.and_eq_true, beq_iff_eq]
  rintro (hfirst | ⟨hfirst, hle⟩) (hsecond | ⟨hsecond, hnext⟩)
  · exact Or.inl (hsecond.trans hfirst)
  · exact Or.inl (hsecond ▸ hfirst)
  · exact Or.inl (hfirst ▸ hsecond)
  · exact Or.inr ⟨hfirst.trans hsecond, hle.trans hnext⟩

theorem removalOrder_total (left right : TrackedUnityFilePath) :
    (removalOrder left right || removalOrder right left) = true := by
  simp only [removalOrder, Bool.or_eq_true, decide_eq_true_eq, Bool.and_eq_true, beq_iff_eq]
  rcases Nat.lt_trichotomy (left.text.toList.count '/') (right.text.toList.count '/') with
    hlt | heq | hlt
  · exact Or.inr (Or.inl hlt)
  · rcases le_total left right with hle | hle
    · exact Or.inl (Or.inr ⟨heq, hle⟩)
    · exact Or.inr (Or.inr ⟨heq.symm, hle⟩)
  · exact Or.inl (Or.inl hlt)

/-- The changes of a plan are normalized already. -/
theorem sortDedup_changes {operations : List FileOperation}
    {remove create : List TrackedUnityFilePath}
    (h : planDirectoryTopologyChanges tree operations = .ok (remove, create)) :
    sortDedup removalOrder remove = remove ∧
      sortDedup (fun left right => decide (left ≤ right)) create = create := by
  rcases planDirectoryTopologyChanges_eq_ok h with ⟨removed, created, -, -, rfl, rfl⟩
  constructor
  · apply sortDedup_eq
    · exact List.pairwise_mergeSort removalOrder_trans removalOrder_total _
    · exact (List.mergeSort_perm _ _).nodup_iff.mpr (Finset.sort_nodup removed _)
  · apply sortDedup_eq
    · apply (Finset.sortedLT_sort created).pairwise.imp
      intro left right hlt
      exact decide_eq_true hlt.le
    · exact Finset.sort_nodup created _

end CheckPo
