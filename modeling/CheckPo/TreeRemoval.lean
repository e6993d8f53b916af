/-
The removal of a directory leaf by leaf: it ends, the directory is gone with all that was in
it, and wherever it is cut short nothing has changed outside of the directory and nothing but
files and directories is in it.
-/
import CheckPo.AnchoredRemoval

namespace CheckPo

namespace FileTree

variable {α : Type}

def StrictlyBelow (top path : Path) : Prop := top <+: path ∧ path ≠ top

/-- There are only files and directories below a path. -/
def PlainBelow (tree : FileTree α) (top : Path) : Prop :=
  ∀ path, StrictlyBelow top path →
    tree.entry path ≠ some .link ∧ tree.entry path ≠ some .special

/-- What a change that stays below a path may do. -/
structure ChangedBelow (top : Path) (before after : FileTree α) : Prop where
  outside : ∀ path, ¬ StrictlyBelow top path → after.entry path = before.entry path
  closed : after.Closed
  plain : after.PlainBelow top
  weight : ∀ size : TreeEntry α → Nat, after.weight size ≤ before.weight size
  children : ∀ name found, after.entry (top ++ [name]) = some found →
    ∃ other, before.entry (top ++ [other]) = some found

variable {tree before middle after : FileTree α} {top path : Path}

theorem below_child (name : String) : StrictlyBelow top (top ++ [name]) :=
  ⟨List.prefix_append _ _, fun h => by simpa using congrArg List.length h⟩

theorem not_child_start (name : String) : ¬ top ++ [name] <+: top := by
  intro h
  have hlength := h.length_le
  rw [List.length_append, List.length_singleton] at hlength
  omega

theorem below_of_child {name : String} (h : top ++ [name] <+: path) : StrictlyBelow top path := by
  refine ⟨(List.prefix_append _ _).trans h, ?_⟩
  rintro rfl
  exact not_child_start name h

/-- Whatever is below a directory is below one of its names. -/
theorem StrictlyBelow.exists_child (h : StrictlyBelow top path) :
    ∃ name, top ++ [name] <+: path := by
  rcases h with ⟨⟨rest, rfl⟩, hne⟩
  cases rest with
  | nil => exact absurd (List.append_nil top) hne
  | cons name rest => exact ⟨name, rest, by rw [List.append_assoc, List.singleton_append]⟩

namespace ChangedBelow

theorem trans (hfirst : ChangedBelow top before middle) (hrest : ChangedBelow top middle after) :
    ChangedBelow top before after where
  outside path hpath := (hrest.outside path hpath).trans (hfirst.outside path hpath)
  closed := hrest.closed
  plain := hrest.plain
  weight size := (hrest.weight size).trans (hfirst.weight size)
  children name found h := by
    rcases hrest.children name found h with ⟨other, hother⟩
    exact hfirst.children other found hother

theorem widen {name : String} (h : ChangedBelow (top ++ [name]) before after)
    (hplain : before.PlainBelow top) : ChangedBelow top before after where
  outside path hpath := h.outside path fun hchild => hpath (below_of_child hchild.1)
  closed := h.closed
  plain path hpath := by
    by_cases hchild : StrictlyBelow (top ++ [name]) path
    · exact h.plain path hchild
    · rw [h.outside path hchild]
      exact hplain path hpath
  weight := h.weight
  children child found hfound := by
    refine ⟨child, ?_⟩
    rw [← h.outside (top ++ [child]) ?_, hfound]
    rintro ⟨hstarts, hne⟩
    exact hne (hstarts.eq_of_length (by simp)).symm

theorem erase_child (hclosed : tree.Closed) (hplain : tree.PlainBelow top) (name : String) :
    ChangedBelow top tree (tree.erase (top ++ [name])) where
  outside path hpath := entry_erase_of_not fun h => hpath (below_of_child h)
  closed := hclosed.erase _
  plain path hpath := by
    by_cases hstarts : top ++ [name] <+: path
    · rw [entry_erase_below hstarts]
      exact ⟨nofun, nofun⟩
    · rw [entry_erase_of_not hstarts]
      exact hplain path hpath
  weight _ := weight_erase_le _
  children child _ hfound := ⟨child, (erase_eq_some_iff.mp hfound).2⟩

theorem clear (hclosed : tree.Closed) (dir : Path) : ChangedBelow dir tree (tree.clear dir) where
  outside _ hpath := entry_clear_of_not hpath
  closed path name hentry := by
    have hnot : ¬ StrictlyBelow dir (path ++ [name]) := fun h => hentry (entry_clear_below h.1 h.2)
    rw [entry_clear_of_not hnot] at hentry
    have hpath : ¬ StrictlyBelow dir path := by
      rintro ⟨hstarts, -⟩
      refine hnot ⟨hstarts.trans (List.prefix_append _ _), ?_⟩
      rintro rfl
      exact not_child_start name hstarts
    rw [entry_clear_of_not hpath]
    exact hclosed path name hentry
  plain path hpath := by
    rw [entry_clear_below hpath.1 hpath.2]
    exact ⟨nofun, nofun⟩
  weight _ := weight_clear_le _
  children child _ hfound := by
    rw [entry_clear_below (below_child child).1 (below_child child).2] at hfound
    exact absurd hfound nofun

/-- A directory's entry gets another name in it. -/
theorem rename_child (hclosed : tree.Closed) (hplain : tree.PlainBelow top)
    (htop : tree.entry top = some .directory) (leaf name : String) :
    ChangedBelow top tree (tree.move (top ++ [leaf]) (top ++ [name])) where
  outside path hpath :=
    entry_move_of_not (fun h => hpath (below_of_child h)) fun h => hpath (below_of_child h)
  closed := hclosed.move htop (not_child_start leaf)
  plain path hpath := by
    by_cases htarget : top ++ [name] <+: path
    · rcases htarget with ⟨rest, rfl⟩
      rw [entry_move_target]
      exact hplain _ (below_of_child (List.prefix_append _ _))
    · by_cases hsource : top ++ [leaf] <+: path
      · rw [entry_move_source hsource htarget]
        exact ⟨nofun, nofun⟩
      · rw [entry_move_of_not hsource htarget]
        exact hplain path hpath
  weight _ := weight_move_le _ _
  children child found hfound := by
    by_cases htarget : top ++ [name] <+: top ++ [child]
    · have hchild := htarget.eq_of_length (by simp)
      have hmoved := @entry_move_target _ tree (top ++ [leaf]) (top ++ [name]) []
      rw [List.append_nil, List.append_nil] at hmoved
      rw [← hchild, hmoved] at hfound
      exact ⟨leaf, hfound⟩
    · by_cases hsource : top ++ [leaf] <+: top ++ [child]
      · rw [entry_move_source hsource htarget] at hfound
        exact absurd hfound nofun
      · rw [entry_move_of_not hsource htarget] at hfound
        exact ⟨child, hfound⟩

end ChangedBelow

theorem entry_foldl_erase (names : List String) (tree : FileTree α) (top path : Path) :
    (names.foldl (fun tree name => tree.erase (top ++ [name])) tree).entry path =
      if ∃ name ∈ names, top ++ [name] <+: path then none else tree.entry path := by
  induction names generalizing tree with
  | nil => simp
  | cons name names ih =>
      rw [List.foldl_cons, ih]
      by_cases hname : top ++ [name] <+: path
      · rw [entry_erase_below hname, ite_self,
          if_pos ⟨name, List.mem_cons_self, hname⟩]
      · rw [entry_erase_of_not hname]
        simp [hname]

/-- A directory is clear when all its names are erased. -/
theorem foldl_erase_eq_clear (hclosed : tree.Closed) {names : List String}
    (hnames : ∀ name, tree.entry (top ++ [name]) ≠ none → name ∈ names) :
    names.foldl (fun tree name => tree.erase (top ++ [name])) tree = tree.clear top := by
  ext1 path
  rw [entry_foldl_erase]
  by_cases hpath : StrictlyBelow top path
  · rw [entry_clear_below hpath.1 hpath.2]
    rcases hpath.exists_child with ⟨name, hname⟩
    by_cases hmem : name ∈ names
    · rw [if_pos ⟨name, hmem, hname⟩]
    · have hfree : tree.entry (top ++ [name]) = none := not_not.mp fun h => hmem (hnames name h)
      rw [hclosed.free hfree path hname, ite_self]
  · rw [entry_clear_of_not hpath, if_neg]
    rintro ⟨name, -, hname⟩
    exact hpath (below_of_child hname)

end FileTree

open FileTree

/-! New names. -/

/-- A new UUID is part of no name that there is. -/
def UnusedIds (uuid : RepositoryFiles → Path → Nat → String) : Prop :=
  ∀ files path attempt, ∀ other ∈ files.paths, ∀ name ∈ other, ∀ front back : String,
    name ≠ front ++ uuid files path attempt ++ back

variable {root : String} {uuid : RepositoryFiles → Path → Nat → String}
variable {order : LinearOrder String}

theorem UnusedIds.entry_eq_none (h : UnusedIds uuid) (files : RepositoryFiles) (path parent : Path)
    (attempt : Nat) (front back : String) :
    files.entry (parent ++ [front ++ uuid files path attempt ++ back]) = none := by
  by_contra hentry
  exact h files path attempt _ ((files.mem_paths _).mpr hentry) _
    (List.mem_append_right _ List.mem_cons_self) front back rfl

namespace Sample

/-- A name that is longer than all names together. -/
def lengthyName (files : RepositoryFiles) (_ : Path) (_ : Nat) : String :=
  String.ofList (List.replicate
    ((∑ path ∈ files.paths, (path.map fun name => name.toList.length).sum) + 1) 'a')

theorem lengthyName_unused : UnusedIds lengthyName := by
  rintro files path attempt other hother name hname front back rfl
  have hpart := Finset.single_le_sum (f := fun path : Path =>
    (path.map fun name => name.toList.length).sum) (fun _ _ => Nat.zero_le _) hother
  have hlength := List.single_le_sum (fun _ _ => Nat.zero_le _) _
    (List.mem_map_of_mem (f := fun name : String => name.toList.length) hname)
  rw [String.toList_append, String.toList_append, lengthyName, String.toList_ofList,
    List.length_append, List.length_append, List.length_replicate] at hlength
  omega

end Sample

/-- A name that is made of a new UUID. -/
def MadeOfId (tombstone : String → String) : Prop :=
  ∃ front back, ∀ id, tombstone id = front ++ id ++ back

theorem fileTombstone_madeOfId : MadeOfId fileTombstone :=
  ⟨".checkpo-delete-", ".tomb", fun _ => rfl⟩

theorem directoryTombstone_madeOfId : MadeOfId directoryTombstone :=
  ⟨".checkpo-delete-dir-", ".tomb", fun _ => rfl⟩

theorem detach_run (huuid : UnusedIds uuid) {tombstone : String → String}
    (htombstone : MadeOfId tombstone) (files : RepositoryFiles) (parent : Path) (leaf : String) :
    ∃ name, files.entry (parent ++ [name]) = none ∧
      (detach root uuid tombstone (parent ++ [leaf])).run files =
        ([files.move (parent ++ [leaf]) (parent ++ [name])], .ok (parent ++ [name])) := by
  rcases htombstone with ⟨front, back, hname⟩
  have hfree := huuid.entry_eq_none files (parent ++ [leaf]) parent 0 front back
  rw [← hname] at hfree
  refine ⟨_, hfree, ?_⟩
  have hfound : freeTombstone uuid tombstone files (parent ++ [leaf]) =
      some (parent ++ [tombstone (uuid files (parent ++ [leaf]) 0)]) := by
    rw [freeTombstone, List.range_succ_eq_map, List.map_cons, List.dropLast_concat,
      List.find?_cons_of_pos (by rw [hfree]; rfl)]
  rw [detach, Durable.inspect_bind_run, hfound]
  rfl

section Runs

variable {files : RepositoryFiles} {parent : Path} {leaf : String}

/-- The two steps by which an entry goes. -/
def tombstoneTrace (files : RepositoryFiles) (parent : Path) (leaf name : String) :
    List RepositoryFiles :=
  [files.move (parent ++ [leaf]) (parent ++ [name]), files.erase (parent ++ [leaf])]

/-- Where nothing is refused, a file is detached and removed. -/
theorem unlinkFile_granted (path : Path) :
    unlinkFile root uuid granted path = (do
      let tombstone ← detach root uuid fileTombstone path
      Durable.write fun files => files.erase tombstone) := rfl

theorem unlinkFile_run (huuid : UnusedIds uuid) (hclosed : files.Closed) :
    ∃ name, files.Free (parent ++ [name]) ∧
      (unlinkFile root uuid granted (parent ++ [leaf])).run files =
        (tombstoneTrace files parent leaf name, .ok ()) := by
  rcases detach_run huuid fileTombstone_madeOfId files parent leaf with ⟨name, hfree, hrun⟩
  refine ⟨name, hclosed.free hfree, ?_⟩
  rw [unlinkFile_granted, Durable.bind_run_ok hrun, tombstoneTrace,
    ← erase_move (hclosed.free hfree)]
  rfl

/-- Where nothing is refused, a directory is detached, and removed if it is empty. -/
theorem unlinkDir_granted (path : Path) :
    unlinkDir root uuid granted path = (do
      Durable.inspect (openDirectoryForMutation root path)
      let tombstone ← detach root uuid directoryTombstone path
      match ← Durable.inspect fun files => .ok (removalRefused granted tombstone files) with
      | none => Durable.write fun files => files.erase tombstone
      | some message => restoreDirectory root granted tombstone path message) := rfl

theorem unlinkDir_run (huuid : UnusedIds uuid) (hclosed : files.Closed)
    (hdirectory : files.entry (parent ++ [leaf]) = some .directory)
    (hempty : ∀ path, StrictlyBelow (parent ++ [leaf]) path → files.entry path = none) :
    ∃ name, files.Free (parent ++ [name]) ∧
      (unlinkDir root uuid granted (parent ++ [leaf])).run files =
        (tombstoneTrace files parent leaf name, .ok ()) := by
  rcases detach_run huuid directoryTombstone_madeOfId files parent leaf with ⟨name, hfree, hrun⟩
  have hopen : openDirectoryForMutation root (parent ++ [leaf]) files = .ok () := by
    rw [openDirectoryForMutation, hdirectory]
  have hbelow : (files.move (parent ++ [leaf]) (parent ++ [name])).below (parent ++ [name]) =
      ∅ := by
    rw [Finset.eq_empty_iff_forall_notMem]
    intro path hpath
    rcases mem_below.mp hpath with ⟨hentry, ⟨rest, rfl⟩, hne⟩
    rw [entry_move_target] at hentry
    refine hentry (hempty _ ⟨List.prefix_append _ _, fun heq => hne ?_⟩)
    rw [List.append_right_eq_self.mp heq, List.append_nil]
  refine ⟨name, hclosed.free hfree, ?_⟩
  have hremoved : removalRefused granted (parent ++ [name])
      (files.move (parent ++ [leaf]) (parent ++ [name])) = none := by
    rw [removalRefused, hbelow]
    rfl
  rw [unlinkDir_granted, Durable.inspect_bind_run, hopen]
  dsimp only
  rw [Durable.bind_run_ok hrun, Durable.inspect_bind_run]
  dsimp only
  rw [Durable.last_singleton, hremoved, tombstoneTrace, ← erase_move (hclosed.free hfree)]
  rfl

/-- What the removal of one entry of a directory does. -/
theorem tombstone_triple {program : RepositoryM Unit}
    (hclosed : files.Closed) (hplain : files.PlainBelow parent)
    (hparent : files.entry parent = some .directory)
    (hrun : ∃ name, files.Free (parent ++ [name]) ∧
      program.run files = (tombstoneTrace files parent leaf name, .ok ())) :
    CrashTriple (fun state => state = files) program
      (fun _ state => state = files.erase (parent ++ [leaf])) (fun _ _ => False)
      (ChangedBelow parent files) := by
  rcases hrun with ⟨name, -, hrun⟩
  rintro state rfl
  rw [Durable.final, hrun]
  refine ⟨?_, rfl⟩
  simp only [tombstoneTrace, List.forall_mem_cons, List.not_mem_nil, false_imp_iff, implies_true,
    and_true]
  exact ⟨.rename_child hclosed hplain hparent leaf name, .erase_child hclosed hplain leaf⟩

end Runs

/-! A whole directory. -/

/-- What a listing says of a file or a directory. -/
def listed (files : RepositoryFiles) (dir : Path) (leaf : String) : String × Bool × Bool :=
  (leaf, decide (files.entry (dir ++ [leaf]) = some .directory), false)

theorem listAnchoredDirectoryEntries_eq_ok {files : RepositoryFiles} {dir : Path}
    (hplain : files.PlainBelow dir) :
    listAnchoredDirectoryEntries root order dir files =
      .ok ((files.names order dir).map (listed files dir)) := by
  apply mapM_ok_eq_map
  intro leaf hleaf
  rw [mem_names] at hleaf
  rcases hplain _ (below_child leaf) with ⟨hlink, hspecial⟩
  rcases hentry : files.entry (dir ++ [leaf]) with _ | ⟨content | _ | _ | _⟩
  · exact absurd hentry hleaf
  · simp [listed, hentry]
  · simp [listed, hentry]
  · exact absurd hentry hlink
  · exact absurd hentry hspecial

/-- A program that clears directories of paths up to a length. -/
def Clears (bound : Nat) (removeContents : Path → RepositoryM Unit) (dir : Path) : Prop :=
  ∀ files : RepositoryFiles, files.Closed → files.PlainBelow dir →
    files.entry dir = some .directory →
    (∀ path, StrictlyBelow dir path → files.entry path ≠ none → path.length ≤ bound) →
    CrashTriple (fun state => state = files) (removeContents dir)
      (fun _ state => state = files.clear dir) (fun _ _ => False) (ChangedBelow dir files)

section Entries

variable {removeContents : Path → RepositoryM Unit} {dir : Path} {files : RepositoryFiles}
variable {bound : Nat}

theorem removeDirectory_triple (huuid : UnusedIds uuid) (hclosed : files.Closed)
    (hplain : files.PlainBelow dir) (hdir : files.entry dir = some .directory) {leaf : String}
    (hbound : ∀ path, StrictlyBelow (dir ++ [leaf]) path → files.entry path ≠ none →
      path.length ≤ bound)
    (hleaf : files.entry (dir ++ [leaf]) = some .directory)
    (hclears : Clears bound removeContents (dir ++ [leaf])) :
    CrashTriple (fun state => state = files) (do
        removeContents (dir ++ [leaf])
        unlinkDir root uuid granted (dir ++ [leaf]))
      (fun _ state => state = files.erase (dir ++ [leaf])) (fun _ _ => False)
      (ChangedBelow dir files) := by
  have hwithin : ∀ path, StrictlyBelow (dir ++ [leaf]) path → StrictlyBelow dir path :=
    fun path hpath =>
    below_of_child hpath.1
  have hcontents := hclears files hclosed (fun path hpath => hplain path (hwithin path hpath)) hleaf
    hbound
  have hcleared : ChangedBelow dir files (files.clear (dir ++ [leaf])) :=
    (ChangedBelow.clear hclosed _).widen hplain
  have hself : (files.clear (dir ++ [leaf])).entry (dir ++ [leaf]) = some .directory := by
    rw [entry_clear_of_not fun h => h.2 rfl, hleaf]
  have hparent : (files.clear (dir ++ [leaf])).entry dir = some .directory := by
    rw [hcleared.outside dir fun h => h.2 rfl, hdir]
  have hunlink := tombstone_triple hcleared.closed hcleared.plain hparent
    (@unlinkDir_run root uuid _ _ _ huuid hcleared.closed hself fun path hpath =>
      entry_clear_below hpath.1 hpath.2)
  rw [erase_clear] at hunlink
  apply CrashTriple.bind
  · exact hcontents.weaken (fun _ h => h) (fun _ _ h => h) (fun _ _ h => h) fun state hstate =>
      hstate.widen hplain
  · intro _
    exact hunlink.weaken (fun _ h => h) (fun _ _ h => h) (fun _ _ h => h) fun state hstate =>
      hcleared.trans hstate

theorem removeEntry_triple (huuid : UnusedIds uuid) (hclosed : files.Closed)
    (hplain : files.PlainBelow dir) (hdir : files.entry dir = some .directory)
    (hbound : ∀ path, StrictlyBelow dir path → files.entry path ≠ none →
      path.length ≤ bound)
    {leaf : String} (hleaf : files.entry (dir ++ [leaf]) ≠ none)
    (hclears : Clears bound removeContents (dir ++ [leaf])) :
    CrashTriple (fun state => state = files)
      (removeEntry root uuid removeContents dir (listed files dir leaf))
      (fun _ state => state = files.erase (dir ++ [leaf])) (fun _ _ => False)
      (ChangedBelow dir files) := by
  rcases hplain _ (below_child leaf) with ⟨hlink, hspecial⟩
  rcases hentry : files.entry (dir ++ [leaf]) with _ | ⟨content | _ | _ | _⟩
  · exact absurd hentry hleaf
  · have hopen : openFile root (dir ++ [leaf]) files = .ok () := by rw [openFile, hentry]
    have hrun := @unlinkFile_run root uuid files dir leaf huuid hclosed
    have hfile := tombstone_triple hclosed hplain hdir hrun
    simp only [removeEntry, listed, hentry]
    rintro state rfl
    rw [Durable.final, if_neg (by simp), if_neg (by simp), Durable.inspect_bind_run, hopen]
    exact hfile state rfl
  · have hopen : openDirectoryForMutation root (dir ++ [leaf]) files = .ok () := by
      rw [openDirectoryForMutation, hentry]
    have hdirectory := @removeDirectory_triple root uuid _ _ _ _ huuid hclosed hplain hdir leaf
      (fun path hpath => hbound path (below_of_child hpath.1)) hentry hclears
    simp only [removeEntry, listed, hentry]
    rintro state rfl
    rw [Durable.final, if_neg (by simp), if_pos (by simp), Durable.inspect_bind_run, hopen]
    exact hdirectory state rfl
  · exact absurd hentry hlink
  · exact absurd hentry hspecial

/-- The names of a directory go one by one. -/
theorem forM_removeEntry_triple (huuid : UnusedIds uuid) {names : List String}
    (hnodup : names.Nodup) (hclosed : files.Closed) (hplain : files.PlainBelow dir)
    (hdir : files.entry dir = some .directory)
    (hbound : ∀ path, StrictlyBelow dir path → files.entry path ≠ none →
      path.length ≤ bound)
    (hnames : ∀ leaf ∈ names, files.entry (dir ++ [leaf]) ≠ none)
    (hclears : ∀ leaf ∈ names, Clears bound removeContents (dir ++ [leaf])) :
    CrashTriple (fun state => state = files)
      ((names.map (listed files dir)).forM (removeEntry root uuid removeContents dir))
      (fun _ state => state = names.foldl (fun tree name => tree.erase (dir ++ [name])) files)
      (fun _ _ => False) (ChangedBelow dir files) := by
  induction names generalizing files with
  | nil => exact CrashTriple.pure fun state hstate => hstate
  | cons leaf names ih =>
      rcases List.nodup_cons.mp hnodup with ⟨hnot, hnodup⟩
      have hgone : ChangedBelow dir files (files.erase (dir ++ [leaf])) :=
        .erase_child hclosed hplain leaf
      have hapart : ∀ other ∈ names, ¬ dir ++ [leaf] <+: dir ++ [other] := by
        intro other hother hstarts
        rw [List.prefix_append_right_inj, List.cons_prefix_cons] at hstarts
        exact hnot (hstarts.1 ▸ hother)
      have hsame : ∀ other ∈ names, (files.erase (dir ++ [leaf])).entry (dir ++ [other]) =
          files.entry (dir ++ [other]) := fun other hother => entry_erase_of_not (hapart other hother)
      have hlisted : names.map (listed (files.erase (dir ++ [leaf])) dir) =
          names.map (listed files dir) := by
        apply List.map_congr_left
        intro other hother
        rw [listed, listed, hsame other hother]
      have hfirst := @removeEntry_triple root uuid _ _ _ _ huuid hclosed hplain hdir hbound leaf
        (hnames leaf List.mem_cons_self) (hclears leaf List.mem_cons_self)
      have hrest := ih hnodup hgone.closed hgone.plain
        ((hgone.outside dir fun h => h.2 rfl).trans hdir)
        (fun path hpath hentry => hbound path hpath fun hnone => hentry (by
          rw [erase]
          simp [hnone]))
        (fun other hother => by
          rw [hsame other hother]
          exact hnames other (List.mem_cons_of_mem _ hother))
        fun other hother => hclears other (List.mem_cons_of_mem _ hother)
      rw [hlisted] at hrest
      apply CrashTriple.bind hfirst
      intro _
      exact hrest.weaken (fun _ h => h) (fun _ _ h => h) (fun _ _ h => h) fun state hstate =>
        hgone.trans hstate

end Entries

theorem removeTreeContents_clears (huuid : UnusedIds uuid) {bound : Nat} (depth : Nat)
    (dir : Path) (hdepth : bound ≤ dir.length + depth) :
    Clears bound (removeTreeContents root uuid order depth) dir := by
  induction depth generalizing dir with
  | zero =>
      intro files hclosed hplain hdir hbound
      have hclear : files.clear dir = files := by
        ext1 path
        by_cases hpath : StrictlyBelow dir path
        · rw [entry_clear_below hpath.1 hpath.2]
          by_contra hentry
          have hshort := hbound path hpath fun hnone => hentry hnone.symm
          rcases hpath.exists_child with ⟨name, hname⟩
          have hlong := hname.length_le
          rw [List.length_append, List.length_singleton] at hlong
          omega
        · rw [entry_clear_of_not hpath]
      rw [hclear]
      exact CrashTriple.pure fun state hstate => hstate
  | succ depth ih =>
      intro files hclosed hplain hdir hbound
      have hnames : ∀ leaf ∈ files.names order dir, files.entry (dir ++ [leaf]) ≠ none :=
        fun leaf hleaf => (mem_names order).mp hleaf
      have hclears : ∀ leaf ∈ files.names order dir,
          Clears bound (removeTreeContents root uuid order depth) (dir ++ [leaf]) := by
        intro leaf _
        apply ih
        rw [List.length_append, List.length_singleton]
        omega
      have hloop := @forM_removeEntry_triple root uuid _ _ _ _ huuid _ (nodup_names order files dir)
        hclosed hplain hdir hbound hnames hclears
      rw [foldl_erase_eq_clear hclosed fun name hname => (mem_names order).mpr hname] at hloop
      rintro state rfl
      rw [Durable.final, removeTreeContents, Durable.inspect_bind_run,
        listAnchoredDirectoryEntries_eq_ok hplain]
      exact hloop state rfl

/-- A directory goes with all that is in it. -/
theorem removeRepoTree_triple (huuid : UnusedIds uuid) {files : RepositoryFiles} {parent : Path}
    {leaf : String} (hclosed : files.Closed) (hplain : files.PlainBelow parent)
    (hparent : files.entry parent = some .directory)
    (hleaf : files.entry (parent ++ [leaf]) = some .directory) :
    CrashTriple (fun state => state = files)
      (removeRepoTreeAnchored root uuid order (parent ++ [leaf]))
      (fun _ state => state = files.erase (parent ++ [leaf])) (fun _ _ => False)
      (ChangedBelow parent files) := by
  have hopen : openDirectoryForMutation root (parent ++ [leaf]) files = .ok () := by
    rw [openDirectoryForMutation, hleaf]
  have hremove := @removeDirectory_triple root uuid _ _ _ _ huuid hclosed hplain hparent leaf
    (fun path hpath hentry => Finset.le_sup (f := List.length)
      (mem_below.mpr ⟨hentry, hpath.1, hpath.2⟩)) hleaf
    (@removeTreeContents_clears root uuid order huuid _ _ _ (Nat.le_add_left _ _))
  rintro state rfl
  rw [Durable.final, removeRepoTreeAnchored, Durable.inspect_bind_run, hopen]
  exact hremove state rfl

end CheckPo
