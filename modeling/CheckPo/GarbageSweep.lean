/-
The deletion loops of a garbage collection: wherever they are cut short, only candidates
are gone, and everything else stands at its place but for at most one entry, which stands
under a tombstone name next to it.
-/
import CheckPo.GarbageCollection
import CheckPo.TreeRemoval

namespace CheckPo

open FileTree

namespace StorageGcPlan

def blobs (plan : StorageGcPlan) : List (Path × Nat) :=
  plan.unreferencedBlobs.map fun blob => (blob.objectPath, blob.sizeBytes)

/-- Everything that the plan deletes. -/
def candidates (plan : StorageGcPlan) : List (Path × Nat) :=
  plan.blobs ++ (plan.unreferencedManifestChunks ++ plan.unreferencedInventoryNodes)

end StorageGcPlan

/-! Where the files of a store are. -/

section Places

variable {files : RepositoryFiles} {store : ContentStore} {id : Digest32}

theorem filePath_dropLast : (store.filePath id).dropLast = store.shardPath id.firstByte :=
  List.dropLast_concat

theorem closed_filePath (hclosed : files.Closed) (h : files.entry (store.filePath id) ≠ none) :
    files.entry (store.shardPath id.firstByte) = some .directory ∧
      files.entry store.directory = some .directory := by
  have hshard : files.entry (store.shardPath id.firstByte) = some .directory := hclosed _ _ h
  refine ⟨hshard, hclosed _ (hexByte id.firstByte) ?_⟩
  change files.entry (store.shardPath id.firstByte) ≠ none
  rw [hshard]
  exact Option.some_ne_none _

theorem shard_of_file (hclosed : files.Closed) {content : Bytes}
    (hfile : files.entry (store.filePath id) = some (.file content)) :
    files.entry (store.shardPath id.firstByte) = some .directory :=
  (closed_filePath hclosed (by rw [hfile]; exact Option.some_ne_none _)).1

end Places

/-! What a removal leaves. -/

/-- An entry is at its place, or stands under a tombstone name next to it. -/
def SetAside (files : RepositoryFiles) (parent : Path) (leaf : String)
    (after : RepositoryFiles) : Prop :=
  after = files ∨ ∃ name, files.Free (parent ++ [name]) ∧
    after = files.move (parent ++ [leaf]) (parent ++ [name])

/-- The system reports a directory that is not empty only when it is asked to remove one. -/
def Refusals.Truthful (refuses : Refusals) : Prop :=
  ∀ files call path, refuses files call path = some directoryNotEmpty → call = .remove

section Removal

variable {root : String} {uuid : RepositoryFiles → Path → Nat → String} {refuses : Refusals}
variable {files : RepositoryFiles} {parent : Path} {leaf : String}

theorem ask_eq_error {call : SystemCall} {path : Path} {error : CheckPoError}
    (h : ask root refuses call path files = .error error) :
    ∃ message, refuses files call path = some message ∧
      error = .io (displayPath root path) message := by
  rw [ask] at h
  split at h
  · cases h
  · next message hmessage => exact ⟨message, hmessage, (Except.error.inj h).symm⟩

theorem ne_granted {call : SystemCall} {path : Path} {message : String}
    (h : refuses files call path = some message) : refuses ≠ granted := by
  rintro rfl
  cases h

theorem ask_triple {pre : RepositoryFiles → Prop} {call : SystemCall} {path : Path}
    {fail : CheckPoError → RepositoryFiles → Prop} {crash : RepositoryFiles → Prop}
    (h : ∀ state message, pre state → refuses state call path = some message →
      fail (.io (displayPath root path) message) state) :
    CrashTriple pre (Durable.inspect (ask root refuses call path)) (fun _ => pre) fail crash := by
  refine .inspect (fun _ _ _ hstate => hstate) fun error state herror hstate => ?_
  rcases ask_eq_error herror with ⟨message, hmessage, rfl⟩
  exact h state message hstate hmessage

theorem detach_triple (huuid : UnusedIds uuid) (hclosed : files.Closed)
    {tombstone : String → String} (htombstone : MadeOfId tombstone) :
    ∃ name, files.Free (parent ++ [name]) ∧
      CrashTriple (fun state => state = files) (detach root uuid tombstone (parent ++ [leaf]))
        (fun target state => target = parent ++ [name] ∧
          state = files.move (parent ++ [leaf]) (parent ++ [name]))
        (fun _ _ => False) (SetAside files parent leaf) := by
  rcases @detach_run root uuid huuid tombstone htombstone files parent leaf with
    ⟨name, hfree, hrun⟩
  have hname := hclosed.free hfree
  refine ⟨name, hname, ?_⟩
  rintro state rfl
  rw [Durable.final, hrun]
  exact ⟨List.forall_mem_singleton.mpr (.inr ⟨name, hname, rfl⟩), rfl, rfl⟩

theorem answer_triple {pre : RepositoryFiles → Prop} {call : SystemCall} {path : Path}
    {fail : CheckPoError → RepositoryFiles → Prop} {crash : RepositoryFiles → Prop} :
    CrashTriple pre (Durable.inspect fun files => .ok (ask root refuses call path files))
      (fun answer state => pre state ∧ ∀ error, answer = .error error → refuses ≠ granted)
      fail crash := by
  refine .inspect_ok fun state hstate => ⟨hstate, fun error herror => ?_⟩
  rcases ask_eq_error herror with ⟨message, hmessage, -⟩
  exact ne_granted hmessage

/-- What stands under a tombstone name stays there. -/
theorem reportChanged_triple {post : Unit → RepositoryFiles → Prop} {path : Path}
    {state : RepositoryFiles} {crash : RepositoryFiles → Prop} (htruthful : refuses.Truthful) :
    CrashTriple (fun after => after = state) (reportChanged root refuses path) post
      (fun error after => after = state ∧ (∀ other, error ≠ .notFound other) ∧
        ∀ other, error ≠ .io other directoryNotEmpty) crash := by
  refine (ask_triple fun after message heq hmessage => ⟨heq, by simp, ?_⟩).bind fun _ =>
    .lift_error fun after heq => ⟨heq, by simp, by simp⟩
  rintro other hother
  injection hother with _ heq
  cases htruthful _ _ _ (heq ▸ hmessage)

/-- A file goes, unless the system refuses a step. -/
theorem unlinkFile_triple (huuid : UnusedIds uuid) (htruthful : refuses.Truthful)
    (hclosed : files.Closed) :
    CrashTriple (fun state => state = files) (unlinkFile root uuid refuses (parent ++ [leaf]))
      (fun _ after => after = files.erase (parent ++ [leaf]))
      (fun _ after => SetAside files parent leaf after ∧ refuses ≠ granted)
      (fun after => SetAside files parent leaf after ∨ after = files.erase (parent ++ [leaf])) := by
  rcases @detach_triple root uuid files parent leaf huuid hclosed _ fileTombstone_madeOfId with
    ⟨name, hfree, hdetach⟩
  have haside : SetAside files parent leaf (files.move (parent ++ [leaf]) (parent ++ [name])) :=
    .inr ⟨name, hfree, rfl⟩
  have herase : (files.move (parent ++ [leaf]) (parent ++ [name])).erase (parent ++ [name]) =
      files.erase (parent ++ [leaf]) := erase_move hfree
  refine (ask_triple fun state _ heq hrefused => ⟨.inl heq, ne_granted hrefused⟩).bind fun _ => ?_
  refine (hdetach.weaken (fun _ heq => heq) (fun _ _ h => h) (fun _ _ => False.elim)
    fun _ => .inl).bind fun target => .of_state ?_
  rintro _ ⟨rfl, rfl⟩
  refine answer_triple.bind fun answer => .of_state ?_
  rintro _ ⟨rfl, hanswer⟩
  rcases answer with error | _
  · exact (reportChanged_triple htruthful).weaken (fun _ heq => heq) (fun _ _ h => h)
      (fun _ _ h => ⟨h.1 ▸ haside, hanswer error rfl⟩) fun _ => .inl
  · refine (ask_triple fun state _ heq hrefused => ?_).bind fun _ => .write ?_
    · exact ⟨heq ▸ haside, ne_granted hrefused⟩
    · rintro state rfl
      exact ⟨.inr herase, herase⟩

/-- A directory that was empty is gone. -/
def Emptied (files : RepositoryFiles) (parent : Path) (leaf : String)
    (after : RepositoryFiles) : Prop :=
  after = files.erase (parent ++ [leaf]) ∧
    ∀ path, StrictlyBelow (parent ++ [leaf]) path → files.entry path = none

/-- A directory that is there could not be removed: it is at its place if the error says that
it is not empty, and otherwise the system refused a step. -/
structure RemovalFailed (refuses : Refusals) (files : RepositoryFiles) (parent : Path)
    (leaf : String) (error : CheckPoError) (after : RepositoryFiles) : Prop where
  aside : SetAside files parent leaf after
  found : ∀ path, error ≠ .notFound path
  occupied : ∀ path, error = .io path directoryNotEmpty → after = files
  refused : (∀ path, error ≠ .io path directoryNotEmpty) → refuses ≠ granted

theorem RemovalFailed.of_refused {before : RepositoryFiles} {call : SystemCall} {path : Path}
    {place message : String} (h : refuses before call path = some message) :
    RemovalFailed refuses files parent leaf (.io place message) files where
  aside := .inl rfl
  found _ := nofun
  occupied _ _ := rfl
  refused _ := ne_granted h

/-- What an attempt to remove a directory leaves. -/
def RemovalTried (refuses : Refusals) (files : RepositoryFiles) (parent : Path) (leaf : String) :
    CheckPoResult Unit → RepositoryFiles → Prop
  | .ok _, after => Emptied files parent leaf after
  | .error error, after => RemovalFailed refuses files parent leaf error after

/-- Nothing is below a directory that the system agrees to remove. -/
theorem empty_of_removalRefused {name : String}
    (h : removalRefused refuses (parent ++ [name])
      (files.move (parent ++ [leaf]) (parent ++ [name])) = none) {path : Path}
    (hbelow : StrictlyBelow (parent ++ [leaf]) path) : files.entry path = none := by
  rcases hbelow with ⟨⟨rest, rfl⟩, hself⟩
  by_contra hentry
  have hmem : parent ++ [name] ++ rest ∈
      (files.move (parent ++ [leaf]) (parent ++ [name])).below (parent ++ [name]) := by
    refine mem_below.mpr ⟨?_, List.prefix_append _ _, fun heq => hself ?_⟩
    · rwa [entry_move_target]
    · rw [List.append_right_eq_self.mp heq, List.append_nil]
  rw [removalRefused] at h
  split at h
  · cases h
  · split_ifs at h with hnone
    rw [hnone] at hmem
    exact Finset.notMem_empty _ hmem

theorem removalRefused_granted {path : Path} {message : String}
    (h : removalRefused granted path files = some message) : message = directoryNotEmpty := by
  simp only [removalRefused, granted] at h
  split_ifs at h
  exact (Option.some.inj h).symm

theorem reportChanged_failed (htruthful : refuses.Truthful) (hrefused : refuses ≠ granted)
    {state : RepositoryFiles} (haside : SetAside files parent leaf state) {path : Path}
    {post : Unit → RepositoryFiles → Prop} {crash : RepositoryFiles → Prop} :
    CrashTriple (fun after => after = state) (reportChanged root refuses path) post
      (RemovalFailed refuses files parent leaf) crash := by
  refine (reportChanged_triple htruthful).weaken (fun _ heq => heq) (fun _ _ h => h) ?_
    fun _ h => h
  rintro error _ ⟨rfl, hfound, hoccupied⟩
  exact ⟨haside, hfound, fun path heq => absurd heq (hoccupied path), fun _ => hrefused⟩

/-- A directory that is not empty is at its place again, unless the system refuses that. -/
theorem restoreDirectory_triple (htruthful : refuses.Truthful)
    (hdirectory : files.entry (parent ++ [leaf]) = some .directory) {name message : String}
    (hfree : files.Free (parent ++ [name]))
    (hmessage : refuses = granted → message = directoryNotEmpty)
    {post : Unit → RepositoryFiles → Prop} :
    CrashTriple (fun after => after = files.move (parent ++ [leaf]) (parent ++ [name]))
      (restoreDirectory root refuses (parent ++ [name]) (parent ++ [leaf]) message) post
      (RemovalFailed refuses files parent leaf) (SetAside files parent leaf) := by
  rw [restoreDirectory]
  refine .bind (m := fun free after => after = files.move (parent ++ [leaf]) (parent ++ [name]) ∧
    (free = false → refuses ≠ granted)) (.inspect_ok ?_) fun free => .of_state ?_
  · rintro _ rfl
    refine ⟨rfl, fun hfalse => ?_⟩
    rintro rfl
    have hname : ¬ parent ++ [name] <+: parent ++ [leaf] := fun hstarts => by
      rw [hfree _ hstarts] at hdirectory
      cases hdirectory
    rw [entry_move_source (List.prefix_refl _) hname] at hfalse
    cases hfalse
  rintro _ ⟨rfl, hrefused⟩
  rcases free with _ | _
  · exact reportChanged_failed htruthful (hrefused rfl) (.inr ⟨name, hfree, rfl⟩)
  refine .bind (m := fun _ after => after = files) (.write ?_) fun _ => ?_
  · rintro _ rfl
    rw [move_move hfree]
    exact ⟨.inl rfl, rfl⟩
  refine (ask_triple fun _ _ heq hrefused => heq ▸ .of_refused hrefused).bind fun _ =>
    .lift_error fun state heq => ⟨.inl heq, nofun, fun _ _ => heq, fun hother hgranted => ?_⟩
  exact hother _ (congrArg _ (hmessage hgranted))

/-- A directory goes when it is empty.  Otherwise it is at its place again, unless the
system refused that too. -/
theorem unlinkDir_triple (huuid : UnusedIds uuid) (htruthful : refuses.Truthful)
    (hclosed : files.Closed) (hdirectory : files.entry (parent ++ [leaf]) = some .directory) :
    CrashTriple (fun state => state = files) (unlinkDir root uuid refuses (parent ++ [leaf]))
      (fun _ => Emptied files parent leaf) (RemovalFailed refuses files parent leaf)
      (fun after => SetAside files parent leaf after ∨ Emptied files parent leaf after) := by
  rcases @detach_triple root uuid files parent leaf huuid hclosed _ directoryTombstone_madeOfId
    with ⟨name, hfree, hdetach⟩
  refine (ask_triple fun _ _ heq hrefused => heq ▸ .of_refused hrefused).bind fun _ => ?_
  refine .bind (m := fun _ state => state = files) (.inspect (fun _ _ _ heq => heq) ?_) fun _ => ?_
  · rintro error _ herror rfl
    rw [openDirectoryForMutation, hdirectory] at herror
    cases herror
  refine (ask_triple fun _ _ heq hrefused => heq ▸ .of_refused hrefused).bind fun _ => ?_
  refine (hdetach.weaken (fun _ heq => heq) (fun _ _ h => h) (fun _ _ => False.elim)
    fun _ => .inl).bind fun target => .of_state ?_
  rintro _ ⟨rfl, rfl⟩
  refine answer_triple.bind fun answer => .of_state ?_
  rintro _ ⟨rfl, hanswer⟩
  rcases answer with error | _
  · exact reportChanged_failed htruthful (hanswer error rfl) (.inr ⟨name, hfree, rfl⟩)
  refine .bind (m := fun answer after =>
    after = files.move (parent ++ [leaf]) (parent ++ [name]) ∧
      removalRefused refuses (parent ++ [name]) after = answer)
    (.inspect_ok fun _ hstate => ⟨hstate, rfl⟩) fun answer => .of_state ?_
  rintro _ ⟨rfl, hremoval⟩
  rcases answer with _ | message
  · refine .write ?_
    rintro _ rfl
    have hgone : Emptied files parent leaf
        ((files.move (parent ++ [leaf]) (parent ++ [name])).erase (parent ++ [name])) :=
      ⟨erase_move hfree, fun _ => empty_of_removalRefused hremoval⟩
    exact ⟨.inr hgone, hgone⟩
  · have hmessage : refuses = granted → message = directoryNotEmpty := by
      rintro rfl
      exact removalRefused_granted hremoval
    exact (restoreDirectory_triple htruthful hdirectory hfree hmessage).weaken (fun _ heq => heq)
      (fun _ _ h => h) (fun _ _ h => h) fun _ => .inl

end Removal

/-! What a sweep leaves. -/

/-- Of the files only candidates are gone, and of the directories only shards. -/
structure Swept (files : RepositoryFiles) (candidates : List Path) (state : RepositoryFiles) :
    Prop where
  closed : state.Closed
  kept : ∀ path, path ∉ candidates → files.entry path ≠ some .directory →
    state.entry path = files.entry path
  directory : ∀ path, files.entry path = some .directory → state.entry path = some .directory ∨
    state.entry path = none ∧ path ∈ candidates.map List.dropLast
  candidate : ∀ path ∈ candidates, state.entry path = files.entry path ∨ state.entry path = none

/-- What a crash leaves: at most one entry has a tombstone name instead of its own. -/
inductive SweepCrash (files : RepositoryFiles) (candidates : List Path) : RepositoryFiles → Prop
  | settled {state : RepositoryFiles} (h : Swept files candidates state) :
      SweepCrash files candidates state
  | detached {state : RepositoryFiles} (h : Swept files candidates state) {parent : Path}
      {leaf name : String} (hfree : state.Free (parent ++ [name]))
      (hleaf : parent ++ [leaf] ∈ candidates ∨ parent ++ [leaf] ∈ candidates.map List.dropLast) :
      SweepCrash files candidates (state.move (parent ++ [leaf]) (parent ++ [name]))

section Sweeping

variable {files state : RepositoryFiles} {candidates : List Path} {path : Path}

theorem Swept.refl (hclosed : files.Closed) : Swept files candidates files :=
  ⟨hclosed, fun _ _ _ => rfl, fun _ h => .inl h, fun _ _ => .inl rfl⟩

/-- A candidate goes. -/
theorem Swept.erase_candidate (h : Swept files candidates state) (hpath : path ∈ candidates)
    {content : Bytes} (hfile : files.entry path = some (.file content)) :
    Swept files candidates (state.erase path) where
  closed := h.closed.erase path
  kept other hother hne := by
    by_cases hstarts : path <+: other
    · have hself : other ≠ path := fun heq => hother (heq ▸ hpath)
      have hnone : state.entry other = none := by
        apply h.closed.entry_eq_none hstarts _ hself
        rcases h.candidate path hpath with heq | heq <;> rw [heq]
        · rw [hfile]
          exact nofun
        · exact nofun
      rw [entry_erase_below hstarts, ← h.kept other hother hne, hnone]
    · rw [entry_erase_of_not hstarts, h.kept other hother hne]
  directory other hother := by
    by_cases hstarts : path <+: other
    · rcases h.directory other hother with hdirectory | hgone
      · have hself : other ≠ path := by
          rintro rfl
          rw [hfile] at hother
          cases hother
        have habove := h.closed.entry_of_start hstarts hself (by rw [hdirectory]; exact nofun)
        rcases h.candidate path hpath with heq | heq
        · rw [heq, hfile] at habove
          cases habove
        · rw [heq] at habove
          cases habove
      · exact .inr ⟨entry_erase_below hstarts, hgone.2⟩
    · rw [entry_erase_of_not hstarts]
      exact h.directory other hother
  candidate other hother := by
    by_cases hstarts : path <+: other
    · exact .inr (entry_erase_below hstarts)
    · rw [entry_erase_of_not hstarts]
      exact h.candidate other hother

/-- An empty shard goes. -/
theorem Swept.erase_shard (h : Swept files candidates state)
    (hpath : path ∈ candidates.map List.dropLast) (hdirectory : files.entry path = some .directory)
    (hempty : ∀ other, StrictlyBelow path other → state.entry other = none) :
    Swept files candidates (state.erase path) where
  closed := h.closed.erase path
  kept other hother hne := by
    by_cases hstarts : path <+: other
    · have hself : other ≠ path := by
        rintro rfl
        exact hne hdirectory
      rw [entry_erase_below hstarts, ← h.kept other hother hne, hempty other ⟨hstarts, hself⟩]
    · rw [entry_erase_of_not hstarts, h.kept other hother hne]
  directory other hother := by
    by_cases hstarts : path <+: other
    · by_cases hself : other = path
      · exact .inr ⟨entry_erase_below hstarts, hself ▸ hpath⟩
      · refine (h.directory other hother).elim (fun hdir => ?_) fun hgone =>
          .inr ⟨entry_erase_below hstarts, hgone.2⟩
        rw [hempty other ⟨hstarts, hself⟩] at hdir
        cases hdir
    · rw [entry_erase_of_not hstarts]
      exact h.directory other hother
  candidate other hother := by
    by_cases hstarts : path <+: other
    · exact .inr (entry_erase_below hstarts)
    · rw [entry_erase_of_not hstarts]
      exact h.candidate other hother

/-! The deletion of one candidate. -/

theorem SetAside.crash (h : Swept files candidates state) {parent : Path} {leaf : String}
    (hleaf : parent ++ [leaf] ∈ candidates ∨ parent ++ [leaf] ∈ candidates.map List.dropLast)
    {after : RepositoryFiles} (haside : SetAside state parent leaf after) :
    SweepCrash files candidates after := by
  rcases haside with rfl | ⟨name, hfree, rfl⟩
  · exact .settled h
  · exact .detached h hfree hleaf

/-- What the deletion of one candidate leaves, and that it fails only when the system refuses
a step. -/
inductive Deletion (refuses : Refusals) (files : RepositoryFiles) (candidates : List Path)
    (parent : Path) (leaf : String) (state : RepositoryFiles) :
    Bool × CheckPoResult Unit → RepositoryFiles → Prop
  | gone (h : state.entry (parent ++ [leaf]) = none) :
      Deletion refuses files candidates parent leaf state (false, .ok ()) state
  | removed {after : RepositoryFiles} (h : Swept files candidates after)
      (hgone : after.entry (parent ++ [leaf]) = none)
      (hkeeps : ∀ path, state.entry path = none → after.entry path = none) :
      Deletion refuses files candidates parent leaf state (true, .ok ()) after
  | stopped {error : CheckPoError} {after : RepositoryFiles} (hrefused : refuses ≠ granted)
      (h : SweepCrash files candidates after) :
      Deletion refuses files candidates parent leaf state (true, .error error) after
  | refused {error : CheckPoError} {after : RepositoryFiles} (hrefused : refuses ≠ granted)
      (h : SetAside state parent leaf after) :
      Deletion refuses files candidates parent leaf state (false, .error error) after

/-- A step that deletes one candidate, as far as the system lets it. -/
def Deletes (refuses : Refusals) (files : RepositoryFiles) (candidates : List Path)
    (delete : Path × Nat → RepositoryM (Bool × CheckPoResult Unit)) (candidate : Path × Nat) :
    Prop :=
  ∃ parent leaf, candidate.1 = parent ++ [leaf] ∧ candidate.1 ∈ candidates ∧
    ∀ state, Swept files candidates state →
      CrashTriple (fun before => before = state) (delete candidate)
        (Deletion refuses files candidates parent leaf state) (fun _ _ => False)
        (SweepCrash files candidates)

variable {root : String} {uuid : RepositoryFiles → Path → Nat → String} {refuses : Refusals}
variable {fingerprint : Path → Bytes → String}

/-- Shards that are empty go, others stay, unless the system refuses a step. -/
theorem removeEmptyRepoDirs_triple (huuid : UnusedIds uuid) (htruthful : refuses.Truthful)
    (h : Swept files candidates state) {store : ContentStore} {first : UInt8}
    (hshard : store.shardPath first ∈ candidates.map List.dropLast)
    (hfiles : files.entry (store.shardPath first) = some .directory)
    (hstate : state.entry (store.shardPath first) = some .directory) :
    CrashTriple (fun before => before = state)
      (removeEmptyRepoDirs root uuid refuses store.directory (store.shardPath first).reverse)
      (fun _ after => Swept files candidates after ∧
        ∀ path, state.entry path = none → after.entry path = none)
      (fun _ after => SweepCrash files candidates after ∧ refuses ≠ granted)
      (SweepCrash files candidates) := by
  have hreverse : (store.shardPath first).reverse =
      hexByte first :: store.directory.reverse := by
    rw [ContentStore.shardPath, List.reverse_append]
    rfl
  have hne : (hexByte first :: store.directory.reverse).reverse ≠ store.directory := by
    rw [List.reverse_cons, List.reverse_reverse]
    intro heq
    simpa using congrArg List.length heq
  have hstop : removeEmptyRepoDirs root uuid refuses store.directory store.directory.reverse =
      pure () := by
    cases store <;> rfl
  have hemptied : ∀ after, Emptied state store.directory (hexByte first) after →
      Swept files candidates after ∧ ∀ path, state.entry path = none → after.entry path = none := by
    rintro _ ⟨rfl, hempty⟩
    refine ⟨h.erase_shard hshard hfiles hempty, fun path hnone => ?_⟩
    by_cases hstarts : store.directory ++ [hexByte first] <+: path
    · exact entry_erase_below hstarts
    · exact (entry_erase_of_not hstarts).trans hnone
  have hunlink := @unlinkDir_triple root uuid refuses state store.directory (hexByte first) huuid
    htruthful h.closed hstate
  rw [hreverse, removeEmptyRepoDirs, if_neg hne, List.reverse_cons, List.reverse_reverse]
  refine .bind (m := RemovalTried refuses state store.directory (hexByte first))
    ((hunlink.weaken (fun _ heq => heq) (fun _ _ hdone => hdone) (fun _ _ hfailed => hfailed)
      ?_).attempt (fun _ _ hdone => hdone) fun _ _ hfailed => hfailed) fun result => ?_
  · rintro after (haside | hdone)
    · exact haside.crash h (.inr hshard)
    · exact .settled (hemptied after hdone).1
  rcases result with error | _
  · have hcrash : (∀ path, error ≠ .io path directoryNotEmpty) → ∀ after,
        RemovalFailed refuses state store.directory (hexByte first) error after →
        SweepCrash files candidates after ∧ refuses ≠ granted :=
      fun hmessage after hfailed => ⟨hfailed.aside.crash h (.inr hshard), hfailed.refused hmessage⟩
    cases error with
    | notFound path =>
        exact .pure fun after (hfailed : RemovalFailed refuses state store.directory
          (hexByte first) (.notFound path) after) => absurd rfl (hfailed.found path)
    | io path message =>
        refine .ite (fun hmessage => .pure fun after (hfailed : RemovalFailed refuses state
          store.directory (hexByte first) (.io path message) after) => ?_) fun hmessage =>
            .lift_error fun after hfailed => ?_
        · subst hmessage
          rw [hfailed.occupied path rfl]
          exact ⟨h, fun _ hnone => hnone⟩
        · refine hcrash (fun other heq => ?_) after hfailed
          injection heq with _ heq
          exact hmessage heq
    | _ => exact .lift_error fun after hfailed => hcrash (by simp) after hfailed
  · dsimp only
    rw [hstop]
    refine (ask_triple fun after message hdone hrefused => ?_).bind fun _ => .pure hemptied
    exact ⟨.settled (hemptied after hdone).1, ne_granted hrefused⟩

/-- A candidate that is gone already is passed over, unless the system refuses a step. -/
theorem openPlannedFile_gone (h : Swept files candidates state) {store : ContentStore}
    {id : Digest32} (hshard : files.entry (store.shardPath id.firstByte) = some .directory)
    (hgone : state.entry (store.filePath id) = none) :
    ∃ error, openPlannedFile root refuses (store.filePath id) state = .error error ∧
      ((∀ path, error ≠ .notFound path) → refuses ≠ granted) := by
  have hfound : ∀ path, (∀ other, CheckPoError.notFound path ≠ .notFound other) →
      refuses ≠ granted := fun path hpath => absurd rfl (hpath path)
  rw [openPlannedFile, filePath_dropLast, openDirectoryForMutation, openFile, hgone]
  rcases hfirst : ask root refuses .openAt (store.shardPath id.firstByte) state with error | _
  · rcases ask_eq_error hfirst with ⟨message, hmessage, rfl⟩
    exact ⟨_, rfl, fun _ => ne_granted hmessage⟩
  rcases h.directory _ hshard with hdirectory | ⟨hnone, -⟩
  · rw [hdirectory]
    rcases hsecond : ask root refuses .openAt (store.filePath id) state with error | _
    · rcases ask_eq_error hsecond with ⟨message, hmessage, rfl⟩
      exact ⟨_, rfl, fun _ => ne_granted hmessage⟩
    · exact ⟨_, rfl, hfound _⟩
  · rw [hnone]
    exact ⟨_, rfl, hfound _⟩

/-- A candidate that is as the analysis found it can be opened, or the system refuses that. -/
theorem openPlannedFile_there (hclosed : state.Closed) {store : ContentStore} {id : Digest32}
    {content : Bytes} (hfile : state.entry (store.filePath id) = some (.file content)) :
    openPlannedFile root refuses (store.filePath id) state = .ok content ∨
      refuses ≠ granted ∧ ∃ path message, openPlannedFile root refuses (store.filePath id) state =
        .error (.io path message) := by
  rw [openPlannedFile, filePath_dropLast, openDirectoryForMutation, openFile,
    shard_of_file hclosed hfile, hfile, file_eq_some.mpr hfile]
  rcases hfirst : ask root refuses .openAt (store.shardPath id.firstByte) state with error | _
  · rcases ask_eq_error hfirst with ⟨message, hmessage, rfl⟩
    exact .inr ⟨ne_granted hmessage, _, message, rfl⟩
  rcases hsecond : ask root refuses .openAt (store.filePath id) state with error | _
  · rcases ask_eq_error hsecond with ⟨message, hmessage, rfl⟩
    exact .inr ⟨ne_granted hmessage, _, message, rfl⟩
  · exact .inl rfl

/-- What an attempt to remove the file of a candidate leaves: it was gone already, or it goes,
or the system refused a step. -/
def FileRemoval (refuses : Refusals) (state : RepositoryFiles) (store : ContentStore)
    (id : Digest32) (content : Bytes) : CheckPoResult RepoFileRemoval → RepositoryFiles → Prop
  | .ok removal, after =>
      removal.removed = false ∧ after = state ∧ state.entry (store.filePath id) = none ∨
        removal.removed = true ∧ after = state.erase (store.filePath id) ∧
          state.entry (store.filePath id) = some (.file content) ∧
          (removal.postUnlinkError ≠ none → refuses ≠ granted)
  | .error _, after => refuses ≠ granted ∧
      SetAside state (store.shardPath id.firstByte) (id.toHex ++ store.suffix) after

theorem removeRepoFileIfBound_triple (huuid : UnusedIds uuid) (htruthful : refuses.Truthful)
    (h : Swept files candidates state) {store : ContentStore} {id : Digest32} {content : Bytes}
    (hclosed : files.Closed) (hmem : store.filePath id ∈ candidates)
    (hfile : files.entry (store.filePath id) = some (.file content)) :
    CrashTriple (fun before => before = state)
      (removeRepoFileIfBound root uuid refuses fingerprint (store.filePath id) content.length
        (fingerprint (store.filePath id) content))
      (fun removal => FileRemoval refuses state store id content (.ok removal))
      (fun error => FileRemoval refuses state store id content (.error error))
      (SweepCrash files candidates) := by
  have hshard := shard_of_file hclosed hfile
  refine .bind (m := fun answer after => after = state ∧
    openPlannedFile root refuses (store.filePath id) state = answer)
    (.inspect_ok fun _ hstate => ⟨hstate, hstate ▸ rfl⟩)
    fun answer => .of_state ?_
  rintro before ⟨hbefore, hopen⟩
  subst before
  rcases h.candidate _ hmem with hsame | hgone
  · rw [hfile] at hsame
    rcases @openPlannedFile_there _ root refuses h.closed _ _ _ hsame with
      hok | ⟨hrefused, path, message, herror⟩
    · obtain rfl := hopen.symm.trans hok
      dsimp only
      rw [if_neg (not_not.mpr rfl), if_neg (not_not.mpr rfl)]
      have hunlink := @unlinkFile_triple root uuid refuses state (store.shardPath id.firstByte)
        (id.toHex ++ store.suffix) huuid htruthful h.closed
      refine (hunlink.weaken (fun _ heq => heq) (fun _ _ hdone => hdone)
        (fun _ _ haside => haside.symm) ?_).bind fun _ => ?_
      · rintro after (haside | hdone)
        · exact haside.crash h (.inl hmem)
        · exact hdone ▸ .settled (h.erase_candidate hmem hfile)
      · refine answer_triple.bind fun answer => ?_
        rcases answer with error | _
        · exact .pure fun after hafter => .inr ⟨rfl, hafter.1, hsame, fun _ => hafter.2 error rfl⟩
        · exact .pure fun after hafter => .inr ⟨rfl, hafter.1, hsame, fun hne => absurd rfl hne⟩
    · obtain rfl := hopen.symm.trans herror
      exact .lift_error fun after heq => ⟨hrefused, .inl heq⟩
  · rcases @openPlannedFile_gone _ _ _ root refuses h store id hshard hgone with
      ⟨error, herror, hrefused⟩
    obtain rfl := hopen.symm.trans herror
    split
    · exact .pure fun after heq => .inl ⟨rfl, heq, hgone⟩
    · next hother heq =>
        cases heq
        exact .lift_error fun after heq => ⟨hrefused hother, .inl heq⟩
    · next heq => cases heq

/-- A candidate that is there goes, with its shard if nothing else is in it. -/
theorem deleteCandidate_deletes (huuid : UnusedIds uuid) (htruthful : refuses.Truthful)
    {analysis : StorageGcAnalysis} {missing : String} {store : ContentStore} {id : Digest32}
    {content : Bytes} (hclosed : files.Closed) (hmem : store.filePath id ∈ candidates)
    (hfile : files.entry (store.filePath id) = some (.file content))
    (hfingerprint : analysis.fingerprint (store.filePath id) =
      some (fingerprint (store.filePath id) content)) :
    Deletes refuses files candidates
      (deleteCandidate root uuid refuses fingerprint analysis missing (.ok store.directory))
      (store.filePath id, content.length) := by
  refine ⟨store.shardPath id.firstByte, id.toHex ++ store.suffix, rfl, hmem, fun state h => ?_⟩
  have hshardMem : store.shardPath id.firstByte ∈ candidates.map List.dropLast :=
    List.mem_map.mpr ⟨_, hmem, filePath_dropLast⟩
  have hremove := @removeRepoFileIfBound_triple files state candidates root uuid refuses fingerprint
    huuid htruthful h store id content hclosed hmem hfile
  rw [deleteCandidate, hfingerprint]
  refine .bind (m := FileRemoval refuses state store id content)
    (hremove.attempt (fun _ _ hdone => hdone) fun _ _ haside => haside) fun result => ?_
  rcases result with error | ⟨removed, synced⟩
  · exact .pure fun after haside => .refused haside.1 haside.2
  rcases removed with _ | _
  · refine .pure fun after hdone => ?_
    rcases hdone with ⟨-, rfl, hgone⟩ | ⟨hfalse, -⟩
    · exact .gone hgone
    · cases hfalse
  apply CrashTriple.of_state
  rintro _ (⟨hfalse, -⟩ | ⟨-, rfl, hsame, hsync⟩)
  · cases hfalse
  have hremoved := h.erase_candidate hmem hfile
  rcases synced with _ | error
  · have hdirectory : (state.erase (store.filePath id)).entry (store.shardPath id.firstByte) =
        some .directory := by
      rw [entry_erase_of_not (show ¬ store.filePath id <+: store.shardPath id.firstByte from
        not_child_start (id.toHex ++ store.suffix))]
      exact shard_of_file h.closed hsame
    have hdirs := @removeEmptyRepoDirs_triple files _ candidates root uuid refuses huuid htruthful
      hremoved store id.firstByte hshardMem (shard_of_file hclosed hfile) hdirectory
    dsimp only
    rw [filePath_dropLast]
    refine .bind (m := fun result after => Deletion refuses files candidates
        (store.shardPath id.firstByte) (id.toHex ++ store.suffix) state (true, result) after)
      (hdirs.attempt (fun _ after hdone => ?_) fun _ _ hcrash => .stopped hcrash.2 hcrash.1)
      fun result => .pure fun _ hdone => hdone
    have hgone : ∀ path, store.filePath id <+: path → after.entry path = none :=
      fun path hstarts => hdone.2 path (entry_erase_below hstarts)
    refine .removed hdone.1 (hgone _ (List.prefix_refl _)) fun path hnone => ?_
    by_cases hstarts : store.filePath id <+: path
    · exact hgone path hstarts
    · exact hdone.2 path ((entry_erase_of_not hstarts).trans hnone)
  · exact .pure fun after heq => .stopped (hsync nofun) (heq ▸ .settled hremoved)

/-! The loops. -/

/-- The candidates that are not waiting any more are gone, and nothing else has changed
while none was deleted. -/
structure Collecting (files : RepositoryFiles) (candidates waiting : List Path) (deleted : Nat)
    (state : RepositoryFiles) : Prop where
  swept : Swept files candidates state
  gone : ∀ path ∈ candidates, path ∉ waiting → state.entry path = none
  untouched : deleted = 0 → state = files

/-- What a collection that is refused a step before it has deleted anything leaves: at most
one candidate has a tombstone name instead of its own. -/
def Spared (refuses : Refusals) (files : RepositoryFiles) (candidates : List Path)
    (state : RepositoryFiles) : Prop :=
  refuses ≠ granted ∧ (state = files ∨
    ∃ parent leaf, parent ++ [leaf] ∈ candidates ∧ SetAside files parent leaf state)

/-- Where the loops are: either no candidate has failed so far, or one has after others
were deleted. -/
def Progress (refuses : Refusals) (files : RepositoryFiles) (candidates waiting : List Path)
    (deleted : Nat) : Option (Path × String) → RepositoryFiles → Prop
  | none, state => Collecting files candidates waiting deleted state
  | some (path, _), state =>
      path ∈ candidates ∧ refuses ≠ granted ∧ 0 < deleted ∧ SweepCrash files candidates state

theorem deleteCandidates_triple {delete : Path × Nat → RepositoryM (Bool × CheckPoResult Unit)}
    {before : Nat} {later : List Path} (list : List (Path × Nat)) (deleted : DeletedCandidates)
    (hdelete : ∀ candidate ∈ list, Deletes refuses files candidates delete candidate) :
    CrashTriple
      (Collecting files candidates (list.map Prod.fst ++ later) (before + deleted.count))
      (deleteCandidates delete before list deleted)
      (fun result => Progress refuses files candidates later (before + result.1.count) result.2)
      (fun _ => Spared refuses files candidates) (SweepCrash files candidates) := by
  induction list generalizing deleted with
  | nil => exact .pure fun state hstate => hstate
  | cons candidate rest ih =>
      refine .of_state fun state hstate => ?_
      rcases hdelete candidate List.mem_cons_self with ⟨parent, leaf, hpath, hmem, hdelete'⟩
      have hrest := fun deleted => ih deleted fun other hother =>
        hdelete other (List.mem_cons_of_mem _ hother)
      have hwaiting : ∀ path ∈ candidates, path ≠ candidate.1 → path ∉ rest.map Prod.fst ++ later →
          state.entry path = none := by
        intro path hin hself hnot
        apply hstate.gone path hin
        rw [List.map_cons, List.cons_append, List.mem_cons, not_or]
        exact ⟨hself, hnot⟩
      rw [deleteCandidates]
      refine ((hdelete' state hstate.swept).weaken (fun _ heq => heq) (fun _ _ h => h)
        (fun _ _ => False.elim) fun _ h => h).bind fun outcome => .of_state ?_
      rintro after (hgone | ⟨hswept, hgone, hkeeps⟩ | ⟨hrefused, hstopped⟩ | ⟨hrefused, haside⟩)
      case gone =>
        refine (hrest deleted).weaken ?_ (fun _ _ h => h) (fun _ _ h => h) fun _ h => h
        rintro _ rfl
        refine ⟨hstate.swept, fun path hin hnot => ?_, hstate.untouched⟩
        by_cases hself : path = candidate.1
        · rw [hself, hpath, hgone]
        · exact hwaiting path hin hself hnot
      case removed =>
        refine (hrest ⟨deleted.count + 1, deleted.bytes + candidate.2⟩).weaken ?_
          (fun _ _ h => h) (fun _ _ h => h) fun _ h => h
        rintro _ rfl
        refine ⟨hswept, fun path hin hnot => ?_, nofun⟩
        by_cases hself : path = candidate.1
        · rw [hself, hpath, hgone]
        · exact hkeeps path (hwaiting path hin hself hnot)
      case stopped =>
        refine .ite (fun hzero => nomatch hzero) fun _ => .pure ?_
        rintro _ rfl
        exact ⟨hmem, hrefused, Nat.succ_pos _, hstopped⟩
      case refused =>
        refine .ite (fun hzero => .lift_error ?_) fun hpos => .pure ?_
        · rintro _ rfl
          exact ⟨hrefused, .inr ⟨parent, leaf, hpath ▸ hmem, hstate.untouched hzero ▸ haside⟩⟩
        · rintro _ rfl
          exact ⟨hmem, hrefused, Nat.pos_of_ne_zero hpos,
            haside.crash hstate.swept (.inl (hpath ▸ hmem))⟩

theorem deleteUnlessFailed_triple {delete : Path × Nat → RepositoryM (Bool × CheckPoResult Unit)}
    {before : Nat} {later : List Path} {list : List (Path × Nat)}
    (hdelete : ∀ candidate ∈ list, Deletes refuses files candidates delete candidate)
    (failed : Option (Path × String)) :
    CrashTriple (Progress refuses files candidates (list.map Prod.fst ++ later) before failed)
      (deleteUnlessFailed delete before list failed)
      (fun result => Progress refuses files candidates later (before + result.1.count) result.2)
      (fun _ => Spared refuses files candidates) (SweepCrash files candidates) := by
  cases failed with
  | none => exact deleteCandidates_triple list ⟨0, 0⟩ hdelete
  | some failure => exact .pure fun _ hfailed => hfailed

/-- How a collection that returns ends: either no candidate failed and all are gone, or the
system refused a step after some of them. -/
def LoopsEnd (refuses : Refusals) (files : RepositoryFiles) (candidates : List Path)
    (deleted : Nat) (failedCandidate : Option Path) (failure : Option String)
    (state : RepositoryFiles) : Prop :=
  failure.isNone = true ∧ Swept files candidates state ∧
      (∀ path ∈ candidates, state.entry path = none) ∨
    failure.isSome = true ∧ refuses ≠ granted ∧ 0 < deleted ∧
      (∀ path, failedCandidate = some path → path ∈ candidates) ∧ SweepCrash files candidates state

theorem finishCollection_triple {deleted : Nat} (failed : Option (Path × String)) :
    CrashTriple (Progress refuses files candidates [] deleted failed)
      (finishCollection root refuses deleted failed)
      (fun result => LoopsEnd refuses files candidates deleted result.1 result.2)
      (fun _ => Spared refuses files candidates) (SweepCrash files candidates) := by
  rcases failed with _ | ⟨path, failure⟩
  · refine answer_triple.bind fun answer => ?_
    rcases answer with error | _
    · refine .ite (fun hzero => .lift_error fun _ hstate => ?_) fun hpos => .pure
        fun _ hstate => .inr ?_
      · exact ⟨hstate.2 error rfl, .inl (hstate.1.untouched hzero)⟩
      · exact ⟨rfl, hstate.2 error rfl, Nat.pos_of_ne_zero hpos, nofun, .settled hstate.1.swept⟩
    · exact .pure fun _ hstate =>
        .inl ⟨rfl, hstate.1.swept, fun path hin => hstate.1.gone path hin List.not_mem_nil⟩
  · refine .pure fun _ hstate => .inr ⟨rfl, hstate.2.1, hstate.2.2.1, ?_, hstate.2.2.2⟩
    rintro _ ⟨⟩
    exact hstate.1

/-! The whole collection. -/

theorem storeOf_filePath {stores : List ContentStore} {store : ContentStore} {id : Digest32}
    (hmem : store ∈ stores) : storeOf stores (store.filePath id) = some store := by
  have hself : store.directory <+: store.filePath id :=
    (List.prefix_append _ _).trans (List.prefix_append _ _)
  have honly : ∀ other, other.directory <+: store.filePath id → other = store := by
    intro other hother
    apply @ContentStore.directory_start other store []
      [hexByte id.firstByte, id.toHex ++ store.suffix]
    rw [List.append_nil]
    simpa [ContentStore.filePath, ContentStore.shardPath] using hother
  rw [storeOf]
  induction stores with
  | nil => cases hmem
  | cons other stores ih =>
      by_cases hother : other.directory <+: store.filePath id
      · obtain rfl := honly other hother
        simp only [List.find?_cons, decide_eq_true hother]
      · simp only [List.find?_cons, decide_eq_false hother]
        apply ih
        rcases List.mem_cons.mp hmem with heq | hmem
        · exact absurd (heq ▸ hself) hother
        · exact hmem

/-- A candidate as the analysis found it: its place, its size and its fingerprint. -/
def Planned (files : RepositoryFiles) (fingerprint : Path → Bytes → String)
    (analysis : StorageGcAnalysis) (stores : List ContentStore) (candidate : Path × Nat) : Prop :=
  ∃ store ∈ stores, ∃ id content, candidate = (store.filePath id, content.length) ∧
    files.entry (store.filePath id) = some (.file content) ∧
    analysis.fingerprint (store.filePath id) = some (fingerprint (store.filePath id) content)

/-- A plan whose candidates are all as the analysis found them. -/
structure PlannedAll (files : RepositoryFiles) (fingerprint : Path → Bytes → String)
    (analysis : StorageGcAnalysis) : Prop where
  blobs : ∀ candidate ∈ analysis.plan.blobs,
    Planned files fingerprint analysis [.object] candidate
  chunks : ∀ candidate ∈ analysis.plan.unreferencedManifestChunks,
    Planned files fingerprint analysis [.manifestNode, .manifestLeaf] candidate
  nodes : ∀ candidate ∈ analysis.plan.unreferencedInventoryNodes,
    Planned files fingerprint analysis [.inventoryState, .inventorySetRoot, .inventorySetLeaf]
      candidate

theorem deleteBlob_deletes (huuid : UnusedIds uuid) (htruthful : refuses.Truthful)
    (hclosed : files.Closed) {analysis : StorageGcAnalysis} {candidate : Path × Nat}
    (hmem : candidate.1 ∈ candidates)
    (h : Planned files fingerprint analysis [.object] candidate) :
    Deletes refuses files candidates (deleteBlob root uuid refuses fingerprint analysis)
      candidate := by
  rcases h with ⟨store, hstore, id, content, rfl, hfile, hprint⟩
  obtain rfl := List.mem_singleton.mp hstore
  exact deleteCandidate_deletes huuid htruthful hclosed hmem hfile hprint

theorem deleteManifestChunk_deletes (huuid : UnusedIds uuid) (htruthful : refuses.Truthful)
    (hclosed : files.Closed) {analysis : StorageGcAnalysis} {candidate : Path × Nat}
    (hmem : candidate.1 ∈ candidates)
    (h : Planned files fingerprint analysis [.manifestNode, .manifestLeaf] candidate) :
    Deletes refuses files candidates (deleteManifestChunk root uuid refuses fingerprint analysis)
      candidate := by
  rcases h with ⟨store, hstore, id, content, rfl, hfile, hprint⟩
  rw [Deletes, deleteManifestChunk, storeOf_filePath hstore]
  exact deleteCandidate_deletes huuid htruthful hclosed hmem hfile hprint

theorem deleteInventoryNode_deletes (huuid : UnusedIds uuid) (htruthful : refuses.Truthful)
    (hclosed : files.Closed) {analysis : StorageGcAnalysis} {candidate : Path × Nat}
    (hmem : candidate.1 ∈ candidates)
    (h : Planned files fingerprint analysis
      [.inventoryState, .inventorySetRoot, .inventorySetLeaf] candidate) :
    Deletes refuses files candidates (deleteInventoryNode root uuid refuses fingerprint analysis)
      candidate := by
  rcases h with ⟨store, hstore, id, content, rfl, hfile, hprint⟩
  rw [Deletes, deleteInventoryNode, storeOf_filePath hstore]
  exact deleteCandidate_deletes huuid htruthful hclosed hmem hfile hprint

/-- What a collection that returns leaves: nothing of the candidates if it completed, as it
does unless the system refuses a step, and otherwise what a crash may leave. -/
def SweepEnd (refuses : Refusals) (files : RepositoryFiles) (candidates : List Path)
    (result : StorageGcResult) (state : RepositoryFiles) : Prop :=
  result.completed = true ∧ Swept files candidates state ∧
      (∀ path ∈ candidates, state.entry path = none) ∨
    refuses ≠ granted ∧ result.completed = false ∧ result.committedPartially = true ∧
      (∀ path, result.failedCandidate = some path → path ∈ candidates) ∧
      SweepCrash files candidates state

/-- A plan that is the expected one and has no integrity problems. -/
def StorageGcPlan.Applicable (plan : StorageGcPlan) (expectedPlanId : String) : Prop :=
  expectedPlanId = plan.planId ∧ plan.hasIntegrityProblems = false

theorem applyGc_triple (huuid : UnusedIds uuid) (htruthful : refuses.Truthful)
    (hclosed : files.Closed) {analysis : StorageGcAnalysis}
    (hplanned : PlannedAll files fingerprint analysis) (expectedPlanId : String) :
    CrashTriple (fun state => state = files)
      (applyGc root uuid refuses fingerprint expectedPlanId analysis)
      (fun result state => analysis.plan.Applicable expectedPlanId ∧
        SweepEnd refuses files (analysis.plan.candidates.map Prod.fst) result state)
      (fun _ state => ¬ analysis.plan.Applicable expectedPlanId ∧ state = files ∨
        Spared refuses files (analysis.plan.candidates.map Prod.fst) state)
      (SweepCrash files (analysis.plan.candidates.map Prod.fst)) := by
  generalize hcandidates : analysis.plan.candidates.map Prod.fst = candidates
  have hmem : ∀ candidate ∈ analysis.plan.candidates, candidate.1 ∈ candidates :=
    fun candidate h => hcandidates ▸ List.mem_map_of_mem h
  have hblobs : ∀ candidate ∈ analysis.plan.blobs, Deletes refuses files candidates
      (deleteBlob root uuid refuses fingerprint analysis) candidate := fun candidate h =>
    deleteBlob_deletes huuid htruthful hclosed (hmem candidate (List.mem_append_left _ h))
      (hplanned.blobs candidate h)
  have hchunks : ∀ candidate ∈ analysis.plan.unreferencedManifestChunks,
      Deletes refuses files candidates (deleteManifestChunk root uuid refuses fingerprint analysis)
        candidate := fun candidate h =>
    deleteManifestChunk_deletes huuid htruthful hclosed
      (hmem candidate (List.mem_append_right _ (List.mem_append_left _ h)))
      (hplanned.chunks candidate h)
  have hnodes : ∀ candidate ∈ analysis.plan.unreferencedInventoryNodes,
      Deletes refuses files candidates (deleteInventoryNode root uuid refuses fingerprint analysis)
        candidate := fun candidate h =>
    deleteInventoryNode_deletes huuid htruthful hclosed
      (hmem candidate (List.mem_append_right _ (List.mem_append_right _ h)))
      (hplanned.nodes candidate h)
  have hwaiting : candidates = analysis.plan.blobs.map Prod.fst ++
      (analysis.plan.unreferencedManifestChunks.map Prod.fst ++
        (analysis.plan.unreferencedInventoryNodes.map Prod.fst ++ [])) := by
    rw [← hcandidates, StorageGcPlan.candidates, List.map_append, List.map_append, List.append_nil]
  have hstart : ∀ state, state = files → Progress refuses files candidates
      (analysis.plan.blobs.map Prod.fst ++
        (analysis.plan.unreferencedManifestChunks.map Prod.fst ++
          (analysis.plan.unreferencedInventoryNodes.map Prod.fst ++ []))) 0 none state := by
    rintro _ rfl
    rw [← hwaiting]
    exact ⟨.refl hclosed, fun path hin hnot => absurd hin hnot, fun _ => rfl⟩
  rw [applyGc]
  refine .ite (fun hplan => .lift_error fun _ heq => .inl ⟨fun h => hplan h.1, heq⟩)
    fun hplan => .ite (fun hproblems => .lift_error fun _ heq => .inl ⟨fun h => ?_, heq⟩)
      fun hproblems => ?_
  · rw [h.2] at hproblems
    cases hproblems
  have happlicable : analysis.plan.Applicable expectedPlanId :=
    ⟨not_not.mp hplan, Bool.not_eq_true _ ▸ hproblems⟩
  refine CrashTriple.weaken (?_ : CrashTriple (fun state => state = files) _
    (SweepEnd refuses files candidates) (fun _ => Spared refuses files candidates)
    (SweepCrash files candidates)) (fun _ heq => heq) (fun _ _ hend => ⟨happlicable, hend⟩)
    (fun _ _ hspared => .inr hspared) fun _ hcrash => hcrash
  refine (ask_triple fun _ _ heq hrefused => ⟨ne_granted hrefused, .inl heq⟩).bind fun _ => ?_
  refine ((deleteUnlessFailed_triple hblobs none).weaken hstart (fun _ _ h => h)
    (fun _ _ h => h) fun _ h => h).bind ?_
  rintro ⟨blobs, failed⟩
  rw [Nat.zero_add]
  refine (deleteUnlessFailed_triple hchunks failed).bind ?_
  rintro ⟨chunks, failed⟩
  refine (deleteUnlessFailed_triple hnodes failed).bind ?_
  rintro ⟨nodes, failed⟩
  refine (finishCollection_triple failed).bind fun outcome => .pure fun state hfinished => ?_
  rcases hfinished with ⟨hnone, hswept, hgone⟩ | ⟨hsome, hrefused, hpos, hfailed, hcrash⟩
  · exact .inl ⟨hnone, hswept, hgone⟩
  · refine .inr ⟨hrefused, ?_, ?_, hfailed, hcrash⟩
    · exact Option.isNone_eq_false_iff.mpr hsome
    · exact Bool.and_eq_true_iff.mpr ⟨hsome, decide_eq_true hpos⟩

end Sweeping

end CheckPo
