/-
The candidates of a garbage collection: the files of the content stores that neither a
snapshot nor the inventory's current state uses, each at its place and with its fingerprint.
-/
import CheckPo.GarbageMarks
import CheckPo.GarbageSweep

namespace CheckPo

open FileTree

/-! Places. -/

theorem utf8_toHex_start (id : Digest32) :
    ∃ rest, id.toHex = hexByte id.firstByte ++ rest := by
  rcases id with ⟨bytes, hlength⟩
  cases bytes with
  | nil => cases hlength
  | cons first rest =>
      refine ⟨String.ofList (rest.flatMap fun byte =>
        [lowerHexDigit (byte.toNat / 16), lowerHexDigit (byte.toNat % 16)]), ?_⟩
      apply String.toList_injective
      simp [Digest32.toHex, Digest32.firstByte, byteAt, hexByte]

theorem length_utf8_plain {text : List Char}
    (h : ∀ character ∈ text, (String.utf8EncodeChar character).length = 1) :
    (utf8 (String.ofList text)).length = text.length := by
  rw [utf8_ofList]
  induction text with
  | nil => rfl
  | cons character text ih =>
      rw [List.forall_mem_cons] at h
      rw [List.flatMap_cons, List.length_append, h.1, ih h.2, List.length_cons, Nat.add_comm]

theorem length_utf8_toHex (id : Digest32) : (utf8 id.toHex).length = 64 := by
  rw [← String.ofList_toList (s := id.toHex),
    length_utf8_plain fun character hcharacter => (toHex_plain id hcharacter).1, length_toHex]

theorem length_utf8_hexByte (byte : UInt8) : (utf8 (hexByte byte)).length = 2 := by
  have hbyte : byte.toNat < 256 := UInt8.toNat_lt byte
  rw [hexByte, length_utf8_plain]
  · rfl
  · simp only [List.forall_mem_cons, List.not_mem_nil, false_imp_iff, implies_true, and_true]
    exact ⟨(lowerHexDigit_plain (by omega)).1, (lowerHexDigit_plain (Nat.mod_lt _ (by decide))).1⟩

theorem utf8_append (left right : String) : utf8 (left ++ right) = utf8 left ++ utf8 right := by
  rw [← String.ofList_toList (s := left), ← String.ofList_toList (s := right),
    ← String.ofList_append, utf8_ofList, utf8_ofList, utf8_ofList, List.flatMap_append]

theorem take_utf8_toHex (id : Digest32) :
    (utf8 id.toHex).take 2 = utf8 (hexByte id.firstByte) := by
  rcases utf8_toHex_start id with ⟨rest, hrest⟩
  rw [hrest, utf8_append, ← length_utf8_hexByte id.firstByte, List.take_left]

theorem extension_toHex (id : Digest32) : extension id.toHex = none := by
  have hplain : ∀ character ∈ id.toHex.toList.reverse, (character != '.') = true := by
    intro character hcharacter
    apply @forall_toHex (fun character => (character != '.') = true) _ id
    · exact List.mem_reverse.mp hcharacter
    · decide
  rw [extension, List.takeWhile_eq_self_iff.mpr hplain]
  rw [List.drop_eq_nil_of_le le_rfl]

/-- The place of a loose object is its only place. -/
theorem objectIdFromLooseRelativePath_eq_ok {path : Path} {id : ObjectId} :
    RepositoryFiles.objectIdFromLooseRelativePath path = .ok id ↔ path = objectPath id := by
  constructor
  · intro h
    unfold RepositoryFiles.objectIdFromLooseRelativePath at h
    split at h
    · next first hash =>
        simp only [except_guard_eq_ok, ne_eq, not_not] at h
        rcases h with ⟨hfirst, hhash, htake, h⟩
        split at h
        · next found hparse =>
            cases h
            obtain rfl := toHex_of_parse hparse
            rw [take_utf8_toHex] at htake
            obtain rfl := utf8_injective htake
            simp [objectPath, ContentStore.filePath, ContentStore.shardPath,
              ContentStore.directory, ContentStore.suffix]
        · cases h
    · cases h
  · rintro rfl
    have hpath : objectPath id = ["objects", "loose", hexByte id.firstByte, id.toHex] := by
      simp [objectPath, ContentStore.filePath, ContentStore.shardPath,
        ContentStore.directory, ContentStore.suffix]
    rw [hpath, RepositoryFiles.objectIdFromLooseRelativePath, length_utf8_hexByte,
      length_utf8_toHex, take_utf8_toHex, parseLowerHexId_toHex]
    simp

theorem filePath_mem_walk {files : RepositoryFiles} {store : ContentStore} {id : Digest32}
    (h : files.entry (store.filePath id) ≠ none) :
    store.filePath id ∈ files.walk store.directory := by
  refine mem_walk.mpr (mem_below.mpr ⟨h, ?_, fun heq => ?_⟩)
  · exact (List.prefix_append _ _).trans (List.prefix_append _ _)
  · have hlength := congrArg List.length heq
    simp [ContentStore.filePath, ContentStore.shardPath] at hlength

/-! The loose objects. -/

section Loose

variable {files : RepositoryFiles}

theorem mem_foldl_visitLooseEntry {paths : List Path} {inventory : RepositoryFiles.ObjectInventory}
    {object : ObjectId × Path} :
    object ∈ (paths.foldl files.visitLooseEntry inventory).objects ↔
      object ∈ inventory.objects ∨ object.2 ∈ paths ∧ object.2 = objectPath object.1 ∧
        ∃ content, files.entry object.2 = some (.file content) := by
  induction paths generalizing inventory with
  | nil => simp
  | cons path rest ih =>
      have hvisit : object ∈ (files.visitLooseEntry inventory path).objects ↔
          object ∈ inventory.objects ∨ object.2 = path ∧ path = objectPath object.1 ∧
            ∃ content, files.entry path = some (.file content) := by
        rw [RepositoryFiles.visitLooseEntry]
        split
        · next hlink => simp [hlink]
        · next content hfile =>
            split
            · next hextension =>
                have hnot : path ≠ objectPath object.1 := by
                  rintro rfl
                  rw [objectPath, ContentStore.filePath, List.getLastD_concat,
                    ContentStore.suffix, String.append_empty, extension_toHex] at hextension
                  cases hextension
                simp [hnot]
            · split
              · next id hid =>
                  have hpath := objectIdFromLooseRelativePath_eq_ok.mp hid
                  simp only [List.mem_append, List.mem_singleton, hfile]
                  refine or_congr_right ?_
                  constructor
                  · rintro rfl
                    exact ⟨rfl, hpath, content, rfl⟩
                  · rintro ⟨hself, hother, -⟩
                    rw [hpath] at hother
                    have hsame := ContentStore.filePath_injective hother
                    exact Prod.ext hsame.symm hself
              · next reason hreason =>
                  have hnot : path ≠ objectPath object.1 := by
                    rintro rfl
                    rw [objectIdFromLooseRelativePath_eq_ok.mpr rfl] at hreason
                    cases hreason
                  simp [hnot]
        · next hlink hfile =>
            have hnone : ¬ ∃ content, files.entry path = some (.file content) := by
              rintro ⟨content, hcontent⟩
              exact hfile content hcontent
            simp [hnone]
      rw [List.foldl_cons, ih, hvisit, List.mem_cons]
      constructor
      · rintro ((hold | ⟨hself, hpath, hfile⟩) | ⟨hrest, hpath, hfile⟩)
        · exact .inl hold
        · exact .inr ⟨.inl hself, hself ▸ hpath, hself ▸ hfile⟩
        · exact .inr ⟨.inr hrest, hpath, hfile⟩
      · rintro (hold | ⟨hself | hrest, hpath, hfile⟩)
        · exact .inl (.inl hold)
        · exact .inl (.inr ⟨hself, hself ▸ hpath, hself ▸ hfile⟩)
        · exact .inr ⟨hrest, hpath, hfile⟩

/-- The loose objects are the files at the places of objects. -/
theorem mem_enumerateLooseObjects (hclosed : files.Closed) {object : ObjectId × Path} :
    object ∈ files.enumerateLooseObjects.objects ↔ object.2 = objectPath object.1 ∧
      ∃ content, files.entry object.2 = some (.file content) := by
  rw [RepositoryFiles.enumerateLooseObjects]
  split
  · next hnone =>
      simp only [List.not_mem_nil, false_iff, not_and]
      rintro hpath ⟨content, hfile⟩
      have hentry : files.entry (ContentStore.object.filePath object.1) ≠ none := by
        rw [← objectPath, ← hpath, hfile]
        exact Option.some_ne_none _
      rw [(closed_filePath hclosed hentry).2] at hnone
      cases hnone
  · rw [mem_foldl_visitLooseEntry]
    simp only [List.not_mem_nil, false_or, and_iff_right_iff_imp]
    rintro ⟨hpath, content, hfile⟩
    have hentry : files.entry (ContentStore.object.filePath object.1) ≠ none := by
      rw [← objectPath, ← hpath, hfile]
      exact Option.some_ne_none _
    rw [hpath]
    exact List.mem_cons_of_mem _ (filePath_mem_walk hentry)

end Loose

/-! The manifest chunks. -/

section Chunks

variable {files : RepositoryFiles} {store : ContentStore} {kind : ChunkKind}

/-- A chunk in a listing of a store: its reference, its place and its size. -/
def ListedChunk (files : RepositoryFiles) (store : ContentStore) (kind : ChunkKind)
    (chunk : ManifestRef × Path × Nat) : Prop :=
  chunk.1.kind = kind ∧ chunk.2.1 = store.filePath chunk.1.id ∧
    ∃ content, files.entry chunk.2.1 = some (.file content) ∧ chunk.2.2 = content.length

theorem mem_visitManifestEntry (hclosed : files.Closed) (hsuffix : store.suffix = "")
    {inventory : RepositoryFiles.ManifestChunkInventory} {path : Path}
    {chunk : ManifestRef × Path × Nat} :
    chunk ∈ (files.visitManifestEntry store kind inventory path).chunks ↔
      chunk ∈ inventory.chunks ∨ chunk.2.1 = path ∧ ListedChunk files store kind chunk := by
  by_cases hplace : ∃ digest content, path = store.filePath digest ∧
      files.entry path = some (.file content)
  · rcases hplace with ⟨digest, content, rfl, hfile⟩
    have hdrop : (store.filePath digest).drop store.directory.length =
        [hexByte digest.firstByte, digest.toHex] := by
      rw [ContentStore.filePath, ContentStore.shardPath, List.append_assoc, List.drop_left,
        hsuffix, String.append_empty]
      rfl
    have hparse : parseLowerHexDigest digest.toHex = some digest := by
      rw [parseLowerHexDigest, parseLowerHexId_toHex]
      rfl
    rw [RepositoryFiles.visitManifestEntry, hdrop]
    dsimp only
    rw [filePath_dropLast, shard_of_file hclosed hfile, RepositoryFiles.isLowerHex_hexByte, if_neg (by simp), hfile, hparse]
    dsimp only
    rw [if_neg (not_not.mpr rfl)]
    simp only [List.mem_append, List.mem_singleton, ListedChunk]
    refine or_congr_right ?_
    constructor
    · rintro rfl
      exact ⟨rfl, rfl, rfl, content, hfile, rfl⟩
    · rintro ⟨hpath, hkind, hself, other, hother, hlength⟩
      rw [hpath] at hself hother
      obtain rfl := ContentStore.filePath_injective hself
      rw [hfile] at hother
      cases hother
      rcases chunk with ⟨⟨_, _⟩, _, _⟩
      dsimp only at hkind hpath hlength
      subst hkind hpath hlength
      rfl
  · have hnot : ¬ (chunk.2.1 = path ∧ ListedChunk files store kind chunk) := by
      rintro ⟨rfl, -, hself, content, hfile, -⟩
      exact hplace ⟨chunk.1.id, content, hself, hfile⟩
    have hsame : (files.visitManifestEntry store kind inventory path).chunks =
        inventory.chunks := by
      rw [RepositoryFiles.visitManifestEntry]
      split
      · split_ifs <;> rfl
      · split_ifs
        · rfl
        · split
          · rfl
          · next content hfile =>
              split
              · rfl
              · next digest _ =>
                  have hother : store.filePath digest ≠ path := fun heq =>
                    hplace ⟨digest, content, heq.symm, hfile⟩
                  rw [if_pos hother]
                  rfl
          · rfl
      · rfl
    rw [hsame, or_iff_left hnot]

theorem mem_foldl_visitManifestEntry (hclosed : files.Closed) (hsuffix : store.suffix = "")
    {paths : List Path} {inventory : RepositoryFiles.ManifestChunkInventory}
    {chunk : ManifestRef × Path × Nat} :
    chunk ∈ (paths.foldl (files.visitManifestEntry store kind) inventory).chunks ↔
      chunk ∈ inventory.chunks ∨ chunk.2.1 ∈ paths ∧ ListedChunk files store kind chunk := by
  induction paths generalizing inventory with
  | nil => simp
  | cons path rest ih =>
      rw [List.foldl_cons, ih, mem_visitManifestEntry hclosed hsuffix, List.mem_cons, or_assoc,
        ← or_and_right]

theorem mem_enumerateManifestStore (hclosed : files.Closed) (hsuffix : store.suffix = "")
    {root : String} {inventory stored : RepositoryFiles.ManifestChunkInventory}
    (h : files.enumerateManifestStore root store kind inventory = .ok stored)
    {chunk : ManifestRef × Path × Nat} :
    chunk ∈ stored.chunks ↔ chunk ∈ inventory.chunks ∨ ListedChunk files store kind chunk := by
  have habove : ListedChunk files store kind chunk → chunk.2.1 ∈ files.walk store.directory ∧
      files.entry store.directory = some .directory := by
    rintro ⟨-, hself, content, hfile, -⟩
    have hentry : files.entry (store.filePath chunk.1.id) ≠ none := by
      rw [← hself, hfile]
      exact Option.some_ne_none _
    exact ⟨hself ▸ filePath_mem_walk hentry, (closed_filePath hclosed hentry).2⟩
  rw [RepositoryFiles.enumerateManifestStore] at h
  split at h
  · cases h
  · cases h
    rw [mem_foldl_visitManifestEntry hclosed hsuffix]
    exact or_congr_right (and_iff_right_of_imp fun hlisted => (habove hlisted).1)
  · next hother hentry =>
      cases h
      have hnot : ¬ ListedChunk files store kind chunk := fun hlisted =>
        hother (Option.some.inj (hentry.symm.trans (habove hlisted).2))
      rw [or_iff_left hnot]
      rfl

theorem mem_enumerateManifestChunks (hclosed : files.Closed) {root : String}
    {stored : RepositoryFiles.ManifestChunkInventory}
    (h : files.enumerateManifestChunks root = .ok stored) {chunk : ManifestRef × Path × Nat} :
    chunk ∈ stored.chunks ↔ ListedChunk files .manifestNode .node chunk ∨
      ListedChunk files .manifestLeaf .leaf chunk := by
  rw [RepositoryFiles.enumerateManifestChunks, except_bind_eq_ok] at h
  rcases h with ⟨nodes, hnodes, hleaves⟩
  rw [mem_enumerateManifestStore hclosed rfl hleaves, mem_enumerateManifestStore hclosed rfl hnodes]
  simp

end Chunks

end CheckPo
