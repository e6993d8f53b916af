/-
The codec is canonical: what a decoder accepts is exactly what the encoder
writes.  The round trip gives one direction; here each reader is shown to accept
only bytes that its writer writes, first for the primitive fields, then for the
envelope, leaves, nodes and roots.
-/
import CheckPo.MerkleCodecRoundTrip

namespace CheckPo

theorem utf8_of_fromUtf8 {bytes : Bytes} {text : String} (h : fromUtf8 bytes = some text) :
    utf8 text = bytes := by
  simp only [fromUtf8, String.fromUTF8?] at h
  split at h
  · cases h
    rfl
  · cases h

theorem takes_lift {α : Type} (result : CodecResult α) :
    Takes (liftM result : Reader α) fun value front => result = .ok value ∧ front = [] := by
  intro bytes value rest h
  cases result with
  | error error => cases h
  | ok found =>
      cases h
      exact ⟨[], ⟨rfl, rfl⟩, rfl⟩

theorem takes_fail {α : Type} (error : CodecError) :
    Takes (Reader.fail error : Reader α) fun _ _ => False := by
  intro bytes value rest h
  cases h

theorem takes_take (count : Nat) :
    Takes (Reader.take count) fun value front => front = value ∧ value.length = count := by
  intro bytes value rest h
  by_cases hshort : bytes.length < count
  · simp [Reader.take, StateT.run, hshort] at h
  · simp only [Reader.take, StateT.run, if_neg hshort, Except.ok.injEq, Prod.mk.injEq] at h
    obtain ⟨rfl, rfl⟩ := h
    exact ⟨_, ⟨rfl, by rw [List.length_take]; omega⟩, (List.take_append_drop _ _).symm⟩

theorem takes_array (count : Nat) :
    Takes (Reader.array count) fun value front => front = value.val := by
  intro bytes value rest h
  by_cases hshort : bytes.length < count
  · simp [Reader.array, StateT.run, hshort] at h
  · simp only [Reader.array, StateT.run, dif_neg hshort, Except.ok.injEq,
      Prod.mk.injEq] at h
    obtain ⟨rfl, rfl⟩ := h
    exact ⟨_, rfl, (List.take_append_drop _ _).symm⟩

/-- A fixed-width unsigned field was written big-endian. -/
theorem takes_bigEndian {α : Type} (width : Nat) (ofNat : Nat → α) (toNat : α → Nat)
    (h : ∀ number, number < 256 ^ width → toNat (ofNat number) = number) :
    Takes (do return ofNat (ofBigEndian (← Reader.take width)) : Reader α)
      fun value front => front = toBigEndian width (toNat value) := by
  apply ((takes_take width).bind fun bytes => Takes.pure (ofNat (ofBigEndian bytes))).weaken
  rintro value front ⟨bytes, front', _, ⟨hfront, hlength⟩, ⟨rfl, rfl⟩, rfl⟩
  have hlt : ofBigEndian bytes < 256 ^ width := hlength ▸ ofBigEndian_lt bytes
  rw [h _ hlt, List.append_nil, hfront, ← hlength, toBigEndian_ofBigEndian]

theorem takes_u8 : Takes Reader.u8 fun value front => front = Writer.u8 value := by
  apply (takes_bigEndian 1 UInt8.ofNat UInt8.toNat fun number hlt =>
    UInt8.toNat_ofNat_of_lt' hlt).weaken
  rintro value front rfl
  simp [Writer.u8, toBigEndian, Nat.mod_eq_of_lt (UInt8.toNat_lt value)]

theorem takes_u16 : Takes Reader.u16 fun value front => front = Writer.u16 value :=
  takes_bigEndian 2 UInt16.ofNat UInt16.toNat fun _ hlt => UInt16.toNat_ofNat_of_lt' hlt

theorem takes_u32 : Takes Reader.u32 fun value front => front = Writer.u32 value :=
  takes_bigEndian 4 UInt32.ofNat UInt32.toNat fun _ hlt => UInt32.toNat_ofNat_of_lt' hlt

theorem takes_u64 : Takes Reader.u64 fun value front => front = Writer.u64 value :=
  takes_bigEndian 8 UInt64.ofNat UInt64.toNat fun _ hlt => UInt64.toNat_ofNat_of_lt' hlt

theorem takes_i64 : Takes Reader.i64 fun value front => front = Writer.i64 value :=
  takes_bigEndian 8 (fun number => (UInt64.ofNat number).toInt64)
    (fun value => value.toUInt64.toNat) fun number hlt => by
      rw [UInt64.toUInt64_toInt64, UInt64.toNat_ofNat_of_lt' hlt]

theorem takes_digest : Takes Reader.digest fun value front => front = Writer.digest value := by
  apply ((takes_array 32).field fun value =>
    Takes.pure (⟨value.val, value.property⟩ : Digest32)).weaken
  rintro value front ⟨bytes, _, ⟨rfl, rfl⟩, rfl⟩
  exact List.append_nil _

theorem takes_summary :
    Takes Reader.summary fun value front => front = Writer.summary value := by
  apply (takes_u64.field fun entryCount => takes_u64.field fun logicalSizeBytes =>
    takes_u64.field fun totalExactPathBytes => Takes.pure
      (⟨entryCount, logicalSizeBytes, totalExactPathBytes⟩ : ManifestSummary)).weaken
  rintro value front ⟨entryCount, _, ⟨logicalSizeBytes, _, ⟨totalExactPathBytes, _,
    ⟨rfl, rfl⟩, rfl⟩, rfl⟩, rfl⟩
  simp [Writer.summary]

theorem takes_bytes (field : String) (limit : Nat) :
    Takes (Reader.bytes field limit) fun value front =>
      Writer.bytes value = .ok front ∧ value.length ≤ limit := by
  apply (takes_u32.bind_of (fun length value back =>
    back = value ∧ value.length = length.toNat ∧ value.length ≤ limit) fun length => ?_).weaken
  · rintro value front ⟨length, _, back, rfl, ⟨hback, hlength, hlimit⟩, rfl⟩
    refine ⟨?_, hlimit⟩
    have hlt : value.length < 2 ^ 32 := hlength ▸ UInt32.toNat_lt length
    simp only [Writer.bytes, except_bind_eq_ok, except_pure_eq_ok]
    exact ⟨length, usizeToU32_eq_ok.mpr ⟨hlt, by rw [hlength, UInt32.ofNat_toNat]⟩,
      by rw [hback]⟩
  · by_cases hlimit : limit < length.toNat
    · rw [if_pos hlimit]
      exact (takes_fail _).weaken fun _ _ => False.elim
    · rw [if_neg hlimit]
      apply (takes_take length.toNat).weaken
      rintro value front ⟨rfl, hlength⟩
      exact ⟨rfl, hlength, hlength ▸ Nat.not_lt.mp hlimit⟩

theorem takes_string (field : String) (limit : Nat) :
    Takes (Reader.string field limit) fun value front =>
      Writer.string value = .ok front ∧ (utf8 value).length ≤ limit := by
  apply ((takes_bytes field limit).bind_of (fun bytes value back =>
    utf8 value = bytes ∧ back = []) fun bytes => ?_).weaken
  · rintro value front ⟨bytes, front', _, ⟨hwritten, hlimit⟩, ⟨rfl, rfl⟩, rfl⟩
    rw [List.append_nil]
    exact ⟨hwritten, hlimit⟩
  · cases htext : fromUtf8 bytes with
    | none => exact (takes_fail _).weaken fun _ _ => False.elim
    | some text =>
        apply (Takes.pure text).weaken
        rintro value front ⟨rfl, rfl⟩
        exact ⟨utf8_of_fromUtf8 htext, rfl⟩

theorem takes_count (field : String) (limit : Nat) :
    Takes (Reader.count field limit) fun value front =>
      value ≤ limit ∧ ∃ count : UInt32, count.toNat = value ∧ front = Writer.u32 count := by
  apply (takes_u32.bind_of (fun count value back =>
    value = count.toNat ∧ value ≤ limit ∧ back = []) fun count => ?_).weaken
  · rintro value front ⟨count, _, _, rfl, ⟨rfl, hlimit, rfl⟩, rfl⟩
    exact ⟨hlimit, count, rfl, List.append_nil _⟩
  · by_cases hlimit : limit < count.toNat
    · rw [if_pos hlimit]
      exact (takes_fail _).weaken fun _ _ => False.elim
    · rw [if_neg hlimit]
      apply (Takes.pure count.toNat).weaken
      rintro value front ⟨rfl, rfl⟩
      exact ⟨rfl, Nat.not_lt.mp hlimit, rfl⟩

theorem runToEnd_takes {α : Type} {reader : Reader α} {written : α → Bytes → Prop}
    (h : Takes reader written) {payload : Bytes} {value : α}
    (hrun : reader.runToEnd payload = .ok value) : written value payload := by
  simp only [Reader.runToEnd, except_bind_eq_ok, Prod.exists, except_ensure_eq_ok,
    except_pure_eq_ok] at hrun
  obtain ⟨found, rest, hread, hempty, rfl⟩ := hrun
  obtain ⟨front, hfront, rfl⟩ := h _ _ _ hread
  rwa [List.isEmpty_iff.mp hempty, List.append_nil]

/-! The envelope. -/

theorem toByte_of_parse {value : UInt8} {kind : ChunkKind}
    (h : ChunkKind.parse value = .ok kind) : value = kind.toByte := by
  unfold ChunkKind.parse at h
  split at h
  · next heq => cases h; exact heq
  · split at h
    · next heq => cases h; exact heq
    · split at h
      · next heq => cases h; exact heq
      · cases h

theorem drop_eq_getD_cons {bytes : Bytes} {index : Nat} (h : index < bytes.length) :
    bytes.drop index = bytes.getD index 0 :: bytes.drop (index + 1) := by
  rw [List.drop_eq_getElem_cons h, List.getD_eq_getElem bytes 0 h]

/-- The bytes of a field of known width are those of its number. -/
theorem take_eq_toBigEndian (bytes : Bytes) (width : Nat) (h : width ≤ bytes.length) :
    bytes.take width = toBigEndian width (ofBigEndian (bytes.take width)) := by
  have hlength : (bytes.take width).length = width := by
    rw [List.length_take]
    omega
  calc bytes.take width
      = toBigEndian (bytes.take width).length (ofBigEndian (bytes.take width)) :=
        (toBigEndian_ofBigEndian _).symm
    _ = toBigEndian width (ofBigEndian (bytes.take width)) := by rw [hlength]

theorem envelope_of_decodeEnvelope {kind : ChunkKind} {stored payload : Bytes}
    (h : decodeEnvelope stored kind = .ok payload) : envelope kind payload = .ok stored := by
  simp only [decodeEnvelope, except_guard_eq_ok, except_bind_eq_ok, except_pure_eq_ok,
    not_lt, not_not, ne_eq] at h
  obtain ⟨hlimit, hlength, hmagic, found, hfound, rfl, hversion, hflags, hpayload, rfl⟩ := h
  have henvelope : envelopeLen = 16 := rfl
  have hdrop : (stored.drop envelopeLen).length = stored.length - envelopeLen :=
    List.length_drop
  have hfit : found.maximumStoredLen < 2 ^ 32 := by
    cases found <;> decide
  apply envelope_eq_ok.mpr
  refine ⟨by omega, UInt32.ofNat (stored.length - envelopeLen),
    usizeToU32_eq_ok.mpr ⟨by omega, by rw [hdrop]⟩, ?_⟩
  have hkind : stored.drop 8 = Writer.u8 found.toByte ++ stored.drop 9 := by
    rw [drop_eq_getD_cons (by omega), toByte_of_parse hfound]
    rfl
  have hversion' : stored.drop 9 = Writer.u8 codecVersion ++ stored.drop 10 := by
    rw [drop_eq_getD_cons (by omega), hversion]
    rfl
  have hflags' : stored.drop 10 = Writer.u16 0 ++ stored.drop 12 := by
    have htake := take_eq_toBigEndian (stored.drop 10) 2
      (by rw [List.length_drop]; omega)
    rw [hflags] at htake
    rw [← List.take_append_drop 2 (stored.drop 10), htake, List.drop_drop]
    rfl
  have hlen : stored.drop 12 =
      Writer.u32 (UInt32.ofNat (stored.length - envelopeLen)) ++ stored.drop envelopeLen := by
    have htake := take_eq_toBigEndian (stored.drop 12) 4
      (by rw [List.length_drop]; omega)
    rw [hpayload] at htake
    rw [← List.take_append_drop 4 (stored.drop 12), htake, List.drop_drop, Writer.u32,
      UInt32.toNat_ofNat_of_lt' (show stored.length - envelopeLen < 2 ^ 32 by omega)]
    rfl
  calc magic ++ Writer.u8 found.toByte ++ Writer.u8 codecVersion ++ Writer.u16 0 ++
        Writer.u32 (UInt32.ofNat (stored.length - envelopeLen)) ++ stored.drop envelopeLen
      = magic ++ stored.drop 8 := by
        rw [hkind, hversion', hflags', hlen]
        simp only [List.append_assoc]
    _ = stored := by rw [← hmagic, List.take_append_drop]

/-! Leaves. -/

theorem takes_leafEntry :
    Takes readLeafEntry fun value front => encodeLeafEntry value = .ok front := by
  apply ((takes_string "exact path" maxExactPathBytes).bind fun exactPath =>
    takes_u64.field fun sizeBytes => takes_i64.field fun unixSeconds =>
    takes_u32.field fun nanoseconds =>
    (takes_lift (Timestamp.new unixSeconds nanoseconds)).check fun modified =>
    takes_digest.field fun objectId =>
    Takes.pure (⟨exactPath, sizeBytes, modified, objectId⟩ : LeafEntry)).weaken
  rintro value front ⟨exactPath, path, _, ⟨hpath, hlimit⟩, ⟨sizeBytes, _, ⟨unixSeconds, _,
    ⟨nanoseconds, _, ⟨modified, hmodified, ⟨objectId, _, ⟨rfl, rfl⟩, rfl⟩⟩, rfl⟩, rfl⟩,
    rfl⟩, rfl⟩
  obtain ⟨hnanos, rfl⟩ := timestamp_new_eq_ok.mp hmodified
  exact encodeLeafEntry_eq_ok.mpr ⟨hlimit, hnanos, path, hpath, by simp⟩

theorem takes_leaf :
    Takes readLeaf fun value front => value.1.portablePrefix.length ≤ maxPrefixBytes ∧
      value.1.entries.length ≤ maxLeafEntries ∧
      ∃ pre, Writer.bytes value.1.portablePrefix = .ok pre ∧
      ∃ count, usizeToU32 "leaf entry count" value.1.entries.length = .ok count ∧
      ∃ entries, value.1.entries.mapM encodeLeafEntry = .ok entries ∧
        front = Writer.u16 payloadSchema ++ pre ++ Writer.u32 count ++
          Writer.summary value.2 ++ entries.flatten := by
  apply (takes_u16.field fun schema => (takes_lift (requireSchema schema)).check fun _ =>
    (takes_bytes "portable prefix" maxPrefixBytes).bind fun portablePrefix =>
    (takes_count "leaf entry count" maxLeafEntries).bind fun entryCount =>
    takes_summary.field fun storedSummary =>
    (takes_leafEntry.readMany entryCount).bind fun entries =>
    Takes.pure ((⟨portablePrefix, entries⟩ : ManifestLeaf), storedSummary)).weaken
  rintro value front ⟨schema, _, ⟨⟨⟩, hschema, ⟨portablePrefix, pre, _, ⟨hpre, hprefixLimit⟩,
    ⟨entryCount, _, _, ⟨hcount, count, hcountEq, rfl⟩, ⟨storedSummary, _, ⟨entries, _, _,
    ⟨hentriesLength, fields, hfields, rfl⟩, ⟨rfl, rfl⟩, rfl⟩, rfl⟩, rfl⟩, rfl⟩⟩, rfl⟩
  have hschema' : schema = payloadSchema := by simpa [requireSchema] using hschema
  subst hschema' hentriesLength
  refine ⟨hprefixLimit, hcount, pre, hpre, count, usizeToU32_eq_ok.mpr ⟨?_, ?_⟩, fields,
    mapM_eq_ok_iff.mpr hfields, by simp⟩
  · exact hcountEq ▸ UInt32.toNat_lt count
  · rw [← hcountEq, UInt32.ofNat_toNat]

theorem decodeLeaf_eq_ok {stored : Bytes} {leaf : ManifestLeaf} :
    decodeLeaf stored = .ok leaf ↔ encodeLeaf leaf = .ok stored := by
  refine ⟨fun h => ?_, decodeLeaf_encodeLeaf⟩
  simp only [decodeLeaf, except_bind_eq_ok, Prod.exists, except_guard_eq_ok,
    except_pure_eq_ok, not_not, ne_eq] at h
  obtain ⟨payload, hpayload, found, storedSummary, hrun, summary, hsummary, rfl, rfl⟩ := h
  obtain ⟨hlimit, hcountLimit, pre, hpre, count, hcount, entries, hentries, rfl⟩ :=
    runToEnd_takes takes_leaf hrun
  exact encodeLeaf_eq_ok.mpr ⟨hlimit, hcountLimit, _, hsummary, pre, hpre, count, hcount,
    entries, hentries, envelope_of_decodeEnvelope hpayload⟩

/-! Nodes. -/

theorem manifestKindByte_of_readManifestKind {value : UInt8} {kind : ChunkKind}
    (h : readManifestKind value = .ok kind) (id : Digest32) :
    manifestKindByte ⟨kind, id⟩ = .ok value := by
  unfold readManifestKind at h
  split at h
  · next heq => cases h; rw [heq]; rfl
  · split at h
    · next heq => cases h; rw [heq]; rfl
    · cases h

theorem takes_child :
    Takes readChild fun value front => encodeChild value = .ok front := by
  apply (takes_u8.field fun edge => takes_u8.field fun kindByte =>
    (takes_lift (readManifestKind kindByte)).check fun kind => takes_digest.field fun id =>
    takes_summary.field fun summary =>
    Takes.pure (⟨edge, ⟨kind, id⟩, summary⟩ : ManifestChild)).weaken
  rintro value front ⟨edge, _, ⟨kindByte, _, ⟨kind, hkind, ⟨id, _, ⟨summary, _, ⟨rfl, rfl⟩,
    rfl⟩, rfl⟩⟩, rfl⟩, rfl⟩
  exact encodeChild_eq_ok.mpr ⟨kindByte, manifestKindByte_of_readManifestKind hkind id,
    by simp⟩

theorem takes_node :
    Takes readNode fun value front => value.1.portablePrefix.length ≤ maxPrefixBytes ∧
      value.1.children.length ≤ maxNodeChildren ∧
      ∃ pre, Writer.bytes value.1.portablePrefix = .ok pre ∧
      ∃ count, usizeToU32 "node child count" value.1.children.length = .ok count ∧
      ∃ children, value.1.children.mapM encodeChild = .ok children ∧
        front = Writer.u16 payloadSchema ++ pre ++ Writer.u32 count ++
          Writer.summary value.2 ++ children.flatten := by
  apply (takes_u16.field fun schema => (takes_lift (requireSchema schema)).check fun _ =>
    (takes_bytes "portable prefix" maxPrefixBytes).bind fun portablePrefix =>
    (takes_count "node child count" maxNodeChildren).bind fun childCount =>
    takes_summary.field fun storedSummary =>
    (takes_child.readMany childCount).bind fun children =>
    Takes.pure ((⟨portablePrefix, children⟩ : ManifestNode), storedSummary)).weaken
  rintro value front ⟨schema, _, ⟨⟨⟩, hschema, ⟨portablePrefix, pre, _, ⟨hpre, hprefixLimit⟩,
    ⟨childCount, _, _, ⟨hcount, count, hcountEq, rfl⟩, ⟨storedSummary, _, ⟨children, _, _,
    ⟨hchildrenLength, fields, hfields, rfl⟩, ⟨rfl, rfl⟩, rfl⟩, rfl⟩, rfl⟩, rfl⟩⟩, rfl⟩
  have hschema' : schema = payloadSchema := by simpa [requireSchema] using hschema
  subst hschema' hchildrenLength
  refine ⟨hprefixLimit, hcount, pre, hpre, count, usizeToU32_eq_ok.mpr ⟨?_, ?_⟩, fields,
    mapM_eq_ok_iff.mpr hfields, by simp⟩
  · exact hcountEq ▸ UInt32.toNat_lt count
  · rw [← hcountEq, UInt32.ofNat_toNat]

theorem decodeNode_eq_ok {stored : Bytes} {node : ManifestNode} :
    decodeNode stored = .ok node ↔ encodeNode node = .ok stored := by
  refine ⟨fun h => ?_, decodeNode_encodeNode⟩
  simp only [decodeNode, except_bind_eq_ok, Prod.exists, except_guard_eq_ok,
    except_pure_eq_ok, not_not, ne_eq] at h
  obtain ⟨payload, hpayload, found, storedSummary, hrun, summary, hsummary, rfl, rfl⟩ := h
  obtain ⟨hlimit, hcountLimit, pre, hpre, count, hcount, children, hchildren, rfl⟩ :=
    runToEnd_takes takes_node hrun
  exact encodeNode_eq_ok.mpr ⟨hlimit, hcountLimit, _, hsummary, pre, hpre, count, hcount,
    children, hchildren, envelope_of_decodeEnvelope hpayload⟩

/-! Roots. -/

theorem takes_parent :
    Takes readParent fun value front => front = Writer.parent value := by
  apply (takes_u8.bind_of (fun kind value back =>
    Writer.u8 kind ++ back = Writer.parent value) fun kind => ?_).weaken
  · rintro value front ⟨kind, _, back, rfl, hback, rfl⟩
    exact hback
  · by_cases hnone : kind = 0
    · rw [if_pos hnone, hnone]
      apply (Takes.pure none).weaken
      rintro value front ⟨rfl, rfl⟩
      rfl
    · rw [if_neg hnone]
      by_cases hsome : kind = 1
      · rw [if_pos hsome, hsome]
        apply (takes_digest.bind fun id => Takes.pure (some id)).weaken
        rintro value front ⟨id, _, _, rfl, ⟨rfl, rfl⟩, rfl⟩
        simp [Writer.parent]
      · rw [if_neg hsome]
        exact (takes_fail _).weaken fun _ _ => False.elim

theorem takes_optionalManifestRef :
    Takes readOptionalManifestRef fun value front =>
      writeOptionalManifestRef value = .ok front := by
  apply (takes_u8.bind_of (fun kind value back =>
    writeOptionalManifestRef value = .ok (Writer.u8 kind ++ back)) fun kind => ?_).weaken
  · rintro value front ⟨kind, _, back, rfl, hback, rfl⟩
    exact hback
  · by_cases hnone : kind = 0
    · rw [if_pos hnone, hnone]
      apply (Takes.pure none).weaken
      rintro value front ⟨rfl, rfl⟩
      rfl
    · rw [if_neg hnone]
      apply ((takes_lift (readManifestKind kind)).bind fun found => takes_digest.bind fun id =>
        Takes.pure (some (⟨found, id⟩ : ManifestRef))).weaken
      rintro value front ⟨found, _, _, ⟨hfound, rfl⟩, ⟨id, _, _, rfl, ⟨rfl, rfl⟩, rfl⟩, rfl⟩
      simp [writeOptionalManifestRef, manifestKindByte_of_readManifestKind hfound]

theorem requirePolicy_eq_ok {label : String} {found expected : UInt16} {result : Unit} :
    requirePolicy label found expected = .ok result ↔ found = expected := by
  simp [requirePolicy]

/-- The fields of a root after its parent and its time. -/
theorem takes_rootTexts (projectId : { bytes : Bytes // bytes.length = 16 })
    (parent : Option Digest32) (created : Timestamp) :
    Takes (do
      let checkpointName ← Reader.string "checkpoint name" maxCheckpointNameBytes
      let toolVersion ← Reader.string "tool version" maxToolVersionBytes
      let scope ← Reader.u16
      requirePolicy "tracked scope" scope trackedScopePolicy
      let pathKey ← Reader.u16
      requirePolicy "path key" pathKey pathKeyPolicy
      let content ← Reader.u16
      requirePolicy "content" content contentPolicy
      let manifest ← readOptionalManifestRef
      let summary ← Reader.summary
      return ⟨projectId, parent, created, checkpointName, toolVersion, manifest, summary⟩)
      fun (root : SnapshotRoot) back =>
        (root.projectId = projectId ∧ root.parent = parent ∧ root.created = created) ∧
        ∃ name, Writer.string root.checkpointName = .ok name ∧
        ∃ version, Writer.string root.toolVersion = .ok version ∧
        ∃ manifest, writeOptionalManifestRef root.manifest = .ok manifest ∧
          back = name ++ version ++ Writer.u16 trackedScopePolicy ++
            Writer.u16 pathKeyPolicy ++ Writer.u16 contentPolicy ++ manifest ++
            Writer.summary root.summary := by
  apply ((takes_string "checkpoint name" maxCheckpointNameBytes).bind fun checkpointName =>
    (takes_string "tool version" maxToolVersionBytes).bind fun toolVersion =>
    takes_u16.field fun scope =>
    (takes_lift (requirePolicy "tracked scope" scope trackedScopePolicy)).check fun _ =>
    takes_u16.field fun pathKey =>
    (takes_lift (requirePolicy "path key" pathKey pathKeyPolicy)).check fun _ =>
    takes_u16.field fun content =>
    (takes_lift (requirePolicy "content" content contentPolicy)).check fun _ =>
    takes_optionalManifestRef.bind fun manifest => takes_summary.field fun summary =>
    Takes.pure (⟨projectId, parent, created, checkpointName, toolVersion, manifest,
      summary⟩ : SnapshotRoot)).weaken
  rintro root front ⟨checkpointName, name, _, ⟨hname, -⟩, ⟨toolVersion, version, _,
    ⟨hversion, -⟩, ⟨scope, _, ⟨_, hscope, ⟨pathKey, _, ⟨_, hpathKey, ⟨content, _,
    ⟨_, hcontent, ⟨manifest, reference, _, hmanifest, ⟨summary, _, ⟨hroot, h0⟩, h1⟩, h2⟩⟩,
    h3⟩⟩, h4⟩⟩, h5⟩, h6⟩, h7⟩
  have hscope' := requirePolicy_eq_ok.mp hscope
  have hpathKey' := requirePolicy_eq_ok.mp hpathKey
  have hcontent' := requirePolicy_eq_ok.mp hcontent
  subst_vars
  exact ⟨⟨rfl, rfl, rfl⟩, name, hname, version, hversion, reference, hmanifest, by simp⟩

theorem takes_root :
    Takes readRoot fun root front =>
      ∃ name, Writer.string root.checkpointName = .ok name ∧
      ∃ version, Writer.string root.toolVersion = .ok version ∧
      ∃ manifest, writeOptionalManifestRef root.manifest = .ok manifest ∧
        front = Writer.u16 payloadSchema ++ root.projectId.val ++
          Writer.parent root.parent ++ Writer.i64 root.created.unixSeconds ++
          Writer.u32 root.created.nanoseconds ++ name ++ version ++
          Writer.u16 trackedScopePolicy ++ Writer.u16 pathKeyPolicy ++
          Writer.u16 contentPolicy ++ manifest ++ Writer.summary root.summary := by
  apply (takes_u16.field fun schema => (takes_lift (requireSchema schema)).check fun _ =>
    (takes_array 16).field fun projectId => takes_parent.field fun parent =>
    takes_i64.field fun unixSeconds => takes_u32.field fun nanoseconds =>
    (takes_lift (Timestamp.new unixSeconds nanoseconds)).check fun created =>
    takes_rootTexts projectId parent created).weaken
  rintro root front ⟨schema, _, ⟨_, hschema, ⟨projectId, _, ⟨parent, _, ⟨unixSeconds, _,
    ⟨nanoseconds, _, ⟨created, hcreated, ⟨⟨rfl, rfl, rfl⟩, name, hname, version, hversion,
    manifest, hmanifest, rfl⟩⟩, rfl⟩, rfl⟩, rfl⟩, rfl⟩⟩, rfl⟩
  have hschema' : schema = payloadSchema := by simpa [requireSchema] using hschema
  obtain ⟨-, hcreated'⟩ := timestamp_new_eq_ok.mp hcreated
  refine ⟨name, hname, version, hversion, manifest, hmanifest, ?_⟩
  rw [hschema', ← hcreated']
  simp

theorem decodeRoot_eq_ok {stored : Bytes} {root : SnapshotRoot} :
    decodeRoot stored = .ok root ↔ encodeRoot root = .ok stored := by
  refine ⟨fun h => ?_, decodeRoot_encodeRoot⟩
  simp only [decodeRoot, except_bind_eq_ok, except_guard_eq_ok, except_pure_eq_ok] at h
  obtain ⟨payload, hpayload, found, hrun, -, ⟨⟩, hvalid, rfl⟩ := h
  obtain ⟨name, hname, version, hversion, manifest, hmanifest, rfl⟩ :=
    runToEnd_takes takes_root hrun
  exact encodeRoot_eq_ok.mpr ⟨hvalid, name, hname, version, hversion, manifest, hmanifest,
    envelope_of_decodeEnvelope hpayload⟩

/-- Each of the three formats accepts exactly what its encoder writes, and its
decoder and encoder undo each other. -/
theorem codec_canonical :
    (∀ stored root, decodeRoot stored = .ok root ↔ encodeRoot root = .ok stored) ∧
      (∀ stored node, decodeNode stored = .ok node ↔ encodeNode node = .ok stored) ∧
      ∀ stored leaf, decodeLeaf stored = .ok leaf ↔ encodeLeaf leaf = .ok stored :=
  ⟨fun _ _ => decodeRoot_eq_ok, fun _ _ => decodeNode_eq_ok, fun _ _ => decodeLeaf_eq_ok⟩

end CheckPo
