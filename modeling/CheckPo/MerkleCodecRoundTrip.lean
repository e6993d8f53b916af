/-
What the codec writes, its decoders read back: each primitive field first, then
the envelope, then leaves, nodes and roots.
-/
import CheckPo.MerkleCodec
import CheckPo.ExceptRules

namespace CheckPo

theorem fromUtf8_utf8 (text : String) : fromUtf8 (utf8 text) = some text := by
  simp [fromUtf8, utf8, String.fromUTF8?, String.fromUTF8, text.isValidUTF8]

theorem utf8_injective {left right : String} (h : utf8 left = utf8 right) :
    left = right := by
  have hsome : some left = some right := by
    rw [← fromUtf8_utf8 left, ← fromUtf8_utf8 right, h]
  exact Option.some.inj hsome

theorem utf8_ofList (text : List Char) :
    utf8 (String.ofList text) = text.flatMap String.utf8EncodeChar := by
  simp [utf8, List.utf8Encode]

theorem reads_lift {α : Type} {result : CodecResult α} {v : α}
    (h : result = .ok v) : Reads (liftM result : Reader α) [] v := by
  subst h
  exact fun _ => rfl

theorem reads_take (bytes : Bytes) : Reads (Reader.take bytes.length) bytes bytes := by
  intro rest
  simp [Reader.take, StateT.run]

theorem reads_array {count : Nat} (value : { bytes : Bytes // bytes.length = count }) :
    Reads (Reader.array count) value.val value := by
  obtain ⟨bytes, rfl⟩ := value
  intro rest
  simp [Reader.array, StateT.run]

/-- A fixed-width unsigned field written big-endian is read back. -/
theorem reads_bigEndian {α : Type} (width : Nat) (ofNat : Nat → α)
    {number : Nat} {value : α} (hnumber : number < 256 ^ width)
    (hvalue : ofNat number = value) :
    Reads (do return ofNat (ofBigEndian (← Reader.take width)) : Reader α)
      (toBigEndian width number) value := by
  have htake := reads_take (toBigEndian width number)
  rw [length_toBigEndian] at htake
  have hread := Reads.bind_pure (f := fun bytes => ofNat (ofBigEndian bytes)) htake
  rwa [ofBigEndian_toBigEndian_of_lt hnumber, hvalue] at hread

theorem reads_u8 (value : UInt8) : Reads Reader.u8 (Writer.u8 value) value := by
  have hbytes : Writer.u8 value = toBigEndian 1 value.toNat := by
    simp [Writer.u8, toBigEndian, Nat.mod_eq_of_lt (UInt8.toNat_lt value)]
  rw [hbytes]
  exact reads_bigEndian 1 UInt8.ofNat (UInt8.toNat_lt value) UInt8.ofNat_toNat

theorem reads_u16 (value : UInt16) : Reads Reader.u16 (Writer.u16 value) value :=
  reads_bigEndian 2 UInt16.ofNat (UInt16.toNat_lt value) UInt16.ofNat_toNat

theorem reads_u32 (value : UInt32) : Reads Reader.u32 (Writer.u32 value) value :=
  reads_bigEndian 4 UInt32.ofNat (UInt32.toNat_lt value) UInt32.ofNat_toNat

theorem reads_u64 (value : UInt64) : Reads Reader.u64 (Writer.u64 value) value :=
  reads_bigEndian 8 UInt64.ofNat (UInt64.toNat_lt value) UInt64.ofNat_toNat

theorem reads_i64 (value : Int64) : Reads Reader.i64 (Writer.i64 value) value := by
  apply reads_bigEndian 8 (fun number => (UInt64.ofNat number).toInt64)
    (UInt64.toNat_lt value.toUInt64)
  rw [UInt64.ofNat_toNat]
  exact Int64.toInt64_toUInt64 value

theorem reads_digest (value : Digest32) :
    Reads Reader.digest (Writer.digest value) value :=
  Reads.bind_pure (reads_array ⟨value.bytes, value.length_eq⟩)

theorem reads_summary (value : ManifestSummary) :
    Reads Reader.summary (Writer.summary value) value := by
  rw [Writer.summary, List.append_assoc]
  exact (reads_u64 _).bind ((reads_u64 _).bind (Reads.bind_pure (reads_u64 _)))

theorem usizeToU32_eq_ok {field : String} {value : Nat} {result : UInt32} :
    usizeToU32 field value = .ok result ↔
      value < 2 ^ 32 ∧ UInt32.ofNat value = result := by
  simp [usizeToU32]

theorem usizeToU32_toNat {field : String} {value : Nat} {result : UInt32}
    (h : usizeToU32 field value = .ok result) : result.toNat = value := by
  obtain ⟨hlt, rfl⟩ := usizeToU32_eq_ok.mp h
  exact UInt32.toNat_ofNat_of_lt' hlt

theorem reads_bytes {field : String} {limit : Nat} {value written : Bytes}
    (hwritten : Writer.bytes value = .ok written) (hlimit : value.length ≤ limit) :
    Reads (Reader.bytes field limit) written value := by
  simp only [Writer.bytes, except_bind_eq_ok, except_pure_eq_ok] at hwritten
  obtain ⟨length, hlength, rfl⟩ := hwritten
  apply (reads_u32 length).bind
  rw [usizeToU32_toNat hlength, if_neg (Nat.not_lt.mpr hlimit)]
  exact reads_take value

theorem reads_string {field : String} {limit : Nat} {value : String}
    {written : Bytes} (hwritten : Writer.string value = .ok written)
    (hlimit : (utf8 value).length ≤ limit) :
    Reads (Reader.string field limit) written value := by
  have hbytes : Reads (Reader.bytes field limit) written (utf8 value) :=
    reads_bytes hwritten hlimit
  rw [← List.append_nil written]
  apply hbytes.bind
  rw [fromUtf8_utf8]
  exact Reads.pure value

theorem reads_count {field : String} {limit value : Nat} {written : UInt32}
    (hwritten : usizeToU32 field value = .ok written) (hlimit : value ≤ limit) :
    Reads (Reader.count field limit) (Writer.u32 written) value := by
  rw [← List.append_nil (Writer.u32 written)]
  apply (reads_u32 written).bind
  rw [usizeToU32_toNat hwritten, if_neg (Nat.not_lt.mpr hlimit)]
  exact Reads.pure value

theorem validateBytes_eq_ok {field : String} {value : Bytes} {limit : Nat}
    {result : Unit} :
    validateBytes field value limit = .ok result ↔ value.length ≤ limit := by
  simp [validateBytes]

theorem validateCount_eq_ok {field : String} {value limit : Nat} {result : Unit} :
    validateCount field value limit = .ok result ↔ value ≤ limit := by
  simp [validateCount]

theorem timestamp_new_eq_ok {seconds : Int64} {nanoseconds : UInt32}
    {result : Timestamp} :
    Timestamp.new seconds nanoseconds = .ok result ↔
      nanoseconds < 1000000000 ∧ ⟨seconds, nanoseconds⟩ = result := by
  simp [Timestamp.new]

/-! The envelope. -/

@[simp] theorem length_writer_u8 (value : UInt8) : (Writer.u8 value).length = 1 := rfl
@[simp] theorem length_writer_u16 (value : UInt16) :
    (Writer.u16 value).length = 2 := length_toBigEndian 2 _
@[simp] theorem length_writer_u32 (value : UInt32) :
    (Writer.u32 value).length = 4 := length_toBigEndian 4 _
@[simp] theorem length_writer_u64 (value : UInt64) :
    (Writer.u64 value).length = 8 := length_toBigEndian 8 _
@[simp] theorem length_writer_i64 (value : Int64) :
    (Writer.i64 value).length = 8 := length_toBigEndian 8 _
@[simp] theorem length_writer_digest (value : Digest32) :
    (Writer.digest value).length = 32 := value.length_eq
@[simp] theorem length_writer_summary (value : ManifestSummary) :
    (Writer.summary value).length = 24 := by simp [Writer.summary]

theorem envelope_eq_ok {kind : ChunkKind} {payload stored : Bytes} :
    envelope kind payload = .ok stored ↔
      envelopeLen + payload.length ≤ kind.maximumStoredLen ∧
        ∃ payloadLen, usizeToU32 "payload length" payload.length = .ok payloadLen ∧
          magic ++ Writer.u8 kind.toByte ++ Writer.u8 codecVersion ++
            Writer.u16 0 ++ Writer.u32 payloadLen ++ payload = stored := by
  simp [envelope]

theorem length_envelope {kind : ChunkKind} {payload stored : Bytes}
    (h : envelope kind payload = .ok stored) :
    stored.length = envelopeLen + payload.length := by
  obtain ⟨-, payloadLen, -, rfl⟩ := envelope_eq_ok.mp h
  simp [magic, envelopeLen]
  omega

theorem parse_toByte (kind : ChunkKind) : ChunkKind.parse kind.toByte = .ok kind := by
  cases kind <;> rfl

theorem decodeEnvelope_envelope {kind : ChunkKind} {payload stored : Bytes}
    (h : envelope kind payload = .ok stored) :
    decodeEnvelope stored kind = .ok payload := by
  have hlength := length_envelope h
  obtain ⟨hlimit, payloadLen, hpayloadLen, hstored⟩ := envelope_eq_ok.mp h
  have htake : stored.take 8 = magic := by
    rw [← hstored]
    rfl
  have hkind : stored.getD 8 0 = kind.toByte := by
    rw [← hstored]
    rfl
  have hversion : stored.getD 9 0 = codecVersion := by
    rw [← hstored]
    rfl
  have hflags : ofBigEndian ((stored.drop 10).take 2) = 0 := by
    rw [← hstored]
    rfl
  have hlen : ofBigEndian ((stored.drop 12).take 4) = payload.length := by
    rw [← usizeToU32_toNat hpayloadLen,
      ← ofBigEndian_toBigEndian_of_lt (n := 4) (UInt32.toNat_lt payloadLen),
      ← hstored]
    congr 1
  have hdrop : stored.drop envelopeLen = payload := by
    rw [← hstored]
    exact List.drop_left' (by simp [magic, envelopeLen])
  have henvelope : envelopeLen ≤ stored.length := by omega
  simp only [decodeEnvelope, htake, hkind, hversion, hflags, hlen, hdrop,
    parse_toByte, except_bind_ok, ne_eq, not_true_eq_false, if_false,
    if_neg (show ¬ kind.maximumStoredLen < stored.length by omega),
    if_neg (show ¬ stored.length < envelopeLen by omega),
    if_neg (show ¬ ¬ payload.length = stored.length - envelopeLen by omega)]
  rfl

theorem runToEnd_eq_ok {α : Type} {reader : Reader α} {payload : Bytes} {value : α}
    (h : Reads reader payload value) : reader.runToEnd payload = .ok value := by
  rw [Reader.runToEnd, h.run_eq]
  rfl

/-! Leaves. -/

/-- What a leaf entry must satisfy to be written. -/
theorem encodeLeafEntry_eq_ok {entry : LeafEntry} {written : Bytes} :
    encodeLeafEntry entry = .ok written ↔
      (utf8 entry.exactPath).length ≤ maxExactPathBytes ∧
        entry.modified.nanoseconds < 1000000000 ∧
        ∃ path, Writer.string entry.exactPath = .ok path ∧
          path ++ Writer.u64 entry.sizeBytes ++
            Writer.i64 entry.modified.unixSeconds ++
            Writer.u32 entry.modified.nanoseconds ++
            Writer.digest entry.objectId = written := by
  simp [encodeLeafEntry, validateText, validateBytes_eq_ok, timestamp_new_eq_ok]

theorem length_writer_bytes {value written : Bytes}
    (h : Writer.bytes value = .ok written) : written.length = 4 + value.length := by
  simp only [Writer.bytes, except_bind_eq_ok, except_pure_eq_ok] at h
  obtain ⟨length, -, rfl⟩ := h
  simp

theorem length_encodeLeafEntry {entry : LeafEntry} {written : Bytes}
    (h : encodeLeafEntry entry = .ok written) :
    written.length = 56 + (utf8 entry.exactPath).length := by
  obtain ⟨-, -, path, hpath, rfl⟩ := encodeLeafEntry_eq_ok.mp h
  simp only [List.length_append, length_writer_bytes hpath, length_writer_u64,
    length_writer_i64, length_writer_u32, length_writer_digest]
  omega

theorem reads_leafEntry {entry : LeafEntry} {written : Bytes}
    (h : encodeLeafEntry entry = .ok written) :
    Reads readLeafEntry written entry := by
  obtain ⟨hlimit, hnanos, path, hpath, rfl⟩ := encodeLeafEntry_eq_ok.mp h
  have hmodified : Timestamp.new entry.modified.unixSeconds
      entry.modified.nanoseconds = .ok entry.modified :=
    timestamp_new_eq_ok.mpr ⟨hnanos, rfl⟩
  simp only [List.append_assoc]
  exact (reads_string hpath hlimit).bind <| (reads_u64 _).bind <|
    (reads_i64 _).bind <| (reads_u32 _).bind <|
    (reads_lift hmodified).bind <| Reads.bind_pure (reads_digest _)

theorem encodeLeaf_eq_ok {leaf : ManifestLeaf} {stored : Bytes} :
    encodeLeaf leaf = .ok stored ↔
      leaf.portablePrefix.length ≤ maxPrefixBytes ∧
        leaf.entries.length ≤ maxLeafEntries ∧
        ∃ summary, leaf.summary = .ok summary ∧
        ∃ pre, Writer.bytes leaf.portablePrefix = .ok pre ∧
        ∃ count, usizeToU32 "leaf entry count" leaf.entries.length = .ok count ∧
        ∃ entries, leaf.entries.mapM encodeLeafEntry = .ok entries ∧
          envelope .leaf (Writer.u16 payloadSchema ++ pre ++ Writer.u32 count ++
            Writer.summary summary ++ entries.flatten) = .ok stored := by
  simp [encodeLeaf, validateBytes_eq_ok, validateCount_eq_ok]

/-- Writing a list of fields one after the other is read back by repeating the
field's reader. -/
theorem reads_readMany_of_mapM {α : Type} {encode : α → CodecResult Bytes}
    {reader : Reader α} (hread : ∀ value written,
      encode value = .ok written → Reads reader written value)
    {values : List α} {written : List Bytes}
    (h : values.mapM encode = .ok written) :
    Reads (readMany reader values.length) written.flatten values := by
  rw [mapM_eq_ok_iff] at h
  induction h with
  | nil => exact Reads.pure []
  | cons hhead _ ih => exact (hread _ _ hhead).bind (Reads.bind_pure ih)

theorem decodeLeaf_encodeLeaf {leaf : ManifestLeaf} {stored : Bytes}
    (h : encodeLeaf leaf = .ok stored) : decodeLeaf stored = .ok leaf := by
  obtain ⟨hcommon, hcount, summary, hsummary, pre, hpre, count, hcountOk, entries,
    hentries, henvelope⟩ := encodeLeaf_eq_ok.mp h
  have hread : Reads readLeaf (Writer.u16 payloadSchema ++ pre ++
      Writer.u32 count ++ Writer.summary summary ++ entries.flatten)
      (leaf, summary) := by
    simp only [List.append_assoc]
    exact (reads_u16 payloadSchema).bind <|
      (reads_lift (v := ()) rfl).bind <|
      (reads_bytes hpre hcommon).bind <| (reads_count hcountOk hcount).bind <|
      (reads_summary summary).bind <|
      Reads.bind_pure (reads_readMany_of_mapM (fun _ _ => reads_leafEntry) hentries)
  simp only [decodeLeaf, decodeEnvelope_envelope henvelope, runToEnd_eq_ok hread,
    hsummary, except_bind_ok, ne_eq, not_true_eq_false, if_false]
  rfl

/-! Nodes. -/

theorem encodeNode_eq_ok {node : ManifestNode} {stored : Bytes} :
    encodeNode node = .ok stored ↔
      node.portablePrefix.length ≤ maxPrefixBytes ∧
        node.children.length ≤ maxNodeChildren ∧
        ∃ summary, node.summary = .ok summary ∧
        ∃ pre, Writer.bytes node.portablePrefix = .ok pre ∧
        ∃ count, usizeToU32 "node child count" node.children.length = .ok count ∧
        ∃ children, node.children.mapM encodeChild = .ok children ∧
          envelope .node (Writer.u16 payloadSchema ++ pre ++ Writer.u32 count ++
            Writer.summary summary ++ children.flatten) = .ok stored := by
  simp [encodeNode, validateBytes_eq_ok, validateCount_eq_ok]

theorem encodeChild_eq_ok {child : ManifestChild} {written : Bytes} :
    encodeChild child = .ok written ↔
      ∃ kind, manifestKindByte child.child = .ok kind ∧
        Writer.u8 child.edge ++ Writer.u8 kind ++ Writer.digest child.child.id ++
          Writer.summary child.summary = written := by
  simp [encodeChild]

theorem readManifestKind_manifestKindByte {reference : ManifestRef} {kind : UInt8}
    (h : manifestKindByte reference = .ok kind) :
    readManifestKind kind = .ok reference.kind := by
  obtain ⟨kind', id⟩ := reference
  cases kind' <;> simp [manifestKindByte] at h <;> subst h <;> rfl

theorem reads_child {child : ManifestChild} {written : Bytes}
    (h : encodeChild child = .ok written) : Reads readChild written child := by
  obtain ⟨kind, hkind, rfl⟩ := encodeChild_eq_ok.mp h
  simp only [List.append_assoc]
  exact (reads_u8 _).bind <| (reads_u8 kind).bind <|
    (reads_lift (readManifestKind_manifestKindByte hkind)).bind <|
    (reads_digest _).bind <| Reads.bind_pure (reads_summary _)

theorem length_encodeChild {child : ManifestChild} {written : Bytes}
    (h : encodeChild child = .ok written) : written.length = 58 := by
  obtain ⟨kind, -, rfl⟩ := encodeChild_eq_ok.mp h
  simp

theorem decodeNode_encodeNode {node : ManifestNode} {stored : Bytes}
    (h : encodeNode node = .ok stored) : decodeNode stored = .ok node := by
  obtain ⟨hcommon, hcount, summary, hsummary, pre, hpre, count, hcountOk, children,
    hchildren, henvelope⟩ := encodeNode_eq_ok.mp h
  have hread : Reads readNode (Writer.u16 payloadSchema ++ pre ++
      Writer.u32 count ++ Writer.summary summary ++ children.flatten)
      (node, summary) := by
    simp only [List.append_assoc]
    exact (reads_u16 payloadSchema).bind <|
      (reads_lift (v := ()) rfl).bind <|
      (reads_bytes hpre hcommon).bind <| (reads_count hcountOk hcount).bind <|
      (reads_summary summary).bind <|
      Reads.bind_pure (reads_readMany_of_mapM (fun _ _ => reads_child) hchildren)
  simp only [decodeNode, decodeEnvelope_envelope henvelope, runToEnd_eq_ok hread,
    hsummary, except_bind_ok, ne_eq, not_true_eq_false, if_false]
  rfl

/-! Roots. -/

theorem encodeRoot_eq_ok {root : SnapshotRoot} {stored : Bytes} :
    encodeRoot root = .ok stored ↔
      validateRoot root = .ok () ∧
        ∃ name, Writer.string root.checkpointName = .ok name ∧
        ∃ version, Writer.string root.toolVersion = .ok version ∧
        ∃ manifest, writeOptionalManifestRef root.manifest = .ok manifest ∧
          envelope .root (Writer.u16 payloadSchema ++ root.projectId.val ++
            Writer.parent root.parent ++ Writer.i64 root.created.unixSeconds ++
            Writer.u32 root.created.nanoseconds ++ name ++ version ++
            Writer.u16 trackedScopePolicy ++ Writer.u16 pathKeyPolicy ++
            Writer.u16 contentPolicy ++ manifest ++
            Writer.summary root.summary) = .ok stored := by
  simp only [encodeRoot, except_bind_eq_ok]
  constructor
  · rintro ⟨⟨⟩, hvalid, hrest⟩
    exact ⟨hvalid, hrest⟩
  · rintro ⟨hvalid, hrest⟩
    exact ⟨(), hvalid, hrest⟩

theorem validateRoot_eq_ok {root : SnapshotRoot} {result : Unit} :
    validateRoot root = .ok result ↔
      (utf8 root.checkpointName).length ≤ maxCheckpointNameBytes ∧
        ¬ (trim root.checkpointName = "" ∨
          trim root.checkpointName ≠ root.checkpointName) ∧
        (utf8 root.toolVersion).length ≤ maxToolVersionBytes ∧
        root.created.nanoseconds < 1000000000 ∧
        ¬ (root.manifest = none ∧ root.summary ≠ .zero) := by
  simp [validateRoot, validateText, validateBytes_eq_ok, timestamp_new_eq_ok]

theorem reads_parent (parent : Option Digest32) :
    Reads readParent (Writer.parent parent) parent := by
  cases parent with
  | none => exact (reads_u8 0).bind (Reads.pure none)
  | some id => exact (reads_u8 1).bind (Reads.bind_pure (reads_digest id))

theorem reads_optionalManifestRef {reference : Option ManifestRef} {written : Bytes}
    (h : writeOptionalManifestRef reference = .ok written) :
    Reads readOptionalManifestRef written reference := by
  cases reference with
  | none =>
      simp only [writeOptionalManifestRef, except_pure_eq_ok] at h
      subst h
      exact (reads_u8 0).bind (Reads.pure none)
  | some reference =>
      simp only [writeOptionalManifestRef, except_bind_eq_ok, except_pure_eq_ok] at h
      obtain ⟨kind, hkind, rfl⟩ := h
      have hzero : kind ≠ 0 := by
        obtain ⟨kind', id⟩ := reference
        cases kind' <;> simp [manifestKindByte] at hkind <;> subst hkind <;> decide
      apply (reads_u8 kind).bind
      rw [if_neg hzero]
      exact (reads_lift (readManifestKind_manifestKindByte hkind)).bind
        (Reads.bind_pure (reads_digest reference.id))

theorem decodeRoot_encodeRoot {root : SnapshotRoot} {stored : Bytes}
    (h : encodeRoot root = .ok stored) : decodeRoot stored = .ok root := by
  obtain ⟨hvalid, name, hname, version, hversion, manifest, hmanifest, henvelope⟩ :=
    encodeRoot_eq_ok.mp h
  obtain ⟨hnameLimit, -, hversionLimit, hnanos, hempty⟩ :=
    validateRoot_eq_ok.mp hvalid
  have hcreated : Timestamp.new root.created.unixSeconds root.created.nanoseconds =
      .ok root.created := timestamp_new_eq_ok.mpr ⟨hnanos, rfl⟩
  have hread : Reads readRoot (Writer.u16 payloadSchema ++ root.projectId.val ++
      Writer.parent root.parent ++ Writer.i64 root.created.unixSeconds ++
      Writer.u32 root.created.nanoseconds ++ name ++ version ++
      Writer.u16 trackedScopePolicy ++ Writer.u16 pathKeyPolicy ++
      Writer.u16 contentPolicy ++ manifest ++ Writer.summary root.summary) root := by
    simp only [List.append_assoc]
    exact (reads_u16 payloadSchema).bind <|
      (reads_lift (v := ()) rfl).bind <|
      (reads_array root.projectId).bind <| (reads_parent root.parent).bind <|
      (reads_i64 _).bind <| (reads_u32 _).bind <| (reads_lift hcreated).bind <|
      (reads_string hname hnameLimit).bind <|
      (reads_string hversion hversionLimit).bind <|
      (reads_u16 trackedScopePolicy).bind <| (reads_lift (v := ()) rfl).bind <|
      (reads_u16 pathKeyPolicy).bind <| (reads_lift (v := ()) rfl).bind <|
      (reads_u16 contentPolicy).bind <| (reads_lift (v := ()) rfl).bind <|
      (reads_optionalManifestRef hmanifest).bind <|
      Reads.bind_pure (reads_summary root.summary)
  simp only [decodeRoot, decodeEnvelope_envelope henvelope, runToEnd_eq_ok hread,
    except_bind_ok, if_neg hempty, hvalid]
  rfl

end CheckPo
