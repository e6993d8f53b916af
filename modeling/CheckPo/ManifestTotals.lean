/-
The totals of a range of entries.  The writer takes them as differences of
running totals, the readers add up entries or children; all of them give the
sums over the range, as long as those fit in 64 bits.
-/
import CheckPo.ManifestOrder
import CheckPo.ManifestRead
import CheckPo.MerkleCodecRoundTrip

namespace CheckPo

def totalSize (entries : List KeyedEntry) : Nat :=
  (entries.map fun keyed => keyed.entry.sizeBytes.toNat).sum

def totalPathBytes (entries : List KeyedEntry) : Nat :=
  (entries.map fun keyed => (utf8 keyed.entry.exactPath).length).sum

@[simp] theorem totalSize_nil : totalSize [] = 0 := rfl
@[simp] theorem totalPathBytes_nil : totalPathBytes [] = 0 := rfl

@[simp] theorem totalSize_cons (head : KeyedEntry) (tail : List KeyedEntry) :
    totalSize (head :: tail) = head.entry.sizeBytes.toNat + totalSize tail := by
  simp [totalSize]

@[simp] theorem totalPathBytes_cons (head : KeyedEntry) (tail : List KeyedEntry) :
    totalPathBytes (head :: tail) =
      (utf8 head.entry.exactPath).length + totalPathBytes tail := by
  simp [totalPathBytes]

@[simp] theorem totalSize_append (left right : List KeyedEntry) :
    totalSize (left ++ right) = totalSize left + totalSize right := by
  simp [totalSize]

@[simp] theorem totalPathBytes_append (left right : List KeyedEntry) :
    totalPathBytes (left ++ right) = totalPathBytes left + totalPathBytes right := by
  simp [totalPathBytes]

/-- The three totals fit in 64 bits. -/
def TotalsFit (entries : List KeyedEntry) : Prop :=
  entries.length < 2 ^ 64 ∧ totalSize entries < 2 ^ 64 ∧
    totalPathBytes entries < 2 ^ 64

/-- The summary of a range whose totals fit. -/
def totals (entries : List KeyedEntry) : ManifestSummary :=
  ⟨UInt64.ofNat entries.length, UInt64.ofNat (totalSize entries),
    UInt64.ofNat (totalPathBytes entries)⟩

theorem totals_nil : totals [] = .zero := rfl

theorem TotalsFit.nil : TotalsFit [] := by
  simp [TotalsFit]

theorem TotalsFit.left {left right : List KeyedEntry}
    (h : TotalsFit (left ++ right)) : TotalsFit left := by
  simp only [TotalsFit, List.length_append, totalSize_append,
    totalPathBytes_append] at h ⊢
  omega

theorem TotalsFit.right {left right : List KeyedEntry}
    (h : TotalsFit (left ++ right)) : TotalsFit right := by
  simp only [TotalsFit, List.length_append, totalSize_append,
    totalPathBytes_append] at h ⊢
  omega

theorem totals_toNat {entries : List KeyedEntry} (h : TotalsFit entries) :
    (totals entries).entryCount.toNat = entries.length ∧
      (totals entries).logicalSizeBytes.toNat = totalSize entries ∧
      (totals entries).totalExactPathBytes.toNat = totalPathBytes entries :=
  ⟨UInt64.toNat_ofNat_of_lt' h.1, UInt64.toNat_ofNat_of_lt' h.2.1,
    UInt64.toNat_ofNat_of_lt' h.2.2⟩

theorem orError_eq_ok {ε α : Type} {value : Option α} {error : ε} {result : α} :
    orError value error = .ok result ↔ value = some result := by
  cases value <;> simp [orError]

theorem checkedAdd_ofNat {left right : Nat} (hleft : left < 2 ^ 64)
    (hright : right < 2 ^ 64) {result : UInt64} :
    checkedAdd (UInt64.ofNat left) (UInt64.ofNat right) = some result ↔
      left + right < 2 ^ 64 ∧ UInt64.ofNat (left + right) = result := by
  have hl : (UInt64.ofNat left).toNat = left := UInt64.toNat_ofNat_of_lt' hleft
  have hr : (UInt64.ofNat right).toNat = right := UInt64.toNat_ofNat_of_lt' hright
  simp only [checkedAdd, hl, hr, Option.ite_none_right_eq_some, Option.some.injEq,
    UInt64.ofNat_add]

theorem checkedSub_ofNat {left right : Nat} (hsum : left + right < 2 ^ 64) :
    checkedSub (UInt64.ofNat (left + right)) (UInt64.ofNat left) =
      some (UInt64.ofNat right) := by
  have hl : (UInt64.ofNat left).toNat = left := UInt64.toNat_ofNat_of_lt' (by
    show left < 2 ^ 64; omega)
  have hs : (UInt64.ofNat (left + right)).toNat = left + right :=
    UInt64.toNat_ofNat_of_lt' hsum
  have hle : UInt64.ofNat left ≤ UInt64.ofNat (left + right) := by
    rw [UInt64.le_iff_toNat_le, hl, hs]
    omega
  rw [checkedSub, if_pos hle, UInt64.ofNat_add]
  congr 1
  rw [UInt64.add_comm]
  exact UInt64.add_sub_cancel _ _

/-- Adding the totals of two ranges gives the totals of both together. -/
theorem checkedAdd_totals {left right : List KeyedEntry} (hleft : TotalsFit left)
    (hright : TotalsFit right) {result : ManifestSummary} :
    (totals left).checkedAdd (totals right) = .ok result ↔
      TotalsFit (left ++ right) ∧ totals (left ++ right) = result := by
  simp only [ManifestSummary.checkedAdd, totals, except_bind_eq_ok,
    except_pure_eq_ok, orError_eq_ok, checkedAdd_ofNat hleft.1 hright.1,
    checkedAdd_ofNat hleft.2.1 hright.2.1, checkedAdd_ofNat hleft.2.2 hright.2.2,
    TotalsFit, List.length_append, totalSize_append, totalPathBytes_append]
  constructor
  · rintro ⟨count, ⟨hcount, rfl⟩, size, ⟨hsize, rfl⟩, path, ⟨hpath, rfl⟩, rfl⟩
    exact ⟨⟨hcount, hsize, hpath⟩, rfl⟩
  · rintro ⟨⟨hcount, hsize, hpath⟩, rfl⟩
    exact ⟨_, ⟨hcount, rfl⟩, _, ⟨hsize, rfl⟩, _, ⟨hpath, rfl⟩, rfl⟩

theorem totalsFit_singleton {keyed : KeyedEntry} :
    TotalsFit [keyed] ↔ (utf8 keyed.entry.exactPath).length < 2 ^ 64 := by
  have hsize := UInt64.toNat_lt keyed.entry.sizeBytes
  simp only [TotalsFit, List.length_singleton, totalSize_cons, totalSize_nil,
    totalPathBytes_cons, totalPathBytes_nil]
  omega

/-- The summary of one entry, in the writer's and in the codec's form. -/
theorem entrySummary_eq_ok {keyed : KeyedEntry} {result : ManifestSummary} :
    entrySummary keyed.entry = .ok result ↔
      TotalsFit [keyed] ∧ totals [keyed] = result := by
  rw [totalsFit_singleton]
  simp [entrySummary, totals]

theorem leafEntrySummary_eq_ok {keyed : KeyedEntry} {result : ManifestSummary} :
    keyed.entry.summary = .ok result ↔
      TotalsFit [keyed] ∧ totals [keyed] = result := by
  rw [totalsFit_singleton]
  simp [LeafEntry.summary, usizeToU64, totals]

theorem append_singleton_append (front back : List KeyedEntry) (keyed : KeyedEntry) :
    front ++ [keyed] ++ back = front ++ keyed :: back := by
  simp

/-- A leaf's own summary. -/
theorem leafSummary_eq_ok {portablePrefix : Bytes} {entries : List KeyedEntry}
    {result : ManifestSummary} :
    ManifestLeaf.summary ⟨portablePrefix, entries.map KeyedEntry.entry⟩ =
        .ok result ↔
      TotalsFit entries ∧ totals entries = result := by
  suffices h : ∀ front : List KeyedEntry, TotalsFit front →
      ((entries.map KeyedEntry.entry).foldlM
        (fun summary entry => do summary.checkedAdd (← entry.summary))
        (totals front) = .ok result ↔
      TotalsFit (front ++ entries) ∧ totals (front ++ entries) = result) from
    h [] .nil
  induction entries with
  | nil => intro front hfront; simp [hfront]
  | cons head tail ih =>
      intro front hfront
      rw [← append_singleton_append]
      simp only [List.map_cons, List.foldlM_cons, except_bind_eq_ok,
        leafEntrySummary_eq_ok]
      constructor
      · rintro ⟨_, ⟨_, ⟨hhead, rfl⟩, hadd⟩, hrest⟩
        obtain ⟨hboth, rfl⟩ := (checkedAdd_totals hfront hhead).mp hadd
        exact (ih _ hboth).mp hrest
      · rintro ⟨hall, hresult⟩
        have hboth : TotalsFit (front ++ [head]) := hall.left
        exact ⟨_, ⟨_, ⟨hboth.right, rfl⟩,
          (checkedAdd_totals hfront hboth.right).mpr ⟨hboth, rfl⟩⟩,
          (ih _ hboth).mpr ⟨hall, hresult⟩⟩

/-- The sum of children's summaries, each the totals of its range. -/
theorem childSummaries_eq_ok {children : List ManifestChild}
    {ranges : List (List KeyedEntry)} {result : ManifestSummary}
    (h : List.Forall₂ (fun child range =>
      TotalsFit range ∧ child.summary = totals range) children ranges)
    {portablePrefix : Bytes} :
    ManifestNode.summary ⟨portablePrefix, children⟩ = .ok result ↔
      TotalsFit ranges.flatten ∧ totals ranges.flatten = result := by
  suffices hsum : ∀ front : List KeyedEntry, TotalsFit front →
      (children.foldlM (fun summary child => summary.checkedAdd child.summary)
        (totals front) = .ok result ↔
      TotalsFit (front ++ ranges.flatten) ∧
        totals (front ++ ranges.flatten) = result) from hsum [] .nil
  induction h with
  | nil => intro front hfront; simp [hfront]
  | @cons child range children ranges hhead _ ih =>
      intro front hfront
      rw [List.flatten_cons, ← List.append_assoc]
      simp only [List.foldlM_cons, except_bind_eq_ok, hhead.2,
        checkedAdd_totals hfront hhead.1]
      constructor
      · rintro ⟨_, ⟨hboth, rfl⟩, hrest⟩
        exact (ih _ hboth).mp hrest
      · rintro ⟨hall, hresult⟩
        exact ⟨_, ⟨hall.left, rfl⟩, (ih _ hall.left).mpr ⟨hall, hresult⟩⟩

/-- The running totals of a list whose totals fit. -/
theorem summaryPrefixes_eq_ok {front entries : List KeyedEntry}
    (hfront : TotalsFit front) {prefixes : List ManifestSummary} :
    summaryPrefixes (totals front) entries = .ok prefixes ↔
      TotalsFit (front ++ entries) ∧
        entries.inits.map (fun taken => totals (front ++ taken)) = prefixes := by
  induction entries generalizing front prefixes with
  | nil => simp [summaryPrefixes, hfront]
  | cons head tail ih =>
      rw [← append_singleton_append]
      simp only [summaryPrefixes, except_bind_eq_ok, except_pure_eq_ok,
        entrySummary_eq_ok, liftM_codec_eq_ok]
      constructor
      · rintro ⟨_, ⟨hhead, rfl⟩, _, hadd, rest, hrest, rfl⟩
        obtain ⟨hboth, rfl⟩ := (checkedAdd_totals hfront hhead).mp hadd
        obtain ⟨hall, rfl⟩ := (ih hboth).mp hrest
        exact ⟨hall, by simp [Function.comp_def]⟩
      · rintro ⟨hall, rfl⟩
        have hboth : TotalsFit (front ++ [head]) := hall.left
        exact ⟨_, ⟨hboth.right, rfl⟩, _,
          (checkedAdd_totals hfront hboth.right).mpr ⟨hboth, rfl⟩, _,
          (ih hboth).mpr ⟨hall, rfl⟩, by simp [Function.comp_def]⟩

theorem getElem?_inits {α : Type} (values : List α) (index : Nat) :
    values.inits[index]? =
      if index ≤ values.length then some (values.take index) else none := by
  induction values generalizing index with
  | nil =>
      cases index with
      | zero => rfl
      | succ index => simp
  | cons head tail ih =>
      cases index with
      | zero => rfl
      | succ index =>
          rw [List.inits_cons, List.getElem?_cons_succ, List.getElem?_map, ih]
          by_cases hle : index ≤ tail.length <;> simp [hle]

/-- The difference of two running totals is the totals of the range between. -/
theorem rangeSummary_eq_totals {front range back : List KeyedEntry}
    (hfit : TotalsFit (front ++ (range ++ back))) :
    rangeSummary ((front ++ (range ++ back)).inits.map totals) front.length
      (front.length + range.length) = .ok (totals range) := by
  have hboth : TotalsFit (front ++ range) := by
    rw [← List.append_assoc] at hfit
    exact hfit.left
  have hbefore : ((front ++ (range ++ back)).inits.map totals)[front.length]? =
      some (totals front) := by
    rw [List.getElem?_map, getElem?_inits, if_pos (by simp)]
    simp
  have hafter : ((front ++ (range ++ back)).inits.map totals)[
      front.length + range.length]? = some (totals (front ++ range)) := by
    rw [List.getElem?_map, getElem?_inits, if_pos (by simp), ← List.append_assoc,
      ← List.length_append, List.take_left]
    rfl
  simp only [TotalsFit, List.length_append, totalSize_append,
    totalPathBytes_append] at hboth
  simp only [rangeSummary, hbefore, hafter, orError, totals, List.length_append,
    totalSize_append, totalPathBytes_append, checkedSub_ofNat hboth.1,
    checkedSub_ofNat hboth.2.1, checkedSub_ofNat hboth.2.2, except_bind_ok]
  rfl

/-! Encoded length of a leaf. -/

/-- The length a leaf of these entries has when it is encoded. -/
def leafLen (portablePrefix : Bytes) (entries : List KeyedEntry) : Nat :=
  16 + (2 + 4 + portablePrefix.length + 4 + 24) + entries.length * 56 +
    totalPathBytes entries

theorem leafEncodedLen_eq_ok {portablePrefix : Bytes} {entries : List KeyedEntry}
    (hfit : TotalsFit entries) {result : Nat} :
    leafEncodedLen portablePrefix (totals entries) = .ok result ↔
      leafLen portablePrefix entries < 2 ^ 64 ∧
        leafLen portablePrefix entries = result := by
  obtain ⟨hcount, -, hpath⟩ := totals_toNat hfit
  simp only [leafEncodedLen, checkedUsize, except_bind_eq_ok, except_ensure_eq_ok,
    Except.ok.injEq, hcount, hpath, leafLen]
  constructor
  · rintro ⟨_, ⟨-, rfl⟩, _, ⟨-, rfl⟩, _, ⟨-, rfl⟩, hlt, rfl⟩
    exact ⟨hlt, rfl⟩
  · rintro ⟨hlt, rfl⟩
    exact ⟨_, ⟨by omega, rfl⟩, _, ⟨by omega, rfl⟩, _, ⟨by omega, rfl⟩, hlt, rfl⟩

theorem length_encodedEntries {entries : List KeyedEntry} {written : List Bytes}
    (h : (entries.map KeyedEntry.entry).mapM encodeLeafEntry = .ok written) :
    written.flatten.length = entries.length * 56 + totalPathBytes entries := by
  rw [mapM_eq_ok_iff, List.forall₂_map_left_iff] at h
  induction h with
  | nil => simp
  | cons hhead _ ih =>
      simp only [List.flatten_cons, List.length_append, ih,
        length_encodeLeafEntry hhead, List.length_cons, totalPathBytes_cons]
      ring

theorem length_encodeLeaf {portablePrefix : Bytes} {entries : List KeyedEntry}
    {stored : Bytes}
    (h : encodeLeaf ⟨portablePrefix, entries.map KeyedEntry.entry⟩ = .ok stored) :
    stored.length = leafLen portablePrefix entries := by
  obtain ⟨-, -, summary, -, pre, hpre, count, -, written, hwritten, henvelope⟩ :=
    encodeLeaf_eq_ok.mp h
  rw [length_envelope henvelope]
  simp only [List.length_append, length_writer_u16, length_writer_bytes hpre,
    length_writer_u32, length_writer_summary, length_encodedEntries hwritten, leafLen,
    envelopeLen]
  ring

theorem writerBytes_ok {value : Bytes} (h : value.length < 2 ^ 32) :
    ∃ written, Writer.bytes value = .ok written := by
  refine ⟨Writer.u32 (UInt32.ofNat value.length) ++ value, ?_⟩
  simp only [Writer.bytes, usizeToU32, if_pos h]
  rfl

theorem envelope_ok {kind : ChunkKind} {payload : Bytes}
    (h : envelopeLen + payload.length ≤ kind.maximumStoredLen) :
    ∃ stored, envelope kind payload = .ok stored := by
  have hlimit : payload.length < 2 ^ 32 := by
    have hmax : kind.maximumStoredLen < 2 ^ 32 := by cases kind <;> decide
    omega
  exact ⟨_, envelope_eq_ok.mpr ⟨h, _, usizeToU32_eq_ok.mpr ⟨hlimit, rfl⟩, rfl⟩⟩

/-- Entries within the field limits make a leaf when it is not too long. -/
theorem encodeLeaf_ok {portablePrefix : Bytes} {entries : List KeyedEntry}
    (hcommon : portablePrefix.length ≤ maxPrefixBytes)
    (hcount : entries.length ≤ maxLeafEntries) (hfit : TotalsFit entries)
    (hentries : ∀ keyed ∈ entries,
      (utf8 keyed.entry.exactPath).length ≤ maxExactPathBytes ∧
        keyed.entry.modified.nanoseconds < 1000000000)
    (hlength : leafLen portablePrefix entries ≤ maxManifestChunkBytes) :
    ∃ stored, encodeLeaf ⟨portablePrefix, entries.map KeyedEntry.entry⟩ =
      .ok stored := by
  have hprefixLt : portablePrefix.length < 2 ^ 32 :=
    lt_of_le_of_lt hcommon (by decide)
  obtain ⟨pre, hpre⟩ := writerBytes_ok hprefixLt
  obtain ⟨written, hwritten⟩ :
      ∃ written, (entries.map KeyedEntry.entry).mapM encodeLeafEntry = .ok written := by
    refine mapM_ok_of_forall fun entry hentry => ?_
    obtain ⟨keyed, hkeyed, rfl⟩ := List.mem_map.mp hentry
    obtain ⟨hpath, hnanos⟩ := hentries keyed hkeyed
    obtain ⟨path, hpathWritten⟩ := writerBytes_ok
      (lt_of_le_of_lt hpath (show maxExactPathBytes < 2 ^ 32 by decide))
    exact ⟨_, encodeLeafEntry_eq_ok.mpr ⟨hpath, hnanos, path, hpathWritten, rfl⟩⟩
  have hcountLt : entries.length < 2 ^ 32 := lt_of_le_of_lt hcount (by decide)
  obtain ⟨stored, hstored⟩ := @envelope_ok .leaf
    (Writer.u16 payloadSchema ++ pre ++ Writer.u32 (UInt32.ofNat entries.length) ++
      Writer.summary (totals entries) ++ written.flatten) (by
    simp only [List.length_append, length_writer_u16, length_writer_bytes hpre,
      length_writer_u32, length_writer_summary, length_encodedEntries hwritten]
    simp only [leafLen] at hlength
    change 16 + _ ≤ maxManifestChunkBytes
    omega)
  refine ⟨stored, encodeLeaf_eq_ok.mpr ⟨hcommon, by simpa using hcount, totals entries,
    leafSummary_eq_ok.mpr ⟨hfit, rfl⟩, pre, hpre, UInt32.ofNat entries.length,
    usizeToU32_eq_ok.mpr ⟨by simpa using hcountLt, by simp⟩, written, hwritten, hstored⟩⟩

theorem length_encodedChildren {children : List ManifestChild} {written : List Bytes}
    (h : children.mapM encodeChild = .ok written) :
    written.flatten.length = children.length * 58 := by
  rw [mapM_eq_ok_iff] at h
  induction h with
  | nil => rfl
  | cons hhead _ ih =>
      simp only [List.flatten_cons, List.length_append, ih, length_encodeChild hhead,
        List.length_cons]
      ring

/-- The length a node has when it is encoded. -/
def nodeLen (portablePrefix : Bytes) (children : List ManifestChild) : Nat :=
  16 + (2 + 4 + portablePrefix.length + 4 + 24) + children.length * 58

theorem length_encodeNode {portablePrefix : Bytes} {children : List ManifestChild}
    {stored : Bytes} (h : encodeNode ⟨portablePrefix, children⟩ = .ok stored) :
    stored.length = nodeLen portablePrefix children := by
  obtain ⟨-, -, summary, -, pre, hpre, count, -, written, hwritten, henvelope⟩ :=
    encodeNode_eq_ok.mp h
  rw [length_envelope henvelope]
  simp only [List.length_append, length_writer_u16, length_writer_bytes hpre,
    length_writer_u32, length_writer_summary, length_encodedChildren hwritten, nodeLen,
    envelopeLen]
  ring

/-- Children of ranges whose totals fit make a node when it is not too long. -/
theorem encodeNode_ok {portablePrefix : Bytes} {children : List ManifestChild}
    {ranges : List (List KeyedEntry)}
    (hcommon : portablePrefix.length ≤ maxPrefixBytes)
    (hcount : children.length ≤ maxNodeChildren)
    (hsummary : List.Forall₂ (fun child range =>
      TotalsFit range ∧ child.summary = totals range) children ranges)
    (hfit : TotalsFit ranges.flatten)
    (hkind : ∀ child ∈ children, child.child.kind ≠ .root)
    (hlength : nodeLen portablePrefix children ≤ maxManifestChunkBytes) :
    ∃ stored, encodeNode ⟨portablePrefix, children⟩ = .ok stored := by
  have hprefixLt : portablePrefix.length < 2 ^ 32 :=
    lt_of_le_of_lt hcommon (by decide)
  obtain ⟨pre, hpre⟩ := writerBytes_ok hprefixLt
  obtain ⟨written, hwritten⟩ : ∃ written, children.mapM encodeChild = .ok written := by
    refine mapM_ok_of_forall fun child hchild => ?_
    obtain ⟨kind, hkindByte⟩ : ∃ kind, manifestKindByte child.child = .ok kind := by
      rw [manifestKindByte]
      cases hchildKind : child.child.kind with
      | root => exact absurd hchildKind (hkind child hchild)
      | node => exact ⟨2, rfl⟩
      | leaf => exact ⟨3, rfl⟩
    exact ⟨_, encodeChild_eq_ok.mpr ⟨kind, hkindByte, rfl⟩⟩
  have hcountLt : children.length < 2 ^ 32 := lt_of_le_of_lt hcount (by decide)
  obtain ⟨stored, hstored⟩ := @envelope_ok .node
    (Writer.u16 payloadSchema ++ pre ++ Writer.u32 (UInt32.ofNat children.length) ++
      Writer.summary (totals ranges.flatten) ++ written.flatten) (by
    simp only [List.length_append, length_writer_u16, length_writer_bytes hpre,
      length_writer_u32, length_writer_summary, length_encodedChildren hwritten]
    simp only [nodeLen] at hlength
    change 16 + _ ≤ maxManifestChunkBytes
    omega)
  exact ⟨stored, encodeNode_eq_ok.mpr ⟨hcommon, hcount, totals ranges.flatten,
    (childSummaries_eq_ok hsummary).mpr ⟨hfit, rfl⟩, pre, hpre,
    UInt32.ofNat children.length, usizeToU32_eq_ok.mpr ⟨hcountLt, rfl⟩, written, hwritten,
    hstored⟩⟩

/-- A root that passes its checks fits a root chunk. -/
theorem encodeRoot_ok {root : SnapshotRoot} (hvalid : validateRoot root = .ok ())
    (hkind : ∀ reference, root.manifest = some reference → reference.kind ≠ .root) :
    ∃ stored, encodeRoot root = .ok stored := by
  have hname : maxCheckpointNameBytes = 4096 := rfl
  have hversion : maxToolVersionBytes = 256 := rfl
  obtain ⟨hnameLimit, -, hversionLimit, -⟩ := validateRoot_eq_ok.mp hvalid
  obtain ⟨name, hnameWritten⟩ := writerBytes_ok (show
    (utf8 root.checkpointName).length < 2 ^ 32 by omega)
  obtain ⟨version, hversionWritten⟩ := writerBytes_ok (show
    (utf8 root.toolVersion).length < 2 ^ 32 by omega)
  obtain ⟨manifest, hmanifest, hmanifestLength⟩ : ∃ manifest,
      writeOptionalManifestRef root.manifest = .ok manifest ∧ manifest.length ≤ 33 := by
    cases hreference : root.manifest with
    | none => exact ⟨_, rfl, by simp⟩
    | some reference =>
        have hnotRoot := hkind reference hreference
        obtain ⟨kind, id⟩ := reference
        cases kind with
        | root => exact absurd rfl hnotRoot
        | node => exact ⟨_, rfl, by simp⟩
        | leaf => exact ⟨_, rfl, by simp⟩
  have hparent : (Writer.parent root.parent).length ≤ 33 := by
    cases root.parent <;> simp [Writer.parent]
  obtain ⟨stored, hstored⟩ := @envelope_ok .root (Writer.u16 payloadSchema ++
      root.projectId.val ++ Writer.parent root.parent ++
      Writer.i64 root.created.unixSeconds ++ Writer.u32 root.created.nanoseconds ++ name ++
      version ++ Writer.u16 trackedScopePolicy ++ Writer.u16 pathKeyPolicy ++
      Writer.u16 contentPolicy ++ manifest ++ Writer.summary root.summary) (by
    simp only [List.length_append, length_writer_u16, length_writer_i64, length_writer_u32,
      length_writer_bytes hnameWritten, length_writer_bytes hversionWritten,
      root.projectId.property, length_writer_summary]
    change 16 + _ ≤ 65536
    omega)
  exact ⟨stored, encodeRoot_eq_ok.mpr ⟨hvalid, name, hnameWritten, version, hversionWritten,
    manifest, hmanifest, hstored⟩⟩

end CheckPo
