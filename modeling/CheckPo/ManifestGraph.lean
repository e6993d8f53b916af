/-
The stored chunks of manifests as a graph: which chunks a chunk refers to, which entries
it holds, and what is reachable from the roots.
-/
import CheckPo.SnapshotStore
import CheckPo.MultiplicityFlow

namespace CheckPo

open Relation

def DecodedChunk.kind : DecodedChunk → ChunkKind
  | .node _ _ => .node
  | .leaf _ _ => .leaf

def DecodedChunk.childRefs : DecodedChunk → List ManifestRef
  | .node content _ => content.children.map ManifestChild.child
  | .leaf _ _ => []

def DecodedChunk.leafEntries : DecodedChunk → List LeafEntry
  | .node _ _ => []
  | .leaf content _ => content.entries

/-- Chunks as they load; what loads is of the kind that its reference says. -/
structure ManifestGraph where
  load : ManifestRef → SnapshotV2Result DecodedChunk
  kind_eq : ∀ reference chunk, load reference = .ok chunk → chunk.kind = reference.kind

/-- The stored chunks of a source. -/
def storedGraph (blake3 : Bytes → Digest32) (source : ManifestChunkSource) : ManifestGraph where
  load := loadChunk blake3 source
  kind_eq := by
    rintro ⟨kind, id⟩ chunk h
    simp only [loadChunk, except_bind_eq_ok] at h
    obtain ⟨_, _, _, _, h⟩ := h
    cases kind with
    | root => exact absurd h nofun
    | node =>
        simp only [except_bind_eq_ok, except_pure_eq_ok] at h
        obtain ⟨_, _, rfl⟩ := h
        rfl
    | leaf =>
        simp only [except_bind_eq_ok, except_pure_eq_ok] at h
        obtain ⟨_, _, rfl⟩ := h
        rfl

namespace ManifestGraph

variable (graph : ManifestGraph)

def children (reference : ManifestRef) : List ManifestRef :=
  match graph.load reference with
  | .ok chunk => chunk.childRefs
  | .error _ => []

def entries (reference : ManifestRef) : List LeafEntry :=
  match graph.load reference with
  | .ok chunk => chunk.leafEntries
  | .error _ => []

theorem children_eq {graph : ManifestGraph} {reference : ManifestRef} {chunk : DecodedChunk}
    (h : graph.load reference = .ok chunk) : graph.children reference = chunk.childRefs := by
  rw [children, h]

theorem entries_eq {graph : ManifestGraph} {reference : ManifestRef} {chunk : DecodedChunk}
    (h : graph.load reference = .ok chunk) : graph.entries reference = chunk.leafEntries := by
  rw [entries, h]

/-- A chunk that is a root or below one. -/
def Reachable (roots : List ManifestRef) (reference : ManifestRef) : Prop :=
  ∃ root ∈ roots, ReflTransGen (IsChild graph.children) root reference

/-- No chunk below the roots lies on a cycle. -/
def Acyclic (roots : List ManifestRef) : Prop :=
  ∀ reference, graph.Reachable roots reference →
    ¬ TransGen (IsChild graph.children) reference reference

def Loads (roots : List ManifestRef) : Prop :=
  ∀ reference, graph.Reachable roots reference → ∃ chunk, graph.load reference = .ok chunk

end ManifestGraph

theorem Digest32.bytes_injective : Function.Injective Digest32.bytes := by
  rintro ⟨left, _⟩ ⟨right, _⟩ h
  cases h
  rfl

instance : Finite Digest32 :=
  @Finite.of_injective _ (List.Vector UInt8 32) _
    (fun digest => ⟨digest.bytes, digest.length_eq⟩)
    fun _ _ h => Digest32.bytes_injective (congrArg Subtype.val h)

theorem ChunkKind.toByte_injective : Function.Injective ChunkKind.toByte := by
  intro left right h
  cases left <;> cases right <;> simp_all [ChunkKind.toByte]

instance : Finite ManifestRef :=
  Finite.of_injective
    (fun reference => ((reference.kind.toByte, reference.id) : UInt8 × Digest32)) (by
      rintro ⟨leftKind, left⟩ ⟨rightKind, right⟩ h
      rcases Prod.mk.inj h with ⟨hkind, hid⟩
      cases ChunkKind.toByte_injective hkind
      cases hid
      rfl)

namespace ManifestGraph

variable (graph : ManifestGraph) (roots : List ManifestRef)

noncomputable def reachable : Finset ManifestRef :=
  (Set.toFinite {reference | graph.Reachable roots reference}).toFinset

variable {graph roots}

@[simp] theorem mem_reachable {reference : ManifestRef} :
    reference ∈ graph.reachable roots ↔ graph.Reachable roots reference :=
  Set.Finite.mem_toFinset _

theorem reachable_below : Below graph.children roots (graph.reachable roots) where
  root root hroot := mem_reachable.mpr ⟨root, hroot, .refl⟩
  child parent hparent child hchild := by
    rcases mem_reachable.mp hparent with ⟨root, hroot, hpath⟩
    exact mem_reachable.mpr ⟨root, hroot, hpath.tail hchild⟩
  covered reference hreference := by
    rcases mem_reachable.mp hreference with ⟨root, hroot, hpath⟩
    rcases ReflTransGen.cases_tail hpath with rfl | ⟨parent, hparent, hedge⟩
    · exact Or.inl hroot
    · exact Or.inr ⟨parent, mem_reachable.mpr ⟨root, hroot, hparent⟩, hedge⟩

/-- A set that holds the roots and the children of its members holds what is reachable. -/
theorem reachable_subset {known : Finset ManifestRef} (hroots : ∀ root ∈ roots, root ∈ known)
    (hchildren : ∀ parent ∈ known, ∀ child ∈ graph.children parent, child ∈ known) :
    graph.reachable roots ⊆ known := by
  intro reference hreference
  rcases mem_reachable.mp hreference with ⟨root, hroot, hpath⟩
  induction hpath with
  | refl => exact hroots root hroot
  | tail hpath hedge ih =>
      exact hchildren _ (ih (mem_reachable.mpr ⟨root, hroot, hpath⟩)) _ hedge

theorem acyclic_iff : graph.Acyclic roots ↔ AcyclicOn graph.children (graph.reachable roots) := by
  simp only [Acyclic, AcyclicOn, mem_reachable]

end ManifestGraph

end CheckPo
