/-
Counting over the fully expanded trees of a finite directed multigraph.  The
multiplicities that flow from the roots along the edges, parents before children,
give the same sums while every node is passed once.  Nothing here names the
repository.
-/
import Mathlib

namespace CheckPo

variable {ν : Type} (children : ν → List ν)

/-- `child` stands among the children of `parent`. -/
def IsChild (parent child : ν) : Prop := child ∈ children parent

/-- What the nodes of the tree below a node sum to, the tree cut off at a depth. -/
def expandedTotal (own : ν → ℕ) : ℕ → ν → ℕ
  | 0, _ => 0
  | depth + 1, node => own node + ((children node).map (expandedTotal own depth)).sum

/-- What the nodes of the tree below a node hold, the tree cut off at a depth. -/
def expanded {α : Type} (own : ν → List α) : ℕ → ν → List α
  | 0, _ => []
  | depth + 1, node => own node ++ (children node).flatMap (expanded own depth)

theorem countP_expanded {α : Type} (own : ν → List α) (p : α → Bool) (depth : ℕ) (node : ν) :
    (expanded children own depth node).countP p =
      expandedTotal children (fun node => (own node).countP p) depth node := by
  induction depth generalizing node with
  | zero => rfl
  | succ depth ih =>
      rw [expanded, List.countP_append, List.countP_flatMap, expandedTotal]
      congr 3
      exact funext ih

theorem mem_expanded {α : Type} {own : ν → List α} {depth : ℕ} {node : ν} {value : α}
    (h : value ∈ expanded children own depth node) :
    ∃ lower, Relation.ReflTransGen (IsChild children) node lower ∧ value ∈ own lower := by
  induction depth generalizing node with
  | zero => exact absurd h List.not_mem_nil
  | succ depth ih =>
      rcases List.mem_append.mp h with hown | hbelow
      · exact ⟨node, .refl, hown⟩
      · rcases List.mem_flatMap.mp hbelow with ⟨child, hchild, hmem⟩
        rcases ih hmem with ⟨lower, hpath, hvalue⟩
        exact ⟨lower, hpath.head hchild, hvalue⟩

/-- The tree below a node ends within a depth. -/
def EndsWithin : ℕ → ν → Prop
  | 0, _ => False
  | depth + 1, node => ∀ child ∈ children node, EndsWithin depth child

theorem EndsWithin.mono {low high : ℕ} (h : low ≤ high) {node : ν}
    (hends : EndsWithin children low node) : EndsWithin children high node := by
  induction low generalizing high node with
  | zero => exact hends.elim
  | succ low ih =>
      cases high with
      | zero => exact absurd h (Nat.not_succ_le_zero low)
      | succ high =>
          intro child hchild
          exact ih (Nat.le_of_succ_le_succ h) (hends child hchild)

theorem EndsWithin.total_eq {depth deeper : ℕ} {node : ν} (own : ν → ℕ)
    (hends : EndsWithin children depth node) (h : depth ≤ deeper) :
    expandedTotal children own deeper node = expandedTotal children own depth node := by
  induction depth generalizing deeper node with
  | zero => exact hends.elim
  | succ depth ih =>
      cases deeper with
      | zero => exact absurd h (Nat.not_succ_le_zero depth)
      | succ deeper =>
          have hmap : (children node).map (expandedTotal children own deeper) =
              (children node).map (expandedTotal children own depth) :=
            List.map_congr_left fun child hchild =>
              ih (hends child hchild) (Nat.le_of_succ_le_succ h)
          simp only [expandedTotal, hmap]

theorem EndsWithin.total_unfold {depth : ℕ} {node : ν} (own : ν → ℕ)
    (hends : EndsWithin children depth node) :
    expandedTotal children own depth node =
      own node + ((children node).map (expandedTotal children own depth)).sum :=
  (hends.total_eq children own (Nat.le_succ depth)).symm

/-- No node of a set lies on a cycle. -/
def AcyclicOn (nodes : Finset ν) : Prop :=
  ∀ node ∈ nodes, ¬ Relation.TransGen (IsChild children) node node

/-- The nodes contain the roots and the children of their members, and nothing that
is not below a root. -/
structure Below (roots : List ν) (nodes : Finset ν) : Prop where
  root : ∀ root ∈ roots, root ∈ nodes
  child : ∀ parent ∈ nodes, ∀ child ∈ children parent, child ∈ nodes
  covered : ∀ node ∈ nodes, node ∈ roots ∨ ∃ parent ∈ nodes, node ∈ children parent

variable {children} {roots : List ν} {nodes : Finset ν}

theorem AcyclicOn.wellFounded (hacyclic : AcyclicOn children nodes) :
    WellFounded fun lower upper : nodes =>
      Relation.TransGen (IsChild children) upper.1 lower.1 := by
  have htrans : IsTrans nodes fun lower upper =>
      Relation.TransGen (IsChild children) upper.1 lower.1 :=
    ⟨fun _ _ _ hlower hupper => hupper.trans hlower⟩
  have hirrefl : Std.Irrefl fun lower upper : nodes =>
      Relation.TransGen (IsChild children) upper.1 lower.1 :=
    ⟨fun node => hacyclic node.1 node.2⟩
  exact Finite.wellFounded_of_trans_of_irrefl _

theorem AcyclicOn.wellFounded_parents (hacyclic : AcyclicOn children nodes) :
    WellFounded fun upper lower : nodes =>
      Relation.TransGen (IsChild children) upper.1 lower.1 := by
  have htrans : IsTrans nodes fun upper lower =>
      Relation.TransGen (IsChild children) upper.1 lower.1 :=
    ⟨fun _ _ _ hupper hlower => hupper.trans hlower⟩
  have hirrefl : Std.Irrefl fun upper lower : nodes =>
      Relation.TransGen (IsChild children) upper.1 lower.1 :=
    ⟨fun node => hacyclic node.1 node.2⟩
  exact Finite.wellFounded_of_trans_of_irrefl _

theorem AcyclicOn.endsWithin (hacyclic : AcyclicOn children nodes)
    (hbelow : Below children roots nodes) :
    ∀ node ∈ nodes, ∃ depth, EndsWithin children depth node := by
  suffices h : ∀ node : nodes, ∃ depth, EndsWithin children depth node.1 from
    fun node hnode => h ⟨node, hnode⟩
  intro node
  induction node using hacyclic.wellFounded.induction with
  | h node ih =>
      have hchild : ∀ child ∈ children node.1, ∃ depth, EndsWithin children depth child :=
        fun child hchild =>
          ih ⟨child, hbelow.child node.1 node.2 child hchild⟩ (.single hchild)
      choose! depth hdepth using hchild
      refine ⟨((children node.1).map depth).foldr max 0 + 1, fun child hmem => ?_⟩
      exact (hdepth child hmem).mono children
        (List.le_max_of_le' 0 (List.mem_map_of_mem hmem) le_rfl)

theorem AcyclicOn.exists_depth (hacyclic : AcyclicOn children nodes)
    (hbelow : Below children roots nodes) :
    ∃ depth, ∀ node ∈ nodes, EndsWithin children depth node := by
  choose! depth hdepth using hacyclic.endsWithin hbelow
  exact ⟨nodes.sup depth, fun node hnode =>
    (hdepth node hnode).mono children (Finset.le_sup hnode)⟩

theorem not_related_self {relation : ν → ν → Prop} {node : ν} (hacc : Acc relation node) :
    ¬ relation node node := by
  induction hacc with
  | intro node _ ih => exact fun hself => ih node hself hself

/-! Multiplicities. -/

variable [DecidableEq ν]

/-- The multiplicity that each node has received, the edges into it that have not been
followed yet, and the nodes whose edges have been. -/
structure Flow (ν : Type) where
  multiplicity : ν → ℕ
  incoming : ν → ℕ
  processed : Finset ν

/-- `Acc` of a node rules out a cycle through it. -/
structure FlowSound (children : ν → List ν) (roots : List ν) (nodes : Finset ν)
    (flow : Flow ν) : Prop where
  subset : flow.processed ⊆ nodes
  multiplicity_eq : ∀ node ∈ nodes, flow.multiplicity node =
    roots.count node +
      ∑ parent ∈ flow.processed, flow.multiplicity parent * (children parent).count node
  incoming_eq : ∀ node ∈ nodes, flow.incoming node =
    ∑ parent ∈ nodes \ flow.processed, (children parent).count node
  drained : ∀ node ∈ flow.processed, flow.incoming node = 0
  positive : ∀ node ∈ flow.processed, 0 < flow.multiplicity node
  grounded : ∀ node ∈ flow.processed,
    Acc (fun parent child => parent ∈ nodes ∧ IsChild children parent child) node

/-- The flow after the edges of one node. -/
structure FlowStep (children : ν → List ν) (nodes : Finset ν) (flow : Flow ν) (node : ν)
    (next : Flow ν) : Prop where
  multiplicity_eq : ∀ child ∈ nodes, next.multiplicity child =
    flow.multiplicity child + flow.multiplicity node * (children node).count child
  incoming_eq : ∀ child ∈ nodes, next.incoming child + (children node).count child =
    flow.incoming child
  processed_eq : next.processed = insert node flow.processed

/-- A node of the set whose parents have all been processed, and which has not. -/
structure Flow.Ready (nodes : Finset ν) (flow : Flow ν) (node : ν) : Prop where
  mem : node ∈ nodes
  unprocessed : node ∉ flow.processed
  drained : flow.incoming node = 0

variable {flow next : Flow ν} {node : ν}

theorem FlowSound.no_edge (hsound : FlowSound children roots nodes flow) {child : ν}
    (hchild : child ∈ nodes) (hdrained : flow.incoming child = 0)
    {parent : ν} (hparent : parent ∈ nodes) (hunprocessed : parent ∉ flow.processed) :
    (children parent).count child = 0 := by
  rw [hsound.incoming_eq child hchild] at hdrained
  exact Finset.sum_eq_zero_iff.mp hdrained parent
    (Finset.mem_sdiff.mpr ⟨hparent, hunprocessed⟩)

theorem FlowSound.parent_processed (hsound : FlowSound children roots nodes flow)
    {child : ν} (hchild : child ∈ nodes) (hdrained : flow.incoming child = 0)
    {parent : ν} (hparent : parent ∈ nodes) (hedge : child ∈ children parent) :
    parent ∈ flow.processed := by
  by_contra hunprocessed
  have hcount := hsound.no_edge hchild hdrained hparent hunprocessed
  exact List.count_eq_zero.mp hcount hedge

theorem FlowSound.positive_of_drained (hsound : FlowSound children roots nodes flow)
    (hbelow : Below children roots nodes) (hnode : node ∈ nodes)
    (hdrained : flow.incoming node = 0) : 0 < flow.multiplicity node := by
  rw [hsound.multiplicity_eq node hnode]
  rcases hbelow.covered node hnode with hroot | ⟨parent, hparent, hedge⟩
  · exact Nat.add_pos_left (List.count_pos_iff.mpr hroot) _
  · have hprocessed := hsound.parent_processed hnode hdrained hparent hedge
    have hterm : 0 < flow.multiplicity parent * (children parent).count node :=
      Nat.mul_pos (hsound.positive parent hprocessed) (List.count_pos_iff.mpr hedge)
    apply Nat.add_pos_right
    exact hterm.trans_le (Finset.single_le_sum
      (f := fun parent => flow.multiplicity parent * (children parent).count node)
      (fun _ _ => Nat.zero_le _) hprocessed)

/-- None of a ready node's edges leads back to a processed node. -/
theorem FlowSound.no_edge_back (hsound : FlowSound children roots nodes flow)
    (hready : flow.Ready nodes node) :
    ∀ child ∈ insert node flow.processed, (children node).count child = 0 := by
  intro child hchild
  rcases Finset.mem_insert.mp hchild with rfl | hprocessed
  · exact hsound.no_edge hready.mem hready.drained hready.mem hready.unprocessed
  · exact hsound.no_edge (hsound.subset hprocessed) (hsound.drained child hprocessed)
      hready.mem hready.unprocessed

/-- What the processed nodes have received stays. -/
theorem FlowSound.kept (hsound : FlowSound children roots nodes flow)
    (hready : flow.Ready nodes node) (hstep : FlowStep children nodes flow node next) :
    ∀ child ∈ insert node flow.processed,
      next.multiplicity child = flow.multiplicity child := fun child hchild => by
  have hmem := Finset.insert_subset hready.mem hsound.subset hchild
  rw [hstep.multiplicity_eq child hmem, hsound.no_edge_back hready child hchild, Nat.mul_zero,
    Nat.add_zero]

/-- Processing a ready node keeps the invariant. -/
theorem FlowSound.step (hsound : FlowSound children roots nodes flow)
    (hbelow : Below children roots nodes) (hready : flow.Ready nodes node)
    (hstep : FlowStep children nodes flow node next) :
    FlowSound children roots nodes next := by
  have hback := hsound.no_edge_back hready
  have hinsert : insert node flow.processed ⊆ nodes :=
    Finset.insert_subset hready.mem hsound.subset
  have hkept := hsound.kept hready hstep
  constructor
  · rw [hstep.processed_eq]
    exact hinsert
  · intro child hchild
    rw [hstep.multiplicity_eq child hchild, hstep.processed_eq,
      Finset.sum_insert hready.unprocessed, hsound.multiplicity_eq child hchild,
      hkept node (Finset.mem_insert_self _ _)]
    have hsum : ∑ parent ∈ flow.processed,
          next.multiplicity parent * (children parent).count child =
        ∑ parent ∈ flow.processed,
          flow.multiplicity parent * (children parent).count child :=
      Finset.sum_congr rfl fun parent hparent => by
        rw [hkept parent (Finset.mem_insert_of_mem hparent)]
    omega
  · intro child hchild
    have hmem : node ∈ nodes \ flow.processed :=
      Finset.mem_sdiff.mpr ⟨hready.mem, hready.unprocessed⟩
    have hsplit := Finset.sum_erase_add (nodes \ flow.processed)
      (fun parent => (children parent).count child) hmem
    have hfollowed := hstep.incoming_eq child hchild
    rw [hsound.incoming_eq child hchild] at hfollowed
    rw [hstep.processed_eq, Finset.sdiff_insert]
    omega
  · intro child hchild
    rw [hstep.processed_eq] at hchild
    have hfollowed := hstep.incoming_eq child (hinsert hchild)
    rw [hback child hchild] at hfollowed
    rcases Finset.mem_insert.mp hchild with rfl | hprocessed
    · exact hfollowed.trans hready.drained
    · exact hfollowed.trans (hsound.drained child hprocessed)
  · intro child hchild
    rw [hstep.processed_eq] at hchild
    rw [hkept child hchild]
    rcases Finset.mem_insert.mp hchild with rfl | hprocessed
    · exact hsound.positive_of_drained hbelow hready.mem hready.drained
    · exact hsound.positive child hprocessed
  · intro child hchild
    rw [hstep.processed_eq] at hchild
    rcases Finset.mem_insert.mp hchild with rfl | hprocessed
    · constructor
      rintro parent ⟨hparent, hedge⟩
      exact hsound.grounded parent
        (hsound.parent_processed hready.mem hready.drained hparent hedge)
    · exact hsound.grounded child hprocessed

/-- A flow that has passed every node shows that there is no cycle. -/
theorem FlowSound.acyclic (hsound : FlowSound children roots nodes flow)
    (hbelow : Below children roots nodes) (hall : nodes ⊆ flow.processed) :
    AcyclicOn children nodes := by
  intro node hnode hcycle
  have hacc := (hsound.grounded node (hall hnode)).transGen
  have hinside : ∀ {lower}, Relation.TransGen (IsChild children) node lower →
      lower ∈ nodes ∧ Relation.TransGen
        (fun parent child => parent ∈ nodes ∧ IsChild children parent child) node lower := by
    intro lower hpath
    induction hpath with
    | single hedge => exact ⟨hbelow.child node hnode _ hedge, .single ⟨hnode, hedge⟩⟩
    | tail _ hedge ih =>
        exact ⟨hbelow.child _ ih.1 _ hedge, ih.2.tail ⟨ih.1, hedge⟩⟩
  exact not_related_self hacc (hinside hcycle).2

/-- Without a cycle some node is ready as long as one is unprocessed: the first of them
in the order of the edges. -/
theorem FlowSound.exists_ready (hsound : FlowSound children roots nodes flow)
    (hacyclic : AcyclicOn children nodes) (hleft : ¬ nodes ⊆ flow.processed) :
    ∃ node, flow.Ready nodes node := by
  rcases Finset.not_subset.mp hleft with ⟨start, hstart, hunprocessed⟩
  rcases hacyclic.wellFounded_parents.has_min {node | node.1 ∉ flow.processed}
    ⟨⟨start, hstart⟩, hunprocessed⟩ with ⟨first, hfirst, hmin⟩
  refine ⟨first.1, first.2, hfirst, ?_⟩
  rw [hsound.incoming_eq first.1 first.2]
  refine Finset.sum_eq_zero fun parent hparent => ?_
  rcases Finset.mem_sdiff.mp hparent with ⟨hmem, hopen⟩
  refine List.count_eq_zero.mpr fun hedge => ?_
  exact hmin ⟨parent, hmem⟩ hopen (.single hedge)

/-! What the flow sums to. -/

/-- A value of the nodes that counts a node's own part and its children's. -/
def Unfolds (children : ν → List ν) (nodes : Finset ν) (own value : ν → ℕ) : Prop :=
  ∀ node ∈ nodes, value node = own node + ((children node).map value).sum

theorem sum_count_mul (value : ν → ℕ) (hsubset : ∀ node ∈ roots, node ∈ nodes) :
    ∑ node ∈ nodes, roots.count node * value node = (roots.map value).sum := by
  have hroots : roots.toFinset ⊆ nodes :=
    fun node hnode => hsubset node (List.mem_toFinset.mp hnode)
  rw [← Finset.sum_subset hroots fun node _ hnode => by
    rw [List.count_eq_zero.mpr fun hmem => hnode (List.mem_toFinset.mpr hmem), Nat.zero_mul]]
  simpa only [smul_eq_mul] using (Finset.sum_list_map_count roots value).symm

/-- What the processed nodes hold themselves, and what the others still pass on, is at
every moment what the roots' trees hold. -/
theorem FlowSound.total (hsound : FlowSound children roots nodes flow)
    (hbelow : Below children roots nodes) {own value : ν → ℕ}
    (hvalue : Unfolds children nodes own value) :
    ∑ node ∈ flow.processed, flow.multiplicity node * own node +
      ∑ node ∈ nodes \ flow.processed, flow.multiplicity node * value node =
    (roots.map value).sum := by
  have hreceived : ∑ node ∈ nodes, flow.multiplicity node * value node =
      (roots.map value).sum + ∑ parent ∈ flow.processed,
        flow.multiplicity parent * ((children parent).map value).sum := by
    calc ∑ node ∈ nodes, flow.multiplicity node * value node
        = ∑ node ∈ nodes, (roots.count node * value node +
            ∑ parent ∈ flow.processed,
              flow.multiplicity parent * ((children parent).count node * value node)) := by
          refine Finset.sum_congr rfl fun node hnode => ?_
          rw [hsound.multiplicity_eq node hnode, Nat.add_mul, Finset.sum_mul]
          simp only [Nat.mul_assoc]
      _ = (roots.map value).sum + ∑ parent ∈ flow.processed,
            flow.multiplicity parent *
              ∑ node ∈ nodes, (children parent).count node * value node := by
          rw [Finset.sum_add_distrib, sum_count_mul value hbelow.root, Finset.sum_comm]
          simp only [Finset.mul_sum]
      _ = _ := by
          congr 1
          refine Finset.sum_congr rfl fun parent hparent => ?_
          rw [sum_count_mul value (hbelow.child parent (hsound.subset hparent))]
  have hsplit := Finset.sum_sdiff hsound.subset
    (f := fun node => flow.multiplicity node * value node)
  have hprocessed : ∑ node ∈ flow.processed, flow.multiplicity node * value node =
      ∑ node ∈ flow.processed, flow.multiplicity node * own node +
        ∑ parent ∈ flow.processed,
          flow.multiplicity parent * ((children parent).map value).sum := by
    rw [← Finset.sum_add_distrib]
    refine Finset.sum_congr rfl fun node hnode => ?_
    rw [hvalue node (hsound.subset hnode), Nat.mul_add]
  omega

theorem FlowSound.total_complete (hsound : FlowSound children roots nodes flow)
    (hbelow : Below children roots nodes) (hall : nodes ⊆ flow.processed)
    {own value : ν → ℕ} (hvalue : Unfolds children nodes own value) :
    ∑ node ∈ nodes, flow.multiplicity node * own node = (roots.map value).sum := by
  have htotal := hsound.total hbelow hvalue
  rw [Finset.Subset.antisymm hsound.subset hall, Finset.sdiff_self, Finset.sum_empty] at htotal
  exact htotal

/-- What one node has received is at most what the trees hold of it. -/
theorem FlowSound.multiplicity_le (hsound : FlowSound children roots nodes flow)
    (hbelow : Below children roots nodes) {value : ν → ℕ} (hnode : node ∈ nodes)
    (hvalue : Unfolds children nodes (fun other => if other = node then 1 else 0) value) :
    flow.multiplicity node ≤ (roots.map value).sum := by
  rw [← hsound.total hbelow hvalue]
  by_cases hprocessed : node ∈ flow.processed
  · apply Nat.le_add_right_of_le
    have hterm := Finset.single_le_sum
      (f := fun other => flow.multiplicity other * if other = node then 1 else 0)
      (fun _ _ => Nat.zero_le _) hprocessed
    simpa only [if_true, Nat.mul_one] using hterm
  · apply Nat.le_add_left_of_le
    have hone : 1 ≤ value node := by
      rw [hvalue node hnode]
      simp only [if_true, Nat.le_add_right]
    have hterm := Finset.single_le_sum
      (f := fun other => flow.multiplicity other * value other)
      (fun _ _ => Nat.zero_le _) (Finset.mem_sdiff.mpr ⟨hnode, hprocessed⟩)
    exact (Nat.le_mul_of_pos_right _ hone).trans hterm

/-! The complete flow of an acyclic graph. -/

/-- The flow before any node is processed. -/
def Flow.start (children : ν → List ν) (roots : List ν) (nodes : Finset ν) : Flow ν where
  multiplicity node := roots.count node
  incoming node := ∑ parent ∈ nodes, (children parent).count node
  processed := ∅

theorem Flow.start_sound : FlowSound children roots nodes (Flow.start children roots nodes) where
  subset := Finset.empty_subset _
  multiplicity_eq _ _ := by simp [Flow.start]
  incoming_eq _ _ := by simp [Flow.start]
  drained _ hnode := absurd hnode (Finset.notMem_empty _)
  positive _ hnode := absurd hnode (Finset.notMem_empty _)
  grounded _ hnode := absurd hnode (Finset.notMem_empty _)

def Flow.process (children : ν → List ν) (flow : Flow ν) (node : ν) : Flow ν where
  multiplicity child := flow.multiplicity child +
    flow.multiplicity node * (children node).count child
  incoming child := flow.incoming child - (children node).count child
  processed := insert node flow.processed

theorem FlowSound.edges_le (hsound : FlowSound children roots nodes flow)
    (hready : flow.Ready nodes node) {child : ν} (hchild : child ∈ nodes) :
    (children node).count child ≤ flow.incoming child := by
  rw [hsound.incoming_eq child hchild]
  exact Finset.single_le_sum (f := fun parent => (children parent).count child)
    (fun _ _ => Nat.zero_le _) (Finset.mem_sdiff.mpr ⟨hready.mem, hready.unprocessed⟩)

theorem FlowSound.process_step (hsound : FlowSound children roots nodes flow)
    (hready : flow.Ready nodes node) :
    FlowStep children nodes flow node (flow.process children node) where
  multiplicity_eq _ _ := rfl
  incoming_eq _ hchild := Nat.sub_add_cancel (hsound.edges_le hready hchild)
  processed_eq := rfl

theorem AcyclicOn.exists_complete (hacyclic : AcyclicOn children nodes)
    (hbelow : Below children roots nodes) :
    ∃ flow, FlowSound children roots nodes flow ∧ nodes ⊆ flow.processed := by
  suffices h : ∀ left flow, FlowSound children roots nodes flow →
      (nodes \ flow.processed).card = left →
      ∃ flow, FlowSound children roots nodes flow ∧ nodes ⊆ flow.processed from
    h _ _ Flow.start_sound rfl
  intro left
  induction left with
  | zero =>
      intro flow hsound hleft
      exact ⟨flow, hsound, Finset.sdiff_eq_empty_iff_subset.mp (Finset.card_eq_zero.mp hleft)⟩
  | succ left ih =>
      intro flow hsound hleft
      have hopen : ¬ nodes ⊆ flow.processed := fun hall => by
        rw [Finset.sdiff_eq_empty_iff_subset.mpr hall] at hleft
        exact absurd hleft (Nat.succ_ne_zero left).symm
      rcases hsound.exists_ready hacyclic hopen with ⟨node, hready⟩
      apply ih _ (hsound.step hbelow hready (hsound.process_step hready))
      have hmem : node ∈ nodes \ flow.processed :=
        Finset.mem_sdiff.mpr ⟨hready.mem, hready.unprocessed⟩
      rw [Flow.process, Finset.sdiff_insert, Finset.card_erase_of_mem hmem, hleft,
        Nat.add_sub_cancel]

/-- The edges into a node are at most its occurrences in the trees. -/
theorem AcyclicOn.edges_le (hacyclic : AcyclicOn children nodes)
    (hbelow : Below children roots nodes) {value : ν → ℕ} (hnode : node ∈ nodes)
    (hvalue : Unfolds children nodes (fun other => if other = node then 1 else 0) value) :
    ∑ parent ∈ nodes, (children parent).count node ≤ (roots.map value).sum := by
  rcases hacyclic.exists_complete hbelow with ⟨flow, hsound, hall⟩
  have hprocessed : flow.processed = nodes := Finset.Subset.antisymm hsound.subset hall
  refine le_trans ?_ (hsound.multiplicity_le hbelow hnode hvalue)
  rw [hsound.multiplicity_eq node hnode, hprocessed]
  apply Nat.le_add_left_of_le
  refine Finset.sum_le_sum fun parent hparent => ?_
  exact Nat.le_mul_of_pos_left _ (hsound.positive parent (hall hparent))

/-- A node of an acyclic graph counts at least once in the trees. -/
theorem AcyclicOn.sum_own_le (hacyclic : AcyclicOn children nodes)
    (hbelow : Below children roots nodes) {own value : ν → ℕ}
    (hvalue : Unfolds children nodes own value) :
    ∑ node ∈ nodes, own node ≤ (roots.map value).sum := by
  rcases hacyclic.exists_complete hbelow with ⟨flow, hsound, hall⟩
  rw [← hsound.total_complete hbelow hall hvalue]
  exact Finset.sum_le_sum fun node hnode =>
    Nat.le_mul_of_pos_left _ (hsound.positive node (hall hnode))

end CheckPo
