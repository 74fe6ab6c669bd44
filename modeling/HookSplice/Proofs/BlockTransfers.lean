import HookSplice.Proofs.Blocks
import Mathlib.Data.List.Nodup

/-!
# What a flow graph says about its body

The blocks of a flow graph cut the positions of the body into straight runs: control enters a block
at its first position only and leaves it behind its last one, and no region begins or ends inside.
Seen through the block around each position, the edges are exactly the ways in which control may
pass on, but for those that stay inside of a block.
-/

namespace HookSplice

/-- Control may pass from position `i` to another one: to the next instruction, to a label, or, by
    an exception, to the handler of the region with an index. -/
inductive Body.Transfers (body : Body) (i : Nat) : Nat → EdgeKind → Prop
  | onward {ins : Instruction} (here : body.code[i]? = some ins)
      (falls : ins.opcode.fallsThrough) (inside : i + 1 < body.size) :
      Transfers body i (i + 1) .fallthrough
  | branch {ins : Instruction} {t : Nat} (here : body.code[i]? = some ins)
      (branches : ins.opcode.flow ∈ [.condBranch, .branch, .leave])
      (target : body.targetOf? ins = some t) : Transfers body i t .branch
  | handler {n : Nat} {r : Region} (region : body.regions[n]? = some r) (protects : r.protects i)
      (inside : r.handlerStart < body.size) : Transfers body i r.handlerStart (.handler n)

/-- The positions of a block. -/
def Block.positions (b : Block) : List Nat :=
  List.range' b.start (b.stop - b.start)

theorem Block.mem_positions {b : Block} {i : Nat} : i ∈ b.positions ↔ b.start ≤ i ∧ i < b.stop := by
  rw [positions, List.mem_range'_1]
  omega

/-- The boundaries of a region. -/
def Region.bounds (r : Region) : List Nat :=
  [r.tryStart, r.tryEnd, r.handlerStart, r.handlerEnd]

namespace FlowGraph

/-- What the blocks and the edges of a graph have to be for it to be the flow graph of a body. -/
structure Describes (g : FlowGraph) (body : Body) : Prop where
  /-- The blocks hold the positions of the body, each once and in order. -/
  partition : g.blocks.flatMap Block.positions = List.range body.size
  nonempty : ∀ b ∈ g.blocks, b.start < b.stop
  blockOf : ∀ i < body.size, ∃ k b, blockOf? g.blocks i = some k ∧ g.blocks[k]? = some b ∧
    i ∈ b.positions
  /-- Control leaves a block behind its last instruction only. -/
  straight : ∀ b ∈ g.blocks, ∀ i ins, b.start ≤ i → i + 1 < b.stop → body.code[i]? = some ins →
    ins.opcode.flow = .next
  /-- Branches lead to the first position of a block, and regions begin and end there. -/
  entered : ∀ b ∈ g.blocks, ∀ i, b.start < i → i < b.stop →
    (∀ ins ∈ body.code, body.targetOf? ins ≠ some i) ∧ ∀ r ∈ body.regions, i ∉ r.bounds
  /-- A region protects and handles a block wholly or not at all. -/
  whole : ∀ b ∈ g.blocks, ∀ r ∈ body.regions, ∀ i ∈ b.positions,
    (r.protects i ↔ r.protects b.start) ∧ (r.handles i ↔ r.handles b.start)
  /-- The edges are the ways for control to pass from block to block, and from a block to itself
      unless it just goes on. -/
  edges : ∀ e, e ∈ g.edges ↔
    (∃ i j, body.Transfers i j e.kind ∧ blockOf? g.blocks i = some e.source ∧
      blockOf? g.blocks j = some e.target) ∧ (e.kind = .fallthrough → e.source ≠ e.target)
  once : g.edges.Nodup

variable {body : Body}

/-! ### Positions -/

theorem positions_blocksBetween {size start : Nat} {rest : List Nat}
    (sorted : (start :: rest).Pairwise (· < ·)) (below : ∀ l ∈ start :: rest, l < size) :
    (blocksBetween size (start :: rest)).flatMap Block.positions =
      List.range' start (size - start) := by
  induction rest generalizing start with
  | nil => simp [blocksBetween, Block.positions]
  | cons next rest ih =>
      obtain ⟨first, sortedRest⟩ := List.pairwise_cons.mp sorted
      have ahead : start < next := first next (List.mem_cons_self ..)
      have inside : next < size := below next (.tail _ (List.mem_cons_self ..))
      rw [blocksBetween, List.flatMap_cons, ih sortedRest fun l member => below l (.tail _ member)]
      show List.range' start (next - start) ++ List.range' next (size - next) = _
      have joined := List.range'_append_1 (s := start) (m := next - start) (n := size - next)
      rwa [show start + (next - start) = next by omega,
        show next - start + (size - next) = size - start by omega] at joined

theorem positions_blocks (body : Body) :
    (ofBody body).blocks.flatMap Block.positions = List.range body.size := by
  show (blocksBetween body.size (leaders body)).flatMap Block.positions = _
  have sorted := leaders_pairwise body
  have below : ∀ l ∈ leaders body, l < body.size := fun l member => (mem_leaders.mp member).1
  cases shape : leaders body with
  | nil =>
      -- position 0 of a body with instructions is a leader
      have empty : ¬ 0 < body.size := fun nonempty => by
        have : 0 ∈ leaders body := mem_leaders.mpr ⟨nonempty, Or.inl rfl⟩
        rw [shape] at this
        cases this
      rw [show body.size = 0 by omega]
      rfl
  | cons start rest =>
      rw [shape] at sorted below
      have first : 0 ∈ leaders body := mem_leaders.mpr
        ⟨Nat.zero_lt_of_lt (below start (List.mem_cons_self ..)), Or.inl rfl⟩
      have zero : start = 0 := by
        rw [shape] at first
        rcases List.mem_cons.mp first with same | later
        · exact same.symm
        · exact absurd ((List.pairwise_cons.mp sorted).1 0 later) (Nat.not_lt_zero _)
      rw [positions_blocksBetween sorted below, zero, List.range_eq_range', Nat.sub_zero]

/-! ### Edges -/

theorem mem_edges {e : Edge} : e ∈ (ofBody body).edges ↔ e ∈ (ofBody body).edgesFrom e.source := by
  simp [edgesFrom]

/-- The last position of a block lies in it. -/
theorem blockOf?_last {k : Nat} {b : Block} (here : (ofBody body).blocks[k]? = some b) :
    blockOf? (ofBody body).blocks (b.stop - 1) = some k := by
  have ordered := (mem_blocks (List.mem_of_getElem? here)).2.1
  exact blockOf?_eq_some_iff.mpr ⟨b, here, by omega, by omega⟩

theorem lt_size_of_blockOf? {i k : Nat} (found : blockOf? (ofBody body).blocks i = some k) :
    i < body.size := by
  obtain ⟨b, here, -, below⟩ := blockOf?_eq_some_iff.mp found
  exact Nat.lt_of_lt_of_le below (mem_blocks (List.mem_of_getElem? here)).2.2.1

/-- An edge shows a way in which control passes on. -/
theorem transfers_of_mem_edges {e : Edge} (member : e ∈ (ofBody body).edges) :
    (∃ i j, body.Transfers i j e.kind ∧ blockOf? (ofBody body).blocks i = some e.source ∧
      blockOf? (ofBody body).blocks j = some e.target) ∧
      (e.kind = .fallthrough → e.source ≠ e.target) := by
  obtain ⟨k, t, kind⟩ := e
  obtain ⟨b, here, exit | handler⟩ := mem_edgesFrom.mp (mem_edges.mp member)
  · obtain ⟨-, ordered, -⟩ := mem_blocks (List.mem_of_getElem? here)
    obtain ⟨ins, there, t', ⟨same, branches, found⟩ | ⟨same, falls, found⟩⟩ := mem_exitEdges.mp exit
    · cases same
      obtain ⟨j, target, around⟩ := Option.bind_eq_some_iff.mp found
      exact ⟨⟨_, j, .branch there branches target, blockOf?_last here, around⟩, nofun⟩
    · cases same
      have behind : b.stop - 1 + 1 = b.stop := by omega
      refine ⟨⟨b.stop - 1, b.stop - 1 + 1, .onward there falls ?_, blockOf?_last here, ?_⟩, ?_⟩
      · rw [behind]
        exact lt_size_of_blockOf? found
      · rwa [behind]
      · rintro - (rfl : k = t)
        obtain ⟨b', here', -, below⟩ := blockOf?_eq_some_iff.mp found
        obtain rfl := Option.some.inj (here.symm.trans here')
        exact Nat.lt_irrefl _ below
  · obtain ⟨n, r, t', region, protects, found, same⟩ := mem_handlerEdges.mp handler
    cases same
    have ordered := (mem_blocks (List.mem_of_getElem? here)).2.1
    have around := blockOf?_eq_some_iff.mpr ⟨b, here, Nat.le_refl _, ordered⟩
    exact ⟨⟨b.start, _, .handler region protects (lt_size_of_blockOf? found), around, found⟩, nofun⟩

/-- Control that passes on does so along an edge, unless it just goes on inside of a block. -/
theorem mem_edges_of_transfers {i j k t : Nat} {kind : EdgeKind}
    (transfers : body.Transfers i j kind)
    (source : blockOf? (ofBody body).blocks i = some k)
    (target : blockOf? (ofBody body).blocks j = some t) (leaves : kind = .fallthrough → k ≠ t) :
    ⟨k, t, kind⟩ ∈ (ofBody body).edges := by
  obtain ⟨b, here, atLeast, below⟩ := blockOf?_eq_some_iff.mp source
  have member := List.mem_of_getElem? here
  refine mem_edges.mpr (mem_edgesFrom.mpr ⟨b, here, ?_⟩)
  cases transfers with
  | @onward ins there falls inside =>
      have stop : b.stop = i + 1 := by
        by_contra inner
        have around := blockOf?_eq_some_iff.mpr ⟨b, here, Nat.le_succ_of_le atLeast, by omega⟩
        exact leaves rfl (Option.some.inj (around.symm.trans target))
      refine Or.inl (mem_exitEdges.mpr ⟨ins, by rw [stop]; exact there, t, Or.inr ⟨rfl, falls, ?_⟩⟩)
      rw [stop]
      exact target
  | @branch ins _ there branches resolved =>
      have stop : b.stop = i + 1 := by
        by_contra inner
        have := flow_eq_next member atLeast (by omega) there
        simp [this] at branches
      refine Or.inl (mem_exitEdges.mpr ⟨ins, by rw [stop]; exact there, t,
        Or.inl ⟨rfl, branches, ?_⟩⟩)
      rw [resolved]
      exact target
  | @handler n r region protects inside =>
      have around := (protects_start_iff member (List.mem_of_getElem? region) atLeast below).mpr
        protects
      exact Or.inr (mem_handlerEdges.mpr ⟨n, r, t, region, around, target, rfl⟩)

theorem nodup_exitEdges (blocks : List Block) (k : Nat) (b : Block) :
    (exitEdges body blocks k b).Nodup := by
  unfold exitEdges
  cases body.code[b.stop - 1]? with
  | none => exact List.nodup_nil
  | some ins =>
      dsimp only
      generalize (body.targetOf? ins).bind (blockOf? blocks) = target
      generalize blockOf? blocks b.stop = next
      cases ins.opcode.flow <;> cases target <;> cases next <;> simp

/-- A numbered list holds each number once. -/
theorem pairwise_zipIdx {α : Type} (xs : List α) : xs.zipIdx.Pairwise fun p q => p.2 ≠ q.2 := by
  have numbers : (xs.zipIdx.map Prod.snd).Nodup := by
    rw [List.zipIdx_map_snd]
    exact List.nodup_range'
  exact List.pairwise_map.mp numbers

theorem nodup_handlerEdges (blocks : List Block) (k : Nat) (b : Block) :
    (handlerEdges body blocks k b).Nodup := by
  have handlerOf {p : Region × Nat} {e : Edge} (found : (if p.1.protects b.start then
      (blockOf? blocks p.1.handlerStart).map fun t => ⟨k, t, .handler p.2⟩ else none) = some e) :
      e.kind = .handler p.2 := by
    split at found
    · obtain ⟨t, -, rfl⟩ := Option.map_eq_some_iff.mp found
      rfl
    · cases found
  refine (pairwise_zipIdx body.regions).filterMap _ fun p q differs e found e' found' same => ?_
  subst same
  exact differs (EdgeKind.handler.inj ((handlerOf found).symm.trans (handlerOf found')))

theorem nodup_edges (body : Body) : (ofBody body).edges.Nodup := by
  refine List.nodup_flatMap.mpr ⟨fun p _ => ?_, ?_⟩
  · refine (nodup_exitEdges _ p.2 p.1).append (nodup_handlerEdges _ p.2 p.1)
      fun e exit handler => ?_
    obtain ⟨n, r, t, -, -, -, rfl⟩ := mem_handlerEdges.mp handler
    obtain ⟨-, -, t', ⟨same, -⟩ | ⟨same, -⟩⟩ := mem_exitEdges.mp exit <;> cases same
  · refine (pairwise_zipIdx _).imp fun differs e member member' => differs ?_
    exact (source_eq (List.mem_append.mp member)).symm.trans
      (source_eq (List.mem_append.mp member'))

/-- The graph of a body describes it. -/
theorem ofBody_describes (body : Body) : (ofBody body).Describes body where
  partition := positions_blocks body
  nonempty := fun b member => (mem_blocks member).2.1
  blockOf := fun i below => by
    obtain ⟨k, found⟩ := exists_block below
    obtain ⟨b, here, within⟩ := blockOf?_eq_some_iff.mp found
    exact ⟨k, b, found, here, Block.mem_positions.mpr within⟩
  straight := fun b member i ins atLeast inner here => flow_eq_next member atLeast inner here
  entered := fun b member i behind below => by
    have inner : i ∉ leaders body := fun leader =>
      Nat.ne_of_gt behind (eq_start_of_leader member leader (Nat.le_of_lt behind) below)
    have inside : i < body.size := Nat.lt_of_lt_of_le below (mem_blocks member).2.2.1
    refine ⟨fun ins memberC target => inner ?_, fun r memberR bound => inner ?_⟩
    · obtain ⟨n, there⟩ := List.getElem?_of_mem memberC
      exact target_mem_leaders there target inside
    · exact bound_mem_leaders memberR bound inside
  whole := fun b member r memberR i position => by
    obtain ⟨atLeast, below⟩ := Block.mem_positions.mp position
    exact ⟨(protects_start_iff member memberR atLeast below).symm,
      (handles_start_iff member memberR atLeast below).symm⟩
  edges := fun e => ⟨transfers_of_mem_edges, fun ⟨⟨i, j, transfers, source, target⟩, leaves⟩ =>
    mem_edges_of_transfers transfers source target leaves⟩
  once := nodup_edges body

example :
    ofBody (.ofParts ⟨0⟩ [.of .ldarg (.arg 0), .of .brtrue (.label ⟨0⟩), .plain .ret, .plain .pop,
      ⟨.ret, .none, [⟨0⟩]⟩] [] [⟨.catching ⟨0⟩, 0, 3, 3, 5⟩]) =
    ⟨[⟨0, 2⟩, ⟨2, 3⟩, ⟨3, 4⟩, ⟨4, 5⟩], [⟨0, 3, .branch⟩, ⟨0, 1, .fallthrough⟩, ⟨0, 2, .handler 0⟩,
      ⟨1, 2, .handler 0⟩, ⟨2, 3, .fallthrough⟩]⟩ := by
  decide

end FlowGraph

end HookSplice
