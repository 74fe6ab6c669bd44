import HookSplice.Proofs.Propagation

/-!
# Reachable positions

The search through a flow graph finds the blocks to which edges lead from the first one: its work
list runs empty before the fuel does, as every edge is put on it once at most.  On a body whose
structure is sound, the positions of these blocks are those that control may reach instruction by
instruction.
-/

namespace HookSplice

namespace FlowGraph

/-- The blocks to which edges lead from the first one. -/
inductive ReachesBlock (g : FlowGraph) : Nat → Prop
  | entry : ReachesBlock g 0
  | edge {k : Nat} {e : Edge} (reached : ReachesBlock g k) (member : e ∈ g.edgesFrom k) :
      ReachesBlock g e.target

/-! ### The search -/

section Search

variable {g : FlowGraph}

/-- The number of edges out of blocks that have not been seen. -/
def unseen (g : FlowGraph) (seen : List Nat) : Nat :=
  g.edges.countP fun e => !seen.contains e.source

/-- A block seen for the first time takes its edges from those that are left. -/
theorem unseen_cons (g : FlowGraph) {seen : List Nat} {k : Nat} (new : k ∉ seen) :
    unseen g (k :: seen) + (g.edgesFrom k).length = unseen g seen := by
  unfold unseen edgesFrom
  induction g.edges with
  | nil => rfl
  | cons e rest ih =>
      rw [List.countP_cons, List.countP_cons, List.filter_cons]
      by_cases source : e.source = k
      · subst source
        simp [new]
        simp at ih
        omega
      · simp [source]
        simp at ih
        omega

/-- What the search keeps: it has met only blocks that are reached, and whatever an edge leads to
    from a block it has seen is seen or waits. -/
structure Searched (g : FlowGraph) (work seen : List Nat) : Prop where
  reached : ∀ k, k ∈ work ∨ k ∈ seen → g.ReachesBlock k
  closed : ∀ k ∈ seen, ∀ e ∈ g.edgesFrom k, e.target ∈ seen ∨ e.target ∈ work

theorem Searched.skip {k : Nat} {work seen : List Nat} (searched : Searched g (k :: work) seen)
    (old : k ∈ seen) : Searched g work seen where
  reached := fun j member => searched.reached j (member.imp_left (List.mem_cons_of_mem k))
  closed := by
    intro j memberJ e edge
    rcases searched.closed j memberJ e edge with seen | waiting
    · exact Or.inl seen
    · rcases List.mem_cons.mp waiting with same | waiting
      · exact Or.inl (same ▸ old)
      · exact Or.inr waiting

theorem Searched.visit {k : Nat} {work seen : List Nat} (searched : Searched g (k :: work) seen) :
    Searched g ((g.edgesFrom k).map Edge.target ++ work) (k :: seen) where
  reached := by
    intro j member
    have here : g.ReachesBlock k := searched.reached k (Or.inl (List.mem_cons_self ..))
    rcases member with waiting | seen
    · rcases List.mem_append.mp waiting with next | waiting
      · obtain ⟨e, edge, rfl⟩ := List.mem_map.mp next
        exact here.edge edge
      · exact searched.reached j (Or.inl (List.mem_cons_of_mem k waiting))
    · rcases List.mem_cons.mp seen with rfl | seen
      · exact here
      · exact searched.reached j (Or.inr seen)
  closed := by
    intro j memberJ e edge
    rcases List.mem_cons.mp memberJ with rfl | old
    · exact Or.inr (List.mem_append_left _ (List.mem_map_of_mem edge))
    · rcases searched.closed j old e edge with seen | waiting
      · exact Or.inl (List.mem_cons_of_mem _ seen)
      · rcases List.mem_cons.mp waiting with same | waiting
        · exact Or.inl (same ▸ List.mem_cons_self ..)
        · exact Or.inr (List.mem_append_right _ waiting)

/-- The search ends with an empty work list, and keeps what it has met. -/
theorem reach_searched {fuel : Nat} {work seen : List Nat} (searched : Searched g work seen)
    (enough : work.length + unseen g seen ≤ fuel) :
    Searched g [] (reach g fuel work seen) ∧
      ∀ k, k ∈ work ∨ k ∈ seen → k ∈ reach g fuel work seen := by
  fun_induction reach g fuel work seen with
  | case1 work seen =>
      obtain rfl : work = [] := List.eq_nil_of_length_eq_zero (by omega)
      exact ⟨searched, fun k member => member.resolve_left List.not_mem_nil⟩
  | case2 fuel seen =>
      exact ⟨searched, fun k member => member.resolve_left List.not_mem_nil⟩
  | case3 fuel k work seen old ih =>
      have old : k ∈ seen := by simpa using old
      simp only [List.length_cons] at enough
      obtain ⟨ended, kept⟩ := ih (searched.skip old) (by omega)
      refine ⟨ended, fun j member => kept j ?_⟩
      rcases member with waiting | seen
      · rcases List.mem_cons.mp waiting with rfl | waiting
        · exact Or.inr old
        · exact Or.inl waiting
      · exact Or.inr seen
  | case4 fuel k work seen new ih =>
      have fewer := unseen_cons g (show k ∉ seen by simpa using new)
      simp only [List.length_cons] at enough
      obtain ⟨ended, kept⟩ := ih searched.visit (by simp; omega)
      refine ⟨ended, fun j member => kept j ?_⟩
      rcases member with waiting | seen
      · rcases List.mem_cons.mp waiting with rfl | waiting
        · exact Or.inr (List.mem_cons_self ..)
        · exact Or.inl (List.mem_append_right _ waiting)
      · exact Or.inr (List.mem_cons_of_mem k seen)

theorem mem_reachableBlocks {k : Nat} (nonempty : g.blocks ≠ []) :
    k ∈ g.reachableBlocks ↔ g.ReachesBlock k := by
  have start : Searched g [0] [] := by
    refine ⟨fun j member => ?_, by simp⟩
    obtain rfl : j = 0 := by simpa using member
    exact .entry
  have enough : [0].length + unseen g [] ≤ g.edges.length + 1 := by
    have := List.countP_le_length (p := fun e : Edge => !([] : List Nat).contains e.source)
      (l := g.edges)
    simp only [unseen, List.length_singleton]
    omega
  obtain ⟨ended, kept⟩ := reach_searched start enough
  unfold reachableBlocks
  rw [if_neg (by simpa using nonempty)]
  constructor
  · intro member
    exact ended.reached k (Or.inr member)
  · intro reached
    induction reached with
    | entry => exact kept 0 (Or.inl (List.mem_singleton_self 0))
    | edge _ member ih => exact (ended.closed _ ih _ member).resolve_right List.not_mem_nil

end Search

/-! ### Positions of reachable blocks -/

variable {body : Body} {symbols : SymbolTable} {argCount : Nat}

theorem mem_reachable {g : FlowGraph} {i : Nat} :
    i ∈ g.reachable ↔ ∃ k b, g.blocks[k]? = some b ∧ k ∈ g.reachableBlocks ∧
      b.start ≤ i ∧ i < b.stop := by
  unfold reachable
  simp only [List.mem_flatMap]
  constructor
  · rintro ⟨⟨b, k⟩, member, inside⟩
    have here := List.mem_zipIdx_iff_getElem?.mp member
    split at inside
    · next seen =>
        simp only [List.mem_range'_1] at inside
        exact ⟨k, b, here, by simpa using seen, by omega⟩
    · cases inside
  · rintro ⟨k, b, here, seen, within⟩
    refine ⟨(b, k), List.mem_zipIdx_iff_getElem?.mpr here, ?_⟩
    simp only
    rw [if_pos (by simpa using seen), List.mem_range'_1]
    omega

/-- Control that reaches the start of a block reaches all its positions. -/
theorem reaches_of_start {b : Block} (member : b ∈ (ofBody body).blocks)
    (start : body.Reaches b.start) {n : Nat} (below : b.start + n < b.stop) :
    body.Reaches (b.start + n) := by
  have size := (mem_blocks member).2.2.1
  induction n with
  | zero => exact start
  | succ n ih =>
      have inside : b.start + n < body.code.length := by
        unfold Body.size at size
        omega
      have here := List.getElem?_eq_getElem inside
      have next := flow_eq_next member (Nat.le_add_right ..) (by omega) here
      have falls : body.code[b.start + n].opcode.fallsThrough := by
        simp [Opcode.fallsThrough, next]
      have passes : body.Passes (b.start + n) body.code[b.start + n] 0 (b.start + n + 1) 0 :=
        .onward falls
      exact (ih (by omega)).pass here passes

/-- An edge leads from a block that control reaches to the start of a block that it reaches. -/
theorem reaches_along {k : Nat} {b : Block} {e : Edge}
    (structured : body.Structured symbols argCount)
    (here : (ofBody body).blocks[k]? = some b) (start : body.Reaches b.start)
    (edge : e ∈ (ofBody body).edgesFrom k) :
    ∃ b', (ofBody body).blocks[e.target]? = some b' ∧ body.Reaches b'.start := by
  have member := List.mem_of_getElem? here
  obtain ⟨-, ordered, size, -⟩ := mem_blocks member
  have last : body.Reaches (b.stop - 1) := by
    have reached := reaches_of_start member start (n := b.stop - 1 - b.start) (by omega)
    rwa [show b.start + (b.stop - 1 - b.start) = b.stop - 1 by omega] at reached
  obtain ⟨b', here', exit | handler⟩ := mem_edgesFrom.mp edge
  all_goals obtain rfl : b = b' := Option.some.inj (here.symm.trans here')
  · obtain ⟨ins, there, t, ⟨rfl, -, found⟩ | ⟨rfl, falls, found⟩⟩ := mem_exitEdges.mp exit
    · obtain ⟨target, position, block⟩ := Option.bind_eq_some_iff.mp found
      obtain ⟨next, atTarget, atLeast, below⟩ := blockOf?_eq_some_iff.mp block
      obtain ⟨l, -, resolved⟩ := Option.bind_eq_some_iff.mp position
      have leader := target_mem_leaders there position (Code.position?_lt resolved)
      have begins := eq_start_of_leader (List.mem_of_getElem? atTarget) leader atLeast below
      have passes : body.Passes (b.stop - 1) ins 0 target (if ins.opcode = .leave then 0 else 0) :=
        .branch position
      exact ⟨next, atTarget, begins ▸ last.pass there passes⟩
    · obtain ⟨next, behind, -⟩ := blockOf?_eq_some_iff.mp found
      have passes : body.Passes (b.stop - 1) ins 0 (b.stop - 1 + 1) 0 := .onward falls
      have reached := last.pass there passes
      rw [show b.stop - 1 + 1 = b.stop by omega] at reached
      exact ⟨next, behind, start_eq_stop here found behind ▸ reached⟩
  · obtain ⟨n, r, t, region, protects, found, rfl⟩ := mem_handlerEdges.mp handler
    obtain ⟨next, there, atLeast, below⟩ := blockOf?_eq_some_iff.mp found
    have memberR := List.mem_of_getElem? region
    have bounds := structured.regions r memberR
    simp only [StackMap.inBounds, Bool.and_eq_true, decide_eq_true_eq] at bounds
    have leader := bound_mem_leaders memberR (l := r.handlerStart) (by simp) (by omega)
    have begins := eq_start_of_leader (List.mem_of_getElem? there) leader atLeast below
    have first : b.start < body.code.length := by
      unfold Body.size at size
      omega
    have passes : body.Passes b.start body.code[b.start] 0 r.handlerStart r.entryDepth :=
      .handler memberR protects
    exact ⟨next, there, begins ▸ start.pass (List.getElem?_eq_getElem first) passes⟩

theorem ReachesBlock.reaches {k : Nat} (structured : body.Structured symbols argCount)
    (nonempty : 0 < body.size) (reached : (ofBody body).ReachesBlock k) :
    ∃ b, (ofBody body).blocks[k]? = some b ∧ body.Reaches b.start := by
  induction reached with
  | entry =>
      obtain ⟨b, here, start⟩ := first_block nonempty
      exact ⟨b, here, start ▸ .entry⟩
  | edge _ member ih =>
      obtain ⟨b, here, start⟩ := ih
      exact reaches_along structured here start member

/-- The block around a position that control reaches is reached along edges. -/
theorem reachesBlock_of_reaches {i : Nat} (structured : body.Structured symbols argCount)
    (reached : body.Reaches i) (below : i < body.size) :
    ∃ k b, (ofBody body).blocks[k]? = some b ∧ b.start ≤ i ∧ i < b.stop ∧
      (ofBody body).ReachesBlock k := by
  induction reached with
  | entry =>
      obtain ⟨b, here, start⟩ := first_block below
      have ordered := (mem_blocks (List.mem_of_getElem? here)).2.1
      exact ⟨0, b, here, by omega, by omega, .entry⟩
  | @pass i j after depth ins _ there passes ih =>
      have inside : i < body.size := (List.getElem?_eq_some_iff.mp there).1
      obtain ⟨k, b, here, atLeast, before, along⟩ := ih inside
      have member := List.mem_of_getElem? here
      obtain ⟨t, found⟩ := exists_block below
      obtain ⟨next, around, within⟩ := blockOf?_eq_some_iff.mp found
      have arrives (kind : EdgeKind) (edge : (⟨k, t, kind⟩ : Edge) ∈ (ofBody body).edgesFrom k) :
          ∃ k b, (ofBody body).blocks[k]? = some b ∧ b.start ≤ j ∧ j < b.stop ∧
            (ofBody body).ReachesBlock k :=
        ⟨t, next, around, within.1, within.2, along.edge edge⟩
      cases passes with
      | onward falls =>
          by_cases inner : i + 1 < b.stop
          · exact ⟨k, b, here, by omega, inner, along⟩
          · have stop : b.stop = i + 1 := by omega
            refine arrives .fallthrough (mem_edgesFrom.mpr ⟨b, here, Or.inl ?_⟩)
            refine mem_exitEdges.mpr ⟨ins, by rw [stop]; exact there, t, Or.inr ⟨rfl, falls, ?_⟩⟩
            rw [stop]
            exact found
      | branch target =>
          have fits := (StackMap.operandFault?_eq_none_iff.mp (structured.operands there)).1
          have transfers := StackMap.branches_of_target target fits
          have stop : b.stop = i + 1 := by
            by_contra inner
            have := flow_eq_next member atLeast (by omega) there
            simp [this] at transfers
          refine arrives .branch (mem_edgesFrom.mpr ⟨b, here, Or.inl ?_⟩)
          refine mem_exitEdges.mpr ⟨ins, by rw [stop]; exact there, t,
            Or.inl ⟨rfl, transfers, ?_⟩⟩
          rw [target]
          exact found
      | @handler r memberR protects =>
          obtain ⟨n, region⟩ := List.mem_iff_getElem?.mp memberR
          have around := (protects_start_iff member memberR atLeast before).mpr protects
          refine arrives (.handler n) (mem_edgesFrom.mpr ⟨b, here, Or.inr ?_⟩)
          exact mem_handlerEdges.mpr ⟨n, r, t, region, around, found, rfl⟩

/-- The positions that the graph gives are those inside the body that control may reach. -/
theorem mem_reachable_iff {i : Nat} (structured : body.Structured symbols argCount)
    (nonempty : 0 < body.size) :
    i ∈ (ofBody body).reachable ↔ body.Reaches i ∧ i < body.size := by
  have blocks : (ofBody body).blocks ≠ [] := by
    obtain ⟨b, here, -⟩ := first_block nonempty
    exact List.ne_nil_of_mem (List.mem_of_getElem? here)
  rw [mem_reachable]
  constructor
  · rintro ⟨k, b, here, seen, atLeast, below⟩
    obtain ⟨b', here', start⟩ :=
      ((mem_reachableBlocks blocks).mp seen).reaches structured nonempty
    obtain rfl : b = b' := Option.some.inj (here.symm.trans here')
    have member := List.mem_of_getElem? here
    have reached := reaches_of_start member start (n := i - b.start) (by omega)
    rw [show b.start + (i - b.start) = i by omega] at reached
    exact ⟨reached, Nat.lt_of_lt_of_le below (mem_blocks member).2.2.1⟩
  · rintro ⟨reached, below⟩
    obtain ⟨k, b, here, atLeast, before, along⟩ := reachesBlock_of_reaches structured reached below
    exact ⟨k, b, here, (mem_reachableBlocks blocks).mpr along, atLeast, before⟩

end FlowGraph

end HookSplice
