import HookSplice.FlowGraph
import Mathlib.Tactic.ByContra

/-!
# Blocks of a flow graph

The blocks partition the positions of a body.  A leader is the start of its block, so whatever
gives rise to a leader stands at an end of a block: branch targets and region boundaries at its
start, transfers of control at its last position.
-/

namespace HookSplice.FlowGraph

variable {body : Body}

theorem leaders_pairwise (body : Body) : (leaders body).Pairwise (· < ·) :=
  List.pairwise_lt_range.filter _

theorem mem_leaders {l : Nat} :
    l ∈ leaders body ↔
      l < body.size ∧ (l = 0 ∨ l ∈ targets body ∨ l ∈ breaks body ∨ l ∈ bounds body) := by
  simp [leaders]

/-! ### Blocks between leaders -/

theorem blocksBetween_mem {size : Nat} {starts : List Nat} (sorted : starts.Pairwise (· < ·))
    (below : ∀ l ∈ starts, l < size) {b : Block} (member : b ∈ blocksBetween size starts) :
    b.start ∈ starts ∧ b.start < b.stop ∧ b.stop ≤ size ∧
      ∀ l ∈ starts, b.start < l → b.stop ≤ l := by
  fun_induction blocksBetween size starts with
  | case1 => simp at member
  | case2 start =>
      obtain rfl := List.mem_singleton.mp member
      have := below start (by simp)
      refine ⟨by simp, this, Nat.le_refl _, ?_⟩
      intro l memberL less
      obtain rfl := List.mem_singleton.mp memberL
      simp at less
  | case3 start next rest ih =>
      obtain ⟨first, sortedRest⟩ := List.pairwise_cons.mp sorted
      rcases List.mem_cons.mp member with rfl | member
      · refine ⟨by simp, first next (by simp), Nat.le_of_lt (below next (by simp)), ?_⟩
        intro l memberL less
        rcases List.mem_cons.mp memberL with rfl | memberL
        · simp at less
        rcases List.mem_cons.mp memberL with rfl | memberL
        · exact Nat.le_refl _
        · exact Nat.le_of_lt ((List.pairwise_cons.mp sortedRest).1 l memberL)
      · obtain ⟨starts, ordered, bounded, leads⟩ :=
          ih sortedRest (fun l h => below l (List.mem_cons_of_mem _ h)) member
        refine ⟨List.mem_cons_of_mem _ starts, ordered, bounded, ?_⟩
        intro l memberL less
        rcases List.mem_cons.mp memberL with rfl | memberL
        · have := first b.start starts
          omega
        · exact leads l memberL less

theorem blocksBetween_pairwise {size : Nat} {starts : List Nat}
    (sorted : starts.Pairwise (· < ·)) (below : ∀ l ∈ starts, l < size) :
    (blocksBetween size starts).Pairwise fun a b => a.stop ≤ b.start := by
  fun_induction blocksBetween size starts with
  | case1 => exact List.Pairwise.nil
  | case2 start => exact List.pairwise_singleton _ _
  | case3 start next rest ih =>
      obtain ⟨-, sortedRest⟩ := List.pairwise_cons.mp sorted
      have belowRest : ∀ l ∈ next :: rest, l < size :=
        fun l h => below l (List.mem_cons_of_mem _ h)
      refine List.pairwise_cons.mpr ⟨fun b member => ?_, ih sortedRest belowRest⟩
      have startMember := (blocksBetween_mem sortedRest belowRest member).1
      rcases List.mem_cons.mp startMember with equal | later
      · exact Nat.le_of_eq equal.symm
      · exact Nat.le_of_lt ((List.pairwise_cons.mp sortedRest).1 b.start later)

theorem blocksBetween_cover {size : Nat} {starts : List Nat} {l i : Nat} (member : l ∈ starts)
    (above : l ≤ i) (below : i < size) :
    ∃ b ∈ blocksBetween size starts, b.start ≤ i ∧ i < b.stop := by
  fun_induction blocksBetween size starts generalizing l with
  | case1 => simp at member
  | case2 start =>
      obtain rfl := List.mem_singleton.mp member
      exact ⟨_, List.mem_singleton.mpr rfl, above, below⟩
  | case3 start next rest ih =>
      by_cases reached : next ≤ i
      · obtain ⟨b, memberB, within⟩ := ih (l := next) (by simp) reached
        exact ⟨b, List.mem_cons_of_mem _ memberB, within⟩
      · rcases List.mem_cons.mp member with rfl | member
        · exact ⟨_, List.mem_cons_self .., above, by simpa using reached⟩
        · obtain ⟨b, memberB, within⟩ := ih (l := l) member above
          exact ⟨b, List.mem_cons_of_mem _ memberB, within⟩

/-! ### Blocks of a body -/

theorem mem_blocks {b : Block} (member : b ∈ (ofBody body).blocks) :
    b.start ∈ leaders body ∧ b.start < b.stop ∧ b.stop ≤ body.size ∧
      ∀ l ∈ leaders body, b.start < l → b.stop ≤ l :=
  blocksBetween_mem (leaders_pairwise body) (fun _ h => (mem_leaders.mp h).1) member

theorem blocks_pairwise (body : Body) :
    (ofBody body).blocks.Pairwise fun a b => a.stop ≤ b.start :=
  blocksBetween_pairwise (leaders_pairwise body) (fun _ h => (mem_leaders.mp h).1)

/-- The index of the block around a position. -/
theorem blockOf?_eq_some_iff {i k : Nat} :
    blockOf? (ofBody body).blocks i = some k ↔
      ∃ b, (ofBody body).blocks[k]? = some b ∧ b.start ≤ i ∧ i < b.stop := by
  unfold blockOf?
  rw [List.findIdx?_eq_some_iff_getElem]
  constructor
  · rintro ⟨lt, within, -⟩
    exact ⟨_, List.getElem?_eq_getElem lt, by simpa using within⟩
  · rintro ⟨b, found, within⟩
    obtain ⟨lt, rfl⟩ := List.getElem?_eq_some_iff.mp found
    refine ⟨lt, by simpa using within, ?_⟩
    intro j before
    have := List.pairwise_iff_getElem.mp (blocks_pairwise body) j k (by omega) lt before
    simp
    omega

theorem exists_block {i : Nat} (below : i < body.size) :
    ∃ k, blockOf? (ofBody body).blocks i = some k := by
  have first : 0 ∈ leaders body := mem_leaders.mpr ⟨by omega, Or.inl rfl⟩
  obtain ⟨b, member, within⟩ := blocksBetween_cover first (Nat.zero_le i) below
  obtain ⟨k, found⟩ := List.mem_iff_getElem?.mp member
  exact ⟨k, blockOf?_eq_some_iff.mpr ⟨b, found, within⟩⟩

/-- A leader is the start of its block. -/
theorem exists_block_of_leader {l : Nat} (leader : l ∈ leaders body) :
    ∃ k b, blockOf? (ofBody body).blocks l = some k ∧ (ofBody body).blocks[k]? = some b ∧
      b.start = l := by
  obtain ⟨k, found⟩ := exists_block (mem_leaders.mp leader).1
  obtain ⟨b, here, atLeast, below⟩ := blockOf?_eq_some_iff.mp found
  have bounded := (mem_blocks (List.mem_of_getElem? here)).2.2.2 l leader
  exact ⟨k, b, found, here, by omega⟩

/-- The first block starts at position 0. -/
theorem first_block (nonempty : 0 < body.size) :
    ∃ b, (ofBody body).blocks[0]? = some b ∧ b.start = 0 := by
  obtain ⟨k, found⟩ := exists_block nonempty
  obtain ⟨b, here, atLeast, below⟩ := blockOf?_eq_some_iff.mp found
  rcases Nat.eq_zero_or_pos k with rfl | positive
  · exact ⟨b, here, by omega⟩
  · -- a block in front of the one that contains 0 would end at 0 or before
    obtain ⟨ltK, rfl⟩ := List.getElem?_eq_some_iff.mp here
    have ltZero : 0 < (ofBody body).blocks.length := by omega
    have before := List.pairwise_iff_getElem.mp (blocks_pairwise body) 0 k ltZero ltK positive
    have ordered := (mem_blocks (List.getElem_mem ltZero)).2.1
    omega

/-- The block around the end of a block starts there. -/
theorem start_eq_stop {k t : Nat} {b next : Block} (here : (ofBody body).blocks[k]? = some b)
    (found : blockOf? (ofBody body).blocks b.stop = some t)
    (there : (ofBody body).blocks[t]? = some next) : next.start = b.stop := by
  obtain ⟨other, there', atLeast, below⟩ := blockOf?_eq_some_iff.mp found
  obtain rfl : next = other := Option.some.inj (there.symm.trans there')
  obtain ⟨ltK, rfl⟩ := List.getElem?_eq_some_iff.mp here
  obtain ⟨ltT, rfl⟩ := List.getElem?_eq_some_iff.mp there
  have ordered := List.pairwise_iff_getElem.mp (blocks_pairwise body)
  have nonempty := (mem_blocks (List.getElem_mem ltK)).2.1
  rcases Nat.lt_trichotomy k t with before | rfl | behind
  · have := ordered k t ltK ltT before
    omega
  · omega
  · have := ordered t k ltT ltK behind
    omega

/-- A block contains the positions of its leaders at its start only. -/
theorem eq_start_of_leader {b : Block} (member : b ∈ (ofBody body).blocks) {l : Nat}
    (leader : l ∈ leaders body) (atLeast : b.start ≤ l) (below : l < b.stop) : l = b.start := by
  have := (mem_blocks member).2.2.2 l leader
  omega

/-- Only the last instruction of a block transfers control. -/
theorem flow_eq_next {b : Block} (member : b ∈ (ofBody body).blocks) {i : Nat}
    (atLeast : b.start ≤ i) (inner : i + 1 < b.stop) {ins : Instruction}
    (here : body.code[i]? = some ins) : ins.opcode.flow = .next := by
  by_contra transfers
  have leader : i + 1 ∈ leaders body := by
    refine mem_leaders.mpr ⟨Nat.lt_of_lt_of_le inner (mem_blocks member).2.2.1, ?_⟩
    refine Or.inr (Or.inr (Or.inl ?_))
    unfold breaks
    refine List.mem_map.mpr ⟨(ins, i), ?_, rfl⟩
    simpa [List.mem_zipIdx_iff_getElem?, here] using transfers
  have := (mem_blocks member).2.2.2 _ leader (by omega)
  omega

theorem target_mem_leaders {i t : Nat} {ins : Instruction} (here : body.code[i]? = some ins)
    (target : body.targetOf? ins = some t) (below : t < body.size) : t ∈ leaders body := by
  refine mem_leaders.mpr ⟨below, Or.inr (Or.inl ?_)⟩
  exact List.mem_filterMap.mpr ⟨ins, List.mem_of_getElem? here, target⟩

theorem bound_mem_leaders {r : Region} (member : r ∈ body.regions) {l : Nat}
    (bound : l ∈ [r.tryStart, r.tryEnd, r.handlerStart, r.handlerEnd]) (below : l < body.size) :
    l ∈ leaders body :=
  mem_leaders.mpr ⟨below, Or.inr (Or.inr (Or.inr (List.mem_flatMap.mpr ⟨r, member, bound⟩)))⟩

/-- The range between two boundaries of a region holds a block wholly or not at all. -/
theorem between_start_iff {b : Block} (member : b ∈ (ofBody body).blocks) {r : Region}
    (memberR : r ∈ body.regions) {first last : Nat}
    (lower : first ∈ [r.tryStart, r.tryEnd, r.handlerStart, r.handlerEnd])
    (upper : last ∈ [r.tryStart, r.tryEnd, r.handlerStart, r.handlerEnd]) {i : Nat}
    (atLeast : b.start ≤ i) (below : i < b.stop) :
    first ≤ b.start ∧ b.start < last ↔ first ≤ i ∧ i < last := by
  have size := (mem_blocks member).2.2.1
  have begins := fun h : first < body.size =>
    (mem_blocks member).2.2.2 _ (bound_mem_leaders memberR lower h)
  have ends := fun h : last < body.size =>
    (mem_blocks member).2.2.2 _ (bound_mem_leaders memberR upper h)
  by_cases startInside : first < body.size <;> by_cases endInside : last < body.size
  all_goals simp only [startInside, endInside, forall_true_left] at begins ends
  all_goals omega

/-- A region protects a block wholly or not at all. -/
theorem protects_start_iff {b : Block} (member : b ∈ (ofBody body).blocks) {r : Region}
    (memberR : r ∈ body.regions) {i : Nat} (atLeast : b.start ≤ i) (below : i < b.stop) :
    r.protects b.start ↔ r.protects i := by
  simp only [Region.protects, Bool.and_eq_true, decide_eq_true_eq]
  exact between_start_iff member memberR (by simp) (by simp) atLeast below

/-- A region handles a block wholly or not at all. -/
theorem handles_start_iff {b : Block} (member : b ∈ (ofBody body).blocks) {r : Region}
    (memberR : r ∈ body.regions) {i : Nat} (atLeast : b.start ≤ i) (below : i < b.stop) :
    r.handles b.start ↔ r.handles i := by
  simp only [Region.handles, Bool.and_eq_true, decide_eq_true_eq]
  exact between_start_iff member memberR (by simp) (by simp) atLeast below

/-! ### Edges of a body -/

theorem mem_exitEdges {blocks : List Block} {k : Nat} {b : Block} {e : Edge} :
    e ∈ exitEdges body blocks k b ↔
      ∃ ins, body.code[b.stop - 1]? = some ins ∧ ∃ t,
        (e = ⟨k, t, .branch⟩ ∧ ins.opcode.flow ∈ [.condBranch, .branch, .leave] ∧
          (body.targetOf? ins).bind (blockOf? blocks) = some t) ∨
        (e = ⟨k, t, .fallthrough⟩ ∧ ins.opcode.fallsThrough ∧ blockOf? blocks b.stop = some t) := by
  unfold exitEdges Opcode.fallsThrough
  cases body.code[b.stop - 1]? with
  | none => simp
  | some ins =>
      simp only [Option.some.injEq, exists_eq_left']
      cases ins.opcode.flow <;>
        simp only [List.mem_append, Option.mem_toList, Option.map_eq_some_iff, List.mem_cons,
          List.not_mem_nil, reduceCtorEq, or_false, false_or, and_false, exists_false,
          Bool.false_eq_true, false_and, true_and, or_true, exists_or] <;>
        grind

theorem mem_handlerEdges {blocks : List Block} {k : Nat} {b : Block} {e : Edge} :
    e ∈ handlerEdges body blocks k b ↔
      ∃ i r t, body.regions[i]? = some r ∧ r.protects b.start ∧
        blockOf? blocks r.handlerStart = some t ∧ e = ⟨k, t, .handler i⟩ := by
  unfold handlerEdges
  rw [List.mem_filterMap]
  constructor
  · rintro ⟨⟨r, i⟩, member, found⟩
    simp only at found
    split at found
    · obtain ⟨t, block, rfl⟩ := Option.map_eq_some_iff.mp found
      exact ⟨i, r, t, List.mem_zipIdx_iff_getElem?.mp member, by assumption, block, rfl⟩
    · cases found
  · rintro ⟨i, r, t, here, protects, block, rfl⟩
    refine ⟨(r, i), List.mem_zipIdx_iff_getElem?.mpr here, ?_⟩
    simp [protects, block]

theorem source_eq {blocks : List Block} {k : Nat} {b : Block} {e : Edge}
    (member : e ∈ exitEdges body blocks k b ∨ e ∈ handlerEdges body blocks k b) : e.source = k := by
  rcases member with member | member
  · obtain ⟨-, -, t, ⟨rfl, -⟩ | ⟨rfl, -⟩⟩ := mem_exitEdges.mp member <;> rfl
  · obtain ⟨-, -, t, -, -, -, rfl⟩ := mem_handlerEdges.mp member
    rfl

/-- The edges out of a block are those of its last instruction and those to the handlers of the
    regions around it. -/
theorem mem_edgesFrom {e : Edge} {k : Nat} :
    e ∈ (ofBody body).edgesFrom k ↔
      ∃ b, (ofBody body).blocks[k]? = some b ∧
        (e ∈ exitEdges body (ofBody body).blocks k b ∨
          e ∈ handlerEdges body (ofBody body).blocks k b) := by
  unfold edgesFrom
  rw [List.mem_filter]
  simp only [beq_iff_eq]
  constructor
  · rintro ⟨member, rfl⟩
    obtain ⟨⟨b, j⟩, memberB, memberE⟩ := List.mem_flatMap.mp member
    rw [List.mem_append] at memberE
    have here := List.mem_zipIdx_iff_getElem?.mp memberB
    obtain rfl := source_eq memberE
    exact ⟨b, here, memberE⟩
  · rintro ⟨b, here, memberE⟩
    exact ⟨List.mem_flatMap.mpr ⟨(b, k), List.mem_zipIdx_iff_getElem?.mpr here,
      List.mem_append.mpr memberE⟩, source_eq memberE⟩

/-- An edge leads to a block. -/
theorem target_lt {e : Edge} {k : Nat} (member : e ∈ (ofBody body).edgesFrom k) :
    e.target < (ofBody body).blocks.length := by
  obtain ⟨b, -, exit | handler⟩ := mem_edgesFrom.mp member
  · obtain ⟨ins, -, t, ⟨rfl, -, found⟩ | ⟨rfl, -, found⟩⟩ := mem_exitEdges.mp exit
    · obtain ⟨_, -, found⟩ := Option.bind_eq_some_iff.mp found
      obtain ⟨_, here, -⟩ := blockOf?_eq_some_iff.mp found
      exact (List.getElem?_eq_some_iff.mp here).1
    · obtain ⟨_, here, -⟩ := blockOf?_eq_some_iff.mp found
      exact (List.getElem?_eq_some_iff.mp here).1
  · obtain ⟨_, _, t, -, -, found, rfl⟩ := mem_handlerEdges.mp handler
    obtain ⟨_, here, -⟩ := blockOf?_eq_some_iff.mp found
    exact (List.getElem?_eq_some_iff.mp here).1

end HookSplice.FlowGraph
