import HookSplice.Proofs.Blocks
import HookSplice.Proofs.DepthMap
import HookSplice.Proofs.Sorting
import Mathlib.Data.List.Perm.Subperm

/-!
# Propagation of depths

The verifier's worklist.  Once it is empty, every block that has an entry has been run through from
the depth of that entry, and all its edges lead to blocks with the depth they carry.  So the stack
map of a body is a depth map; and on a body that has any depth map at all, nothing but the limit can
stop the propagation, and what it notes are depths of that map.
-/

namespace HookSplice.StackMap

variable {symbols : SymbolTable} {enclosing : MethodDef} {limit : Nat} {body : Body}

/-! ### Passing a depth on -/

/-- What following edges does to the entries and the work list. -/
structure PassedOn (body : Body) (final : Nat) (edges : List Edge)
    (entries entries' : List (Nat × Nat)) (work work' : List Nat) : Prop where
  kept : ∀ {t k : Nat}, entries.lookup t = some k → entries'.lookup t = some k
  reached : ∀ e ∈ edges, entries'.lookup e.target = some (incoming body final e)
  queued : work ⊆ work'
  fresh : ∀ {t k : Nat}, entries'.lookup t = some k → entries.lookup t = some k ∨ t ∈ work'
  balance : work'.length + entries.length = work.length + entries'.length
  keys : ∀ t ∈ entries'.map Prod.fst, t ∈ entries.map Prod.fst ∨ t ∈ edges.map Edge.target
  distinct : (entries.map Prod.fst).Nodup → (entries'.map Prod.fst).Nodup

namespace PassedOn

variable {final : Nat} {e : Edge} {rest : List Edge} {entries entries' : List (Nat × Nat)}
  {work work' : List Nat}

theorem nil : PassedOn body final [] entries entries work work where
  kept := id
  reached := by simp
  queued := List.Subset.refl _
  fresh := Or.inl
  balance := rfl
  keys := fun _ => Or.inl
  distinct := id

/-- An edge to a block that has the depth already. -/
theorem known (found : entries.lookup e.target = some (incoming body final e))
    (later : PassedOn body final rest entries entries' work work') :
    PassedOn body final (e :: rest) entries entries' work work' where
  kept := later.kept
  reached := List.forall_mem_cons.mpr ⟨later.kept found, later.reached⟩
  queued := later.queued
  fresh := later.fresh
  balance := later.balance
  keys := fun t member => (later.keys t member).imp_right (List.mem_cons_of_mem _)
  distinct := later.distinct

/-- An edge to a block that has no depth yet: the block is entered and waits. -/
theorem entered (new : entries.lookup e.target = none)
    (later : PassedOn body final rest ((e.target, incoming body final e) :: entries) entries'
      (work ++ [e.target]) work') :
    PassedOn body final (e :: rest) entries entries' work work' := by
  have added := fun t => lookup_cons_eq e.target t (incoming body final e) entries
  refine {
    kept := fun {t k} found => later.kept ?_
    reached := List.forall_mem_cons.mpr ⟨later.kept (by simp [added]), later.reached⟩
    queued := fun t member => later.queued (List.mem_append_left _ member)
    fresh := fun {t k} found => ?_
    balance := by
      have := later.balance
      simp only [List.length_append, List.length_cons, List.length_nil] at this
      omega
    keys := fun t member => ?_
    distinct := fun nodup => later.distinct (List.nodup_cons.mpr ⟨not_mem_keys new, nodup⟩) }
  · rw [added, if_neg, found]
    rintro rfl
    rw [new] at found
    cases found
  · rcases later.fresh found with old | queued
    · rw [added] at old
      split at old
      · next equal => exact Or.inr (equal ▸ later.queued (by simp))
      · exact Or.inl old
    · exact Or.inr queued
  · rcases later.keys t member with old | target
    · rcases List.mem_cons.mp old with rfl | old
      · exact Or.inr (by simp)
      · exact Or.inl old
    · exact Or.inr (List.mem_cons_of_mem _ target)

end PassedOn

theorem passOn_eq_ok {g : FlowGraph} {final : Nat} {edges : List Edge}
    {entries entries' : List (Nat × Nat)} {work work' : List Nat}
    (success : passOn body g final edges entries work = .ok (entries', work')) :
    PassedOn body final edges entries entries' work work' := by
  fun_induction passOn body g final edges entries work with
  | case1 entries work =>
      cases success
      exact .nil
  | case2 e rest entries work _ found ih => exact .known found (ih success)
  | case3 => cases success
  | case4 e rest entries work depth new ih => exact .entered new (ih success)

/-- The depths on entry to blocks are those of a map. -/
def EntriesAgree (body : Body) (d : Nat → Option Nat) (entries : List (Nat × Nat)) : Prop :=
  ∀ {t k : Nat} {b : Block}, entries.lookup t = some k →
    (FlowGraph.ofBody body).blocks[t]? = some b → d b.start = some k

/-- Edges that carry the depths of a map to their targets meet no other depth there. -/
theorem passOn_agrees {d : Nat → Option Nat} {final : Nat} {edges : List Edge}
    {entries : List (Nat × Nat)} {work : List Nat} {fits : Prop}
    (agree : EntriesAgree body d entries)
    (carried : ∀ e ∈ edges, ∃ b, (FlowGraph.ofBody body).blocks[e.target]? = some b ∧
      d b.start = some (incoming body final e)) :
    Overflows fits (fun p => EntriesAgree body d p.1)
      (passOn body (FlowGraph.ofBody body) final edges entries work) := by
  fun_induction passOn body (FlowGraph.ofBody body) final edges entries work with
  | case1 => exact agree
  | case2 e rest entries work _ found ih =>
      exact ih agree fun e' member => carried e' (List.mem_cons_of_mem _ member)
  | case3 e rest entries work depth expected found differs =>
      obtain ⟨b, here, arrives⟩ := carried e (List.mem_cons_self ..)
      have := agree found here
      rw [arrives] at this
      exact absurd (Option.some.inj this).symm differs
  | case4 e rest entries work depth new ih =>
      refine ih (fun {t k b} found here => ?_) fun e' member =>
        carried e' (List.mem_cons_of_mem _ member)
      rw [List.lookup_cons] at found
      split at found
      · next equal =>
          obtain ⟨b', there, arrives⟩ := carried e (List.mem_cons_self ..)
          obtain rfl : t = e.target := by simpa using equal
          obtain rfl : b = b' := Option.some.inj (here.symm.trans there)
          exact arrives.trans found
      · exact agree found here

theorem mem_followed {g : FlowGraph} {k : Nat} {e : Edge} :
    e ∈ followed g k ↔ e ∈ g.edgesFrom k := by
  unfold followed
  rw [Order.mem_sortBy, List.mem_reverse]

/-! ### Settled blocks -/

/-- The block `b` with index `k` has been run through from the depth of its entry: what that gave is
    noted, and its edges have been followed. -/
structure Settled (symbols : SymbolTable) (enclosing : MethodDef) (limit : Nat) (body : Body)
    (p : Progress) (k depth : Nat) (b : Block) (run : BlockRun) : Prop where
  block : (FlowGraph.ofBody body).blocks[k]? = some b
  entry : p.entries.lookup k = some depth
  ran : runBlock symbols enclosing limit
    ((body.code.zipIdx.drop b.start).take (b.stop - b.start)) depth = .ok run
  closed : openEnd? body b = none
  edges : ∀ e ∈ (FlowGraph.ofBody body).edgesFrom k,
    p.entries.lookup e.target = some (incoming body run.final e)
  noted : ∀ {i d : Nat}, run.depths.lookup i = some d → p.depths.lookup i = some d

/-- Every block with an entry waits in the work list or is settled, and all depths come from
    settled blocks. -/
structure Carried (symbols : SymbolTable) (enclosing : MethodDef) (limit : Nat) (body : Body)
    (p : Progress) (work : List Nat) : Prop where
  start : p.entries.lookup 0 = some 0
  distinct : (p.entries.map Prod.fst).Nodup
  inside : ∀ k ∈ p.entries.map Prod.fst, k < (FlowGraph.ofBody body).blocks.length
  settled : ∀ {k depth : Nat}, p.entries.lookup k = some depth →
    k ∈ work ∨ ∃ b run, Settled symbols enclosing limit body p k depth b run
  origin : ∀ {i d : Nat}, p.depths.lookup i = some d → ∃ k depth b run,
    Settled symbols enclosing limit body p k depth b run ∧ run.depths.lookup i = some d

theorem straight_of_mem_blocks {b : Block} (member : b ∈ (FlowGraph.ofBody body).blocks) :
    Straight body b.start (b.stop - b.start) := by
  obtain ⟨-, ordered, bounded, -⟩ := FlowGraph.mem_blocks member
  refine ⟨by omega, fun i ins above below here => ?_⟩
  exact FlowGraph.flow_eq_next member above (by omega) here

theorem Settled.chain {p : Progress} {k depth : Nat} {b : Block} {run : BlockRun}
    (settled : Settled symbols enclosing limit body p k depth b run) :
    Chain symbols enclosing limit body b.start (b.stop - b.start) depth run :=
  runBlock_chain (straight_of_mem_blocks (List.mem_of_getElem? settled.block)) settled.ran

/-- A position that a settled block notes lies in that block. -/
theorem Settled.blockOf {p : Progress} {k depth i d : Nat} {b : Block} {run : BlockRun}
    (settled : Settled symbols enclosing limit body p k depth b run)
    (found : run.depths.lookup i = some d) :
    FlowGraph.blockOf? (FlowGraph.ofBody body).blocks i = some k := by
  have within := settled.chain.inside found
  exact FlowGraph.blockOf?_eq_some_iff.mpr ⟨b, settled.block, within.1, by omega⟩

/-- A block that was settled stays settled when another one is: that one notes other positions,
    unless it is this very block. -/
theorem Settled.keep {p : Progress} {index depth k depth' peak : Nat} {b b' : Block}
    {run run' : BlockRun} {entries' : List (Nat × Nat)}
    (old : Settled symbols enclosing limit body p k depth' b' run')
    (kept : ∀ {k d : Nat}, p.entries.lookup k = some d → entries'.lookup k = some d)
    (entry : p.entries.lookup index = some depth)
    (here : Settled symbols enclosing limit body
      ⟨entries', run.depths ++ p.depths, peak⟩ index depth
      b run) :
    Settled symbols enclosing limit body ⟨entries', run.depths ++ p.depths, peak⟩ k depth' b'
      run' where
  block := old.block
  entry := kept old.entry
  ran := old.ran
  closed := old.closed
  edges := fun e member => kept (old.edges e member)
  noted := fun {i d} found => by
    rw [List.lookup_append]
    cases again : run.depths.lookup i with
    | none => exact old.noted found
    | some d' =>
        obtain rfl : k = index :=
          Option.some.inj ((old.blockOf found).symm.trans (here.blockOf again))
        obtain rfl : b' = b := Option.some.inj (old.block.symm.trans here.block)
        obtain rfl : depth' = depth := Option.some.inj (old.entry.symm.trans entry)
        obtain rfl : run' = run := Except.ok.inj (old.ran.symm.trans here.ran)
        exact again.symm.trans found

/-- Running through the next block of the work list keeps the invariant. -/
theorem Carried.step {p : Progress} {index depth : Nat} {work work' : List Nat} {b : Block}
    {run : BlockRun} {entries' : List (Nat × Nat)} {peak : Nat}
    (carried : Carried symbols enclosing limit body p (index :: work))
    (block : (FlowGraph.ofBody body).blocks[index]? = some b)
    (entry : p.entries.lookup index = some depth)
    (ran : runBlock symbols enclosing limit
      ((body.code.zipIdx.drop b.start).take (b.stop - b.start)) depth = .ok run)
    (closed : openEnd? body b = none)
    (passed : PassedOn body run.final (followed (FlowGraph.ofBody body) index) p.entries entries'
      work work') :
    Carried symbols enclosing limit body ⟨entries', run.depths ++ p.depths, peak⟩ work' := by
  have here : Settled symbols enclosing limit body ⟨entries', run.depths ++ p.depths, peak⟩ index
      depth b run := {
    block := block
    entry := passed.kept entry
    ran := ran
    closed := closed
    edges := fun e member => passed.reached e (mem_followed.mpr member)
    noted := fun found => by rw [List.lookup_append, found]; rfl }
  refine {
    start := passed.kept carried.start
    distinct := passed.distinct carried.distinct
    inside := fun k member => ?_
    settled := fun {k d} found => ?_
    origin := fun {i d} found => ?_ }
  · rcases passed.keys k member with old | target
    · exact carried.inside k old
    · obtain ⟨e, edge, rfl⟩ := List.mem_map.mp target
      exact FlowGraph.target_lt (mem_followed.mp edge)
  · rcases passed.fresh found with old | queued
    · rcases carried.settled old with waiting | ⟨b', run', settled⟩
      · rcases List.mem_cons.mp waiting with rfl | waiting
        · obtain rfl : depth = d := Option.some.inj (entry.symm.trans old)
          exact Or.inr ⟨b, run, here⟩
        · exact Or.inl (passed.queued waiting)
      · exact Or.inr ⟨b', run', settled.keep passed.kept entry here⟩
    · exact Or.inl queued
  · simp only [List.lookup_append, Option.or_eq_some_iff] at found
    rcases found with new | ⟨-, old⟩
    · exact ⟨index, depth, b, run, here, new⟩
    · obtain ⟨k, depth', b', run', settled, there⟩ := carried.origin old
      exact ⟨k, depth', b', run', settled.keep passed.kept entry here, there⟩

/-- Dropping an index without an entry from the work list keeps the invariant. -/
theorem Carried.skip {p : Progress} {index : Nat} {work : List Nat}
    (carried : Carried symbols enclosing limit body p (index :: work))
    (absent : p.entries.lookup index = none) : Carried symbols enclosing limit body p work := by
  refine { carried with settled := fun {k depth} found => ?_ }
  rcases carried.settled found with waiting | settled
  · rcases List.mem_cons.mp waiting with rfl | waiting
    · rw [absent] at found
      cases found
    · exact Or.inl waiting
  · exact Or.inr settled

theorem Carried.length_le {p : Progress} {work : List Nat}
    (carried : Carried symbols enclosing limit body p work) :
    p.entries.length ≤ (FlowGraph.ofBody body).blocks.length := by
  have within : p.entries.map Prod.fst ⊆ List.range (FlowGraph.ofBody body).blocks.length :=
    fun k member => List.mem_range.mpr (carried.inside k member)
  simpa using (List.subperm_of_subset carried.distinct within).length_le

/-- The invariant holds of what is known when the work list is empty.  The fuel lasts until then,
    as a block joins the list only with its first entry. -/
theorem propagate_eq_ok {fuel : Nat} {work : List Nat} {p p' : Progress}
    (carried : Carried symbols enclosing limit body p work)
    (enough : work.length + (FlowGraph.ofBody body).blocks.length ≤ fuel + p.entries.length)
    (success : propagate symbols enclosing limit body (FlowGraph.ofBody body) fuel work p =
      .ok p') : Carried symbols enclosing limit body p' [] := by
  induction fuel generalizing work p with
  | zero =>
      have := carried.length_le
      obtain rfl : work = [] := List.eq_nil_of_length_eq_zero (by omega)
      cases success
      exact carried
  | succ fuel ih =>
      cases work with
      | nil =>
          cases success
          exact carried
      | cons index work =>
          simp only [List.length_cons] at enough
          unfold propagate at success
          split at success
          · next b depth block entry =>
              obtain ⟨run, ran, success⟩ := Except.bind_eq_ok success
              cases closed : openEnd? body b with
              | some v =>
                  rw [closed] at success
                  cases success
              | none =>
                  rw [closed] at success
                  obtain ⟨⟨entries, later⟩, passed, success⟩ := Except.bind_eq_ok success
                  have passed := passOn_eq_ok passed
                  have balance := passed.balance
                  exact ih (carried.step block entry ran closed passed) (by simp; omega) success
          · next missing =>
              refine ih (carried.skip ?_) (by omega) success
              cases entry : p.entries.lookup index with
              | none => rfl
              | some depth =>
                  have key : index ∈ p.entries.map Prod.fst := mem_keys entry
                  exact absurd entry (missing _ depth (List.getElem?_eq_getElem
                    (carried.inside index key)))

/-! ### The stack map is a depth map -/

/-- Only an instruction with a label operand has a target. -/
theorem operandKind_of_target {ins : Instruction} {t : Nat} (target : body.targetOf? ins = some t)
    (fits : ins.operandFits) : ins.opcode.operandKind = .label := by
  obtain ⟨l, named, -⟩ := Option.bind_eq_some_iff.mp target
  rw [eq_of_beq fits]
  unfold Instruction.target? at named
  split at named
  · next operand => rw [operand, Operand.kind]
  · cases named

theorem emptiesStack_eq {ins : Instruction} {t : Nat} (target : body.targetOf? ins = some t)
    (fits : ins.operandFits) : emptiesStack ins = (ins.opcode == .leave) := by
  have kind := operandKind_of_target target fits
  unfold emptiesStack
  revert kind
  cases ins.opcode <;> decide

theorem emptiesStack_of_fallsThrough {ins : Instruction} (falls : ins.opcode.fallsThrough) :
    emptiesStack ins = false := by
  unfold emptiesStack
  unfold Opcode.fallsThrough at falls
  cases flow : ins.opcode.flow <;> simp [flow] at falls ⊢

theorem branches_of_target {ins : Instruction} {t : Nat} (target : body.targetOf? ins = some t)
    (fits : ins.operandFits) : ins.opcode.flow ∈ [.condBranch, .branch, .leave] := by
  have kind := operandKind_of_target target fits
  revert kind
  cases ins.opcode <;> decide

namespace Carried

variable {p : Progress}

/-- The depth of an entry is noted at the start of its block. -/
theorem arrives (carried : Carried symbols enclosing limit body p []) {t k : Nat} {b : Block}
    (entry : p.entries.lookup t = some k)
    (here : (FlowGraph.ofBody body).blocks[t]? = some b) :
    p.depths.lookup b.start = some k := by
  rcases carried.settled entry with waiting | ⟨b', run, settled⟩
  · cases waiting
  · obtain rfl : b = b' := Option.some.inj (here.symm.trans settled.block)
    have ordered := (FlowGraph.mem_blocks (List.mem_of_getElem? here)).2.1
    exact settled.noted (settled.chain.first (by omega))

/-- The depth that a settled block carries along an edge is noted at the start of the target. -/
theorem carries (carried : Carried symbols enclosing limit body p []) {k depth : Nat} {b : Block}
    {run : BlockRun} (settled : Settled symbols enclosing limit body p k depth b run) {e : Edge}
    (edge : e ∈ (FlowGraph.ofBody body).edgesFrom k) {t : Block}
    (there : (FlowGraph.ofBody body).blocks[e.target]? = some t) :
    p.depths.lookup t.start = some (incoming body run.final e) :=
  carried.arrives (settled.edges e edge) there

section Passes

variable (carried : Carried symbols enclosing limit body p []) {k depth i n after : Nat} {b : Block}
  {run : BlockRun} (settled : Settled symbols enclosing limit body p k depth b run)
  (noted : run.depths.lookup i = some n) {ins : Instruction} (here : body.code[i]? = some ins)
  (last : i + 1 = b.stop → run.final = if emptiesStack ins then 0 else after)
include carried settled

include here last in
/-- Behind the last instruction of a block the next block starts. -/
theorem onward (falls : ins.opcode.fallsThrough) (stop : b.stop = i + 1) :
    p.depths.lookup (i + 1) = some after := by
  have bounded := (FlowGraph.mem_blocks (List.mem_of_getElem? settled.block)).2.2.1
  have within : b.stop < body.size := by
    have closed := settled.closed
    rw [openEnd?, stop, Nat.add_sub_cancel, here] at closed
    simp [falls] at closed
    omega
  obtain ⟨t, block⟩ := FlowGraph.exists_block within
  obtain ⟨next, there, -⟩ := FlowGraph.blockOf?_eq_some_iff.mp block
  have edge : ⟨k, t, .fallthrough⟩ ∈ (FlowGraph.ofBody body).edgesFrom k :=
    FlowGraph.mem_edgesFrom.mpr ⟨b, settled.block, Or.inl (FlowGraph.mem_exitEdges.mpr
      ⟨ins, by rw [stop]; exact here, t, Or.inr ⟨rfl, falls, block⟩⟩)⟩
  have carries := carried.carries settled edge there
  rw [FlowGraph.start_eq_stop settled.block block there, stop] at carries
  rw [carries, incoming, last stop.symm, emptiesStack_of_fallsThrough falls]
  rfl

include noted here last in
/-- Only the last instruction of a block branches, and a block starts at its target. -/
theorem branch (fits : ins.operandFits) {t : Nat} (target : body.targetOf? ins = some t) :
    p.depths.lookup t = some (if ins.opcode = .leave then 0 else after) := by
  have member := List.mem_of_getElem? settled.block
  obtain ⟨atLeast, below⟩ := settled.chain.inside noted
  have transfers := branches_of_target target fits
  have stop : b.stop = i + 1 := by
    by_contra inner
    have := FlowGraph.flow_eq_next member atLeast (by omega) here
    simp [this] at transfers
  obtain ⟨l, -, position⟩ := Option.bind_eq_some_iff.mp target
  have leader := FlowGraph.target_mem_leaders here target (Code.position?_lt position)
  obtain ⟨t', next, block, there, start⟩ := FlowGraph.exists_block_of_leader leader
  have edge : ⟨k, t', .branch⟩ ∈ (FlowGraph.ofBody body).edgesFrom k :=
    FlowGraph.mem_edgesFrom.mpr ⟨b, settled.block, Or.inl (FlowGraph.mem_exitEdges.mpr
      ⟨ins, by rw [stop]; exact here, t', Or.inl ⟨rfl, transfers, by rw [target]; exact block⟩⟩)⟩
  have carries := carried.carries settled edge there
  rw [start] at carries
  rw [carries, incoming, last stop.symm, emptiesStack_eq target fits]
  simp

include noted in
/-- A region around a position is one around the whole block, and its handler starts a block. -/
theorem handler (inside : ∀ r ∈ body.regions, inBounds body.size r) {r : Region}
    (memberR : r ∈ body.regions) (protects : r.protects i) :
    p.depths.lookup r.handlerStart = some r.entryDepth := by
  have member := List.mem_of_getElem? settled.block
  obtain ⟨atLeast, below⟩ := settled.chain.inside noted
  have bounds := inside r memberR
  simp only [inBounds, Bool.and_eq_true, decide_eq_true_eq] at bounds
  have leader := FlowGraph.bound_mem_leaders memberR (l := r.handlerStart) (by simp) (by omega)
  obtain ⟨t, next, block, there, start⟩ := FlowGraph.exists_block_of_leader leader
  obtain ⟨j, region⟩ := List.mem_iff_getElem?.mp memberR
  have around := (FlowGraph.protects_start_iff member memberR atLeast (by omega)).mpr protects
  have edge : ⟨k, t, .handler j⟩ ∈ (FlowGraph.ofBody body).edgesFrom k :=
    FlowGraph.mem_edgesFrom.mpr ⟨b, settled.block, Or.inr (FlowGraph.mem_handlerEdges.mpr
      ⟨j, r, t, region, around, block, rfl⟩)⟩
  have carries := carried.carries settled edge there
  rw [start] at carries
  simp [carries, incoming, region]

end Passes

theorem depthMap (carried : Carried symbols enclosing limit body p [])
    {argCount : Nat} (structured : body.Structured symbols argCount) (nonempty : 0 < body.size) :
    body.DepthMap symbols enclosing fun i => p.depths.lookup i where
  entry := by
    obtain ⟨b, here, start⟩ := FlowGraph.first_block nonempty
    have first := carried.arrives carried.start here
    rwa [start] at first
  step := by
    intro i n found
    obtain ⟨k, depth, b, run, settled, noted⟩ := carried.origin found
    have ordered := (FlowGraph.mem_blocks (List.mem_of_getElem? settled.block)).2.1
    obtain ⟨atLeast, below⟩ := settled.chain.inside noted
    obtain ⟨ins, after, here, step, inner, last⟩ := settled.chain.next noted
    obtain ⟨effect, suits, rfl, -⟩ := depthAfter_eq_ok.mp step
    have fits := (operandFault?_eq_none_iff.mp (structured.operands here)).1
    refine ⟨ins, effect, here, suits, ?_⟩
    intro j n' passes
    cases passes with
    | onward falls =>
        by_cases within : i + 1 < b.start + (b.stop - b.start)
        · exact settled.noted (inner within)
        · exact carried.onward settled here (fun stop => last (by omega)) falls (by omega)
    | branch target =>
        exact carried.branch settled noted here (fun stop => last (by omega)) fits target
    | handler member protects =>
        exact carried.handler settled noted structured.regions member protects

end Carried

theorem Carried.lookup_lt {p : Progress} (carried : Carried symbols enclosing limit body p [])
    {i d : Nat} (found : p.depths.lookup i = some d) : i < body.size := by
  obtain ⟨k, depth, b, run, settled, noted⟩ := carried.origin found
  have within := settled.chain.inside noted
  have := (FlowGraph.mem_blocks (List.mem_of_getElem? settled.block)).2.2.1
  omega

theorem Carried.depthsBelow {p : Progress}
    (carried : Carried symbols enclosing limit body p []) :
    body.DepthsBelow symbols enclosing (fun i => p.depths.lookup i) limit := by
  intro i k ins effect found here effect_eq
  obtain ⟨index, depth, b, run, settled, noted⟩ := carried.origin found
  obtain ⟨ins', after, here', step, -, -⟩ := settled.chain.next noted
  obtain ⟨effect', suits, rfl, within⟩ := depthAfter_eq_ok.mp step
  obtain rfl : ins = ins' := Option.some.inj (here.symm.trans here')
  obtain rfl : effect = effect' := Except.ok.inj (effect_eq.symm.trans suits.effect_eq)
  exact within

/-- The invariant before the first block. -/
theorem Carried.initial (nonempty : 0 < body.size) :
    Carried symbols enclosing limit body ⟨[(0, 0)], [], 0⟩ [0] where
  start := rfl
  distinct := by simp
  inside := by
    obtain ⟨b, here, -⟩ := FlowGraph.first_block nonempty
    simpa using (List.getElem?_eq_some_iff.mp here).1
  settled := fun {k depth} found => by
    rw [lookup_cons_eq] at found
    split at found
    · next first => exact Or.inl (by simp [first])
    · cases found
  origin := fun found => by cases found

theorem depthAt?_ofProgress {p : Progress} {i : Nat} :
    (ofProgress body p).depthAt? i = if i < body.size then p.depths.lookup i else none := by
  unfold depthAt? ofProgress
  by_cases below : i < body.size
  · simp [below]
  · simp [below]

/-- What a successful analysis has checked. -/
structure Verified (symbols : SymbolTable) (enclosing : MethodDef) (limit : Nat) (body : Body)
    (m : StackMap) : Prop where
  nonempty : 0 < body.size
  structured : body.Structured symbols enclosing.argCount
  map : body.DepthMap symbols enclosing m.depthAt?
  below : body.DepthsBelow symbols enclosing m.depthAt? limit

/-- A successful analysis finds the structure sound and gives what propagation ends with. -/
theorem analyze_propagates {m : StackMap} (success : analyze symbols body limit = .ok m) :
    ∃ enclosing p, symbols.method? body.method = some enclosing ∧ 0 < body.size ∧
      body.Structured symbols enclosing.argCount ∧
      propagate symbols enclosing limit body (FlowGraph.ofBody body)
        (FlowGraph.ofBody body).blocks.length [0] ⟨[(0, 0)], [], 0⟩ = .ok p ∧
      m = ofProgress body p := by
  unfold analyze at success
  split at success
  · cases success
  · next nonempty =>
      split at success
      · cases success
      · next enclosing signature =>
          split at success
          · cases success
          · next sound =>
              obtain ⟨p, propagated, success⟩ := Except.bind_eq_ok success
              cases success
              refine ⟨enclosing, p, signature, ?_, structuralFault?_eq_none_iff.mp sound,
                propagated, rfl⟩
              simpa [Body.size, List.length_pos_iff] using nonempty

theorem Carried.depthAt?_eq {p : Progress} (carried : Carried symbols enclosing limit body p []) :
    (ofProgress body p).depthAt? = fun i => p.depths.lookup i := by
  funext i
  rw [depthAt?_ofProgress]
  split
  · rfl
  · next beyond =>
      cases found : p.depths.lookup i with
      | none => rfl
      | some d => exact absurd (carried.lookup_lt found) beyond

theorem carried_of_propagate (nonempty : 0 < body.size) {p : Progress}
    (propagated : propagate symbols enclosing limit body (FlowGraph.ofBody body)
      (FlowGraph.ofBody body).blocks.length [0] ⟨[(0, 0)], [], 0⟩ = .ok p) :
    Carried symbols enclosing limit body p [] :=
  propagate_eq_ok (Carried.initial nonempty) (by simp; omega) propagated

/-- A stack map is a depth map of a body whose structure is sound. -/
theorem analyze_eq_ok {m : StackMap} (success : analyze symbols body limit = .ok m) :
    ∃ enclosing, symbols.method? body.method = some enclosing ∧
      Verified symbols enclosing limit body m := by
  obtain ⟨enclosing, p, signature, nonempty, structured, propagated, rfl⟩ :=
    analyze_propagates success
  have carried := carried_of_propagate nonempty propagated
  refine ⟨enclosing, signature, nonempty, structured, ?_, ?_⟩
  · exact carried.depthAt?_eq ▸ carried.depthMap structured nonempty
  · exact carried.depthAt?_eq ▸ carried.depthsBelow

/-! ### Propagation where a depth map is known -/

section Known

variable {d : Nat → Option Nat} {argCount : Nat}

section Edges

variable (map : body.DepthMap symbols enclosing d) {k depth : Nat} {b : Block} {run : BlockRun}
  (block : (FlowGraph.ofBody body).blocks[k]? = some b)
  (chain : Chain symbols enclosing limit body b.start (b.stop - b.start) depth run)
  (agrees : ∀ i k, run.depths.lookup i = some k → d i = some k)
include map block chain agrees

/-- What stands on the stack behind a block is what the map has where its last instruction leads. -/
theorem last_passes {ins : Instruction} (here : body.code[b.stop - 1]? = some ins) :
    ∃ after, run.final = (if emptiesStack ins then 0 else after) ∧
      ∀ j n, body.Passes (b.stop - 1) ins after j n → d j = some n := by
  have ordered := (FlowGraph.mem_blocks (List.mem_of_getElem? block)).2.1
  obtain ⟨before, noted⟩ := chain.total (b.stop - 1) (by omega) (by omega)
  obtain ⟨ins', after, here', step, -, last⟩ := chain.next noted
  obtain rfl : ins = ins' := Option.some.inj (here.symm.trans here')
  obtain ⟨effect, suits, rfl, -⟩ := depthAfter_eq_ok.mp step
  obtain ⟨ins', effect', here', suits', passes⟩ := map.step (agrees _ _ noted)
  obtain rfl : ins = ins' := Option.some.inj (here.symm.trans here')
  obtain rfl : effect = effect' := Except.ok.inj (suits.effect_eq.symm.trans suits'.effect_eq)
  exact ⟨_, last (by omega), passes⟩

theorem exit_agrees (structured : body.Structured symbols argCount) {e : Edge}
    (exit : e ∈ FlowGraph.exitEdges body (FlowGraph.ofBody body).blocks k b) :
    ∃ t, (FlowGraph.ofBody body).blocks[e.target]? = some t ∧
      d t.start = some (incoming body run.final e) := by
  have ordered := (FlowGraph.mem_blocks (List.mem_of_getElem? block)).2.1
  obtain ⟨ins, here, t, ⟨rfl, -, found⟩ | ⟨rfl, falls, found⟩⟩ := FlowGraph.mem_exitEdges.mp exit
  all_goals obtain ⟨after, last, passes⟩ := last_passes map block chain agrees here
  · obtain ⟨target, position, found⟩ := Option.bind_eq_some_iff.mp found
    obtain ⟨next, there, atLeast, below⟩ := FlowGraph.blockOf?_eq_some_iff.mp found
    obtain ⟨l, -, resolved⟩ := Option.bind_eq_some_iff.mp position
    have leader := FlowGraph.target_mem_leaders here position (Code.position?_lt resolved)
    have start := FlowGraph.eq_start_of_leader (List.mem_of_getElem? there) leader atLeast below
    have fits := (operandFault?_eq_none_iff.mp (structured.operands here)).1
    refine ⟨next, there, ?_⟩
    rw [← start, incoming, last, emptiesStack_eq position fits]
    simpa using passes _ _ (.branch position)
  · obtain ⟨next, there, -⟩ := FlowGraph.blockOf?_eq_some_iff.mp found
    refine ⟨next, there, ?_⟩
    rw [FlowGraph.start_eq_stop block found there, incoming, last,
      emptiesStack_of_fallsThrough falls]
    simpa [show b.stop - 1 + 1 = b.stop by omega] using passes _ _ (.onward falls)

theorem handler_agrees (inside : ∀ r ∈ body.regions, inBounds body.size r) {e : Edge}
    (handler : e ∈ FlowGraph.handlerEdges body (FlowGraph.ofBody body).blocks k b) :
    ∃ t, (FlowGraph.ofBody body).blocks[e.target]? = some t ∧
      d t.start = some (incoming body run.final e) := by
  have ordered := (FlowGraph.mem_blocks (List.mem_of_getElem? block)).2.1
  obtain ⟨n, r, t, region, protects, found, rfl⟩ := FlowGraph.mem_handlerEdges.mp handler
  obtain ⟨next, there, atLeast, below⟩ := FlowGraph.blockOf?_eq_some_iff.mp found
  have memberR := List.mem_of_getElem? region
  have bounds := inside r memberR
  simp only [inBounds, Bool.and_eq_true, decide_eq_true_eq] at bounds
  have leader := FlowGraph.bound_mem_leaders memberR (l := r.handlerStart) (by simp) (by omega)
  have start := FlowGraph.eq_start_of_leader (List.mem_of_getElem? there) leader atLeast below
  obtain ⟨ins, effect, -, -, passes⟩ := map.step (agrees _ _ (chain.first (by omega)))
  refine ⟨next, there, ?_⟩
  rw [← start]
  simpa [incoming, region] using passes _ _ (.handler memberR protects)

/-- Along an edge the depth of the map at its target is carried. -/
theorem edge_agrees (structured : body.Structured symbols argCount) {e : Edge}
    (edge : e ∈ (FlowGraph.ofBody body).edgesFrom k) :
    ∃ t, (FlowGraph.ofBody body).blocks[e.target]? = some t ∧
      d t.start = some (incoming body run.final e) := by
  obtain ⟨b', block', out⟩ := FlowGraph.mem_edgesFrom.mp edge
  obtain rfl : b = b' := Option.some.inj (block.symm.trans block')
  rcases out with exit | handler
  · exact exit_agrees map block chain agrees structured exit
  · exact handler_agrees map block chain agrees structured.regions handler

end Edges

/-- A block through which a depth map leads does not end the body openly. -/
theorem openEnd?_eq_none (map : body.DepthMap symbols enclosing d) {k depth : Nat} {b : Block}
    {run : BlockRun} (block : (FlowGraph.ofBody body).blocks[k]? = some b)
    (chain : Chain symbols enclosing limit body b.start (b.stop - b.start) depth run)
    (agrees : ∀ i k, run.depths.lookup i = some k → d i = some k) : openEnd? body b = none := by
  obtain ⟨-, ordered, bounded, -⟩ := FlowGraph.mem_blocks (List.mem_of_getElem? block)
  obtain ⟨after, noted⟩ := chain.total (b.stop - 1) (by omega) (by omega)
  obtain ⟨ins, effect, here, -, passes⟩ := map.step (agrees _ _ noted)
  unfold openEnd?
  rw [here]
  by_cases falls : ins.opcode.fallsThrough
  · obtain ⟨_, _, there, -⟩ := map.step (passes _ _ (.onward falls))
    have := (List.getElem?_eq_some_iff.mp there).1
    have : b.stop ≠ body.size := by
      unfold Body.size
      omega
    simp [this]
  · simp [falls]

theorem propagate_overflows (map : body.DepthMap symbols enclosing d)
    (structured : body.Structured symbols argCount) {fits : Prop}
    (below : fits → body.DepthsBelow symbols enclosing d limit) {fuel : Nat} {work : List Nat}
    {p : Progress} (entries : EntriesAgree body d p.entries)
    (noted : ∀ i k, p.depths.lookup i = some k → d i = some k) :
    Overflows fits (fun p' => ∀ i k, p'.depths.lookup i = some k → d i = some k)
      (propagate symbols enclosing limit body (FlowGraph.ofBody body) fuel work p) := by
  fun_induction propagate symbols enclosing limit body (FlowGraph.ofBody body) fuel work p with
  | case1 => exact noted
  | case2 => exact noted
  | case3 fuel index work p b depth entry block positions ih =>
      have straight := straight_of_mem_blocks (List.mem_of_getElem? block)
      refine (runBlock_overflows map below straight fun _ => entries entry block).bind ?_
      intro run ran agrees
      have chain := runBlock_chain straight ran
      simp only [openEnd?_eq_none map block chain agrees]
      refine (passOn_agrees entries fun e member =>
        edge_agrees map block chain agrees structured (mem_followed.mp member)).bind ?_
      rintro ⟨entries', work'⟩ - agree
      refine ih run entries' work' agree fun i k found => ?_
      simp only [List.lookup_append, Option.or_eq_some_iff] at found
      rcases found with new | ⟨-, old⟩
      · exact agrees i k new
      · exact noted i k old
  | case4 fuel index work p missing ih => exact ih entries noted

theorem EntriesAgree.start (nonempty : 0 < body.size) (entry : d 0 = some 0) :
    EntriesAgree body d [(0, 0)] := by
  intro t k b found here
  rw [lookup_cons_eq] at found
  split at found
  · next first =>
      cases found
      obtain ⟨b', there, start⟩ := FlowGraph.first_block nonempty
      obtain rfl : b = b' := Option.some.inj (here.symm.trans (first ▸ there))
      exact start ▸ entry
  · cases found

/-- On a body with a depth map the analysis fails at most by overflow, and every depth it gives is
    one of the map. -/
theorem analyze_overflows (limit : Nat) (fits : Prop) (nonempty : 0 < body.size)
    (signature : symbols.method? body.method = some enclosing)
    (structured : body.Structured symbols enclosing.argCount)
    (map : body.DepthMap symbols enclosing d)
    (below : fits → body.DepthsBelow symbols enclosing d limit) :
    Overflows fits (fun m => ∀ i k, m.depthAt? i = some k → d i = some k)
      (analyze symbols body limit) := by
  have notEmpty : body.code.isEmpty = false := by
    rw [Body.size, List.length_pos_iff] at nonempty
    simpa using nonempty
  unfold analyze
  rw [notEmpty, signature]
  simp only [Bool.false_eq_true, if_false, structuralFault?_eq_none_iff.mpr structured]
  refine (propagate_overflows map structured below (EntriesAgree.start nonempty map.entry)
    (by simp)).bind ?_
  rintro p - noted i k found
  rw [depthAt?_ofProgress] at found
  split at found
  · exact noted i k found
  · cases found

end Known

/-! ### The positions with a depth -/

/-- Exactly the positions that control may reach have a depth. -/
theorem depthAt?_isSome_iff {m : StackMap} (success : analyze symbols body limit = .ok m)
    {i : Nat} : (m.depthAt? i).isSome ↔ body.Reaches i := by
  obtain ⟨enclosing, signature, verified⟩ := analyze_eq_ok success
  constructor
  · intro known
    obtain ⟨k, found⟩ := Option.isSome_iff_exists.mp known
    have restricted := analyze_overflows limit False verified.nonempty signature
      verified.structured verified.map.onReachable False.elim
    rw [success] at restricted
    exact (Body.onReachable_eq_some_iff.mp (restricted i k found)).1
  · intro reached
    exact Option.isSome_iff_exists.mpr (verified.map.isSome_of_reaches reached)

/-- A depth map without depths at positions that cannot be reached is the stack map. -/
theorem depthAt?_eq {m : StackMap} (success : analyze symbols body limit = .ok m)
    (signature : symbols.method? body.method = some enclosing) {d : Nat → Option Nat}
    (map : body.DepthMap symbols enclosing d)
    (reaches : ∀ i k, d i = some k → body.Reaches i) : m.depthAt? = d := by
  obtain ⟨enclosing', signature', verified⟩ := analyze_eq_ok success
  obtain rfl : enclosing = enclosing' := Option.some.inj (signature.symm.trans signature')
  have agrees := analyze_overflows limit False verified.nonempty signature verified.structured map
    False.elim
  rw [success] at agrees
  funext i
  cases found : m.depthAt? i with
  | some k => exact (agrees i k found).symm
  | none =>
      cases known : d i with
      | none => rfl
      | some k =>
          have := (depthAt?_isSome_iff success).mpr (reaches i k known)
          simp [found] at this

/-- The depths of a body do not depend on the limit. -/
theorem depthAt?_unique {m m' : StackMap} {limit' : Nat}
    (success : analyze symbols body limit = .ok m)
    (success' : analyze symbols body limit' = .ok m') : m.depthAt? = m'.depthAt? := by
  obtain ⟨enclosing, signature, verified⟩ := analyze_eq_ok success'
  refine depthAt?_eq success signature verified.map fun i k found => ?_
  exact (depthAt?_isSome_iff success').mp (by simp [found])

end HookSplice.StackMap
