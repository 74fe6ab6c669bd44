import HookSplice.Proofs.Propagation

/-!
# The largest depth of a stack map

The verifier notes the largest depth that it finds behind any instruction.  The depths before the
instructions are those left behind by others, but for the start of the body and of the handlers: a
handler that catches exceptions starts with one value that no instruction has left there.
-/

namespace HookSplice

/-- The largest depth behind any instruction that has a depth. -/
structure Body.LargestBehind (symbols : SymbolTable) (enclosing : MethodDef) (body : Body)
    (d : Nat → Option Nat) (largest : Nat) : Prop where
  below : body.DepthsBelow symbols enclosing d largest
  attained : ∃ i k ins effect, d i = some k ∧ body.code[i]? = some ins ∧
    StackEffect.ofInstruction symbols enclosing ins = .ok effect ∧ effect.behind k = largest

/-- An exception may enter a handler for its type at a position. -/
def Body.CatchesAt (body : Body) (i : Nat) : Prop :=
  ∃ r ∈ body.regions, r.kind ≠ .finalizing ∧ r.handlerStart = i ∧
    ∃ p, body.Reaches p ∧ r.protects p

namespace StackMap

variable {symbols : SymbolTable} {enclosing : MethodDef} {limit : Nat} {body : Body}
  {d : Nat → Option Nat}

/-- The peak is at least every depth behind an instruction noted with its depth, and it is one of
    those of the map, unless it is that of the start. -/
structure Peaks (symbols : SymbolTable) (enclosing : MethodDef) (body : Body)
    (d : Nat → Option Nat) (noted : List (Nat × Nat)) (peak : Nat) : Prop where
  below : body.DepthsBelow symbols enclosing (fun i => noted.lookup i) peak
  attained : peak = 0 ∨ ∃ i k ins effect, d i = some k ∧ body.code[i]? = some ins ∧
    StackEffect.ofInstruction symbols enclosing ins = .ok effect ∧ effect.behind k = peak

theorem Peaks.start : Peaks symbols enclosing body d [] 0 where
  below := fun _ _ _ _ found => by cases found
  attained := Or.inl rfl

theorem Peaks.append {noted noted' : List (Nat × Nat)} {peak peak' : Nat}
    (first : Peaks symbols enclosing body d noted peak)
    (second : Peaks symbols enclosing body d noted' peak') :
    Peaks symbols enclosing body d (noted ++ noted') (max peak' peak) where
  below := by
    intro i k ins effect found here effect_eq
    simp only [List.lookup_append, Option.or_eq_some_iff] at found
    rcases found with new | ⟨-, old⟩
    · exact Nat.le_trans (first.below i k ins effect new here effect_eq) (Nat.le_max_right ..)
    · exact Nat.le_trans (second.below i k ins effect old here effect_eq) (Nat.le_max_left ..)
  attained := by
    rcases Nat.le_total peak peak' with above | above
    · rw [Nat.max_eq_left above]
      exact second.attained
    · rw [Nat.max_eq_right above]
      exact first.attained

/-- The peak of a run through a block is that of the instructions it passes. -/
theorem runBlock_peaks {s n depth : Nat} {run : BlockRun} (straight : Straight body s n)
    (success : runBlock symbols enclosing limit ((body.code.zipIdx.drop s).take n) depth = .ok run)
    (agrees : ∀ i k, run.depths.lookup i = some k → d i = some k) :
    Peaks symbols enclosing body d run.depths run.peak := by
  induction n generalizing s depth run with
  | zero =>
      simp only [List.take_zero, runBlock] at success
      cases success
      exact .start
  | succ n ih =>
      obtain ⟨ins, after, rest, here, step, later, rfl⟩ := runBlock_succ_eq_ok straight success
      obtain ⟨effect, suits, rfl, -⟩ := depthAfter_eq_ok.mp step
      have chain := runBlock_chain straight.tail later
      have others := ih straight.tail later fun i k found => by
        refine agrees i k ?_
        rw [lookup_cons_eq, if_neg (by have := chain.inside found; omega), found]
      have first : Peaks symbols enclosing body d [(s, depth)] (effect.behind depth) := by
        refine ⟨fun i k ins effect' found here' effect_eq => ?_,
          Or.inr ⟨s, depth, _, effect, agrees s depth (by simp), here, suits.effect_eq, rfl⟩⟩
        simp only [lookup_cons_eq, List.lookup_nil, Option.ite_none_right_eq_some] at found
        obtain ⟨rfl, same⟩ := found
        cases same
        obtain rfl := Option.some.inj (here.symm.trans here')
        obtain rfl := Except.ok.inj (suits.effect_eq.symm.trans effect_eq)
        exact Nat.le_refl _
      have joined := first.append others
      rw [Nat.max_comm] at joined
      exact joined

/-- What propagation takes for the largest depth is that of the instructions it notes. -/
theorem propagate_peaks (map : body.DepthMap symbols enclosing d) {argCount : Nat}
    (structured : body.Structured symbols argCount) {fuel : Nat} {work : List Nat}
    {p p' : Progress} (entries : EntriesAgree body d p.entries)
    (peaks : Peaks symbols enclosing body d p.depths p.peak)
    (success : propagate symbols enclosing limit body (FlowGraph.ofBody body) fuel work p =
      .ok p') : Peaks symbols enclosing body d p'.depths p'.peak := by
  fun_induction propagate symbols enclosing limit body (FlowGraph.ofBody body) fuel work p with
  | case1 =>
      cases success
      exact peaks
  | case2 =>
      cases success
      exact peaks
  | case3 fuel index work p b depth entry block positions ih =>
      obtain ⟨run, ran, success⟩ := Except.bind_eq_ok success
      have straight := straight_of_mem_blocks (List.mem_of_getElem? block)
      have chain := runBlock_chain straight ran
      have agrees := (runBlock_overflows map False.elim straight
        fun _ => entries entry block).of_eq_ok ran
      simp only [openEnd?_eq_none map block chain agrees] at success
      obtain ⟨⟨entries', work'⟩, passed, success⟩ := Except.bind_eq_ok success
      have agree : EntriesAgree body d entries' :=
        (passOn_agrees entries fun e member => edge_agrees map block chain agrees structured
          (mem_followed.mp member) : Overflows False _ _).of_eq_ok passed
      exact ih run entries' work' agree ((runBlock_peaks straight ran agrees).append peaks) success
  | case4 fuel index work p missing ih => exact ih entries peaks success

/-- The largest depth of a stack map is the largest one behind any instruction that can be
    reached. -/
theorem maxDepth_largest {m : StackMap} (success : analyze symbols body limit = .ok m)
    (declared : symbols.method? body.method = some enclosing) :
    body.LargestBehind symbols enclosing m.depthAt? m.maxDepth := by
  obtain ⟨enclosing', p, declared', nonempty, structured, propagated, rfl⟩ :=
    analyze_propagates success
  obtain rfl : enclosing = enclosing' := Option.some.inj (declared.symm.trans declared')
  have carried := carried_of_propagate nonempty propagated
  have map := carried.depthMap structured nonempty
  have entries : EntriesAgree body (fun i => p.depths.lookup i) [(0, 0)] :=
    EntriesAgree.start (d := fun i => p.depths.lookup i) nonempty map.entry
  have peaks := propagate_peaks map structured entries .start propagated
  rw [carried.depthAt?_eq]
  refine ⟨peaks.below, peaks.attained.elim (fun zero => ?_) id⟩
  -- A peak of zero is that of the first instruction.
  obtain ⟨ins, effect, here, suits, -⟩ := map.step map.entry
  refine ⟨0, 0, ins, effect, map.entry, here, suits.effect_eq, ?_⟩
  have below := peaks.below 0 0 ins effect map.entry here suits.effect_eq
  show effect.behind 0 = p.peak
  omega

section Analyzed

variable {m : StackMap} (success : analyze symbols body limit = .ok m)
include success

/-- The largest depth keeps to the limit. -/
theorem maxDepth_le : m.maxDepth ≤ limit := by
  obtain ⟨enclosing, declared, verified⟩ := analyze_eq_ok success
  obtain ⟨i, k, ins, effect, found, here, effect_eq, largest⟩ :=
    (maxDepth_largest success declared).attained
  exact largest ▸ verified.below i k ins effect found here effect_eq

/-- A handler that catches exceptions is entered with one value. -/
theorem depthAt?_of_catchesAt {i : Nat} (catches : body.CatchesAt i) :
    m.depthAt? i = some 1 := by
  obtain ⟨r, member, catching, rfl, p, reached, protects⟩ := catches
  obtain ⟨enclosing, declared, verified⟩ := analyze_eq_ok success
  obtain ⟨k, found⟩ := verified.map.isSome_of_reaches reached
  obtain ⟨ins, effect, -, -, passes⟩ := verified.map.step found
  have entered := passes _ _ (.handler member protects)
  cases kind : r.kind with
  | finalizing => exact absurd kind catching
  | catching type => simpa [Region.entryDepth, kind] using entered

/-- No depth exceeds the largest one, but for the one value that a handler is entered with. -/
theorem depth_le {i k : Nat} (found : m.depthAt? i = some k) :
    k ≤ m.maxDepth ∨ k = 1 ∧ body.CatchesAt i := by
  obtain ⟨enclosing, declared, verified⟩ := analyze_eq_ok success
  have largest := maxDepth_largest success declared
  have reached := (depthAt?_isSome_iff success).mp (Option.isSome_iff_exists.mpr ⟨k, found⟩)
  cases reached with
  | entry =>
      cases Option.some.inj (verified.map.entry.symm.trans found)
      exact Or.inl (Nat.zero_le _)
  | @pass p _ after k' ins before here passes =>
      obtain ⟨k₀, known⟩ := verified.map.isSome_of_reaches before
      obtain ⟨ins', effect, here', suits, onward⟩ := verified.map.step known
      obtain rfl := Option.some.inj (here.symm.trans here')
      have behind := largest.below p k₀ ins effect known here suits.effect_eq
      cases passes with
      | onward falls =>
          cases Option.some.inj ((onward _ _ (.onward falls)).symm.trans found)
          exact Or.inl behind
      | branch target =>
          cases Option.some.inj ((onward _ _ (.branch target)).symm.trans found)
          split
          · exact Or.inl (Nat.zero_le _)
          · exact Or.inl behind
      | @handler r member protects =>
          cases Option.some.inj ((onward _ _ (.handler member protects)).symm.trans found)
          cases kind : r.kind with
          | finalizing => exact Or.inl (by simp [Region.entryDepth, kind])
          | catching type =>
              refine Or.inr ⟨by simp [Region.entryDepth, kind], r, member, ?_, rfl, p, before,
                protects⟩
              simp [kind]

/-- The largest depth bounds all depths exactly if it is not zero, or if no handler can be entered
    that catches exceptions. -/
theorem depths_le_iff :
    (∀ i k, m.depthAt? i = some k → k ≤ m.maxDepth) ↔
      (0 < m.maxDepth ∨ ∀ i, ¬ body.CatchesAt i) := by
  constructor
  · intro bounded
    rcases Nat.eq_zero_or_pos m.maxDepth with zero | positive
    · refine Or.inr fun i catches => ?_
      have := bounded i 1 (depthAt?_of_catchesAt success catches)
      omega
    · exact Or.inl positive
  · intro proviso i k found
    rcases depth_le success found with below | ⟨rfl, catches⟩
    · exact below
    · rcases proviso with positive | never
      · exact positive
      · exact absurd catches (never i)

end Analyzed

end StackMap

end HookSplice
