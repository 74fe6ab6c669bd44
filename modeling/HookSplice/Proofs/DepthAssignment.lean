import HookSplice.Proofs.Reachability

/-!
# Depth assignments

What the verifier decides, said without blocks and without a work list: whether every position that
control may reach can be given one depth, so that each instruction finds its operands and passes on
the right depth to each of its successors.  If so, the depths are determined, and they are what the
verifier gives.
-/

namespace HookSplice

/-- Depths for the positions that control may reach: nothing is on the stack at first; an
    instruction has an effect, finds its operands, and exactly those if it returns; what it leaves
    behind is within the limit; the next instruction, where control may go on to it, exists; and
    every position to which control may pass has the depth that arrives there. -/
structure Body.DepthAssignment (symbols : SymbolTable) (enclosing : MethodDef) (limit : Nat)
    (body : Body) (d : Nat → Nat) : Prop where
  entry : d 0 = 0
  step : ∀ {i : Nat} {ins : Instruction}, body.Reaches i → body.code[i]? = some ins →
    ∃ effect, StackEffect.ofInstruction symbols enclosing ins = .ok effect ∧ effect.pops ≤ d i ∧
      (ins.opcode = .ret → d i = effect.pops) ∧ d i - effect.pops + effect.pushes ≤ limit ∧
      (ins.opcode.fallsThrough → i + 1 < body.size) ∧
      ∀ j k, body.Passes i ins (d i - effect.pops + effect.pushes) j k → d j = k

namespace Body.DepthAssignment

variable {symbols : SymbolTable} {enclosing : MethodDef} {limit : Nat} {body : Body} {d : Nat → Nat}

/-- Control cannot leave a body in which every next instruction exists. -/
theorem lt_of_reaches (assignment : body.DepthAssignment symbols enclosing limit d)
    {argCount : Nat} (structured : body.Structured symbols argCount) (nonempty : 0 < body.size)
    {i : Nat} (reached : body.Reaches i) : i < body.size := by
  cases reached with
  | entry => exact nonempty
  | @pass i j after k ins reached here passes =>
      obtain ⟨effect, -, -, -, -, goesOn, -⟩ := assignment.step reached here
      cases passes with
      | onward falls => exact goesOn falls
      | branch target =>
          obtain ⟨l, -, position⟩ := Option.bind_eq_some_iff.mp target
          exact Code.position?_lt position
      | handler member _ =>
          have bounds := structured.regions _ member
          simp only [StackMap.inBounds, Bool.and_eq_true, decide_eq_true_eq] at bounds
          omega

/-- An assignment is a depth map on the positions that control reaches. -/
theorem depthMap (assignment : body.DepthAssignment symbols enclosing limit d)
    {argCount : Nat} (structured : body.Structured symbols argCount) (nonempty : 0 < body.size) :
    body.DepthMap symbols enclosing (body.onReachable fun i => some (d i)) where
  entry := by
    rw [onReachable_eq_some_iff, assignment.entry]
    exact ⟨.entry, rfl⟩
  step := by
    intro i k found
    obtain ⟨reached, known⟩ := onReachable_eq_some_iff.mp found
    obtain rfl : d i = k := Option.some.inj known
    have here := List.getElem?_eq_getElem (assignment.lt_of_reaches structured nonempty reached)
    obtain ⟨effect, found, enough, exact_at_ret, -, -, arrives⟩ := assignment.step reached here
    refine ⟨_, effect, here, ⟨found, enough, exact_at_ret⟩, fun j k passes => ?_⟩
    rw [onReachable_eq_some_iff, arrives j k passes]
    exact ⟨reached.pass here passes, rfl⟩

theorem depthsBelow (assignment : body.DepthAssignment symbols enclosing limit d) :
    body.DepthsBelow symbols enclosing (body.onReachable fun i => some (d i)) limit := by
  intro i k ins effect known here found
  obtain ⟨reached, value⟩ := onReachable_eq_some_iff.mp known
  obtain rfl : d i = k := Option.some.inj value
  obtain ⟨effect', found', -, -, within, -⟩ := assignment.step reached here
  obtain rfl : effect = effect' := Except.ok.inj (found.symm.trans found')
  exact within

end Body.DepthAssignment

namespace StackMap

variable {symbols : SymbolTable} {enclosing : MethodDef} {limit : Nat} {body : Body}

/-- The depths of a stack map are an assignment. -/
theorem Verified.assignment {m : StackMap} (verified : Verified symbols enclosing limit body m) :
    body.DepthAssignment symbols enclosing limit fun i => (m.depthAt? i).getD 0 where
  entry := by rw [verified.map.entry]; rfl
  step := by
    intro i ins reached here
    obtain ⟨k, known⟩ := verified.map.isSome_of_reaches reached
    obtain ⟨ins', effect, here', suits, arrives⟩ := verified.map.step known
    obtain rfl : ins = ins' := Option.some.inj (here.symm.trans here')
    simp only [known, Option.getD_some]
    refine ⟨effect, suits.effect_eq, suits.enough, suits.exact_at_ret, ?_, fun falls => ?_,
      fun j k' passes => ?_⟩
    · exact verified.below i k ins effect known here suits.effect_eq
    · obtain ⟨_, _, next, -⟩ := verified.map.step (arrives _ _ (.onward falls))
      exact (List.getElem?_eq_some_iff.mp next).1
    · rw [arrives j k' passes, Option.getD_some]

/-- A stack map has an entry for each position of the body. -/
theorem length_depths {m : StackMap} (success : analyze symbols body limit = .ok m) :
    m.depths.length = body.size := by
  unfold analyze at success
  split at success
  · cases success
  split at success
  · cases success
  split at success
  · cases success
  obtain ⟨p, -, success⟩ := Except.bind_eq_ok success
  cases success
  simp [ofProgress]

/-- On a body that passes the structural checks, the verifier accepts exactly when there is a depth
    assignment.  Then its stack map has the depths of that assignment at the positions that control
    may reach, which are those of the flow graph, and no depth anywhere else. -/
theorem analyze_decides (nonempty : 0 < body.size)
    (declared : symbols.method? body.method = some enclosing)
    (sound : structuralFault? symbols body enclosing.argCount = none) :
    ((∃ m, analyze symbols body limit = .ok m) ↔
      ∃ d, body.DepthAssignment symbols enclosing limit d) ∧
    ∀ m d, analyze symbols body limit = .ok m →
      body.DepthAssignment symbols enclosing limit d →
      (m.depths = (List.range body.size).map fun i =>
        if i ∈ (FlowGraph.ofBody body).reachable then some (d i) else none) ∧
      ∀ i, i ∈ (FlowGraph.ofBody body).reachable ↔ body.Reaches i := by
  have structured := structuralFault?_eq_none_iff.mp sound
  refine ⟨⟨?_, ?_⟩, ?_⟩
  · rintro ⟨m, success⟩
    obtain ⟨enclosing', declared', verified⟩ := analyze_eq_ok success
    obtain rfl : enclosing = enclosing' := Option.some.inj (declared.symm.trans declared')
    exact ⟨_, verified.assignment⟩
  · rintro ⟨d, assignment⟩
    have outcome := analyze_overflows limit True nonempty declared structured
      (assignment.depthMap structured nonempty) fun _ => assignment.depthsBelow
    cases result : analyze symbols body limit with
    | ok m => exact ⟨m, rfl⟩
    | error v =>
        rw [result] at outcome
        exact absurd trivial outcome.2
  · intro m d success assignment
    have reachable (i : Nat) : i ∈ (FlowGraph.ofBody body).reachable ↔ body.Reaches i := by
      rw [FlowGraph.mem_reachable_iff structured nonempty]
      exact ⟨And.left, fun reached =>
        ⟨reached, assignment.lt_of_reaches structured nonempty reached⟩⟩
    refine ⟨?_, reachable⟩
    have depths : m.depthAt? = body.onReachable fun i => some (d i) :=
      depthAt?_eq success declared (assignment.depthMap structured nonempty)
        fun i k known => (Body.onReachable_eq_some_iff.mp known).1
    have length := length_depths success
    refine List.ext_getElem (by simp [length]) fun i inside _ => ?_
    have here : m.depthAt? i = m.depths[i] := by
      rw [depthAt?, List.getElem?_eq_getElem inside, Option.join_some]
    rw [← here, depths, List.getElem_map, List.getElem_range]
    by_cases reached : body.Reaches i
    · rw [Body.onReachable, if_pos reached, if_pos ((reachable i).mpr reached)]
    · rw [Body.onReachable, if_neg reached, if_neg (mt (reachable i).mp reached)]

/-- The symbols of a class with one method, which counts a number down. -/
def countdownSymbols : SymbolTable :=
  ⟨["Timer", "int"], [], [⟨⟨⟨0⟩, "run", [⟨1⟩], none, true⟩, "Timer::run(int)"⟩]⟩

/-- The body of that method, a loop. -/
def countdown : Body :=
  .ofParts ⟨0⟩
    [⟨.ldarg, .arg 0, [⟨0⟩]⟩, .of .ldc (.int 1), .plain .sub, .plain .dup, .of .starg (.arg 0),
     .of .brtrue (.label ⟨0⟩), .plain .ret] [] []

/-- The loop never has more than two values on the stack, and needs room for both. -/
theorem countdown_decided :
    0 < countdown.size ∧ structuralFault? countdownSymbols countdown 1 = none ∧
      (∃ d, countdown.DepthAssignment countdownSymbols ⟨⟨0⟩, "run", [⟨1⟩], none, true⟩ 2 d) ∧
      ¬ ∃ d, countdown.DepthAssignment countdownSymbols ⟨⟨0⟩, "run", [⟨1⟩], none, true⟩ 1 d := by
  have nonempty : 0 < countdown.size := Nat.zero_lt_succ _
  have sound : structuralFault? countdownSymbols countdown 1 = none := rfl
  refine ⟨nonempty, sound, ?_, ?_⟩
  · have accepted : ∃ m, analyze countdownSymbols countdown 2 = .ok m := ⟨_, rfl⟩
    exact (analyze_decides nonempty rfl sound).1.mp accepted
  · intro assigned
    obtain ⟨m, accepted⟩ := (analyze_decides nonempty rfl sound).1.mpr assigned
    have refused : analyze countdownSymbols countdown 1 = .error (.stackOverflow 1 2 1) := rfl
    rw [refused] at accepted
    cases accepted

end StackMap

end HookSplice
