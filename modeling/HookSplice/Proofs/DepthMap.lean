import HookSplice.Proofs.Common
import HookSplice.Proofs.Labels
import HookSplice.StackMap

/-!
# Depth maps

What a stack map has to satisfy instruction by instruction: it gives depth 0 to the first position,
every instruction that has a depth finds its operands there, and each way in which control may go on
leads to a position with the depth that arrives there.
-/

namespace HookSplice

/-- Control may pass from the instruction `ins` at position `i`, behind which `after` values stand
    on the stack, to a position with a depth: to the next instruction, to its label, or, by an
    exception, to the handler of a region around it. -/
inductive Body.Passes (body : Body) (i : Nat) (ins : Instruction) (after : Nat) :
    Nat → Nat → Prop
  | onward (falls : ins.opcode.fallsThrough) : Passes body i ins after (i + 1) after
  | branch {t : Nat} (target : body.targetOf? ins = some t) :
      Passes body i ins after t (if ins.opcode = .leave then 0 else after)
  | handler {r : Region} (member : r ∈ body.regions) (protects : r.protects i) :
      Passes body i ins after r.handlerStart r.entryDepth

/-- The instruction `ins` can be executed with `k` values on the stack, and has the given effect. -/
structure StackEffect.Suits (symbols : SymbolTable) (enclosing : MethodDef) (ins : Instruction)
    (k : Nat) (effect : StackEffect) : Prop where
  effect_eq : ofInstruction symbols enclosing ins = .ok effect
  enough : effect.pops ≤ k
  exact_at_ret : ins.opcode = .ret → k = effect.pops

/-- The depth behind an instruction that finds `k` values. -/
def StackEffect.behind (effect : StackEffect) (k : Nat) : Nat :=
  k - effect.pops + effect.pushes

/-- A map of depths that agrees with every instruction of a body. -/
structure Body.DepthMap (symbols : SymbolTable) (enclosing : MethodDef) (body : Body)
    (d : Nat → Option Nat) : Prop where
  entry : d 0 = some 0
  step : ∀ {i k : Nat}, d i = some k → ∃ ins effect, body.code[i]? = some ins ∧
    StackEffect.Suits symbols enclosing ins k effect ∧
    ∀ j k', body.Passes i ins (effect.behind k) j k' → d j = some k'

/-- No instruction with a depth leaves more than `limit` values behind it. -/
def Body.DepthsBelow (symbols : SymbolTable) (enclosing : MethodDef) (body : Body)
    (d : Nat → Option Nat) (limit : Nat) : Prop :=
  ∀ i k ins effect, d i = some k → body.code[i]? = some ins →
    StackEffect.ofInstruction symbols enclosing ins = .ok effect → effect.behind k ≤ limit

/-- The positions that control may reach from the first one. -/
inductive Body.Reaches (body : Body) : Nat → Prop
  | entry : Reaches body 0
  | pass {i j after k : Nat} {ins : Instruction} (reached : Reaches body i)
      (here : body.code[i]? = some ins) (passes : body.Passes i ins after j k) : Reaches body j

theorem Body.DepthMap.isSome_of_reaches {symbols : SymbolTable} {enclosing : MethodDef}
    {body : Body} {d : Nat → Option Nat} (map : body.DepthMap symbols enclosing d) {i : Nat}
    (reached : body.Reaches i) : ∃ k, d i = some k := by
  induction reached with
  | entry => exact ⟨0, map.entry⟩
  | pass _ here passes ih =>
      obtain ⟨k, found⟩ := ih
      obtain ⟨ins, effect, here', -, onward⟩ := map.step found
      obtain rfl := Option.some.inj (here.symm.trans here')
      cases passes with
      | onward falls => exact ⟨_, onward _ _ (.onward falls)⟩
      | branch target => exact ⟨_, onward _ _ (.branch target)⟩
      | handler member protects => exact ⟨_, onward _ _ (.handler member protects)⟩

open Classical in
/-- A map of depths without the positions that control cannot reach. -/
noncomputable def Body.onReachable (body : Body) (d : Nat → Option Nat) (i : Nat) : Option Nat :=
  if body.Reaches i then d i else none

theorem Body.onReachable_eq_some_iff {body : Body} {d : Nat → Option Nat} {i k : Nat} :
    body.onReachable d i = some k ↔ body.Reaches i ∧ d i = some k := by
  unfold onReachable
  split <;> simp [*]

theorem Body.DepthMap.onReachable {symbols : SymbolTable} {enclosing : MethodDef} {body : Body}
    {d : Nat → Option Nat} (map : body.DepthMap symbols enclosing d) :
    body.DepthMap symbols enclosing (body.onReachable d) where
  entry := onReachable_eq_some_iff.mpr ⟨.entry, map.entry⟩
  step := fun found => by
    obtain ⟨reached, known⟩ := onReachable_eq_some_iff.mp found
    obtain ⟨ins, effect, here, suits, onward⟩ := map.step known
    exact ⟨ins, effect, here, suits, fun j k passes =>
      onReachable_eq_some_iff.mpr ⟨reached.pass here passes, onward j k passes⟩⟩

/-! ### Structure -/

/-- The structural conditions of verification. -/
structure Body.Structured (symbols : SymbolTable) (argCount : Nat) (body : Body) : Prop where
  labels : (Code.labels body.code).Nodup
  operands : ∀ {i : Nat} {ins : Instruction}, body.code[i]? = some ins →
    StackMap.operandFault? symbols body argCount i ins = none
  regions : ∀ r ∈ body.regions, StackMap.inBounds body.size r
  transfers : ∀ {i : Nat} {ins : Instruction}, body.code[i]? = some ins →
    StackMap.transferFault? body i ins = none

/-- The operand of an instruction names something that is there: an argument, a local, a label or a
    symbol, and a field of the kind that the opcode accesses. -/
def Body.OperandInRange (symbols : SymbolTable) (argCount : Nat) (body : Body)
    (ins : Instruction) : Prop :=
  match ins.operand with
  | .arg index => index.toNat < argCount
  | .slot index => index.toNat < body.locals.length
  | .label l => (body.position? l).isSome
  | .field id => ∃ f, symbols.field? id = some f ∧
      f.isStatic = (ins.opcode == .ldsfld || ins.opcode == .stsfld)
  | .method id => (symbols.method? id).isSome
  | .type id => symbols.hasType id
  | .none | .int _ | .text _ => True

theorem StackMap.operandFault?_eq_none_iff {symbols : SymbolTable} {body : Body}
    {argCount i : Nat} {ins : Instruction} :
    operandFault? symbols body argCount i ins = none ↔
      ins.operandFits ∧ body.OperandInRange symbols argCount ins := by
  unfold operandFault? Body.OperandInRange
  cases fits : ins.operandFits with
  | false => simp
  | true =>
      cases ins.operand with
      | field id => cases found : symbols.field? id <;> simp [found]
      | _ => simp [Option.isSome_iff_ne_none]

theorem StackMap.transferFault?_eq_none_iff {body : Body} {i : Nat} {ins : Instruction} :
    transferFault? body i ins = none ↔
      (ins.opcode.fallsThrough → ∀ r ∈ body.regions, r.handlerStart ≠ i + 1) ∧
      ∀ target, body.targetOf? ins = some target → ∀ r ∈ body.regions,
        mayBranch ins.opcode i target r := by
  unfold transferFault?
  by_cases falls : ins.opcode.fallsThrough ∧ ∃ r ∈ body.regions, r.handlerStart = i + 1
  · obtain ⟨falls, r, member, start⟩ := falls
    rw [if_pos (by simpa [falls] using ⟨r, member, start⟩)]
    constructor
    · intro impossible
      cases impossible
    · rintro ⟨apart, -⟩
      exact absurd start (apart falls r member)
  · rw [if_neg (by simpa using falls)]
    have apart : ins.opcode.fallsThrough → ∀ r ∈ body.regions, r.handlerStart ≠ i + 1 :=
      fun h r member start => falls ⟨h, r, member, start⟩
    cases found : body.targetOf? ins with
    | none => simpa using apart
    | some target =>
        simp only [ite_eq_left_iff, reduceCtorEq, imp_false, Decidable.not_not, List.all_eq_true,
          Option.some.injEq, forall_eq']
        exact ⟨fun allowed => ⟨apart, allowed⟩, fun both => both.2⟩

theorem StackMap.structuralFault?_eq_none_iff {symbols : SymbolTable} {body : Body}
    {argCount : Nat} :
    structuralFault? symbols body argCount = none ↔ body.Structured symbols argCount := by
  unfold structuralFault?
  simp only [Option.or_eq_none_iff, Option.map_eq_none_iff, Code.duplicate?_eq_none_iff,
    findSome?_zipIdx_eq_none]
  constructor
  · rintro ⟨labels, operands, regions, transfers⟩
    refine ⟨labels, operands _ _, fun r member => ?_, transfers _ _⟩
    obtain ⟨i, here⟩ := List.mem_iff_getElem?.mp member
    simpa using regions i r here
  · intro structured
    refine ⟨structured.labels, fun _ _ => structured.operands, fun i r here => ?_,
      fun _ _ => structured.transfers⟩
    simp [structured.regions r (List.mem_of_getElem? here)]

/-! ### Results that fail at most by overflow -/

/-- Whether a violation is that of the limit on the depth. -/
def Violation.isOverflow : Violation → Bool
  | stackOverflow .. => true
  | _ => false

/-- The result satisfies `post`, or is an overflow of the limit, which `fits` excludes. -/
def Overflows {α : Type} (fits : Prop) (post : α → Prop) : Except Violation α → Prop
  | .ok a => post a
  | .error v => v.isOverflow ∧ ¬ fits

theorem Overflows.of_eq_ok {α : Type} {fits : Prop} {post : α → Prop} {x : Except Violation α}
    {a : α} (outcome : Overflows fits post x) (success : x = .ok a) : post a := by
  subst success
  exact outcome

theorem Overflows.bind {α β : Type} {fits : Prop} {p : α → Prop} {q : β → Prop}
    {x : Except Violation α} {f : α → Except Violation β} (first : Overflows fits p x)
    (next : ∀ a, x = .ok a → p a → Overflows fits q (f a)) : Overflows fits q (x >>= f) := by
  cases x with
  | error v => exact first
  | ok a => exact next a rfl first

namespace StackMap

variable {symbols : SymbolTable} {enclosing : MethodDef} {limit : Nat} {body : Body}

theorem ofPosition_eq_ok {i : Nat} {ins : Instruction} {effect : StackEffect} :
    StackEffect.ofPosition symbols enclosing i ins = .ok effect ↔
      StackEffect.ofInstruction symbols enclosing ins = .ok effect :=
  Except.mapError_eq_ok

/-- When the depth behind an instruction is found. -/
theorem depthAfter_eq_ok {i k after : Nat} {ins : Instruction} :
    depthAfter symbols enclosing limit i ins k = .ok after ↔
      ∃ effect, StackEffect.Suits symbols enclosing ins k effect ∧ after = effect.behind k ∧
        after ≤ limit := by
  unfold depthAfter
  constructor
  · intro success
    obtain ⟨effect, found, rest⟩ := Except.bind_eq_ok success
    split at rest
    · cases rest
    · split at rest
      · cases rest
      · simp only at rest
        split at rest
        · cases rest
        · cases rest
          refine ⟨effect, ⟨ofPosition_eq_ok.mp found, by omega, ?_⟩, rfl, ?_⟩
          · intro ret
            simp_all
          · exact Nat.le_of_not_lt ‹_›
  · rintro ⟨effect, suits, rfl, within⟩
    have := suits.enough
    rw [ofPosition_eq_ok.mpr suits.effect_eq]
    simp only [bind, Except.bind]
    rw [if_neg (by omega), if_neg (fun h => h.2 (suits.exact_at_ret h.1)),
      if_neg (by unfold StackEffect.behind at within; omega)]
    rfl

theorem depthAfter_overflows {i k : Nat} {ins : Instruction} {effect : StackEffect}
    (suits : StackEffect.Suits symbols enclosing ins k effect) {fits : Prop}
    (below : fits → effect.behind k ≤ limit) :
    Overflows fits (· = effect.behind k) (depthAfter symbols enclosing limit i ins k) := by
  by_cases within : effect.behind k ≤ limit
  · rw [depthAfter_eq_ok.mpr ⟨effect, suits, rfl, within⟩]
    rfl
  · have := suits.enough
    unfold depthAfter
    rw [ofPosition_eq_ok.mpr suits.effect_eq]
    simp only [bind, Except.bind]
    rw [if_neg (by omega), if_neg (fun h => h.2 (suits.exact_at_ret h.1)),
      if_pos (by unfold StackEffect.behind at within; omega)]
    exact ⟨rfl, fun h => within (below h)⟩

/-! ### Runs through a block -/

theorem positions_succ {s n : Nat} {ins : Instruction} (here : body.code[s]? = some ins) :
    (body.code.zipIdx.drop s).take (n + 1) =
      (ins, s) :: (body.code.zipIdx.drop (s + 1)).take n := by
  obtain ⟨lt, rfl⟩ := List.getElem?_eq_some_iff.mp here
  rw [List.drop_eq_getElem_cons (by simpa using lt), List.take_succ_cons]
  simp

/-- The instructions from `s` on, `n` of them, are passed one after the other: only the last one
    may transfer control. -/
def Straight (body : Body) (s n : Nat) : Prop :=
  s + n ≤ body.size ∧ ∀ (i : Nat) (ins : Instruction), s ≤ i → i + 1 < s + n →
    body.code[i]? = some ins → ins.opcode.flow = .next

theorem Straight.tail {s n : Nat} (straight : Straight body s (n + 1)) :
    Straight body (s + 1) n := by
  have size := straight.1
  exact ⟨by omega, fun i ins above below => straight.2 i ins (by omega) (by omega)⟩

/-- The depths that a run through a block notes belong to its positions, and each leads to the
    next. -/
structure Chain (symbols : SymbolTable) (enclosing : MethodDef) (limit : Nat) (body : Body)
    (s n depth : Nat) (run : BlockRun) : Prop where
  first : 0 < n → run.depths.lookup s = some depth
  final : n = 0 → run.final = depth
  total : ∀ i, s ≤ i → i < s + n → ∃ k, run.depths.lookup i = some k
  inside : ∀ {i k : Nat}, run.depths.lookup i = some k → s ≤ i ∧ i < s + n
  next : ∀ {i k : Nat}, run.depths.lookup i = some k → ∃ ins after, body.code[i]? = some ins ∧
    depthAfter symbols enclosing limit i ins k = .ok after ∧
    (i + 1 < s + n → run.depths.lookup (i + 1) = some after) ∧
    (i + 1 = s + n → run.final = if emptiesStack ins then 0 else after)

theorem emptiesStack_of_next {ins : Instruction} (next : ins.opcode.flow = .next) :
    emptiesStack ins = false := by
  simp [emptiesStack, next]

theorem Chain.nil {s depth peak : Nat} :
    Chain symbols enclosing limit body s 0 depth ⟨[], depth, peak⟩ where
  first := by simp
  final := fun _ => rfl
  total := by omega
  inside := by simp
  next := by simp

/-- An instruction in front of a chain that starts with the depth behind it. -/
theorem Chain.cons {s n depth after peak : Nat} {ins : Instruction} {rest : BlockRun}
    (here : body.code[s]? = some ins)
    (step : depthAfter symbols enclosing limit s ins depth = .ok after)
    (inner : 0 < n → emptiesStack ins = false)
    (chain : Chain symbols enclosing limit body (s + 1) n (if emptiesStack ins then 0 else after)
      rest) :
    Chain symbols enclosing limit body s (n + 1) depth
      ⟨(s, depth) :: rest.depths, rest.final, peak⟩ := by
  have lookup : ∀ i, List.lookup i ((s, depth) :: rest.depths) =
      if i = s then some depth else rest.depths.lookup i :=
    fun i => lookup_cons_eq s i depth rest.depths
  refine {
    first := fun _ => by simp [lookup]
    final := by omega
    total := fun i above below => ?_
    inside := fun {i k} found => ?_
    next := fun {i k} found => ?_ }
  · by_cases equal : i = s
    · exact ⟨depth, by simp [lookup, equal]⟩
    · obtain ⟨k, found⟩ := chain.total i (by omega) (by omega)
      exact ⟨k, by rw [lookup, if_neg equal, found]⟩
  · rw [lookup] at found
    split at found
    · omega
    · have := chain.inside found
      omega
  · rw [lookup] at found
    split at found
    · next equal =>
        subst equal
        cases found
        refine ⟨ins, after, here, step, fun below => ?_, fun last => chain.final (by omega)⟩
        rw [lookup, if_neg (by omega), chain.first (by omega), inner (by omega)]
        rfl
    · have := chain.inside found
      obtain ⟨other, after', there, step', onward, last⟩ := chain.next found
      refine ⟨other, after', there, step', fun below => ?_, fun last' => last (by omega)⟩
      rw [lookup, if_neg (by omega)]
      exact onward (by omega)

/-- A run through one more instruction steps over it and goes on behind it. -/
theorem runBlock_succ_eq_ok {s n depth : Nat} {run : BlockRun}
    (straight : Straight body s (n + 1))
    (success : runBlock symbols enclosing limit ((body.code.zipIdx.drop s).take (n + 1)) depth =
      .ok run) : ∃ ins after rest, body.code[s]? = some ins ∧
      depthAfter symbols enclosing limit s ins depth = .ok after ∧
      runBlock symbols enclosing limit ((body.code.zipIdx.drop (s + 1)).take n)
        (if emptiesStack ins then 0 else after) = .ok rest ∧
      run = ⟨(s, depth) :: rest.depths, rest.final, max after rest.peak⟩ := by
  have inside : s < body.code.length := by
    have size := straight.1
    unfold Body.size at size
    omega
  have here := List.getElem?_eq_getElem inside
  rw [positions_succ here, runBlock] at success
  obtain ⟨after, step, success⟩ := Except.bind_eq_ok success
  obtain ⟨rest, later, success⟩ := Except.bind_eq_ok success
  exact ⟨_, after, rest, here, step, later, (Except.ok.inj success).symm⟩

theorem runBlock_chain {s n depth : Nat} {run : BlockRun} (straight : Straight body s n)
    (success : runBlock symbols enclosing limit ((body.code.zipIdx.drop s).take n) depth =
      .ok run) : Chain symbols enclosing limit body s n depth run := by
  induction n generalizing s depth run with
  | zero =>
      simp only [List.take_zero, runBlock] at success
      cases success
      exact .nil
  | succ n ih =>
      obtain ⟨ins, after, rest, here, step, later, rfl⟩ := runBlock_succ_eq_ok straight success
      refine .cons here step (fun positive => ?_) (ih straight.tail later)
      exact emptiesStack_of_next (straight.2 s ins (Nat.le_refl s) (by omega) here)

/-- Where a depth map is known, a run through a block fails at most by overflow, and notes the
    depths of the map. -/
theorem runBlock_overflows {d : Nat → Option Nat} (map : body.DepthMap symbols enclosing d)
    {fits : Prop} (below : fits → body.DepthsBelow symbols enclosing d limit) {s n depth : Nat}
    (straight : Straight body s n) (entry : 0 < n → d s = some depth) :
    Overflows fits (fun run => ∀ i k, run.depths.lookup i = some k → d i = some k)
      (runBlock symbols enclosing limit ((body.code.zipIdx.drop s).take n) depth) := by
  induction n generalizing s depth with
  | zero => simp [runBlock, Overflows]
  | succ n ih =>
      obtain ⟨ins, effect, here, suits, passes⟩ := map.step (entry (by omega))
      rw [positions_succ here, runBlock]
      have fitsHere : fits → effect.behind depth ≤ limit := fun h =>
        below h s depth ins effect (entry (by omega)) here suits.effect_eq
      refine (depthAfter_overflows suits fitsHere).bind ?_
      rintro _ - rfl
      refine (ih straight.tail ?_).bind ?_
      · intro positive
        have next := straight.2 s ins (Nat.le_refl s) (by omega) here
        rw [emptiesStack_of_next next]
        exact passes _ _ (.onward (by simp [Opcode.fallsThrough, next]))
      · intro run _ agrees i k found
        simp only [lookup_cons_eq] at found
        split at found
        · next equal =>
            cases found
            exact equal ▸ entry (by omega)
        · exact agrees i k found

end StackMap

end HookSplice
