import HookSplice.Proofs.DepthMap
import HookSplice.Proofs.GateCode
import HookSplice.Proofs.RunPaths

/-!
# Straight runs

Code that control runs through from its first instruction to its end, and may leave by a branch on
the way.  When every instruction finds its operands among the values that the code itself has
pushed, the run has an effect: it needs nothing on entry.
-/

namespace HookSplice.RunEffect

variable {symbols : SymbolTable} {enclosing : MethodDef} {peak : Nat}

/-- Straight code that starts with `k` values of its own on the stack, ends with `k'`, takes nothing
    from below them, and never has more than `peak` of them. -/
inductive Climbs (symbols : SymbolTable) (enclosing : MethodDef) (peak : Nat) :
    Nat → List Instruction → Nat → Prop
  | nil {k : Nat} : Climbs symbols enclosing peak k [] k
  | cons {k k' : Nat} {ins : Instruction} {change : StackEffect} {rest : List Instruction}
      (effect : StackEffect.ofInstruction symbols enclosing ins = .ok change)
      (falls : ins.opcode.fallsThrough) (enough : change.pops ≤ k) (below : change.behind k ≤ peak)
      (later : Climbs symbols enclosing peak (change.behind k) rest k') :
      Climbs symbols enclosing peak k (ins :: rest) k'

theorem Climbs.append {k k' k'' : Nat} {xs ys : List Instruction}
    (first : Climbs symbols enclosing peak k xs k')
    (second : Climbs symbols enclosing peak k' ys k'') :
    Climbs symbols enclosing peak k (xs ++ ys) k'' := by
  induction first with
  | nil => exact second
  | cons effect falls enough below _ ih => exact .cons effect falls enough below (ih second)

variable {k k' : Nat} {code : List Instruction}

theorem Climbs.fallsThrough (climbs : Climbs symbols enclosing peak k code k') :
    ∀ ins ∈ code, ins.opcode.fallsThrough := by
  induction climbs with
  | nil => exact fun ins member => by cases member
  | cons _ falls _ _ _ ih => exact List.forall_mem_cons.mpr ⟨falls, ih⟩

theorem Climbs.total_eq (climbs : Climbs symbols enclosing peak k code k') :
    (k' : Int) = k + total symbols enclosing code := by
  induction climbs with
  | nil => exact (Int.add_zero _).symm
  | cons effect _ enough _ _ ih =>
      rw [ih, total, net_eq effect]
      unfold StackEffect.behind StackEffect.delta
      omega

/-- What an instruction of straight code finds, and what it leaves. -/
theorem Climbs.step (climbs : Climbs symbols enclosing peak k code k') {o : Nat}
    {ins : Instruction} (here : code[o]? = some ins) : ∃ (j : Nat) (change : StackEffect),
      (j : Int) = k + total symbols enclosing (code.take o) ∧
      StackEffect.ofInstruction symbols enclosing ins = .ok change ∧ change.pops ≤ j ∧
      change.behind j ≤ peak := by
  induction climbs generalizing o with
  | nil => cases here
  | @cons k _ first change rest effect _ enough below _ ih =>
      cases o with
      | zero =>
          cases here
          exact ⟨k, change, (Int.add_zero _).symm, effect, enough, below⟩
      | succ o =>
          obtain ⟨j, change', sum, effect', enough', below'⟩ := ih here
          refine ⟨j, change', ?_, effect', enough', below'⟩
          rw [sum, List.take_succ_cons, total, net_eq effect]
          unfold StackEffect.behind StackEffect.delta
          omega

theorem total_take_succ {o : Nat} {ins : Instruction} (here : code[o]? = some ins) :
    total symbols enclosing (code.take (o + 1)) =
      total symbols enclosing (code.take o) + net symbols enclosing ins := by
  rw [List.take_add_one, here, total_append]
  exact congrArg _ (Int.add_zero _)

/-- Where no label is attached, a path has come through all instructions in front of it. -/
theorem Arrives.straight (unlabelled : Code.labels code = []) {o : Nat} {r : Int}
    (arrived : Arrives symbols enclosing code o r) : r = total symbols enclosing (code.take o) := by
  induction arrived with
  | entry => rfl
  | onward _ here effect _ ih => rw [total_take_succ here, net_eq effect, ih]
  | @branch _ _ _ _ _ l _ _ _ _ _ found _ =>
      have absent : l ∉ Code.labels code := by
        rw [unlabelled]
        exact List.not_mem_nil
      cases (Code.position?_eq_none_iff.mpr absent).symm.trans found

theorem reaches_straight (falls : ∀ ins ∈ code, ins.opcode.fallsThrough) {o : Nat}
    (within : o ≤ code.length) : Reaches code o := by
  induction o with
  | zero => exact .entry
  | succ o ih =>
      have here := List.getElem?_eq_getElem within
      exact (ih (Nat.le_of_lt within)).onward here (falls _ (List.mem_of_getElem? here))

/-- Straight code without labels has an effect. -/
theorem Climbs.conforms (climbs : Climbs symbols enclosing peak 0 code k')
    (unlabelled : Code.labels code = [])
    (named : ∀ ins ∈ code, branches ins → ins.target?.isSome) :
    Conforms symbols enclosing code where
  distinct := by
    rw [unlabelled]
    exact List.nodup_nil
  effects := fun _ here => by
    obtain ⟨-, change, -, effect, -⟩ := climbs.step here
    exact ⟨change, effect⟩
  stays := fun {o ins} _ here => by
    have falls := climbs.fallsThrough ins (List.mem_of_getElem? here)
    constructor <;> intro same <;> rw [same] at falls <;> cases falls
  named := fun _ here => named _ (List.mem_of_getElem? here)
  agrees := fun arrived arrived' =>
    (arrived.straight unlabelled).trans (arrived'.straight unlabelled).symm
  ends := reaches_straight climbs.fallsThrough (Nat.le_refl _)

/-- The effect of straight code without labels: it needs nothing, and leaves what it ends with. -/
theorem Climbs.summary (climbs : Climbs symbols enclosing peak 0 code k')
    (unlabelled : Code.labels code = []) {effect : RunEffect}
    (computed : ofRun symbols enclosing code = .ok effect) :
    effect.delta = k' ∧ effect.needs = 0 := by
  have sums := summary_of_ofRun computed
  constructor
  · have arrived := ((sums.delta _).mpr rfl).straight unlabelled
    rw [List.take_length] at arrived
    rw [arrived, climbs.total_eq, Int.natCast_zero, Int.zero_add]
  · have none : Suffices symbols enclosing code 0 := by
      intro o r ins change arrived here effect
      obtain ⟨j, change', sum, effect', enough, -⟩ := climbs.step here
      obtain rfl := Except.ok.inj (effect.symm.trans effect')
      rw [arrived.straight unlabelled]
      omega
    exact Nat.le_zero.mp (sums.needs.2 none)

end HookSplice.RunEffect
