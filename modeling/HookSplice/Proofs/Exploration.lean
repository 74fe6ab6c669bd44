import HookSplice.Proofs.Labels
import HookSplice.Proofs.Common
import HookSplice.Proofs.Sorting
import HookSplice.RunEffect
import Mathlib.Data.List.Perm.Subperm

/-!
# Explored runs

The exploration of a run ends with relative depths that agree with every instruction it has reached:
each finds its operands above the lowest depth, and passes its depth on to the offsets that control
may reach next, or to an exit.
-/

namespace HookSplice.RunEffect

variable {symbols : SymbolTable} {enclosing : MethodDef} {code : List Instruction}

/-- Whether an instruction may branch to its label without leaving a protected region. -/
def branches (ins : Instruction) : Prop :=
  ins.opcode.flow = .branch ∨ ins.opcode.flow = .condBranch

/-- The offsets that control may reach inside a run, the end of the run included. -/
inductive Reaches (code : List Instruction) : Nat → Prop
  | entry : Reaches code 0
  | onward {o : Nat} {ins : Instruction} (reached : Reaches code o)
      (here : code[o]? = some ins) (falls : ins.opcode.fallsThrough) : Reaches code (o + 1)
  | branch {o t : Nat} {ins : Instruction} {l : Label} (reached : Reaches code o)
      (here : code[o]? = some ins) (transfers : branches ins) (target : ins.target? = some l)
      (found : Code.position? code l = some t) : Reaches code t

/-! ### Successors -/

/-- The successors of an instruction from which control passes on with the depth `after`. -/
structure Follows (code : List Instruction) (o : Nat) (ins : Instruction) (after : Int)
    (next : List (Nat × Int)) (exits : List RunExit) : Prop where
  stays : ins.opcode.flow ≠ .leave ∧ ins.opcode.flow ≠ .endFinally
  onward : ins.opcode.fallsThrough → (o + 1, after) ∈ next
  inside : ∀ {l : Label} {t : Nat}, branches ins → ins.target? = some l →
    Code.position? code l = some t → (t, after) ∈ next
  outside : ∀ {l : Label}, branches ins → ins.target? = some l →
    Code.position? code l = none → ⟨o, l, after⟩ ∈ exits
  named : branches ins → ins.target?.isSome
  reached : Reaches code o → code[o]? = some ins → ∀ q ∈ next, Reaches code q.1
  length : next.length ≤ 2

/-- The offset behind an instruction, if control may go on there. -/
def onwardOf (o : Nat) (ins : Instruction) (after : Int) : List (Nat × Int) :=
  if ins.opcode.fallsThrough then [(o + 1, after)] else []

theorem mem_onwardOf {o : Nat} {ins : Instruction} {after : Int} {q : Nat × Int} :
    q ∈ onwardOf o ins after ↔ ins.opcode.fallsThrough ∧ q = (o + 1, after) := by
  unfold onwardOf
  split <;> simp [*]

theorem length_onwardOf (o : Nat) (ins : Instruction) (after : Int) :
    (onwardOf o ins after).length ≤ 1 := by
  unfold onwardOf
  split <;> simp

theorem reaches_onwardOf {o : Nat} {ins : Instruction} {after : Int} (reached : Reaches code o)
    (here : code[o]? = some ins) : ∀ q ∈ onwardOf o ins after, Reaches code q.1 := by
  intro q member
  obtain ⟨falls, rfl⟩ := mem_onwardOf.mp member
  exact reached.onward here falls

/-- The ways in which control leaves an instruction with the depth `after`: by a branch to a label
    of the run, by one to a label outside of it, or without a branch. -/
inductive Departs (code : List Instruction) (o : Nat) (ins : Instruction) (after : Int) :
    List (Nat × Int) → List RunExit → Prop
  | inside {l : Label} {t : Nat} (transfers : branches ins) (target : ins.target? = some l)
      (found : Code.position? code l = some t) :
      Departs code o ins after (onwardOf o ins after ++ [(t, after)]) []
  | outside {l : Label} (transfers : branches ins) (target : ins.target? = some l)
      (absent : Code.position? code l = none) :
      Departs code o ins after (onwardOf o ins after) [⟨o, l, after⟩]
  | straight (straight : ¬ branches ins)
      (stays : ins.opcode.flow ≠ .leave ∧ ins.opcode.flow ≠ .endFinally) :
      Departs code o ins after (onwardOf o ins after) []

theorem successors_departs {o : Nat} {ins : Instruction} {after : Int} {next : List (Nat × Int)}
    {exits : List RunExit} (success : successors code o ins after = .ok (next, exits)) :
    Departs code o ins after next exits := by
  unfold successors at success
  cases flow : ins.opcode.flow <;> rw [flow] at success
  case leave => cases success
  case endFinally => cases success
  case branch | condBranch =>
    have transfers : branches ins := by simp [branches, flow]
    simp only at success
    split at success
    · cases success
    next l target =>
      split at success
      · next t found =>
          cases success
          exact .inside transfers target found
      · next absent =>
          cases success
          exact .outside transfers target absent
  all_goals
    cases success
    exact .straight (by simp [branches, flow]) (by simp [flow])

/-- A branch to a label of the run. -/
theorem follows_inside {o t : Nat} {ins : Instruction} {after : Int} {l : Label}
    (transfers : branches ins) (target : ins.target? = some l)
    (found : Code.position? code l = some t) :
    Follows code o ins after (onwardOf o ins after ++ [(t, after)]) [] where
  stays := by rcases transfers with flow | flow <;> simp [flow]
  onward := fun falls => List.mem_append_left _ (mem_onwardOf.mpr ⟨falls, rfl⟩)
  inside := by
    intro l' t' _ target' found'
    obtain rfl : l = l' := Option.some.inj (target.symm.trans target')
    obtain rfl : t = t' := Option.some.inj (found.symm.trans found')
    simp
  outside := by
    intro l' _ target' absent
    obtain rfl : l = l' := Option.some.inj (target.symm.trans target')
    rw [found] at absent
    cases absent
  named := fun _ => by simp [target]
  reached := by
    intro reached here q member
    rcases List.mem_append.mp member with onward | branch
    · exact reaches_onwardOf reached here q onward
    · obtain rfl := List.mem_singleton.mp branch
      exact reached.branch here transfers target found
  length := by
    have := length_onwardOf o ins after
    simp only [List.length_append, List.length_singleton]
    omega

/-- A branch to a label outside of the run. -/
theorem follows_outside {o : Nat} {ins : Instruction} {after : Int} {l : Label}
    (transfers : branches ins) (target : ins.target? = some l)
    (absent : Code.position? code l = none) :
    Follows code o ins after (onwardOf o ins after) [⟨o, l, after⟩] where
  stays := by rcases transfers with flow | flow <;> simp [flow]
  onward := fun falls => mem_onwardOf.mpr ⟨falls, rfl⟩
  inside := by
    intro l' t' _ target' found
    obtain rfl : l = l' := Option.some.inj (target.symm.trans target')
    rw [absent] at found
    cases found
  outside := by
    intro l' _ target' _
    obtain rfl : l = l' := Option.some.inj (target.symm.trans target')
    simp
  named := fun _ => by simp [target]
  reached := reaches_onwardOf
  length := Nat.le_succ_of_le (length_onwardOf o ins after)

/-- An instruction that does not branch. -/
theorem follows_straight {o : Nat} {ins : Instruction} {after : Int}
    (straight : ¬ branches ins)
    (stays : ins.opcode.flow ≠ .leave ∧ ins.opcode.flow ≠ .endFinally) :
    Follows code o ins after (onwardOf o ins after) [] where
  stays := stays
  onward := fun falls => mem_onwardOf.mpr ⟨falls, rfl⟩
  inside := fun transfers => absurd transfers straight
  outside := fun transfers => absurd transfers straight
  named := fun transfers => absurd transfers straight
  reached := reaches_onwardOf
  length := Nat.le_succ_of_le (length_onwardOf o ins after)

theorem Departs.follows {o : Nat} {ins : Instruction} {after : Int} {next : List (Nat × Int)}
    {exits : List RunExit} (departs : Departs code o ins after next exits) :
    Follows code o ins after next exits := by
  cases departs with
  | inside transfers target found => exact follows_inside transfers target found
  | outside transfers target absent => exact follows_outside transfers target absent
  | straight straight stays => exact follows_straight straight stays

theorem successors_eq_ok {o : Nat} {ins : Instruction} {after : Int} {next : List (Nat × Int)}
    {exits : List RunExit} (success : successors code o ins after = .ok (next, exits)) :
    Follows code o ins after next exits :=
  (successors_departs success).follows

/-! ### Exploring -/

/-- What the exploration does with an entry of its work list: what it adds to the list, and what it
    knows afterwards. -/
inductive Explores (symbols : SymbolTable) (enclosing : MethodDef) (code : List Instruction)
    (seen : Exploration) : Nat × Int → List (Nat × Int) → Exploration → Prop
  | known {o : Nat} {r : Int} (found : seen.depths.lookup o = some r) :
      Explores symbols enclosing code seen (o, r) [] seen
  | finish {o : Nat} {r : Int} (new : seen.depths.lookup o = none) (behind : code[o]? = none) :
      Explores symbols enclosing code seen (o, r) [] { seen with depths := (o, r) :: seen.depths }
  | visit {o : Nat} {r : Int} {ins : Instruction} {change : StackEffect}
      {next : List (Nat × Int)} {exits : List RunExit} (new : seen.depths.lookup o = none)
      (here : code[o]? = some ins)
      (effect : StackEffect.ofInstruction symbols enclosing ins = .ok change)
      (leads : successors code o ins (r + change.delta) = .ok (next, exits)) :
      Explores symbols enclosing code seen (o, r) next
        ⟨(o, r) :: seen.depths, min seen.lowest (r - change.pops), seen.exits ++ exits⟩

theorem explore_step {fuel : Nat} {q : Nat × Int} {work : List (Nat × Int)}
    {seen seen' : Exploration}
    (success : explore symbols enclosing code (fuel + 1) (q :: work) seen = .ok seen') :
    ∃ next between, Explores symbols enclosing code seen q next between ∧
      explore symbols enclosing code fuel (next ++ work) between = .ok seen' := by
  obtain ⟨o, r⟩ := q
  unfold explore at success
  split at success
  · next expected found =>
      split at success
      · next same =>
          subst same
          exact ⟨[], seen, .known found, success⟩
      · cases success
  · next new =>
      simp only at success
      split at success
      · next behind => exact ⟨[], _, .finish new behind, success⟩
      · next ins here =>
          obtain ⟨change, effect, success⟩ := Except.bind_eq_ok success
          obtain ⟨⟨next, exits⟩, leads, success⟩ := Except.bind_eq_ok success
          exact ⟨next, _, .visit new here (Except.mapError_eq_ok.mp effect) leads, success⟩

/-- What is known of a run agrees with itself, up to what still waits in the work list. -/
structure Explored (symbols : SymbolTable) (enclosing : MethodDef) (code : List Instruction)
    (seen : Exploration) (work : List (Nat × Int)) : Prop where
  start : (0, 0) ∈ work ∨ seen.depths.lookup 0 = some 0
  closed : ∀ {o : Nat} {r : Int} {ins : Instruction}, seen.depths.lookup o = some r →
    code[o]? = some ins → ∃ effect next exits,
      StackEffect.ofInstruction symbols enclosing ins = .ok effect ∧
      seen.lowest ≤ r - effect.pops ∧ Follows code o ins (r + effect.delta) next exits ∧
      (∀ q ∈ next, q ∈ work ∨ seen.depths.lookup q.1 = some q.2) ∧ exits ⊆ seen.exits
  reached : ∀ {o : Nat} {r : Int}, seen.depths.lookup o = some r → Reaches code o
  waiting : ∀ q ∈ work, Reaches code q.1
  distinct : (seen.depths.map Prod.fst).Nodup

/-- How many instructions have been reached. -/
def visited (code : List Instruction) (seen : Exploration) : Nat :=
  (seen.depths.map Prod.fst).countP fun o => o < code.length

theorem visited_cons {seen : Exploration} {o : Nat} {r lowest : Int} {exits : List RunExit} :
    visited code ⟨(o, r) :: seen.depths, lowest, exits⟩ =
      visited code seen + if o < code.length then 1 else 0 := by
  simp [visited, List.countP_cons]

namespace Explored

variable {seen : Exploration} {work : List (Nat × Int)}

theorem initial : Explored symbols enclosing code .start [(0, 0)] where
  start := Or.inl (List.mem_singleton.mpr rfl)
  closed := fun found => by cases found
  reached := fun found => by cases found
  waiting := fun q member => by
    obtain rfl := List.mem_singleton.mp member
    exact .entry
  distinct := List.Pairwise.nil

theorem visited_le (explored : Explored symbols enclosing code seen work) :
    visited code seen ≤ code.length := by
  unfold visited
  rw [List.countP_eq_length_filter]
  have within : (seen.depths.map Prod.fst).filter (fun o => o < code.length) ⊆
      List.range code.length := by
    intro o member
    simpa using (List.mem_filter.mp member).2
  simpa using (List.subperm_of_subset (explored.distinct.filter _) within).length_le

/-- An offset that was reached before with the same depth is done with. -/
theorem skip {o : Nat} {r : Int}
    (explored : Explored symbols enclosing code seen ((o, r) :: work))
    (found : seen.depths.lookup o = some r) : Explored symbols enclosing code seen work where
  start := by
    rcases explored.start with waiting | done
    · rcases List.mem_cons.mp waiting with equal | waiting
      · cases equal
        exact Or.inr found
      · exact Or.inl waiting
    · exact Or.inr done
  closed := by
    intro o' r' ins found' here
    obtain ⟨effect, next, exits, effect_eq, enough, follows, known, left⟩ :=
      explored.closed found' here
    refine ⟨effect, next, exits, effect_eq, enough, follows, fun q member => ?_, left⟩
    rcases known q member with waiting | done
    · rcases List.mem_cons.mp waiting with rfl | waiting
      · exact Or.inr found
      · exact Or.inl waiting
    · exact Or.inr done
  reached := explored.reached
  waiting := fun q member => explored.waiting q (List.mem_cons_of_mem _ member)
  distinct := explored.distinct

/-- Noting the depth of a new offset keeps the invariant, when what follows it is added to the work
    list. -/
theorem visit {o : Nat} {r lowest : Int}
    (explored : Explored symbols enclosing code seen ((o, r) :: work))
    (next : List (Nat × Int)) (exits : List RunExit)
    (new : seen.depths.lookup o = none) (lower : lowest ≤ seen.lowest)
    (first : ∀ ins, code[o]? = some ins → ∃ effect,
      StackEffect.ofInstruction symbols enclosing ins = .ok effect ∧
      lowest ≤ r - effect.pops ∧ Follows code o ins (r + effect.delta) next exits)
    (onward : ∀ q ∈ next, Reaches code q.1) :
    Explored symbols enclosing code ⟨(o, r) :: seen.depths, lowest, seen.exits ++ exits⟩
      (next ++ work) := by
  have lookup : ∀ x, List.lookup x ((o, r) :: seen.depths) =
      if x = o then some r else seen.depths.lookup x := fun x => lookup_cons_eq o x r seen.depths
  have kept : ∀ {x d}, seen.depths.lookup x = some d →
      List.lookup x ((o, r) :: seen.depths) = some d := by
    intro x d found
    rw [lookup, if_neg, found]
    rintro rfl
    rw [new] at found
    cases found
  have still : ∀ q : Nat × Int, q ∈ (o, r) :: work ∨ seen.depths.lookup q.1 = some q.2 →
      q ∈ next ++ work ∨ List.lookup q.1 ((o, r) :: seen.depths) = some q.2 := by
    rintro q (waiting | done)
    · rcases List.mem_cons.mp waiting with rfl | waiting
      · exact Or.inr (by simp [lookup])
      · exact Or.inl (List.mem_append_right _ waiting)
    · exact Or.inr (kept done)
  refine {
    start := still (0, 0) explored.start
    closed := fun {x d ins} found here => ?_
    reached := fun {x d} found => ?_
    waiting := fun q member => ?_
    distinct := List.nodup_cons.mpr ⟨not_mem_keys new, explored.distinct⟩ }
  · rw [lookup] at found
    split at found
    · next equal =>
        subst equal
        cases found
        obtain ⟨effect, effect_eq, enough, follows⟩ := first ins here
        exact ⟨effect, next, exits, effect_eq, enough, follows,
          fun q member => Or.inl (List.mem_append_left _ member), List.subset_append_right _ _⟩
    · obtain ⟨effect, next', exits', effect_eq, enough, follows, known, left⟩ :=
        explored.closed found here
      exact ⟨effect, next', exits', effect_eq, Int.le_trans lower enough, follows,
        fun q member => still q (known q member), fun e member =>
          List.mem_append_left _ (left member)⟩
  · rw [lookup] at found
    split at found
    · next equal =>
        subst equal
        exact explored.waiting _ (List.mem_cons_self ..)
    · exact explored.reached found
  · rcases List.mem_append.mp member with new | old
    · exact onward q new
    · exact explored.waiting q (List.mem_cons_of_mem _ old)

/-- One step of the exploration keeps the invariant. -/
theorem step {q : Nat × Int} {next : List (Nat × Int)} {between : Exploration}
    (explored : Explored symbols enclosing code seen (q :: work))
    (explores : Explores symbols enclosing code seen q next between) :
    Explored symbols enclosing code between (next ++ work) := by
  cases explores with
  | known found => exact explored.skip found
  | finish new behind =>
      have visited := explored.visit [] [] new (Int.le_refl _)
        (fun ins here => by rw [behind] at here; cases here) (by simp)
      rwa [List.append_nil] at visited
  | visit new here effect leads =>
      have follows := successors_eq_ok leads
      refine explored.visit _ _ new (Int.min_le_left ..) (fun ins here' => ?_)
        (follows.reached (explored.waiting _ (List.mem_cons_self ..)) here)
      obtain rfl := Option.some.inj (here.symm.trans here')
      exact ⟨_, effect, Int.min_le_right .., follows⟩

end Explored

/-- A bound for the steps that are left: each instruction that has not been reached adds at most two
    entries to the work list. -/
def remaining (code : List Instruction) (seen : Exploration) (work : List (Nat × Int)) : Nat :=
  2 * (code.length - visited code seen) + work.length

theorem remaining_lt {q : Nat × Int} {next work : List (Nat × Int)} {seen between : Exploration}
    (explored : Explored symbols enclosing code seen (q :: work))
    (explores : Explores symbols enclosing code seen q next between) :
    remaining code between (next ++ work) < remaining code seen (q :: work) := by
  have within := (explored.step explores).visited_le
  simp only [remaining, List.length_append, List.length_cons]
  cases explores with
  | known found => simp
  | finish new behind =>
      rw [visited_cons]
      simp only [List.length_nil]
      omega
  | visit new here effect leads =>
      have below := (List.getElem?_eq_some_iff.mp here).1
      have length := (successors_eq_ok leads).length
      rw [visited_cons, if_pos below] at within ⊢
      omega

/-- When nothing waits any more, the exploration has closed: the fuel lasts for all of its steps. -/
theorem explore_eq_ok {fuel : Nat} {work : List (Nat × Int)} {seen seen' : Exploration}
    (explored : Explored symbols enclosing code seen work)
    (enough : remaining code seen work ≤ fuel)
    (success : explore symbols enclosing code fuel work seen = .ok seen') :
    Explored symbols enclosing code seen' [] := by
  induction fuel generalizing work seen with
  | zero =>
      obtain rfl : work = [] := List.eq_nil_of_length_eq_zero (by unfold remaining at enough; omega)
      cases success
      exact explored
  | succ fuel ih =>
      cases work with
      | nil =>
          cases success
          exact explored
      | cons q work =>
          obtain ⟨next, between, explores, success⟩ := explore_step success
          have less := remaining_lt explored explores
          exact ih (explored.step explores) (by omega) success

/-- The exploration of a whole run closes. -/
theorem Explored.of_explore {seen : Exploration}
    (success : explore symbols enclosing code (fuelFor code) [(0, 0)] .start = .ok seen) :
    Explored symbols enclosing code seen [] :=
  explore_eq_ok .initial (by simp [remaining, visited, Exploration.start, fuelFor]) success

/-! ### Attached labels -/

theorem ofInstruction_alike {a b : Instruction} (alike : a.Alike b) :
    StackEffect.ofInstruction symbols enclosing a =
      StackEffect.ofInstruction symbols enclosing b := by
  simp [StackEffect.ofInstruction, StackEffect.ofCall, alike.1, alike.2]

/-- Labels that no branch of a run names play no part in its exploration. -/
theorem explore_alike {code' : List Instruction} (length : code'.length = code.length)
    (alike : ∀ (o : Nat) (ins : Instruction), code[o]? = some ins →
      ∃ ins', code'[o]? = some ins' ∧ ins'.Alike ins)
    (resolves : ∀ ins ∈ code, ∀ l, ins.target? = some l →
      Code.position? code' l = Code.position? code l)
    (fuel : Nat) (work : List (Nat × Int)) (seen : Exploration) :
    explore symbols enclosing code' fuel work seen =
      explore symbols enclosing code fuel work seen := by
  induction fuel generalizing work seen with
  | zero => rfl
  | succ fuel ih =>
      cases work with
      | nil => rfl
      | cons entry work =>
          obtain ⟨o, r⟩ := entry
          unfold explore
          cases here : code[o]? with
          | none =>
              have there : code'[o]? = none := by
                rw [List.getElem?_eq_none_iff] at here ⊢
                omega
              simp only [there, ih]
          | some ins =>
              obtain ⟨ins', there, same⟩ := alike o ins here
              have effect : StackEffect.ofPosition symbols enclosing o ins' =
                  StackEffect.ofPosition symbols enclosing o ins := by
                unfold StackEffect.ofPosition
                rw [ofInstruction_alike same]
              have next (after : Int) : successors code' o ins' after =
                successors code o ins after := by
                unfold successors
                rw [same.target?, same.1]
                cases target : ins.target? with
                | none => rfl
                | some l => simp only [resolves ins (List.mem_of_getElem? here) l target]
              simp only [there, effect, next, ih]

/-! ### The effect of a run -/

/-- The depth, relative to that on entry, with which control reaches an offset of a run. -/
def depthAt? (symbols : SymbolTable) (enclosing : MethodDef) (code : List Instruction)
    (offset : Nat) : Option Int :=
  match explore symbols enclosing code (fuelFor code) [(0, 0)] .start with
  | .ok seen => seen.depths.lookup offset
  | .error _ => none

theorem depthAt?_alike {code' : List Instruction} (length : code'.length = code.length)
    (alike : ∀ (o : Nat) (ins : Instruction), code[o]? = some ins →
      ∃ ins', code'[o]? = some ins' ∧ ins'.Alike ins)
    (resolves : ∀ ins ∈ code, ∀ l, ins.target? = some l →
      Code.position? code' l = Code.position? code l) :
    depthAt? symbols enclosing code' = depthAt? symbols enclosing code := by
  funext o
  unfold depthAt? fuelFor
  rw [length, explore_alike length alike resolves]

/-- The relative depths of a run whose effect is known. -/
structure Run (symbols : SymbolTable) (enclosing : MethodDef) (code : List Instruction)
    (effect : RunEffect) : Prop where
  distinct : (Code.labels code).Nodup
  entry : depthAt? symbols enclosing code 0 = some 0
  final : depthAt? symbols enclosing code code.length = some effect.delta
  step : ∀ {o : Nat} {r : Int} {ins : Instruction},
    depthAt? symbols enclosing code o = some r → code[o]? = some ins → ∃ change,
      StackEffect.ofInstruction symbols enclosing ins = .ok change ∧
      change.pops ≤ r + effect.needs ∧
      ins.opcode.flow ≠ .leave ∧ ins.opcode.flow ≠ .endFinally ∧
      (ins.opcode.fallsThrough →
        depthAt? symbols enclosing code (o + 1) = some (r + change.delta)) ∧
      (∀ {l : Label} {t : Nat}, branches ins → ins.target? = some l →
        Code.position? code l = some t →
        depthAt? symbols enclosing code t = some (r + change.delta)) ∧
      (∀ {l : Label}, branches ins → ins.target? = some l → Code.position? code l = none →
        ⟨o, l, r + change.delta⟩ ∈ effect.exits)
  reached : ∀ {o : Nat} {r : Int}, depthAt? symbols enclosing code o = some r → Reaches code o

/-- Every offset that control may reach has a relative depth. -/
theorem Run.exists_of_reaches {effect : RunEffect} (run : Run symbols enclosing code effect)
    {o : Nat} (reached : Reaches code o) : ∃ r, depthAt? symbols enclosing code o = some r := by
  induction reached with
  | entry => exact ⟨0, run.entry⟩
  | onward _ here falls ih =>
      obtain ⟨r, known⟩ := ih
      obtain ⟨_, -, -, -, -, onward, -⟩ := run.step known here
      exact ⟨_, onward falls⟩
  | branch _ here transfers target found ih =>
      obtain ⟨r, known⟩ := ih
      obtain ⟨_, -, -, -, -, -, inside, -⟩ := run.step known here
      exact ⟨_, inside transfers target found⟩

/-- What the effect of a run is computed from: its labels are distinct, and the exploration reaches
    the end. -/
theorem ofRun_steps {effect : RunEffect} (success : ofRun symbols enclosing code = .ok effect) :
    ∃ seen, (Code.labels code).Nodup ∧
      explore symbols enclosing code (fuelFor code) [(0, 0)] .start = .ok seen ∧
      seen.depths.lookup code.length = some effect.delta ∧
      effect.needs = (-seen.lowest).toNat ∧
      effect.exits = Order.sortBy RunExit.offset seen.exits := by
  unfold ofRun at success
  split at success
  · cases success
  · next distinct =>
      obtain ⟨seen, explored, success⟩ := Except.bind_eq_ok success
      split at success
      · cases success
      · next delta final =>
          cases success
          exact ⟨seen, (Code.duplicate?_eq_none_iff code).mp distinct, explored, final, rfl, rfl⟩

theorem depthAt?_of_explore {seen : Exploration}
    (explored : explore symbols enclosing code (fuelFor code) [(0, 0)] .start = .ok seen)
    (o : Nat) :
    depthAt? symbols enclosing code o = seen.depths.lookup o := by
  unfold depthAt?
  rw [explored]

theorem ofRun_eq_ok {effect : RunEffect} (success : ofRun symbols enclosing code = .ok effect) :
    Run symbols enclosing code effect := by
  obtain ⟨seen, distinct, explored, final, needs, exits⟩ := ofRun_steps success
  have depths := depthAt?_of_explore explored
  have closed := Explored.of_explore explored
  have done : ∀ {q : Nat × Int}, q ∈ [] ∨ seen.depths.lookup q.1 = some q.2 →
      depthAt? symbols enclosing code q.1 = some q.2 := fun known =>
    (depths _).trans (known.resolve_left List.not_mem_nil)
  refine {
    distinct := distinct
    entry := done closed.start
    final := (depths _).trans final
    step := fun {o r ins} found here => ?_
    reached := fun {o r} found => closed.reached ((depths o).symm.trans found) }
  rw [depths] at found
  obtain ⟨change, next, left, change_eq, enough, follows, known, noted⟩ := closed.closed found here
  refine ⟨change, change_eq, ?_, follows.stays.1, follows.stays.2,
    fun falls => done (known _ (follows.onward falls)),
    fun transfers target inside => done (known _ (follows.inside transfers target inside)),
    fun transfers target outside => ?_⟩
  · omega
  · rw [exits]
    exact Order.mem_sortBy.mpr (noted (follows.outside transfers target outside))

end HookSplice.RunEffect
