import HookSplice.Proofs.Exploration
import Mathlib.Order.Bounds.Basic

/-!
# The paths of a run

The effect that is computed for a run, against the paths that control can take through it.  A path
starts at the first instruction with the relative depth zero, and each instruction changes the depth
by its own effect.  The exploration visits every offset once; the effect exists exactly when the
paths agree with each other, and then it is the exact summary of all of them.
-/

namespace HookSplice.RunEffect

variable {symbols : SymbolTable} {enclosing : MethodDef} {code : List Instruction}

/-- Control arrives at an offset of a run, or at its end, with a depth that is relative to the one
    on entry. -/
inductive Arrives (symbols : SymbolTable) (enclosing : MethodDef) (code : List Instruction) :
    Nat → Int → Prop
  | entry : Arrives symbols enclosing code 0 0
  | onward {o : Nat} {r : Int} {ins : Instruction} {change : StackEffect}
      (arrived : Arrives symbols enclosing code o r) (here : code[o]? = some ins)
      (effect : StackEffect.ofInstruction symbols enclosing ins = .ok change)
      (falls : ins.opcode.fallsThrough) : Arrives symbols enclosing code (o + 1) (r + change.delta)
  | branch {o t : Nat} {r : Int} {ins : Instruction} {change : StackEffect} {l : Label}
      (arrived : Arrives symbols enclosing code o r) (here : code[o]? = some ins)
      (effect : StackEffect.ofInstruction symbols enclosing ins = .ok change)
      (transfers : branches ins) (target : ins.target? = some l)
      (found : Code.position? code l = some t) : Arrives symbols enclosing code t (r + change.delta)

/-- The entry depth `n` is large enough that no path underflows. -/
def Suffices (symbols : SymbolTable) (enclosing : MethodDef) (code : List Instruction) (n : Nat) :
    Prop :=
  ∀ (o : Nat) (r : Int) (ins : Instruction) (change : StackEffect),
    Arrives symbols enclosing code o r → code[o]? = some ins →
      StackEffect.ofInstruction symbols enclosing ins = .ok change → (change.pops : Int) ≤ n + r

/-- A branch that control reaches, to a label outside of the run, with the relative depth on that
    edge. -/
def Leaves (symbols : SymbolTable) (enclosing : MethodDef) (code : List Instruction) (e : RunExit) :
    Prop :=
  ∃ (r : Int) (ins : Instruction) (change : StackEffect),
    Arrives symbols enclosing code e.offset r ∧ code[e.offset]? = some ins ∧
    StackEffect.ofInstruction symbols enclosing ins = .ok change ∧ branches ins ∧
    ins.target? = some e.label ∧ Code.position? code e.label = none ∧ e.delta = r + change.delta

/-- What the instructions that control reaches have to be like, and the depths on its paths, for a
    run to have an effect. -/
structure Conforms (symbols : SymbolTable) (enclosing : MethodDef) (code : List Instruction) :
    Prop where
  distinct : (Code.labels code).Nodup
  effects : ∀ {o : Nat} {ins : Instruction}, Reaches code o → code[o]? = some ins →
    ∃ change, StackEffect.ofInstruction symbols enclosing ins = .ok change
  stays : ∀ {o : Nat} {ins : Instruction}, Reaches code o → code[o]? = some ins →
    ins.opcode ≠ .leave ∧ ins.opcode ≠ .endfinally
  named : ∀ {o : Nat} {ins : Instruction}, Reaches code o → code[o]? = some ins →
    branches ins → ins.target?.isSome
  agrees : ∀ {o : Nat} {r r' : Int}, Arrives symbols enclosing code o r →
    Arrives symbols enclosing code o r' → r = r'
  ends : Reaches code code.length

/-- An effect that sums up all paths of a run. -/
structure Summary (symbols : SymbolTable) (enclosing : MethodDef) (code : List Instruction)
    (effect : RunEffect) : Prop where
  delta : ∀ r, Arrives symbols enclosing code code.length r ↔ r = effect.delta
  needs : IsLeast {n | Suffices symbols enclosing code n} effect.needs
  ordered : effect.exits.Pairwise fun a b => a.offset < b.offset
  exits : ∀ e, e ∈ effect.exits ↔ Leaves symbols enclosing code e

theorem Arrives.reaches {o : Nat} {r : Int} (arrived : Arrives symbols enclosing code o r) :
    Reaches code o := by
  induction arrived with
  | entry => exact .entry
  | onward _ here _ falls ih => exact ih.onward here falls
  | branch _ here _ transfers target found ih => exact ih.branch here transfers target found

theorem flow_eq_leave {op : Opcode} : op.flow = .leave ↔ op = .leave := by
  cases op <;> decide

theorem flow_eq_endFinally {op : Opcode} : op.flow = .endFinally ↔ op = .endfinally := by
  cases op <;> decide

/-! ### Where an instruction leads -/

/-- The successors of an instruction are those that a path may take, and nothing else. -/
structure Leads (code : List Instruction) (o : Nat) (ins : Instruction) (after : Int)
    (next : List (Nat × Int)) (exits : List RunExit) : Prop where
  next : ∀ q ∈ next, q.2 = after ∧ (ins.opcode.fallsThrough ∧ q.1 = o + 1 ∨
    ∃ l, branches ins ∧ ins.target? = some l ∧ Code.position? code l = some q.1)
  once : exits.length ≤ 1
  exits : ∀ e ∈ exits, e.offset = o ∧ e.delta = after ∧ branches ins ∧
    ins.target? = some e.label ∧ Code.position? code e.label = none

theorem leads_onward {o : Nat} {ins : Instruction} {after : Int} :
    ∀ q ∈ onwardOf o ins after, q.2 = after ∧ (ins.opcode.fallsThrough ∧ q.1 = o + 1 ∨
      ∃ l, branches ins ∧ ins.target? = some l ∧ Code.position? code l = some q.1) := by
  intro q member
  obtain ⟨falls, rfl⟩ := mem_onwardOf.mp member
  exact ⟨rfl, Or.inl ⟨falls, rfl⟩⟩

theorem leads_of_successors {o : Nat} {ins : Instruction} {after : Int} {next : List (Nat × Int)}
    {exits : List RunExit} (success : successors code o ins after = .ok (next, exits)) :
    Leads code o ins after next exits := by
  cases successors_departs success with
  | @inside l t transfers target found =>
      refine ⟨fun q member => ?_, Nat.zero_le 1, by simp⟩
      rcases List.mem_append.mp member with onward | branch
      · exact leads_onward q onward
      · obtain rfl := List.mem_singleton.mp branch
        exact ⟨rfl, Or.inr ⟨l, transfers, target, found⟩⟩
  | outside transfers target absent =>
      refine ⟨leads_onward, Nat.le_refl 1, fun e member => ?_⟩
      obtain rfl := List.mem_singleton.mp member
      exact ⟨rfl, rfl, transfers, target, absent⟩
  | straight => exact ⟨leads_onward, Nat.zero_le 1, by simp⟩

/-- Only `leave`, `endfinally` and branches without a label have no successors. -/
theorem exists_successors (code : List Instruction) {ins : Instruction}
    (stays : ins.opcode ≠ .leave ∧ ins.opcode ≠ .endfinally)
    (named : branches ins → ins.target?.isSome) (o : Nat) (after : Int) :
    ∃ next exits, successors code o ins after = .ok (next, exits) := by
  unfold successors
  cases flow : ins.opcode.flow
  case leave => exact absurd (flow_eq_leave.mp flow) stays.1
  case endFinally => exact absurd (flow_eq_endFinally.mp flow) stays.2
  case branch | condBranch =>
    obtain ⟨l, target⟩ := Option.isSome_iff_exists.mp (named (by simp [branches, flow]))
    simp only [target]
    cases Code.position? code l with
    | some t => exact ⟨_, _, rfl⟩
    | none => exact ⟨_, _, rfl⟩
  all_goals exact ⟨_, _, rfl⟩

/-! ### The exploration follows paths -/

/-- Everything that the exploration has noted, and all that still waits, lies on some path. -/
structure Traced (symbols : SymbolTable) (enclosing : MethodDef) (code : List Instruction)
    (seen : Exploration) (work : List (Nat × Int)) : Prop where
  depths : ∀ {o : Nat} {r : Int}, seen.depths.lookup o = some r → Arrives symbols enclosing code o r
  waiting : ∀ q ∈ work, Arrives symbols enclosing code q.1 q.2
  lowest_le : seen.lowest ≤ 0
  lowest : ∀ n : Nat, Suffices symbols enclosing code n → -seen.lowest ≤ n
  exits : ∀ e ∈ seen.exits, Leaves symbols enclosing code e
  visited : ∀ e ∈ seen.exits, (seen.depths.lookup e.offset).isSome
  once : (seen.exits.map RunExit.offset).Nodup

namespace Traced

variable {seen : Exploration} {work : List (Nat × Int)}

theorem initial : Traced symbols enclosing code .start [(0, 0)] where
  depths := fun found => by cases found
  waiting := fun q member => by
    obtain rfl := List.mem_singleton.mp member
    exact .entry
  lowest_le := Int.le_refl 0
  lowest := fun n _ => by simp [Exploration.start]
  exits := fun e member => by cases member
  visited := fun e member => by cases member
  once := List.nodup_nil

theorem skip {q : Nat × Int} (traced : Traced symbols enclosing code seen (q :: work)) :
    Traced symbols enclosing code seen work :=
  { traced with waiting := fun p member => traced.waiting p (List.mem_cons_of_mem q member) }

/-- The end of the run is noted; nothing follows it. -/
theorem finish {o : Nat} {r : Int} (traced : Traced symbols enclosing code seen ((o, r) :: work)) :
    Traced symbols enclosing code { seen with depths := (o, r) :: seen.depths } work where
  depths := by
    intro x d found
    rw [lookup_cons_eq] at found
    split at found
    · next equal =>
        subst equal
        cases found
        exact traced.waiting _ (List.mem_cons_self ..)
    · exact traced.depths found
  waiting := traced.skip.waiting
  lowest_le := traced.lowest_le
  lowest := traced.lowest
  exits := traced.exits
  visited := by
    intro e member
    simp only [lookup_cons_eq]
    split
    · rfl
    · exact traced.visited e member
  once := traced.once

/-- Visiting an instruction for the first time: its successors wait, and if it leaves the run then
    no exit was noted for it before. -/
theorem visit {o : Nat} {r : Int} {ins : Instruction} {change : StackEffect}
    {next : List (Nat × Int)} {exits : List RunExit}
    (traced : Traced symbols enclosing code seen ((o, r) :: work))
    (new : seen.depths.lookup o = none) (here : code[o]? = some ins)
    (effect : StackEffect.ofInstruction symbols enclosing ins = .ok change)
    (leads : Leads code o ins (r + change.delta) next exits) :
    Traced symbols enclosing code
      ⟨(o, r) :: seen.depths, min seen.lowest (r - change.pops), seen.exits ++ exits⟩
      (next ++ work) := by
  have arrived : Arrives symbols enclosing code o r := traced.waiting (o, r) (List.mem_cons_self ..)
  refine { depths := traced.finish.depths, waiting := ?_, lowest_le := ?_, lowest := ?_,
           exits := ?_, visited := ?_, once := ?_ }
  · intro q member
    rcases List.mem_append.mp member with follows | old
    · obtain ⟨depth, ⟨falls, position⟩ | ⟨l, transfers, target, found⟩⟩ := leads.next q follows
      · rw [depth, position]
        exact arrived.onward here effect falls
      · rw [depth]
        exact arrived.branch here effect transfers target found
    · exact traced.skip.waiting q old
  · exact Int.le_trans (Int.min_le_left _ _) traced.lowest_le
  · intro n enough
    have before := traced.lowest n enough
    have now := enough o r ins change arrived here effect
    show -(min seen.lowest (r - (change.pops : Int))) ≤ n
    omega
  · intro e member
    rcases List.mem_append.mp member with old | added
    · exact traced.exits e old
    · obtain ⟨rfl, delta, transfers, target, outside⟩ := leads.exits e added
      exact ⟨r, ins, change, arrived, here, effect, transfers, target, outside, delta⟩
  · intro e member
    rcases List.mem_append.mp member with old | added
    · exact traced.finish.visited e old
    · obtain ⟨rfl, -⟩ := leads.exits e added
      simp
  · rw [List.map_append, List.nodup_append]
    refine ⟨traced.once, ?_, ?_⟩
    · cases exits with
      | nil => exact List.nodup_nil
      | cons e rest =>
          obtain rfl : rest = [] := List.eq_nil_of_length_eq_zero (by simpa using leads.once)
          exact List.pairwise_singleton _ _
    · intro x old y added equal
      obtain ⟨e, member, rfl⟩ := List.mem_map.mp old
      obtain ⟨e', member', rfl⟩ := List.mem_map.mp added
      -- An exit that was noted before stands at an offset that was visited before.
      have earlier := traced.visited e member
      rw [equal, (leads.exits e' member').1, new] at earlier
      cases earlier

/-- One step of the exploration stays on paths. -/
theorem step {q : Nat × Int} {next : List (Nat × Int)} {between : Exploration}
    (traced : Traced symbols enclosing code seen (q :: work))
    (explores : Explores symbols enclosing code seen q next between) :
    Traced symbols enclosing code between (next ++ work) := by
  cases explores with
  | known found => exact traced.skip
  | finish new behind => exact traced.finish
  | visit new here effect leads => exact traced.visit new here effect (leads_of_successors leads)

end Traced

theorem explore_traced {fuel : Nat} {work : List (Nat × Int)} {seen seen' : Exploration}
    (traced : Traced symbols enclosing code seen work)
    (success : explore symbols enclosing code fuel work seen = .ok seen') :
    Traced symbols enclosing code seen' [] := by
  induction fuel generalizing work seen with
  | zero =>
      cases success
      exact { traced with waiting := fun q member => by cases member }
  | succ fuel ih =>
      cases work with
      | nil =>
          cases success
          exact traced
      | cons q work =>
          obtain ⟨next, between, explores, success⟩ := explore_step success
          exact ih (traced.step explores) success

/-- The exploration of a run that conforms does not stop early: an offset is only ever reached with
    the depth that was noted for it. -/
theorem exists_explore (conforms : Conforms symbols enclosing code) (fuel : Nat)
    {work : List (Nat × Int)} {seen : Exploration}
    (traced : Traced symbols enclosing code seen work) :
    ∃ seen', explore symbols enclosing code fuel work seen = .ok seen' := by
  induction fuel generalizing work seen with
  | zero => exact ⟨seen, rfl⟩
  | succ fuel ih =>
      match work with
      | [] => exact ⟨seen, rfl⟩
      | (o, r) :: work =>
          have arrived : Arrives symbols enclosing code o r :=
            traced.waiting (o, r) (List.mem_cons_self ..)
          unfold explore
          cases found : seen.depths.lookup o with
          | some expected =>
              have same : expected = r := conforms.agrees (traced.depths found) arrived
              simp only [same, if_true]
              exact ih traced.skip
          | none =>
              cases here : code[o]? with
              | none => exact ih traced.finish
              | some ins =>
                  have reached := arrived.reaches
                  obtain ⟨change, effect⟩ := conforms.effects reached here
                  obtain ⟨next, exits, successors⟩ := exists_successors code
                    (conforms.stays reached here) (conforms.named reached here) o (r + change.delta)
                  have located : StackEffect.ofPosition symbols enclosing o ins = .ok change :=
                    Except.mapError_eq_ok.mpr effect
                  simp only [located, Except.ok_bind, successors]
                  exact ih (traced.visit found here effect (leads_of_successors successors))

/-! ### The effect is exact -/

/-- An exploration that has come to its end has noted everything that control reaches. -/
theorem Explored.exists_of_reaches {seen : Exploration}
    (explored : Explored symbols enclosing code seen []) {o : Nat} (reached : Reaches code o) :
    ∃ r, seen.depths.lookup o = some r := by
  have done : ∀ {q : Nat × Int}, q ∈ [] ∨ seen.depths.lookup q.1 = some q.2 →
      seen.depths.lookup q.1 = some q.2 := fun known => known.resolve_left List.not_mem_nil
  induction reached with
  | entry => exact ⟨0, done explored.start⟩
  | onward _ here falls ih =>
      obtain ⟨r, noted⟩ := ih
      obtain ⟨_, _, _, -, -, follows, known, -⟩ := explored.closed noted here
      exact ⟨_, done (known _ (follows.onward falls))⟩
  | branch _ here transfers target found ih =>
      obtain ⟨r, noted⟩ := ih
      obtain ⟨_, _, _, -, -, follows, known, -⟩ := explored.closed noted here
      exact ⟨_, done (known _ (follows.inside transfers target found))⟩

/-- Every path arrives with the depth that the exploration has noted. -/
theorem Run.depthAt?_of_arrives {effect : RunEffect} (run : Run symbols enclosing code effect)
    {o : Nat} {r : Int} (arrived : Arrives symbols enclosing code o r) :
    depthAt? symbols enclosing code o = some r := by
  induction arrived with
  | entry => exact run.entry
  | onward _ here change falls ih =>
      obtain ⟨change', effect', -, -, -, onward, -⟩ := run.step ih here
      obtain rfl := Except.ok.inj (change.symm.trans effect')
      exact onward falls
  | branch _ here change transfers target found ih =>
      obtain ⟨change', effect', -, -, -, -, inside, -⟩ := run.step ih here
      obtain rfl := Except.ok.inj (change.symm.trans effect')
      exact inside transfers target found

/-- In a run whose effect is known, control arrives wherever it reaches. -/
theorem Run.exists_arrives {effect : RunEffect} (run : Run symbols enclosing code effect) {o : Nat}
    (reached : Reaches code o) : ∃ r, Arrives symbols enclosing code o r := by
  induction reached with
  | entry => exact ⟨0, .entry⟩
  | onward _ here falls ih =>
      obtain ⟨r, arrived⟩ := ih
      obtain ⟨change, effect', -⟩ := run.step (run.depthAt?_of_arrives arrived) here
      exact ⟨_, arrived.onward here effect' falls⟩
  | branch _ here transfers target found ih =>
      obtain ⟨r, arrived⟩ := ih
      obtain ⟨change, effect', -⟩ := run.step (run.depthAt?_of_arrives arrived) here
      exact ⟨_, arrived.branch here effect' transfers target found⟩

theorem conforms_of_ofRun {effect : RunEffect}
    (success : ofRun symbols enclosing code = .ok effect) :
    Conforms symbols enclosing code := by
  have run := ofRun_eq_ok success
  refine {
    distinct := run.distinct
    effects := fun {o ins} reached here => ?_
    stays := fun {o ins} reached here => ?_
    named := fun {o ins} reached here transfers => ?_
    agrees := fun {o r r'} arrived arrived' => ?_
    ends := run.reached run.final }
  · obtain ⟨r, known⟩ := run.exists_of_reaches reached
    obtain ⟨change, effect', -⟩ := run.step known here
    exact ⟨change, effect'⟩
  · obtain ⟨r, known⟩ := run.exists_of_reaches reached
    obtain ⟨_, -, -, leave, finally', -⟩ := run.step known here
    exact ⟨mt flow_eq_leave.mpr leave, mt flow_eq_endFinally.mpr finally'⟩
  · obtain ⟨r, known⟩ := run.exists_of_reaches reached
    obtain ⟨seen, -, explored, -⟩ := ofRun_steps success
    have closed := Explored.of_explore explored
    unfold depthAt? at known
    rw [explored] at known
    obtain ⟨_, _, _, -, -, follows, -⟩ := closed.closed known here
    exact follows.named transfers
  · have known := run.depthAt?_of_arrives arrived
    rw [run.depthAt?_of_arrives arrived'] at known
    exact (Option.some.inj known).symm

theorem exists_ofRun (conforms : Conforms symbols enclosing code) :
    ∃ effect, ofRun symbols enclosing code = .ok effect := by
  obtain ⟨seen, explored⟩ := exists_explore conforms (fuelFor code) Traced.initial
  have closed := Explored.of_explore explored
  obtain ⟨delta, final⟩ := closed.exists_of_reaches conforms.ends
  unfold ofRun
  rw [(Code.duplicate?_eq_none_iff code).mpr conforms.distinct]
  simp only [explored, Except.ok_bind, final]
  exact ⟨_, rfl⟩

theorem summary_of_ofRun {effect : RunEffect}
    (success : ofRun symbols enclosing code = .ok effect) :
    Summary symbols enclosing code effect := by
  have run := ofRun_eq_ok success
  obtain ⟨seen, -, explored, -, needs, exits⟩ := ofRun_steps success
  have traced := explore_traced Traced.initial explored
  refine { delta := fun r => ⟨fun arrived => ?_, ?_⟩, needs := ⟨?_, fun n enough => ?_⟩,
           ordered := ?_, exits := fun e => ⟨fun member => ?_, ?_⟩ }
  · have known := run.depthAt?_of_arrives arrived
    rw [run.final] at known
    exact (Option.some.inj known).symm
  · rintro rfl
    obtain ⟨r, arrived⟩ := run.exists_arrives (run.reached run.final)
    have known := run.depthAt?_of_arrives arrived
    rw [run.final] at known
    rw [Option.some.inj known]
    exact arrived
  · intro o r ins change arrived here change_eq
    obtain ⟨change', change'_eq, enough, -⟩ := run.step (run.depthAt?_of_arrives arrived) here
    obtain rfl := Except.ok.inj (change_eq.symm.trans change'_eq)
    omega
  · have least := traced.lowest n enough
    rw [needs]
    omega
  · have apart : seen.exits.Pairwise fun a b => a.offset ≠ b.offset :=
      List.pairwise_map.mp traced.once
    rw [exits]
    apply (Order.stably_sortBy RunExit.offset apart).imp
    intro a b stably
    rcases stably with before | ⟨equal, differs⟩
    · exact before
    · exact absurd equal differs
  · rw [exits] at member
    exact traced.exits e (Order.mem_sortBy.mp member)
  · rintro ⟨r, ins, change, arrived, here, change_eq, transfers, target, outside, delta⟩
    obtain ⟨change', change'_eq, -, -, -, -, -, left⟩ :=
      run.step (run.depthAt?_of_arrives arrived) here
    obtain rfl := Except.ok.inj (change_eq.symm.trans change'_eq)
    have member := left transfers target outside
    rw [← delta] at member
    exact member

/-- A run has an effect exactly if it conforms, and the effect sums up all of its paths. -/
theorem ofRun_exact (symbols : SymbolTable) (enclosing : MethodDef) (code : List Instruction) :
    ((∃ effect, ofRun symbols enclosing code = .ok effect) ↔ Conforms symbols enclosing code) ∧
      ∀ effect, ofRun symbols enclosing code = .ok effect →
        Summary symbols enclosing code effect := by
  refine ⟨⟨?_, exists_ofRun⟩, fun effect success => summary_of_ofRun success⟩
  rintro ⟨effect, success⟩
  exact conforms_of_ofRun success

/-- The symbols of a class with a static method `poll` without parameters or result. -/
def pollSymbols : SymbolTable :=
  ⟨["Poll"], [], [⟨⟨⟨0⟩, "poll", [], none, true⟩, "Poll::poll()"⟩]⟩

/-- The signature of that method. -/
def poll : MethodDef :=
  ⟨⟨0⟩, "poll", [], none, true⟩

/-- A loop over the value on top of the stack, with a branch out of the run. -/
def pollLoop : List Instruction :=
  [⟨.dup, .none, [⟨0⟩]⟩, .of .brtrue (.label ⟨9⟩), .plain .dup, .of .brfalse (.label ⟨0⟩),
    .plain .pop]

/-- The loop takes the value off the stack at its end and has it there still where it leaves. -/
theorem pollLoop_summary :
    Conforms pollSymbols poll pollLoop ∧
      Summary pollSymbols poll pollLoop ⟨-1, 1, [⟨1, ⟨9⟩, 0⟩]⟩ :=
  have computed : ofRun pollSymbols poll pollLoop = .ok ⟨-1, 1, [⟨1, ⟨9⟩, 0⟩]⟩ := rfl
  ⟨(ofRun_exact pollSymbols poll pollLoop).1.mp ⟨_, computed⟩,
    (ofRun_exact pollSymbols poll pollLoop).2 _ computed⟩

/-- A run that jumps over a branch without a label. -/
def hiddenBranch : List Instruction :=
  [.of .br (.label ⟨0⟩), .plain .br, ⟨.nop, .none, [⟨0⟩]⟩]

/-- Branches that control does not reach are not looked at: one of them may have no label. -/
theorem hiddenBranch_accepted :
    ¬ ((∃ effect, ofRun pollSymbols poll hiddenBranch = .ok effect) ↔
      Conforms pollSymbols poll hiddenBranch ∧
        ∀ ins ∈ hiddenBranch, branches ins → ins.target?.isSome) := by
  intro exactly
  obtain ⟨-, named⟩ := exactly.mp ⟨⟨0, 0, []⟩, rfl⟩
  exact absurd (named (.plain .br) (by decide) (Or.inl rfl)) (by decide)

end HookSplice.RunEffect
