import HookSplice.Proofs.NestedCalls
import HookSplice.Proofs.StructuralTraps

/-!
# Limits of calls

Every call ends, after executing no more instructions than its limit allows, and with no more calls
inside each other than the machine allows.  The steps of a run do not look at the limit of
instructions, so what the limit does can be said by them: a call reports that it is exceeded exactly
if its run is still going on after as many steps, unless native code gives that trap as its own.
-/

namespace HookSplice.Machine

variable {σ : Type} {m : Machine σ}

/-! ### Runs without a limit -/

theorem Reaches.unique {n : Nat} {c d e : Config σ} (reached : m.Reaches n c d)
    (other : m.Reaches n c e) : d = e := by
  induction reached with
  | here c =>
      cases other
      rfl
  | step moved _ ih =>
      cases other with
      | step moved' later =>
          cases moved.symm.trans moved'
          exact ih later

/-- A run that gets far goes on before. -/
theorem Reaches.running {n k : Nat} {c d e : Config σ} (reached : m.Reaches n c d) (before : k < n)
    (earlier : m.Reaches k c e) : ∃ e', m.step e = .running e' := by
  induction earlier generalizing n with
  | here c =>
      cases reached with
      | here => exact absurd before (Nat.not_lt_zero 0)
      | step moved _ => exact ⟨_, moved⟩
  | step moved _ ih =>
      cases reached with
      | here => exact absurd before (Nat.not_lt_zero _)
      | step moved' later =>
          cases moved.symm.trans moved'
          exact ih later (Nat.lt_of_succ_lt_succ before)

/-- A run ends in one place. -/
theorem Reaches.end_unique {n k : Nat} {c d e : Config σ} (reached : m.Reaches n c d)
    (other : m.Reaches k c e) {r r' : Except Trap Result} {h h' : Heap} {w w' : σ}
    (ended : m.step d = .ended r h w) (ended' : m.step e = .ended r' h' w') : d = e := by
  rcases Nat.lt_trichotomy n k with less | rfl | greater
  · obtain ⟨_, moved⟩ := other.running less reached
    cases ended.symm.trans moved
  · exact reached.unique other
  · obtain ⟨_, moved⟩ := reached.running greater other
    cases ended'.symm.trans moved

/-- A run uses up its budget, or it ends before. -/
theorem runFrom_cases (m : Machine σ) (budget steps : Nat) (c : Config σ) :
    (∃ d, m.Reaches budget c d ∧ m.runFrom budget steps c =
      (.error (.stepLimit m.stepLimit), d.heap, d.world, steps + budget + 1)) ∨
    ∃ n d r heap world, n < budget ∧ m.Reaches n c d ∧ m.step d = .ended r heap world ∧
      m.runFrom budget steps c = (r, heap, world, steps + n + 1) := by
  induction budget generalizing steps c with
  | zero => exact Or.inl ⟨c, .here c, rfl⟩
  | succ budget ih =>
      cases stepped : m.step c with
      | ended r heap world =>
          refine Or.inr ⟨0, c, r, heap, world, Nat.succ_pos _, .here c, stepped, ?_⟩
          simp only [runFrom, stepped, Nat.add_zero]
      | running c' =>
          simp only [runFrom, stepped]
          rcases ih (steps + 1) c' with ⟨d, reached, ran⟩ | ⟨n, d, r, heap, world, below, reached,
            ended, ran⟩
          · refine Or.inl ⟨d, .step stepped reached, ran.trans ?_⟩
            rw [Nat.add_right_comm steps 1, Nat.add_assoc steps]
          · refine Or.inr ⟨n + 1, d, r, heap, world, Nat.succ_lt_succ below,
              .step stepped reached, ended, ran.trans ?_⟩
            rw [Nat.add_right_comm steps 1, Nat.add_assoc steps]

/-! ### The limit of instructions -/

/-- The run of a call is about to fetch an instruction after as many as the limit allows. -/
def Exhausts (m : Machine σ) (method : MethodId) (args : List Value) (heap : Heap) (world : σ) :
    Prop :=
  ∃ start c, m.enter method args [] heap world = .running start ∧ m.Reaches m.stepLimit start c

theorem NativeTraps.enter {method : MethodId} {args : List Value} {callers : List Caller}
    {heap : Heap} {world : σ} {trap : Trap}
    (traps : m.NativeTraps method args callers.length heap world trap) :
    ∃ heap' world', m.enter method args callers heap world = .ended (.error trap) heap' world' := by
  obtain ⟨code, found, gives⟩ := traps
  exact ⟨_, _, by simp only [Machine.enter, found, gives]; rfl⟩

theorem HandsOn.step {c : Config σ} {trap : Trap} (handsOn : m.HandsOn c trap) :
    ∃ heap world, m.step c = .ended (.error trap) heap world := by
  obtain ⟨here, ran, traps⟩ := handsOn
  rw [step_of_action here ran]
  exact traps.enter

/-- Steps are not what a call is refused for. -/
theorem implementation_ne_stepLimit {method : MethodId} {n depth limit : Nat} :
    m.implementation method n depth ≠ .error (.stepLimit limit) := by
  intro refused
  cases implementation_eq_iff.mp refused

/-- What calls a method exceeds no limit of steps; only native code may say so. -/
theorem enter_stepLimit {method : MethodId} {args : List Value} {callers : List Caller}
    {heap heap' : Heap} {world world' : σ} {limit : Nat}
    (stopped : m.enter method args callers heap world =
      .ended (.error (.stepLimit limit)) heap' world') :
    m.NativeTraps method args callers.length heap world (.stepLimit limit) :=
  (enter_eq_error stopped).resolve_left implementation_ne_stepLimit

/-- Neither does a step. -/
theorem step_stepLimit {c : Config σ} {limit : Nat} {heap : Heap} {world : σ}
    (stopped : m.step c = .ended (.error (.stepLimit limit)) heap world) :
    m.HandsOn c (.stepLimit limit) := by
  generalize blamed : Trap.stepLimit limit = trap at stopped ⊢
  cases step_eq_error stopped with
  | beyond => cases blamed
  | @stopped _ mishap _ _ => cases mishap <;> cases blamed
  | refused _ _ refusal =>
      subst blamed
      exact absurd refusal implementation_ne_stepLimit
  | handed handsOn => exact handsOn

section Calls

variable {method : MethodId} {args : List Value} {heap : Heap} {world : σ} {limit : Nat}

theorem resultOf_eq_stepLimit {r : Except Trap Result} :
    m.resultOf method r = .error (.stepLimit limit) ↔ r = .error (.stepLimit limit) := by
  rcases r with trap | (value | v) <;> simp [resultOf]

/-- A call that would fetch too much reports the limit. -/
theorem Exhausts.stepLimit (exhausts : m.Exhausts method args heap world) :
    (m.call method args heap world).result = .error (.stepLimit m.stepLimit) := by
  obtain ⟨start, c, entered, reached⟩ := exhausts
  simp only [call, entered]
  rcases m.runFrom_cases m.stepLimit 0 start with ⟨d, -, ran⟩ | ⟨n, d, r, k, u, below, earlier,
    ended, -⟩
  · simp only [ran, resultOf]
  · obtain ⟨_, moved⟩ := reached.running below earlier
    cases ended.symm.trans moved

/-- A call that keeps within the limit hands on what native code gives. -/
theorem PassesOn.result {trap : Trap} (passesOn : m.PassesOn method args heap world trap)
    (within : ¬ m.Exhausts method args heap world) :
    (m.call method args heap world).result = .error trap := by
  cases passesOn with
  | outermost traps =>
      obtain ⟨_, _, entered⟩ : ∃ heap' world',
          m.enter method args [] heap world = .ended (.error trap) heap' world' := traps.enter
      simp only [call, entered, resultOf]
  | inner visited handsOn =>
      obtain ⟨start, n, entered, reached⟩ := visited.reaches
      obtain ⟨_, _, stopped⟩ := handsOn.step
      simp only [call, entered]
      rcases m.runFrom_cases m.stepLimit 0 start with ⟨d, spent, -⟩ | ⟨k, d, r, _, _, -, other,
        ended, run⟩
      · exact absurd ⟨start, d, entered, spent⟩ within
      · obtain rfl := reached.end_unique other stopped ended
        cases stopped.symm.trans ended
        simp only [run, resultOf]

/-- Where the report of a limit comes from. -/
theorem stepLimit_cases
    (reported : (m.call method args heap world).result = .error (.stepLimit limit)) :
    (m.Exhausts method args heap world ∧ limit = m.stepLimit) ∨
      (¬ m.Exhausts method args heap world ∧
        m.PassesOn method args heap world (.stepLimit limit)) := by
  unfold call at reported
  cases entered : m.enter method args [] heap world with
  | ended r k u =>
      simp only [entered, resultOf_eq_stepLimit] at reported
      subst reported
      refine Or.inr ⟨?_, .outermost (enter_stepLimit entered)⟩
      rintro ⟨start, c, running, -⟩
      cases entered.symm.trans running
  | running start =>
      simp only [entered, resultOf_eq_stepLimit] at reported
      rcases m.runFrom_cases m.stepLimit 0 start with ⟨d, spent, run⟩ | ⟨n, d, r, k, u, below,
        reached, ended, run⟩
      · rw [run] at reported
        cases reported
        exact Or.inl ⟨⟨start, d, entered, spent⟩, rfl⟩
      · rw [run] at reported
        subst reported
        refine Or.inr ⟨?_, .inner (reached.visits (.entered entered)) (step_stepLimit ended)⟩
        rintro ⟨start', c, entered', spent⟩
        cases entered.symm.trans entered'
        obtain ⟨_, moved⟩ := spent.running below reached
        cases ended.symm.trans moved

end Calls

/-- Every call ends within its limits, whatever the host, the native code, the arguments and the
    limit of instructions.  It has an evaluation, in which each call is evaluated inside of the one
    that makes it, and every such evaluation is what the machine does: it executes no more
    instructions than the limit, over all frames, and nothing takes place inside of as many calls as
    are allowed.  The limit of instructions is reported exactly by the calls whose run, which goes
    on without it, would fetch one more instruction than that, and by those that otherwise hand on
    such a trap from native code. -/
theorem call_within_limits (m : Machine σ) (method : MethodId) (args : List Value) (heap : Heap)
    (world : σ) :
    (∃ notes r s, m.Evaluates 0 (.invoke method args) ⟨heap, world, 0⟩ notes r s) ∧
    (∀ notes r s, m.Evaluates 0 (.invoke method args) ⟨heap, world, 0⟩ notes r s →
      m.call method args heap world = ⟨m.resultOf method r, s.heap, s.world, s.fetched⟩ ∧
      notes.countP Note.isExecution ≤ m.stepLimit ∧
      ∀ note ∈ notes, note.depth < m.maxDepth) ∧
    ∀ limit, (m.call method args heap world).result = .error (.stepLimit limit) ↔
      (m.Exhausts method args heap world ∧ limit = m.stepLimit) ∨
        (¬ m.Exhausts method args heap world ∧
          m.PassesOn method args heap world (.stepLimit limit)) := by
  refine ⟨m.call_ends 0 method args _, fun notes r s evaluates => ?_, fun limit => ?_⟩
  · exact ⟨evaluates.call_eq, evaluates.executions_le, evaluates.depth_lt trivial⟩
  · refine ⟨stepLimit_cases, ?_⟩
    rintro (⟨exhausts, rfl⟩ | ⟨within, passesOn⟩)
    · exact exhausts.stepLimit
    · exact passesOn.result within

end HookSplice.Machine
