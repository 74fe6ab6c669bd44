import HookSplice.Proofs.MachineSimulation

/-!
# Nested calls

The machine keeps the frames that wait in a list.  Here a call is evaluated as it is nested: an
instruction that calls a method waits for the whole evaluation of that call, and all frames share
one counter of fetched instructions.  Whatever its code does, every call has such an evaluation, it
keeps within the limits of the machine, and the machine gives what it gives.
-/

namespace HookSplice

/-- What the frames of a call share: the heap, the world of the native code, and the number of
    instructions fetched so far. -/
structure Shared (σ : Type) where
  heap : Heap
  world : σ
  fetched : Nat

/-- What is to be evaluated. -/
inductive Activity where
  /-- A method is called. -/
  | invoke (method : MethodId) (args : List Value)
  /-- A frame goes on. -/
  | execute (f : Frame)
  /-- A frame has executed an instruction. -/
  | follow (action : Action)
  /-- An exception is offered to the handlers around the instruction behind which a frame stands. -/
  | offer (f : Frame) (value : Value)

/-- What is noted of an evaluation, with the number of calls around it. -/
inductive Note where
  | invoked (depth : Nat) (method : MethodId)
  | executed (depth : Nat) (method : MethodId) (position : Nat)

namespace Note

/-- Inside of how many calls something took place. -/
def depth : Note → Nat
  | invoked depth _ => depth
  | executed depth _ _ => depth

/-- Whether an instruction was executed. -/
def isExecution : Note → Bool
  | invoked .. => false
  | executed .. => true

end Note

variable {σ : Type}

/-- The state behind the fetch of one more instruction. -/
def Shared.fetch (s : Shared σ) : Shared σ :=
  { s with fetched := s.fetched + 1 }

namespace Machine

/-- An activity inside of `depth` calls comes to an end, with what was noted on the way.  An
    instruction is fetched only while the limit allows it. -/
inductive Evaluates (m : Machine σ) :
    Nat → Activity → Shared σ → List Note → Except Trap Result → Shared σ → Prop
  | refused {depth : Nat} {method : MethodId} {args : List Value} {s : Shared σ} {trap : Trap}
      (refusal : m.implementation method args.length depth = .error trap) :
      Evaluates m depth (.invoke method args) s [] (.error trap) s
  | native {depth : Nat} {method : MethodId} {args : List Value} {s : Shared σ} {code : Native σ}
      (found : m.implementation method args.length depth = .ok (.native code)) :
      Evaluates m depth (.invoke method args) s [.invoked depth method]
        ((code s.heap s.world args).result.map .returned)
        ⟨(code s.heap s.world args).heap, (code s.heap s.world args).world, s.fetched⟩
  | body {depth : Nat} {method : MethodId} {args : List Value} {s s' : Shared σ} {b : Body}
      {notes : List Note} {r : Except Trap Result}
      (found : m.implementation method args.length depth = .ok (.body b))
      (ran : Evaluates m depth (.execute (Frame.enter m.host.symbols b args)) s notes r s') :
      Evaluates m depth (.invoke method args) s (.invoked depth method :: notes) r s'
  | exhausted {depth : Nat} {f : Frame} {s : Shared σ} (spent : m.stepLimit ≤ s.fetched) :
      Evaluates m depth (.execute f) s [] (.error (.stepLimit m.stepLimit)) s.fetch
  | beyond {depth : Nat} {f : Frame} {s : Shared σ} (left : s.fetched < m.stepLimit)
      (absent : f.body.code[f.pc]? = none) :
      Evaluates m depth (.execute f) s []
        (.error (.fellOffEnd (m.host.methodName f.body.method))) s.fetch
  | stopped {depth : Nat} {f : Frame} {s : Shared σ} {ins : Instruction} {mishap : Mishap}
      (left : s.fetched < m.stepLimit) (here : f.body.code[f.pc]? = some ins)
      (ran : Action.ofInstruction m.host.symbols s.heap f.pc { f with pc := f.pc + 1 } ins =
        .error mishap) :
      Evaluates m depth (.execute f) s [.executed depth f.body.method f.pc]
        (.error (mishap.toTrap (m.host.methodName f.body.method) f.pc)) s.fetch
  | executed {depth : Nat} {f : Frame} {s s' : Shared σ} {ins : Instruction} {action : Action}
      {notes : List Note} {r : Except Trap Result}
      (left : s.fetched < m.stepLimit) (here : f.body.code[f.pc]? = some ins)
      (ran : Action.ofInstruction m.host.symbols s.heap f.pc { f with pc := f.pc + 1 } ins =
        .ok action)
      (later : Evaluates m depth (.follow action) s.fetch notes r s') :
      Evaluates m depth (.execute f) s (.executed depth f.body.method f.pc :: notes) r s'
  | next {depth : Nat} {f : Frame} {heap : Heap} {s s' : Shared σ} {notes : List Note}
      {r : Except Trap Result}
      (later : Evaluates m depth (.execute f) { s with heap := heap } notes r s') :
      Evaluates m depth (.follow (.next f heap)) s notes r s'
  | exit {depth : Nat} {result : Option Value} {s : Shared σ} :
      Evaluates m depth (.follow (.exit result)) s [] (.ok (.returned result)) s
  | escaped {depth : Nat} {v : Value} {s : Shared σ} :
      Evaluates m depth (.follow (.escaped v)) s [] (.ok (.threw v)) s
  | raised {depth : Nat} {f : Frame} {v : Value} {s s' : Shared σ} {notes : List Note}
      {r : Except Trap Result} (later : Evaluates m depth (.offer f v) s notes r s') :
      Evaluates m depth (.follow (.raised f v)) s notes r s'
  | callTrapped {depth : Nat} {f : Frame} {callee : MethodId} {args : List Value}
      {created : Option ObjectId} {heap : Heap} {s s' : Shared σ} {notes : List Note} {trap : Trap}
      (inner : Evaluates m (depth + 1) (.invoke callee args) { s with heap := heap } notes
        (.error trap) s') :
      Evaluates m depth (.follow (.call f callee args created heap)) s notes (.error trap) s'
  | callReturned {depth : Nat} {f : Frame} {callee : MethodId} {args : List Value}
      {created : Option ObjectId} {heap : Heap} {s s₁ s' : Shared σ} {notes notes' : List Note}
      {result : Option Value} {r : Except Trap Result}
      (inner : Evaluates m (depth + 1) (.invoke callee args) { s with heap := heap } notes
        (.ok (.returned result)) s₁)
      (later : Evaluates m depth (.execute (Caller.resume ⟨f, created⟩ result)) s₁ notes' r s') :
      Evaluates m depth (.follow (.call f callee args created heap)) s (notes ++ notes') r s'
  | callThrew {depth : Nat} {f : Frame} {callee : MethodId} {args : List Value}
      {created : Option ObjectId} {heap : Heap} {s s₁ s' : Shared σ} {notes notes' : List Note}
      {v : Value} {r : Except Trap Result}
      (inner : Evaluates m (depth + 1) (.invoke callee args) { s with heap := heap } notes
        (.ok (.threw v)) s₁)
      (later : Evaluates m depth (.offer f v) s₁ notes' r s') :
      Evaluates m depth (.follow (.call f callee args created heap)) s (notes ++ notes') r s'
  | caught {depth : Nat} {f g : Frame} {v : Value} {s s' : Shared σ} {notes : List Note}
      {r : Except Trap Result}
      (taken : f.throwThrough? m.host.symbols s.heap v (Frame.candidates f.body (f.pc - 1)) =
        some g)
      (later : Evaluates m depth (.execute g) s notes r s') :
      Evaluates m depth (.offer f v) s notes r s'
  | uncaught {depth : Nat} {f : Frame} {v : Value} {s : Shared σ}
      (passed : f.throwThrough? m.host.symbols s.heap v (Frame.candidates f.body (f.pc - 1)) =
        none) :
      Evaluates m depth (.offer f v) s [] (.ok (.threw v)) s

variable {m : Machine σ}

/-! ### Limits -/

section Limits

variable {depth : Nat} {a : Activity} {s s' : Shared σ} {notes : List Note} {r : Except Trap Result}

/-- Every executed instruction was fetched. -/
theorem Evaluates.fetched (evaluates : m.Evaluates depth a s notes r s') :
    s.fetched + notes.countP Note.isExecution ≤ s'.fetched := by
  induction evaluates with
  | refused | native | exit | escaped | uncaught => exact Nat.le_refl _
  | exhausted | beyond => exact Nat.le_succ _
  | stopped => exact Nat.le_refl _
  | body _ _ ih => simpa [Note.isExecution] using ih
  | next _ ih | raised _ ih | callTrapped _ ih | caught _ _ ih => exact ih
  | executed _ _ _ _ ih =>
      rw [List.countP_cons_of_pos rfl]
      simp only [Shared.fetch] at ih
      omega
  | callReturned _ _ inner later | callThrew _ _ inner later =>
      rw [List.countP_append]
      simp only at inner
      omega

theorem Evaluates.fetched_le (evaluates : m.Evaluates depth a s notes r s') :
    s.fetched ≤ s'.fetched :=
  Nat.le_trans (Nat.le_add_right ..) evaluates.fetched

/-- No more instructions are executed than the limit leaves. -/
theorem Evaluates.executions_le (evaluates : m.Evaluates depth a s notes r s') :
    notes.countP Note.isExecution ≤ m.stepLimit - s.fetched := by
  induction evaluates with
  | refused | exit | escaped | uncaught | exhausted | beyond | native => exact Nat.zero_le _
  | stopped left => exact Nat.le_sub_of_add_le (Nat.add_comm 1 _ ▸ left)
  | body _ _ ih => simpa [Note.isExecution] using ih
  | next _ ih | raised _ ih | callTrapped _ ih | caught _ _ ih => exact ih
  | executed left _ _ _ ih =>
      rw [List.countP_cons_of_pos rfl]
      simp only [Shared.fetch] at ih
      omega
  | callReturned called _ inner later | callThrew called _ inner later =>
      have between := called.fetched
      rw [List.countP_append]
      simp only at inner between
      omega

/-- A call is let through only inside of fewer calls than the limit. -/
theorem depth_lt_of_implementation {method : MethodId} {n : Nat} {code : Implementation σ}
    (found : m.implementation method n depth = .ok code) : depth < m.maxDepth := by
  cases implementation_eq_iff.mp found with
  | native shallow | body shallow => exact shallow

/-- Whether an activity may take place inside of a number of calls; whether a call may is only
    tested when it starts. -/
def Allows (m : Machine σ) (depth : Nat) : Activity → Prop
  | .invoke .. => True
  | _ => depth < m.maxDepth

/-- Nothing takes place inside of as many calls as the limit. -/
theorem Evaluates.depth_lt (evaluates : m.Evaluates depth a s notes r s')
    (allowed : m.Allows depth a) : ∀ note ∈ notes, note.depth < m.maxDepth := by
  induction evaluates with
  | refused | exhausted | beyond | exit | escaped | uncaught => simp
  | native found =>
      exact List.forall_mem_singleton.mpr (depth_lt_of_implementation found)
  | body found _ ih =>
      have below := depth_lt_of_implementation found
      exact List.forall_mem_cons.mpr ⟨below, ih below⟩
  | stopped => exact List.forall_mem_singleton.mpr allowed
  | executed _ _ _ _ ih => exact List.forall_mem_cons.mpr ⟨allowed, ih allowed⟩
  | next _ ih | raised _ ih | caught _ _ ih => exact ih allowed
  | callTrapped _ ih => exact ih trivial
  | callReturned _ _ inner later | callThrew _ _ inner later =>
      exact List.forall_mem_append.mpr ⟨inner trivial, later allowed⟩

end Limits

/-! ### Ends -/

/-- An activity comes to an end. -/
def Ends (m : Machine σ) (depth : Nat) (a : Activity) (s : Shared σ) : Prop :=
  ∃ notes r s', m.Evaluates depth a s notes r s'

/-- Frames come to an end with fewer than `n` instructions left. -/
def FramesEnd (m : Machine σ) (n : Nat) : Prop :=
  ∀ depth f s, m.stepLimit - s.fetched < n → m.Ends depth (.execute f) s

section Ends

variable {n depth : Nat} {s : Shared σ}

theorem offer_ends (frames : m.FramesEnd n) (few : m.stepLimit - s.fetched < n) (f : Frame)
    (v : Value) : m.Ends depth (.offer f v) s := by
  cases taken : f.throwThrough? m.host.symbols s.heap v (Frame.candidates f.body (f.pc - 1)) with
  | none => exact ⟨[], _, s, .uncaught taken⟩
  | some g =>
      obtain ⟨notes, r, s', later⟩ := frames depth g s few
      exact ⟨notes, r, s', .caught taken later⟩

theorem invoke_ends (frames : m.FramesEnd n) (few : m.stepLimit - s.fetched < n)
    (method : MethodId) (args : List Value) : m.Ends depth (.invoke method args) s := by
  cases found : m.implementation method args.length depth with
  | error trap => exact ⟨[], _, s, .refused found⟩
  | ok implementation =>
      cases implementation with
      | native code => exact ⟨_, _, _, .native found⟩
      | body b =>
          obtain ⟨notes, r, s', ran⟩ := frames depth (Frame.enter m.host.symbols b args) s few
          exact ⟨_, r, s', .body found ran⟩

theorem follow_ends (frames : m.FramesEnd n) (few : m.stepLimit - s.fetched < n)
    (action : Action) : m.Ends depth (.follow action) s := by
  cases action with
  | next f heap =>
      obtain ⟨notes, r, s', later⟩ := frames depth f { s with heap := heap } few
      exact ⟨notes, r, s', .next later⟩
  | exit result => exact ⟨[], _, s, .exit⟩
  | escaped v => exact ⟨[], _, s, .escaped⟩
  | raised f v =>
      obtain ⟨notes, r, s', later⟩ : m.Ends depth (.offer f v) s := offer_ends frames few f v
      exact ⟨notes, r, s', .raised later⟩
  | call f callee args created heap =>
      obtain ⟨notes, r, s₁, inner⟩ :
          m.Ends (depth + 1) (.invoke callee args) { s with heap := heap } :=
        invoke_ends (s := { s with heap := heap }) frames few callee args
      -- The caller goes on with what the callee has left of the limit.
      have fewer : m.stepLimit - s₁.fetched < n := by
        have := inner.fetched_le
        simp only at this
        omega
      rcases r with trap | (result | v)
      · exact ⟨notes, _, s₁, .callTrapped inner⟩
      · obtain ⟨notes', r, s', later⟩ := frames depth (Caller.resume ⟨f, created⟩ result) s₁ fewer
        exact ⟨notes ++ notes', r, s', .callReturned inner later⟩
      · obtain ⟨notes', r, s', later⟩ : m.Ends depth (.offer f v) s₁ :=
          offer_ends frames fewer f v
        exact ⟨notes ++ notes', r, s', .callThrew inner later⟩

/-- By induction on what is left of the limit: each instruction of a frame uses up some of it,
    and what follows it, be it a call, has less. -/
theorem framesEnd (m : Machine σ) (n : Nat) : m.FramesEnd n := by
  induction n with
  | zero => exact fun depth f s few => absurd few (Nat.not_lt_zero _)
  | succ n ih =>
      intro depth f s few
      rcases Nat.lt_or_ge s.fetched m.stepLimit with left | spent
      · have fewer : m.stepLimit - s.fetch.fetched < n := by
          simp only [Shared.fetch]
          omega
        cases here : f.body.code[f.pc]? with
        | none => exact ⟨[], _, _, .beyond left here⟩
        | some ins =>
            cases ran : Action.ofInstruction m.host.symbols s.heap f.pc
                { f with pc := f.pc + 1 } ins with
            | error mishap => exact ⟨_, _, _, .stopped left here ran⟩
            | ok action =>
                obtain ⟨notes, r, s', later⟩ : m.Ends depth (.follow action) s.fetch :=
                  follow_ends ih fewer action
                exact ⟨_, r, s', .executed left here ran later⟩
      · exact ⟨[], _, _, .exhausted spent⟩

end Ends

/-- Every call comes to an end, whatever the bodies of the host do. -/
theorem call_ends (m : Machine σ) (depth : Nat) (method : MethodId) (args : List Value)
    (s : Shared σ) : m.Ends depth (.invoke method args) s :=
  invoke_ends (m.framesEnd _) (Nat.lt_succ_self _) method args

/-! ### Runs -/

/-- How a run ends that has made progress with a number of fetched instructions. -/
def finish (m : Machine σ) (fetched : Nat) : Progress σ → Except Trap Result × Heap × σ × Nat
  | .ended r heap world => (r, heap, world, fetched)
  | .running c => m.runFrom (m.stepLimit - fetched) fetched c

/-- How a run ends that has come to an activity, with callers that wait. -/
def proceed (m : Machine σ) (callers : List Caller) (s : Shared σ) :
    Activity → Except Trap Result × Heap × σ × Nat
  | .invoke method args => m.finish s.fetched (m.enter method args callers s.heap s.world)
  | .execute f => m.finish s.fetched (.running ⟨f, callers, s.heap, s.world⟩)
  | .follow action => m.finish s.fetched (m.follow action callers s.heap s.world)
  | .offer f v => m.finish s.fetched (m.throwTo v (⟨f, none⟩ :: callers) s.heap s.world)

/-- How a run ends in which the callers are given the end of what they wait for. -/
def conclude (m : Machine σ) (callers : List Caller) (s : Shared σ) (r : Except Trap Result) :
    Except Trap Result × Heap × σ × Nat :=
  m.finish s.fetched <|
    match r with
    | .error trap => .ended (.error trap) s.heap s.world
    | .ok (.returned result) => giveBack result callers s.heap s.world
    | .ok (.threw v) => m.throwTo v callers s.heap s.world

theorem conclude_nil (s : Shared σ) (r : Except Trap Result) :
    m.conclude [] s r = (r, s.heap, s.world, s.fetched) := by
  rcases r with trap | (result | v) <;> rfl

/-- While the limit lasts, a run makes one step. -/
theorem finish_running {c : Config σ} {fetched : Nat} (left : fetched < m.stepLimit) :
    m.finish fetched (.running c) = m.finish (fetched + 1) (m.step c) := by
  have budget : m.stepLimit - fetched = m.stepLimit - (fetched + 1) + 1 := by omega
  cases stepped : m.step c <;> simp only [finish, budget, runFrom, stepped]

theorem proceed_invoke_native {method : MethodId} {args : List Value} {callers : List Caller}
    {s : Shared σ} {code : Native σ}
    (found : m.implementation method args.length callers.length = .ok (.native code)) :
    m.proceed callers s (.invoke method args) =
      m.conclude callers
        ⟨(code s.heap s.world args).heap, (code s.heap s.world args).world, s.fetched⟩
        ((code s.heap s.world args).result.map .returned) := by
  simp only [proceed, enter, found, conclude]
  cases (code s.heap s.world args).result with
  | error trap => rfl
  | ok result => rfl

/-- The machine gives the waiting callers of an activity what the evaluation of it gives. -/
theorem Evaluates.proceed_eq {depth : Nat} {a : Activity} {s s' : Shared σ} {notes : List Note}
    {r : Except Trap Result} (evaluates : m.Evaluates depth a s notes r s')
    {callers : List Caller} (waiting : callers.length = depth) :
    m.proceed callers s a = m.conclude callers s' r := by
  induction evaluates generalizing callers with
  | refused refusal =>
      subst waiting
      simp only [proceed, enter, refusal, conclude]
  | native found =>
      subst waiting
      exact proceed_invoke_native found
  | body found _ ih =>
      rw [← ih waiting]
      subst waiting
      simp only [proceed, enter, found]
  | exhausted spent =>
      simp only [proceed, finish, Nat.sub_eq_zero_of_le spent, runFrom, conclude, Shared.fetch]
  | beyond left absent =>
      simp only [proceed, finish_running left, step, absent, conclude, Shared.fetch]
  | stopped left here ran =>
      simp only [proceed, finish_running left, step, here, ran, conclude, Shared.fetch]
  | executed left here ran _ ih =>
      rw [← ih waiting]
      simp only [proceed, finish_running left, step, here, ran, Shared.fetch]
  | next _ ih => exact ih waiting
  | exit | escaped => rfl
  | raised _ ih => exact ih waiting
  | callTrapped _ ih => exact @ih (_ :: callers) (congrArg _ waiting)
  | callReturned _ _ inner later =>
      rw [← later waiting]
      exact @inner (_ :: callers) (congrArg _ waiting)
  | callThrew _ _ inner later =>
      rw [← later waiting]
      refine (@inner (_ :: callers) (congrArg _ waiting)).trans ?_
      simp only [conclude, proceed, throwTo_cons]
  | caught taken _ ih =>
      rw [← ih waiting]
      simp only [proceed, throwTo_cons, taken]
  | uncaught passed => simp only [proceed, conclude, throwTo_cons, passed]

/-- A call of the machine gives what the evaluation of it gives. -/
theorem Evaluates.call_eq {method : MethodId} {args : List Value} {heap : Heap} {world : σ}
    {s : Shared σ} {notes : List Note} {r : Except Trap Result}
    (evaluates : m.Evaluates 0 (.invoke method args) ⟨heap, world, 0⟩ notes r s) :
    m.call method args heap world = ⟨m.resultOf method r, s.heap, s.world, s.fetched⟩ := by
  have ran : m.proceed [] ⟨heap, world, 0⟩ (.invoke method args) = m.conclude [] s r :=
    evaluates.proceed_eq rfl
  rw [conclude_nil] at ran
  unfold proceed at ran
  unfold call
  cases entered : m.enter method args [] heap world with
  | ended result heap' world' =>
      simp only [entered, finish, Prod.mk.injEq] at ran
      obtain ⟨rfl, rfl, rfl, fetched⟩ := ran
      rw [← fetched]
  | running c =>
      simp only [entered, finish, Nat.sub_zero] at ran
      simp only [ran]

end Machine

end HookSplice
