import HookSplice.Proofs.InstructionControl
import HookSplice.Proofs.MachineSafety

/-!
# The turns of a frame

A frame executes an instruction, waits while the methods it calls run, and has its next turn when
they have ended.  From turn to turn control goes on in the body of the frame as `Body.Goes` says,
whatever happens in the frames above it, and when a frame is left for good its body says so too.
-/

namespace HookSplice

namespace Frame

/-- The second frame is the next turn of the first one. -/
def Turn (f g : Frame) : Prop :=
  g.body = f.body ∧ f.body.Goes f.pc f.pending g.pc g.pending

/-- The frame ends where it stands. -/
def Quits (f : Frame) : Prop :=
  f.body.Quits f.pc f.pending

/-- The second frame is the first one, waiting behind the instruction that it stood at. -/
def Waits (f g : Frame) : Prop :=
  (∃ ins, f.body.code[f.pc]? = some ins ∧ ins.opcode.fallsThrough) ∧
    { f with pc := f.pc + 1 }.Level g

/-- A waiting frame takes an exception, and goes on as the second one. -/
def Catches (f g : Frame) : Prop :=
  ∃ v, g.body = f.body ∧ (Pending.throw v (candidates f.body (f.pc - 1))).Reaches f.body f.pending
    g.pc g.pending

/-- A waiting frame lets an exception pass, so no finally handler is offered it. -/
def Lets (f : Frame) : Prop :=
  ∀ k ∈ candidates f.body (f.pc - 1), ∀ r, f.body.regions[k]? = some r → r.kind ≠ .finalizing

/-- A frame of a host, which has put off only actions that were begun in its body. -/
structure Regular (host : Host) (f : Frame) : Prop where
  member : f.body ∈ host.bodies
  begun : ∀ a ∈ f.pending, f.body.Begun a

variable {host : Host} {f g h : Frame}

theorem Waits.not_endsAt (waits : f.Waits g) : ¬ f.body.EndsAt f.pc := by
  obtain ⟨⟨ins, here, falls⟩, -⟩ := waits
  exact Body.not_endsAt_of_falls here falls

theorem Waits.turn_of_level (waits : f.Waits g) (level : g.Level h) : f.Turn h := by
  obtain ⟨⟨ins, here, falls⟩, body, pc, pending⟩ := waits
  refine ⟨level.body.trans body, ?_⟩
  rw [level.pc, level.pending, pc, pending]
  exact .onward here falls

theorem Waits.turn_of_catches (waits : f.Waits g) (catches : g.Catches h) : f.Turn h := by
  have other := waits.not_endsAt
  obtain ⟨-, body, pc, pending⟩ := waits
  obtain ⟨v, body', reaches⟩ := catches
  rw [body, pc, pending] at reaches
  exact ⟨body'.trans body, .begun other (.throw v) reaches⟩

theorem Waits.quits_of_lets (waits : f.Waits g) (lets : g.Lets) : f.Quits := by
  obtain ⟨-, body, pc, -⟩ := waits
  unfold Lets at lets
  rw [body, pc] at lets
  exact .escaped (.throw .null) rfl lets

theorem Waits.regular (waits : f.Waits g) (regular : f.Regular host) : g.Regular host := by
  obtain ⟨-, body, -, pending⟩ := waits
  constructor
  · rw [body]
    exact regular.member
  · rw [body, pending]
    exact regular.begun

theorem Level.regular (level : f.Level g) (regular : f.Regular host) : g.Regular host := by
  constructor
  · rw [level.body]
    exact regular.member
  · rw [level.body, level.pending]
    exact regular.begun

end Frame

/-- What is put off after a move was begun in the body, if what was put off before was. -/
theorem Pending.Reaches.allBegun {b : Body} {a : Pending} {s q : Nat} {before : List Nat}
    {put put' : List Pending} (reaches : a.Reaches b put q put') (part : a.Part b s before)
    (begun : ∀ a ∈ put, b.Begun a) : ∀ a ∈ put', b.Begun a := by
  cases reaches with
  | arrives => exact begun
  | @handled skipped rest k r order here passed =>
      split
      · refine List.forall_mem_cons.mpr ⟨⟨s, before ++ (skipped ++ [k]), ?_⟩, begun⟩
        exact part.pass (by simp [order])
      · exact begun

theorem Body.Goes.allBegun {b : Body} {p q : Nat} {put put' : List Pending}
    (goes : b.Goes p put q put') (begun : ∀ a ∈ put, b.Begun a) : ∀ a ∈ put', b.Begun a := by
  cases goes with
  | onward => exact begun
  | branched => exact begun
  | begun _ begins reaches => exact reaches.allBegun begins.part begun
  | resumed _ reaches =>
      obtain ⟨⟨s, before, part⟩, others⟩ := List.forall_mem_cons.mp begun
      exact reaches.allBegun part others

namespace Frame

variable {host : Host} {f g : Frame}

theorem Turn.regular (turn : f.Turn g) (regular : f.Regular host) : g.Regular host := by
  obtain ⟨body, goes⟩ := turn
  constructor
  · rw [body]
    exact regular.member
  · rw [body]
    exact goes.allBegun regular.begun

theorem Catches.regular (catches : f.Catches g) (regular : f.Regular host) : g.Regular host := by
  obtain ⟨v, body, reaches⟩ := catches
  constructor
  · rw [body]
    exact regular.member
  · rw [body]
    exact reaches.allBegun (Body.Begins.throw v).part regular.begun

end Frame

/-! ### Steps -/

variable {σ : Type}

/-- All frames of a configuration are regular. -/
def Config.Regular (host : Host) (c : Config σ) : Prop :=
  c.frame.Regular host ∧ ∀ w ∈ c.callers, w.frame.Regular host

namespace Machine

/-- What a step does to the frames: the running frame has its next turn, it waits for a new one, or
    it ends and a frame below goes on. -/
inductive Stepped (host : Host) (c c' : Config σ) : Prop
  | stays (callers : c'.callers = c.callers) (turn : c.frame.Turn c'.frame)
  | calls {w : Caller} (callers : c'.callers = w :: c.callers) (waits : c.frame.Waits w.frame)
      (member : c'.frame.body ∈ host.bodies) (fresh : c'.frame.pending = [])
  | returns {w : Caller} (quits : c.frame.Quits) (callers : c.callers = w :: c'.callers)
      (level : w.frame.Level c'.frame)
  | unwinds {passed : List Caller} {w : Caller} (quits : c.frame.Quits)
      (callers : c.callers = passed ++ w :: c'.callers) (lets : ∀ w' ∈ passed, w'.frame.Lets)
      (catches : w.frame.Catches c'.frame)

/-- The run goes on by such a step, or all frames end, or a trap ends it. -/
def Follows (host : Host) (c : Config σ) : Progress σ → Prop
  | .running c' => Stepped host c c'
  | .ended (.ok _) _ _ => c.frame.Quits ∧ ∀ w ∈ c.callers, w.frame.Lets
  | .ended (.error _) _ _ => True

theorem resume_level (w : Caller) (result : Option Value) : w.frame.Level (w.resume result) := by
  unfold Caller.resume
  split
  · exact (Frame.Level.refl _).push _
  · exact (Frame.Level.refl _).push _
  · exact Frame.Level.refl _

theorem unwind_eq_some {symbols : SymbolTable} {heap : Heap} {v : Value}
    {callers rest : List Caller} {g : Frame}
    (taken : unwind symbols heap v callers = some (g, rest)) :
    ∃ passed w, callers = passed ++ w :: rest ∧ (∀ w' ∈ passed, w'.frame.Lets) ∧
      w.frame.Catches g := by
  fun_induction unwind symbols heap v callers with
  | case1 => cases taken
  | case2 c callers candidates f handled =>
      cases taken
      refine ⟨[], c, rfl, fun _ member => absurd member List.not_mem_nil, v, ?_⟩
      exact Frame.throwThrough?_reaches handled
  | case3 c callers candidates escapes ih =>
      obtain ⟨passed, w, rfl, lets, catches⟩ := ih taken
      refine ⟨c :: passed, w, rfl, List.forall_mem_cons.mpr ⟨?_, lets⟩, catches⟩
      exact Frame.throwThrough?_eq_none escapes

theorem unwind_eq_none {symbols : SymbolTable} {heap : Heap} {v : Value} {callers : List Caller}
    (escapes : unwind symbols heap v callers = none) : ∀ w ∈ callers, w.frame.Lets := by
  fun_induction unwind symbols heap v callers with
  | case1 => exact fun _ member => absurd member List.not_mem_nil
  | case2 => cases escapes
  | case3 c callers candidates escapes' ih =>
      exact List.forall_mem_cons.mpr ⟨Frame.throwThrough?_eq_none escapes', ih escapes⟩

variable {m : Machine σ} {c : Config σ}

theorem throwTo_follows (quits : c.frame.Quits) (v : Value) (heap : Heap) (world : σ) :
    Follows m.host c (m.throwTo v c.callers heap world) := by
  unfold throwTo
  split
  · next g rest taken =>
      obtain ⟨passed, w, callers, lets, catches⟩ := unwind_eq_some taken
      exact .unwinds quits callers lets catches
  · next escapes => exact ⟨quits, unwind_eq_none escapes⟩

theorem giveBack_follows (quits : c.frame.Quits) (result : Option Value) (heap : Heap) (world : σ) :
    Follows m.host c (giveBack result c.callers heap world) := by
  unfold giveBack
  split
  · next none => exact ⟨quits, none ▸ fun _ member => absurd member List.not_mem_nil⟩
  · next w rest callers => exact .returns quits callers (resume_level w result)

/-- An exception raised at the instruction of the running frame. -/
theorem raise_follows {g : Frame} (other : ¬ c.frame.body.EndsAt c.frame.pc)
    (level : { c.frame with pc := c.frame.pc + 1 }.Level g) (v : Value) (heap : Heap) (world : σ) :
    Follows m.host c (m.throwTo v (⟨g, none⟩ :: c.callers) heap world) := by
  have position : g.pc - 1 = c.frame.pc := by rw [level.pc, Nat.add_sub_cancel]
  rw [throwTo_cons]
  cases taken : g.throwThrough? m.host.symbols heap v (Frame.candidates g.body (g.pc - 1)) with
  | some h =>
      obtain ⟨body, reaches⟩ := Frame.throwThrough?_reaches taken
      rw [position, level.body, level.pending] at reaches
      exact .stays rfl ⟨body.trans level.body, .begun other (.throw v) reaches⟩
  | none =>
      have passed := Frame.throwThrough?_eq_none taken
      rw [position, level.body] at passed
      exact throwTo_follows (.escaped (.throw v) rfl passed) v heap world

theorem enter_follows {g : Frame} (waits : c.frame.Waits g) (callee : MethodId)
    (args : List Value) (created : Option ObjectId) (heap : Heap) (world : σ) :
    Follows m.host c (m.enter callee args (⟨g, created⟩ :: c.callers) heap world) := by
  generalize entered : m.enter callee args (⟨g, created⟩ :: c.callers) heap world = p
  cases enter_starts entered with
  | refused | trapped => trivial
  | body found =>
      obtain ⟨signature, -, -, stored⟩ := implementation_eq_ok found
      exact .calls rfl waits (Host.body?_eq_some_iff.mp stored).1 rfl
  | @returned _ result _ _ _ back =>
      subst back
      exact .stays rfl (waits.turn_of_level (resume_level ⟨g, created⟩ result))

/-- What every step does to the frames. -/
theorem step_follows (m : Machine σ) (regular : c.frame.Regular m.host) :
    Follows m.host c (m.step c) := by
  generalize moved : m.step c = p
  cases step_performs moved with
  | beyond | stopped => trivial
  | @executed ins action _ here ran followed =>
      have leads : Yields (Action.Leads c.frame.pc ins { c.frame with pc := c.frame.pc + 1 })
          (Action.ofInstruction m.host.symbols c.heap c.frame.pc
            { c.frame with pc := c.frame.pc + 1 } ins) :=
        Action.ofInstruction_leads here rfl regular.begun
      rw [ran] at leads
      subst followed
      cases action with
      | next f heap => exact .stays rfl leads
      | exit result => exact giveBack_follows leads result c.heap c.world
      | raised f v => exact raise_follows leads.1 leads.2 v c.heap c.world
      | escaped v => exact throwTo_follows leads v c.heap c.world
      | call f callee args created heap =>
          exact enter_follows ⟨⟨ins, here, leads.1⟩, leads.2⟩ callee args created heap c.world

theorem Stepped.regular {host : Host} {c c' : Config σ} (stepped : Stepped host c c')
    (regular : c.Regular host) : c'.Regular host := by
  obtain ⟨here, below⟩ := regular
  cases stepped with
  | stays callers turn => exact ⟨turn.regular here, callers ▸ below⟩
  | calls callers waits member fresh =>
      refine ⟨⟨member, fresh ▸ fun _ inside => absurd inside List.not_mem_nil⟩, ?_⟩
      rw [callers]
      exact List.forall_mem_cons.mpr ⟨waits.regular here, below⟩
  | returns quits callers level =>
      rw [callers] at below
      obtain ⟨first, below⟩ := List.forall_mem_cons.mp below
      exact ⟨level.regular first, below⟩
  | unwinds quits callers lets catches =>
      rw [callers] at below
      obtain ⟨-, below⟩ := List.forall_mem_append.mp below
      obtain ⟨first, below⟩ := List.forall_mem_cons.mp below
      exact ⟨catches.regular first, below⟩

/-! ### From turn to turn -/

/-- The configurations from a turn of a frame on, as long as the frame waits for what it called. -/
inductive During (m : Machine σ) (c : Config σ) : Config σ → Prop
  | here : During m c c
  | deeper {e e' : Config σ} (during : During m c e) (moved : m.step e = .running e')
      (above : c.callers.length < e'.callers.length) : During m c e'

/-- The second configuration is the next one in which the running frame of the first one runs. -/
def NextTurn (m : Machine σ) (c c' : Config σ) : Prop :=
  ∃ e, m.During c e ∧ m.step e = .running c' ∧ c'.callers.length = c.callers.length

/-- The running frame has no other turn: it returns, or an exception leaves it, from its own
    instruction or from a method that it called. -/
def FrameEnds (m : Machine σ) (c : Config σ) : Prop :=
  ∃ e, m.During c e ∧
    ((∃ e', m.step e = .running e' ∧ e'.callers.length < c.callers.length) ∨
      ∃ result heap world, m.step e = .ended (.ok result) heap world)

theorem step_stepped {m : Machine σ} {c c' : Config σ} (regular : c.Regular m.host)
    (moved : m.step c = .running c') : Stepped m.host c c' := by
  have follows := step_follows m regular.1
  rwa [moved] at follows

/-- Two cuts of one list: the first one is behind the second, at it, or in front of it. -/
theorem cut_cases {α : Type} {xs ys cs ds : List α} {w w' : α}
    (same : xs ++ w :: cs = ys ++ w' :: ds) :
    (∃ zs, ds = zs ++ w :: cs) ∨ (w = w' ∧ cs = ds) ∨ (w ∈ ys ∧ ds.length < cs.length) := by
  rcases List.append_eq_append_iff.mp same with ⟨more, rfl, rest⟩ | ⟨more, -, rest⟩
  · cases more with
    | nil => exact Or.inr (Or.inl (List.cons.inj rest))
    | cons first more =>
        obtain ⟨rfl, rfl⟩ := List.cons.inj rest
        refine Or.inr (Or.inr ⟨by simp, ?_⟩)
        simp only [List.append_eq, List.length_append, List.length_cons]
        omega
  · cases more with
    | nil => exact Or.inr (Or.inl ⟨(List.cons.inj rest).1.symm, (List.cons.inj rest).2.symm⟩)
    | cons first more => exact Or.inl ⟨more, (List.cons.inj rest).2⟩

/-- What a step does to a frame with these callers that runs or waits: from then on it waits, it has
    its next turn, or it has ended. -/
theorem Stepped.frame_cases {host : Host} {e e' : Config σ} (stepped : Stepped host e e')
    {f : Frame} {callers : List Caller} (position : (e.frame = f ∧ e.callers = callers) ∨
      ∃ passed w, e.callers = passed ++ w :: callers ∧ f.Waits w.frame) :
    (∃ passed w, e'.callers = passed ++ w :: callers ∧ f.Waits w.frame) ∨
      (e'.callers = callers ∧ f.Turn e'.frame) ∨
      (e'.callers.length < callers.length ∧ f.Quits) := by
  rcases position with ⟨rfl, rfl⟩ | ⟨passed, w, below, waits⟩
  · cases stepped with
    | stays same turn => exact Or.inr (Or.inl ⟨same, turn⟩)
    | @calls w same waits => exact Or.inl ⟨[], w, same, waits⟩
    | returns quits same => exact Or.inr (Or.inr ⟨by rw [same]; exact Nat.lt_succ_self _, quits⟩)
    | unwinds quits same =>
        refine Or.inr (Or.inr ⟨?_, quits⟩)
        rw [same, List.length_append, List.length_cons]
        omega
  · cases stepped with
    | stays same => exact Or.inl ⟨passed, w, same.trans below, waits⟩
    | @calls w' same => exact Or.inl ⟨w' :: passed, w, same.trans (congrArg (w' :: ·) below), waits⟩
    | returns quits same level =>
        rcases cut_cases (below.symm.trans (same.trans (List.nil_append _).symm)) with
          ⟨more, rest⟩ | ⟨rfl, rest⟩ | ⟨inside, -⟩
        · exact Or.inl ⟨more, w, rest, waits⟩
        · exact Or.inr (Or.inl ⟨rest.symm, waits.turn_of_level level⟩)
        · cases inside
    | unwinds quits same lets catches =>
        rcases cut_cases (below.symm.trans same) with ⟨more, rest⟩ | ⟨rfl, rest⟩ | ⟨inside, fewer⟩
        · exact Or.inl ⟨more, w, rest, waits⟩
        · exact Or.inr (Or.inl ⟨rest.symm, waits.turn_of_catches catches⟩)
        · exact Or.inr (Or.inr ⟨fewer, waits.quits_of_lets (lets w inside)⟩)

/-- While a frame waits, it is among the callers, right above those it had. -/
theorem During.waits {m : Machine σ} {c e : Config σ} (during : m.During c e)
    (regular : c.Regular m.host) : e.Regular m.host ∧
      ((e.frame = c.frame ∧ e.callers = c.callers) ∨ ∃ passed w,
        e.callers = passed ++ w :: c.callers ∧ c.frame.Waits w.frame) := by
  induction during with
  | here => exact ⟨regular, Or.inl ⟨rfl, rfl⟩⟩
  | deeper _ moved above ih =>
      obtain ⟨regular', position⟩ := ih
      have stepped := step_stepped regular' moved
      refine ⟨stepped.regular regular', ?_⟩
      rcases stepped.frame_cases position with waits | ⟨same, -⟩ | ⟨fewer, -⟩
      · exact Or.inr waits
      · exact absurd above (same ▸ Nat.lt_irrefl _)
      · exact absurd above (Nat.lt_asymm fewer)

/-- From one turn to the next, the frame goes on as its body says, and the frames below it stay as
    they are. -/
theorem NextTurn.turn {m : Machine σ} {c c' : Config σ} (next : m.NextTurn c c')
    (regular : c.Regular m.host) :
    c.frame.Turn c'.frame ∧ c'.callers = c.callers ∧ c'.Regular m.host := by
  obtain ⟨e, during, moved, depth⟩ := next
  obtain ⟨regular', position⟩ := during.waits regular
  have stepped := step_stepped regular' moved
  rcases stepped.frame_cases position with ⟨passed, w, callers, -⟩ | ⟨same, turn⟩ | ⟨fewer, -⟩
  · rw [callers, List.length_append, List.length_cons] at depth
    omega
  · exact ⟨turn, same, stepped.regular regular'⟩
  · omega

/-- A frame that has no other turn ends where it stands. -/
theorem FrameEnds.quits {m : Machine σ} {c : Config σ} (ends : m.FrameEnds c)
    (regular : c.Regular m.host) : c.frame.Quits := by
  obtain ⟨e, during, ending⟩ := ends
  obtain ⟨regular', position⟩ := during.waits regular
  rcases ending with ⟨e', moved, below⟩ | ⟨result, heap, world, ended⟩
  · rcases (step_stepped regular' moved).frame_cases position with
      ⟨passed, w, callers, -⟩ | ⟨same, -⟩ | ⟨-, quits⟩
    · rw [callers, List.length_append, List.length_cons] at below
      omega
    · exact absurd below (same ▸ Nat.lt_irrefl _)
    · exact quits
  · have follows := step_follows m regular'.1
    rw [ended] at follows
    rcases position with ⟨running, -⟩ | ⟨passed, w, callers, waits⟩
    · exact running ▸ follows.1
    · refine waits.quits_of_lets (follows.2 w ?_)
      rw [callers]
      exact List.mem_append_right _ (List.mem_cons_self ..)

/-- Every configuration that a call passes through is regular. -/
theorem Visits.regular {m : Machine σ} {method : MethodId} {args : List Value} {heap : Heap}
    {world : σ} {c : Config σ} (visited : m.Visits method args heap world c) :
    c.Regular m.host := by
  induction visited with
  | @entered c started =>
      cases enter_starts started with
      | body found =>
          obtain ⟨signature, -, -, stored⟩ := implementation_eq_ok found
          obtain ⟨member, -⟩ := Host.body?_eq_some_iff.mp stored
          exact ⟨⟨member, fun _ inside => absurd inside List.not_mem_nil⟩,
            fun _ member => absurd member List.not_mem_nil⟩
      | returned _ _ back => cases back
  | stepped _ moved ih => exact (step_stepped ih moved).regular ih

end Machine

end HookSplice
