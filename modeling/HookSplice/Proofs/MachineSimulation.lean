import HookSplice.Proofs.ActionSimulation
import HookSplice.Proofs.MachineSafety

/-!
# Runs in two hosts

A machine over a host in which other bodies stand for some of the methods, each holding the code of
the one that it stands for.  The machine with these bodies may pass through instructions of their
own on the way to the next one that both have.  As long as it always gets there, a run that ends
without a trap ends with the same result in both, up to the handles of objects.
-/

namespace HookSplice

variable {σ : Type}

/-! ### Native code -/

/-- Native code that treats the handles in its arguments as names: on heaps and other arguments that
    agree with these, and worlds that are related, it gives results, heaps and worlds of which the
    same holds. -/
def Native.AbstractOn (related : List ObjectId → σ → σ → Prop) (code : Native σ)
    (args : List Value) : Prop :=
  ∀ {ids : List ObjectId} {h h' : Heap} {w w' : σ} {args' : List Value},
    h.Renamed ids h' → related ids w w' → List.Forall₂ (Value.Renamed ids) args args' →
    ∀ {v : Option Value}, (code h w args).result = .ok v → ∃ more v',
      (code h' w' args').result = .ok v' ∧ Option.Rel (Value.Renamed (ids ++ more)) v v' ∧
      (code h w args).heap.Renamed (ids ++ more) (code h' w' args').heap ∧
      related (ids ++ more) (code h w args).world (code h' w' args').world

/-- The results agree. -/
inductive Result.Renamed (ids : List ObjectId) : Result → Result → Prop
  | returned {v v' : Option Value} (values : Option.Rel (Value.Renamed ids) v v') :
      Renamed ids (.returned v) (.returned v')
  | threw {v v' : Value} (values : v.Renamed ids v') : Renamed ids (.threw v) (.threw v')

/-! ### Configurations that agree -/

section Configurations

variable (moves : BodyMove → Prop) (related : List ObjectId → σ → σ → Prop)

/-- Both callers wait behind the same call. -/
def Caller.Renamed (ids : List ObjectId) (c c' : Caller) : Prop :=
  ∃ m i, moves m ∧ c.frame.Behind m ids i c'.frame ∧
    Option.Rel (fun id id' => ids[id.index]? = some id') c.created c'.created

/-- The configurations agree but for where control is in the running frames. -/
structure Config.Agrees (ids : List ObjectId) (c c' : Config σ) : Prop where
  callers : List.Forall₂ (Caller.Renamed moves ids) c.callers c'.callers
  heaps : c.heap.Renamed ids c'.heap
  worlds : related ids c.world c'.world

/-- Control has arrived at the same position. -/
structure Config.Renamed (ids : List ObjectId) (c c' : Config σ) : Prop extends
    Config.Agrees moves related ids c c' where
  frames : ∃ m, moves m ∧ c.frame.Arrived m ids c'.frame

/-- Control is at the place of the same instruction. -/
structure Config.Placed (ids : List ObjectId) (c c' : Config σ) : Prop extends
    Config.Agrees moves related ids c c' where
  frames : ∃ m, moves m ∧ c.frame.Renamed m ids c'.frame ∧ c'.frame.pc = m.place c.frame.pc

/-- The runs go on or end alike; nothing is said of the second one when the first one traps. -/
inductive Progress.Renamed (ids : List ObjectId) : Progress σ → Progress σ → Prop
  | running {c c' : Config σ} (configs : c.Renamed moves related ids c') :
      Renamed ids (.running c) (.running c')
  | ended {r r' : Result} {h h' : Heap} {w w' : σ} (results : r.Renamed ids r')
      (heaps : h.Renamed ids h') (worlds : related ids w w') :
      Renamed ids (.ended (.ok r) h w) (.ended (.ok r') h' w')
  | trapped {trap : Trap} {h : Heap} {w : σ} (p : Progress σ) :
      Renamed ids (.ended (.error trap) h w) p

end Configurations

/-! ### One machine standing in for another -/

/-- The second machine runs, in place of each body of the first one, a body that holds its code.
    Everything else is the same, and native code treats handles as names in the calls that are
    admitted. -/
structure Machine.StandsFor (moves : BodyMove → Prop) (admits : MethodId → List Value → Prop)
    (related : List ObjectId → σ → σ → Prop) (m m' : Machine σ) : Prop where
  symbols : ∀ {move : BodyMove}, moves move →
    m.host.symbols.Serves m'.host.symbols move.source
  methods : ∀ {id : MethodId} {signature : MethodDef}, m.host.symbols.method? id = some signature →
    m'.host.symbols.method? id = some signature
  bodies : ∀ {method : MethodId} {b : Body}, m.host.body? method = some b →
    ∃ move, moves move ∧ move.source = b ∧ m'.host.body? method = some move.target ∧
      (Code.duplicate? b.code = none → Code.duplicate? move.target.code = none)
  natives : m'.natives = m.natives
  maxDepth : m'.maxDepth = m.maxDepth
  names : ∀ {method : MethodId} {code : Native σ} {args : List Value},
    m.natives.lookup method = some code → admits method args → code.AbstractOn related args
  grows : ∀ {ids : List ObjectId} {w w' : σ}, related ids w w' →
    ∀ more, related (ids ++ more) w w'

namespace Machine

variable {moves : BodyMove → Prop} {admits : MethodId → List Value → Prop}
  {related : List ObjectId → σ → σ → Prop} {m m' : Machine σ} {ids : List ObjectId} {h h' : Heap}
  {w w' : σ} {callers callers' : List Caller}

theorem Caller.Renamed.grow {c c' : Caller} (same : c.Renamed moves ids c')
    (more : List ObjectId) : c.Renamed moves (ids ++ more) c' := by
  obtain ⟨frame, created⟩ := c
  obtain ⟨frame', created'⟩ := c'
  obtain ⟨move, i, known, frames, objects⟩ := same
  refine ⟨move, i, known, frames.grow more, ?_⟩
  cases objects with
  | none => exact .none
  | some here => exact .some (getElem?_append_of_eq_some here more)

theorem callers_grow (waiting : List.Forall₂ (Caller.Renamed moves ids) callers callers')
    (more : List ObjectId) : List.Forall₂ (Caller.Renamed moves (ids ++ more)) callers callers' :=
  waiting.imp fun _ _ same => Caller.Renamed.grow same more

theorem resume_arrived {c c' : Caller} {b : BodyMove} {i : Nat}
    (frames : c.frame.Behind b ids i c'.frame)
    (objects : Option.Rel (fun id id' => ids[id.index]? = some id') c.created c'.created)
    {v v' : Option Value} (values : Option.Rel (Value.Renamed ids) v v') :
    (c.resume v).Arrived b ids (c'.resume v') := by
  obtain ⟨frame, created⟩ := c
  obtain ⟨frame', created'⟩ := c'
  cases objects with
  | some known => exact (frames.push (.object known)).arrived
  | none =>
      cases values with
      | none => exact frames.arrived
      | some values => exact (frames.push values).arrived

theorem giveBack_renamed (waiting : List.Forall₂ (Caller.Renamed moves ids) callers callers')
    (heaps : h.Renamed ids h') (worlds : related ids w w') {v v' : Option Value}
    (values : Option.Rel (Value.Renamed ids) v v') :
    (giveBack v callers h w).Renamed moves related ids (giveBack v' callers' h' w') := by
  cases waiting with
  | nil => exact .ended (.returned values) heaps worlds
  | cons first others =>
      obtain ⟨move, i, known, frames, objects⟩ := first
      exact .running ⟨⟨others, heaps, worlds⟩, move, known, resume_arrived frames objects values⟩

/-- An exception is taken by the same caller. -/
theorem unwind_renamed {symbols symbols' : SymbolTable}
    (serves : ∀ {move : BodyMove}, moves move → symbols.Serves symbols' move.source)
    (heaps : h.Renamed ids h') (waiting : List.Forall₂ (Caller.Renamed moves ids) callers callers')
    {v v' : Value}
    (values : v.Renamed ids v') :
    Option.Rel (fun r r' => (∃ b, moves b ∧ r.1.Arrived b ids r'.1) ∧
      List.Forall₂ (Caller.Renamed moves ids) r.2 r'.2)
      (unwind symbols h v callers) (unwind symbols' h' v' callers') := by
  induction waiting with
  | nil => exact .none
  | @cons c c' rest rest' first others ih =>
      obtain ⟨move, i, known, frames, -⟩ := first
      have candidates : Frame.candidates c'.frame.body (c'.frame.pc - 1) =
          Frame.candidates c.frame.body (c.frame.pc - 1) := by
        rw [frames.source, frames.target, frames.pc, frames.pc']
        exact move.candidates i
      have taken := frames.toRenamed.throwThrough? (serves known) heaps values
        (Frame.candidates c.frame.body (c.frame.pc - 1))
      simp only [unwind, candidates]
      revert taken
      generalize c.frame.throwThrough? symbols h v _ = g
      generalize c'.frame.throwThrough? symbols' h' v' _ = g'
      intro taken
      cases taken with
      | none => exact ih
      | some arrived => exact .some ⟨⟨move, known, arrived⟩, others⟩

theorem throwTo_renamed (sim : m.StandsFor moves admits related m') (heaps : h.Renamed ids h')
    (waiting : List.Forall₂ (Caller.Renamed moves ids) callers callers') {v v' : Value}
    (values : v.Renamed ids v') (worlds : related ids w w') :
    (m.throwTo v callers h w).Renamed moves related ids (m'.throwTo v' callers' h' w') := by
  have taken := unwind_renamed sim.symbols heaps waiting values
  unfold throwTo
  revert taken
  generalize unwind m.host.symbols h v callers = g
  generalize unwind m'.host.symbols h' v' callers' = g'
  intro taken
  cases taken with
  | none => exact .ended (.threw values) heaps worlds
  | some both => exact .running ⟨⟨both.2, heaps, worlds⟩, both.1⟩

theorem initial_renamed {symbols symbols' : SymbolTable} {type : TypeId}
    (named : symbols'.typeName type = symbols.typeName type) :
    (Frame.initial symbols type).Renamed ids (Frame.initial symbols' type) := by
  unfold Frame.initial
  rw [named]
  split
  · exact .int 0
  · exact .null

theorem enter_arrived {symbols symbols' : SymbolTable} {move : BodyMove}
    (serves : symbols.Serves symbols' move.source) {args args' : List Value}
    (values : List.Forall₂ (Value.Renamed ids) args args') :
    (Frame.enter symbols move.source args).Arrived move ids
      (Frame.enter symbols' move.target args') where
  source := rfl
  target := rfl
  args := values
  slots := List.length_map ..
  locals := fun {i v} here => by
    obtain ⟨more, slots⟩ := move.slots
    simp only [Frame.enter, List.getElem?_map, Option.map_eq_some_iff] at here
    obtain ⟨type, declared, rfl⟩ := here
    have named := serves.types type (Body.type_of_slot (List.mem_of_getElem? declared))
    refine ⟨_, ?_, initial_renamed named⟩
    simp only [Frame.enter, List.getElem?_map, slots]
    rw [getElem?_append_of_eq_some declared more]
    rfl
  stack := .nil
  pending := .nil
  pc := move.entry.symm

/-- The same implementation is found in both machines, but for the bodies that stand for others. -/
theorem implementation_renamed (sim : m.StandsFor moves admits related m') (method : MethodId)
    (args depth : Nat) {found : Implementation σ}
    (success : m.implementation method args depth = .ok found) :
    (∃ code, found = .native code ∧ m.natives.lookup method = some code ∧
      m'.implementation method args depth = .ok (.native code)) ∨
    ∃ move, moves move ∧ found = .body move.source ∧
      m'.implementation method args depth = .ok (.body move.target) := by
  cases implementation_eq_iff.mp success with
  | native shallow declared arity bound =>
      refine Or.inl ⟨_, rfl, bound, implementation_eq_iff.mpr ?_⟩
      exact .native (sim.maxDepth ▸ shallow) (sim.methods declared) arity (sim.natives ▸ bound)
  | body shallow declared arity unbound stored distinct =>
      obtain ⟨move, known, rfl, stored', kept⟩ := sim.bodies stored
      refine Or.inr ⟨move, known, rfl, implementation_eq_iff.mpr ?_⟩
      exact .body (sim.maxDepth ▸ shallow) (sim.methods declared) arity (sim.natives ▸ unbound)
        stored' (kept distinct)

theorem enter_renamed (sim : m.StandsFor moves admits related m') (heaps : h.Renamed ids h')
    (waiting : List.Forall₂ (Caller.Renamed moves ids) callers callers')
    (worlds : related ids w w') {args args' : List Value}
    (values : List.Forall₂ (Value.Renamed ids) args args') {method : MethodId}
    (admitted : admits method args) :
    ∃ more, (m.enter method args callers h w).Renamed moves related (ids ++ more)
      (m'.enter method args' callers' h' w') := by
  unfold enter
  rw [← values.length_eq, ← waiting.length_eq]
  cases found : m.implementation method args.length callers.length with
  | error trap => exact ⟨[], .trapped _⟩
  | ok implementation =>
      rcases implementation_renamed sim method _ _ found with
        ⟨code, rfl, bound, found'⟩ | ⟨move, known, rfl, found'⟩
      · simp only [found']
        cases ran : (code h w args).result with
        | error trap => exact ⟨[], .trapped _⟩
        | ok v =>
            obtain ⟨more, v', ran', values, heaps, worlds⟩ :=
              sim.names bound admitted heaps worlds values ran
            simp only [ran']
            exact ⟨more, giveBack_renamed (callers_grow waiting more) heaps worlds values⟩
      · simp only [found']
        refine ⟨[], ?_⟩
        rw [List.append_nil]
        exact .running ⟨⟨waiting, heaps, worlds⟩, move, known,
          enter_arrived (sim.symbols known) values⟩

theorem follow_renamed (sim : m.StandsFor moves admits related m') (heaps : h.Renamed ids h')
    (waiting : List.Forall₂ (Caller.Renamed moves ids) callers callers')
    (worlds : related ids w w') {move : BodyMove} (known : moves move) {i : Nat} {a a' : Action}
    (actions : a.Renamed move ids i a')
    (admitted : ∀ f callee args created k, a = .call f callee args created k →
      admits callee args) :
    ∃ more, (m.follow a callers h w).Renamed moves related (ids ++ more)
      (m'.follow a' callers' h' w') := by
  cases actions with
  | next frames heaps =>
      refine ⟨[], ?_⟩
      rw [List.append_nil]
      exact .running ⟨⟨waiting, heaps, worlds⟩, move, known, frames⟩
  | exit values =>
      refine ⟨[], ?_⟩
      rw [List.append_nil]
      exact giveBack_renamed waiting heaps worlds values
  | raised frames values =>
      refine ⟨[], ?_⟩
      rw [List.append_nil]
      exact throwTo_renamed sim heaps (.cons ⟨move, i, known, frames, .none⟩ waiting) values worlds
  | escaped values =>
      refine ⟨[], ?_⟩
      rw [List.append_nil]
      exact throwTo_renamed sim heaps waiting values worlds
  | @call f f' _ _ created created' _ _ callee more frames values objects heaps =>
      have caller : Caller.Renamed moves (ids ++ more) ⟨f, created⟩ ⟨f', created'⟩ :=
        ⟨move, i, known, frames, objects⟩
      obtain ⟨further, progress⟩ := enter_renamed sim heaps
        (.cons caller (callers_grow waiting more)) (sim.grows worlds more) values
        (admitted _ _ _ _ _ rfl)
      refine ⟨more ++ further, ?_⟩
      rw [← List.append_assoc]
      exact progress

/-- The next instruction is a call of this method with these arguments. -/
def Calling (m : Machine σ) (c : Config σ) (callee : MethodId) (values : List Value) : Prop :=
  ∃ ins f created k, c.frame.body.code[c.frame.pc]? = some ins ∧
    Action.ofInstruction m.host.symbols c.heap c.frame.pc
      { c.frame with pc := c.frame.pc + 1 } ins = .ok (.call f callee values created k)

/-- One instruction that both bodies have. -/
theorem step_renamed (sim : m.StandsFor moves admits related m') {c c' : Config σ}
    (placed : c.Placed moves related ids c')
    (admitted : ∀ {callee values}, m.Calling c callee values → admits callee values) :
    ∃ more, (m.step c).Renamed moves related (ids ++ more) (m'.step c') := by
  obtain ⟨⟨waiting, heaps, worlds⟩, move, known, frames, pc⟩ := placed
  generalize moved : m.step c = p
  cases step_performs moved with
  | beyond | stopped => exact ⟨[], .trapped _⟩
  | @executed ins action _ here ran followed =>
    subst followed
    have there := frames.source ▸ here
    obtain ⟨ins', here', alike, target⟩ := move.code there
    rw [← frames.target, ← pc] at here'
    obtain ⟨action', ran', actions⟩ := Action.ofInstruction_renamed (frames.fetched c.frame.pc)
      ⟨List.mem_of_getElem? there, alike, target⟩ (sim.symbols known) heaps action ran
    rw [← pc] at ran'
    rw [step_of_action here' ran']
    exact follow_renamed sim heaps waiting worlds known actions
      fun _ _ _ _ _ called => admitted ⟨ins, _, _, _, here, called ▸ ran⟩

/-! ### Runs -/

/-- The run gets from one configuration to another by a number of instructions. -/
inductive Reaches (m : Machine σ) : Nat → Config σ → Config σ → Prop
  | here (c : Config σ) : Reaches m 0 c c
  | step {n : Nat} {c d e : Config σ} (moved : m.step c = .running d)
      (later : Reaches m n d e) : Reaches m (n + 1) c e

theorem Reaches.trans {n k : Nat} {c d e : Config σ} (first : m.Reaches n c d)
    (second : m.Reaches k d e) : m.Reaches (n + k) c e := by
  induction first with
  | here c => rwa [Nat.zero_add]
  | @step n c c' d moved _ ih =>
      rw [Nat.add_right_comm]
      exact .step moved (ih second)

theorem Reaches.once {c d : Config σ} (moved : m.step c = .running d) :
    m.Reaches 1 c d :=
  .step moved (.here d)

/-- A run ends as the part of it ends that is still to come, if the budget lasts until then. -/
theorem runFrom_reaches {n : Nat} {c d : Config σ} (reached : m.Reaches n c d)
    (budget steps : Nat) : (∃ limit, (m.runFrom budget steps c).1 = .error (.stepLimit limit)) ∨
      ∃ rest, m.runFrom budget steps c = m.runFrom rest (steps + n) d := by
  induction reached generalizing budget steps with
  | here c => exact Or.inr ⟨budget, rfl⟩
  | @step n c d e moved later ih =>
      cases budget with
      | zero => exact Or.inl ⟨_, rfl⟩
      | succ budget =>
          simp only [runFrom, moved]
          rw [show steps + (n + 1) = steps + 1 + n by omega]
          exact ih budget (steps + 1)

theorem Reaches.visits {method : MethodId} {args : List Value} {n : Nat} {c d : Config σ}
    (reached : m.Reaches n c d) (visited : m.Visits method args h w c) :
    m.Visits method args h w d := by
  induction reached with
  | here c => exact visited
  | step moved _ ih => exact ih (visited.stepped moved)

/-- How the outermost call ends, and the heap and the world behind it. -/
def ending (m : Machine σ) (method : MethodId) (args : List Value) (h : Heap) (w : σ) :
    Except Trap Result × Heap × σ :=
  match m.enter method args [] h w with
  | .ended result h w => (result, h, w)
  | .running c => ((m.runFrom m.stepLimit 0 c).1, (m.runFrom m.stepLimit 0 c).2.1,
      (m.runFrom m.stepLimit 0 c).2.2.1)

theorem call_eq_ending (m : Machine σ) (method : MethodId) (args : List Value) (h : Heap)
    (w : σ) : (m.call method args h w).result = m.resultOf method (m.ending method args h w).1 ∧
      (m.call method args h w).heap = (m.ending method args h w).2.1 ∧
      (m.call method args h w).world = (m.ending method args h w).2.2 := by
  unfold call ending
  cases m.enter method args [] h w with
  | ended result h w => exact ⟨rfl, rfl, rfl⟩
  | running c => exact ⟨rfl, rfl, rfl⟩

/-- What a run visits, it reaches from where the call has entered. -/
theorem Visits.reaches {method : MethodId} {args : List Value} {c : Config σ}
    (visited : m.Visits method args h w c) :
    ∃ start n, m.enter method args [] h w = .running start ∧ m.Reaches n start c := by
  induction visited with
  | @entered c started => exact ⟨c, 0, started, .here c⟩
  | stepped _ moved ih =>
      obtain ⟨start, n, entered, reached⟩ := ih
      exact ⟨start, n + 1, entered, reached.trans (.once moved)⟩

/-- A call that ends meets no trap on its way. -/
theorem Visits.untrapped {method : MethodId} {args : List Value} {c : Config σ}
    (visited : m.Visits method args h w c) {r : Result}
    (finished : (m.ending method args h w).1 = .ok r) (trap : Trap) (k : Heap) (u : σ) :
    m.step c ≠ .ended (.error trap) k u := by
  intro trapped
  obtain ⟨start, n, entered, reached⟩ := visited.reaches
  unfold ending at finished
  simp only [entered] at finished
  obtain ⟨limit, exceeded⟩ | ⟨rest, equal⟩ := runFrom_reaches reached m.stepLimit 0
  · rw [exceeded] at finished
    cases finished
  · rw [equal] at finished
    cases rest with
    | zero => cases finished
    | succ rest =>
        unfold runFrom at finished
        simp only [trapped] at finished
        cases finished

/-- The calls that a run makes, the outermost one included. -/
inductive Calls (m : Machine σ) (method : MethodId) (args : List Value) (h : Heap) (w : σ) :
    MethodId → List Value → Prop
  | outermost : Calls m method args h w method args
  | inner {c : Config σ} {callee : MethodId} {values : List Value}
      (visited : m.Visits method args h w c) (calling : m.Calling c callee values) :
      Calls m method args h w callee values

section Runs

variable {method : MethodId} {args args' : List Value} {k : Heap} {u : σ}

/-- The second machine always gets to the place of the instruction that the first one is at. -/
def CatchesUp (moves : BodyMove → Prop) (related : List ObjectId → σ → σ → Prop)
    (m' : Machine σ) (method : MethodId) (args' : List Value) (k : Heap) (u : σ) : Prop :=
  ∀ ⦃ids : List ObjectId⦄ ⦃c c' : Config σ⦄, m'.Visits method args' k u c' →
    c.Renamed moves related ids c' → ∃ n d', m'.Reaches n c' d' ∧ c.Placed moves related ids d'

theorem runFrom_renamed (sim : m.StandsFor moves admits related m')
    (catchesUp : m'.CatchesUp moves related method args' k u)
    (admitted : ∀ {callee values}, m.Calls method args h w callee values → admits callee values)
    {c c' : Config σ} (visited : m.Visits method args h w c)
    (visited' : m'.Visits method args' k u c') (configs : c.Renamed moves related ids c')
    {budget steps budget' steps' : Nat} {r : Result}
    (finished : (m.runFrom budget steps c).1 = .ok r)
    (within : ∀ limit, (m'.runFrom budget' steps' c').1 ≠ .error (.stepLimit limit)) :
    ∃ more r', (m'.runFrom budget' steps' c').1 = .ok r' ∧ r.Renamed (ids ++ more) r' ∧
      (m.runFrom budget steps c).2.1.Renamed (ids ++ more)
        (m'.runFrom budget' steps' c').2.1 := by
  induction budget generalizing ids steps budget' steps' c c' with
  | zero => cases finished
  | succ budget ih =>
      obtain ⟨n, d', reached, placed⟩ := catchesUp visited' configs
      obtain ⟨limit, exceeded⟩ | ⟨rest, equal⟩ := runFrom_reaches reached budget' steps'
      · exact absurd exceeded (within limit)
      rw [equal] at within ⊢
      obtain ⟨more, progress⟩ := step_renamed sim placed fun calling =>
        admitted (.inner visited calling)
      cases rest with
      | zero => exact absurd rfl (within m'.stepLimit)
      | succ rest =>
          unfold runFrom at finished within ⊢
          cases stepped : m.step c with
          | ended result h w =>
              rw [stepped] at progress
              simp only [stepped] at finished
              subst finished
              generalize ran : m'.step d' = p at progress
              cases progress with
              | ended results heaps worlds => exact ⟨more, _, rfl, results, heaps⟩
          | running c₁ =>
              rw [stepped] at progress
              simp only [stepped] at finished
              generalize ran : m'.step d' = p at progress within
              cases progress with
              | running configs =>
                  obtain ⟨further, r', finished', results, heaps⟩ :=
                    ih (visited.stepped stepped) ((reached.visits visited').stepped ran) configs
                      finished within
                  refine ⟨more ++ further, r', finished', ?_⟩
                  rw [← List.append_assoc]
                  exact ⟨results, heaps⟩

/-- A call that ends without a trap ends with the same result on the second machine, up to the
    handles of objects, unless that machine runs out of steps. -/
theorem ending_renamed (sim : m.StandsFor moves admits related m')
    (catchesUp : m'.CatchesUp moves related method args' h' w')
    (admitted : ∀ {callee values}, m.Calls method args h w callee values → admits callee values)
    (heaps : h.Renamed ids h') (worlds : related ids w w')
    (values : List.Forall₂ (Value.Renamed ids) args args') {r : Result}
    (finished : (m.ending method args h w).1 = .ok r)
    (within : ∀ limit, (m'.ending method args' h' w').1 ≠ .error (.stepLimit limit)) :
    ∃ more r', (m'.ending method args' h' w').1 = .ok r' ∧ r.Renamed (ids ++ more) r' ∧
      (m.ending method args h w).2.1.Renamed (ids ++ more)
        (m'.ending method args' h' w').2.1 := by
  obtain ⟨more, progress⟩ := enter_renamed sim heaps .nil worlds values (admitted .outermost)
  unfold ending at finished within ⊢
  cases entered : m.enter method args [] h w with
  | ended result k u =>
      rw [entered] at progress
      simp only [entered] at finished
      subst finished
      generalize m'.enter method args' [] h' w' = p at progress
      cases progress with
      | ended results heaps worlds => exact ⟨more, _, rfl, results, heaps⟩
  | running c =>
      rw [entered] at progress
      simp only [entered] at finished
      generalize entered' : m'.enter method args' [] h' w' = p at progress within
      cases progress with
      | running configs =>
          obtain ⟨further, r', finished', results, heaps⟩ :=
            runFrom_renamed sim catchesUp admitted (.entered entered) (.entered entered') configs
              finished within
          refine ⟨more ++ further, r', finished', ?_⟩
          rw [← List.append_assoc]
          exact ⟨results, heaps⟩

end Runs

end Machine

end HookSplice
