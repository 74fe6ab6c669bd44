import HookSplice.Proofs.FinallyHandlers
import HookSplice.Proofs.FinallyRuns
import HookSplice.Proofs.HandlerOrder

/-!
# The order of unwinding

A `leave` and an exception take control through the regions around an instruction, by the lengths of
their protected ranges.  Finally handlers on the way are run one after the other, each entered with
an empty stack: the action that is put off on entry to one of them is taken up by the `endfinally`
that finds the frame with nothing else put off, whatever the handler has called, begun and put off
itself in between.  An exception passes the catch handlers that do not match it, and ends its way at
the first that does, or leaves the frame.  Whether a handler matches is decided when the exception
comes to it.
-/

namespace HookSplice

/-! ### Regions by rank -/

/-- The list holds the regions that satisfy a condition, shorter protected ranges first, and of
    equally long ones the one declared first. -/
structure Body.Ranks (b : Body) (keep : Region → Prop) (order : List Nat) : Prop where
  sorted : order.Pairwise b.Before
  mem : ∀ i, i ∈ order ↔ ∃ r, b.regions[i]? = some r ∧ keep r

theorem Body.ranks_innermostFirst (b : Body) (keep : Region → Bool) :
    b.Ranks (fun r => keep r) (Frame.innermostFirst b keep) :=
  ⟨Frame.before_innermostFirst, fun _ => Frame.mem_innermostFirst⟩

theorem Body.ranks_exited (b : Body) (position target : Nat) :
    b.Ranks (fun r => r.kind = .finalizing ∧ r.protects position ∧ ¬ r.protects target)
      (Frame.exited b position target) := by
  have ranks := b.ranks_innermostFirst fun r =>
    r.kind == .finalizing && r.protects position && !r.protects target
  unfold Frame.exited
  simpa [and_assoc] using ranks

theorem Body.Before.irrefl {b : Body} {i : Nat} : ¬ b.Before i i :=
  fun before => before.asymm before

/-- There is only one such list. -/
theorem Body.Ranks.eq {b : Body} {keep : Region → Prop} {order order' : List Nat}
    (ranks : b.Ranks keep order) (ranks' : b.Ranks keep order') : order = order' := by
  have nodup {l : List Nat} (sorted : l.Pairwise b.Before) : l.Nodup := by
    refine sorted.imp ?_
    rintro i _ before rfl
    exact Body.Before.irrefl before
  have perm : order.Perm order' := by
    refine (List.perm_ext_iff_of_nodup (nodup ranks.sorted) (nodup ranks'.sorted)).mpr ?_
    intro i
    rw [ranks.mem, ranks'.mem]
  exact perm.eq_of_pairwise (fun i j _ _ before after => absurd after before.asymm)
    ranks.sorted ranks'.sorted

/-- Whether the region has a catch handler that matches a value. -/
def Region.catches (symbols : SymbolTable) (heap : Heap) (v : Value) (r : Region) : Bool :=
  match r.kind with
  | .catching type => Frame.isInstance symbols heap type v
  | .finalizing => false

theorem Region.catches_of_keepsTypes {h k : Heap} {v : Value} (keeps : h.KeepsTypes k)
    (present : v.Present h) (symbols : SymbolTable) (r : Region) :
    r.catches symbols k v = r.catches symbols h v := by
  unfold catches
  split
  · next type kind => exact Frame.isInstance_of_keepsTypes keeps present symbols type
  · rfl

variable {σ : Type}

/-! ### Regions on the way -/

/-- The frame, running `b` above some callers, has entered the finally handler of a region, with an
    empty stack. -/
structure Config.InFinally (b : Body) (callers : List Caller) (i : Nat) (e : Config σ) : Prop where
  body : e.frame.body = b
  callers : e.callers = callers
  stack : e.frame.stack = []
  start : ∃ r, b.regions[i]? = some r ∧ r.kind = .finalizing ∧ e.frame.pc = r.handlerStart

namespace Machine

variable {m : Machine σ} {b : Body} {callers : List Caller} {declines : Heap → Region → Prop}
  {c c' e x : Config σ} {f : Frame} {v : Value} {heap : Heap} {world : σ}

/-- Between two moments of a run, the frame passes regions one after the other.  It declines the
    handler of a region where it stands, or runs the finally handler, the last step of which leads
    on to the next region. -/
inductive Passes (m : Machine σ) (b : Body) (callers : List Caller)
    (declines : Heap → Region → Prop) : List Nat → Progress σ → Progress σ → Prop
  | done (p : Progress σ) : Passes m b callers declines [] p p
  | declined {i : Nat} {r : Region} {rest : List Nat} {p q : Progress σ}
      (region : b.regions[i]? = some r) (declined : declines p.heap r)
      (further : Passes m b callers declines rest p q) : Passes m b callers declines (i :: rest) p q
  | handler {i : Nat} {rest : List Nat} {e x : Config σ} {q : Progress σ}
      (entered : e.InFinally b callers i) (finishes : m.Finishes e x)
      (further : Passes m b callers declines rest (m.step x) q) :
      Passes m b callers declines (i :: rest) (.running e) q

/-- Every finally handler that is entered on the way through the regions comes to its end. -/
def HandlersEnd (m : Machine σ) (b : Body) (callers : List Caller)
    (declines : Heap → Region → Prop) (order : List Nat) (p : Progress σ) : Prop :=
  ∀ front i back e, order = front ++ i :: back →
    m.Passes b callers declines front p (.running e) → e.InFinally b callers i →
    ∃ x, Relation.ReflTransGen m.NextTurn e x ∧ e.EndsFinally x

theorem HandlersEnd.finishes {i : Nat} {rest : List Nat}
    (end_ : m.HandlersEnd b callers declines (i :: rest) (.running e))
    (entered : e.InFinally b callers i) : ∃ x, m.Finishes e x := by
  obtain ⟨x, runs, ends⟩ := end_ [] i rest e rfl (.done _) entered
  exact exists_finishes runs ends

theorem HandlersEnd.handler {i : Nat} {rest : List Nat}
    (end_ : m.HandlersEnd b callers declines (i :: rest) (.running e))
    (entered : e.InFinally b callers i) (finishes : m.Finishes e x) :
    m.HandlersEnd b callers declines rest (m.step x) := by
  intro front j back e' split passes entered'
  refine end_ (i :: front) j back e' ?_ (.handler entered finishes passes) entered'
  rw [split, List.cons_append]

theorem HandlersEnd.declined {i : Nat} {r : Region} {rest : List Nat} {p : Progress σ}
    (end_ : m.HandlersEnd b callers declines (i :: rest) p) (region : b.regions[i]? = some r)
    (no : declines p.heap r) : m.HandlersEnd b callers declines rest p := by
  intro front j back e' split passes entered'
  refine end_ (i :: front) j back e' ?_ (.declined region no passes) entered'
  rw [split, List.cons_append]

/-! ### Beginning an action -/

theorem step_leave {ins : Instruction} {target : Nat}
    (here : c.frame.body.code[c.frame.pc]? = some ins) (op : ins.opcode = .leave)
    (leads : c.frame.body.targetOf? ins = some target) :
    m.step c = .running ⟨Frame.continueLeave { c.frame with pc := c.frame.pc + 1 } target
      (Frame.exited c.frame.body c.frame.pc target), c.callers, c.heap, c.world⟩ := by
  unfold step
  simp only [here, Action.ofInstruction, op, Action.leave, Frame.targetOf, leads, Except.ok_bind]
  rfl

/-- An exception comes to a frame at the instruction that it stands behind: at its own `throw`, or
    at the call that it waits for, when no frame above it has taken the exception. -/
inductive Raises (m : Machine σ) (c : Config σ) (v : Value) : Frame → List Caller → Prop
  | own {ins : Instruction} {below : List Value}
      (here : c.frame.body.code[c.frame.pc]? = some ins) (op : ins.opcode = .throw)
      (top : c.frame.stack = v :: below) (some_ : v ≠ .null) :
      Raises m c v { c.frame with pc := c.frame.pc + 1, stack := below } c.callers
  | offered {above callers : List Caller} {w : Caller} {heap : Heap} {world : σ}
      (waits : c.callers = above ++ w :: callers)
      (moved : m.step c = m.throwTo v (w :: callers) heap world) : Raises m c v w.frame callers

theorem throwTo_eq_offer (v : Value) (w : Caller) (callers : List Caller) (heap : Heap)
    (world : σ) :
    m.throwTo v (w :: callers) heap world =
      m.offer w.frame v (Frame.candidates w.frame.body (w.frame.pc - 1)) callers heap world :=
  throwTo_cons v w callers heap world

theorem Raises.step_eq (raises : m.Raises c v f callers) : ∃ heap world,
    m.step c = m.offer f v (Frame.candidates f.body (f.pc - 1)) callers heap world := by
  cases raises with
  | @own ins below here op top some_ =>
      refine ⟨c.heap, c.world, ?_⟩
      have moved : m.step c = m.throwTo v
          (⟨{ c.frame with pc := c.frame.pc + 1, stack := below }, none⟩ :: c.callers) c.heap
          c.world := by
        unfold step
        simp only [here, Action.ofInstruction, op, Action.raise, Frame.pop, top, Except.ok_bind,
          if_neg some_]
        rfl
      rw [moved, throwTo_eq_offer]
  | @offered above callers w heap world waits moved =>
      refine ⟨heap, world, ?_⟩
      rw [moved, throwTo_eq_offer]

theorem heap_offer (order : List Nat) : (m.offer f v order callers heap world).heap = heap := by
  unfold offer
  split
  · rfl
  · exact heap_throwTo _ _ _ _

/-! ### Leaving -/

/-- A frame has left for a position: it goes on there with an empty stack, and with the same put off
    as before. -/
structure Arrives (f : Frame) (callers : List Caller) (target : Nat) (c : Config σ) : Prop where
  body : c.frame.body = f.body
  callers : c.callers = callers
  pc : c.frame.pc = target
  stack : c.frame.stack = []
  pending : c.frame.pending = f.pending

/-- A frame that leaves through regions with finally handlers runs them all, and arrives. -/
theorem passes_continueLeave {target : Nat} {order : List Nat}
    (regions : ∀ i ∈ order, ∃ r, f.body.regions[i]? = some r ∧ r.kind = .finalizing)
    (regular : Config.Regular m.host ⟨f.continueLeave target order, callers, heap, world⟩)
    (end_ : m.HandlersEnd f.body callers declines order
      (.running ⟨f.continueLeave target order, callers, heap, world⟩)) :
    ∃ c', m.Passes f.body callers declines order
        (.running ⟨f.continueLeave target order, callers, heap, world⟩) (.running c') ∧
      Arrives f callers target c' := by
  induction order generalizing f heap world with
  | nil => exact ⟨_, .done _, rfl, rfl, rfl, rfl, rfl⟩
  | cons i rest ih =>
      obtain ⟨⟨r, region, kind⟩, others⟩ := List.forall_mem_cons.mp regions
      have start : (f.continueLeave target (i :: rest)).pc = r.handlerStart := by
        simp [Frame.continueLeave, region]
      have entered : Config.InFinally f.body callers i
          ⟨f.continueLeave target (i :: rest), callers, heap, world⟩ :=
        ⟨rfl, rfl, rfl, r, region, kind, start⟩
      obtain ⟨x, finishes⟩ := end_.finishes entered
      -- What was put off on entry is the rest of the way.
      obtain ⟨g, body, pending, moved⟩ := finishes.leaves regular rfl
      have body' : g.body = f.body := body
      have further := end_.handler entered finishes
      rw [moved, ← body'] at further
      obtain ⟨c', passes, arrives⟩ :=
        ih (body' ▸ others) (finishes.regular regular moved) further
      rw [body', ← moved] at passes
      exact ⟨c', .handler entered finishes passes, arrives.body.trans body', arrives.callers,
        arrives.pc, arrives.stack, arrives.pending.trans pending⟩

/-- A `leave` runs the finally handlers between its position and its target. -/
theorem leave_passes {ins : Instruction} {target : Nat} {order : List Nat}
    (regular : c.Regular m.host) (here : c.frame.body.code[c.frame.pc]? = some ins)
    (op : ins.opcode = .leave) (leads : c.frame.body.targetOf? ins = some target)
    (ranks : c.frame.body.Ranks (fun r => r.kind = .finalizing ∧ r.protects c.frame.pc ∧
      ¬ r.protects target) order)
    (end_ : m.HandlersEnd c.frame.body c.callers declines order (m.step c)) :
    ∃ c', m.Passes c.frame.body c.callers declines order (m.step c) (.running c') ∧
      Arrives c.frame c.callers target c' := by
  have moved := step_leave (m := m) here op leads
  obtain rfl := ranks.eq (c.frame.body.ranks_exited c.frame.pc target)
  have regions : ∀ i ∈ Frame.exited c.frame.body c.frame.pc target,
      ∃ r, c.frame.body.regions[i]? = some r ∧ r.kind = .finalizing := by
    intro i member
    obtain ⟨r, region, kind, -⟩ := (ranks.mem i).mp member
    exact ⟨r, region, kind⟩
  have regular' := (step_stepped regular moved).regular regular
  rw [moved] at end_ ⊢
  obtain ⟨c', passes, arrives⟩ := passes_continueLeave
    (f := { c.frame with pc := c.frame.pc + 1 }) regions regular' end_
  exact ⟨c', passes, ⟨arrives.body, arrives.callers, arrives.pc, arrives.stack, arrives.pending⟩⟩

/-! ### Unwinding -/

/-- The handler of a region that an exception passes does not match it. -/
def Declines (symbols : SymbolTable) (v : Value) (heap : Heap) (r : Region) : Prop :=
  r.kind ≠ .finalizing ∧ ¬ r.catches symbols heap v

/-- How the way of an exception through a frame ends, with some regions not passed: the first of
    them has a catch handler that matches, and the frame goes on there with nothing but the
    exception on its stack and with the same put off as before; or there are none, and the frame
    ends by throwing the exception. -/
inductive Settles (m : Machine σ) (f : Frame) (v : Value) (callers : List Caller) :
    List Nat → Progress σ → Prop
  | caught {i : Nat} {rest : List Nat} {r : Region} {c : Config σ}
      (region : f.body.regions[i]? = some r) (catches : r.catches m.host.symbols c.heap v)
      (body : c.frame.body = f.body) (callers_eq : c.callers = callers)
      (start : c.frame.pc = r.handlerStart) (stack : c.frame.stack = [v])
      (pending : c.frame.pending = f.pending) : Settles m f v callers (i :: rest) (.running c)
  | thrown (heap : Heap) (world : σ) : Settles m f v callers [] (m.throwTo v callers heap world)

theorem Settles.congr {g : Frame} {rest : List Nat} {q : Progress σ}
    (settles : m.Settles f v callers rest q) (body : f.body = g.body)
    (pending : f.pending = g.pending) : m.Settles g v callers rest q := by
  cases settles with
  | caught region catches body' callers_eq start stack pending' =>
      exact .caught (body ▸ region) catches (body'.trans body) callers_eq start stack
        (pending'.trans pending)
  | thrown heap world => exact .thrown heap world

/-- A finally handler takes every exception, and puts off the rest of its way. -/
theorem offer_finalizing {i : Nat} {r : Region} {rest : List Nat}
    (region : f.body.regions[i]? = some r) (kind : r.kind = .finalizing) :
    ∃ e, m.offer f v (i :: rest) callers heap world = .running e ∧ e.InFinally f.body callers i ∧
      e.frame.pending = .throw v rest :: f.pending := by
  unfold offer Frame.throwThrough?
  simp only [region, kind]
  exact ⟨_, rfl, ⟨rfl, rfl, rfl, r, region, kind, rfl⟩, rfl⟩

/-- A catch handler that does not match passes the exception on. -/
theorem offer_declined {i : Nat} {r : Region} {rest : List Nat}
    (region : f.body.regions[i]? = some r) (declines : Declines m.host.symbols v heap r) :
    m.offer f v (i :: rest) callers heap world = m.offer f v rest callers heap world := by
  obtain ⟨other, no⟩ := declines
  unfold offer
  rw [Frame.throwThrough?]
  cases kind : r.kind with
  | finalizing => exact absurd kind other
  | catching type =>
      have misses : ¬ Frame.isInstance m.host.symbols heap type v := by
        simpa [Region.catches, kind] using no
      simp only [region, kind, if_neg misses]

/-- A catch handler that matches takes the exception. -/
theorem offer_catches {i : Nat} {r : Region} {rest : List Nat}
    (region : f.body.regions[i]? = some r) (catches : r.catches m.host.symbols heap v) :
    m.Settles f v callers (i :: rest) (m.offer f v (i :: rest) callers heap world) := by
  unfold offer
  rw [Frame.throwThrough?]
  cases kind : r.kind with
  | finalizing => simp [Region.catches, kind] at catches
  | catching type =>
      have fits : Frame.isInstance m.host.symbols heap type v := by
        simpa [Region.catches, kind] using catches
      simp only [region, kind, if_pos fits]
      exact .caught region catches rfl rfl rfl rfl rfl

/-- An exception that is offered to regions of a frame runs the finally handlers on its way. -/
theorem passes_offer {order : List Nat}
    (regions : ∀ i ∈ order, ∃ r, f.body.regions[i]? = some r)
    (regular : ∀ e, m.offer f v order callers heap world = .running e → e.Regular m.host)
    (end_ : m.HandlersEnd f.body callers (Declines m.host.symbols v) order
      (m.offer f v order callers heap world)) :
    ∃ passed rest q, order = passed ++ rest ∧
      m.Passes f.body callers (Declines m.host.symbols v) passed
        (m.offer f v order callers heap world) q ∧
      m.Settles f v callers rest q := by
  induction order generalizing f heap world with
  | nil => exact ⟨[], [], _, rfl, .done _, .thrown heap world⟩
  | cons i rest ih =>
      obtain ⟨⟨r, region⟩, others⟩ := List.forall_mem_cons.mp regions
      by_cases catches : r.catches m.host.symbols heap v
      · exact ⟨[], i :: rest, _, rfl, .done _, offer_catches region catches⟩
      · by_cases kind : r.kind = .finalizing
        · obtain ⟨e, entry, entered, put⟩ : ∃ e,
              m.offer f v (i :: rest) callers heap world = .running e ∧
                e.InFinally f.body callers i ∧ e.frame.pending = .throw v rest :: f.pending :=
            offer_finalizing region kind
          rw [entry] at end_ ⊢
          have regular' := regular e entry
          obtain ⟨x, finishes⟩ := end_.finishes entered
          obtain ⟨g, body, pending, moved⟩ := finishes.offers regular' put
          have body' : g.body = f.body := body.trans entered.body
          have further := end_.handler entered finishes
          rw [entered.callers] at moved
          rw [moved, ← body'] at further
          obtain ⟨front, back, q, rfl, passes, settles⟩ :=
            ih (body' ▸ others) (fun e next => finishes.regular regular' (moved.trans next)) further
          rw [body', ← moved] at passes
          exact ⟨i :: front, back, q, rfl, .handler entered finishes passes,
            settles.congr body' pending⟩
        · have declines : Declines m.host.symbols v heap r := ⟨kind, catches⟩
          rw [offer_declined region declines] at regular end_ ⊢
          have here : Declines m.host.symbols v (m.offer f v rest callers heap world).heap r := by
            rw [heap_offer]
            exact declines
          obtain ⟨front, back, q, rfl, passes, settles⟩ :=
            ih others regular (end_.declined region here)
          exact ⟨i :: front, back, q, rfl, .declined region here passes, settles⟩

/-- An exception runs the finally handlers in front of the catch handler that takes it. -/
theorem Raises.passes {order : List Nat} (raises : m.Raises c v f callers)
    (regular : c.Regular m.host)
    (ranks : f.body.Ranks (fun r => r.protects (f.pc - 1)) order)
    (end_ : m.HandlersEnd f.body callers (Declines m.host.symbols v) order (m.step c)) :
    ∃ passed rest q, order = passed ++ rest ∧
      m.Passes f.body callers (Declines m.host.symbols v) passed (m.step c) q ∧
      m.Settles f v callers rest q := by
  obtain ⟨heap, world, moved⟩ := raises.step_eq
  obtain rfl := ranks.eq (f.body.ranks_innermostFirst fun r => r.protects (f.pc - 1))
  have regions : ∀ i ∈ Frame.candidates f.body (f.pc - 1), ∃ r, f.body.regions[i]? = some r := by
    intro i member
    obtain ⟨r, region, -⟩ := (ranks.mem i).mp member
    exact ⟨r, region⟩
  have regular' : ∀ e, m.step c = .running e → e.Regular m.host :=
    fun e next => (step_stepped regular next).regular regular
  rw [moved] at end_ regular' ⊢
  exact passes_offer regions regular' end_

/-! ### Handlers that match from the start -/

/-- Whether a region of the body has a catch handler that matches a value. -/
def CatchesAt (m : Machine σ) (b : Body) (heap : Heap) (v : Value) (i : Nat) : Bool :=
  b.regions[i]?.any fun r => r.catches m.host.symbols heap v

/-- When native code keeps the types of objects, the regions that a value has passed would not have
    matched it before. -/
theorem Passes.keepsTypes (natives : m.NativesKeepTypes) {passed : List Nat} {p q : Progress σ}
    (passes : m.Passes b callers (Declines m.host.symbols v) passed p q)
    (present : v.Present p.heap) :
    p.heap.KeepsTypes q.heap ∧ ∀ i ∈ passed, ¬ m.CatchesAt b p.heap v i := by
  induction passes with
  | done p => exact ⟨.refl p.heap, fun _ member => absurd member List.not_mem_nil⟩
  | @declined i r rest p q region declines _ ih =>
      obtain ⟨keeps, others⟩ := ih present
      refine ⟨keeps, List.forall_mem_cons.mpr ⟨?_, others⟩⟩
      simpa [CatchesAt, region] using declines.2
  | @handler i rest e x q entered finishes _ ih =>
      have ran : e.heap.KeepsTypes (m.step x).heap :=
        (finishes.keepsTypes natives).trans (step_keepsTypes natives x)
      have still : v.Present (m.step x).heap := by
        rintro id rfl
        obtain ⟨o, found⟩ := Option.isSome_iff_exists.mp (present id rfl)
        obtain ⟨o', found', -⟩ := ran id o found
        rw [found']
        rfl
      obtain ⟨keeps, others⟩ := ih still
      refine ⟨ran.trans keeps, List.forall_mem_cons.mpr ⟨?_, ?_⟩⟩
      · obtain ⟨r, region, kind, -⟩ := entered.start
        simp [CatchesAt, region, Region.catches, kind]
      · intro j member
        have no := others j member
        unfold CatchesAt at no ⊢
        simp only [Region.catches_of_keepsTypes ran present] at no
        exact no

theorem Settles.passed_eq (natives : m.NativesKeepTypes) {passed rest : List Nat}
    {p q : Progress σ} (settles : m.Settles f v callers rest q)
    (passes : m.Passes f.body callers (Declines m.host.symbols v) passed p q)
    (present : v.Present p.heap) :
    passed = (passed ++ rest).takeWhile fun i => !m.CatchesAt f.body p.heap v i := by
  obtain ⟨keeps, none_⟩ := passes.keepsTypes natives present
  have all : ∀ i ∈ passed, (!m.CatchesAt f.body p.heap v i) = true := by
    intro i member
    simpa using none_ i member
  rw [List.takeWhile_append_of_pos all]
  cases settles with
  | thrown heap world => simp
  | @caught i rest r c region catches =>
      have first : m.CatchesAt f.body p.heap v i := by
        have here := Region.catches_of_keepsTypes keeps present m.host.symbols r
        simp only [CatchesAt, region, Option.any_some, ← here]
        exact catches
      simp [first]

/-- Unwinding in order.  At a `leave` to a position, the frame runs the finally handlers of the
    regions around the instruction that are not around the target, shorter protected ranges first,
    each once and entered with an empty stack, and then goes on at the target with an empty stack;
    provided that each of them comes to its end when it is entered.  An exception that is raised in
    a frame, by its own instruction or by a method that it calls, passes the regions around the
    instruction in the same order, and the frame runs the finally handlers among them; until a catch
    handler matches the exception when it comes to it, where the frame goes on with nothing else on
    its stack, or until all regions are passed and the frame ends by throwing the exception.  What
    the frame had put off before is put off again in the end.  If the exception does not refer to a
    missing object and native code keeps the types of objects, then the handler that takes the
    exception is the first one that has matched from the start. -/
theorem unwinds_in_order (m : Machine σ) {method : MethodId} {args : List Value} {heap : Heap}
    {world : σ} {c : Config σ} (visited : m.Visits method args heap world c) :
    (∀ ins target order, c.frame.body.code[c.frame.pc]? = some ins → ins.opcode = .leave →
      c.frame.body.targetOf? ins = some target →
      c.frame.body.Ranks (fun r => r.kind = .finalizing ∧ r.protects c.frame.pc ∧
        ¬ r.protects target) order →
      m.HandlersEnd c.frame.body c.callers (fun _ _ => False) order (m.step c) →
      ∃ c', m.Passes c.frame.body c.callers (fun _ _ => False) order (m.step c) (.running c') ∧
        Arrives c.frame c.callers target c') ∧
    ∀ v f callers order, m.Raises c v f callers →
      f.body.Ranks (fun r => r.protects (f.pc - 1)) order →
      m.HandlersEnd f.body callers (Declines m.host.symbols v) order (m.step c) →
      ∃ passed rest q, order = passed ++ rest ∧
        m.Passes f.body callers (Declines m.host.symbols v) passed (m.step c) q ∧
        m.Settles f v callers rest q ∧
        (m.NativesKeepTypes → v.Present (m.step c).heap →
          passed = order.takeWhile fun i => !m.CatchesAt f.body (m.step c).heap v i) := by
  constructor
  · intro ins target order here op leads ranks end_
    exact leave_passes visited.regular here op leads ranks end_
  · intro v f callers order raises ranks end_
    obtain ⟨passed, rest, q, rfl, passes, settles⟩ := raises.passes visited.regular ranks end_
    exact ⟨passed, rest, q, rfl, passes, settles,
      fun natives present => settles.passed_eq natives passes present⟩

/-! ### Two ways out -/

/-- When every finally handler of a body starts with its end, all of them come to it. -/
theorem handlersEnd_of_start {order : List Nat} {p : Progress σ}
    (ends : ∀ r ∈ b.regions, r.kind = .finalizing → b.EndsAt r.handlerStart) :
    m.HandlersEnd b callers declines order p := by
  intro front i back e split passes entered
  obtain ⟨r, region, kind, start⟩ := entered.start
  refine ⟨e, .refl, ?_, rfl⟩
  rw [entered.body, start]
  exact ends r (List.mem_of_getElem? region) kind

/-- Leaves through two finally handlers, and throws a number through a third one to a handler for
    numbers. -/
def landingBody : Body :=
  .ofParts ⟨0⟩
    [.of .leave (.label ⟨0⟩), .plain .endfinally, .plain .endfinally, ⟨.nop, .none, [⟨0⟩]⟩,
      .of .ldc (.int 7), .plain .throw, .plain .endfinally, .plain .pop, .plain .ret]
    [] [⟨.finalizing, 0, 1, 1, 2⟩, ⟨.finalizing, 0, 2, 2, 3⟩, ⟨.finalizing, 4, 6, 6, 7⟩,
      ⟨.catching ⟨1⟩, 4, 7, 7, 9⟩]

/-- Both handlers run on the way to the target, and one on the way to the catch handler. -/
theorem landingBody_unwinds :
    (ofBody landingBody).host.Verifies ∧
    (ofBody landingBody).Visits ⟨0⟩ [] .empty () (alone landingBody 0 [] []) ∧
    (ofBody landingBody).Visits ⟨0⟩ [] .empty () (alone landingBody 5 [.int 7] []) ∧
    (∃ c', (ofBody landingBody).Passes landingBody [] (fun _ _ => False) [0, 1]
        ((ofBody landingBody).step (alone landingBody 0 [] [])) (.running c') ∧
      Arrives (alone landingBody 0 [] []).frame [] 3 c') ∧
    ∃ q, (ofBody landingBody).Passes landingBody []
        (Declines (ofBody landingBody).host.symbols (.int 7)) [2]
        ((ofBody landingBody).step (alone landingBody 5 [.int 7] [])) q ∧
      (ofBody landingBody).Settles (alone landingBody 6 [] []).frame (.int 7) [] [3] q := by
  have start : (ofBody landingBody).Visits ⟨0⟩ [] .empty () (alone landingBody 0 [] []) :=
    .entered rfl
  have inner : (ofBody landingBody).Visits ⟨0⟩ [] .empty ()
      (alone landingBody 1 [] [.leave 3 [1]]) := start.stepped rfl
  have outer : (ofBody landingBody).Visits ⟨0⟩ [] .empty ()
      (alone landingBody 2 [] [.leave 3 []]) := inner.stepped rfl
  have target : (ofBody landingBody).Visits ⟨0⟩ [] .empty () (alone landingBody 3 [] []) :=
    outer.stepped rfl
  have inside : (ofBody landingBody).Visits ⟨0⟩ [] .empty () (alone landingBody 4 [] []) :=
    target.stepped rfl
  have throws : (ofBody landingBody).Visits ⟨0⟩ [] .empty ()
      (alone landingBody 5 [.int 7] []) := inside.stepped rfl
  have ends : ∀ r ∈ landingBody.regions, r.kind = .finalizing →
      landingBody.EndsAt r.handlerStart := by decide
  have exits : landingBody.Ranks (fun r => r.kind = .finalizing ∧ r.protects 0 ∧ ¬ r.protects 3)
      [0, 1] := landingBody.ranks_exited 0 3
  have offers : landingBody.Ranks (fun r => r.protects 5) [2, 3] :=
    landingBody.ranks_innermostFirst fun r => r.protects 5
  have raises : (ofBody landingBody).Raises (alone landingBody 5 [.int 7] []) (.int 7)
      (alone landingBody 6 [] []).frame [] := .own rfl rfl rfl (by decide)
  obtain ⟨c', leaves, arrives⟩ := (unwinds_in_order (ofBody landingBody) start).1 _ 3 [0, 1] rfl rfl
    rfl exits (handlersEnd_of_start ends)
  obtain ⟨passed, rest, q, order, passes, settles, first⟩ :=
    (unwinds_in_order (ofBody landingBody) throws).2 _ _ _ [2, 3] raises offers
      (handlersEnd_of_start ends)
  have natives : (ofBody landingBody).NativesKeepTypes :=
    fun _ bound => absurd bound List.not_mem_nil
  have present : (Value.int 7).Present
      ((ofBody landingBody).step (alone landingBody 5 [.int 7] [])).heap := by
    intro id same
    cases same
  obtain rfl : passed = [2] := first natives present
  obtain rfl : [3] = rest := by simpa using order
  exact ⟨ofBody_verifies 2 rfl, start, throws, ⟨c', leaves, arrives⟩, q, passes, settles⟩

/-! ### An object that comes too late -/

/-- The way of an exception is known when it is raised: it runs the finally handlers in front of the
    first catch handler that matches then, and ends at that handler, or leaves the frame if there is
    none. -/
def Foresees (m : Machine σ) : Prop :=
  ∀ method args heap world c v f callers order, m.Visits method args heap world c →
    m.Raises c v f callers → f.body.Ranks (fun r => r.protects (f.pc - 1)) order →
    let front := order.takeWhile fun i => !m.CatchesAt f.body (m.step c).heap v i
    let finals := front.filter fun i => f.body.regions[i]?.any fun r => r.kind == .finalizing
    m.HandlersEnd f.body callers (fun _ _ => False) finals (m.step c) →
    ∃ q, m.Passes f.body callers (fun _ _ => False) finals (m.step c) q ∧
      match order.drop front.length with
      | [] => ∃ heap' world', q = m.throwTo v callers heap' world'
      | i :: _ => ∃ r c', f.body.regions[i]? = some r ∧ q = .running c' ∧
          c'.frame.body = f.body ∧ c'.callers = callers ∧ c'.frame.pc = r.handlerStart ∧
          c'.frame.stack = [v]

/-- Throws its argument, makes a guest on the way out, and catches guests. -/
def lateBody : Body :=
  .ofParts ⟨0⟩
    [.of .ldarg (.arg 0), .plain .throw, .of .newobj (.method ⟨1⟩), .plain .pop,
      .plain .endfinally, .plain .pop, .plain .ret]
    [] [⟨.finalizing, 0, 2, 2, 5⟩, ⟨.catching ⟨2⟩, 0, 2, 5, 7⟩]

/-- The machine for this method and the constructor of guests. -/
def lateMaker : Machine Unit :=
  .ofHost {
    symbols := {
      typeNames := ["Main", "object", "Guest"]
      fields := []
      methods := [⟨⟨⟨0⟩, "run", [⟨1⟩], none, true⟩, "Main::run(object)"⟩,
        ⟨⟨⟨2⟩, ".ctor", [], none, false⟩, "Guest::.ctor()"⟩] }
    bodies := ⟨[lateBody, .ofParts ⟨1⟩ [.plain .ret] [] []], by decide⟩
    applied := [] }

/-- The frame of a call with a reference to the first object. -/
def late (pc : Nat) (stack : List Value) (put : List Pending) (heap : Heap) : Config Unit :=
  ⟨⟨lateBody, [.object ⟨0⟩], [], stack, pc, put⟩, [], heap, ()⟩

/-- The heap with one guest. -/
def guestHeap : Heap := ⟨#[⟨⟨2⟩, []⟩], []⟩

/-- The finally handler makes the object that the exception refers to. -/
theorem late_finishes : lateMaker.Finishes (late 2 [] [.throw (.object ⟨0⟩) [1]] .empty)
    (late 4 [] [.throw (.object ⟨0⟩) [1]] guestHeap) := by
  have made : lateMaker.NextTurn (late 2 [] [.throw (.object ⟨0⟩) [1]] .empty)
      (late 3 [.object ⟨0⟩] [.throw (.object ⟨0⟩) [1]] guestHeap) :=
    ⟨_, .deeper .here rfl (Nat.lt_succ_self 0), rfl, rfl⟩
  have dropped : lateMaker.NextTurn (late 3 [.object ⟨0⟩] [.throw (.object ⟨0⟩) [1]] guestHeap)
      (late 4 [] [.throw (.object ⟨0⟩) [1]] guestHeap) := .of_step rfl rfl
  have before : ¬ lateBody.EndsAt 2 := by decide
  have before' : ¬ lateBody.EndsAt 3 := by decide
  refine ⟨.tail (.tail .refl ⟨fun ends => before ends.1, made⟩)
    ⟨fun ends => before' ends.1, dropped⟩, ?_, rfl⟩
  show lateBody.EndsAt 4
  decide

/-- No handler matches a reference to a missing object when it is thrown, but one does when the
    object has been made. -/
theorem lateMaker_not_foresees : lateMaker.host.Verifies ∧ ¬ lateMaker.Foresees := by
  constructor
  · intro b member
    rcases List.mem_cons.mp member with rfl | member
    · exact ⟨1, _, rfl⟩
    · obtain rfl := List.mem_singleton.mp member
      exact ⟨1, _, rfl⟩
  · intro foresees
    have start : lateMaker.Visits ⟨0⟩ [.object ⟨0⟩] .empty () (late 0 [] [] .empty) :=
      .entered rfl
    have throws : lateMaker.Visits ⟨0⟩ [.object ⟨0⟩] .empty ()
        (late 1 [.object ⟨0⟩] [] .empty) := start.stepped rfl
    have raises : lateMaker.Raises (late 1 [.object ⟨0⟩] [] .empty) (.object ⟨0⟩)
        (late 2 [] [] .empty).frame [] := .own rfl rfl rfl (by decide)
    have offers : lateBody.Ranks (fun r => r.protects 1) [0, 1] :=
      lateBody.ranks_innermostFirst fun r => r.protects 1
    have entry : lateMaker.step (late 1 [.object ⟨0⟩] [] .empty) =
        .running (late 2 [] [.throw (.object ⟨0⟩) [1]] .empty) := rfl
    have end_ : lateMaker.HandlersEnd lateBody [] (fun _ _ => False) [0]
        (lateMaker.step (late 1 [.object ⟨0⟩] [] .empty)) := by
      intro front i back e split passes entered
      cases front with
      | cons j front => simp at split
      | nil =>
          rw [entry] at passes
          cases passes
          exact ⟨_, late_finishes.turns, late_finishes.2⟩
    obtain ⟨q, passes, heap', world', thrown⟩ :=
      foresees ⟨0⟩ _ _ _ _ _ _ _ [0, 1] throws raises offers end_
    rw [entry] at passes
    cases passes with
    | declined region no further => exact no
    | @handler _ _ _ x _ entered finishes further =>
        cases further
        obtain rfl := finishes.unique late_finishes
        have caught : lateMaker.step (late 4 [] [.throw (.object ⟨0⟩) [1]] guestHeap) =
            .running (late 5 [.object ⟨0⟩] [] guestHeap) := rfl
        have left : lateMaker.throwTo (.object ⟨0⟩) [] heap' world' =
            .ended (.ok (.threw (.object ⟨0⟩))) heap' world' := rfl
        rw [caught, left] at thrown
        cases thrown

end Machine

end HookSplice
