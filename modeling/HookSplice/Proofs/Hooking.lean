import HookSplice.Proofs.GateExecution
import HookSplice.Proofs.Hosts

/-!
# Hosts with an event gate

A host into one of whose bodies an event gate was spliced.  The machine over it runs, in place of
the original body, one that holds its code; and control that comes to the splice point passes
through the gate, as long as the events of the gate stay allowed.
-/

namespace HookSplice

open Event (BusState PayloadKind)

/-! ### Native bindings of a contract -/

/-- The calls that are admitted: a dispatch raises only hooks of some kind. -/
def EventContract.Admits (contract : EventContract) (raises : String → Prop)
    (callee : MethodId) (args : List Value) : Prop :=
  ∀ raised object, callee = contract.dispatch → args = [.text raised, .object object] →
    raises raised

namespace Machine

variable {ρ : Type} {m : Machine (EventWorld ρ)} {contract : EventContract} {depth : Nat}
  {s : SymbolTable}

theorem natives_bindEvents (m : Machine (EventWorld ρ)) (contract : EventContract) (depth : Nat) :
    (m.bindEvents contract depth).natives = (contract.dispatch, contract.dispatchNative depth) ::
      ([PayloadKind.substitute, .amount, .targeted, .action].map fun k =>
        ((contract.eventClass k).constructor, (contract.eventClass k).constructorNative)) ++
      m.natives :=
  rfl

/-- Native code of a machine to which a contract is bound: the dispatch of the contract, one of its
    constructors, or code that the machine has had before. -/
theorem lookup_bindEvents {method : MethodId} {code : Native (EventWorld ρ)}
    (bound : (m.bindEvents contract depth).natives.lookup method = some code) :
    (method = contract.dispatch ∧ code = contract.dispatchNative depth) ∨
      (∃ k, method = (contract.eventClass k).constructor ∧
        code = (contract.eventClass k).constructorNative) ∨
      m.natives.lookup method = some code := by
  rw [natives_bindEvents] at bound
  simp only [List.map_cons, List.map_nil, List.cons_append, List.nil_append,
    lookup_cons_eq] at bound
  split at bound
  · next called =>
      cases bound
      exact Or.inl ⟨called, rfl⟩
  iterate 4
    split at bound
    · next called =>
        cases bound
        exact Or.inr (Or.inl ⟨_, called, rfl⟩)
  exact Or.inr (Or.inr bound)

theorem lookup_dispatch :
    (m.bindEvents contract depth).natives.lookup contract.dispatch =
      some (contract.dispatchNative depth) := by
  rw [natives_bindEvents, List.cons_append, lookup_cons_eq, if_pos rfl]

/-- Each constructor is bound to its own code. -/
theorem lookup_constructor (declared : contract.DeclaredIn s) (k : PayloadKind) :
    (m.bindEvents contract depth).natives.lookup (contract.eventClass k).constructor =
      some (contract.eventClass k).constructorNative := by
  have equal (k' : PayloadKind) : (contract.eventClass k).constructor =
      (contract.eventClass k').constructor ↔ k = k' :=
    ⟨declared.constructor_inj, fun same => same ▸ rfl⟩
  rw [natives_bindEvents, List.cons_append, lookup_cons_eq,
    if_neg (declared.constructor_ne_dispatch k)]
  simp only [List.map_cons, List.map_nil, List.cons_append, List.nil_append, lookup_cons_eq, equal]
  cases k <;> rfl

/-- Binding a contract adds native code that treats handles as names. -/
theorem bindEvents_abstract {hook : String} {raises : String → Prop}
    {related : List ObjectId → BusState ρ → BusState ρ → Prop}
    (overlooks : Event.Overlooks depth hook raises related)
    (names : ∀ {method : MethodId} {code : Native (EventWorld ρ)},
      m.natives.lookup method = some code → ∀ args,
        code.AbstractOn (fun ids w w' => related ids w.bus w'.bus) args)
    {method : MethodId} {code : Native (EventWorld ρ)} {args : List Value}
    (bound : (m.bindEvents contract depth).natives.lookup method = some code)
    (admitted : contract.Admits raises method args) :
    code.AbstractOn (fun ids w w' => related ids w.bus w'.bus) args := by
  obtain ⟨called, rfl⟩ | ⟨k, -, rfl⟩ | bound := lookup_bindEvents bound
  · exact dispatchNative_abstract contract overlooks fun shape => admitted _ _ called shape
  · exact constructorNative_abstract _ args
  · exact names bound args

end Machine

/-! ### The spliced body in place of the original -/

/-- Locals behind those of the other body may be written. -/
theorem Frame.Renamed.setLocal {m : BodyMove} {ids : List ObjectId} {f f' : Frame}
    (same : f.Renamed m ids f') {slot : Nat} (beyond : m.source.locals.length ≤ slot) (v : Value) :
    f.Renamed m ids { f' with locals := f'.locals.set slot v } where
  source := same.source
  target := same.target
  args := same.args
  slots := same.slots
  locals := fun {i _} here => by
    have below := (List.getElem?_eq_some_iff.mp here).1
    rw [same.slots] at below
    simp only [List.getElem?_set]
    rw [if_neg (by omega)]
    exact same.locals here
  stack := same.stack
  pending := same.pending

namespace Splice.Done

variable {symbols : SymbolTable} {options : SpliceOptions} {body : Body} {point : Nat}
  {t : Template} (d : Done symbols options body point t) (bodies : Bodies)
  (laminar : body.Laminar) (distinct : (Code.labels d.result.code).Nodup)

/-- Bodies stand for themselves, and the spliced body stands for the original one. -/
inductive Moves : BodyMove → Prop
  | kept {b : Body} (member : b ∈ bodies) : Moves (.refl b)
  | spliced : Moves (d.move laminar distinct)

variable {σ : Type} {related : List ObjectId → σ → σ → Prop} {m : Machine σ} {patched : Host}

/-- The machine over the host with the spliced body stands for the one over the original host. -/
theorem standsFor {admits : MethodId → List Value → Prop}
    (stored : m.host.body? body.method = some body)
    (spliced : patched.bodies = m.host.bodies.insert d.result)
    (serves : ∀ b ∈ m.host.bodies, m.host.symbols.Serves patched.symbols b)
    (names : ∀ {method : MethodId} {code : Native σ} {args : List Value},
      m.natives.lookup method = some code → admits method args → code.AbstractOn related args)
    (grows : ∀ {ids : List ObjectId} {w w' : σ}, related ids w w' →
      ∀ more, related (ids ++ more) w w') :
    m.StandsFor (d.Moves m.host.bodies laminar distinct) admits related
      { m with host := patched } := by
  have member := List.mem_of_find?_eq_some stored
  refine ⟨fun {move} known => ?_, (serves body member).methods, fun {method b} found => ?_, rfl,
    rfl, names, grows⟩
  · cases known with
    | kept other => exact serves _ other
    | spliced => exact serves body member
  · have now : patched.body? method = _ :=
      spliced ▸ m.host.bodies.find?_insert d.result method
    rw [d.method_eq] at now
    by_cases target : body.method = method
    · subst target
      obtain rfl := Option.some.inj (stored.symm.trans found)
      rw [if_pos rfl] at now
      exact ⟨d.move laminar distinct, .spliced, rfl, now,
        fun _ => (Code.duplicate?_eq_none_iff _).mpr distinct⟩
    · rw [if_neg target] at now
      exact ⟨.refl b, .kept (List.mem_of_find?_eq_some found), rfl, now.trans found, id⟩

end Splice.Done

/-- No label stands twice in the new body, if that was verified. -/
theorem Splice.distinct_of_verify {symbols : SymbolTable} {options : SpliceOptions} {body : Body}
    {point : Nat} {t : Template} {s : Spliced} (verify : options.verify = true)
    (success : splice symbols options body point t = .ok s) : (Code.labels s.body.code).Nodup := by
  obtain ⟨d, -, whole, rfl⟩ := splice_eq_ok success
  unfold checkWhole at whole
  rw [if_pos verify] at whole
  split at whole
  · cases whole
  · next map analyzed =>
      obtain ⟨enclosing, -, verified⟩ := StackMap.analyze_eq_ok analyzed
      exact verified.structured.labels

/-! ### Catching up -/

namespace EventGate

variable {ρ : Type} {m : Machine (EventWorld ρ)} {g : EventGate} {s s' : SymbolTable}
  {contract : EventContract} {t : Template} {options : SpliceOptions} {body : Body} {point : Nat}
  {depth : Nat} {raises : String → Prop}
  {related : List ObjectId → BusState ρ → BusState ρ → Prop}

/-- What the template of a gate has expanded to, and what its constructor and the dispatch method
    take from the stack. -/
theorem run_eq_code {symbols : SymbolTable} (d : Splice.Done symbols options body point t)
    (declared : EventContract.declare.runOn s = (.ok contract, s'))
    (built : g.build.runOn s = (.ok t, s')) (grown : s'.Extends symbols) :
    ∃ allowed stores, ∃ slot : UInt16,
      (contract.eventClass g.kind).field? .allowed = some allowed ∧
      Stores (contract.eventClass g.kind) g.readBack stores ∧ slot.toNat = body.locals.length ∧
      d.run = g.code contract allowed stores slot d.site.label ∧
      ∀ {made dispatched : MethodDef},
        symbols.method? (contract.eventClass g.kind).constructor = some made →
        symbols.method? contract.dispatch = some dispatched →
        made.params.length + dispatched.argCount = g.captures.length + 2 := by
  obtain ⟨contract', declared', templated⟩ := build_templateOver built
  obtain rfl := Except.ok.inj (Prod.mk.inj (declared'.symm.trans declared)).1
  obtain ⟨allowed, stores, known, listed, template⟩ := templateOver_steps templated
  obtain ⟨slot, place, code⟩ := materialize_steps (congrArg Template.steps template)
    (congrArg (fun t => t.scratch.length) template) d.expanded
  rw [(Splice.denySite_eq_ok d.sited).locals_eq] at place
  have level : d.effect.delta = 0 := by
    rw [d.checks.balance, template]
    rfl
  have inTable := (EventContract.declare_runOn declared).2.grow grown
  exact ⟨allowed, stores, slot, known, listed, place, code, fun constructs dispatches =>
    balanced (code ▸ d.explored) level constructs dispatches (inTable.dispatch_void dispatches)⟩

/-- Control that arrives at the splice point passes through the gate to the old instruction. -/
theorem catchesUp {symbols : SymbolTable} {bodies : Bodies}
    (d : Splice.Done symbols options body point t) (table : m.host.symbols = symbols)
    (laminar : body.Laminar) (distinct : (Code.labels d.result.code).Nodup)
    (declared : EventContract.declare.runOn s = (.ok contract, s'))
    (built : g.build.runOn s = (.ok t, s')) (grown : s'.Extends symbols)
    (plain : g.readBack = []) (overlooks : Event.Overlooks depth g.hook raises related)
    {method : MethodId} {args : List Value} {h : Heap} {w : EventWorld ρ}
    (untrapped : ∀ c, (m.bindEvents contract depth).Visits method args h w c →
      c.frame.body = d.result → point ≤ c.frame.pc → c.frame.pc < point + d.run.length →
      ∀ trap k u, (m.bindEvents contract depth).step c ≠ .ended (.error trap) k u) :
    (m.bindEvents contract depth).CatchesUp (d.Moves bodies laminar distinct)
      (fun ids (w w' : EventWorld ρ) => related ids w.bus w'.bus) method args h w := by
  subst table
  obtain ⟨allowed, stores, slot, known, listed, place, code, balanced⟩ :=
    run_eq_code d declared built grown
  rw [plain] at listed
  cases listed
  have inTable := (EventContract.declare_runOn declared).2.grow grown
  have inserted : (m.bindEvents contract depth).Inserted
      ((m.bindEvents contract depth).Visits method args h w) d.result point
      (g.code contract allowed [] slot d.site.label) := by
    rw [← code]
    exact ⟨d.getElem?_inside, fun visited _ _ _ => visited.stepped, fun {c} => untrapped c⟩
  intro ids c c' visited configs
  obtain ⟨agrees, move, known', arrived⟩ := configs
  cases known' with
  | kept member =>
      exact ⟨0, c', .here c', agrees, _, .kept member, arrived.toRenamed, arrived.pc⟩
  | spliced =>
      by_cases there : c.frame.pc = point
      · have pc : c'.frame.pc = point := by
          rw [arrived.pc, there]
          exact Splice.shiftBound_self
        have entry : c'.inside point c'.frame.stack c'.frame.locals c'.heap c'.world = c' := by
          rw [← pc]
          rfl
        have enters : (m.bindEvents contract depth).Visits method args h w
            (c'.inside point c'.frame.stack c'.frame.locals c'.heap c'.world) := by
          rwa [entry]
        obtain ⟨n, object, k, u, reached, heaps, buses⟩ := inserted.gate inTable known
          (Machine.lookup_constructor inTable g.kind) Machine.lookup_dispatch balanced overlooks
          arrived.target enters agrees.heaps agrees.worlds
        rw [entry, ← code] at reached
        have same := arrived.toRenamed.setLocal (Nat.le_of_eq place.symm) (.object object)
        refine ⟨n, _, reached, ⟨agrees.callers, heaps, buses⟩, _, .spliced, ?_, ?_⟩
        · exact ⟨same.source, same.target, same.args, same.slots, same.locals, same.stack,
            same.pending⟩
        · show point + d.run.length = Splice.moved point d.run.length c.frame.pc
          rw [there]
          exact (if_pos (Nat.le_refl point)).symm
      · refine ⟨0, c', .here c', agrees, _, .spliced, arrived.toRenamed, ?_⟩
        rw [arrived.pc]
        exact (Splice.moved_of_ne there).symm

end EventGate

/-! ### A gate in a host -/

theorem SymbolTable.Extends.serves {s s' : SymbolTable} {b : Body} (grown : s.Extends s')
    (typed : ∀ type ∈ b.types, s.hasType type) : s.Serves s' b where
  methods := grown.method?
  types := fun type named => grown.typeName (typed type named)

/-- An event gate without read-backs that was built for an event contract and spliced into a body
    of a host, with the new body verified as a whole. -/
structure Hooking (host : Host) where
  gate : EventGate
  plain : gate.readBack = []
  /-- The symbols before and after the declarations that the gate needs. -/
  before : SymbolTable
  after : SymbolTable
  contract : EventContract
  declared : EventContract.declare.runOn before = (.ok contract, after)
  template : Template
  built : gate.build.runOn before = (.ok template, after)
  /-- The symbols of the host with the gate. -/
  table : SymbolTable
  grown : after.Extends table
  serves : ∀ b ∈ host.bodies, host.symbols.Serves table b
  body : Body
  stored : host.body? body.method = some body
  point : Nat
  options : SpliceOptions
  verify : options.verify = true
  spliced : Spliced
  success : splice table options body point template = .ok spliced
  patched : Host
  replaced : { host with symbols := table }.replaceBody spliced.body = .ok (some body, patched)

namespace Hooking

/-- The hooking of a gate that adds what it declares to the symbols of the host. -/
def ofGate {host : Host} (gate : EventGate) (plain : gate.readBack = []) {template : Template}
    {after : SymbolTable} (built : gate.build.runOn host.symbols = (.ok template, after))
    (typed : ∀ b ∈ host.bodies, ∀ type ∈ b.types, host.symbols.hasType type) (body : Body)
    (stored : host.body? body.method = some body) (point : Nat) (options : SpliceOptions)
    (verify : options.verify = true) {spliced : Spliced}
    (success : splice after options body point template = .ok spliced) : Hooking host :=
  have declares : (EventContract.declare.runOn host.symbols).1.toOption.isSome ∧
      (EventContract.declare.runOn host.symbols).2 = after := by
    obtain ⟨contract, declared, -⟩ := EventGate.build_templateOver built
    rw [declared]
    exact ⟨rfl, rfl⟩
  have declared := Prod.ext (Except.eq_ok_value declares.1) declares.2
  { gate, plain, after, template, built, body, stored, point, options, verify, spliced, success
    before := host.symbols
    contract := Except.value (EventContract.declare.runOn host.symbols).1 declares.1
    declared := declared
    table := after
    grown := .refl after
    serves := fun b member => (EventContract.declare_runOn declared).1.serves (typed b member)
    patched := ⟨after, host.bodies.insert spliced.body, host.applied⟩
    replaced := by
      obtain ⟨d, -, -, rfl⟩ := Splice.splice_eq_ok success
      refine Host.replaceBody_eq_ok.mpr ⟨?_, ?_, rfl⟩
      · rw [d.method_eq]
        exact Option.isSome_of_eq_some d.declared
      · rw [d.method_eq]
        exact stored.symm }

theorem distinct {host : Host} (k : Hooking host) : (Code.labels k.spliced.body.code).Nodup :=
  Splice.distinct_of_verify k.verify k.success

variable {ρ : Type} {m : Machine (EventWorld ρ)}

/-- The machine over the host with the gate, with events bound. -/
def machine (k : Hooking m.host) (depth : Nat) : Machine (EventWorld ρ) :=
  Machine.bindEvents { m with host := k.patched } k.contract depth

/-- The gate runs without a trap, and its dispatches come back. -/
def Untrapped (k : Hooking m.host) (depth : Nat) (method : MethodId) (args : List Value) (h : Heap)
    (w : EventWorld ρ) : Prop :=
  ∀ c, (k.machine depth).Visits method args h w c → c.frame.body = k.spliced.body →
    k.point ≤ c.frame.pc → c.frame.pc < k.point + k.spliced.count →
    ∀ trap h w, (k.machine depth).step c ≠ .ended (.error trap) h w

end Hooking

end HookSplice
