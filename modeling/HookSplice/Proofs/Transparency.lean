import HookSplice.Proofs.Hooking

/-!
# Allowed hooks are transparent

A host with an event gate, and the host without it.  When the events of the gate stay allowed, a
call ends in the one as it ends in the other, up to the handles of objects, as far as subscribers
and native code cannot tell the two runs apart.
-/

namespace HookSplice

open Event (BusState Delivery)

namespace Hooking

variable {ρ : Type} {m : Machine (EventWorld ρ)}

/-- An allowed hook is transparent.  A call that ends on the original host ends the same way, with
    the same result and the same objects and statics up to the handles of objects, on the host with
    the gate; unless that run exceeds its steps or traps in the code of the gate.  The event
    contract is bound on both hosts, and dispatches are followed down to the same depth. -/
theorem transparent (k : Hooking m.host) (depth : Nat) (laminar : k.body.Laminar)
    {raises : String → Prop} {related : List ObjectId → BusState ρ → BusState ρ → Prop}
    (overlooks : Event.Overlooks depth k.gate.hook raises related)
    (names : ∀ {method : MethodId} {code : Native (EventWorld ρ)},
      m.natives.lookup method = some code → ∀ args,
        code.AbstractOn (fun ids w w' => related ids w.bus w'.bus) args)
    {method : MethodId} {args : List Value} {h : Heap} {w : EventWorld ρ} (closed : h.Closed)
    (valid : ∀ v ∈ args, v.ValidIn h) (start : related h.handles w.bus w.bus)
    (raised : ∀ hook object, (m.bindEvents k.contract depth).Calls method args h w
      k.contract.dispatch [.text hook, .object object] → raises hook)
    {r : Result} (finished : ((m.bindEvents k.contract depth).ending method args h w).1 = .ok r)
    (within : ∀ limit, ((k.machine depth).call method args h w).result ≠ .error (.stepLimit limit))
    (untrapped : k.Untrapped depth method args h w) :
    ∃ more r', ((k.machine depth).call method args h w).result =
        (k.machine depth).resultOf method (.ok r') ∧
      r.Renamed (h.handles ++ more) r' ∧
      ((m.bindEvents k.contract depth).call method args h w).heap.Renamed (h.handles ++ more)
        ((k.machine depth).call method args h w).heap := by
  obtain ⟨d, -, -, spliced⟩ := Splice.splice_eq_ok k.success
  have result : k.spliced.body = d.result := congrArg Spliced.body spliced
  have count : k.spliced.count = d.run.length := congrArg Spliced.count spliced
  have distinct : (Code.labels d.result.code).Nodup := result ▸ k.distinct
  obtain ⟨-, -, patched⟩ := Host.replaceBody_eq_ok.mp k.replaced
  have table : k.patched.symbols = k.table := by rw [patched]
  have bodies : k.patched.bodies = m.host.bodies.insert d.result := by rw [patched, result]
  have sim : (m.bindEvents k.contract depth).StandsFor (d.Moves m.host.bodies laminar distinct)
      (k.contract.Admits raises) (fun ids w w' => related ids w.bus w'.bus) (k.machine depth) :=
    d.standsFor (m := m.bindEvents k.contract depth) laminar distinct k.stored bodies
      (table.symm ▸ k.serves)
      (fun bound admitted => Machine.bindEvents_abstract overlooks names bound admitted)
      fun same => overlooks.grows same
  have catching : (k.machine depth).CatchesUp (d.Moves m.host.bodies laminar distinct)
      (fun ids (w w' : EventWorld ρ) => related ids w.bus w'.bus) method args h w :=
    EventGate.catchesUp (m := { m with host := k.patched }) d table laminar distinct k.declared
      k.built k.grown k.plain overlooks fun c visited here above below =>
        untrapped c visited (here.trans result.symm) above (count ▸ below)
  have admitted {callee : MethodId} {values : List Value}
      (called : (m.bindEvents k.contract depth).Calls method args h w callee values) :
      k.contract.Admits raises callee values := by
    rintro hook object rfl rfl
    exact raised hook object called
  have values : List.Forall₂ (Value.Renamed h.handles) args args :=
    List.forall₂_same.mpr fun v member => Heap.renamed_of_validIn (valid v member)
  obtain ⟨ends, heap, -⟩ := (k.machine depth).call_eq_ending method args h w
  obtain ⟨more, r', finished', results, heaps⟩ :=
    Machine.ending_renamed sim catching admitted closed.renamed start values finished
      fun limit exceeded => within limit (by rw [ends, exceeded]; rfl)
  refine ⟨more, r', ?_, results, ?_⟩
  · rw [ends, finished']
  · rw [heap, ((m.bindEvents k.contract depth).call_eq_ending method args h w).2.1]
    exact heaps

/-- A body that makes a shop. -/
def opening : Body :=
  .ofParts ⟨1⟩ [.of .newobj (.method ⟨0⟩), .plain .ret] [] []

/-- A machine over a class of shops, with that body. -/
def shops : Machine (EventWorld String) where
  host := {
    symbols := {
      typeNames := ["Shop"]
      fields := []
      methods := [⟨⟨⟨0⟩, ".ctor", [], none, false⟩, "Shop::.ctor()"⟩,
        ⟨⟨⟨0⟩, "Open", [], some ⟨0⟩, true⟩, "Shop::Open()"⟩] }
    bodies := ⟨[.ofParts ⟨0⟩ [.plain .ret] [] [], opening], by decide⟩
    applied := [] }
  natives := []
  stepLimit := 100
  maxDepth := 2

/-- A gate that tells its subscribers that a shop opens. -/
def announced : Hooking shops.host :=
  .ofGate ⟨"open", .action, [.null], [], .returning .null⟩ rfl
    (Except.run_eq_ok_value (by decide +kernel)) (by decide) opening rfl 0 ⟨true, 8, .stops⟩ rfl
    (Except.eq_ok_value (by decide +kernel))

/-- A bus with a subscriber that takes note of what it is told. -/
def noting : EventWorld String where
  bus := {
    bus := ⟨[("open", [⟨0, .note "open" (.finish .done)⟩])], ["open"]⟩
    notes := [] }
  journal := []

/-- The bus has the subscriber that takes notes. -/
def Notes (b : BusState String) : Prop :=
  b.bus.lists = noting.bus.bus.lists

/-- Every dispatch comes back as it was, and keeps the subscriber. -/
theorem Notes.dispatch? {b : BusState String} (notes : Notes b) (depth : Nat) (raised : String)
    (p : Event.Payload) : ∃ d c, b.dispatch? depth raised p = some (d, c) ∧
      d.payload = p ∧ Notes c := by
  have live : b.bus.subscribersOf raised = noting.bus.bus.subscribersOf raised :=
    congrArg (fun lists => (lists.lookup raised).getD []) notes
  unfold BusState.dispatch? Event.deliver
  rw [live]
  by_cases known : "open" = raised
  · subst known
    exact ⟨_, _, rfl, rfl, notes⟩
  · have unheard : noting.bus.bus.subscribersOf raised = [] := by
      simp [Event.Bus.subscribersOf, noting, lookup_cons_eq, Ne.symm known]
    rw [unheard]
    exact ⟨_, _, rfl, rfl, notes⟩

theorem overlooks_noting (depth : Nat) (hook : String) :
    Event.Overlooks depth hook (fun _ => True) fun _ b b' => Notes b ∧ Notes b' where
  grows := fun same _ => same
  alike := fun {_ b b' p p'} notes payloads raised _ d c came => by
    obtain ⟨d₁, c₁, came₁, payload, kept⟩ := notes.1.dispatch? depth raised p
    obtain ⟨d', c', came', payload', kept'⟩ := notes.2.dispatch? depth raised p'
    obtain ⟨rfl, rfl⟩ := Prod.mk.inj (Option.some.inj (came.symm.trans came₁))
    refine ⟨d', c', came', ?_, kept, kept'⟩
    rw [payload, payload']
    exact payloads
  apart := fun {_ b b' p} notes allowed d c came => by
    obtain ⟨d', c', came', payload, kept⟩ := notes.2.dispatch? depth hook p
    obtain ⟨rfl, rfl⟩ := Prod.mk.inj (Option.some.inj (came.symm.trans came'))
    rw [payload]
    exact ⟨allowed, rfl, notes.1, kept⟩

/-- In the hooked run the event is the first object, and the shop has another handle. -/
theorem announced_transparent :
    ((announced.machine 0).call ⟨1⟩ [] .empty noting).world.bus.notes = ["open"] ∧
      announced.Untrapped 0 ⟨1⟩ [] .empty noting ∧
      ((shops.bindEvents announced.contract 0).call ⟨1⟩ [] .empty noting).result =
        .ok (some (.object ⟨0⟩)) ∧
      ∃ more r', ((announced.machine 0).call ⟨1⟩ [] .empty noting).result =
          (announced.machine 0).resultOf ⟨1⟩ (.ok r') ∧
        (Result.returned (some (.object ⟨0⟩))).Renamed (Heap.empty.handles ++ more) r' ∧
        ((shops.bindEvents announced.contract 0).call ⟨1⟩ [] .empty noting).heap.Renamed
          (Heap.empty.handles ++ more) ((announced.machine 0).call ⟨1⟩ [] .empty noting).heap := by
  have untrapped : announced.Untrapped 0 ⟨1⟩ [] .empty noting := fun c visited _ _ _ =>
    visited.untrapped (r := .returned (some (.object ⟨1⟩))) (by decide +kernel)
  have closed : Heap.empty.Closed := ⟨fun {id _} found => by
    simp [Heap.object?, Heap.empty] at found, fun _ => trivial⟩
  have laminar : announced.body.Laminar := fun r member => by cases member
  refine ⟨by decide +kernel, untrapped, by decide +kernel, ?_⟩
  exact transparent announced 0 laminar (overlooks_noting 0 _) (fun bound => by cases bound) closed
    (fun v member => by cases member) ⟨rfl, rfl⟩ (fun _ _ _ => trivial) (by decide +kernel)
    (fun limit => by
      have ends : ((announced.machine 0).call ⟨1⟩ [] .empty noting).result =
        .ok (some (.object ⟨1⟩)) := by decide +kernel
      rw [ends]
      exact nofun)
    untrapped

/-! ### What an allowed hook can still change -/

/-- A body that asks subscribers for a price. -/
def pricing : Body :=
  .ofParts ⟨0⟩ [.plain .ldnull, .of .ldarg (.arg 0), .of .newobj (.method ⟨3⟩),
    .of .stloc (.slot 0), .of .ldstr (.text "price"), .of .ldloc (.slot 0),
    .of .call (.method ⟨5⟩), .of .ldloc (.slot 0), .of .ldfld (.field ⟨6⟩), .plain .ret] [⟨7⟩] []

/-- A machine over a host with that body, which declares the event contract. -/
def priced : Machine (EventWorld String) where
  host := {
    symbols := (EventContract.declare.runOn ⟨["Shop", "int"], [],
      [⟨⟨⟨0⟩, "Price", [⟨1⟩], some ⟨1⟩, true⟩, "Shop::Price(int)"⟩]⟩).2
    bodies := .single pricing
    applied := [] }
  natives := []
  stepLimit := 100
  maxDepth := 2

/-- A gate that tells its subscribers that the price will be asked for. -/
def peeked : Hooking priced.host :=
  .ofGate ⟨"peek", .action, [.null], [], .returning (.int 0)⟩ rfl
    (Except.run_eq_ok_value (by decide +kernel)) (by decide +kernel) pricing rfl 0
    ⟨true, 8, .stops⟩ rfl (Except.eq_ok_value (by decide +kernel))

/-- A subscriber that sets the price. -/
def raising : Event.Script String :=
  .read fun p => match p with
    | .amount subject _ allowed => .write (.amount subject 99 allowed) (.finish .done)
    | _ => .finish .done

/-- A subscriber that subscribes the other one. -/
def spying : Event.Script String :=
  .subscribe "price" raising fun _ => .finish .done

/-- A bus with the second subscriber behind the gate. -/
def spied : EventWorld String :=
  ⟨⟨⟨[("peek", [⟨0, spying⟩])], ["peek"]⟩, []⟩, []⟩

/-- Subscribers that leave every payload allowed can make the gate visible: the one behind it
    changes how the event of the original host is handled. -/
theorem spying_visible :
    priced.host.Verifies ∧ (∀ b ∈ priced.host.bodies, b.Laminar) ∧ priced.natives = [] ∧
      (∀ script ∈ [raising, spying], ∀ nested p (b : BusState String), p.isAllowed →
        ∃ result, script.run nested p b = some result ∧ result.2.1.isAllowed) ∧
      peeked.Untrapped 0 ⟨0⟩ [.int 3] .empty spied ∧
      ((priced.bindEvents peeked.contract 0).call ⟨0⟩ [.int 3] .empty spied).result =
        .ok (some (.int 3)) ∧
      ((peeked.machine 0).call ⟨0⟩ [.int 3] .empty spied).result = .ok (some (.int 99)) := by
  refine ⟨?_, ?_, rfl, ?_, ?_, by decide +kernel, by decide +kernel⟩
  · intro b member
    obtain rfl := List.mem_singleton.mp member
    exact ⟨8, _, Except.eq_ok_value (by decide +kernel)⟩
  · intro b member r inside
    obtain rfl := List.mem_singleton.mp member
    cases inside
  · intro script member nested p b allowed
    rcases List.mem_pair.mp member with rfl | rfl
    · cases p <;> exact ⟨_, rfl, allowed⟩
    · exact ⟨_, rfl, allowed⟩
  · exact fun c visited _ _ _ => visited.untrapped (r := .returned (some (.int 99)))
      (by decide +kernel)

end Hooking

end HookSplice
