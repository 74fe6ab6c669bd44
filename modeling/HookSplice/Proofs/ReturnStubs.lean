import HookSplice.Proofs.GatePassages
import HookSplice.Proofs.SplicedStructure

/-!
# Return stubs

What runs when control comes to the stub behind a spliced body: it pops what the splice has counted
on the stack, loads the value that is to be returned, and returns it.
-/

namespace HookSplice

/-! ### Values that are returned -/

/-- The value that a method with the given arguments returns early, if it returns one. -/
def ReturnValue.value? (args : List Value) : ReturnValue → Option Value
  | void => none
  | null => some .null
  | int n => some (.int n)
  | text s => some (.text s)
  | arg i => args[i.toNat]?

/-- A method that can return the value returns nothing, or one instruction loads what it returns. -/
theorem ReturnValue.load_cases {v : ReturnValue} {signature : MethodDef} (fits : v.fits signature)
    {args : List Value} (arity : signature.argCount ≤ args.length) :
    (v.load = [] ∧ v.value? args = none ∧ signature.ret.isSome = false) ∨
      ∃ ins x, v.load = [ins] ∧ v.value? args = some x ∧ signature.ret.isSome = true ∧
        ∀ (symbols : SymbolTable) (h : Heap) (p : Nat) (f : Frame), f.args = args →
          Action.ofInstruction symbols h p f ins = .ok (.next (f.push x) h) := by
  cases v with
  | void =>
      have nothing : signature.ret.isNone = true := fits
      exact Or.inl ⟨rfl, rfl, by simpa using nothing⟩
  | null => exact Or.inr ⟨_, .null, rfl, rfl, fits, fun _ _ _ _ _ => rfl⟩
  | int n => exact Or.inr ⟨_, .int n, rfl, rfl, fits, fun _ _ _ _ _ => rfl⟩
  | text s => exact Or.inr ⟨_, .text s, rfl, rfl, fits, fun _ _ _ _ _ => rfl⟩
  | arg i =>
      simp only [ReturnValue.fits, Bool.and_eq_true, decide_eq_true_eq] at fits
      have below := Nat.lt_of_lt_of_le fits.2 arity
      have here := List.getElem?_eq_getElem below
      refine Or.inr ⟨_, _, rfl, here, fits.1, fun symbols h p f given => ?_⟩
      have loaded : f.loadArg i = .ok args[i.toNat] := by
        unfold Frame.loadArg
        rw [given, here]
      show Action.going h (Except.map f.push (f.loadArg i)) = _
      rw [loaded]
      rfl

/-! ### The stub in the body -/

/-- The stub of an early return with `depth` values on the stack stands in a body. -/
structure Body.StubAt (b : Body) (q depth : Nat) (v : ReturnValue) : Prop where
  pops : ∀ j < depth, ∃ ins, b.code[q + j]? = some ins ∧ ins.Alike (.plain .pop)
  load : ∀ ins, v.load = [ins] → ∃ ins', b.code[q + depth]? = some ins' ∧ ins'.Alike ins
  ret : ∃ ins, b.code[q + (depth + v.load.length)]? = some ins ∧ ins.Alike (.plain .ret)

/-- Where the code of a stub stands, the stub does. -/
theorem Body.stubAt_of_code {b : Body} {q depth : Nat} {v : ReturnValue} {deny : Label}
    (code : ∀ j, b.code[q + j]? = (Splice.returnStub depth v deny)[j]?) : b.StubAt q depth v := by
  have shape {j : Nat} (within : j < depth + v.load.length + 1) : ∃ ins,
      b.code[q + j]? = some ins ∧ ((j < depth ∧ ins.Alike (.plain .pop)) ∨
        (∃ load, v.load = [load] ∧ j = depth ∧ ins.Alike load) ∨
        (j = depth + v.load.length ∧ ins.Alike (.plain .ret))) := by
    rw [← Splice.length_returnStub depth v deny] at within
    have here := List.getElem?_eq_getElem within
    exact ⟨_, (code j).trans here, Splice.returnStub_getElem? here⟩
  constructor
  · intro j below
    obtain ⟨ins, here, ⟨-, alike⟩ | ⟨load, -, rfl, -⟩ | ⟨rfl, -⟩⟩ := shape (j := j) (by omega)
    · exact ⟨ins, here, alike⟩
    · exact absurd below (Nat.lt_irrefl _)
    · omega
  · intro ins only
    have one : v.load.length = 1 := by rw [only, List.length_singleton]
    obtain ⟨ins', here, ⟨below, -⟩ | ⟨load, same, -, alike⟩ | ⟨last, -⟩⟩ :=
      shape (j := depth) (by omega)
    · exact absurd below (Nat.lt_irrefl _)
    · rw [only] at same
      cases same
      exact ⟨ins', here, alike⟩
    · omega
  · obtain ⟨ins, here, ⟨below, -⟩ | ⟨load, only, last, -⟩ | ⟨-, alike⟩⟩ :=
      shape (j := depth + v.load.length) (by omega)
    · omega
    · rw [only, List.length_singleton] at last
      omega
    · exact ⟨ins, here, alike⟩

namespace Machine

variable {σ : Type} {m : Machine σ} {b : Body} {q depth : Nat} {v : ReturnValue} {c : Config σ}

theorem step_of_alike {ins ins' : Instruction} {a : Action}
    (here : c.frame.body.code[c.frame.pc]? = some ins') (alike : ins'.Alike ins)
    (ran : Action.ofInstruction m.host.symbols c.heap c.frame.pc
      { c.frame with pc := c.frame.pc + 1 } ins = .ok a) :
    m.step c = m.follow a c.callers c.heap c.world :=
  step_of_action here ((Action.ofInstruction_alike alike ..).trans ran)

theorem step_pop {ins : Instruction} {x : Value} {rest : List Value}
    (here : c.frame.body.code[c.frame.pc]? = some ins) (alike : ins.Alike (.plain .pop))
    (stack : c.frame.stack = x :: rest) : m.step c =
      .running (c.inside (c.frame.pc + 1) rest c.frame.locals c.heap c.world) := by
  refine step_of_alike (a := .next { c.frame with stack := rest, pc := c.frame.pc + 1 } c.heap)
    here alike ?_
  show Action.going c.heap (Except.map Prod.snd (Frame.pop _)) = _
  unfold Frame.pop
  simp only [stack]
  rfl

/-- A method returns what is on top of its stack if it returns something. -/
theorem step_ret {ins : Instruction} {signature : MethodDef} {result : Option Value}
    {rest : List Value} (here : c.frame.body.code[c.frame.pc]? = some ins)
    (alike : ins.Alike (.plain .ret))
    (declared : m.host.symbols.method? c.frame.body.method = some signature)
    (gives : result.isSome = signature.ret.isSome)
    (stack : c.frame.stack = result.toList ++ rest) :
    m.step c = giveBack result c.callers c.heap c.world := by
  refine step_of_alike (a := .exit result) here alike ?_
  show Action.ret m.host.symbols _ = _
  unfold Action.ret
  simp only [declared]
  cases result with
  | none =>
      rw [← gives]
      rfl
  | some x =>
      rw [← gives]
      simp only [Option.isSome_some, if_true, Frame.pop, stack]
      rfl

/-- The stub pops its values one by one. -/
theorem Crosses.pops (stub : b.StubAt q depth v) (body : c.frame.body = b) (start : c.frame.pc = q)
    (enough : depth ≤ c.frame.stack.length) {count : Nat} (fits : depth < count) {n : Nat}
    (few : n ≤ depth) : m.Crosses b q count c
      (c.inside (q + n) (c.frame.stack.drop n) c.frame.locals c.heap c.world) := by
  induction n with
  | zero =>
      rw [← start]
      exact .here
  | succ n ih =>
      obtain ⟨ins, here, alike⟩ := stub.pops n (Nat.lt_of_succ_le few)
      have below : n < c.frame.stack.length := by omega
      refine .onward (ih (Nat.le_of_succ_le few))
        ⟨body, Nat.le_add_right q n, Nat.add_lt_add_left (by omega) q⟩ ?_
      exact step_pop (by rw [← here, ← body]; rfl) alike (List.drop_eq_getElem_cons below)

/-- Control that comes to the stub with enough values on the stack gives back what is to be
    returned, and nothing else runs before. -/
theorem drains (stub : b.StubAt q depth v) (body : c.frame.body = b) (start : c.frame.pc = q)
    (enough : depth ≤ c.frame.stack.length) {signature : MethodDef}
    (declared : m.host.symbols.method? b.method = some signature) (fits : v.fits signature)
    (arity : signature.argCount ≤ c.frame.args.length) :
    ∃ d, m.Crosses b q (depth + v.load.length + 1) c d ∧
      d.Within b q (depth + v.load.length + 1) ∧
      m.step d = giveBack (v.value? c.frame.args) c.callers c.heap c.world := by
  subst body
  have popped : m.Crosses c.frame.body q (depth + v.load.length + 1) c
      (c.inside (q + depth) (c.frame.stack.drop depth) c.frame.locals c.heap c.world) :=
    .pops stub rfl start enough (by omega) (Nat.le_refl depth)
  have within : (c.inside (q + depth) (c.frame.stack.drop depth) c.frame.locals c.heap
      c.world).Within c.frame.body q (depth + v.load.length + 1) :=
    ⟨rfl, Nat.le_add_right q depth, Nat.add_lt_add_left (by omega) q⟩
  obtain ⟨ret, last, returns⟩ := stub.ret
  rcases ReturnValue.load_cases fits arity with ⟨load, value, gives⟩ |
    ⟨ins, x, load, value, gives, loads⟩
  · rw [load] at last
    refine ⟨_, popped, within, ?_⟩
    rw [value]
    exact step_ret last returns declared (by rw [gives]; rfl) rfl
  · obtain ⟨ins', here, alike⟩ := stub.load ins load
    rw [load] at last
    have moved : m.step (c.inside (q + depth) (c.frame.stack.drop depth) c.frame.locals c.heap
        c.world) = .running (c.inside (q + depth + 1) (x :: c.frame.stack.drop depth)
          c.frame.locals c.heap c.world) := by
      have stepped := step_of_alike
        (c := c.inside (q + depth) (c.frame.stack.drop depth) c.frame.locals c.heap c.world) here
        alike (loads m.host.symbols _ _ _ rfl)
      exact stepped
    refine ⟨_, .onward popped within moved, ⟨rfl, ?_, ?_⟩, ?_⟩
    · exact Nat.le_trans (Nat.le_add_right q depth) (Nat.le_succ _)
    · show q + depth + 1 < q + (depth + v.load.length + 1)
      rw [load, List.length_singleton]
      omega
    · rw [value]
      exact step_ret last returns declared (by rw [gives]; rfl) rfl

end Machine

end HookSplice
