import HookSplice.Proofs.SplicedStructure

/-!
# The depths of spliced bodies

The checks that a splice makes on the inserted run imply what the verifier asks of the whole body.
From the stack map of the original body and the relative depths of the run a depth map of the new
body is put together: the old depths at the moved positions, the relative depths on top of the depth
at the splice point, and the falling depths of the return stub.
-/

namespace HookSplice

theorem StackEffect.Suits.alike {symbols : SymbolTable} {enclosing : MethodDef}
    {a b : Instruction} {k : Nat} {effect : StackEffect}
    (suits : Suits symbols enclosing a k effect) (alike : b.Alike a) :
    Suits symbols enclosing b k effect where
  effect_eq := (RunEffect.ofInstruction_alike alike).trans suits.effect_eq
  enough := suits.enough
  exact_at_ret := fun ret => suits.exact_at_ret (alike.1.symm.trans ret)

/-- The instruction that loads a value to be returned needs nothing on the stack. -/
theorem StackEffect.Suits.load {symbols : SymbolTable} {enclosing : MethodDef} {v : ReturnValue}
    {ins : Instruction} (only : v.load = [ins]) (k : Nat) :
    Suits symbols enclosing ins k ⟨0, 1⟩ := by
  refine ⟨?_, Nat.zero_le k, fun ret => ?_⟩
  · cases v <;> cases only <;> rfl
  · cases v <;> cases only <;> cases ret

theorem ReturnValue.length_load_le (v : ReturnValue) : v.load.length ≤ 1 := by
  cases v <;> simp [ReturnValue.load]

/-- A value that fits a signature leaves on the stack what the signature returns. -/
theorem ReturnValue.length_load (v : ReturnValue) {signature : MethodDef}
    (fits : v.fits signature) : v.load.length = StackEffect.results signature.ret := by
  unfold StackEffect.results
  cases v <;> simp only [ReturnValue.fits, Bool.and_eq_true, Option.isNone_iff_eq_none] at fits
  case void => simp [ReturnValue.load, fits]
  case arg => simp [ReturnValue.load, fits.1]
  all_goals simp [ReturnValue.load, fits]

/-- A body is finite, so that some limit is large enough for its depths. -/
theorem Body.exists_depthsBelow (symbols : SymbolTable) (enclosing : MethodDef) (body : Body)
    (d : Nat → Option Nat) : ∃ limit, body.DepthsBelow symbols enclosing d limit := by
  have upTo : ∀ n, ∃ limit, ∀ i < n, ∀ k ins effect, d i = some k → body.code[i]? = some ins →
      StackEffect.ofInstruction symbols enclosing ins = .ok effect → effect.behind k ≤ limit := by
    intro n
    induction n with
    | zero => exact ⟨0, fun i below => absurd below (Nat.not_lt_zero i)⟩
    | succ n ih =>
        obtain ⟨limit, earlier⟩ := ih
        by_cases here : ∃ k ins effect, d n = some k ∧ body.code[n]? = some ins ∧
            StackEffect.ofInstruction symbols enclosing ins = .ok effect
        · obtain ⟨k, ins, effect, known, there, effect_eq⟩ := here
          refine ⟨max limit (effect.behind k), fun i below k' ins' effect' known' there'
            found => ?_⟩
          rcases Nat.lt_succ_iff_lt_or_eq.mp below with less | rfl
          · exact Nat.le_trans (earlier i less k' ins' effect' known' there' found)
              (Nat.le_max_left ..)
          · obtain rfl := Option.some.inj (known.symm.trans known')
            obtain rfl := Option.some.inj (there.symm.trans there')
            obtain rfl := Except.ok.inj (effect_eq.symm.trans found)
            exact Nat.le_max_right ..
        · refine ⟨limit, fun i below k ins effect known there found => ?_⟩
          rcases Nat.lt_succ_iff_lt_or_eq.mp below with less | rfl
          · exact earlier i less k ins effect known there found
          · exact absurd ⟨k, ins, effect, known, there, found⟩ here
  obtain ⟨limit, below⟩ := upTo body.code.length
  refine ⟨limit, fun i k ins effect known here found => ?_⟩
  exact below i (List.getElem?_eq_some_iff.mp here).1 k ins effect known here found

namespace Splice.Done

variable {symbols : SymbolTable} {options : SpliceOptions} {body : Body} {point : Nat}
  {t : Template} (d : Done symbols options body point t)

/-! ### The depths -/

/-- How many values the return stub finds. -/
def left : Nat :=
  ((d.depth : Int) + d.delta).toNat

/-- The depths of the new body. -/
def depths (p : Nat) : Option Nat :=
  if p < point then d.map.depthAt? p
  else if p < point + d.run.length then
    (RunEffect.depthAt? symbols d.signature d.run (p - point)).map fun r =>
      ((d.depth : Int) + r).toNat
  else if p < body.size + d.run.length then d.map.depthAt? (p - d.run.length)
  else if p < d.result.size then
    some (if p - (body.size + d.run.length) ≤ d.left then
      d.left - (p - (body.size + d.run.length)) else 1)
  else none

theorem depths_moved {i : Nat} (below : i < body.size) :
    d.depths (moved point d.run.length i) = d.map.depthAt? i := by
  unfold depths moved
  split
  · rw [if_neg (by omega), if_neg (by omega), if_pos (by omega), Nat.add_sub_cancel]
  · rw [if_pos (by omega)]

theorem depths_inside {o : Nat} (within : o < d.run.length) :
    d.depths (point + o) = (RunEffect.depthAt? symbols d.signature d.run o).map fun r =>
      ((d.depth : Int) + r).toNat := by
  unfold depths
  rw [if_neg (by omega), if_pos (by omega), Nat.add_sub_cancel_left]

theorem depths_stub {j : Nat} (within : j < d.stub.length) :
    d.depths (body.size + d.run.length + j) = some (if j ≤ d.left then d.left - j else 1) := by
  have inside := d.inside
  have size := d.size_eq
  unfold depths
  rw [if_neg (by omega), if_neg (by omega), if_neg (by omega), if_pos (by omega),
    Nat.add_sub_cancel_left]

theorem depthAt?_lt {i k : Nat} (known : d.map.depthAt? i = some k) : i < body.size := by
  obtain ⟨ins, effect, here, -⟩ := d.verified.map.step known
  exact (List.getElem?_eq_some_iff.mp here).1

/-- Control that arrives at the new position of a label finds the depth of its old one. -/
theorem depths_shiftBound {i k : Nat} (known : d.map.depthAt? i = some k) :
    d.depths (Region.shiftBound point d.run.length i) = some k := by
  by_cases atPoint : i = point
  · subst atPoint
    have nonempty := List.length_pos_iff.mpr d.run_nonempty
    have first := d.depths_inside nonempty
    obtain rfl := Option.some.inj (d.known.symm.trans known)
    rw [Nat.add_zero, d.explored.entry] at first
    rw [shiftBound_self, first]
    simp
  · rw [← moved_of_ne atPoint, d.depths_moved (d.depthAt?_lt known), known]

/-- What the depths of the new body come from. -/
theorem depths_cases {p k : Nat} (known : d.depths p = some k) :
    (∃ i, p = moved point d.run.length i ∧ d.map.depthAt? i = some k) ∨
      (∃ o r, o < d.run.length ∧ p = point + o ∧
        RunEffect.depthAt? symbols d.signature d.run o = some r ∧
        k = ((d.depth : Int) + r).toNat) ∨
      ∃ j, j < d.stub.length ∧ p = body.size + d.run.length + j ∧
        k = if j ≤ d.left then d.left - j else 1 := by
  have inside := d.inside
  have size := d.size_eq
  unfold depths at known
  split at known
  · exact Or.inl ⟨p, (if_neg (by omega)).symm, known⟩
  split at known
  · obtain ⟨r, found, rfl⟩ := Option.map_eq_some_iff.mp known
    exact Or.inr (Or.inl ⟨p - point, r, by omega, by omega, found, rfl⟩)
  split at known
  · refine Or.inl ⟨p - d.run.length, ?_, known⟩
    unfold moved
    rw [if_pos (by omega)]
    omega
  split at known
  · cases known
    exact Or.inr (Or.inr ⟨p - (body.size + d.run.length), by omega, by omega, rfl⟩)
  · cases known

/-- A position of the new body that has a depth, and that control reaches, has it in every stack map
    of the body. -/
theorem depthAt?_eq_depths {limit : Nat} {m : StackMap}
    (success : StackMap.analyze symbols d.result limit = .ok m)
    (agrees : ∀ p k, m.depthAt? p = some k → d.depths p = some k) {p : Nat}
    (reached : (d.depths p).isSome → d.result.Reaches p) : m.depthAt? p = d.depths p := by
  cases known : m.depthAt? p with
  | some k => exact (agrees p k known).symm
  | none =>
      cases found : d.depths p with
      | none => rfl
      | some k =>
          have there := (StackMap.depthAt?_isSome_iff success).mpr (reached (by simp [found]))
          simp [known] at there

/-! ### How control passes -/

/-- The run can be left to the handlers around the splice point only. -/
theorem handler_inside {o : Nat} (within : o < d.run.length) {r : Region}
    (member : r ∈ d.result.regions) (protects : r.protects (point + o)) :
    d.depths r.handlerStart = some r.entryDepth := by
  rw [d.regions_eq] at member
  obtain ⟨original, around, rfl⟩ := List.mem_map.mp member
  rw [protects_inside original within] at protects
  obtain ⟨ins, effect, here, -, passes⟩ := d.verified.map.step d.known
  exact d.depths_shiftBound (passes _ _ (.handler around protects))

/-- Control that goes on inside the run, or to its end, finds the relative depth on top of the depth
    at the splice point. -/
theorem depths_within (balanced : t.delta = 0) {o : Nat} {r : Int} (within : o ≤ d.run.length)
    (found : RunEffect.depthAt? symbols d.signature d.run o = some r) :
    d.depths (point + o) = some ((d.depth : Int) + r).toNat := by
  rcases Nat.lt_or_eq_of_le within with inner | rfl
  · rw [d.depths_inside inner, found]
    rfl
  · have zero : r = 0 := by
      have balance := d.checks.balance
      rw [d.explored.final] at found
      rw [balanced] at balance
      exact (Option.some.inj found).symm.trans balance
    have here := d.depths_moved d.inside
    rw [moved, if_pos (Nat.le_refl point), d.known] at here
    rw [here, zero]
    simp

/-- The instruction at a position suits its depth, and passes on depths of the new body. -/
def StepsOn (p k : Nat) : Prop :=
  ∃ ins effect, d.result.code[p]? = some ins ∧
    StackEffect.Suits symbols d.signature ins k effect ∧
    ∀ q k', d.result.Passes p ins (effect.behind k) q k' → d.depths q = some k'

/-- Control leaves an instruction of the stub for the next one at most. -/
theorem passes_stub {j after q k : Nat} {ins : Instruction} (here : d.stub[j]? = some ins)
    (passes : d.result.Passes (body.size + d.run.length + j) ins after q k) :
    ins.opcode.fallsThrough ∧ q = body.size + d.run.length + (j + 1) ∧ k = after := by
  cases passes with
  | onward falls => exact ⟨falls, rfl, rfl⟩
  | branch target =>
      obtain ⟨v, fits, code⟩ := d.stub_cases here
      rw [code] at here
      have named := (returnStub_sound symbols body fits here).2.1
      rw [Body.targetOf?, named] at target
      cases target
  | handler member protects =>
      rw [d.regions_eq] at member
      obtain ⟨r, original, rfl⟩ := List.mem_map.mp member
      rw [(d.outside_stub original j).1] at protects
      cases protects

/-- The stub pops what is left, loads the result and returns. -/
theorem stepsOn_stub {j : Nat} (within : j < d.stub.length) :
    d.StepsOn (body.size + d.run.length + j) (if j ≤ d.left then d.left - j else 1) := by
  have here := List.getElem?_eq_getElem within
  have there := (d.getElem?_stub j).trans here
  obtain ⟨v, fits, code⟩ := d.stub_cases here
  have length : d.stub.length = d.left + v.load.length + 1 := by
    rw [code, length_returnStub]
    rfl
  have inStub : (returnStub d.left v d.site.label)[j]? = some d.stub[j] := code ▸ here
  rcases returnStub_getElem? inStub with ⟨below, alike⟩ | ⟨load, only, rfl, alike⟩ | ⟨last, alike⟩
  · refine ⟨_, ⟨1, 0⟩, there, .alike ⟨rfl, ?_, fun ret => ?_⟩ alike, fun q k' passes => ?_⟩
    · rw [if_pos (by omega)]
      show 1 ≤ d.left - j
      omega
    · cases ret
    · obtain ⟨-, rfl, rfl⟩ := d.passes_stub here passes
      rw [d.depths_stub (by omega), if_pos (by omega), if_pos (by omega)]
      unfold StackEffect.behind
      congr 1
  · refine ⟨_, ⟨0, 1⟩, there, .alike (.load only _) alike, fun q k' passes => ?_⟩
    obtain ⟨-, rfl, rfl⟩ := d.passes_stub here passes
    rw [only, List.length_singleton] at length
    rw [d.depths_stub (by omega), if_neg (by omega), if_pos (Nat.le_refl _)]
    simp [StackEffect.behind]
  · have results : (if j ≤ d.left then d.left - j else 1) =
        StackEffect.results d.signature.ret := by
      rw [← v.length_load fits]
      have one := v.length_load_le
      split <;> omega
    rw [results]
    refine ⟨_, ⟨StackEffect.results d.signature.ret, 0⟩, there,
      .alike ⟨rfl, Nat.le_refl _, fun _ => rfl⟩ alike, fun q k' passes => ?_⟩
    obtain ⟨falls, -, -⟩ := d.passes_stub here passes
    rw [alike.1] at falls
    cases falls

section Distinct

variable (distinct : (Code.labels d.result.code).Nodup)
include distinct

/-- From a moved instruction control goes on to where the old one led. -/
theorem passes_moved {i : Nat} {ins old : Instruction} (here : body.code[i]? = some old)
    (alike : ins.Alike old) {after q k : Nat} :
    d.result.Passes (moved point d.run.length i) ins after q k ↔
      ∃ j, q = Region.shiftBound point d.run.length j ∧ body.Passes i old after j k := by
  have target := d.targetOf?_moved distinct here alike
  constructor
  · intro passes
    cases passes with
    | onward falls => exact ⟨i + 1, moved_succ i, .onward (alike.1 ▸ falls)⟩
    | branch found =>
        rw [target, Option.map_eq_some_iff] at found
        obtain ⟨j, resolved, rfl⟩ := found
        exact ⟨j, rfl, alike.1 ▸ .branch resolved⟩
    | handler member protects =>
        rw [d.regions_eq] at member
        obtain ⟨r, original, rfl⟩ := List.mem_map.mp member
        rw [protects_moved] at protects
        exact ⟨r.handlerStart, rfl, .handler original protects⟩
  · rintro ⟨j, rfl, passes⟩
    cases passes with
    | onward falls =>
        rw [← moved_succ]
        exact .onward (alike.1 ▸ falls)
    | branch found =>
        rw [← alike.1]
        exact .branch (by rw [target, found]; rfl)
    | @handler r member protects =>
        have shifted : r.shiftAfter point d.run.length ∈ d.result.regions := by
          rw [d.regions_eq]
          exact List.mem_map_of_mem member
        exact .handler shifted ((protects_moved r i).trans protects)

/-! ### The depth map -/

theorem stepsOn_moved {i k : Nat} (known : d.map.depthAt? i = some k) :
    d.StepsOn (moved point d.run.length i) k := by
  obtain ⟨old, effect, here, suits, passes⟩ := d.verified.map.step known
  obtain ⟨ins, there, alike⟩ := d.getElem?_moved here
  refine ⟨ins, effect, there, suits.alike alike, fun q k' leads => ?_⟩
  obtain ⟨j, rfl, original⟩ := (d.passes_moved distinct here alike).mp leads
  exact d.depths_shiftBound (passes j k' original)

variable (reachable : ∀ target, d.site.target = some target → (d.map.depthAt? target).isSome)
include reachable

/-- A deny branch arrives with the depth of the deny position. -/
theorem depths_deny {o : Nat} {r : Int} (exit : ⟨o, d.site.label, r⟩ ∈ d.effect.exits) :
    d.depths d.denyPosition = some ((d.depth : Int) + r).toNat := by
  have agree : r = d.delta := d.checks.exits _ exit rfl
  unfold denyPosition
  cases target : d.site.target with
  | some target' =>
      obtain ⟨follows, -⟩ := (denySite_eq_ok d.sited).target_found
        (d.distinct_site distinct) target
      obtain ⟨expected, known⟩ := Option.isSome_iff_exists.mp (reachable target' target)
      have arrives := d.checks.arrives expected (by rw [target]; exact known)
      have there := d.depths_shiftBound known
      rw [Region.shiftBound, if_pos follows] at there
      simp only
      rw [there, agree, arrives, Int.toNat_natCast]
  | none =>
      obtain ⟨v, -, code⟩ := d.stub_eq target
      have start := d.depths_stub (j := 0) (by rw [code, length_returnStub]; omega)
      rw [Nat.add_zero, if_pos (Nat.zero_le _), Nat.sub_zero] at start
      simp only
      rw [start, agree]
      rfl

theorem stepsOn_inside (balanced : t.delta = 0)
    (returns : ∀ ins, .emit ins ∈ t.steps → ins.opcode ≠ .ret) {o : Nat} {r : Int}
    (within : o < d.run.length)
    (known : RunEffect.depthAt? symbols d.signature d.run o = some r) :
    d.StepsOn (point + o) ((d.depth : Int) + r).toNat := by
  have here := List.getElem?_eq_getElem within
  obtain ⟨ins, there, alike⟩ := d.getElem?_inside here
  obtain ⟨change, effect, enough, -, -, onward, inside, -⟩ := d.explored.step known here
  have needs := d.checks.enough
  have behind : change.behind ((d.depth : Int) + r).toNat =
      ((d.depth : Int) + (r + change.delta)).toNat := by
    unfold StackEffect.behind StackEffect.delta
    omega
  refine ⟨ins, change, there, ⟨?_, by omega, ?_⟩, fun q k' passes => ?_⟩
  · rw [RunEffect.ofInstruction_alike alike, effect]
  · intro ret
    rw [alike.1] at ret
    rcases d.run_cases here with ⟨e, source, same, -⟩ | ⟨op | op, -⟩ | ⟨transfers, -⟩
    · exact absurd (same.1.symm.trans ret) (returns e source)
    · cases ret.symm.trans op
    · cases ret.symm.trans op
    · rw [RunEffect.branches, ret] at transfers
      simp [Opcode.flow] at transfers
  · rw [behind] at passes
    cases passes with
    | onward falls => exact d.depths_within balanced within (onward (alike.1 ▸ falls))
    | branch target =>
        obtain ⟨l, names, resolved⟩ := Option.bind_eq_some_iff.mp target
        rw [alike.target?] at names
        obtain ⟨transfers, stays, label⟩ := d.run_target here names
        rw [if_neg (by rw [alike.1]; exact stays)]
        rcases d.resolves distinct label with ⟨rfl, position⟩ | ⟨o', within', own, position⟩
        · obtain rfl := Option.some.inj (resolved.symm.trans position)
          obtain ⟨change', effect', exit⟩ := d.exit_of_deny distinct known here transfers names
          obtain rfl := Except.ok.inj (effect.symm.trans effect')
          exact d.depths_deny distinct reachable exit
        · obtain rfl := Option.some.inj (resolved.symm.trans position)
          exact d.depths_within balanced (Nat.le_of_lt within') (inside transfers names own)
    | handler member protects => exact d.handler_inside within member protects

/-- The depths of the new body are a depth map. -/
theorem depthMap (balanced : t.delta = 0)
    (returns : ∀ ins, .emit ins ∈ t.steps → ins.opcode ≠ .ret) :
    d.result.DepthMap symbols d.signature d.depths where
  entry := by
    have start := d.depths_shiftBound d.verified.map.entry
    rwa [Region.shiftBound, if_neg (Nat.not_lt_zero point)] at start
  step := fun {p k} known => by
    rcases d.depths_cases known with ⟨i, rfl, found⟩ | ⟨o, r, within, rfl, found, rfl⟩ |
      ⟨j, within, rfl, rfl⟩
    · exact d.stepsOn_moved distinct found
    · exact d.stepsOn_inside distinct reachable balanced returns within found
    · exact d.stepsOn_stub within

end Distinct

end Splice.Done

end HookSplice
