import HookSplice.Proofs.Common
import HookSplice.Splice

/-!
# Successful splices

What a splice that succeeds has found and made on its way, from the shape of the template to the
new body.  A body hands out its labels one after the other; what comes of them depends on whether
there are numbers enough behind its allocator.
-/

namespace HookSplice

/-! ### Labels that a body hands out -/

namespace Body

/-- The label that a body hands out after `n` others. -/
def labelAfter (b : Body) (n : Nat) : Label :=
  ⟨b.nextLabel + UInt32.ofNat n⟩

/-- The body that has handed out `n` labels. -/
def advance (b : Body) (n : Nat) : Body :=
  { b with nextLabel := b.nextLabel + UInt32.ofNat n }

/-- There are numbers for `n` more labels of a body, and one for its allocator behind them. -/
def Spares (b : Body) (n : Nat) : Prop :=
  b.nextLabel.toNat + n < UInt32.size

instance (b : Body) (n : Nat) : Decidable (b.Spares n) :=
  inferInstanceAs (Decidable (_ < _))

variable {b : Body} {m n : Nat}

theorem spares_zero (b : Body) : b.Spares 0 :=
  b.nextLabel.toNat_lt

theorem Spares.le (spares : b.Spares n) (fewer : m ≤ n) : b.Spares m :=
  Nat.lt_of_le_of_lt (Nat.add_le_add_left fewer _) spares

theorem Spares.toNat_add (spares : b.Spares n) :
    (b.nextLabel + UInt32.ofNat n).toNat = b.nextLabel.toNat + n := by
  have small : n < UInt32.size := Nat.lt_of_le_of_lt (Nat.le_add_left ..) spares
  rw [UInt32.toNat_add, UInt32.toNat_ofNat_of_lt' small]
  exact Nat.mod_eq_of_lt spares

theorem Spares.number_labelAfter (spares : b.Spares n) :
    (b.labelAfter n).number = b.nextLabel.toNat + n :=
  spares.toNat_add

theorem Spares.nextLabel_advance (spares : b.Spares n) :
    (b.advance n).nextLabel.toNat = b.nextLabel.toNat + n :=
  spares.toNat_add

theorem Spares.advance (spares : b.Spares (m + n)) : (b.advance m).Spares n := by
  have first : b.Spares m := spares.le (Nat.le_add_right ..)
  unfold Spares at spares ⊢
  rw [first.nextLabel_advance]
  omega

theorem spares_add (first : b.Spares m) (second : (b.advance m).Spares n) : b.Spares (m + n) := by
  unfold Spares at second ⊢
  rw [first.nextLabel_advance] at second
  omega

/-- The labels that a body hands out differ, and are numbered from its allocator on. -/
theorem Spares.labels (spares : b.Spares n) : ((List.range n).map b.labelAfter).Nodup ∧
    ∀ l ∈ (List.range n).map b.labelAfter,
      b.nextLabel.toNat ≤ l.number ∧ l.number < b.nextLabel.toNat + n := by
  have number {i : Nat} (member : i ∈ List.range n) :
      (b.labelAfter i).number = b.nextLabel.toNat + i :=
    (spares.le (Nat.le_of_lt (List.mem_range.mp member))).number_labelAfter
  refine ⟨List.pairwise_map.mpr (List.nodup_range.imp_of_mem fun here there differs same => ?_),
    fun l member => ?_⟩
  · have numbers := congrArg Label.number same
    rw [number here, number there] at numbers
    exact differs (Nat.add_left_cancel numbers)
  · obtain ⟨i, here, rfl⟩ := List.mem_map.mp member
    rw [number here]
    exact ⟨Nat.le_add_right .., Nat.add_lt_add_left (List.mem_range.mp here) _⟩

/-- The allocator starts over from zero when there is no number for it. -/
theorem nextLabel_succ_eq_zero_iff : b.nextLabel + 1 = 0 ↔ ¬ b.Spares 1 := by
  have small := b.nextLabel.toNat_lt
  rw [← UInt32.toNat_inj, UInt32.toNat_add]
  unfold Spares UInt32.size
  simp only [UInt32.toNat_one, UInt32.toNat_zero]
  omega

theorem freshLabel?_eq_some {overflow : Overflow} {next : Body} {l : Label} :
    b.freshLabel? overflow = some (l, next) ↔
      (overflow = .stops → b.Spares 1) ∧ l = ⟨b.nextLabel⟩ ∧
        next = { b with nextLabel := b.nextLabel + 1 } := by
  unfold freshLabel? freshLabel
  split
  · next full =>
      refine ⟨nofun, fun ⟨room, _⟩ => ?_⟩
      exact absurd (room full.1) (nextLabel_succ_eq_zero_iff.mp full.2)
  · next room =>
      rw [Option.some.injEq, Prod.mk.injEq, eq_comm, @eq_comm _ _ next]
      refine ⟨fun same => ⟨fun stops => ?_, same⟩, And.right⟩
      by_contra full
      exact room ⟨stops, nextLabel_succ_eq_zero_iff.mpr full⟩

theorem freshLabel?_eq_none {overflow : Overflow} :
    b.freshLabel? overflow = none ↔ overflow = .stops ∧ ¬ b.Spares 1 := by
  unfold freshLabel?
  rw [← nextLabel_succ_eq_zero_iff]
  simp

theorem advance_one (b : Body) : b.advance 1 = { b with nextLabel := b.nextLabel + 1 } :=
  rfl

theorem advance_advance (b : Body) (m n : Nat) : (b.advance m).advance n = b.advance (m + n) := by
  simp only [advance, UInt32.ofNat_add, UInt32.add_assoc]

theorem labelAfter_advance (b : Body) (m n : Nat) :
    (b.advance m).labelAfter n = b.labelAfter (m + n) := by
  simp only [advance, labelAfter, UInt32.ofNat_add, UInt32.add_assoc]

end Body

/-! ### Expanding a template -/

/-- How many labels the site of a deny target takes. -/
def DenyTarget.labelCount : DenyTarget → Nat
  | label _ => 0
  | anchor _ | returning _ => 1

namespace Template

/-- The markers that a template places, in the order of its steps. -/
def marks (t : Template) : List Nat :=
  t.steps.filterMap Step.placed?

/-- How many labels the splice of a template takes: one for each marker, and one for a deny target
    that names none. -/
def labelCount (t : Template) : Nat :=
  t.deny.labelCount + t.marks.length

/-- Declaring scratch locals adds the next slots behind those of the body, and changes nothing
    else. -/
theorem declareScratch_eq_ok {types : List TypeId} {body wide : Body} {slots : List UInt16}
    (success : declareScratch types body = .ok (slots, wide)) :
    wide = { body with locals := body.locals ++ types } ∧
      slots.map UInt16.toNat = List.range' body.locals.length types.length := by
  induction types generalizing body slots wide with
  | nil =>
      cases success
      simp
  | cons type rest ih =>
      unfold declareScratch at success
      split at success
      · cases success
      next slot next declared =>
        obtain ⟨⟨others, last⟩, later, success⟩ := Except.bind_eq_ok success
        cases success
        unfold Body.declareLocal? at declared
        split at declared
        · next room =>
            cases declared
            obtain ⟨rfl, numbered⟩ := ih later
            have index : (UInt16.ofNat body.locals.length).toNat = body.locals.length :=
              UInt16.toNat_ofNat_of_lt' room
            refine ⟨by simp, ?_⟩
            rw [List.map_cons, index, numbered, List.length_cons, List.range'_succ,
              List.length_append, List.length_singleton]
        · cases declared

theorem length_of_declareScratch {types : List TypeId} {body wide : Body} {slots : List UInt16}
    (success : declareScratch types body = .ok (slots, wide)) : slots.length = types.length := by
  have lengths := congrArg List.length (declareScratch_eq_ok success).2
  rwa [List.length_map, List.length_range'] at lengths

/-- Scratch locals stand behind those of the body. -/
theorem mem_declareScratch {types : List TypeId} {body wide : Body} {slots : List UInt16}
    (success : declareScratch types body = .ok (slots, wide)) {slot : UInt16}
    (member : slot ∈ slots) :
    body.locals.length ≤ slot.toNat ∧ slot.toNat < wide.locals.length := by
  obtain ⟨rfl, numbered⟩ := declareScratch_eq_ok success
  have place := List.mem_map_of_mem (f := UInt16.toNat) member
  rw [numbered, List.mem_range'_1] at place
  rwa [List.length_append]

/-- Each placed marker gets one label, in the order in which the body hands them out.  A checked
    build has numbers for all of them. -/
structure Allocated (overflow : Overflow) (steps : List Step) (start last : Body)
    (labels : List (Nat × Label)) : Prop where
  keys : labels.map Prod.fst = steps.filterMap Step.placed?
  numbers : labels.map Prod.snd = (List.range labels.length).map start.labelAfter
  body : last = start.advance labels.length
  room : overflow = .stops → start.Spares labels.length

theorem freshLabels_eq_some {overflow : Overflow} {steps : List Step} {body wide : Body}
    {labels : List (Nat × Label)}
    (success : freshLabels overflow steps body = some (labels, wide)) :
    Allocated overflow steps body wide labels := by
  induction steps generalizing body labels wide with
  | nil =>
      cases success
      exact ⟨rfl, rfl, by simp [Body.advance], fun _ => body.spares_zero⟩
  | cons step rest ih =>
      unfold freshLabels at success
      split at success
      · next unplaced =>
          obtain ⟨keys, others, same, room⟩ := ih success
          exact ⟨by rw [List.filterMap_cons_none unplaced, keys], others, same, room⟩
      · next n placed =>
          obtain ⟨⟨label, middle⟩, first, success⟩ := Option.bind_eq_some_iff.mp success
          obtain ⟨⟨others, last⟩, later, success⟩ := Option.bind_eq_some_iff.mp success
          cases success
          obtain ⟨one, rfl, rfl⟩ := Body.freshLabel?_eq_some.mp first
          obtain ⟨keys, numbers, same, room⟩ := ih later
          rw [← Body.advance_one] at numbers same room
          refine ⟨by rw [List.filterMap_cons_some placed, List.map_cons, keys], ?_, ?_, ?_⟩
          · rw [List.map_cons, numbers, List.length_cons, List.range_succ_eq_map, List.map_cons,
              List.map_map]
            refine congrArg₂ _ (by simp [Body.labelAfter]) (List.map_congr_left fun i _ => ?_)
            rw [Body.labelAfter_advance, Nat.add_comm]
            rfl
          · rw [same, Body.advance_advance, List.length_cons, Nat.add_comm]
          · intro stops
            rw [List.length_cons, Nat.add_comm]
            exact Body.spares_add (one stops) (room stops)

/-- Labels are allocated whenever there are numbers for them, and in a wrapping build anyway. -/
theorem isSome_freshLabels {overflow : Overflow} {steps : List Step} {body : Body} :
    (freshLabels overflow steps body).isSome ↔
      (overflow = .stops → body.Spares (steps.filterMap Step.placed?).length) := by
  induction steps generalizing body with
  | nil => simp [freshLabels, Body.spares_zero]
  | cons step rest ih =>
      unfold freshLabels
      split
      · next unplaced => rw [List.filterMap_cons_none unplaced, ih]
      · next n placed =>
          rw [List.filterMap_cons_some placed, List.length_cons, Nat.add_comm]
          cases first : body.freshLabel? overflow with
          | none =>
              have full := Body.freshLabel?_eq_none.mp first
              refine iff_of_false nofun fun room => full.2 ?_
              exact (room full.1).le (Nat.le_add_right ..)
          | some entry =>
              obtain ⟨label, middle⟩ := entry
              obtain ⟨one, -, rfl⟩ := Body.freshLabel?_eq_some.mp first
              have later : (overflow = .stops →
                    body.Spares (1 + (rest.filterMap Step.placed?).length)) ↔
                  (freshLabels overflow rest (body.advance 1)).isSome :=
                Iff.trans ⟨fun room stops => (room stops).advance,
                  fun room stops => Body.spares_add (one stops) (room stops)⟩ ih.symm
              rw [later]
              show ((freshLabels overflow rest (body.advance 1)).bind _).isSome ↔ _
              cases freshLabels overflow rest (body.advance 1) <;> rfl

/-- The run is the expansion of the steps for the slots and labels allocated in the body. -/
theorem materialize_eq_ok {overflow : Overflow} {t : Template} {body wide : Body} {deny : Label}
    {run : List Instruction} (success : t.materialize overflow body deny = .ok (run, wide)) :
    ∃ slots labels, declareScratch t.scratch body =
        .ok (slots, { body with locals := body.locals ++ t.scratch }) ∧
      Allocated overflow t.steps { body with locals := body.locals ++ t.scratch } wide labels ∧
      run = expand slots labels deny [] t.steps := by
  unfold materialize at success
  split at success
  · cases success
  · next slots middle declared =>
      obtain ⟨rfl, -⟩ := declareScratch_eq_ok declared
      split at success
      · cases success
      next labels wide allocated =>
        cases success
        exact ⟨slots, labels, declared, freshLabels_eq_some allocated, rfl⟩

/-- The body of an expansion differs from the one before in its locals and its allocator. -/
theorem materialize_body {overflow : Overflow} {t : Template} {body wide : Body} {deny : Label}
    {run : List Instruction} (success : t.materialize overflow body deny = .ok (run, wide)) :
    wide = { body with locals := body.locals ++ t.scratch, nextLabel := wide.nextLabel } := by
  obtain ⟨slots, labels, -, allocated, -⟩ := materialize_eq_ok success
  rw [allocated.body]
  rfl

end Template

/-! ### The splice as a whole -/

namespace Splice

/-- The deny sites that a body has for a target. -/
inductive Sited (body : Body) (signature : MethodDef) (point : Nat) : DenyTarget → DenySite → Prop
  | label {l : Label} {target : Nat} (found : body.position? l = some target)
      (follows : point < target) : Sited body signature point (.label l) ⟨l, some target, body⟩
  | anchor {a : Anchor} {target : Nat} (found : a.locate body.code = .ok target)
      (follows : point < target) :
      Sited body signature point (.anchor a) ⟨⟨body.nextLabel⟩, some target,
        { body with
          code := attachAt body.code target [⟨body.nextLabel⟩]
          nextLabel := body.nextLabel + 1 }⟩
  | returning {v : ReturnValue} (fits : v.fits signature) (closed : endsOpen body = false) :
      Sited body signature point (.returning v) ⟨⟨body.nextLabel⟩, none,
        { body with nextLabel := body.nextLabel + 1 }⟩

/-- What a deny target finds in a body, and that a checked build has a number for its label. -/
theorem denySite_steps {overflow : Overflow} {body : Body} {signature : MethodDef} {point : Nat}
    {deny : DenyTarget} {site : DenySite}
    (success : denySite overflow body signature point deny = .ok site) :
    Sited body signature point deny site ∧ (overflow = .stops → body.Spares deny.labelCount) := by
  unfold denySite at success
  split at success
  · split at success
    · cases success
    next target found =>
      split at success
      · cases success
      cases success
      exact ⟨.label found (Nat.lt_of_not_le ‹_›), fun _ => body.spares_zero⟩
  · split at success
    · cases success
    next target found =>
      split at success
      · cases success
      next follows =>
        split at success
        · cases success
        next label next allocated =>
          cases success
          obtain ⟨room, rfl, rfl⟩ := Body.freshLabel?_eq_some.mp allocated
          exact ⟨.anchor found (Nat.lt_of_not_le follows), room⟩
  · next v =>
      split at success
      · cases success
      next fits =>
        split at success
        · cases success
        next closed =>
          split at success
          · cases success
          next label next allocated =>
            cases success
            obtain ⟨room, rfl, rfl⟩ := Body.freshLabel?_eq_some.mp allocated
            exact ⟨.returning (by simpa using fits) (by simpa using closed), room⟩

theorem denySite_eq_ok {overflow : Overflow} {body : Body} {signature : MethodDef} {point : Nat}
    {deny : DenyTarget} {site : DenySite}
    (success : denySite overflow body signature point deny = .ok site) :
    Sited body signature point deny site :=
  (denySite_steps success).1

/-- The body of a site has handed out the labels that its deny target takes. -/
theorem Sited.nextLabel_eq {body : Body} {signature : MethodDef} {point : Nat} {deny : DenyTarget}
    {site : DenySite} (sited : Sited body signature point deny site) :
    site.body.nextLabel = (body.advance deny.labelCount).nextLabel := by
  cases sited with
  | label => exact (UInt32.add_zero _).symm
  | anchor => rfl
  | returning => rfl

theorem Sited.method_eq {body : Body} {signature : MethodDef} {point : Nat} {deny : DenyTarget}
    {site : DenySite} (sited : Sited body signature point deny site) :
    site.body.method = body.method := by
  cases sited <;> rfl

/-- What a splice of the template `t` at `point` has found in the body, and what it has made: the
    deny site, the run that the template expands to, and the body with its scratch locals. -/
structure Done (symbols : SymbolTable) (options : SpliceOptions) (body : Body) (point : Nat)
    (t : Template) where
  signature : MethodDef
  map : StackMap
  depth : Nat
  site : DenySite
  run : List Instruction
  wide : Body
  effect : RunEffect
  delta : Int
  wellFormed : t.fault? = none
  inside : point < body.size
  declared : symbols.method? body.method = some signature
  analyzed : StackMap.analyze symbols body options.maxStack = .ok map
  known : map.depthAt? point = some depth
  sited : denySite options.overflow body signature point t.deny = .ok site
  expanded : t.materialize options.overflow site.body site.label = .ok (run, wide)
  computed : RunEffect.ofRun symbols signature run = .ok effect
  checked : checkRun t effect point depth map site = .ok delta

namespace Done

variable {symbols : SymbolTable} {options : SpliceOptions} {body : Body} {point : Nat}
  {t : Template}

/-- The stub behind the code. -/
def stub (d : Done symbols options body point t) : List Instruction :=
  stubFor t.deny d.depth d.delta d.site.label

/-- The new body. -/
def result (d : Done symbols options body point t) : Body :=
  insertInto d.wide point d.run d.stub

/-- Where the deny label stands in the new body. -/
def denyPosition (d : Done symbols options body point t) : Nat :=
  match d.site.target with
  | some target => target + d.run.length
  | none => body.size + d.run.length

end Done

/-- How a splice that succeeds comes about. -/
theorem splice_eq_ok {symbols : SymbolTable} {options : SpliceOptions} {body : Body} {point : Nat}
    {t : Template} {s : Spliced} (success : splice symbols options body point t = .ok s) :
    ∃ d : Done symbols options body point t,
      crossing? d.result.regions point d.effect d.site.label d.denyPosition = none ∧
      checkWhole symbols options d.result = .ok () ∧
      s = {
        body := d.result
        point := point
        count := d.run.length
        rehomed := labelsAt d.site.body.code point
        denyLabel := d.site.label
        denyPosition := d.denyPosition
        delta := d.effect.delta
        depth := d.depth } := by
  unfold splice at success
  split at success
  · cases success
  next wellFormed =>
    split at success
    · cases success
    next inside =>
      split at success
      · cases success
      next signature declared =>
        obtain ⟨map, analyzed, success⟩ := Except.bind_eq_ok success
        split at success
        · cases success
        next depth known =>
          obtain ⟨site, sited, success⟩ := Except.bind_eq_ok success
          obtain ⟨⟨run, wide⟩, expanded, success⟩ := Except.bind_eq_ok success
          obtain ⟨effect, computed, success⟩ := Except.bind_eq_ok success
          obtain ⟨delta, checked, success⟩ := Except.bind_eq_ok success
          simp only at success
          split at success
          · cases success
          next uncrossed =>
            obtain ⟨_, whole, success⟩ := Except.bind_eq_ok success
            cases success
            exact ⟨{
              signature := signature
              map := map
              depth := depth
              site := site
              run := run
              wide := wide
              effect := effect
              delta := delta
              wellFormed := wellFormed
              inside := Nat.lt_of_not_le inside
              declared := declared
              analyzed := Except.mapError_eq_ok.mp analyzed
              known := known
              sited := sited
              expanded := expanded
              computed := Except.mapError_eq_ok.mp computed
              checked := checked }, uncrossed, whole, rfl⟩

/-- A splice succeeds when each of its steps does, no deny branch crosses a region, and the new body
    verifies if that is asked for. -/
theorem splice_of_done {symbols : SymbolTable} {options : SpliceOptions} {body : Body} {point : Nat}
    {t : Template} (d : Done symbols options body point t)
    (uncrossed : crossing? d.result.regions point d.effect d.site.label d.denyPosition = none)
    (whole : checkWhole symbols options d.result = .ok ()) :
    splice symbols options body point t = .ok {
      body := d.result
      point := point
      count := d.run.length
      rehomed := labelsAt d.site.body.code point
      denyLabel := d.site.label
      denyPosition := d.denyPosition
      delta := d.effect.delta
      depth := d.depth } := by
  have analyzed : (StackMap.analyze symbols body options.maxStack).mapError
      SpliceError.hostUnverifiable = .ok d.map := Except.mapError_eq_ok.mpr d.analyzed
  have computed : (RunEffect.ofRun symbols d.signature d.run).mapError SpliceError.templateEffect =
      .ok d.effect := Except.mapError_eq_ok.mpr d.computed
  unfold splice
  rw [d.wellFormed]
  simp only [if_neg (Nat.not_le.mpr d.inside), d.declared, analyzed, Except.ok_bind, d.known,
    d.sited, d.expanded, computed, d.checked]
  split
  · next v crosses => cases uncrossed.symm.trans crosses
  · show (checkWhole symbols options d.result >>= fun _ => pure _) = Except.ok _
    rw [whole]
    rfl

/-- A splice keeps the method of the body. -/
theorem splice_method {symbols : SymbolTable} {options : SpliceOptions} {body : Body}
    {point : Nat} {t : Template} {s : Spliced}
    (success : splice symbols options body point t = .ok s) : s.body.method = body.method := by
  obtain ⟨d, -, -, rfl⟩ := splice_eq_ok success
  have wide := congrArg Body.method (Template.materialize_body d.expanded)
  exact wide.trans (denySite_eq_ok d.sited).method_eq

end Splice

end HookSplice
