import HookSplice.Proofs.FinallyHandlers
import Mathlib.Data.Finset.Card

/-!
# Entries into finally handlers

The end of a finally handler takes up what was put off last.  The verifier does not look at how
control gets into a handler; but if it gets into the finally handlers of a body only by way of their
regions, then something is put off in each of them.  What carries this is a count: there are never
more finally handlers around a position than actions put off, nor were there around the place where
any of these actions began.
-/

namespace HookSplice

/-! ### Finally handlers around a position -/

namespace Body

/-- Where the finally handlers around a position start. -/
def finallyStarts (b : Body) (p : Nat) : Finset Nat :=
  ((b.regions.filter fun r => r.kind == .finalizing && r.handles p).map
    Region.handlerStart).toFinset

/-- Control gets into the finally handlers of a body only by way of their regions: the body does not
    start in one, and a handler that starts in one has the same start, or belongs to a range that
    lies in it. -/
structure EntersFinally (b : Body) : Prop where
  entry : ∀ r ∈ b.regions, r.kind = .finalizing → ¬ r.handles 0
  starts : ∀ r ∈ b.regions, r.kind = .finalizing → ∀ r' ∈ b.regions, r.handles r'.handlerStart →
    r'.kind = .finalizing ∧ r'.handlerStart = r.handlerStart ∨
      r.handlerStart ≤ r'.tryStart ∧ r'.tryEnd ≤ r.handlerEnd

/-- Every action that was put off was begun where there were no more finally handlers around than
    actions put off below it. -/
def Backed (b : Body) : List Pending → Prop
  | [] => True
  | a :: put =>
      (∃ s before, a.Part b s before ∧ (b.finallyStarts s).card ≤ put.length) ∧ b.Backed put

/-- There are no more finally handlers around a position than actions put off. -/
structure Covered (b : Body) (p : Nat) (put : List Pending) : Prop where
  count : (b.finallyStarts p).card ≤ put.length
  backed : b.Backed put

variable {b : Body} {p q s : Nat}

theorem mem_finallyStarts {h : Nat} : h ∈ b.finallyStarts p ↔
    ∃ r ∈ b.regions, r.kind = .finalizing ∧ r.handles p ∧ r.handlerStart = h := by
  simp only [finallyStarts, List.mem_toFinset, List.mem_map, List.mem_filter, Bool.and_eq_true,
    beq_iff_eq, and_assoc]

theorem finallyStarts_subset
    (only : ∀ r ∈ b.regions, r.kind = .finalizing → r.handles q → r.handles p) :
    b.finallyStarts q ⊆ b.finallyStarts p := by
  intro h member
  obtain ⟨r, inBody, finalizing, handles, start⟩ := mem_finallyStarts.mp member
  exact mem_finallyStarts.mpr ⟨r, inBody, finalizing, only r inBody finalizing handles, start⟩

/-- Among the handlers around the start of a handler, only that handler itself may be new. -/
theorem EntersFinally.finallyStarts_subset {k : Nat} {r : Region} (enters : b.EntersFinally)
    (here : b.regions[k]? = some r) (protects : r.protects s) :
    b.finallyStarts r.handlerStart ⊆
      if r.kind = .finalizing then insert r.handlerStart (b.finallyStarts s)
      else b.finallyStarts s := by
  intro h member
  obtain ⟨r', inBody, finalizing, handles, start⟩ := mem_finallyStarts.mp member
  rcases enters.starts r' inBody finalizing r (List.mem_of_getElem? here) handles with
    ⟨kind, same⟩ | ⟨above, below⟩
  · rw [if_pos kind]
    exact Finset.mem_insert.mpr (Or.inl (start.symm.trans same.symm))
  · have around : h ∈ b.finallyStarts s := by
      refine mem_finallyStarts.mpr ⟨r', inBody, finalizing, ?_, start⟩
      rw [Region.protects_iff] at protects
      rw [Region.handles_iff]
      omega
    split
    · exact Finset.mem_insert_of_mem around
    · exact around

/-! ### Moves -/

/-- Where an action leads that was begun with enough put off. -/
theorem covered_of_reaches {symbols : SymbolTable} {argCount : Nat}
    (sound : b.Structured symbols argCount) (enters : b.EntersFinally) {a : Pending}
    {before : List Nat} {put put' : List Pending} (part : a.Part b s before)
    (count : (b.finallyStarts s).card ≤ put.length) (backed : b.Backed put)
    (reaches : a.Reaches b put q put') : b.Covered q put' := by
  cases reaches with
  | arrives target done =>
      have only : b.finallyStarts q ⊆ b.finallyStarts s :=
        finallyStarts_subset fun r inBody _ handles => part.handles sound target inBody handles
      exact ⟨Nat.le_trans (Finset.card_le_card only) count, backed⟩
  | @handled skipped rest k r order here passed =>
      have ahead : k ∈ before ++ a.rest := List.mem_append_right _ (by simp [order])
      have only := Finset.card_le_card
        (enters.finallyStarts_subset here (part.protects here ahead))
      by_cases kind : r.kind = .finalizing
      · rw [if_pos kind] at only
        rw [if_pos kind]
        constructor
        · have one_more := Finset.card_insert_le r.handlerStart (b.finallyStarts s)
          rw [List.length_cons]
          omega
        · have shorter : (a.withRest rest).Part b s (before ++ (skipped ++ [k])) :=
            part.pass (by simp [order])
          exact ⟨⟨s, _, shorter, count⟩, backed⟩
      · rw [if_neg kind] at only
        rw [if_neg kind]
        exact ⟨Nat.le_trans only count, backed⟩

theorem EntersFinally.covered_start (enters : b.EntersFinally) : b.Covered 0 [] := by
  constructor
  · have none : b.finallyStarts 0 = ∅ := by
      apply Finset.eq_empty_of_forall_notMem
      intro h member
      obtain ⟨r, inBody, finalizing, handles, -⟩ := mem_finallyStarts.mp member
      exact enters.entry r inBody finalizing handles
    simp [none]
  · trivial

/-- Moves keep the count. -/
theorem Covered.goes {symbols : SymbolTable} {argCount : Nat} {put put' : List Pending}
    (covered : b.Covered p put) (sound : b.Structured symbols argCount)
    (enters : b.EntersFinally) (goes : b.Goes p put q put') : b.Covered q put' := by
  cases goes with
  | onward here falls =>
      have only : b.finallyStarts (p + 1) ⊆ b.finallyStarts p :=
        finallyStarts_subset fun r inBody _ handles =>
          sound.handles_of_falls here inBody falls handles
      exact ⟨Nat.le_trans (Finset.card_le_card only) covered.count, covered.backed⟩
  | branched here stays target =>
      have only : b.finallyStarts q ⊆ b.finallyStarts p :=
        finallyStarts_subset fun r inBody _ handles =>
          (sound.same_of_branch here inBody stays.1 target).2.trans handles
      exact ⟨Nat.le_trans (Finset.card_le_card only) covered.count, covered.backed⟩
  | begun other begins reaches =>
      exact covered_of_reaches sound enters begins.part covered.count covered.backed reaches
  | resumed ends reaches =>
      obtain ⟨⟨s, before, part, count⟩, backed⟩ := covered.backed
      exact covered_of_reaches sound enters part count backed reaches

/-- In a finally handler something is put off. -/
theorem Covered.ne_nil {put : List Pending} (covered : b.Covered p put) {i : Nat}
    (inside : b.FinallyAt p i) : put ≠ [] := by
  rintro rfl
  obtain ⟨r, here, finalizing, handles⟩ := inside
  have member : r.handlerStart ∈ b.finallyStarts p :=
    mem_finallyStarts.mpr ⟨r, List.mem_of_getElem? here, finalizing, handles, rfl⟩
  have positive := Finset.card_pos.mpr ⟨_, member⟩
  have count := covered.count
  rw [List.length_nil] at count
  omega

end Body

namespace Machine

variable {σ : Type} {m : Machine σ}

/-! ### What all frames keep -/

/-- An exception leaves the frame that it comes to, and those behind it are gone. -/
theorem callers_of_throwTo {v : Value} {callers : List Caller} {heap : Heap} {world : σ}
    {c : Config σ} (thrown : m.throwTo v callers heap world = .running c) :
    c.callers.length < callers.length := by
  unfold throwTo at thrown
  split at thrown
  · next g rest taken =>
      cases thrown
      obtain ⟨passed, w, rfl, -⟩ := unwind_eq_some taken
      simp only [List.length_append, List.length_cons]
      omega
  · cases thrown

/-- A result goes to the innermost caller. -/
theorem callers_of_giveBack {v : Option Value} {callers : List Caller} {heap : Heap} {world : σ}
    {c : Config σ} (given : giveBack v callers heap world = .running c) :
    c.callers.length < callers.length := by
  unfold giveBack at given
  split at given
  · cases given
  · cases given
    exact Nat.lt_succ_self _

/-- A frame that a step adds stands at the start of its body. -/
theorem pc_of_deeper {c c' : Config σ} (moved : m.step c = .running c')
    (deeper : c.callers.length < c'.callers.length) : c'.frame.pc = 0 := by
  cases step_performs moved with
  | @executed _ action _ _ _ followed =>
      cases action with
      | next f heap =>
          cases followed
          exact absurd deeper (Nat.lt_irrefl _)
      | exit result => exact absurd (callers_of_giveBack followed) (Nat.lt_asymm deeper)
      | raised f v =>
          have fewer : c'.callers.length < c.callers.length + 1 := callers_of_throwTo followed
          omega
      | escaped v => exact absurd (callers_of_throwTo followed) (Nat.lt_asymm deeper)
      | call f callee args created heap =>
          cases enter_starts followed with
          | body => rfl
          | returned _ _ back =>
              have fewer : c'.callers.length < c.callers.length + 1 := callers_of_giveBack back
              omega

/-- What holds at the start of every body and is kept by moves holds of the running frame
    throughout; the waiting frames had it where they called. -/
theorem Visits.keeps_moves {P : Body → Nat → List Pending → Prop}
    (starts : ∀ b ∈ m.host.bodies, P b 0 [])
    (moves : ∀ b ∈ m.host.bodies, ∀ p put q put', P b p put → b.Goes p put q put' → P b q put')
    {method : MethodId} {args : List Value} {heap : Heap} {world : σ} {c : Config σ}
    (visited : m.Visits method args heap world c) :
    P c.frame.body c.frame.pc c.frame.pending ∧ ∀ w ∈ c.callers, ∃ f : Frame,
      f.body ∈ m.host.bodies ∧ P f.body f.pc f.pending ∧ f.Waits w.frame := by
  induction visited with
  | @entered c started =>
      cases enter_starts started with
      | body found =>
          obtain ⟨signature, -, -, stored⟩ := implementation_eq_ok found
          exact ⟨starts _ (Host.body?_eq_some_iff.mp stored).1, fun _ member => by cases member⟩
      | returned _ _ back => cases back
  | @stepped c c' visited moved ih =>
      obtain ⟨here, below⟩ := ih
      have inHost := visited.regular.1.member
      -- A frame that waited goes on as it does from where it called.
      have goes_on {f g : Frame} (member : f.body ∈ m.host.bodies) (at_ : P f.body f.pc f.pending)
          (turn : f.Turn g) : P g.body g.pc g.pending := by
        obtain ⟨body, goes⟩ := turn
        rw [body]
        exact moves f.body member _ _ _ _ at_ goes
      cases step_stepped visited.regular moved with
      | stays callers turn => exact ⟨goes_on inHost here turn, callers ▸ below⟩
      | @calls w callers waits member fresh =>
          have start := pc_of_deeper moved (by rw [callers]; exact Nat.lt_succ_self _)
          refine ⟨?_, ?_⟩
          · rw [start, fresh]
            exact starts _ member
          · rw [callers]
            exact List.forall_mem_cons.mpr ⟨⟨c.frame, inHost, here, waits⟩, below⟩
      | returns quits callers level =>
          rw [callers] at below
          obtain ⟨⟨f, member, at_, waits⟩, below⟩ := List.forall_mem_cons.mp below
          exact ⟨goes_on member at_ (waits.turn_of_level level), below⟩
      | unwinds quits callers lets catches =>
          rw [callers] at below
          obtain ⟨-, below⟩ := List.forall_mem_append.mp below
          obtain ⟨⟨f, member, at_, waits⟩, below⟩ := List.forall_mem_cons.mp below
          exact ⟨goes_on member at_ (waits.turn_of_catches catches), below⟩

/-- In every frame whose body is entered properly, the finally handlers are covered. -/
theorem Visits.covered (verifies : m.host.Verifies) {method : MethodId} {args : List Value}
    {heap : Heap} {world : σ} {c : Config σ} (visited : m.Visits method args heap world c)
    (enters : c.frame.body.EntersFinally) :
    c.frame.body.Covered c.frame.pc c.frame.pending := by
  have kept := visited.keeps_moves (P := fun b p put => b.EntersFinally → b.Covered p put)
    (fun b _ enters => enters.covered_start)
    (fun b member p put q put' covered goes enters => by
      obtain ⟨argCount, sound⟩ := verifies.structured member
      exact (covered enters).goes sound enters goes)
  exact kept.1 enters

end Machine

end HookSplice
