import HookSplice.Proofs.SplicedCode

/-!
# Anchors after a splice

What a pattern matches is seen by opcodes and operands alone, and a splice moves these without
changing them.  So a run of patterns matches in front of the splice point where it did before, and
behind it as many positions later as were inserted; whatever else it matches takes in an inserted
instruction or one of the stub.  An anchor with such a matcher resolves in the new body to the match
that its occurrence selects of all these, at its offset.
-/

namespace HookSplice

/-! ### Matches -/

/-- The patterns that a matcher has for a run of instructions; a condition has none. -/
def Matcher.patterns? : Matcher → Option (List Pattern)
  | instruction pattern => some [pattern]
  | sequence patterns => some patterns
  | condition .. => none

/-- The instructions from a position on match a nonempty list of patterns, one each. -/
def Pattern.MatchesAt (patterns : List Pattern) (code : List Instruction) (i : Nat) : Prop :=
  patterns ≠ [] ∧ ∀ (o : Nat) (p : Pattern), patterns[o]? = some p →
    ∃ ins, code[i + o]? = some ins ∧ p.accepts ins

theorem Matcher.acceptsRun_iff {patterns : List Pattern} {code : List Instruction} :
    acceptsRun patterns code ↔ ∀ (o : Nat) (p : Pattern), patterns[o]? = some p →
      ∃ ins, code[o]? = some ins ∧ p.accepts ins := by
  induction patterns generalizing code with
  | nil => simp [acceptsRun]
  | cons p ps ih =>
      cases code with
      | nil =>
          refine ⟨nofun, fun all => ?_⟩
          obtain ⟨ins, here, -⟩ := all 0 p rfl
          cases here
      | cons ins rest =>
          simp only [acceptsRun, Bool.and_eq_true, ih]
          constructor
          · rintro ⟨first, others⟩ o q there
            cases o with
            | zero =>
                cases there
                exact ⟨ins, rfl, first⟩
            | succ o => exact others o q there
          · intro all
            obtain ⟨ins', here, first⟩ := all 0 p rfl
            cases here
            exact ⟨first, fun o q there => all (o + 1) q there⟩

theorem Matcher.accepts_iff {m : Matcher} {patterns : List Pattern}
    (patterned : m.patterns? = some patterns) (code : List Instruction) (i : Nat) :
    m.accepts code i ↔ Pattern.MatchesAt patterns code i := by
  cases m with
  | instruction pattern =>
      cases patterned
      simp only [accepts, Option.any_eq_true, Pattern.MatchesAt]
      constructor
      · rintro ⟨ins, here, accepted⟩
        refine ⟨List.cons_ne_nil _ _, fun o p there => ?_⟩
        cases o with
        | zero =>
            cases there
            exact ⟨ins, here, accepted⟩
        | succ o => cases there
      · rintro ⟨-, all⟩
        exact all 0 pattern rfl
  | sequence ps =>
      cases patterned
      simp [accepts, acceptsRun_iff, Pattern.MatchesAt]
  | condition => cases patterned

namespace Pattern

theorem accepts_congr {ins ins' : Instruction} (alike : ins'.Alike ins) (p : Pattern) :
    p.accepts ins' = p.accepts ins := by
  unfold accepts
  rw [alike.1, alike.2]

variable {patterns : List Pattern} {code : List Instruction} {i : Nat}

/-- A match ends inside of the code. -/
theorem MatchesAt.add_length_le (matched : MatchesAt patterns code i) :
    i + patterns.length ≤ code.length := by
  obtain ⟨nonempty, all⟩ := matched
  have positive := List.length_pos_iff.mpr nonempty
  have last : patterns.length - 1 < patterns.length := Nat.sub_lt positive Nat.one_pos
  obtain ⟨ins, here, -⟩ := all _ _ (List.getElem?_eq_getElem last)
  have below := (List.getElem?_eq_some_iff.mp here).1
  omega

theorem MatchesAt.length_pos (matched : MatchesAt patterns code i) : 0 < patterns.length :=
  List.length_pos_iff.mpr matched.1

/-- Patterns match alike where two lists of instructions are alike. -/
theorem matchesAt_congr {code' : List Instruction} {i' : Nat}
    (alike : ∀ o < patterns.length, ∃ ins ins', code[i + o]? = some ins ∧
      code'[i' + o]? = some ins' ∧ ins'.Alike ins) :
    MatchesAt patterns code' i' ↔ MatchesAt patterns code i := by
  unfold MatchesAt
  refine and_congr_right fun _ => forall₂_congr fun o p => imp_congr_right fun there => ?_
  obtain ⟨ins, ins', here, here', same⟩ := alike o (List.getElem?_eq_some_iff.mp there).1
  simp only [here, here', Option.some.injEq, exists_eq_left', accepts_congr same]

end Pattern

/-! ### Anchors -/

/-- The match that an occurrence means, of all matches in ascending order. -/
def Occurrence.Selects (found : List Nat) (matched : Nat) : Occurrence → Prop
  | only => found = [matched]
  | first => found.head? = some matched
  | last => found.getLast? = some matched
  | nth n => found[n.toNat]? = some matched

theorem Occurrence.choose?_eq_some_iff {occurrence : Occurrence} {found : List Nat}
    {matched : Nat} :
    occurrence.choose? found = some matched ↔ occurrence.Selects found matched := by
  cases occurrence with
  | only =>
      rcases found with - | ⟨p, - | ⟨q, rest⟩⟩ <;> simp [choose?, Selects]
  | first | last | nth => rfl

theorem Occurrence.not_selects_nil (occurrence : Occurrence) (matched : Nat) :
    ¬ occurrence.Selects [] matched := by
  cases occurrence <;> exact nofun

namespace Anchor

variable {a : Anchor} {code : List Instruction}

theorem mem_locateAll {p : Nat} :
    p ∈ a.locateAll code ↔ p < code.length ∧ a.matcher.accepts code p := by
  simp [locateAll]

theorem mem_locateAll_iff {patterns : List Pattern}
    (patterned : a.matcher.patterns? = some patterns) {p : Nat} :
    p ∈ a.locateAll code ↔ Pattern.MatchesAt patterns code p := by
  rw [mem_locateAll, Matcher.accepts_iff patterned]
  refine and_iff_right_of_imp fun matched => ?_
  have := matched.add_length_le
  have := matched.length_pos
  omega

theorem pairwise_locateAll (a : Anchor) (code : List Instruction) :
    (a.locateAll code).Pairwise (· < ·) :=
  List.Pairwise.filter _ List.pairwise_lt_range

theorem pointAt?_eq_some_iff {size matched point : Nat} {offset : Int64} :
    pointAt? size matched offset = some point ↔
      (point : Int) = matched + offset.toInt ∧ point < size := by
  unfold pointAt?
  simp only
  split <;> simp only [Option.some.injEq, reduceCtorEq, false_iff] <;> omega

/-- An anchor resolves to the selected match at its offset, if that is a position of the code. -/
theorem resolve_eq_ok_iff {r : AnchorMatch} :
    a.resolve code = .ok r ↔ r.found = a.locateAll code ∧
      a.occurrence.Selects (a.locateAll code) r.matched ∧
      (r.point : Int) = r.matched + a.offset.toInt ∧ r.point < code.length := by
  rw [← pointAt?_eq_some_iff, ← Occurrence.choose?_eq_some_iff]
  unfold resolve
  simp only
  split
  · next none =>
      have absent : a.occurrence.choose? (a.locateAll code) ≠ some r.matched := by
        rw [List.isEmpty_iff.mp none, Ne, Occurrence.choose?_eq_some_iff]
        exact a.occurrence.not_selects_nil r.matched
      simp [absent]
  split
  · next unclear => simp [unclear]
  next matched chosen =>
    rw [chosen]
    obtain ⟨found, matched', point⟩ := r
    simp only [Option.some.injEq]
    split
    · next outside =>
        refine ⟨nofun, ?_⟩
        rintro ⟨-, rfl, inside⟩
        cases outside.symm.trans inside
    · next inside =>
        constructor
        · intro same
          cases same
          exact ⟨rfl, rfl, inside⟩
        · rintro ⟨rfl, rfl, inside'⟩
          cases inside.symm.trans inside'
          rfl

/-- An anchor fails to resolve for one of three reasons only. -/
theorem resolve_eq_error_iff :
    (∃ e, a.resolve code = .error e) ↔ a.locateAll code = [] ∨
      (∀ p, ¬ a.occurrence.Selects (a.locateAll code) p) ∨
      ∃ p, a.occurrence.Selects (a.locateAll code) p ∧
        ¬ (0 ≤ (p : Int) + a.offset.toInt ∧ (p : Int) + a.offset.toInt < code.length) := by
  have resolved : (∃ e, a.resolve code = .error e) ↔ ∀ r, a.resolve code ≠ .ok r := by
    cases a.resolve code <;> simp
  rw [resolved]
  constructor
  · intro never
    by_cases chosen : ∃ p, a.occurrence.Selects (a.locateAll code) p
    · obtain ⟨p, selects⟩ := chosen
      refine Or.inr (Or.inr ⟨p, selects, fun inside => ?_⟩)
      refine never ⟨a.locateAll code, p, ((p : Int) + a.offset.toInt).toNat⟩
        (resolve_eq_ok_iff.mpr ⟨rfl, selects, ?_, ?_⟩) <;> simp only <;> omega
    · exact Or.inr (Or.inl (not_exists.mp chosen))
  · rintro reasons r ok
    obtain ⟨-, selects, point, inside⟩ := resolve_eq_ok_iff.mp ok
    rcases reasons with none | unclear | ⟨p, selects', outside⟩
    · rw [none] at selects
      exact a.occurrence.not_selects_nil _ selects
    · exact unclear _ selects
    · have same : r.matched = p := by
        rw [← Occurrence.choose?_eq_some_iff] at selects selects'
        exact Option.some.inj (selects.symm.trans selects')
      subst same
      omega

end Anchor

/-! ### Splices -/

namespace Splice

variable {symbols : SymbolTable} {options : SpliceOptions} {body : Body} {point : Nat}
  {t : Template}

section Done

variable (d : Done symbols options body point t) {patterns : List Pattern}

/-- Old instructions that stay together match as before at their moved positions. -/
theorem Done.matchesAt_moved {p q : Nat} (inside : p + patterns.length ≤ body.size)
    (together : ∀ o < patterns.length, moved point d.run.length (p + o) = q + o) :
    Pattern.MatchesAt patterns d.result.code q ↔ Pattern.MatchesAt patterns body.code p := by
  refine Pattern.matchesAt_congr fun o within => ?_
  have below : p + o < body.code.length := by
    unfold Body.size at inside
    omega
  have here := List.getElem?_eq_getElem below
  obtain ⟨ins', here', alike⟩ := d.getElem?_moved here
  rw [together o within] at here'
  exact ⟨_, ins', here, here', alike⟩

end Done

/-- Whether a position of the new body is that of an inserted instruction or one of the stub. -/
def AddedAt (body : Body) (s : Spliced) (i : Nat) : Prop :=
  (s.point ≤ i ∧ i < s.point + s.count) ∨ body.size + s.count ≤ i

/-- Anchors over patterns after a splice.  A match in front of the splice point stays, one behind it
    moves by the number of inserted instructions, and every other match takes in an inserted
    instruction or one of the stub.  The anchor resolves to the one of all these matches that its
    occurrence selects, at its offset, and fails exactly if there is no match, none is selected, or
    the offset leaves the new body. -/
theorem splice_matches {s : Spliced} (success : splice symbols options body point t = .ok s)
    (a : Anchor) {patterns : List Pattern} (patterned : a.matcher.patterns? = some patterns) :
    s.point = point ∧ (a.locateAll s.body.code).Pairwise (· < ·) ∧
    (∀ p, p + patterns.length ≤ point →
      (p ∈ a.locateAll s.body.code ↔ p ∈ a.locateAll body.code)) ∧
    (∀ p, point ≤ p → p + patterns.length ≤ body.size →
      (p + s.count ∈ a.locateAll s.body.code ↔ p ∈ a.locateAll body.code)) ∧
    (∀ p ∈ a.locateAll s.body.code, p + patterns.length ≤ point ∨
      (∃ q, point ≤ q ∧ q + patterns.length ≤ body.size ∧ p = q + s.count) ∨
      ∃ i, p ≤ i ∧ i < p + patterns.length ∧ AddedAt body s i) ∧
    (∀ r, a.resolve s.body.code = .ok r ↔ r.found = a.locateAll s.body.code ∧
      a.occurrence.Selects (a.locateAll s.body.code) r.matched ∧
      (r.point : Int) = r.matched + a.offset.toInt ∧ r.point < s.body.size) ∧
    ((∃ e, a.resolve s.body.code = .error e) ↔ a.locateAll s.body.code = [] ∨
      (∀ p, ¬ a.occurrence.Selects (a.locateAll s.body.code) p) ∨
      ∃ p, a.occurrence.Selects (a.locateAll s.body.code) p ∧
        ¬ (0 ≤ (p : Int) + a.offset.toInt ∧ (p : Int) + a.offset.toInt < s.body.size)) := by
  obtain ⟨d, -, -, rfl⟩ := splice_eq_ok success
  have inside : point < body.size := d.inside
  simp only [Anchor.mem_locateAll_iff patterned]
  refine ⟨trivial, a.pairwise_locateAll _, fun p before => ?_, fun p behind within => ?_,
    fun p matched => ?_, fun r => Anchor.resolve_eq_ok_iff, Anchor.resolve_eq_error_iff⟩
  · refine d.matchesAt_moved (by omega) fun o within => ?_
    exact if_neg (by omega)
  · refine d.matchesAt_moved within fun o _ => ?_
    rw [moved, if_pos (by omega)]
    omega
  · -- The window either keeps clear of what was added or takes in the first position of it.
    have positive := matched.length_pos
    unfold AddedAt
    simp only
    by_cases before : p + patterns.length ≤ point
    · exact Or.inl before
    by_cases front : p < point + d.run.length
    · have nonempty := List.length_pos_iff.mpr d.run_nonempty
      exact Or.inr (Or.inr ⟨max p point, by omega, by omega, by omega⟩)
    by_cases old : p + patterns.length ≤ body.size + d.run.length
    · exact Or.inr (Or.inl ⟨p - d.run.length, by omega, by omega, by omega⟩)
    · exact Or.inr (Or.inr ⟨max p (body.size + d.run.length), by omega, by omega, by omega⟩)

/-- Looks for an argument that is loaded and one more instruction, and selects the last place
    behind it. -/
def lastLoaded : Anchor :=
  ⟨.sequence [⟨some .ldarg, none⟩, ⟨none, none⟩], .last, 1⟩

/-- Of the two matches in the body of the sum, the guard breaks the first one apart and moves the
    second one; the first match of the new body goes on into the guard. -/
theorem guardedAdder_matches :
    ∃ s, splice adderSymbols ⟨true, 8, .stops⟩ adder 1 zeroGuard = .ok s ∧
      lastLoaded.matcher.patterns? = some [⟨some .ldarg, none⟩, ⟨none, none⟩] ∧
      lastLoaded.locateAll adder.code = [0, 1] ∧
      lastLoaded.locateAll s.body.code = [0, 1, 3] ∧
      (1 + s.count ∈ lastLoaded.locateAll s.body.code ↔ 1 ∈ lastLoaded.locateAll adder.code) ∧
      (∃ i, 0 ≤ i ∧ i < 2 ∧ AddedAt adder s i) ∧
      lastLoaded.resolve s.body.code = .ok ⟨[0, 1, 3], 3, 4⟩ := by
  obtain ⟨s, success, point, matches', size⟩ :
      ∃ s, splice adderSymbols ⟨true, 8, .stops⟩ adder 1 zeroGuard = .ok s ∧ s.point = 1 ∧
        lastLoaded.locateAll s.body.code = [0, 1, 3] ∧ s.body.size = 9 :=
    ⟨_, rfl, rfl, by decide, rfl⟩
  obtain ⟨-, -, -, behind, others, resolves, -⟩ := splice_matches success lastLoaded rfl
  refine ⟨s, success, rfl, by decide, matches', behind 1 (by decide) (by decide), ?_, ?_⟩
  · rcases others 0 (by simp [matches']) with before | ⟨q, after, -, same⟩ | added
    · exact absurd before (by decide)
    · omega
    · exact added
  · refine (resolves _).mpr ⟨matches'.symm, ?_, by decide, ?_⟩
    · rw [matches']
      rfl
    · simp only [size]
      omega

end Splice

end HookSplice
