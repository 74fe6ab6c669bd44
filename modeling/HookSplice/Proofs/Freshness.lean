import HookSplice.Proofs.ReadBodies
import HookSplice.Proofs.Relocation

/-!
# Fresh label allocators

The allocator of a body stands above all labels of its code, however the body was made: from parts
that leave the last number free, by reading an image, or by a splice for whose labels there are
numbers.
-/

namespace HookSplice

namespace Code

theorem toNat_max (m n : UInt32) : (max m n).toNat = max m.toNat n.toNat := by
  show (if m ≤ n then n else m).toNat = _
  rw [Nat.max_def]
  simp only [UInt32.le_iff_toNat_le]
  split <;> rfl

/-- The bound and the numbers behind the labels lie below the greatest of them. -/
theorem le_foldl_max (ls : List Label) (bound : UInt32) :
    bound.toNat ≤ (ls.foldl (fun bound l => max bound (l.raw + 1)) bound).toNat ∧
      ∀ l ∈ ls, (l.raw + 1).toNat ≤
        (ls.foldl (fun bound l => max bound (l.raw + 1)) bound).toNat := by
  induction ls generalizing bound with
  | nil => simp
  | cons first rest ih =>
      obtain ⟨above, below⟩ := ih (max bound (first.raw + 1))
      rw [toNat_max] at above
      exact ⟨Nat.le_trans (Nat.le_max_left ..) above,
        List.forall_mem_cons.mpr ⟨Nat.le_trans (Nat.le_max_right ..) above, below⟩⟩

/-- A label lies below the bound when the numbers do not start over behind it. -/
theorem lt_labelBound {code : List Instruction} (counted : mentionsLast code = false) {l : Label}
    (member : l ∈ labels code) : l.number < (labelBound code).toNat := by
  induction code with
  | nil => cases member
  | cons ins rest ih =>
      simp only [mentionsLast, List.any_cons, Bool.or_eq_false_iff] at counted
      obtain ⟨above, below⟩ := le_foldl_max (mentioned ins) (labelBound rest)
      rw [labels, List.flatMap_cons] at member
      rcases List.mem_append.mp member with here | later
      · have mentionedHere : l ∈ mentioned ins := List.mem_append_left _ here
        have next : l.raw + 1 ≠ 0 := by
          simpa using List.any_eq_false.mp counted.1 l mentionedHere
        refine Nat.lt_of_lt_of_le ?_ (below l mentionedHere)
        have small := l.raw.toNat_lt
        have wraps : (l.raw + 1).toNat ≠ 0 := fun zero => next (UInt32.toNat_inj.mp zero)
        rw [UInt32.toNat_add, UInt32.toNat_one] at wraps ⊢
        unfold Label.number
        omega
      · exact Nat.lt_of_lt_of_le (ih counted.2 later) above

end Code

theorem Body.ofParts_fresh (method : MethodId) {code : List Instruction} (locals : List TypeId)
    (regions : List Region) (counted : Code.mentionsLast code = false) :
    (ofParts method code locals regions).Fresh :=
  fun _ member => Code.lt_labelBound counted member

/-- The labels of a body that is read are numbered from zero on. -/
theorem Image.read_fresh {image : String} {host : Host} (success : read image = .ok host) :
    ∀ b ∈ host.bodies, b.Fresh :=
  fun b member => ((read_sound success).bodies b member).numbered

/-- The allocator of a spliced body has moved past the labels of the run. -/
theorem Splice.splice_fresh {symbols : SymbolTable} {options : SpliceOptions} {body : Body}
    {point : Nat} {t : Template} {s : Spliced} (fresh : body.Fresh)
    (room : options.overflow = .stops ∨ body.Spares t.labelCount)
    (success : splice symbols options body point t = .ok s) : s.body.Fresh := by
  obtain ⟨d, -, -, rfl⟩ := splice_eq_ok success
  have spares := d.spares room
  obtain ⟨known, deny⟩ := (denySite_eq_ok d.sited).below fresh (spares.le (Nat.le_add_right ..))
  have grows : d.site.body.nextLabel.toNat ≤ d.wide.nextLabel.toNat := by
    rw [d.expansion.allocator, (d.spares_site spares).nextLabel_advance]
    exact Nat.le_add_right ..
  intro l member
  show l.number < d.wide.nextLabel.toNat
  simp only [d.code_eq, Code.labels, List.flatMap_append, List.mem_append] at member
  rcases member with front | inStub
  · rcases List.mem_append.mp ((labels_insertRun d.point_lt d.run_nonempty).mem_iff.mp front)
      with old | new
    · exact Nat.lt_of_lt_of_le (known l old) grows
    · exact (d.mem_labels_run spares new).2
  · obtain ⟨rfl, -⟩ := d.labels_stub inStub
    exact Nat.lt_of_lt_of_le deny grows

end HookSplice
