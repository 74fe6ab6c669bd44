import HookSplice.Proofs.InstallReports
import HookSplice.Proofs.ReprintedHost

/-!
# Saving and reloading patched hosts

A host that was read from an image stays sound when manifests are installed into it.  So what is
read back from its printed image has the same bodies with the fingerprints that were reported last,
and but for the order of the classes it prints alike.
-/

namespace HookSplice

namespace Host

variable {h : Host} {report : InstallReport}

/-- A host that was read from an image and into which manifests were installed one after the other;
    the report is that of the last installation. -/
inductive Patched : InstallReport → Host → Prop
  | read {image : String} {h : Host} (success : Image.read image = .ok h) : Patched ⟨[]⟩ h
  | install {earlier report : InstallReport} {h h' : Host} {m : Manifest} {ds : List Descriptor}
      {symbols : SymbolTable} (patched : Patched earlier h)
      (resolved : m.resolve.runOn h.symbols = (.ok ds, symbols))
      (success : { h with symbols := symbols }.install ds m.config = (.ok report, h')) :
      Patched report h'

/-- A host stays sound when its table develops. -/
theorem Sound.develop (sound : h.Sound) {symbols : SymbolTable}
    (developed : h.symbols.Develops symbols) : Sound { h with symbols := symbols } := by
  have proper := developed.proper ⟨sound.symbols, sound.legible⟩
  exact ⟨proper.sound, proper.legible,
    fun b member => (sound.bodies b member).grow developed.grown⟩

namespace Patched

theorem sound (patched : Patched report h) : h.Sound := by
  induction patched with
  | read success => exact Image.read_sound success
  | install patched resolved success ih =>
      obtain ⟨developed, known⟩ := Manifest.resolve_known resolved
      exact install_sound (ih.develop developed) known success

theorem reports (patched : Patched report h) :
    (∀ a ∈ report.applied, ∃ b ∈ h.bodies, h.methodName b.method = a.method) ∧
      (h.symbols.Plain → ∀ b ∈ h.bodies,
        ∀ f ∈ report.lastFingerprint? (h.methodName b.method),
          f = Fingerprint.ofBody h.symbols b) := by
  cases patched with
  | read success =>
      exact ⟨fun _ member => absurd member List.not_mem_nil, fun _ _ _ _ none_ => by cases none_⟩
  | install patched resolved success =>
      obtain ⟨developed, known⟩ := Manifest.resolve_known resolved
      exact install_reports (patched.sound.develop developed) known success

end Patched

/-! ### Saving and reloading -/

/-- What is left of a host that was printed and read back.  A body whose labels keep their order has
    its text and its fingerprint, which is the one that the report gives last.  If all bodies have,
    then only the order of the classes may change. -/
structure Saved (report : InstallReport) (h h' : Host) : Prop where
  bodies : ∀ b ∈ h.bodies, b.NamesAscend → ∃ b', h'.bodyNamed? (h.methodName b.method) = some b' ∧
    Image.printBody h'.symbols b' = Image.printBody h.symbols b ∧
    Fingerprint.ofBody h'.symbols b' = Fingerprint.ofBody h.symbols b
  reports : ∀ a ∈ report.applied, ∃ b ∈ h.bodies, h.methodName b.method = a.method ∧
    (b.NamesAscend → ∃ b', h'.bodyNamed? a.method = some b' ∧
      report.lastFingerprint? a.method = some (Fingerprint.ofBody h'.symbols b'))
  classes : h.mentionedClasses.Perm h.classes
  text : (∀ b ∈ h.bodies, b.NamesAscend) → Image.print h' = Image.printInOrder h h.mentionedClasses
  same : (∀ b ∈ h.bodies, b.NamesAscend) → h.mentionedClasses = h.classes →
    Image.print h' = Image.print h

theorem bodyNamed?_reloaded (sound : h.Sound) (names : h.symbols.Plain) {b : Body}
    (member : b ∈ h.bodies) :
    h.reloaded.bodyNamed? (h.methodName b.method) = some (h.arrangement.body b) := by
  have known := (sound.bodies b member).method
  have declared : b.method ∈ h.arrangement.methods := (mem_declared sound).mpr known
  have named : h.reloaded.symbols.methodId? (h.methodName b.method) =
      some (h.arrangement.method b.method) :=
    Arrangement.methodId?_table (over_arrangement sound) sound.symbols names declared
  unfold bodyNamed?
  rw [named, Option.bind_some, body?_reloaded sound known, body?_eq_some_iff.mpr ⟨member, rfl⟩,
    Option.map_some]

theorem saved_reloaded (patched : Patched report h) (names : h.symbols.Plain) :
    h.Saved report h.reloaded where
  bodies := fun b member ascend => by
    have text := printBody_reloaded patched.sound member ascend
    exact ⟨_, bodyNamed?_reloaded patched.sound names member, text, Fingerprint.ofBody_congr text⟩
  reports := fun a member => by
    obtain ⟨named, last⟩ := patched.reports
    obtain ⟨b, inBodies, method⟩ := named a member
    refine ⟨b, inBodies, method, fun ascend => ?_⟩
    have text := printBody_reloaded patched.sound inBodies ascend
    refine ⟨_, method ▸ bodyNamed?_reloaded patched.sound names inBodies, ?_⟩
    have reported : (report.lastFingerprint? a.method).isSome := by
      unfold InstallReport.lastFingerprint?
      rw [Option.isSome_map, List.getLast?_isSome]
      exact List.ne_nil_of_mem (List.mem_filter.mpr ⟨member, beq_self_eq_true _⟩)
    obtain ⟨f, found⟩ := Option.isSome_iff_exists.mp reported
    rw [found, last names b inBodies f (method ▸ found), Fingerprint.ofBody_congr text]
  classes := mentionedClasses_perm patched.sound
  text := print_reloaded patched.sound
  same := fun ascend order => by
    rw [print_reloaded patched.sound ascend, order, ← Image.print_eq]

end Host

namespace Image

/-- A patched host with plain names, something to print and no integer that cannot be read is read
    back from its printed image, and printed again it gives the same text but for the order of the
    classes and bodies whose labels lose their order. -/
theorem print_saved {report : InstallReport} {h : Host} (patched : Host.Patched report h)
    (some_ : ¬ h.Blank) (plain : h.Plain) :
    ∃ h', read (print h) = .ok h' ∧ h.Saved report h' :=
  ⟨h.reloaded, read_printed patched.sound plain some_, Host.saved_reloaded patched plain.names⟩

/-- An image with one method. -/
def tollImage : String :=
  ".method static void Gate::pass(Car)\nret\n.end\n"

/-- The host of `tollImage`. -/
def tollHost : Host where
  symbols := ⟨["Gate", "Car"], [], [⟨⟨⟨0⟩, "pass", [⟨1⟩], none, true⟩, "Gate::pass(Car)"⟩]⟩
  bodies := .single ⟨⟨0⟩, [.plain .ret], [], [], 0⟩
  applied := []

/-- A hook in front of the return of its method. -/
def tollManifest : Manifest where
  config := .default
  hooks := [{
    name := "toll"
    target := "Gate::pass(Car)"
    fingerprint := none
    anchor := ⟨[{ InstructionSpec.empty with opcode := some .ret }], .first, 0⟩
    event := ⟨.action, [.arg 0], [], .returning .void⟩ }]

/-- The descriptors of `tollManifest` and the symbols of the host afterwards. -/
def tollResolved : Except PatchError (List Descriptor) × SymbolTable :=
  tollManifest.resolve.runOn tollHost.symbols

theorem isSome_tollResolved : tollResolved.1.toOption.isSome := by
  decide +kernel

/-- The report of the installation and the host afterwards. -/
def tollInstalled : Except (List InstallError) InstallReport × Host :=
  Host.install { tollHost with symbols := tollResolved.2 }
    (Except.value tollResolved.1 isSome_tollResolved) tollManifest.config

theorem isSome_tollInstalled : tollInstalled.1.toOption.isSome := by
  decide +kernel

theorem tollHost_saved : ∃ report, Host.Patched report tollInstalled.2 ∧
    report.applied.map AppliedPatch.method = ["Gate::pass(Car)"] ∧
    ¬ tollInstalled.2.Blank ∧ tollInstalled.2.Plain ∧
    ∃ h', read (print tollInstalled.2) = .ok h' ∧ tollInstalled.2.Saved report h' := by
  have success : read tollImage = .ok tollHost := by decide +kernel
  have patched := (Host.Patched.read success).install
    (Except.run_eq_ok_value isSome_tollResolved) (Except.run_eq_ok_value isSome_tollInstalled)
  have some_ : ¬ tollInstalled.2.Blank := by decide +kernel
  have plain : tollInstalled.2.Plain :=
    ⟨⟨by decide +kernel, by decide +kernel, by decide +kernel⟩, by decide +kernel⟩
  exact ⟨_, patched, by decide +kernel, some_, plain, print_saved patched some_ plain⟩

/-! ### Images that change -/

/-- The host of an image is not read back from its printed image, or prints differently then. -/
def Unstable (image : String) : Prop :=
  ∃ h, read image = .ok h ∧ ¬ ∃ h', read (print h) = .ok h' ∧ print h' = print h

theorem unstable_of_all {image : String} {h : Host} (success : read image = .ok h)
    (differs : (read (print h)).toOption.all fun h' => print h' != print h) : Unstable image := by
  refine ⟨h, success, ?_⟩
  rintro ⟨h', again, same⟩
  rw [again] at differs
  simp only [Except.toOption, Option.all_some, same, bne_self_eq_false] at differs
  cases differs

/-- A class without fields is not printed, and an image without lines is not read. -/
def blankImage : String :=
  ".class A\n.end\n"

/-- The printed image mentions the last class before the one in the middle. -/
def shuffledImage : String :=
  ".extern void A::f(B)\n.class A\n.field C c\n.end\n.class B\n.field A a\n.end\n" ++
    ".class C\n.field A a\n.end\n"

/-- A quote in one name keeps the mark in the other one from starting a comment, but the printed
    image has both names in one line. -/
def quotedImage : String :=
  ".method void A::f()\n.locals P\"\n.locals Q\"#\nret\n.end\n"

/-- The tenth and the eleventh label stand at one position. -/
def crowdedImage : String :=
  ".method void A::f()\nbr x\na: br a\nb: br b\nc: br c\nd: br d\ne: br e\nf: br f\ng: br g\n" ++
    "h: br h\ni: br i\nx: y: br y\n.end\n"

/-- Nothing to print, an order of classes, a name with marks of the syntax and labels at one
    position are each enough for an image to change. -/
theorem unstable_images : Unstable blankImage ∧ Unstable shuffledImage ∧ Unstable quotedImage ∧
    Unstable crowdedImage :=
  ⟨unstable_of_all (Except.eq_ok_value (by decide +kernel)) (by decide +kernel),
    unstable_of_all (Except.eq_ok_value (by decide +kernel)) (by decide +kernel),
    unstable_of_all (Except.eq_ok_value (by decide +kernel)) (by decide +kernel),
    unstable_of_all (Except.eq_ok_value (by decide +kernel)) (by decide +kernel)⟩

end Image

end HookSplice
