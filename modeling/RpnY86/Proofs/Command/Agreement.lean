import RpnY86.Command.Standard
import RpnY86.Proofs.Command.Files
import RpnY86.Proofs.Command.Invocations
import RpnY86.Proofs.Compile.Memories
import RpnY86.Proofs.Text.Decoding

/-! # Running an expression, at once or by way of a file

An expression that compiles can be run at once, or its program can be written to a file, which is
then assembled and run. At once, it ends with its value, with a fault of the program or at the limit
on steps, and with nothing else (`Invocation.Evaluates`). By way of a file, it comes to the same
machine, although the memory may have another size (`Invocation.alike_by_file`). -/

namespace RpnY86

open Assembly (assemble)
open Y86 (Machine Memory Outcome limitOfInt)
open Y86.Machine (Alike EndsSoundly)

/-! ### Simulations -/

namespace Command

namespace Settings

theorem stackTop_pos {s : Settings} (h : s.failure? = none) : 0 < s.stackTop.toInt := by
  unfold failure? at h
  split_ifs at h
  omega

theorem region_top {s : Settings} (h : s.failure? = none) : s.region.top = s.stackTop := by
  have hpos := stackTop_pos h
  unfold region Code.StackRegion.ofBounds
  refine if_neg ?_
  intro hzero
  rw [hzero, Int64.toInt_zero] at hpos
  omega

theorem memorySize_le {s : Settings} {n : Nat} (htop : s.stackTop.toInt < 2 ^ 32)
    (hn : n < 2 ^ 32) : s.memorySize n ≤ Memory.maxSize := by
  unfold memorySize Memory.defaultSize Memory.maxSize
  omega

theorem simulate_eq {s : Settings} {image : Bytes} {loaded : Machine}
    (htop : s.stackTop.toInt < 2 ^ 32) (hlength : image.length < 2 ^ 32)
    (h : (Machine.fresh (s.memorySize image.length)).load image = .ok loaded) :
    s.simulate image = .ok (loaded.run (limitOfInt s.maxSteps.toInt)) := by
  unfold simulate Machine.start Machine.create
  rw [if_pos (memorySize_le htop hlength)]
  change (((Machine.fresh _).load image).mapError _).map _ = _
  rw [h]
  rfl

end Settings

/-- What comes of a run. -/
def ranResult : Outcome → Except Stop Unit
  | .finished => .ok ()
  | .faulted f => .error (.failure (.fault f))
  | .stepLimit limit pc => .error (.failure (.stepLimit limit pc))
  | .endless => .error .endless

theorem Toolkit.registersText_congr (tools : Toolkit) {s t : Machine} (h : Alike s t) :
    tools.registersText t = tools.registersText s := by
  have hget : t.get = s.get := funext h.get
  unfold registersText registerTable
  rw [hget, h.pc, h.flags, h.status, h.steps]

end Command

open Command

/-- **A simulation of a compiled program** ends in one way, under all settings with the same
limit. -/
theorem Compiled.exists_simulate {r : Code.StackRegion} {cs : List Char} {program : String}
    (C : Compiled r cs program) (limit : Int64) :
    ∃ m o, EndsSoundly (limitOfInt limit.toInt) m o ∧
      ∀ s : Settings, s.stackTop.toInt < 2 ^ 32 → s.maxSteps = limit →
        ∃ m', s.simulate C.image.bytes = .ok (m', o) ∧ Alike m m' := by
  obtain ⟨m, o, hends, hrun⟩ := C.exists_run (limitOfInt limit.toInt)
  refine ⟨m, o, hends, fun s htop hlimit => ?_⟩
  have hlength : C.image.bytes.length < 2 ^ 32 := C.tight.length_image ▸ C.tight.top_lt
  have hsize : C.image.bytes.length ≤ s.memorySize C.image.bytes.length := le_max_right _ _
  obtain ⟨loaded, m', hload, hm', halike⟩ := hrun _ hsize
  refine ⟨m', ?_, halike⟩
  rw [Settings.simulate_eq htop hlength hload, hlimit, hm']

namespace Command.Invocation

/-! ### Invocations -/

/-- **How running an expression ends.** The machine `m` is what the run leaves. -/
inductive Evaluates (i : Invocation) (q : Request) (t : FileTree) (m : Machine) : Outcome → Prop
  /-- The value is shown. -/
  | value (halted : m.status = .halted) (good : m.get .edi = 0)
    (ends : i.Ends t (.ok ()) t ((if q.given.isOn .regs then i.tools.registersText m else []) ++
      Text.encode (.ofString (Numeral.decimal (m.get .eax).toInt32.toInt ++ "\n")))) :
    Evaluates i q t m .finished
  /-- The program has left a fault code. -/
  | fault (halted : m.status = .halted) (bad : m.get .edi ≠ 0)
    (ends : i.Ends t (.error (.failure (.program (m.get .edi)))) t
      (if q.given.isOn .regs then i.tools.registersText m else [])) :
    Evaluates i q t m .finished
  /-- The limit on steps was reached. -/
  | limit (n : Nat) (running : m.status = .running) (steps : m.steps = n)
    (maxSteps : q.settings.maxSteps.toInt = n)
    (ends : i.Ends t (.error (.failure (.stepLimit n m.pc))) t []) :
    Evaluates i q t m (.stepLimit n m.pc)

/-- The invocation compiles the expression `cs` to a new file, for the stack region of settings. -/
structure Compiles (i : Invocation) (q : Request) (t : FileTree) (cs : List Char) (s : Settings)
    (path : Bytes) : Prop where
  request : i.request? = some q
  admitted : q.Admitted
  command : q.command = .root ∨ q.command = .compile
  expression : q.expression t i.input = .ok cs
  stackTop : q.settings.stackTop = s.stackTop
  stackSize : q.settings.stackSize = s.stackSize
  output : q.given.path .output = path
  file : path ≠ Context.standardOutput
  vacant : t.Vacant path

/-- The invocation assembles a file and runs its image, with as many steps as settings allow. -/
structure Executes (i : Invocation) (q : Request) (s : Settings) (path : Bytes) : Prop where
  request : i.request? = some q
  admitted : q.Admitted
  command : q.command = .asm
  words : q.words = [path]
  run : q.given.isOn .run = true
  stackTop : q.settings.stackTop.toInt < 2 ^ 32
  maxSteps : q.settings.maxSteps = s.maxSteps

variable {i : Invocation} {q : Request} {t : FileTree} {cs : List Char} {program : String}

theorem stackTop_lt (hq : q.Admitted) (hp : RpnY86.compile q.settings.region cs = .ok program) :
    q.settings.stackTop.toInt < 2 ^ 32 := by
  obtain ⟨C⟩ := nonempty_compiled hp
  rw [← Settings.region_top hq.settings]
  exact C.roomy.top_lt

/-- **Running an expression at once.** -/
theorem evaluates_of_endsSoundly (h : i.request? = some q) (hq : q.Admitted)
    (hcommand : q.command = .run) (hp : q.compiled t i.input = .ok program)
    {image : Assembly.Image} (hi : (assemble (.ofString program)).image = .ok image) {m : Machine}
    {o : Outcome} (hs : q.settings.simulate image.bytes = .ok (m, o))
    (hends : EndsSoundly (limitOfInt q.settings.maxSteps.toInt) m o) : i.Evaluates q t m o := by
  have hrun {failure : Option Failure} (ho : Context.outcomeFailure? o = .ok failure) :=
    Context.does_runRun (c := i.context q) rfl (i.world t) hp hi (Settings.executed_eq hs ho)
  simp only [← Context.run_run (c := i.context q) hcommand] at hrun
  rcases hends with ⟨hhalted, rfl⟩ | ⟨n, hlimit, hrunning, hsteps, rfl⟩
  · have hdoes := ends_of_does h hq ((hrun rfl).2 rfl)
    unfold valueResult valueText at hdoes
    by_cases hedi : m.get .edi = 0
    · rw [if_neg (not_not.2 hedi), if_neg (not_not.2 hedi)] at hdoes
      exact .value hhalted hedi hdoes
    · rw [if_pos hedi, if_pos hedi, List.append_nil] at hdoes
      exact .fault hhalted hedi hdoes
  · have hmax : q.settings.maxSteps.toInt = n := by
      unfold limitOfInt at hlimit
      split_ifs at hlimit
      have := Option.some.inj hlimit
      omega
    exact .limit n hrunning hsteps hmax (ends_of_does h hq ((hrun rfl).1 _ rfl))

theorem ne_nil_of_vacant {path : Bytes} (h : t.Vacant path) : path ≠ [] := by
  rintro rfl
  obtain ⟨dir, name, htarget, -⟩ := h
  cases htarget

theorem assembled_of_readFile {path : Bytes} {image : Assembly.Image}
    (h : t.readFile path = .ok (Text.encode (.ofString program)))
    (hi : (assemble (.ofString program)).image = .ok image) :
    assembled t path = .ok image.bytes := by
  unfold assembled
  rw [h]
  refine bind_eq_ok.2 ⟨_, rfl, ?_⟩
  rw [Text.decode_encode_ofString, hi]
  rfl

/-- **Writing a program to a new file**, from which its image is read back. -/
theorem Compiles.exists_ends {s : Settings} {path : Bytes} (h : i.Compiles q t cs s path)
    (hp : RpnY86.compile s.region cs = .ok program) {image : Assembly.Image}
    (hi : (assemble (.ofString program)).image = .ok image) :
    ∃ t', t.deliver (q.given.isOn .force) path (Text.encode (.ofString program)) = .ok t' ∧
      i.Ends t (.ok ()) t' ((i.context q).outputText "compiled" program.utf8ByteSize path
        (Text.encode (.ofString program))) ∧
      assembled t' path = .ok image.bytes := by
  obtain ⟨t', hsave, hread⟩ := h.vacant.exists_save (q.given.isOn .force)
    (Text.encode (.ofString program))
  have hdeliver :
      t.deliver (q.given.isOn .force) path (Text.encode (.ofString program)) = .ok t' := by
    rw [FileTree.deliver, if_neg h.file, hsave]
  have hpath : q.given.outputPath Context.defaultProgramPath = path := by
    rw [Given.outputPath, h.output, if_neg (ne_nil_of_vacant h.vacant)]
  have hregion : q.settings.region = s.region := by
    rw [Settings.region, Settings.region, h.stackTop, h.stackSize]
  have hprogram : q.compiled t i.input = .ok program :=
    Request.compiled_eq_ok.2 ⟨cs, h.expression, by rw [hregion, hp]⟩
  have hdoes :=
    (Context.does_runCompile (c := i.context q) (w := i.world t) rfl hprogram hpath).2 t' hdeliver
  rw [← Context.run_compile h.command] at hdoes
  exact ⟨t', hdeliver, ends_of_does h.request h.admitted hdoes, assembled_of_readFile hread hi⟩

/-- **Assembling a file and running its image.** -/
theorem Executes.ends {s : Settings} {path bs : Bytes} {t' : FileTree}
    (h : i.Executes q s path) (himage : assembled t path = .ok bs)
    (hd : t.deliver (q.given.isOn .force) (q.given.outputPath (Context.imagePath path)) bs = .ok t')
    {m : Machine} {o : Outcome} {limit : Option Nat} (hs : q.settings.simulate bs = .ok (m, o))
    (ho : EndsSoundly limit m o) :
    i.Ends t (ranResult o) t'
      ((i.context q).outputText "assembled" bs.length (q.given.outputPath (Context.imagePath path))
        bs ++ i.tools.registersText m) := by
  have hrun {failure : Option Failure} (ho : Context.outcomeFailure? o = .ok failure) :=
    Context.does_runAssemble_run (c := i.context q) (w := i.world t) rfl himage hd h.run
      (Settings.executed_eq hs ho)
  simp only [← Context.run_asm (c := i.context q) h.command h.words] at hrun
  rcases ho with ⟨-, rfl⟩ | ⟨n, -, -, -, rfl⟩
  · exact ends_of_does h.request h.admitted (hrun rfl)
  · exact ends_of_does h.request h.admitted (hrun rfl)

/-- **Two ways to run an expression agree.** At once, an expression that compiles ends with its
value, with a fault of the program or at the limit on steps. Written to a new file, its program is
assembled and run, with the same limit and in a memory of any size, to the same registers, program
counter, flags, status and number of steps, and these are what is shown. -/
theorem alike_by_file (h : i.request? = some q) (hq : q.Admitted) (hcommand : q.command = .run)
    (hcs : q.expression t i.input = .ok cs)
    (hp : RpnY86.compile q.settings.region cs = .ok program) :
    ∃ image m o, (assemble (.ofString program)).image = .ok image ∧
      q.settings.simulate image.bytes = .ok (m, o) ∧ i.Evaluates q t m o ∧
      ∀ j q₁ path, Compiles j q₁ t cs q.settings path →
        ∃ t₁, t.deliver (q₁.given.isOn .force) path (Text.encode (.ofString program)) = .ok t₁ ∧
          j.Ends t (.ok ()) t₁ ((j.context q₁).outputText "compiled" program.utf8ByteSize path
            (Text.encode (.ofString program))) ∧
          ∀ k q₂ t₂, Executes k q₂ q.settings path →
            let output := q₂.given.outputPath (Context.imagePath path)
            t₁.deliver (q₂.given.isOn .force) output image.bytes = .ok t₂ →
              ∃ m', q₂.settings.simulate image.bytes = .ok (m', o) ∧ Alike m m' ∧
                k.Ends t₁ (ranResult o) t₂
                  ((k.context q₂).outputText "assembled" image.bytes.length output image.bytes ++
                    k.tools.registersText m) := by
  obtain ⟨C⟩ := nonempty_compiled hp
  have hi : (assemble (.ofString program)).image = .ok C.image := by rw [C.assemble_eq]
  obtain ⟨m₀, o, hends, hsimulate⟩ := C.exists_simulate q.settings.maxSteps
  obtain ⟨m, hm, halike⟩ := hsimulate _ (stackTop_lt hq hp) rfl
  refine ⟨C.image, m, o, hi, hm, ?_, ?_⟩
  · exact evaluates_of_endsSoundly h hq hcommand (Request.compiled_eq_ok.2 ⟨cs, hcs, hp⟩) hi hm
      (hends.congr halike)
  · intro j q₁ path hj
    obtain ⟨t₁, ht₁, hends₁, himage⟩ := hj.exists_ends hp hi
    refine ⟨t₁, ht₁, hends₁, ?_⟩
    intro k q₂ t₂ hk output ht₂
    obtain ⟨m', hm', halike'⟩ := hsimulate _ hk.stackTop hk.maxSteps
    have hsame := halike.symm.trans halike'
    refine ⟨m', hm', hsame, ?_⟩
    rw [← k.tools.registersText_congr hsame]
    exact hk.ends himage ht₂ hm' (hends.congr halike')

/-- A product, whose program is run again in a memory twice as large. -/
theorem alike_by_file_product :
    let invoke (args : List String) (env : Environment) : Invocation :=
      { tools := .standard true, args := args.map .ofString, env }
    let i := invoke ["run", "6 7 *"] [(.ofString "RPNC_MAX_STEPS", .ofString "1000")]
    let j := invoke ["compile", "-o", "p", "6 7 *"] []
    let k := invoke ["asm", "--run", "--max-steps=1000", "--stack-top=8192", "-o", "-", "p"] []
    ∃ q m o w₁ m' shown, i.request? = some q ∧ i.Evaluates q ⟨[]⟩ m o ∧
      j.perform ⟨[]⟩ = (.exit 0, w₁) ∧ Alike m m' ∧
      k.Ends w₁.tree (ranResult o) w₁.tree (shown ++ k.tools.registersText m') := by
  intro invoke i j k
  let path : Bytes := .ofString "p"
  let q : Request :=
    { command := .run
      given := {}
      settings := ⟨0xffc, 64, 1000, false, false⟩
      words := [.ofString "6 7 *"] }
  let q₁ : Request :=
    { command := .compile
      given := { paths := [(.output, path)] }
      settings := ⟨0xffc, 64, 10000000, false, false⟩
      words := [.ofString "6 7 *"] }
  let q₂ : Request :=
    { command := .asm
      given := { switches := [(.run, true)], paths := [(.output, .ofString "-")] }
      settings := ⟨8192, 64, 1000, false, false⟩
      words := [path] }
  have hi : i.request? = some q := by decide +kernel
  obtain ⟨program, -, -, hp, -, -⟩ :=
    exists_loaded ⟨0xffc, 64⟩ "6 7 *".toList (by decide) (n := 0xffc) (by decide)
  obtain ⟨image, m, o, -, -, hm, hfile⟩ := alike_by_file (t := ⟨[]⟩) hi
    ⟨by decide +kernel, by decide +kernel⟩ rfl (by decide +kernel) hp
  have hj : j.Compiles q₁ ⟨[]⟩ "6 7 *".toList q.settings path :=
    { request := by decide +kernel
      admitted := ⟨by decide +kernel, by decide +kernel⟩
      command := .inr rfl
      expression := by decide +kernel
      stackTop := rfl
      stackSize := rfl
      output := rfl
      file := by decide +kernel
      vacant := ⟨.working, path, by decide +kernel, by decide +kernel, by decide +kernel⟩ }
  obtain ⟨t₁, -, hends₁, hrun⟩ := hfile j q₁ path hj
  have hk : k.Executes q₂ q.settings path :=
    { request := by decide +kernel
      admitted := ⟨by decide +kernel, by decide +kernel⟩
      command := rfl
      words := rfl
      run := rfl
      stackTop := by decide +kernel
      maxSteps := rfl }
  obtain ⟨m', -, halike, hends₂⟩ := hrun k q₂ t₁ hk rfl
  rw [← k.tools.registersText_congr halike] at hends₂
  obtain ⟨w₁, hw₁⟩ : ∃ w₁, j.perform ⟨[]⟩ = (.exit 0, w₁) := ⟨_, Prod.ext hends₁.ending rfl⟩
  have htree : w₁.tree = t₁ := by rw [← hends₁.tree, hw₁]
  subst htree
  exact ⟨q, m, o, w₁, m', _, hi, hm, hw₁, halike, hends₂⟩

end Command.Invocation

end RpnY86
