import RpnY86.Proofs.Command.Worlds
import RpnY86.Proofs.Results

/-! # What each command does

Each command is taken apart into the ways in which it can end: an expression is run
(`Context.does_runRun`) or compiled to a file (`Context.does_runCompile`), and the image of a
program file is written and then perhaps run (`Context.does_runAssemble_run`). The commands that
write no file keep the tree of files as it is, however they end (`Keeps`). -/

namespace RpnY86.Command

variable {α β : Type}

/-! ### Results -/

/-- The program that is asked for. -/
def Request.compiled (q : Request) (t : FileTree) (input : Except FileError Bytes) :
    Except Stop String := do
  let cs ← (q.expression t input).mapError .failure
  (RpnY86.compile q.settings.region cs).mapError (.ofInterruption (.compile cs))

/-- The image of a program file. -/
def assembled (t : FileTree) (path : Bytes) : Except Stop Bytes := do
  let source ← (t.readFile path).mapError fun e => .failure (.unreadable path e)
  ((Assembly.assemble (Text.decode source)).image.map Assembly.Image.bytes).mapError
    (.ofInterruption .assembly)

/-- The output path that flags give, or another one. -/
def Given.outputPath (g : Given) (otherwise : Bytes) : Bytes :=
  if g.path .output = [] then otherwise else g.path .output

/-- What comes of a value: it is good if the program has left no fault code. -/
def valueResult (s : Y86.Machine) : Except Stop Unit :=
  if s.get .edi ≠ 0 then .error (.failure (.program (s.get .edi))) else .ok ()

/-- A value as it is shown. With a fault code, nothing is shown. -/
def valueText (s : Y86.Machine) : Bytes :=
  if s.get .edi ≠ 0 then []
  else Text.encode (.ofString (Numeral.decimal (s.get .eax).toInt32.toInt ++ "\n"))

/-- The registers as they are shown. -/
def Toolkit.registersText (tools : Toolkit) (s : Y86.Machine) : Bytes :=
  Text.encode (tools.table (registerTable s) ++ .ofString "\n")

theorem Request.compiled_eq_ok {q : Request} {t : FileTree} {input : Except FileError Bytes}
    {program : String} :
    q.compiled t input = .ok program ↔
      ∃ cs, q.expression t input = .ok cs ∧ RpnY86.compile q.settings.region cs = .ok program := by
  unfold compiled
  rw [bind_eq_ok]
  simp only [mapError_eq_ok]

/-! ### Actions that keep the files -/

/-- The action keeps the tree of files, whatever its result is. -/
def Keeps (x : Action (StateM World) α) (w : World) : Prop := ∃ r bs, Does x w r w.tree bs

theorem Does.keeps {w : World} {x : Action (StateM World) α} {r : Except Stop α}
    {bs : Bytes} (h : Does x w r w.tree bs) : Keeps x w := ⟨r, bs, h⟩

theorem Keeps.bind {w : World} {x : Action (StateM World) α} {f : α → Action (StateM World) β}
    (h : Keeps x w) (hf : ∀ a w', w'.tree = w.tree → Keeps (f a) w') : Keeps (x >>= f) w := by
  obtain ⟨r, bs, hx⟩ := h
  cases r with
  | error e => exact hx.bind_error.keeps
  | ok a =>
    obtain ⟨r', bs', hf⟩ := hf a _ hx.tree
    rw [hx.tree] at hf
    exact (hx.andThen hf).keeps

namespace Context

variable {terminal : Bool} {time : String} {c : Context (StateM World)}
  (hc : c.host = World.host terminal time) (w : World)

include hc

/-! ### Commands that write no file -/

theorem does_value (s : Y86.Machine) :
    Does (do
      if s.get .edi ≠ 0 then fail (.program (s.get .edi))
      c.print (.ofString (Numeral.decimal (s.get .eax).toInt32.toInt ++ "\n"))) w
      (valueResult s) w.tree
      (valueText s) := by
  unfold valueResult valueText
  split_ifs
  · exact (Does.fail _ w).bind_error
  · exact does_print hc w _

theorem does_printRegisters (s : Y86.Machine) :
    Does (c.printRegisters s) w (.ok ()) w.tree (c.tools.registersText s) :=
  does_print hc w _

section run

variable {program : String} {image : Assembly.Image} {s : Y86.Machine} {failure : Option Failure}
  (hp : c.request.compiled w.tree w.input = .ok program)
  (hi : (Assembly.assemble (.ofString program)).image = .ok image)
  (hs : c.request.settings.executed image.bytes = .ok (s, failure))

include hp hi hs

theorem does_of_executed {next : Y86.Machine × Option Failure → Action (StateM World) Unit}
    {r : Except Stop Unit} {bs : Bytes}
    (h : ∀ w', w'.tree = w.tree → Does (next (s, failure)) w' r w.tree bs) :
    Does (do
      let cs ← c.readExpression
      let program ← c.compile cs
      let image ← c.assemble (.ofString program)
      next (← c.execute image)) w r w.tree bs := by
  obtain ⟨cs, hcs, hprogram⟩ := Request.compiled_eq_ok.1 hp
  have hread := does_readExpression hc w
  rw [hcs] at hread
  refine hread.next fun w₁ hw₁ => ?_
  have hcompile := does_compile hc w₁ cs
  rw [hprogram, hw₁] at hcompile
  refine hcompile.next fun w₂ hw₂ => ?_
  have hassemble := does_assemble hc w₂ (.ofString program)
  rw [hi, hw₂] at hassemble
  refine hassemble.next fun w₃ hw₃ => ?_
  have hexecute := does_execute hc w₃ image.bytes
  rw [hs, hw₃] at hexecute
  exact hexecute.next h

/-- **Running an expression.** A machine that stopped without a fault shows its value. -/
theorem does_runRun :
    (∀ f, failure = some f → Does c.runRun w (.error (.failure f)) w.tree []) ∧
      (failure = none →
        Does c.runRun w
      (valueResult s) w.tree
          ((if c.request.given.isOn .regs then c.tools.registersText s else []) ++
            valueText s)) := by
  refine ⟨fun f hf => does_of_executed hc w hp hi hs fun w' hw => ?_,
    fun hf => does_of_executed hc w hp hi hs fun w' hw => ?_⟩
  · rw [hf, ← hw]
    exact (Does.fail f w').bind_error
  · rw [hf, ← hw]
    dsimp only
    cases c.request.given.isOn .regs with
    | true =>
      rw [if_pos rfl, if_pos rfl]
      exact (does_printRegisters hc w' s).bind fun w'' hw' => hw' ▸ does_value hc w'' s
    | false =>
      rw [if_neg Bool.false_ne_true, if_neg Bool.false_ne_true, List.nil_append]
      exact does_value hc w' s

end run

theorem keeps_runRun : Keeps c.runRun w := by
  refine (does_readExpression hc w).keeps.bind fun cs w₁ _ => ?_
  refine (does_compile hc w₁ cs).keeps.bind fun program w₂ _ => ?_
  refine (does_assemble hc w₂ _).keeps.bind fun image w₃ _ => ?_
  refine (does_execute hc w₃ image).keeps.bind fun r w₄ _ => ?_
  rcases r with ⟨s, _ | f⟩
  · cases c.request.given.isOn .regs with
    | true => exact (does_print hc w₄ _).keeps.bind fun _ w₅ _ => (does_value hc w₅ s).keeps
    | false => exact (does_value hc w₄ s).keeps
  · exact ((Does.fail f w₄).bind_error (α := PUnit)).keeps

theorem keeps_runTokens : Keeps c.runTokens w := by
  refine (does_readExpression hc w).keeps.bind fun cs w₁ _ => ?_
  refine (Does.orFail _ _ w₁).keeps.bind fun ts w₂ _ => ?_
  split_ifs
  · exact (does_print hc w₂ _).keeps
  · exact (does_print hc w₂ _).keeps

theorem keeps_runOperations : Keeps c.runOperations w := by
  refine (does_readExpression hc w).keeps.bind fun cs w₁ _ => ?_
  refine (Does.orFail _ _ w₁).keeps.bind fun ts w₂ _ => ?_
  refine (Does.orFail _ _ w₂).keeps.bind fun os w₃ _ => ?_
  refine (Does.orStop _ _ w₃).keeps.bind fun es w₄ _ => ?_
  split_ifs
  · exact (does_print hc w₄ _).keeps
  · exact (does_print hc w₄ _).keeps

/-- **Listing the operations** of an expression. -/
theorem does_runOperations {cs : List Char} {ts : List Token} {os : List Operation}
    {es : List (Operation × StackEffect)} (hcs : c.request.expression w.tree w.input = .ok cs)
    (hts : lex cs = .ok ts) (hos : Operation.ofTokens ts = .ok os) (hes : effects os = .ok es)
    (hjson : c.request.given.isOn .json = false) :
    Does c.runOperations w (.ok ()) w.tree
      (Text.encode (.ofString ("Instructions (" ++ Numeral.decimal os.length ++ ")\n" ++
        String.join (operationLines 0 0 es)))) := by
  have hread := does_readExpression hc w
  rw [hcs] at hread
  refine hread.next fun w₁ hw₁ => ?_
  have hlex := Does.orFail (.compile cs) (lex cs) w₁
  rw [hts, hw₁] at hlex
  rw [hts]
  refine hlex.next fun w₂ hw₂ => ?_
  have hbuild := Does.orFail (.compile cs) (Operation.ofTokens ts) w₂
  rw [hos, hw₂] at hbuild
  rw [hos]
  refine hbuild.next fun w₃ hw₃ => ?_
  have heffects := Does.orStop id (effects os) w₃
  rw [hes, hw₃] at heffects
  rw [hes]
  refine heffects.next fun w₄ hw₄ => ?_
  rw [hjson, if_neg Bool.false_ne_true, ← hw₄]
  exact does_print hc w₄ _

/-! ### Commands that write a file -/

/-- What is shown about output, with the output itself if it goes to standard output. -/
def outputText (c : Context (StateM World)) (what : String) (n : Nat) (path : Bytes)
    (bs : Bytes) : Bytes :=
  (if path = standardOutput then bs else []) ++ c.announced what n path

section compile

variable {w}

theorem does_runCompile_error {e : Stop}
    (h : c.request.compiled w.tree w.input = .error e) :
    Does c.runCompile w (.error e) w.tree [] := by
  have hread := does_readExpression hc w
  unfold Request.compiled at h
  cases hcs : c.request.expression w.tree w.input with
  | error f =>
    rw [hcs] at h hread
    obtain rfl : .failure f = e := Except.error.inj h
    exact hread.bind_error
  | ok cs =>
    rw [hcs] at h hread
    refine hread.next fun w' hw => ?_
    have hcompile := does_compile hc w' cs
    have h : (RpnY86.compile c.request.settings.region cs).mapError _ = .error e := h
    rw [h, hw] at hcompile
    exact hcompile.bind_error

/-- **Compiling an expression** delivers the text of its program. -/
theorem does_runCompile {program : String} {path : Bytes}
    (h : c.request.compiled w.tree w.input = .ok program)
    (hpath : c.request.given.outputPath defaultProgramPath = path) :
    let bs := Text.encode (.ofString program)
    (∀ f, w.tree.deliver (c.request.given.isOn .force) path bs = .error f →
      Does c.runCompile w (.error (.failure f)) w.tree []) ∧
    ∀ t, w.tree.deliver (c.request.given.isOn .force) path bs = .ok t →
      Does c.runCompile w (.ok ()) t
        (c.outputText "compiled" program.utf8ByteSize path bs) := by
  intro bs
  obtain ⟨cs, hcs, hprogram⟩ := Request.compiled_eq_ok.1 h
  have hread := does_readExpression hc w
  rw [hcs] at hread
  have run {r : Except Stop Unit} {t : FileTree} {shown : Bytes}
      (h : ∀ w', w'.tree = w.tree →
        Does (do
          c.writeOutput path bs
          c.announce "compiled" program.utf8ByteSize path) w' r t shown) :
      Does c.runCompile w r t shown := by
    refine hread.next fun w₁ hw₁ => ?_
    have hcompile := does_compile hc w₁ cs
    rw [hprogram, hw₁] at hcompile
    subst hpath
    exact hcompile.next h
  refine ⟨fun f hf => run fun w' hw => ?_, fun t ht => run fun w' hw => ?_⟩
  · rw [← hw] at hf ⊢
    exact (does_writeOutput_error hc hf).bind_error
  · rw [← hw] at ht
    exact (does_writeOutput_ok hc ht).bind fun w'' hw' => hw' ▸ does_announce hc _ _ w'' path

end compile

section assemble

variable {w} {input : Bytes}

theorem does_runAssemble_error {e : Stop} (h : assembled w.tree input = .error e) :
    Does (c.runAssemble input) w (.error e) w.tree [] := by
  unfold runAssemble
  rw [hc]
  refine (does_readFile w input).next fun w' hw => ?_
  have hread := Does.orFail (.unreadable input) (w.tree.readFile input) w'
  rw [hw] at hread
  unfold assembled at h
  cases hsource : w.tree.readFile input with
  | error f =>
    rw [hsource] at h hread
    obtain rfl := Except.error.inj h
    exact hread.bind_error
  | ok source =>
    rw [hsource] at h hread
    refine hread.next fun w'' hw' => ?_
    have hassemble := does_assemble hc w'' (Text.decode source)
    have h : Except.mapError _ _ = .error e := h
    rw [h, hw'] at hassemble
    exact hassemble.bind_error

variable {image : Bytes} (h : assembled w.tree input = .ok image)

include h

/-- What follows when the image of a file is there. -/
theorem does_runAssemble_of {r : Except Stop Unit} {t : FileTree}
    {shown : Bytes}
    (hrest : ∀ w', w'.tree = w.tree →
      Does (do
        c.writeOutput (c.request.given.outputPath (imagePath input)) image
        c.announce "assembled" image.length (c.request.given.outputPath (imagePath input))
        if c.request.given.isOn .run then
          let (s, failure) ← c.execute image
          c.printRegisters s
          if let some f := failure then fail f) w' r t shown) :
    Does (c.runAssemble input) w r t shown := by
  obtain ⟨source, hsource, h⟩ := bind_eq_ok.1 h
  have hsource := mapError_eq_ok.1 hsource
  unfold runAssemble
  rw [hc]
  refine (does_readFile w input).next fun w₁ hw₁ => ?_
  have hread := Does.orFail (.unreadable input) (w.tree.readFile input) w₁
  rw [hsource, hw₁] at hread
  rw [hsource]
  refine hread.next fun w₂ hw₂ => ?_
  have hassemble := does_assemble hc w₂ (Text.decode source)
  have h : Except.mapError _ _ = .ok image := h
  rw [mapError_eq_ok.1 h, hw₂] at hassemble
  exact hassemble.next hrest

theorem does_runAssemble_refused {f : Failure}
    (hf : w.tree.deliver (c.request.given.isOn .force)
      (c.request.given.outputPath (imagePath input)) image =
      .error f) :
    Does (c.runAssemble input) w (.error (.failure f)) w.tree [] := by
  refine does_runAssemble_of hc h fun w' hw => ?_
  rw [← hw] at hf ⊢
  exact (does_writeOutput_error hc hf).bind_error

section written

variable {t : FileTree}
  (ht : w.tree.deliver (c.request.given.isOn .force)
    (c.request.given.outputPath (imagePath input)) image = .ok t)

include ht

/-- What follows when the image of a file is written. -/
theorem does_runAssemble_of_written {r : Except Stop Unit} {bs : Bytes}
    (hrest : ∀ w', w'.tree = t →
      Does (if c.request.given.isOn .run then do
          let (s, failure) ← c.execute image
          c.printRegisters s
          if let some f := failure then fail f
        else pure ()) w' r t bs) :
    Does (c.runAssemble input) w r t
      (c.outputText "assembled" image.length (c.request.given.outputPath (imagePath input)) image ++
        bs) := by
  refine does_runAssemble_of hc h fun w₁ hw₁ => ?_
  rw [← hw₁] at ht
  rw [outputText, List.append_assoc]
  refine (does_writeOutput_ok hc ht).bind fun w₂ hw₂ => ?_
  have hannounce := does_announce hc "assembled" image.length w₂
    (c.request.given.outputPath (imagePath input))
  rw [hw₂] at hannounce
  exact hannounce.bind hrest

theorem does_runAssemble_only (hrun : c.request.given.isOn .run = false) :
    Does (c.runAssemble input) w (.ok ()) t
      (c.outputText "assembled" image.length (c.request.given.outputPath (imagePath input))
        image) := by
  rw [← List.append_nil (c.outputText ..)]
  refine does_runAssemble_of_written hc h ht fun w' hw => ?_
  rw [hrun, if_neg Bool.false_ne_true]
  exact hw ▸ .pure () w'

theorem does_runAssemble_stopped (hrun : c.request.given.isOn .run = true) {e : Stop}
    (hs : c.request.settings.executed image = .error e) :
    Does (c.runAssemble input) w (.error e) t
      (c.outputText "assembled" image.length (c.request.given.outputPath (imagePath input))
        image) := by
  rw [← List.append_nil (c.outputText ..)]
  refine does_runAssemble_of_written hc h ht fun w' hw => ?_
  rw [hrun, if_pos rfl]
  have hexecute := does_execute hc w' image
  rw [hs, hw] at hexecute
  exact hexecute.bind_error

theorem does_runAssemble_run (hrun : c.request.given.isOn .run = true) {s : Y86.Machine}
    {failure : Option Failure} (hs : c.request.settings.executed image = .ok (s, failure)) :
    Does (c.runAssemble input) w (failure.elim (.ok ()) fun f => .error (.failure f)) t
      (c.outputText "assembled" image.length (c.request.given.outputPath (imagePath input)) image ++
        c.tools.registersText s) := by
  refine does_runAssemble_of_written hc h ht fun w₁ hw₁ => ?_
  rw [hrun, if_pos rfl]
  have hexecute := does_execute hc w₁ image
  rw [hs, hw₁] at hexecute
  refine hexecute.next fun w₂ hw₂ => ?_
  have hprint := does_printRegisters hc w₂ s
  rw [hw₂] at hprint
  rw [← List.append_nil (c.tools.registersText s)]
  refine hprint.bind fun w₃ hw₃ => ?_
  rw [← hw₃]
  cases failure with
  | none => exact .pure () w₃
  | some f => exact .fail f w₃

end written

end assemble

end Context

end RpnY86.Command
