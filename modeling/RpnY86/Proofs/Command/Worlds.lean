import Mathlib
import RpnY86.Command.Invocation

/-! # Commands on a system in memory

What an action of a command does to a `World` is its result and the world behind it (`outcome`).
`Does x w r t bs` says what matters of that: the action `x` has the result `r`, leaves the files
`t`, and shows `bs` on standard output. On standard error, text is only added.

There is one such lemma for each action. A file is written in one place only, by `writeOutput`; what
it does to the tree of files is `FileTree.deliver`. -/

namespace RpnY86.Command

variable {α β : Type}

/-- The result of an action, and the world behind it. -/
def outcome (x : Action (StateM World) α) (w : World) : Except Stop α × World :=
  x.run.run w

theorem outcome_bind (x : Action (StateM World) α) (f : α → Action (StateM World) β) (w : World) :
    outcome (x >>= f) w =
      match outcome x w with
      | (.ok a, w') => outcome (f a) w'
      | (.error e, w') => (.error e, w') := by
  unfold outcome
  rw [ExceptT.run_bind, StateT.run_bind]
  rcases (x.run.run w : Except _ _ × World) with ⟨e | a, w'⟩
  · rfl
  · rfl

/-- The action has the result `r`, leaves the files `t` and shows `bs`. -/
structure Does (x : Action (StateM World) α) (w : World) (r : Except Stop α)
    (t : FileTree) (bs : Bytes) : Prop where
  result : (outcome x w).1 = r
  tree : (outcome x w).2.tree = t
  out : (outcome x w).2.out = w.out ++ bs
  err : w.err <+: (outcome x w).2.err

namespace Does

variable {w : World} {x : Action (StateM World) α} {f : α → Action (StateM World) β}
  {t t' : FileTree} {bs bs' : Bytes}

/-- An action that leaves files and standard output as they are. -/
theorem quiet {r : Except Stop α} {v : World} (h : outcome x w = (r, v))
    (ht : v.tree = w.tree) (ho : v.out = w.out) (he : w.err <+: v.err) :
    Does x w r w.tree [] := by
  refine ⟨?_, ?_, ?_, ?_⟩
  · rw [h]
  · rw [h, ht]
  · rw [h, ho, List.append_nil]
  · rw [h]
    exact he

theorem nothing {r : Except Stop α} (h : outcome x w = (r, w)) :
    Does x w r w.tree [] :=
  quiet h rfl rfl (List.prefix_refl _)

theorem pure (a : α) (w : World) : Does (pure a) w (.ok a) w.tree [] := nothing rfl

theorem fail (f : Failure) (w : World) :
    Does (Command.fail f : Action (StateM World) α) w (.error (.failure f)) w.tree [] :=
  nothing rfl

theorem orFail {ε : Type} (wrap : ε → Failure) (r : Except ε α) (w : World) :
    Does (Command.orFail wrap r) w (r.mapError fun e => .failure (wrap e)) w.tree [] := by
  cases r with
  | ok a => exact nothing rfl
  | error e => exact nothing rfl

theorem orStop {ε : Type} (wrap : ε → Failure) (r : Except (Interruption ε) α) (w : World) :
    Does (Command.orStop wrap r) w (r.mapError (.ofInterruption wrap)) w.tree [] := by
  cases r with
  | ok a => exact nothing rfl
  | error i => exact nothing rfl

theorem ofExcept (r : Except Stop α) (w : World) :
    Does (MonadExcept.ofExcept r) w r w.tree [] := by
  cases r with
  | ok a => exact nothing rfl
  | error e => exact nothing rfl

theorem andThen {a : α} {r : Except Stop β} (h : Does x w (.ok a) t bs)
    (hf : Does (f a) (outcome x w).2 r t' bs') : Does (x >>= f) w r t' (bs ++ bs') := by
  obtain ⟨hr, ht, ho, he⟩ := h
  have hx : outcome x w = (.ok a, (outcome x w).2) := Prod.ext hr rfl
  have hbind : outcome (x >>= f) w = outcome (f a) (outcome x w).2 := by
    rw [outcome_bind, hx]
  obtain ⟨hr', ht', ho', he'⟩ := hf
  refine ⟨?_, ?_, ?_, ?_⟩
  · rw [hbind, hr']
  · rw [hbind, ht']
  · rw [hbind, ho', ho, List.append_assoc]
  · rw [hbind]
    exact he.trans he'

theorem bind {a : α} {r : Except Stop β} (h : Does x w (.ok a) t bs)
    (hf : ∀ w', w'.tree = t → Does (f a) w' r t' bs') : Does (x >>= f) w r t' (bs ++ bs') :=
  h.andThen (hf _ h.tree)

theorem next {a : α} {r : Except Stop β} (h : Does x w (.ok a) t [])
    (hf : ∀ w', w'.tree = t → Does (f a) w' r t' bs) : Does (x >>= f) w r t' bs :=
  List.nil_append bs ▸ h.bind hf

theorem bind_error {e : Stop} (h : Does x w (.error e) t bs) :
    Does (x >>= f) w (.error e) t bs := by
  obtain ⟨hr, ht, ho, he⟩ := h
  have hx : outcome x w = (.error e, (outcome x w).2) := Prod.ext hr rfl
  have hbind : outcome (x >>= f) w = (.error e, (outcome x w).2) := by
    rw [outcome_bind, hx]
  refine ⟨?_, ?_, ?_, ?_⟩
  · rw [hbind]
  · rw [hbind, ht]
  · rw [hbind, ho]
  · rw [hbind]
    exact he

end Does

/-! ### The host -/

section host

variable {terminal : Bool} {time : String} (w : World)

theorem does_readFile (path : Bytes) :
    Does (liftM ((World.host terminal time).readFile path)) w (.ok (w.tree.readFile path))
      w.tree [] :=
  .nothing rfl

theorem does_examine (path : Bytes) :
    Does (liftM ((World.host terminal time).examine path)) w (.ok (w.tree.examine path))
      w.tree [] :=
  .nothing rfl

theorem does_readInput :
    Does (liftM (World.host terminal time).readInput) w (.ok w.input) w.tree [] :=
  .quiet (v := { w with input := .ok [] }) rfl rfl rfl (List.prefix_refl _)

theorem does_clock : Does (liftM (World.host terminal time).clock) w (.ok time) w.tree [] :=
  .nothing rfl

theorem does_putOut (bs : Bytes) :
    Does (liftM ((World.host terminal time).putOut bs)) w (.ok ()) w.tree bs :=
  ⟨rfl, rfl, rfl, List.prefix_refl _⟩

theorem does_putErr (bs : Bytes) :
    Does (liftM ((World.host terminal time).putErr bs)) w (.ok ()) w.tree [] :=
  .quiet (v := { w with err := w.err ++ bs }) rfl rfl rfl (List.prefix_append _ _)

variable {w}

theorem does_writeFile_ok {path bs : Bytes} {t : FileTree}
    (h : w.tree.writeFile path bs = .ok t) :
    Does (liftM ((World.host terminal time).writeFile path bs)) w (.ok (.ok ())) t [] := by
  have hrun : ((World.host terminal time).writeFile path bs).run w =
      (.ok (), { w with tree := t }) := by
    simp only [World.host, h, StateT.run_bind, StateT.run_get, pure_bind]
    rfl
  have hout : outcome (liftM ((World.host terminal time).writeFile path bs)) w =
      (.ok (((World.host terminal time).writeFile path bs).run w).1,
        (((World.host terminal time).writeFile path bs).run w).2) := rfl
  rw [hrun] at hout
  refine ⟨?_, ?_, ?_, ?_⟩
  · rw [hout]
  · rw [hout]
  · rw [hout, List.append_nil]
  · rw [hout]

theorem does_writeFile_error {path bs : Bytes} {e : FileError}
    (h : w.tree.writeFile path bs = .error e) :
    Does (liftM ((World.host terminal time).writeFile path bs)) w (.ok (.error e)) w.tree [] := by
  have hrun : ((World.host terminal time).writeFile path bs).run w = (.error e, w) := by
    simp only [World.host, h, StateT.run_bind, StateT.run_get, pure_bind]
    rfl
  have hout : outcome (liftM ((World.host terminal time).writeFile path bs)) w =
      (.ok (((World.host terminal time).writeFile path bs).run w).1,
        (((World.host terminal time).writeFile path bs).run w).2) := rfl
  rw [hrun] at hout
  exact .nothing hout

end host

/-! ### What commands work on -/

namespace Request

/-- The bytes of the expression that is asked for. -/
def source (q : Request) (t : FileTree) (input : Except FileError Bytes) : Except Failure Bytes :=
  let fromFile := (q.given.paths.lookup .input).isSome
  let fromInput := q.given.hasSwitch .stdin
  let sources := [!q.words.isEmpty, fromFile, fromInput].countP id
  if 1 < sources then .error .severalSources
  else if sources = 0 then .error .noExpression
  else if fromInput then input.mapError .unreadableInput
  else if fromFile then
    (t.readFile (q.given.path .input)).mapError (.unreadable (q.given.path .input))
  else .ok ([' '.toUInt8].intercalate q.words)

/-- The expression that is asked for. -/
def expression (q : Request) (t : FileTree) (input : Except FileError Bytes) :
    Except Failure (List Char) :=
  (q.source t input).map fun bs => Text.chars (Text.decode bs)

end Request

namespace Settings

/-- The machine that a command leaves when it runs an image, and how the run ended. -/
def simulate (s : Settings) (image : Bytes) :
    Except (Interruption Y86.Machine.LoadError) (Y86.Machine × Y86.Outcome) :=
  (Y86.Machine.start (s.memorySize image.length) image).map
    fun loaded => loaded.run (Y86.limitOfInt s.maxSteps.toInt)

/-- What a command has of running an image. -/
def executed (s : Settings) (image : Bytes) : Except Stop (Y86.Machine × Option Failure) := do
  let (machine, outcome) ← (s.simulate image).mapError (.ofInterruption .load)
  return (machine, ← Context.outcomeFailure? outcome)

theorem executed_eq {s : Settings} {image : Bytes} {m : Y86.Machine} {o : Y86.Outcome}
    {failure : Option Failure} (hs : s.simulate image = .ok (m, o))
    (ho : Context.outcomeFailure? o = .ok failure) : s.executed image = .ok (m, failure) := by
  unfold executed
  rw [hs]
  change (Context.outcomeFailure? o >>= fun failure => .ok (m, failure)) = _
  rw [ho]
  rfl

end Settings

namespace FileTree

/-- Whether a file can be made at a path without replacing one. -/
def checkFree (t : FileTree) (path : Bytes) : Except Failure Unit :=
  match t.examine path with
  | .ok () => .error (.occupied path)
  | .error e => if e.problem = .notFound then .ok () else .error (.unexaminable e)

/-- The tree with a file saved at a path. Something that exists is replaced only by force. -/
def save (t : FileTree) (force : Bool) (path bs : Bytes) : Except Failure FileTree := do
  if !force then t.checkFree path
  (t.writeFile path bs).mapError (.unwritable path)

/-- The tree with output written. What goes to standard output leaves no file. -/
def deliver (t : FileTree) (force : Bool) (path bs : Bytes) : Except Failure FileTree :=
  if path = Context.standardOutput then .ok t else t.save force path bs

end FileTree

/-! ### Actions of a context -/

namespace Context

variable {terminal : Bool} {time : String} {c : Context (StateM World)}
  (hc : c.host = World.host terminal time) (w : World)

include hc

theorem does_print (t : Text) : Does (c.print t) w (.ok ()) w.tree (Text.encode t) := by
  unfold print
  rw [hc]
  exact does_putOut w _

theorem does_log (es : List Log.Event) : Does (c.log es) w (.ok ()) w.tree [] := by
  unfold log
  split_ifs with hv
  · rw [hc]
    induction es generalizing w with
    | nil => exact .pure () w
    | cons e es ih =>
      have hline : Does (do
          let time ← liftM (World.host terminal time).clock
          let e := e.add "cmd" (.text c.request.command.name)
          let line := c.tools.line c.request.settings.noColor time e
          liftM ((World.host terminal time).putErr (Text.encode (line ++ .ofString "\n")))) w
          (.ok ()) w.tree [] :=
        (does_clock w).next fun w' hw => hw ▸ does_putErr w' _
      exact hline.bind fun w' hw => hw ▸ ih w'
  · exact .pure () w

theorem does_readExpression :
    Does c.readExpression w ((c.request.expression w.tree w.input).mapError .failure) w.tree
      [] := by
  -- bytes that are there are decoded and logged
  have said (bs : Bytes) (w' : World) (hw : w'.tree = w.tree) :
      Does (do
        c.log [{
          fields := [("expr", .text (String.ofList (Text.chars (Text.decode bs))))]
          message := "read expression" }]
        return Text.chars (Text.decode bs)) w' (.ok (Text.chars (Text.decode bs))) w.tree [] :=
    hw ▸ (does_log hc w' _).bind fun w'' hw' => hw' ▸ .pure _ w''
  have orSaid (wrap : FileError → Failure) (r : Except FileError Bytes) (w' : World)
      (hw : w'.tree = w.tree) :
      Does (do
        let bs ← orFail wrap r
        c.log [{
          fields := [("expr", .text (String.ofList (Text.chars (Text.decode bs))))]
          message := "read expression" }]
        return Text.chars (Text.decode bs)) w'
        (((r.mapError wrap).map fun bs => Text.chars (Text.decode bs)).mapError .failure)
        w.tree [] := by
    have hr := Does.orFail wrap r w'
    rw [hw] at hr
    cases r with
    | error e => exact hr.bind_error
    | ok bs => exact hr.next fun w'' hw' => said bs w'' hw'
  unfold readExpression Request.expression Request.source
  dsimp only
  split_ifs
  · exact .fail _ w
  · exact .fail _ w
  · rw [hc]
    exact (does_readInput w).next fun w' hw => orSaid _ _ w' hw
  · rw [hc]
    exact (does_readFile w _).next fun w' hw => orSaid _ _ w' hw
  · exact said _ w rfl

theorem does_compile (cs : List Char) :
    Does (c.compile cs) w
      ((RpnY86.compile c.request.settings.region cs).mapError (.ofInterruption (.compile cs)))
      w.tree [] :=
  (does_log hc w _).bind fun w' hw => hw ▸ .orStop _ _ w'

theorem does_assemble (source : Text) :
    Does (c.assemble source) w
      (((Assembly.assemble source).image.map Assembly.Image.bytes).mapError
        (.ofInterruption .assembly)) w.tree [] := by
  refine (does_log hc w _).next fun w' hw => ?_
  have hstop := Does.orStop .assembly (Assembly.assemble source).image w'
  rw [hw] at hstop
  cases h : (Assembly.assemble source).image with
  | error i =>
    rw [h] at hstop
    exact hstop.bind_error
  | ok image =>
    rw [h] at hstop
    exact hstop.bind fun w'' hw' => hw' ▸ .pure _ w''

theorem does_execute (image : Bytes) :
    Does (c.execute image) w (c.request.settings.executed image) w.tree [] := by
  unfold execute Settings.executed Settings.simulate
  dsimp only
  have hstart := Does.orStop .load
    (Y86.Machine.start (c.request.settings.memorySize image.length) image) w
  cases h : Y86.Machine.start (c.request.settings.memorySize image.length) image with
  | error i =>
    rw [h] at hstart
    exact hstart.bind_error
  | ok loaded =>
    rw [h] at hstart
    refine hstart.next fun w₁ hw₁ => ?_
    dsimp only [Except.map, Except.mapError]
    obtain ⟨s, o⟩ := loaded.run (Y86.limitOfInt c.request.settings.maxSteps.toInt)
    have hfailure := Does.ofExcept (outcomeFailure? o) w₁
    rw [hw₁] at hfailure
    change Does _ w₁ (outcomeFailure? o >>= fun failure => .ok (s, failure)) w.tree []
    cases ho : outcomeFailure? o with
    | error e =>
      rw [ho] at hfailure
      exact hfailure.bind_error
    | ok failure =>
      rw [ho] at hfailure
      exact hfailure.next fun w₂ hw₂ => hw₂ ▸ (does_log hc w₂ _).bind fun w₃ hw₃ => hw₃ ▸ .pure _ w₃

theorem does_checkFree (path : Bytes) :
    Does (c.checkFree path) w ((w.tree.checkFree path).mapError .failure) w.tree [] := by
  unfold checkFree FileTree.checkFree
  rw [hc]
  refine (does_examine w path).next fun w' hw => hw ▸ ?_
  cases w'.tree.examine path with
  | ok u => exact .fail _ w'
  | error e =>
    dsimp only
    split_ifs
    · exact .pure () w'
    · exact .fail _ w'

section output

variable {w} {path bs : Bytes}

theorem does_write (w : World) :
    let r := (w.tree.writeFile path bs).mapError (Failure.unwritable path)
    Does (do orFail (.unwritable path) (← c.host.writeFile path bs)) w
      ((r.map fun _ => ()).mapError .failure) (r.toOption.getD w.tree) [] := by
  rw [hc]
  cases h : w.tree.writeFile path bs with
  | ok t => exact (does_writeFile_ok h).bind fun w' hw => hw ▸ .nothing rfl
  | error e => exact (does_writeFile_error h).bind fun w' hw => hw ▸ .nothing rfl

theorem does_save (w : World) (bs : Bytes) (hpath : path ≠ standardOutput) :
    let r := w.tree.save (c.request.given.isOn .force) path bs
    Does (c.writeOutput path bs) w ((r.map fun _ => ()).mapError .failure)
      (r.toOption.getD w.tree) [] := by
  unfold writeOutput FileTree.save
  rw [if_neg hpath]
  have hfree := does_checkFree hc w path
  cases c.request.given.isOn .force with
  | true => exact does_write hc w
  | false =>
    cases hcheck : w.tree.checkFree path with
    | error f =>
      rw [hcheck] at hfree
      exact hfree.bind_error
    | ok u =>
      rw [hcheck] at hfree
      exact hfree.next fun w' hw => hw ▸ does_write hc w'

theorem does_writeOutput_error {f : Failure}
    (h : w.tree.deliver (c.request.given.isOn .force) path bs = .error f) :
    Does (c.writeOutput path bs) w (.error (.failure f)) w.tree [] := by
  unfold FileTree.deliver at h
  split_ifs at h with hpath
  have hsave := does_save hc w bs hpath
  rw [h] at hsave
  exact hsave

theorem does_writeOutput_ok {t : FileTree}
    (h : w.tree.deliver (c.request.given.isOn .force) path bs = .ok t) :
    Does (c.writeOutput path bs) w (.ok ()) t (if path = standardOutput then bs else []) := by
  unfold FileTree.deliver at h
  split_ifs at h ⊢ with hpath
  · obtain rfl := Except.ok.inj h
    unfold writeOutput
    rw [if_pos hpath, hc]
    exact does_putOut w bs
  · have hsave := does_save hc w bs hpath
    rw [h] at hsave
    exact hsave

variable (what : String) (n : Nat)

/-- What is said about output. -/
def announced (c : Context (StateM World)) (what : String) (n : Nat) (path : Bytes) : Bytes :=
  if path = standardOutput then [] else Text.encode (c.announcement what n path)

theorem does_announce (w : World) (path : Bytes) :
    Does (c.announce what n path) w (.ok ()) w.tree (c.announced what n path) := by
  unfold announce announced
  split_ifs
  · exact .pure () w
  · exact does_print hc w _

end output

end Context

end RpnY86.Command
