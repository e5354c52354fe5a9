/-
# Compiled files under edits

Between compilations the sources of templates are edited. A compiled file is used
again while it is newer than its source, so it must never be newer than a source it
was not compiled from. The invariant (`Coherent`) says this of every compiled file on
the disk: its template has a source, and if the file is newer than the source, it holds
the code of the source as it is now. Writing a source keeps this if the new source is
no older than the compiled file; compiling keeps it whether the compiled file is used
again, written anew, or left as it is because the source does not compile. When compiled
files are written does not matter: the clock may say anything.

Templates that name others are left out: their compiled files would also have to be
newer than the sources of those.

Key definitions: `Event`, `Editing`, `Coherent`.
Key theorems: `compile_cases`, `Coherent.write`, `Coherent.compile`, `compile_current`.
-/
import Stencil.Proofs.Session
import Stencil.Proofs.Transparency

namespace Stencil

/-! ### Templates that name no other -/

namespace Compiler

/-- A template that names no other gives the same on every disk, and leaves the disk as
it is. -/
theorem compileTree_of_no_links {c : Compiler} {text source : String} {tree : Template}
    (hparse : c.parse text source = .ok tree) (hlinks : Node.links tree = []) (mode : Mode)
    (nested nested' : String → Mode → DiskM Output) (d d' : Disk) :
    exec (c.compileTree nested text source mode) d =
      ((exec (c.compileTree nested' text source mode) d').1, d) := by
  have similar : Emit.Similar (fun x y => x = d ∧ y = d') (fun _ => False) (.outer c source nested)
      (.outer c source nested') :=
    .outer ⟨rfl, fun _ => rfl, fun _ _ _ => rfl, fun _ _ _ => rfl, fun _ => rfl, rfl, rfl, rfl, rfl,
      .pure _, fun _ _ h => h.elim⟩
  obtain ⟨hresult, e, -, ⟨hdisk, -⟩, -⟩ :=
    Emit.emitTree_agrees similar tree mode (by simp [hlinks]) (.initial c.options.autoescape d)
      (.initial c.options.autoescape d') (Emit.alike_initial _ ⟨rfl, rfl⟩)
  rw [exec_compileTree, exec_compileTree, hparse]
  exact Prod.ext hresult hdisk

end Compiler

/-- What compiling a template to a page can come to, where the template names no other
and its compiled file is used again while it is newer. -/
inductive Outcome (c : Compiler) (d : Disk) (template : String) :
    Except CompileError Compilation → Disk → Prop
  /-- Nothing is written. -/
  | failed (err : CompileError) : Outcome c d template (.error err) d
  /-- The compiled file is newer than the template. -/
  | reused {compiled code : String} {place : Place} {time changed : Nat} :
    c.compiledPath d template .page = .ok compiled → d.locate compiled = .ok place →
    d.get? place = some (.file (.text code) time) → d.changed? template = some changed →
    changed < time → Outcome c d template (.ok ⟨.code code, compiled, false⟩) d
  /-- The template as it is now is compiled, and its code is written at the time of the clock. -/
  | anew {compiled text code : String} {place : Place} {d' : Disk} :
    c.compiledPath d template .page = .ok compiled → d.locate compiled = .ok place →
    d.read template = .ok text →
    (∀ e, exec (c.compileSource text template .page) e = (.ok (.code code), e)) →
    d.Written place (.file (.text code) d.now) d' →
    Outcome c d template (.ok ⟨.code code, compiled, true⟩) d'

theorem outcome_anew {c : Compiler} {d : Disk} {template compiled : String} (depth : Nat)
    (hplain : ∀ tree, Holds c d template tree → Node.links tree = [])
    (hpath : c.compiledPath d template .page = .ok compiled) :
    Outcome c d template
      ((exec (c.compileFileWith (c.nestedWithin depth) template compiled .page) d).1.map
        (⟨·, compiled, true⟩))
      (exec (c.compileFileWith (c.nestedWithin depth) template compiled .page) d).2 := by
  rw [Compiler.exec_compileFileWith]
  split
  · exact .failed _
  · split
    · exact .failed _
    · exact .failed _
    · rename_i text hread
      cases hparse : c.parse text template with
      | error err =>
        rw [Compiler.exec_compileTree, hparse]
        exact .failed err
      | ok tree =>
        have hlinks := hplain tree ⟨text, hread, hparse⟩
        have same : ∀ e, exec (c.compileSource text template .page) e =
            ((exec (c.compileTree (c.nestedWithin depth) text template .page) d).1, e) :=
          fun e => Compiler.compileTree_of_no_links hparse hlinks .page _ _ e d
        rw [Compiler.compileTree_of_no_links hparse hlinks .page _ (c.nestedWithin depth) d d]
        cases hresult : (exec (c.compileTree (c.nestedWithin depth) text template .page) d).1 with
        | error err => exact .failed err
        | ok out =>
          have hmode : out.mode = .page := by
            obtain ⟨_, s, -, hemit, -⟩ := Compiler.compileTree_ok (Prod.ext hresult rfl)
            exact Compiler.emitTree_mode hemit
          obtain ⟨code, rfl⟩ : ∃ code, out = .code code := by
            cases out with
            | code code => exact ⟨code, rfl⟩
            | blocks m => cases hmode
          dsimp only [Compiler.store]
          cases hsave : d.save? compiled (.text (Output.code code).stored) with
          | none => exact .failed _
          | some d' =>
            obtain ⟨place, hplace, W, -⟩ := Disk.written_of_save? hsave
            rw [hresult] at same
            exact .anew hpath hplace hread same W

theorem outcome_kept {c : Compiler} {d : Disk} {template compiled : String}
    (hstat : c.options.stat = true) (hpath : c.compiledPath d template .page = .ok compiled)
    (hkept : c.mustCompile d template compiled = false) :
    Outcome c d template ((Compiler.load d compiled .page).map (⟨·, compiled, false⟩)) d := by
  cases hread : d.read compiled with
  | error why =>
    rw [Compiler.load, hread]
    exact .failed _
  | ok code =>
    obtain ⟨place, time, hplace, hfile⟩ := Disk.find?_of_read hread
    have htime : d.changed? compiled = some time := by simp [Disk.changed?, hplace, hfile]
    have hfresh : Compiler.isStale d template time = false := by
      simpa [Compiler.mustCompile, htime, hstat] using (Bool.or_eq_false_iff.1 hkept).2
    obtain ⟨changed, hchanged, hlt⟩ :
      ∃ changed, d.changed? template = some changed ∧ changed < time := by
      unfold Compiler.isStale at hfresh
      split at hfresh
      · rename_i changed hchanged
        exact ⟨changed, hchanged, by simpa using hfresh⟩
      · cases hfresh
    rw [Compiler.load, hread]
    exact .reused hpath hplace hfile hchanged hlt

/-- Compiling either fails and writes nothing, or uses a newer compiled file again, or
compiles the template as it is now. -/
theorem compile_cases {c : Compiler} {d : Disk} {template : String} (hstat : c.options.stat = true)
    (hplain : ∀ tree, Holds c d template tree → Node.links tree = []) :
    Outcome c d template (exec (c.compile template .page) d).1
      (exec (c.compile template .page) d).2 := by
  have limit : Compiler.nestingLimit d = 2 * d.items.length + 63 + 1 := rfl
  rw [Compiler.exec_compile, limit, Compiler.exec_compileWithin]
  cases hpath : c.compiledPath d template .page with
  | error err => exact .failed err
  | ok compiled =>
    dsimp only
    by_cases hmust : c.mustCompile d template compiled
    · rw [if_pos hmust]
      exact outcome_anew _ hplain hpath
    · rw [if_neg hmust]
      exact outcome_kept hstat hpath (by simpa using hmust)

/-! ### Sessions with edits -/

/-- What happens to the disk: a source is written, or a template is compiled. -/
inductive Event where
  | write (path : String) (content : Content) (time : Nat)
  | compile (template : String)

/-- The disk after an event. -/
def Event.after (c : Compiler) (d : Disk) : Event → Disk
  | .write path content time => (d.create? path content time).getD d
  | .compile template => (exec (c.compile template .page) d).2

section
variable (c : Compiler) (d : Disk) (events : List Event)

/-- The session comes to the disk `e`. -/
def Visited (e : Disk) : Prop :=
  ∃ before rest, events = before ++ rest ∧ e = before.foldl (Event.after c) d

/-- In the session the event happens on the disk `e`. -/
def Taken (e : Disk) (event : Event) : Prop :=
  ∃ before rest, events = before ++ event :: rest ∧ e = before.foldl (Event.after c) d

/-- The place of the compiled file of a template of the session. -/
def Reserved (place : Place) : Prop :=
  ∃ e template, Visited c d events e ∧ .compile template ∈ events ∧
    CompiledAt c e template .page place

/-- Edits and compilations that keep out of one another's way. -/
structure Editing : Prop where
  /-- A compiled file is not used again if its template is as new. -/
  stat : c.options.stat = true
  /-- The templates that are compiled name no others. -/
  plain : ∀ e template tree, Taken c d events e (.compile template) → Holds c e template tree →
    Node.links tree = []
  /-- There are no compiled files at first. -/
  vacant : ∀ place, Reserved c d events place → d.get? place = none
  /-- Different templates have different compiled files. -/
  separate : ∀ e template template' place, Visited c d events e →
    .compile template ∈ events → .compile template' ∈ events →
    CompiledAt c e template .page place → CompiledAt c e template' .page place →
      template = template'
  /-- No compiled file is compiled. -/
  unnamed : ∀ e template place, Visited c d events e → .compile template ∈ events →
    Reserved c d events place → e.locate template ≠ .ok place
  /-- No compiled file is edited. -/
  unwritten : ∀ e path content time place, Taken c d events e (.write path content time) →
    Reserved c d events place → (Event.after c e (.write path content time)).locate path ≠ .ok place
  /-- A source that is written is not older than the compiled file of its template. -/
  later : ∀ e path content time template source place stored written,
    Taken c d events e (.write path content time) → .compile template ∈ events →
    (Event.after c e (.write path content time)).locate path = .ok source →
    e.locate template = .ok source → CompiledAt c e template .page place →
    e.get? place = some (.file stored written) → written ≤ time

/-- The file at the place is the compiled file of a template that has a source. If it is
newer than the source, it holds the code of the source. -/
def Backed (e : Disk) (place : Place) (stored : Content) (written : Nat) : Prop :=
  ∃ template source content changed, .compile template ∈ events ∧
    CompiledAt c e template .page place ∧ e.locate template = .ok source ∧
    e.get? source = some (.file content changed) ∧
    (changed < written → ∃ text code, content = .text text ∧ stored = .text code ∧
      ∀ f, exec (c.compileSource text template .page) f = (.ok (.code code), f))

/-- Every compiled file on the disk is backed by a source. -/
def Coherent (e : Disk) : Prop :=
  ∀ place stored written, Reserved c d events place →
    e.get? place = some (.file stored written) → Backed c events e place stored written

end

section
variable {c : Compiler} {d : Disk} {events : List Event}

theorem Taken.visited {e : Disk} {event : Event} (h : Taken c d events e event) :
    Visited c d events e := by
  obtain ⟨before, rest, hevents, he⟩ := h
  exact ⟨before, event :: rest, hevents, he⟩

theorem Taken.mem {e : Disk} {event : Event} (h : Taken c d events e event) : event ∈ events := by
  obtain ⟨before, rest, rfl, -⟩ := h
  simp

/-! ### What stays backed -/

/-- A template that stays where it is keeps its compiled file where it is. -/
theorem CompiledAt.mono {e e' : Disk} {template : String} {mode : Mode} {place source : Place}
    (hdirs : ∀ p, e.get? p = some .dir → e'.get? p = some .dir)
    (hl : e.locate template = .ok source)
    {item item' : Item} (hthere : e.get? source = some item) (hthere' : e'.get? source = some item')
    (h : CompiledAt c e template mode place) : CompiledAt c e' template mode place := by
  obtain ⟨compiled, hpath, hplace⟩ := h
  have hl' := Disk.locate_of_dirs hdirs hl
  have hsame := c.compiledPath_of_there hl hl' hthere hthere' mode
  exact ⟨compiled, hsame.trans hpath, Disk.locate_of_dirs hdirs hplace⟩

/-- A compiled file stays backed while its source stays as it is, or is replaced by one
that is not older than the file. -/
theorem Backed.mono {e e' : Disk} {place : Place} {stored : Content} {written : Nat}
    (hdirs : ∀ p, e.get? p = some .dir → e'.get? p = some .dir)
    (hsource : ∀ template source item, .compile template ∈ events →
      CompiledAt c e template .page place →
      e.locate template = .ok source → e.get? source = some item →
      e'.get? source = some item ∨
        ∃ content changed, e'.get? source = some (.file content changed) ∧ written ≤ changed)
    (h : Backed c events e place stored written) : Backed c events e' place stored written := by
  obtain ⟨template, source, content, changed, hused, hat, hl, hget, hcode⟩ := h
  have hl' := Disk.locate_of_dirs hdirs hl
  rcases hsource template source _ hused hat hl hget with hget' | ⟨content', changed', hget', hle⟩
  · exact ⟨template, source, content, changed, hused, hat.mono hdirs hl hget hget', hl',
      hget', hcode⟩
  · refine ⟨template, source, content', changed', hused, hat.mono hdirs hl hget hget',
      hl', hget', ?_⟩
    intro hlt
    omega

/-- A source is written: every compiled file stays backed. -/
theorem Coherent.write (H : Editing c d events) {e : Disk} {path : String} {content : Content}
    {time : Nat} (ht : Taken c d events e (.write path content time)) (h : Coherent c d events e) :
    Coherent c d events (Event.after c e (.write path content time)) := by
  cases hcreate : e.create? path content time with
  | none =>
    have hsame : Event.after c e (.write path content time) = e := by simp [Event.after, hcreate]
    rw [hsame]
    exact h
  | some e' =>
    have hafter : Event.after c e (.write path content time) = e' := by simp [Event.after, hcreate]
    obtain ⟨e₁, target, F, hl₁, W⟩ := Disk.create?_eq_some hcreate
    have hl' : e'.locate path = .ok target := (W.dirs.locate_ok_iff path).2 hl₁
    have hdirs : ∀ p, e.get? p = some .dir → e'.get? p = some .dir := by
      intro p hp
      rcases F p with hsame | ⟨hnone, -⟩
      · exact (W.dirs p).2 (hsame.trans hp)
      · simp [hp] at hnone
    rw [hafter]
    intro place stored written hreserved hfile
    have hplace : place ≠ target := by
      rintro rfl
      exact H.unwritten e path content time place ht hreserved (by rw [hafter]; exact hl')
    -- directories apart, only the target is new, so the compiled file was there before
    have hbefore : e.get? place = some (.file stored written) := by
      rw [W.elsewhere place hplace] at hfile
      rcases F place with hsame | ⟨-, hdir⟩
      · exact hsame.symm.trans hfile
      · simp [hdir] at hfile
    refine (h place stored written hreserved hbefore).mono hdirs ?_
    intro template source item hused hat hl hget
    by_cases hsource : source = target
    · subst hsource
      refine .inr ⟨content, time, W.there, ?_⟩
      exact H.later e path content time template source place stored written ht hused
        (by rw [hafter]; exact hl') hl hat hbefore
    · left
      rw [W.elsewhere source hsource]
      rcases F source with hsame | ⟨hnone, -⟩
      · exact hsame.trans hget
      · simp [hget] at hnone

/-- A template is compiled: the file that is written is backed by the source it was
compiled from, and the others stay backed. -/
theorem Coherent.compile (H : Editing c d events) {e : Disk} {template : String}
    (ht : Taken c d events e (.compile template)) (h : Coherent c d events e) :
    Coherent c d events (Event.after c e (.compile template)) := by
  have outcome := compile_cases H.stat fun tree => H.plain e template tree ht
  show Coherent c d events (exec (c.compile template .page) e).2
  generalize (exec (c.compile template .page) e).1 = r at outcome
  generalize (exec (c.compile template .page) e).2 = e' at outcome
  cases outcome with
  | failed => exact h
  | reused => exact h
  | @anew compiled text code place _ hpath hplace hread hcode W =>
    have hdirs : ∀ p, e.get? p = some .dir → e'.get? p = some .dir := fun p => (W.dirs p).2
    have hat : CompiledAt c e template .page place := ⟨compiled, hpath, hplace⟩
    have hreserved : Reserved c d events place := ⟨e, template, ht.visited, ht.mem, hat⟩
    have apart : ∀ {other source}, .compile other ∈ events → e.locate other = .ok source →
        source ≠ place := by
      rintro other source hother hl rfl
      exact H.unnamed e other source ht.visited hother hreserved hl
    intro q stored written hq hfile
    by_cases hown : q = place
    · subst hown
      obtain ⟨source, changed, hl, hget⟩ := Disk.find?_of_read hread
      have hget' : e'.get? source = some (.file (.text text) changed) := by
        rw [W.elsewhere source (apart ht.mem hl)]
        exact hget
      rw [W.there] at hfile
      cases hfile
      exact ⟨template, source, .text text, changed, ht.mem, hat.mono hdirs hl hget hget',
        Disk.locate_of_dirs hdirs hl, hget', fun _ => ⟨text, code, rfl, rfl, hcode⟩⟩
    · rw [W.elsewhere q hown] at hfile
      refine (h q stored written hq hfile).mono hdirs ?_
      intro other source item hother _ hl hget
      left
      rw [W.elsewhere source (apart hother hl)]
      exact hget

/-- All disks of a session are coherent, by induction on the events so far. -/
theorem coherent_of_visited (H : Editing c d events) {e : Disk} (he : Visited c d events e) :
    Coherent c d events e := by
  obtain ⟨before, rest, hevents, rfl⟩ := he
  induction before using List.reverseRecOn generalizing rest with
  | nil =>
    intro place stored written hreserved hfile
    have hvacant := H.vacant place hreserved
    rw [List.foldl_nil, hvacant] at hfile
    cases hfile
  | append_singleton before event ih =>
    have hsplit : events = before ++ event :: rest := by simpa using hevents
    have hcoherent := ih (event :: rest) hsplit
    have htaken : Taken c d events (before.foldl (Event.after c) d) event :=
      ⟨before, rest, hsplit, rfl⟩
    rw [List.foldl_concat]
    cases event with
    | write path content time => exact hcoherent.write H htaken
    | compile template => exact hcoherent.compile H htaken

end

/-- **Compiled files keep up with edits.** Wherever a template is compiled in a session,
a result is the code of its source as it is then, and a failure leaves the disk as it
was. -/
theorem compile_current (c : Compiler) (d : Disk) (events : List Event) (H : Editing c d events)
    (e : Disk) (template : String) (ht : Taken c d events e (.compile template)) :
    (∀ result, (exec (c.compile template .page) e).1 = .ok result →
      ∃ text code, e.read template = .ok text ∧ result.output = .code code ∧
        exec (c.compileSource text template .page) e = (.ok (.code code), e)) ∧
    ∀ err, (exec (c.compile template .page) e).1 = .error err →
      (exec (c.compile template .page) e).2 = e := by
  have coherent := coherent_of_visited H ht.visited
  have outcome := compile_cases H.stat fun tree => H.plain e template tree ht
  generalize (exec (c.compile template .page) e).1 = r at outcome ⊢
  generalize (exec (c.compile template .page) e).2 = e' at outcome ⊢
  cases outcome with
  | failed err => exact ⟨nofun, fun _ _ => rfl⟩
  | @anew compiled text code place _ hpath hplace hread hcode W =>
    refine ⟨?_, nofun⟩
    rintro _ ⟨⟩
    exact ⟨text, code, hread, rfl, hcode e⟩
  | @reused compiled code place time changed hpath hplace hfile hchanged hlt =>
    refine ⟨?_, nofun⟩
    rintro _ ⟨⟩
    have hat : CompiledAt c e template .page place := ⟨compiled, hpath, hplace⟩
    obtain ⟨owner, source, content, changed', howner, hat', hl, hget, hcode⟩ :=
      coherent place _ time ⟨e, template, ht.visited, ht.mem, hat⟩ hfile
    obtain rfl : owner = template :=
      H.separate e owner template place ht.visited howner ht.mem hat' hat
    obtain rfl : changed' = changed := by simpa [Disk.changed?, hl, hget] using hchanged
    obtain ⟨text, code', rfl, hstored, hsource⟩ := hcode hlt
    cases hstored
    exact ⟨text, code, by simp [Disk.read, hl, hget], rfl, hsource e⟩

/-! ### A diary -/

/-- The events of a session, each with the disk it happens on. -/
def Event.trace (c : Compiler) : Disk → List Event → List (Disk × Event)
  | _, [] => []
  | d, event :: rest => (d, event) :: trace c (event.after c d) rest

theorem taken_iff_mem_trace {c : Compiler} {events : List Event} {e : Disk} {event : Event}
    {d : Disk} :
    Taken c d events e event ↔ (e, event) ∈ Event.trace c d events := by
  constructor
  · rintro ⟨before, rest, rfl, rfl⟩
    induction before generalizing d with
    | nil => exact List.mem_cons_self
    | cons first before ih => exact List.mem_cons_of_mem _ ih
  · intro h
    induction events generalizing d with
    | nil => cases h
    | cons first events ih =>
      rcases List.mem_cons.1 h with heq | hmem
      · cases heq
        exact ⟨[], events, rfl, rfl⟩
      · obtain ⟨before, rest, rfl, he⟩ := ih hmem
        exact ⟨first :: before, rest, rfl, he⟩

namespace Diary

/-- A compiler that reads every text but one as itself. -/
def compiler : Compiler :=
  { Compiler.initial with
    parse := fun text source =>
      if text = "?" then .error (.invalidTree source) else .ok [.mk (.text text) .unknown] }

/-- An empty disk where files are saved at 2000, 4000, 6000 and so on. -/
def start : Disk := { Disk.empty with clock := fun n => 2000 * (n + 1) }

/-- The source is edited as late as its compiled file was written, first to something that
cannot be read, and then to something that can. Its compiled file is written later than
that, used again, and then the source is edited once more. -/
def events : List Event :=
  [.write "a" (.text "one") 1000, .compile "a", .compile "a", .write "a" (.text "?") 2000,
    .compile "a", .write "a" (.text "two") 2000, .compile "a", .compile "a",
    .write "a" (.text "three") 5000, .compile "a", .compile "a"]

/-- The first entry. -/
def entry : Disk := start.put ["w", "a"] (.file (.text "one") 1000)

/-- An entry and a compiled file, when files have been saved `n` times. -/
def page (n : Nat) (text : String) (changed : Nat) (code : String) (written : Nat) : Disk where
  items := [(["w", "a"], .file (.text text) changed), (["w", "a.php"], .file (.text code) written)]
  listed := entry.relisted ["w", "a.php"]
  clock := fun k => 2000 * (k + n + 1)

theorem compile_entry : exec (compiler.compile "a" .page) entry =
    (.ok ⟨.code "one", "a.php", true⟩, page 1 "one" 1000 "one" 2000) := by
  have limit : Compiler.nestingLimit entry = 65 + 1 := rfl
  rw [Compiler.exec_compile, limit]
  rfl

section
variable (n : Nat) (text : String) (changed : Nat) (code : String) (written : Nat)

/-- The compiled file is used again exactly if it is newer than the source. -/
theorem mustCompile_page : compiler.mustCompile (page n text changed code written) "a" "a.php" =
    decide (written ≤ changed) := by
  have source : (page n text changed code written).changed? "a" = some changed := rfl
  have stored : (page n text changed code written).changed? "a.php" = some written := rfl
  have always : compiler.options.always = false := rfl
  have stat : compiler.options.stat = true := rfl
  unfold Compiler.mustCompile Compiler.isStale
  rw [source, stored, always, stat]
  simp

theorem compile_page : exec (compiler.compile "a" .page) (page n text changed code written) =
    if written ≤ changed then
      ((exec (compiler.compileFileWith (compiler.nestedWithin 67) "a" "a.php" .page)
          (page n text changed code written)).1.map (⟨·, "a.php", true⟩),
        (exec (compiler.compileFileWith (compiler.nestedWithin 67) "a" "a.php" .page)
          (page n text changed code written)).2)
    else (.ok ⟨.code code, "a.php", false⟩, page n text changed code written) := by
  have limit : Compiler.nestingLimit (page n text changed code written) = 67 + 1 := rfl
  have path : compiler.compiledPath (page n text changed code written) "a" .page =
      .ok "a.php" := rfl
  have load : Compiler.load (page n text changed code written) "a.php" .page =
      .ok (.code code) := rfl
  rw [Compiler.exec_compile, limit, Compiler.exec_compileWithin, path]
  dsimp only
  rw [mustCompile_page, load]
  simp only [decide_eq_true_eq]
  rfl

theorem compile_kept (h : changed < written) :
    exec (compiler.compile "a" .page) (page n text changed code written) =
      (.ok ⟨.code code, "a.php", false⟩, page n text changed code written) := by
  rw [compile_page, if_neg (Nat.not_le_of_lt h)]

end

theorem compile_unreadable : exec (compiler.compile "a" .page) (page 1 "?" 2000 "one" 2000) =
    (.error (.invalidTree "a"), page 1 "?" 2000 "one" 2000) := by
  rw [compile_page, if_pos (by decide)]
  rfl

theorem compile_edited : exec (compiler.compile "a" .page) (page 1 "two" 2000 "one" 2000) =
    (.ok ⟨.code "two", "a.php", true⟩, page 2 "two" 2000 "two" 4000) := by
  rw [compile_page, if_pos (by decide)]
  rfl

theorem compile_again : exec (compiler.compile "a" .page) (page 2 "three" 5000 "two" 4000) =
    (.ok ⟨.code "three", "a.php", true⟩, page 3 "three" 5000 "three" 6000) := by
  rw [compile_page, if_pos (by decide)]
  rfl

theorem trace_events : Event.trace compiler start events =
    [(start, .write "a" (.text "one") 1000), (entry, .compile "a"),
      (page 1 "one" 1000 "one" 2000, .compile "a"),
      (page 1 "one" 1000 "one" 2000, .write "a" (.text "?") 2000),
      (page 1 "?" 2000 "one" 2000, .compile "a"),
      (page 1 "?" 2000 "one" 2000, .write "a" (.text "two") 2000),
      (page 1 "two" 2000 "one" 2000, .compile "a"), (page 2 "two" 2000 "two" 4000, .compile "a"),
      (page 2 "two" 2000 "two" 4000, .write "a" (.text "three") 5000),
      (page 2 "three" 5000 "two" 4000, .compile "a"),
      (page 3 "three" 5000 "three" 6000, .compile "a")] := by
  have compiled : ∀ {d result}, exec (compiler.compile "a" .page) d = result →
      Event.after compiler d (.compile "a") = result.2 := fun h => congrArg Prod.snd h
  have entered : Event.after compiler start (.write "a" (.text "one") 1000) = entry := rfl
  have written : ∀ n text changed code written text' changed',
    Event.after compiler (page n text changed code written) (.write "a" (.text text') changed') =
      page n text' changed' code written := fun _ _ _ _ _ _ _ => rfl
  have first := compile_kept 1 "one" 1000 "one" 2000 (by decide)
  have second := compile_kept 2 "two" 2000 "two" 4000 (by decide)
  simp only [events, Event.trace, entered, written, compiled compile_entry, compiled first,
    compiled compile_unreadable, compiled compile_edited, compiled second, compiled compile_again]

theorem eq_of_compile_mem {template : String} (h : .compile template ∈ events) :
    template = "a" := by
  simpa [events] using h

/-- The one place for a compiled file. -/
theorem eq_of_compiledAt {e : Disk} {place : Place} (h : CompiledAt compiler e "a" .page place) :
    place = ["w", "a.php"] := by
  obtain ⟨compiled, hpath, hplace⟩ := h
  cases hpath
  have hlocate : e.locate "a.php" = .ok ["w", "a.php"] := rfl
  change e.locate "a.php" = .ok place at hplace
  rw [hlocate] at hplace
  cases hplace
  rfl

theorem eq_of_reserved {place : Place} (h : Reserved compiler start events place) :
    place = ["w", "a.php"] := by
  obtain ⟨e, template, -, hused, hat⟩ := h
  cases eq_of_compile_mem hused
  exact eq_of_compiledAt hat

theorem editing : Editing compiler start events where
  stat := rfl
  plain e template tree _ hholds := by
    obtain ⟨text, -, hparse⟩ := hholds
    by_cases htext : text = "?"
    · have hbad : compiler.parse text template = .error (.invalidTree template) := if_pos htext
      rw [hbad] at hparse
      cases hparse
    · have hgood : compiler.parse text template = .ok [.mk (.text text) .unknown] := if_neg htext
      rw [hgood] at hparse
      cases hparse
      rfl
  vacant place hreserved := by
    cases eq_of_reserved hreserved
    rfl
  separate e template template' place _ hused hused' _ _ := by
    cases eq_of_compile_mem hused
    cases eq_of_compile_mem hused'
    rfl
  unnamed e template place _ hused hreserved hl := by
    cases eq_of_compile_mem hused
    cases eq_of_reserved hreserved
    have hsource : e.locate "a" = .ok ["w", "a"] := rfl
    rw [hsource] at hl
    simp at hl
  unwritten e path content time place htaken hreserved hl := by
    cases eq_of_reserved hreserved
    have hpath : path = "a" := by
      have hmem := htaken.mem
      simp only [events, List.mem_cons, Event.write.injEq, reduceCtorEq, List.not_mem_nil, or_false,
        false_or] at hmem
      rcases hmem with ⟨rfl, -⟩ | ⟨rfl, -⟩ | ⟨rfl, -⟩ | ⟨rfl, -⟩ <;> rfl
    have hsource : ∀ e : Disk, e.locate "a" = .ok ["w", "a"] := fun _ => rfl
    rw [hpath, hsource] at hl
    simp at hl
  later e path content time template source place stored written htaken hused _ _ hat hfile := by
    cases eq_of_compile_mem hused
    cases eq_of_compiledAt hat
    have hmem := taken_iff_mem_trace.1 htaken
    rw [trace_events] at hmem
    simp only [List.mem_cons, Prod.mk.injEq, Event.write.injEq, reduceCtorEq, and_false,
      List.not_mem_nil, or_false, false_or] at hmem
    have compiled : ∀ n text changed code written,
        (page n text changed code written).get? ["w", "a.php"] =
          some (.file (.text code) written) := fun _ _ _ _ _ => rfl
    rcases hmem with ⟨rfl, -⟩ | ⟨rfl, -, -, rfl⟩ | ⟨rfl, -, -, rfl⟩ | ⟨rfl, -, -, rfl⟩
    · have nothing : start.get? ["w", "a.php"] = none := rfl
      rw [nothing] at hfile
      cases hfile
    all_goals
      rw [compiled] at hfile
      cases hfile
      decide

end Diary

/-- Compiling gives the code of an edit that is only as new as the compiled file, then gives
it again from the compiled file, and then the code of the next edit. -/
theorem compile_current_diary :
    Editing Diary.compiler Diary.start Diary.events ∧
      (∀ e ∈ [Diary.page 1 "two" 2000 "one" 2000, Diary.page 2 "two" 2000 "two" 4000,
        Diary.page 2 "three" 5000 "two" 4000],
        Taken Diary.compiler Diary.start Diary.events e (.compile "a")) ∧
      (exec (Diary.compiler.compile "a" .page) (Diary.page 1 "two" 2000 "one" 2000)).1 =
        .ok ⟨.code "two", "a.php", true⟩ ∧
      (exec (Diary.compiler.compile "a" .page) (Diary.page 2 "two" 2000 "two" 4000)).1 =
        .ok ⟨.code "two", "a.php", false⟩ ∧
      (exec (Diary.compiler.compile "a" .page) (Diary.page 2 "three" 5000 "two" 4000)).1 =
        .ok ⟨.code "three", "a.php", true⟩ ∧
      ∃ text code, (Diary.page 2 "two" 2000 "two" 4000).read "a" = .ok text ∧
        Output.code "two" = .code code ∧
        exec (Diary.compiler.compileSource text "a" .page) (Diary.page 2 "two" 2000 "two" 4000) =
          (.ok (.code code), Diary.page 2 "two" 2000 "two" 4000) := by
  have htaken : ∀ e ∈ [Diary.page 1 "two" 2000 "one" 2000, Diary.page 2 "two" 2000 "two" 4000,
      Diary.page 2 "three" 5000 "two" 4000],
      Taken Diary.compiler Diary.start Diary.events e (.compile "a") := by
    intro e he
    rw [taken_iff_mem_trace, Diary.trace_events]
    simp only [List.mem_cons, List.not_mem_nil, or_false] at he
    rcases he with rfl | rfl | rfl <;> simp
  have hhit := congrArg Prod.fst (Diary.compile_kept 2 "two" 2000 "two" 4000 (by decide))
  exact ⟨Diary.editing, htaken, congrArg Prod.fst Diary.compile_edited, hhit,
    congrArg Prod.fst Diary.compile_again,
    (compile_current _ _ _ Diary.editing _ _ (htaken _ (by simp))).1 _ hhit⟩

end Stencil
