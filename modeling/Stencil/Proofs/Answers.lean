/-
# What the calls of a session give

With compiled files that hold what compiling gives, each call of a session gives
what it gives as the first call (`answers_eq_first`). A template with the layout
it extends is a session of this kind.

The condition that no path passes through a compiled file cannot be left out:
a path that leads nowhere is reported as missing before the file is there, and
as unreadable afterwards (`answers_through_compiled_file`).

Key theorems: `answer_settled`, `answers_settled`, `answers_eq_first`.
-/
import Stencil.Proofs.Transparency

namespace Stencil

variable {c : Compiler} {d : Disk} {calls : List Call}

/-! ### Calls -/

/-- A call on a faithful disk gives what compiling on the first disk gives, under the
path it has there, and leaves a faithful disk. -/
theorem answer_settled (H : Setting c d calls) (clear : Clear c d calls) {k : Call} (hk : k ∈ calls)
    {e : Disk} (F : Faithful c d calls e) :
    k.answer c e = (fresh c d k.template k.mode).bind (fun out =>
        (c.compiledPath d k.template k.mode).map fun path => (out, path)) ∧
      Faithful c d calls (k.after c e) := by
  have hr : Requested c d calls k.template k.mode := .call hk
  have hs : Steady c d calls k.always k.stat := H.steady k hk
  have hlimit : need c d k.template ≤ Compiler.nestingLimit e := by
    refine (need_le_nestingLimit c d k.template).trans ?_
    have := F.size
    unfold Compiler.nestingLimit
    omega
  have hpath : (c.tuned k.always k.stat).compiledPath e k.template k.mode =
      c.compiledPath d k.template k.mode := by
    rw [← hs k.template k.mode hr]
    exact (c.tuned k.always k.stat).compiledPath_grown (F.grown H)
      (fun q hq => H.unnamed k.template k.mode q hr hq) k.mode
  obtain ⟨hres, F'⟩ := (settled H clear k.template k.mode hr).agrees _ _ _ e hlimit hs F
  rw [Compiler.exec_nestedWithin] at hres F'
  unfold Call.answer Call.after Call.run
  rw [Compiler.exec_compile]
  refine ⟨?_, F'⟩
  cases hrun : (exec ((c.tuned k.always k.stat).compileWithin (Compiler.nestingLimit e) k.template
      k.mode) e).1 with
  | error err =>
    rw [hrun] at hres
    rw [← hres]
    rfl
  | ok r =>
    have hr := (Compiler.compileWithin_ok hrun).1
    rw [hrun] at hres
    rw [← hres, ← hpath, hr]
    rfl

/-- Calls of a session on a faithful disk, by induction on the session. -/
theorem answers_settled (H : Setting c d calls) (clear : Clear c d calls) :
    ∀ (ks : List Call) (e : Disk), (∀ k ∈ ks, k ∈ calls) → Faithful c d calls e →
      Call.answers c e ks = ks.map (Call.answer c d) ∧
        Faithful c d calls (ks.foldl (Call.after c) e)
  | [], _, _, F => ⟨rfl, F⟩
  | k :: ks, e, hks, F => by
    have hk := hks k List.mem_cons_self
    obtain ⟨hanswer, F'⟩ := answer_settled H clear hk F
    have hfirst := (answer_settled H clear hk (.refl H)).1
    obtain ⟨hrest, F''⟩ :=
      answers_settled H clear ks (k.after c e) (fun l hl => hks l (List.mem_cons_of_mem _ hl)) F'
    exact ⟨by rw [Call.answers, List.map_cons, hrest, hanswer, hfirst], F''⟩

/-! ### A template and the layout it extends -/

namespace Pair

/-- A template that extends `p`. -/
def childText : String :=
  "[\x7b\"type\":\"extends\",\"path\":\x7b\"type\":\"string_lit\",\"value\":\"p\"\x7d\x7d]"

/-- A layout without blocks. -/
def baseText : String := "[\x7b\"type\":\"text\",\"value\":\"T\"\x7d]"

/-- The template at `a` and the layout at `p`. -/
def disk : Disk :=
  { Disk.empty with
    items := [(["w", "a"], .file (.text childText) 1000), (["w", "p"], .file (.text baseText) 1000)] }

/-- The template twice, the second time without comparing times, then the layout
in any case. -/
def session : List Call :=
  [⟨"a", .page, false, true⟩, ⟨"a", .page, false, false⟩, ⟨"p", .layout, true, true⟩]

/-- What the layout is compiled to. -/
def blocks : BlockMap := ⟨[(.position 0, .code "T")], 1⟩

theorem parse?_base : Template.parse? baseText = some [.mk (.text "T") .unknown] := by
  have json : Json.parse? baseText = some (.arr [.obj [("type", .str "text"), ("value", .str "T")]]) := rfl
  rw [Template.parse?, json]
  rfl

theorem parse?_child : Template.parse? childText = some [.mk (.extending (some (.str "p"))) .unknown] := by
  have json : Json.parse? childText = some (.arr [.obj [("type", .str "extends"),
    ("path", .obj [("type", .str "string_lit"), ("value", .str "p")])]]) := rfl
  rw [Template.parse?, json]
  rfl

theorem holds_cases {template : String} {tree : Template}
    (h : Holds .initial disk template tree) :
    (disk.locate template = .ok ["w", "a"] ∧
        tree = [.mk (.extending (some (.str "p"))) .unknown]) ∨
      tree = [.mk (.text "T") .unknown] := by
  obtain ⟨text, hread, hparse⟩ := h
  obtain ⟨place, time, hlocate, hmem⟩ := Disk.mem_of_read hread
  unfold Compiler.initial Compiler.parseTree at hparse
  simp only [disk, List.mem_cons, Prod.mk.injEq, Item.file.injEq, Content.text.injEq,
    List.not_mem_nil, or_false] at hmem
  rcases hmem with ⟨rfl, rfl, -⟩ | ⟨rfl, rfl, -⟩
  · simp only [parse?_child, Except.ok.injEq] at hparse
    exact .inl ⟨hlocate, hparse.symm⟩
  · simp only [parse?_base, Except.ok.injEq] at hparse
    exact .inr hparse.symm

theorem link_cases {template : String} {tree : Template} {path : String} {linked : Mode}
    (h : Holds .initial disk template tree) (hl : (path, linked) ∈ Node.links tree) :
    disk.locate template = .ok ["w", "a"] ∧ path = "p" ∧ linked = .layout := by
  rcases holds_cases h with ⟨hlocate, rfl⟩ | rfl
  · simp [Node.links, Node.statements, Stmt.statements, Stmt.link?] at hl
    exact ⟨hlocate, hl⟩
  · simp [Node.links, Node.statements, Stmt.statements, Stmt.link?] at hl

theorem requested_cases {template : String} {mode : Mode}
    (h : Requested .initial disk session template mode) :
    (template = "a" ∧ mode = .page) ∨ (template = "p" ∧ mode = .layout) := by
  induction h with
  | call hk =>
    simp only [session, List.mem_cons, List.not_mem_nil, or_false] at hk
    rcases hk with rfl | rfl | rfl <;> simp
  | link _ ht hl =>
    obtain ⟨-, rfl, rfl⟩ := link_cases ht hl
    exact .inr ⟨rfl, rfl⟩

theorem compiledAt_cases {template : String} {mode : Mode} {place : Place}
    (hr : Requested .initial disk session template mode)
    (hc : CompiledAt .initial disk template mode place) :
    (template = "a" ∧ mode = .page ∧ place = ["w", "a.php"]) ∨
      (template = "p" ∧ mode = .layout ∧ place = ["w", "p%%e%%.php"]) := by
  obtain ⟨compiled, hcompiled, hlocate⟩ := hc
  rcases requested_cases hr with ⟨rfl, rfl⟩ | ⟨rfl, rfl⟩
  · cases hcompiled
    cases hlocate
    exact .inl ⟨rfl, rfl, rfl⟩
  · cases hcompiled
    cases hlocate
    exact .inr ⟨rfl, rfl, rfl⟩

theorem kept_cases {place : Place} (h : Kept .initial disk session place) :
    place = ["w", "a.php"] ∨ place = ["w", "p%%e%%.php"] := by
  obtain ⟨template, mode, hr, hc⟩ := h
  rcases compiledAt_cases hr hc with ⟨-, -, h⟩ | ⟨-, -, h⟩ <;> simp [h]

theorem compile_layout :
    (exec (Compiler.initial.compile "p" .layout) disk).1.map (·.output) = .ok (.blocks blocks) := by
  have base : Compiler.initial.parse baseText "p" = .ok [.mk (.text "T") .unknown] := by
    simp only [Compiler.initial, Compiler.parseTree, parse?_base]
  have path : Compiler.initial.compiledPath disk "p" .layout = .ok "p%%e%%.php" := rfl
  have must : Compiler.initial.mustCompile disk "p" "p%%e%%.php" := by decide +kernel
  have apart : ¬ Path.same "p" "p%%e%%.php" := by decide +kernel
  have read : disk.read "p" = .ok baseText := rfl
  have limit : Compiler.nestingLimit disk = 67 + 1 := rfl
  rw [Compiler.exec_compile, limit, Compiler.exec_compileWithin, path]
  simp only [must, ↓reduceIte]
  rw [Compiler.exec_compileFileWith, if_neg apart, read]
  dsimp only
  rw [Compiler.exec_compileTree, base]
  rfl

theorem clear : Clear .initial disk session := by
  intro template mode place hr hmem hk
  rcases requested_cases hr with ⟨rfl, -⟩ | ⟨rfl, -⟩ <;> rcases kept_cases hk with rfl | rfl <;>
    revert hmem <;> decide +kernel

theorem setting : Setting .initial disk session where
  acyclic p h := by
    obtain ⟨q, ⟨template, tree, path, linked, hp, ht, hl, -⟩, -⟩ := Relation.TransGen.head'_iff.1 h
    obtain ⟨q', -, template', tree', path', linked', -, ht', hl', hp'⟩ := Relation.TransGen.tail'_iff.1 h
    obtain ⟨ha, -, -⟩ := link_cases ht hl
    obtain ⟨-, rfl, -⟩ := link_cases ht' hl'
    rw [ha] at hp
    rw [show disk.locate (Compiler.initial.viewPath disk "p") = .ok ["w", "p"] from rfl] at hp'
    cases hp
    simp at hp'
  vacant template mode compiled hr hc := by
    rcases requested_cases hr with ⟨rfl, rfl⟩ | ⟨rfl, rfl⟩ <;> cases hc
    · exact ⟨["w", "a.php"], rfl, by decide +kernel⟩
    · exact ⟨["w", "p%%e%%.php"], rfl, by decide +kernel⟩
  separate _ _ _ _ _ hr hr' hc hc' := by
    rcases compiledAt_cases hr hc with ⟨rfl, rfl, rfl⟩ | ⟨rfl, rfl, rfl⟩ <;>
      rcases compiledAt_cases hr' hc' with ⟨rfl, rfl, h⟩ | ⟨rfl, rfl, h⟩ <;> simp at h ⊢
  unnamed template mode place hr hk hl := clear template mode place hr (Disk.locate_mem_trail hl) hk
  untried _ _ _ _ _ _ _ _ _ _ hdir := by simp [Compiler.initial, Options.initial] at hdir
  codec template m hr h := by
    rcases requested_cases hr with ⟨-, h'⟩ | ⟨rfl, -⟩
    · cases h'
    · rw [compile_layout] at h
      cases h
      have text : blocks.text = "[\x7b\"position\":0,\"code\":\"T\"\x7d]" := rfl
      rw [text]
      rfl
  steady _ _ _ _ _ := rfl

end Pair

/-- **Compiled files do not show.** In a session each call gives the output and the
path, or the error, that it gives as the first call; and only compiled files
change. -/
theorem answers_eq_first (c : Compiler) (d : Disk) (calls : List Call) (H : Setting c d calls)
    (clear : Clear c d calls) :
    Call.answers c d calls = calls.map (Call.answer c d) ∧
      ∀ place, ¬ Kept c d calls place →
        (calls.foldl (Call.after c) d).get? place = d.get? place := by
  obtain ⟨hanswers, F⟩ := answers_settled H clear calls d (fun _ h => h) (.refl H)
  exact ⟨hanswers, F.same⟩

/-- A template and its layout, compiled, used again and compiled again. -/
theorem answers_eq_first_pair :
    Setting .initial Pair.disk Pair.session ∧ Clear .initial Pair.disk Pair.session ∧
      Call.answers .initial Pair.disk Pair.session =
        Pair.session.map (Call.answer .initial Pair.disk) :=
  ⟨Pair.setting, Pair.clear,
    (answers_eq_first .initial Pair.disk Pair.session Pair.setting Pair.clear).1⟩

/-! ### A path through a compiled file -/

namespace Through

/-- The compiled file of each template is next to it, with a `k` before its path. -/
def compiler : Compiler := Compiler.initial.setResolver fun template _ _ => some ("k" ++ template)

/-- An empty template at `a`, and a directory. -/
def disk : Disk :=
  { Disk.empty with items := [(["w", "a"], .file (.text "[]") 1000), (["w", "kka"], .dir)] }

/-- The template, and then a path that passes through its compiled file. -/
def session : List Call := [⟨"a", .page, false, true⟩, ⟨"ka/b", .page, false, true⟩]

/-- The disk after the first call. -/
def written : Disk := (disk.put ["w", "ka"] (.file (.text "") disk.now)).tick

theorem holds_nil {template : String} {tree : Template} (h : Holds compiler disk template tree) :
    tree = [] := by
  obtain ⟨text, hread, hparse⟩ := h
  obtain ⟨place, time, -, hmem⟩ := Disk.mem_of_read hread
  simp only [disk, List.mem_cons, Prod.mk.injEq, Item.file.injEq, Content.text.injEq, reduceCtorEq,
    and_false, List.not_mem_nil, or_false] at hmem
  obtain ⟨-, rfl, -⟩ := hmem
  have empty : compiler.parse "[]" template = .ok [] := rfl
  rw [empty] at hparse
  cases hparse
  rfl

theorem requested_cases {template : String} {mode : Mode}
    (h : Requested compiler disk session template mode) :
    (template = "a" ∨ template = "ka/b") ∧ mode = .page := by
  cases h with
  | call hk =>
    simp only [session, List.mem_cons, List.not_mem_nil, or_false] at hk
    rcases hk with rfl | rfl <;> simp
  | link _ ht hl => simp [holds_nil ht] at hl

theorem compiledAt_cases {template : String} {mode : Mode} {place : Place}
    (hr : Requested compiler disk session template mode)
    (hc : CompiledAt compiler disk template mode place) :
    (template = "a" ∧ place = ["w", "ka"]) ∨
      (template = "ka/b" ∧ place = ["w", "kka", "b"]) := by
  obtain ⟨compiled, hcompiled, hlocate⟩ := hc
  have first : compiler.compiledPath disk "a" .page = .ok "ka" := rfl
  have second : compiler.compiledPath disk "ka/b" .page = .ok "kka/b" := rfl
  have firstAt : disk.locate "ka" = .ok ["w", "ka"] := rfl
  have secondAt : disk.locate "kka/b" = .ok ["w", "kka", "b"] := rfl
  obtain ⟨rfl | rfl, rfl⟩ := requested_cases hr
  · rw [first] at hcompiled
    cases hcompiled
    rw [firstAt] at hlocate
    cases hlocate
    exact .inl ⟨rfl, rfl⟩
  · rw [second] at hcompiled
    cases hcompiled
    rw [secondAt] at hlocate
    cases hlocate
    exact .inr ⟨rfl, rfl⟩

theorem setting : Setting compiler disk session where
  acyclic p h := by
    obtain ⟨q, ⟨template, tree, path, linked, -, ht, hl, -⟩, -⟩ := Relation.TransGen.head'_iff.1 h
    simp [holds_nil ht] at hl
  vacant template mode compiled hr hc := by
    obtain ⟨rfl | rfl, rfl⟩ := requested_cases hr <;> cases hc
    · exact ⟨["w", "ka"], rfl, by decide +kernel⟩
    · exact ⟨["w", "kka", "b"], rfl, by decide +kernel⟩
  separate _ _ _ _ _ hr hr' hc hc' := by
    obtain ⟨-, rfl⟩ := requested_cases hr
    obtain ⟨-, rfl⟩ := requested_cases hr'
    rcases compiledAt_cases hr hc with ⟨rfl, rfl⟩ | ⟨rfl, rfl⟩ <;>
      rcases compiledAt_cases hr' hc' with ⟨rfl, h⟩ | ⟨rfl, h⟩ <;> simp at h ⊢
  unnamed template mode place hr hk := by
    obtain ⟨t, m, hr', hc⟩ := hk
    have first : disk.locate "a" = .ok ["w", "a"] := rfl
    have second : disk.locate "ka/b" = .error .missing := rfl
    obtain ⟨rfl | rfl, -⟩ := requested_cases hr
    · rcases compiledAt_cases hr' hc with ⟨-, rfl⟩ | ⟨-, rfl⟩ <;> simp [first]
    · simp [second]
  untried _ _ _ _ _ _ _ _ ht hl := by simp [holds_nil ht] at hl
  codec _ _ hr := by
    cases (requested_cases hr).2
  steady _ _ _ _ _ := rfl

/-- The first call compiles an empty template. -/
theorem exec_first (depth : Nat) :
    exec (compiler.compileWithin (depth + 1) "a" .page) disk = (.ok ⟨.code "", "ka", true⟩, written) := by
  have must : compiler.mustCompile disk "a" "ka" := by decide +kernel
  have apart : ¬ Path.same "a" "ka" := by decide +kernel
  have path : compiler.compiledPath disk "a" .page = .ok "ka" := rfl
  have read : disk.read "a" = .ok "[]" := rfl
  have tree : ∀ nested, exec (compiler.compileTree nested "[]" "a" .page) disk = (.ok (.code ""), disk) :=
    fun _ => rfl
  have save : disk.save? "ka" (.text "") = some written := rfl
  rw [Compiler.exec_compileWithin, path]
  simp only [must, ↓reduceIte, Compiler.exec_compileFileWith, apart, Bool.false_eq_true, read, tree,
    Compiler.store, Output.stored, save]
  rfl

/-- Why a path that leads nowhere cannot be read shows in the error. -/
theorem exec_second (depth : Nat) (e : Disk) (why : Lost) (hread : e.read "ka/b" = .error (.lost why))
    (hchanged : e.changed? "kka/b" = none) :
    (exec (compiler.compileWithin (depth + 1) "ka/b" .page) e).1 =
      .error (if why = .missing then .sourceNotFound "ka/b" else .sourceUnreadable "ka/b") := by
  have path : compiler.compiledPath e "ka/b" .page = .ok "kka/b" := rfl
  have must : compiler.mustCompile e "ka/b" "kka/b" := by simp [Compiler.mustCompile, hchanged]
  have apart : ¬ Path.same "ka/b" "kka/b" := by decide +kernel
  rw [Compiler.exec_compileWithin, path]
  simp only [must, ↓reduceIte, Compiler.exec_compileFileWith, apart, Bool.false_eq_true, hread]
  cases why <;> rfl

end Through

/-- Compiled files show where a path passes through one: as the first call, the second
one finds no file, and after the other it finds a file on the way. -/
theorem answers_through_compiled_file :
    Setting Through.compiler Through.disk Through.session ∧
      Call.answers Through.compiler Through.disk Through.session =
        [.ok (.code "", "ka"), .error (.sourceUnreadable "ka/b")] ∧
      Through.session.map (Call.answer Through.compiler Through.disk) =
        [.ok (.code "", "ka"), .error (.sourceNotFound "ka/b")] := by
  have own : Through.compiler.tuned false true = Through.compiler := rfl
  have limit : Compiler.nestingLimit Through.disk = 67 + 1 := rfl
  have limit' : Compiler.nestingLimit Through.written = 69 + 1 := rfl
  have first := Through.exec_first 67
  have missing := Through.exec_second 67 Through.disk .missing rfl (by decide +kernel)
  have blocked := Through.exec_second 69 Through.written .notDirectory rfl (by decide +kernel)
  refine ⟨Through.setting, ?_, ?_⟩
  · simp only [Call.answers, Call.answer, Call.after, Call.run, Through.session, own,
      Compiler.exec_compile, limit, first, limit', blocked]
    rfl
  · simp only [List.map_cons, List.map_nil, Call.answer, Call.run, Through.session, own,
      Compiler.exec_compile, limit, first, missing]
    rfl

end Stencil
