/-
# Looking up paths on a disk that has grown

Compiling puts files where nothing was. A path that leads somewhere still leads
there afterwards, and a path that led nowhere leads nowhere. Only why it leads
nowhere can change: a step that was missing may now be a file.

Key definitions:
* `Disk.trail`: the places the look-up of a path comes to.
* `Disk.SameDirs`: the directories are the same.
* `Disk.Writable`: a file can be written at the end of a path.
* `Disk.Written`, `Disk.Furnished`: what a file, and directories, add to a disk.
* `Disk.Later`: the clock has gone on.
* `Disk.Grown`: a disk with files added at some places.
Key theorems: `Disk.SameDirs.locate_ok_iff`, `Disk.written_of_save?`, `Disk.create?_eq_some`,
`Disk.Grown.read_eq`, `Disk.Grown.exists?_eq`.
-/
import Stencil.Artifact.Name

namespace Stencil

/-- Looking up in an association list, entry by entry. -/
theorem lookup_cons_ite {κ β : Type} [BEq κ] [LawfulBEq κ] [DecidableEq κ] (p q : κ) (b : β)
    (rest : List (κ × β)) :
    ((q, b) :: rest).lookup p = if p = q then some b else rest.lookup p := by
  rw [List.lookup_cons]
  by_cases h : p = q
  · simp [h]
  · simp [beq_false_of_ne h, h]

namespace Disk

/-! ### Putting items -/

theorem lookup_putItem (place : Place) (item : Item) (p : Place) :
    ∀ items : List (Place × Item),
      (putItem place item items).lookup p = if p = place then some item else items.lookup p
  | [] => by rw [putItem, lookup_cons_ite]
  | (q, i) :: rest => by
    unfold putItem
    by_cases hq : q = place
    · subst hq
      rw [if_pos rfl, lookup_cons_ite, lookup_cons_ite]
      by_cases hp : p = q <;> simp [hp]
    · rw [if_neg hq, lookup_cons_ite, lookup_cons_ite, lookup_putItem place item p rest]
      by_cases hp : p = q
      · subst hp
        simp [hq]
      · simp [hp]

theorem length_putItem (place : Place) (item : Item) :
    ∀ items : List (Place × Item), items.length ≤ (putItem place item items).length
  | [] => by simp
  | (q, i) :: rest => by
    have := length_putItem place item rest
    unfold putItem
    split
    · simp
    · simp only [List.length_cons]
      omega

theorem get?_put (d : Disk) {place : Place} (h : d.get? place ≠ some .dir) (item : Item) (p : Place) :
    (d.put place item).get? p = if p = place then some item else d.get? p := by
  unfold get?
  by_cases hp : p.isPrefixOf home
  · have : p ≠ place := by
      rintro rfl
      exact h (by simp [get?, hp])
    simp [hp, this]
  · simp [hp, put, lookup_putItem]

/-- A text that can be read is that of a file at the end of the path. -/
theorem mem_of_read {d : Disk} {path text : String} (h : d.read path = .ok text) :
    ∃ place time, d.locate path = .ok place ∧ (place, Item.file (.text text) time) ∈ d.items := by
  unfold read at h
  cases hl : d.locate path with
  | error why => simp [hl] at h
  | ok place =>
    simp only [hl] at h
    split at h <;> simp only [reduceCtorEq, Except.ok.injEq] at h
    rename_i time hg
    subst h
    unfold get? at hg
    split at hg
    · cases hg
    · obtain ⟨l₁, l₂, he, -⟩ := List.lookup_eq_some_iff.1 hg
      exact ⟨place, time, rfl, by simp [he]⟩

/-! ### Trails -/

/-- The places that following the steps of a path comes to, the end included. -/
def trailFrom (d : Disk) (place : Place) : List String → List Place
  | [] => [place]
  | name :: rest =>
    place ::
      match d.get? place with
      | some .dir =>
        match step place name with
        | .error _ => []
        | .ok next => d.trailFrom next rest
      | _ => []

/-- The places the look-up of a path comes to. -/
def trail (d : Disk) (path : String) : List Place := d.trailFrom (start path) (Path.steps path)

theorem walk_mem_trailFrom (d : Disk) {q : Place} : ∀ (steps : List String) (p : Place),
    d.walk p steps = .ok q → q ∈ d.trailFrom p steps
  | [], p, h => by
    simp only [walk, Except.ok.injEq] at h
    simp [trailFrom, h]
  | name :: rest, p, h => by
    unfold walk at h
    unfold trailFrom
    split at h
    · cases h
    · cases h
    · rename_i hdir
      cases hs : step p name with
      | error why => rw [hs] at h; cases h
      | ok next =>
        rw [hs] at h
        simp only [hdir]
        exact List.mem_cons_of_mem _ (walk_mem_trailFrom d rest next h)

theorem locate_mem_trail {d : Disk} {path : String} {q : Place} (h : d.locate path = .ok q) :
    q ∈ d.trail path := by
  unfold locate at h
  split at h
  · cases h
  · split at h
    · cases h
    · exact walk_mem_trailFrom d _ _ h

/-! ### The same directories -/

/-- The two disks have their directories in the same places. -/
def SameDirs (base d : Disk) : Prop := ∀ p, d.get? p = some .dir ↔ base.get? p = some .dir

namespace SameDirs

variable {base d : Disk} (E : SameDirs base d)
include E

theorem walk_ok_iff {q : Place} : ∀ (steps : List String) (p : Place),
    d.walk p steps = .ok q ↔ base.walk p steps = .ok q
  | [], p => by simp [walk]
  | name :: rest, p => by
    by_cases hd : base.get? p = some .dir
    · have hd' := (E p).2 hd
      unfold walk
      rw [hd, hd']
      dsimp only
      cases step p name with
      | error why => rfl
      | ok next => exact walk_ok_iff rest next
    · have hd' : d.get? p ≠ some .dir := fun h => hd ((E p).1 h)
      have stuck : ∀ e : Disk, e.get? p ≠ some .dir → e.walk p (name :: rest) ≠ .ok q := by
        intro e he h
        unfold walk at h
        split at h
        · cases h
        · cases h
        · rename_i hdir
          exact he hdir
      exact ⟨fun h => absurd h (stuck d hd'), fun h => absurd h (stuck base hd)⟩

/-- A path leads to a place on the one disk exactly if it does on the other. -/
theorem locate_ok_iff (path : String) {q : Place} :
    d.locate path = .ok q ↔ base.locate path = .ok q := by
  unfold locate
  split
  · rfl
  · split
    · rfl
    · exact E.walk_ok_iff _ _

end SameDirs

theorem SameDirs.refl (d : Disk) : SameDirs d d := fun _ => .rfl

theorem SameDirs.trans {a b d : Disk} (h : SameDirs a b) (h' : SameDirs b d) : SameDirs a d :=
  fun p => (h' p).trans (h p)

/-- A path leads to the same item if what stands at its end is the same. -/
theorem SameDirs.find?_eq {d d' : Disk} (h : SameDirs d d') {path : String}
    (hsame : ∀ place, d.locate path = .ok place → d'.get? place = d.get? place) :
    d'.find? path = d.find? path := by
  unfold find?
  cases hl : d.locate path with
  | ok place =>
    rw [(h.locate_ok_iff path).2 hl]
    exact hsame place hl
  | error why =>
    cases hl' : d'.locate path with
    | error why' => rfl
    | ok place =>
      rw [(h.locate_ok_iff path).1 hl'] at hl
      cases hl

/-- A file can be written at the end of the path. -/
def Writable (d : Disk) (path : String) : Prop :=
  ∃ place, d.locate path = .ok place ∧ d.get? place ≠ some .dir

theorem SameDirs.writable {base d : Disk} (E : SameDirs base d) {path : String}
    (h : base.Writable path) : d.Writable path := by
  obtain ⟨place, hl, hd⟩ := h
  exact ⟨place, (E.locate_ok_iff path).2 hl, fun hdir => hd ((E place).1 hdir)⟩

theorem write?_eq_put {d : Disk} {path : String} {place : Place} (hl : d.locate path = .ok place)
    (hd : d.get? place ≠ some .dir) (content : Content) (time : Nat) :
    d.write? path content time = some (d.put place (.file content time)) := by
  unfold write?
  rw [hl]
  dsimp only
  split
  · rename_i hdir
    exact absurd hdir hd
  · rfl

theorem save?_eq_put {d : Disk} {path : String} {place : Place} (hl : d.locate path = .ok place)
    (hd : d.get? place ≠ some .dir) (content : Content) :
    d.save? path content = some (d.put place (.file content d.now)).tick := by
  rw [save?, write?_eq_put hl hd, Option.map_some]

/-! ### Writing and creating files -/

/-- What is where after a file is written. -/
structure Written (d : Disk) (place : Place) (item : Item) (d' : Disk) : Prop where
  dirs : SameDirs d d'
  there : d'.get? place = some item
  elsewhere : ∀ p, p ≠ place → d'.get? p = d.get? p

theorem written_of_put {d : Disk} {place : Place} (hdir : d.get? place ≠ some .dir) (content : Content)
    (time : Nat) : Written d place (.file content time) (d.put place (.file content time)) := by
  have get := d.get?_put hdir (.file content time)
  refine ⟨fun p => ?_, by rw [get, if_pos rfl], fun p hp => by rw [get, if_neg hp]⟩
  rw [get]
  by_cases hp : p = place
  · simp [hp, hdir]
  · rw [if_neg hp]

theorem written_of_write? {d d' : Disk} {path : String} {content : Content} {time : Nat}
    (h : d.write? path content time = some d') :
    ∃ place, d.locate path = .ok place ∧ Written d place (.file content time) d' := by
  cases hl : d.locate path with
  | error why => simp [write?, hl] at h
  | ok place =>
    have hdir : d.get? place ≠ some .dir := by
      intro hg
      simp [write?, hl, hg] at h
    rw [write?_eq_put hl hdir, Option.some.injEq] at h
    subst h
    exact ⟨place, rfl, written_of_put hdir content time⟩

/-- The clock of the disk `d'` is that of `d` some files later. -/
def Later (d d' : Disk) : Prop := ∃ k, ∀ n, d'.clock n = d.clock (k + n)

theorem Later.refl (d : Disk) : Later d d := ⟨0, fun n => by rw [Nat.zero_add]⟩

theorem Later.trans {a b d : Disk} (h : Later a b) (h' : Later b d) : Later a d := by
  obtain ⟨j, hj⟩ := h
  obtain ⟨k, hk⟩ := h'
  exact ⟨j + k, fun n => by rw [hk, hj, Nat.add_assoc]⟩

/-- The clock shows a time that an earlier one was to show. -/
theorem Later.now_eq {d d' : Disk} (h : Later d d') : ∃ n, d'.now = d.clock n := by
  obtain ⟨k, hk⟩ := h
  exact ⟨k, hk 0⟩

/-- A file that is saved is written at the time that the clock shows, and then the clock goes on. -/
theorem written_of_save? {d d' : Disk} {path : String} {content : Content}
    (h : d.save? path content = some d') :
    ∃ place, d.locate path = .ok place ∧ Written d place (.file content d.now) d' ∧ Later d d' := by
  obtain ⟨e, hwrite, rfl⟩ := Option.map_eq_some_iff.1 h
  obtain ⟨place, hl, W⟩ := written_of_write? hwrite
  have hclock : e.clock = d.clock := by
    unfold write? at hwrite
    rw [hl] at hwrite
    dsimp only at hwrite
    split at hwrite <;> cases hwrite
    rfl
  refine ⟨place, hl, ⟨W.dirs, W.there, W.elsewhere⟩, 1, fun n => ?_⟩
  show e.clock (n + 1) = d.clock (1 + n)
  rw [hclock, Nat.add_comm]

/-- Saving a file makes and removes no directory. -/
theorem Writable.exists_save? {d : Disk} {path : String} (h : d.Writable path) (content : Content) :
    ∃ d', d.save? path content = some d' ∧ SameDirs d d' := by
  obtain ⟨place, hl, hd⟩ := h
  have hsave := save?_eq_put hl hd content
  obtain ⟨_, -, W, -⟩ := written_of_save? hsave
  exact ⟨_, hsave, W.dirs⟩

theorem Written.read_eq {d d' : Disk} {path text : String} {place : Place} {time : Nat}
    (W : Written d place (.file (.text text) time) d') (hl : d.locate path = .ok place) :
    d'.read path = .ok text := by
  have hl' := (W.dirs.locate_ok_iff path).2 hl
  simp [read, hl', W.there]

/-- A text that can be read is that of the file at the end of the path. -/
theorem find?_of_read {d : Disk} {path text : String} (h : d.read path = .ok text) :
    ∃ place time, d.locate path = .ok place ∧ d.get? place = some (.file (.text text) time) := by
  unfold Disk.read at h
  split at h
  · cases h
  · rename_i place hl
    split at h <;> simp only [reduceCtorEq, Except.ok.injEq] at h
    subst h
    rename_i time hget
    exact ⟨place, time, hl, hget⟩

/-- Something is at the end of a path that shows a time. -/
theorem get?_of_changed? {d : Disk} {path : String} {time : Nat} {place : Place}
    (h : d.changed? path = some time) (hl : d.locate path = .ok place) : ∃ item, d.get? place = some item := by
  cases hget : d.get? place with
  | none => simp [changed?, hl, hget] at h
  | some item => exact ⟨item, rfl⟩

/-- The disk `d'` is `d` with directories made where nothing was. -/
def Furnished (d d' : Disk) : Prop :=
  ∀ p, d'.get? p = d.get? p ∨ d.get? p = none ∧ d'.get? p = some .dir

theorem Furnished.trans {a b d : Disk} (h : Furnished a b) (h' : Furnished b d) : Furnished a d := by
  intro p
  rcases h p with hp | ⟨hnone, hdir⟩ <;> rcases h' p with hp' | ⟨hnone', hdir'⟩
  · exact .inl (hp'.trans hp)
  · exact .inr ⟨hp ▸ hnone', hdir'⟩
  · exact .inr ⟨hnone, hp'.trans hdir⟩
  · exact .inr ⟨hnone, hdir'⟩

theorem furnished_put {d : Disk} {place : Place} (h : d.get? place = none) :
    Furnished d (d.put place .dir) := by
  intro p
  rw [get?_put d (by simp [h])]
  by_cases hp : p = place
  · exact .inr ⟨hp ▸ h, if_pos hp⟩
  · exact .inl (if_neg hp)

theorem makeDirs?_furnished : ∀ (steps : List String) {d d' : Disk} {place : Place},
    d.makeDirs? place steps = some d' → Furnished d d'
  | [], d, d', place, h => by
    cases h
    exact fun _ => .inl rfl
  | name :: rest, d, d', place, h => by
    unfold makeDirs? at h
    split at h
    · cases h
    · rename_i next _
      split at h
      · cases h
      · exact makeDirs?_furnished rest h
      · rename_i hnone
        exact (furnished_put hnone).trans (makeDirs?_furnished rest h)

/-- A file is created by making directories, and then writing it. -/
theorem create?_eq_some {d d' : Disk} {path : String} {content : Content} {time : Nat}
    (h : d.create? path content time = some d') :
    ∃ d₁ place, Furnished d d₁ ∧ d₁.locate path = .ok place ∧
      Written d₁ place (.file content time) d' := by
  unfold create? at h
  obtain ⟨d₁, hmade, hwrite⟩ := Option.bind_eq_some_iff.1 h
  obtain ⟨place, hl, W⟩ := written_of_write? hwrite
  exact ⟨d₁, place, makeDirs?_furnished _ hmade, hl, W⟩

/-- A path that leads somewhere still does where all directories are kept. -/
theorem walk_of_dirs {d d' : Disk} (h : ∀ p, d.get? p = some .dir → d'.get? p = some .dir) {q : Place} :
    ∀ (steps : List String) (p : Place), d.walk p steps = .ok q → d'.walk p steps = .ok q
  | [], _, hw => hw
  | name :: rest, p, hw => by
    unfold walk at hw ⊢
    split at hw
    · cases hw
    · cases hw
    · rename_i hdir
      rw [h p hdir]
      dsimp only at hw ⊢
      cases hs : step p name with
      | error why => rw [hs] at hw; cases hw
      | ok next =>
        rw [hs] at hw
        exact walk_of_dirs h rest next hw

theorem locate_of_dirs {d d' : Disk} (h : ∀ p, d.get? p = some .dir → d'.get? p = some .dir)
    {path : String} {q : Place} (hl : d.locate path = .ok q) : d'.locate path = .ok q := by
  unfold locate at hl ⊢
  split at hl
  · cases hl
  · split at hl
    · cases hl
    · rename_i hok hpath
      rw [if_neg hok, if_neg hpath]
      exact walk_of_dirs h _ _ hl

/-! ### Grown disks -/

/-- The disk `d` is `base` with files added at places of `S`, where `base` has
nothing. -/
structure Grown (base : Disk) (S : Place → Prop) (d : Disk) : Prop where
  same : ∀ p, ¬ S p → d.get? p = base.get? p
  vacant : ∀ p, S p → base.get? p = none
  files : ∀ p, S p → d.get? p ≠ some .dir

namespace Grown

variable {base d : Disk} {S : Place → Prop} (G : Grown base S d)
include G

theorem sameDirs : SameDirs base d := by
  intro p
  by_cases hp : S p
  · simp [G.vacant p hp, G.files p hp]
  · rw [G.same p hp]

theorem locate_ok_iff (path : String) {q : Place} :
    d.locate path = .ok q ↔ base.locate path = .ok q := G.sameDirs.locate_ok_iff path

/-- A path leads to the same place on both disks, or nowhere on both. -/
theorem locate_cases (path : String) :
    (∃ place, d.locate path = .ok place ∧ base.locate path = .ok place) ∨
      ∃ why why', d.locate path = .error why ∧ base.locate path = .error why' := by
  cases hl : base.locate path with
  | ok place => exact .inl ⟨place, (G.locate_ok_iff path).2 hl, rfl⟩
  | error why' =>
    cases hl' : d.locate path with
    | error why => exact .inr ⟨why, why', rfl, rfl⟩
    | ok place =>
      rw [(G.locate_ok_iff path).1 hl'] at hl
      cases hl

theorem walk_eq : ∀ (steps : List String) (p : Place), (∀ q ∈ base.trailFrom p steps, ¬ S q) →
    d.walk p steps = base.walk p steps
  | [], p, _ => rfl
  | name :: rest, p, h => by
    have hp : ¬ S p := h p (by simp [trailFrom])
    unfold walk
    rw [G.same p hp]
    cases hg : base.get? p with
    | none => rfl
    | some item =>
      cases item with
      | file content time => rfl
      | dir =>
        dsimp only
        cases hs : step p name with
        | error why => rfl
        | ok next =>
          refine walk_eq rest next fun q hq => h q ?_
          unfold trailFrom
          simp only [hg, hs]
          exact List.mem_cons_of_mem _ hq

/-- A path whose look-up keeps clear of the new files leads nowhere for the same
reason as before. -/
theorem locate_eq {path : String} (h : ∀ q ∈ base.trail path, ¬ S q) :
    d.locate path = base.locate path := by
  unfold locate
  rw [G.walk_eq _ _ h]

theorem read_eq {path : String} (h : ∀ q ∈ base.trail path, ¬ S q) :
    d.read path = base.read path := by
  unfold read
  rw [G.locate_eq h]
  cases hl : base.locate path with
  | error why => rfl
  | ok place =>
    dsimp only
    rw [G.same place (h place (locate_mem_trail hl))]

theorem find?_eq {path : String} (h : ∀ q, S q → base.locate path ≠ .ok q) :
    d.find? path = base.find? path := by
  unfold find?
  rcases G.locate_cases path with ⟨place, hl', hl⟩ | ⟨why, why', hl', hl⟩
  · rw [hl', hl]
    exact G.same place fun hs => h place hs hl
  · rw [hl', hl]

theorem exists?_eq {path : String} (h : ∀ q, S q → base.locate path ≠ .ok q) :
    d.exists? path = base.exists? path := by
  rw [exists?, exists?, G.find?_eq h]

theorem canonical?_eq {path : String} (h : ∀ q, S q → base.locate path ≠ .ok q) :
    d.canonical? path = base.canonical? path := by
  unfold canonical?
  rcases G.locate_cases path with ⟨place, hl', hl⟩ | ⟨why, why', hl', hl⟩
  · rw [hl', hl]
    dsimp only
    rw [G.same place fun hs => h place hs hl]
  · rw [hl', hl]

/-- A file can be saved where nothing was. -/
theorem save?_eq {path : String} {place : Place} (hl : base.locate path = .ok place) (hs : S place)
    (content : Content) : d.save? path content = some (d.put place (.file content d.now)).tick :=
  save?_eq_put ((G.locate_ok_iff path).2 hl) (G.files place hs) content

end Grown
end Disk

namespace Compiler

variable {base d : Disk} {S : Place → Prop}

/-- Templates are found in the same place if none of the paths tried leads to a
new file. -/
theorem viewPath_grown (c : Compiler) (G : base.Grown S d) {path : String}
    (h : ∀ dir ∈ c.options.viewsDirs, ∀ q, S q → base.locate (Path.join dir path) ≠ .ok q) :
    c.viewPath d path = c.viewPath base path := by
  unfold viewPath
  have tried : ∀ dirs : List String, (∀ dir ∈ dirs, dir ∈ c.options.viewsDirs) →
      (dirs.map fun dir => Path.join dir path).find? d.exists? =
        (dirs.map fun dir => Path.join dir path).find? base.exists? := by
    intro dirs
    induction dirs with
    | nil => exact fun _ => rfl
    | cons dir rest ih =>
      intro hd
      have hdir := G.exists?_eq (h dir (hd dir List.mem_cons_self))
      rw [List.map_cons, List.find?_cons, List.find?_cons, hdir]
      rw [ih fun x hx => hd x (List.mem_cons_of_mem _ hx)]
  dsimp only
  rw [tried _ fun _ hd => hd]

/-- A template that is where it was is compiled to the file it was compiled to. -/
theorem compiledPath_of_there (c : Compiler) {base d : Disk} {template : String} {place : Place}
    {item item' : Item} (hl : base.locate template = .ok place) (hl' : d.locate template = .ok place)
    (h : base.get? place = some item) (h' : d.get? place = some item') (mode : Mode) :
    c.compiledPath d template mode = c.compiledPath base template mode := by
  have hspelled : d.canonical? template = base.canonical? template := by
    simp [Disk.canonical?, hl, hl', h, h']
  unfold compiledPath rootedPath flatten
  rw [hspelled]

theorem compiledPath_grown (c : Compiler) (G : base.Grown S d) {template : String}
    (h : ∀ q, S q → base.locate template ≠ .ok q) (mode : Mode) :
    c.compiledPath d template mode = c.compiledPath base template mode := by
  unfold compiledPath rootedPath flatten
  rw [G.canonical?_eq h]

end Compiler
end Stencil
