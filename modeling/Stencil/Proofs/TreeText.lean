/-
# Template trees are read back

A tree that is written as JSON is read back as it was, whatever its statements and
expressions are, and whichever of their fields are missing. Only doubles may come
back changed, if the number that is read for a double is another one; so the tree that
is read is the one that was written as far as `Expr.same` and `Node.sameList` can tell.

Key definitions: `Json.Kept`.
Key theorems: `Expr.read_json`, `Expr.ofJson?_json`, `Node.read_json`, `Template.ofJson?_json`.
-/
import Stencil.Proofs.JsonText
import Stencil.Template.Decode
import Stencil.Template.Encode

namespace Stencil

namespace Json

/-- As a number, the scalar is what `f` makes of it if it is a double. -/
def Kept (f : Float → Float) : Json → Prop
  | .double x => (x == f x) = true
  | _ => True

variable {f : Float → Float}

/-- The tag of a variant, if no field has its name. -/
theorem tagged?_cons (tag : Json) {members : List (String × Json)}
    (h : ∀ m ∈ members, m.1 ≠ "type") :
    (Json.obj (("type", tag) :: members)).tagged? = some (tag, .obj members) := by
  have hnone : members.filter (·.1 == "type") = [] :=
    List.filter_eq_nil_iff.2 fun m hm => by simpa using h m hm
  have hall : members.filter (·.1 != "type") = members :=
    List.filter_eq_self.2 fun m hm => by simpa using h m hm
  simp [tagged?, member?, hnone, hall]

theorem name_of_mem_mapMembers {m : String × Json} {members : List (String × Json)}
    (h : m ∈ mapMembers f members) : ∃ m' ∈ members, m'.1 = m.1 := by
  induction members with
  | nil => cases h
  | cons m' rest ih =>
    rcases List.mem_cons.1 h with rfl | h
    · exact ⟨m', List.mem_cons_self, rfl⟩
    · obtain ⟨m', hm, hname⟩ := ih h
      exact ⟨m', List.mem_cons_of_mem _ hm, hname⟩

end Json

namespace Expr

variable {f : Float → Float}

theorem variant?_kind (kind : Kind) :
    Json.variant? Kind.all Kind.name .unknown (.str kind.name) = some kind := by
  cases kind <;> rfl

theorem read_tagged (n : Nat) (kind : Kind) {fields : List (String × Json)}
    (h : ∀ m ∈ fields, m.1 ≠ "type") :
    read (n + 1) ((tagged kind fields).mapDoubles f) =
      readFields (read n) kind (.obj (Json.mapMembers f fields)) := by
  have hfields : ∀ m ∈ Json.mapMembers f fields, m.1 ≠ "type" := by
    intro m hm
    obtain ⟨m', hm', hname⟩ := Json.name_of_mem_mapMembers hm
    exact hname ▸ h m' hm'
  show read (n + 1) (.obj (("type", .str kind.name) :: Json.mapMembers f fields)) = _
  rw [read, Json.tagged?_cons _ hfields]
  simp [variant?_kind]

@[simp] theorem depth_tagged (kind : Kind) (fields : List (String × Json)) :
    (tagged kind fields).depth = Json.depthMembers fields + 1 := by
  simp [tagged, Json.depth, Json.depthMembers]

@[simp] theorem every_tagged {P : Json → Prop} (hstr : ∀ s, P (.str s)) (kind : Kind)
    (fields : List (String × Json)) : (tagged kind fields).Every P ↔ ∀ m ∈ fields, m.2.Every P := by
  simp [tagged, hstr]

@[simp] theorem keeps_tagged (kind : Kind) (fields : List (String × Json)) :
    (tagged kind fields).Every (Json.Kept f) ↔ ∀ m ∈ fields, m.2.Every (Json.Kept f) :=
  every_tagged (fun _ => trivial) kind fields

/-- Choices are found by their names. -/
theorem choice?_binary (op : BinaryOp) :
    Json.choice? BinaryOp.all BinaryOp.name (.str op.name) = some op := by cases op <;> rfl

theorem choice?_unary (op : UnaryOp) :
    Json.choice? UnaryOp.all UnaryOp.name (.str op.name) = some op := by cases op <;> rfl

theorem int64?_toInt (v : Int64) : Json.int64? (.int v.toInt) = some v := by
  have hlow := v.le_toInt
  have hhigh := v.toInt_lt
  rw [Json.int64?, if_pos ⟨by omega, by omega⟩, Int64.ofInt_toInt]

/-- An expression is no null, which stands for a field that is missing. -/
theorem optional_json (read : Json → Option Expr) (e : Expr) :
    Json.optional read (some (e.json.mapDoubles f)) = (read (e.json.mapDoubles f)).map some := by
  cases e <;> rfl

theorem depth_json_pos (e : Expr) : 0 < e.json.depth := by
  cases e <;> simp [json]

section reading

-- Reading a record evaluates the look-up of each of its fields by name.
attribute [local simp] Json.mapDoubles Json.mapMembers Json.mapItems Json.fields? Json.member?
  Json.required Json.defaulted Json.list? Json.string? Json.bool? readFields same

mutual

/-- An expression is read back, as far as it can be told. -/
theorem read_json (f : Float → Float) : ∀ (e : Expr) (n : Nat), e.json.depth ≤ n →
    e.json.Every (Json.Kept f) → ∃ e', read n (e.json.mapDoubles f) = some e' ∧ e.same e' = true
  | e, 0, h, _ => absurd e.depth_json_pos (Nat.not_lt_of_le h)
  | .integer v, n + 1, _, _ => by
    rw [json, read_tagged _ _ (by simp)]
    simp [int64?_toInt]
  | .double v, n + 1, _, hk => by
    have hv : (v == f v) = true := by
      rw [json, keeps_tagged] at hk
      exact (Json.every_double v).1 (hk _ List.mem_cons_self)
    rw [json, read_tagged _ _ (by simp)]
    simp [Json.double?, hv]
  | .str v, n + 1, _, _ | .bool v, n + 1, _, _ | .var v, n + 1, _, _
  | .resolved v, n + 1, _, _ => by
    rw [json, read_tagged _ _ (by simp)]
    simp
  | .null, n + 1, _, _ | .unknown, n + 1, _, _ => by
    rw [json, read_tagged _ _ (by simp)]
    simp
  | .property l r, n + 1, h, hk | .index l r, n + 1, h, hk | .filter l r, n + 1, h, hk
  | .is l r, n + 1, h, hk | .isNot l r, n + 1, h, hk => by
    rw [json] at h hk
    simp only [depth_tagged, Json.depthMembers, keeps_tagged, List.forall_mem_cons] at h hk
    obtain ⟨l', hl, hsl⟩ := read_json f l n (by omega) hk.1
    obtain ⟨r', hr, hsr⟩ := read_json f r n (by omega) hk.2.1
    rw [json, read_tagged _ _ (by simp)]
    simp [hl, hr, hsl, hsr]
  | .binary op l r, n + 1, h, hk => by
    rw [json] at h hk
    simp only [depth_tagged, Json.depthMembers, keeps_tagged, List.forall_mem_cons] at h hk
    obtain ⟨l', hl, hsl⟩ := read_json f l n (by omega) hk.2.1
    obtain ⟨r', hr, hsr⟩ := read_json f r n (by omega) hk.2.2.1
    rw [json, read_tagged _ _ (by simp)]
    simp [choice?_binary, hl, hr, hsl, hsr]
  | .unary op e, n + 1, h, hk => by
    rw [json] at h hk
    simp only [depth_tagged, Json.depthMembers, keeps_tagged, List.forall_mem_cons] at h hk
    obtain ⟨e', he, hse⟩ := read_json f e n (by omega) hk.2.1
    rw [json, read_tagged _ _ (by simp)]
    simp [choice?_unary, he, hse]
  | .call c as, n + 1, h, hk => by
    rw [json] at h hk
    simp only [depth_tagged, Json.depthMembers, Json.depth, keeps_tagged, List.forall_mem_cons,
      Json.every_arr] at h hk
    obtain ⟨c', hc, hsc⟩ := read_json f c n (by omega) hk.1
    obtain ⟨bs, hbs, hsbs⟩ := read_jsonArgs f as n (by omega) hk.2.1
    rw [json, read_tagged _ _ (by simp)]
    simp [hc, hbs, hsc, hsbs]
  | .ternary c y m, n + 1, h, hk => by
    rw [json] at h hk
    simp only [depth_tagged, Json.depthMembers, keeps_tagged, List.forall_mem_cons] at h hk
    obtain ⟨c', hc, hsc⟩ := read_json f c n (by omega) hk.1
    obtain ⟨y', hy, hsy⟩ := read_json f y n (by omega) hk.2.1
    obtain ⟨m', hm, hsm⟩ := read_json f m n (by omega) hk.2.2.1
    rw [json, read_tagged _ _ (by simp)]
    simp [hc, hy, hm, hsc, hsy, hsm]
  | .slice o s e, n + 1, h, hk => by
    rw [json] at h hk
    simp only [depth_tagged, Json.depthMembers, keeps_tagged, List.forall_mem_cons] at h hk
    obtain ⟨o', ho, hso⟩ := read_json f o n (by omega) hk.1
    obtain ⟨s', hs, hss⟩ := read_jsonOption f s n (by omega) hk.2.1
    obtain ⟨e', he, hse⟩ := read_jsonOption f e n (by omega) hk.2.2.1
    rw [json, read_tagged _ _ (by simp)]
    simp [ho, hs, he, hso, hss, hse]
  | .array as, n + 1, h, hk => by
    rw [json] at h hk
    simp only [depth_tagged, Json.depthMembers, Json.depth, keeps_tagged, List.forall_mem_cons,
      Json.every_arr] at h hk
    obtain ⟨bs, hbs, hsbs⟩ := read_jsonArgs f as n (by omega) hk.1
    rw [json, read_tagged _ _ (by simp)]
    simp [hbs, hsbs]
  | .enclosed e, n + 1, h, hk => by
    rw [json] at h hk
    simp only [depth_tagged, Json.depthMembers, keeps_tagged, List.forall_mem_cons] at h hk
    obtain ⟨e', he, hse⟩ := read_json f e n (by omega) hk.1
    rw [json, read_tagged _ _ (by simp)]
    simp [he, hse]

theorem read_jsonArgs (f : Float → Float) : ∀ (as : List Arg) (n : Nat),
    Json.depthItems (jsonArgs as) ≤ n → (∀ j ∈ jsonArgs as, j.Every (Json.Kept f)) →
    ∃ bs, (Json.mapItems f (jsonArgs as)).mapM (Argument.read (read n)) = some bs ∧
      sameArgs as bs = true
  | [], _, _, _ => ⟨[], rfl, rfl⟩
  | ⟨e, name⟩ :: rest, n, h, hk => by
    simp only [jsonArgs, Json.depthItems, Json.depth, Json.depthMembers, List.forall_mem_cons,
      Json.every_obj] at h hk
    obtain ⟨e', he, hse⟩ := read_json f e n (by omega) hk.1.1
    obtain ⟨bs, hbs, hsbs⟩ := read_jsonArgs f rest n (by omega) hk.2
    have harg : Argument.read (read n) (.obj (("expr", e.json.mapDoubles f) ::
        Json.mapMembers f (Json.given "name" .str name))) = some ⟨e', name⟩ := by
      cases name <;>
        simp [Argument.read, Json.given, Json.optional, he]
    refine ⟨⟨e', name⟩ :: bs, ?_, by simp [sameArgs, hse, hsbs]⟩
    simp [jsonArgs, harg, hbs]

theorem read_jsonOption (f : Float → Float) : ∀ (e : Option Expr) (n : Nat),
    (jsonOption e).depth ≤ n → (jsonOption e).Every (Json.Kept f) →
    ∃ e', Json.optional (read n) (some ((jsonOption e).mapDoubles f)) = some e' ∧
      sameOption e e' = true
  | none, _, _, _ => ⟨none, rfl, rfl⟩
  | some e, n, h, hk => by
    obtain ⟨e', he, hse⟩ := read_json f e n h hk
    exact ⟨some e', by rw [jsonOption, optional_json, he]; rfl, hse⟩

end

end reading

/-- An optional expression is read back, as far as it can be told. -/
theorem ofJson?_jsonOption {e : Option Expr} (hk : (jsonOption e).Every (Json.Kept f)) :
    ∃ e', Json.optional ofJson? (some ((jsonOption e).mapDoubles f)) = some e' ∧
      sameOption e e' = true := by
  cases e with
  | none => exact ⟨none, rfl, rfl⟩
  | some e =>
    obtain ⟨e', he, hse⟩ := read_json f e e.json.depth (Nat.le_refl _) hk
    refine ⟨some e', ?_, hse⟩
    rw [jsonOption, optional_json, ofJson?, Json.depth_mapDoubles, he]
    rfl

theorem ofJson?_json {e : Expr} (hk : e.json.Every (Json.Kept f)) :
    ∃ e', ofJson? (e.json.mapDoubles f) = some e' ∧ e.same e' = true := by
  rw [ofJson?, Json.depth_mapDoubles]
  exact read_json f e e.json.depth (Nat.le_refl _) hk

end Expr

section
variable {f : Float → Float}

attribute [local simp] Json.mapDoubles Json.mapMembers Json.mapItems Json.fields? Json.member?
  Json.required Json.defaulted Json.given Json.string?

theorem choice?_assign (op : AssignOp) :
    Json.choice? AssignOp.all AssignOp.name (.str op.name) = some op := by cases op <;> rfl

theorem orNull_expr (e : Option Expr) : Json.orNull Expr.json e = Expr.jsonOption e := by
  cases e <;> rfl

theorem Assignment.ofJson?_json : ∀ {as : List Assignment}, (∀ a ∈ as, a.json.Every (Json.Kept f)) →
    ∃ bs, (Json.mapItems f (as.map Assignment.json)).mapM Assignment.ofJson? = some bs ∧
      Assignment.sameList as bs = true
  | [], _ => ⟨[], rfl, rfl⟩
  | a :: as, hk => by
    rw [List.forall_mem_cons, Assignment.json] at hk
    simp only [Json.every_obj, List.forall_mem_cons, orNull_expr] at hk
    obtain ⟨t, ht, hst⟩ := Expr.ofJson?_json hk.1.1
    obtain ⟨v, hv, hsv⟩ := Expr.ofJson?_jsonOption hk.1.2.2.1
    obtain ⟨bs, hbs, hsbs⟩ := Assignment.ofJson?_json hk.2
    refine ⟨⟨t, a.op, v⟩ :: bs, ?_, by simp [Assignment.sameList, hst, hsv, hsbs]⟩
    simp [Assignment.json, Assignment.ofJson?, choice?_assign, orNull_expr, ht, hv, hbs]

theorem Parameter.ofJson?_json : ∀ {ps : List Parameter}, (∀ p ∈ ps, p.json.Every (Json.Kept f)) →
    ∃ qs, (Json.mapItems f (ps.map Parameter.json)).mapM Parameter.ofJson? = some qs ∧
      Parameter.sameList ps qs = true
  | [], _ => ⟨[], rfl, rfl⟩
  | ⟨name, fallback⟩ :: ps, hk => by
    rw [List.forall_mem_cons, Parameter.json, Json.every_obj, List.forall_mem_cons] at hk
    have hfallback : (Expr.jsonOption fallback).Every (Json.Kept f) := by
      cases fallback with
      | none => exact Json.every_null.2 trivial
      | some e => exact hk.1.2 _ List.mem_cons_self
    obtain ⟨e, he, hse⟩ := Expr.ofJson?_jsonOption hfallback
    obtain ⟨qs, hqs, hsqs⟩ := Parameter.ofJson?_json hk.2
    refine ⟨⟨name, e⟩ :: qs, ?_, by simp [Parameter.sameList, hse, hsqs]⟩
    cases fallback with
    | none =>
      cases he
      simp [Parameter.json, Parameter.ofJson?, Json.optional, hqs]
    | some fallback =>
      rw [Expr.jsonOption] at he
      simp [Parameter.json, Parameter.ofJson?, he, hqs]

/-! ### Statements -/

theorem Json.mapMembers_append (f : Float → Float) (a b : List (String × Json)) :
    Json.mapMembers f (a ++ b) = Json.mapMembers f a ++ Json.mapMembers f b := by
  induction a with
  | nil => rfl
  | cons m rest ih => simp [Json.mapMembers, ih]

theorem Json.depthMembers_append (a b : List (String × Json)) :
    Json.depthMembers (a ++ b) = max (Json.depthMembers a) (Json.depthMembers b) := by
  induction a with
  | nil => simp [Json.depthMembers]
  | cons m rest ih => simp [Json.depthMembers, ih, Nat.max_assoc]

theorem Json.fields?_congr {a b : List (String × Json)} : ∀ {names : List String},
    (∀ name ∈ names, Json.member? name a = Json.member? name b) →
    (Json.obj a).fields? names = (Json.obj b).fields? names
  | [], _ => rfl
  | name :: names, h => by
    rw [List.forall_mem_cons] at h
    have ih := Json.fields?_congr h.2
    simp only [Json.fields?] at ih ⊢
    rw [List.mapM_cons, List.mapM_cons, h.1, ih]

/-- Members with other names do not matter. -/
theorem Json.fields?_append {names : List String} {a b : List (String × Json)}
    (h : ∀ m ∈ b, m.1 ∉ names) :
    (Json.obj (a ++ b)).fields? names = (Json.obj a).fields? names := by
  refine Json.fields?_congr fun name hname => ?_
  have hb : b.filter (·.1 == name) = [] := List.filter_eq_nil_iff.2 fun m hm heq =>
    h m hm (beq_iff_eq.1 heq ▸ hname)
  rw [Json.member?, List.filter_append, hb, List.append_nil, Json.member?]

theorem Json.fields?_prepend {names : List String} {a b : List (String × Json)}
    (h : ∀ m ∈ a, m.1 ∉ names) :
    (Json.obj (a ++ b)).fields? names = (Json.obj b).fields? names := by
  refine Json.fields?_congr fun name hname => ?_
  have ha : a.filter (·.1 == name) = [] := List.filter_eq_nil_iff.2 fun m hm heq =>
    h m hm (beq_iff_eq.1 heq ▸ hname)
  rw [Json.member?, List.filter_append, ha, List.nil_append, Json.member?]

/-- The members that record a place hold no doubles. -/
theorem Position.mapMembers_members (p : Position) : Json.mapMembers f p.members = p.members := by
  obtain ⟨file, line⟩ := p
  cases file <;> cases line <;> rfl

theorem Position.name_of_mem_members {p : Position} {m : String × Json} (h : m ∈ p.members) :
    m.1 = "file" ∨ m.1 = "line" := by
  obtain ⟨file, line⟩ := p
  cases file <;> cases line <;> simp_all [Position.members, Json.given]
  rcases h with rfl | rfl <;> simp

theorem Position.depthMembers_members (p : Position) : Json.depthMembers p.members = 0 := by
  obtain ⟨file, line⟩ := p
  cases file <;> cases line <;> rfl

theorem Json.optional_int {α : Type} (read : Json → Option α) (n : Int) :
    Json.optional read (some (.int n)) = (read (.int n)).map some := rfl

theorem Json.uint32?_toNat (l : UInt32) : Json.uint32? (.int l.toNat) = some l := by
  have hfits : (0 : Int) ≤ l.toNat ∧ (l.toNat : Int) < 0x100000000 := by
    have hl := l.toNat_lt
    omega
  rw [Json.uint32?, if_pos hfits]
  simp

theorem Position.ofJson?_line {j : Json} {l : UInt32} (file : Option String)
    (h : Json.optional Json.uint32? (some j) = some (some l)) :
    Position.ofJson? (.obj (Json.given "file" .str file ++ [("line", j)])) =
      some ⟨file, some l⟩ := by
  cases file <;> simp [Position.ofJson?, Json.given, Json.fields?, Json.member?, h] <;> rfl

/-- A place is read back. -/
theorem Position.ofJson?_members (p : Position) : Position.ofJson? (.obj p.members) = some p := by
  obtain ⟨file, line⟩ := p
  cases line with
  | none =>
    cases file <;>
      simp [Position.ofJson?, Position.members, Json.given, Json.fields?, Json.member?,
        Json.optional, Json.string?]
  | some l =>
    have hline : Json.optional Json.uint32? (some (.int l.toNat)) = some (some l) := by
      rw [Json.optional_int, Json.uint32?_toNat]
      rfl
    exact Position.ofJson?_line file hline

/-- A place beside the fields of a statement is not one of them. -/
theorem Stmt.readFields_beside (node : Json → Option Node) (kind : Stmt.Kind)
    (members : List (String × Json)) (p : Position) :
    Stmt.readFields node kind (.obj (members ++ p.members)) =
      Stmt.readFields node kind (.obj members) := by
  have hbeside : ∀ {names : List String}, "file" ∉ names → "line" ∉ names →
      (Json.obj (members ++ p.members)).fields? names = (Json.obj members).fields? names := by
    intro names hfile hline
    refine Json.fields?_append fun m hm => ?_
    rcases Position.name_of_mem_members hm with h | h <;> rw [h] <;> assumption
  cases kind <;> simp only [Stmt.readFields] <;> rw [hbeside (by decide) (by decide)]

theorem Json.optional_string (name : Option String) :
    Json.optional Json.string? (some ((Json.orNull .str name).mapDoubles f)) = some name := by
  cases name <;> rfl

theorem Json.optional_bool (b : Option Bool) :
    Json.optional Json.bool? (some ((Json.orNull .bool b).mapDoubles f)) = some b := by
  cases b <;> rfl

theorem Stmt.variant?_kind (kind : Stmt.Kind) :
    Json.variant? Stmt.Kind.all Stmt.Kind.name .unknown (.str kind.name) = some kind := by
  cases kind <;> rfl

/-- The fields of a statement are called neither by the name of the tag nor by those of
its place. -/
theorem Stmt.name_of_mem_members {s : Stmt} {m : String × Json} (h : m ∈ s.members) :
    m.1 ≠ "type" ∧ m.1 ∉ ["file", "line"] := by
  have hall : s.members.all (fun m => m.1 != "type" && !(["file", "line"].contains m.1)) =
      true := by
    cases s <;> rfl
  simpa using List.all_eq_true.1 hall m h

theorem Node.read_mk (n : Nat) (s : Stmt) (p : Position) :
    Node.read (n + 1) ((Node.mk s p).json.mapDoubles f) =
      (Stmt.readFields (Node.read n) s.kind (.obj (Json.mapMembers f s.members))).map
      (.mk · p) := by
  have hjson : (Node.mk s p).json.mapDoubles f =
      .obj (("type", .str s.kind.name) :: (Json.mapMembers f s.members ++ p.members)) := by
    rw [Node.json, List.cons_append, Json.mapDoubles, Json.mapMembers, Json.mapMembers_append,
      Position.mapMembers_members]
    rfl
  have hnames : ∀ m ∈ Json.mapMembers f s.members, m.1 ≠ "type" ∧ m.1 ∉ ["file", "line"] := by
    intro m hm
    obtain ⟨m', hm', hname⟩ := Json.name_of_mem_mapMembers hm
    exact hname ▸ Stmt.name_of_mem_members hm'
  have htag : ∀ m ∈ Json.mapMembers f s.members ++ p.members, m.1 ≠ "type" := by
    intro m hm
    rcases List.mem_append.1 hm with hm | hm
    · exact (hnames m hm).1
    · rcases Position.name_of_mem_members hm with h | h <;> rw [h] <;> decide
  have hplace : Position.ofJson? (.obj (Json.mapMembers f s.members ++ p.members)) = some p := by
    rw [← Position.ofJson?_members p, Position.ofJson?, Position.ofJson?,
      Json.fields?_prepend fun m hm => (hnames m hm).2]
  rw [hjson, Node.read, Json.tagged?_cons _ htag]
  simp only [Option.bind_eq_bind, Option.bind_some, Stmt.variant?_kind, Stmt.readFields_beside,
    hplace]
  cases Stmt.readFields (Node.read n) s.kind (.obj (Json.mapMembers f s.members)) <;> rfl

end

section reading

attribute [local simp] Json.mapDoubles Json.mapMembers Json.mapItems Json.fields? Json.member?
  Json.required Json.defaulted Json.list? Json.string? Stmt.members Stmt.kind Stmt.readFields
  Stmt.same Node.jsonList Node.jsonOption Node.sameList Node.sameOption

mutual

/-- The fields of a statement are read back, as far as it can be told. -/
theorem Stmt.read_members (f : Float → Float) : ∀ (s : Stmt) (n : Nat),
    Json.depthMembers s.members ≤ n → (∀ m ∈ s.members, m.2.Every (Json.Kept f)) →
    ∃ s', Stmt.readFields (Node.read n) s.kind (.obj (Json.mapMembers f s.members)) = some s' ∧
      s.same s' = true
  | .text v, n, _, _ => by
    simp
  | .echo e, n, _, hk | .elseIf e, n, _, hk | .caseOf e, n, _, hk | .extending e, n, _, hk
  | .evaluate e, n, _, hk | .returning e, n, _, hk => by
    obtain ⟨e', he, hse⟩ := Expr.ofJson?_jsonOption (hk _ List.mem_cons_self)
    simp [he, hse]
  | .ifThen c b e, n, h, hk => by
    simp only [Stmt.members, Json.depthMembers, Json.depth, List.forall_mem_cons,
      Json.every_arr] at h hk
    obtain ⟨c', hc, hsc⟩ := Expr.ofJson?_jsonOption hk.1
    obtain ⟨b', hb, hsb⟩ := Node.read_jsonList f b n (by omega) hk.2.1
    obtain ⟨e', he, hse⟩ := Node.read_jsonOption f e n (by omega) hk.2.2.1
    simp [hc, hb, he, hsc, hsb, hse]
  | .switchOn e b, n, h, hk => by
    simp only [Stmt.members, Json.depthMembers, Json.depth, List.forall_mem_cons,
      Json.every_arr] at h hk
    obtain ⟨e', he, hse⟩ := Expr.ofJson?_jsonOption hk.1
    obtain ⟨b', hb, hsb⟩ := Node.read_jsonList f b n (by omega) hk.2.1
    simp [he, hb, hse, hsb]
  | .caseDefault, n, _, _ | .forElse, n, _, _ | .continueLoop, n, _, _ | .breakLoop, n, _, _
  | .unknown, n, _, _ => by
    simp
  | .forIn t k i g b, n, h, hk => by
    simp only [Stmt.members, Json.depthMembers, Json.depth, List.forall_mem_cons,
      Json.every_arr] at h hk
    obtain ⟨i', hi, hsi⟩ := Expr.ofJson?_jsonOption hk.2.2.1
    obtain ⟨g', hg, hsg⟩ := Expr.ofJson?_jsonOption hk.2.2.2.1
    obtain ⟨b', hb, hsb⟩ := Node.read_jsonList f b n (by omega) hk.2.2.2.2.1
    simp [Json.optional_string, hi, hg, hb, hsi, hsg, hsb]
  | .assign as, n, _, hk => by
    simp only [Stmt.members, List.forall_mem_cons, Json.every_arr, List.forall_mem_map] at hk
    obtain ⟨bs, hbs, hsbs⟩ := Assignment.ofJson?_json hk.1
    simp [hbs, hsbs]
  | .block m b, n, h, hk => by
    simp only [Stmt.members, Json.depthMembers, Json.depth, List.forall_mem_cons,
      Json.every_arr] at h hk
    obtain ⟨b', hb, hsb⟩ := Node.read_jsonList f b n (by omega) hk.2.1
    simp [hb, hsb]
  | .including p a, n, _, hk => by
    simp only [Stmt.members, List.forall_mem_cons] at hk
    obtain ⟨p', hp, hsp⟩ := Expr.ofJson?_jsonOption hk.1
    obtain ⟨a', ha, hsa⟩ := Expr.ofJson?_jsonOption hk.2.1
    simp [hp, ha, hsp, hsa]
  | .macroDef m p b, n, h, hk => by
    simp only [Stmt.members, Json.depthMembers, Json.depth, List.forall_mem_cons, Json.every_arr,
      List.forall_mem_map] at h hk
    obtain ⟨p', hp, hsp⟩ := Parameter.ofJson?_json hk.2.1
    obtain ⟨b', hb, hsb⟩ := Node.read_jsonList f b n (by omega) hk.2.2.1
    simp [hp, hb, hsp, hsb]
  | .autoescape e b, n, h, hk => by
    simp only [Stmt.members, Json.depthMembers, Json.depth, List.forall_mem_cons,
      Json.every_arr] at h hk
    obtain ⟨b', hb, hsb⟩ := Node.read_jsonList f b n (by omega) hk.2.1
    simp [Json.optional_bool, hb, hsb]
  | .cached k l b, n, h, hk => by
    simp only [Stmt.members, Json.depthMembers, Json.depth, List.forall_mem_cons,
      Json.every_arr] at h hk
    obtain ⟨k', hk', hsk⟩ := Expr.ofJson?_jsonOption hk.1
    obtain ⟨l', hl, hsl⟩ := Expr.ofJson?_jsonOption hk.2.1
    obtain ⟨b', hb, hsb⟩ := Node.read_jsonList f b n (by omega) hk.2.2.1
    simp [hk', hl, hb, hsk, hsl, hsb]

/-- A node is read back, as far as it can be told. -/
theorem Node.read_json (f : Float → Float) : ∀ (node : Node) (n : Nat), node.json.depth ≤ n →
    node.json.Every (Json.Kept f) → ∃ node', Node.read n (node.json.mapDoubles f) = some node' ∧
      node.same node' = true
  | .mk s p, n, h, hk => by
    rw [Node.json, List.cons_append] at h hk
    rw [Json.depth, Json.depthMembers, Json.depthMembers_append] at h
    rw [Json.every_obj, List.forall_mem_cons, List.forall_mem_append] at hk
    obtain ⟨n, rfl⟩ : ∃ m, n = m + 1 := ⟨n - 1, by omega⟩
    obtain ⟨s', hs, hss⟩ := Stmt.read_members f s n (by omega) hk.2.1
    exact ⟨.mk s' p, by rw [Node.read_mk, hs]; rfl, by simp [Node.same, hss]⟩

theorem Node.read_jsonList (f : Float → Float) : ∀ (ns : List Node) (n : Nat),
    Json.depthItems (Node.jsonList ns) ≤ n → (∀ j ∈ Node.jsonList ns, j.Every (Json.Kept f)) →
    ∃ ms, (Json.mapItems f (Node.jsonList ns)).mapM (Node.read n) = some ms ∧
      Node.sameList ns ms = true
  | [], _, _, _ => ⟨[], rfl, by simp⟩
  | node :: ns, n, h, hk => by
    simp only [Node.jsonList, Json.depthItems, List.forall_mem_cons] at h hk
    obtain ⟨node', hnode, hsnode⟩ := Node.read_json f node n (by omega) hk.1
    obtain ⟨ms, hms, hsms⟩ := Node.read_jsonList f ns n (by omega) hk.2
    refine ⟨node' :: ms, ?_, by simp [hsnode, hsms]⟩
    simp [hnode, hms]

theorem Node.read_jsonOption (f : Float → Float) : ∀ (ns : Option (List Node)) (n : Nat),
    (Node.jsonOption ns).depth ≤ n → (Node.jsonOption ns).Every (Json.Kept f) →
    ∃ ms, Json.optional (Json.list? (Node.read n)) (some ((Node.jsonOption ns).mapDoubles f)) =
      some ms ∧
      Node.sameOption ns ms = true
  | none, _, _, _ => ⟨none, rfl, by simp⟩
  | some ns, n, h, hk => by
    rw [Node.jsonOption, Json.every_arr] at hk
    rw [Node.jsonOption, Json.depth] at h
    obtain ⟨ms, hms, hsms⟩ := Node.read_jsonList f ns n (by omega) hk
    refine ⟨some ms, ?_, by simp [hsms]⟩
    simp [Json.optional, hms]

end

end reading

/-- A template is read back, as far as it can be told. -/
theorem Template.ofJson?_json {f : Float → Float} : ∀ {ns : List Node},
    (Template.json ns).Every (Json.Kept f) →
    ∃ ms, Template.ofJson? ((Template.json ns).mapDoubles f) = some ms ∧ Node.sameList ns ms = true
  | [], _ => ⟨[], rfl, by simp [Node.sameList]⟩
  | node :: ns, hk => by
    rw [Template.json, Json.every_arr, Node.jsonList, List.forall_mem_cons] at hk
    obtain ⟨node', hnode, hsnode⟩ := Node.read_json f node node.json.depth (Nat.le_refl _) hk.1
    obtain ⟨ms, hms, hsms⟩ := Template.ofJson?_json ((Json.every_arr _).2 hk.2)
    have hread : Node.ofJson? (node.json.mapDoubles f) = some node' := by
      rw [Node.ofJson?, Json.depth_mapDoubles, hnode]
    have hrest : (Json.mapItems f (Node.jsonList ns)).mapM Node.ofJson? = some ms := hms
    refine ⟨node' :: ms, ?_, by simp [Node.sameList, hsnode, hsms]⟩
    show (node.json.mapDoubles f :: Json.mapItems f (Node.jsonList ns)).mapM Node.ofJson? = _
    simp [hread, hrest]

/-! ### Integers -/

/-- An integer has 64 bits, with a sign or without. -/
def Json.Word : Json → Prop
  | .int n => -0x8000000000000000 ≤ n ∧ n ≤ 0xffffffffffffffff
  | _ => True

section
open Json (Word)

theorem Json.word_str (s : String) : Word (.str s) := trivial

theorem Json.word_given (name : String) (s : Option String) :
    ∀ m ∈ Json.given name .str s, m.2.Every Word := by
  cases s with
  | none => exact nofun
  | some s => simp [Json.given, Json.word_str]

mutual

theorem Expr.word_json : ∀ e : Expr, e.json.Every Word
  | .integer v => by
    have hlow := v.le_toInt
    have hhigh := v.toInt_lt
    have hword : Word (.int v.toInt) := ⟨by omega, by omega⟩
    simp [Expr.json, Json.word_str, hword]
  | .double _ | .str _ | .bool _ | .null | .var _ | .resolved _ | .unknown => by
    simp [Expr.json, Expr.tagged, Word]
  | .property l r | .index l r | .filter l r | .is l r | .isNot l r | .binary _ l r => by
    simp [Expr.json, Json.word_str, Expr.word_json l, Expr.word_json r]
  | .unary _ e | .enclosed e => by
    simp [Expr.json, Json.word_str, Expr.word_json e]
  | .call c as => by
    simpa [Expr.json, Json.word_str, Expr.word_json c] using Expr.word_jsonArgs as
  | .ternary c y n => by
    simp [Expr.json, Json.word_str, Expr.word_json c, Expr.word_json y, Expr.word_json n]
  | .slice o s e => by
    simp [Expr.json, Json.word_str, Expr.word_json o, Expr.word_jsonOption s,
      Expr.word_jsonOption e]
  | .array as => by simpa [Expr.json, Json.word_str] using Expr.word_jsonArgs as

theorem Expr.word_jsonArgs : ∀ as : List Arg, ∀ j ∈ Expr.jsonArgs as, j.Every Word
  | [] => nofun
  | ⟨e, name⟩ :: rest => by
    have hname := Json.word_given "name" name
    rw [Expr.jsonArgs, List.forall_mem_cons, Json.every_obj, List.forall_mem_cons]
    exact ⟨⟨Expr.word_json e, hname⟩, Expr.word_jsonArgs rest⟩

theorem Expr.word_jsonOption : ∀ e : Option Expr, (Expr.jsonOption e).Every Word
  | none => Json.every_null.2 trivial
  | some e => Expr.word_json e

end

theorem Assignment.word_json (a : Assignment) : a.json.Every Word := by
  simp [Assignment.json, orNull_expr, Json.word_str, Expr.word_json, Expr.word_jsonOption]

theorem Parameter.word_json (p : Parameter) : p.json.Every Word := by
  obtain ⟨name, fallback⟩ := p
  cases fallback <;> simp [Parameter.json, Json.given, Json.word_str, Expr.word_json]

theorem Position.word_members (p : Position) : ∀ m ∈ p.members, m.2.Every Word := by
  obtain ⟨file, line⟩ := p
  rw [Position.members, List.forall_mem_append]
  refine ⟨Json.word_given "file" file, ?_⟩
  cases line with
  | none => exact nofun
  | some l =>
    have hl := l.toNat_lt
    have hword : Word (.int l.toNat) := ⟨by omega, by omega⟩
    simp [Json.given, hword]

mutual

theorem Stmt.word_members : ∀ s : Stmt, ∀ m ∈ s.members, m.2.Every Word
  | .text _ | .caseDefault | .forElse | .continueLoop | .breakLoop | .unknown => by
    simp [Stmt.members, Json.word_str]
  | .echo e | .elseIf e | .caseOf e | .extending e | .evaluate e | .returning e => by
    simp [Stmt.members, Expr.word_jsonOption]
  | .ifThen c b e => by
    simpa [Stmt.members, Expr.word_jsonOption] using ⟨Node.word_jsonList b, Node.word_jsonOption e⟩
  | .switchOn e b => by simpa [Stmt.members, Expr.word_jsonOption] using Node.word_jsonList b
  | .forIn t k i g b => by
    have hkey : (Json.orNull .str k).Every Word := by cases k <;> simp [Json.orNull, Word]
    simpa [Stmt.members, Expr.word_jsonOption, Json.word_str, hkey] using Node.word_jsonList b
  | .assign as => by simp [Stmt.members, Assignment.word_json]
  | .block n b => by simpa [Stmt.members, Json.word_str] using Node.word_jsonList b
  | .including p a => by simp [Stmt.members, Expr.word_jsonOption]
  | .macroDef n p b => by
    simpa [Stmt.members, Json.word_str, Parameter.word_json] using Node.word_jsonList b
  | .autoescape e b => by
    have henabled : (Json.orNull .bool e).Every Word := by cases e <;> simp [Json.orNull, Word]
    simpa [Stmt.members, henabled] using Node.word_jsonList b
  | .cached k l b => by simpa [Stmt.members, Expr.word_jsonOption] using Node.word_jsonList b

theorem Node.word_jsonList : ∀ ns : List Node, ∀ j ∈ Node.jsonList ns, j.Every Word
  | [] => nofun
  | .mk s p :: rest => by
    rw [Node.jsonList, List.forall_mem_cons]
    refine ⟨?_, Node.word_jsonList rest⟩
    rw [Node.json, Json.every_obj, List.cons_append, List.forall_mem_cons, List.forall_mem_append]
    exact ⟨(Json.every_str _).2 trivial, Stmt.word_members s, p.word_members⟩

theorem Node.word_jsonOption : ∀ ns : Option (List Node), (Node.jsonOption ns).Every Word
  | none => Json.every_null.2 trivial
  | some ns => (Json.every_arr _).2 (Node.word_jsonList ns)

end

/-- The integers of a template are words. -/
theorem Template.word_json (ns : List Node) : (Template.json ns).Every Word :=
  (Json.every_arr _).2 (Node.word_jsonList ns)

end
end Stencil
