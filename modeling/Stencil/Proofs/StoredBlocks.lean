/-
# Stored block maps are read back

A block map is built by pushing segments, defining blocks and reading stored maps. Its
keys are all different, so entries that are read are filed one after another, each into a
slot of its own. The position of the next segment is not stored: it is found again from the
keys alone.

Unless a segment is at the last position, the next one comes right after the greatest there
is, and that is what reading finds. After a segment at the last position the count has
started again, which the keys do not tell: a map that is read then goes on elsewhere, and
its next segment can take the place of one that is there.

Key definitions: `BlockMap.Filed`, `BlockMap.HasRoom`, `BlockMap.Counted`, `BlockMap.Built`,
`BlockMap.nextAfter`, `Json.survives`.
Key theorems: `BlockMap.Counted.push`, `BlockMap.Counted.file`, `BlockMap.entryOf?_json`,
`BlockMap.read_text`, `BlockMap.parse?_text`.
-/
import Stencil.BlockMap.Stored
import Stencil.Proofs.BlockOrder
import Stencil.Proofs.TreeText

namespace Stencil

/-- The first position after a key; names have no position. -/
def BlockKey.after : BlockKey → Nat
  | .name _ => 0
  | .position p => p + 1

/-- The position of a key fits a word. -/
def BlockKey.Word : BlockKey → Prop
  | .name _ => True
  | .position p => p < 0x10000000000000000

namespace BlockMap

section
variable {key : BlockKey} {body : BlockBody} {entries : List (BlockKey × BlockBody)}

theorem mem_keys_put {k : BlockKey} :
    k ∈ (put key body entries).map (·.1) ↔ k ∈ entries.map (·.1) ∨ k = key := by
  by_cases hkey : key ∈ entries.map (·.1)
  · rw [keys_put hkey]
    exact ⟨.inl, fun h => h.elim id fun h => h ▸ hkey⟩
  · rw [put_eq_append hkey]
    simp

theorem nodup_put (h : (entries.map (·.1)).Nodup) : ((put key body entries).map (·.1)).Nodup := by
  by_cases hkey : key ∈ entries.map (·.1)
  · rw [keys_put hkey]
    exact h
  · rw [put_eq_append hkey, List.map_append]
    exact BlockKey.nodup_concat h hkey

end

/-! ### The next position -/

/-- Keys are different, and the next segment comes right after the last one there is. -/
structure Filed (m : BlockMap) : Prop where
  nodup : m.keys.Nodup
  after : ∀ k ∈ m.keys, k.after ≤ m.next
  next : m.next = 0 ∨ ∃ k ∈ m.keys, k.after = m.next

section
variable {m : BlockMap}

theorem Filed.empty : Filed .empty := ⟨List.nodup_nil, nofun, .inl rfl⟩

/-- An entry more, and a count that goes beyond its key. -/
theorem Filed.put (h : Filed m) (key : BlockKey) (body : BlockBody) :
    Filed ⟨put key body m.entries, max m.next key.after⟩ := by
  refine ⟨nodup_put h.nodup, fun k hk => ?_, ?_⟩
  · show k.after ≤ max m.next key.after
    rcases mem_keys_put.1 hk with hk | rfl
    · have := h.after k hk
      omega
    · exact Nat.le_max_right _ _
  · show max m.next key.after = 0 ∨ _
    by_cases hle : key.after ≤ m.next
    · rw [Nat.max_eq_left hle]
      exact h.next.imp_right fun ⟨k, hk, hafter⟩ => ⟨k, mem_keys_put.2 (.inl hk), hafter⟩
    · rw [Nat.max_eq_right (by omega)]
      exact .inr ⟨key, mem_keys_put.2 (.inr rfl), rfl⟩

theorem Filed.append (h : Filed m) (code : String) : Filed (m.append code) := by
  have hput := h.put (.position m.next) (.code code)
  rwa [BlockKey.after, Nat.max_eq_right (by omega)] at hput

theorem Filed.define (h : Filed m) (name : String) (body : BlockBody) :
    Filed (m.define name body) := by
  have hput := h.put (.name name) body
  rwa [BlockKey.after, Nat.max_zero] at hput

/-- The next segment goes to the end. -/
theorem Filed.push_entries (h : Filed m) (code : String) :
    (m.push code).entries = m.entries ++ [(.position m.next, .code code)] := by
  refine put_eq_append fun hmem => ?_
  have hafter : m.next + 1 ≤ m.next := h.after _ hmem
  omega

theorem Filed.keys_push (h : Filed m) (code : String) :
    (m.push code).keys = m.keys ++ [.position m.next] := by
  rw [keys, h.push_entries, List.map_append]
  rfl

end

/-- The position of the next segment as keys alone tell it. -/
def nextAfter (keys : List BlockKey) : Nat :=
  (keys.map fun k => k.after % 0x10000000000000000).foldr max 0

theorem nextAfter_cons (k : BlockKey) (keys : List BlockKey) :
    nextAfter (k :: keys) = max (k.after % 0x10000000000000000) (nextAfter keys) := rfl

theorem nextAfter_le {keys : List BlockKey} {n : Nat} (h : ∀ k ∈ keys, k.after ≤ n) :
    nextAfter keys ≤ n := by
  induction keys with
  | nil => exact Nat.zero_le n
  | cons k keys ih =>
    rw [List.forall_mem_cons] at h
    rw [nextAfter_cons]
    exact Nat.max_le.2 ⟨Nat.le_trans (Nat.mod_le _ _) h.1, ih h.2⟩

theorem le_nextAfter {keys : List BlockKey} {k : BlockKey} (h : k ∈ keys) :
    k.after % 0x10000000000000000 ≤ nextAfter keys := by
  induction keys with
  | nil => cases h
  | cons l keys ih =>
    rw [nextAfter_cons]
    rcases List.mem_cons.1 h with rfl | h
    · exact Nat.le_max_left _ _
    · exact Nat.le_trans (ih h) (Nat.le_max_right _ _)

/-- A count that is a word is found again. -/
theorem Filed.nextAfter_keys {m : BlockMap} (h : Filed m) (hnext : m.next < 0x10000000000000000) :
    nextAfter m.keys = m.next := by
  refine Nat.le_antisymm (nextAfter_le h.after) ?_
  rcases h.next with hzero | ⟨k, hk, hafter⟩
  · omega
  · have hle := le_nextAfter hk
    rwa [hafter, Nat.mod_eq_of_lt hnext] at hle

/-! ### Maps that count in words -/

/-- No segment is at the last position. -/
def HasRoom (m : BlockMap) : Prop := ∀ p, .position p ∈ m.keys → p < 0xffffffffffffffff

/-- What every map keeps: its keys are different, positions are words, and while there is room
the next segment comes right after the last one there is. -/
structure Counted (m : BlockMap) : Prop where
  nodup : m.keys.Nodup
  words : ∀ k ∈ m.keys, k.Word
  next : m.next < 0x10000000000000000
  filed : m.HasRoom → m.Filed

section
variable {m : BlockMap}

theorem following_of_lt {p : Nat} (h : p < 0xffffffffffffffff) : BlockKey.following p = p + 1 :=
  Nat.mod_eq_of_lt (by omega)

theorem file_eq (m : BlockMap) (key : BlockKey) (body : BlockBody) :
    m.file key body = ⟨put key body m.entries, max m.next (key.after % 0x10000000000000000)⟩ := by
  cases key <;> simp [file, BlockKey.after, BlockKey.following]

/-- Below the last position, pushing appends. -/
theorem push_eq_append (h : m.next < 0xffffffffffffffff) (code : String) :
    m.push code = m.append code := by
  rw [push, following_of_lt h]
  rfl

theorem HasRoom.of_put {key : BlockKey} {body : BlockBody} {n : Nat}
    (h : HasRoom ⟨put key body m.entries, n⟩) : m.HasRoom ∧ key.after < 0x10000000000000000 := by
  refine ⟨fun p hp => h p (mem_keys_put.2 (.inl hp)), ?_⟩
  cases key with
  | name _ => exact Nat.zero_lt_succ _
  | position p =>
    have hp : p < 0xffffffffffffffff := h p (mem_keys_put.2 (.inr rfl))
    show p + 1 < _
    omega

theorem Counted.empty : Counted .empty :=
  ⟨List.nodup_nil, nofun, Nat.zero_lt_succ _, fun _ => .empty⟩

/-- An entry under a key that is a word, and a count that goes on as it does while there is room. -/
theorem Counted.put (h : Counted m) {key : BlockKey} {body : BlockBody} {n : Nat} (hkey : key.Word)
    (hn : n < 0x10000000000000000)
    (hroom : key.after < 0x10000000000000000 → n = max m.next key.after) :
    Counted ⟨put key body m.entries, n⟩ := by
  refine ⟨nodup_put h.nodup, fun k hk => ?_, hn, fun hfree => ?_⟩
  · rcases mem_keys_put.1 hk with hk | rfl
    · exact h.words k hk
    · exact hkey
  · obtain ⟨hold, hafter⟩ := hfree.of_put
    rw [hroom hafter]
    exact (h.filed hold).put key body

theorem Counted.push (h : Counted m) (code : String) : Counted (m.push code) := by
  refine h.put h.next (Nat.mod_lt _ (Nat.zero_lt_succ _)) fun hafter => ?_
  have hlt : m.next + 1 < 0x10000000000000000 := hafter
  rw [following_of_lt (by omega), BlockKey.after, Nat.max_eq_right (by omega)]

theorem Counted.define (h : Counted m) (name : String) (body : BlockBody) :
    Counted (m.define name body) :=
  h.put trivial h.next fun _ => (Nat.max_zero _).symm

theorem Counted.file (h : Counted m) {key : BlockKey} (hkey : key.Word) (body : BlockBody) :
    Counted (m.file key body) := by
  rw [file_eq]
  refine h.put hkey (Nat.max_lt.2 ⟨h.next, Nat.mod_lt _ (Nat.zero_lt_succ _)⟩) fun hafter => ?_
  rw [Nat.mod_eq_of_lt hafter]

end

/-! ### Filing entries again -/

theorem counted_ofEntries {entries : List (BlockKey × BlockBody)} (h : ∀ e ∈ entries, e.1.Word) :
    Counted (ofEntries entries) := by
  have hfold : ∀ (entries : List (BlockKey × BlockBody)) {m : BlockMap}, (∀ e ∈ entries, e.1.Word) →
      Counted m → Counted (entries.foldl (fun m e => m.file e.1 e.2) m) := by
    intro entries
    induction entries with
    | nil => exact fun _ => id
    | cons e rest ih =>
      intro m hwords hm
      rw [List.forall_mem_cons] at hwords
      exact ih hwords.2 (hm.file hwords.1 e.2)
  exact hfold entries h .empty

/-- Reading finds the next position from the keys. -/
theorem ofEntries_next (entries : List (BlockKey × BlockBody)) :
    (ofEntries entries).next = nextAfter (entries.map (·.1)) := by
  have hfold : ∀ (entries : List (BlockKey × BlockBody)) (m : BlockMap),
      (entries.foldl (fun m e => m.file e.1 e.2) m).next =
        max m.next (nextAfter (entries.map (·.1))) := by
    intro entries
    induction entries with
    | nil => exact fun m => (Nat.max_zero _).symm
    | cons e rest ih =>
      intro m
      rw [List.foldl_cons, ih, file_eq, List.map_cons, nextAfter_cons, Nat.max_assoc]
  exact (hfold entries .empty).trans (Nat.zero_max _)

/-- Entries with different keys stay as they are. -/
theorem ofEntries_entries {entries : List (BlockKey × BlockBody)} (h : (entries.map (·.1)).Nodup) :
    (ofEntries entries).entries = entries := by
  have hfold : ∀ (entries : List (BlockKey × BlockBody)) (m : BlockMap),
      (m.keys ++ entries.map (·.1)).Nodup →
      (entries.foldl (fun m e => m.file e.1 e.2) m).entries = m.entries ++ entries := by
    intro entries
    induction entries with
    | nil => simp
    | cons e rest ih =>
      intro m hm
      obtain ⟨k, b⟩ := e
      have hk : k ∉ m.keys := fun hmem =>
        (List.nodup_append.1 hm).2.2 k hmem k (by simp) rfl
      have hentries : (m.file k b).entries = m.entries ++ [(k, b)] := by
        rw [file_eq]
        exact put_eq_append hk
      have hnodup : ((m.file k b).keys ++ rest.map (·.1)).Nodup := by
        rw [keys, hentries]
        simpa [keys] using hm
      rw [List.foldl_cons, ih _ hnodup, hentries, List.append_assoc]
      rfl
  exact hfold entries .empty h

end BlockMap

/-! ### Entries are read back -/

namespace Json

/-- The number that is read for a double is a double equal to it. -/
def survives (x : Float) : Bool :=
  match number? (doubleChars x).reverse with
  | some (.double y) => x == y
  | _ => false

theorem exists_of_survives {x : Float} (h : survives x = true) :
    number? (doubleChars x).reverse = some (.double (reread x)) ∧ (x == reread x) = true := by
  unfold survives at h
  split at h
  · rename_i y hread
    have hy : reread x = y := by rw [reread, hread]
    rw [hy]
    exact ⟨hread, h⟩
  · cases h

theorem every_kept {j : Json} (h : ∀ x, .double x ∈ j.leaves → survives x = true) :
    j.Every (Kept reread) := by
  intro leaf hleaf
  cases leaf with
  | double x => exact (exists_of_survives (h x hleaf)).2
  | _ => trivial

theorem every_readable {j : Json} (hword : j.Every Word)
    (h : ∀ x, .double x ∈ j.leaves → survives x = true) :
    j.Every Readable := by
  intro leaf hleaf
  cases leaf with
  | int n => exact hword _ hleaf
  | double x => exact ⟨_, (exists_of_survives (h x hleaf)).1⟩
  | _ => trivial

end Json

variable {f : Float → Float}

/-- A key is read back. -/
theorem BlockKey.ofMember?_member {k : BlockKey} (h : k.Word) :
    BlockKey.ofMember? (k.member.1, k.member.2.mapDoubles f) = some k := by
  cases k with
  | name n => rfl
  | position p =>
    have hp : p < 0x10000000000000000 := h
    have hint : (0 : Int) ≤ p ∧ (p : Int) < 0x10000000000000000 := by omega
    simp [member, ofMember?, Json.mapDoubles, Json.nat64?, hint]

/-- Keys that are read fit a word. -/
theorem BlockKey.word_ofMember? {k : BlockKey} {m : String × Json}
    (h : BlockKey.ofMember? m = some k) :
    k.Word := by
  cases k with
  | name n => trivial
  | position p =>
    unfold BlockKey.ofMember? at h
    split at h
    · simp at h
    · rename_i j _
      have hnat : j.nat64? = some p := by simpa using h
      cases j with
      | int n =>
        by_cases hn : 0 ≤ n ∧ n < 0x10000000000000000
        · have hp : n.toNat = p := by simpa [Json.nat64?, hn] using hnat
          show p < _
          omega
        · simp [Json.nat64?, hn] at hnat
      | _ => simp [Json.nat64?] at hnat

theorem BlockKey.Word.member {k : BlockKey} (h : k.Word) : k.member.2.Every Json.Word := by
  cases k with
  | name n => exact (Json.every_str n).2 trivial
  | position p =>
    have hp : p < 0x10000000000000000 := h
    exact (Json.every_int _).2 ⟨by omega, by omega⟩

theorem BlockBody.word_member (b : BlockBody) : b.member.2.Every Json.Word := by
  cases b with
  | nodes ns => exact Template.word_json ns
  | code c => exact (Json.every_str c).2 trivial

/-- A body is read back. -/
theorem BlockBody.ofMember?_member {b : BlockBody} (h : b.member.2.Every (Json.Kept f)) :
    ∃ b', BlockBody.ofMember? (b.member.1, b.member.2.mapDoubles f) = some b' ∧
      b.same b' = true := by
  cases b with
  | nodes ns =>
    obtain ⟨ms, hread, hsame⟩ := Template.ofJson?_json h
    exact ⟨.nodes ms, by simp [member, ofMember?, hread], hsame⟩
  | code c => exact ⟨.code c, rfl, by simp [BlockBody.same]⟩

namespace BlockMap

/-- An entry of two members is its key and its body. -/
theorem entryOf?_pair {n o : String} (hn : n = "name" ∨ n = "position")
    (ho : o = "nodes" ∨ o = "code")
    {i j : Json} {k : BlockKey} {b : BlockBody} (hk : BlockKey.ofMember? (n, i) = some k)
    (hb : BlockBody.ofMember? (o, j) = some b) :
    entryOf? (.obj [(n, i), (o, j)]) = some (k, b) := by
  rcases hn with rfl | rfl <;> rcases ho with rfl | rfl <;> simp [entryOf?, hk, hb]

/-- An entry is read back. -/
theorem entryOf?_json {k : BlockKey} {b : BlockBody} (hk : k.Word)
    (hb : b.member.2.Every (Json.Kept f)) :
    ∃ b', entryOf? ((Json.obj [k.member, b.member]).mapDoubles f) = some (k, b') ∧
      b.same b' = true := by
  obtain ⟨b', hread, hsame⟩ := BlockBody.ofMember?_member hb
  have hkey : k.member.1 = "name" ∨ k.member.1 = "position" := by cases k <;> simp [BlockKey.member]
  have hbody : b.member.1 = "nodes" ∨ b.member.1 = "code" := by cases b <;> simp [BlockBody.member]
  refine ⟨b', ?_, hsame⟩
  rw [Json.mapDoubles, Json.mapMembers, Json.mapMembers, Json.mapMembers]
  exact entryOf?_pair hkey hbody (BlockKey.ofMember?_member hk) hread

/-- Keys of entries that are read fit a word. -/
theorem word_entryOf? {j : Json} {e : BlockKey × BlockBody} (h : entryOf? j = some e) :
    e.1.Word := by
  cases j with
  | obj members =>
    simp only [entryOf?, Option.bind_eq_bind, Option.bind_eq_some_iff] at h
    obtain ⟨key, -, body, -, k, hk, b, -, heq⟩ := h
    cases heq
    exact BlockKey.word_ofMember? hk
  | _ => simp [entryOf?] at h

theorem words_of_mapM : ∀ {items : List Json} {entries : List (BlockKey × BlockBody)},
    items.mapM entryOf? = some entries → ∀ e ∈ entries, e.1.Word
  | [], _, h => by
    cases h
    exact nofun
  | j :: items, _, h => by
    simp only [List.mapM_cons, Option.bind_eq_bind, Option.bind_eq_some_iff] at h
    obtain ⟨e, he, rest, hrest, heq⟩ := h
    cases heq
    exact List.forall_mem_cons.2 ⟨word_entryOf? he, words_of_mapM hrest⟩

/-- Entries are read back in their order, each with its key. -/
theorem mapM_entryOf? : ∀ {entries : List (BlockKey × BlockBody)}, (∀ e ∈ entries, e.1.Word) →
    (∀ e ∈ entries, e.2.member.2.Every (Json.Kept f)) →
    ∃ entries',
      (Json.mapItems f (entries.map fun (k, b) => .obj [k.member, b.member])).mapM entryOf? =
      some entries' ∧ sameEntries entries entries' = true ∧ entries'.map (·.1) = entries.map (·.1)
  | [], _, _ => ⟨[], rfl, rfl, rfl⟩
  | (k, b) :: rest, hk, hb => by
    rw [List.forall_mem_cons] at hk hb
    obtain ⟨b', hentry, hsame⟩ := entryOf?_json hk.1 hb.1
    obtain ⟨rest', hread, hsames, hkeys⟩ := mapM_entryOf? hk.2 hb.2
    refine ⟨(k, b') :: rest', ?_, ?_, ?_⟩
    · rw [List.map_cons, Json.mapItems, List.mapM_cons, hentry, hread]
      rfl
    · simp [sameEntries, hsame, hsames]
    · simp [hkeys]

/-! ### Built maps -/

/-- Maps that segments, blocks and readings build. -/
inductive Built : BlockMap → Prop
  | empty : Built .empty
  | push {m : BlockMap} (code : String) (hm : Built m) : Built (m.push code)
  | define {m : BlockMap} (name : String) (body : BlockBody) (hm : Built m) :
    Built (m.define name body)
  | load {m : BlockMap} {text : String} (h : parse? text = some m) : Built m

/-- A map that is read is its entries, filed. -/
theorem exists_entries_of_parse? {text : String} {m : BlockMap} (h : parse? text = some m) :
    ∃ entries, m = ofEntries entries ∧ ∀ e ∈ entries, e.1.Word := by
  simp only [parse?, ofJson?, Option.bind_eq_some_iff, Option.map_eq_some_iff] at h
  obtain ⟨j, -, entries, hread, rfl⟩ := h
  refine ⟨entries, rfl, fun e he => ?_⟩
  cases j with
  | arr items => exact words_of_mapM hread e he
  | _ => cases hread

theorem counted_of_parse? {text : String} {m : BlockMap} (h : parse? text = some m) :
    Counted m := by
  obtain ⟨entries, rfl, hwords⟩ := exists_entries_of_parse? h
  exact counted_ofEntries hwords

theorem Built.counted {m : BlockMap} (h : Built m) : Counted m := by
  induction h with
  | empty => exact .empty
  | push code _ ih => exact ih.push code
  | define name body _ ih => exact ih.define name body
  | load h => exact counted_of_parse? h

theorem every_json {P : Json → Prop} {m : BlockMap} :
    m.json.Every P ↔ ∀ e ∈ m.entries, e.1.member.2.Every P ∧ e.2.member.2.Every P := by
  rw [json, Json.every_arr, List.forall_mem_map]
  simp

section
variable {m : BlockMap} (hwords : ∀ k ∈ m.keys, k.Word)
  (hdoubles : ∀ x, Json.double x ∈ m.json.leaves → Json.survives x = true)
include hwords hdoubles

theorem readable_json : m.json.Every Json.Readable := by
  refine Json.every_readable (every_json.2 fun e he => ?_) hdoubles
  exact ⟨(hwords e.1 (List.mem_map_of_mem he)).member, BlockBody.word_member e.2⟩

/-- A map whose keys are different words is read back from its text, up to the depth that
readers go to: the same entries in the same order, and the next position that the keys tell. -/
theorem read_text (hnodup : m.keys.Nodup) (hdepth : m.json.depth ≤ Json.maxDepth) :
    ∃ m', parse? m.text = some m' ∧ m.same m' = true ∧ m'.keys = m.keys ∧
      m'.next = nextAfter m.keys := by
  have hkept := every_json.1 (Json.every_kept hdoubles)
  have hread : Json.parse? m.text = some (m.json.mapDoubles Json.reread) :=
    Json.parse?_render hdepth (readable_json hwords hdoubles)
  obtain ⟨entries, hentries, hsame, hkeys⟩ :=
    mapM_entryOf? (fun e he => hwords e.1 (List.mem_map_of_mem he)) fun e he => (hkept e he).2
  -- The keys that are read are those of the map, so they are different and stay as they are.
  have hfiled : (ofEntries entries).entries = entries := ofEntries_entries (hkeys ▸ hnodup)
  refine ⟨ofEntries entries, ?_, ?_, ?_, ?_⟩
  · rw [parse?, hread, Option.bind_some, ofJson?, json, Json.mapDoubles, Json.list?, hentries]
    rfl
  · rw [same, hfiled]
    exact hsame
  · rw [keys, hfiled, hkeys, keys]
  · rw [ofEntries_next, hkeys, keys]

end

namespace Bistro

/-- A stored map with one segment. -/
def stored : String := "[\x7b\"position\":4,\"code\":\"<ul>\"\x7d]"

/-- What is stored. -/
def opening : BlockMap := ⟨[(.position 4, .code "<ul>")], 5⟩

/-- A body with a statement and an expression of unknown kinds, a price and text beyond ASCII. -/
def dishes : List Node :=
  [.mk .unknown ⟨none, some 7⟩, .mk (.echo (some .unknown)) ⟨some "menu", none⟩,
    .mk (.ifThen (some (.double 0.1)) [.mk (.text "Käse \"😀\"\n") ⟨none, none⟩] none) ⟨none, none⟩]

/-- The stored map with a segment and a block more. -/
def menu : BlockMap := (opening.push "</ul>").define "dishes" (.nodes dishes)

theorem built_menu : Built menu :=
  have hopening : parse? stored = some opening := by rfl
  .define _ _ (.push _ (.load hopening))

end Bistro

namespace Odometer

/-- A stored segment right before the last position. -/
def stored : String := "[\x7b\"position\":18446744073709551614,\"code\":\"a\"\x7d]"

/-- What is stored. -/
def opening : BlockMap := ⟨[(.position 18446744073709551614, .code "a")], 18446744073709551615⟩

/-- What is stored, with a segment more. -/
def map : BlockMap :=
  ⟨[(.position 18446744073709551614, .code "a"), (.position 18446744073709551615, .code "b")], 0⟩

/-- The map as it is read. -/
def again : BlockMap := { map with next := 18446744073709551615 }

end Odometer

end BlockMap
end Stencil
