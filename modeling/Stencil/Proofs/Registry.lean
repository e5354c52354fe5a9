/-
# Block maps under edits

A block map is edited by pushing segments, defining blocks, reading a stored map in its place and
starting anew. The position of the next segment is kept beside the entries and never looked up
among them, and a stored map may have its positions in any order, with gaps and repetitions. Still,
while no segment is at the last position, the next one is right after the greatest there is: that
is what one edit keeps (`Counted.edit`), and so a segment does not land on an entry that is there.

A stored map that repeats keys is read entry by entry. A key stays where it came first, and what
came last under it is its body.

Key definitions: `BlockMap.Edit`, `BlockMap.edit`, `BlockMap.edited`, `BlockMap.stored?`.
Key theorems: `BlockMap.Counted.edit`, `BlockMap.Filed.next_eq_max`, `BlockMap.keys_ofEntries`,
`BlockMap.get?_ofEntries`, `BlockMap.edited_in_order`.
-/
import Mathlib.Data.List.Basic
import Mathlib.Data.List.Induction
import Stencil.Proofs.StoredBlocks

namespace Stencil
namespace BlockMap

/-- A change of a block map. -/
inductive Edit where
  | push (code : String)
  | define (name : String) (body : BlockBody)
  /-- Read a stored map in place of this one. -/
  | load (text : String)
  | clear

/-- The map after an edit. A text that is no stored map changes nothing. -/
def edit (m : BlockMap) : Edit → BlockMap
  | .push code => m.push code
  | .define name body => m.define name body
  | .load text => (parse? text).getD m
  | .clear => empty

/-- The map after edits of an empty one. -/
def edited (edits : List Edit) : BlockMap := edits.foldl edit empty

/-- The entries that a text stores, as they come. -/
def stored? (text : String) : Option (List (BlockKey × BlockBody)) :=
  (Json.parse? text).bind (Json.list? entryOf?)

theorem parse?_eq_map (text : String) : parse? text = (stored? text).map ofEntries := by
  unfold parse? stored?
  cases Json.parse? text <;> rfl

/-! ### What an edit keeps -/

/-- An edit keeps keys different and the next position right. -/
theorem Counted.edit {m : BlockMap} (h : Counted m) (e : Edit) : Counted (m.edit e) := by
  cases e with
  | push code => exact h.push code
  | define name body => exact h.define name body
  | load text =>
    rw [BlockMap.edit]
    cases hparse : parse? text with
    | none => exact h
    | some m' => exact counted_of_parse? hparse
  | clear => exact .empty

theorem counted_edited (edits : List Edit) : Counted (edited edits) := by
  have hrun : ∀ (edits : List Edit) {m : BlockMap}, Counted m →
      Counted (edits.foldl BlockMap.edit m) := by
    intro edits
    induction edits with
    | nil => exact id
    | cons e edits ih => exact fun hm => ih (hm.edit e)
  exact hrun edits .empty

/-! ### What an edit does -/

section
variable {m : BlockMap}

theorem Filed.lt_next (h : Filed m) {p : Nat} (hp : .position p ∈ m.keys) : p < m.next :=
  h.after _ hp

/-- The next position is zero, or comes right after one that is there. -/
theorem Filed.next_cases (h : Filed m) :
    m.next = 0 ∨ ∃ p, .position p ∈ m.keys ∧ p + 1 = m.next := by
  rcases h.next with hzero | ⟨k, hk, hafter⟩
  · exact .inl hzero
  · cases k with
    | name n => exact .inl hafter.symm
    | position p => exact .inr ⟨p, hk, hafter⟩

/-- The next position is one more than the greatest, or zero. -/
theorem Filed.next_eq_max (h : Filed m) :
    m.next = (BlockKey.positions m.keys).max?.elim 0 (· + 1) := by
  cases hmax : (BlockKey.positions m.keys).max? with
  | none =>
    rcases h.next_cases with hzero | ⟨p, hp, -⟩
    · exact hzero
    · have hmem := BlockKey.mem_positions.2 hp
      rw [List.max?_eq_none_iff.1 hmax] at hmem
      cases hmem
  | some p =>
    obtain ⟨hp, hle⟩ := List.max?_eq_some_iff.1 hmax
    have hlt := h.lt_next (BlockKey.mem_positions.1 hp)
    show m.next = p + 1
    rcases h.next_cases with hzero | ⟨q, hq, hafter⟩
    · omega
    · have := hle q (BlockKey.mem_positions.2 hq)
      omega

/-- A key that is there keeps its slot, and only its body changes. -/
theorem put_eq_replace {key : BlockKey} {body : BlockBody} {entries : List (BlockKey × BlockBody)}
    (h : key ∈ entries.map (·.1)) :
    ∃ before old after, entries = before ++ (key, old) :: after ∧
      put key body entries = before ++ (key, body) :: after := by
  induction entries with
  | nil => cases h
  | cons e rest ih =>
    obtain ⟨k, b⟩ := e
    by_cases hk : k = key
    · subst hk
      exact ⟨[], b, rest, rfl, by rw [put, if_pos rfl]; rfl⟩
    · have hrest : key ∈ rest.map (·.1) := (List.mem_cons.1 h).resolve_left fun he => hk he.symm
      obtain ⟨before, old, after, rfl, hput⟩ := ih hrest
      exact ⟨(k, b) :: before, old, after, rfl, by rw [put, if_neg hk, hput]; rfl⟩

end

/-! ### Stored maps that repeat keys -/

theorem ofEntries_concat (items : List (BlockKey × BlockBody)) (key : BlockKey) (body : BlockBody) :
    ofEntries (items ++ [(key, body)]) = (ofEntries items).file key body := by
  unfold ofEntries
  rw [List.foldl_append]
  rfl

/-- Keys are in the order in which they come first. -/
theorem keys_ofEntries (items : List (BlockKey × BlockBody)) :
    (ofEntries items).keys = (items.map (·.1)).eraseDups := by
  induction items using List.reverseRecOn with
  | nil => rfl
  | append_singleton items e ih =>
    obtain ⟨key, body⟩ := e
    have hkeys : (ofEntries (items ++ [(key, body)])).keys =
        (put key body (ofEntries items).entries).map (·.1) := by
      rw [ofEntries_concat, file_eq]
      rfl
    rw [hkeys, List.map_append, List.eraseDups_append, ← ih]
    by_cases hkey : key ∈ (ofEntries items).keys
    · have hold : key ∈ items.map (·.1) := by rwa [ih, List.mem_eraseDups] at hkey
      rw [keys_put hkey]
      simp [List.removeAll, hold, keys]
    · have hnew : key ∉ items.map (·.1) := by rwa [ih, List.mem_eraseDups] at hkey
      rw [put_eq_append hkey, List.map_append]
      simp [List.removeAll, hnew, keys, List.eraseDups_cons]

/-- The last body under a key counts. -/
theorem get?_ofEntries (items : List (BlockKey × BlockBody)) (key : BlockKey) :
    (ofEntries items).get? key = items.reverse.lookup key := by
  induction items using List.reverseRecOn with
  | nil => rfl
  | append_singleton items e ih =>
    obtain ⟨k, body⟩ := e
    rw [ofEntries_concat, file_eq, List.reverse_append, get?]
    show (put k body (ofEntries items).entries).lookup key = ((k, body) :: items.reverse).lookup key
    rw [lookup_put, lookup_cons_ite, ← ih, get?]

/-- A map whose keys are different is its keys with their bodies. -/
theorem entries_eq_of_nodup {m : BlockMap} (h : m.keys.Nodup) :
    m.entries = m.keys.filterMap fun key => (m.get? key).map fun body => (key, body) := by
  have hfound : ∀ e ∈ m.entries, (m.get? e.1).map (fun body => (e.1, body)) = some e := by
    rintro ⟨key, body⟩ he
    rw [get?_of_mem h he]
    rfl
  rw [keys, List.filterMap_map]
  exact ((List.filterMap_congr hfound).trans List.filterMap_some).symm

/-- **Block maps stay in order.** After any edits keys are different, and positions and the next one
are words. If no position there is the last one, the next is after every position there is: one more
than the greatest, or zero. So a segment becomes a new last entry and changes no other. A block that
is defined again changes its own body only, and any other block goes to the end. A text that stores
no map changes nothing, and one that does gives each of its keys, where it comes first, with the
body that comes last. -/
theorem edited_in_order (edits : List Edit) :
    let m := edited edits
    m.keys.Nodup ∧
    ((∀ k ∈ m.keys, k.Word) ∧ (BlockKey.position m.next).Word) ∧
    (m.HasRoom →
      (∀ p, .position p ∈ m.keys → p < m.next) ∧
      m.next = (BlockKey.positions m.keys).max?.elim 0 (· + 1) ∧
      ∀ code, (m.edit (.push code)).entries = m.entries ++ [(.position m.next, .code code)] ∧
        (m.edit (.push code)).size = m.size + 1) ∧
    (∀ name body, .name name ∈ m.keys →
      ∃ before old after, m.entries = before ++ (.name name, old) :: after ∧
      (m.edit (.define name body)).entries = before ++ (.name name, body) :: after) ∧
    (∀ name body, .name name ∉ m.keys →
      (m.edit (.define name body)).entries = m.entries ++ [(.name name, body)]) ∧
    (∀ text, stored? text = none → m.edit (.load text) = m) ∧
    ∀ text items, stored? text = some items →
      (m.edit (.load text)).keys = (items.map (·.1)).eraseDups ∧
      (m.edit (.load text)).entries = (items.map (·.1)).eraseDups.filterMap fun key =>
        (items.reverse.lookup key).map fun body => (key, body) := by
  intro m
  have hm : Counted m := counted_edited edits
  refine ⟨hm.nodup, ⟨hm.words, hm.next⟩, fun hroom => ?_,
    fun name body hname => put_eq_replace hname,
    fun name body hname => put_eq_append hname, fun text htext => ?_, fun text items htext => ?_⟩
  · have hfiled := hm.filed hroom
    refine ⟨fun p hp => hfiled.lt_next hp, hfiled.next_eq_max,
      fun code => ⟨hfiled.push_entries code, ?_⟩⟩
    show (m.push code).size = m.size + 1
    rw [size, hfiled.push_entries, List.length_append]
    rfl
  · rw [edit, parse?_eq_map, htext]
    rfl
  · have hparse : parse? text = some (ofEntries items) := by
      rw [parse?_eq_map, htext, Option.map_some]
    rw [edit, hparse, Option.getD_some]
    refine ⟨keys_ofEntries items, ?_⟩
    rw [entries_eq_of_nodup (counted_of_parse? hparse).nodup, keys_ofEntries]
    simp only [get?_ofEntries]

namespace Ledger

/-- Positions out of order and with a gap, one of them twice. -/
def stored : String :=
  "[\x7b\"position\":6,\"code\":\"a\"\x7d,\x7b\"position\":2,\"code\":\"b\"\x7d,\x7b\"position\":6,\"code\":\"c\"\x7d]"

/-- The JSON value of the stored map. -/
def value : Json :=
  .arr [.obj [("position", .int 6), ("code", .str "a")],
    .obj [("position", .int 2), ("code", .str "b")],
    .obj [("position", .int 6), ("code", .str "c")]]

theorem stored_eq :
    stored? stored = some [(.position 6, .code "a"), (.position 2, .code "b"),
      (.position 6, .code "c")] := by
  have hvalue : Json.parse? stored = some value := by rfl
  rw [stored?, hvalue]
  rfl

/-- A segment that is dropped, the stored map, and then a segment, a text that stores no map, and a
block twice. -/
def edits : List Edit :=
  [.push "x", .clear, .load stored, .push "y", .load "[", .define "n" (.code "z"),
    .define "n" (.code "w")]

/-- The map after the edits. -/
def map : BlockMap :=
  ⟨[(.position 6, .code "c"), (.position 2, .code "b"), (.position 7, .code "y"),
    (.name "n", .code "w")], 8⟩

theorem edited_eq : edited edits = map := by
  have hparse : parse? stored = some ⟨[(.position 6, .code "c"), (.position 2, .code "b")], 7⟩ := by
    rw [parse?_eq_map, stored_eq]
    rfl
  have hnone : parse? "[" = none := by rfl
  simp only [edited, edits, List.foldl_cons, List.foldl_nil, edit, hparse, hnone, Option.getD_some,
    Option.getD_none]
  rfl

end Ledger

/-- Edits go on after the greatest position of the stored map. -/
theorem edited_in_order_ledger :
    edited Ledger.edits = Ledger.map ∧
      (Ledger.map.edit (.push "v")).entries = Ledger.map.entries ++ [(.position 8, .code "v")] ∧
      (Ledger.map.edit (.load Ledger.stored)).keys = [.position 6, .position 2] ∧
      (Ledger.map.edit (.load Ledger.stored)).entries =
      [(.position 6, .code "c"), (.position 2, .code "b")] := by
  have horder := edited_in_order Ledger.edits
  rw [Ledger.edited_eq] at horder
  obtain ⟨-, -, hroom, -, -, -, hload⟩ := horder
  obtain ⟨-, -, hpush⟩ := hroom (by simp [HasRoom, Ledger.map, keys])
  obtain ⟨hkeys, hentries⟩ := hload Ledger.stored _ Ledger.stored_eq
  have hfirst : [BlockKey.position 6, .position 2, .position 6].eraseDups =
      [.position 6, .position 2] := by decide
  refine ⟨Ledger.edited_eq, (hpush "v").1, hkeys.trans hfirst, ?_⟩
  rw [hentries]
  change [BlockKey.position 6, .position 2, .position 6].eraseDups.filterMap _ = _
  rw [hfirst]
  rfl

end BlockMap
end Stencil
