/-
# The order of block maps

A block map is built by defining names and appending segments. A name that is
there keeps its slot, anything else goes to the end, and segments are numbered
in the order they are appended. So the keys of a map say how it can be built
again: merging entries under the keys of a map gives a map with these keys.

Key definitions: `BlockMap.Numbered`, `BlockMap.segment`.
Key theorems: `BlockMap.put_eq_append`, `BlockMap.lookup_put`, `Emit.blocksOf_eq`.
-/
import Stencil.Emit.Layout
import Stencil.Proofs.Lookup

namespace Stencil

/-- The position a segment is filed under. -/
def BlockKey.position? : BlockKey → Option Nat
  | .position p => some p
  | .name _ => none

/-- The positions among keys, in order. -/
def BlockKey.positions (keys : List BlockKey) : List Nat := keys.filterMap BlockKey.position?

theorem BlockKey.positions_append (as bs : List BlockKey) :
    BlockKey.positions (as ++ bs) = BlockKey.positions as ++ BlockKey.positions bs :=
  List.filterMap_append

theorem BlockKey.mem_positions {keys : List BlockKey} {p : Nat} :
    p ∈ BlockKey.positions keys ↔ .position p ∈ keys := by
  unfold positions
  rw [List.mem_filterMap]
  constructor
  · rintro ⟨k, hk, hp⟩
    cases k with
    | name n => cases hp
    | position q => cases hp; exact hk
  · exact fun h => ⟨_, h, rfl⟩

theorem BlockKey.nodup_concat {keys : List BlockKey} {key : BlockKey} (h : keys.Nodup)
    (hkey : key ∉ keys) :
    (keys ++ [key]).Nodup := by
  rw [List.nodup_append]
  refine ⟨h, by simp, fun k hk l hl he => hkey ?_⟩
  rw [List.mem_singleton.1 hl] at he
  exact he ▸ hk

namespace BlockMap

section
variable {key k : BlockKey} {body b : BlockBody} {entries : List (BlockKey × BlockBody)}

theorem mem_put (h : (k, b) ∈ put key body entries) : (k, b) ∈ entries ∨ (k = key ∧ b = body) := by
  induction entries with
  | nil => simpa [put] using h
  | cons e rest ih =>
    obtain ⟨l, c⟩ := e
    unfold put at h
    split at h
    · rename_i hl
      simp only [List.mem_cons, Prod.mk.injEq] at h ⊢
      grind
    · simp only [List.mem_cons, Prod.mk.injEq] at h ⊢
      grind

/-- A new key goes to the end. -/
theorem put_eq_append (h : key ∉ entries.map (·.1)) :
    put key body entries = entries ++ [(key, body)] := by
  induction entries with
  | nil => rfl
  | cons e rest ih =>
    obtain ⟨l, c⟩ := e
    simp only [List.map_cons, List.mem_cons, not_or] at h
    rw [put, if_neg fun hl => h.1 hl.symm, ih h.2]
    rfl

/-- A key that is there keeps its slot. -/
theorem keys_put (h : key ∈ entries.map (·.1)) :
    (put key body entries).map (·.1) = entries.map (·.1) := by
  induction entries with
  | nil => cases h
  | cons e rest ih =>
    obtain ⟨l, c⟩ := e
    by_cases hl : l = key
    · rw [put, if_pos hl]
      rfl
    · have : key ∈ rest.map (·.1) := by
        rcases List.mem_cons.1 h with he | he
        · exact absurd he.symm hl
        · exact he
      rw [put, if_neg hl, List.map_cons, ih this]
      rfl

theorem lookup_put :
    (put key body entries).lookup k = if k = key then some body else entries.lookup k := by
  induction entries with
  | nil => rw [put, lookup_cons_ite]
  | cons e rest ih =>
    obtain ⟨l, c⟩ := e
    by_cases hl : l = key
    · subst hl
      rw [put, if_pos rfl, lookup_cons_ite, lookup_cons_ite]
      by_cases hk : k = l <;> simp [hk]
    · rw [put, if_neg hl, lookup_cons_ite, lookup_cons_ite, ih]
      by_cases hk : k = l
      · subst hk
        simp [hl]
      · simp [hk]

end

theorem mem_of_get? {m : BlockMap} {key : BlockKey} {body : BlockBody}
    (h : m.get? key = some body) :
    (key, body) ∈ m.entries := by
  obtain ⟨l₁, l₂, he, -⟩ := List.lookup_eq_some_iff.1 h
  rw [he]
  simp

theorem mem_of_named? {m : BlockMap} {name : String} {body : BlockBody}
    (h : m.named? name = some body) : (.name name, body) ∈ m.entries := mem_of_get? h

/-- The entry under a key is found if no other has that key. -/
theorem get?_of_mem {m : BlockMap} (hn : m.keys.Nodup) {key : BlockKey} {body : BlockBody}
    (h : (key, body) ∈ m.entries) : m.get? key = some body := by
  obtain ⟨l₁, l₂, he⟩ := List.append_of_mem h
  refine List.lookup_eq_some_iff.2 ⟨l₁, l₂, he, fun e hmem => ?_⟩
  have hne : e.1 ≠ key := by
    unfold keys at hn
    rw [he, List.map_append, List.nodup_append] at hn
    exact hn.2.2 _ (List.mem_map_of_mem hmem) _ (by simp)
  simpa using hne.symm

/-- Append a segment of code, unless it is empty. -/
def segment (m : BlockMap) (code : String) : BlockMap := if code = "" then m else m.append code

theorem named?_define (m : BlockMap) (name : String) (body : BlockBody) (n : String) :
    (m.define name body).named? n = if n = name then some body else m.named? n := by
  show (put _ _ _).lookup _ = _
  rw [lookup_put]
  simp [named?, get?]

theorem named?_segment (m : BlockMap) (code n : String) :
    (m.segment code).named? n = m.named? n := by
  unfold segment
  split
  · rfl
  · show (put _ _ _).lookup _ = _
    rw [lookup_put, if_neg nofun]
    rfl

/-- No key is there twice, and segments are numbered in order. -/
structure Numbered (m : BlockMap) : Prop where
  nodup : m.keys.Nodup
  positions : BlockKey.positions m.keys = List.range' 0 m.next

namespace Numbered

theorem empty : BlockMap.empty.Numbered := ⟨List.nodup_nil, rfl⟩

variable {m : BlockMap}

/-- The number of the next segment is not taken. -/
theorem next_notMem (h : m.Numbered) : .position m.next ∉ m.keys := by
  rw [← BlockKey.mem_positions, h.positions]
  simp

theorem append_entries (h : m.Numbered) (code : String) :
    (m.append code).entries = m.entries ++ [(.position m.next, .code code)] :=
  put_eq_append h.next_notMem

theorem append (h : m.Numbered) (code : String) : (m.append code).Numbered := by
  have hkeys : (m.append code).keys = m.keys ++ [.position m.next] := by
    simp [keys, h.append_entries]
  refine ⟨?_, ?_⟩
  · rw [hkeys]
    exact BlockKey.nodup_concat h.nodup h.next_notMem
  · rw [hkeys, BlockKey.positions_append, h.positions]
    show _ = List.range' 0 (m.next + 1)
    rw [List.range'_concat]
    simp [BlockKey.positions, BlockKey.position?]

theorem define (h : m.Numbered) (name : String) (body : BlockBody) :
    (m.define name body).Numbered := by
  by_cases hmem : .name name ∈ m.keys
  · have hkeys : (m.define name body).keys = m.keys := keys_put hmem
    exact ⟨hkeys ▸ h.nodup, hkeys ▸ h.positions⟩
  · have hkeys : (m.define name body).keys = m.keys ++ [.name name] := by
      show (put _ _ _).map _ = _
      rw [put_eq_append hmem]
      simp [keys]
    refine ⟨?_, ?_⟩
    · rw [hkeys]
      exact BlockKey.nodup_concat h.nodup hmem
    · rw [hkeys, BlockKey.positions_append, h.positions]
      simp [BlockKey.positions, BlockKey.position?, BlockMap.define]

end Numbered
end BlockMap

namespace Emit

/-- One entry after those merged so far. -/
def fileCode (m : BlockMap) (e : BlockKey × String) : BlockMap :=
  match e.1 with
  | .name n => m.define n (.code e.2)
  | .position _ => m.append e.2

theorem blocksOf_foldl (entries : List (BlockKey × String)) :
    blocksOf entries = entries.foldl fileCode .empty := rfl

/-- What holds of the empty map, and is kept by defining and appending code, holds of
merged entries. -/
theorem blocksOf_induction {P : BlockMap → Prop} (hempty : P .empty)
    (hdefine : ∀ m name code, P m → P (m.define name (.code code)))
    (happend : ∀ m code, P m → P (m.append code)) (entries : List (BlockKey × String)) :
    P (blocksOf entries) := by
  have kept : ∀ (es : List (BlockKey × String)) (m : BlockMap), P m → P (es.foldl fileCode m) := by
    intro es
    induction es with
    | nil => exact fun m hm => hm
    | cons e rest ih =>
      intro m hm
      refine ih _ ?_
      obtain ⟨key, code⟩ := e
      cases key with
      | name n => exact hdefine m n code hm
      | position p => exact happend m code hm
  exact kept entries .empty hempty

/-- Merged entries are numbered anew. -/
theorem blocksOf_numbered (entries : List (BlockKey × String)) : (blocksOf entries).Numbered :=
  blocksOf_induction .empty (fun _ name _ h => h.define name _)
    (fun _ code h => h.append code) entries

/-- Entries under the keys of a map, from some key on, are filed one after another. -/
theorem foldl_fileCode (entries : List (BlockKey × String)) : ∀ (m : BlockMap) (len : Nat),
    (m.keys ++ entries.map (·.1)).Nodup →
    BlockKey.positions (entries.map (·.1)) = List.range' m.next len →
    entries.foldl fileCode m = ⟨m.entries ++ entries.map fun e => (e.1, .code e.2),
      m.next + len⟩ := by
  induction entries with
  | nil =>
    intro m len _ hpos
    have : len = 0 := by
      have := congrArg List.length hpos
      simpa [BlockKey.positions] using this.symm
    simp [this]
  | cons e rest ih =>
    intro m len hnodup hpos
    obtain ⟨key, code⟩ := e
    have hnew : key ∉ m.keys := by
      intro hmem
      exact (List.nodup_append.1 hnodup).2.2 key hmem key (by simp) rfl
    have hfiled : (fileCode m (key, code)).entries = m.entries ++ [(key, .code code)] ∧
        ∃ len', BlockKey.positions (rest.map (·.1)) =
          List.range' (fileCode m (key, code)).next len' ∧
          m.next + len = (fileCode m (key, code)).next + len' := by
      cases key with
      | name n =>
        exact ⟨BlockMap.put_eq_append hnew, len, hpos, rfl⟩
      | position p =>
        obtain ⟨len', rfl, rfl, hrest⟩ : ∃ len', len = len' + 1 ∧ p = m.next ∧
            BlockKey.positions (rest.map (·.1)) = List.range' (m.next + 1) len' := by
          cases len with
          | zero => cases hpos
          | succ len' =>
            rw [List.range'_succ] at hpos
            exact ⟨len', rfl, (List.cons.inj hpos).1, (List.cons.inj hpos).2⟩
        refine ⟨BlockMap.put_eq_append hnew, len', hrest, ?_⟩
        show m.next + (len' + 1) = m.next + 1 + len'
        omega
    obtain ⟨hentries, len', hrest, hlen⟩ := hfiled
    have hkeys : (fileCode m (key, code)).keys = m.keys ++ [key] := by
      simp [BlockMap.keys, hentries]
    rw [List.foldl_cons, ih _ len' ?_ hrest, hentries, hlen]
    · simp
    · rw [hkeys]
      simpa using hnodup

/-- Entries merged under the keys of a map keep these keys. -/
theorem blocksOf_eq {m : BlockMap} (hm : m.Numbered) {entries : List (BlockKey × String)}
    (h : entries.map (·.1) = m.keys) :
    blocksOf entries = ⟨entries.map fun e => (e.1, .code e.2), m.next⟩ := by
  have := foldl_fileCode entries .empty m.next
    (by simpa [BlockMap.empty, BlockMap.keys, h] using hm.nodup)
    (by rw [h]; exact hm.positions)
  rw [blocksOf_foldl, this]
  simp [BlockMap.empty]

end Emit
end Stencil
