import Mathlib.Data.List.Basic
import Mathlib.Data.List.Nodup
import Mathlib.Tactic.Common

/-!
# Hashes that remember insertion order

A hash is a list of entries with distinct keys. Storing under a present key
replaces the value in place; a new key goes to the end. The reverse lookup
`keyOf` therefore answers with the key that was first stored, not with the key
whose present value was stored last. All facts are stated through membership of
an entry, which lookup decides because keys are distinct.
-/
namespace EvoGw.InsertionHash

structure Hash (K V : Type) where
  entries : List (K × V)
  nodup : (entries.map Prod.fst).Nodup

namespace Hash
variable {K V : Type} [DecidableEq K]

def empty : Hash K V := ⟨[], by simp⟩

/-- `hash[k]`, with `none` for an absent key. -/
def get? (h : Hash K V) (k : K) : Option V :=
  (h.entries.find? (fun e => e.1 = k)).map Prod.snd

/-- `hash.key(v)`: the first key with this value. -/
def keyOf [DecidableEq V] (h : Hash K V) (v : V) : Option K :=
  (h.entries.find? (fun e => e.2 = v)).map Prod.fst

theorem nodup_replace {entries : List (K × V)} (h : (entries.map Prod.fst).Nodup) (k : K) (v : V) :
    ((entries.map (fun e => if e.1 = k then (k, v) else e)).map Prod.fst).Nodup := by
  have hkeys : (entries.map (fun e => if e.1 = k then (k, v) else e)).map Prod.fst =
      entries.map Prod.fst := by
    rw [List.map_map]
    apply List.map_congr_left
    intro e _
    by_cases he : e.1 = k <;> simp [he]
  rw [hkeys]
  exact h

omit [DecidableEq K] in
theorem nodup_extend {entries : List (K × V)} (h : (entries.map Prod.fst).Nodup) {k : K} (v : V)
    (hk : k ∉ entries.map Prod.fst) : ((entries ++ [(k, v)]).map Prod.fst).Nodup := by
  rw [List.map_append, List.map_cons, List.map_nil, List.nodup_append]
  refine ⟨h, by simp, ?_⟩
  intro a ha b hb he
  rw [he, List.mem_singleton.mp hb] at ha
  exact hk ha

/-- `hash[k] = v`. -/
def insert (h : Hash K V) (k : K) (v : V) : Hash K V :=
  if hk : k ∈ h.entries.map Prod.fst then
    ⟨h.entries.map (fun e => if e.1 = k then (k, v) else e), nodup_replace h.nodup k v⟩
  else ⟨h.entries ++ [(k, v)], nodup_extend h.nodup v hk⟩

/-- `hash.delete(k)`. -/
def erase (h : Hash K V) (k : K) : Hash K V :=
  ⟨h.entries.filter (fun e => e.1 ≠ k), (List.filter_sublist.map Prod.fst).nodup h.nodup⟩

theorem get?_eq_some {h : Hash K V} {k : K} {v : V} : h.get? k = some v ↔ (k, v) ∈ h.entries := by
  constructor
  · intro hg
    obtain ⟨⟨k', v'⟩, hf, rfl⟩ := Option.map_eq_some_iff.mp hg
    have hk := List.find?_some hf
    simp only [decide_eq_true_eq] at hk
    subst hk
    exact List.mem_of_find?_eq_some hf
  · intro hm
    have hs : (h.entries.find? (fun e => e.1 = k)).isSome :=
      List.find?_isSome.mpr ⟨_, hm, by simp⟩
    obtain ⟨⟨k', v'⟩, hf⟩ := Option.isSome_iff_exists.mp hs
    have hk := List.find?_some hf
    simp only [decide_eq_true_eq] at hk
    subst hk
    have he := List.inj_on_of_nodup_map h.nodup (List.mem_of_find?_eq_some hf) hm rfl
    rw [get?, hf, he]
    rfl

theorem mem_insert {h : Hash K V} {k k' : K} {v v' : V} :
    (k', v') ∈ (h.insert k v).entries ↔ (k' = k ∧ v' = v) ∨ (k' ≠ k ∧ (k', v') ∈ h.entries) := by
  unfold insert
  split_ifs with hk
  · constructor
    · intro hm
      obtain ⟨e, he, heq⟩ := List.mem_map.mp hm
      split_ifs at heq with hek
      · exact .inl (Prod.mk.inj heq.symm)
      · subst heq
        exact .inr ⟨hek, he⟩
    · rintro (⟨rfl, rfl⟩ | ⟨hne, hm⟩)
      · obtain ⟨e, he, hek⟩ := List.mem_map.mp hk
        exact List.mem_map.mpr ⟨e, he, by rw [if_pos hek]⟩
      · exact List.mem_map.mpr ⟨_, hm, by rw [if_neg hne]⟩
  · simp only [List.mem_append, List.mem_singleton, Prod.mk.injEq]
    constructor
    · rintro (hm | ⟨rfl, rfl⟩)
      · refine .inr ⟨?_, hm⟩
        rintro rfl
        exact hk (List.mem_map.mpr ⟨_, hm, rfl⟩)
      · exact .inl ⟨rfl, rfl⟩
    · rintro (⟨rfl, rfl⟩ | ⟨-, hm⟩)
      · exact .inr ⟨rfl, rfl⟩
      · exact .inl hm

theorem mem_erase {h : Hash K V} {k k' : K} {v' : V} :
    (k', v') ∈ (h.erase k).entries ↔ k' ≠ k ∧ (k', v') ∈ h.entries := by
  simp [erase, and_comm]

@[simp] theorem get?_insert_self (h : Hash K V) (k : K) (v : V) : (h.insert k v).get? k = some v :=
  get?_eq_some.mpr (mem_insert.mpr (.inl ⟨rfl, rfl⟩))

theorem get?_insert_ne (h : Hash K V) {k k' : K} (v : V) (hne : k' ≠ k) :
    (h.insert k v).get? k' = h.get? k' := by
  ext v'
  rw [get?_eq_some, get?_eq_some, mem_insert]
  simp [hne]

theorem get?_keyOf [DecidableEq V] {h : Hash K V} {k : K} {v : V} (hk : h.keyOf v = some k) :
    h.get? k = some v := by
  obtain ⟨⟨k', v'⟩, hf, rfl⟩ := Option.map_eq_some_iff.mp hk
  have hv := List.find?_some hf
  simp only [decide_eq_true_eq] at hv
  subst hv
  exact get?_eq_some.mpr (List.mem_of_find?_eq_some hf)

omit [DecidableEq K] in
theorem keyOf_none [DecidableEq V] {h : Hash K V} {v : V} (hn : h.keyOf v = none) (k : K) :
    (k, v) ∉ h.entries := by
  intro hm
  rw [keyOf, Option.map_eq_none_iff, List.find?_eq_none] at hn
  exact hn _ hm (by simp)

end Hash
end EvoGw.InsertionHash
