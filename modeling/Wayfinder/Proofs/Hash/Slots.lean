import Mathlib.Data.Nat.ModEq
import Mathlib.Data.Fintype.Card
import Mathlib.Data.Fintype.EquivFin
import Mathlib.Data.Nat.Prime.Basic
import Mathlib.Tactic.Ring
import Mathlib.Tactic.Positivity
import Wayfinder.Hash.Slots

/-!
# Every key inserted into a slot table is listed once

A new key goes into the first free slot of its probe sequence, so the table lists it as long as
the probe sequence can reach every slot. Below 16 slots the probe scans the whole table. From 16
slots on, the table has `16 * 2 ^ a` slots and the probe looks at groups of 16 slots, the `j`-th
group starting `16 * tri j` slots past the first, `tri j` the `j`-th triangular number. Triangular
numbers below `2 ^ a` are distinct modulo `2 ^ a` (`tri_modEq_of_lt`), so the first `2 ^ a`
groups cover the table (`freeSlot_free`).

A table keeps fewer keys than slots and never loses one when it grows (`SlotTable.Wf`), so the
table of a list of keys lists exactly those keys, each once (`mem_keys_ofList`,
`nodup_keys_ofList`).
-/

namespace Wayfinder.Hash

/-! ## Triangular strides -/

/-- The `j`-th triangular number: the `j`-th group of a probe starts `16 * tri j` slots past
the first. -/
def tri : Nat → Nat
  | 0 => 0
  | j + 1 => tri j + (j + 1)

theorem two_mul_tri (j : Nat) : 2 * tri j = j * (j + 1) := by
  induction j with
  | zero => rfl
  | succ j ih =>
    rw [tri, Nat.mul_add, ih]
    ring

theorem tri_add (i d : Nat) : 2 * tri (i + d) = 2 * tri i + d * (2 * i + d + 1) := by
  rw [two_mul_tri, two_mul_tri]
  ring

/-- Two triangular numbers below `2 ^ a` are never congruent modulo `2 ^ a`. -/
theorem tri_modEq_of_lt {a i j : Nat} (hij : i < j) (hj : j < 2 ^ a) :
    ¬ tri i ≡ tri j [MOD 2 ^ a] := by
  intro h
  obtain ⟨d, rfl⟩ : ∃ d, j = i + d := ⟨j - i, by omega⟩
  have hsplit := tri_add i d
  -- Twice the difference is `d * (2 * i + d + 1)`, a multiple of `2 ^ (a + 1)`; its two factors
  -- add up to an odd number, so one of them is odd and `2 ^ (a + 1)` divides the other.
  have hdvd : 2 ^ (a + 1) ∣ d * (2 * i + d + 1) := by
    obtain ⟨c, hc⟩ := (Nat.modEq_iff_dvd' (by omega)).1 h
    have htwice : d * (2 * i + d + 1) = 2 * (2 ^ a * c) := by omega
    exact ⟨c, by rw [htwice]; ring⟩
  have hpow : 2 ^ (a + 1) = 2 * 2 ^ a := by ring
  rcases Nat.even_or_odd d with hd | hd
  · have hodd : Odd (2 * i + d + 1) := by
      obtain ⟨e, he⟩ := hd
      exact ⟨i + e, by omega⟩
    have hd' : 2 ^ (a + 1) ∣ d :=
      (Nat.Coprime.pow_right (a + 1) hodd.coprime_two_right).symm.dvd_of_dvd_mul_right hdvd
    have := Nat.le_of_dvd (by omega) hd'
    omega
  · have hd' : 2 ^ (a + 1) ∣ 2 * i + d + 1 :=
      (Nat.Coprime.pow_right (a + 1) hd.coprime_two_right).symm.dvd_of_dvd_mul_left hdvd
    have := Nat.le_of_dvd (by omega) hd'
    omega

/-- Every residue modulo `2 ^ a` is a triangular number below `2 ^ a`: distinct residues of
`2 ^ a` numbers fill all `2 ^ a` places. -/
theorem exists_tri_mod (a t : Nat) (ht : t < 2 ^ a) : ∃ j < 2 ^ a, tri j % 2 ^ a = t := by
  let f : Fin (2 ^ a) → Fin (2 ^ a) := fun j => ⟨tri j % 2 ^ a, Nat.mod_lt _ (by positivity)⟩
  have hinj : Function.Injective f := by
    intro i j hij
    have hmod : tri i ≡ tri j [MOD 2 ^ a] := congrArg Fin.val hij
    rcases lt_trichotomy i.val j.val with h | h | h
    · exact absurd hmod (tri_modEq_of_lt h j.2)
    · exact Fin.ext h
    · exact absurd hmod.symm (tri_modEq_of_lt h i.2)
  obtain ⟨j, hj⟩ := Finite.injective_iff_surjective.1 hinj ⟨t, ht⟩
  exact ⟨j, j.2, congrArg Fin.val hj⟩

/-- Over `16 * 2 ^ a` slots, every offset from a probe's start lies in one of its first `2 ^ a`
groups of 16: the group `j` with `tri j ≡ d / 16`, at place `d % 16`. -/
theorem exists_group_of_offset {a d : Nat} (p : Nat) (hd : d < 16 * 2 ^ a) :
    ∃ j < 2 ^ a, p + 16 * tri j + d % 16 ≡ p + d [MOD 16 * 2 ^ a] := by
  obtain ⟨j, hj, htri⟩ := exists_tri_mod a (d / 16) (by omega)
  have h16 : 16 * tri j ≡ 16 * (d / 16) [MOD 16 * 2 ^ a] := by
    rw [Nat.ModEq, Nat.mul_mod_mul_left, Nat.mul_mod_mul_left, htri, Nat.mod_eq_of_lt (by omega)]
  refine ⟨j, hj, ?_⟩
  calc p + 16 * tri j + d % 16
      ≡ p + 16 * (d / 16) + d % 16 [MOD 16 * 2 ^ a] := (h16.add_left _).add_right _
    _ = p + d := by omega

/-! ## Probing -/

/-- The sizes a table takes: fewer than 16 slots, or sixteen times a power of two. -/
def GoodSize (n : Nat) : Prop := n < 16 ∨ ∃ a, n = 16 * 2 ^ a

/-- From any slot, some offset below `n` reaches any other slot. -/
theorem exists_offset {p s n : Nat} (hp : p < n) (hs : s < n) : ∃ d < n, (p + d) % n = s := by
  by_cases hps : p ≤ s
  · exact ⟨s - p, by omega, by rw [Nat.add_sub_cancel' hps, Nat.mod_eq_of_lt hs]⟩
  · refine ⟨s + n - p, by omega, ?_⟩
    rw [show p + (s + n - p) = s + n by omega, Nat.add_mod_right, Nat.mod_eq_of_lt hs]

variable {xs : Array (Option Nat)}

/-- A slot found in a group is a free slot of the table. -/
theorem freeInGroup_free {pos w i : Nat} (hsize : 0 < xs.size)
    (h : freeInGroup xs pos w = some i) : i < xs.size ∧ xs[i]! = none := by
  unfold freeInGroup at h
  obtain ⟨b, -, hb⟩ := List.exists_of_findSome?_eq_some h
  dsimp only at hb
  split at hb
  · cases hb
    exact ⟨Nat.mod_lt _ hsize, Option.isNone_iff_eq_none.1 ‹_›⟩
  · cases hb

/-- A group with a free slot finds one. -/
theorem freeInGroup_isSome {pos w b : Nat} (hb : b < w)
    (hfree : xs[(pos + b) % xs.size]! = none) : (freeInGroup xs pos w).isSome := by
  unfold freeInGroup
  rw [List.findSome?_isSome_iff]
  exact ⟨b, List.mem_range.2 hb, by simp [hfree]⟩

/-- By induction on the fuel, the `j`-th group on: a probe that still has a free slot in one of
the groups it has fuel for ends on a free slot. -/
theorem probe_free (hsize : 0 < xs.size) (p : Nat) :
    ∀ fuel j : Nat, (∃ k < fuel, ∃ b < 16, xs[(p + 16 * tri (j + k) + b) % xs.size]! = none) →
      freeSlot.probe xs xs.size fuel ((p + 16 * tri j) % xs.size) (16 * j) < xs.size ∧
      xs[freeSlot.probe xs xs.size fuel ((p + 16 * tri j) % xs.size) (16 * j)]! = none
  | 0, _, ⟨_, hk, _⟩ => absurd hk (Nat.not_lt_zero _)
  | fuel + 1, j, ⟨k, hk, b, hb, hfree⟩ => by
    rw [freeSlot.probe]
    cases hg : freeInGroup xs ((p + 16 * tri j) % xs.size) 16 with
    | some i => exact freeInGroup_free hsize hg
    | none =>
      -- The `j`-th group is full, so the free slot lies in a later group.
      have hk0 : k ≠ 0 := by
        rintro rfl
        have hsome : (freeInGroup xs ((p + 16 * tri j) % xs.size) 16).isSome :=
          freeInGroup_isSome hb (by rwa [Nat.mod_add_mod])
        rw [hg] at hsome
        cases hsome
      have hnext : ((p + 16 * tri j) % xs.size + 16 * j + 16) % xs.size =
          (p + 16 * tri (j + 1)) % xs.size := by
        rw [Nat.add_assoc, Nat.mod_add_mod, tri]
        congr 1
        ring
      rw [hnext, show 16 * j + 16 = 16 * (j + 1) by ring]
      exact probe_free hsize p fuel (j + 1)
        ⟨k - 1, by omega, b, hb, by rwa [show j + 1 + (k - 1) = j + k by omega]⟩

/-- In a table of a size it takes, with a free slot, a new key goes into a free slot. -/
theorem freeSlot_free (hsize : GoodSize xs.size) (hfree : ∃ i < xs.size, xs[i]! = none)
    (h : UInt64) : freeSlot xs h < xs.size ∧ xs[freeSlot xs h]! = none := by
  obtain ⟨s, hs, hnone⟩ := hfree
  have hpos : 0 < xs.size := by omega
  obtain ⟨d, hd, hds⟩ := exists_offset (Nat.mod_lt h.toNat hpos) hs
  unfold freeSlot
  dsimp only
  split
  · -- Fewer than 16 slots: one group scans the whole table.
    obtain ⟨i, hi⟩ := Option.isSome_iff_exists.1 (freeInGroup_isSome hd (by rwa [hds]))
    rw [hi]
    exact freeInGroup_free hpos hi
  · -- `16 * 2 ^ a` slots: some group of the probe holds the free slot.
    obtain ⟨a, ha⟩ := hsize.resolve_left ‹_›
    obtain ⟨j, hj, hgroup⟩ := exists_group_of_offset h.toNat (ha ▸ hd)
    have hreach : (h.toNat + 16 * tri (0 + j) + d % 16) % xs.size = s := by
      rw [Nat.zero_add, ha, hgroup, ← Nat.mod_add_mod, ← ha, hds]
    have hstart := probe_free hpos h.toNat (xs.size / 16 + 1) 0
      ⟨j, by omega, d % 16, Nat.mod_lt _ (by omega), by rwa [hreach]⟩
    simpa [tri] using hstart

/-! ## Placing keys -/

/-- The keys held by an array of slots, in slot order. -/
def held (xs : Array (Option Nat)) : List Nat := xs.toList.filterMap id

theorem SlotTable.keys_eq (t : SlotTable) : t.keys = held t.slots := rfl

/-- Slots holding fewer keys than there are slots have a free one. -/
theorem exists_free_of_held_lt (h : (held xs).length < xs.size) :
    ∃ i < xs.size, xs[i]! = none := by
  have hmem : none ∈ xs.toList := by
    by_contra hnot
    -- Every slot holds a key, so there are as many keys as slots.
    have hall : xs.toList.filterMap id = xs.toList.map fun o => o.getD 0 :=
      List.filterMap_eq_map_iff_forall_eq_some.2 fun o ho => by
        cases o with
        | none => exact absurd ho hnot
        | some k => rfl
    have hlen := congrArg List.length hall
    simp only [List.length_map, Array.length_toList] at hlen
    exact absurd h (by rw [held, hlen]; exact Nat.lt_irrefl _)
  obtain ⟨i, hi, hget⟩ := List.getElem_of_mem hmem
  rw [Array.length_toList] at hi
  exact ⟨i, hi, by rw [getElem!_pos xs i hi, ← Array.getElem_toList, hget]⟩

/-- Writing a key into a free slot adds it to the keys held. -/
theorem held_set_free {i : Nat} (hi : i < xs.size) (hnone : xs[i]! = none) (k : Nat) :
    (held (xs.set! i (some k))).Perm (k :: held xs) := by
  have hlen : i < xs.toList.length := by rwa [Array.length_toList]
  have hget : xs.toList[i] = none := by rwa [Array.getElem_toList, ← getElem!_pos xs i hi]
  unfold held
  rw [Array.toList_set!, List.set_eq_take_append_cons_drop, if_pos hlen]
  conv_rhs => rw [← List.take_append_drop i xs.toList, List.drop_eq_getElem_cons hlen, hget]
  simp only [List.filterMap_append, List.filterMap_cons, id]
  exact List.perm_middle

/-- A new key placed into slots of a size a table takes, holding fewer keys than slots, is held
from then on. -/
theorem place_held (hsize : GoodSize xs.size) (hroom : (held xs).length < xs.size) (k : Nat) :
    (SlotTable.place xs k).size = xs.size ∧ (held (SlotTable.place xs k)).Perm (k :: held xs) := by
  obtain ⟨hlt, hnone⟩ := freeSlot_free hsize (exists_free_of_held_lt hroom) (mixHash k)
  exact ⟨Array.size_set! .., held_set_free hlt hnone k⟩

/-- Placing keys one after the other, while slots stay free for them, holds them all. -/
theorem foldl_place_held (ks : List Nat) :
    ∀ {xs : Array (Option Nat)}, GoodSize xs.size → (held xs).length + ks.length < xs.size →
      (ks.foldl SlotTable.place xs).size = xs.size ∧
        (held (ks.foldl SlotTable.place xs)).Perm (held xs ++ ks) := by
  induction ks with
  | nil => intro xs _ _; simp
  | cons k ks ih =>
    intro xs hsize hroom
    simp only [List.length_cons] at hroom
    obtain ⟨hsz, hperm⟩ := place_held hsize (by omega) k
    obtain ⟨hsz', hperm'⟩ := ih (hsz ▸ hsize)
      (by rw [hsz, hperm.length_eq, List.length_cons]; omega)
    rw [List.foldl_cons]
    exact ⟨hsz'.trans hsz, hperm'.trans ((hperm.append_right ks).trans List.perm_middle.symm)⟩

/-! ## Table sizes -/

theorem le_powerOfTwoAtLeast (n : Nat) : n ≤ powerOfTwoAtLeast n := by
  unfold powerOfTwoAtLeast
  split
  · omega
  · have := @Nat.lt_log2_self (n - 1)
    rw [Nat.pow_eq]
    omega

/-- Above eight, the least power of two at or above `n` is sixteen times a power of two: `n - 1`
has at least four binary digits. -/
theorem powerOfTwoAtLeast_eq_of_lt {n : Nat} (h : 8 < n) :
    ∃ e, powerOfTwoAtLeast n = 16 * 2 ^ e := by
  have hlog := @Nat.lt_log2_self (n - 1)
  obtain ⟨e, he⟩ : ∃ e, Nat.log2 (n - 1) + 1 = e + 4 := by
    refine ⟨Nat.log2 (n - 1) - 3, ?_⟩
    by_contra hsmall
    have hpow : 2 ^ (Nat.log2 (n - 1) + 1) ≤ 2 ^ 3 := Nat.pow_le_pow_right (by decide) (by omega)
    omega
  refine ⟨e, ?_⟩
  rw [powerOfTwoAtLeast, if_neg (by omega), Nat.pow_eq, he, Nat.pow_add]
  ring

theorem capacityOf_lt {n : Nat} (h : 0 < n) : capacityOf n < n := by
  unfold capacityOf
  split <;> omega

/-- A table made for `cap` keys has a size its probes search whole, at least four slots, and
room for the `cap` keys. -/
theorem slotsFor_spec (cap : Nat) :
    GoodSize (slotsFor cap) ∧ 4 ≤ slotsFor cap ∧ cap ≤ capacityOf (slotsFor cap) := by
  unfold slotsFor
  split_ifs with h4 h8
  · have h3 : capacityOf 4 = 3 := rfl
    exact ⟨Or.inl (by decide), le_refl 4, by omega⟩
  · have h7 : capacityOf 8 = 7 := rfl
    exact ⟨Or.inl (by decide), by decide, by omega⟩
  · obtain ⟨e, hsize⟩ := powerOfTwoAtLeast_eq_of_lt (show 8 < cap * 8 / 7 by omega)
    have hle := le_powerOfTwoAtLeast (cap * 8 / 7)
    rw [hsize] at hle ⊢
    have hpos : 0 < 2 ^ e := by positivity
    refine ⟨Or.inr ⟨e, rfl⟩, by omega, ?_⟩
    -- Seven eighths of at least `8 / 7` of `cap` slots hold `cap` keys.
    unfold capacityOf
    rw [if_neg (by omega)]
    omega

/-! ## Tables -/

namespace SlotTable

/-- A table whose probes reach every slot, whose room is what its capacity leaves beside its
keys, and whose keys are distinct. -/
structure Wf (t : SlotTable) : Prop where
  goodSize : GoodSize t.slots.size
  room : t.room + t.keys.length = capacityOf t.slots.size
  nodup : t.keys.Nodup

theorem wf_empty : empty.Wf := ⟨Or.inl (by decide), rfl, List.nodup_nil⟩

/-- Growing moves every key into the new slots, which have room for `cap` keys. -/
theorem Wf.resize {t : SlotTable} (hw : t.Wf) {cap : Nat} (hcap : t.keys.length ≤ cap) :
    (t.resize cap).Wf ∧ (t.resize cap).keys.Perm t.keys ∧
      (t.resize cap).room = capacityOf (slotsFor cap) - t.keys.length := by
  obtain ⟨hgood, h4, hcapacity⟩ := slotsFor_spec cap
  have hlt := capacityOf_lt (show 0 < slotsFor cap by omega)
  -- The keys go one after the other into empty slots, fewer of them than slots.
  have hempty : held (Array.replicate (slotsFor cap) none) = [] := by
    simp [held]
  have hfold := foldl_place_held t.keys
    (by rwa [Array.size_replicate] : GoodSize (Array.replicate (slotsFor cap) none).size)
    (by rw [hempty, Array.size_replicate, List.length_nil]; omega)
  rw [hempty, List.nil_append, Array.size_replicate] at hfold
  have hsize : (t.resize cap).slots.size = slotsFor cap := hfold.1
  have hkeys : (t.resize cap).keys.Perm t.keys := hfold.2
  refine ⟨⟨by rwa [hsize], ?_, hkeys.nodup_iff.2 hw.nodup⟩, hkeys, rfl⟩
  show capacityOf (slotsFor cap) - t.keys.length + (t.resize cap).keys.length =
    capacityOf (t.resize cap).slots.size
  rw [hkeys.length_eq, hsize]
  omega

/-- Before a key goes in, a full table grows: it keeps its keys and has room for one more. -/
theorem Wf.grow {t : SlotTable} (hw : t.Wf) :
    ∃ g : SlotTable, (if t.room = 0 then t.resize (capacityOf t.slots.size + 1) else t) = g ∧
      g.Wf ∧ g.keys.Perm t.keys ∧ 0 < g.room := by
  have hroom := hw.room
  split
  · obtain ⟨hw', hperm, hgroom⟩ :=
      hw.resize (show t.keys.length ≤ capacityOf t.slots.size + 1 by omega)
    have hcap := (slotsFor_spec (capacityOf t.slots.size + 1)).2.2
    exact ⟨_, rfl, hw', hperm, by omega⟩
  · exact ⟨t, rfl, hw, List.Perm.refl _, by omega⟩

theorem mem_keys_iff_contains {t : SlotTable} {k : Nat} :
    k ∈ t.keys ↔ t.slots.contains (some k) = true := by
  rw [Array.contains_iff_mem, Array.mem_def, keys_eq, held, List.mem_filterMap]
  simp

/-- Inserting a key keeps a table well formed and adds the key to its keys. -/
theorem Wf.insert {t : SlotTable} (hw : t.Wf) (k : Nat) :
    (t.insert k).Wf ∧ ∀ x, x ∈ (t.insert k).keys ↔ x ∈ t.keys ∨ x = k := by
  obtain ⟨g, hg, hwg, hperm, hroom⟩ := hw.grow
  unfold SlotTable.insert
  dsimp only
  rw [hg]
  split
  next hc =>
    -- The key is there already.
    have hk : k ∈ g.keys := mem_keys_iff_contains.2 hc
    refine ⟨hwg, fun x => ⟨fun hx => .inl (hperm.mem_iff.1 hx), ?_⟩⟩
    rintro (hx | rfl)
    · exact hperm.mem_iff.2 hx
    · exact hk
  next hc =>
    -- The key goes into a free slot: a table with room holds fewer keys than slots.
    have hk : k ∉ g.keys := fun h => hc (mem_keys_iff_contains.1 h)
    have hgroom := hwg.room
    have hpos : 0 < g.slots.size := by
      by_contra h0
      have h00 : capacityOf g.slots.size = 0 := by rw [Nat.eq_zero_of_not_pos h0]; rfl
      omega
    have hlt := capacityOf_lt hpos
    obtain ⟨hsz, hp⟩ := place_held hwg.goodSize (by rw [← keys_eq]; omega) k
    have hplaced : (⟨place g.slots k, g.room - 1⟩ : SlotTable).keys.Perm (k :: g.keys) := hp
    refine ⟨⟨hsz ▸ hwg.goodSize, ?_, hplaced.nodup_iff.2 (List.nodup_cons.2 ⟨hk, hwg.nodup⟩)⟩,
      fun x => ?_⟩
    · show g.room - 1 + (⟨place g.slots k, g.room - 1⟩ : SlotTable).keys.length =
        capacityOf (place g.slots k).size
      rw [hplaced.length_eq, hsz, List.length_cons]
      omega
    · rw [hplaced.mem_iff, List.mem_cons, hperm.mem_iff, or_comm]

/-- Keys inserted one after the other are all listed, each once, and nothing else is. -/
theorem Wf.foldl_insert (ks : List Nat) :
    ∀ {t : SlotTable}, t.Wf →
      (ks.foldl SlotTable.insert t).Wf ∧
        ∀ x, x ∈ (ks.foldl SlotTable.insert t).keys ↔ x ∈ t.keys ∨ x ∈ ks := by
  induction ks with
  | nil => intro t hw; simpa using hw
  | cons k ks ih =>
    intro t hw
    obtain ⟨hw', hmem⟩ := hw.insert k
    obtain ⟨hw'', hmem'⟩ := ih hw'
    refine ⟨hw'', fun x => ?_⟩
    rw [List.foldl_cons, hmem', hmem, List.mem_cons]
    tauto

/-- The table of a list of keys lists exactly those keys. -/
theorem mem_keys_ofList (ks : List Nat) (k : Nat) : k ∈ (ofList ks).keys ↔ k ∈ ks := by
  rw [ofList, ((wf_empty).foldl_insert ks).2]
  simp [empty, keys]

/-- The table of a list of keys lists each key once. -/
theorem nodup_keys_ofList (ks : List Nat) : (ofList ks).keys.Nodup :=
  ((wf_empty).foldl_insert ks).1.nodup

end SlotTable

end Wayfinder.Hash
