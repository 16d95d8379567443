import Mathlib.Data.List.AList

/-!
# Bounded caches that give up what was used least recently

The entries of a cache stand in the order of their last use, the latest first: to use a
key is to put its entry in front, which is what `AList.insert` does, and room is made at
the end.  The order is measured against a history, which lists the keys that were used,
the latest first.
-/

namespace Lru

universe u v

variable {κ : Type u} {β : κ → Type v}

/-- The `n` entries that were used last. -/
def keep (n : Nat) (c : AList β) : AList β where
  entries := c.entries.take n
  nodupKeys := c.nodupKeys.sublist (List.take_sublist n c.entries)

@[simp] theorem keys_keep (n : Nat) (c : AList β) : (keep n c).keys = c.keys.take n := by
  simp [keep, AList.keys, List.keys, List.map_take]

@[simp] theorem length_keep (n : Nat) (c : AList β) :
    (keep n c).entries.length = min n c.entries.length := List.length_take

theorem keep_of_length_le {n : Nat} {c : AList β} (h : c.entries.length ≤ n) : keep n c = c :=
  AList.ext (List.take_of_length_le h)

theorem mem_of_mem_keep {n : Nat} {c : AList β} {k : κ} (h : k ∈ keep n c) : k ∈ c := by
  rw [AList.mem_keys, keys_keep] at h
  exact AList.mem_keys.mpr (List.mem_of_mem_take h)

/-- An entry is only given up for a full cache. -/
theorem length_of_gone {n : Nat} {c : AList β} {k : κ} (hk : k ∈ c) (hgone : k ∉ keep n c) :
    n < c.entries.length ∧ (keep n c).entries.length = n := by
  have hlt : n < c.entries.length := by
    by_contra hle
    rw [keep_of_length_le (not_lt.mp hle)] at hgone
    exact hgone hk
  exact ⟨hlt, by rw [length_keep]; omega⟩

/-- A cache with its limit. -/
structure Bounded (β : κ → Type v) where
  cache : AList β
  limit : Nat

/-- What is done to a cache.  A use of a key without an entry makes one, if there is a
value for it. -/
inductive Op (β : κ → Type v) where
  | remove (k : κ)
  | use (k : κ) (v : Option (β k))
  | resize (n : Nat)

/-- The key that is used. -/
def Op.used : Op β → Option κ
  | .use k _ => some k
  | _ => none

/-- The limit is not set to zero. -/
def Op.Positive : Op β → Prop
  | .resize n => 0 < n
  | _ => True

section Order

variable [DecidableEq κ] {uses : List κ} {c : AList β} {k k' l : κ} {n : Nat}

/-- The last use of `k` is later than that of `k'`. -/
def MoreRecent (uses : List κ) (k k' : κ) : Prop := uses.idxOf k < uses.idxOf k'

instance : Decidable (MoreRecent uses k k') := inferInstanceAs (Decidable (_ < _))

theorem moreRecent_cons_self (h : k' ≠ k) : MoreRecent (k :: uses) k k' := by
  rw [MoreRecent, List.idxOf_cons_self, List.idxOf_cons_ne _ h.symm]
  exact Nat.succ_pos _

theorem moreRecent_cons_iff (h : k ≠ l) (h' : k' ≠ l) :
    MoreRecent (l :: uses) k k' ↔ MoreRecent uses k k' := by
  rw [MoreRecent, List.idxOf_cons_ne _ h.symm, List.idxOf_cons_ne _ h'.symm]
  exact Nat.succ_lt_succ_iff

/-- The entries are in the order of their last uses. -/
def Follows (uses : List κ) (c : AList β) : Prop := c.keys.Pairwise (MoreRecent uses)

namespace Follows

theorem empty : Follows uses (∅ : AList β) := List.Pairwise.nil

theorem keep (h : Follows uses c) (n : Nat) : Follows uses (keep n c) := by
  rw [Follows, keys_keep]
  exact h.sublist (List.take_sublist n c.keys)

theorem erase (h : Follows uses c) (k : κ) : Follows uses (c.erase k) := by
  rw [Follows, AList.keys_erase]
  exact h.sublist (List.erase_sublist)

/-- A use of a key that has no entry. -/
theorem cons_of_notMem (h : Follows uses c) (hk : k ∉ c) : Follows (k :: uses) c := by
  refine h.imp_of_mem fun ha hb hab ↦ (moreRecent_cons_iff ?_ ?_).mpr hab
  · exact fun he ↦ hk (AList.mem_keys.mpr (he ▸ ha))
  · exact fun he ↦ hk (AList.mem_keys.mpr (he ▸ hb))

/-- A use of a key that has an entry afterwards. -/
theorem insert (h : Follows uses c) (v : β k) : Follows (k :: uses) (c.insert k v) := by
  have hrest : ∀ l ∈ c.keys.erase k, l ≠ k := fun l hl ↦ (c.keys_nodup.mem_erase_iff.mp hl).1
  rw [Follows, AList.keys_insert, List.pairwise_cons]
  refine ⟨fun l hl ↦ moreRecent_cons_self (hrest l hl), ?_⟩
  refine (h.sublist List.erase_sublist).imp_of_mem fun ha hb hab ↦ ?_
  exact (moreRecent_cons_iff (hrest _ ha) (hrest _ hb)).mpr hab

/-- What is not kept was used before all that is. -/
theorem moreRecent_of_keep (h : Follows uses c) (hk : k ∈ c) (hgone : k ∉ Lru.keep n c) :
    ∀ l ∈ Lru.keep n c, MoreRecent uses l k := by
  rw [AList.mem_keys, keys_keep] at hgone
  have hk : k ∈ c.keys.drop n := by
    have hmem := AList.mem_keys.mp hk
    rw [← List.take_append_drop n c.keys] at hmem
    exact (List.mem_append.mp hmem).resolve_left hgone
  rw [Follows, ← List.take_append_drop n c.keys, List.pairwise_append] at h
  intro l hl
  rw [AList.mem_keys, keys_keep] at hl
  exact h.2.2 l hl k hk

end Follows

end Order

namespace Bounded

variable [DecidableEq κ] {s : Bounded β} {op : Op β} {uses : List κ} {k : κ}

/-- One operation. -/
def step (s : Bounded β) : Op β → Bounded β
  | .remove k => { s with cache := s.cache.erase k }
  | .use k v =>
      match s.cache.lookup k, v with
      | some v, _ => { s with cache := s.cache.insert k v }
      | none, some v => { s with cache := (keep (s.limit - 1) s.cache).insert k v }
      | none, none => s
  | .resize n => { cache := keep n s.cache, limit := n }

theorem step_use_of_lookup {v : β k} (h : s.cache.lookup k = some v) (v' : Option (β k)) :
    s.step (.use k v') = { s with cache := s.cache.insert k v } := by
  simp only [step, h]

theorem step_use_of_notMem (h : k ∉ s.cache) (v : β k) :
    s.step (.use k (some v)) = { s with cache := (keep (s.limit - 1) s.cache).insert k v } := by
  simp only [step, AList.lookup_eq_none.mpr h]

theorem step_use_none (h : k ∉ s.cache) : s.step (.use k none) = s := by
  simp only [step, AList.lookup_eq_none.mpr h]

/-- The cache is in order and within its limit. -/
structure Ordered (uses : List κ) (s : Bounded β) : Prop where
  limit_pos : 0 < s.limit
  length_le : s.cache.entries.length ≤ s.limit
  follows : Follows uses s.cache

/-- The entry of `k` has gone from a full cache, which is still full, and all that stay were
used after it. -/
structure Evicted (uses : List κ) (s t : Bounded β) (k : κ) : Prop where
  full : t.limit ≤ s.cache.entries.length
  still : t.cache.entries.length = t.limit
  least : ∀ l ∈ s.cache, l ∈ t.cache → MoreRecent uses l k

/-- What is in a cache after an entry has been put in front. -/
theorem length_insert {c : AList β} {v : β k} :
    (c.insert k v).entries.length = if k ∈ c then c.entries.length else c.entries.length + 1 := by
  have hlength : ∀ c : AList β, c.entries.length = c.keys.length := fun c ↦ (List.length_map _).symm
  rw [hlength, hlength, AList.keys_insert, List.length_cons]
  split
  · next hk => rw [List.length_erase_add_one (AList.mem_keys.mp hk)]
  · next hk => rw [List.erase_of_not_mem fun h ↦ hk (AList.mem_keys.mpr h)]

theorem Ordered.step (h : s.Ordered uses) (hop : op.Positive) :
    (s.step op).Ordered (op.used.toList ++ uses) := by
  obtain ⟨hpos, hlen, hf⟩ := h
  cases op with
  | remove k => exact ⟨hpos, le_trans (List.kerase_sublist k _).length_le hlen, hf.erase k⟩
  | resize n => exact ⟨hop, length_keep n s.cache ▸ Nat.min_le_left .., hf.keep n⟩
  | use k v =>
      by_cases hk : k ∈ s.cache
      · obtain ⟨v', hv'⟩ := Option.isSome_iff_exists.mp (AList.lookup_isSome.mpr hk)
        rw [step_use_of_lookup hv']
        exact ⟨hpos, by rwa [length_insert, if_pos hk], hf.insert v'⟩
      cases v with
      | none =>
          rw [step_use_none hk]
          exact ⟨hpos, hlen, hf.cons_of_notMem hk⟩
      | some v =>
          rw [step_use_of_notMem hk]
          refine ⟨hpos, ?_, (hf.keep _).insert v⟩
          rw [length_insert, if_neg fun hm ↦ hk (mem_of_mem_keep hm), length_keep]
          exact Nat.add_le_of_le_sub hpos (Nat.min_le_left ..)

/-- An entry goes when it is removed or evicted. -/
theorem Ordered.gone (h : s.Ordered uses) (hk : k ∈ s.cache) (hgone : k ∉ (s.step op).cache) :
    op = .remove k ∨ Evicted uses s (s.step op) k := by
  obtain ⟨hpos, hlen, hf⟩ := h
  cases op with
  | remove l =>
      obtain rfl : k = l := by
        by_contra hne
        exact hgone (AList.mem_erase.mpr ⟨hne, hk⟩)
      exact .inl rfl
  | resize n =>
      obtain ⟨hlt, hstill⟩ := length_of_gone hk hgone
      exact .inr ⟨Nat.le_of_lt hlt, hstill, fun l _ hl ↦ hf.moreRecent_of_keep hk hgone l hl⟩
  | use l v =>
      by_cases hl : l ∈ s.cache
      · obtain ⟨v', hv'⟩ := Option.isSome_iff_exists.mp (AList.lookup_isSome.mpr hl)
        rw [step_use_of_lookup hv'] at hgone
        exact absurd ((AList.mem_insert _).mpr (.inr hk)) hgone
      cases v with
      | none =>
          rw [step_use_none hl] at hgone
          exact absurd hk hgone
      | some v =>
          rw [step_use_of_notMem hl] at hgone ⊢
          have hgone : k ∉ keep (s.limit - 1) s.cache := fun hm ↦
            hgone ((AList.mem_insert _).mpr (.inr hm))
          obtain ⟨hlt, hstill⟩ := length_of_gone hk hgone
          refine .inr ⟨Nat.le_of_pred_lt hlt, ?_, fun l' hl' hstays ↦ ?_⟩
          · rw [length_insert, if_neg fun hm ↦ hl (mem_of_mem_keep hm), hstill]
            exact Nat.sub_add_cancel hpos
          · rcases (AList.mem_insert _).mp hstays with rfl | hkept
            · exact absurd hl' hl
            · exact hf.moreRecent_of_keep hk hgone l' hkept

end Bounded

end Lru
