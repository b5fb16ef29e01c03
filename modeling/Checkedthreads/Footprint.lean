import Checkedthreads.OwnerMap
import Mathlib.Data.Finset.Card
import Mathlib.Data.Finset.Prod

/-!
How many nodes the page table holds over whole runs.

`ct_get_page` allocates a node only for a null slot on its way down, and only
`ct_clear_pagetab` frees one. So between two clears the table holds one L2 table per L2 index,
one L1 table per pair of L2 and L1 indices and one page per triple of L2, L1 and page indices
among the addresses it was given, and no other node. The indices are cut from the low 32 bits
of the address, the L2 index is always 0 and the L1 index has 8 bits, so that is never more
than 1 + 2^8 + 2^20 nodes, however many addresses the client touches.
-/

namespace Checkedthreads.AllocLists

open Pagetab

-- the slots of L3 and of an L2 table on the way to the L1 table of `a`
def l1Key (a : ℕ) : ℕ × ℕ := (l2Pagetab a, l1Pagetab a)

-- the three slots on the way to the page of `a`
def pageKey (a : ℕ) : ℕ × ℕ × ℕ := (l2Pagetab a, l1Pagetab a, page a)

lemma l1Key_eq_iff {a b : ℕ} : l1Key b = l1Key a ↔ l1Pagetab b = l1Pagetab a := by
  simp [l1Key, l2Pagetab_eq]

lemma pageKey_eq_iff {a b : ℕ} :
    pageKey b = pageKey a ↔ l1Pagetab b = l1Pagetab a ∧ page b = page a := by
  simp [pageKey, l2Pagetab_eq]

namespace Shape

variable {s : Shape} {n : ℕ}

/-- The nodes of `s` are distinct and below `n`, the next identity `VG_(calloc)` hands out. -/
structure Fresh (s : Shape) (n : ℕ) : Prop where
  nodup : s.ids.Nodup
  lt : ∀ k ∈ s.ids, k < n

lemma Fresh.not_mem (hf : s.Fresh n) : n ∉ s.ids := fun h => lt_irrefl _ (hf.lt n h)

-- a shape that gains node `n` is fresh past it, and one node longer
lemma Fresh.cons {s' : Shape} (hf : s.Fresh n) (h : s'.ids.Perm (n :: s.ids)) :
    s'.Fresh (n + 1) ∧ s'.ids.length + n = s.ids.length + (n + 1) := by
  refine ⟨⟨h.nodup_iff.2 (List.nodup_cons.2 ⟨hf.not_mem, hf.nodup⟩), fun k hk => ?_⟩, ?_⟩
  · rcases List.mem_cons.1 (h.subset hk) with rfl | hk
    · exact Nat.lt_succ_self k
    · exact (hf.lt k hk).trans (Nat.lt_succ_self n)
  · rw [h.length_eq, List.length_cons]; omega

/-! ### Slots filled by one level -/

lemma l1Path_congr (s : Shape) {a b : ℕ} (h : l1Pagetab b = l1Pagetab a) :
    s.l1Path b = s.l1Path a := by
  simp [l1Path, l2Pagetab_eq, h]

-- two addresses whose paths reach one L1 table agree on its slot in their L2 table
lemma l1Path_inj (nd : s.ids.Nodup) {a b j : ℕ} (ha : s.l1Path a = some j)
    (hb : s.l1Path b = some j) : l1Pagetab b = l1Pagetab a := by
  simp only [l1Path, l2Pagetab_eq] at ha hb
  obtain ⟨i, hi, ha⟩ := Option.bind_eq_some.1 ha
  obtain ⟨i', hi', hb⟩ := Option.bind_eq_some.1 hb
  obtain rfl : i = i' := Option.some.inj (hi.symm.trans hi')
  exact lookup_inj (nd.sublist ((sublist_flatMap_snoc _ _).trans (s.under_sublist
    (mem_of_lookup hi)))) hb ha

lemma l1Path_eq_some_iff (nd : s.ids.Nodup) {a b j : ℕ} (ha : s.l1Path a = some j) :
    s.l1Path b = some j ↔ l1Pagetab b = l1Pagetab a :=
  ⟨fun hb => l1Path_inj nd ha hb, fun h => (s.l1Path_congr h).trans ha⟩

section Level3

variable (s) (a n : ℕ)

lemma lookup_grow3 : (s.grow3 (l2Pagetab a) n).1.l3.lookup (l2Pagetab a) =
    some (s.grow3 (l2Pagetab a) n).2.1 := by
  unfold grow3; split <;> simp_all [addL2]

-- a new L2 table is empty, so no path runs through it yet
lemma l1Path_grow3 : (s.grow3 (l2Pagetab a) n).1.l1Path = s.l1Path := by
  funext b
  unfold grow3 l1Path
  rw [l2Pagetab_eq, l2Pagetab_eq]
  split
  · rfl
  · next _ h => simp [addL2, h]

lemma path_grow3 : (s.grow3 (l2Pagetab a) n).1.path = s.path := by
  funext b
  have : (s.grow3 (l2Pagetab a) n).1.l1 = s.l1 := by unfold grow3; split <;> rfl
  simp only [path, l1Path_grow3, this]

lemma fresh_grow3 (hf : s.Fresh n) :
    (s.grow3 (l2Pagetab a) n).1.Fresh (s.grow3 (l2Pagetab a) n).2.2 ∧
      (s.grow3 (l2Pagetab a) n).1.ids.length + n =
        s.ids.length + (s.grow3 (l2Pagetab a) n).2.2 := by
  unfold grow3; split
  · exact ⟨hf, rfl⟩
  · exact hf.cons (.of_eq (ids_addL2 fun h => hf.not_mem (s.mem_ids_of_l2 h)))

end Level3

section Level2

variable (s) {i : ℕ} (a n : ℕ)

lemma l3_grow2 (x : ℕ) : (s.grow2 i x n).1.l3 = s.l3 := by unfold grow2; split <;> rfl

lemma l1Path_grow2_self (hi : s.l3.lookup (l2Pagetab a) = some i) :
    (s.grow2 i (l1Pagetab a) n).1.l1Path a = some (s.grow2 i (l1Pagetab a) n).2.1 := by
  simp only [l1Path, l3_grow2, hi, Option.some_bind]
  unfold grow2; split <;> simp_all [addL1]

lemma isSome_l1Path_grow2 (hi : s.l3.lookup (l2Pagetab a) = some i) (b : ℕ) :
    ((s.grow2 i (l1Pagetab a) n).1.l1Path b).isSome ↔
      (s.l1Path b).isSome ∨ l1Pagetab b = l1Pagetab a := by
  have hb : s.l3.lookup (l2Pagetab b) = some i := by rwa [l2Pagetab_eq b, ← l2Pagetab_eq a]
  simp only [l1Path, l3_grow2, hb, Option.some_bind]
  unfold grow2; split
  · refine ⟨Or.inl, fun h => h.elim id fun e => ?_⟩
    simp_all
  · next _ h =>
    simp only [addL1, Function.update_same, lookup_cons_of_not_key (not_key_of_lookup h)]
    split_ifs with e <;> simp [e]

lemma path_grow2 (hf : s.Fresh n) (x : ℕ) : (s.grow2 i x n).1.path = s.path := by
  unfold grow2; split
  · rfl
  · exact funext (path_addL1 (not_key_of_lookup ‹_›) hf.not_mem)

lemma fresh_grow2 (hf : s.Fresh n) (hi : i ∈ s.l2s) (x : ℕ) :
    (s.grow2 i x n).1.Fresh (s.grow2 i x n).2.2 ∧
      (s.grow2 i x n).1.ids.length + n = s.ids.length + (s.grow2 i x n).2.2 := by
  unfold grow2; split
  · exact ⟨hf, rfl⟩
  · exact hf.cons (ids_addL1 hf.nodup hi hf.not_mem)

end Level2

section Level1

variable (s) {j : ℕ} (a n : ℕ)

lemma l3_grow1 (x : ℕ) : (s.grow1 j x n).1.l3 = s.l3 := by unfold grow1; split <;> rfl

lemma l1Path_grow1 (x : ℕ) : (s.grow1 j x n).1.l1Path = s.l1Path := by
  unfold grow1; split <;> rfl

lemma isSome_path_grow1 (nd : s.ids.Nodup) (hj : s.l1Path a = some j) (b : ℕ) :
    ((s.grow1 j (page a) n).1.path b).isSome ↔
      (s.path b).isSome ∨ l1Pagetab b = l1Pagetab a ∧ page b = page a := by
  unfold grow1; split
  · next _ q hq =>
    refine ⟨Or.inl, fun h => h.elim id fun ⟨e1, e0⟩ => ?_⟩
    rw [path_congr s e1 e0]; simp [path, hj, hq]
  · next _ hq =>
    rw [path_addPage (not_key_of_lookup hq)]
    by_cases e : l1Pagetab b = l1Pagetab a ∧ page b = page a
    · rw [if_pos ⟨(l1Path_eq_some_iff nd hj).2 e.1, e.2⟩]; simp [e]
    · rw [if_neg fun h => e ⟨(l1Path_eq_some_iff nd hj).1 h.1, h.2⟩]; simp [e]

lemma fresh_grow1 (hf : s.Fresh n) {i : ℕ} (hi : i ∈ s.l2s) (hj : j ∈ s.l1sOf i) (x : ℕ) :
    (s.grow1 j x n).1.Fresh (s.grow1 j x n).2.2 ∧
      (s.grow1 j x n).1.ids.length + n = s.ids.length + (s.grow1 j x n).2.2 := by
  unfold grow1; split
  · exact ⟨hf, rfl⟩
  · exact hf.cons (ids_addPage hf.nodup hi hj)

end Level1

/-! ### The whole descent -/

-- `ct_get_page` allocates one node for each level whose slot was null
lemma getPage_next (s : Shape) (a n : ℕ) :
    (s.getPage a n).2.2 = n + (if (s.l3.lookup (l2Pagetab a)).isSome then 0 else 1) +
      (if (s.l1Path a).isSome then 0 else 1) + (if (s.path a).isSome then 0 else 1) := by
  cases h3 : s.l3.lookup (l2Pagetab a) with
  | none => simp [getPage, grow3, h3, grow2, grow1, addL2, addL1, path, l1Path]
  | some i =>
    cases h2 : (s.l2 i).lookup (l1Pagetab a) with
    | none => simp [getPage, grow3, h3, h2, grow2, grow1, addL1, path, l1Path]
    | some j =>
      cases h1 : (s.l1 j).lookup (page a) <;>
        simp [getPage, grow3, h3, h2, h1, grow2, grow1, path, l1Path]

/-- **The slots `ct_get_page` fills.** From a fresh shape, the call keeps it fresh, grows it by
the nodes it allocates, fills the slot of L3, and fills the slots of an L2 and an L1 table for
exactly the addresses that share those of `a`. -/
lemma getPage_spec (hf : s.Fresh n) {a ip n' : ℕ} {s' : Shape}
    (h : s.getPage a n = (s', ip, n')) :
    s'.Fresh n' ∧ s'.ids.length + n = s.ids.length + n' ∧
      (∀ b, (s'.l3.lookup (l2Pagetab b)).isSome) ∧
      (∀ b, (s'.l1Path b).isSome ↔ (s.l1Path b).isSome ∨ l1Pagetab b = l1Pagetab a) ∧
      ∀ b, (s'.path b).isSome ↔ (s.path b).isSome ∨ l1Pagetab b = l1Pagetab a ∧ page b = page a := by
  simp only [getPage] at h
  obtain ⟨f3, len3⟩ := s.fresh_grow3 a n hf
  have hl3 := s.lookup_grow3 a n
  have e3 := s.l1Path_grow3 a n
  have p3 := s.path_grow3 a n
  generalize s.grow3 (l2Pagetab a) n = r3 at h f3 len3 hl3 e3 p3
  obtain ⟨s1, i, n1⟩ := r3
  obtain ⟨f2, len2⟩ := s1.fresh_grow2 n1 f3 (mem_of_lookup hl3) (l1Pagetab a)
  have hs2 := s1.l1Path_grow2_self a n1 hl3
  have q2 := s1.isSome_l1Path_grow2 a n1 hl3
  have p2 := s1.path_grow2 n1 f3 (i := i) (l1Pagetab a)
  have l32 := s1.l3_grow2 n1 (i := i) (l1Pagetab a)
  generalize s1.grow2 i (l1Pagetab a) n1 = r2 at h f2 len2 hs2 q2 p2 l32
  obtain ⟨s2, j, n2⟩ := r2
  obtain ⟨i', hi', hj'⟩ := l1Path_mem hs2
  have f1 := s2.fresh_grow1 n2 f2 hi' hj' (page a)
  have q1 := s2.isSome_path_grow1 a n2 f2.nodup hs2
  have e1 := s2.l1Path_grow1 n2 (j := j) (page a)
  have l31 := s2.l3_grow1 n2 (j := j) (page a)
  rw [h] at f1 q1 e1 l31
  refine ⟨f1.1, by simp only at len3 len2 f1; omega, fun b => ?_, fun b => ?_, fun b => ?_⟩
  · rw [l31, l32, l2Pagetab_eq b, ← l2Pagetab_eq a, hl3]; rfl
  · rw [e1, q2, e3]
  · rw [q1, p2, p3]

end Shape

lemma card_map_cons {β : Type} [DecidableEq β] (f : ℕ → β) (a : ℕ) (T : List ℕ) :
    ((a :: T).map f).toFinset.card = (T.map f).toFinset.card + if f a ∈ T.map f then 0 else 1 := by
  rw [List.map_cons, List.toFinset_cons, Finset.card_insert_eq_ite]
  simp only [List.mem_toFinset]
  split_ifs <;> rfl

namespace Shape

variable {s : Shape} {n : ℕ} {T : List ℕ}

/-- Shape `s` has filled the slots on the way to exactly the addresses of `T`, and holds one
node per distinct slot of L3, per distinct pair of slots down to an L1 table and per distinct
triple down to a page among them. -/
structure Tracks (s : Shape) (T : List ℕ) : Prop where
  l3 : ∀ b, (s.l3.lookup (l2Pagetab b)).isSome ↔ l2Pagetab b ∈ T.map l2Pagetab
  l1Path : ∀ b, (s.l1Path b).isSome ↔ l1Key b ∈ T.map l1Key
  path : ∀ b, (s.path b).isSome ↔ pageKey b ∈ T.map pageKey
  length : s.ids.length = (T.map l2Pagetab).toFinset.card + (T.map l1Key).toFinset.card +
    (T.map pageKey).toFinset.card

lemma tracks_empty : empty.Tracks [] :=
  ⟨by simp [empty], by simp [l1Path, empty], by simp [path, l1Path, empty], rfl⟩

lemma Tracks.getPage (ht : s.Tracks T) (hf : s.Fresh n) {a ip n' : ℕ} {s' : Shape}
    (h : s.getPage a n = (s', ip, n')) : s'.Tracks (a :: T) := by
  obtain ⟨-, hlen, h3, h2, h1⟩ := getPage_spec hf h
  have hn := s.getPage_next a n
  rw [h] at hn
  dsimp only at hn
  refine ⟨fun b => ?_, fun b => ?_, fun b => ?_, ?_⟩
  · exact iff_of_true (h3 b) (List.mem_map.2 ⟨a, List.mem_cons_self _ _, by
      rw [l2Pagetab_eq, l2Pagetab_eq]⟩)
  · rw [h2, ht.l1Path, List.map_cons, List.mem_cons, l1Key_eq_iff, or_comm]
  · rw [h1, ht.path, List.map_cons, List.mem_cons, pageKey_eq_iff, or_comm]
  · rw [card_map_cons, card_map_cons, card_map_cons]
    simp only [← ht.l3 a, ← ht.l1Path a, ← ht.path a]
    rw [ht.length] at hlen
    split_ifs at hn ⊢ <;> omega

end Shape

end Checkedthreads.AllocLists

namespace Checkedthreads.Lifetime

open Pagetab AllocLists

/-- The addresses given to `ct_get_page` since the last `ct_clear_pagetab`, `T` before the
call. -/
def afterCall (T : List ℕ) : Call → List ℕ
  | .getPage a => a :: T
  | .clear => []

/-- The addresses a run gave `ct_get_page` since its last `ct_clear_pagetab`. -/
def touched (cs : List Call) : List ℕ := cs.foldl afterCall []

variable {m : Mem} {s : Shape}

lemma run_tracks (r : Rep m s) {T : List ℕ} (ht : s.Tracks T) (cs : List Call) :
    ∃ m' es s', ptRun m cs = some (m', es) ∧ Rep m' s' ∧ s'.Tracks (cs.foldl afterCall T) := by
  induction cs generalizing m s T with
  | nil => exact ⟨m, [], s, rfl, r, ht⟩
  | cons c cs ih =>
    cases c with
    | getPage a =>
      obtain ⟨m', ip, s', h, r', -, -, -, hg⟩ := r.ctGetPage a
      obtain ⟨m2, es, s2, h2, r2, ht2⟩ := ih r' (ht.getPage ⟨r.nodup, fun _ => r.lt_next⟩ hg)
      exact ⟨m2, _, s2, by simp [ptRun, ptStep, h, h2]; rfl, r2, ht2⟩
    | clear =>
      obtain ⟨m2, es, s2, h2, r2, ht2⟩ := ih r.clear Shape.tracks_empty
      exact ⟨m2, _, s2, by simp [ptRun, ptStep, r.ctClearPagetab_eq, h2]; rfl, r2, ht2⟩

lemma card_map_le {β : Type} [DecidableEq β] (f : ℕ → β) (S : Finset β) (h : ∀ a, f a ∈ S)
    (T : List ℕ) : (T.map f).toFinset.card ≤ S.card :=
  Finset.card_le_card fun x hx => by
    obtain ⟨a, -, rfl⟩ := List.mem_map.1 (List.mem_toFinset.1 hx)
    exact h a

/-- At most one L2 index, 2^8 pairs of indices down to an L1 table and 2^20 triples down to a
page. -/
lemma card_keys_le (T : List ℕ) :
    (T.map l2Pagetab).toFinset.card + (T.map l1Key).toFinset.card +
      (T.map pageKey).toFinset.card ≤ 1 + 2 ^ 8 + 2 ^ 20 := by
  have h2 : ∀ a, l2Pagetab a < 1 := fun a => by rw [l2Pagetab_eq]; exact Nat.zero_lt_one
  have h1 : ∀ a, l1Pagetab a < 256 := fun a => by rw [l1Pagetab_eq]; omega
  have h0 : ∀ a, page a < 4096 := fun a => by rw [page_eq]; omega
  have c3 := card_map_le l2Pagetab (Finset.range 1) (fun a => Finset.mem_range.2 (h2 a)) T
  have c2 := card_map_le l1Key (Finset.range 1 ×ˢ Finset.range 256) (fun a => by
    rw [Finset.mem_product, Finset.mem_range, Finset.mem_range]; exact ⟨h2 a, h1 a⟩) T
  have c1 := card_map_le pageKey (Finset.range 1 ×ˢ (Finset.range 256 ×ˢ Finset.range 4096))
    (fun a => by
      rw [Finset.mem_product, Finset.mem_product, Finset.mem_range, Finset.mem_range,
        Finset.mem_range]
      exact ⟨h2 a, h1 a, h0 a⟩) T
  simp only [Finset.card_product, Finset.card_range] at c3 c2 c1
  omega

/-- **The footprint of the page table.** After any run of `ct_get_page` and `ct_clear_pagetab`
calls from the empty table, the live nodes are those the next `ct_clear_pagetab` frees, once
each, and there is one per distinct L2 index, one per distinct pair of L2 and L1 indices and one
per distinct triple of L2, L1 and page indices of the addresses given to `ct_get_page` since the
last clear: never more than 1 + 2^8 + 2^20. -/
theorem live_nodes_eq_distinct_slots (cs : List Call) :
    ∃ m es, ptRun Mem.init cs = some (m, es) ∧
      ∃ m' freed, ctClearPagetab m = some (m', freed) ∧ freed.Nodup ∧
        (∀ k, (m.heap.node k).isSome ↔ k ∈ freed) ∧
        freed.length = ((touched cs).map l2Pagetab).toFinset.card +
          ((touched cs).map l1Key).toFinset.card + ((touched cs).map pageKey).toFinset.card ∧
        freed.length ≤ 1 + 2 ^ 8 + 2 ^ 20 := by
  obtain ⟨m, es, s, h, r, ht⟩ := run_tracks rep_init Shape.tracks_empty cs
  exact ⟨m, es, h, _, _, r.ctClearPagetab_eq, r.nodup, r.live, ht.length,
    ht.length ▸ card_keys_le _⟩

end Checkedthreads.Lifetime
