import Checkedthreads.Pagetab
import Mathlib.Data.List.Perm.Subperm
import Mathlib.Data.List.Nodup

/-!
The allocation lists of the page table, and what `ct_clear_pagetab` does with them.

A well-formed table is described by its shape: for `g_ct_pagetab_L3` and for each live L2
and L1 table, the nodes allocated under it, most recent first, each with the slot it fills.
The representation invariant `Rep` says that the lists threaded through the `prev` links and
the slot arrays both hold exactly that shape, and that the nodes of the shape, which are all
distinct, are the live nodes of the heap. From it, `ct_clear_pagetab` frees each of them once,
in the order of its three nested loops, and nothing else.
-/

namespace Checkedthreads.AllocLists

open Pagetab

/-- An allocation list: from `hd`, following the links of level `k`, the nodes `l` and then
null. Each node of the list is a live node of level `k`. -/
inductive Chain (h : Heap) (k : Level) : Option ℕ → List ℕ → Prop
  | nil : Chain h k none []
  | cons {i : ℕ} {l : List ℕ} : (h.node i).bind (Node.prev k) = some l.head? →
      Chain h k l.head? l → Chain h k (some i) (i :: l)

lemma Chain.head {h : Heap} {k : Level} {hd : Option ℕ} {l : List ℕ} (c : Chain h k hd l) :
    hd = l.head? := by
  cases c <;> rfl

lemma Chain.link {h : Heap} {k : Level} {hd : Option ℕ} {l : List ℕ} (c : Chain h k hd l)
    {i : ℕ} (hi : i ∈ l) : ∃ p, (h.node i).bind (Node.prev k) = some p := by
  induction c with
  | nil => simp at hi
  | cons hl _ ih =>
    rcases List.mem_cons.1 hi with rfl | hi
    · exact ⟨_, hl⟩
    · exact ih hi

-- a list survives any change of the heap that keeps the links of its nodes
lemma Chain.congr {h h' : Heap} {k : Level} {hd : Option ℕ} {l : List ℕ} (c : Chain h k hd l)
    (e : ∀ i ∈ l, (h'.node i).bind (Node.prev k) = (h.node i).bind (Node.prev k)) :
    Chain h' k hd l := by
  induction c with
  | nil => exact .nil
  | cons hl _ ih =>
    exact .cons ((e _ (List.mem_cons_self _ _)).trans hl)
      (ih fun j hj => e j (List.mem_cons_of_mem _ hj))

/-- Table `t` lists the nodes of `es`, most recent first, through links of level `k`, and
its slots hold exactly them: entry `(x, c)` is node `c` in slot `x`. -/
structure TabRep (h : Heap) (k : Level) (t : Tab) (es : List (ℕ × ℕ)) : Prop where
  chain : Chain h k t.lastAlloc (es.map Prod.snd)
  slots : ∀ x, t.slots x = es.lookup x
  keys : (es.map Prod.fst).Nodup

/-- The allocation lists as ghost data: under L3, and under each L2 and each L1 table. -/
structure Shape where
  l3 : List (ℕ × ℕ)
  l2 : ℕ → List (ℕ × ℕ)
  l1 : ℕ → List (ℕ × ℕ)

namespace Shape

-- the shape of an empty table
def empty : Shape := ⟨[], fun _ => [], fun _ => []⟩

-- the L2 tables
def l2s (s : Shape) : List ℕ := s.l3.map Prod.snd

-- the L1 tables of L2 table `i`
def l1sOf (s : Shape) (i : ℕ) : List ℕ := (s.l2 i).map Prod.snd

-- the pages of L1 table `j`
def pages (s : Shape) (j : ℕ) : List ℕ := (s.l1 j).map Prod.snd

/-- Everything under L2 table `i`, in the order `ct_clear_pagetab` frees it. -/
def under (s : Shape) (i : ℕ) : List ℕ := (s.l1sOf i).flatMap fun j => s.pages j ++ [j]

/-- Every node, in the order `ct_clear_pagetab` frees them. -/
def ids (s : Shape) : List ℕ := s.l2s.flatMap fun i => s.under i ++ [i]

/-- The tables of level `k`, the L2 tables or the L1 tables under them, and their entries. -/
def tables (s : Shape) : TabLevel → List ℕ
  | .l2 => s.l2s
  | .l1 => s.l2s.flatMap s.l1sOf

def entries (s : Shape) : TabLevel → ℕ → List (ℕ × ℕ)
  | .l2 => s.l2
  | .l1 => s.l1

@[simp] lemma ids_empty : empty.ids = [] := rfl

lemma mem_l1s {s : Shape} {i j : ℕ} (hi : i ∈ s.l2s) (hj : j ∈ s.l1sOf i) : j ∈ s.tables .l1 :=
  List.mem_flatMap.2 ⟨i, hi, hj⟩

end Shape

/-- **The table invariant.** The lists and the slots hold shape `s`, whose nodes are all
distinct and are exactly the live nodes; nothing lives at or past the next identity. -/
structure Rep (m : Mem) (s : Shape) : Prop where
  l3 : TabRep m.heap .l2 m.l3 s.l3
  tabs : ∀ k, ∀ i ∈ s.tables k,
    ∃ t, m.heap.tabAt k i = some t ∧ TabRep m.heap k.child t.toTab (s.entries k i)
  nodup : s.ids.Nodup
  live : ∀ k, (m.heap.node k).isSome ↔ k ∈ s.ids
  fresh : ∀ k, m.heap.next ≤ k → m.heap.node k = none

-- a table some shape describes
def Wf (m : Mem) : Prop := ∃ s, Rep m s

lemma rep_init : Rep Mem.init Shape.empty where
  l3 := ⟨.nil, fun _ => rfl, List.nodup_nil⟩
  tabs := by rintro (_ | _) <;> simp [Shape.empty, Shape.tables, Shape.l2s]
  nodup := List.nodup_nil
  live := by simp [Mem.init]
  fresh := fun _ _ => rfl

/-! ### Sublists of the freeing order -/

lemma sublist_flatMap_snoc {α : Type} (l : List α) (F : α → List α) :
    l.Sublist (l.flatMap fun x => F x ++ [x]) := by
  induction l with
  | nil => simp
  | cons x l ih =>
    simpa using (ih.cons₂ x).trans ((List.sublist_append_right (F x) _).trans (by simp))

lemma sublist_flatMap_of_mem {α β : Type} {l : List α} {x : α} (hx : x ∈ l)
    (F : α → List β) : (F x).Sublist (l.flatMap F) := by
  induction l with
  | nil => simp at hx
  | cons y l ih =>
    rcases List.mem_cons.1 hx with rfl | hx
    · simp
    · simpa using (ih hx).trans (List.sublist_append_right _ _)

namespace Shape

variable (s : Shape) {i j : ℕ}

lemma under_sublist (hi : i ∈ s.l2s) : (s.under i).Sublist s.ids :=
  (List.sublist_append_left _ [i]).trans (sublist_flatMap_of_mem hi fun i => s.under i ++ [i])

lemma pages_sublist (hj : j ∈ s.l1sOf i) : (s.pages j).Sublist (s.under i) :=
  (List.sublist_append_left _ [j]).trans (sublist_flatMap_of_mem hj fun j => s.pages j ++ [j])

end Shape

lemma Rep.lt_next {m : Mem} {s : Shape} (r : Rep m s) {x : ℕ} (hx : x ∈ s.ids) :
    x < m.heap.next := by
  by_contra hn
  simpa [r.fresh x (by omega)] using (r.live x).2 hx

lemma Rep.length_le {m : Mem} {s : Shape} (r : Rep m s) {l : List ℕ} (hl : l.Sublist s.ids) :
    l.length ≤ m.heap.next :=
  hl.length_le.trans ((r.nodup.subperm fun _ hx => List.mem_range.2 (r.lt_next hx)).length_le.trans
    (by simp))

/-! ### Freeing -/

-- the heap with the nodes `D` freed
def freeAll (h : Heap) (D : List ℕ) : Heap := ⟨fun k => if k ∈ D then none else h.node k, h.next⟩

@[simp] lemma freeAll_node (h : Heap) (D : List ℕ) (k : ℕ) :
    (freeAll h D).node k = if k ∈ D then none else h.node k := rfl

@[simp] lemma freeAll_nil (h : Heap) : freeAll h [] = h := by
  cases h; simp [freeAll]

lemma free_freeAll {h : Heap} {D : List ℕ} {i : ℕ} (hi : i ∉ D) (hl : (h.node i).isSome) :
    (freeAll h D).free i = some (freeAll h (D ++ [i])) := by
  obtain ⟨n, hn⟩ := Option.isSome_iff_exists.1 hl
  simp only [Heap.free, freeAll_node, hi, if_false, hn, Option.map_some', freeAll]
  congr 2
  funext k
  by_cases hk : k = i <;> simp [Function.update_apply, hk]

/-- What a walk frees: under each node, then the node. -/
lemma walk_eq {k : Level} {g : Heap → ℕ → Option (Heap × List ℕ)} {h₀ : Heap}
    {f : ℕ → List ℕ} {hd : Option ℕ} {l : List ℕ} (c : Chain h₀ k hd l)
    (hin : ∀ i ∈ l, ∀ D, (∀ x ∈ f i ++ [i], x ∉ D) →
      g (freeAll h₀ D) i = some (freeAll h₀ (D ++ f i), f i))
    (nd : (l.flatMap fun i => f i ++ [i]).Nodup) :
    ∀ {D : List ℕ} {fuel : ℕ}, l.length ≤ fuel → (∀ x ∈ l.flatMap (fun i => f i ++ [i]), x ∉ D) →
    walk k g fuel (freeAll h₀ D) hd =
      some (freeAll h₀ (D ++ l.flatMap fun i => f i ++ [i]), l.flatMap fun i => f i ++ [i]) := by
  induction c with
  | nil => intro D fuel _ _; cases fuel <;> simp [walk]
  | @cons i l hl c ih =>
    intro D fuel hfuel hD
    obtain ⟨fuel, rfl⟩ : ∃ n, fuel = n + 1 := ⟨fuel - 1, by simp at hfuel; omega⟩
    rw [List.flatMap_cons] at nd hD ⊢
    obtain ⟨nd1, nd2, dis⟩ := List.nodup_append.1 nd
    have hfD : ∀ x ∈ f i ++ [i], x ∉ D := fun x hx => hD x (List.mem_append_left _ hx)
    have hiD : i ∉ D := hfD i (by simp)
    have hif : i ∉ f i := fun h => (List.nodup_append.1 nd1).2.2 h (List.mem_singleton_self i)
    have hlive : (h₀.node i).isSome := by
      obtain ⟨n, hn, -⟩ := Option.bind_eq_some.1 hl
      simp [hn]
    have hi : i ∉ D ++ f i := by simp [hiD, hif]
    simp only [walk, freeAll_node, hiD, if_false, hl, Option.bind_eq_bind, Option.some_bind,
      hin i (List.mem_cons_self _ _) D hfD, free_freeAll hi hlive]
    rw [ih (fun j hj => hin j (List.mem_cons_of_mem _ hj)) nd2 (by simpa using hfuel)
      fun x hx hxD => by
        rcases List.mem_append.1 hxD with hxD | hxD
        · rcases List.mem_append.1 hxD with hxD | hxD
          · exact hD x (List.mem_append_right _ hx) hxD
          · exact dis (List.mem_append_left _ hxD) hx
        · exact dis (List.mem_append_right _ hxD) hx]
    simp

lemma freePages_eq {h₀ : Heap} {hd : Option ℕ} {l : List ℕ} (c : Chain h₀ .page hd l)
    (nd : l.Nodup) {D : List ℕ} {fuel : ℕ} (hf : l.length ≤ fuel) (hD : ∀ x ∈ l, x ∉ D) :
    freePages fuel (freeAll h₀ D) hd = some (freeAll h₀ (D ++ l), l) := by
  have hl : (l.flatMap fun i => ([] : List ℕ) ++ [i]) = l := by simp
  have := walk_eq (f := fun _ => []) (g := fun h _ => some (h, [])) c
    (fun _ _ D _ => by simp) (by rwa [hl]) hf (by rwa [hl])
  rwa [hl] at this


lemma tabAt_freeAll {h : Heap} {D : List ℕ} {k : TabLevel} {i : ℕ} (hi : i ∉ D) :
    (freeAll h D).tabAt k i = h.tabAt k i := by
  simp [Heap.tabAt, hi]

section Clear

variable {m : Mem} {s : Shape}

lemma Rep.freeL1s_eq (r : Rep m s) {i : ℕ} (hi : i ∈ s.l2s) {t : CtPagetab}
    (ht : m.heap.tabAt .l2 i = some t) {D : List ℕ} (hD : ∀ x ∈ s.under i, x ∉ D) :
    freeL1s m.heap.next (freeAll m.heap D) t.lastAlloc =
      some (freeAll m.heap (D ++ s.under i), s.under i) := by
  obtain ⟨t', ht', tr⟩ := r.tabs .l2 i hi
  obtain rfl : t = t' := Option.some.inj (ht.symm.trans ht')
  have hsub := s.under_sublist hi
  have nd := r.nodup.sublist hsub
  refine walk_eq tr.chain (fun j hj D' hD' => ?_) nd
    (r.length_le ((sublist_flatMap_snoc _ _).trans hsub)) hD
  obtain ⟨t1, ht1, tr1⟩ := r.tabs .l1 j (s.mem_l1s hi hj)
  simp only [tabAt_freeAll (hD' j (by simp)), ht1, Option.some_bind]
  exact freePages_eq tr1.chain (nd.sublist (s.pages_sublist hj))
    (r.length_le ((s.pages_sublist hj).trans hsub)) fun x hx => hD' x (List.mem_append_left _ hx)

lemma Rep.freeL2s_eq (r : Rep m s) :
    freeL2s m.heap.next m.heap m.l3.lastAlloc = some (freeAll m.heap s.ids, s.ids) := by
  have := walk_eq (D := []) (g := fun h i => (h.tabAt .l2 i).bind fun t =>
    freeL1s m.heap.next h t.lastAlloc) r.l3.chain (fun i hi D' hD' => ?_) r.nodup
    (r.length_le (sublist_flatMap_snoc _ _)) (by simp)
  · simpa using this
  obtain ⟨t, ht, _⟩ := r.tabs .l2 i hi
  simp only [tabAt_freeAll (hD' i (by simp)), ht, Option.some_bind]
  exact r.freeL1s_eq hi ht fun x hx => hD' x (List.mem_append_left _ hx)

/-- `ct_clear_pagetab` on a well-formed table frees every node of its shape, in the order of
the three loops, and empties L3. -/
theorem Rep.ctClearPagetab_eq (r : Rep m s) :
    ctClearPagetab m = some (⟨freeAll m.heap s.ids, Tab.empty⟩, s.ids) := by
  simp [ctClearPagetab, r.freeL2s_eq]

-- what `ct_clear_pagetab` leaves is the empty table
lemma Rep.clear (r : Rep m s) : Rep ⟨freeAll m.heap s.ids, Tab.empty⟩ Shape.empty where
  l3 := ⟨.nil, fun _ => rfl, List.nodup_nil⟩
  tabs := by rintro (_ | _) <;> simp [Shape.empty, Shape.tables, Shape.l2s]
  nodup := List.nodup_nil
  live k := by
    by_cases hk : k ∈ s.ids
    · simp [hk]
    · simpa [hk] using (r.live k).not.2 hk
  fresh k hk := by simp [r.fresh k hk]

end Clear

end Checkedthreads.AllocLists
