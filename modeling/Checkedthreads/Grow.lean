import Checkedthreads.AllocLists
import Mathlib.Data.List.Pairwise

/-!
How `ct_get_page` grows a well-formed table, one level at a time.

When a slot on the way down is null, `ct_get_page` allocates a zeroed node, threads it onto
the head of its parent's allocation list, links it into the slot and, for a parent that is a
heap node, writes the parent back. In the shape this prepends one entry to one list; the
invariant survives because the new identity is fresh, the slot was free, and every other
node keeps its level and its link.
-/

namespace Checkedthreads.AllocLists

open Pagetab

/-! ### Lists of entries -/

lemma mem_of_lookup {es : List (ℕ × ℕ)} {x c : ℕ} (h : es.lookup x = some c) :
    c ∈ es.map Prod.snd := by
  obtain ⟨l₁, l₂, rfl, -⟩ := List.lookup_eq_some_iff.1 h
  simp

lemma lookup_cons_of_not_key {es : List (ℕ × ℕ)} {x y n : ℕ} (hx : x ∉ es.map Prod.fst) :
    ((x, n) :: es).lookup y = if y = x then some n else es.lookup y := by
  by_cases hy : y = x
  · subst hy; simp
  · have hb : (y == x) = false := by simpa using hy
    simp [List.lookup_cons, hb, hy]

lemma lookup_of_not_key {es : List (ℕ × ℕ)} {x : ℕ} (hx : x ∉ es.map Prod.fst) :
    es.lookup x = none := by
  rw [List.lookup_eq_none_iff]
  intro p hp
  simpa using fun h : x = p.1 => hx (h ▸ List.mem_map_of_mem _ hp)

lemma not_key_of_lookup {es : List (ℕ × ℕ)} {x : ℕ} (h : es.lookup x = none) :
    x ∉ es.map Prod.fst := by
  rw [List.lookup_eq_none_iff] at h
  simp only [List.mem_map]
  rintro ⟨e, he, rfl⟩
  simpa using h e he

/-! ### Tables -/

lemma TabRep.congr {h h' : Heap} {k : Level} {t : Tab} {es : List (ℕ × ℕ)} (tr : TabRep h k t es)
    (e : ∀ i ∈ es.map Prod.snd, (h'.node i).bind (Node.prev k) = (h.node i).bind (Node.prev k)) :
    TabRep h' k t es :=
  ⟨tr.chain.congr e, tr.slots, tr.keys⟩

lemma TabRep.not_key {h : Heap} {k : Level} {t : Tab} {es : List (ℕ × ℕ)} (tr : TabRep h k t es)
    {x : ℕ} (hx : t.slots x = none) : x ∉ es.map Prod.fst :=
  not_key_of_lookup ((tr.slots x).symm.trans hx)

/-- Threading node `n` onto the head of `t`'s list and into its free slot `x`. -/
lemma TabRep.cons {h h' : Heap} {k : Level} {t : Tab} {es : List (ℕ × ℕ)} (tr : TabRep h k t es)
    {x n : ℕ} (hx : t.slots x = none) (hn : (h'.node n).bind (Node.prev k) = some t.lastAlloc)
    (e : ∀ i ∈ es.map Prod.snd, (h'.node i).bind (Node.prev k) = (h.node i).bind (Node.prev k)) :
    TabRep h' k ⟨Function.update t.slots x (some n), some n⟩ ((x, n) :: es) where
  chain := by
    rw [tr.chain.head] at hn
    exact .cons hn (tr.chain.congr e |>.head ▸ tr.chain.congr e)
  slots y := by
    rw [lookup_cons_of_not_key (tr.not_key hx), ← tr.slots]; exact Function.update_apply ..
  keys := List.nodup_cons.2 ⟨tr.not_key hx, tr.keys⟩

lemma TabRep.empty (h : Heap) (k : Level) : TabRep h k Tab.empty [] :=
  ⟨.nil, fun _ => rfl, List.nodup_nil⟩

/-! ### The heap around a new node -/

lemma TabRep.keep {h h' : Heap} {k : Level} {t : Tab} {es : List (ℕ × ℕ)} (tr : TabRep h k t es)
    (e : ∀ i ∈ es.map Prod.snd, h'.node i = h.node i) : TabRep h' k t es :=
  tr.congr fun i hi => by rw [e i hi]

lemma tabAt_congr {h h' : Heap} {k : TabLevel} {i : ℕ} (e : h'.node i = h.node i) :
    h'.tabAt k i = h.tabAt k i := by
  rw [Heap.tabAt, Heap.tabAt, e]

lemma tabAt_node {h : Heap} {k : TabLevel} {i : ℕ} {t : CtPagetab} (ht : h.tabAt k i = some t) :
    h.node i = some (.ofTab k t) := by
  obtain ⟨n, hn, hnt⟩ := Option.bind_eq_some.1 ht
  rw [hn]
  cases k <;> cases n <;> simp_all [Node.asTab, Node.ofTab]

-- an identity holds a table of one level only
lemma tabAt_level_eq {h : Heap} {k k' : TabLevel} {i : ℕ} {t t' : CtPagetab}
    (ht : h.tabAt k i = some t) (ht' : h.tabAt k' i = some t') : k = k' := by
  have e := (tabAt_node ht).symm.trans (tabAt_node ht')
  cases k <;> cases k' <;> simp_all [Node.ofTab]

@[simp] lemma prev_newNode (l : Level) (p : Option ℕ) : (newNode l p).prev l = some p := by
  cases l <;> rfl

@[simp] lemma asTab_ofTab (k : TabLevel) (t : CtPagetab) : (Node.ofTab k t).asTab k = some t := by
  cases k <;> rfl

lemma calloc_node_lt {h : Heap} {n : Node} {q : ℕ} (hq : q < h.next) :
    (h.calloc n).node q = h.node q := by
  simp [Heap.calloc_node, hq.ne]

lemma write_prev {h : Heap} {i : ℕ} {n w : Node} (hi : h.node i = some n)
    (hp : ∀ k, w.prev k = n.prev k) (k : Level) (q : ℕ) :
    ((h.write i w).node q).bind (Node.prev k) = (h.node q).bind (Node.prev k) := by
  rw [Heap.write_node]
  split_ifs with hq
  · simp [hq, hi, hp]
  · rfl

lemma node_callocWrite {h : Heap} {c w : Node} {i q : ℕ} (hqi : q ≠ i) (hqn : q ≠ h.next) :
    ((h.calloc c).write i w).node q = h.node q := by
  simp [Heap.write_node, Heap.calloc_node, hqi, hqn]

lemma prev_callocWrite {h : Heap} {c n w : Node} {i : ℕ} (hi : h.node i = some n)
    (hin : i ≠ h.next) (hp : ∀ k, w.prev k = n.prev k) {q : ℕ} (hq : q ≠ h.next) (k : Level) :
    (((h.calloc c).write i w).node q).bind (Node.prev k) = (h.node q).bind (Node.prev k) := by
  rw [write_prev (by rw [Heap.calloc_node, if_neg hin, hi]) hp, Heap.calloc_node, if_neg hq]

-- writing a table back with new slots and a new list head keeps every link
lemma prev_writeBack {h : Heap} {c : Node} {k : TabLevel} {w q : ℕ} {t : CtPagetab}
    (ht : h.tabAt k w = some t) (hwn : w ≠ h.next) (tab : Tab) (hq : q ≠ h.next) (l : Level) :
    (((h.calloc c).write w (.ofTab k { t with toTab := tab })).node q).bind (Node.prev l) =
      (h.node q).bind (Node.prev l) :=
  prev_callocWrite (tabAt_node ht) hwn (fun l => by cases k <;> cases l <;> rfl) hq l

/-! ### The shape around a new node -/

namespace Shape

variable (s : Shape) {i j q : ℕ}

lemma mem_ids_of_l2 (hi : i ∈ s.l2s) : i ∈ s.ids := (sublist_flatMap_snoc _ _).subset hi

lemma mem_ids_of_l1 (hi : i ∈ s.l2s) (hj : j ∈ s.l1sOf i) : j ∈ s.ids :=
  (s.under_sublist hi).subset ((sublist_flatMap_snoc _ _).subset hj)

lemma mem_ids_of_page (hi : i ∈ s.l2s) (hj : j ∈ s.l1sOf i) (hq : q ∈ s.pages j) :
    q ∈ s.ids :=
  (s.under_sublist hi).subset ((s.pages_sublist hj).subset hq)

lemma mem_ids_of_tables {k : TabLevel} (hi : i ∈ s.tables k) : i ∈ s.ids := by
  cases k
  · exact s.mem_ids_of_l2 hi
  · obtain ⟨i', hi', hi⟩ := List.mem_flatMap.1 hi
    exact s.mem_ids_of_l1 hi' hi

lemma mem_ids_of_entries {k : TabLevel} (hi : i ∈ s.tables k)
    (hq : q ∈ (s.entries k i).map Prod.snd) : q ∈ s.ids := by
  cases k
  · exact s.mem_ids_of_l1 hi hq
  · obtain ⟨i', hi', hi⟩ := List.mem_flatMap.1 hi
    exact s.mem_ids_of_page hi' hi hq

/-- The shape once node `n` is threaded into slot `x` of L3. -/
def addL2 (s : Shape) (x n : ℕ) : Shape :=
  { s with l3 := (x, n) :: s.l3, l2 := Function.update s.l2 n [] }

lemma under_congr {s s' : Shape} {i : ℕ} (h2 : s'.l2 i = s.l2 i)
    (h1 : ∀ j ∈ s.l1sOf i, s'.l1 j = s.l1 j) : s'.under i = s.under i := by
  simp only [under, l1sOf, pages, h2] at h1 ⊢
  exact List.flatMap_congr fun j hj => by rw [h1 j hj]

lemma ids_addL2 {s : Shape} {x n : ℕ} (hn : n ∉ s.l2s) : (s.addL2 x n).ids = n :: s.ids := by
  have hu : ∀ i ∈ s.l2s, (s.addL2 x n).under i = s.under i := fun i hi =>
    under_congr (by simp [addL2, Function.update_apply, show i ≠ n by rintro rfl; exact hn hi])
      fun _ _ => rfl
  show ((n :: s.l2s).flatMap fun i => (s.addL2 x n).under i ++ [i]) = n :: s.ids
  rw [List.flatMap_cons, List.flatMap_congr fun i hi => by rw [hu i hi]]
  simp [under, l1sOf, addL2, ids]

-- the tables of the grown shape: the old ones and the new L2 table
lemma mem_tables_addL2 {s : Shape} {k : TabLevel} {x n i : ℕ} (hn : n ∉ s.ids)
    (hi : i ∈ (s.addL2 x n).tables k) : i ∈ s.tables k ∨ k = .l2 ∧ i = n := by
  cases k
  · simpa [tables, l2s, addL2, or_comm, eq_comm] using hi
  · obtain ⟨i', hi', hi⟩ := List.mem_flatMap.1 hi
    rcases List.mem_cons.1 hi' with rfl | hi'
    · simp [l1sOf, addL2] at hi
    · have hne : i' ≠ n := fun e => hn (e ▸ s.mem_ids_of_l2 hi')
      exact .inl (mem_l1s hi' (by simpa [l1sOf, addL2, hne] using hi))

lemma entries_addL2 {s : Shape} {k : TabLevel} {x n i : ℕ} (hi : i ≠ n) :
    (s.addL2 x n).entries k i = s.entries k i := by
  cases k <;> simp [entries, addL2, hi]

end Shape

-- inserting `n` into the block of `a` permutes a concatenation to `n` in front
lemma flatMap_perm {α : Type} {l : List α} {a n : α} {f g : α → List α} (nd : l.Nodup)
    (ha : a ∈ l) (hga : (g a).Perm (n :: f a)) (hg : ∀ x ∈ l, x ≠ a → g x = f x) :
    (l.flatMap g).Perm (n :: l.flatMap f) := by
  induction l with
  | nil => simp at ha
  | cons y l ih =>
    obtain ⟨hy, nd⟩ := List.nodup_cons.1 nd
    rw [List.flatMap_cons, List.flatMap_cons]
    by_cases hya : y = a
    · subst hya
      rw [List.flatMap_congr fun x hx => hg x (List.mem_cons_of_mem _ hx) (ne_of_mem_of_not_mem hx hy)]
      exact hga.append_right _
    · rw [hg y (List.mem_cons_self _ _) hya]
      have ha : a ∈ l := (List.mem_cons.1 ha).resolve_left (Ne.symm hya)
      exact ((ih nd ha fun x hx => hg x (List.mem_cons_of_mem _ hx)).append_left _).trans
        List.perm_middle

namespace Shape

/-- The shape once node `n` is threaded into slot `x` of L2 table `i`. -/
def addL1 (s : Shape) (i x n : ℕ) : Shape :=
  { s with l2 := Function.update s.l2 i ((x, n) :: s.l2 i), l1 := Function.update s.l1 n [] }

lemma under_addL1_self {s : Shape} {i x n : ℕ} (hn : ∀ j ∈ s.l1sOf i, j ≠ n) :
    (s.addL1 i x n).under i = n :: s.under i := by
  simp only [under, l1sOf, pages, addL1, Function.update_same, List.map_cons, List.flatMap_cons]
  rw [List.flatMap_congr fun j hj => by rw [Function.update_noteq (hn j hj)]]
  simp

lemma under_addL1_ne {s : Shape} {i i' x n : ℕ} (hi : i' ≠ i) (hn : ∀ j ∈ s.l1sOf i', j ≠ n) :
    (s.addL1 i x n).under i' = s.under i' :=
  under_congr (by simp [addL1, hi]) fun j hj => by simp [addL1, hn j hj]

lemma ids_addL1 {s : Shape} {i x n : ℕ} (nd : s.ids.Nodup) (hi : i ∈ s.l2s) (hn : n ∉ s.ids) :
    ((s.addL1 i x n).ids).Perm (n :: s.ids) := by
  have hl1 : ∀ i' ∈ s.l2s, ∀ j ∈ s.l1sOf i', j ≠ n := fun i' hi' j hj h =>
    hn (h ▸ s.mem_ids_of_l1 hi' hj)
  refine flatMap_perm (nd.sublist (sublist_flatMap_snoc _ _)) hi ?_ fun i' hi' hne => ?_
  · rw [under_addL1_self (hl1 i hi)]; rfl
  · rw [under_addL1_ne hne (hl1 i' hi')]

end Shape

lemma eq_of_mem_flatMap {α β : Type} {l : List α} {F : α → List β} (nd : (l.flatMap F).Nodup)
    {a b : α} (ha : a ∈ l) (hb : b ∈ l) {y : β} (hya : y ∈ F a) (hyb : y ∈ F b) : a = b := by
  by_contra hab
  exact (List.nodup_flatMap.1 nd).2.forall (by intro _ _ h _ h1 h2; exact h h2 h1) ha hb hab hya hyb

namespace Shape

/-- The shape once node `n` is threaded into slot `x` of L1 table `j`. -/
def addPage (s : Shape) (j x n : ℕ) : Shape :=
  { s with l1 := Function.update s.l1 j ((x, n) :: s.l1 j) }

-- an L1 table hangs under one L2 table only
lemma l2_unique {s : Shape} (nd : s.ids.Nodup) {i i' j : ℕ} (hi : i ∈ s.l2s) (hi' : i' ∈ s.l2s)
    (hj : j ∈ s.l1sOf i) (hj' : j ∈ s.l1sOf i') : i = i' :=
  eq_of_mem_flatMap (F := fun i => s.under i ++ [i]) nd hi hi'
    (List.mem_append_left _ ((sublist_flatMap_snoc _ _).subset hj))
    (List.mem_append_left _ ((sublist_flatMap_snoc _ _).subset hj'))

lemma under_addPage_ne {s : Shape} {i j x n : ℕ} (hj : j ∉ s.l1sOf i) :
    (s.addPage j x n).under i = s.under i :=
  under_congr rfl fun j' hj' => by simp [addPage, show j' ≠ j by rintro rfl; exact hj hj']

lemma ids_addPage {s : Shape} {i j x n : ℕ} (nd : s.ids.Nodup) (hi : i ∈ s.l2s)
    (hj : j ∈ s.l1sOf i) : ((s.addPage j x n).ids).Perm (n :: s.ids) := by
  have ndu := nd.sublist (s.under_sublist hi)
  refine flatMap_perm (nd.sublist (sublist_flatMap_snoc _ _)) hi ?_ fun i' hi' hne => ?_
  · refine List.Perm.append_right _ (flatMap_perm (ndu.sublist (sublist_flatMap_snoc _ _)) hj
      (by simp [addPage, pages]) fun j' _ hne => ?_)
    simp [addPage, pages, hne]
  · rw [under_addPage_ne fun h => hne (l2_unique nd hi' hi h hj)]

/-- The shape once node `n` is threaded into slot `x` of table `w` of level `k`. -/
def addUnder (s : Shape) : TabLevel → ℕ → ℕ → ℕ → Shape
  | .l2 => s.addL1
  | .l1 => s.addPage

lemma ids_addUnder {s : Shape} {k : TabLevel} {w x n : ℕ} (nd : s.ids.Nodup)
    (hw : w ∈ s.tables k) (hn : n ∉ s.ids) : ((s.addUnder k w x n).ids).Perm (n :: s.ids) := by
  cases k
  · exact ids_addL1 nd hw hn
  · obtain ⟨i, hi, hj⟩ := List.mem_flatMap.1 hw
    exact ids_addPage nd hi hj

/-- The tables of the grown shape: the old ones, and under an L2 table the new L1 table. -/
lemma mem_tables_addUnder {s : Shape} {k k' : TabLevel} {w x n i : ℕ} (hw : w ∈ s.tables k)
    (hi : i ∈ (s.addUnder k w x n).tables k') : i ∈ s.tables k' ∨ k = .l2 ∧ k' = .l1 ∧ i = n := by
  cases k <;> cases k'
  case l2.l1 =>
    obtain ⟨i', hi', hi⟩ := List.mem_flatMap.1 hi
    by_cases h : i' = w
    · subst h
      simp only [addUnder, l1sOf, addL1, Function.update_same, List.map_cons,
        List.mem_cons] at hi
      exact hi.elim (fun e => .inr ⟨rfl, rfl, e⟩) fun hi => .inl (mem_l1s hi' hi)
    · exact .inl (mem_l1s hi' (by simpa [addUnder, l1sOf, addL1, h] using hi))
  all_goals exact .inl hi

lemma entries_addUnder_self (s : Shape) (k : TabLevel) (w x n : ℕ) :
    (s.addUnder k w x n).entries k w = (x, n) :: s.entries k w := by
  cases k <;> simp [addUnder, addL1, addPage, entries]

@[simp] lemma l3_addUnder (s : Shape) (k : TabLevel) (w x n : ℕ) :
    (s.addUnder k w x n).l3 = s.l3 := by
  cases k <;> rfl

lemma entries_addUnder_ne {s : Shape} {k k' : TabLevel} {w x n i : ℕ} (h : ¬ (k' = k ∧ i = w))
    (hn : i ≠ n) : (s.addUnder k w x n).entries k' i = s.entries k' i := by
  cases k <;> cases k' <;> simp_all [addUnder, addL1, addPage, entries]

end Shape

/-! ### One level at a time -/

variable {m : Mem} {s : Shape}

lemma Rep.ne_next (r : Rep m s) {q : ℕ} (hq : q ∈ s.ids) : q ≠ m.heap.next :=
  (r.lt_next hq).ne

/-- First level of `ct_get_page`, when the L3 slot is null: a fresh, empty L2 table. -/
lemma Rep.addL2 (r : Rep m s) {x : ℕ} (hx : m.l3.slots x = none) :
    Rep ⟨m.heap.calloc (newNode .l2 m.l3.lastAlloc),
      ⟨Function.update m.l3.slots x (some m.heap.next), some m.heap.next⟩⟩
      (s.addL2 x m.heap.next) := by
  have hn : m.heap.next ∉ s.ids := fun h => lt_irrefl _ (r.lt_next h)
  have hn2 : m.heap.next ∉ s.l2s := fun h => hn ((sublist_flatMap_snoc _ _).subset h)
  have old : ∀ i ∈ s.ids, (m.heap.calloc (newNode .l2 m.l3.lastAlloc)).node i = m.heap.node i :=
    fun i hi => calloc_node_lt (r.lt_next hi)
  refine ⟨r.l3.cons hx (by simp [Heap.calloc_node])
    fun i hi => by rw [old i (s.mem_ids_of_l2 hi)], fun k i hi => ?_, ?_, ?_, ?_⟩
  · rcases Shape.mem_tables_addL2 hn hi with hi | ⟨rfl, rfl⟩
    · -- a table that was there
      obtain ⟨t, ht, tr⟩ := r.tabs k i hi
      refine ⟨t, (tabAt_congr (old i (s.mem_ids_of_tables hi))).trans ht, ?_⟩
      rw [Shape.entries_addL2 (r.ne_next (s.mem_ids_of_tables hi))]
      exact tr.keep fun j hj => old j (s.mem_ids_of_entries hi hj)
    · -- the new L2 table
      exact ⟨⟨Tab.empty, m.l3.lastAlloc⟩,
        by simp [Heap.tabAt, Heap.calloc_node, newNode, Node.asTab],
        by simpa [Shape.addL2, Shape.entries] using TabRep.empty _ .l1⟩
  · rw [Shape.ids_addL2 hn2]
    exact List.nodup_cons.2 ⟨hn, r.nodup⟩
  · intro k
    rw [Shape.ids_addL2 hn2, Heap.calloc_node]
    by_cases hk : k = m.heap.next <;> simp [hk, r.live k]
  · intro k hk
    rw [Heap.calloc_node, if_neg (by simp at hk; omega)]
    exact r.fresh k (by simp at hk; omega)

/-- After `ct_get_page` allocates the next node and writes back the live node `w` it hangs
under, the identities of a shape that adds the new node to the old ones are distinct, live
exactly, and below the next identity. -/
lemma Rep.callocWrite (r : Rep m s) {s' : Shape} {w : ℕ} (hw : w ∈ s.ids) (c d : Node)
    (hperm : s'.ids.Perm (m.heap.next :: s.ids)) :
    s'.ids.Nodup ∧ (∀ k, (((m.heap.calloc c).write w d).node k).isSome ↔ k ∈ s'.ids) ∧
      ∀ k, ((m.heap.calloc c).write w d).next ≤ k → ((m.heap.calloc c).write w d).node k = none := by
  have hwn := r.ne_next hw
  refine ⟨hperm.nodup_iff.2 (List.nodup_cons.2 ⟨fun h => lt_irrefl _ (r.lt_next h), r.nodup⟩),
    fun k => ?_, fun k hk => ?_⟩
  · rw [hperm.mem_iff, List.mem_cons, ← r.live k]
    by_cases hk : k = w
    · subst hk; simp [Heap.write_node, hwn, (r.live k).2 hw]
    · by_cases hkn : k = m.heap.next
      · subst hkn; simp [Heap.write_node, Heap.calloc_node, hk]
      · simp [node_callocWrite hk hkn, hkn]
  · simp only [Heap.write_next, Heap.calloc_next] at hk
    rw [node_callocWrite (by have := r.lt_next hw; omega) (by omega)]
    exact r.fresh k (by omega)

/-- **The two lower levels of `ct_get_page`**, when slot `x` of table `w` of level `k` is
null: a fresh, empty node of the level below, and the table written back with the new list
head and slot. Every table of the new shape is the one written back, the new L1 table, or one
that was there, untouched. -/
lemma Rep.grow (r : Rep m s) {k : TabLevel} {w : ℕ} (hw : w ∈ s.tables k) {t : CtPagetab}
    (ht : m.heap.tabAt k w = some t) {x : ℕ} (hx : t.slots x = none) :
    Rep ⟨(m.heap.calloc (newNode k.child t.lastAlloc)).write w (.ofTab k
        { t with toTab := ⟨Function.update t.slots x (some m.heap.next), some m.heap.next⟩ }),
        m.l3⟩
      (s.addUnder k w x m.heap.next) := by
  have hwi := s.mem_ids_of_tables hw
  have hn : m.heap.next ∉ s.ids := fun h => lt_irrefl _ (r.lt_next h)
  have hwn := r.ne_next hwi
  have keep := fun {q : ℕ} (hq : q ∈ s.ids) => prev_writeBack (c := newNode k.child t.lastAlloc)
    ht hwn ⟨Function.update t.slots x (some m.heap.next), some m.heap.next⟩ (r.ne_next hq)
  obtain ⟨hnd, hlive, hfresh⟩ := r.callocWrite hwi _ _ (Shape.ids_addUnder r.nodup hw hn)
  refine ⟨by simpa using r.l3.congr fun q hq => keep (s.mem_ids_of_l2 hq) _, fun k' i hi => ?_,
    hnd, hlive, hfresh⟩
  by_cases hs : k' = k ∧ i = w
  · -- the table written back
    obtain ⟨rfl, rfl⟩ := hs
    obtain ⟨t', ht', tr⟩ := r.tabs k' i hw
    obtain rfl : t = t' := Option.some.inj (ht.symm.trans ht')
    refine ⟨{ t with toTab := ⟨Function.update t.slots x (some m.heap.next), some m.heap.next⟩ },
      by simp [Heap.tabAt, Heap.write_node], ?_⟩
    rw [Shape.entries_addUnder_self]
    exact tr.cons hx (by simp [Heap.write_node, Heap.calloc_node, hwn.symm])
      fun q hq => keep (s.mem_ids_of_entries hw hq) _
  rcases Shape.mem_tables_addUnder hw hi with hi | ⟨rfl, rfl, rfl⟩
  · -- a table that was there
    obtain ⟨t', ht', tr⟩ := r.tabs k' i hi
    have hin := r.ne_next (s.mem_ids_of_tables hi)
    have hiw : i ≠ w := fun e => hs ⟨tabAt_level_eq ht' (e ▸ ht), e⟩
    refine ⟨t', (tabAt_congr (node_callocWrite hiw hin)).trans ht', ?_⟩
    rw [Shape.entries_addUnder_ne hs hin]
    exact tr.congr fun q hq => keep (s.mem_ids_of_entries hi hq) _
  · -- the new L1 table
    refine ⟨⟨Tab.empty, t.lastAlloc⟩, by
      simp [Heap.tabAt, Heap.write_node, Heap.calloc_node, hwn.symm, newNode, TabLevel.child,
        Node.asTab], ?_⟩
    simpa [Shape.addUnder, Shape.addL1, Shape.entries] using TabRep.empty _ .page

end Checkedthreads.AllocLists
