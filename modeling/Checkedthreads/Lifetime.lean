import Checkedthreads.GetPage

/-!
The lifetime of the page-table nodes over whole runs.

A run is any sequence of `ct_get_page` and `ct_clear_pagetab` calls from the empty table. The
table invariant holds all along it, so every allocation list is a finite list without
repetition of exactly the nodes its table's slots hold, and the nodes of the shape are exactly
those `ct_get_page` allocated since the last `ct_clear_pagetab`. The next `ct_clear_pagetab`
then returns, having freed each of them once and nothing else.
-/

namespace Checkedthreads.AllocLists

open Pagetab

variable {m : Mem} {s : Shape}

/-! ### Entries and slots -/

lemma lookup_mem {es : List (ℕ × ℕ)} {x c : ℕ} (h : es.lookup x = some c) : (x, c) ∈ es := by
  obtain ⟨l₁, l₂, rfl, -⟩ := List.lookup_eq_some_iff.1 h
  simp

lemma lookup_of_mem {es : List (ℕ × ℕ)} (nd : (es.map Prod.fst).Nodup) {x c : ℕ}
    (h : (x, c) ∈ es) : es.lookup x = some c := by
  obtain ⟨l₁, l₂, rfl⟩ := List.append_of_mem h
  refine List.lookup_eq_some_iff.2 ⟨l₁, l₂, rfl, fun p hp => bne_iff_ne.2 fun e => ?_⟩
  rw [List.map_append, List.map_cons] at nd
  exact List.disjoint_of_nodup_append nd (List.mem_map_of_mem Prod.fst hp)
    (e ▸ List.mem_cons_self _ _)

/-- A table's allocation list, from its head through the links of level `k`, is finite, has no
repetition, and holds exactly the nodes in the table's slots. -/
def ListsSlots (h : Heap) (k : Level) (t : Tab) : Prop :=
  ∃ l, Chain h k t.lastAlloc l ∧ l.Nodup ∧ ∀ c, c ∈ l ↔ ∃ x, t.slots x = some c

/-- Every allocation list lists its table's slots: L3's, and each live L2 and L1 table's. -/
def AllocListsExact (m : Mem) : Prop :=
  ListsSlots m.heap .l2 m.l3 ∧
    ∀ k i t, m.heap.tabAt k i = some t → ListsSlots m.heap k.child t.toTab

lemma TabRep.listsSlots {h : Heap} {k : Level} {t : Tab} {es : List (ℕ × ℕ)}
    (tr : TabRep h k t es) (nd : (es.map Prod.snd).Nodup) : ListsSlots h k t := by
  refine ⟨_, tr.chain, nd, fun c => ⟨fun hc => ?_, fun ⟨x, hx⟩ => ?_⟩⟩
  · obtain ⟨⟨x, c⟩, hm, rfl⟩ := List.mem_map.1 hc
    exact ⟨x, (tr.slots x).trans (lookup_of_mem tr.keys hm)⟩
  · exact mem_of_lookup ((tr.slots x).symm.trans hx)

/-! ### The level of each node of a shape -/

lemma Shape.mem_ids {s : Shape} {q : ℕ} (hq : q ∈ s.ids) :
    (∃ k, q ∈ s.tables k) ∨ ∃ j ∈ s.tables .l1, q ∈ s.pages j := by
  obtain ⟨i, hi, hq⟩ := List.mem_flatMap.1 hq
  rcases List.mem_append.1 hq with hq | hq
  · obtain ⟨j, hj, hq⟩ := List.mem_flatMap.1 hq
    rcases List.mem_append.1 hq with hq | hq
    · exact .inr ⟨j, Shape.mem_l1s hi hj, hq⟩
    · exact .inl ⟨.l1, List.mem_singleton.1 hq ▸ Shape.mem_l1s hi hj⟩
  · exact .inl ⟨.l2, List.mem_singleton.1 hq ▸ hi⟩

lemma Shape.nodup_entries {s : Shape} (nd : s.ids.Nodup) {k : TabLevel} {i : ℕ}
    (hi : i ∈ s.tables k) : ((s.entries k i).map Prod.snd).Nodup := by
  cases k
  · exact nd.sublist ((sublist_flatMap_snoc _ _).trans (s.under_sublist hi))
  · obtain ⟨i', hi', hj⟩ := List.mem_flatMap.1 hi
    exact nd.sublist ((s.pages_sublist hj).trans (s.under_sublist hi'))

lemma Rep.link (r : Rep m s) {k : TabLevel} {i q : ℕ} (hi : i ∈ s.tables k)
    (hq : q ∈ (s.entries k i).map Prod.snd) :
    ∃ p, (m.heap.node q).bind (Node.prev k.child) = some p := by
  obtain ⟨t, -, tr⟩ := r.tabs k i hi
  exact tr.chain.link hq

-- a live table is on the list of a table one level up
lemma Rep.mem_tables (r : Rep m s) {k : TabLevel} {i : ℕ} {t : CtPagetab}
    (ht : m.heap.tabAt k i = some t) : i ∈ s.tables k := by
  have hn := tabAt_node ht
  rcases Shape.mem_ids ((r.live i).1 (by simp [hn])) with ⟨k', hi⟩ | ⟨j, hj, hq⟩
  · obtain ⟨t', ht', -⟩ := r.tabs k' i hi
    obtain rfl := tabAt_level_eq ht ht'
    exact hi
  · obtain ⟨p, hp⟩ := r.link (k := .l1) hj hq
    cases k <;> simp [hn, Node.ofTab, Node.prev, TabLevel.child] at hp

-- the end of a path is a live page
lemma Rep.pageAt_path (r : Rep m s) {a q : ℕ} (h : s.path a = some q) :
    (m.heap.pageAt q).isSome := by
  obtain ⟨j, hj, hq⟩ := Option.bind_eq_some.1 h
  obtain ⟨i, hi, hj⟩ := Shape.l1Path_mem hj
  obtain ⟨p, hp⟩ := r.link (k := .l1) (s.mem_l1s hi hj) (mem_of_lookup hq)
  cases hn : m.heap.node q with
  | none => simp [hn] at hp
  | some n => cases n <;> simp_all [Node.prev, TabLevel.child, Heap.pageAt]

/-- **The allocation lists are exact** on every table some shape describes. -/
theorem Rep.allocListsExact (r : Rep m s) : AllocListsExact m := by
  refine ⟨r.l3.listsSlots (r.nodup.sublist (sublist_flatMap_snoc _ _)), fun k i t ht => ?_⟩
  have hi := r.mem_tables ht
  obtain ⟨t', ht', tr⟩ := r.tabs k i hi
  obtain rfl : t = t' := Option.some.inj (ht.symm.trans ht')
  exact tr.listsSlots (Shape.nodup_entries r.nodup hi)

end Checkedthreads.AllocLists

namespace Checkedthreads.Lifetime

open Pagetab AllocLists

/-! ### Runs of page-table calls -/

/-- A call into the page table. -/
inductive Call
  | getPage (a : ℕ)
  | clear

/-- What a call did to the heap: the identities `ct_get_page` had `VG_(calloc)` hand out, or
those `ct_clear_pagetab` passed to `VG_(free)`, in the order of the calls. -/
inductive Effect
  | alloc (ids : List ℕ)
  | free (ids : List ℕ)

-- one call. `VG_(calloc)` hands out the identities from `next` on, one after another
def ptStep (m : Mem) : Call → Option (Mem × Effect)
  | .getPage a => (ctGetPage m a).map fun r =>
      (r.1, .alloc (List.range' m.heap.next (r.1.heap.next - m.heap.next)))
  | .clear => (ctClearPagetab m).map fun r => (r.1, .free r.2)

/-- A run of calls, with the effect of each; `none` if a call fails. -/
def ptRun (m : Mem) : List Call → Option (Mem × List Effect)
  | [] => some (m, [])
  | c :: cs => do
    let (m, e) ← ptStep m c
    let (m, es) ← ptRun m cs
    pure (m, e :: es)

-- the identities allocated since the last free, `acc` before effect `e`
def afterEffect (acc : List ℕ) : Effect → List ℕ
  | .alloc ids => acc ++ ids
  | .free _ => []

/-- The identities a run allocated since its last `ct_clear_pagetab`. -/
def sinceFree (es : List Effect) : List ℕ := es.foldl afterEffect []

variable {m : Mem} {s : Shape}

/-- One call keeps the invariant, and the nodes of the shape are those of before together with
what the call allocated, or none after a clear. -/
lemma step_rep (r : Rep m s) (c : Call) :
    ∃ m' e s', ptStep m c = some (m', e) ∧ Rep m' s' ∧
      ∀ acc : List ℕ, (∀ k, k ∈ s.ids ↔ k ∈ acc) → ∀ k, k ∈ s'.ids ↔ k ∈ afterEffect acc e := by
  cases c with
  | getPage a =>
    obtain ⟨m', ip, s', h, r', -, -, hk, -⟩ := r.ctGetPage a
    refine ⟨m', .alloc (List.range' m.heap.next (m'.heap.next - m.heap.next)), s',
      by simp [ptStep, h], r', fun acc hacc k => ?_⟩
    rw [hk, hacc, afterEffect, List.mem_append, List.mem_range'_1]
    exact or_congr_right (by omega)
  | clear =>
    exact ⟨_, .free s.ids, Shape.empty, by simp [ptStep, r.ctClearPagetab_eq], r.clear,
      fun _ _ k => by simp [afterEffect]⟩

lemma run_rep (r : Rep m s) (acc : List ℕ) (hacc : ∀ k, k ∈ s.ids ↔ k ∈ acc) (cs : List Call) :
    ∃ m' es s', ptRun m cs = some (m', es) ∧ Rep m' s' ∧
      ∀ k, k ∈ s'.ids ↔ k ∈ es.foldl afterEffect acc := by
  induction cs generalizing m s acc with
  | nil => exact ⟨m, [], s, rfl, r, hacc⟩
  | cons c cs ih =>
    obtain ⟨m1, e, s1, h1, r1, hk1⟩ := step_rep r c
    obtain ⟨m2, es, s2, h2, r2, hk2⟩ := ih r1 _ (hk1 acc hacc)
    exact ⟨m2, e :: es, s2, by simp [ptRun, h1, h2], r2, hk2⟩

/-- **Node lifetime.** After any run of `ct_get_page` and `ct_clear_pagetab` calls from the
empty table, every allocation list lists exactly its table's slots, and `ct_clear_pagetab`
returns: its `VG_(free)` calls take each node allocated since the last clear once and no other
node, and it leaves L3 empty and no node live. -/
theorem clear_frees_allocated_since (cs : List Call) :
    ∃ m es, ptRun Mem.init cs = some (m, es) ∧ AllocListsExact m ∧
      ∃ m' freed, ctClearPagetab m = some (m', freed) ∧ freed.Nodup ∧
        (∀ k, k ∈ freed ↔ k ∈ sinceFree es) ∧ m'.l3 = Tab.empty ∧
        ∀ k, m'.heap.node k = none := by
  obtain ⟨m, es, s, h, r, hk⟩ := run_rep rep_init [] (by simp) cs
  refine ⟨m, es, h, r.allocListsExact, _, _, r.ctClearPagetab_eq, r.nodup, hk, rfl,
    fun k => Option.not_isSome_iff_eq_none.1 fun h => ?_⟩
  simpa using (r.clear.live k).1 h

end Checkedthreads.Lifetime
