import Checkedthreads.Grow

/-!
`ct_get_page` on a well-formed table: it never follows a bad pointer, it keeps the table well
formed, and it keeps what the table says about every address, while the slots of the address
it was given now lead to a page.

What the table says is read through the shape: the three slots of an address's path give its
page, if there is one, and the owner is that page's byte; an address with no page is owned by
nobody. A new page is zeroed, so the addresses it covers stay unowned.
-/

namespace Checkedthreads.AllocLists

open Pagetab

variable {m : Mem} {s : Shape}

namespace Shape

/-- The L1 table under which the page of `a` hangs, if any. -/
def l1Path (s : Shape) (a : ℕ) : Option ℕ :=
  (s.l3.lookup (l2Pagetab a)).bind fun i => (s.l2 i).lookup (l1Pagetab a)

/-- The page that holds the owner of `a`, if any: the three slots of its path. -/
def path (s : Shape) (a : ℕ) : Option ℕ := (s.l1Path a).bind fun j => (s.l1 j).lookup (page a)

lemma l1Path_mem {s : Shape} {a j : ℕ} (h : s.l1Path a = some j) :
    ∃ i ∈ s.l2s, j ∈ s.l1sOf i := by
  obtain ⟨i, hi, hj⟩ := Option.bind_eq_some.1 h
  exact ⟨i, mem_of_lookup hi, mem_of_lookup hj⟩

lemma path_mem {s : Shape} {a q : ℕ} (h : s.path a = some q) : q ∈ s.ids := by
  obtain ⟨j, hj, hq⟩ := Option.bind_eq_some.1 h
  obtain ⟨i, hi, hj⟩ := l1Path_mem hj
  exact s.mem_ids_of_page hi hj (mem_of_lookup hq)

lemma path_addL2 {s : Shape} {x n : ℕ} (hx : x ∉ s.l3.map Prod.fst) (hn : n ∉ s.l2s) (b : ℕ) :
    (s.addL2 x n).path b = s.path b := by
  simp only [path, l1Path, addL2, lookup_cons_of_not_key hx]
  split_ifs with h
  · subst h; simp [lookup_of_not_key hx]
  · cases hl : s.l3.lookup (l2Pagetab b) with
    | none => rfl
    | some i =>
      have : i ≠ n := fun e => hn (e ▸ mem_of_lookup hl)
      simp [this]

lemma path_addL1 {s : Shape} {i x n : ℕ} (hx : x ∉ (s.l2 i).map Prod.fst) (hn : n ∉ s.ids)
    (b : ℕ) : (s.addL1 i x n).path b = s.path b := by
  simp only [path, l1Path, addL1]
  cases hl : s.l3.lookup (l2Pagetab b) with
  | none => rfl
  | some i' =>
    have hne : ∀ j, (s.l2 i').lookup (l1Pagetab b) = some j → j ≠ n := fun j hj e =>
      hn (e ▸ s.mem_ids_of_l1 (mem_of_lookup hl) (mem_of_lookup hj))
    simp only [Option.some_bind]
    by_cases hi : i' = i
    · subst hi
      rw [Function.update_same, lookup_cons_of_not_key hx]
      split_ifs with h
      · subst h; simp [lookup_of_not_key hx]
      · cases hj : (s.l2 i').lookup (l1Pagetab b) with
        | none => rfl
        | some j => simp [Function.update_noteq (hne j hj)]
    · rw [Function.update_noteq hi]
      cases hj : (s.l2 i').lookup (l1Pagetab b) with
      | none => rfl
      | some j => simp [Function.update_noteq (hne j hj)]


lemma path_addPage {s : Shape} {j x n : ℕ} (hx : x ∉ (s.l1 j).map Prod.fst) (b : ℕ) :
    (s.addPage j x n).path b = if s.l1Path b = some j ∧ page b = x then some n else s.path b := by
  have : (s.addPage j x n).l1Path b = s.l1Path b := rfl
  simp only [path, this]
  cases hl : s.l1Path b with
  | none => simp
  | some j' =>
    by_cases hj : j' = j
    · subst hj
      simp [addPage, lookup_cons_of_not_key hx]
    · simp [addPage, hj]

/-- Level 3 of `ct_get_page` on the shape: the L2 table in slot `x` of L3, or else node `n`
threaded into it; with the next fresh identity. -/
def grow3 (s : Shape) (x n : ℕ) : Shape × ℕ × ℕ :=
  match s.l3.lookup x with
  | some i => (s, i, n)
  | none => (s.addL2 x n, n, n + 1)

/-- Level 2: the L1 table in slot `x` of L2 table `i`, or else node `n` threaded into it. -/
def grow2 (s : Shape) (i x n : ℕ) : Shape × ℕ × ℕ :=
  match (s.l2 i).lookup x with
  | some j => (s, j, n)
  | none => (s.addL1 i x n, n, n + 1)

/-- Level 1: the page in slot `x` of L1 table `j`, or else node `n` threaded into it. -/
def grow1 (s : Shape) (j x n : ℕ) : Shape × ℕ × ℕ :=
  match (s.l1 j).lookup x with
  | some q => (s, q, n)
  | none => (s.addPage j x n, n, n + 1)

/-- `ct_get_page` on the shape: down the three levels of `a`, with the identities `VG_(calloc)`
hands out from `n` on. The new shape, the page, and the next identity. -/
def getPage (s : Shape) (a n : ℕ) : Shape × ℕ × ℕ :=
  let r3 := s.grow3 (l2Pagetab a) n
  let r2 := r3.1.grow2 r3.2.1 (l1Pagetab a) r3.2.2
  r2.1.grow1 r2.2.1 (page a) r2.2.2

end Shape

/-- The owner of `a` that page `q` records: `0` with no page. -/
def ownerIn (h : Heap) (q : Option ℕ) (a : ℕ) : UInt8 :=
  match q.bind h.pageAt with
  | some p => p.owningThread (byteInPage a)
  | none => 0

/-- What the table says the owner of `a` is: the byte of its page, `0` with no page. -/
def content (h : Heap) (s : Shape) (a : ℕ) : UInt8 := ownerIn h (s.path a) a

lemma content_congr {h h' : Heap} {s s' : Shape} (hp : ∀ b, s'.path b = s.path b)
    (hq : ∀ q ∈ s.ids, h'.pageAt q = h.pageAt q) : content h' s' = content h s := by
  funext b
  simp only [content, ownerIn, hp]
  cases hb : s.path b with
  | none => rfl
  | some q => simp [hq q (Shape.path_mem hb)]

lemma write_self {h : Heap} {i : ℕ} {n : Node} (hi : h.node i = some n) : h.write i n = h := by
  cases h; simp only [Heap.write, ← hi, Function.update_eq_self]

lemma pageAt_callocWrite {h : Heap} {c nd : Node} {i q : ℕ} (hq : q ≠ h.next)
    (hi : h.pageAt i = none) (hnd : ∀ p, nd ≠ .page p) :
    ((h.calloc c).write i nd).pageAt q = h.pageAt q := by
  by_cases hqi : q = i
  · subst hqi
    rw [hi]; simp only [Heap.pageAt, Heap.write_node, if_pos rfl]
    split <;> simp_all
  · simp [Heap.pageAt, node_callocWrite hqi hq]

lemma fresh_iff {n k : ℕ} : k = n ↔ n ≤ k ∧ k < n + 1 := by omega

lemma next_le_descend (h : Heap) (t : Tab) (ix : ℕ) (mk : Option ℕ → Node) :
    h.next ≤ (descend h t ix mk).1.next := by
  unfold descend; split <;> simp

lemma Rep.level1 (r : Rep m s) {x : ℕ} {h' : Heap} {t' : Tab} {c : ℕ}
    (hd : descend m.heap m.l3 x (newNode .l2) = (h', t', c)) :
    ∃ s', Rep ⟨h', t'⟩ s' ∧ s.grow3 x m.heap.next = (s', c, h'.next) ∧
      s'.l3.lookup x = some c ∧ content h' s' = content m.heap s ∧
      ∀ k, k ∈ s'.ids ↔ k ∈ s.ids ∨ m.heap.next ≤ k ∧ k < h'.next := by
  unfold descend at hd
  split at hd
  · cases hd
    have hl : s.l3.lookup x = some c := by rw [← r.l3.slots]; assumption
    exact ⟨s, r, by simp [Shape.grow3, hl], hl, rfl, fun k => by simp⟩
  · cases hd
    have hx := r.l3.not_key ‹_›
    have hn2 : m.heap.next ∉ s.l2s := fun h => lt_irrefl _ (r.lt_next (s.mem_ids_of_l2 h))
    refine ⟨_, r.addL2 ‹_›, by simp [Shape.grow3, ← r.l3.slots, *], by simp [Shape.addL2],
      content_congr (Shape.path_addL2 hx hn2) fun q hq => by
        simp [Heap.pageAt, calloc_node_lt (r.lt_next hq)], fun k => ?_⟩
    rw [Shape.ids_addL2 hn2, List.mem_cons, Heap.calloc_next, or_comm, fresh_iff]

lemma Rep.level2 (r : Rep m s) {i : ℕ} (hi : i ∈ s.l2s) {t : CtPagetab}
    (ht : m.heap.tabAt .l2 i = some t) {x : ℕ} {h' : Heap} {tab : Tab} {c : ℕ}
    (hd : descend m.heap t.toTab x (newNode .l1) = (h', tab, c)) :
    ∃ s', Rep ⟨h'.write i (.l2 { t with toTab := tab }), m.l3⟩ s' ∧
      s.grow2 i x m.heap.next = (s', c, h'.next) ∧ s'.l3 = s.l3 ∧
      (s'.l2 i).lookup x = some c ∧
      content (h'.write i (.l2 { t with toTab := tab })) s' = content m.heap s ∧
      ∀ k, k ∈ s'.ids ↔ k ∈ s.ids ∨ m.heap.next ≤ k ∧ k < h'.next := by
  obtain ⟨t', ht', tr⟩ := r.tabs .l2 i hi
  simp only [Shape.entries, TabLevel.child] at tr
  obtain rfl : t = t' := Option.some.inj (ht.symm.trans ht')
  have hn : m.heap.next ∉ s.ids := fun h => lt_irrefl _ (r.lt_next h)
  unfold descend at hd
  split at hd
  · cases hd
    have hn : m.heap.node i = some (.l2 t) := tabAt_node ht
    rw [write_self hn]
    have hl : (s.l2 i).lookup x = some c := by rw [← tr.slots]; assumption
    exact ⟨s, r, by simp [Shape.grow2, hl], rfl, hl, rfl, fun k => by simp⟩
  · cases hd
    refine ⟨s.addL1 i x m.heap.next, r.grow hi ht ‹_›, by simp [Shape.grow2, ← tr.slots, *], rfl,
      by simp [Shape.addL1],
      content_congr (Shape.path_addL1 (tr.not_key ‹_›) hn) fun q hq =>
        pageAt_callocWrite (r.ne_next hq) (by simp [Heap.pageAt, tabAt_node ht, Node.ofTab])
          (by intro _ h; cases h), fun k => ?_⟩
    rw [(Shape.ids_addL1 r.nodup hi hn).mem_iff, List.mem_cons, Heap.calloc_next, or_comm,
      fresh_iff]

lemma Rep.level3 (r : Rep m s) {i j : ℕ} (hi : i ∈ s.l2s) (hj : j ∈ s.l1sOf i)
    {t : CtPagetab} (ht : m.heap.tabAt .l1 j = some t) {x : ℕ} {h' : Heap} {tab : Tab} {c : ℕ}
    (hd : descend m.heap t.toTab x (newNode .page) = (h', tab, c)) :
    ∃ s', Rep ⟨h'.write j (.l1 { t with toTab := tab }), m.l3⟩ s' ∧
      s.grow1 j x m.heap.next = (s', c, h'.next) ∧ s'.l3 = s.l3 ∧
      s'.l2 = s.l2 ∧ (s'.l1 j).lookup x = some c ∧
      content (h'.write j (.l1 { t with toTab := tab })) s' = content m.heap s ∧
      ∀ k, k ∈ s'.ids ↔ k ∈ s.ids ∨ m.heap.next ≤ k ∧ k < h'.next := by
  obtain ⟨t', ht', tr⟩ := r.tabs .l1 j (s.mem_l1s hi hj)
  simp only [Shape.entries, TabLevel.child] at tr
  obtain rfl : t = t' := Option.some.inj (ht.symm.trans ht')
  have hjn := r.ne_next (s.mem_ids_of_l1 hi hj)
  unfold descend at hd
  split at hd
  · cases hd
    have hn : m.heap.node j = some (.l1 t) := tabAt_node ht
    rw [write_self hn]
    have hl : (s.l1 j).lookup x = some c := by rw [← tr.slots]; assumption
    exact ⟨s, r, by simp [Shape.grow1, hl], rfl, rfl, hl, rfl, fun k => by simp⟩
  · cases hd
    have hx := tr.not_key ‹_›
    refine ⟨s.addPage j x m.heap.next, r.grow (s.mem_l1s hi hj) ht ‹_›,
      by simp [Shape.grow1, ← tr.slots, *], rfl, rfl,
      by simp [Shape.addPage], ?_, fun k => ?_⟩
    swap
    · rw [(Shape.ids_addPage r.nodup hi hj).mem_iff, List.mem_cons, Heap.calloc_next, or_comm,
        fresh_iff]
    funext b
    simp only [content, ownerIn, Shape.path_addPage hx]
    split_ifs with hb
    · obtain ⟨hl, rfl⟩ := hb
      have : s.path b = none := by simp [Shape.path, hl, lookup_of_not_key hx]
      simp [this, Heap.pageAt, Heap.write_node, Heap.calloc_node, hjn.symm, newNode]
    · cases hq : s.path b with
      | none => rfl
      | some q =>
        rw [Option.some_bind, Option.some_bind, pageAt_callocWrite (r.ne_next (Shape.path_mem hq))
          (by simp [Heap.pageAt, tabAt_node ht, Node.ofTab]) (by intro _ h; cases h)]

/-- **`ct_get_page` on a well-formed table** succeeds, keeps the table well formed and what it
says about every address, and returns the page that the slots of `a` now lead to. -/
theorem Rep.ctGetPage (r : Rep m s) (a : ℕ) :
    ∃ m' ip s', ctGetPage m a = some (m', ip) ∧ Rep m' s' ∧ s'.path a = some ip ∧
      content m'.heap s' = content m.heap s ∧
      (∀ k, k ∈ s'.ids ↔ k ∈ s.ids ∨ m.heap.next ≤ k ∧ k < m'.heap.next) ∧
      s.getPage a m.heap.next = (s', ip, m'.heap.next) := by
  rcases hd1 : descend m.heap m.l3 (l2Pagetab a) (newNode .l2) with ⟨h1, t3, i2⟩
  obtain ⟨s1, r1, hg1, hl1, hc1, hk1⟩ := r.level1 hd1
  have hi2 := mem_of_lookup hl1
  obtain ⟨t2, ht2, -⟩ := r1.tabs .l2 i2 hi2
  rcases hd2 : descend h1 t2.toTab (l1Pagetab a) (newNode .l1) with ⟨h2, tab2, i1⟩
  obtain ⟨s2, r2, hg2, hs2, hl2, hc2, hk2⟩ := r1.level2 hi2 ht2 hd2
  have hi1 := mem_of_lookup hl2
  have hi2' : i2 ∈ s2.l2s := by simpa [Shape.l2s, hs2] using hi2
  obtain ⟨t1, ht1, -⟩ := r2.tabs .l1 i1 (s2.mem_l1s hi2' hi1)
  rcases hd3 : descend (h2.write i2 (.l2 { t2 with toTab := tab2 })) t1.toTab (page a)
    (newNode .page)
    with ⟨h3, tab1, ip⟩
  obtain ⟨s3, r3, hg3, hs3, hs3', hl3, hc3, hk3⟩ := r2.level3 hi2' hi1 ht1 hd3
  refine ⟨_, ip, s3, ?_, r3, ?_, hc3.trans (hc2.trans hc1), fun k => ?_, ?_⟩
  · simp only [Pagetab.ctGetPage, hd1]
    simp only [ht2, Option.bind_eq_bind, Option.some_bind, hd2]
    simp only [ht1, Option.some_bind, hd3]
    rfl
  · simp [Shape.path, Shape.l1Path, hs3, hs2, hl1, hs3', hl2, hl3]
  · have e1 := next_le_descend m.heap m.l3 (l2Pagetab a) (newNode .l2)
    have e2 := next_le_descend h1 t2.toTab (l1Pagetab a) (newNode .l1)
    have e3 := next_le_descend (h2.write i2 (.l2 { t2 with toTab := tab2 })) t1.toTab (page a)
      (newNode .page)
    simp only [hd1, hd2, hd3, Heap.write_next] at e1 e2 e3 hk2 hk3 ⊢
    rw [hk3, hk2, hk1]
    by_cases hk : k ∈ s.ids
    · simp [hk]
    · simp only [hk, false_or]; omega
  · simp only [Shape.getPage, hg1, hg2, Heap.write_next] at hg3 ⊢
    rw [hg3]


end Checkedthreads.AllocLists
